import Apcore.Config.EnvKeys
import Apcore.Config.Store
import Apcore.Lib.Lists

/-! # `Config.EnvRouting` — which namespace an environment variable is for

In namespace mode a variable goes to the key that an env map has for it, or to the namespace with
the longest prefix that the name begins with, or, with the general prefix, to the framework's own
section. -/

namespace Apcore

namespace Config

/-- `EnvStyle`. -/
inductive EnvStyle where
  | nested | flat | auto
  deriving DecidableEq, Repr

/-- A `NamespaceRegistration`, with what the environment variables ask of it. -/
structure EnvRegistration extends NamespaceRegistration where
  envPrefix : Option String
  envStyle : EnvStyle := .auto
  maxDepth : Nat := 5
  envMap : Option (List (String × String)) := none

/-- `global_ns_registry()`, in the order the map is walked in. -/
abbrev EnvRegistry := List EnvRegistration

/-- `resolve_env_suffix`. -/
def resolveEnvSuffix (lower : String → String) (suffix : String) (reg : EnvRegistration) : String :=
  match reg.envStyle with
  | .flat => lower suffix
  | .auto =>
    match reg.defaults.bind (·.1.asObject?) with
    | some tree =>
      (matchSuffixToTree (lower suffix) tree 0 reg.maxDepth).getD
        (envKeyToDotPathWithDepth lower suffix reg.maxDepth)
    | none => envKeyToDotPathWithDepth lower suffix reg.maxDepth
  | .nested => envKeyToDotPathWithDepth lower suffix reg.maxDepth

/-- What a name has after the prefix of a registration; the underscore between them may be
missing. -/
def EnvRegistration.suffixOf (envKey : String) (reg : EnvRegistration) :
    Option (EnvRegistration × String) :=
  (stripLead (reg.envPrefix.getD "") envKey).bind fun rest =>
    let suffix := (stripLead "_" rest).getD rest
    if suffix = "" then none else some (reg, suffix)

def EnvRegistration.prefixSize (reg : EnvRegistration) : Nat :=
  (reg.envPrefix.map String.utf8ByteSize).getD 0

/-- The dispatch by prefixes, longest first. -/
def prefixDispatch (registry : EnvRegistry) (envKey : String) : Option (EnvRegistration × String) :=
  LongestMatch.find EnvRegistration.prefixSize (EnvRegistration.suffixOf envKey)
    (registry.filter (·.envPrefix.isSome))

/-- The namespace and the key that an env map of a registration has for a variable. -/
def namespaceEnvMap (registry : EnvRegistry) (envKey : String) : Option (String × String) :=
  registry.reverse.findSome? fun reg =>
    (Fields.get? (reg.envMap.getD []) envKey).map (reg.name, ·)

/-- Where a variable goes. -/
inductive EnvRoute where
  | globalMap (key : String)
  | namespaceMap (name key : String)
  | prefixed (reg : EnvRegistration) (suffix : String)
  | fallback (suffix : String)
  | nowhere

/-- The body of the loop of `apply_namespace_env_overrides`, up to the key. -/
def envRoute (globalEnvMap : List (String × String)) (registry : EnvRegistry) (envKey : String) :
    EnvRoute :=
  match Fields.get? globalEnvMap envKey with
  | some key => .globalMap key
  | none =>
    match namespaceEnvMap registry envKey with
    | some (name, key) => .namespaceMap name key
    | none =>
      match prefixDispatch registry envKey with
      | some (reg, suffix) => .prefixed reg suffix
      | none =>
        if envKey = "APCORE_CONFIG_FILE" then .nowhere
        else
          match stripLead "APCORE_" envKey with
          | some suffix => .fallback suffix
          | none => .nowhere

/-- The key that the value of the variable is put at. -/
def EnvRoute.key (lower : String → String) : EnvRoute → Option String
  | .globalMap key => some key
  | .namespaceMap name key => some (name ++ "." ++ key)
  | .prefixed reg suffix => some (reg.name ++ "." ++ resolveEnvSuffix lower suffix reg)
  -- `env_key_to_dot_path` has no limit
  | .fallback suffix => some (qualified (envKeyToDotPathWithDepth lower suffix (2 ^ 64 - 1)))
  | .nowhere => none

/-- A name is a prefix and a suffix that is not empty, with an underscore between them, or with none
where the suffix does not begin with one. -/
def Follows (lead name suffix : String) : Prop :=
  suffix ≠ "" ∧
    (name = lead ++ "_" ++ suffix ∨ name = lead ++ suffix ∧ suffix.toList.head? ≠ some '_')

/-- No env map has the variable. -/
def Unclaimed (globalEnvMap : List (String × String)) (registry : EnvRegistry) (envKey : String) :
    Prop :=
  Fields.get? globalEnvMap envKey = none ∧
    ∀ reg ∈ registry, Fields.get? (reg.envMap.getD []) envKey = none

/-! ## The dispatch -/

variable {registry : EnvRegistry} {envKey suffix : String} {reg : EnvRegistration}

/-- What is stripped of a prefix. -/
theorem suffixOf_eq_some {result : EnvRegistration × String} :
    reg.suffixOf envKey = some result ↔
      result.1 = reg ∧ Follows (reg.envPrefix.getD "") envKey result.2 := by
  obtain ⟨reg', suffix⟩ := result
  rw [EnvRegistration.suffixOf, Option.bind_eq_some_iff]
  constructor
  · rintro ⟨rest, hrest, hsuffix⟩
    have hname := stripLead_eq_some.mp hrest
    have hne : (stripLead "_" rest).getD rest ≠ "" := by
      intro h
      rw [h] at hsuffix
      cases hsuffix
    rw [if_neg hne] at hsuffix
    obtain ⟨rfl, rfl⟩ := Prod.mk.inj (Option.some.inj hsuffix)
    refine ⟨rfl, hne, ?_⟩
    cases hunder : stripLead "_" rest with
    | some rest' =>
      refine .inl ?_
      rw [hname, stripLead_eq_some.mp hunder, ← String.append_assoc]
      rfl
    | none =>
      refine .inr ⟨hname, fun hhead => ?_⟩
      obtain ⟨chars, hchars⟩ := List.head?_eq_some_iff.mp hhead
      have hsplit : rest = "_" ++ String.ofList chars := by
        apply String.toList_injective
        simpa using hchars
      rw [stripLead_eq_some.mpr hsplit] at hunder
      cases hunder
  · rintro ⟨rfl, hne, hname | ⟨hname, hhead⟩⟩
    · refine ⟨"_" ++ suffix, stripLead_eq_some.mpr (hname.trans String.append_assoc), ?_⟩
      have hunder : stripLead "_" ("_" ++ suffix) = some suffix := stripLead_eq_some.mpr rfl
      rw [hunder, Option.getD_some, if_neg hne]
    · refine ⟨suffix, stripLead_eq_some.mpr hname, ?_⟩
      have hunder : stripLead "_" suffix = none := by
        refine stripLead_eq_none ?_
        rintro rest rfl
        refine hhead ?_
        rw [String.toList_append]
        rfl
      rw [hunder, Option.getD_none, if_neg hne]

theorem Follows.leads {lead name : String} (h : Follows lead name suffix) :
    lead.toList <+: name.toList := by
  rcases h.2 with rfl | ⟨rfl, -⟩
  · rw [String.toList_append, String.toList_append, List.append_assoc]
    exact List.prefix_append _ _
  · rw [String.toList_append]
    exact List.prefix_append _ _

/-- Of two prefixes of one name, the one that is as long is the same. -/
theorem eq_of_prefixes {first second name : String} (hfirst : first.toList <+: name.toList)
    (hsecond : second.toList <+: name.toList) (hsize : first.utf8ByteSize = second.utf8ByteSize) :
    first = second := by
  have hlonger : ∀ {p q : String}, p.toList <+: q.toList → p.utf8ByteSize = q.utf8ByteSize → p = q := by
    rintro p q ⟨rest, hrest⟩ hpq
    have hq : q = p ++ String.ofList rest := by
      apply String.toList_injective
      simpa using hrest.symm
    rw [hq, String.utf8ByteSize_append] at hpq
    have hzero : (String.ofList rest).utf8ByteSize = 0 := by omega
    rw [hq, String.utf8ByteSize_eq_zero_iff.mp hzero]
    simp
  rcases List.prefix_or_prefix_of_prefix hfirst hsecond with h | h
  · exact hlonger h hsize
  · exact (hlonger h hsize.symm).symm

/-- The prefixes of the registry are distinct. -/
def DistinctPrefixes (registry : EnvRegistry) : Prop := (registry.map (·.envPrefix)).Nodup

theorem distinct_prefixed (h : DistinctPrefixes registry) : LongestMatch.Distinct
    EnvRegistration.prefixSize (EnvRegistration.suffixOf envKey)
    (registry.filter (·.envPrefix.isSome)) := by
  intro reg hreg reg' hreg' hsome hsome' hsize
  obtain ⟨result, hresult⟩ := Option.isSome_iff_exists.mp hsome
  obtain ⟨result', hresult'⟩ := Option.isSome_iff_exists.mp hsome'
  have hlead := (suffixOf_eq_some.mp hresult).2.leads
  have hlead' := (suffixOf_eq_some.mp hresult').2.leads
  obtain ⟨hmem, hprefix⟩ := List.mem_filter.mp hreg
  obtain ⟨hmem', hprefix'⟩ := List.mem_filter.mp hreg'
  obtain ⟨lead, hl⟩ := Option.isSome_iff_exists.mp hprefix
  obtain ⟨lead', hl'⟩ := Option.isSome_iff_exists.mp hprefix'
  rw [hl, Option.getD_some] at hlead
  rw [hl', Option.getD_some] at hlead'
  rw [EnvRegistration.prefixSize, EnvRegistration.prefixSize, hl, hl', Option.map_some,
    Option.map_some, Option.getD_some, Option.getD_some] at hsize
  have hsame : reg.envPrefix = reg'.envPrefix := by
    rw [hl, hl', eq_of_prefixes hlead hlead' hsize]
  exact List.inj_on_of_nodup_map h hmem hmem' hsame

/-- The dispatch is to the registration whose prefix is the longest that the name follows. -/
theorem prefixDispatch_iff (h : DistinctPrefixes registry) :
    prefixDispatch registry envKey = some (reg, suffix) ↔
      reg ∈ registry ∧ ∃ lead, reg.envPrefix = some lead ∧ Follows lead envKey suffix ∧
        ∀ other ∈ registry, ∀ lead' suffix', other.envPrefix = some lead' →
          Follows lead' envKey suffix' → lead'.utf8ByteSize ≤ lead.utf8ByteSize := by
  rw [prefixDispatch, LongestMatch.find_eq_some_iff (distinct_prefixed h)]
  constructor
  · rintro ⟨reg', hmem, hsuffix, hlongest⟩
    obtain ⟨hsame, hfollows⟩ := suffixOf_eq_some.mp hsuffix
    obtain rfl : reg = reg' := hsame
    obtain ⟨hreg, hprefix⟩ := List.mem_filter.mp hmem
    obtain ⟨lead, hlead⟩ := Option.isSome_iff_exists.mp hprefix
    rw [hlead, Option.getD_some] at hfollows
    refine ⟨hreg, lead, hlead, hfollows, fun other hother lead' suffix' hlead' hfollows' => ?_⟩
    have hsome : (other.suffixOf envKey).isSome = true := by
      rw [Option.isSome_iff_exists]
      refine ⟨(other, suffix'), suffixOf_eq_some.mpr ⟨rfl, ?_⟩⟩
      rwa [hlead', Option.getD_some]
    have hsize := hlongest other (List.mem_filter.mpr ⟨hother, by rw [hlead']; rfl⟩) hsome
    rwa [EnvRegistration.prefixSize, EnvRegistration.prefixSize, hlead, hlead', Option.map_some,
      Option.map_some, Option.getD_some, Option.getD_some] at hsize
  · rintro ⟨hreg, lead, hlead, hfollows, hlongest⟩
    refine ⟨reg, List.mem_filter.mpr ⟨hreg, by rw [hlead]; rfl⟩, ?_, fun other hother hsome => ?_⟩
    · refine suffixOf_eq_some.mpr ⟨rfl, ?_⟩
      rwa [hlead, Option.getD_some]
    · obtain ⟨⟨other', suffix'⟩, hother'⟩ := Option.isSome_iff_exists.mp hsome
      obtain ⟨hmem, hprefix⟩ := List.mem_filter.mp hother
      obtain ⟨lead', hlead'⟩ := Option.isSome_iff_exists.mp hprefix
      have hfollows' := (suffixOf_eq_some.mp hother').2
      rw [hlead', Option.getD_some] at hfollows'
      have hsize := hlongest other hmem lead' suffix' hlead' hfollows'
      rwa [EnvRegistration.prefixSize, EnvRegistration.prefixSize, hlead, hlead', Option.map_some,
        Option.map_some, Option.getD_some, Option.getD_some]

/-! ## The route -/

variable {globalEnvMap : List (String × String)}

theorem namespaceEnvMap_eq_none (h : ∀ reg ∈ registry, Fields.get? (reg.envMap.getD []) envKey = none) :
    namespaceEnvMap registry envKey = none := by
  rw [namespaceEnvMap, List.findSome?_eq_none_iff]
  intro reg hreg
  rw [h reg (List.mem_reverse.mp hreg)]
  rfl

/-- Of a variable that no env map has, the prefixes decide. -/
theorem envRoute_prefixed_iff (hunclaimed : Unclaimed globalEnvMap registry envKey) :
    envRoute globalEnvMap registry envKey = .prefixed reg suffix ↔
      prefixDispatch registry envKey = some (reg, suffix) := by
  rw [envRoute, hunclaimed.1, namespaceEnvMap_eq_none hunclaimed.2]
  cases prefixDispatch registry envKey with
  | none =>
    refine iff_of_false (fun h => ?_) (fun h => by cases h)
    dsimp only at h
    split_ifs at h
    split at h
    · cases h
    · cases h
  | some result => simp [Prod.ext_iff]

/-- **A variable that no env map has goes to the namespace whose prefix is the longest that its name
follows**, and to no other, in whatever order the registry is walked. -/
theorem envRoute_longest (hdistinct : DistinctPrefixes registry)
    (hunclaimed : Unclaimed globalEnvMap registry envKey) :
    (∀ reg suffix, envRoute globalEnvMap registry envKey = .prefixed reg suffix ↔
        reg ∈ registry ∧ ∃ lead, reg.envPrefix = some lead ∧ Follows lead envKey suffix ∧
          ∀ other ∈ registry, ∀ lead' suffix', other.envPrefix = some lead' →
            Follows lead' envKey suffix' → lead'.utf8ByteSize ≤ lead.utf8ByteSize) ∧
      ∀ registry', registry.Perm registry' →
        envRoute globalEnvMap registry' envKey = envRoute globalEnvMap registry envKey := by
  refine ⟨fun reg suffix => ?_, fun registry' hperm => ?_⟩
  · rw [envRoute_prefixed_iff hunclaimed, prefixDispatch_iff hdistinct]
  · have hdispatch : prefixDispatch registry envKey = prefixDispatch registry' envKey :=
      LongestMatch.find_perm (distinct_prefixed hdistinct) (hperm.filter _)
    have hnone : ∀ reg ∈ registry', Fields.get? (reg.envMap.getD []) envKey = none :=
      fun reg hreg => hunclaimed.2 reg (hperm.mem_iff.mpr hreg)
    rw [envRoute, envRoute, namespaceEnvMap_eq_none hunclaimed.2, namespaceEnvMap_eq_none hnone,
      hdispatch]

/-! ## A name that begins with the letters of a prefix -/

/-- Two of the built-in registrations. -/
def builtins : EnvRegistry :=
  [{ name := "observability", envPrefix := some "APCORE_OBSERVABILITY" },
    { name := "sys_modules", envPrefix := some "APCORE_SYS" }]

theorem distinctPrefixes_builtins : DistinctPrefixes builtins := by
  rw [DistinctPrefixes, builtins]
  decide

theorem unclaimed_builtins (envKey : String) : Unclaimed [] builtins envKey := by
  refine ⟨rfl, fun reg hreg => ?_⟩
  rcases List.mem_cons.mp hreg with rfl | hreg
  · rfl
  · rw [List.mem_singleton.mp hreg]
    rfl

/-- The longest prefix is found, however the registry is listed. -/
theorem envRoute_longest_builtins :
    envRoute [] builtins "APCORE_SYS_ENABLED" =
        .prefixed { name := "sys_modules", envPrefix := some "APCORE_SYS" } "ENABLED" ∧
      envRoute [] builtins.reverse "APCORE_SYS_ENABLED" =
        envRoute [] builtins "APCORE_SYS_ENABLED" := by
  have hlongest := envRoute_longest distinctPrefixes_builtins (unclaimed_builtins "APCORE_SYS_ENABLED")
  refine ⟨(hlongest.1 _ _).mpr ⟨List.mem_cons_of_mem _ List.mem_cons_self, "APCORE_SYS", rfl,
    ⟨by decide, .inl rfl⟩, ?_⟩, hlongest.2 _ (List.reverse_perm _).symm⟩
  intro other hother lead' suffix' hlead' hfollows
  rcases List.mem_cons.mp hother with rfl | hother
  · obtain rfl := Option.some.inj hlead'
    exact absurd hfollows.leads (by decide)
  · rw [List.mem_singleton.mp hother] at hlead'
    obtain rfl := Option.some.inj hlead'
    exact Nat.le_refl _

/-- `APCORE_SYSTEM_ROOT` goes to `sys_modules`, as `tem_root`. -/
theorem systemRoot_routed :
    ¬ ∀ (globalEnvMap : List (String × String)) (registry : EnvRegistry) (envKey : String)
      (reg : EnvRegistration) (suffix : String), DistinctPrefixes registry →
        Unclaimed globalEnvMap registry envKey →
        envRoute globalEnvMap registry envKey = .prefixed reg suffix →
          ∃ lead, reg.envPrefix = some lead ∧ envKey = lead ++ "_" ++ suffix ∧ suffix ≠ "" := by
  intro h
  have hroute : envRoute [] builtins "APCORE_SYSTEM_ROOT" =
      .prefixed { name := "sys_modules", envPrefix := some "APCORE_SYS" } "TEM_ROOT" := by
    rw [envRoute_prefixed_iff (unclaimed_builtins _), prefixDispatch_iff distinctPrefixes_builtins]
    refine ⟨List.mem_cons_of_mem _ List.mem_cons_self, "APCORE_SYS", rfl, ?_, ?_⟩
    · exact ⟨by decide, .inr ⟨by decide, by decide⟩⟩
    · intro other hother lead' suffix' hlead' hfollows
      rcases List.mem_cons.mp hother with rfl | hother
      · obtain rfl := Option.some.inj hlead'
        exact absurd hfollows.leads (by decide)
      · rw [List.mem_singleton.mp hother] at hlead'
        obtain rfl := Option.some.inj hlead'
        exact Nat.le_refl _
  obtain ⟨lead, hlead, hname, -⟩ := h [] builtins _ _ _ distinctPrefixes_builtins
    (unclaimed_builtins _) hroute
  obtain rfl := Option.some.inj hlead
  exact absurd hname (by decide)

end Config

end Apcore
