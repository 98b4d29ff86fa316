import Apcore.Config.GetSet

/-! # `Config.Views` — `get`, `data` and `namespace` on one configuration

`get` reads a section from its typed fields and from what is written, `data` lists every section, and
`namespace` lays a section over the defaults of its registration. What `get` finds in the
configuration is at the same place of `data`, and under the registered defaults at the same place of
`namespace`. -/

open Nested

namespace Apcore.Config

/-! ## The accessors -/

/-- What the registration of a namespace has below every section that is loaded. -/
def registeredDefaults (registry : NamespaceRegistry) (name : String) : Value :=
  match (registry.find? (·.name = name)).bind (·.defaults) with
  | some defaults => if defaults.1.isObject then .merge .empty defaults else .empty
  | none => .empty

/-- `namespace`. -/
def namespaceOf (registry : NamespaceRegistry) (c : Config) (name : String) : Value :=
  let merged := registeredDefaults registry name
  if name = "observability" then .merge merged c.observabilityView
  else if name = "executor" then .merge merged c.executorView
  else match c.userNamespaces.child name with
    | some loaded => if loaded.1.isObject then .merge merged loaded else merged
    | none => merged

/-- Walking a path in a document. -/
def walk : List String → Json → Option Json
  | [], v => some v
  | key :: path, v => (Fields.get? (v.asObject?.getD []) key).bind (walk path)

/-- Where `get` finds a value in the configuration: under the key, or with `apcore.` before it. -/
inductive Found (registry : NamespaceRegistry) (c : Config) (key : String) (v : Value) : String → Prop
  | own (h : c.getDirect registry key = some v) : Found registry c key v key
  | implied (hnone : c.getDirect registry key = none) (himplies : c.impliesApcore key = true)
      (h : c.getDirect registry (qualified key) = some v) : Found registry c key v (qualified key)

/-- The accessors agree on a configuration. -/
structure ViewsAgree (registry : NamespaceRegistry) (c : Config) : Prop where
  get : ∀ key v, c.get registry key = some v ↔ (∃ found, Found registry c key v found) ∨
    (∀ found w, ¬ Found registry c key w found) ∧ c.later registry key = some v
  data : ∀ key v found, Proper key → key ≠ "modules_path" → Found registry c key v found →
    walk (segments found) c.data = some v.1
  registered : ∀ key v found name below, Proper key → key ≠ "modules_path" →
    Found registry c key v found → segments found = name :: below →
    below ≠ [] ∨ v.1.isObject = true →
    Value.nested.read below (namespaceOf registry c name) =
      some (.merge ((Value.nested.read below (registeredDefaults registry name)).getD .empty) v)
  leaf : ∀ key v found name below, Proper key → key ≠ "modules_path" →
    Found registry c key v found → segments found = name :: below → below ≠ [] →
    v.1.isObject = false → Value.nested.read below (namespaceOf registry c name) = some v
  container : ∀ key v found, Proper key → key ≠ "modules_path" → Found registry c key v found →
    v.1.isObject = true → ∀ rest : List String, (∀ part ∈ rest, part ≠ "" ∧ '.' ∉ part.toList) →
      ∃ sub, segments sub = segments found ++ rest ∧
        c.getDirect registry sub = Value.nested.read rest v

/-! ## What is found -/

section Found

variable {registry : NamespaceRegistry} {c : Config} {key found : String} {v : Value}

/-- What is found is a direct answer at a proper key. -/
theorem Found.direct (h : Found registry c key v found) (hproper : Proper key)
    (hkey : key ≠ "modules_path") :
    c.getDirect registry found = some v ∧ Proper found ∧ found ≠ "modules_path" := by
  cases h with
  | own h => exact ⟨h, hproper, hkey⟩
  | implied _ _ h =>
    refine ⟨h, proper_qualified hproper, fun heq => ?_⟩
    have hplain : segments (qualified key) = ["modules_path"] := by
      rw [heq]
      exact segments_of_not_mem (by decide)
    rw [segments_qualified] at hplain
    exact absurd (List.cons.inj hplain).1 (by decide)

theorem get_eq_found : c.get registry key = some v ↔ (∃ found, Found registry c key v found) ∨
    (∀ found w, ¬ Found registry c key w found) ∧ c.later registry key = some v := by
  have hlater : c.get registry key = (c.getDirect registry key).or
      ((if c.impliesApcore key then c.getDirect registry (qualified key) else none).or
        (c.later registry key)) := rfl
  rw [hlater]
  cases hown : c.getDirect registry key with
  | some w =>
    rw [Option.some_or]
    constructor
    · rintro hv
      exact .inl ⟨key, .own (hown.trans hv)⟩
    · rintro (⟨found, hfound⟩ | ⟨hnone, -⟩)
      · cases hfound with
        | own h => exact hown.symm.trans h
        | implied hnone _ _ =>
          rw [hown] at hnone
          cases hnone
      · exact absurd (.own hown) (hnone key w)
  | none =>
    rw [Option.none_or]
    have hfound : ∀ {found w}, Found registry c key w found →
        (if c.impliesApcore key then c.getDirect registry (qualified key) else none) = some w := by
      rintro found w (h | ⟨-, himplies, h⟩)
      · rw [hown] at h
        cases h
      · rw [if_pos himplies, h]
    cases himplied : (if c.impliesApcore key then c.getDirect registry (qualified key) else none) with
    | some w =>
      rw [Option.some_or]
      obtain ⟨himplies, hw⟩ := Option.ite_none_right_eq_some.mp himplied
      constructor
      · rintro hv
        exact .inl ⟨_, .implied hown himplies (hw.trans hv)⟩
      · rintro (⟨found, h⟩ | ⟨hnone, -⟩)
        · exact himplied.symm.trans (hfound h)
        · exact absurd (.implied hown himplies hw) (hnone _ w)
    | none =>
      rw [Option.none_or]
      have hnone : ∀ found w, ¬ Found registry c key w found := by
        intro found w h
        have hsome := hfound h
        rw [himplied] at hsome
        cases hsome
      constructor
      · exact fun hv => .inr ⟨hnone, hv⟩
      · rintro (⟨found, h⟩ | ⟨-, hv⟩)
        · exact absurd h (hnone found v)
        · exact hv

end Found

/-! ## Where it is -/

section Place

variable {registry : NamespaceRegistry} {c : Config} {key name : String} {v : Value}
  {below : List String}

/-- A typed field is at its place in the view of its section. -/
theorem read_view_of_typed (hkey : key ≠ "modules_path") (hsegments : segments key = name :: below)
    (h : getTypedField c.toTypedFields key = some v) :
    (name = "executor" ∨ name = "observability") ∧
      Value.nested.read below (c.sectionView name) = some v := by
  obtain ⟨f, hfield, hread⟩ := Option.bind_eq_some_iff.mp h
  obtain rfl := TypedField.ofKey?_eq_some.mp hfield
  have hf : f ≠ .modulesPath := by
    rintro rfl
    exact hkey rfl
  rw [TypedField.segments_key] at hsegments
  obtain ⟨rfl, rfl⟩ := List.cons.inj hsegments
  have hname := section_of_below (f.below_ne_nil hf)
  refine ⟨hname, ?_⟩
  have hsection := (read_typedSection hname rfl c.toTypedFields).trans hread
  exact (Value.read_merge_of_read hsection).trans
    (congrArg some (Value.merge_of_not_object (f.isObject_read hread)))

/-- A key of a section with a view is read there. -/
theorem getDirect_eq_view (hproper : Proper key) (hkey : key ≠ "modules_path")
    (hsegments : segments key = name :: below) (hname : name = "executor" ∨ name = "observability")
    (hpresent : name = "observability" → (c.userNamespaces.child name).isSome) :
    c.getDirect registry key = Value.nested.read below (c.sectionView name) := by
  have hor : (getTypedField c.toTypedFields key).or (Value.nested.read below (c.sectionView name)) =
      Value.nested.read below (c.sectionView name) := by
    cases htyped : getTypedField c.toTypedFields key with
    | none => rfl
    | some w => exact (read_view_of_typed hkey hsegments htyped).2.symm
  rcases hname with rfl | rfl
  · rw [getDirect_executor c hproper hsegments, hor]
  · obtain ⟨block, hblock⟩ := Option.isSome_iff_exists.mp (hpresent rfl)
    rw [getDirect_observability c hproper hsegments, hblock, Option.bind_some, hor]

/-- The other keys are read as written. -/
theorem getDirect_eq_written (hdotless : Dotless registry) (hproper : Proper key)
    (hkey : key ≠ "modules_path") (hsegments : segments key = name :: below)
    (hexecutor : name ≠ "executor") (hobservability : name ≠ "observability") :
    c.getDirect registry key = (c.userNamespaces.child name).bind (Value.nested.read below) := by
  have hnone : getTypedField c.toTypedFields key = none :=
    Option.eq_none_iff_forall_ne_some.mpr fun w hw =>
      (read_view_of_typed hkey hsegments hw).1.elim hexecutor hobservability
  rw [getDirect_written c hdotless hproper (by rw [hsegments]; simpa using hexecutor)
    (by rw [hsegments]; simpa using hobservability), hnone, Option.none_or, hsegments]
  rfl

/-- A direct answer is read in a view, or in what is written. -/
theorem getDirect_cases (hdotless : Dotless registry) (hproper : Proper key)
    (hkey : key ≠ "modules_path") (h : c.getDirect registry key = some v)
    (hsegments : segments key = name :: below) :
    (name = "executor" ∨ name = "observability") ∧
        Value.nested.read below (c.sectionView name) = some v ∨
      name ≠ "executor" ∧ name ≠ "observability" ∧
        ∃ loaded, c.userNamespaces.child name = some loaded ∧
          Value.nested.read below loaded = some v := by
  by_cases hname : name = "executor" ∨ name = "observability"
  · refine .inl ⟨hname, ?_⟩
    by_cases hpresent : name = "observability" → (c.userNamespaces.child name).isSome
    · rw [← getDirect_eq_view hproper hkey hsegments hname hpresent]
      exact h
    · -- a section that is not written has its typed fields only
      obtain ⟨rfl, hblock⟩ := Classical.not_imp.mp hpresent
      rw [getDirect_observability c hproper hsegments, Option.not_isSome_iff_eq_none.mp hblock,
        Option.bind_none, Option.or_none] at h
      exact (read_view_of_typed hkey hsegments h).2
  · rw [not_or] at hname
    rw [getDirect_eq_written hdotless hproper hkey hsegments hname.1 hname.2] at h
    exact .inr ⟨hname.1, hname.2, Option.bind_eq_some_iff.mp h⟩

end Place

/-! ## `data` -/

section Data

variable {c : Config} {name : String}

theorem walk_value (path : List String) (v : Value) :
    walk path v.1 = (Value.nested.read path v).map (·.1) := by
  induction path generalizing v with
  | nil => rfl
  | cons key path ih =>
    rw [walk, read_cons]
    show _ = ((v.child key).bind _).map _
    cases hchild : v.child key with
    | none =>
      have hfields : Fields.get? (v.1.asObject?.getD []) key = none :=
        Value.child_eq_none_iff.mp hchild
      rw [hfields]
      rfl
    | some child =>
      have hfields : Fields.get? (v.1.asObject?.getD []) key = some child.1 :=
        Value.child_eq_some_iff.mp hchild
      rw [hfields, Option.bind_some, Option.bind_some]
      exact ih child

/-- The sections with a view are listed as it has them. -/
theorem get?_data_section (hname : name = "executor" ∨ name = "observability") :
    Fields.get? (c.data.asObject?.getD []) name = some (c.sectionView name).1 := by
  have hsorted := c.userNamespaces.ordered_entries.1
  have hfiltered : Fields.get? (c.userNamespaces.entries.filter fun entry =>
      entry.1 ≠ "observability" && entry.1 ≠ "executor") name = none := by
    refine Fields.get?_eq_none fun hmem => ?_
    obtain ⟨entry, hentry, hkey⟩ := List.mem_map.mp hmem
    have hkept := (List.mem_filter.mp hentry).2
    rw [hkey] at hkept
    rcases hname with rfl | rfl
    · exact absurd hkept (by decide)
    · exact absurd hkept (by decide)
  unfold data Fields.ofList
  rw [Json.asObject?, Option.getD_some, List.foldl_append,
    Fields.get?_foldl_insert (Fields.nodup_of_pairwise (hsorted.filter _)), hfiltered,
    List.foldl_append]
  rcases hname with rfl | rfl
  · have hne : "executor" ≠ "observability" := by decide
    exact (Fields.get?_insert_ne hne ..).trans (Fields.get?_insert_self ..)
  · exact Fields.get?_insert_self ..

/-- The other sections are listed as they are written. -/
theorem get?_data_written {loaded : Value} (hexecutor : name ≠ "executor")
    (hobservability : name ≠ "observability") (h : c.userNamespaces.child name = some loaded) :
    Fields.get? (c.data.asObject?.getD []) name = some loaded.1 := by
  have hsorted := c.userNamespaces.ordered_entries.1
  unfold data Fields.ofList
  rw [Json.asObject?, Option.getD_some, List.foldl_append,
    Fields.get?_foldl_insert (Fields.nodup_of_pairwise (hsorted.filter _)),
    Fields.get?_filter (by simp [*]), Value.child_eq_some_iff.mp h]
  rfl

end Data

section Agree

variable {registry : NamespaceRegistry} {c : Config} {key name : String} {v : Value}
  {below : List String}

theorem walk_data (hdotless : Dotless registry) (hproper : Proper key) (hkey : key ≠ "modules_path")
    (h : c.getDirect registry key = some v) : walk (segments key) c.data = some v.1 := by
  cases hsegments : segments key with
  | nil => exact absurd hsegments (segments_ne_nil key)
  | cons name below =>
    rw [walk]
    rcases getDirect_cases hdotless hproper hkey h hsegments with
      ⟨hname, hread⟩ | ⟨hexecutor, hobservability, loaded, hloaded, hread⟩
    · rw [get?_data_section hname, Option.bind_some, walk_value, hread]
      rfl
    · rw [get?_data_written hexecutor hobservability hloaded, Option.bind_some, walk_value, hread]
      rfl

/-! ## `namespace` -/

theorem read_namespaceOf (hdotless : Dotless registry) (hproper : Proper key)
    (hkey : key ≠ "modules_path") (h : c.getDirect registry key = some v)
    (hsegments : segments key = name :: below) (hobject : below ≠ [] ∨ v.1.isObject = true) :
    Value.nested.read below (namespaceOf registry c name) =
      some (.merge ((Value.nested.read below (registeredDefaults registry name)).getD .empty) v) := by
  rcases getDirect_cases hdotless hproper hkey h hsegments with
    ⟨rfl | rfl, hread⟩ | ⟨hexecutor, hobservability, loaded, hloaded, hread⟩
  · exact Value.read_merge_of_read hread
  · exact Value.read_merge_of_read hread
  · have hloadedObject : loaded.1.isObject = true := by
      cases below with
      | nil =>
        obtain rfl := Option.some.inj hread
        exact hobject.resolve_left fun hne => hne rfl
      | cons key' path =>
        obtain ⟨_, hchild, -⟩ := Option.bind_eq_some_iff.mp hread
        exact Value.isObject_of_child hchild
    unfold namespaceOf
    rw [if_neg hobservability, if_neg hexecutor, hloaded]
    dsimp only
    rw [if_pos hloadedObject]
    exact Value.read_merge_of_read hread

/-! ## Containers -/

/-- The parts of a path that a key can name. -/
theorem exists_key {parts : List String} (hparts : parts ≠ [])
    (hdots : ∀ part ∈ parts, '.' ∉ part.toList) : ∃ sub, segments sub = parts := by
  refine ⟨String.ofList (['.'].intercalate (parts.map String.toList)), ?_⟩
  unfold segments
  rw [String.toList_ofList, List.splitOn_intercalate]
  · simp
  · simpa using hdots
  · simpa using hparts

/-- A container has at a path what the key of the path is answered. -/
theorem getDirect_sub (hdotless : Dotless registry) (hproper : Proper key)
    (hkey : key ≠ "modules_path") (h : c.getDirect registry key = some v) (hobject : v.1.isObject = true)
    {rest : List String} (hrest : ∀ part ∈ rest, part ≠ "" ∧ '.' ∉ part.toList) :
    ∃ sub, segments sub = segments key ++ rest ∧
      c.getDirect registry sub = Value.nested.read rest v := by
  obtain ⟨sub, hsub⟩ : ∃ sub, segments sub = segments key ++ rest := by
    refine exists_key (by simp [segments_ne_nil]) fun part hpart => ?_
    rcases List.mem_append.mp hpart with hpart | hpart
    · exact dotless_of_mem_segments hpart
    · exact (hrest part hpart).2
  refine ⟨sub, hsub, ?_⟩
  have hsubProper : Proper sub := by
    intro hempty
    rw [hsub] at hempty
    rcases List.mem_append.mp hempty with hempty | hempty
    · exact hproper hempty
    · exact (hrest "" hempty).1 rfl
  cases hsegments : segments key with
  | nil => exact absurd hsegments (segments_ne_nil key)
  | cons name below =>
    have hsubSegments : segments sub = name :: (below ++ rest) := by
      rw [hsub, hsegments, List.cons_append]
    by_cases hsubKey : sub = "modules_path"
    · -- the key is the sub-key itself
      obtain rfl : rest = [] := by
        rw [hsubKey, segments_of_not_mem (by decide)] at hsubSegments
        obtain ⟨-, hnil⟩ := List.cons.inj hsubSegments
        exact (List.append_eq_nil_iff.mp hnil.symm).2
      rw [List.append_nil] at hsub
      exact absurd ((segments_injective hsub).symm.trans hsubKey) hkey
    have hpath : ∀ {view : Value}, Value.nested.read below view = some v →
        Value.nested.read (below ++ rest) view = Value.nested.read rest v := by
      intro view hview
      rw [read_append, hview, Option.bind_some]
    rcases getDirect_cases hdotless hproper hkey h hsegments with
      ⟨hname, hread⟩ | ⟨hexecutor, hobservability, loaded, hloaded, hread⟩
    · rw [getDirect_eq_view hsubProper hsubKey hsubSegments hname, hpath hread]
      rintro rfl
      refine Option.isSome_iff_ne_none.mpr fun hblock => ?_
      -- without a block only the typed fields are answered, and they are not containers
      rw [getDirect_observability c hproper hsegments, hblock, Option.bind_none, Option.or_none] at h
      obtain ⟨f, -, hleaf⟩ := Option.bind_eq_some_iff.mp h
      rw [f.isObject_read hleaf] at hobject
      cases hobject
    · rw [getDirect_eq_written hdotless hsubProper hsubKey hsubSegments hexecutor hobservability,
        hloaded, Option.bind_some, hpath hread]

end Agree

/-- **What `get` finds in a configuration is at the same place of `data`, and at the same place of
`namespace` laid over the registered defaults; and a container has what the keys below it are
answered.** -/
theorem viewsAgree {registry : NamespaceRegistry} (hdotless : Dotless registry) (c : Config) :
    ViewsAgree registry c where
  get _ _ := get_eq_found
  data _ _ _ hproper hkey hfound :=
    have ⟨h, hproper', hkey'⟩ := hfound.direct hproper hkey
    walk_data hdotless hproper' hkey' h
  registered _ _ _ _ _ hproper hkey hfound hsegments hobject :=
    have ⟨h, hproper', hkey'⟩ := hfound.direct hproper hkey
    read_namespaceOf hdotless hproper' hkey' h hsegments hobject
  leaf _ v _ _ _ hproper hkey hfound hsegments hbelow hleaf := by
    obtain ⟨h, hproper', hkey'⟩ := hfound.direct hproper hkey
    rw [read_namespaceOf hdotless hproper' hkey' h hsegments (.inl hbelow),
      Value.merge_of_not_object hleaf]
  container _ _ _ hproper hkey hfound hobject _ hrest :=
    have ⟨h, hproper', hkey'⟩ := hfound.direct hproper hkey
    getDirect_sub hdotless hproper' hkey' h hobject hrest

theorem viewsAgree_database :
    ViewsAgree [⟨"db", some (.put "port" (.number (.posInt 1)) .empty), none⟩]
      (({} : Config).set "db.host" (.string "a")) :=
  viewsAgree (by decide +kernel) _

/-- A container is not at its place of `namespace` where a default is registered beside it. -/
theorem not_read_namespaceOf : ¬ ∀ (registry : NamespaceRegistry) (c : Config) (key name : String)
    (below : List String) (v : Value), Dotless registry → Proper key → key ≠ "modules_path" →
      segments key = name :: below → c.getDirect registry key = some v →
      Value.nested.read below (namespaceOf registry c name) = some v := by
  intro h
  let registry : NamespaceRegistry := [⟨"db", some (.put "port" (.number (.posInt 1)) .empty), none⟩]
  let c : Config := ({} : Config).set "db.host" (.string "a")
  have hsegments : segments "db" = ["db"] := segments_of_not_mem (by decide)
  have hproper : Proper "db" := by decide +kernel
  have hdotless : Dotless registry := by decide +kernel
  have hwritten : segments "db.host" = ["db", "host"] := by decide +kernel
  have hdirect : c.getDirect registry "db" = some (.put "host" (.string "a") .empty) := by
    rw [getDirect_eq_written hdotless hproper (by decide) hsegments (by decide) (by decide),
      child_set hwritten]
    rfl
  have hread := h registry c "db" "db" [] _ hdotless hproper (by decide) hsegments hdirect
  have hport : (namespaceOf registry c "db").child "port" = none := by
    rw [Option.some.inj hread]
    rfl
  have hsome : ((namespaceOf registry c "db").child "port").isSome = true := by decide +kernel
  rw [hport] at hsome
  cases hsome

end Apcore.Config
