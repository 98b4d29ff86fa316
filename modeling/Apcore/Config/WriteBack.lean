import Apcore.Config.Documents

/-! # `Config.WriteBack` — a typed value written where it is read

The value of a typed field written at its place in the document is masked there by the field. What
may still be seen of it: which keys are declared, that there is an `observability` block, and what
the schema of the namespace says. -/

namespace Apcore.Config

/-! ## Indistinguishable configurations -/

/-- Two configurations of which every question has the same answer. -/
structure SameConfig (s : Surroundings) (c c' : Config) : Prop where
  get : ∀ key, c'.get s.registry key = c.get s.registry key
  data : c'.data = c.data
  declared : ∀ key, (c'.getDeclared s.registry key).isSome = (c.getDeclared s.registry key).isSome
  validate : c'.validate s = c.validate s

theorem SameConfig.refl (s : Surroundings) (c : Config) : SameConfig s c c :=
  ⟨fun _ => rfl, rfl, fun _ => rfl, rfl⟩

/-- The generation is not seen. -/
theorem SameConfig.of_stores {s : Surroundings} {c c' : Config}
    (htyped : c'.toTypedFields = c.toTypedFields) (hmode : c'.mode = c.mode)
    (hdocument : c'.userNamespaces = c.userNamespaces) : SameConfig s c c' := by
  obtain ⟨typed, document, isObject, mode, generation⟩ := c
  obtain ⟨typed', document', isObject', mode', generation'⟩ := c'
  obtain rfl : typed' = typed := htyped
  obtain rfl : mode' = mode := hmode
  obtain rfl : document' = document := hdocument
  exact ⟨fun _ => rfl, rfl, fun _ => rfl, rfl⟩

theorem validate_eq_iff {s : Surroundings} {c c' : Config} :
    c'.validate s = c.validate s ↔ c'.faults s = c.faults s := by
  refine ⟨fun h => ?_, fun h => by rw [validate, validate, h]⟩
  unfold validate at h
  cases hfaults : c.faults s with
  | nil =>
    rw [hfaults] at h
    cases hfaults' : c'.faults s with
    | nil => rfl
    | cons fault rest =>
      rw [hfaults'] at h
      cases h
  | cons fault rest =>
    rw [hfaults] at h
    cases hfaults' : c'.faults s with
    | nil =>
      rw [hfaults'] at h
      cases h
    | cons fault' rest' =>
      rw [hfaults'] at h
      exact Except.error.inj h

/-! ## The places of the typed fields -/

namespace TypedField

def sectionName : TypedField → String
  | maxCallDepth | maxModuleRepeat | defaultTimeout | globalTimeout => "executor"
  | modulesPath => "modules_path"
  | _ => "observability"

def below : TypedField → List String
  | maxCallDepth => ["max_call_depth"]
  | maxModuleRepeat => ["max_module_repeat"]
  | defaultTimeout => ["default_timeout"]
  | globalTimeout => ["global_timeout"]
  | tracingEnabled => ["tracing", "enabled"]
  | samplingRate => ["tracing", "sampling_rate"]
  | exporter => ["tracing", "exporter"]
  | strategy => ["tracing", "strategy"]
  | otlpEndpoint => ["tracing", "otlp_endpoint"]
  | metricsEnabled => ["metrics", "enabled"]
  | modulesPath => []

theorem segments_key (f : TypedField) : segments f.key = f.sectionName :: f.below := by
  cases f <;> decide

@[simp] theorem ofKey?_key (f : TypedField) : ofKey? f.key = some f := by
  cases f <;> decide

theorem ofKey?_eq_some {key : String} {f : TypedField} : ofKey? key = some f ↔ key = f.key := by
  refine ⟨fun h => ?_, fun h => h ▸ ofKey?_key f⟩
  have hfound := List.find?_some h
  exact (of_decide_eq_true hfound).symm

variable {f : TypedField} {t : TypedFields} {leaf : Value}

theorem below_ne_nil (h : f ≠ modulesPath) : f.below ≠ [] := by
  cases f <;> simp_all [below]

/-- The value of a field is a leaf. -/
theorem isObject_read (h : f.read t = some leaf) : leaf.1.isObject = false := by
  cases f with
  | otlpEndpoint =>
    obtain rfl := Option.some.inj h
    cases t.observability.tracing.otlpEndpoint <;> rfl
  | modulesPath =>
    obtain ⟨path, -, rfl⟩ := Option.map_eq_some_iff.mp h
    rfl
  | _ =>
    obtain rfl := Option.some.inj h
    rfl

theorem read_executor (h : f.sectionName = "executor") :
    Value.nested.read f.below t.executor.toValue = f.read t := by
  have hchild : ∀ v : Value, ∀ key, Value.nested.child v key = v.child key := fun _ _ => rfl
  cases f with
  | maxCallDepth | maxModuleRepeat | defaultTimeout | globalTimeout =>
    simp (disch := decide) [below, read, Nested.read_cons, hchild, ExecutorConfig.toValue,
      Value.ofEntries_eq, Value.child_put_ne]
  | _ => exact absurd h (by decide)

theorem read_observability (h : f.sectionName = "observability") :
    Value.nested.read f.below t.observability.toValue = f.read t := by
  have hchild : ∀ v : Value, ∀ key, Value.nested.child v key = v.child key := fun _ _ => rfl
  cases f with
  | maxCallDepth | maxModuleRepeat | defaultTimeout | globalTimeout | modulesPath =>
    exact absurd h (by decide)
  | _ =>
    simp (disch := decide) [below, read, Nested.read_cons, hchild, ObservabilityConfig.toValue,
      Value.ofEntries_eq, Value.child_put_ne]

end TypedField

/-! ## The walk over the framework keys -/

theorem unknownEntries_eq (path : String) (fields : List (String × Json)) :
    unknownEntries path fields = fields.flatMap (unknownEntry path) := by
  induction fields with
  | nil => rw [unknownEntries, List.flatMap_nil]
  | cons entry rest ih => rw [unknownEntries, List.flatMap_cons, ih]

theorem unknownKeys_eq (path : String) (v : Value) :
    unknownKeys path v.1 = v.entries.flatMap (unknownEntry path) := by
  obtain ⟨v, hv⟩ := v
  rw [← unknownEntries_eq]
  cases v with
  | object fields => rw [unknownKeys]; rfl
  | _ =>
    rw [unknownKeys]
    · exact (unknownEntries.eq_1 path).symm
    · simp

/-- A declared leaf is at the end of these names, below a path. -/
def leafBelow (path : String) : List String → Bool
  | [] => false
  | [name] => isDeclaredPrefix (path ++ "." ++ name) && !isDeclaredContainer (path ++ "." ++ name)
  | name :: rest => isDeclaredPrefix (path ++ "." ++ name) &&
    isDeclaredContainer (path ++ "." ++ name) && leafBelow (path ++ "." ++ name) rest

/-- Writing a declared leaf is not seen by the walk. -/
theorem unknownKeys_write {path : String} {names : List String} (h : leafBelow path names = true)
    (leaf v : Value) :
    unknownKeys path (Value.nested.write names leaf v).1 = unknownKeys path v.1 := by
  induction names generalizing path v with
  | nil => cases h
  | cons name rest ih =>
    have hentries : (Value.nested.write (name :: rest) leaf v).entries = Fields.insert name
        (Value.nested.write rest leaf ((v.child name).getD .empty)).1 v.entries := rfl
    rw [unknownKeys_eq, unknownKeys_eq, hentries,
      Fields.flatMap_insert_eq_iff _ v.ordered_entries.1]
    cases rest with
    | nil =>
      obtain ⟨hprefixed, hcontainer⟩ : isDeclaredPrefix (path ++ "." ++ name) = true ∧
          isDeclaredContainer (path ++ "." ++ name) = false := by simpa [leafBelow] using h
      have hleaf : ∀ value, unknownEntry path (name, value) = [] := by
        intro value
        simp [unknownEntry, hprefixed, hcontainer]
      rw [hleaf]
      cases Fields.get? v.entries name with
      | none => rfl
      | some value => exact (hleaf value).symm
    | cons next rest =>
      obtain ⟨⟨hprefixed, hcontainer⟩, hbelow⟩ : (isDeclaredPrefix (path ++ "." ++ name) = true ∧
          isDeclaredContainer (path ++ "." ++ name) = true) ∧
          leafBelow (path ++ "." ++ name) (next :: rest) = true := by simpa [leafBelow] using h
      have hentry : ∀ value, unknownEntry path (name, value) =
          unknownKeys (path ++ "." ++ name) value := by
        intro value
        simp [unknownEntry, hprefixed, hcontainer]
      rw [hentry, ih hbelow]
      cases hchild : v.child name with
      | none =>
        rw [Value.child_eq_none_iff.mp hchild, Option.getD_none, unknownKeys_eq]
        rfl
      | some child =>
        rw [Value.child_eq_some_iff.mp hchild, Option.getD_some]
        exact (hentry child.1).symm

namespace TypedField

variable {f : TypedField}

/-- The typed fields are declared leaves of framework sections. -/
theorem leafBelow_below (h : f ≠ modulesPath) : leafBelow f.sectionName f.below = true := by
  have hall : ∀ g ∈ all, g = modulesPath ∨ leafBelow g.sectionName g.below = true := by
    decide +kernel
  have hmem : f ∈ all := by cases f <;> decide
  exact (hall f hmem).resolve_left h

end TypedField

/-! ## What a leaf that is written shows -/

/-- The value of a typed field is written at its place; the typed fields stay. -/
structure LeafWritten (c c' : Config) (f : TypedField) (leaf : Value) : Prop where
  typed : c'.toTypedFields = c.toTypedFields
  mode : c'.mode = c.mode
  document : c'.userNamespaces = Value.nested.write (segments f.key) leaf c.userNamespaces
  effective : f.read c.toTypedFields = some leaf
  notPath : f ≠ .modulesPath

namespace LeafWritten

variable {s : Surroundings} {c c' : Config} {f : TypedField} {leaf : Value}
variable (h : LeafWritten c c' f leaf)
include h

theorem section_cases : f.sectionName = "executor" ∨ f.sectionName = "observability" := by
  have hpath := h.notPath
  cases f with
  | modulesPath => exact absurd rfl hpath
  | maxCallDepth | maxModuleRepeat | defaultTimeout | globalTimeout => exact .inl rfl
  | _ => exact .inr rfl

theorem section_ne {name : String} (hexecutor : name ≠ "executor")
    (hobservability : name ≠ "observability") : name ≠ f.sectionName := by
  rcases h.section_cases with hsection | hsection
  · rw [hsection]
    exact hexecutor
  · rw [hsection]
    exact hobservability

theorem entries_eq : c'.userNamespaces.entries = Fields.insert f.sectionName
    (Value.nested.write f.below leaf ((c.userNamespaces.child f.sectionName).getD .empty)).1
    c.userNamespaces.entries := by
  rw [h.document, TypedField.segments_key]
  rfl

theorem child_other {name : String} (hne : name ≠ f.sectionName) :
    c'.userNamespaces.child name = c.userNamespaces.child name := by
  rw [h.document, TypedField.segments_key]
  exact Value.child_put_ne hne _ _

theorem child_section : c'.userNamespaces.child f.sectionName =
    some (Value.nested.write f.below leaf
      ((c.userNamespaces.child f.sectionName).getD .empty)) := by
  rw [h.document, TypedField.segments_key]
  exact Value.child_put_self _ _ _

theorem typedNamespaceView_eq {name : String} {typed : Value}
    (hread : name = f.sectionName → Value.nested.read f.below typed = some leaf) :
    c'.typedNamespaceView name typed = c.typedNamespaceView name typed := by
  unfold typedNamespaceView
  by_cases hname : name = f.sectionName
  · subst hname
    have hleaf := TypedField.isObject_read h.effective
    have hbelow := TypedField.below_ne_nil h.notPath
    have hobject := isObject_write hbelow leaf ((c.userNamespaces.child f.sectionName).getD .empty)
    -- what is no object is replaced, as the view replaces it
    have hbase : Value.nested.write f.below leaf
          ((c.userNamespaces.child f.sectionName).getD .empty) =
        Value.nested.write f.below leaf
          (((c.userNamespaces.child f.sectionName).filter (·.1.isObject)).getD .empty) := by
      cases c.userNamespaces.child f.sectionName with
      | none => rfl
      | some v =>
        cases hv : v.1.isObject with
        | true => rw [Option.filter_some, if_pos hv]
        | false =>
          rw [Option.filter_some, if_neg (by simp [hv])]
          exact Value.write_of_entries hbelow (Value.entries_of_not_object hv)
    rw [h.child_section, Option.filter_some, if_pos hobject, Option.getD_some, hbase]
    exact Value.merge_write hleaf (hread rfl)
  · rw [h.child_other hname]

theorem executorView_eq : c'.executorView = c.executorView := by
  unfold executorView
  rw [h.typed]
  exact h.typedNamespaceView_eq fun hname => (TypedField.read_executor hname.symm).trans h.effective

theorem observabilityView_eq : c'.observabilityView = c.observabilityView := by
  unfold observabilityView
  rw [h.typed]
  exact h.typedNamespaceView_eq fun hname =>
    (TypedField.read_observability hname.symm).trans h.effective

theorem data_eq : c'.data = c.data := by
  have hdropped : ∀ v : Json, (fun entry : String × Json =>
      decide (entry.1 ≠ "observability") && decide (entry.1 ≠ "executor"))
        (f.sectionName, v) = false := by
    intro v
    rcases h.section_cases with hsection | hsection
    · simp [hsection]
    · simp [hsection]
  unfold data
  rw [h.executorView_eq, h.observabilityView_eq, h.entries_eq, Fields.filter_insert hdropped, h.typed]

theorem getAsWritten_other {registry : NamespaceRegistry} {key : String}
    (hhead : (writtenPath registry key).head? ≠ some f.sectionName) :
    c'.getAsWritten registry key = c.getAsWritten registry key := by
  unfold getAsWritten
  cases hpath : writtenPath registry key with
  | nil => exact absurd hpath writtenPath_ne_nil
  | cons name rest =>
    rw [hpath] at hhead
    have hchild : Value.nested.child c'.userNamespaces name =
        Value.nested.child c.userNamespaces name := h.child_other fun heq => hhead (congrArg some heq)
    rw [Nested.read_cons, Nested.read_cons, hchild]

theorem impliesApcore_eq (key : String) : c'.impliesApcore key = c.impliesApcore key := by
  have hne : "apcore" ≠ f.sectionName := h.section_ne (by decide) (by decide)
  unfold impliesApcore
  rw [h.mode, h.child_other hne]

/-- A key whose first segment is another is read as before. -/
theorem getAsWritten_of_head {registry : NamespaceRegistry} {key : String}
    (hhead : (segments key).head? ≠ some f.sectionName) :
    c'.getAsWritten registry key = c.getAsWritten registry key := by
  refine h.getAsWritten_other fun hpath => hhead ?_
  have hdotless : '.' ∉ f.sectionName.toList := by
    rcases h.section_cases with hsection | hsection
    · rw [hsection]
      decide
    · rw [hsection]
      decide
  exact head_segments_of_writtenPath hdotless hpath

theorem getAsWritten_qualified (registry : NamespaceRegistry) (key : String) :
    c'.getAsWritten registry (qualified key) = c.getAsWritten registry (qualified key) := by
  refine h.getAsWritten_of_head fun hhead => ?_
  rw [segments_qualified] at hhead
  exact h.section_ne (by decide) (by decide) (Option.some.inj hhead)

end LeafWritten

/-! ### What `get` answers -/

theorem stripNamespace_eq_none {ns key : String} (hns : '.' ∉ ns.toList)
    (h : (segments key).head? ≠ some ns) : stripNamespace key ns = none :=
  Option.not_isSome_iff_eq_none.mp fun hsome => h ((stripNamespace_isSome_iff hns).mp hsome)

theorem getDirect_of_strip_none {registry : NamespaceRegistry} {c : Config} {key : String}
    (hobservability : stripNamespace key "observability" = none)
    (hexecutor : stripNamespace key "executor" = none) :
    c.getDirect registry key =
      (getTypedField c.toTypedFields key).or (c.getAsWritten registry key) := by
  unfold getDirect
  rw [hobservability, hexecutor]

theorem getDirect_qualified (registry : NamespaceRegistry) (c : Config) (key : String) :
    c.getDirect registry (qualified key) =
      (getTypedField c.toTypedFields (qualified key)).or
        (c.getAsWritten registry (qualified key)) := by
  have hhead : (segments (qualified key)).head? = some "apcore" := by
    rw [segments_qualified]
    rfl
  apply getDirect_of_strip_none
  · exact stripNamespace_eq_none (by decide) (by rw [hhead]; decide)
  · exact stripNamespace_eq_none (by decide) (by rw [hhead]; decide)

/-- What `get` falls back to. -/
def fallback (registry : NamespaceRegistry) (c : Config) (key : String) : Option Value :=
  (if c.impliesApcore key then c.getDirect registry (qualified key) else none).or <|
    (if c.mode = .namespaced then registeredNamespaceDefault registry key else none).or <|
      defaultFor key

theorem get_eq_or (registry : NamespaceRegistry) (c : Config) (key : String) :
    c.get registry key = (c.getDirect registry key).or (c.fallback registry key) := rfl

/-- What the view of `observability` has is answered without it. -/
def ViewAnswered (registry : NamespaceRegistry) (c : Config) : Prop :=
  ∀ key rest v, stripNamespace key "observability" = some rest →
    getTypedField c.toTypedFields key = none →
    Value.nested.read (viewParts rest) c.observabilityView = some v → c.get registry key = some v

namespace LeafWritten

variable {s : Surroundings} {c c' : Config} {f : TypedField} {leaf : Value}
variable (h : LeafWritten c c' f leaf)
include h

theorem fallback_eq (registry : NamespaceRegistry) (key : String) :
    c'.fallback registry key = c.fallback registry key := by
  unfold fallback
  rw [h.impliesApcore_eq, h.mode, getDirect_qualified, getDirect_qualified,
    h.getAsWritten_qualified, h.typed]

/-- Only a block of `observability` that was not there shows. -/
theorem getDirect_eq {registry : NamespaceRegistry} {key : String}
    (hpresent : stripNamespace key "observability" = none ∨
      (c'.userNamespaces.child "observability").isSome =
        (c.userNamespaces.child "observability").isSome) :
    c'.getDirect registry key = c.getDirect registry key := by
  unfold getDirect
  rw [h.typed, h.observabilityView_eq, h.executorView_eq]
  congr 1
  cases hobservability : stripNamespace key "observability" with
  | some rest =>
    have hsome := hpresent.resolve_left (by rw [hobservability]; simp)
    cases hchild : c.userNamespaces.child "observability" with
    | none =>
      rw [hchild] at hsome
      have hnone : c'.userNamespaces.child "observability" = none := by simpa using hsome
      rw [hnone]
    | some v =>
      rw [hchild] at hsome
      obtain ⟨v', hv'⟩ := Option.isSome_iff_exists.mp hsome
      rw [hv']
      rfl
  | none =>
    cases hexecutor : stripNamespace key "executor" with
    | some rest => rfl
    | none =>
      refine h.getAsWritten_of_head fun hhead => ?_
      have hstripped : ∀ ns : String, '.' ∉ ns.toList → f.sectionName = ns →
          stripNamespace key ns ≠ none := by
        intro ns hns hsection hnone
        have hsome := (stripNamespace_isSome_iff hns).mpr (hsection ▸ hhead)
        rw [hnone] at hsome
        cases hsome
      rcases h.section_cases with hsection | hsection
      · exact hstripped _ (by decide) hsection hexecutor
      · exact hstripped _ (by decide) hsection hobservability

theorem get_eq_iff (registry : NamespaceRegistry) :
    (∀ key, c'.get registry key = c.get registry key) ↔
      (f.sectionName = "observability" → c.userNamespaces.child "observability" = none →
        c.ViewAnswered registry) := by
  by_cases hnew : f.sectionName = "observability" ∧
      c.userNamespaces.child "observability" = none
  · obtain ⟨hsection, hnone⟩ := hnew
    have hsome : (c'.userNamespaces.child "observability").isSome := by
      rw [← hsection, h.child_section]
      rfl
    obtain ⟨block, hblock⟩ := Option.isSome_iff_exists.mp hsome
    have hdirect : ∀ key rest, stripNamespace key "observability" = some rest →
        getTypedField c.toTypedFields key = none →
        c'.getDirect registry key = Value.nested.read (viewParts rest) c.observabilityView ∧
          c.getDirect registry key = none := by
      intro key rest hstrip htyped
      unfold getDirect
      rw [h.typed, htyped, hstrip, hblock, hnone, h.observabilityView_eq]
      exact ⟨rfl, rfl⟩
    constructor
    · intro hget _ _ key rest v hstrip htyped hread
      rw [← hget, get_eq_or, (hdirect key rest hstrip htyped).1, hread]
      rfl
    · intro hanswered key
      cases hstrip : stripNamespace key "observability" with
      | none => rw [get_eq_or, get_eq_or, h.getDirect_eq (.inl hstrip), h.fallback_eq]
      | some rest =>
        cases htyped : getTypedField c.toTypedFields key with
        | some v =>
          have hfield : ∀ d : Config, d.toTypedFields = c.toTypedFields →
              d.getDirect registry key = some v := by
            intro d hd
            unfold getDirect
            rw [hd, htyped]
            rfl
          rw [get_eq_or, get_eq_or, hfield c' h.typed, hfield c rfl]
          rfl
        | none =>
          obtain ⟨hafter, hbefore⟩ := hdirect key rest hstrip htyped
          cases hread : Value.nested.read (viewParts rest) c.observabilityView with
          | none => rw [get_eq_or, get_eq_or, hafter, hbefore, hread, h.fallback_eq]
          | some v =>
            rw [hanswered hsection hnone key rest v hstrip htyped hread, get_eq_or, hafter, hread]
            rfl
  · have hpresent : (c'.userNamespaces.child "observability").isSome =
        (c.userNamespaces.child "observability").isSome := by
      by_cases hsection : f.sectionName = "observability"
      · have hsome : (c.userNamespaces.child "observability").isSome :=
          Option.isSome_iff_ne_none.mpr fun hnone => hnew ⟨hsection, hnone⟩
        rw [hsome, ← hsection, h.child_section]
        rfl
      · rw [h.child_other (Ne.symm hsection)]
    refine ⟨fun _ hsection hnone => absurd ⟨hsection, hnone⟩ hnew, fun _ key => ?_⟩
    rw [get_eq_or, get_eq_or, h.getDirect_eq (.inr hpresent), h.fallback_eq]

end LeafWritten

/-! ### Which keys are declared -/

theorem isSome_getDeclared {registry : NamespaceRegistry} {c : Config} {key : String} :
    (c.getDeclared registry key).isSome ↔ (c.getAsWritten registry key).isSome ∨
      c.impliesApcore key = true ∧ (c.getAsWritten registry (qualified key)).isSome := by
  unfold getDeclared
  rw [Option.isSome_or, Bool.or_eq_true]
  cases c.impliesApcore key with
  | true => simp
  | false => simp

/-- Every key on the way to a place is declared. -/
def WayDeclared (registry : NamespaceRegistry) (c : Config) (place : List String) : Prop :=
  ∀ key, writtenPath registry key <+: place → (c.getDeclared registry key).isSome

/-- What is declared below a place is declared under `apcore` as well. -/
def BelowImplied (registry : NamespaceRegistry) (c : Config) (place : List String) : Prop :=
  ∀ key, place <+: writtenPath registry key → writtenPath registry key ≠ place →
    (c.getAsWritten registry key).isSome →
    c.impliesApcore key = true ∧ (c.getAsWritten registry (qualified key)).isSome

namespace LeafWritten

variable {s : Surroundings} {c c' : Config} {f : TypedField} {leaf : Value}
variable (h : LeafWritten c c' f leaf)
include h

theorem getDeclared_iff (registry : NamespaceRegistry) :
    (∀ key, (c'.getDeclared registry key).isSome = (c.getDeclared registry key).isSome) ↔
      c.WayDeclared registry (segments f.key) ∧ c.BelowImplied registry (segments f.key) := by
  have himplied : ∀ key, (c'.impliesApcore key = true ∧
      (c'.getAsWritten registry (qualified key)).isSome) ↔
      (c.impliesApcore key = true ∧ (c.getAsWritten registry (qualified key)).isSome) := by
    intro key
    rw [h.impliesApcore_eq, h.getAsWritten_qualified]
  have hway : ∀ key, writtenPath registry key <+: segments f.key →
      (c'.getAsWritten registry key).isSome := by
    rintro key ⟨rest, hrest⟩
    unfold getAsWritten
    rw [h.document, ← hrest, Nested.read_write_above]
    rfl
  have hbelow : ∀ key, segments f.key <+: writtenPath registry key →
      writtenPath registry key ≠ segments f.key → (c'.getAsWritten registry key).isSome = false := by
    rintro key ⟨rest, hrest⟩ hne
    have hrest_ne : rest ≠ [] := by
      rintro rfl
      exact hne (hrest.symm.trans (List.append_nil _))
    unfold getAsWritten
    rw [h.document, ← hrest, Nested.read_write_append,
      Value.read_leaf (TypedField.isObject_read h.effective) hrest_ne]
    rfl
  constructor
  · intro hdeclared
    refine ⟨fun key hprefixed => ?_, fun key hextends hne hwritten => ?_⟩
    · rw [← hdeclared]
      exact isSome_getDeclared.mpr (.inl (hway key hprefixed))
    · have hafter : (c'.getDeclared registry key).isSome := by
        rw [hdeclared]
        exact isSome_getDeclared.mpr (.inl hwritten)
      rcases isSome_getDeclared.mp hafter with hwritten' | halias
      · rw [hbelow key hextends hne] at hwritten'
        cases hwritten'
      · exact (himplied key).mp halias
  · rintro ⟨hdeclared, hlost⟩ key
    by_cases hprefixed : writtenPath registry key <+: segments f.key
    · rw [hdeclared key hprefixed]
      exact isSome_getDeclared.mpr (.inl (hway key hprefixed))
    · by_cases hextends : segments f.key <+: writtenPath registry key
      · have hne : writtenPath registry key ≠ segments f.key := by
          intro heq
          exact hprefixed (heq ▸ List.prefix_rfl)
        rw [Bool.eq_iff_iff, isSome_getDeclared, isSome_getDeclared, himplied,
          hbelow key hextends hne]
        constructor
        · rintro (hfalse | halias)
          · cases hfalse
          · exact .inr halias
        · rintro (hwritten | halias)
          · exact .inr (hlost key hextends hne hwritten)
          · exact .inr halias
      · have hsame : c'.getAsWritten registry key = c.getAsWritten registry key := by
          unfold getAsWritten
          rw [h.document]
          exact Nested.read_write_apart ⟨hextends, hprefixed⟩
        rw [Bool.eq_iff_iff, isSome_getDeclared, isSome_getDeclared, himplied, hsame]

/-! ### What `validate` reports -/

theorem strictMode_eq : c'.strictMode = c.strictMode := by
  unfold strictMode
  rw [h.child_other (h.section_ne (by decide) (by decide))]

theorem rejectUnknownFrameworkKeys_eq :
    c'.rejectUnknownFrameworkKeys = c.rejectUnknownFrameworkKeys := by
  unfold rejectUnknownFrameworkKeys
  refine List.flatMap_congr fun name _ => ?_
  by_cases hname : name = f.sectionName
  · subst hname
    have hleaf := unknownKeys_write (TypedField.leafBelow_below h.notPath) leaf
      ((c.userNamespaces.child f.sectionName).getD .empty)
    rw [h.child_section]
    simp only [Option.toList_some, List.flatMap_singleton]
    rw [hleaf]
    cases c.userNamespaces.child f.sectionName with
    | none =>
      rw [Option.getD_none, unknownKeys_eq]
      rfl
    | some v => simp
  · rw [h.child_other hname]

theorem namespaceFaults_eq (entry : String × Json) :
    c'.namespaceFaults s entry = c.namespaceFaults s entry := by
  unfold namespaceFaults
  rw [h.strictMode_eq]

end LeafWritten

/-- A schema finds of the section of a field, with the value at its place, what it found before. -/
def SameVerdict (s : Surroundings) (c : Config) (f : TypedField) (leaf : Value) : Prop :=
  c.mode = .namespaced → c.namespaceFaults s (f.sectionName,
      (Value.nested.write f.below leaf ((c.userNamespaces.child f.sectionName).getD .empty)).1) =
    (c.userNamespaces.child f.sectionName).elim [] fun v =>
      c.namespaceFaults s (f.sectionName, v.1)

namespace LeafWritten

variable {s : Surroundings} {c c' : Config} {f : TypedField} {leaf : Value}
variable (h : LeafWritten c c' f leaf)
include h

theorem namespaces_eq_iff :
    ((if c'.mode = .namespaced then c'.userNamespaces.entries.flatMap (c'.namespaceFaults s)
        else []) =
      if c.mode = .namespaced then c.userNamespaces.entries.flatMap (c.namespaceFaults s)
        else []) ↔ c.SameVerdict s f leaf := by
  have hfaults : c'.namespaceFaults s = c.namespaceFaults s := funext h.namespaceFaults_eq
  unfold SameVerdict
  rw [h.mode, hfaults]
  by_cases hmode : c.mode = .namespaced
  · rw [if_pos hmode, if_pos hmode, h.entries_eq,
      Fields.flatMap_insert_eq_iff _ c.userNamespaces.ordered_entries.1]
    have hold : (Fields.get? c.userNamespaces.entries f.sectionName).elim []
          (fun v => c.namespaceFaults s (f.sectionName, v)) =
        (c.userNamespaces.child f.sectionName).elim []
          fun v => c.namespaceFaults s (f.sectionName, v.1) := by
      cases hchild : c.userNamespaces.child f.sectionName with
      | none =>
        rw [Value.child_eq_none_iff.mp hchild]
        rfl
      | some v =>
        rw [Value.child_eq_some_iff.mp hchild]
        rfl
    rw [hold]
    exact ⟨fun heq _ => heq, fun heq => heq hmode⟩
  · rw [if_neg hmode, if_neg hmode]
    exact ⟨fun _ hcontra => absurd hcontra hmode, fun _ => rfl⟩

theorem validate_eq_iff (hget : ∀ key, c'.get s.registry key = c.get s.registry key)
    (hdeclared : ∀ key,
      (c'.getDeclared s.registry key).isSome = (c.getDeclared s.registry key).isSome) :
    c'.validate s = c.validate s ↔ c.SameVerdict s f leaf := by
  have hmissing : c'.missingFields s = c.missingFields s := by
    unfold missingFields
    simp only [h.mode, ← Option.not_isSome, hdeclared]
  have hconstraints : c'.collectConstraintErrors s = c.collectConstraintErrors s := by
    unfold collectConstraintErrors
    simp only [hget]
  have hendpoint : c'.endpointFaults = c.endpointFaults := by
    unfold endpointFaults
    rw [h.typed]
  have hpatterns : c'.patternFaults s = c.patternFaults s := by
    unfold patternFaults
    rw [hget]
  rw [Config.validate_eq_iff, ← h.namespaces_eq_iff]
  unfold faults
  rw [hmissing, hconstraints, hendpoint, h.strictMode_eq, h.rejectUnknownFrameworkKeys_eq, hpatterns,
    List.append_left_inj, List.append_right_inj]

/-- **What a typed value written at its place shows.** -/
theorem sameConfig_iff : SameConfig s c c' ↔
    ((f.sectionName = "observability" → c.userNamespaces.child "observability" = none →
        c.ViewAnswered s.registry) ∧
      c.WayDeclared s.registry (segments f.key) ∧ c.BelowImplied s.registry (segments f.key)) ∧
      c.SameVerdict s f leaf := by
  rw [← h.get_eq_iff, ← h.getDeclared_iff]
  constructor
  · rintro ⟨hget, -, hdeclared, hvalidate⟩
    exact ⟨⟨hget, hdeclared⟩, (h.validate_eq_iff hget hdeclared).mp hvalidate⟩
  · rintro ⟨⟨hget, hdeclared⟩, hverdict⟩
    exact ⟨hget, h.data_eq, hdeclared, (h.validate_eq_iff hget hdeclared).mpr hverdict⟩

end LeafWritten

end Apcore.Config
