import Apcore.Config.PlainKeys

/-! # `Config.Valid` — what a write may do to a valid configuration

`validate` finds no fault where every rule holds. Each rule is about a place of the document or about
a typed field, so that a write can break it only where it meets the place, or where what the field
makes of the value breaks it. -/

open Nested

namespace Apcore.Config

/-! ## The rules -/

/-- The keys a legacy configuration declares. -/
def requiredFields : List String := ["version", "project.name"]

def redactionPatterns : String := "obs.redaction.regex_patterns"

theorem plain_redactionPatterns : Plain redactionPatterns := by
  rw [plain_iff]
  decide +kernel

/-- Every pattern of a list compiles. -/
def PatternsCompile (s : Surroundings) (v : Value) : Prop :=
  ∀ patterns, v.1.asArray? = some patterns → ∀ entry ∈ patterns, ∀ pattern,
    entry.asStr? = some pattern → pattern ≠ "" → s.patternError pattern = none

/-- The schema registered for a namespace accepts a value. -/
def SchemaAccepts (s : Surroundings) (name : String) (v : Json) : Prop :=
  ∀ registration, s.registry.find? (·.name = name) = some registration →
    ∀ schema, registration.schema = some schema →
      validateAgainstSchema (σ := Unit)
        { Externals.lax with compileSchema := s.compileSchema } v schema.1 "Config" = .ok ()

/-- A namespace is registered, or is a section of the framework. -/
def NamespaceKnown (s : Surroundings) (name : String) : Prop :=
  (s.registry.find? (·.name = name)).isSome ∨ isFrameworkSection name = true

/-- The entries of a document that are checked as namespaces. -/
def CheckedNamespace (name : String) (v : Json) : Prop :=
  name ≠ "apcore" ∧ name ≠ "_config" ∧ v.isObject = true

/-- Every rule holds of the configuration. -/
structure Valid (s : Surroundings) (c : Config) : Prop where
  required : c.mode = .legacy → ∀ field ∈ requiredFields, (c.getAsWritten s.registry field).isSome
  constrained : ∀ key constraint, constraintOf key = some constraint →
    ∀ v, c.get s.registry key = some v → constraint.holds v.1 = true
  endpoint : c.observability.tracing.otlpEndpoint.isSome →
    c.observability.tracing.exporter = "otlp"
  known : c.strictMode = true → ∀ name ∈ frameworkSections,
    ∀ v, c.userNamespaces.child name = some v → unknownKeys name v.1 = []
  namespaces : c.mode = .namespaced → ∀ name v, c.userNamespaces.child name = some v →
    CheckedNamespace name v.1 →
      (c.strictMode = true → NamespaceKnown s name) ∧ SchemaAccepts s name v.1
  patterns : ∀ v, c.get s.registry redactionPatterns = some v → PatternsCompile s v

section Rules

variable {s : Surroundings} {c : Config}

theorem mem_entries_iff {v : Value} {entry : String × Json} :
    entry ∈ v.entries ↔ ∃ w, v.child entry.1 = some w ∧ entry.2 = w.1 := by
  constructor
  · intro hentry
    have hget := Fields.get?_of_mem (Fields.nodup_keys v.ordered_entries.1) hentry
    exact ⟨⟨entry.2, v.ordered_entries.2 entry hentry⟩, Value.child_eq_some_iff.mpr hget, rfl⟩
  · rintro ⟨w, hchild, hvalue⟩
    obtain ⟨found, hfound, hsnd⟩ := Option.map_eq_some_iff.mp (Value.child_eq_some_iff.mp hchild)
    have hkey : found.1 = entry.1 := by simpa using List.find?_some hfound
    have hentry : found = entry := Prod.ext hkey (hsnd.trans hvalue.symm)
    exact hentry ▸ List.mem_of_find?_eq_some hfound

theorem missingFields_eq_nil_iff : c.missingFields s = [] ↔
    (c.mode = .legacy → ∀ field ∈ requiredFields, (c.getAsWritten s.registry field).isSome) := by
  unfold missingFields
  cases hmode : c.mode with
  | namespaced => simp
  | legacy =>
    have hdeclared : ∀ field, c.getDeclared s.registry field = c.getAsWritten s.registry field := by
      intro field
      simp [getDeclared, impliesApcore, hmode]
    simp [hdeclared, requiredFields, Option.isSome_iff_ne_none]

theorem constraintOf_of_mem {key : String} {constraint : Constraint}
    (h : (key, constraint) ∈ constrainedKeys) : constraintOf key = some constraint := by
  have hall : ∀ entry ∈ constrainedKeys, constraintOf entry.1 = some entry.2 := by
    decide +kernel
  exact hall (key, constraint) h

theorem mem_of_constraintOf {key : String} {constraint : Constraint}
    (h : constraintOf key = some constraint) : (key, constraint) ∈ constrainedKeys := by
  obtain ⟨entry, hentry, rfl⟩ := Option.map_eq_some_iff.mp h
  have hkey : entry.1 = key := by simpa using List.find?_some hentry
  have hmem := List.mem_of_find?_eq_some hentry
  rw [← hkey]
  exact hmem

theorem collectConstraintErrors_eq_nil_iff : c.collectConstraintErrors s = [] ↔
    ∀ key constraint, constraintOf key = some constraint →
      ∀ v, c.get s.registry key = some v → constraint.holds v.1 = true := by
  have hentry : ∀ key (constraint : Constraint),
      ((c.get s.registry key).filter fun v => !constraint.holds v.1) = none ↔
        ∀ v, c.get s.registry key = some v → constraint.holds v.1 = true := by
    intro key constraint
    cases c.get s.registry key with
    | none => simp
    | some v => simp [Option.filter]
  unfold collectConstraintErrors
  rw [List.flatMap_eq_nil_iff]
  constructor
  · intro h key constraint hconstraint
    have hnil := List.map_eq_nil_iff.mp (h (key, constraint) (mem_of_constraintOf hconstraint))
    exact (hentry key constraint).mp (Option.toList_eq_nil_iff.mp hnil)
  · rintro h ⟨key, constraint⟩ hmem
    have hnone := (hentry key constraint).mpr (h key constraint (constraintOf_of_mem hmem))
    simp [hnone]

theorem endpointFaults_eq_nil_iff : c.endpointFaults = [] ↔
    (c.observability.tracing.otlpEndpoint.isSome →
      c.observability.tracing.exporter = "otlp") := by
  unfold endpointFaults
  simp

theorem rejectUnknownFrameworkKeys_eq_nil_iff : c.rejectUnknownFrameworkKeys = [] ↔
    ∀ name ∈ frameworkSections, ∀ v, c.userNamespaces.child name = some v →
      unknownKeys name v.1 = [] := by
  unfold rejectUnknownFrameworkKeys
  simp only [List.flatMap_eq_nil_iff, Option.mem_toList]

theorem namespaceFaults_eq_nil_iff {name : String} {v : Json} :
    c.namespaceFaults s (name, v) = [] ↔ (CheckedNamespace name v →
      (c.strictMode = true → NamespaceKnown s name) ∧ SchemaAccepts s name v) := by
  unfold namespaceFaults CheckedNamespace NamespaceKnown SchemaAccepts
  by_cases hskipped : name = "apcore" ∨ name = "_config" ∨ v.isObject = false
  · rw [if_pos hskipped]
    refine iff_of_true rfl fun ⟨happ, hconfig, hobject⟩ => ?_
    rcases hskipped with h | h | h
    · exact absurd h happ
    · exact absurd h hconfig
    · rw [hobject] at h
      cases h
  · have hchecked : name ≠ "apcore" ∧ name ≠ "_config" ∧ v.isObject = true := by
      simpa [not_or] using hskipped
    rw [if_neg hskipped]
    cases hfind : s.registry.find? (·.name = name) with
    | none => simp [hchecked]
    | some registration =>
      cases hschema : registration.schema with
      | none => simp [hschema]
      | some schema =>
        simp only [Option.toList_some, List.flatMap_singleton, Option.isSome_some, true_or,
          implies_true, true_and, Option.some.injEq, forall_eq', hschema]
        split
        · next hok => simp [hok]
        · next e herror => simp [hchecked, herror]

theorem patternFaults_eq_nil_iff : c.patternFaults s = [] ↔
    ∀ v, c.get s.registry redactionPatterns = some v → PatternsCompile s v := by
  have hpattern : ∀ (index : Nat) (entry : Json),
      ((entry.asStr?.filter (· ≠ "")).toList.flatMap fun pattern =>
        ((s.patternError pattern).map (Fault.pattern index pattern)).toList) = [] ↔
      ∀ pattern, entry.asStr? = some pattern → pattern ≠ "" → s.patternError pattern = none := by
    intro index entry
    simp [List.flatMap_eq_nil_iff, Option.filter_eq_some_iff]
  have hindexed : ∀ (patterns : List Json) (P : Json → Prop),
      (∀ entry ∈ patterns.zipIdx, P entry.1) ↔ ∀ entry ∈ patterns, P entry := by
    intro patterns P
    have hmap := List.zipIdx_map_fst 0 patterns
    conv_rhs => rw [← hmap]
    simp only [List.forall_mem_map]
  unfold patternFaults PatternsCompile redactionPatterns
  simp only [List.flatMap_eq_nil_iff, Option.mem_toList, Option.bind_eq_some_iff]
  constructor
  · intro h v hget patterns harray
    refine (hindexed patterns _).mp fun entry hentry => ?_
    exact (hpattern entry.2 entry.1).mp (List.flatMap_eq_nil_iff.mpr fun pattern hmem =>
      h patterns ⟨v, hget, harray⟩ entry hentry pattern (by simpa using hmem))
  · rintro h patterns ⟨v, hget, harray⟩ entry hentry
    have hcompile := (hindexed patterns _).mpr (h v hget patterns harray) entry hentry
    have hnil := (hpattern entry.2 entry.1).mpr hcompile
    simpa [List.flatMap_eq_nil_iff] using hnil

/-- **`validate` finds no fault where every rule holds.** -/
theorem validate_eq_ok_iff : c.validate s = .ok () ↔ Valid s c := by
  have hfaults : c.validate s = .ok () ↔ c.faults s = [] := by
    unfold validate
    cases c.faults s with
    | nil => simp
    | cons fault rest => simp
  have hknown : (if c.strictMode then c.rejectUnknownFrameworkKeys else []) = [] ↔
      (c.strictMode = true → ∀ name ∈ frameworkSections,
        ∀ v, c.userNamespaces.child name = some v → unknownKeys name v.1 = []) := by
    rw [← rejectUnknownFrameworkKeys_eq_nil_iff]
    cases c.strictMode with
    | true => simp
    | false => simp
  have hnamespaces : (if c.mode = .namespaced then
        c.userNamespaces.entries.flatMap (c.namespaceFaults s) else []) = [] ↔
      (c.mode = .namespaced → ∀ name v, c.userNamespaces.child name = some v →
        CheckedNamespace name v.1 →
          (c.strictMode = true → NamespaceKnown s name) ∧ SchemaAccepts s name v.1) := by
    by_cases hmode : c.mode = .namespaced
    · rw [if_pos hmode, List.flatMap_eq_nil_iff]
      constructor
      · intro h _ name v hchild
        exact namespaceFaults_eq_nil_iff.mp (h (name, v.1) (mem_entries_iff.mpr ⟨v, hchild, rfl⟩))
      · rintro h ⟨name, v⟩ hentry
        obtain ⟨w, hchild, rfl⟩ := mem_entries_iff.mp hentry
        exact namespaceFaults_eq_nil_iff.mpr (h hmode name w hchild)
    · rw [if_neg hmode]
      exact iff_of_true rfl fun hcontra => absurd hcontra hmode
  rw [hfaults]
  unfold faults
  rw [List.append_eq_nil_iff, List.append_eq_nil_iff, List.append_eq_nil_iff,
    List.append_eq_nil_iff, List.append_eq_nil_iff, missingFields_eq_nil_iff,
    collectConstraintErrors_eq_nil_iff, endpointFaults_eq_nil_iff, hknown, hnamespaces,
    patternFaults_eq_nil_iff]
  constructor
  · rintro ⟨⟨⟨⟨⟨hrequired, hconstrained⟩, hendpoint⟩, hknown⟩, hnamespaces⟩, hpatterns⟩
    exact ⟨hrequired, hconstrained, hendpoint, hknown, hnamespaces, hpatterns⟩
  · intro h
    exact ⟨⟨⟨⟨⟨h.required, h.constrained⟩, h.endpoint⟩, h.known⟩, h.namespaces⟩, h.patterns⟩

end Rules

/-! ## The typed fields -/

/-- The rules about the typed fields. -/
structure TypedValid (t : TypedFields) : Prop where
  constrained : ∀ (f : TypedField) constraint, constraintOf f.key = some constraint →
    ∀ v, f.read t = some v → constraint.holds v.1 = true
  endpoint : t.observability.tracing.otlpEndpoint.isSome → t.observability.tracing.exporter = "otlp"

/-- A key sets a typed field: under its own spelling, or qualified. -/
def Names (key : String) (f : TypedField) : Prop := key = f.key ∨ key = qualified f.key

/-- What the field that a key sets makes of a value keeps the rules about the fields. -/
structure TypedFits (c : Config) (key : String) (value : Value) : Prop where
  constrained : ∀ f, Names key f → ∀ t, f.write c.toTypedFields value = some t →
    ∀ constraint, constraintOf f.key = some constraint →
      ∀ v, f.read t = some v → constraint.holds v.1 = true
  endpoint : ∀ f, Names key f → ∀ t, f.write c.toTypedFields value = some t →
    t.observability.tracing.otlpEndpoint.isSome → t.observability.tracing.exporter = "otlp"

section Typed

variable {s : Surroundings} {c : Config} {key : String} {value : Value}

theorem Valid.typedValid (h : Valid s c) : TypedValid c.toTypedFields :=
  ⟨fun f constraint hconstraint v hv =>
    h.constrained f.key constraint hconstraint v (get_typed hv), h.endpoint⟩

theorem TypedField.read_write_ne {f g : TypedField} {t t' : TypedFields}
    (h : f.write t value = some t') (hne : g ≠ f) : g.read t' = g.read t := by
  cases f with
  | otlpEndpoint =>
    unfold TypedField.write at h
    split_ifs at h with hnull
    · obtain rfl := Option.some.inj h
      cases g <;> first | rfl | exact absurd rfl hne
    · obtain ⟨endpoint, -, rfl⟩ := Option.map_eq_some_iff.mp h
      cases g <;> first | rfl | exact absurd rfl hne
  | _ =>
    obtain ⟨converted, -, rfl⟩ := Option.map_eq_some_iff.mp h
    cases g <;> first | rfl | exact absurd rfl hne

theorem ofKey?_qualified (key : String) : TypedField.ofKey? (qualified key) = none := by
  cases hfield : TypedField.ofKey? (qualified key) with
  | none => rfl
  | some f =>
    have hall : ∀ f : TypedField, stripLead "apcore." f.key = none := by
      intro f
      cases f <;> decide +kernel
    have hstrip : stripLead "apcore." f.key = some key :=
      stripLead_eq_some.mpr (TypedField.ofKey?_eq_some.mp hfield).symm
    rw [hall] at hstrip
    cases hstrip

/-- `set` writes at most one typed field. -/
theorem set_typed_cases (c : Config) (key : String) (value : Value) :
    (c.set key value).toTypedFields = c.toTypedFields ∨
      ∃ f, Names key f ∧ f.write c.toTypedFields value = some (c.set key value).toTypedFields := by
  have hfield : ∀ name, setTypedField c.toTypedFields name value = none ∨
      ∃ f : TypedField, name = f.key ∧
        f.write c.toTypedFields value = setTypedField c.toTypedFields name value := by
    intro name
    unfold setTypedField
    cases hname : TypedField.ofKey? name with
    | none => exact .inl rfl
    | some f => exact .inr ⟨f, TypedField.ofKey?_eq_some.mp hname, rfl⟩
  cases hstrip : stripLead "apcore." key with
  | none =>
    rw [set_typed hstrip]
    rcases hfield key with hnone | ⟨f, hkey, hwrite⟩
    · exact .inl (by rw [hnone]; rfl)
    · cases hset : setTypedField c.toTypedFields key value with
      | none => exact .inl rfl
      | some t => exact .inr ⟨f, .inl hkey, hwrite.trans hset⟩
  | some name =>
    obtain rfl : key = qualified name := stripLead_eq_some.mp hstrip
    have htyped : (c.set (qualified name) value).toTypedFields =
        (setTypedField c.toTypedFields name value).getD c.toTypedFields := by
      have huntyped : ∀ t : TypedFields, setTypedField t (qualified name) value = none := by
        intro t
        unfold setTypedField
        rw [ofKey?_qualified]
        rfl
      unfold set
      rw [hstrip]
      dsimp only
      rw [huntyped, Option.getD_none]
    rw [htyped]
    rcases hfield name with hnone | ⟨f, hkey, hwrite⟩
    · exact .inl (by rw [hnone]; rfl)
    · cases hset : setTypedField c.toTypedFields name value with
      | none => exact .inl rfl
      | some t => exact .inr ⟨f, .inr (congrArg qualified hkey), hwrite.trans hset⟩

/-- The fields keep their rules where the value fits the field it is for. -/
theorem TypedFits.typedValid (h : TypedFits c key value) (hvalid : TypedValid c.toTypedFields) :
    TypedValid (c.set key value).toTypedFields := by
  rcases set_typed_cases c key value with hsame | ⟨f, hnames, hwrite⟩
  · rw [hsame]
    exact hvalid
  · refine ⟨fun g constraint hconstraint v hv => ?_, h.endpoint f hnames _ hwrite⟩
    by_cases hg : g = f
    · subst hg
      exact h.constrained g hnames _ hwrite constraint hconstraint v hv
    · rw [TypedField.read_write_ne hwrite hg] at hv
      exact hvalid.constrained g constraint hconstraint v hv

end Typed

/-! ## The document -/

/-- What the section of a key is once the value is written in it. -/
def writtenSection (c : Config) (name : String) (rest : List String) (w : Value) : Value :=
  Value.nested.write rest w ((c.userNamespaces.child name).getD .empty)

/-- The configuration is strict once `w` is written at `place`. -/
def StrictAfter (c : Config) (place : List String) (w : Value) : Prop :=
  (∃ rest, ["_config", "strict"] = place ++ rest ∧
    (Value.nested.read rest w).bind (·.1.asBool?) = some true) ∨
  Apart place ["_config", "strict"] ∧ c.strictMode = true

/-- The value written under a key breaks no rule about the document. -/
structure DocumentFits (s : Surroundings) (c : Config) (key : String) (w : Value) : Prop where
  /-- A required key is not covered by a value without it. -/
  required : c.mode = .legacy → ∀ field ∈ requiredFields, ∀ rest,
    writtenPath s.registry field = segments key ++ rest → (Value.nested.read rest w).isSome
  /-- A key with a constraint is met with a value that satisfies it. -/
  constrained : ∀ watched constraint, constraintOf watched = some constraint →
    TypedField.ofKey? watched = none →
    Fits s.registry c (segments key) w (fun v => constraint.holds v.1 = true) watched
  patterns : Fits s.registry c (segments key) w (PatternsCompile s) redactionPatterns
  /-- In strict mode the section has no keys that are not declared. -/
  known : StrictAfter c (segments key) w → ∀ name rest, segments key = name :: rest →
    name ∈ frameworkSections → unknownKeys name (c.writtenSection name rest w).1 = []
  /-- A namespace is accepted by its schema, and known in strict mode. -/
  namespaces : c.mode = .namespaced → ∀ name rest, segments key = name :: rest →
    CheckedNamespace name (c.writtenSection name rest w).1 →
      (StrictAfter c (segments key) w → NamespaceKnown s name) ∧
        SchemaAccepts s name (c.writtenSection name rest w).1
  /-- Strict mode is turned on where the other sections are as it asks. -/
  turnedStrict : StrictAfter c (segments key) w → c.strictMode = false →
    ∀ name, (segments key).head? ≠ some name → ∀ v, c.userNamespaces.child name = some v →
      (name ∈ frameworkSections → unknownKeys name v.1 = []) ∧
        (c.mode = .namespaced → CheckedNamespace name v.1 → NamespaceKnown s name)

section Document

variable {s : Surroundings} {c c' : Config} {key : String} {w : Value}

theorem strictMode_iff : c.strictMode = true ↔
    (Value.nested.read ["_config", "strict"] c.userNamespaces).bind (·.1.asBool?) = some true := by
  have hread : Value.nested.read ["_config", "strict"] c.userNamespaces =
      (c.userNamespaces.child "_config").bind (·.child "strict") := by
    show (c.userNamespaces.child "_config").bind (fun t => (t.child "strict").bind some) = _
    simp
  unfold strictMode
  rw [hread]
  cases ((c.userNamespaces.child "_config").bind (·.child "strict")).bind (·.1.asBool?) with
  | none => simp
  | some b => simp

variable (hdocument : c'.userNamespaces = Value.nested.write (segments key) w c.userNamespaces)
include hdocument

theorem strictAfter_of_strictMode (h : c'.strictMode = true) :
    StrictAfter c (segments key) w := by
  rw [strictMode_iff, hdocument] at h
  by_cases habove : segments key <+: ["_config", "strict"]
  · obtain ⟨rest, hrest⟩ := habove
    rw [← hrest, read_write_append] at h
    exact .inl ⟨rest, hrest.symm, h⟩
  · by_cases hbelow : ["_config", "strict"] <+: segments key
    · -- an object is no flag
      obtain ⟨rest, hrest⟩ := hbelow
      have hne : rest ≠ [] := by
        rintro rfl
        rw [List.append_nil] at hrest
        exact habove (hrest ▸ List.prefix_rfl)
      rw [← hrest, read_write_above, Option.bind_some] at h
      have hobject := isObject_write hne w
        ((Value.nested.read ["_config", "strict"] c.userNamespaces).getD Value.nested.blank)
      generalize Value.nested.write rest w _ = written at h hobject
      obtain ⟨written, hwritten⟩ := written
      cases written with
      | bool b => cases hobject
      | _ => cases h
    · have hapart : Apart (segments key) ["_config", "strict"] := ⟨habove, hbelow⟩
      rw [read_write_apart hapart] at h
      exact .inr ⟨hapart, strictMode_iff.mpr h⟩

/-- The entries of the document are those before, but for the section of the key. -/
theorem child_written {name : String} {v : Value} (h : c'.userNamespaces.child name = some v) :
    (∃ rest, segments key = name :: rest ∧ v = c.writtenSection name rest w) ∨
      (segments key).head? ≠ some name ∧ c.userNamespaces.child name = some v := by
  cases hsegments : segments key with
  | nil => exact absurd hsegments (segments_ne_nil key)
  | cons first rest =>
    rw [hsegments, write_cons] at hdocument
    rw [hdocument] at h
    by_cases hname : name = first
    · subst hname
      have hself := Value.child_put_self name (Value.nested.write rest w
        ((Value.nested.child c.userNamespaces name).getD Value.nested.blank)) c.userNamespaces
      exact .inl ⟨rest, rfl, Option.some.inj (h.symm.trans hself)⟩
    · refine .inr ⟨fun hhead => hname (Option.some.inj hhead).symm, ?_⟩
      exact (Value.child_put_ne hname _ _).symm.trans h

/-- A required key stays declared. -/
theorem DocumentFits.required_written (hfits : DocumentFits s c key w) (hmode : c.mode = .legacy)
    {field : String} (hfield : field ∈ requiredFields)
    (h : (c.getAsWritten s.registry field).isSome) :
    (c'.getAsWritten s.registry field).isSome := by
  unfold getAsWritten at h ⊢
  rw [hdocument]
  by_cases habove : segments key <+: writtenPath s.registry field
  · obtain ⟨rest, hrest⟩ := habove
    rw [← hrest, read_write_append]
    exact hfits.required hmode field hfield rest hrest.symm
  · by_cases hbelow : writtenPath s.registry field <+: segments key
    · obtain ⟨rest, hrest⟩ := hbelow
      rw [← hrest, read_write_above]
      rfl
    · rw [read_write_apart ⟨habove, hbelow⟩]
      exact h

/-- **A write that fits keeps a configuration valid.** -/
theorem Valid.write (h : Valid s c) (hfits : DocumentFits s c key w) (hmode : c'.mode = c.mode)
    (htyped : TypedValid c'.toTypedFields) : Valid s c' where
  required hlegacy field hfield := by
    have hbefore : c.mode = .legacy := hmode.symm.trans hlegacy
    exact hfits.required_written hdocument hbefore hfield (h.required hbefore field hfield)
  constrained watched constraint hconstraint := by
    rcases (constrained_cases hconstraint).2 with ⟨f, -, rfl, hpath⟩ | ⟨huntyped, -⟩
    · intro v hv
      obtain ⟨stored, hstored⟩ :=
        Option.isSome_iff_exists.mp (TypedField.isSome_read hpath c'.toTypedFields)
      rw [get_typed hstored] at hv
      obtain rfl := Option.some.inj hv
      exact htyped.constrained f constraint hconstraint _ hstored
    · exact (hfits.constrained watched constraint hconstraint huntyped).admits
        (plain_of_constrained hconstraint huntyped) hmode hdocument
        (h.constrained watched constraint hconstraint)
  endpoint := htyped.endpoint
  known hstrict name hname v hchild := by
    have hafter := strictAfter_of_strictMode hdocument hstrict
    rcases child_written hdocument hchild with ⟨rest, hsegments, rfl⟩ | ⟨hhead, hbefore⟩
    · exact hfits.known hafter name rest hsegments hname
    · cases hmodeBefore : c.strictMode with
      | true => exact h.known hmodeBefore name hname v hbefore
      | false => exact (hfits.turnedStrict hafter hmodeBefore name hhead v hbefore).1 hname
  namespaces hnamespaced name v hchild hchecked := by
    have hbeforeMode : c.mode = .namespaced := hmode.symm.trans hnamespaced
    rcases child_written hdocument hchild with ⟨rest, hsegments, rfl⟩ | ⟨hhead, hbefore⟩
    · have hsection := hfits.namespaces hbeforeMode name rest hsegments hchecked
      exact ⟨fun hstrict => hsection.1 (strictAfter_of_strictMode hdocument hstrict), hsection.2⟩
    · have hsection := h.namespaces hbeforeMode name v hbefore hchecked
      refine ⟨fun hstrict => ?_, hsection.2⟩
      have hafter := strictAfter_of_strictMode hdocument hstrict
      cases hmodeBefore : c.strictMode with
      | true => exact hsection.1 hmodeBefore
      | false =>
        exact (hfits.turnedStrict hafter hmodeBefore name hhead v hbefore).2 hbeforeMode hchecked
  patterns :=
    hfits.patterns.admits plain_redactionPatterns hmode hdocument h.patterns

end Document

/-! ## The sections that no rule watches -/

/-- The first names of the keys that the rules are about, the typed fields apart. -/
def watchedSections : List String :=
  ["_config", "acl", "apcore", "extensions", "obs", "project", "sys_modules", "version"]

theorem Shown.of_apart {path place : List String} {w : Value} {otherwise : Option Value}
    {Q : Value → Prop} (h : Apart place path) : Shown path place w otherwise Q := by
  refine ⟨fun rest hrest => ?_, fun rest hrest => ?_⟩
  · exact absurd ⟨rest, hrest.symm⟩ h.1
  · exact absurd ⟨rest, hrest.symm⟩ h.2

/-- Keys with different first names do not meet. -/
theorem apart_writtenPath {registry : NamespaceRegistry} {key watched : String}
    (hends : ∀ ns, segments watched ≠ [ns, ""])
    (hhead : (segments key).head? ≠ (segments watched).head?) :
    Apart (segments key) (writtenPath registry watched) := by
  by_contra hreach
  have hpath := (writtenPath_of_not_apart hreach).resolve_right fun ⟨ns, hns⟩ => hends ns hns
  rw [hpath] at hreach
  cases hkey : segments key with
  | nil => exact segments_ne_nil key hkey
  | cons name rest =>
    cases hwatched : segments watched with
    | nil => exact segments_ne_nil watched hwatched
    | cons name' rest' =>
      rw [hkey, hwatched] at hreach hhead
      exact hreach (apart_of_ne fun hname => hhead (congrArg some hname))

theorem Fits.of_head {registry : NamespaceRegistry} {c : Config} {key watched : String} {w : Value}
    {Q : Value → Prop} (hplain : Plain watched) (happ : (segments key).head? ≠ some "apcore")
    (hhead : (segments key).head? ≠ (segments watched).head?) :
    Fits registry c (segments key) w Q watched := by
  refine ⟨Shown.of_apart (apart_writtenPath hplain.segments_ne hhead), fun _ hcontra => ?_,
    fun _ hcontra => ?_⟩
  · exact absurd hcontra happ
  · exact absurd hcontra happ

/-- Under a key of another section every value fits, the schema of the section and strict mode
apart. -/
theorem DocumentFits.of_unwatched {s : Surroundings} {c : Config} {key name : String}
    {rest : List String} (hsegments : segments key = name :: rest) (hname : name ∉ watchedSections)
    (hlax : c.strictMode = false) {w : Value}
    (hschema : c.mode = .namespaced → SchemaAccepts s name (c.writtenSection name rest w).1) :
    DocumentFits s c key w := by
  have hhead : ∀ watched : String, (∃ other ∈ watchedSections, (segments watched).head? = some other) →
      (segments key).head? ≠ (segments watched).head? := by
    rintro watched ⟨other, hother, hwatched⟩ heq
    rw [hsegments, hwatched] at heq
    exact hname (Option.some.inj heq ▸ hother)
  have happ : (segments key).head? ≠ some "apcore" := by
    rw [hsegments]
    exact fun heq => hname (Option.some.inj heq ▸ by decide)
  have hstrict : ¬ StrictAfter c (segments key) w := by
    rintro (⟨rest', hrest', -⟩ | ⟨-, hcontra⟩)
    · rw [hsegments] at hrest'
      exact hname ((List.cons.inj hrest').1 ▸ by decide)
    · rw [hlax] at hcontra
      cases hcontra
  refine ⟨fun _ field hfield rest' hrest' => ?_, fun watched constraint hconstraint huntyped => ?_,
    ?_, fun hcontra => absurd hcontra hstrict, fun hmode name' rest' heq _ => ?_,
    fun hcontra => absurd hcontra hstrict⟩
  · have hfacts : ∀ field ∈ requiredFields, (segments field).getLast? ≠ some "" ∧
        ∃ other ∈ watchedSections, (segments field).head? = some other := by
      decide +kernel
    obtain ⟨hlast, hwatched⟩ := hfacts field hfield
    have hends : ∀ ns, segments field ≠ [ns, ""] := by
      intro ns heq
      rw [heq] at hlast
      exact hlast rfl
    have hapart : Apart (segments key) (writtenPath s.registry field) :=
      apart_writtenPath hends (hhead field hwatched)
    exact absurd ⟨rest', hrest'.symm⟩ hapart.1
  · have hfacts : ∀ key ∈ constrainedKeys.map (·.1), TypedField.ofKey? key = none →
        ∃ other ∈ watchedSections, (segments key).head? = some other := by
      decide +kernel
    exact Fits.of_head (plain_of_constrained hconstraint huntyped) happ
      (hhead watched (hfacts watched (mem_constrainedKeys hconstraint) huntyped))
  · exact Fits.of_head plain_redactionPatterns happ (hhead redactionPatterns (by decide +kernel))
  · obtain ⟨rfl, rfl⟩ := List.cons.inj (hsegments.symm.trans heq)
    exact ⟨fun hcontra => absurd hcontra hstrict, hschema hmode⟩

end Apcore.Config
