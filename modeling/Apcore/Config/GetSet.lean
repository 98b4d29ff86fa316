import Apcore.Config.Documents
import Apcore.Config.Valid

/-! # `Config.GetSet` — what `get` answers after `set`

A key of non-empty segments is read where it is written, as long as no registered name has a dot.
The typed fields of `executor` and `observability` stay in force in what is read of their sections:
a container of such fields has them over what was set, and what is set below one is not seen. -/

open Nested

namespace Apcore.Config

/-! ## Keys -/

/-- No segment of the key is empty. -/
def Proper (key : String) : Prop := "" ∉ segments key

instance (key : String) : Decidable (Proper key) := inferInstanceAs (Decidable ("" ∉ segments key))

/-- No registered name has a dot. -/
def Dotless (registry : NamespaceRegistry) : Prop := ∀ r ∈ registry, '.' ∉ r.name.toList

instance (registry : NamespaceRegistry) : Decidable (Dotless registry) :=
  inferInstanceAs (Decidable (∀ r ∈ registry, '.' ∉ r.name.toList))

/-- The key without `apcore.` before it. -/
def unqualified (key : String) : String := (stripLead "apcore." key).getD key

/-- A part of the way to a typed field. -/
def Container (key : String) : Prop := ∃ f : TypedField, segments key <+: segments f.key ∧ key ≠ f.key

/-- Below a typed field of a section. -/
def BelowField (key : String) : Prop :=
  ∃ f : TypedField, f ≠ .modulesPath ∧ segments f.key <+: segments key ∧ key ≠ f.key

/-- The values that a field reads back as they were written. -/
def TypedField.OwnType (value : Value) : TypedField → Prop
  | maxCallDepth | maxModuleRepeat => ∃ n : UInt32, value = .number (.posInt n.toUInt64)
  | defaultTimeout | globalTimeout => ∃ n : UInt64, value = .number (.posInt n)
  | tracingEnabled | metricsEnabled => ∃ b, value = .bool b
  | samplingRate => ∃ q, value = .number (.float q)
  | exporter | strategy | modulesPath => ∃ s, value = .string s
  | otlpEndpoint => value = .null ∨ ∃ s, value = .string s

/-- The typed fields of the two sections, as a document. -/
def typedDocument (t : TypedFields) : Value :=
  .ofEntries [("executor", t.executor.toValue), ("observability", t.observability.toValue)]

/-- The first write under `observability` brings the containers of its typed fields into view. -/
def Opens (c : Config) (key other : String) : Prop :=
  (segments key).head? = some "observability" ∧ c.userNamespaces.child "observability" = none ∧
    (other = "observability.tracing" ∨ other = "observability.metrics")

/-- What `get` answers once a key is set. -/
structure GetSet (registry : NamespaceRegistry) (c : Config) (key : String) (value : Value) :
    Prop where
  own : ¬ Container key → ¬ BelowField key → (c.set key value).get registry key = some value
  container : Container key → ∃ fields,
    Value.nested.read (segments key) (typedDocument c.toTypedFields) = some fields ∧
      (c.set key value).get registry key = some (.merge value fields)
  below : BelowField key → (c.set key value).get registry key = c.get registry key
  other : key ≠ "apcore" → ∀ other, Proper other → other ≠ "apcore" →
    Apart (segments (unqualified key)) (segments (unqualified other)) → ¬ Opens c key other →
    (c.set key value).get registry other = c.get registry other

theorem writtenPath_of_proper {registry : NamespaceRegistry} (hdotless : Dotless registry)
    {key : String} (hproper : Proper key) : writtenPath registry key = segments key := by
  unfold writtenPath
  split
  · next name rest hmatched =>
    have hname : '.' ∉ name.toList := by
      obtain ⟨found, hfound, hmatch⟩ := List.exists_of_findSome?_eq_some hmatched
      obtain ⟨r, hr, rfl⟩ := List.mem_map.mp (List.mem_mergeSort.mp hfound)
      have hsame : r.name = name := by
        split_ifs at hmatch
        · exact congrArg Prod.fst (Option.some.inj hmatch)
        · obtain ⟨_, -, hpair⟩ := Option.map_eq_some_iff.mp hmatch
          exact congrArg Prod.fst hpair
      exact hsame ▸ hdotless r hr
    rcases matched_cases hmatched with ⟨rfl, rfl⟩ | rfl
    · exact (segments_of_not_mem hname).symm
    · rw [segments_append hname]
      split_ifs with hrest
      · subst hrest
        refine absurd ?_ hproper
        rw [segments_append hname]
        exact List.mem_cons_of_mem _ List.mem_cons_self
      · rfl
  · rfl

theorem proper_qualified {key : String} (h : Proper key) : Proper (qualified key) := by
  unfold Proper
  rw [segments_qualified, List.mem_cons, not_or]
  exact ⟨by decide, h⟩

/-- What follows the section of a key in its view. -/
theorem viewParts_of_proper {ns key rest : String} (hns : '.' ∉ ns.toList) (hproper : Proper key)
    (h : stripNamespace key ns = some rest) : viewParts rest = (segments key).tail := by
  rw [viewParts_of_stripNamespace hns h]
  refine List.filter_eq_self.mpr fun part hpart => decide_eq_true ?_
  rintro rfl
  exact hproper (List.mem_of_mem_tail hpart)

/-! ## The sections of the typed fields -/

theorem child_put (key other : String) (c v : Value) :
    (Value.put key c v).child other = if other = key then some c else v.child other := by
  split
  · next h =>
    subst h
    exact Value.child_put_self _ _ _
  · next h => exact Value.child_put_ne h _ _

namespace TypedField

theorem stripLead_key (f : TypedField) : stripLead "apcore." f.key = none := by
  cases f <;> decide +kernel

theorem ofKey?_of_ne {key : String} (h : ∀ f : TypedField, key ≠ f.key) : ofKey? key = none :=
  Option.eq_none_iff_forall_ne_some.mpr fun f hf => h f (ofKey?_eq_some.mp hf)

/-- A value of its own type is read back. -/
theorem exists_write {f : TypedField} {value : Value} (h : f.OwnType value) (t : TypedFields) :
    ∃ t', f.write t value = some t' ∧ f.read t' = some value := by
  cases f with
  | maxCallDepth | maxModuleRepeat =>
    obtain ⟨n, rfl⟩ := h
    refine ⟨_, rfl, ?_⟩
    simp [read]
  | defaultTimeout | globalTimeout =>
    obtain ⟨n, rfl⟩ := h
    refine ⟨_, rfl, ?_⟩
    simp [read]
  | tracingEnabled | metricsEnabled =>
    obtain ⟨b, rfl⟩ := h
    exact ⟨_, rfl, rfl⟩
  | samplingRate =>
    obtain ⟨q, rfl⟩ := h
    exact ⟨_, rfl, rfl⟩
  | exporter | strategy | modulesPath =>
    obtain ⟨s, rfl⟩ := h
    exact ⟨_, rfl, rfl⟩
  | otlpEndpoint =>
    rcases h with rfl | ⟨s, rfl⟩
    · exact ⟨_, rfl, rfl⟩
    · exact ⟨_, rfl, rfl⟩

end TypedField

/-- The typed part of a section. -/
def typedSection (t : TypedFields) (name : String) : Value :=
  if name = "executor" then t.executor.toValue else t.observability.toValue

theorem child_executor (e : ExecutorConfig) (key : String) :
    e.toValue.child key =
      if key = "max_module_repeat" then some (.number (.posInt e.maxModuleRepeat.toUInt64))
      else if key = "max_call_depth" then some (.number (.posInt e.maxCallDepth.toUInt64))
      else if key = "global_timeout" then some (.number (.posInt e.globalTimeout))
      else if key = "default_timeout" then some (.number (.posInt e.defaultTimeout))
      else none := by
  simp only [ExecutorConfig.toValue, Value.ofEntries_eq, List.foldl_cons, List.foldl_nil,
    child_put]
  rfl

/-- The containers of the typed part of `observability`. -/
def TracingConfig.toValue (tracing : TracingConfig) : Value :=
  .ofEntries [("enabled", .bool tracing.enabled),
    ("sampling_rate", .number (.float tracing.samplingRate)), ("exporter", .string tracing.exporter),
    ("strategy", .string tracing.strategy),
    ("otlp_endpoint", tracing.otlpEndpoint.elim .null .string)]

def MetricsConfig.toValue (metrics : MetricsConfig) : Value :=
  .ofEntries [("enabled", .bool metrics.enabled)]

theorem child_observability (o : ObservabilityConfig) (key : String) :
    o.toValue.child key =
      if key = "metrics" then some o.metrics.toValue
      else if key = "tracing" then some o.tracing.toValue
      else none := by
  rw [ObservabilityConfig.toValue, Value.ofEntries_eq]
  simp only [List.foldl_cons, List.foldl_nil, child_put]
  rfl

theorem child_tracing (tracing : TracingConfig) (key : String) :
    tracing.toValue.child key =
      if key = "otlp_endpoint" then some (tracing.otlpEndpoint.elim .null .string)
      else if key = "strategy" then some (.string tracing.strategy)
      else if key = "exporter" then some (.string tracing.exporter)
      else if key = "sampling_rate" then some (.number (.float tracing.samplingRate))
      else if key = "enabled" then some (.bool tracing.enabled)
      else none := by
  simp only [TracingConfig.toValue, Value.ofEntries_eq, List.foldl_cons, List.foldl_nil, child_put]
  rfl

theorem child_metrics (metrics : MetricsConfig) (key : String) :
    metrics.toValue.child key = if key = "enabled" then some (.bool metrics.enabled) else none := by
  simp only [MetricsConfig.toValue, Value.ofEntries_eq, List.foldl_cons, List.foldl_nil, child_put]
  rfl

/-- How a path of a section stands to the typed fields: it is that of a field, above one, below one,
or leaves them. -/
inductive Place (t : TypedFields) (name : String) (path : List String) : Prop
  | field (f : TypedField) (hsection : f.sectionName = name) (hpath : path = f.below)
  | above (f : TypedField) (rest : List String) (hsection : f.sectionName = name)
      (hrest : rest ≠ []) (hpath : f.below = path ++ rest) (fields : Value)
      (hfields : Value.nested.read path (typedSection t name) = some fields)
  | beneath (f : TypedField) (rest : List String) (hsection : f.sectionName = name)
      (hrest : rest ≠ []) (hpath : path = f.below ++ rest)
  | off (h : Value.Leaves path (typedSection t name))

/-- A path that goes on from a field's name ends there or is below the field. -/
theorem Place.of_field {t : TypedFields} {name : String} (f : TypedField)
    (hsection : f.sectionName = name) (rest : List String) : Place t name (f.below ++ rest) := by
  cases rest with
  | nil => exact .field f hsection (List.append_nil _)
  | cons key rest => exact .beneath f (key :: rest) hsection (List.cons_ne_nil _ _) rfl

theorem place_executor (t : TypedFields) (path : List String) : Place t "executor" path := by
  cases path with
  | nil => exact .above .maxCallDepth _ rfl (List.cons_ne_nil _ _) rfl _ rfl
  | cons key rest =>
    by_cases h₁ : key = "max_call_depth"
    · exact h₁ ▸ .of_field .maxCallDepth rfl rest
    by_cases h₂ : key = "max_module_repeat"
    · exact h₂ ▸ .of_field .maxModuleRepeat rfl rest
    by_cases h₃ : key = "default_timeout"
    · exact h₃ ▸ .of_field .defaultTimeout rfl rest
    by_cases h₄ : key = "global_timeout"
    · exact h₄ ▸ .of_field .globalTimeout rfl rest
    have hnone : t.executor.toValue.child key = none := by
      rw [child_executor]
      simp only [h₁, h₂, h₃, h₄, if_false]
    refine .off ⟨rfl, ?_⟩
    show (t.executor.toValue.child key).elim _ _
    rw [hnone]
    trivial

theorem place_tracing (t : TypedFields) (path : List String) :
    Place t "observability" ("tracing" :: path) := by
  cases path with
  | nil =>
    refine .above .tracingEnabled ["enabled"] rfl (List.cons_ne_nil _ _) rfl
      t.observability.tracing.toValue ?_
    show (t.observability.toValue.child "tracing").bind _ = _
    rw [child_observability]
    rfl
  | cons key rest =>
    by_cases h₁ : key = "enabled"
    · exact h₁ ▸ .of_field .tracingEnabled rfl rest
    by_cases h₂ : key = "sampling_rate"
    · exact h₂ ▸ .of_field .samplingRate rfl rest
    by_cases h₃ : key = "exporter"
    · exact h₃ ▸ .of_field .exporter rfl rest
    by_cases h₄ : key = "strategy"
    · exact h₄ ▸ .of_field .strategy rfl rest
    by_cases h₅ : key = "otlp_endpoint"
    · exact h₅ ▸ .of_field .otlpEndpoint rfl rest
    have hnone : t.observability.tracing.toValue.child key = none := by
      rw [child_tracing]
      simp only [h₁, h₂, h₃, h₄, h₅, if_false]
    refine .off ⟨rfl, ?_⟩
    show (t.observability.toValue.child "tracing").elim _ _
    rw [child_observability]
    refine ⟨rfl, ?_⟩
    rw [hnone]
    trivial

theorem place_metrics (t : TypedFields) (path : List String) :
    Place t "observability" ("metrics" :: path) := by
  cases path with
  | nil =>
    refine .above .metricsEnabled ["enabled"] rfl (List.cons_ne_nil _ _) rfl
      t.observability.metrics.toValue ?_
    show (t.observability.toValue.child "metrics").bind _ = _
    rw [child_observability]
    rfl
  | cons key rest =>
    by_cases h₁ : key = "enabled"
    · exact h₁ ▸ .of_field .metricsEnabled rfl rest
    have hnone : t.observability.metrics.toValue.child key = none := by
      rw [child_metrics, if_neg h₁]
    refine .off ⟨rfl, ?_⟩
    show (t.observability.toValue.child "metrics").elim _ _
    rw [child_observability]
    refine ⟨rfl, ?_⟩
    rw [hnone]
    trivial

theorem place_observability (t : TypedFields) (path : List String) :
    Place t "observability" path := by
  cases path with
  | nil =>
    exact .above .tracingEnabled ["tracing", "enabled"] rfl (List.cons_ne_nil _ _) rfl _ rfl
  | cons key rest =>
    by_cases h₁ : key = "tracing"
    · exact h₁ ▸ place_tracing t rest
    by_cases h₂ : key = "metrics"
    · exact h₂ ▸ place_metrics t rest
    have hnone : t.observability.toValue.child key = none := by
      rw [child_observability]
      simp only [h₁, h₂, if_false]
    refine .off ⟨rfl, ?_⟩
    show (t.observability.toValue.child key).elim _ _
    rw [hnone]
    trivial

theorem differAt_executor {t t' : TypedFields} {key : String}
    (hsame : ∀ other, other ≠ key → t'.executor.toValue.child other = t.executor.toValue.child other)
    (hkey : (t'.executor.toValue.child key).isSome) (hkey' : (t.executor.toValue.child key).isSome) :
    Value.DifferAt [key] (typedSection t' "executor") (typedSection t "executor") := by
  obtain ⟨a, ha⟩ := Option.isSome_iff_exists.mp hkey
  obtain ⟨b, hb⟩ := Option.isSome_iff_exists.mp hkey'
  exact ⟨hsame, a, b, ha, hb, trivial⟩

theorem differAt_tracing {t t' : TypedFields} {key : String}
    (hmetrics : t'.observability.metrics = t.observability.metrics)
    (hsame : ∀ other, other ≠ key →
      t'.observability.tracing.toValue.child other = t.observability.tracing.toValue.child other)
    (hkey : (t'.observability.tracing.toValue.child key).isSome)
    (hkey' : (t.observability.tracing.toValue.child key).isSome) :
    Value.DifferAt ["tracing", key] (typedSection t' "observability")
      (typedSection t "observability") := by
  obtain ⟨a, ha⟩ := Option.isSome_iff_exists.mp hkey
  obtain ⟨b, hb⟩ := Option.isSome_iff_exists.mp hkey'
  refine ⟨fun other hother => ?_, t'.observability.tracing.toValue, t.observability.tracing.toValue,
    child_observability _ _, child_observability _ _, hsame, a, b, ha, hb, trivial⟩
  show t'.observability.toValue.child other = t.observability.toValue.child other
  rw [child_observability, child_observability, hmetrics, if_neg hother, if_neg hother]

theorem differAt_metrics {t t' : TypedFields}
    (htracing : t'.observability.tracing = t.observability.tracing) :
    Value.DifferAt ["metrics", "enabled"] (typedSection t' "observability")
      (typedSection t "observability") := by
  refine ⟨fun other hother => ?_, _, _, child_observability _ _, child_observability _ _,
    fun other hother => ?_, _, _, child_metrics _ _, child_metrics _ _, trivial⟩
  · show t'.observability.toValue.child other = t.observability.toValue.child other
    simp only [child_observability, hother, htracing, if_false]
  · rw [child_metrics, child_metrics, if_neg hother, if_neg hother]

/-- A field that is written changes its own section, at its place. -/
theorem differAt_write {f : TypedField} {t t' : TypedFields} {value : Value}
    (h : f.write t value = some t') :
    (∀ name, name = "executor" ∨ name = "observability" → name ≠ f.sectionName →
      typedSection t' name = typedSection t name) ∧
    (f ≠ .modulesPath → Value.DifferAt f.below (typedSection t' f.sectionName)
      (typedSection t f.sectionName)) := by
  have hexecutor : ∀ {t' : TypedFields}, t'.observability = t.observability → ∀ name,
      name = "executor" ∨ name = "observability" → name ≠ "executor" →
      typedSection t' name = typedSection t name := by
    rintro t' hsame name (rfl | rfl) hne
    · exact absurd rfl hne
    · exact congrArg ObservabilityConfig.toValue hsame
  have hobservability : ∀ {t' : TypedFields}, t'.executor = t.executor → ∀ name,
      name = "executor" ∨ name = "observability" → name ≠ "observability" →
      typedSection t' name = typedSection t name := by
    rintro t' hsame name (rfl | rfl) hne
    · exact congrArg ExecutorConfig.toValue hsame
    · exact absurd rfl hne
  cases f with
  | maxCallDepth | maxModuleRepeat | defaultTimeout | globalTimeout =>
    obtain ⟨n, -, rfl⟩ := Option.map_eq_some_iff.mp h
    refine ⟨hexecutor rfl, fun _ => differAt_executor (fun other hother => ?_) ?_ ?_⟩
    · simp only [child_executor, hother, if_false]
    · simp [child_executor]
    · simp [child_executor]
  | tracingEnabled | samplingRate | exporter | strategy =>
    obtain ⟨n, -, rfl⟩ := Option.map_eq_some_iff.mp h
    refine ⟨hobservability rfl, fun _ => differAt_tracing rfl (fun other hother => ?_) ?_ ?_⟩
    · simp only [child_tracing, hother, if_false]
    · simp [child_tracing]
    · simp [child_tracing]
  | otlpEndpoint =>
    have hexecutor' : t'.executor = t.executor ∧
        t'.observability.metrics = t.observability.metrics ∧
        ∀ other, other ≠ "otlp_endpoint" → t'.observability.tracing.toValue.child other =
          t.observability.tracing.toValue.child other := by
      unfold TypedField.write at h
      split_ifs at h with hnull
      · obtain rfl := Option.some.inj h
        exact ⟨rfl, rfl, fun other hother => by simp only [child_tracing, hother, if_false]⟩
      · obtain ⟨s, -, rfl⟩ := Option.map_eq_some_iff.mp h
        exact ⟨rfl, rfl, fun other hother => by simp only [child_tracing, hother, if_false]⟩
    refine ⟨hobservability hexecutor'.1,
      fun _ => differAt_tracing hexecutor'.2.1 hexecutor'.2.2 ?_ ?_⟩
    · simp [child_tracing]
    · simp [child_tracing]
  | metricsEnabled =>
    obtain ⟨b, -, rfl⟩ := Option.map_eq_some_iff.mp h
    exact ⟨hobservability rfl, fun _ => differAt_metrics rfl⟩
  | modulesPath =>
    obtain ⟨path, -, rfl⟩ := Option.map_eq_some_iff.mp h
    refine ⟨?_, fun hne => absurd rfl hne⟩
    rintro name (rfl | rfl) -
    · rfl
    · rfl

/-! ## The views -/

theorem Value.merge_of_entries {v w overlay : Value} (h : v.entries = w.entries) :
    Value.merge v overlay = Value.merge w overlay := by
  obtain ⟨overlay, hoverlay⟩ := overlay
  apply Subtype.ext
  cases overlay with
  | object fields =>
    have hsorted := (ordered_object.mp hoverlay).1
    show deepMergeValue v.1 (.object fields) = deepMergeValue w.1 (.object fields)
    rw [deepMergeValue_object v hsorted, deepMergeValue_object w hsorted, h]
  | _ => rfl

/-- What a view lays the typed part over. -/
def viewBase (c : Config) (name : String) : Value :=
  ((c.userNamespaces.child name).filter (·.1.isObject)).getD .empty

/-- The view of a section. -/
def sectionView (c : Config) (name : String) : Value :=
  c.typedNamespaceView name (typedSection c.toTypedFields name)

theorem entries_filter_object (v : Value) :
    (((some v).filter (·.1.isObject)).getD .empty).entries = v.entries := by
  cases hv : v.1.isObject with
  | true => rw [Option.filter_some, if_pos hv, Option.getD_some]
  | false =>
    rw [Option.filter_some, if_neg (by simp [hv]), Value.entries_of_not_object hv]
    rfl

section Set

variable {registry : NamespaceRegistry} {c : Config} {key name : String} {value : Value}
  {below : List String}

theorem child_set (hsegments : segments key = name :: below) :
    (c.set key value).userNamespaces.child name =
      some (Value.nested.write below value ((c.userNamespaces.child name).getD .empty)) := by
  have hdocument : (c.set key value).userNamespaces =
      Value.nested.write (segments key) value c.userNamespaces := rfl
  rw [hdocument, hsegments]
  exact Value.child_put_self _ _ _

theorem child_set_ne {other : String} (hne : (segments key).head? ≠ some other) :
    (c.set key value).userNamespaces.child other = c.userNamespaces.child other := by
  have hdocument : (c.set key value).userNamespaces =
      Value.nested.write (segments key) value c.userNamespaces := rfl
  rw [hdocument]
  cases hsegments : segments key with
  | nil => exact absurd hsegments (segments_ne_nil key)
  | cons first rest =>
    rw [hsegments] at hne
    exact Value.child_put_ne (fun heq => hne (congrArg some heq.symm)) _ _

/-- What is set in a section is under the typed part. -/
theorem view_set (hsegments : segments key = name :: below) (typed : Value) :
    (c.set key value).typedNamespaceView name typed =
      .merge (Value.nested.write below value (c.viewBase name)) typed := by
  unfold typedNamespaceView
  rw [child_set hsegments]
  refine (Value.merge_of_entries (entries_filter_object _)).trans ?_
  cases below with
  | nil => rfl
  | cons first rest =>
    refine congrArg (Value.merge · typed) (Value.write_of_entries (List.cons_ne_nil _ _) ?_)
    unfold viewBase
    cases c.userNamespaces.child name with
    | none => rfl
    | some v => exact (entries_filter_object v).symm

theorem view_set_ne (hne : (segments key).head? ≠ some name) (typed : Value) :
    (c.set key value).typedNamespaceView name typed = c.typedNamespaceView name typed := by
  unfold typedNamespaceView
  rw [child_set_ne hne]

end Set

/-! ## Direct answers -/

section Direct

variable {registry : NamespaceRegistry} {key : String} {below : List String}

theorem head_stripNamespace {ns : String} (hns : '.' ∉ ns.toList) (hproper : Proper key)
    (hsegments : segments key = ns :: below) :
    ∃ rest, stripNamespace key ns = some rest ∧ viewParts rest = below := by
  obtain ⟨rest, hrest⟩ := Option.isSome_iff_exists.mp
    ((stripNamespace_isSome_iff hns).mpr (by rw [hsegments]; rfl))
  refine ⟨rest, hrest, ?_⟩
  rw [viewParts_of_proper hns hproper hrest, hsegments]
  rfl

theorem getDirect_executor (c : Config) (hproper : Proper key)
    (hsegments : segments key = "executor" :: below) :
    c.getDirect registry key = (getTypedField c.toTypedFields key).or
      (Value.nested.read below (c.sectionView "executor")) := by
  obtain ⟨rest, hrest, hparts⟩ := head_stripNamespace (by decide) hproper hsegments
  have hnone : stripNamespace key "observability" = none :=
    stripNamespace_eq_none (by decide) (by rw [hsegments]; simp)
  unfold getDirect
  rw [hnone, hrest]
  dsimp only
  rw [hparts]
  rfl

theorem getDirect_observability (c : Config) (hproper : Proper key)
    (hsegments : segments key = "observability" :: below) :
    c.getDirect registry key = (getTypedField c.toTypedFields key).or
      ((c.userNamespaces.child "observability").bind fun _ =>
        Value.nested.read below (c.sectionView "observability")) := by
  obtain ⟨rest, hrest, hparts⟩ := head_stripNamespace (by decide) hproper hsegments
  unfold getDirect
  rw [hrest]
  dsimp only
  rw [hparts]
  rfl

theorem getDirect_written (c : Config) (hdotless : Dotless registry) (hproper : Proper key)
    (hexecutor : (segments key).head? ≠ some "executor")
    (hobservability : (segments key).head? ≠ some "observability") :
    c.getDirect registry key = (getTypedField c.toTypedFields key).or
      (Value.nested.read (segments key) c.userNamespaces) := by
  rw [getDirect_of_strip_none (stripNamespace_eq_none (by decide) hobservability)
    (stripNamespace_eq_none (by decide) hexecutor), getAsWritten,
    writtenPath_of_proper hdotless hproper]

end Direct

/-! ## What `get` falls back to -/

section Fallback

variable {registry : NamespaceRegistry} {c : Config} {key other : String} {value : Value}

theorem getAsWritten_qualified (hdotless : Dotless registry) (hother : Proper other) :
    c.getAsWritten registry (qualified other) =
      Value.nested.read ("apcore" :: segments other) c.userNamespaces := by
  rw [getAsWritten, writtenPath_of_proper hdotless (proper_qualified hother), segments_qualified]

/-- Without a block nothing is found under `apcore`, so whether there is one need not be asked. -/
theorem implied_eq (hdotless : Dotless registry) (hother : Proper other) :
    (if c.impliesApcore other then c.getDirect registry (qualified other) else none) =
      if c.mode = .namespaced ∧ other ≠ "apcore" ∧ stripLead "apcore." other = none then
        Value.nested.read ("apcore" :: segments other) c.userNamespaces else none := by
  have hdirect : c.getDirect registry (qualified other) =
      Value.nested.read ("apcore" :: segments other) c.userNamespaces := by
    rw [getDirect_qualified, getTypedField, ofKey?_qualified, getAsWritten_qualified hdotless hother]
    rfl
  rw [hdirect]
  cases hblock : c.userNamespaces.child "apcore" with
  | none =>
    have hread : Value.nested.read ("apcore" :: segments other) c.userNamespaces = none := by
      show (c.userNamespaces.child "apcore").bind _ = none
      rw [hblock]
      rfl
    rw [hread, ite_self, ite_self]
  | some block =>
    refine if_congr ?_ rfl rfl
    simp [impliesApcore, hblock, and_assoc]

theorem fallback_set (hdotless : Dotless registry) (hother : Proper other)
    (hapart : stripLead "apcore." other = none → other ≠ "apcore" →
      Apart (segments key) ("apcore" :: segments other)) :
    (c.set key value).fallback registry other = c.fallback registry other := by
  have hmode : (c.set key value).mode = c.mode := rfl
  have hdocument : (c.set key value).userNamespaces =
      Value.nested.write (segments key) value c.userNamespaces := rfl
  unfold fallback
  rw [implied_eq hdotless hother, implied_eq hdotless hother, hmode, hdocument]
  congr 1
  split_ifs with h
  · exact read_write_apart (hapart h.2.2 h.2.1)
  · rfl

end Fallback

/-! ## The key that is set -/

section Own

variable {registry : NamespaceRegistry} {c : Config} {key name : String} {value : Value}
  {below : List String} {f : TypedField}

theorem stripLead_eq_none_of_head (h : (segments key).head? ≠ some "apcore") :
    stripLead "apcore." key = none := by
  cases hstrip : stripLead "apcore." key with
  | none => rfl
  | some rest =>
    have hkey : key = qualified rest := stripLead_eq_some.mp hstrip
    rw [hkey, segments_qualified] at h
    exact absurd rfl h

/-- A key that is not that of a typed field, qualified or not, leaves the typed fields. -/
theorem typed_set_of_head (hhead : (segments key).head? ≠ some "apcore")
    (huntyped : TypedField.ofKey? key = none) :
    (c.set key value).toTypedFields = c.toTypedFields := by
  rw [set_typed (stripLead_eq_none_of_head hhead), setTypedField, huntyped]
  rfl

theorem get_of_direct {v : Value} (h : c.getDirect registry key = some v) :
    c.get registry key = some v := by
  rw [get_eq_or, h]
  rfl

theorem get_set_typed (hown : f.OwnType value) :
    (c.set f.key value).get registry f.key = some value := by
  obtain ⟨t', hwrite, hread⟩ := TypedField.exists_write hown c.toTypedFields
  have htyped : (c.set f.key value).toTypedFields = t' := by
    rw [set_typed f.stripLead_key, setTypedField, TypedField.ofKey?_key, Option.bind_some, hwrite]
    rfl
  exact get_typed (by rw [htyped]; exact hread)

theorem read_typedSection (hname : name = "executor" ∨ name = "observability")
    (hsection : f.sectionName = name) (t : TypedFields) :
    Value.nested.read f.below (typedSection t name) = f.read t := by
  rcases hname with rfl | rfl
  · exact TypedField.read_executor hsection
  · exact TypedField.read_observability hsection

theorem read_typedDocument (hname : name = "executor" ∨ name = "observability") (t : TypedFields) :
    Value.nested.read (name :: below) (typedDocument t) =
      Value.nested.read below (typedSection t name) := by
  have hchild : (typedDocument t).child name = some (typedSection t name) := by
    rw [typedDocument, Value.ofEntries_eq]
    simp only [List.foldl_cons, List.foldl_nil, child_put]
    rcases hname with rfl | rfl
    · rfl
    · rfl
  rw [read_cons]
  show ((typedDocument t).child name).bind _ = _
  rw [hchild]
  rfl

/-- The section of a typed field that is not alone in its section. -/
theorem section_of_below (h : f.below ≠ []) :
    f.sectionName = "executor" ∨ f.sectionName = "observability" := by
  cases f with
  | modulesPath => exact absurd rfl h
  | maxCallDepth | maxModuleRepeat | defaultTimeout | globalTimeout => exact .inl rfl
  | _ => exact .inr rfl

/-- Reading a key of a section in a configuration with this typed part. -/
theorem getDirect_section (c : Config) (hproper : Proper key)
    (hname : name = "executor" ∨ name = "observability") (hsegments : segments key = name :: below)
    (huntyped : TypedField.ofKey? key = none) (hpresent : (c.userNamespaces.child name).isSome) :
    c.getDirect registry key = Value.nested.read below (c.sectionView name) := by
  have hnone : getTypedField c.toTypedFields key = none := by
    rw [getTypedField, huntyped]
    rfl
  rcases hname with rfl | rfl
  · rw [getDirect_executor c hproper hsegments, hnone]
    rfl
  · obtain ⟨block, hblock⟩ := Option.isSome_iff_exists.mp hpresent
    rw [getDirect_observability c hproper hsegments, hnone, hblock]
    rfl

/-- A key of a section that is set is read under the typed part. -/
theorem getDirect_set_section (hproper : Proper key)
    (hname : name = "executor" ∨ name = "observability") (hsegments : segments key = name :: below)
    (huntyped : TypedField.ofKey? key = none) :
    (c.set key value).getDirect registry key = Value.nested.read below
      (.merge (Value.nested.write below value (c.viewBase name))
        (typedSection c.toTypedFields name)) := by
  have hhead : (segments key).head? ≠ some "apcore" := by
    rw [hsegments]
    rcases hname with rfl | rfl <;> simp
  rw [getDirect_section _ hproper hname hsegments huntyped (by rw [child_set hsegments]; rfl),
    sectionView, view_set hsegments, typed_set_of_head hhead huntyped]

theorem key_eq_of_segments (hsegments : segments key = name :: below) (hsection : f.sectionName = name)
    (hbelow : below = f.below) : key = f.key := by
  apply segments_injective
  rw [hsegments, TypedField.segments_key, hsection, hbelow]

/-- No typed field is on the way to another. -/
theorem TypedField.eq_of_prefix {f g : TypedField} (h : segments g.key <+: segments f.key) : g = f := by
  have hmem : ∀ f : TypedField, f ∈ TypedField.all := by
    intro f
    cases f <;> decide
  have hall : ∀ f ∈ TypedField.all, ∀ g ∈ TypedField.all, segments g.key <+: segments f.key →
      g = f := by decide +kernel
  exact hall f (hmem f) g (hmem g) h

theorem Container.untyped (h : Container key) : TypedField.ofKey? key = none := by
  obtain ⟨f, hlead, hne⟩ := h
  refine TypedField.ofKey?_of_ne fun g hg => ?_
  subst hg
  exact hne (congrArg TypedField.key (TypedField.eq_of_prefix hlead))

theorem BelowField.untyped (h : BelowField key) : TypedField.ofKey? key = none := by
  obtain ⟨f, -, hlead, hne⟩ := h
  refine TypedField.ofKey?_of_ne fun g hg => ?_
  subst hg
  exact hne (congrArg TypedField.key (TypedField.eq_of_prefix hlead)).symm

/-- A container is a place of one of the two sections, and the typed fields have a value there. -/
theorem Container.place (h : Container key) (t : TypedFields) :
    ∃ name below fields, (name = "executor" ∨ name = "observability") ∧
      segments key = name :: below ∧ Value.nested.read below (typedSection t name) = some fields := by
  obtain ⟨f, ⟨rest, hrest⟩, hne⟩ := h
  rw [TypedField.segments_key] at hrest
  cases hsegments : segments key with
  | nil => exact absurd hsegments (segments_ne_nil key)
  | cons name below =>
    rw [hsegments, List.cons_append] at hrest
    obtain ⟨rfl, hbelow⟩ := List.cons.inj hrest
    have hnil : f.below ≠ [] := by
      intro hnil
      rw [hnil] at hbelow
      refine hne (key_eq_of_segments hsegments rfl ?_)
      rw [hnil, (List.append_eq_nil_iff.mp hbelow).1]
    have hname := section_of_below hnil
    obtain ⟨leaf, hleaf⟩ : ∃ leaf, f.read t = some leaf :=
      Option.isSome_iff_exists.mp (f.isSome_read (fun hf => hnil (hf ▸ rfl)) t)
    rw [← read_typedSection hname rfl, ← hbelow, read_append] at hleaf
    obtain ⟨fields, hfields, -⟩ := Option.bind_eq_some_iff.mp hleaf
    exact ⟨f.sectionName, below, fields, hname, rfl, hfields⟩

/-- What is below a field is a place of its section. -/
theorem BelowField.place (h : BelowField key) :
    ∃ (f : TypedField) (rest : List String), f ≠ .modulesPath ∧ rest ≠ [] ∧
      segments key = f.sectionName :: (f.below ++ rest) := by
  obtain ⟨f, hf, ⟨rest, hrest⟩, hne⟩ := h
  refine ⟨f, rest, hf, ?_, ?_⟩
  · rintro rfl
    rw [List.append_nil] at hrest
    exact hne (segments_injective hrest).symm
  · rw [← hrest, TypedField.segments_key, List.cons_append]

/-- Whatever a section is laid over, nothing is read below a typed field. -/
theorem read_below_field {base : Value} {rest : List String} (hf : f ≠ .modulesPath)
    (hrest : rest ≠ []) (t : TypedFields) :
    Value.nested.read (f.below ++ rest) (.merge base (typedSection t f.sectionName)) = none := by
  obtain ⟨leaf, hleaf⟩ := Option.isSome_iff_exists.mp (f.isSome_read hf t)
  have hname := section_of_below (f.below_ne_nil hf)
  have hread := (read_typedSection hname rfl t).trans hleaf
  exact Value.read_merge_below hread (f.isObject_read hleaf) hrest

theorem getDirect_below (c : Config) (hproper : Proper key) (h : BelowField key) :
    c.getDirect registry key = none := by
  have hnone : getTypedField c.toTypedFields key = none := by
    rw [getTypedField, h.untyped]
    rfl
  obtain ⟨f, rest, hf, hrest, hsegments⟩ := h.place
  have hread : Value.nested.read (f.below ++ rest) (c.sectionView f.sectionName) = none :=
    read_below_field hf hrest c.toTypedFields
  rcases section_of_below (f.below_ne_nil hf) with hname | hname
  · rw [hname] at hread hsegments
    rw [getDirect_executor c hproper hsegments, hnone, hread]
    rfl
  · rw [hname] at hread hsegments
    rw [getDirect_observability c hproper hsegments, hnone, hread, Option.none_or,
      Option.bind_eq_none_iff]
    intro block _
    rfl

theorem getSet_container (hproper : Proper key) (h : Container key) : ∃ fields,
    Value.nested.read (segments key) (typedDocument c.toTypedFields) = some fields ∧
      (c.set key value).get registry key = some (.merge value fields) := by
  obtain ⟨name, below, fields, hname, hsegments, hfields⟩ := h.place c.toTypedFields
  refine ⟨fields, ?_, get_of_direct ?_⟩
  · rw [hsegments, read_typedDocument hname]
    exact hfields
  · rw [getDirect_set_section hproper hname hsegments h.untyped]
    exact Value.read_merge_write hfields

theorem getSet_below (hdotless : Dotless registry) (hproper : Proper key) (h : BelowField key) :
    (c.set key value).get registry key = c.get registry key := by
  rw [get_eq_or, get_eq_or, getDirect_below _ hproper h, getDirect_below _ hproper h,
    fallback_set hdotless hproper]
  intro _ _
  obtain ⟨f, rest, hf, -, hsegments⟩ := h.place
  rw [hsegments]
  apply apart_of_ne
  rcases section_of_below (f.below_ne_nil hf) with hname | hname <;> simp [hname]

/-- Away from the typed fields a key is read as it is set. -/
theorem getSet_own (hdotless : Dotless registry) (hproper : Proper key)
    (hown : ∀ f : TypedField, key = f.key → f.OwnType value) (hcontainer : ¬ Container key)
    (hbelow : ¬ BelowField key) : (c.set key value).get registry key = some value := by
  cases hfield : TypedField.ofKey? key with
  | some f =>
    obtain rfl := TypedField.ofKey?_eq_some.mp hfield
    exact get_set_typed (hown f rfl)
  | none =>
    have hnone : getTypedField (c.set key value).toTypedFields key = none := by
      rw [getTypedField, hfield]
      rfl
    apply get_of_direct
    by_cases hhead : (segments key).head? = some "executor" ∨
        (segments key).head? = some "observability"
    · obtain ⟨name, below, hname, hsegments⟩ : ∃ name below,
          (name = "executor" ∨ name = "observability") ∧ segments key = name :: below := by
        cases hsegments : segments key with
        | nil => exact absurd hsegments (segments_ne_nil key)
        | cons name below =>
          rw [hsegments] at hhead
          exact ⟨name, below, hhead.imp Option.some.inj Option.some.inj, rfl⟩
      have hplace : Place c.toTypedFields name below := by
        rcases hname with rfl | rfl
        · exact place_executor _ _
        · exact place_observability _ _
      rw [getDirect_set_section hproper hname hsegments hfield]
      cases hplace with
      | field f hsection hpath =>
        rw [key_eq_of_segments hsegments hsection hpath, TypedField.ofKey?_key] at hfield
        cases hfield
      | above f rest hsection hrest hpath _ _ =>
        refine absurd ⟨f, ⟨rest, ?_⟩, ?_⟩ hcontainer
        · rw [TypedField.segments_key, hsegments, hsection, hpath, List.cons_append]
        · rintro rfl
          rw [TypedField.ofKey?_key] at hfield
          cases hfield
      | beneath f rest hsection hrest hpath =>
        refine absurd ⟨f, ?_, ⟨rest, ?_⟩, ?_⟩ hbelow
        · rintro rfl
          rcases hname with rfl | rfl <;> exact absurd hsection (by decide)
        · rw [TypedField.segments_key, hsegments, hsection, hpath, List.cons_append]
        · rintro rfl
          rw [TypedField.ofKey?_key] at hfield
          cases hfield
      | off hleaves => rw [Value.read_merge_of_leaves hleaves, read_write_self]
    · rw [not_or] at hhead
      rw [getDirect_written _ hdotless hproper hhead.1 hhead.2, hnone, Option.none_or]
      exact read_write_self

end Own

/-! ## The keys apart from it -/

section Other

variable {registry : NamespaceRegistry} {c : Config} {key other name : String} {value : Value}
  {below : List String}

/-- A key is qualified, or is not under `apcore`, or is `apcore`. -/
theorem unqualified_cases (key : String) :
    key = qualified (unqualified key) ∨
      unqualified key = key ∧ (key = "apcore" ∨ (segments key).head? ≠ some "apcore") := by
  unfold unqualified
  cases hstrip : stripLead "apcore." key with
  | some rest => exact .inl (stripLead_eq_some.mp hstrip)
  | none =>
    refine .inr ⟨rfl, ?_⟩
    by_cases hkey : key = "apcore"
    · exact .inl hkey
    · refine .inr fun hhead => ?_
      obtain ⟨rest, hrest⟩ := ((head_segments_iff (by decide)).mp hhead).resolve_left hkey
      rw [stripLead_eq_some.mpr (show key = "apcore." ++ rest from hrest)] at hstrip
      cases hstrip

theorem apart_of_head {path : List String} (h : (segments key).head? ≠ some name) :
    Apart (segments key) (name :: path) := by
  cases hsegments : segments key with
  | nil => exact absurd hsegments (segments_ne_nil key)
  | cons first rest =>
    rw [hsegments] at h
    exact apart_of_ne fun hne => h (congrArg some hne)

section Apart

variable (hkey : key ≠ "apcore") (hother : other ≠ "apcore")
  (h : Apart (segments (unqualified key)) (segments (unqualified other)))
include hkey hother h

/-- Keys that are apart once they are not qualified are apart. -/
theorem apart_of_unqualified : Apart (segments key) (segments other) := by
  rcases unqualified_cases key with hk | ⟨hk, hk'⟩
  · rcases unqualified_cases other with ho | ⟨ho, ho'⟩
    · rw [hk, ho, segments_qualified, segments_qualified]
      exact apart_cons.mpr h
    · rw [hk, segments_qualified]
      exact (apart_of_head (ho'.resolve_left hother)).symm
  · rcases unqualified_cases other with ho | ⟨ho, -⟩
    · rw [ho, segments_qualified]
      exact apart_of_head (hk'.resolve_left hkey)
    · rw [hk, ho] at h
      exact h

omit hother in
theorem apart_of_implied (hstrip : stripLead "apcore." other = none) :
    Apart (segments key) ("apcore" :: segments other) := by
  have hunqualified : unqualified other = other := by
    rw [unqualified, hstrip]
    rfl
  rcases unqualified_cases key with hk | ⟨-, hk⟩
  · rw [hk, segments_qualified, ← hunqualified]
    exact apart_cons.mpr h
  · exact apart_of_head (hk.resolve_left hkey)

end Apart

theorem unqualified_of_names {f : TypedField} (h : Names key f) : unqualified key = f.key := by
  rcases h with rfl | rfl
  · rw [unqualified, f.stripLead_key]
    rfl
  · rw [unqualified, stripLead_eq_some.mpr (show qualified f.key = "apcore." ++ f.key from rfl)]
    rfl

theorem getTypedField_set (h : Apart (segments (unqualified key)) (segments (unqualified other))) :
    getTypedField (c.set key value).toTypedFields other = getTypedField c.toTypedFields other := by
  rcases set_typed_cases c key value with hsame | ⟨f, hnames, hwrite⟩
  · rw [hsame]
  · unfold getTypedField
    cases hfield : TypedField.ofKey? other with
    | none => rfl
    | some g =>
      refine TypedField.read_write_ne hwrite ?_
      rintro rfl
      rw [TypedField.ofKey?_eq_some.mp hfield, unqualified_of_names hnames,
        unqualified_of_names (.inl rfl)] at h
      exact h.1 List.prefix_rfl

/-- A path of a section that is not met reads what it did. -/
theorem read_view_set (hkey : key ≠ "apcore") (hother : other ≠ "apcore")
    (h : Apart (segments (unqualified key)) (segments (unqualified other)))
    (hname : name = "executor" ∨ name = "observability") (hsegments : segments other = name :: below) :
    Value.nested.read below ((c.set key value).sectionView name) =
      Value.nested.read below (c.sectionView name) := by
  have hhead : (segments other).head? ≠ some "apcore" := by
    rw [hsegments]
    rcases hname with rfl | rfl <;> simp
  have hunqualified : unqualified other = other := by
    rw [unqualified, stripLead_eq_none_of_head hhead]
    rfl
  -- the typed part differs at the place of the key at most
  have htyped : ∀ base, Value.nested.read below
      (.merge base (typedSection (c.set key value).toTypedFields name)) =
        Value.nested.read below (.merge base (typedSection c.toTypedFields name)) := by
    intro base
    rcases set_typed_cases c key value with hsame | ⟨f, hnames, hwrite⟩
    · rw [hsame]
    · by_cases hsection : f.sectionName = name
      · subst hsection
        have hf : f ≠ .modulesPath := by
          rintro rfl
          rcases hname with hname | hname <;> exact absurd hname (by decide)
        refine Value.read_merge_of_differAt ((differAt_write hwrite).2 hf) ?_
        rw [unqualified_of_names hnames, hunqualified, TypedField.segments_key, hsegments] at h
        exact apart_cons.mp h
      · rw [(differAt_write hwrite).1 name hname (Ne.symm hsection)]
  have hdocument : ∀ typed, Value.nested.read below ((c.set key value).typedNamespaceView name typed) =
      Value.nested.read below (c.typedNamespaceView name typed) := by
    intro typed
    by_cases hhead : (segments key).head? = some name
    · cases hkeySegments : segments key with
      | nil => exact absurd hkeySegments (segments_ne_nil key)
      | cons first rest =>
        rw [hkeySegments] at hhead
        obtain rfl := Option.some.inj hhead
        have hapart := apart_of_unqualified hkey hother h
        rw [hkeySegments, hsegments] at hapart
        rw [view_set hkeySegments]
        exact Value.read_merge_write_apart (apart_cons.mp hapart)
    · rw [view_set_ne hhead]
  exact (htyped _).trans (hdocument _)

/-- What is above a field of `observability`, in the section, is one of its two containers. -/
theorem TypedField.container_of_above {f : TypedField} {part : String} {parts rest : List String}
    (hsection : f.sectionName = "observability") (hrest : rest ≠ [])
    (hpath : f.below = (part :: parts) ++ rest) :
    parts = [] ∧ (part = "tracing" ∨ part = "metrics") := by
  have hrest := List.length_pos_iff.mpr hrest
  rw [List.cons_append] at hpath
  cases f with
  | maxCallDepth | maxModuleRepeat | defaultTimeout | globalTimeout | modulesPath =>
    exact absurd hsection (by decide)
  | _ =>
    obtain ⟨rfl, hparts⟩ := List.cons.inj hpath
    have hlength : 1 = parts.length + rest.length := by
      rw [← List.length_append, ← hparts]
      rfl
    exact ⟨List.length_eq_zero_iff.mp (by omega), by simp⟩

/-- Where nothing is written of `observability`, its view has the typed fields, and their containers. -/
theorem read_bare_view (hwritten : c.userNamespaces.child "observability" = none)
    (huntyped : getTypedField c.toTypedFields other = none)
    (hsegments : segments other = "observability" :: below) (hbelow : below ≠ [])
    (htracing : other ≠ "observability.tracing") (hmetrics : other ≠ "observability.metrics") :
    Value.nested.read below (c.sectionView "observability") = none := by
  have hview : c.sectionView "observability" =
      .merge .empty (typedSection c.toTypedFields "observability") := by
    rw [sectionView, typedNamespaceView, hwritten]
    rfl
  have hne : ∀ part : String, "observability." ++ part ≠ other → '.' ∉ part.toList →
      below ≠ [part] := by
    rintro part hother hpart rfl
    refine hother (segments_injective ?_)
    have hkey : "observability." ++ part = "observability" ++ "." ++ part := rfl
    rw [hkey, segments_append (by decide), segments_of_not_mem hpart, hsegments]
  rw [hview]
  cases place_observability c.toTypedFields below with
  | field f hsection hpath =>
    rw [key_eq_of_segments hsegments hsection hpath, getTypedField, TypedField.ofKey?_key,
      Option.bind_some] at huntyped
    have hf : f ≠ .modulesPath := by
      rintro rfl
      exact absurd hsection (by decide)
    have hsome := f.isSome_read hf c.toTypedFields
    rw [huntyped] at hsome
    cases hsome
  | above f rest hsection hrest hpath _ _ =>
    exfalso
    cases below with
    | nil => exact hbelow rfl
    | cons part parts =>
      obtain ⟨rfl, rfl | rfl⟩ := TypedField.container_of_above hsection hrest hpath
      · exact hne "tracing" (Ne.symm htracing) (by decide) rfl
      · exact hne "metrics" (Ne.symm hmetrics) (by decide) rfl
  | beneath f rest hsection hrest hpath =>
    have hf : f ≠ .modulesPath := by
      rintro rfl
      exact absurd hsection (by decide)
    rw [hpath, ← hsection]
    exact read_below_field hf hrest _
  | off hleaves =>
    rw [Value.read_merge_of_leaves hleaves]
    exact read_blank hbelow

theorem getDirect_set (hdotless : Dotless registry) (hkey : key ≠ "apcore")
    (hproper : Proper other) (hother : other ≠ "apcore")
    (h : Apart (segments (unqualified key)) (segments (unqualified other)))
    (hopens : ¬ Opens c key other) :
    (c.set key value).getDirect registry other = c.getDirect registry other := by
  have htyped : getTypedField (c.set key value).toTypedFields other =
      getTypedField c.toTypedFields other := getTypedField_set h
  by_cases hexecutor : (segments other).head? = some "executor"
  · cases hsegments : segments other with
    | nil => exact absurd hsegments (segments_ne_nil other)
    | cons first below =>
      rw [hsegments] at hexecutor
      obtain rfl := Option.some.inj hexecutor
      rw [getDirect_executor _ hproper hsegments, getDirect_executor _ hproper hsegments, htyped,
        read_view_set hkey hother h (.inl rfl) hsegments]
  · by_cases hobservability : (segments other).head? = some "observability"
    · cases hsegments : segments other with
      | nil => exact absurd hsegments (segments_ne_nil other)
      | cons first below =>
        rw [hsegments] at hobservability
        obtain rfl := Option.some.inj hobservability
        rw [getDirect_observability _ hproper hsegments, getDirect_observability _ hproper hsegments,
          htyped, read_view_set hkey hother h (.inr rfl) hsegments]
        by_cases hhead : (segments key).head? = some "observability"
        · cases hblock : c.userNamespaces.child "observability" with
          | some block =>
            cases hkeySegments : segments key with
            | nil => exact absurd hkeySegments (segments_ne_nil key)
            | cons name rest =>
              rw [hkeySegments] at hhead
              obtain rfl := Option.some.inj hhead
              rw [child_set hkeySegments]
              rfl
          | none =>
            cases hfield : getTypedField c.toTypedFields other with
            | some v => rfl
            | none =>
              have hbelow : below ≠ [] := by
                rintro rfl
                have hapart := apart_of_unqualified hkey hother h
                rw [hsegments] at hapart
                cases hkeySegments : segments key with
                | nil => exact absurd hkeySegments (segments_ne_nil key)
                | cons name rest =>
                  rw [hkeySegments] at hhead hapart
                  obtain rfl := Option.some.inj hhead
                  exact not_apart_nil_right (apart_cons.mp hapart)
              have hnone := read_bare_view hblock hfield hsegments hbelow
                (fun hname => hopens ⟨hhead, hblock, .inl hname⟩)
                (fun hname => hopens ⟨hhead, hblock, .inr hname⟩)
              rw [Option.none_or, Option.none_or, Option.bind_none, Option.bind_eq_none_iff]
              intro _ _
              exact hnone
        · rw [child_set_ne hhead]
    · rw [getDirect_written _ hdotless hproper hexecutor hobservability,
        getDirect_written _ hdotless hproper hexecutor hobservability, htyped]
      have hdocument : (c.set key value).userNamespaces =
          Value.nested.write (segments key) value c.userNamespaces := rfl
      rw [hdocument, read_write_apart (apart_of_unqualified hkey hother h)]

end Other

/-- **After `set` a key is read as it was set, but for what the typed fields of the two sections keep
in force; a key apart from it is read as before, but for the containers that the first write under
`observability` brings into view.** -/
theorem getSet {registry : NamespaceRegistry} (hdotless : Dotless registry) (c : Config) {key : String}
    (hproper : Proper key) {value : Value}
    (hown : ∀ f : TypedField, key = f.key → f.OwnType value) : GetSet registry c key value where
  own := getSet_own hdotless hproper hown
  container := getSet_container hproper
  below := getSet_below hdotless hproper
  other hkey other hother hne h hopens := by
    rw [get_eq_or, get_eq_or, getDirect_set hdotless hkey hother hne h hopens,
      fallback_set hdotless hother fun hstrip _ => apart_of_implied hkey h hstrip]

theorem getSet_maxCallDepth : GetSet [⟨"apcore-mcp", none, none⟩] {} "executor.max_call_depth"
    (.number (.posInt 7)) := by
  refine getSet (by decide +kernel) {} (by decide +kernel) fun f hf => ?_
  have hfield : some f = some .maxCallDepth := by
    rw [← TypedField.ofKey?_key f, ← hf]
    exact TypedField.ofKey?_key .maxCallDepth
  obtain rfl := Option.some.inj hfield
  exact ⟨7, rfl⟩

/-- An empty `executor` section is read with the typed fields in it. -/
theorem not_get_set_executor : ¬ ∀ (registry : NamespaceRegistry) (c : Config) (key : String)
    (value : Value), Proper key → (∀ f : TypedField, key = f.key → f.OwnType value) →
      (c.set key value).get registry key = some value := by
  intro h
  have hcontainer : Container "executor" := ⟨.maxCallDepth, by decide +kernel, by decide⟩
  have hproper : Proper "executor" := by decide +kernel
  have hown : ∀ f : TypedField, "executor" = f.key → f.OwnType .empty := by
    intro f hf
    have hnone := hcontainer.untyped
    rw [hf, TypedField.ofKey?_key] at hnone
    cases hnone
  have hset := h [] {} "executor" .empty hproper hown
  obtain ⟨fields, hfields, hread⟩ := @getSet_container [] {} "executor" .empty hproper hcontainer
  rw [hset, Value.merge_empty] at hread
  obtain rfl := Option.some.inj hread
  have hsegments : segments "executor" = ["executor"] := segments_of_not_mem (by decide)
  rw [hsegments, read_typedDocument (.inl rfl)] at hfields
  have hempty : ({} : Config).executor.toValue.child "max_call_depth" = none := by
    rw [show ({} : Config).executor.toValue = Value.empty from Option.some.inj hfields]
    rfl
  rw [child_executor] at hempty
  cases hempty

end Apcore.Config
