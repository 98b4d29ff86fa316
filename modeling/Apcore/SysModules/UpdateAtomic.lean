import Apcore.SysModules.UpdateConfig
import Apcore.Config.PlainKeys
import Apcore.Config.Valid
import Apcore.Lib.Transition

/-! # `SysModules.UpdateAtomic` — what a failed update leaves, and what an update reaches

A value is taken back by writing what `get` answered at the place of the key. The document had that
value there before only if the key was declared with it. A restricted key is refused under its own
spelling; a key above it, below it, or its qualified form writes where it is read. -/

open Nested

namespace Apcore.Config

/-! ## Taking a value back -/

/-- A value that no constraint admits. -/
theorem holds_array (constraint : Constraint) : constraint.holds (.array []) = false := by
  cases constraint <;> rfl

/-- Writing what a field has changes nothing. -/
theorem TypedField.write_read {f : TypedField} {t : TypedFields} {old : Value}
    (h : f.read t = some old) : f.write t old = some t := by
  obtain ⟨path, executor, ⟨⟨enabled, samplingRate, exporter, strategy, endpoint⟩, metrics⟩⟩ := t
  cases f with
  | otlpEndpoint =>
    obtain rfl := Option.some.inj h
    cases endpoint with
    | none => rfl
    | some endpoint => rfl
  | modulesPath =>
    obtain ⟨path, rfl, rfl⟩ := Option.map_eq_some_iff.mp h
    rfl
  | _ =>
    obtain rfl := Option.some.inj h
    simp [TypedField.write, Value.number, Value.bool, Value.string, Json.asU64?, Json.asF64?,
      Json.asBool?, Json.asStr?]

/-- Of two writes of a field the later stands. -/
theorem TypedField.write_write {f : TypedField} {t t' : TypedFields} {value : Value}
    (h : f.write t value = some t') (later : Value) : f.write t' later = f.write t later := by
  cases f with
  | otlpEndpoint =>
    unfold TypedField.write at h
    split_ifs at h with hnull
    · obtain rfl := Option.some.inj h
      rfl
    · obtain ⟨endpoint, -, rfl⟩ := Option.map_eq_some_iff.mp h
      rfl
  | _ =>
    obtain ⟨converted, -, rfl⟩ := Option.map_eq_some_iff.mp h
    rfl

/-- The field is what it was once its value is written back. -/
theorem TypedField.write_back {f : TypedField} {t : TypedFields} {old : Value}
    (h : f.read t = some old) (value : Value) :
    f.write ((f.write t value).getD t) old = some t := by
  cases hwrite : f.write t value with
  | none => exact TypedField.write_read h
  | some t' =>
    rw [Option.getD_some, TypedField.write_write hwrite]
    exact TypedField.write_read h

section RolledBack

variable {registry : NamespaceRegistry} {c : Config}

/-- What is set back of a key that had no answer. -/
def oldValue (registry : NamespaceRegistry) (c : Config) (key : String) : Value :=
  (c.get registry key).getD .null

/-- The configuration after a value was taken back. -/
def rolledBack (registry : NamespaceRegistry) (c : Config) (key : String) (value : Value) : Config :=
  (c.set key value).set key (c.oldValue registry key)

theorem rolledBack_userNamespaces (key : String) (value : Value) :
    (c.rolledBack registry key value).userNamespaces =
      Value.nested.write (segments key) (c.oldValue registry key) c.userNamespaces :=
  write_write

theorem rolledBack_typed {key : String} {constraint : Constraint}
    (h : constraintOf key = some constraint) (value : Value) :
    (c.rolledBack registry key value).toTypedFields = c.toTypedFields := by
  obtain ⟨hplain, hcases⟩ := constrained_cases h
  unfold rolledBack
  rw [set_typed hplain, set_typed hplain]
  rcases hcases with ⟨f, -, rfl, hpath⟩ | ⟨huntyped, -⟩
  · obtain ⟨v, hv⟩ := Option.isSome_iff_exists.mp (TypedField.isSome_read hpath c.toTypedFields)
    unfold oldValue setTypedField
    rw [get_typed hv, Option.getD_some, TypedField.ofKey?_key, Option.bind_some, Option.bind_some,
      TypedField.write_back hv]
    rfl
  · unfold setTypedField
    rw [huntyped]
    rfl

theorem rolledBack_mode (key : String) (value : Value) :
    (c.rolledBack registry key value).mode = c.mode := rfl

end RolledBack

/-- Taking a value back leaves nothing behind: the document has at the place of the key what `get`
answers, or a typed field masks it there, every key on the way is declared and none is lost, and no
schema sees a difference. -/
structure Restored (s : Surroundings) (c : Config) (key : String) : Prop where
  written : TypedField.ofKey? key = none →
    Value.nested.read (segments key) c.userNamespaces = some (c.oldValue s.registry key)
  answered : ∀ f, TypedField.ofKey? key = some f → f.sectionName = "observability" →
    c.userNamespaces.child "observability" = none → c.ViewAnswered s.registry
  wayDeclared : ∀ f, TypedField.ofKey? key = some f → c.WayDeclared s.registry (segments key)
  belowImplied : ∀ f, TypedField.ofKey? key = some f → c.BelowImplied s.registry (segments key)
  verdict : ∀ f, TypedField.ofKey? key = some f → c.SameVerdict s f (c.oldValue s.registry key)

/-- **What taking a value back leaves.** -/
theorem sameConfig_rolledBack_iff {s : Surroundings} {c : Config} {key : String}
    {constraint : Constraint} (h : constraintOf key = some constraint) (value : Value) :
    SameConfig s c (c.rolledBack s.registry key value) ↔ Restored s c key := by
  have htyped := @rolledBack_typed s.registry c key constraint h value
  have hdocument := @rolledBack_userNamespaces s.registry c key value
  rcases (constrained_cases h).2 with ⟨f, -, rfl, hpath⟩ | ⟨huntyped, hexecutor, hobserv, hmodules⟩
  · obtain ⟨v, hv⟩ := Option.isSome_iff_exists.mp (TypedField.isSome_read hpath c.toTypedFields)
    have hold : c.oldValue s.registry f.key = v := by
      rw [oldValue, get_typed hv, Option.getD_some]
    have hwritten : LeafWritten c (c.rolledBack s.registry f.key value) f
        (c.oldValue s.registry f.key) :=
      ⟨htyped, rfl, hdocument, hold ▸ hv, hpath⟩
    rw [hwritten.sameConfig_iff]
    constructor
    · rintro ⟨⟨hanswered, hway, hbelow⟩, hverdict⟩
      refine ⟨fun hnone => ?_, fun g hg => ?_, fun _ _ => hway, fun _ _ => hbelow, fun g hg => ?_⟩
      · rw [TypedField.ofKey?_key] at hnone
        cases hnone
      · obtain rfl := Option.some.inj ((TypedField.ofKey?_key f).symm.trans hg)
        exact hanswered
      · obtain rfl := Option.some.inj ((TypedField.ofKey?_key f).symm.trans hg)
        exact hverdict
    · intro hrestored
      have hf := TypedField.ofKey?_key f
      exact ⟨⟨hrestored.answered f hf, hrestored.wayDeclared f hf, hrestored.belowImplied f hf⟩,
        hrestored.verdict f hf⟩
  · constructor
    · intro hsame
      have hnot : ∀ f, TypedField.ofKey? key = some f → False := by
        intro f hf
        rw [huntyped] at hf
        cases hf
      refine ⟨fun _ => ?_, fun f hf => (hnot f hf).elim, fun f hf => (hnot f hf).elim,
        fun f hf => (hnot f hf).elim, fun f hf => (hnot f hf).elim⟩
      cases hsegments : segments key with
      | nil => exact absurd hsegments (segments_ne_nil key)
      | cons name rest =>
        rw [hsegments] at hexecutor hobserv hmodules hdocument
        have hsection := get?_data (c := c) (fun heq => hmodules (congrArg some heq))
          (fun heq => hexecutor (congrArg some heq)) (fun heq => hobserv (congrArg some heq))
        have hsection' := get?_data (c := c.rolledBack s.registry key value)
          (fun heq => hmodules (congrArg some heq)) (fun heq => hexecutor (congrArg some heq))
          (fun heq => hobserv (congrArg some heq))
        rw [hsame.data, hsection] at hsection'
        -- the wire form shows the section that was written
        have hchild : Value.nested.child c.userNamespaces name =
            Value.nested.child (c.rolledBack s.registry key value).userNamespaces name :=
          Value.child_congr hsection'
        rw [read_cons, hchild, ← read_cons, hdocument, read_write_self]
    · intro hrestored
      have hread := hrestored.written huntyped
      refine SameConfig.of_stores htyped rfl ?_
      rw [hdocument]
      exact write_of_read hread

/-! ## What an update reaches -/

/-- No write under `key` changes the answer for `restricted`: the place of the key is apart from the
place where the restricted key is read, and, where that is under `apcore`, from that place too. -/
structure Shields (registry : NamespaceRegistry) (c : Config) (key restricted : String) : Prop where
  own : Apart (segments key) (writtenPath registry restricted)
  implied : c.mode = .namespaced → c.getAsWritten registry restricted = none →
    Apart (segments key) (writtenPath registry (qualified restricted))
  /-- An `apcore` block that was not there does not bring up another answer. -/
  opened : c.mode = .namespaced → c.getAsWritten registry restricted = none →
    (segments key).head? = some "apcore" → c.userNamespaces.child "apcore" = none →
    ∀ v, c.getAsWritten registry (qualified restricted) = some v →
      c.get registry restricted = some v

section Restricted

variable {s : Surroundings} {registry : NamespaceRegistry} {c c' : Config} {key restricted : String}

/-- What is written decides the answer for a restricted key. -/
theorem plain_of_restricted (h : restricted ∈ restrictedKeys) : Plain restricted := by
  have hall : ∀ key ∈ restrictedKeys, Plain key := by
    simp only [plain_iff]
    decide +kernel
  exact hall restricted h

/-- A shielded key keeps its answer. -/
theorem Shields.get_eq (h : restricted ∈ restrictedKeys) (hshields : c.Shields registry key restricted)
    {v : Value} (hmode : c'.mode = c.mode)
    (hdocument : c'.userNamespaces = Value.nested.write (segments key) v c.userNamespaces) :
    c'.get registry restricted = c.get registry restricted := by
  have hplain := plain_of_restricted h
  have hown : c'.getAsWritten registry restricted = c.getAsWritten registry restricted := by
    unfold getAsWritten
    rw [hdocument]
    exact read_write_apart hshields.own
  rw [hplain.get_eq_written, hplain.get_eq_written, hown, later_eq hmode]
  cases hwritten : c.getAsWritten registry restricted with
  | some value => rfl
  | none =>
    by_cases hnamespaced : c.mode = .namespaced
    · have himplied : c'.getAsWritten registry (qualified restricted) =
          c.getAsWritten registry (qualified restricted) := by
        unfold getAsWritten
        rw [hdocument]
        exact read_write_apart (hshields.implied hnamespaced hwritten)
      have hanswer : ∀ d : Config, d.mode = c.mode → (d.impliesApcore restricted = true ↔
          (d.userNamespaces.child "apcore").isSome) := by
        intro d hd
        rw [hplain.impliesApcore_iff, hd]
        exact ⟨fun hboth => hboth.2, fun hsome => ⟨hnamespaced, hsome⟩⟩
      rw [himplied]
      cases hopen : c.impliesApcore restricted with
      | true =>
        have hsome := (hanswer c rfl).mp hopen
        rw [(hanswer c' hmode).mpr ((child_apcore_of_write hdocument).mpr (.inr hsome))]
      | false =>
        have hnone : c.userNamespaces.child "apcore" = none := by
          rw [← Option.not_isSome_iff_eq_none, ← hanswer c rfl, hopen]
          exact Bool.false_ne_true
        cases hopen' : c'.impliesApcore restricted with
        | false => rfl
        | true =>
          have hsome := (child_apcore_of_write hdocument).mp ((hanswer c' hmode).mp hopen')
          have hhead : (segments key).head? = some "apcore" := by
            refine hsome.resolve_right fun hsome => ?_
            rw [hnone] at hsome
            cases hsome
          cases hqualified : c.getAsWritten registry (qualified restricted) with
          | none => rfl
          | some v =>
            -- what the new block brings up is what was answered without it
            have hget := hshields.opened hnamespaced hwritten hhead hnone v hqualified
            rw [hplain.get_eq_written, hwritten, hopen] at hget
            exact hget.symm
    · have hnot : ∀ d : Config, d.mode = c.mode → d.impliesApcore restricted = false := by
        intro d hd
        rw [← Bool.not_eq_true, hplain.impliesApcore_iff, hd]
        exact fun hboth => hnamespaced hboth.1
      rw [hnot c' hmode, hnot c rfl]
      rfl

/-- A key under which every value leaves the answer is shielded. -/
theorem shields_of_get_eq (h : restricted ∈ restrictedKeys)
    (hget : ∀ v, (c.set key v).get registry restricted = c.get registry restricted) :
    Shields registry c key restricted := by
  have hplain := plain_of_restricted h
  have htwo : Value.bool true ≠ Value.bool false := by
    intro heq
    cases congrArg Subtype.val heq
  have hread : ∀ v other, (c.set key v).getAsWritten registry other =
      Value.nested.read (writtenPath registry other)
        (Value.nested.write (segments key) v c.userNamespaces) := fun _ _ => rfl
  have hown : Apart (segments key) (writtenPath registry restricted) := by
    by_contra hreach
    obtain ⟨v, y, hy, hne⟩ := exists_write_ne htwo hreach (c.get registry restricted)
    apply hne
    rw [← hget v, hplain.get_eq_written, hread, hy]
    rfl
  have hnone : ∀ v, c.getAsWritten registry restricted = none →
      (c.set key v).getAsWritten registry restricted = none := by
    intro v hwritten
    rw [hread, read_write_apart hown]
    exact hwritten
  have hopen : ∀ v, c.mode = .namespaced → (segments key).head? = some "apcore" →
      (c.set key v).impliesApcore restricted = true := by
    intro v hmode hhead
    exact (hplain.impliesApcore_iff).mpr ⟨hmode, (child_apcore_of_write rfl).mpr (.inl hhead)⟩
  have himplied : c.mode = .namespaced → c.getAsWritten registry restricted = none →
      Apart (segments key) (writtenPath registry (qualified restricted)) := by
    intro hmode hwritten
    by_contra hreach
    obtain ⟨v, y, hy, hne⟩ := exists_write_ne htwo hreach (c.get registry restricted)
    apply hne
    rw [← hget v, hplain.get_eq_written, hnone v hwritten, hopen v hmode (hplain.head_of_not_apart hreach),
      hread, hy]
    rfl
  refine ⟨hown, himplied, fun hmode hwritten hhead _ v hqualified => ?_⟩
  rw [← hget .null, hplain.get_eq_written, hnone .null hwritten, hopen .null hmode hhead, hread,
    read_write_apart (himplied hmode hwritten)]
  rw [getAsWritten] at hqualified
  rw [hqualified]
  rfl

/-- The keys with a constraint do not reach a restricted one. -/
theorem shields_of_constrained {constraint : Constraint} (h : restricted ∈ restrictedKeys)
    (hkey : constraintOf key = some constraint) : Shields registry c key restricted := by
  have hplain := plain_of_restricted h
  have hall : ∀ key ∈ constrainedKeys.map (·.1), ∀ restricted ∈ restrictedKeys,
      (segments key).head? ≠ some "apcore" ∧ ¬ segments key <+: segments restricted ∧
        ¬ segments restricted <+: segments key := by
    decide +kernel
  obtain ⟨hhead, hprefixed, hextends⟩ := hall key (mem_constrainedKeys hkey) restricted h
  refine ⟨?_, fun _ _ => ?_, fun _ _ happ => absurd happ hhead⟩
  · by_contra hreach
    have hpath := (writtenPath_of_not_apart hreach).resolve_right fun ⟨ns, hns⟩ =>
      hplain.segments_ne ns hns
    rw [hpath] at hreach
    exact hreach ⟨hprefixed, hextends⟩
  · by_contra hreach
    exact hhead (hplain.head_of_not_apart hreach)

end Restricted

/-! ## The executions -/

/-- An execution that fails leaves the configuration as it was. -/
def Atomic (s : Surroundings) (c : Config) (inputs : Value) : Prop :=
  ∀ e, (execute s c inputs).1 = .error e → SameConfig s c (execute s c inputs).2

/-- An execution leaves what `get` answers for the restricted keys. -/
def Bounded (s : Surroundings) (c : Config) (inputs : Value) : Prop :=
  ∀ restricted ∈ restrictedKeys,
    (execute s c inputs).2.get s.registry restricted = c.get s.registry restricted

section Executions

variable {s : Surroundings} {c : Config} {key : String}

theorem constraintOf_refused (h : key = "" ∨ key ∈ restrictedKeys) : constraintOf key = none := by
  rcases h with rfl | h
  · decide +kernel
  · obtain rfl := List.mem_singleton.mp h
    decide +kernel

/-- Where taking values back restores and the restricted keys are shielded, the executions are
atomic and bounded. -/
theorem atomic_bounded {inputs : Value}
    (h : ∀ key, inputs.child "key" = some (.string key) →
      (constraintOf key = none ∨ Restored s c key) ∧
      (key = "" ∨ key ∈ restrictedKeys ∨
        ∀ restricted ∈ restrictedKeys, Shields s.registry c key restricted)) :
    Atomic s c inputs ∧ Bounded s c inputs := by
  unfold Atomic Bounded
  have hexecution := @execution_execute s c inputs
  generalize execute s c inputs = outcome at hexecution
  have hshields : ∀ {key}, inputs.child "key" = some (.string key) → key ≠ "" →
      key ∉ restrictedKeys → ∀ restricted ∈ restrictedKeys,
        Shields s.registry c key restricted := by
    intro key hkey hne hallowed
    rcases (h key hkey).2 with hempty | hrestricted | hshields
    · exact absurd hempty hne
    · exact absurd hrestricted hallowed
    · exact hshields
  cases hexecution with
  | refused e => exact ⟨fun _ _ => SameConfig.refl s c, fun _ _ => rfl⟩
  | @rolledBack key value constraint reason hkey hne hvalue hallowed hconstraint hviolated =>
    refine ⟨fun _ _ => ?_, fun restricted hrestricted => ?_⟩
    · rcases (h key hkey).1 with hnone | hrestored
      · rw [hnone] at hconstraint
        cases hconstraint
      · exact (sameConfig_rolledBack_iff hconstraint value).mpr hrestored
    · exact (hshields hkey hne hallowed restricted hrestricted).get_eq hrestricted rfl
        (rolledBack_userNamespaces key value)
  | accepted hkey hne hvalue hallowed hholds =>
    refine ⟨fun e he => ?_, fun restricted hrestricted => ?_⟩
    · cases he
    · exact (hshields hkey hne hallowed restricted hrestricted).get_eq hrestricted rfl rfl

/-- **When the updates of a key are atomic and bounded.** -/
theorem atomic_bounded_iff (s : Surroundings) (c : Config) (key : String) :
    (∀ inputs, inputs.child "key" = some (.string key) →
      Atomic s c inputs ∧ Bounded s c inputs) ↔
      (constraintOf key = none ∨ Restored s c key) ∧
        (key = "" ∨ key ∈ restrictedKeys ∨
          ∀ restricted ∈ restrictedKeys, Shields s.registry c key restricted) := by
  constructor
  · intro h
    have hinputs := fun value => h (inputsFor key value) child_inputsFor
    have hasked : ¬ (key = "" ∨ key ∈ restrictedKeys) → ∀ value,
        (execute s c (inputsFor key value)).2 = (update s c key value).2 ∧
          ((execute s c (inputsFor key value)).1.toOption.isSome ↔
            (update s c key value).1.toOption.isSome) := by
      intro hnot value
      exact execute_inputsFor (fun hempty => hnot (.inl hempty)) (fun hmem => hnot (.inr hmem)) value
    by_cases hrefused : key = "" ∨ key ∈ restrictedKeys
    · exact ⟨.inl (constraintOf_refused hrefused), hrefused.imp_right .inl⟩
    · have hasked := hasked hrefused
      cases hconstraint : constraintOf key with
      | none =>
        refine ⟨.inl rfl, .inr (.inr fun restricted hrestricted => ?_)⟩
        refine shields_of_get_eq hrestricted fun v => ?_
        have hget := (hinputs v).2 restricted hrestricted
        rcases update_cases (s := s) (c := c) key v with ⟨constraint, hsome, -⟩ | ⟨-, hupdate⟩
        · rw [hconstraint] at hsome
          cases hsome
        · rw [(hasked v).1, hupdate] at hget
          exact hget
      | some constraint =>
        refine ⟨.inr ?_, .inr (.inr fun restricted hrestricted =>
          shields_of_constrained hrestricted hconstraint)⟩
        rw [← sameConfig_rolledBack_iff hconstraint .emptyArray]
        rcases update_cases (s := s) (c := c) key .emptyArray with
          ⟨other, -, -, hupdate⟩ | ⟨hholds, -⟩
        · obtain ⟨hconfig, hresult⟩ := hasked .emptyArray
          rw [hupdate] at hconfig hresult
          have hatomic := (hinputs .emptyArray).1
          cases hend : (execute s c (inputsFor key .emptyArray)).1 with
          | error e =>
            have hsame := hatomic e hend
            rw [hconfig] at hsame
            exact hsame
          | ok done =>
            rw [hend] at hresult
            exact absurd (hresult.mp rfl) (by simp [Except.toOption])
        · have hcontra := hholds constraint hconstraint
          rw [Value.emptyArray, holds_array] at hcontra
          cases hcontra
  · rintro h inputs hkey
    refine atomic_bounded fun other hother => ?_
    have heq : other = key := by
      have hvalue := congrArg Subtype.val (Option.some.inj (hother.symm.trans hkey))
      exact Json.string.inj hvalue
    rw [heq]
    exact h

end Executions

/-- A document with the two required fields. -/
def smallConfig : Config :=
  (({} : Config).set "version" (.string "1.0.0")).set "project.name" (.string "demo")

/-- An update that fails leaves a null, which the constraint of the key refuses, and one of the
parent of the restricted key changes it. -/
theorem not_atomic_bounded :
    ¬ Atomic {} smallConfig
        (inputsFor "sys_modules.error_history.max_total_entries" (.number (.negInt (-1)))) ∧
      ¬ Bounded {} smallConfig
        (inputsFor "sys_modules" (.put "enabled" (.bool true) .empty)) := by
  constructor
  · intro hatomic
    have hfails : (execute {} smallConfig (inputsFor "sys_modules.error_history.max_total_entries"
        (.number (.negInt (-1))))).1.toOption.isSome = false := by decide +kernel
    have hbefore : (smallConfig.get [] "sys_modules.error_history.max_total_entries").map
        (·.1.isNull) = none := by decide +kernel
    have hafter : ((execute {} smallConfig
        (inputsFor "sys_modules.error_history.max_total_entries" (.number (.negInt (-1))))).2.get []
          "sys_modules.error_history.max_total_entries").map (·.1.isNull) = some true := by
      decide +kernel
    cases hend : (execute {} smallConfig (inputsFor "sys_modules.error_history.max_total_entries"
        (.number (.negInt (-1))))).1 with
    | ok done =>
      rw [hend] at hfails
      cases hfails
    | error e =>
      have hget := (hatomic e hend).get "sys_modules.error_history.max_total_entries"
      rw [hget, hbefore] at hafter
      cases hafter
  · intro hbounded
    have hget := hbounded "sys_modules.enabled" (by decide)
    have hbefore : (smallConfig.get [] "sys_modules.enabled").bind (·.1.asBool?) = some false := by
      decide +kernel
    have hafter : ((execute {} smallConfig (inputsFor "sys_modules"
        (.put "enabled" (.bool true) .empty))).2.get [] "sys_modules.enabled").bind
          (·.1.asBool?) = some true := by decide +kernel
    rw [hget, hbefore] at hafter
    cases hafter

end Apcore.Config

/-! ## Updates of a valid configuration

An update checks its value under one spelling of one key. The rules of `validate` are about the
field the value is converted for, about keys above and below, and about sections as a whole: where
the value fits there as well, the configuration stays valid over every run. -/

namespace Apcore.Config

open Transition

/-- The inputs ask for an update that is not refused. -/
structure Asks (inputs : Value) (key : String) (value : Value) : Prop where
  keyed : inputs.child "key" = some (.string key)
  ne : key ≠ ""
  reasoned : ∃ reason, requireString inputs "reason" = .ok reason
  valued : inputs.child "value" = some value
  allowed : key ∉ restrictedKeys

/-- The value of an update breaks no rule: a value that stands fits the typed field and the document,
and what is set back in place of a value that does not stand fits the document. -/
structure Sound (s : Surroundings) (c : Config) (inputs : Value) : Prop where
  accepted : ∀ key value, Asks inputs key value →
    (∀ constraint, constraintOf key = some constraint → constraint.holds value.1 = true) →
    TypedFits c key value ∧ DocumentFits s c key value
  takenBack : ∀ key value, Asks inputs key value →
    ∀ constraint, constraintOf key = some constraint → constraint.holds value.1 = false →
    DocumentFits s c key (c.oldValue s.registry key)

/-- The executions as steps: every input is answered. -/
def updateStep (s : Surroundings) (c : Config) (inputs : Value) : Option Config :=
  some (execute s c inputs).2

section Runs

variable {s : Surroundings} {c c' : Config} {inputs : Value}

theorem execute_of_reason {e : ModuleError} (h : requireString inputs "reason" = .error e) :
    (execute s c inputs).2 = c := by
  unfold execute
  rw [h]
  cases requireString inputs "key" with
  | error e => rfl
  | ok key => rfl

/-- One sound execution keeps a configuration valid. -/
theorem Valid.execute (h : Valid s c) (hsound : Sound s c inputs) :
    Valid s (execute s c inputs).2 := by
  cases hreason : requireString inputs "reason" with
  | error e =>
    rw [execute_of_reason hreason]
    exact h
  | ok text =>
    have hexecution := @execution_execute s c inputs
    generalize Config.execute s c inputs = outcome at hexecution
    cases hexecution with
    | refused e => exact h
    | @rolledBack key value constraint reason hkey hne hvalue hallowed hconstraint hviolated =>
      have hasks : Asks inputs key value := ⟨hkey, hne, ⟨text, hreason⟩, hvalue, hallowed⟩
      have hfits := hsound.takenBack key value hasks constraint hconstraint hviolated
      have htyped : TypedValid (c.rolledBack s.registry key value).toTypedFields := by
        rw [rolledBack_typed hconstraint]
        exact h.typedValid
      exact h.write (rolledBack_userNamespaces key value) hfits (rolledBack_mode key value) htyped
    | @accepted key value reason hkey hne hvalue hallowed hholds =>
      have hasks : Asks inputs key value := ⟨hkey, hne, ⟨text, hreason⟩, hvalue, hallowed⟩
      obtain ⟨htyped, hdocument⟩ := hsound.accepted key value hasks hholds
      exact h.write rfl hdocument rfl (htyped.typedValid h.typedValid)

/-- **Sound updates keep the configuration valid, after every execution of a run.** -/
theorem validate_of_sound {updates done : List Value} (h : c.validate s = .ok ())
    (hsound : Along (updateStep s) (Sound s) c updates) (hdone : done <+: updates)
    (hrun : exec (updateStep s) c done = some c') : c'.validate s = .ok () := by
  have hstep : ∀ c inputs c', Valid s c → Sound s c inputs → updateStep s c inputs = some c' →
      Valid s c' := by
    intro c inputs c' hvalid hinputs hstep
    obtain rfl := Option.some.inj hstep
    exact hvalid.execute hinputs
  rw [validate_eq_ok_iff] at h ⊢
  exact forall_prefix_of_along hstep h hsound done c' hdone hrun

end Runs

/-- An update of another section of a small configuration keeps it valid. -/
theorem validate_of_sound_small :
    (execute {} smallConfig (inputsFor "logging.level" (.string "debug"))).2.validate {} = .ok () := by
  have hvalid : smallConfig.validate {} = .ok () := by
    have hnone : (smallConfig.validate {}).toOption.isSome = true := by decide +kernel
    cases hresult : smallConfig.validate {} with
    | ok done => rfl
    | error faults =>
      rw [hresult] at hnone
      cases hnone
  have hasked : ∀ key value, Asks (inputsFor "logging.level" (.string "debug")) key value →
      key = "logging.level" := by
    intro key value hasks
    have hkey := hasks.keyed
    rw [child_inputsFor] at hkey
    exact (Json.string.inj (congrArg Subtype.val (Option.some.inj hkey))).symm
  have hfits : ∀ w, DocumentFits {} smallConfig "logging.level" w := by
    intro w
    have hsegments : segments "logging.level" = ["logging", "level"] := by decide +kernel
    exact DocumentFits.of_unwatched hsegments (by decide) (by decide +kernel)
      fun hmode => by cases hmode
  have hsound : Sound {} smallConfig (inputsFor "logging.level" (.string "debug")) := by
    refine ⟨fun key value hasks _ => ?_, fun key value hasks constraint hconstraint _ => ?_⟩
    · obtain rfl := hasked key value hasks
      have hnames : ∀ f, ¬ Names "logging.level" f := by
        unfold Names
        intro f
        cases f <;> decide
      exact ⟨⟨fun f hf => absurd hf (hnames f), fun f hf => absurd hf (hnames f)⟩, hfits value⟩
    · obtain rfl := hasked key value hasks
      exact hfits _
  have halong : Along (updateStep {}) (Sound {}) smallConfig
      [inputsFor "logging.level" (.string "debug")] := ⟨hsound, trivial⟩
  exact validate_of_sound hvalid halong List.prefix_rfl rfl

/-- A call depth that is a positive integer is cut to 32 bits, to zero. -/
theorem not_updates_stay_valid :
    ¬ ∀ (s : Surroundings) (c : Config) (inputs : Value), c.validate s = .ok () →
      (execute s c inputs).1.toOption.isSome = true →
      (execute s c inputs).2.validate s = .ok () := by
  intro h
  have hvalid : (smallConfig.validate {}).toOption.isSome = true := by decide +kernel
  have hsucceeds : (execute {} smallConfig
      (inputsFor "executor.max_call_depth" (.number (.posInt 4294967296)))).1.toOption.isSome =
        true := by decide +kernel
  have hfaulty : ((execute {} smallConfig
      (inputsFor "executor.max_call_depth" (.number (.posInt 4294967296)))).2.validate
        {}).toOption.isSome = false := by decide +kernel
  cases hresult : smallConfig.validate {} with
  | error faults =>
    rw [hresult] at hvalid
    cases hvalid
  | ok done =>
    rw [h {} smallConfig _ hresult hsucceeds] at hfaulty
    cases hfaulty

end Apcore.Config
