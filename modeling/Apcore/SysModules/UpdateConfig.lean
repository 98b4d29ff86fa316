import Apcore.Config.Validate

/-! # `SysModules.UpdateConfig` — `system.control.update_config`

The value is set first and checked afterwards; one that fails the constraint of its key is taken
back by setting what `get` answered before. -/

namespace Apcore.Config

/-- `RESTRICTED_KEYS`. -/
def restrictedKeys : List String := ["sys_modules.enabled"]

/-- `require_string`. -/
def requireString (inputs : Value) (field : String) : Except ModuleError String :=
  match ((inputs.child field).bind (·.1.asStr?)).filter (· ≠ "") with
  | some text => .ok text
  | none => .error (.new .generalInvalidInput
    ("'" ++ field ++ "' is required and must be a non-empty string"))

/-- `missing_field_error`. -/
def missingFieldError (field : String) : ModuleError :=
  .new .generalInvalidInput ("'" ++ field ++ "' is required")

/-- What a successful update reports, before its values are redacted. -/
structure Update where
  key : String
  oldValue : Option Value
  newValue : Value
  reason : String

/-- The error for a restricted key. -/
def restrictedError (key : String) : ModuleError :=
  (ModuleError.new .configKeyRestricted
    ("Configuration key '" ++ key ++ "' cannot be changed at runtime")).withDetails
    [("key", .string key)]

/-- The error for a value that fails its constraint. -/
def violationError (s : Surroundings) (key reason : String) (value : Value) : ModuleError :=
  (ModuleError.new .configInvalid ("Invalid value for '" ++ key ++ "': " ++ reason ++ " (got " ++
    s.display value.1 ++ ")")).withDetails [("key", .string key), ("value", value.1)]

/-- What the update of a key does to the configuration, the lock held. -/
def update (s : Surroundings) (c : Config) (key : String) (value : Value) :
    Except ModuleError (Option Value) × Config :=
  let oldValue := c.get s.registry key
  let written := c.set key value
  match validateKeyConstraint key value with
  | some (.error reason) =>
    (.error (violationError s key reason value), written.set key (oldValue.getD .null))
  | _ => (.ok oldValue, written)

/-- `UpdateConfigModule::execute`, up to its events and its persistence. -/
def execute (s : Surroundings) (c : Config) (inputs : Value) : Except ModuleError Update × Config :=
  match requireString inputs "key" with
  | .error e => (.error e, c)
  | .ok key => match requireString inputs "reason" with
    | .error e => (.error e, c)
    | .ok reason => match inputs.child "value" with
      | none => (.error (missingFieldError "value"), c)
      | some value =>
        if restrictedKeys.contains key then (.error (restrictedError key), c)
        else match update s c key value with
          | (.error e, c') => (.error e, c')
          | (.ok oldValue, c') => (.ok { key, oldValue, newValue := value, reason }, c')

/-- What an execution can do. -/
inductive Execution (s : Surroundings) (c : Config) (inputs : Value) :
    Except ModuleError Update × Config → Prop
  /-- The input is refused. -/
  | refused (e) : Execution s c inputs (.error e, c)
  /-- The value is taken back. -/
  | rolledBack {key value constraint reason} (hkey : inputs.child "key" = some (.string key))
      (hne : key ≠ "") (hvalue : inputs.child "value" = some value) (hallowed : key ∉ restrictedKeys)
      (hconstraint : constraintOf key = some constraint)
      (hviolated : constraint.holds value.1 = false) :
      Execution s c inputs (.error (violationError s key reason value),
        (c.set key value).set key ((c.get s.registry key).getD .null))
  /-- The value stands. -/
  | accepted {key value reason} (hkey : inputs.child "key" = some (.string key))
      (hne : key ≠ "") (hvalue : inputs.child "value" = some value) (hallowed : key ∉ restrictedKeys)
      (hholds : ∀ constraint, constraintOf key = some constraint →
        constraint.holds value.1 = true) :
      Execution s c inputs (.ok { key, oldValue := c.get s.registry key, newValue := value, reason },
        c.set key value)

section Execute

variable {s : Surroundings} {c : Config} {inputs : Value}

theorem requireString_eq_ok {field text : String} :
    requireString inputs field = .ok text ↔
      inputs.child field = some (.string text) ∧ text ≠ "" := by
  unfold requireString
  constructor
  · intro h
    split at h
    · next found hfound =>
      obtain rfl := Except.ok.inj h
      obtain ⟨hread, hne⟩ := Option.filter_eq_some_iff.mp hfound
      obtain ⟨⟨v, hv⟩, hchild, hstr⟩ := Option.bind_eq_some_iff.mp hread
      cases v with
      | string other =>
        obtain rfl := Option.some.inj hstr
        exact ⟨hchild, by simpa using hne⟩
      | _ => cases hstr
    · cases h
  · rintro ⟨hchild, hne⟩
    simp [hchild, Value.string, Option.filter, hne]

theorem requireString_error {field : String} {e : ModuleError}
    (h : requireString inputs field = .error e) : e.code = .generalInvalidInput := by
  unfold requireString at h
  split at h
  · cases h
  · obtain rfl := Except.error.inj h
    rfl

/-- How an update ends is decided by the constraint of its key. -/
theorem update_cases (key : String) (value : Value) :
    (∃ constraint, constraintOf key = some constraint ∧ constraint.holds value.1 = false ∧
      update s c key value = (.error (violationError s key constraint.message value),
        (c.set key value).set key ((c.get s.registry key).getD .null))) ∨
    (∀ constraint, constraintOf key = some constraint → constraint.holds value.1 = true) ∧
      update s c key value = (.ok (c.get s.registry key), c.set key value) := by
  unfold update validateKeyConstraint
  cases hconstraint : constraintOf key with
  | none => exact .inr ⟨by simp, rfl⟩
  | some constraint =>
    cases hholds : constraint.holds value.1 with
    | true =>
      refine .inr ⟨fun other hother => ?_, by simp [hholds]⟩
      obtain rfl := Option.some.inj hother
      exact hholds
    | false => exact .inl ⟨constraint, rfl, hholds, by simp [hholds]⟩

theorem execution_execute : Execution s c inputs (execute s c inputs) := by
  unfold execute
  split
  · exact .refused _
  · next key hkey =>
    split
    · exact .refused _
    · next reason hreason =>
      split
      · exact .refused _
      · next value hvalue =>
        split_ifs with hrestricted
        · exact .refused _
        · have hallowed : key ∉ restrictedKeys := by simpa using hrestricted
          obtain ⟨hread, hne⟩ := requireString_eq_ok.mp hkey
          rcases update_cases (s := s) (c := c) key value with
            ⟨constraint, hconstraint, hviolated, hupdate⟩ | ⟨hholds, hupdate⟩
          · rw [hupdate]
            exact .rolledBack hread hne hvalue hallowed hconstraint hviolated
          · rw [hupdate]
            exact .accepted hread hne hvalue hallowed hholds

/-- The inputs that ask for an update. -/
def inputsFor (key : String) (value : Value) : Value :=
  .put "key" (.string key) (.put "reason" (.string "r") (.put "value" value .empty))

theorem child_inputsFor {key : String} {value : Value} :
    (inputsFor key value).child "key" = some (.string key) := Value.child_put_self _ _ _

/-- An update that is asked for is made. -/
theorem execute_inputsFor {key : String} (hne : key ≠ "") (hallowed : key ∉ restrictedKeys)
    (value : Value) : (execute s c (inputsFor key value)).2 = (update s c key value).2 ∧
      ((execute s c (inputsFor key value)).1.toOption.isSome ↔
        (update s c key value).1.toOption.isSome) := by
  have hkey : requireString (inputsFor key value) "key" = .ok key :=
    requireString_eq_ok.mpr ⟨child_inputsFor, hne⟩
  have hreason : requireString (inputsFor key value) "reason" = .ok "r" := by
    refine requireString_eq_ok.mpr ⟨?_, by decide⟩
    rw [inputsFor, Value.child_put_ne (by decide), Value.child_put_self]
  have hvalue : (inputsFor key value).child "value" = some value := by
    rw [inputsFor, Value.child_put_ne (by decide), Value.child_put_ne (by decide),
      Value.child_put_self]
  have hrestricted : restrictedKeys.contains key = false := by simpa using hallowed
  unfold execute
  simp only [hkey, hreason, hvalue, hrestricted, Bool.false_eq_true, if_false]
  rcases hupdate : update s c key value with ⟨result, c'⟩
  cases result with
  | error e => exact ⟨rfl, Iff.rfl⟩
  | ok oldValue => exact ⟨rfl, by simp [Except.toOption]⟩

end Execute

end Apcore.Config
