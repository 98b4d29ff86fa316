import Apcore.Acl.Evaluate
import Mathlib.Data.List.Sort

/-! # `Acl.Precheck` — structural and registry faults of a rule

The precheck reads a rule and the registries only: it invokes no handler and needs no context. A
rule with a fault is unevaluable, whatever its conditions would answer. -/

namespace Apcore

/-- `RuleFault`. -/
structure RuleFault where
  path : String
  key : Option String
  reason : String
  syncResolvable : Bool
  asyncResolvable : Bool
  deriving Repr

/-- `structural_fault`: not answerable on either path. -/
def structuralFault (path : String) (key : Option String) (reason : String) : RuleFault :=
  { path, key, reason, syncResolvable := false, asyncResolvable := false }

/-! ## Conditions -/

/-- `is_sync_resolvable`. -/
def Registries.isSyncResolvable (registries : Registries) (key : String) : Bool :=
  (registries.condition key).isSome

/-- `is_async_resolvable`: the union of the two registries. -/
def Registries.isAsyncResolvable (registries : Registries) (key : String) : Bool :=
  (registries.async key).isSome || registries.isSyncResolvable key

/-- Resolvability on the path the precheck is run for. -/
def Registries.isResolvable (registries : Registries) : CompoundMode → String → Bool
  | .sync => registries.isSyncResolvable
  | .async => registries.isAsyncResolvable

/-- A key is resolvable exactly when the evaluator of that path finds a handler for it. -/
theorem Registries.isResolvable_eq (registries : Registries) (mode : CompoundMode) (key : String) :
    registries.isResolvable mode key = (registries.lookup mode key).isSome := by
  cases mode
  · rfl
  · simp [isResolvable, isAsyncResolvable, isSyncResolvable, lookup, Option.isSome_or]

/-- The fault of one predicate of an `arguments` operand. -/
def argumentFault (keyPath : String) (predicate : String) (operand : Json) : List RuleFault :=
  let path := keyPath ++ "." ++ predicate
  if !argumentPredicates.contains predicate then
    [structuralFault path (some "arguments") ("unknown argument predicate '" ++ predicate ++
      "'; the vocabulary is closed (" ++ ", ".intercalate argumentPredicates ++ ")")]
  else if (keyNames operand).isNone then
    [structuralFault path (some "arguments")
      ("'" ++ predicate ++ "' value must be a list of argument key names")]
  else []

/-- `collect_argument_faults`. -/
def collectArgumentFaults (value : Json) (keyPath : String) : List RuleFault :=
  match value with
  | .object [] => [structuralFault keyPath (some "arguments") ("arguments carries no predicate; " ++
      "name at least one of has_key, has_all_keys, has_none_of")]
  | .object predicates => predicates.flatMap fun entry => argumentFault keyPath entry.1 entry.2
  | _ => [structuralFault keyPath (some "arguments") ("arguments value must be an object of " ++
      "predicates (has_key / has_all_keys / has_none_of)")]

/-- The shape an operand must have for its key, when there is nothing to recurse into: `$or` and
`$not` reach this with an operand of the wrong shape. Every other leaf handler is the authority on
its own value. -/
def operandShapeFaults (key keyPath : String) (value : Json) : List RuleFault :=
  if key = "$or" then
    [structuralFault keyPath (some key) "$or value must be a list of condition objects"]
  else if key = "$not" then
    [structuralFault keyPath (some key) "$not value must be a condition object"]
  else if key = "arguments" then collectArgumentFaults value keyPath
  else []

mutual

/-- `collect_condition_faults`, for the resolvability of the path in use. -/
def collectConditionFaults (registries : Registries) (resolvable : String → Bool) (pathPrefix : String) :
    Json → List RuleFault
  | .object fields => collectFieldFaults registries resolvable pathPrefix fields
  | _ =>
    if pathPrefix.isEmpty then [structuralFault "$" none "conditions must be a mapping"]
    else [structuralFault pathPrefix none "condition branch must be an object"]

/-- The loop over the entries of one object. -/
def collectFieldFaults (registries : Registries) (resolvable : String → Bool) (pathPrefix : String) :
    List (String × Json) → List RuleFault
  | [] => []
  | entry :: rest =>
    collectFieldFault registries resolvable pathPrefix entry ++
      collectFieldFaults registries resolvable pathPrefix rest

/-- One entry: its key must resolve, and its operand must have the shape its key requires. -/
def collectFieldFault (registries : Registries) (resolvable : String → Bool) (pathPrefix : String) :
    String × Json → List RuleFault
  | (key, value) =>
    let keyPath := joinPath pathPrefix key
    if !resolvable key then
      [{ path := keyPath, key := some key, reason := "unknown ACL condition"
         syncResolvable := registries.isSyncResolvable key
         asyncResolvable := registries.isAsyncResolvable key }]
    else collectOperandFaults registries resolvable key keyPath value

/-- The operand of a key that resolves. -/
def collectOperandFaults (registries : Registries) (resolvable : String → Bool)
    (key keyPath : String) : Json → List RuleFault
  | .array subs =>
    if key = "$or" then collectBranchFaults registries resolvable keyPath 0 subs
    else operandShapeFaults key keyPath (.array subs)
  | .object fields =>
    if key = "$not" then collectFieldFaults registries resolvable keyPath fields
    else operandShapeFaults key keyPath (.object fields)
  | value => operandShapeFaults key keyPath value

/-- The branches of a `$or`, from the given index on. -/
def collectBranchFaults (registries : Registries) (resolvable : String → Bool) (keyPath : String) :
    Nat → List Json → List RuleFault
  | _, [] => []
  | index, sub :: rest =>
    collectConditionFaults registries resolvable (keyPath ++ "[" ++ toString index ++ "]") sub ++
      collectBranchFaults registries resolvable keyPath (index + 1) rest

end

/-- `precheck_conditions`: the faults in ascending order of their paths. -/
def precheckConditions (registries : Registries) (mode : CompoundMode) (conditions : Json) :
    List RuleFault :=
  (collectConditionFaults registries (registries.isResolvable mode) "" conditions).insertionSort (·.path ≤ ·.path)

/-- The reports a failed precheck makes. -/
def RuleFault.report (fault : RuleFault) : Report := reportAt fault.path fault.reason

theorem precheckConditions_eq_nil {registries : Registries} {mode : CompoundMode}
    {conditions : Json} : precheckConditions registries mode conditions = [] ↔
      collectConditionFaults registries (registries.isResolvable mode) "" conditions = [] := by
  rw [← List.length_eq_zero_iff, precheckConditions, List.length_insertionSort,
    List.length_eq_zero_iff]

/-! ### Faults do not depend on the prefix, and resolving more keys adds none -/

theorem collectArgumentFaults_nil_of_nil {value : Json} {keyPath keyPath' : String}
    (h : collectArgumentFaults value keyPath = []) : collectArgumentFaults value keyPath' = [] := by
  unfold collectArgumentFaults argumentFault at h ⊢
  split at h
  · cases h
  · simp only [List.flatMap_eq_nil_iff] at h ⊢
    intro entry hentry
    have hentry' := h entry hentry
    split_ifs at hentry' ⊢
    rfl
  · cases h

theorem operandShapeFaults_nil_of_nil {key : String} {value : Json} {keyPath keyPath' : String}
    (h : operandShapeFaults key keyPath value = []) : operandShapeFaults key keyPath' value = [] := by
  unfold operandShapeFaults at h ⊢
  split_ifs at h ⊢
  · exact collectArgumentFaults_nil_of_nil h
  · rfl

section NilOfNil

variable {r₁ r₂ : Registries} {res₁ res₂ : String → Bool}

mutual

/-- A tree without faults under one prefix has none under another, when more keys resolve. -/
theorem collectConditionFaults_nil_of_nil (h : ∀ key, res₂ key = true → res₁ key = true)
    (p₂ p₁ : String) : ∀ conditions : Json,
      collectConditionFaults r₂ res₂ p₂ conditions = [] →
        collectConditionFaults r₁ res₁ p₁ conditions = []
  | .object fields => by
    rw [collectConditionFaults, collectConditionFaults]
    exact collectFieldFaults_nil_of_nil h p₂ p₁ fields
  | .null | .bool _ | .number _ | .string _ | .array _ => by
    intro hnil
    simp only [collectConditionFaults] at hnil
    split at hnil <;> cases hnil

theorem collectFieldFaults_nil_of_nil (h : ∀ key, res₂ key = true → res₁ key = true)
    (p₂ p₁ : String) : ∀ fields : List (String × Json),
      collectFieldFaults r₂ res₂ p₂ fields = [] → collectFieldFaults r₁ res₁ p₁ fields = []
  | [] => fun _ => rfl
  | entry :: rest => by
    rw [collectFieldFaults, collectFieldFaults, List.append_eq_nil_iff, List.append_eq_nil_iff]
    exact And.imp (collectFieldFault_nil_of_nil h p₂ p₁ entry)
      (collectFieldFaults_nil_of_nil h p₂ p₁ rest)

theorem collectFieldFault_nil_of_nil (h : ∀ key, res₂ key = true → res₁ key = true)
    (p₂ p₁ : String) : ∀ entry : String × Json,
      collectFieldFault r₂ res₂ p₂ entry = [] → collectFieldFault r₁ res₁ p₁ entry = []
  | (key, value) => by
    rw [collectFieldFault, collectFieldFault]
    cases hkey : res₂ key with
    | false => simp
    | true => simpa [h key hkey] using collectOperandFaults_nil_of_nil h key _ _ value

theorem collectOperandFaults_nil_of_nil (h : ∀ key, res₂ key = true → res₁ key = true)
    (key p₂ p₁ : String) : ∀ value : Json,
      collectOperandFaults r₂ res₂ key p₂ value = [] →
        collectOperandFaults r₁ res₁ key p₁ value = []
  | .array subs => by
    rw [collectOperandFaults, collectOperandFaults]
    split
    · exact collectBranchFaults_nil_of_nil h p₂ p₁ 0 subs
    · exact operandShapeFaults_nil_of_nil
  | .object fields => by
    rw [collectOperandFaults, collectOperandFaults]
    split
    · exact collectFieldFaults_nil_of_nil h p₂ p₁ fields
    · exact operandShapeFaults_nil_of_nil
  | .null | .bool _ | .number _ | .string _ => operandShapeFaults_nil_of_nil

theorem collectBranchFaults_nil_of_nil (h : ∀ key, res₂ key = true → res₁ key = true)
    (p₂ p₁ : String) : ∀ (index : Nat) (subs : List Json),
      collectBranchFaults r₂ res₂ p₂ index subs = [] →
        collectBranchFaults r₁ res₁ p₁ index subs = []
  | _, [] => fun _ => rfl
  | index, sub :: rest => by
    rw [collectBranchFaults, collectBranchFaults, List.append_eq_nil_iff, List.append_eq_nil_iff]
    exact And.imp (collectConditionFaults_nil_of_nil h _ _ sub)
      (collectBranchFaults_nil_of_nil h p₂ p₁ (index + 1) rest)

end

end NilOfNil

/-! ## Pattern arrays -/

/-- `PATTERN_OPERATORS`. -/
def patternOperators : List String := ["$or", "$not"]

/-- `pattern_shape_fault`: why a `callers` or `targets` array is structurally illegal. -/
def patternShapeFault (field : String) (patterns : List String) : Option String :=
  if patterns.isEmpty then
    some ("'" ++ field ++ "' is empty. A pattern array MUST carry at least one operand " ++
      "(PROTOCOL_SPEC §6.2.1): an array that can never match makes the rule inert, " ++
      "and under 'default_effect: allow' an inert 'deny' rule permits the very call " ++
      "it was written to block. Write ['*'] if the rule was meant to cover " ++
      "everything, or delete the rule if it was meant to cover nothing.")
  else match patterns.findIdx? (·.isEmpty) with
    | some index =>
      some ("'" ++ field ++ "[" ++ toString index ++ "]' is the empty string, which matches no " ++
        "legal module ID. Every element of a pattern array MUST be a non-empty pattern " ++
        "(PROTOCOL_SPEC §6.2.1).")
    | none => match (patterns.drop 1).findIdx? (patternOperators.contains ·) with
      | some position =>
        some ("'" ++ field ++ "[" ++ toString (position + 1) ++ "]' is the reserved token '" ++
          patterns.getD (position + 1) "" ++ "'. A pattern array is FLAT — the " ++
          "operators do not nest and there is no precedence — so a reserved token is an " ++
          "operator at index 0 and nothing anywhere else (PROTOCOL_SPEC §6.2.1). " ++
          "['$or', '$not', p] is not \"or of not\" and [p, '$not', q] is not \"p but not " ++
          "q\" — no such form exists. Use first-match-wins with two rules (§6.3).")
      | none =>
        if patterns.headD "" = "$or" ∧ patterns.length < 2 then
          some ("'" ++ field ++ "' is ['$or'] — an OR over nothing, which matches no module ID. " ++
            "'$or' at index 0 MUST be followed by at least one pattern (PROTOCOL_SPEC §6.2.1).")
        else if patterns.headD "" = "$not" ∧ patterns.length ≠ 2 then
          some ("'" ++ field ++ "' gives '$not' " ++ toString (patterns.length - 1) ++
            " operands. '$not' at index 0 MUST be followed by " ++
            "EXACTLY one pattern (PROTOCOL_SPEC §6.2.1). Through spec v1.30.0 a " ++
            "multi-operand '$not' was implementation-defined — every SDK consulted the " ++
            "first operand and dropped the rest — so an 'allow' rule excluding two " ++
            "targets GRANTED the second one. There is no single-array form for " ++
            "\"neither p nor q\": use first-match-wins with two rules (§6.3).")
        else none

/-- `pattern_rule_fault`. -/
def patternRuleFault (field reason : String) : RuleFault := structuralFault field none reason

end Apcore
