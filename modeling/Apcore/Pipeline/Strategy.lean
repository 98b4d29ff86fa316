import Mathlib.Logic.Function.Basic
import Apcore.Pipeline.Types

/-! # `Pipeline.Strategy` — building and changing a strategy

`ExecutionStrategy` keeps its steps and, beside them, an index from names to positions. Its
constructor checks the names, the gates and the dependencies; every mutator checks some of them, and
rebuilds the index. A mutator leaves a strategy behind also where it reports an error. -/

namespace Apcore

variable {σ : Type}

/-- `ExecutionStrategy` as its mutators see it. -/
structure StrategyTable (σ : Type) where
  name : String
  steps : List (Step σ)
  nameToIdx : String → Option Nat
  stepMiddlewares : List (StepMiddleware σ) := []

namespace StrategyTable

/-! ## The index and the checks -/

/-- The index of a step list; a later step of a name overwrites an earlier one. -/
def indexOf (steps : List (Step σ)) : String → Option Nat :=
  steps.zipIdx.foldl (fun index entry => Function.update index entry.1.name (some entry.2))
    fun _ => none

/-- `rebuild_index`. -/
def rebuildIndex (table : StrategyTable σ) : StrategyTable σ :=
  { table with nameToIdx := indexOf table.steps }

/-- The loop of `validate_dependencies`, with what the steps so far provide. -/
def checkDependencies (strategyName : String) :
    List String → List (Step σ) → Except ModuleError Unit
  | _, [] => .ok ()
  | provided, step :: rest =>
    match step.requires.find? (!provided.contains ·) with
    | some req => .error (.new .pipelineDependencyError
        ("Step '" ++ step.name ++ "' in strategy '" ++ strategyName ++ "' requires '" ++ req ++
          "', but no preceding step provides it"))
    | none => checkDependencies strategyName (provided ++ step.provides) rest

/-- `validate_dependencies`. -/
def validateDependencies (table : StrategyTable σ) : Except ModuleError Unit :=
  checkDependencies table.name [] table.steps

/-- `find_step_index`. -/
def findStepIndex (table : StrategyTable σ) (stepName : String) : Except ModuleError Nat :=
  match table.nameToIdx stepName with
  | some idx => .ok idx
  | none => .error (.new .stepNotFound
      ("Step '" ++ stepName ++ "' not found in strategy '" ++ table.name ++ "'"))

/-- `validate_no_duplicate`. -/
def validateNoDuplicate (table : StrategyTable σ) (stepName : String) : Except ModuleError Unit :=
  if (table.nameToIdx stepName).isSome then .error (.new .stepNameDuplicate
    ("Step name '" ++ stepName ++ "' already exists in strategy '" ++ table.name ++ "'"))
  else .ok ()

/-- `validate_replacement_name`. -/
def validateReplacementName (table : StrategyTable σ) (stepName newName : String) :
    Except ModuleError Unit :=
  if newName ≠ stepName ∧ (table.nameToIdx newName).isSome then .error (.new .stepNameDuplicate
    ("Step name '" ++ newName ++ "' already exists at a different position in strategy '" ++
      table.name ++ "'"))
  else .ok ()

/-! ## The constructor -/

/-- The loop of `ExecutionStrategy::new`, with the names seen so far. -/
def checkSteps (strategyName : String) : List String → List (Step σ) → Except ModuleError Unit
  | _, [] => .ok ()
  | seen, step :: rest => do
    step.rejectWeakenedGate
    if seen.contains step.name then .error (.new .stepNameDuplicate
      ("Duplicate step name '" ++ step.name ++ "' in strategy '" ++ strategyName ++ "'"))
    else checkSteps strategyName (step.name :: seen) rest

/-- `ExecutionStrategy::new`. -/
def new (name : String) (steps : List (Step σ)) : Except ModuleError (StrategyTable σ) := do
  checkSteps name [] steps
  let table := { name, steps, nameToIdx := indexOf steps }
  table.validateDependencies
  pure table

/-! ## The mutators -/

/-- What a mutator returns, with the strategy it leaves. -/
abbrev Mutated (σ : Type) := Except ModuleError Unit × StrategyTable σ

/-- The strategy on other steps, with its index rebuilt. -/
def withSteps (table : StrategyTable σ) (steps : List (Step σ)) : StrategyTable σ :=
  { table with steps }.rebuildIndex

/-- What `insert_after` (offset 1) and `insert_before` (offset 0) do. The dependencies are checked
last, on the list that already has the step. -/
def insertAt (offset : Nat) (table : StrategyTable σ) (anchor : String) (step : Step σ) :
    Mutated σ :=
  match step.rejectWeakenedGate, table.validateNoDuplicate step.name, table.findStepIndex anchor with
  | .error e, _, _ => (.error e, table)
  | .ok (), .error e, _ => (.error e, table)
  | .ok (), .ok (), .error e => (.error e, table)
  | .ok (), .ok (), .ok idx =>
    let table := table.withSteps (table.steps.insertIdx (idx + offset) step)
    (table.validateDependencies, table)

/-- `insert_after`. -/
def insertAfter (table : StrategyTable σ) (anchor : String) (step : Step σ) : Mutated σ :=
  insertAt 1 table anchor step

/-- `insert_before`. -/
def insertBefore (table : StrategyTable σ) (anchor : String) (step : Step σ) : Mutated σ :=
  insertAt 0 table anchor step

/-- The step at a position of the index. An index beyond the steps would panic, and no index of a
strategy is. -/
def stepAt (table : StrategyTable σ) (idx : Nat) : Except ModuleError (Step σ) :=
  match table.steps[idx]? with
  | some step => .ok step
  | none => .error (.new .generalInternalError "index out of bounds")

/-- `remove`. -/
def remove (table : StrategyTable σ) (stepName : String) : Mutated σ :=
  match table.findStepIndex stepName with
  | .error e => (.error e, table)
  | .ok idx =>
    match table.stepAt idx with
    | .error e => (.error e, table)
    | .ok step =>
      if step.removable then (.ok (), table.withSteps (table.steps.eraseIdx idx))
      else (.error (.new .stepNotRemovable ("Step '" ++ stepName ++ "' is not removable")), table)

/-- What `replace` and `configure_step` do with the position of the step, once it is found. -/
def replaceAt (table : StrategyTable σ) (stepName : String) (idx : Nat) (newStep : Step σ) :
    Mutated σ :=
  match table.stepAt idx with
  | .error e => (.error e, table)
  | .ok step =>
    if step.replaceable then
      match table.validateReplacementName stepName newStep.name, newStep.rejectWeakenedGate with
      | .error e, _ => (.error e, table)
      | .ok (), .error e => (.error e, table)
      | .ok (), .ok () => (.ok (), table.withSteps (table.steps.set idx newStep))
    else (.error (.new .stepNotReplaceable ("Step '" ++ stepName ++ "' is not replaceable")), table)

/-- `replace`. -/
def replace (table : StrategyTable σ) (stepName : String) (newStep : Step σ) : Mutated σ :=
  match table.findStepIndex stepName with
  | .error e => (.error e, table)
  | .ok idx => table.replaceAt stepName idx newStep

/-- `configure_step`. -/
def configureStep (table : StrategyTable σ) (stepName : String) (newStep : Step σ) : Mutated σ :=
  match table.nameToIdx stepName with
  | none => (.error (.new .pipelineStepNotFound
      ("Pipeline step not found: '" ++ stepName ++ "'")), table)
  | some idx => table.replaceAt stepName idx newStep

/-- `NeutralisedGate`: a gate with its weakening fields forced back to the built-in values. -/
def neutralised (step : Step σ) (gate : BuiltinGate) : Step σ :=
  { step with
    matchModules := none
    ignoreErrors := false
    isPure := gate = .acl
    builtinGate := some gate }

/-- The step `replace_with` installs for what its wrapper returned. -/
def installed (step : Step σ) : Step σ :=
  match step.rejectWeakenedGate, step.builtinGate with
  | .error _, some gate => neutralised step gate
  | _, _ => step

/-- `replace_with`, for a wrapper that returns. -/
def replaceWith (table : StrategyTable σ) (stepName : String) (wrapper : Step σ → Step σ) :
    Mutated σ :=
  match table.findStepIndex stepName with
  | .error e => (.error e, table)
  | .ok idx =>
    match table.stepAt idx with
    | .error e => (.error e, table)
    | .ok old =>
      ((wrapper old).rejectWeakenedGate,
        table.withSteps (table.steps.set idx (installed (wrapper old))))

end StrategyTable

/-! ## Calls of a mutator -/

/-- The call of a mutator. -/
inductive StrategyOp (σ : Type) where
  | insertAfter (anchor : String) (step : Step σ)
  | insertBefore (anchor : String) (step : Step σ)
  | remove (stepName : String)
  | replace (stepName : String) (newStep : Step σ)
  | configureStep (stepName : String) (newStep : Step σ)
  | replaceWith (stepName : String) (wrapper : Step σ → Step σ)

namespace StrategyOp

/-- What the call returns and leaves. -/
def apply (table : StrategyTable σ) : StrategyOp σ → StrategyTable.Mutated σ
  | .insertAfter anchor step => table.insertAfter anchor step
  | .insertBefore anchor step => table.insertBefore anchor step
  | .remove stepName => table.remove stepName
  | .replace stepName newStep => table.replace stepName newStep
  | .configureStep stepName newStep => table.configureStep stepName newStep
  | .replaceWith stepName wrapper => table.replaceWith stepName wrapper

/-- `insert_after` and `insert_before`. -/
def inserts : StrategyOp σ → Bool
  | .insertAfter .. | .insertBefore .. => true
  | _ => false

/-- `replace_with`. -/
def wraps : StrategyOp σ → Bool
  | .replaceWith .. => true
  | _ => false

/-- The strategy after a sequence of calls, whatever they return. -/
def run (table : StrategyTable σ) (ops : List (StrategyOp σ)) : StrategyTable σ :=
  ops.foldl (fun table op => (op.apply table).2) table

end StrategyOp

end Apcore
