import Apcore.Acl.Conditions
import Mathlib.Logic.Function.Basic
import Mathlib.Tactic.SplitIfs

/-! # `Acl.Evaluate` — evaluating a tree of conditions

`ACL::evaluate_conditions` and `evaluate_conditions_async_outcome` are the two evaluators; they
resolve keys in different registries and catch the panics of a handler differently. The compound
handlers recurse into the evaluator of their own mode. A `HashMap` of conditions is visited in an
order of its own choosing (`MapOrder`). -/

namespace Apcore

/-- The two condition registries after `register_builtin_handlers` and any later registration.
Applications cannot build the compound handlers, so these stay where they were seeded. -/
structure Registries where
  condition : String → Option ACLConditionHandler
  async : String → Option ACLConditionHandler
  condition_or : ∀ key mode, condition key = some (.or mode) → key = "$or" ∧ mode = .sync
  condition_not : ∀ key mode, condition key = some (.not mode) → key = "$not" ∧ mode = .sync
  async_or : ∀ key mode, async key = some (.or mode) → key = "$or" ∧ mode = .async
  async_not : ∀ key mode, async key = some (.not mode) → key = "$not" ∧ mode = .async
  async_seeded : (async "$or").isSome ∧ (async "$not").isSome

/-- How a key is resolved on each path: the async one falls back to the sync registry. -/
def Registries.lookup (registries : Registries) : CompoundMode → String → Option ACLConditionHandler
  | .sync, key => registries.condition key
  | .async, key => (registries.async key).or (registries.condition key)

/-- The built-in handler of a key, in the registry of a path; the leaf handlers are seeded in the
sync registry only. -/
def builtinHandler (mode : CompoundMode) (key : String) : Option ACLConditionHandler :=
  if key = "$or" then some (.or mode)
  else if key = "$not" then some (.not mode)
  else if mode = .async then none
  else if key = "identity_types" then some .identityTypes
  else if key = "roles" then some .roles
  else if key = "max_call_depth" then some .maxCallDepth
  else if key = "arguments" then some .arguments
  else none

theorem builtinHandler_or {mode inner : CompoundMode} {key : String}
    (h : builtinHandler mode key = some (.or inner)) : key = "$or" ∧ inner = mode := by
  unfold builtinHandler at h
  split_ifs at h with hkey
  · cases h; exact ⟨hkey, rfl⟩
  all_goals cases h

theorem builtinHandler_not {mode inner : CompoundMode} {key : String}
    (h : builtinHandler mode key = some (.not inner)) : key = "$not" ∧ inner = mode := by
  unfold builtinHandler at h
  split_ifs at h with hor hkey
  · cases h
  · cases h; exact ⟨hkey, rfl⟩
  all_goals cases h

/-- `register_builtin_handlers`, on empty registries. -/
def Registries.builtin : Registries where
  condition := builtinHandler .sync
  async := builtinHandler .async
  condition_or _ _ := builtinHandler_or
  condition_not _ _ := builtinHandler_not
  async_or _ _ := builtinHandler_or
  async_not _ _ := builtinHandler_not
  async_seeded := ⟨rfl, rfl⟩

theorem update_custom_ne {handlers : String → Option ACLConditionHandler} {key other : String}
    {behaviour : HandlerBehaviour} {handler : ACLConditionHandler}
    (hcustom : ∀ b, handler ≠ .custom b)
    (h : Function.update handlers key (some (.custom behaviour)) other = some handler) :
    handlers other = some handler := by
  by_cases heq : other = key
  · subst heq
    rw [Function.update_self] at h
    exact absurd (Option.some.inj h).symm (hcustom behaviour)
  · rwa [Function.update_of_ne heq] at h

/-- `register_condition`. -/
def Registries.registerCondition (registries : Registries) (key : String)
    (behaviour : HandlerBehaviour) : Registries where
  condition := Function.update registries.condition key (some (.custom behaviour))
  async := registries.async
  condition_or other mode h := registries.condition_or other mode (update_custom_ne (by simp) h)
  condition_not other mode h := registries.condition_not other mode (update_custom_ne (by simp) h)
  async_or := registries.async_or
  async_not := registries.async_not
  async_seeded := registries.async_seeded

/-- `register_async_condition`. -/
def Registries.registerAsyncCondition (registries : Registries) (key : String)
    (behaviour : HandlerBehaviour) : Registries where
  condition := registries.condition
  async := Function.update registries.async key (some (.custom behaviour))
  condition_or := registries.condition_or
  condition_not := registries.condition_not
  async_or other mode h := registries.async_or other mode (update_custom_ne (by simp) h)
  async_not other mode h := registries.async_not other mode (update_custom_ne (by simp) h)
  async_seeded := by
    constructor
    · rw [Function.update_apply]; split
      · rfl
      · exact registries.async_seeded.1
    · rw [Function.update_apply]; split
      · rfl
      · exact registries.async_seeded.2

/-- The iteration order of the `HashMap` built for the conditions at each position. -/
structure MapOrder where
  visit : Nat → List Segment → List (String × Option Invocation) → List (String × Option Invocation)
  perm : ∀ rule segments entries, (visit rule segments entries).Perm entries

/-- The order of the source text. -/
def MapOrder.textual : MapOrder where
  visit _ _ entries := entries
  perm _ _ _ := .refl _

/-- What one evaluation reads. -/
structure EvalScope where
  registries : Registries
  order : MapOrder
  rule : Nat
  ctx : Context
  projection : Option GovernanceProjection

/-- The result of evaluating conditions: the reports made, and the outcome, or the message of a
panic that unwinds out of the evaluator. -/
structure Evaluated where
  reports : List Report
  result : Except String ConditionOutcome

/-- The accumulator loop of every evaluator: all children are visited, and an unwinding panic
leaves the rest unvisited. -/
def foldOutcomes (op : ConditionOutcome → ConditionOutcome → ConditionOutcome) :
    ConditionOutcome → List Evaluated → Evaluated
  | acc, [] => { reports := [], result := .ok acc }
  | acc, child :: rest =>
    match child.result with
    | .error message => { reports := child.reports, result := .error message }
    | .ok outcome =>
      let tail := foldOutcomes op (op acc outcome) rest
      { reports := child.reports ++ tail.reports, result := tail.result }

/-- The future of a compound handler: a panic below it surfaces when it is polled. -/
def Evaluated.toRun (e : Evaluated) : HandlerRun where
  reports := e.reports
  ending := match e.result with
    | .ok outcome => .ready outcome
    | .error message => .pollPanic message

/-- The body of the evaluators' loops, for one key. The sync one catches panics of the construction
and of the poll; the async one constructs the future outside its `catch_unwind`. -/
def settle (mode : CompoundMode) (segments : List Segment) :
    String × Option Invocation → Evaluated
  | (key, none) =>
    { reports := [report segments key "unknown ACL condition"], result := .ok .unevaluable }
  | (key, some (.pending reports)) =>
    { reports := reports ++
        [report segments key "handler is not ready synchronously (use ACL::async_check)"]
      result := .ok .unevaluable }
  | (key, some (.done run)) =>
    match mode, run.ending with
    | _, .ready outcome => { reports := run.reports, result := .ok outcome }
    | .async, .constructPanic message => { reports := run.reports, result := .error message }
    | .sync, .constructPanic message | _, .pollPanic message =>
      { reports := run.reports ++ [report segments key ("handler panicked: " ++ message)]
        result := .ok .unevaluable }

/-- The three-valued AND over the invocations of one `conditions` object. -/
def evaluateInvocations (scope : EvalScope) (mode : CompoundMode) (segments : List Segment)
    (entries : List (String × Option Invocation)) : Evaluated :=
  foldOutcomes .and .satisfied
    ((scope.order.visit scope.rule segments entries).map (settle mode segments))

mutual

/-- `handler.evaluate_outcome(value, ctx)`. -/
def evaluateOutcome (scope : EvalScope) (mode : CompoundMode) (segments : List Segment)
    (handler : ACLConditionHandler) (value : Json) : Invocation :=
  match handler, value with
  | .identityTypes, value =>
    .done { reports := [], ending := .ready (.fromBool (identityTypesEvaluate value scope.ctx)) }
  | .roles, value =>
    .done { reports := [], ending := .ready (.fromBool (rolesEvaluate value scope.ctx)) }
  | .maxCallDepth, value =>
    .done { reports := [], ending := .ready (.fromBool (maxCallDepthEvaluate value scope.ctx)) }
  | .arguments, value =>
    let decided := argumentsDecide segments scope.projection value
    .done { reports := decided.1, ending := .ready decided.2 }
  | .custom behaviour, value =>
    behaviour.invoke mode
      { rule := scope.rule, segments, value, ctx := scope.ctx, projection := scope.projection }
  | .or inner, .array subs =>
    .done (foldOutcomes .or .unsatisfied (evaluateBranches scope inner segments 0 subs)).toRun
  | .or _, _ =>
    .done { reports := [report segments "$or" "value must be a list of condition objects"]
            ending := .ready .unevaluable }
  | .not inner, .object fields =>
    let sub := evaluateInvocations scope inner (segments ++ [.negated])
      (invokeEntries scope inner (segments ++ [.negated]) fields)
    .done { sub with result := sub.result.map ConditionOutcome.negate }.toRun
  | .not _, _ =>
    .done { reports := [report segments "$not" "value must be a condition object"]
            ending := .ready .unevaluable }

/-- The branches of a `$or`, from the given index on. -/
def evaluateBranches (scope : EvalScope) (mode : CompoundMode) (segments : List Segment) :
    Nat → List Json → List Evaluated
  | _, [] => []
  | index, sub :: rest =>
    evaluateBranch scope mode (segments ++ [.branch index]) sub ::
      evaluateBranches scope mode segments (index + 1) rest

/-- One branch of a `$or`, under its own prefix. -/
def evaluateBranch (scope : EvalScope) (mode : CompoundMode) (segments : List Segment) :
    Json → Evaluated
  | .object fields =>
    evaluateInvocations scope mode segments (invokeEntries scope mode segments fields)
  | _ =>
    { reports := [reportAt (renderPath segments) "$or branch must be a condition object"]
      result := .ok .unevaluable }

/-- Each key of a `conditions` object with the invocation of the handler it resolves to. -/
def invokeEntries (scope : EvalScope) (mode : CompoundMode) (segments : List Segment) :
    List (String × Json) → List (String × Option Invocation)
  | [] => []
  | entry :: rest => invokeEntry scope mode segments entry :: invokeEntries scope mode segments rest

/-- One key of a `conditions` object. -/
def invokeEntry (scope : EvalScope) (mode : CompoundMode) (segments : List Segment) :
    String × Json → String × Option Invocation
  | (key, value) =>
    (key, (scope.registries.lookup mode key).map fun handler =>
      evaluateOutcome scope mode segments handler value)

end

/-- `ACL::evaluate_conditions` (`.sync`) and `evaluate_conditions_async_outcome` (`.async`). -/
def evaluateConditions (scope : EvalScope) (mode : CompoundMode) (segments : List Segment)
    (fields : List (String × Json)) : Evaluated :=
  evaluateInvocations scope mode segments (invokeEntries scope mode segments fields)

end Apcore
