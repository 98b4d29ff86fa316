import Apcore.Lib.Kleene
import Apcore.Context

/-! # `Acl.Conditions` — condition handlers and the two evaluators

A rule's `conditions` is a JSON object whose keys name handlers. A handler answers with one of three
outcomes; `$or` and `$not` recurse. The same tree is evaluated on two paths: `ACL::check` polls each
handler once and resolves keys in the sync registry, `ACL::async_check` awaits each handler and
consults the async registry first. What a handler reports goes to the per-check capture scope, by
the path of the condition.

An application's own handler is an arbitrary function of everything it can observe (`HandlerCall`),
and of the position it is asked at: one check asks each position at most once, so this covers
handlers with state of their own. -/

namespace Apcore

/-- `ConditionOutcome`. -/
inductive ConditionOutcome where
  | satisfied | unsatisfied | unevaluable
  deriving DecidableEq, Repr

namespace ConditionOutcome

/-- `ConditionOutcome::from_bool`. -/
def fromBool : Bool → ConditionOutcome
  | true => satisfied
  | false => unsatisfied

/-- `ConditionOutcome::and`. -/
def and : ConditionOutcome → ConditionOutcome → ConditionOutcome
  | unsatisfied, _ | _, unsatisfied => unsatisfied
  | unevaluable, _ | _, unevaluable => unevaluable
  | satisfied, satisfied => satisfied

/-- `ConditionOutcome::or`. -/
def or : ConditionOutcome → ConditionOutcome → ConditionOutcome
  | satisfied, _ | _, satisfied => satisfied
  | unevaluable, _ | _, unevaluable => unevaluable
  | unsatisfied, unsatisfied => unsatisfied

/-- `ConditionOutcome::negate`. -/
def negate : ConditionOutcome → ConditionOutcome
  | satisfied => unsatisfied
  | unsatisfied => satisfied
  | unevaluable => unevaluable

/-- The truth value an outcome stands for. -/
def answer : ConditionOutcome → Kleene.Truth
  | satisfied => some true
  | unsatisfied => some false
  | unevaluable => none

theorem answer_and (a b : ConditionOutcome) : (a.and b).answer = Kleene.and a.answer b.answer := by
  cases a <;> cases b <;> rfl

theorem answer_or (a b : ConditionOutcome) : (a.or b).answer = Kleene.or a.answer b.answer := by
  cases a <;> cases b <;> rfl

theorem answer_negate (a : ConditionOutcome) : a.negate.answer = Kleene.not a.answer := by
  cases a <;> rfl

end ConditionOutcome

/-! ## Condition paths -/

/-- One level of nesting: the i-th branch of a `$or`, or the operand of a `$not`. -/
inductive Segment where
  | branch (index : Nat)
  | negated
  deriving DecidableEq, Repr

/-- The segment as `PathPrefixGuard::enter` receives it. -/
def Segment.render : Segment → String
  | branch index => "$or[" ++ toString index ++ "]"
  | negated => "$not"

/-- `join_path` and `condition_path`: a local key under a prefix. -/
def joinPath (pathPrefix localKey : String) : String :=
  if pathPrefix.isEmpty then localKey else pathPrefix ++ "." ++ localKey

/-- The active prefix after entering the segments in turn. -/
def renderPath (segments : List Segment) : String :=
  segments.foldl (fun pathPrefix segment => joinPath pathPrefix segment.render) ""

/-- `condition_path`. -/
def conditionPath (segments : List Segment) (localKey : String) : String :=
  joinPath (renderPath segments) localKey

/-- One entry for the capture scope: the path it is filed under, and the message. -/
abbrev Report := String × String

/-- `report_condition_unevaluable_at`. -/
def reportAt (path reason : String) : Report := (path, path ++ ": " ++ reason)

/-- `report_condition_unevaluable`. -/
def report (segments : List Segment) (localKey reason : String) : Report :=
  reportAt (conditionPath segments localKey) reason

/-! ## Handlers -/

/-- `APPROVAL_TOKEN_KEY`. -/
def approvalTokenKey : String := "_approval_token"

/-- `GovernanceProjection`: the argument keys a call carries. -/
structure GovernanceProjection where
  keys : List String
  deriving Repr

namespace GovernanceProjection

/-- `GovernanceProjection::from_arguments`. -/
def fromArguments (arguments : Json) : GovernanceProjection where
  keys := ((arguments.asObject?.getD []).filter (·.1 != approvalTokenKey)).map (·.1)

/-- `GovernanceProjection::contains_key`. -/
def containsKey (projection : GovernanceProjection) (key : String) : Bool :=
  projection.keys.contains key

end GovernanceProjection

/-- What a handler can observe when it is asked: the operand, the context, and through the capture
scope the position and the projection. -/
structure HandlerCall where
  rule : Nat
  segments : List Segment
  value : Json
  ctx : Context
  projection : Option GovernanceProjection

/-- How a completed invocation of a handler ends. The future can panic while it is being
constructed, before there is anything to poll, or while it is polled. -/
inductive Ending where
  | ready (outcome : ConditionOutcome)
  | constructPanic (message : String)
  | pollPanic (message : String)
  deriving DecidableEq, Repr

/-- A completed invocation: the reports it made, and how it ended. -/
structure HandlerRun where
  reports : List Report
  ending : Ending
  deriving DecidableEq, Repr

/-- An invocation as the evaluator meets it; only a single poll can find it `pending`. -/
inductive Invocation where
  | done (run : HandlerRun)
  | pending (reports : List Report)
  deriving DecidableEq, Repr

/-- `CompoundMode`: the path a compound operator resolves its sub-conditions on. -/
inductive CompoundMode where
  | sync | async
  deriving DecidableEq, Repr

/-- An application's handler: `awaited` is the invocation driven to its end, `suspended` the reports
made up to the first suspension point, when there is one. -/
structure HandlerBehaviour where
  awaited : HandlerCall → HandlerRun
  suspended : HandlerCall → Option (List Report)

/-- The invocation under one poll, or awaited. A construction panic comes before any suspension. -/
def HandlerBehaviour.invoke (behaviour : HandlerBehaviour) (mode : CompoundMode)
    (call : HandlerCall) : Invocation :=
  match mode, (behaviour.awaited call).ending, behaviour.suspended call with
  | .sync, .ready _, some reports | .sync, .pollPanic _, some reports => .pending reports
  | _, _, _ => .done (behaviour.awaited call)

/-- A handler that answers the same always, without suspending. -/
def HandlerBehaviour.constant (ending : Ending) : HandlerBehaviour where
  awaited _ := { reports := [], ending }
  suspended _ := none

/-- What a condition key resolves to. -/
inductive ACLConditionHandler where
  | identityTypes | roles | maxCallDepth | arguments
  | or (mode : CompoundMode)
  | not (mode : CompoundMode)
  | custom (behaviour : HandlerBehaviour)

/-! ## The built-in leaf handlers -/

/-- `IdentityTypesHandler::evaluate`. -/
def identityTypesEvaluate (value : Json) (ctx : Context) : Bool :=
  match value.asArray?, ctx.identity with
  | some elems, some identity => elems.any fun v => v.asStr? == some identity.identityType
  | _, _ => false

/-- `RolesHandler::evaluate`. -/
def rolesEvaluate (value : Json) (ctx : Context) : Bool :=
  match value.asArray?, ctx.identity with
  | some elems, some identity => elems.any fun v => v.asStr?.any (identity.roles.contains ·)
  | _, _ => false

/-- The double `q` cast to `u64`, for an integral one from 0 to `u64::MAX as f64`, which is 2^64;
the cast saturates. -/
def integralFloat (q : ℚ) : Option Nat :=
  if q.den = 1 ∧ 0 ≤ q ∧ q ≤ 2 ^ 64 then some (min q.num.toNat (2 ^ 64 - 1)) else none

/-- `integral_threshold`. -/
def integralThreshold (value : Json) : Option Nat :=
  match value.asNumber? with
  | some (.posInt n) => some n.toNat
  | some (.negInt n) => integralFloat n
  | some (.float q) => integralFloat q
  | none => none

/-- `MaxCallDepthHandler::evaluate`. -/
def maxCallDepthEvaluate (value : Json) (ctx : Context) : Bool :=
  let threshold := match value with
    | .number _ => integralThreshold value
    | .object fields => (Fields.get? fields "lte").bind integralThreshold
    | _ => none
  threshold.any (ctx.callChain.length ≤ ·)

/-- `ARGUMENT_PREDICATES`. -/
def argumentPredicates : List String := ["has_key", "has_all_keys", "has_none_of"]

/-- `ArgumentsHandler::key_names`. -/
def keyNames (value : Json) : Option (List String) :=
  value.asArray?.bind fun elems => elems.mapM Json.asStr?

/-- `ArgumentsHandler::decide_one`. -/
def argumentsDecideOne (segments : List Segment) (projection : Option GovernanceProjection)
    (predicate : String) (operand : Json) : List Report × ConditionOutcome :=
  let path := "arguments." ++ predicate
  if !argumentPredicates.contains predicate then
    ([report segments path ("unknown argument predicate; the vocabulary is closed (" ++
      ", ".intercalate argumentPredicates ++ ")")], .unevaluable)
  else match keyNames operand, projection with
    | none, _ =>
      ([report segments path "predicate value must be a list of argument key names"], .unevaluable)
    | some _, none =>
      ([report segments path ("no governance projection for this check (PROTOCOL_SPEC §6.1.8); " ++
        "the arguments condition is only answerable from a call site — " ++
        "use ACL::check_access / ACL::async_check_access")], .unevaluable)
    | some names, some projection =>
      ([], if predicate = "has_key" then .fromBool (names.any projection.containsKey)
        else if predicate = "has_all_keys" then .fromBool (names.all projection.containsKey)
        else .fromBool (!names.any projection.containsKey))

/-- `ArgumentsHandler::decide`: every predicate is visited. -/
def argumentsDecide (segments : List Segment) (projection : Option GovernanceProjection)
    (value : Json) : List Report × ConditionOutcome :=
  match value with
  | .object [] =>
    ([report segments "arguments" ("no predicate given; name at least one of " ++
      ", ".intercalate argumentPredicates)], .unevaluable)
  | .object predicates =>
    predicates.foldl (fun acc entry =>
      let one := argumentsDecideOne segments projection entry.1 entry.2
      (acc.1 ++ one.1, acc.2.and one.2)) ([], .satisfied)
  | _ =>
    ([report segments "arguments"
      "value must be an object of predicates (has_key / has_all_keys / has_none_of)"],
      .unevaluable)

end Apcore
