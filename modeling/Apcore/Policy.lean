import Apcore.Utils
import Apcore.Module

/-! # `Policy` — execution policies and the requirement they resolve to

A policy overrides the governance annotations of modules by pattern. The matching rule of the
highest specificity wins; among rules of one specificity, a more restrictive one replaces the rule
found before it. The call site a policy receives reaches its trace only, so `resolve` is all there
is to a verdict. -/

namespace Apcore

/-- `PolicyRule`. -/
structure PolicyRule where
  pattern : String
  /-- `PolicyRule::new` rejects an empty pattern. -/
  pattern_nonempty : pattern ≠ ""
  requiresApproval : Option Bool
  destructive : Option Bool
  reason : Option String
  deriving DecidableEq

namespace PolicyRule

/-- `PolicyRule::new`. -/
def new (pattern : String) : Except ModuleError PolicyRule :=
  if h : pattern = "" then
    .error (.new .generalInvalidInput "PolicyRule.pattern must be a non-empty string")
  else .ok
    { pattern, pattern_nonempty := h, requiresApproval := none, destructive := none
      reason := none }

/-- `restrictiveness`: the order of the pair is lexicographic. -/
def restrictiveness (rule : PolicyRule) : Bool × Bool :=
  (rule.requiresApproval == some true, rule.destructive == some true)

/-- `a.restrictiveness() > b.restrictiveness()`. -/
def moreRestrictive (a b : PolicyRule) : Bool :=
  (a.restrictiveness.1 && !b.restrictiveness.1) ||
    (a.restrictiveness.1 == b.restrictiveness.1 && a.restrictiveness.2 && !b.restrictiveness.2)

/-- `calculate_specificity` of the pattern. -/
def specificity (rule : PolicyRule) : Nat := calculateSpecificity rule.pattern

end PolicyRule

/-- `PolicyDecision`. -/
structure PolicyDecision where
  moduleId : String
  requiresApproval : Bool
  destructive : Bool
  needsApproval : Bool
  rule : Option PolicyRule
  overridden : Bool

/-- `ExecutionPolicy`. -/
structure ExecutionPolicy where
  rules : List PolicyRule
  gateDestructive : Bool
  strict : Bool

namespace ExecutionPolicy

/-- One turn of the loop of `match_rule`; `best_score` is the specificity of `best`, and `-1`
without one. -/
def consider (moduleId : String) (best : Option PolicyRule) (rule : PolicyRule) :
    Option PolicyRule :=
  if !matchPattern rule.pattern moduleId then best
  else match best with
    | none => some rule
    | some current =>
      if current.specificity < rule.specificity then some rule
      else if rule.specificity = current.specificity && rule.moreRestrictive current then some rule
      else some current

/-- `match_rule`. -/
def matchRule (policy : ExecutionPolicy) (moduleId : String) : Option PolicyRule :=
  policy.rules.foldl (consider moduleId) none

/-- `resolve`, and `resolve_with_call_site`. -/
def resolve (policy : ExecutionPolicy) (moduleId : String)
    (annotations : Option ModuleAnnotations) : PolicyDecision :=
  let baseRequiresApproval := ModuleAnnotations.flag (·.requiresApproval) annotations
  let baseDestructive := ModuleAnnotations.flag (·.destructive) annotations
  let rule := policy.matchRule moduleId
  let effectiveRequiresApproval := (rule.bind (·.requiresApproval)).getD baseRequiresApproval
  let effectiveDestructive := (rule.bind (·.destructive)).getD baseDestructive
  { moduleId
    requiresApproval := effectiveRequiresApproval
    destructive := effectiveDestructive
    needsApproval := effectiveRequiresApproval || (policy.gateDestructive && effectiveDestructive)
    rule
    overridden := effectiveRequiresApproval != baseRequiresApproval ||
      effectiveDestructive != baseDestructive }

/-! ## The rule that decides -/

end ExecutionPolicy

end Apcore
