import Apcore.Lib.DecisionList
import Apcore.Acl.Rules

/-! # `Acl.Check` — access checks and their audit entries

`check_access` and `async_check_access` are two copies of one scan; they differ in the evaluator
they reach. Each is the scan at its mode here. A check returns the entries it handed to
`emit_audit` next to its decision, and the decision is an error when a panic unwinds out of it. -/

namespace Apcore

/-- `AccessDecision`. -/
structure AccessDecision where
  access : String
  approvalRequired : Bool
  matchedRuleIndex : Option Nat
  reason : String
  deriving DecidableEq, Repr

/-- `AccessDecision::is_allowed`. -/
def AccessDecision.isAllowed (decision : AccessDecision) : Bool := decision.access == "allow"

/-- `AuditEntry`. -/
structure AuditEntry where
  timestamp : String
  callerId : String
  targetId : String
  decision : String
  reason : String
  matchedRule : Option String
  matchedRuleIndex : Option Nat
  identityType : Option String
  roles : List String
  callDepth : Option Nat
  traceId : Option String
  handlerError : Option String
  approvalRequired : Bool
  deriving DecidableEq, Repr

/-- The arguments of a check. -/
structure AccessRequest where
  callerId : Option String
  targetId : String
  ctx : Option Context
  projection : Option GovernanceProjection

/-- A request by an anonymous caller, outside any call site. -/
def anonymousRequest : AccessRequest where
  callerId := none
  targetId := "billing.charge"
  ctx := some (.anonymous "trace" 0)
  projection := none

/-- What a check reads besides the list and the request: the registries, the map orders and the
clock. -/
structure CheckEnv where
  registries : Registries
  order : MapOrder
  now : String

/-- One check: the reports captured, the entries handed to `emit_audit`, and the decision. -/
structure CheckRun where
  reports : List Report
  audited : List AuditEntry
  decision : Except String AccessDecision

/-- The scope a rule's conditions are evaluated in. -/
def CheckEnv.scope (env : CheckEnv) (request : AccessRequest) (rule : Nat) (ctx : Context) :
    EvalScope where
  registries := env.registries
  order := env.order
  rule := rule
  ctx := ctx
  projection := request.projection

/-- The caller the rules are matched against. -/
def AccessRequest.caller (request : AccessRequest) : String := request.callerId.getD externalCaller

/-! ## Matching one rule -/

/-- `match_acl_pattern_with_ctx`, with `match_acl_pattern` inlined. -/
def matchAclPattern (pattern value : String) (ctx : Option Context) : Bool :=
  if pattern = "@system" then
    (ctx.bind (·.identity)).any (·.identityType == "system")
  else if pattern = externalCaller then value == externalCaller
  else matchPattern pattern value

/-- `ACL::match_patterns`. -/
def matchPatterns (patterns : List String) (value : String) (ctx : Option Context) : Bool :=
  match patterns with
  | [] => false
  | "$or" :: rest => rest.any (matchAclPattern · value ctx)
  | ["$not"] => false
  | "$not" :: pattern :: _ => !matchAclPattern pattern value ctx
  | patterns => patterns.any (matchAclPattern · value ctx)

/-- Both pattern arrays of a rule match the request. -/
def ACLRule.patternsMatch (rule : ACLRule) (request : AccessRequest) : Bool :=
  matchPatterns rule.callers request.caller request.ctx &&
    matchPatterns rule.targets request.targetId request.ctx

/-- `check_conditions` and `check_conditions_async`. -/
def checkConditionsIn (mode : CompoundMode) (env : CheckEnv) (request : AccessRequest)
    (index : Nat) (conditions : Json) : Evaluated :=
  let faults := precheckConditions env.registries mode conditions
  if !faults.isEmpty then
    { reports := faults.map RuleFault.report, result := .ok .unevaluable }
  else match request.ctx, conditions with
    | none, _ => { reports := [], result := .ok .unsatisfied }
    | some ctx, .object fields => evaluateConditions (env.scope request index ctx) mode [] fields
    | some _, _ => { reports := [], result := .ok .unevaluable }

/-- `RuleMatch`. -/
inductive RuleMatch where
  | match_ | noMatch | unevaluable
  deriving DecidableEq, Repr

/-- The rule match a conditions outcome stands for. -/
def RuleMatch.ofOutcome : ConditionOutcome → RuleMatch
  | .satisfied => .match_
  | .unsatisfied => .noMatch
  | .unevaluable => .unevaluable

/-- `matches_rule` and `matches_rule_async`. -/
def matchesRuleIn (mode : CompoundMode) (env : CheckEnv) (request : AccessRequest) (index : Nat)
    (rule : ACLRule) : List Report × Except String RuleMatch :=
  let faults := precheckPatternFaults rule
  if !faults.isEmpty then (faults.map RuleFault.report, .ok .unevaluable)
  else if !rule.patternsMatch request then ([], .ok .noMatch)
  else match rule.conditions with
    | none => ([], .ok .match_)
    | some conditions =>
      let evaluated := checkConditionsIn mode env request index conditions
      (evaluated.reports, evaluated.result.map RuleMatch.ofOutcome)

/-- `UnevaluableResolution`. -/
inductive UnevaluableResolution where
  | takesEffect
  | stepsAside (pendingApproval : Bool)
  deriving DecidableEq, Repr

/-- `resolve_unevaluable_rule`. -/
def resolveUnevaluableRule (rule : ACLRule) : UnevaluableResolution :=
  if rule.effect = "deny" then .takesEffect else .stepsAside rule.approvalRequired

/-! ## Audit -/

/-- The `HandlerErrors` map after the reports of a check: one message a path, the last one wins. -/
def captured (reports : List Report) : List (String × String) :=
  reports.foldl (fun errors entry => Fields.insert entry.1 entry.2 errors) []

/-- `join_handler_errors`: in ascending path order. -/
def joinHandlerErrors (errors : List (String × String)) : Option String :=
  if errors.isEmpty then none else some ("; ".intercalate (errors.map (·.2)))

/-- `build_audit_entry`. -/
def buildAuditEntry (env : CheckEnv) (request : AccessRequest) (reports : List Report)
    (decision reason : String) (matchedRule : Option String) (matchedRuleIndex : Option Nat)
    (approvalRequired : Bool) : AuditEntry where
  timestamp := env.now
  callerId := request.caller
  targetId := request.targetId
  decision := decision
  reason := reason
  matchedRule := matchedRule
  matchedRuleIndex := matchedRuleIndex
  identityType := (request.ctx.bind (·.identity)).map (·.identityType)
  roles := ((request.ctx.bind (·.identity)).map (·.roles)).getD []
  callDepth := request.ctx.map (·.callChain.length)
  traceId := request.ctx.map (·.traceId)
  handlerError := joinHandlerErrors (captured reports)
  approvalRequired := approvalRequired

/-- `AuditSink::is_active`. -/
def AuditSink.isActive (sink : AuditSink) : Bool := sink.callback || sink.config.any (·.enabled)

/-- Where an entry goes: to the callback, or to the log at a level. -/
inductive Delivery where
  | callback (entry : AuditEntry)
  | log (level : String) (entry : AuditEntry)
  deriving DecidableEq, Repr

/-- The level `emit_default` logs at. -/
def emitLevel (logLevel : String) : String :=
  if logLevel = "trace" ∨ logLevel = "debug" then "DEBUG"
  else if logLevel = "warn" then "WARN"
  else if logLevel = "error" then "ERROR"
  else "INFO"

/-- `emit_audit` and `AuditSink::deliver`. -/
def AuditSink.emitAudit (sink : AuditSink) (entry : AuditEntry) : List Delivery :=
  if !sink.isActive then []
  else if sink.callback then [.callback entry]
  else match sink.config with
    | none => []
    | some config =>
      if !config.enabled ∨ (entry.decision = "deny" ∧ !config.includeDenied) then []
      else [.log (emitLevel config.logLevel) entry]

/-! ## The scan -/

/-- `finalize_no_rules`. -/
def finalizeNoRules (env : CheckEnv) (request : AccessRequest) (reports : List Report)
    (defaultEffect : String) : CheckRun where
  reports := reports
  audited := [buildAuditEntry env request reports defaultEffect "no_rules" none none false]
  decision := .ok
    { access := defaultEffect, approvalRequired := false, matchedRuleIndex := none
      reason := "no_rules" }

/-- `finalize_rule_match`. -/
def finalizeRuleMatch (env : CheckEnv) (request : AccessRequest) (reports : List Report)
    (index : Nat) (rule : ACLRule) (pendingApproval : Bool) : CheckRun :=
  let approvalRequired := rule.effect == "allow" && (rule.approvalRequired || pendingApproval)
  { reports
    audited := [buildAuditEntry env request reports rule.effect "rule_match" rule.description
      (some index) approvalRequired]
    decision := .ok
      { access := rule.effect, approvalRequired, matchedRuleIndex := some index
        reason := "rule_match" } }

/-- `finalize_default_effect`. -/
def finalizeDefaultEffect (env : CheckEnv) (request : AccessRequest) (reports : List Report)
    (defaultEffect : String) (pendingApproval : Bool) : CheckRun :=
  let approvalRequired := defaultEffect == "allow" && pendingApproval
  { reports
    audited := [buildAuditEntry env request reports defaultEffect "default_effect" none none
      approvalRequired]
    decision := .ok
      { access := defaultEffect, approvalRequired, matchedRuleIndex := none
        reason := "default_effect" } }

/-- The rule loop of `check_inner` and `async_check_inner`, from the given index on. -/
def scanRules (mode : CompoundMode) (env : CheckEnv) (request : AccessRequest)
    (defaultEffect : String) : Nat → List Report → Bool → List ACLRule → CheckRun
  | _, reports, pendingApproval, [] =>
    finalizeDefaultEffect env request reports defaultEffect pendingApproval
  | index, reports, pendingApproval, rule :: rest =>
    let matched := matchesRuleIn mode env request index rule
    let reports := reports ++ matched.1
    match matched.2 with
    | .error message => { reports, audited := [], decision := .error message }
    | .ok .match_ => finalizeRuleMatch env request reports index rule pendingApproval
    | .ok .unevaluable =>
      match resolveUnevaluableRule rule with
      | .takesEffect => finalizeRuleMatch env request reports index rule pendingApproval
      | .stepsAside pending =>
        scanRules mode env request defaultEffect (index + 1) reports (pendingApproval || pending)
          rest
    | .ok .noMatch =>
      scanRules mode env request defaultEffect (index + 1) reports pendingApproval rest

/-- `check_inner` and `async_check_inner`. -/
def ACL.checkInnerIn (mode : CompoundMode) (acl : ACL) (env : CheckEnv) (request : AccessRequest) :
    CheckRun :=
  if acl.rules.isEmpty then finalizeNoRules env request [] acl.defaultEffect
  else scanRules mode env request acl.defaultEffect 0 [] false acl.rules

/-- `ACL::check_access`. -/
def ACL.checkAccess (acl : ACL) (env : CheckEnv) (request : AccessRequest) : CheckRun :=
  acl.checkInnerIn .sync env request

/-- `ACL::async_check_access`. -/
def ACL.asyncCheckAccess (acl : ACL) (env : CheckEnv) (request : AccessRequest) : CheckRun :=
  acl.checkInnerIn .async env request

/-- `ACL::check`: the boolean of a check with no projection. -/
def ACL.check (acl : ACL) (env : CheckEnv) (callerId : Option String) (targetId : String)
    (ctx : Option Context) : Except String Bool :=
  (acl.checkAccess env { callerId, targetId, ctx, projection := none }).decision.map
    fun decision => decision.isAllowed && !decision.approvalRequired

end Apcore
