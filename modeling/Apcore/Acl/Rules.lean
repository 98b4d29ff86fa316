import Apcore.Acl.Precheck
import Apcore.Errors
import Apcore.Utils

/-! # `Acl.Rules` — rules, access lists and the first-match scan

An `ACL` can only be built through `ACL.tryNew`, so it carries the fact that each of its rules
passed `validateRule`. A check scans the rules in order, carries the pending approval requirement
of unevaluable `allow` rules, and emits one audit entry where it decides. -/

namespace Apcore

/-- `ApprovalRequirement`. -/
inductive ApprovalRequirement where
  | notRequired | required
  deriving DecidableEq, Repr

/-- `ACLRule`. -/
structure ACLRule where
  callers : List String
  targets : List String
  effect : String
  approval : Option ApprovalRequirement
  description : Option String
  conditions : Option Json
  deriving Repr

/-- `ACLRule::approval_required`. -/
def ACLRule.approvalRequired (rule : ACLRule) : Bool :=
  rule.effect == "allow" && rule.approval == some .required

/-- `EXTERNAL_CALLER`. -/
def externalCaller : String := "@external"

/-- `EFFECTS`. -/
def effects : List String := ["allow", "deny"]

theorem deny_mem_effects : "deny" ∈ effects := List.mem_cons_of_mem _ List.mem_cons_self

/-- `precheck_pattern_faults`: both fields are always examined. -/
def precheckPatternFaults (rule : ACLRule) : List RuleFault :=
  [("callers", rule.callers), ("targets", rule.targets)].filterMap fun entry =>
    (patternShapeFault entry.1 entry.2).map (patternRuleFault entry.1)

/-- `ACL::validate_rule`. -/
def validateRule (index : Nat) (rule : ACLRule) : Except ModuleError Unit :=
  if !effects.contains rule.effect then
    .error (.new .aclRuleError ("Rule " ++ toString index ++ " has invalid effect '" ++
      rule.effect ++ "', must be 'allow' or 'deny'"))
  else if rule.effect = "deny" ∧ rule.approval = some .required then
    .error (.new .aclRuleError ("Rule " ++ toString index ++
      " carries 'approval: required' on a 'deny' rule. " ++
      "Authorization and approval are two independent results " ++
      "(PROTOCOL_SPEC §6.1.6): a refusal is not a question, so the " ++
      "combination has no meaning. Use 'effect: allow' with " ++
      "'approval: required' to ask a human, or drop the 'approval' key " ++
      "to refuse outright."))
  else match precheckPatternFaults rule with
    | fault :: _ => .error (.new .aclRuleError ("Rule " ++ toString index ++ ": " ++ fault.reason))
    | [] => .ok ()

/-- `AuditConfig`. -/
structure AuditConfig where
  enabled : Bool
  includeDenied : Bool
  logLevel : String
  deriving Repr

/-- `AuditSink`: whether a callback is installed, and the `audit:` block. -/
structure AuditSink where
  callback : Bool
  config : Option AuditConfig
  deriving Repr

/-- An access control list whose effects and rules went through the constructor's validation. -/
structure ACL where
  rules : List ACLRule
  defaultEffect : String
  auditSink : AuditSink
  default_valid : defaultEffect ∈ effects
  rules_valid : ∀ rule ∈ rules, ∃ index, validateRule index rule = .ok ()

/-- An access list that denies every call. -/
def ACL.denyAll : ACL where
  rules := []
  defaultEffect := "deny"
  auditSink := { callback := false, config := none }
  default_valid := deny_mem_effects
  rules_valid := List.forall_mem_nil _

/-- The validation loop of `ACL::try_new`, from the given index on. -/
def validateRules : Nat → List ACLRule → Except ModuleError Unit
  | _, [] => .ok ()
  | index, rule :: rest =>
    match validateRule index rule with
    | .error e => .error e
    | .ok () => validateRules (index + 1) rest

theorem validateRules_ok {index : Nat} {rules : List ACLRule}
    (h : validateRules index rules = .ok ()) :
    ∀ rule ∈ rules, ∃ index, validateRule index rule = .ok () := by
  induction rules generalizing index with
  | nil => simp
  | cons rule rest ih =>
    rw [validateRules] at h
    split at h
    · cases h
    · next hrule => exact List.forall_mem_cons.mpr ⟨⟨index, hrule⟩, ih h⟩

/-- `ACL::try_new`. -/
def ACL.tryNew (rules : List ACLRule) (defaultEffect : String) (callback : Bool) :
    Except ModuleError ACL :=
  if hdefault : defaultEffect ∈ effects then
    match hrules : validateRules 0 rules with
    | .error e => .error e
    | .ok () => .ok
      { rules, defaultEffect, auditSink := { callback, config := none }
        default_valid := hdefault, rules_valid := validateRules_ok hrules }
  else .error (.new .aclRuleError ("Invalid default_effect '" ++ defaultEffect ++
    "': must be 'allow' or 'deny'"))

/-- A validated rule allows or denies, a denying one asks for no approval, and its pattern arrays
have a legal shape. -/
theorem validateRule_ok {index : Nat} {rule : ACLRule} (h : validateRule index rule = .ok ()) :
    (rule.effect = "allow" ∨ rule.effect = "deny" ∧ rule.approval ≠ some .required) ∧
      precheckPatternFaults rule = [] := by
  unfold validateRule at h
  split at h
  · cases h
  · next heffect =>
    split at h
    · cases h
    · next hdeny =>
      split at h
      · cases h
      · next hfaults =>
        refine ⟨?_, hfaults⟩
        have hmem : rule.effect = "allow" ∨ rule.effect = "deny" := by
          simpa [effects, or_iff_not_imp_left] using heffect
        exact hmem.imp_right fun hd => ⟨hd, fun happroval => hdeny ⟨hd, happroval⟩⟩

namespace ACL

/-- Each rule of an access list either allows or denies. -/
theorem effect_cases (acl : ACL) {rule : ACLRule} (h : rule ∈ acl.rules) :
    rule.effect = "allow" ∨ rule.effect = "deny" := by
  obtain ⟨index, hvalid⟩ := acl.rules_valid rule h
  exact (validateRule_ok hvalid).1.imp_right And.left

/-- The patterns of a rule of an access list are readable. -/
theorem pattern_faults (acl : ACL) {rule : ACLRule} (h : rule ∈ acl.rules) :
    precheckPatternFaults rule = [] := by
  obtain ⟨index, hvalid⟩ := acl.rules_valid rule h
  exact (validateRule_ok hvalid).2

end ACL

end Apcore
