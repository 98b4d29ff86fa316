import Apcore.Acl.Semantics

/-! # `Acl.Reference` — the declarative first-match semantics

A rule has a truth value for a request; a rule takes effect when it holds, or when it denies and
gives no answer; the first rule to take effect decides. An `allow` rule that gives no answer leaves
its approval requirement behind, for whatever allows later. The scan of `check_access` computes
this (`checkAccess_reference`). -/

namespace Apcore

open Kleene (Truth)

variable {mode : CompoundMode} {env : CheckEnv}

/-! ## The truth value of a rule -/

/-- The truth value of a rule's conditions. -/
def conditionsTruth (mode : CompoundMode) (env : CheckEnv) (request : AccessRequest) (index : Nat)
    (conditions : Json) : Truth :=
  if !(precheckConditions env.registries mode conditions).isEmpty then none
  else match request.ctx, conditions with
    | none, _ => some false
    | some ctx, .object fields =>
      Kleene.all (truthOfFields (env.registries.compound mode)
        (leafTruth (env.scope request index ctx) mode) [] fields)
    | some _, _ => none

/-- The truth value of a rule: no answer when its scope cannot be read, false outside its scope. -/
def ruleTruth (mode : CompoundMode) (env : CheckEnv) (request : AccessRequest) (index : Nat)
    (rule : ACLRule) : Truth :=
  if !(precheckPatternFaults rule).isEmpty then none
  else if !rule.patternsMatch request then some false
  else match rule.conditions with
    | none => some true
    | some conditions => conditionsTruth mode env request index conditions

/-- The match a truth value stands for. -/
def RuleMatch.ofTruth : Truth → RuleMatch
  | some true => .match_
  | some false => .noMatch
  | none => .unevaluable

theorem RuleMatch.ofOutcome_eq (outcome : ConditionOutcome) :
    ofOutcome outcome = ofTruth outcome.answer := by
  cases outcome <;> rfl

/-- The evaluation of a rule's conditions computes their truth value. -/
theorem checkConditionsIn_truth (request : AccessRequest) (hc : env.registries.Contained mode) (index : Nat)
    (conditions : Json) : ∃ outcome,
      (checkConditionsIn mode env request index conditions).result = .ok outcome ∧
        outcome.answer = conditionsTruth mode env request index conditions := by
  unfold checkConditionsIn conditionsTruth
  simp only
  split
  · exact ⟨.unevaluable, rfl, rfl⟩
  · cases hctx : request.ctx with
    | none => exact ⟨.unsatisfied, rfl, rfl⟩
    | some ctx =>
      cases conditions with
      | object fields =>
        obtain ⟨⟨outcome, hok⟩, htruth⟩ :=
          evaluateConditions_truth (env.scope request index ctx) hc [] fields
        rw [Evaluated.truth, hok] at htruth
        exact ⟨outcome, hok, htruth⟩
      | _ => exact ⟨.unevaluable, rfl, rfl⟩

/-- **Matching a rule computes its truth value.** -/
theorem matchesRuleIn_truth (request : AccessRequest) (hc : env.registries.Contained mode) (index : Nat) (rule : ACLRule) :
    (matchesRuleIn mode env request index rule).2 =
      .ok (RuleMatch.ofTruth (ruleTruth mode env request index rule)) := by
  unfold matchesRuleIn ruleTruth
  simp only
  split
  · rfl
  · split
    · rfl
    · cases rule.conditions with
      | none => rfl
      | some conditions =>
        obtain ⟨outcome, hok, htruth⟩ := checkConditionsIn_truth request hc index conditions
        simp only [hok, ← htruth, ← RuleMatch.ofOutcome_eq, Except.map]

/-! ## The rule loop is the scan of a decision list -/

/-- What a rule says about the request. -/
def judge (mode : CompoundMode) (env : CheckEnv) (request : AccessRequest) (index : Nat)
    (rule : ACLRule) : DecisionList.Verdict ACLRule :=
  match ruleTruth mode env request index rule with
  | some true => .decide rule
  | some false => .pass false
  | none => if rule.effect = "deny" then .decide rule else .pass rule.approvalRequired

/-- How the loop ends on the result of the scan. -/
def finalize (env : CheckEnv) (request : AccessRequest) (defaultEffect : String)
    (reports : List Report) : Option (Nat × ACLRule) × Bool → CheckRun
  | (some (index, rule), pending) => finalizeRuleMatch env request reports index rule pending
  | (none, pending) => finalizeDefaultEffect env request reports defaultEffect pending

/-- **The rule loop is the scan.** -/
theorem scanRules_eq_finalize (request : AccessRequest) (hc : env.registries.Contained mode) (defaultEffect : String)
    (index : Nat) (reports : List Report) (pending : Bool) (rules : List ACLRule) :
    ∃ reports', scanRules mode env request defaultEffect index reports pending rules =
      finalize env request defaultEffect reports'
        (DecisionList.scan (judge mode env request) index pending rules) := by
  induction rules generalizing index reports pending with
  | nil => exact ⟨reports, rfl⟩
  | cons rule rest ih =>
    have hmatch := matchesRuleIn_truth request hc index rule
    simp only [scanRules, DecisionList.scan, judge, hmatch]
    cases ruleTruth mode env request index rule with
    | none =>
      simp only [RuleMatch.ofTruth, resolveUnevaluableRule]
      by_cases hdeny : rule.effect = "deny"
      · simp only [if_pos hdeny]
        exact ⟨_, rfl⟩
      · simp only [if_neg hdeny]
        exact ih _ _ _
    | some b =>
      cases b with
      | true => exact ⟨_, rfl⟩
      | false =>
        simp only [RuleMatch.ofTruth, Bool.or_false]
        exact ih _ _ _

/-! ## First match, by positions -/

/-- A rule takes effect when it holds, or when it denies and gives no answer. -/
def TakesEffect (mode : CompoundMode) (env : CheckEnv) (request : AccessRequest) (index : Nat)
    (rule : ACLRule) : Prop :=
  ruleTruth mode env request index rule = some true ∨
    ruleTruth mode env request index rule = none ∧ rule.effect = "deny"

/-- A rule leaves its approval requirement pending: it allows, requires approval, and gives no
answer. -/
def LeavesPending (mode : CompoundMode) (env : CheckEnv) (request : AccessRequest) (index : Nat)
    (rule : ACLRule) : Prop :=
  ruleTruth mode env request index rule = none ∧ rule.effect = "allow" ∧
    rule.approval = some .required

/-- Some rule before position `n` left its approval requirement pending. -/
def PendingBefore (mode : CompoundMode) (env : CheckEnv) (request : AccessRequest)
    (rules : List ACLRule) (n : Nat) : Prop :=
  ∃ j < n, ∃ rule, rules[j]? = some rule ∧ LeavesPending mode env request j rule

/-- The declarative semantics of a check. -/
inductive ReferenceDecision (mode : CompoundMode) (env : CheckEnv) (request : AccessRequest)
    (rules : List ACLRule) (defaultEffect : String) : AccessDecision → Prop where
  /-- No rules: the default effect, and nothing to be pending. -/
  | noRules (h : rules = []) :
    ReferenceDecision mode env request rules defaultEffect
      { access := defaultEffect, approvalRequired := false, matchedRuleIndex := none
        reason := "no_rules" }
  /-- The first rule to take effect decides; an allowing one carries its own requirement and any
  pending one. -/
  | ruleMatch (k : Nat) (rule : ACLRule) (approval : Bool) (hk : rules[k]? = some rule)
      (heffect : TakesEffect mode env request k rule)
      (hfirst : ∀ j < k, ∀ earlier, rules[j]? = some earlier →
        ¬ TakesEffect mode env request j earlier)
      (happroval : approval = true ↔ rule.effect = "allow" ∧
        (rule.approval = some .required ∨ PendingBefore mode env request rules k)) :
    ReferenceDecision mode env request rules defaultEffect
      { access := rule.effect, approvalRequired := approval, matchedRuleIndex := some k
        reason := "rule_match" }
  /-- No rule takes effect: the default decides, and carries a pending requirement if it allows. -/
  | default (approval : Bool) (hne : rules ≠ [])
      (hnone : ∀ j rule, rules[j]? = some rule → ¬ TakesEffect mode env request j rule)
      (happroval : approval = true ↔
        defaultEffect = "allow" ∧ PendingBefore mode env request rules rules.length) :
    ReferenceDecision mode env request rules defaultEffect
      { access := defaultEffect, approvalRequired := approval, matchedRuleIndex := none
        reason := "default_effect" }

theorem approvalRequired_eq_true {rule : ACLRule} :
    rule.approvalRequired = true ↔ rule.effect = "allow" ∧ rule.approval = some .required := by
  simp [ACLRule.approvalRequired]

theorem judge_decide_iff {request : AccessRequest} {index : Nat} {rule decided : ACLRule} :
    judge mode env request index rule = .decide decided ↔
      TakesEffect mode env request index rule ∧ decided = rule := by
  unfold judge TakesEffect
  cases ruleTruth mode env request index rule with
  | none => by_cases h : rule.effect = "deny" <;> simp [h, eq_comm]
  | some b => cases b <;> simp [eq_comm]

theorem judge_pass_iff {request : AccessRequest} {index : Nat} {rule : ACLRule} :
    (∃ raise, judge mode env request index rule = .pass raise) ↔
      ¬ TakesEffect mode env request index rule := by
  unfold judge TakesEffect
  cases ruleTruth mode env request index rule with
  | none => by_cases h : rule.effect = "deny" <;> simp [h]
  | some b => cases b <;> simp

theorem judge_pass_true_iff {request : AccessRequest} {index : Nat} {rule : ACLRule} :
    judge mode env request index rule = .pass true ↔ LeavesPending mode env request index rule := by
  unfold judge LeavesPending
  cases ruleTruth mode env request index rule with
  | none =>
    by_cases h : rule.effect = "deny"
    · simp [h]
    · simp [h, approvalRequired_eq_true]
  | some b => cases b <;> simp

theorem raised_iff_pendingBefore {request : AccessRequest} {rules : List ACLRule} {n : Nat} :
    DecisionList.Raised (judge mode env request) 0 rules n ↔
      PendingBefore mode env request rules n := by
  simp only [DecisionList.Raised, PendingBefore, Nat.zero_add, judge_pass_true_iff]

/-- Each result of the scan is the reference decision. -/
theorem finalize_reference {request : AccessRequest} {rules : List ACLRule} (hne : rules ≠ []) (defaultEffect : String)
    (reports : List Report) : ∃ decision,
      (finalize env request defaultEffect reports
        (DecisionList.scan (judge mode env request) 0 false rules)).decision = .ok decision ∧
      ReferenceDecision mode env request rules defaultEffect decision := by
  rcases DecisionList.scan_cases (judge mode env request) 0 false rules with
    ⟨k, rule, flag, hscan, ⟨⟨y, hy, hdec⟩, hpass⟩, hflag⟩ | ⟨flag, hscan, hpass, hflag⟩
  · rw [Nat.zero_add] at hdec hscan
    obtain ⟨heffect, rfl⟩ := judge_decide_iff.mp hdec
    refine ⟨_, by rw [hscan]; rfl, .ruleMatch k rule _ hy heffect ?_ ?_⟩
    · intro j hj earlier hearlier
      obtain ⟨x, raise, hx, hraise⟩ := hpass j hj
      obtain rfl : x = earlier := Option.some.inj (hx.symm.trans hearlier)
      exact judge_pass_iff.mp ⟨raise, by simpa using hraise⟩
    · rw [← raised_iff_pendingBefore]
      simp only [Bool.and_eq_true, beq_iff_eq, Bool.or_eq_true, approvalRequired_eq_true, hflag,
        Bool.false_eq_true, false_or]
      tauto
  · refine ⟨_, by rw [hscan]; rfl, .default _ hne ?_ ?_⟩
    · intro j rule hrule
      have hj : j < rules.length := by
        by_contra hge
        rw [List.getElem?_eq_none (by omega)] at hrule
        cases hrule
      obtain ⟨x, raise, hx, hraise⟩ := hpass j hj
      obtain rfl : x = rule := Option.some.inj (hx.symm.trans hrule)
      exact judge_pass_iff.mp ⟨raise, by simpa using hraise⟩
    · rw [← raised_iff_pendingBefore]
      simp only [Bool.and_eq_true, beq_iff_eq, hflag, Bool.false_eq_true, false_or]

/-- The reference decision is unique. -/
theorem ReferenceDecision.unique {request : AccessRequest} {rules : List ACLRule} {defaultEffect : String}
    {d₁ d₂ : AccessDecision} (h₁ : ReferenceDecision mode env request rules defaultEffect d₁)
    (h₂ : ReferenceDecision mode env request rules defaultEffect d₂) : d₁ = d₂ := by
  cases h₁ with
  | noRules h =>
    cases h₂ with
    | noRules _ => rfl
    | ruleMatch k rule _ hk => simp [h] at hk
    | default _ hne => exact absurd h hne
  | ruleMatch k₁ rule₁ a₁ hk₁ heffect₁ hfirst₁ ha₁ =>
    cases h₂ with
    | noRules h => simp [h] at hk₁
    | ruleMatch k₂ rule₂ a₂ hk₂ heffect₂ hfirst₂ ha₂ =>
      -- an earlier deciding rule would be a rule that takes effect before the first one
      rcases Nat.lt_trichotomy k₁ k₂ with hlt | rfl | hgt
      · exact absurd heffect₁ (hfirst₂ k₁ hlt rule₁ hk₁)
      · obtain rfl : rule₁ = rule₂ := Option.some.inj (hk₁.symm.trans hk₂)
        obtain rfl : a₁ = a₂ := Bool.eq_iff_iff.mpr (ha₁.trans ha₂.symm)
        rfl
      · exact absurd heffect₂ (hfirst₁ k₂ hgt rule₂ hk₂)
    | default _ _ hnone => exact absurd heffect₁ (hnone k₁ rule₁ hk₁)
  | default a₁ hne₁ hnone₁ ha₁ =>
    cases h₂ with
    | noRules h => exact absurd h hne₁
    | ruleMatch k rule _ hk heffect => exact absurd heffect (hnone₁ k rule hk)
    | default a₂ _ _ ha₂ =>
      obtain rfl : a₁ = a₂ := Bool.eq_iff_iff.mpr (ha₁.trans ha₂.symm)
      rfl

/-! ## The audit entry -/

/-- An audit entry records a decision: every field is the decision's, the deciding rule's, or the
request's, and the handler error is what the check captured. -/
structure AuditEntry.Records (acl : ACL) (env : CheckEnv) (request : AccessRequest)
    (reports : List Report) (decision : AccessDecision) (entry : AuditEntry) : Prop where
  decision_eq : entry.decision = decision.access
  reason_eq : entry.reason = decision.reason
  matchedRuleIndex_eq : entry.matchedRuleIndex = decision.matchedRuleIndex
  approvalRequired_eq : entry.approvalRequired = decision.approvalRequired
  matchedRule_eq : entry.matchedRule =
    (decision.matchedRuleIndex.bind (acl.rules[·]?)).bind (·.description)
  callerId_eq : entry.callerId = request.callerId.getD "@external"
  targetId_eq : entry.targetId = request.targetId
  identityType_eq : entry.identityType = (request.ctx.bind (·.identity)).map (·.identityType)
  roles_eq : entry.roles = ((request.ctx.bind (·.identity)).map (·.roles)).getD []
  callDepth_eq : entry.callDepth = request.ctx.map (·.callChain.length)
  traceId_eq : entry.traceId = request.ctx.map (·.traceId)
  handlerError_eq : entry.handlerError = joinHandlerErrors (captured reports)
  timestamp_eq : entry.timestamp = env.now

/-- The entry a decision is audited with records it. -/
theorem buildAuditEntry_records {request : AccessRequest} {acl : ACL} {reports : List Report} {decision : AccessDecision}
    {matchedRule : Option String}
    (h : matchedRule = (decision.matchedRuleIndex.bind (acl.rules[·]?)).bind (·.description)) :
    AuditEntry.Records acl env request reports decision
      (buildAuditEntry env request reports decision.access decision.reason matchedRule
        decision.matchedRuleIndex decision.approvalRequired) where
  decision_eq := rfl
  reason_eq := rfl
  matchedRuleIndex_eq := rfl
  approvalRequired_eq := rfl
  matchedRule_eq := h
  callerId_eq := rfl
  targetId_eq := rfl
  identityType_eq := rfl
  roles_eq := rfl
  callDepth_eq := rfl
  traceId_eq := rfl
  handlerError_eq := rfl
  timestamp_eq := rfl

/-- A run that decided: its one audit entry records its decision. -/
def CheckRun.AuditsOnce (acl : ACL) (env : CheckEnv) (request : AccessRequest) (run : CheckRun) :
    Prop :=
  ∃ decision entry, run.decision = .ok decision ∧ run.audited = [entry] ∧
    entry.Records acl env request run.reports decision

theorem finalize_auditsOnce {request : AccessRequest} {acl : ACL} (defaultEffect : String) (reports : List Report) :
    (finalize env request defaultEffect reports
      (DecisionList.scan (judge mode env request) 0 false acl.rules)).AuditsOnce acl env request := by
  rcases DecisionList.scan_cases (judge mode env request) 0 false acl.rules with
    ⟨k, rule, flag, hscan, ⟨⟨y, hy, hdec⟩, _⟩, _⟩ | ⟨flag, hscan, _, _⟩
  · rw [Nat.zero_add] at hdec hscan
    obtain ⟨_, rfl⟩ := judge_decide_iff.mp hdec
    rw [hscan]
    exact ⟨_, _, rfl, rfl, buildAuditEntry_records (by simp [hy])⟩
  · rw [hscan]
    exact ⟨_, _, rfl, rfl, buildAuditEntry_records rfl⟩

/-- The check of either path: its decision is the reference one, and it is audited once. -/
theorem checkInnerIn_reference (acl : ACL) (request : AccessRequest)
    (hc : env.registries.Contained mode) :
    (∃ decision, (acl.checkInnerIn mode env request).decision = .ok decision ∧
      ReferenceDecision mode env request acl.rules acl.defaultEffect decision) ∧
    (acl.checkInnerIn mode env request).AuditsOnce acl env request := by
  unfold ACL.checkInnerIn
  cases hrules : acl.rules with
  | nil =>
    exact ⟨⟨_, rfl, .noRules rfl⟩, ⟨_, _, rfl, rfl, buildAuditEntry_records rfl⟩⟩
  | cons rule rest =>
    have hne : acl.rules ≠ [] := by simp [hrules]
    rw [if_neg (by simp), ← hrules]
    obtain ⟨reports, hscan⟩ := scanRules_eq_finalize request hc acl.defaultEffect 0 [] false acl.rules
    rw [hscan]
    exact ⟨finalize_reference hne _ reports, finalize_auditsOnce _ reports⟩

/-- The sync check always returns a decision. -/
theorem checkAccess_decides (acl : ACL) (env : CheckEnv) (request : AccessRequest) :
    ∃ decision, (acl.checkAccess env request).decision = .ok decision :=
  let ⟨⟨decision, h, _⟩, _⟩ := checkInnerIn_reference acl request env.registries.contained_sync
  ⟨decision, h⟩

/-- An approval requirement comes with an allowing decision only. -/
theorem ReferenceDecision.approval_allow {request : AccessRequest} {rules : List ACLRule} {defaultEffect : String}
    {decision : AccessDecision}
    (h : ReferenceDecision mode env request rules defaultEffect decision)
    (happroval : decision.approvalRequired = true) : decision.access = "allow" := by
  cases h with
  | noRules _ => cases happroval
  | ruleMatch k rule approval _ _ _ ha => exact (ha.mp happroval).1
  | default approval _ _ ha => exact (ha.mp happroval).1

/-- A callback receives the entry, and nothing else. -/
theorem emitAudit_callback {sink : AuditSink} (h : sink.callback = true) (entry : AuditEntry) :
    sink.emitAudit entry = [.callback entry] := by
  simp [AuditSink.emitAudit, AuditSink.isActive, h]

/-- **A check is the reference semantics.** `check_access` returns the one decision of the
declarative first-match semantics, requires approval only where it allows, emits one audit entry
that agrees with the decision on every field, and `check` is true exactly on an allow that needs no
approval. -/
theorem checkAccess_reference (acl : ACL) (env : CheckEnv) (request : AccessRequest) :
    (∃ decision entry,
      (acl.checkAccess env request).decision = .ok decision ∧
      ReferenceDecision .sync env request acl.rules acl.defaultEffect decision ∧
      (∀ other, ReferenceDecision .sync env request acl.rules acl.defaultEffect other →
        other = decision) ∧
      (decision.approvalRequired = true → decision.access = "allow") ∧
      (acl.checkAccess env request).audited = [entry] ∧
      entry.Records acl env request (acl.checkAccess env request).reports decision ∧
      (acl.auditSink.callback = true → acl.auditSink.emitAudit entry = [.callback entry])) ∧
    ∀ callerId targetId ctx, acl.check env callerId targetId ctx = .ok true ↔
      ∃ decision, (acl.checkAccess env { callerId, targetId, ctx, projection := none }).decision =
        .ok decision ∧ decision.access = "allow" ∧ decision.approvalRequired = false := by
  constructor
  · obtain ⟨⟨decision, hdecision, href⟩, decision', entry, hdecision', haudited, hrecords⟩ :=
      checkInnerIn_reference acl request env.registries.contained_sync
    obtain rfl : decision' = decision := Except.ok.inj (hdecision'.symm.trans hdecision)
    exact ⟨decision', entry, hdecision, href, fun other hother => hother.unique href,
      href.approval_allow, haudited, hrecords, fun h => emitAudit_callback h entry⟩
  · intro callerId targetId ctx
    obtain ⟨⟨decision, hdecision, -⟩, -⟩ := checkInnerIn_reference acl
      { callerId, targetId, ctx, projection := none } env.registries.contained_sync
    rw [ACL.check, ACL.checkAccess, hdecision]
    simp [Except.map, AccessDecision.isAllowed]

end Apcore
