import Apcore.Acl.Reference
import Mathlib.Order.Lattice

/-! # `Acl.Monotone` — withholding answers never widens access

A check is compared with the same check when some leaf conditions give no answer. Each rule's truth
value then only loses information, and a rule that loses its answer never does more for the caller:
a deny rule denies, an allow rule steps aside and leaves its approval requirement behind. -/

namespace Apcore

open Kleene (Truth)

/-- What a decision permits, in increasing order. -/
inductive Permission where
  | deny | ask | allow
  deriving DecidableEq, Repr

namespace Permission

def rank : Permission → Nat
  | deny => 0
  | ask => 1
  | allow => 2

instance : LinearOrder Permission :=
  LinearOrder.lift' rank fun a b h => by cases a <;> cases b <;> first | rfl | cases h

/-- The permission of an effect with an approval requirement. -/
def ofEffect (effect : String) (approvalRequired : Bool) : Permission :=
  if effect = "allow" then (if approvalRequired then ask else allow) else deny

/-- A pending requirement asks where there would have been an allow. -/
def capped (pending : Bool) (p : Permission) : Permission := if pending then min p ask else p

theorem deny_le (p : Permission) : deny ≤ p := by cases p <;> decide

theorem le_allow (p : Permission) : p ≤ allow := by cases p <;> decide

theorem capped_le (pending : Bool) (p : Permission) : capped pending p ≤ p := by
  cases pending
  · exact le_refl p
  · exact min_le_left p ask

theorem capped_mono (pending : Bool) {p q : Permission} (h : p ≤ q) :
    capped pending p ≤ capped pending q := by
  cases pending
  · exact h
  · exact min_le_min_right ask h

theorem capped_or (f g : Bool) (p : Permission) :
    capped (f || g) p = capped f (capped g p) := by
  cases f <;> cases g <;> cases p <;> decide

/-- Capping is what adding a pending requirement to an allow does. -/
theorem capped_ofEffect (effect : String) (own pending : Bool) :
    capped pending (ofEffect effect own) =
      ofEffect effect (effect == "allow" && (own || pending)) := by
  by_cases h : effect = "allow"
  · cases own <;> cases pending <;> simp [ofEffect, capped, h]
    all_goals decide
  · cases pending <;> simp [ofEffect, capped, h]
    decide

end Permission

/-- What an access decision permits. -/
def AccessDecision.permission (decision : AccessDecision) : Permission :=
  .ofEffect decision.access decision.approvalRequired

/-! ## Two checks, one of which withholds answers -/

/-- `env₂` is `env₁` with any set of leaf answers replaced by no answer: the compound operators are
the same, and a leaf that has an answer in `env₂` has the same one in `env₁`. -/
structure Withholds (mode : CompoundMode) (env₁ env₂ : CheckEnv) (request : AccessRequest) :
    Prop where
  compound : ∀ key, env₂.registries.compound mode key = env₁.registries.compound mode key
  resolvable : ∀ key, env₂.registries.isResolvable mode key = true →
    env₁.registries.isResolvable mode key = true
  leaf : ∀ rule ctx segments key value, request.ctx = some ctx →
    env₁.registries.compound mode key = none →
      Kleene.Approx (leafTruth (env₂.scope request rule ctx) mode segments key value)
        (leafTruth (env₁.scope request rule ctx) mode segments key value)

variable {mode : CompoundMode} {env₁ env₂ : CheckEnv} {request : AccessRequest}

/-- Withholding leaf answers only withholds answers of a rule's conditions. -/
theorem conditionsTruth_approx (h : Withholds mode env₁ env₂ request) (index : Nat)
    (conditions : Json) :
    Kleene.Approx (conditionsTruth mode env₂ request index conditions)
      (conditionsTruth mode env₁ request index conditions) := by
  unfold conditionsTruth
  by_cases hfaults : precheckConditions env₂.registries mode conditions = []
  · have hfaults₁ : precheckConditions env₁.registries mode conditions = [] :=
      precheckConditions_eq_nil.mpr (collectConditionFaults_nil_of_nil h.resolvable "" "" conditions
        (precheckConditions_eq_nil.mp hfaults))
    rw [hfaults, hfaults₁]
    cases hctx : request.ctx with
    | none => exact Kleene.Approx.refl _
    | some ctx =>
      cases conditions with
      | object fields =>
        rw [funext h.compound]
        exact Kleene.Approx.all (truthOfFields_approx
          (fun segments key value => h.leaf index ctx segments key value hctx) [] fields)
      | _ => exact Kleene.Approx.refl _
  · rw [if_pos (by simpa using hfaults)]
    exact Kleene.Approx.none _

/-- Withholding leaf answers only withholds the answer of a rule. -/
theorem ruleTruth_approx (h : Withholds mode env₁ env₂ request) (index : Nat) (rule : ACLRule) :
    Kleene.Approx (ruleTruth mode env₂ request index rule)
      (ruleTruth mode env₁ request index rule) := by
  unfold ruleTruth
  split
  · exact Kleene.Approx.refl _
  · split
    · exact Kleene.Approx.refl _
    · cases rule.conditions with
      | none => exact Kleene.Approx.refl _
      | some conditions => exact conditionsTruth_approx h index conditions

/-! ## The permission of a check -/

/-- What a rule that takes effect permits. -/
def ACLRule.grant (rule : ACLRule) : Permission := .ofEffect rule.effect rule.approvalRequired

/-- The value of a rule list: the decision list over what its rules grant. -/
def rulesPermission (mode : CompoundMode) (env : CheckEnv) (request : AccessRequest)
    (rules : List ACLRule) (defaultEffect : String) : Permission :=
  DecisionList.denote (judge mode env request) ACLRule.grant Permission.capped
    (.ofEffect defaultEffect false) 0 rules

/-- How the loop ends, as a permission. -/
theorem finalize_permission (request : AccessRequest) (env : CheckEnv) (defaultEffect : String) (reports : List Report)
    (result : Option (Nat × ACLRule) × Bool) : ∃ decision,
      (finalize env request defaultEffect reports result).decision = .ok decision ∧
        decision.permission = DecisionList.resultValue ACLRule.grant Permission.capped
          (.ofEffect defaultEffect false) result := by
  obtain ⟨_ | ⟨index, rule⟩, pending⟩ := result
  · exact ⟨_, rfl, by rw [DecisionList.resultValue, Permission.capped_ofEffect]; rfl⟩
  · exact ⟨_, rfl, by rw [DecisionList.resultValue, ACLRule.grant, Permission.capped_ofEffect]; rfl⟩

/-- **A check permits what its rule list denotes.** -/
theorem checkInnerIn_permission {env : CheckEnv} (acl : ACL) (request : AccessRequest)
    (hc : env.registries.Contained mode) : ∃ decision,
      (acl.checkInnerIn mode env request).decision = .ok decision ∧
        decision.permission = rulesPermission mode env request acl.rules acl.defaultEffect := by
  unfold ACL.checkInnerIn
  cases hrules : acl.rules with
  | nil => exact ⟨_, rfl, rfl⟩
  | cons rule rest =>
    rw [if_neg (by simp), ← hrules]
    obtain ⟨reports, hscan⟩ := scanRules_eq_finalize request hc acl.defaultEffect 0 [] false acl.rules
    obtain ⟨decision, hdecision, hvalue⟩ := finalize_permission request env
      acl.defaultEffect reports (DecisionList.scan (judge mode env request) 0 false acl.rules)
    refine ⟨decision, by rw [hscan, hdecision], ?_⟩
    rw [hvalue, DecisionList.resultValue_scan Permission.capped_or]
    rfl

/-- A rule whose answer is withheld does no more for the caller, whatever follows it. -/
theorem judge_act_le (h : Withholds mode env₁ env₂ request) {index : Nat} {rule : ACLRule}
    (hvalid : rule.effect = "allow" ∨ rule.effect = "deny") {p q : Permission} (hpq : p ≤ q) :
    (judge mode env₂ request index rule).act ACLRule.grant Permission.capped p ≤
      (judge mode env₁ request index rule).act ACLRule.grant Permission.capped q := by
  rcases ruleTruth_approx h index rule with hnone | heq
  · rcases hvalid with hallow | hdeny
    · -- the allow rule steps aside, and leaves its requirement behind
      have hjudge : judge mode env₂ request index rule = .pass rule.approvalRequired := by
        simp [judge, hnone, hallow]
      rw [hjudge]
      have hpass : Permission.capped rule.approvalRequired p ≤ q :=
        (Permission.capped_le _ p).trans hpq
      unfold judge
      cases ruleTruth mode env₁ request index rule with
      | none =>
        rw [if_neg (by simp [hallow])]
        exact Permission.capped_mono _ hpq
      | some b =>
        cases b with
        | false => exact hpass
        | true =>
          show Permission.capped rule.approvalRequired p ≤ rule.grant
          rw [ACLRule.grant, Permission.ofEffect, if_pos hallow]
          cases rule.approvalRequired
          · exact Permission.le_allow _
          · exact min_le_right p .ask
    · -- the deny rule takes effect
      have hjudge : judge mode env₂ request index rule = .decide rule := by
        simp [judge, hnone, hdeny]
      rw [hjudge]
      show rule.grant ≤ _
      rw [ACLRule.grant, Permission.ofEffect, if_neg (by simp [hdeny])]
      exact Permission.deny_le _
  · have hsame : judge mode env₂ request index rule = judge mode env₁ request index rule := by
      rw [judge, heq, judge]
    rw [hsame]
    cases judge mode env₁ request index rule with
    | decide decided => exact le_refl _
    | pass raise => exact Permission.capped_mono _ hpq

/-- **Fail-closed monotonicity.** When any set of leaf answers is replaced by no answer, the
decision of `check_access` permits at most what it permitted before. -/
theorem checkAccess_withholds_le (acl : ACL) (h : Withholds .sync env₁ env₂ request) :
    ∃ decision₁ decision₂,
      (acl.checkAccess env₁ request).decision = .ok decision₁ ∧
      (acl.checkAccess env₂ request).decision = .ok decision₂ ∧
      decision₂.permission ≤ decision₁.permission := by
  obtain ⟨decision₁, hdecision₁, hvalue₁⟩ :=
    checkInnerIn_permission acl request env₁.registries.contained_sync
  obtain ⟨decision₂, hdecision₂, hvalue₂⟩ :=
    checkInnerIn_permission acl request env₂.registries.contained_sync
  refine ⟨decision₁, decision₂, hdecision₁, hdecision₂, ?_⟩
  rw [hvalue₁, hvalue₂]
  refine DecisionList.denote_le fun k rule hrule p q hpq => ?_
  exact judge_act_le h (acl.effect_cases (List.mem_of_getElem? hrule)) hpq

/-- A registered handler that stops answering withholds whatever the handler before it answered. -/
theorem withholds_registerCondition (registries : Registries) (order : MapOrder) (now key : String)
    (answering silent : HandlerBehaviour) (request : AccessRequest)
    (hsilent : ∀ segments call, (settle .sync segments (key, some (silent.invoke .sync call))).truth
      = none) :
    Withholds .sync { registries := registries.registerCondition key answering, order, now }
      { registries := registries.registerCondition key silent, order, now } request where
  compound other := by
    simp only [Registries.compound, Registries.lookup, Registries.registerCondition,
      Function.update_apply]
    split <;> rfl
  resolvable other := by
    simp only [Registries.isResolvable, Registries.isSyncResolvable, Registries.registerCondition,
      Function.update_apply]
    split <;> simp
  leaf rule ctx segments other value _ hleaf := by
    by_cases hkey : other = key
    · subst hkey
      refine .inl ?_
      rw [leafTruth, invokeEntry, Registries.lookup, Registries.registerCondition]
      simp only [CheckEnv.scope, Function.update_self, Option.map_some, evaluateOutcome]
      exact hsilent segments _
    · refine .inr ?_
      simp only [Registries.compound, Registries.lookup, Registries.registerCondition,
        Function.update_of_ne hkey] at hleaf
      simp only [leafTruth, invokeEntry, CheckEnv.scope, Registries.lookup,
        Registries.registerCondition, Function.update_of_ne hkey]
      cases hlookup : registries.condition other with
      | none => rfl
      | some handler =>
        rw [hlookup, Option.bind_some] at hleaf
        exact congrArg (fun invocation => (settle .sync segments (other, some invocation)).truth)
          (evaluateOutcome_leaf hleaf
            (CheckEnv.scope ⟨registries.registerCondition key answering, order, now⟩ request rule ctx)
            (registries.registerCondition key silent) order .sync segments value)

/-- A deny rule on the negation of an application's condition, over a default that allows. -/
def denyUnlessFlagged : ACL where
  rules := [{ callers := ["*"], targets := ["*"], effect := "deny", approval := none
              description := none
              conditions := some (.object [("$not", .object [("flagged", .bool true)])]) }]
  defaultEffect := "allow"
  auditSink := { callback := true, config := none }
  default_valid := by decide
  rules_valid := by
    rw [List.forall_mem_singleton]
    exact ⟨0, rfl⟩

/-- The handler of `flagged` starts to panic: the call that was allowed is denied. -/
theorem checkAccess_withholds_le_flagged : ∃ decision₁ decision₂,
    (denyUnlessFlagged.checkAccess
      { registries := Registries.builtin.registerCondition "flagged" (.constant (.ready .satisfied))
        order := .textual, now := "" } anonymousRequest).decision = .ok decision₁ ∧
    (denyUnlessFlagged.checkAccess
      { registries := Registries.builtin.registerCondition "flagged" (.constant (.pollPanic "down"))
        order := .textual, now := "" } anonymousRequest).decision = .ok decision₂ ∧
    decision₂.permission ≤ decision₁.permission :=
  checkAccess_withholds_le denyUnlessFlagged
    (withholds_registerCondition .builtin .textual "" "flagged" _ _ _ fun _ _ => rfl)

end Apcore
