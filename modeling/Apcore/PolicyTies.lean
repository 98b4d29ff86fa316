import Mathlib.Data.List.MinMax
import Mathlib.Data.Prod.Lex
import Mathlib.Data.List.Perm.Basic
import Apcore.Policy

/-! # `PolicyTies` — which rule decides, and when a tie is safe

The scan of `match_rule` is the first maximum of a rank: the specificity of the pattern, then the
pair of `restrictiveness`. The rank sees what a rule *sets*. It does not see that a rule which
leaves a field alone keeps the requirement of the annotations, nor that setting `destructive`
gates nothing while `gate_destructive` is off; so among rules of one specificity the chosen one
can be the laxer, and then the order of the rules can matter too.

`tieSafe_iff` says exactly when it does not. -/

namespace Apcore

namespace PolicyRule

/-- What the scan compares: first the specificity, then the restrictiveness. -/
def rank (rule : PolicyRule) : Lex (Nat × Lex (Bool × Bool)) :=
  toLex (rule.specificity, toLex rule.restrictiveness)

/-- The rule sets a field that gates the call by itself. -/
def forces (gateDestructive : Bool) (rule : PolicyRule) : Bool :=
  rule.requiresApproval == some true || (gateDestructive && rule.destructive == some true)

/-- The rule leaves alone a field of the annotations that gates the call. -/
def keeps (gateDestructive : Bool) (annotations : Option ModuleAnnotations) (rule : PolicyRule) :
    Bool :=
  (rule.requiresApproval == none && ModuleAnnotations.flag (·.requiresApproval) annotations) ||
    (gateDestructive &&
      (rule.destructive == none && ModuleAnnotations.flag (·.destructive) annotations))

theorem moreRestrictive_iff (a b : PolicyRule) :
    a.moreRestrictive b = true ↔ toLex b.restrictiveness < toLex a.restrictiveness := by
  rw [Prod.Lex.toLex_lt_toLex]
  unfold moreRestrictive
  rcases a.restrictiveness with ⟨_ | _, _ | _⟩ <;> rcases b.restrictiveness with ⟨_ | _, _ | _⟩ <;>
    decide

theorem rank_lt_iff (a b : PolicyRule) :
    a.rank < b.rank ↔
      a.specificity < b.specificity ∨
        (a.specificity = b.specificity ∧ b.moreRestrictive a = true) := by
  rw [moreRestrictive_iff]
  exact Prod.Lex.toLex_lt_toLex

/-- A rule at least as restrictive as one that gates by itself gates by itself. -/
theorem forces_of_not_moreRestrictive {gate : Bool} {a b : PolicyRule}
    (h : a.moreRestrictive b = false) (ha : a.forces gate = true) : b.forces gate = true := by
  simp only [moreRestrictive, restrictiveness] at h
  simp only [forces] at ha ⊢
  cases hra : a.requiresApproval == some true <;> cases hda : a.destructive == some true <;>
    cases hrb : b.requiresApproval == some true <;> cases hdb : b.destructive == some true <;>
    simp_all

end PolicyRule

namespace ExecutionPolicy

variable (policy : ExecutionPolicy) (moduleId : String) (annotations : Option ModuleAnnotations)

/-- The rules the scan does not pass over. -/
def matching : List PolicyRule := policy.rules.filter (matchPattern ·.pattern moduleId)

/-- A matching rule of the highest specificity. -/
def Top (rule : PolicyRule) : Prop :=
  rule ∈ policy.matching moduleId ∧
    ∀ other ∈ policy.matching moduleId, other.specificity ≤ rule.specificity

/-- A rule the scan can end with: no other of the highest specificity is more restrictive. -/
def Best (rule : PolicyRule) : Prop :=
  policy.Top moduleId rule ∧
    ∀ other, policy.Top moduleId other → other.moreRestrictive rule = false

/-- The verdict of a policy that has this rule only. -/
def verdictOf (rule : PolicyRule) : Bool :=
  ({ policy with rules := [rule] }.resolve moduleId annotations).needsApproval

/-- Most specific and tie-safe: the rule that decides matches with the highest specificity, no
matching rule of that specificity would gate what the verdict lets through, and no order of the
rules gives another verdict. -/
structure TieSafe : Prop where
  chosen : ∀ rule, (policy.resolve moduleId annotations).rule = some rule →
    rule ∈ policy.rules ∧ matchPattern rule.pattern moduleId = true ∧
      ∀ other ∈ policy.rules, matchPattern other.pattern moduleId = true →
        other.specificity ≤ rule.specificity
  restrictive : ∀ rule, (policy.resolve moduleId annotations).rule = some rule →
    ∀ other ∈ policy.rules, matchPattern other.pattern moduleId = true →
      other.specificity = rule.specificity →
      policy.verdictOf moduleId annotations other = true →
      (policy.resolve moduleId annotations).needsApproval = true
  orderFree : ∀ rules, rules.Perm policy.rules →
    ({ policy with rules }.resolve moduleId annotations).needsApproval =
      (policy.resolve moduleId annotations).needsApproval

/-- A rule of the highest specificity gates by itself, or none keeps a gating annotation, or each
that the scan can end with keeps one. -/
def Settled : Prop :=
  (∃ rule, policy.Top moduleId rule ∧ rule.forces policy.gateDestructive = true) ∨
    (∀ rule, policy.Top moduleId rule → rule.keeps policy.gateDestructive annotations = false) ∨
    (∀ rule, policy.Best moduleId rule → rule.keeps policy.gateDestructive annotations = true)

/-! ## The scan is a first maximum -/

variable {policy moduleId annotations}

theorem mem_matching {rule : PolicyRule} :
    rule ∈ policy.matching moduleId ↔
      rule ∈ policy.rules ∧ matchPattern rule.pattern moduleId = true := by
  simp [matching]

/-- One turn on a matching rule keeps the larger rank, and the rule it had on equal ranks. -/
theorem consider_of_match {best : Option PolicyRule} {rule : PolicyRule}
    (h : matchPattern rule.pattern moduleId = true) :
    consider moduleId best rule = List.argAux (fun b c => c.rank < b.rank) best rule := by
  unfold consider
  rw [if_neg (by simp [h])]
  cases best with
  | none => rfl
  | some current =>
    show _ = if current.rank < rule.rank then some rule else some current
    by_cases hspec : current.specificity < rule.specificity
    · simp [PolicyRule.rank_lt_iff, hspec]
    · by_cases heq : rule.specificity = current.specificity
      · cases hmore : rule.moreRestrictive current <;>
          simp [PolicyRule.rank_lt_iff, heq, hmore]
      · have hne : current.specificity ≠ rule.specificity := fun e => heq e.symm
        simp [PolicyRule.rank_lt_iff, hspec, heq, hne]

theorem foldl_consider (rules : List PolicyRule) (best : Option PolicyRule) :
    rules.foldl (consider moduleId) best =
      (rules.filter (matchPattern ·.pattern moduleId)).foldl
        (List.argAux fun b c => c.rank < b.rank) best := by
  induction rules generalizing best with
  | nil => rfl
  | cons rule rest ih =>
    by_cases h : matchPattern rule.pattern moduleId = true
    · simp only [List.filter_cons, h, if_true, List.foldl_cons, consider_of_match h]
      exact ih _
    · have hpass : consider moduleId best rule = best := if_pos (by simpa using h)
      simp only [List.filter_cons, h, List.foldl_cons, hpass]
      exact ih _

theorem matchRule_eq_argmax :
    policy.matchRule moduleId = (policy.matching moduleId).argmax PolicyRule.rank :=
  foldl_consider policy.rules none

theorem matchRule_eq_none_iff :
    policy.matchRule moduleId = none ↔ policy.matching moduleId = [] := by
  rw [matchRule_eq_argmax, List.argmax_eq_none]

/-- What the scan ends with is a rule it can end with. -/
theorem best_of_matchRule {rule : PolicyRule} (h : policy.matchRule moduleId = some rule) :
    policy.Best moduleId rule := by
  rw [matchRule_eq_argmax] at h
  have hmem : rule ∈ policy.matching moduleId := List.argmax_mem h
  have hmax : ∀ other ∈ policy.matching moduleId, ¬rule.rank < other.rank :=
    fun other ho => not_lt.mpr (List.le_of_mem_argmax ho h)
  have htop : policy.Top moduleId rule := by
    refine ⟨hmem, fun other ho => ?_⟩
    by_contra hlt
    exact hmax other ho ((rule.rank_lt_iff other).mpr (Or.inl (not_le.mp hlt)))
  refine ⟨htop, fun other ho => ?_⟩
  have heq : rule.specificity = other.specificity := le_antisymm (ho.2 _ hmem) (htop.2 _ ho.1)
  rw [← Bool.not_eq_true]
  exact fun hmore => hmax other ho.1 ((rule.rank_lt_iff other).mpr (Or.inr ⟨heq, hmore⟩))

/-- A rule the scan can end with is what it ends with when it comes first. -/
theorem matchRule_of_best_first {rule : PolicyRule} (h : policy.Best moduleId rule) :
    { policy with rules := rule :: policy.rules.erase rule }.matchRule moduleId = some rule := by
  have hmem := mem_matching.mp h.1.1
  have hmatching : { policy with rules := rule :: policy.rules.erase rule }.matching moduleId =
      rule :: (policy.rules.erase rule).filter (matchPattern ·.pattern moduleId) := by
    simp [matching, hmem.2]
  rw [matchRule_eq_argmax, hmatching]
  refine List.mem_argmax_iff.mpr ⟨List.mem_cons_self .., ?_, ?_⟩
  · intro other ho
    -- nothing is added by putting the rule first
    have hother : other ∈ policy.matching moduleId := by
      rcases List.mem_cons.mp ho with rfl | ho
      · exact h.1.1
      · have := List.mem_filter.mp ho
        exact mem_matching.mpr ⟨List.mem_of_mem_erase this.1, this.2⟩
    rw [← not_lt, PolicyRule.rank_lt_iff]
    rintro (hlt | ⟨heq, hmore⟩)
    · exact absurd (h.1.2 _ hother) (not_le.mpr hlt)
    · have htop : policy.Top moduleId other := ⟨hother, fun x hx => heq ▸ h.1.2 x hx⟩
      simp [h.2 other htop] at hmore
  · intro other _ _
    rw [List.idxOf_cons_self]
    exact Nat.zero_le _

/-! ## Verdicts -/

theorem needsApproval_of_rule {rule : PolicyRule} (h : policy.matchRule moduleId = some rule) :
    (policy.resolve moduleId annotations).needsApproval =
      (rule.forces policy.gateDestructive || rule.keeps policy.gateDestructive annotations) := by
  simp only [resolve, h, Option.bind_some, PolicyRule.forces, PolicyRule.keeps]
  cases rule.requiresApproval with
  | none =>
    cases rule.destructive with
    | none => simp
    | some d =>
      cases d <;> cases policy.gateDestructive <;>
        cases ModuleAnnotations.flag (·.requiresApproval) annotations <;> rfl
  | some r =>
    cases rule.destructive with
    | none => cases r <;> simp
    | some d => cases r <;> cases d <;> cases policy.gateDestructive <;> rfl

theorem verdictOf_eq {rule : PolicyRule} (h : matchPattern rule.pattern moduleId = true) :
    policy.verdictOf moduleId annotations rule =
      (rule.forces policy.gateDestructive || rule.keeps policy.gateDestructive annotations) := by
  have hmatch : { policy with rules := [rule] }.matchRule moduleId = some rule := by
    rw [matchRule_eq_argmax]
    simp [matching, h]
  exact needsApproval_of_rule hmatch

/-- The highest specificity does not depend on the order of the rules. -/
theorem top_of_perm {rules : List PolicyRule} (h : rules.Perm policy.rules) {rule : PolicyRule}
    (ht : { policy with rules }.Top moduleId rule) : policy.Top moduleId rule := by
  have hmem : ∀ r, r ∈ { policy with rules }.matching moduleId ↔ r ∈ policy.matching moduleId :=
    fun r => by simp only [mem_matching, h.mem_iff]
  exact ⟨(hmem rule).mp ht.1, fun other ho => ht.2 other ((hmem other).mpr ho)⟩

theorem best_of_perm {rules : List PolicyRule} (h : rules.Perm policy.rules) {rule : PolicyRule}
    (hb : { policy with rules }.Best moduleId rule) : policy.Best moduleId rule := by
  refine ⟨top_of_perm h hb.1, fun other ho => hb.2 other ?_⟩
  have hperm : policy.rules.Perm { policy with rules }.rules := h.symm
  exact top_of_perm hperm ho

/-- Where a rule of the highest specificity gates by itself, the rule that decides does too. -/
theorem forces_of_best {rule forcing : PolicyRule} (hb : policy.Best moduleId rule)
    (ht : policy.Top moduleId forcing) (hf : forcing.forces policy.gateDestructive = true) :
    rule.forces policy.gateDestructive = true :=
  PolicyRule.forces_of_not_moreRestrictive (hb.2 forcing ht) hf

/-- In a settled policy, the rules the scan can end with give one verdict, which holds as soon as
a rule of the highest specificity gives it. -/
theorem Settled.restrictive (h : policy.Settled moduleId annotations) {rule other : PolicyRule}
    (hb : policy.Best moduleId rule) (ht : policy.Top moduleId other)
    (hv : (other.forces policy.gateDestructive ||
      other.keeps policy.gateDestructive annotations) = true) :
    (rule.forces policy.gateDestructive ||
      rule.keeps policy.gateDestructive annotations) = true := by
  rcases h with ⟨forcing, hft, hf⟩ | hnone | hall
  · simp [forces_of_best hb hft hf]
  · have hf : other.forces policy.gateDestructive = true := by simpa [hnone other ht] using hv
    simp [forces_of_best hb ht hf]
  · simp [hall rule hb]

/-- The specificity half holds of every policy. -/
theorem resolve_chosen {rule : PolicyRule}
    (h : (policy.resolve moduleId annotations).rule = some rule) :
    policy.Best moduleId rule :=
  best_of_matchRule h

/-- The verdict of a settled policy is that of its rules in any order. -/
theorem Settled.orderFree (h : policy.Settled moduleId annotations) {rules : List PolicyRule}
    (hperm : rules.Perm policy.rules) :
    ({ policy with rules }.resolve moduleId annotations).needsApproval =
      (policy.resolve moduleId annotations).needsApproval := by
  cases hrule : policy.matchRule moduleId with
  | none =>
    have hempty : { policy with rules }.matching moduleId = [] := by
      have := matchRule_eq_none_iff.mp hrule
      exact (List.perm_nil.mp (this ▸ hperm.filter _))
    have hnone : { policy with rules }.matchRule moduleId = none :=
      matchRule_eq_none_iff.mpr hempty
    simp [resolve, hrule, hnone]
  | some rule =>
    have hb := best_of_matchRule hrule
    cases hrule' : { policy with rules }.matchRule moduleId with
    | none =>
      have hempty := matchRule_eq_none_iff.mp hrule'
      have hmem : rule ∈ { policy with rules }.matching moduleId :=
        (hperm.filter _).mem_iff.mpr hb.1.1
      simp [hempty] at hmem
    | some rule' =>
      have hb' := best_of_perm hperm (best_of_matchRule hrule')
      rw [needsApproval_of_rule hrule, needsApproval_of_rule hrule', Bool.eq_iff_iff]
      exact ⟨h.restrictive hb hb'.1, h.restrictive hb' hb.1⟩

/-- **A policy is tie-safe exactly when its ties are settled.** -/
theorem tieSafe_iff (policy : ExecutionPolicy) (moduleId : String)
    (annotations : Option ModuleAnnotations) :
    policy.TieSafe moduleId annotations ↔ policy.Settled moduleId annotations := by
  constructor
  · intro h
    by_cases hforce : ∃ rule, policy.Top moduleId rule ∧
        rule.forces policy.gateDestructive = true
    · exact Or.inl hforce
    by_cases hkeep : ∃ rule, policy.Top moduleId rule ∧
        rule.keeps policy.gateDestructive annotations = true
    · obtain ⟨keeping, htop, hk⟩ := hkeep
      have hmem := mem_matching.mp htop.1
      -- the rule that decides gates the call, since one of its specificity would
      cases hrule : policy.matchRule moduleId with
      | none =>
        have hin := htop.1
        simp [matchRule_eq_none_iff.mp hrule] at hin
      | some rule =>
        have hb := best_of_matchRule hrule
        have hgated : (policy.resolve moduleId annotations).needsApproval = true := by
          apply h.restrictive rule hrule keeping hmem.1 hmem.2
          · exact le_antisymm (hb.1.2 _ htop.1) (htop.2 _ hb.1.1)
          · rw [verdictOf_eq hmem.2, hk, Bool.or_true]
        -- and so does any other it could have been, in the order that puts that one first
        refine Or.inr (Or.inr fun best hbest => ?_)
        have hfirst := h.orderFree (best :: policy.rules.erase best)
          (List.perm_cons_erase (mem_matching.mp hbest.1.1).1).symm
        rw [needsApproval_of_rule (matchRule_of_best_first hbest), hgated] at hfirst
        have hnot : best.forces policy.gateDestructive = false := by
          rw [← Bool.not_eq_true]
          exact fun hf => hforce ⟨best, hbest.1, hf⟩
        simpa [hnot] using hfirst
    · exact Or.inr (Or.inl fun rule ht => by
        rw [← Bool.not_eq_true]
        exact fun hk => hkeep ⟨rule, ht, hk⟩)
  · intro h
    refine ⟨fun rule hrule => ?_, fun rule hrule other ho hmatch hspec hv => ?_,
      fun rules hperm => h.orderFree hperm⟩
    · have hb := resolve_chosen hrule
      exact ⟨(mem_matching.mp hb.1.1).1, (mem_matching.mp hb.1.1).2,
        fun other ho hmatch => hb.1.2 other (mem_matching.mpr ⟨ho, hmatch⟩)⟩
    · have hb := resolve_chosen hrule
      have htop : policy.Top moduleId other :=
        ⟨mem_matching.mpr ⟨ho, hmatch⟩, fun x hx => hspec ▸ hb.1.2 x hx⟩
      rw [verdictOf_eq hmatch] at hv
      rw [needsApproval_of_rule hrule]
      exact h.restrictive hb htop hv

/-- Two patterns of one specificity: the first rule lifts the requirement, the second leaves it. -/
def liftThenLeave : ExecutionPolicy where
  rules :=
    [{ pattern := "x.*", pattern_nonempty := by decide, requiresApproval := some false
       destructive := none, reason := none },
     { pattern := "*.y", pattern_nonempty := by decide, requiresApproval := none
       destructive := some false, reason := none }]
  gateDestructive := false
  strict := false

/-- Of a tie between rules that do not force gating, the first decides, be it the laxer one. -/
theorem not_tieSafe :
    ¬∀ (policy : ExecutionPolicy) moduleId annotations,
      policy.TieSafe moduleId annotations := by
  intro h
  have hgated := (h liftThenLeave "x.y" (some { requiresApproval := true })).restrictive
    liftThenLeave.rules[0] (by decide +kernel) liftThenLeave.rules[1] (by decide +kernel)
    (by decide +kernel) (by decide +kernel) (by decide +kernel)
  revert hgated
  decide +kernel

end ExecutionPolicy

end Apcore
