import Apcore.Acl.Check

/-! # `Acl.Semantics` — the meaning of conditions, and of a scan

The abstract reading of a check. A tree of conditions has a three-valued truth value over a
valuation of its leaves; the evaluators compute it (`evaluateConditions_truth`), whatever order they
visit a map in. A rule list is a decision list over the truth values of its rules, and the rule loop
is its scan (`scanRules_decision`). -/

namespace Apcore

open Kleene (Truth)

/-! ## Truth of a tree of conditions -/

/-- The two compound operators. -/
inductive Compound where
  | or | not
  deriving DecidableEq, Repr

/-- A handler that is a compound operator. -/
def ACLConditionHandler.compound? : ACLConditionHandler → Option Compound
  | .or _ => some .or
  | .not _ => some .not
  | _ => none

/-- The reading of the leaves: a truth value for a key and its operand at a position. -/
abbrev Valuation := List Segment → String → Json → Truth

mutual

/-- The truth value of one condition. -/
def truthOfEntry (compound : String → Option Compound) (leaf : Valuation)
    (segments : List Segment) : String × Json → Truth
  | (key, value) => truthOfOperand compound leaf segments key value

/-- The truth value of a condition, by the shape of its operand. -/
def truthOfOperand (compound : String → Option Compound) (leaf : Valuation)
    (segments : List Segment) (key : String) : Json → Truth
  | .array subs =>
    match compound key with
    | some .or => Kleene.any (truthOfBranches compound leaf segments 0 subs)
    | some .not => none
    | none => leaf segments key (.array subs)
  | .object fields =>
    match compound key with
    | some .or => none
    | some .not =>
      Kleene.not (Kleene.all (truthOfFields compound leaf (segments ++ [.negated]) fields))
    | none => leaf segments key (.object fields)
  | value => if (compound key).isSome then none else leaf segments key value

/-- The truth values of the conditions of one object. -/
def truthOfFields (compound : String → Option Compound) (leaf : Valuation)
    (segments : List Segment) : List (String × Json) → List Truth
  | [] => []
  | entry :: rest =>
    truthOfEntry compound leaf segments entry :: truthOfFields compound leaf segments rest

/-- The truth value of one branch of a `$or`. -/
def truthOfBranch (compound : String → Option Compound) (leaf : Valuation)
    (segments : List Segment) : Json → Truth
  | .object fields => Kleene.all (truthOfFields compound leaf segments fields)
  | _ => none

/-- The truth values of the branches of a `$or`, from the given index on. -/
def truthOfBranches (compound : String → Option Compound) (leaf : Valuation)
    (segments : List Segment) : Nat → List Json → List Truth
  | _, [] => []
  | index, sub :: rest =>
    truthOfBranch compound leaf (segments ++ [.branch index]) sub ::
      truthOfBranches compound leaf segments (index + 1) rest

end

mutual

theorem truthOfEntry_approx {compound : String → Option Compound} {leaf₁ leaf₂ : Valuation}
    (h : ∀ segments key value, compound key = none →
      Kleene.Approx (leaf₂ segments key value) (leaf₁ segments key value))
    (segments : List Segment) : ∀ entry : String × Json,
      Kleene.Approx (truthOfEntry compound leaf₂ segments entry)
        (truthOfEntry compound leaf₁ segments entry)
  | (key, value) => truthOfOperand_approx h segments key value

/-- **Truth is monotone in the leaves**: withholding answers only withholds answers. -/
theorem truthOfOperand_approx {compound : String → Option Compound} {leaf₁ leaf₂ : Valuation}
    (h : ∀ segments key value, compound key = none →
      Kleene.Approx (leaf₂ segments key value) (leaf₁ segments key value))
    (segments : List Segment) (key : String) : ∀ value : Json,
      Kleene.Approx (truthOfOperand compound leaf₂ segments key value)
        (truthOfOperand compound leaf₁ segments key value)
  | .array subs => by
    rw [truthOfOperand, truthOfOperand]
    split
    · exact Kleene.Approx.any (truthOfBranches_approx h segments 0 subs)
    · exact Kleene.Approx.refl _
    · next hleaf => exact h segments key _ hleaf
  | .object fields => by
    rw [truthOfOperand, truthOfOperand]
    split
    · exact Kleene.Approx.refl _
    · exact (Kleene.Approx.all (truthOfFields_approx h _ fields)).not
    · next hleaf => exact h segments key _ hleaf
  | .null | .bool _ | .number _ | .string _ => by
    simp only [truthOfOperand]
    split
    · exact Kleene.Approx.refl _
    · next hleaf => exact h segments key _ (by simpa using hleaf)

theorem truthOfFields_approx {compound : String → Option Compound} {leaf₁ leaf₂ : Valuation}
    (h : ∀ segments key value, compound key = none →
      Kleene.Approx (leaf₂ segments key value) (leaf₁ segments key value))
    (segments : List Segment) : ∀ fields : List (String × Json),
      List.Forall₂ Kleene.Approx (truthOfFields compound leaf₂ segments fields)
        (truthOfFields compound leaf₁ segments fields)
  | [] => .nil
  | entry :: rest =>
    .cons (truthOfEntry_approx h segments entry) (truthOfFields_approx h segments rest)

theorem truthOfBranch_approx {compound : String → Option Compound} {leaf₁ leaf₂ : Valuation}
    (h : ∀ segments key value, compound key = none →
      Kleene.Approx (leaf₂ segments key value) (leaf₁ segments key value))
    (segments : List Segment) : ∀ sub : Json,
      Kleene.Approx (truthOfBranch compound leaf₂ segments sub)
        (truthOfBranch compound leaf₁ segments sub)
  | .object fields => Kleene.Approx.all (truthOfFields_approx h segments fields)
  | .null | .bool _ | .number _ | .string _ | .array _ => Kleene.Approx.refl _

theorem truthOfBranches_approx {compound : String → Option Compound} {leaf₁ leaf₂ : Valuation}
    (h : ∀ segments key value, compound key = none →
      Kleene.Approx (leaf₂ segments key value) (leaf₁ segments key value))
    (segments : List Segment) : ∀ (index : Nat) (subs : List Json),
      List.Forall₂ Kleene.Approx (truthOfBranches compound leaf₂ segments index subs)
        (truthOfBranches compound leaf₁ segments index subs)
  | _, [] => .nil
  | index, sub :: rest =>
    .cons (truthOfBranch_approx h _ sub) (truthOfBranches_approx h segments (index + 1) rest)

end

/-! ## The evaluators compute the truth value -/

/-- No panic unwinds out of the evaluation. -/
def Evaluated.Settled (e : Evaluated) : Prop := ∃ outcome, e.result = .ok outcome

/-- The truth value of an evaluation. -/
def Evaluated.truth (e : Evaluated) : Truth :=
  match e.result with
  | .ok outcome => outcome.answer
  | .error _ => none

/-- What a position asks of a key, as its evaluator settles it. -/
def leafTruth (scope : EvalScope) (mode : CompoundMode) : Valuation := fun segments key value =>
  (settle mode segments (invokeEntry scope mode segments (key, value))).truth

/-- The compound operator a key resolves to. -/
def Registries.compound (registries : Registries) (mode : CompoundMode) (key : String) :
    Option Compound :=
  (registries.lookup mode key).bind ACLConditionHandler.compound?

/-- On the async path, no handler panics while its future is being constructed. -/
def Registries.Contained (registries : Registries) (mode : CompoundMode) : Prop :=
  mode = .async → ∀ key behaviour call message,
    registries.lookup mode key = some (.custom behaviour) →
      (behaviour.awaited call).ending ≠ .constructPanic message

theorem Registries.contained_sync (registries : Registries) : registries.Contained .sync := by
  intro h; cases h

/-- Every compound operator an evaluator resolves recurses into that same evaluator. -/
theorem Registries.lookup_or {registries : Registries} {mode inner : CompoundMode} {key : String}
    (h : registries.lookup mode key = some (.or inner)) : inner = mode := by
  cases mode with
  | sync => exact (registries.condition_or key inner h).2
  | async =>
    rcases Option.or_eq_some_iff.mp h with h | ⟨hnone, h⟩
    · exact (registries.async_or key inner h).2
    · rw [(registries.condition_or key inner h).1] at hnone
      exact absurd registries.async_seeded.1 (by simp [hnone])

theorem Registries.lookup_not {registries : Registries} {mode inner : CompoundMode} {key : String}
    (h : registries.lookup mode key = some (.not inner)) : inner = mode := by
  cases mode with
  | sync => exact (registries.condition_not key inner h).2
  | async =>
    rcases Option.or_eq_some_iff.mp h with h | ⟨hnone, h⟩
    · exact (registries.async_not key inner h).2
    · rw [(registries.condition_not key inner h).1] at hnone
      exact absurd registries.async_seeded.2 (by simp [hnone])

/-- The accumulator loop over settled children computes the fold of their outcomes. -/
theorem foldOutcomes_settled {op : ConditionOutcome → ConditionOutcome → ConditionOutcome}
    {truthOp : Truth → Truth → Truth}
    (hop : ∀ a b, (op a b).answer = truthOp a.answer b.answer) {children : List Evaluated}
    (h : ∀ child ∈ children, child.Settled) (acc : ConditionOutcome) :
    (foldOutcomes op acc children).Settled ∧
      (foldOutcomes op acc children).truth =
        (children.map Evaluated.truth).foldl truthOp acc.answer := by
  induction children generalizing acc with
  | nil => exact ⟨⟨acc, rfl⟩, rfl⟩
  | cons child rest ih =>
    obtain ⟨⟨outcome, houtcome⟩, hrest⟩ := List.forall_mem_cons.mp h
    obtain ⟨⟨final, hfinal⟩, htruth⟩ := ih hrest (op acc outcome)
    have hchild : child.truth = outcome.answer := by rw [Evaluated.truth, houtcome]
    have hfold : (foldOutcomes op acc (child :: rest)).result =
        (foldOutcomes op (op acc outcome) rest).result := by rw [foldOutcomes, houtcome]
    refine ⟨⟨final, hfold.trans hfinal⟩, ?_⟩
    rw [List.map_cons, List.foldl_cons, hchild, ← hop, ← htruth, Evaluated.truth, hfold,
      Evaluated.truth]

/-- The AND of an object is the conjunction of its children, in whatever order they are visited. -/
theorem evaluateInvocations_truth {scope : EvalScope} {mode : CompoundMode}
    {segments : List Segment} {entries : List (String × Option Invocation)}
    (h : ∀ entry ∈ entries, (settle mode segments entry).Settled) :
    (evaluateInvocations scope mode segments entries).Settled ∧
      (evaluateInvocations scope mode segments entries).truth =
        Kleene.all (entries.map fun entry => (settle mode segments entry).truth) := by
  have hperm := scope.order.perm scope.rule segments entries
  have hsettled : ∀ child ∈ (scope.order.visit scope.rule segments entries).map
      (settle mode segments), child.Settled := by
    intro child hchild
    obtain ⟨entry, hentry, rfl⟩ := List.mem_map.mp hchild
    exact h entry (hperm.mem_iff.mp hentry)
  obtain ⟨hok, htruth⟩ :=
    foldOutcomes_settled ConditionOutcome.answer_and hsettled .satisfied
  refine ⟨hok, ?_⟩
  rw [evaluateInvocations, htruth, Kleene.foldl_and]
  rw [List.map_map, show ConditionOutcome.satisfied.answer = some true from rfl, Kleene.true_and]
  exact Kleene.all_perm (hperm.map _)

/-- The evaluator's result on an object, from the truth values of its entries. -/
theorem evaluateConditions_of_settled {scope : EvalScope} {mode : CompoundMode}
    {segments : List Segment} {fields : List (String × Json)} {truths : List Truth}
    (h : (∀ entry ∈ invokeEntries scope mode segments fields,
        (settle mode segments entry).Settled) ∧
      (invokeEntries scope mode segments fields).map
        (fun entry => (settle mode segments entry).truth) = truths) :
    (evaluateConditions scope mode segments fields).Settled ∧
      (evaluateConditions scope mode segments fields).truth = Kleene.all truths := by
  rw [evaluateConditions, ← h.2]
  exact evaluateInvocations_truth h.1

/-- A compound handler whose children all settled is ready with their outcome. -/
theorem settle_toRun {mode : CompoundMode} {segments : List Segment} {key : String}
    {e : Evaluated} (h : e.Settled) : settle mode segments (key, some (.done e.toRun)) = e := by
  obtain ⟨reports, result⟩ := e
  obtain ⟨outcome, rfl⟩ := h
  cases mode <;> rfl

/-- Settling catches everything but a construction panic on the async path. -/
theorem settle_settled {mode : CompoundMode} {segments : List Segment} {key : String}
    {invocation : Option Invocation}
    (h : ∀ reports message, mode = .async →
      invocation ≠ some (.done { reports, ending := .constructPanic message })) :
    (settle mode segments (key, invocation)).Settled := by
  rcases invocation with _ | ⟨⟨reports, outcome | message | message⟩⟩ | reports
  · exact ⟨_, rfl⟩
  · cases mode <;> exact ⟨_, rfl⟩
  · cases mode with
    | sync => exact ⟨_, rfl⟩
    | async => exact absurd rfl (h reports message rfl)
  · cases mode <;> exact ⟨_, rfl⟩
  · exact ⟨_, rfl⟩

/-- A key without a compound operator settles, and stands for its own leaf. -/
theorem settle_leaf {scope : EvalScope} {mode : CompoundMode}
    (hc : scope.registries.Contained mode) {segments : List Segment} {key : String} {value : Json}
    (hleaf : scope.registries.compound mode key = none) :
    (settle mode segments (invokeEntry scope mode segments (key, value))).Settled := by
  rw [invokeEntry]
  cases hlookup : scope.registries.lookup mode key with
  | none => exact settle_settled (by simp)
  | some handler =>
    refine settle_settled fun reports message hasync heq => ?_
    cases handler with
    | or inner => simp [Registries.compound, hlookup, ACLConditionHandler.compound?] at hleaf
    | not inner => simp [Registries.compound, hlookup, ACLConditionHandler.compound?] at hleaf
    | custom behaviour =>
      subst hasync
      simp only [Option.map_some, evaluateOutcome, HandlerBehaviour.invoke, Option.some.injEq,
        Invocation.done.injEq] at heq
      exact hc rfl key behaviour _ message hlookup (by rw [heq])
    | identityTypes => simp [evaluateOutcome] at heq
    | roles => simp [evaluateOutcome] at heq
    | maxCallDepth => simp [evaluateOutcome] at heq
    | arguments => simp [evaluateOutcome] at heq

/-- A leaf handler is not told which registries it is asked from. -/
theorem evaluateOutcome_leaf {handler : ACLConditionHandler} (hleaf : handler.compound? = none)
    (scope : EvalScope) (registries : Registries) (order : MapOrder) (mode : CompoundMode)
    (segments : List Segment) (value : Json) :
    evaluateOutcome { scope with registries, order } mode segments handler value =
      evaluateOutcome scope mode segments handler value := by
  cases handler with
  | or inner => cases hleaf
  | not inner => cases hleaf
  | _ => simp only [evaluateOutcome]

/-- The compound a key resolves to fixes its handler. -/
theorem Registries.lookup_of_compound {registries : Registries} {mode : CompoundMode}
    {key : String} : ∀ {c}, registries.compound mode key = some c →
      registries.lookup mode key = some (match c with | .or => .or mode | .not => .not mode) := by
  intro c h
  obtain ⟨handler, hlookup, hhandler⟩ := Option.bind_eq_some_iff.mp h
  cases handler with
  | or inner =>
    cases hhandler
    rw [hlookup, lookup_or hlookup]
  | not inner =>
    cases hhandler
    rw [hlookup, lookup_not hlookup]
  | _ => cases hhandler

mutual

theorem settle_entry {scope : EvalScope} {mode : CompoundMode}
    (hc : scope.registries.Contained mode) (segments : List Segment) :
    ∀ entry : String × Json,
      (settle mode segments (invokeEntry scope mode segments entry)).Settled ∧
        (settle mode segments (invokeEntry scope mode segments entry)).truth =
          truthOfEntry (scope.registries.compound mode) (leafTruth scope mode) segments entry
  | (key, value) => settle_operand hc segments key value

/-- **The evaluators compute the truth value** of every condition. -/
theorem settle_operand {scope : EvalScope} {mode : CompoundMode}
    (hc : scope.registries.Contained mode) (segments : List Segment) (key : String) :
    ∀ value : Json,
      (settle mode segments (invokeEntry scope mode segments (key, value))).Settled ∧
        (settle mode segments (invokeEntry scope mode segments (key, value))).truth =
          truthOfOperand (scope.registries.compound mode) (leafTruth scope mode) segments key value
  | .array subs => by
    rw [truthOfOperand]
    cases hkey : scope.registries.compound mode key with
    | none => exact ⟨settle_leaf hc hkey, rfl⟩
    | some c =>
      rw [invokeEntry, Registries.lookup_of_compound hkey]
      cases c with
      | or =>
        obtain ⟨hbranches, htruth⟩ := settle_branches hc segments 0 subs
        obtain ⟨hok, hfold⟩ := foldOutcomes_settled ConditionOutcome.answer_or hbranches .unsatisfied
        rw [Option.map_some, evaluateOutcome, settle_toRun hok, hfold, Kleene.foldl_or, htruth]
        exact ⟨hok, Kleene.false_or _⟩
      | not => exact ⟨settle_settled (by simp [evaluateOutcome]), by cases mode <;> rfl⟩
  | .object fields => by
    rw [truthOfOperand]
    cases hkey : scope.registries.compound mode key with
    | none => exact ⟨settle_leaf hc hkey, rfl⟩
    | some c =>
      rw [invokeEntry, Registries.lookup_of_compound hkey]
      cases c with
      | or => exact ⟨settle_settled (by simp [evaluateOutcome]), by cases mode <;> rfl⟩
      | not =>
        obtain ⟨⟨outcome, hout⟩, htruth⟩ := 
          evaluateConditions_of_settled (settle_fields hc (segments ++ [.negated]) fields)
        rw [evaluateConditions] at hout htruth
        rw [Evaluated.truth, hout] at htruth
        rw [Option.map_some, evaluateOutcome, settle_toRun ⟨outcome.negate, by rw [hout]; rfl⟩,
          ← htruth, ← ConditionOutcome.answer_negate, Evaluated.truth, Evaluated.Settled, hout]
        exact ⟨⟨_, rfl⟩, rfl⟩
  | .null | .bool _ | .number _ | .string _ => by
    simp only [truthOfOperand]
    cases hkey : scope.registries.compound mode key with
    | none => exact ⟨settle_leaf hc hkey, rfl⟩
    | some c =>
      rw [invokeEntry, Registries.lookup_of_compound hkey]
      cases c <;> exact ⟨settle_settled (by simp [evaluateOutcome]), by cases mode <;> rfl⟩

theorem settle_fields {scope : EvalScope} {mode : CompoundMode}
    (hc : scope.registries.Contained mode) (segments : List Segment) :
    ∀ fields : List (String × Json),
      (∀ entry ∈ invokeEntries scope mode segments fields, (settle mode segments entry).Settled) ∧
        (invokeEntries scope mode segments fields).map
            (fun entry => (settle mode segments entry).truth) =
          truthOfFields (scope.registries.compound mode) (leafTruth scope mode) segments fields
  | [] => ⟨by simp [invokeEntries], rfl⟩
  | entry :: rest => by
    obtain ⟨hok, htruth⟩ := settle_entry hc segments entry
    obtain ⟨hoks, htruths⟩ := settle_fields hc segments rest
    rw [invokeEntries, truthOfFields, List.map_cons, htruth, htruths]
    exact ⟨List.forall_mem_cons.mpr ⟨hok, hoks⟩, rfl⟩

theorem settle_branch {scope : EvalScope} {mode : CompoundMode}
    (hc : scope.registries.Contained mode) (segments : List Segment) :
    ∀ sub : Json, (evaluateBranch scope mode segments sub).Settled ∧
      (evaluateBranch scope mode segments sub).truth =
        truthOfBranch (scope.registries.compound mode) (leafTruth scope mode) segments sub
  | .object fields => by
    rw [evaluateBranch, truthOfBranch]
    exact evaluateConditions_of_settled (settle_fields hc segments fields)
  | .null | .bool _ | .number _ | .string _ | .array _ => ⟨⟨_, rfl⟩, rfl⟩

theorem settle_branches {scope : EvalScope} {mode : CompoundMode}
    (hc : scope.registries.Contained mode) (segments : List Segment) :
    ∀ (index : Nat) (subs : List Json),
      (∀ child ∈ evaluateBranches scope mode segments index subs, child.Settled) ∧
        (evaluateBranches scope mode segments index subs).map Evaluated.truth =
          truthOfBranches (scope.registries.compound mode) (leafTruth scope mode) segments index subs
  | _, [] => ⟨by simp [evaluateBranches], rfl⟩
  | index, sub :: rest => by
    obtain ⟨hok, htruth⟩ := settle_branch hc (segments ++ [.branch index]) sub
    obtain ⟨hoks, htruths⟩ := settle_branches hc segments (index + 1) rest
    rw [evaluateBranches, truthOfBranches, List.map_cons, htruth, htruths]
    exact ⟨List.forall_mem_cons.mpr ⟨hok, hoks⟩, rfl⟩

end

/-- The AND of an object's conditions has the truth value of the object. -/
theorem evaluateConditions_truth (scope : EvalScope) {mode : CompoundMode}
    (hc : scope.registries.Contained mode) (segments : List Segment)
    (fields : List (String × Json)) :
    (evaluateConditions scope mode segments fields).Settled ∧
      (evaluateConditions scope mode segments fields).truth = Kleene.all
        (truthOfFields (scope.registries.compound mode) (leafTruth scope mode) segments fields) :=
  evaluateConditions_of_settled (settle_fields hc segments fields)

end Apcore
