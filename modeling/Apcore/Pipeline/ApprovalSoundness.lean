import Apcore.Pipeline.ApprovalGate

/-! # `Pipeline.ApprovalSoundness` — the approval gate lets nothing through unapproved

The requirement is stated here from its sources: the access list, the two annotation sources, the
policy rule that matches and `gate_destructive`. The gate is sound for it: with a handler it goes on
only when the handler's last answer is `approved`, without one a strict policy denies, and on every
exit the inputs are what the caller sent, less the token. -/

namespace Apcore

namespace BuiltinApprovalGate

variable {σ : Type}

/-! ## The requirement, from its sources -/

/-- A flag of the module or of its descriptor, unless a policy rule overrides it. -/
def effectiveFlag (override : Option Bool) (field : ModuleAnnotations → Bool)
    (module descriptor : Option ModuleAnnotations) : Prop :=
  match override with
  | some value => value = true
  | none => (∃ a, module = some a ∧ field a = true) ∨ (∃ a, descriptor = some a ∧ field a = true)

/-- The requirement of policy and annotations: the effective `requires_approval`, or a policy that
gates destructive modules and the effective `destructive`. -/
def EffectiveRequirement (policy : Option ExecutionPolicy) (moduleId : String)
    (module descriptor : Option ModuleAnnotations) : Prop :=
  let rule := policy.bind (·.matchRule moduleId)
  effectiveFlag (rule.bind (·.requiresApproval)) (·.requiresApproval) module descriptor ∨
    ((∃ p, policy = some p ∧ p.gateDestructive = true) ∧
      effectiveFlag (rule.bind (·.destructive)) (·.destructive) module descriptor)

/-- The call requires approval: the access list said so, whatever a policy overrides, or the
effective requirement does. -/
def RequiresApproval (registry : Registry σ) (w : World σ) (ctx : PipelineContext σ) : Prop :=
  ctx.aclApprovalRequired = true ∨
    EffectiveRequirement ctx.policy ctx.moduleId
      ((liveModule registry w ctx).map (·.annotations))
      ((registry.definition w ctx.moduleId).bind (·.annotations))

/-- A flag of the joined annotations is a flag of one of them. -/
theorem flag_union_iff {field : ModuleAnnotations → Bool} {module descriptor : Option ModuleAnnotations}
    (hunion : ModuleAnnotations.flag field (ModuleAnnotations.governanceUnion module descriptor) =
      (ModuleAnnotations.flag field module || ModuleAnnotations.flag field descriptor)) :
    ModuleAnnotations.flag field (ModuleAnnotations.governanceUnion module descriptor) = true ↔
      effectiveFlag none field module descriptor := by
  rw [hunion, Bool.or_eq_true]
  cases module <;> cases descriptor <;> simp [ModuleAnnotations.flag, effectiveFlag]

/-- An override replaces a flag, otherwise the flag stands. -/
theorem getD_flag_iff (override : Option Bool) {field : ModuleAnnotations → Bool}
    {module descriptor : Option ModuleAnnotations} {base : Bool}
    (hbase : base = true ↔ effectiveFlag none field module descriptor) :
    override.getD base = true ↔ effectiveFlag override field module descriptor := by
  cases override with
  | none => exact hbase
  | some value => exact Iff.rfl

/-- The gate computes the requirement of its sources. -/
theorem needsApproval_iff (registry : Registry σ) (w : World σ) (ctx : PipelineContext σ) :
    needsApproval ctx (governance registry w ctx) = true ↔ RequiresApproval registry w ctx := by
  set module := (liveModule registry w ctx).map (·.annotations) with hmodule
  set descriptor := (registry.definition w ctx.moduleId).bind (·.annotations) with hdescriptor
  have hrequires := flag_union_iff (ModuleAnnotations.requiresApproval_union module descriptor)
  have hdestructive := flag_union_iff (ModuleAnnotations.destructive_union module descriptor)
  unfold needsApproval RequiresApproval policyEffectiveApproval policyDecision EffectiveRequirement
    governance
  rw [← hmodule, ← hdescriptor, Bool.or_eq_true, or_comm]
  refine or_congr Iff.rfl ?_
  cases hpolicy : ctx.policy with
  | none => simpa using hrequires
  | some policy =>
    have hreq := getD_flag_iff ((policy.matchRule ctx.moduleId).bind (·.requiresApproval)) hrequires
    have hdes := getD_flag_iff ((policy.matchRule ctx.moduleId).bind (·.destructive)) hdestructive
    simp only [Option.map_some, Option.bind_some, ExecutionPolicy.resolve, Bool.or_eq_true,
      Bool.and_eq_true, Option.some.injEq, exists_eq_left']
    exact or_congr hreq (and_congr Iff.rfl hdes)

/-! ## What each part of the gate gives back -/

/-- The inputs an exit leaves: an object loses the token and nothing else. -/
def withoutToken : Json → Json
  | .object fields => .object (Fields.erase fields approvalTokenKey)
  | other => other

theorem stripToken_eq (inputs : Json) : stripToken inputs = withoutToken inputs := by
  cases inputs with
  | object fields =>
    show (if _ then _ else _) = _
    by_cases h : Fields.containsKey fields approvalTokenKey = true
    · rw [if_pos h]; rfl
    · rw [if_neg h]
      refine congrArg Json.object (List.filter_eq_self.mpr fun entry hentry => ?_).symm
      -- an entry of the token would be found under its key
      by_contra hkey
      refine h ?_
      have : entry.1 = approvalTokenKey := by simpa using hkey
      simp only [Fields.containsKey, Fields.get?, Option.isSome_map, List.find?_isSome]
      exact ⟨entry, hentry, by simpa using this⟩
  | _ => rfl

/-- Taking the token changes the inputs only. -/
theorem takeApprovalToken_ctx (ctx : PipelineContext σ) :
    (takeApprovalToken ctx).2 = { ctx with inputs := withoutToken ctx.inputs } := by
  unfold takeApprovalToken
  rw [stripToken_eq]
  cases h : Fields.get? (entriesOf ctx.inputs) approvalTokenKey with
  | some token => cases token <;> rfl
  | none =>
    -- no token: erasing its key changes nothing
    have hsame : withoutToken ctx.inputs = ctx.inputs := by
      rw [← stripToken_eq]
      cases hin : ctx.inputs with
      | object fields =>
        have hnone : Fields.containsKey fields approvalTokenKey = false := by
          rw [hin] at h
          simpa [Fields.containsKey, entriesOf, Json.asObject?] using h
        simp [stripToken, hnone]
      | _ => rfl
    rw [hsame]

/-- Only `approved` is no refusal. -/
theorem refusal_eq_none_iff (moduleId : String) (result : ApprovalResult) :
    refusal moduleId result = none ↔ result.status = "approved" := by
  unfold refusal
  split <;> simp_all

theorem announceDecision_outcome (ctx : PipelineContext σ) (result : ApprovalResult)
    (w : World σ) : (announceDecision ctx result w).outcome = .ok () := by
  unfold announceDecision
  rw [Run.bind_outcome_eq_ok]
  exact ⟨(), rfl, emitEvent_outcome _ _ _⟩

theorem announceOverride_outcome (ctx : PipelineContext σ) (decision : Option PolicyDecision)
    (w : World σ) : (announceOverride ctx decision w).outcome = .ok () := by
  unfold announceOverride
  cases decision with
  | none => rfl
  | some decision =>
    dsimp only
    split_ifs
    · rw [Run.bind_outcome_eq_ok]
      exact ⟨(), rfl, emitEvent_outcome _ _ _⟩
    · rfl

theorem warnOnce_outcome (ctx : PipelineContext σ) (key : String) (w : World σ) :
    (warnOnce ctx key w).outcome = .ok () := by
  unfold warnOnce
  split_ifs <;> rfl

/-- The handler's way: the context is kept, and going on takes an approved answer. -/
theorem withHandler_ok {handler : ApprovalHandler σ} {token : Option String}
    {ctx ctx' : PipelineContext σ} {module : Option (Module σ)}
    {annotations : Option ModuleAnnotations} {w : World σ} {result : Except ModuleError StepResult}
    (h : (withHandler handler token ctx module annotations w).outcome = .ok (result, ctx')) :
    ctx' = ctx ∧ ((∃ r, result = .ok r) → ∃ answer,
      (consult handler token ctx module annotations w).outcome = .ok (.ok answer) ∧
        answer.status = "approved") := by
  unfold withHandler at h
  rw [Run.bind_outcome_eq_ok] at h
  obtain ⟨answer, hanswer, h⟩ := h
  cases answer with
  | error e =>
    obtain ⟨rfl, rfl⟩ : .error e = result ∧ ctx = ctx' := by simpa [failWith] using h
    exact ⟨rfl, by simp⟩
  | ok answer =>
    dsimp only at h
    rw [Run.bind_outcome_eq_ok] at h
    obtain ⟨-, -, h⟩ := h
    cases hrefusal : refusal ctx.moduleId answer with
    | some e =>
      obtain ⟨rfl, rfl⟩ : .error e = result ∧ ctx = ctx' := by
        simpa [hrefusal, failWith] using h
      exact ⟨rfl, by simp⟩
    | none =>
      have hctx : ctx = ctx' := by
        have hpair : (Except.ok StepResult.continueStep, ctx) = (result, ctx') := by
          simpa [hrefusal, continueWith] using h
        exact congrArg Prod.snd hpair
      exact ⟨hctx.symm, fun _ => ⟨answer, hanswer, (refusal_eq_none_iff _ _).mp hrefusal⟩⟩

/-- Without a handler the context is kept too. -/
theorem withoutHandler_outcome (ctx : PipelineContext σ) (w : World σ) :
    (withoutHandler ctx w).outcome =
      if ctx.policy.any (·.strict) then .ok (.error (strictDenial ctx.moduleId), ctx)
      else .ok (.ok .continueStep, ctx) := by
  unfold withoutHandler
  split_ifs
  · rw [Run.bind_apply_ok (announceDecision_outcome _ _ _)]
    rfl
  · rw [Run.bind_apply_ok (warnOnce_outcome _ _ _)]
    rfl

theorem ungated_outcome (ctx : PipelineContext σ) (annotations : Option ModuleAnnotations)
    (w : World σ) : (ungated ctx annotations w).outcome = .ok (.ok .continueStep, ctx) := by
  have hwarn : (warnUngated ctx annotations w).outcome = .ok () := by
    unfold warnUngated
    split_ifs
    · exact warnOnce_outcome _ _ _
    · rfl
  unfold ungated
  rw [Run.bind_apply_ok hwarn]
  rfl

/-- The world the handler is asked in: the override, if any, is announced. -/
def askedIn (registry : Registry σ) (w : World σ) (ctx : PipelineContext σ) : World σ :=
  (announceOverride ctx (policyDecision ctx (governance registry w ctx)) w).world

/-- The gate behind the token, unfolded at a world. -/
theorem adjudicate_outcome (registry : Registry σ) (token : Option String)
    (ctx : PipelineContext σ) (w : World σ) :
    (adjudicate registry token ctx w).outcome =
      if needsApproval ctx (governance registry w ctx) then
        match ctx.approvalHandler with
        | none => (withoutHandler ctx (askedIn registry w ctx)).outcome
        | some handler =>
          (withHandler handler token ctx (liveModule registry w ctx) (governance registry w ctx)
            (askedIn registry w ctx)).outcome
      else .ok (.ok .continueStep, ctx) := by
  unfold adjudicate
  rw [Run.bind_apply_ok rfl]
  dsimp only [Run.world_apply]
  rw [Run.bind_apply_ok (announceOverride_outcome _ _ _)]
  dsimp only
  by_cases hneeds : needsApproval ctx (governance registry w ctx) = true
  · rw [if_pos hneeds, if_pos hneeds]
    cases ctx.approvalHandler <;> rfl
  · rw [if_neg hneeds, if_neg hneeds]
    exact ungated_outcome _ _ _

/-- Behind the token the context is kept. -/
theorem adjudicate_ctx {registry : Registry σ} {token : Option String} {ctx ctx' : PipelineContext σ}
    {w : World σ} {result : Except ModuleError StepResult}
    (h : (adjudicate registry token ctx w).outcome = .ok (result, ctx')) : ctx' = ctx := by
  rw [adjudicate_outcome] at h
  split_ifs at h with hneeds
  · cases hhandler : ctx.approvalHandler with
    | some handler =>
      rw [hhandler] at h
      exact (withHandler_ok h).1
    | none =>
      rw [hhandler] at h
      dsimp only at h
      rw [withoutHandler_outcome] at h
      split_ifs at h <;> exact (congrArg Prod.snd (Except.ok.inj h)).symm
  · exact (congrArg Prod.snd (Except.ok.inj h)).symm

/-! ## Soundness -/

/-- The handler's final answer on this call is `approved`. The call is the one without its token,
and the answer is about an earlier request when the token names one. -/
def HandlerApproved (registry : Registry σ) (handler : ApprovalHandler σ)
    (ctx : PipelineContext σ) (w : World σ) : Prop :=
  ∃ token answer,
    let stripped := (takeApprovalToken ctx).2
    (takeApprovalToken ctx).1 = .ok token ∧
      (consult handler token stripped (liveModule registry w stripped)
        (governance registry w stripped) (askedIn registry w stripped)).outcome =
          .ok (.ok answer) ∧
      answer.status = "approved"

/-- What the gate guarantees about one call, run in one world. -/
structure Sound (ctx : PipelineContext σ) (w : World σ) : Prop where
  /-- With a handler, a call that requires approval goes on only when the handler approved it. -/
  approved : ∀ registry handler result ctx', ctx.registry = some registry →
    ctx.approvalHandler = some handler → RequiresApproval registry w ctx →
    (execute ctx w).outcome = .ok (.ok result, ctx') → HandlerApproved registry handler ctx w
  /-- Without a handler, a strict policy denies a call that requires approval. A malformed token is
  refused before that. -/
  strict_denies : ∀ registry policy, ctx.registry = some registry → ctx.approvalHandler = none →
    ctx.policy = some policy → policy.strict = true → RequiresApproval registry w ctx →
    ∃ e ctx', (execute ctx w).outcome = .ok (.error e, ctx') ∧
      (e.code = .approvalDenied ∨
        (e.code = .generalInvalidInput ∧ (takeApprovalToken ctx).1 = .error e))
  /-- On every exit the token is gone and every other entry is as it was. -/
  inputs_kept : ∀ result ctx', (execute ctx w).outcome = .ok (result, ctx') →
    Fields.get? (entriesOf ctx'.inputs) approvalTokenKey = none ∧
      (∀ key, key ≠ approvalTokenKey →
        Fields.get? (entriesOf ctx'.inputs) key = Fields.get? (entriesOf ctx.inputs) key) ∧
      (ctx.inputs.isObject = false → ctx'.inputs = ctx.inputs)

/-- The requirement does not look at the inputs. -/
theorem requiresApproval_stripped {registry : Registry σ} {w : World σ} {ctx : PipelineContext σ} :
    RequiresApproval registry w (takeApprovalToken ctx).2 ↔ RequiresApproval registry w ctx := by
  rw [takeApprovalToken_ctx]
  exact Iff.rfl

/-- The gate, unfolded at its token. -/
theorem execute_outcome (ctx : PipelineContext σ) (w : World σ) :
    (execute ctx w).outcome =
      match (takeApprovalToken ctx).1 with
      | .error e => .ok (.error e, (takeApprovalToken ctx).2)
      | .ok token =>
        match ctx.registry with
        | none => .error "registry must be injected into PipelineContext"
        | some registry => (adjudicate registry token (takeApprovalToken ctx).2 w).outcome := by
  have hregistry : (takeApprovalToken ctx).2.registry = ctx.registry := by
    rw [takeApprovalToken_ctx]
  unfold execute
  cases htake : takeApprovalToken ctx with
  | mk token stripped =>
    rw [htake] at hregistry
    dsimp only at hregistry ⊢
    cases token with
    | error e => rfl
    | ok token =>
      dsimp only
      rw [hregistry]
      cases ctx.registry with
      | none => rfl
      | some registry => rw [expect, Run.bind_apply_ok rfl]; rfl

/-- Every exit leaves the inputs without the token. -/
theorem execute_inputs {ctx ctx' : PipelineContext σ} {w : World σ}
    {result : Except ModuleError StepResult}
    (h : (execute ctx w).outcome = .ok (result, ctx')) :
    ctx'.inputs = withoutToken ctx.inputs := by
  have hstripped : ctx' = (takeApprovalToken ctx).2 := by
    rw [execute_outcome] at h
    cases htoken : (takeApprovalToken ctx).1 with
    | error e =>
      rw [htoken] at h
      exact (congrArg Prod.snd (Except.ok.inj h)).symm
    | ok token =>
      rw [htoken] at h
      cases hregistry : ctx.registry with
      | none => rw [hregistry] at h; cases h
      | some registry => rw [hregistry] at h; exact adjudicate_ctx h
  rw [hstripped, takeApprovalToken_ctx]

/-- **Approval-gate soundness.** For every policy, module and descriptor annotations, requirement of
the access list, inputs and handler. -/
theorem approvalGate_sound (ctx : PipelineContext σ) (w : World σ) : Sound ctx w where
  approved := by
    intro registry handler result ctx' hregistry hhandler hrequires h
    rw [execute_outcome, hregistry] at h
    cases htoken : (takeApprovalToken ctx).1 with
    | error e => rw [htoken] at h; cases h
    | ok token =>
      rw [htoken] at h
      dsimp only at h
      have hneeds := (needsApproval_iff registry w _).mpr (requiresApproval_stripped.mpr hrequires)
      have hhandler' : (takeApprovalToken ctx).2.approvalHandler = some handler := by
        rw [takeApprovalToken_ctx]; exact hhandler
      rw [adjudicate_outcome, if_pos hneeds, hhandler'] at h
      obtain ⟨answer, hanswer, hstatus⟩ := (withHandler_ok h).2 ⟨result, rfl⟩
      exact ⟨token, answer, htoken, hanswer, hstatus⟩
  strict_denies := by
    intro registry policy hregistry hhandler hpolicy hstrict hrequires
    rw [execute_outcome, hregistry]
    cases htoken : (takeApprovalToken ctx).1 with
    | error e =>
      refine ⟨e, _, rfl, Or.inr ⟨?_, rfl⟩⟩
      -- the only error of the token is the one about its type
      unfold takeApprovalToken at htoken
      split at htoken <;> cases htoken
      rfl
    | ok token =>
      have hneeds := (needsApproval_iff registry w _).mpr (requiresApproval_stripped.mpr hrequires)
      have hhandler' : (takeApprovalToken ctx).2.approvalHandler = none := by
        rw [takeApprovalToken_ctx]; exact hhandler
      have hstrict' : (takeApprovalToken ctx).2.policy.any (·.strict) = true := by
        rw [takeApprovalToken_ctx]; simp [hpolicy, hstrict]
      refine ⟨strictDenial ctx.moduleId, (takeApprovalToken ctx).2, ?_, Or.inl rfl⟩
      dsimp only
      rw [adjudicate_outcome, if_pos hneeds, hhandler']
      dsimp only
      rw [withoutHandler_outcome, if_pos hstrict', takeApprovalToken_ctx]
  inputs_kept := by
    intro result ctx' h
    rw [execute_inputs h]
    cases ctx.inputs with
    | object fields =>
      refine ⟨Fields.get?_erase_self _ _, fun key hkey => Fields.get?_erase_ne _ hkey, ?_⟩
      intro hobject
      cases hobject
    | _ => exact ⟨rfl, fun _ _ => rfl, fun _ => rfl⟩

end BuiltinApprovalGate

end Apcore
