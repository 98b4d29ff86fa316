import Apcore.Executor.Types

/-! # `Executor.TraceAgreement` — traced and untraced calls

Behind its preamble a traced call is one attempt of a call. Where no middleware retries, that is all
of a call; what is left of the difference is the preamble, in which `call` alone validates the
module id. -/

namespace Apcore

namespace Executor

open Run

variable {σ : Type} {executor : Executor σ}

/-! ## One attempt -/

/-- An attempt that cannot retry ends as a traced call does. -/
theorem attempt_eq (hretry : executor.middlewareManager.NeverRetries) (moduleId : String)
    (pipeCtx : PipelineContext σ) :
    executor.attempt moduleId pipeCtx =
      (PipelineEngine.run executor.strategy pipeCtx >>= fun result =>
        executor.settleWithTrace moduleId result >>= fun settled =>
          pure (.inr (settled.map (·.1)))) := by
  unfold attempt
  congr 1
  funext result
  obtain ⟨out, pipeCtx⟩ := result
  rcases out with err | ⟨output, trace⟩
  · dsimp only [settleWithTrace]
    split_ifs
    · rfl
    · rw [bind_assoc]
      ext w
      refine bind_congr_ok fun answer hanswer => ?_
      rcases answer with _ | (value | inputs)
      · rfl
      · rfl
      · exact absurd hanswer (onErrorOutcome_ne_retry hretry _ _ _ w inputs)
  · dsimp only [settleWithTrace]
    rw [pure_bind]
    cases settle output trace <;> rfl

/-- The first attempt is the only one. -/
theorem callLoop_eq (hretry : executor.middlewareManager.NeverRetries) (moduleId : String)
    (attempts : Nat) (pipeCtx : PipelineContext σ) :
    executor.callLoop moduleId (attempts + 1) pipeCtx = executor.attempt moduleId pipeCtx := by
  unfold callLoop
  rw [loop, if_pos rfl, attempt_eq hretry, bind_assoc]
  congr 1
  funext result
  rw [bind_assoc]
  simp only [pure_bind]

/-- **A call is a traced call without its trace**, once its module id is valid. -/
theorem call_eq_callWithTrace (hretry : executor.middlewareManager.NeverRetries)
    {moduleId : String} (hvalid : validateModuleId moduleId = .ok ()) (attempts : Nat)
    (inputs : Json) (ctx : Option Context) (versionHint : Option String) :
    executor.call (attempts + 1) moduleId inputs ctx versionHint =
      (executor.callWithTrace moduleId inputs ctx versionHint none >>= fun settled =>
        pure (some (settled.map (·.1)))) := by
  unfold call callWithTrace
  simp only [hvalid, Option.getD_none, bind_assoc]
  congr 1
  funext prepared
  cases prepared with
  | error e => rfl
  | ok pipeCtx => simp only [callLoop_eq hretry, attempt_eq hretry, bind_assoc, pure_bind]

/-! ## Agreement -/

/-- Both calls give the same value, both fail with the same code, or the same panic unwinds out of
both. -/
def SameEnd : Except String (Option (Except ModuleError Json)) →
    Except String (Except ModuleError (Json × PipelineTrace)) → Prop
  | .ok (some (.ok value)), .ok (.ok (value', _)) => value = value'
  | .ok (some (.error e)), .ok (.error e') => e.code = e'.code
  | .error p, .error p' => p = p'
  | _, _ => False

/-- An executor whose pipeline only creates the context of the call. -/
def contextOnly : Executor Unit :=
  .over (.inert Unit)
    { name := "context", steps := [BuiltinContextCreation.step]
      gates_intact := by simpa using .of_none rfl }

/-- Its traced calls succeed, whatever the module id. -/
theorem contextOnly_callWithTrace (moduleId : String) (w : World Unit) :
    ∃ trace, (contextOnly.callWithTrace moduleId .null none none none w).outcome =
      .ok (.ok (.null, trace)) :=
  ⟨_, rfl⟩

/-- **Traced and untraced calls agree exactly on the valid module ids.** -/
theorem calls_agree_iff (moduleId : String) :
    (∀ (σ : Type) (executor : Executor σ), executor.middlewareManager.NeverRetries →
      ∀ (attempts : Nat) (inputs : Json) (ctx : Option Context) (versionHint : Option String)
        (w : World σ),
        SameEnd (executor.call (attempts + 1) moduleId inputs ctx versionHint w).outcome
          (executor.callWithTrace moduleId inputs ctx versionHint none w).outcome) ↔
      validateModuleId moduleId = .ok () := by
  constructor
  · intro h
    cases hvalid : validateModuleId moduleId with
    | ok u => rfl
    | error e =>
      -- a pipeline that looks nothing up accepts the id that `call` rejects
      have hsame := h Unit contextOnly
        (by simp [MiddlewareManager.NeverRetries, contextOnly, Executor.over])
        0 .null none none (World.fresh ())
      obtain ⟨trace, htrace⟩ := contextOnly_callWithTrace moduleId (World.fresh ())
      have hcall : (contextOnly.call 1 moduleId .null none none (World.fresh ())).outcome =
          .ok (some (.error e)) := by
        simp only [call, hvalid, pure_apply]
      rw [htrace, hcall] at hsame
      exact hsame.elim
  · intro hvalid σ executor hretry attempts inputs ctx versionHint w
    rw [call_eq_callWithTrace hretry hvalid]
    cases hout : (executor.callWithTrace moduleId inputs ctx versionHint none w).outcome with
    | error p =>
      rw [bind_apply_error hout]
      rfl
    | ok settled =>
      rw [bind_apply_ok hout]
      cases settled with
      | error e => rfl
      | ok traced => rfl

/-- An upper-case module id is an invalid id to `call`, and a missing module to
`call_with_trace`. -/
theorem calls_disagree :
    ¬ ∀ (moduleId : String) (σ : Type) (executor : Executor σ),
      executor.middlewareManager.NeverRetries →
      ∀ (attempts : Nat) (inputs : Json) (ctx : Option Context) (versionHint : Option String)
        (w : World σ),
        SameEnd (executor.call (attempts + 1) moduleId inputs ctx versionHint w).outcome
          (executor.callWithTrace moduleId inputs ctx versionHint none w).outcome := by
  intro h
  have hsame := h "Billing" Unit (.over (.inert Unit) (standardStrategy .lax))
    (by simp [MiddlewareManager.NeverRetries, Executor.over]) 0 .null none none (World.fresh ())
  -- both fail: the one in its preamble, the other in its lookup step
  have hcodes : ErrorCode.invalidModuleId = .moduleNotFound := hsame
  exact absurd hcodes (by decide)

end Executor

end Apcore
