import Apcore.Executor.TraceAgreement
import Apcore.Middleware.Retry

/-! # `Executor.RetryEndToEnd` — what a call under `RetryMiddleware` gives back

An execution is one run of the pipeline around the module, with the `after` hooks. A call should
execute again for as long as the executions fail with a retryable error and the budget of the
middleware lasts, and give back what the last execution gave. -/

namespace Apcore

namespace Executor

open Run

variable {σ : Type}

/-! ## The executions of a call -/

/-- What a run of the pipeline gives, before the `on_error` chain is asked. -/
def executionOutcome (moduleId : String) : EngineResult σ → Except ModuleError Json
  | (.ok (output, trace), _) => settle output trace
  | (.error err, pipeCtx) => .error (surface err moduleId pipeCtx.context)

/-- The outcomes of the executions of the call loop, one for each of its attempts. -/
def executionsFrom (executor : Executor σ) (moduleId : String) :
    Nat → PipelineContext σ → World σ → List (Except ModuleError Json)
  | 0, _, _ => []
  | attempts + 1, pipeCtx, w =>
    match (PipelineEngine.run executor.strategy pipeCtx w).outcome with
    | .error _ => []
    | .ok result =>
      executionOutcome moduleId result ::
        match (executor.attempt moduleId pipeCtx w).outcome with
        | .ok (.inl next) =>
          executionsFrom executor moduleId attempts next (executor.attempt moduleId pipeCtx w).world
        | _ => []

/-- The outcomes of the executions of a call, which has none when its preamble fails. -/
def executions (executor : Executor σ) (attempts : Nat) (moduleId : String) (inputs : Json)
    (ctx : Option Context) (versionHint : Option String) (w : World σ) :
    List (Except ModuleError Json) :=
  match validateModuleId moduleId with
  | .error _ => []
  | .ok () =>
    let prepared := executor.prepare executor.strategy moduleId inputs ctx versionHint w
    match prepared.outcome with
    | .ok (.ok pipeCtx) => executor.executionsFrom moduleId attempts pipeCtx prepared.world
    | _ => []

/-- The execution failed with `retryable = true`. -/
def FailsRetryable (outcome : Except ModuleError Json) : Prop :=
  ∃ e, outcome = .error e ∧ e.retryable = some true

/-- The call gives back what the last of its executions gave; the ones before it failed with a
retryable error, and there are at most `maxRetries + 1`. -/
structure ReturnsLastExecution (maxRetries : Nat) (outcomes : List (Except ModuleError Json))
    (answer : Except ModuleError Json) : Prop where
  bound : outcomes.length ≤ maxRetries + 1
  retried : ∀ o ∈ outcomes.dropLast, FailsRetryable o
  answered : match outcomes.getLast? with
    | some last => answer = last
    | none => ∃ e, answer = .error e

/-- And it does not give up on a retryable error before `maxRetries` retries. -/
structure RetriesEndToEnd (maxRetries : Nat) (outcomes : List (Except ModuleError Json))
    (answer : Except ModuleError Json) : Prop
    extends ReturnsLastExecution maxRetries outcomes answer where
  exhausted : ∀ last, outcomes.getLast? = some last → FailsRetryable last →
    outcomes.length = maxRetries + 1

theorem returnsLastExecution_nil {maxRetries : Nat} {answer : Except ModuleError Json} :
    ReturnsLastExecution maxRetries [] answer ↔ ∃ e, answer = .error e := by
  constructor
  · exact fun h => h.answered
  · intro h
    exact ⟨Nat.zero_le _, by simp, h⟩

theorem returnsLastExecution_single {maxRetries : Nat} {outcome answer : Except ModuleError Json} :
    ReturnsLastExecution maxRetries [outcome] answer ↔ answer = outcome := by
  constructor
  · exact fun h => h.answered
  · intro h
    exact ⟨by simp, by simp, h⟩

theorem retriesEndToEnd_single {maxRetries : Nat} {outcome answer : Except ModuleError Json} :
    RetriesEndToEnd maxRetries [outcome] answer ↔
      answer = outcome ∧ (FailsRetryable outcome → maxRetries = 0) := by
  constructor
  · intro h
    refine ⟨h.answered, fun hfails => ?_⟩
    have hlen := h.exhausted outcome rfl hfails
    simp only [List.length_singleton] at hlen
    omega
  · rintro ⟨hanswer, hzero⟩
    refine ⟨returnsLastExecution_single.mpr hanswer, ?_⟩
    rintro last hlast hfails
    obtain rfl : outcome = last := by simpa using hlast
    rw [hzero hfails]
    rfl

/-! ## A call makes one attempt -/

variable {executor : Executor σ} {retry : RetryMiddleware σ} {moduleId : String}

/-- The call of a module comes, with an execution that failed, to a `retry` that grants a retry. -/
def RetryBranch (executor : Executor σ) (retry : RetryMiddleware σ) (moduleId : String)
    (result : EngineResult σ) (w : World σ) : Prop :=
  match result with
  | (.ok _, _) => False
  | (.error err, pipeCtx) =>
    (surface err moduleId pipeCtx.context).code ≠ .executionCancelled ∧
      MiddlewareManager.RetryGranted retry moduleId pipeCtx.inputs
        (surface err moduleId pipeCtx.context) pipeCtx.context (executor.middlewareManager w)
        pipeCtx.executedMiddlewares.reverse w

/-- An answer of the `on_error` chain is the inputs of the call. -/
theorem onErrorOutcome_outcome (honly : executor.middlewareManager.OnlyRecovers retry)
    {pipeCtx : PipelineContext σ} {error : ModuleError} {w : World σ}
    {answer : Option OnErrorOutcome}
    (hanswer : (executor.onErrorOutcome moduleId pipeCtx error w).outcome = .ok answer) :
    (MiddlewareManager.RetryGranted retry moduleId pipeCtx.inputs error pipeCtx.context
          (executor.middlewareManager w) pipeCtx.executedMiddlewares.reverse w ∧
        answer = some (.recovery pipeCtx.inputs)) ∨
      (¬MiddlewareManager.RetryGranted retry moduleId pipeCtx.inputs error pipeCtx.context
          (executor.middlewareManager w) pipeCtx.executedMiddlewares.reverse w ∧ answer = none) := by
  unfold onErrorOutcome at hanswer
  split_ifs at hanswer with hempty
  · obtain rfl : none = answer := Except.ok.inj hanswer
    have hnil : pipeCtx.executedMiddlewares = [] := List.isEmpty_iff.mp hempty
    rw [hnil]
    exact .inr ⟨id, rfl⟩
  · exact MiddlewareManager.onErrorLoop_outcome (honly w) hanswer

/-- How an attempt ends: with the outcome of its execution, or, where a retry is granted, with the
inputs as a value. -/
theorem attempt_answer (honly : executor.middlewareManager.OnlyRecovers retry)
    {pipeCtx : PipelineContext σ} {w : World σ} {next : PipelineContext σ ⊕ Except ModuleError Json}
    (hattempt : (executor.attempt moduleId pipeCtx w).outcome = .ok next) :
    ∃ result, (PipelineEngine.run executor.strategy pipeCtx w).outcome = .ok result ∧
      ((RetryBranch executor retry moduleId result
            (PipelineEngine.run executor.strategy pipeCtx w).world ∧
          next = .inr (.ok result.2.inputs)) ∨
        (¬RetryBranch executor retry moduleId result
            (PipelineEngine.run executor.strategy pipeCtx w).world ∧
          next = .inr (executionOutcome moduleId result))) := by
  obtain ⟨⟨out, left⟩, hrun, hrest⟩ := bind_outcome_eq_ok.mp hattempt
  refine ⟨(out, left), hrun, ?_⟩
  rcases out with err | ⟨output, trace⟩
  · dsimp only at hrest
    split_ifs at hrest with hcancelled
    · exact .inr ⟨fun h => h.1 hcancelled, (Except.ok.inj hrest).symm⟩
    · obtain ⟨answer, hanswer, hend⟩ := bind_outcome_eq_ok.mp hrest
      rcases onErrorOutcome_outcome honly hanswer with ⟨hgranted, rfl⟩ | ⟨hnot, rfl⟩
      · exact .inl ⟨⟨hcancelled, hgranted⟩, (Except.ok.inj hend).symm⟩
      · exact .inr ⟨fun h => hnot h.2, (Except.ok.inj hend).symm⟩
  · exact .inr ⟨id, (Except.ok.inj hrest).symm⟩

/-- A retry is granted only to an execution that failed with a retryable error. -/
theorem RetryBranch.failsRetryable {result : EngineResult σ} {w : World σ}
    (h : RetryBranch executor retry moduleId result w) :
    FailsRetryable (executionOutcome moduleId result) ∧ 0 < retry.config.maxRetries := by
  obtain ⟨out, left⟩ := result
  rcases out with err | ⟨output, trace⟩
  · exact ⟨⟨_, rfl, h.2.retryable.1⟩, h.2.retryable.2⟩
  · exact h.elim

/-- The first execution of a call: the run of its prepared pipeline. -/
def firstExecution (executor : Executor σ) (moduleId : String) (inputs : Json)
    (ctx : Option Context) (versionHint : Option String) (w : World σ) :
    Option (EngineResult σ × World σ) :=
  match validateModuleId moduleId with
  | .error _ => none
  | .ok () =>
    let prepared := executor.prepare executor.strategy moduleId inputs ctx versionHint w
    match prepared.outcome with
    | .ok (.ok pipeCtx) =>
      let ran := PipelineEngine.run executor.strategy pipeCtx prepared.world
      match ran.outcome with
      | .ok result => some (result, ran.world)
      | .error _ => none
    | _ => none

/-- A call that returns has made one attempt at most: it has executed once, and gives the outcome
of that execution or, where a retry is granted, the inputs. -/
theorem call_answer (honly : executor.middlewareManager.OnlyRecovers retry) {attempts : Nat}
    {inputs : Json} {ctx : Option Context} {versionHint : Option String} {w : World σ}
    {result : Option (Except ModuleError Json)}
    (hreturn : (executor.call (attempts + 1) moduleId inputs ctx versionHint w).outcome =
      .ok result) :
    ∃ answer, result = some answer ∧
      ((executor.firstExecution moduleId inputs ctx versionHint w = none ∧
          executor.executions (attempts + 1) moduleId inputs ctx versionHint w = [] ∧
          ∃ e, answer = .error e) ∨
        ∃ ended w', executor.firstExecution moduleId inputs ctx versionHint w = some (ended, w') ∧
          executor.executions (attempts + 1) moduleId inputs ctx versionHint w =
            [executionOutcome moduleId ended] ∧
          ((RetryBranch executor retry moduleId ended w' ∧ answer = .ok ended.2.inputs) ∨
            (¬RetryBranch executor retry moduleId ended w' ∧
              answer = executionOutcome moduleId ended))) := by
  unfold call at hreturn
  unfold firstExecution executions
  cases hvalid : validateModuleId moduleId with
  | error e =>
    rw [hvalid] at hreturn
    exact ⟨.error e, (Except.ok.inj hreturn).symm, .inl ⟨rfl, rfl, e, rfl⟩⟩
  | ok u =>
    rw [hvalid] at hreturn
    obtain ⟨prepared, hprepared, hrest⟩ := bind_outcome_eq_ok.mp hreturn
    have hprepared : (executor.prepare executor.strategy moduleId inputs ctx versionHint w).outcome =
        .ok prepared := hprepared
    dsimp only
    rw [hprepared]
    rcases prepared with e | pipeCtx
    · exact ⟨.error e, (Except.ok.inj hrest).symm, .inl ⟨rfl, rfl, e, rfl⟩⟩
    · obtain ⟨next, hloop, hend⟩ := bind_outcome_eq_ok.mp hrest
      rw [callLoop_eq honly.neverRetries] at hloop
      obtain ⟨ended, hrun, hanswer⟩ := attempt_answer honly hloop
      have hrun : (PipelineEngine.run executor.strategy pipeCtx
          (executor.prepare executor.strategy moduleId inputs ctx versionHint w).world).outcome =
          .ok ended := hrun
      have hloop : (executor.attempt moduleId pipeCtx
          (executor.prepare executor.strategy moduleId inputs ctx versionHint w).world).outcome =
          .ok next := hloop
      dsimp only
      rw [executionsFrom, hrun, hloop]
      rcases hanswer with ⟨hbranch, rfl⟩ | ⟨hnot, rfl⟩
      · exact ⟨_, (Except.ok.inj hend).symm, .inr ⟨ended, _, rfl, rfl, .inl ⟨hbranch, rfl⟩⟩⟩
      · exact ⟨_, (Except.ok.inj hend).symm, .inr ⟨ended, _, rfl, rfl, .inr ⟨hnot, rfl⟩⟩⟩

/-- **What a call under `RetryMiddleware` is worth.** It executes once, whatever the budget. So it
retries as it should exactly when there is no budget or the execution needs no retry; and it gives
back the outcome of an execution exactly when no retry is granted, and its own inputs otherwise. -/
theorem retry_endToEnd (honly : executor.middlewareManager.OnlyRecovers retry) {attempts : Nat}
    {inputs : Json} {ctx : Option Context} {versionHint : Option String} {w : World σ}
    {result : Option (Except ModuleError Json)}
    (hreturn : (executor.call (attempts + 1) moduleId inputs ctx versionHint w).outcome =
      .ok result) :
    ∃ answer, result = some answer ∧
      (RetriesEndToEnd retry.config.maxRetries
          (executor.executions (attempts + 1) moduleId inputs ctx versionHint w) answer ↔
        retry.config.maxRetries = 0 ∨
          ∀ first, (executor.executions (attempts + 1) moduleId inputs ctx versionHint w).head? =
            some first → ¬FailsRetryable first) ∧
      (ReturnsLastExecution retry.config.maxRetries
          (executor.executions (attempts + 1) moduleId inputs ctx versionHint w) answer ↔
        ∀ ended w', executor.firstExecution moduleId inputs ctx versionHint w = some (ended, w') →
          ¬RetryBranch executor retry moduleId ended w') := by
  obtain ⟨answer, rfl, hcases⟩ := call_answer honly hreturn
  refine ⟨answer, rfl, ?_⟩
  rcases hcases with ⟨hfirst, hnone, herror⟩ | ⟨ended, w', hfirst, hone, hbranch⟩
  · rw [hnone, hfirst]
    have hreturns : ReturnsLastExecution retry.config.maxRetries [] answer :=
      returnsLastExecution_nil.mpr herror
    refine ⟨iff_of_true ⟨hreturns, by simp⟩ (.inr (by simp)), iff_of_true hreturns (by simp)⟩
  · rw [hone, hfirst, retriesEndToEnd_single, returnsLastExecution_single]
    have hhead : (∀ first, [executionOutcome moduleId ended].head? = some first →
        ¬FailsRetryable first) ↔ ¬FailsRetryable (executionOutcome moduleId ended) := by simp
    have hbranches : (∀ ended' w'', some (ended, w') = some (ended', w'') →
        ¬RetryBranch executor retry moduleId ended' w'') ↔
        ¬RetryBranch executor retry moduleId ended w' := by
      constructor
      · exact fun h => h ended w' rfl
      · rintro h ended' w'' heq
        cases heq
        exact h
    rw [hhead, hbranches]
    rcases hbranch with ⟨hgranted, hanswer⟩ | ⟨hnot, hanswer⟩
    · obtain ⟨hfails, hbudget⟩ := hgranted.failsRetryable
      -- the fabricated value is no outcome of the execution, which failed
      have hne : answer ≠ executionOutcome moduleId ended := by
        intro heq
        obtain ⟨e, he, -⟩ := hfails
        rw [hanswer, he] at heq
        cases heq
      constructor
      · refine iff_of_false (fun h => hne h.1) ?_
        rintro (hzero | hsucceeds)
        · omega
        · exact hsucceeds hfails
      · exact iff_of_false hne (fun h => h hgranted)
    · refine ⟨?_, iff_of_true hanswer hnot⟩
      constructor
      · rintro ⟨-, hzero⟩
        by_cases hfails : FailsRetryable (executionOutcome moduleId ended)
        · exact .inl (hzero hfails)
        · exact .inr hfails
      · rintro (hzero | hsucceeds)
        · exact ⟨hanswer, fun _ => hzero⟩
        · exact ⟨hanswer, fun hfails => absurd hfails hsucceeds⟩

/-! ## A failure that becomes a success -/

/-- A module that fails once with a retryable error and then succeeds; the world counts its
executions. -/
def flakyModule : Module Nat :=
  { Module.inert Nat with
    execute := fun _ _ => do
      let w ← Run.world
      Run.setWorld { w with user := w.user + 1 }
      if w.user = 0 then
        pure (.error { ModuleError.new .moduleExecuteError "backend down" with retryable := some true })
      else pure (.ok (.string "done")) }

/-- Three retries, without waiting. -/
def threeRetries : RetryMiddleware Nat where
  config := { maxRetries := 3, baseDelayMs := 0, jitter := false }
  sleep := fun _ w => w

/-- The standard strategy over that module and that middleware. -/
def flakyExecutor : Executor Nat :=
  { Executor.over flakyModule (standardStrategy .lax) with
    middlewareManager := fun _ => [threeRetries.toMiddleware] }

theorem flakyExecutor_onlyRecovers : flakyExecutor.middlewareManager.OnlyRecovers threeRetries := by
  intro w mw hmw
  exact .inl (List.mem_singleton.mp hmw)

/-- Once the module succeeds, its output is what the call gives. -/
theorem retry_endToEnd_flaky :
    RetriesEndToEnd 3
      (flakyExecutor.executions 4 "billing.charge" (.string "charge 10") none none (World.fresh 1))
      (.ok (.string "done")) := by
  have hreturn : (flakyExecutor.call 4 "billing.charge" (.string "charge 10") none none
      (World.fresh 1)).outcome = .ok (some (.ok (.string "done"))) := rfl
  obtain ⟨answer, hanswer, hretries, -⟩ := retry_endToEnd flakyExecutor_onlyRecovers hreturn
  obtain rfl := Option.some.inj hanswer
  refine hretries.mpr (.inr ?_)
  rintro first hfirst ⟨e, rfl, -⟩
  cases hfirst

/-- The call of the module succeeds with its own inputs, after one execution that failed. -/
theorem flaky_call_fabricates :
    (flakyExecutor.call 4 "billing.charge" (.string "charge 10") none none (World.fresh 0)).outcome =
        .ok (some (.ok (.string "charge 10"))) ∧
      ¬ReturnsLastExecution 3
        (flakyExecutor.executions 4 "billing.charge" (.string "charge 10") none none (World.fresh 0))
        (.ok (.string "charge 10")) := by
  refine ⟨rfl, fun h => ?_⟩
  have hanswered := h.answered
  cases hanswered

end Executor

end Apcore
