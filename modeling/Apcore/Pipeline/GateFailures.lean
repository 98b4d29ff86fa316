import Apcore.Pipeline.Runs
import Apcore.Pipeline.ApprovalGate

/-! # `Pipeline.GateFailures` — a failed gate stops the run

The ways a run goes on after a step error are `ignore_errors`, the filing of errors in a dry run and
the recovery by an `on_step_error` hook. No strategy holds a gate that ignores its errors, so
outside a dry run only a recovery is left. -/

namespace Apcore

namespace PipelineEngine

variable {σ : Type}

/-- The step at an index is a built-in gate. -/
def GateAt (strategy : ExecutionStrategy σ) (i : Nat) : Prop :=
  ∃ step gate, strategy.steps[i]? = some step ∧ step.builtinGate = some gate

/-- `P i post` holds of every gate `i` that failed outside a dry run, `post` being all that was
reported since. -/
def AfterGateFailures (strategy : ExecutionStrategy σ) (P : Nat → List (PipelineEvent σ) → Prop)
    (evs : List (PipelineEvent σ)) : Prop :=
  ∀ pre i ctx err post, evs = pre ++ .failed i ctx err :: post → GateAt strategy i →
    ctx.dryRun = false → P i post

/-- The failure at `i` was recovered, or no body was entered since. -/
def RecoveredOrStopped (i : Nat) (post : List (PipelineEvent σ)) : Prop :=
  .recovered i ∈ post ∨ ∀ j c, .body j c ∉ post

variable {strategy : ExecutionStrategy σ} {opts : RunOptions σ}

/-- What holds after the failures of both parts holds after those of the whole. -/
theorem AfterGateFailures.append {P Q : Nat → List (PipelineEvent σ) → Prop}
    {evs evs' : List (PipelineEvent σ)} (h : AfterGateFailures strategy P evs)
    (h' : AfterGateFailures strategy Q evs') (hPQ : ∀ i post, P i post → Q i (post ++ evs')) :
    AfterGateFailures strategy Q (evs ++ evs') := by
  intro pre i ctx err post heq hgate hlive
  rcases List.append_eq_append_iff.mp heq with ⟨mid, rfl, hevs'⟩ | ⟨mid, rfl, hmid⟩
  · exact h' mid i ctx err post hevs' hgate hlive
  · cases mid with
    | nil => exact h' [] i ctx err post (by simpa using hmid.symm) hgate hlive
    | cons e mid =>
      obtain ⟨rfl, rfl⟩ : e = .failed i ctx err ∧ post = mid ++ evs' := by
        simpa [eq_comm] using hmid
      exact hPQ i mid (h pre i ctx err mid rfl hgate hlive)

/-- No failure among the events, nothing to show. -/
theorem AfterGateFailures.of_none {P : Nat → List (PipelineEvent σ) → Prop}
    {evs : List (PipelineEvent σ)} (h : ∀ i ctx err, .failed i ctx err ∉ evs) :
    AfterGateFailures strategy P evs := by
  intro pre i ctx err post heq
  exact absurd (heq ▸ List.mem_append_right pre List.mem_cons_self) (h i ctx err)

/-- One failure, followed by no other. -/
theorem AfterGateFailures.failed_cons {P : Nat → List (PipelineEvent σ) → Prop} {i : Nat}
    {ctx : PipelineContext σ} {err : ModuleError} {evs : List (PipelineEvent σ)}
    (hrest : ∀ j c e, .failed j c e ∉ evs)
    (hP : GateAt strategy i → ctx.dryRun = false → P i evs) :
    AfterGateFailures strategy P (.failed i ctx err :: evs) := by
  intro pre j c e post heq hgate hlive
  cases pre with
  | nil =>
    obtain ⟨⟨rfl, rfl, rfl⟩, rfl⟩ : (i = j ∧ ctx = c ∧ err = e) ∧ evs = post := by simpa using heq
    exact hP hgate hlive
  | cons e' pre =>
    obtain ⟨-, rfl⟩ : PipelineEvent.failed i ctx err = e' ∧ evs = pre ++ .failed j c e :: post := by
      simpa using heq
    exact absurd (List.mem_append_right pre List.mem_cons_self) (hrest j c e)

/-! ## One turn -/

/-- A gate never ignores its errors: its strategy would not have been built. -/
theorem GateAt.ignoreErrors {i : Nat} {step : Step σ} (hgate : GateAt strategy i)
    (hstep : strategy.steps[i]? = some step) : step.ignoreErrors = false := by
  obtain ⟨step', gate, hstep', hgate⟩ := hgate
  obtain rfl : step = step' := Option.some.inj (hstep.symm.trans hstep')
  exact (strategy.gates_intact step (List.mem_of_getElem? hstep) gate hgate).1

/-- Within a turn, no body follows a failure; and a turn that goes on has recovered every failed
gate. -/
theorem turn_afterGateFailures {st : LoopState σ} {out : TurnEnd σ}
    {evs : List (PipelineEvent σ)} (h : TurnCase strategy opts st out evs) :
    AfterGateFailures strategy (fun _ post => ∀ j c, .body j c ∉ post) evs ∧
      ((∃ st', out = .ok (.inl st')) →
        AfterGateFailures strategy (fun i post => .recovered i ∈ post) evs) := by
  cases h with
  | past hstep => exact ⟨.of_none (by simp), fun _ => .of_none (by simp)⟩
  | passed hstep hpass => exact ⟨.of_none (by simp), fun _ => .of_none (by simp)⟩
  | unwound hstep hpass hhooks =>
    exact ⟨.of_none hhooks.no_failed, fun _ => .of_none hhooks.no_failed⟩
  | refused hstep hpass hhooks =>
    exact ⟨.of_none hhooks.no_failed, fun _ => .of_none hhooks.no_failed⟩
  | @entered step out evs evs' hstep hpass hhooks hbody =>
    -- the hooks before the body and the body itself are no failures
    have hhead : ∀ (P : Nat → List (PipelineEvent σ) → Prop), AfterGateFailures strategy P
        (evs ++ [.body st.idx st.ctx]) := by
      intro P
      refine .of_none fun j c e => ?_
      simpa using hhooks.no_failed j c e
    have hsplit : evs ++ .body st.idx st.ctx :: evs' = (evs ++ [.body st.idx st.ctx]) ++ evs' := by
      simp
    rw [hsplit]
    cases hbody with
    | unwound =>
      exact ⟨by simpa using hhead _, fun _ => by simpa using hhead _⟩
    | @failed ctx err _ evs' hleaves hcase =>
      refine ⟨(hhead fun _ _ => False).append (.failed_cons hcase.no_failed fun _ _ => hcase.no_body)
        fun _ _ h => h.elim, ?_⟩
      rintro ⟨st', rfl⟩
      exact (hhead fun _ _ => False).append
        (.failed_cons hcase.no_failed fun hgate hlive =>
          hcase.recovered_of_goesOn hlive (hgate.ignoreErrors hstep))
        fun _ _ h => h.elim
    | succeeded hleaves hcase =>
      have hno := hcase.hooks.no_failed
      exact ⟨(hhead fun _ _ => False).append (.of_none hno) fun _ _ h => h.elim,
        fun _ => (hhead fun _ _ => False).append (.of_none hno) fun _ _ h => h.elim⟩

/-! ## Whole runs -/

/-- In every run, each gate failure outside a dry run is recovered or followed by no body. -/
theorem run_recoveredOrStopped (strategy : ExecutionStrategy σ) (ctx : PipelineContext σ)
    (opts : RunOptions σ) :
    (runWithOptions strategy ctx opts).Ensures fun _ evs =>
      AfterGateFailures strategy RecoveredOrStopped evs := by
  refine runWithOptions_ensures ?_
  -- while the run goes on, every failed gate has been recovered
  refine loopFrom_ensures
    (I := fun _ evs => AfterGateFailures strategy (fun i post => .recovered i ∈ post) evs)
    ?_ ?_ _ (.of_none (by simp))
  · intro st evs hI _ out evs' hcase
    obtain ⟨hstopped, hrecovered⟩ := turn_afterGateFailures hcase
    unfold KeptBy
    split
    · rename_i st'
      exact hI.append (hrecovered ⟨st', rfl⟩) fun i post h => List.mem_append_left evs' h
    · have hlast : AfterGateFailures strategy RecoveredOrStopped evs' :=
        fun pre i ctx err post heq hgate hlive => .inr (hstopped pre i ctx err post heq hgate hlive)
      exact hI.append hlast fun i post h => .inl (List.mem_append_left evs' h)
  · intro st evs hI pre i ctx err post heq hgate hlive
    exact .inl (hI pre i ctx err post heq hgate hlive)

/-- **A failed gate stops the run.** Once a built-in gate has given an error outside a dry run, and
no `on_step_error` hook recovers it, no body of a step is entered any more. -/
theorem failed_gate_stops_run (strategy : ExecutionStrategy σ) (opts : RunOptions σ)
    (ctx : PipelineContext σ) (w : World σ) {pre post : List (PipelineEvent σ)} {i : Nat}
    {gateCtx : PipelineContext σ} {err : ModuleError} {step : Step σ} {gate : BuiltinGate}
    (hevents : (runWithOptions strategy ctx opts w).events = pre ++ .failed i gateCtx err :: post)
    (hstep : strategy.steps[i]? = some step) (hgate : step.builtinGate = some gate)
    (hlive : gateCtx.dryRun = false) (hunrecovered : .recovered i ∉ post) (j : Nat)
    (c : PipelineContext σ) : .body j c ∉ post := by
  have hrun := run_recoveredOrStopped strategy ctx opts w pre i gateCtx err post hevents
    ⟨step, gate, hstep, hgate⟩ hlive
  rcases hrun with hrecovered | hstopped
  · exact absurd hrecovered hunrecovered
  · exact hstopped j c

/-! ## A denial, with and without a recovery -/

/-- The access check, and the step it guards. -/
def guardedStrategy (middlewares : List (StepMiddleware Unit)) : ExecutionStrategy Unit where
  name := "guarded"
  steps := [BuiltinACLCheck.step, BuiltinReturnResult.step]
  stepMiddlewares := middlewares
  gates_intact := by simpa using ⟨BuiltinACLCheck.step_gateIntact, .of_none rfl⟩

/-- A call that is denied. -/
def deniedCall : PipelineContext Unit :=
  { PipelineContext.new "billing.charge" .null (.anonymous "trace" 0) "guarded" with
    acl := some .denyAll }

/-- A hook that recovers every error. -/
def recoverAll : StepMiddleware Unit :=
  { StepMiddleware.idle with onStepError := fun _ _ _ => pure (.ok (some .null)) }

/-- Without a recovery the denial ends the run. -/
theorem failed_gate_stops_run_denied : .body 1 deniedCall ∉ ([] : List (PipelineEvent Unit)) :=
  have hevents : (runWithOptions (guardedStrategy []) deniedCall {} (World.fresh ())).events =
      [.body 0 deniedCall] ++ .failed 0 deniedCall (.aclDenied none "billing.charge") :: [] := rfl
  failed_gate_stops_run (guardedStrategy []) {} deniedCall (World.fresh ()) hevents rfl rfl rfl
    (by simp) 1 deniedCall

/-- The call once its denial was recovered. -/
def recoveredCall : PipelineContext Unit :=
  ({ deniedCall with output := some .null } : PipelineContext Unit).record
    { name := "acl_check"
      result := { explanation := some ("recovered from: " ++
        (ModuleError.aclDenied none "billing.charge").display) }
      skipReason := some "error_recovered" }

/-- A recovered denial does not end it: the step behind the gate is entered. -/
theorem recovered_denial_runs_on :
    ¬ ∀ (strategy : ExecutionStrategy Unit) (opts : RunOptions Unit) (ctx : PipelineContext Unit)
      (w : World Unit) (pre post : List (PipelineEvent Unit)) (i : Nat)
      (gateCtx : PipelineContext Unit) (err : ModuleError) (step : Step Unit) (gate : BuiltinGate),
      (runWithOptions strategy ctx opts w).events = pre ++ .failed i gateCtx err :: post →
      strategy.steps[i]? = some step → step.builtinGate = some gate → gateCtx.dryRun = false →
      ∀ j c, .body j c ∉ post := by
  intro h
  have hno := h (guardedStrategy [recoverAll]) {} deniedCall (World.fresh ())
    [.hook .beforeStep 0 0, .body 0 deniedCall]
    [.hook .onStepError 0 0, .recovered 0, .hook .afterStep 0 0, .hook .beforeStep 1 0,
      .body 1 recoveredCall, .hook .afterStep 1 0] 0 deniedCall
    (.aclDenied none "billing.charge") BuiltinACLCheck.step .acl rfl rfl rfl rfl 1 recoveredCall
  exact hno (by simp)

end PipelineEngine

end Apcore
