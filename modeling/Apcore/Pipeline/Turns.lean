import Apcore.Pipeline.Engine

/-! # `Pipeline.Turns` — what one turn of the run loop can do

The inversion of `turn`, said once: `TurnCase` lists every way a turn can end, with what it reported
on its way. Every invariant of a run is derived from `turn_cases` and none unfolds `turn` again. -/

namespace Apcore

namespace PipelineEngine

open Run

variable {σ : Type}

/-! ## Hooks report nothing but hooks -/

/-- Only hooks of the given step. -/
def HooksOf (index : Nat) (evs : List (PipelineEvent σ)) : Prop :=
  ∀ e ∈ evs, ∃ kind mw, e = .hook kind index mw

theorem HooksOf.nil (index : Nat) : HooksOf index ([] : List (PipelineEvent σ)) := by
  intro e he
  cases he

theorem HooksOf.append {index : Nat} {evs evs' : List (PipelineEvent σ)} (h : HooksOf index evs)
    (h' : HooksOf index evs') : HooksOf index (evs ++ evs') := by
  intro e he
  exact (List.mem_append.mp he).elim (h e) (h' e)

theorem HooksOf.cons {index : Nat} {evs : List (PipelineEvent σ)} (kind : HookKind) (mw : Nat)
    (h : HooksOf index evs) : HooksOf index (.hook kind index mw :: evs) := by
  intro e he
  rcases List.mem_cons.mp he with rfl | he
  · exact ⟨kind, mw, rfl⟩
  · exact h e he

theorem HooksOf.no_body {index : Nat} {evs : List (PipelineEvent σ)} (h : HooksOf index evs)
    (j : Nat) (c : PipelineContext σ) : .body j c ∉ evs := by
  intro hmem
  obtain ⟨kind, mw, heq⟩ := h _ hmem
  cases heq

theorem HooksOf.no_failed {index : Nat} {evs : List (PipelineEvent σ)} (h : HooksOf index evs)
    (j : Nat) (c : PipelineContext σ) (e : ModuleError) : .failed j c e ∉ evs := by
  intro hmem
  obtain ⟨kind, mw, heq⟩ := h _ hmem
  cases heq

/-- One hook call, then what depends on its answer: the events stay hooks. -/
theorem ensures_hook {α β : Type} {index mw : Nat} {kind : HookKind} {x : Code σ α}
    {f : α → Traced σ β} (h : ∀ a, (f a).Ensures fun _ evs => HooksOf index evs) :
    (Run.report (.hook kind index mw) >>= fun _ => lift x >>= f : Traced σ β).Ensures
      fun _ evs => HooksOf index evs := by
  refine ensures_bind (P := fun _ evs => evs = [.hook kind index mw]) (ensures_report rfl) ?_ ?_
  · rintro p evs rfl
    exact (HooksOf.nil index).cons kind mw
  · rintro a evs rfl
    refine ensures_lift_bind (fun p => (HooksOf.nil index).cons kind mw) fun b w hb => ?_
    exact (h b).mono fun out evs hevs => hevs.cons kind mw

theorem beforeHooks_ensures (index : Nat) (state : PipelineState σ) :
    ∀ chain executed, (beforeHooks index state executed chain).Ensures fun _ evs =>
      HooksOf index evs := by
  intro chain
  induction chain with
  | nil => exact fun executed => ensures_pure (HooksOf.nil index)
  | cons mw rest ih =>
    intro executed
    refine ensures_hook fun answer => ?_
    cases answer with
    | ok u => exact ih _
    | error e => exact ensures_pure (HooksOf.nil index)

theorem unwindBefore_ensures (index : Nat) (state : PipelineState σ) (error : ModuleError) :
    ∀ executed, (unwindBefore index state error executed).Ensures fun _ evs =>
      HooksOf index evs := by
  intro executed
  induction executed with
  | nil => exact ensures_pure (HooksOf.nil index)
  | cons mw rest ih => exact ensures_hook fun _ => ih

theorem onErrorHooks_ensures (index : Nat) (state : PipelineState σ) (error : ModuleError) :
    ∀ chain, (onErrorHooks index state error chain).Ensures fun _ evs => HooksOf index evs := by
  intro chain
  induction chain with
  | nil => exact ensures_pure (HooksOf.nil index)
  | cons mw rest ih =>
    refine ensures_hook fun answer => ?_
    rcases answer with e | (_ | value)
    · exact ensures_pure (HooksOf.nil index)
    · exact ih
    · exact ensures_pure (HooksOf.nil index)

theorem afterHooks_ensures (index : Nat) (state : PipelineState σ) (result : Json) :
    ∀ chain, (afterHooks index state result chain).Ensures fun _ evs => HooksOf index evs := by
  intro chain
  induction chain with
  | nil => exact ensures_pure (HooksOf.nil index)
  | cons mw rest ih =>
    refine ensures_hook fun answer => ?_
    cases answer with
    | ok u => exact ih
    | error e => exact ensures_pure (HooksOf.nil index)

/-! ## The cases of a turn -/

/-- The body of a step can end so. -/
def Leaves (step : Step σ) (ctx : PipelineContext σ) (result : Except ModuleError StepResult)
    (ctx' : PipelineContext σ) : Prop :=
  ∃ w, (executeTimed step ctx w).outcome = .ok (result, ctx')

/-- The ways a turn can end: with an unwinding, with the next state, or with the end of the run. -/
abbrev TurnEnd (σ : Type) := Except String (LoopState σ ⊕ EngineResult σ)

/-- What follows a body that gave an error. -/
inductive FailedCase (st : LoopState σ) (step : Step σ) (ctx : PipelineContext σ)
    (err : ModuleError) : TurnEnd σ → List (PipelineEvent σ) → Prop where
  /-- A dry run files the error and goes on. -/
  | filed (hdry : ctx.dryRun = true) : FailedCase st step ctx err (.ok (.inl
      { st with
        idx := st.idx + 1
        failedCapabilities := st.failedCapabilities ++ step.provides
        ctx := { ctx with preflightErrors := ctx.preflightErrors ++ [(step.name, err)] }.record
          (abortEntry step.name err) })) []
  | unwound {p : String} {evs : List (PipelineEvent σ)} (hdry : ctx.dryRun = false)
      (hhooks : HooksOf st.idx evs) : FailedCase st step ctx err (.error p) evs
  | aborted {traced : ModuleError} {evs : List (PipelineEvent σ)} (hdry : ctx.dryRun = false)
      (hhooks : HooksOf st.idx evs) :
      FailedCase st step ctx err
        (.ok (abortRun step ctx traced (.pipelineStepError step.name traced))) evs
  | ignored {entry : StepTrace} {evs : List (PipelineEvent σ)} (hdry : ctx.dryRun = false)
      (hignore : step.ignoreErrors = true) (hhooks : HooksOf st.idx evs) :
      FailedCase st step ctx err
        (.ok (.inl { st with idx := st.idx + 1, ctx := ctx.record entry })) evs
  /-- A hook recovered the error; the after-hooks then ran for the recovered step. -/
  | recovered {value : Json} {out : TurnEnd σ} {evs evs' : List (PipelineEvent σ)}
      (hdry : ctx.dryRun = false) (hhooks : HooksOf st.idx evs) (hhooks' : HooksOf st.idx evs')
      (hout : (∃ p, out = .error p) ∨
        (∃ e, out = .ok (abortRun step { ctx with output := some value } e
          (.pipelineStepError step.name e))) ∨
        (∃ entry, out = .ok (.inl (advance st step
          (({ ctx with output := some value } : PipelineContext σ).record entry))))) :
      FailedCase st step ctx err out (evs ++ .recovered st.idx :: evs')

/-- How the loop goes on after a step that succeeded and left `ctx`, its output on record. -/
inductive FlowCase (strategy : ExecutionStrategy σ) (opts : RunOptions σ) (st : LoopState σ)
    (step : Step σ) : TurnEnd σ → Prop where
  | next : FlowCase strategy opts st step (.ok (.inl { st with idx := st.idx + 1 }))
  | unwound {p : String} : FlowCase strategy opts st step (.error p)
  /-- The run is stopped by its predicate, or aborted by the step. -/
  | finished (success : Bool) (hstop : success = true → opts.until_.isSome) :
      FlowCase strategy opts st step (.ok (.inr (finish st.ctx success)))
  | skipped (target : String) :
      FlowCase strategy opts st step (.ok (skipTo strategy st step target))
  | refused (e : ModuleError) : FlowCase strategy opts st step (.ok (.inr (.error e, st.ctx)))

/-- What follows a body that succeeded. -/
inductive SucceededCase (strategy : ExecutionStrategy σ) (opts : RunOptions σ) (st : LoopState σ)
    (step : Step σ) (ctx : PipelineContext σ) (result : StepResult) :
    TurnEnd σ → List (PipelineEvent σ) → Prop where
  | unwound {p : String} {evs : List (PipelineEvent σ)} (hhooks : HooksOf st.idx evs) :
      SucceededCase strategy opts st step ctx result (.error p) evs
  | aborted {e : ModuleError} {evs : List (PipelineEvent σ)} (hhooks : HooksOf st.idx evs) :
      SucceededCase strategy opts st step ctx result
        (.ok (abortRun step ctx e (.pipelineStepError step.name e))) evs
  | flowed {out : TurnEnd σ} {evs : List (PipelineEvent σ)} (hhooks : HooksOf st.idx evs)
      (hflow : FlowCase strategy opts
        { st with
          ctx := ctx.record { name := step.name, result }
          stepOutputs := Fields.insert step.name ctx.output st.stepOutputs } step out) :
      SucceededCase strategy opts st step ctx result out evs

/-- What follows the entry of a body. -/
inductive BodyCase (strategy : ExecutionStrategy σ) (opts : RunOptions σ) (st : LoopState σ)
    (step : Step σ) : TurnEnd σ → List (PipelineEvent σ) → Prop where
  | unwound {p : String} : BodyCase strategy opts st step (.error p) []
  | failed {ctx : PipelineContext σ} {err : ModuleError} {out : TurnEnd σ}
      {evs : List (PipelineEvent σ)} (hleaves : Leaves step st.ctx (.error err) ctx)
      (hcase : FailedCase st step ctx err out evs) :
      BodyCase strategy opts st step out (.failed st.idx ctx err :: evs)
  | succeeded {ctx : PipelineContext σ} {result : StepResult} {out : TurnEnd σ}
      {evs : List (PipelineEvent σ)} (hleaves : Leaves step st.ctx (.ok result) ctx)
      (hcase : SucceededCase strategy opts st step ctx result out evs) :
      BodyCase strategy opts st step out evs

/-- Every way a turn can end. -/
inductive TurnCase (strategy : ExecutionStrategy σ) (opts : RunOptions σ) (st : LoopState σ) :
    TurnEnd σ → List (PipelineEvent σ) → Prop where
  | past (hstep : strategy.steps[st.idx]? = none) : TurnCase strategy opts st (.ok (.inl st)) []
  | passed {step : Step σ} {st' : LoopState σ} (hstep : strategy.steps[st.idx]? = some step)
      (hpass : passOver opts st step = some st') : TurnCase strategy opts st (.ok (.inl st')) []
  | unwound {step : Step σ} {p : String} {evs : List (PipelineEvent σ)}
      (hstep : strategy.steps[st.idx]? = some step) (hpass : passOver opts st step = none)
      (hhooks : HooksOf st.idx evs) : TurnCase strategy opts st (.error p) evs
  /-- A `before_step` hook failed. -/
  | refused {step : Step σ} {e : ModuleError} {evs : List (PipelineEvent σ)}
      (hstep : strategy.steps[st.idx]? = some step) (hpass : passOver opts st step = none)
      (hhooks : HooksOf st.idx evs) (hcode : e.code = .middlewareChainError) :
      TurnCase strategy opts st (.ok (abortRun step st.ctx e e)) evs
  | entered {step : Step σ} {out : TurnEnd σ} {evs evs' : List (PipelineEvent σ)}
      (hstep : strategy.steps[st.idx]? = some step) (hpass : passOver opts st step = none)
      (hhooks : HooksOf st.idx evs) (hbody : BodyCase strategy opts st step out evs') :
      TurnCase strategy opts st out (evs ++ .body st.idx st.ctx :: evs')

/-! ## What the cases report -/

theorem FailedCase.no_body {st : LoopState σ} {step : Step σ} {ctx : PipelineContext σ}
    {err : ModuleError} {out : TurnEnd σ} {evs : List (PipelineEvent σ)}
    (h : FailedCase st step ctx err out evs) (j : Nat) (c : PipelineContext σ) :
    .body j c ∉ evs := by
  cases h with
  | filed => simp
  | unwound hdry hhooks => exact hhooks.no_body j c
  | aborted hdry hhooks => exact hhooks.no_body j c
  | ignored hdry hignore hhooks => exact hhooks.no_body j c
  | recovered hdry hhooks hhooks' => simpa using ⟨hhooks.no_body j c, hhooks'.no_body j c⟩

theorem FailedCase.no_failed {st : LoopState σ} {step : Step σ} {ctx : PipelineContext σ}
    {err : ModuleError} {out : TurnEnd σ} {evs : List (PipelineEvent σ)}
    (h : FailedCase st step ctx err out evs) (j : Nat) (c : PipelineContext σ) (e : ModuleError) :
    .failed j c e ∉ evs := by
  cases h with
  | filed => simp
  | unwound hdry hhooks => exact hhooks.no_failed j c e
  | aborted hdry hhooks => exact hhooks.no_failed j c e
  | ignored hdry hignore hhooks => exact hhooks.no_failed j c e
  | recovered hdry hhooks hhooks' => simpa using ⟨hhooks.no_failed j c e, hhooks'.no_failed j c e⟩

/-- Outside a dry run, and where errors are not ignored, only a recovery lets the run go on. -/
theorem FailedCase.recovered_of_goesOn {st st' : LoopState σ} {step : Step σ}
    {ctx : PipelineContext σ} {err : ModuleError} {evs : List (PipelineEvent σ)}
    (h : FailedCase st step ctx err (.ok (.inl st')) evs) (hlive : ctx.dryRun = false)
    (hignore : step.ignoreErrors = false) : .recovered st.idx ∈ evs := by
  cases h with
  | filed hdry => simp [hdry] at hlive
  | ignored _ h => simp [h] at hignore
  | recovered => simp

/-- After a body that succeeded there are only hooks. -/
theorem SucceededCase.hooks {strategy : ExecutionStrategy σ} {opts : RunOptions σ}
    {st : LoopState σ} {step : Step σ} {ctx : PipelineContext σ} {result : StepResult}
    {out : TurnEnd σ} {evs : List (PipelineEvent σ)} (h : SucceededCase strategy opts st step ctx result out evs) :
    HooksOf st.idx evs := by
  cases h with
  | unwound hhooks => exact hhooks
  | aborted hhooks => exact hhooks
  | flowed hhooks => exact hhooks

/-- The bodies a turn enters are that of its step, in the state the turn began in. -/
theorem turn_body {strategy : ExecutionStrategy σ} {opts : RunOptions σ} {st : LoopState σ}
    {out : TurnEnd σ} {evs : List (PipelineEvent σ)} (hcase : TurnCase strategy opts st out evs)
    {i : Nat} {c : PipelineContext σ} (h : .body i c ∈ evs) : i = st.idx ∧ c = st.ctx := by
  cases hcase with
  | past => cases h
  | passed => cases h
  | unwound hstep hpass hhooks => exact absurd h (hhooks.no_body i c)
  | refused hstep hpass hhooks => exact absurd h (hhooks.no_body i c)
  | entered hstep hpass hhooks hbody =>
    rcases List.mem_append.mp h with h | h
    · exact absurd h (hhooks.no_body i c)
    rcases List.mem_cons.mp h with h | h
    · cases h
      exact ⟨rfl, rfl⟩
    cases hbody with
    | unwound => cases h
    | failed hleaves hcase =>
      rcases List.mem_cons.mp h with h | h
      · cases h
      · exact absurd h (hcase.no_body i c)
    | succeeded hleaves hcase => exact absurd h (hcase.hooks.no_body i c)

/-- A body that failed was entered in the same turn. -/
theorem turn_failed {strategy : ExecutionStrategy σ} {opts : RunOptions σ} {st : LoopState σ}
    {out : TurnEnd σ} {evs : List (PipelineEvent σ)} (hcase : TurnCase strategy opts st out evs)
    {i : Nat} {c : PipelineContext σ} {err : ModuleError} (h : .failed i c err ∈ evs) :
    .body i st.ctx ∈ evs := by
  cases hcase with
  | past => cases h
  | passed => cases h
  | unwound hstep hpass hhooks => exact absurd h (hhooks.no_failed i c err)
  | refused hstep hpass hhooks => exact absurd h (hhooks.no_failed i c err)
  | entered hstep hpass hhooks hbody =>
    have h := (List.mem_append.mp h).resolve_left (hhooks.no_failed i c err)
    have h := (List.mem_cons.mp h).resolve_left (by simp)
    cases hbody with
    | unwound => cases h
    | failed hleaves hcase =>
      rcases List.mem_cons.mp h with h | h
      · cases h
        simp
      · exact absurd h (hcase.no_failed i c err)
    | succeeded hleaves hcase => exact absurd h (hcase.hooks.no_failed i c err)

/-! ## The inversion -/

theorem stepRecovered_cases (strategy : ExecutionStrategy σ) (st : LoopState σ) (step : Step σ)
    (ctx : PipelineContext σ) (err : ModuleError) (value : Json) :
    (stepRecovered strategy st step ctx err value).Ensures fun out evs => HooksOf st.idx evs ∧
      ((∃ p, out = .error p) ∨
        (∃ e, out = .ok (abortRun step { ctx with output := some value } e
          (.pipelineStepError step.name e))) ∨
        (∃ entry, out = .ok (.inl (advance st step
          (({ ctx with output := some value } : PipelineContext σ).record entry))))) := by
  unfold stepRecovered
  refine ensures_bind (afterHooks_ensures _ _ _ _) (fun p evs h => ⟨h, .inl ⟨p, rfl⟩⟩) ?_
  intro answer evs h
  cases answer with
  | error e => exact ensures_pure ⟨by simpa using h, .inr (.inl ⟨e, rfl⟩)⟩
  | ok u => exact ensures_pure ⟨by simpa using h, .inr (.inr ⟨_, rfl⟩)⟩

theorem stepFailed_cases (strategy : ExecutionStrategy σ) (st : LoopState σ) (step : Step σ)
    (ctx : PipelineContext σ) (err : ModuleError) :
    (stepFailed strategy st step ctx err).Ensures (FailedCase st step ctx err) := by
  unfold stepFailed
  by_cases hdry : ctx.dryRun = true
  · rw [if_pos hdry]
    exact ensures_pure (.filed hdry)
  · rw [if_neg hdry]
    have hdry : ctx.dryRun = false := by simpa using hdry
    refine ensures_bind (onErrorHooks_ensures _ _ _ _) (fun p evs h => .unwound hdry h) ?_
    intro answer evs h
    rcases answer with e | (_ | value)
    · exact ensures_pure (by simpa using FailedCase.aborted hdry h)
    · by_cases hignore : step.ignoreErrors = true
      · simp only [if_pos hignore]
        exact ensures_pure (by simpa using FailedCase.ignored hdry hignore h)
      · simp only [if_neg hignore]
        exact ensures_pure (by simpa using FailedCase.aborted hdry h)
    · refine ensures_bind (P := fun _ evs' => evs' = [.recovered st.idx]) (ensures_report rfl) ?_ ?_
      · rintro p evs' rfl
        exact @FailedCase.recovered _ _ _ _ _ value _ _ _ hdry h (HooksOf.nil _) (.inl ⟨p, rfl⟩)
      · rintro u evs' rfl
        refine (stepRecovered_cases strategy st step ctx err value).mono fun out evs' h' => ?_
        simpa using FailedCase.recovered hdry h h'.1 h'.2

theorem followAction_cases (strategy : ExecutionStrategy σ) (opts : RunOptions σ)
    (st : LoopState σ) (step : Step σ) (result : StepResult) :
    (followAction strategy opts st step result).Ensures fun out evs =>
      evs = [] ∧ FlowCase strategy opts st step out := by
  unfold followAction
  split
  · cases huntil : opts.until_ with
    | none => exact ensures_pure ⟨rfl, .next⟩
    | some predicate =>
      refine ensures_lift_bind (fun p => ⟨rfl, .unwound⟩) fun stop w _ => ?_
      cases stop with
      | true => exact ensures_pure ⟨rfl, .finished true fun _ => by simp [huntil]⟩
      | false => exact ensures_pure ⟨rfl, .next⟩
  · exact ensures_pure ⟨rfl, .finished false (by simp)⟩
  · exact ensures_pure ⟨rfl, .skipped _⟩
  · exact ensures_pure ⟨rfl, .refused _⟩

theorem stepSucceeded_cases (strategy : ExecutionStrategy σ) (opts : RunOptions σ)
    (st : LoopState σ) (step : Step σ) (ctx : PipelineContext σ) (result : StepResult) :
    (stepSucceeded strategy opts st step ctx result).Ensures
      (SucceededCase strategy opts st step ctx result) := by
  unfold stepSucceeded
  refine ensures_bind (afterHooks_ensures _ _ _ _) (fun p evs h => .unwound h) ?_
  intro answer evs h
  cases answer with
  | error e => exact ensures_pure (by simpa using SucceededCase.aborted h)
  | ok u =>
    refine (followAction_cases strategy opts _ step result).mono ?_
    rintro out evs' ⟨rfl, hflow⟩
    simpa using SucceededCase.flowed h hflow

theorem runStep_cases (strategy : ExecutionStrategy σ) (opts : RunOptions σ) (st : LoopState σ)
    {step : Step σ} (hstep : strategy.steps[st.idx]? = some step)
    (hpass : passOver opts st step = none) :
    (runStep strategy opts st step).Ensures (TurnCase strategy opts st) := by
  unfold runStep
  refine ensures_bind (beforeHooks_ensures _ _ _ _) (fun p evs h => .unwound hstep hpass h) ?_
  rintro ⟨failure, executed⟩ evs h
  cases failure with
  | some err =>
    unfold beforeFailed
    refine ensures_bind (unwindBefore_ensures _ _ _ _) ?_ ?_
    · intro p evs' h'
      exact .unwound hstep hpass (h.append h')
    · intro u evs' h'
      refine ensures_pure (.refused hstep hpass ?_ rfl)
      simpa using h.append h'
  | none =>
    refine ensures_bind (P := fun _ evs' => evs' = [.body st.idx st.ctx]) (ensures_report rfl) ?_ ?_
    · rintro p evs' rfl
      exact .entered hstep hpass h .unwound
    · rintro u evs' rfl
      intro w
      cases hbody : (executeTimed step st.ctx w).outcome with
      | error p =>
        rw [bind_apply_error (p := p) (by simpa using hbody)]
        exact .entered hstep hpass h .unwound
      | ok ended =>
        obtain ⟨result, ctx⟩ := ended
        rw [bind_apply_ok (a := (result, ctx)) (by simpa using hbody)]
        cases result with
        | error err =>
          have hcase : (Run.report (.failed st.idx ctx err) >>= fun _ =>
              stepFailed strategy st step ctx err : Traced σ _).Ensures
              fun out evs' => ∃ evs'', evs' = .failed st.idx ctx err :: evs'' ∧
                FailedCase st step ctx err out evs'' :=
            fun w => ⟨_, rfl, stepFailed_cases strategy st step ctx err w⟩
          obtain ⟨evs'', hevs, hfailed⟩ := hcase (executeTimed step st.ctx w).world
          have := TurnCase.entered hstep hpass h (.failed ⟨w, hbody⟩ hfailed)
          simpa [hevs] using this
        | ok result =>
          have hcase := stepSucceeded_cases strategy opts st step ctx result
            (executeTimed step st.ctx w).world
          have := TurnCase.entered hstep hpass h (.succeeded ⟨w, hbody⟩ hcase)
          simpa using this

/-- **The inversion of `turn`.** -/
theorem turn_cases (strategy : ExecutionStrategy σ) (opts : RunOptions σ) (st : LoopState σ) :
    (turn strategy opts st).Ensures (TurnCase strategy opts st) := by
  unfold turn
  cases hstep : strategy.steps[st.idx]? with
  | none => exact ensures_pure (.past hstep)
  | some step =>
    cases hpass : passOver opts st step with
    | some st' => simpa only [hpass] using ensures_pure (.passed hstep hpass)
    | none => simpa only [hpass] using runStep_cases strategy opts st hstep hpass

end PipelineEngine

end Apcore
