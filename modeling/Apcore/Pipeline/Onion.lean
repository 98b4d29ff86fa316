import Mathlib.Data.List.Range
import Apcore.Pipeline.Runs

/-! # `Pipeline.Onion` — the hooks around a step

The `before_step` hooks of a step enter it in registration order, and a pass over the entered
middlewares in reverse closes it. Which pass that is, and whether it goes to its end, depends on how
the step ends: `TurnHooks` lists the cases of one turn. Since the index only moves up, the hooks of a
step are those of one turn, and `onion_of_run` says what they look like in every run that returns. -/

namespace Apcore

namespace PipelineEngine

open Run

variable {σ : Type}

/-! ## The hooks of a step among the events -/

/-- The hook and the middleware, for a hook of the given step. -/
def hookAt (index : Nat) : PipelineEvent σ → Option (HookKind × Nat)
  | .hook kind i mw => if i = index then some (kind, mw) else none
  | _ => none

/-- The hooks called for a step, in order. -/
def hooksAt (index : Nat) (evs : List (PipelineEvent σ)) : List (HookKind × Nat) :=
  evs.filterMap (hookAt index)

/-- The body of the step failed in a dry run, which files the error and goes on. -/
def FiledAt (index : Nat) (evs : List (PipelineEvent σ)) : Prop :=
  ∃ ctx err, .failed index ctx err ∈ evs ∧ ctx.dryRun = true

/-- The calls of one hook over a list of middlewares. -/
def called (kind : HookKind) (index : Nat) (mws : List (StepMiddleware σ × Nat)) :
    List (PipelineEvent σ) :=
  mws.map fun mw => .hook kind index mw.2

@[simp] theorem hooksAt_append (index : Nat) (evs evs' : List (PipelineEvent σ)) :
    hooksAt index (evs ++ evs') = hooksAt index evs ++ hooksAt index evs' :=
  List.filterMap_append

@[simp] theorem hooksAt_nil (index : Nat) : hooksAt index ([] : List (PipelineEvent σ)) = [] := rfl

@[simp] theorem hooksAt_body (index j : Nat) (ctx : PipelineContext σ)
    (evs : List (PipelineEvent σ)) : hooksAt index (.body j ctx :: evs) = hooksAt index evs := rfl

@[simp] theorem hooksAt_failed (index j : Nat) (ctx : PipelineContext σ) (err : ModuleError)
    (evs : List (PipelineEvent σ)) : hooksAt index (.failed j ctx err :: evs) = hooksAt index evs :=
  rfl

@[simp] theorem hooksAt_recovered (index j : Nat) (evs : List (PipelineEvent σ)) :
    hooksAt index (.recovered j :: evs) = hooksAt index evs := rfl

theorem hooksAt_called (kind : HookKind) (index : Nat) (mws : List (StepMiddleware σ × Nat)) :
    hooksAt index (called kind index mws) = (mws.map (·.2)).map (kind, ·) := by
  unfold hooksAt called
  rw [List.filterMap_map, List.map_map, ← List.filterMap_eq_map]
  congr 1
  funext mw
  simp [hookAt]

theorem hooksAt_called_ne {index j : Nat} (kind : HookKind) (hj : j ≠ index)
    (mws : List (StepMiddleware σ × Nat)) : hooksAt j (called kind index mws) = [] := by
  unfold hooksAt called
  rw [List.filterMap_map, List.filterMap_eq_nil_iff]
  intro mw _
  simp [hookAt, Ne.symm hj]

/-! ## One pass of hooks -/

/-- The hook of a middleware can fail with the error, for a step of the given name. -/
def HookFails (mw : StepMiddleware σ) (stepName : String) (e : ModuleError) : HookKind → Prop
  | .beforeStep => ∃ state w, (mw.beforeStep stepName state w).outcome = .ok (.error e)
  | .afterStep => ∃ state result w, (mw.afterStep stepName state result w).outcome = .ok (.error e)
  | .onStepError => ∃ state err w, (mw.onStepError stepName state err w).outcome = .ok (.error e)

/-- A pass of a closing hook over middlewares: it reaches the last, or the hook of one fails. -/
inductive Pass (kind : HookKind) (index : Nat) (stepName : String)
    (mws : List (StepMiddleware σ × Nat)) : List (PipelineEvent σ) → Option ModuleError → Prop where
  | all : Pass kind index stepName mws (called kind index mws) none
  | cut {t : Nat} {mw : StepMiddleware σ × Nat} {e : ModuleError} (hmw : mws[t]? = some mw)
      (hfails : HookFails mw.1 stepName e kind) :
      Pass kind index stepName mws (called kind index (mws.take (t + 1))) (some e)

/-- One more middleware in front, whose hook did not fail. -/
theorem Pass.cons {kind : HookKind} {index : Nat} {stepName : String}
    {mws : List (StepMiddleware σ × Nat)} {evs : List (PipelineEvent σ)} {failure : Option ModuleError}
    (mw : StepMiddleware σ × Nat) (h : Pass kind index stepName mws evs failure) :
    Pass kind index stepName (mw :: mws) (.hook kind index mw.2 :: evs) failure := by
  cases h with
  | all => exact .all
  | @cut t _ _ hmw hfails => exact .cut (t := t + 1) hmw hfails

/-- The hook of the first middleware fails. -/
theorem Pass.fails {kind : HookKind} {index : Nat} {stepName : String}
    {mws : List (StepMiddleware σ × Nat)} {mw : StepMiddleware σ × Nat} {e : ModuleError}
    (h : HookFails mw.1 stepName e kind) :
    Pass kind index stepName (mw :: mws) [.hook kind index mw.2] (some e) :=
  .cut (t := 0) rfl h

/-- `before_step` enters middlewares from the front: all of them, unless one fails. -/
theorem beforeHooks_returns (index : Nat) (state : PipelineState σ) :
    ∀ mws executed, (beforeHooks index state executed mws).Returns fun ended evs =>
      ∃ t, evs = called .beforeStep index (mws.take t) ∧
        ended.2 = (mws.take t).reverse ++ executed ∧ (ended.1 = none → mws.take t = mws) := by
  intro mws
  induction mws with
  | nil => exact fun executed => returns_pure ⟨0, rfl, rfl, fun _ => rfl⟩
  | cons mw rest ih =>
    intro executed
    refine returns_report_bind (returns_lift_bind fun answer w _ => ?_)
    cases answer with
    | error e => exact returns_pure ⟨1, rfl, rfl, fun h => by cases h⟩
    | ok u =>
      refine (ih (mw :: executed)).mono ?_
      rintro ended evs ⟨t, hevs, hran, hall⟩
      refine ⟨t + 1, ?_, ?_, fun h => ?_⟩
      · rw [hevs]
        rfl
      · rw [hran, List.take_succ_cons, List.reverse_cons, List.append_assoc]
        rfl
      · rw [List.take_succ_cons, hall h]

/-- Unwinding a failed `before_step` tells every middleware it is given. -/
theorem unwindBefore_returns (index : Nat) (state : PipelineState σ) (error : ModuleError) :
    ∀ mws, (unwindBefore index state error mws).Returns fun _ evs =>
      evs = called .onStepError index mws := by
  intro mws
  induction mws with
  | nil => exact returns_pure rfl
  | cons mw rest ih =>
    refine returns_report_bind (returns_lift_bind fun answer w _ => ih.mono ?_)
    rintro u evs rfl
    rfl

/-- `on_step_error` goes to the end, to a recovery, or to a hook that fails. -/
theorem onErrorHooks_returns (index : Nat) (state : PipelineState σ) (error : ModuleError) :
    ∀ mws, (onErrorHooks index state error mws).Returns fun answer evs =>
      match answer with
      | .ok none => Pass .onStepError index state.stepName mws evs none
      | .ok (some _) => ∃ t, evs = called .onStepError index (mws.take t)
      | .error e => Pass .onStepError index state.stepName mws evs (some e) := by
  intro mws
  induction mws with
  | nil => exact returns_pure .all
  | cons mw rest ih =>
    refine returns_report_bind (returns_lift_bind fun answer w hanswer => ?_)
    rcases answer with e | (_ | value)
    · exact returns_pure (.fails ⟨state, error, w, hanswer⟩)
    · refine ih.mono fun answer evs h => ?_
      rcases answer with e | (_ | value)
      · exact h.cons mw
      · exact h.cons mw
      · obtain ⟨t, rfl⟩ := h
        exact ⟨t + 1, rfl⟩
    · exact returns_pure ⟨1, rfl⟩

/-- `after_step` goes to the end, or to a hook that fails. -/
theorem afterHooks_returns (index : Nat) (state : PipelineState σ) (result : Json) :
    ∀ mws, (afterHooks index state result mws).Returns fun answer evs =>
      match answer with
      | .ok () => Pass .afterStep index state.stepName mws evs none
      | .error e => Pass .afterStep index state.stepName mws evs (some e) := by
  intro mws
  induction mws with
  | nil => exact returns_pure .all
  | cons mw rest ih =>
    refine returns_report_bind (returns_lift_bind fun answer w hanswer => ?_)
    cases answer with
    | error e => exact returns_pure (.fails ⟨state, result, w, hanswer⟩)
    | ok u =>
      refine ih.mono fun answer evs h => ?_
      cases answer with
      | error e => exact h.cons mw
      | ok u => exact h.cons mw

/-! ## The hooks of one turn -/

/-- A run whose closing pass failed ends with the error of the hook. -/
def EndsWith (stepName : String) (failure : Option ModuleError)
    (left : LoopState σ ⊕ EngineResult σ) : Prop :=
  ∀ e, failure = some e → ∃ ctx, left = .inr (.error (.pipelineStepError stepName e), ctx)

theorem EndsWith.none (stepName : String) (left : LoopState σ ⊕ EngineResult σ) :
    EndsWith stepName none left := by
  intro e he
  cases he

theorem EndsWith.aborted (step : Step σ) (ctx : PipelineContext σ) (e : ModuleError) :
    EndsWith step.name (some e) (abortRun step ctx e (.pipelineStepError step.name e)) := by
  intro e' he
  cases he
  exact ⟨_, rfl⟩

/-- What follows a body that failed outside a dry run. -/
inductive FailedHooks (strategy : ExecutionStrategy σ) (index : Nat) (stepName : String)
    (left : LoopState σ ⊕ EngineResult σ) : List (PipelineEvent σ) → Prop where
  | told {evs : List (PipelineEvent σ)} {failure : Option ModuleError}
      (hpass : Pass .onStepError index stepName (chain strategy).reverse evs failure)
      (hend : EndsWith stepName failure left) : FailedHooks strategy index stepName left evs
  | recovered {t : Nat} {evs : List (PipelineEvent σ)} {failure : Option ModuleError}
      (hpass : Pass .afterStep index stepName (chain strategy).reverse evs failure)
      (hend : EndsWith stepName failure left) :
      FailedHooks strategy index stepName left
        (called .onStepError index ((chain strategy).reverse.take t) ++ .recovered index :: evs)

/-- Every way the hooks of a turn can go, where the turn returns. -/
inductive TurnHooks (strategy : ExecutionStrategy σ) (st : LoopState σ)
    (left : LoopState σ ⊕ EngineResult σ) : List (PipelineEvent σ) → Prop where
  /-- The step is passed over. -/
  | unentered : TurnHooks strategy st left []
  /-- A `before_step` hook failed: those that ran, the failing one included, are told. -/
  | refused (t : Nat) : TurnHooks strategy st left
      (called .beforeStep st.idx ((chain strategy).take t) ++
        called .onStepError st.idx ((chain strategy).take t).reverse)
  /-- The body failed in a dry run: no closing hook is called. -/
  | filed {ctx : PipelineContext σ} {err : ModuleError} (hdry : ctx.dryRun = true) :
      TurnHooks strategy st left
        (called .beforeStep st.idx (chain strategy) ++
          [.body st.idx st.ctx, .failed st.idx ctx err])
  | failed {step : Step σ} {ctx : PipelineContext σ} {err : ModuleError}
      {evs : List (PipelineEvent σ)} (hstep : strategy.steps[st.idx]? = some step)
      (hdry : ctx.dryRun = false) (hhooks : FailedHooks strategy st.idx step.name left evs) :
      TurnHooks strategy st left
        (called .beforeStep st.idx (chain strategy) ++
          .body st.idx st.ctx :: .failed st.idx ctx err :: evs)
  | succeeded {step : Step σ} {evs : List (PipelineEvent σ)} {failure : Option ModuleError}
      (hstep : strategy.steps[st.idx]? = some step)
      (hpass : Pass .afterStep st.idx step.name (chain strategy).reverse evs failure)
      (hend : EndsWith step.name failure left) :
      TurnHooks strategy st left
        (called .beforeStep st.idx (chain strategy) ++ .body st.idx st.ctx :: evs)

theorem stepRecovered_returns (strategy : ExecutionStrategy σ) (st : LoopState σ) (step : Step σ)
    (ctx : PipelineContext σ) (err : ModuleError) (value : Json) :
    (stepRecovered strategy st step ctx err value).Returns fun left evs =>
      ∃ failure, Pass .afterStep st.idx step.name (chain strategy).reverse evs failure ∧
        EndsWith step.name failure left := by
  unfold stepRecovered
  refine returns_bind (afterHooks_returns _ _ _ _) fun answer evs h => ?_
  cases answer with
  | error e =>
    refine returns_pure ⟨some e, ?_, .aborted step _ e⟩
    rw [List.append_nil]
    exact h
  | ok u =>
    refine returns_pure ⟨none, ?_, .none _ _⟩
    rw [List.append_nil]
    exact h

theorem stepFailed_returns (strategy : ExecutionStrategy σ) (st : LoopState σ) (step : Step σ)
    (ctx : PipelineContext σ) (err : ModuleError) (hdry : ctx.dryRun = false) :
    (stepFailed strategy st step ctx err).Returns
      (FailedHooks strategy st.idx step.name) := by
  unfold stepFailed
  rw [if_neg (by simp [hdry])]
  refine returns_bind (onErrorHooks_returns _ _ _ _) fun answer evs h => ?_
  rcases answer with e | (_ | value)
  · refine returns_pure ?_
    rw [List.append_nil]
    exact .told h (.aborted step ctx e)
  · have htold : ∀ left, FailedHooks strategy st.idx step.name left evs :=
      fun left => .told h (.none _ _)
    by_cases hignore : step.ignoreErrors = true
    · simp only [if_pos hignore]
      exact returns_pure (by simpa using htold _)
    · simp only [if_neg hignore]
      exact returns_pure (by simpa using htold _)
  · obtain ⟨t, rfl⟩ := h
    refine returns_report_bind ((stepRecovered_returns strategy st step ctx err value).mono ?_)
    rintro left evs ⟨failure, hpass, hend⟩
    exact .recovered hpass hend

theorem stepSucceeded_returns (strategy : ExecutionStrategy σ) (opts : RunOptions σ)
    (st : LoopState σ) (step : Step σ) (ctx : PipelineContext σ) (result : StepResult) :
    (stepSucceeded strategy opts st step ctx result).Returns fun left evs =>
      ∃ failure, Pass .afterStep st.idx step.name (chain strategy).reverse evs failure ∧
        EndsWith step.name failure left := by
  unfold stepSucceeded
  refine returns_bind (afterHooks_returns _ _ _ _) fun answer evs h => ?_
  cases answer with
  | error e =>
    refine returns_pure ⟨some e, ?_, .aborted step _ e⟩
    rw [List.append_nil]
    exact h
  | ok u =>
    intro w left hleft
    obtain ⟨hnil, -⟩ := followAction_cases strategy opts _ step result w
    refine ⟨none, ?_, .none _ _⟩
    rw [hnil, List.append_nil]
    exact h

theorem runStep_returns (strategy : ExecutionStrategy σ) (opts : RunOptions σ) (st : LoopState σ)
    {step : Step σ} (hstep : strategy.steps[st.idx]? = some step) :
    (runStep strategy opts st step).Returns (TurnHooks strategy st) := by
  unfold runStep
  refine returns_bind (beforeHooks_returns _ _ _ _) ?_
  rintro ⟨failure, executed⟩ evs ⟨t, rfl, hran, hall⟩
  cases failure with
  | some err =>
    obtain rfl : executed = ((chain strategy).take t).reverse := by simpa using hran
    refine returns_bind (unwindBefore_returns _ _ _ _) ?_
    rintro u evs rfl
    refine returns_pure ?_
    rw [List.append_nil]
    exact .refused t
  | none =>
    rw [hall rfl]
    refine returns_report_bind (returns_lift_bind fun ended w _ => ?_)
    obtain ⟨result, ctx⟩ := ended
    cases result with
    | error err =>
      refine returns_report_bind ?_
      by_cases hdry : ctx.dryRun = true
      · unfold stepFailed
        rw [if_pos hdry]
        exact returns_pure (.filed hdry)
      · have hlive : ctx.dryRun = false := by simpa using hdry
        exact (stepFailed_returns strategy st step ctx err hlive).mono fun left evs h =>
          .failed hstep hlive h
    | ok result =>
      refine (stepSucceeded_returns strategy opts st step ctx result).mono ?_
      rintro left evs ⟨failure, hpass, hend⟩
      exact .succeeded hstep hpass hend

/-- **The hooks of a turn.** -/
theorem turn_returns (strategy : ExecutionStrategy σ) (opts : RunOptions σ) (st : LoopState σ) :
    (turn strategy opts st).Returns (TurnHooks strategy st) := by
  unfold turn
  cases hstep : strategy.steps[st.idx]? with
  | none => exact returns_pure .unentered
  | some step =>
    cases hpass : passOver opts st step with
    | some st' => simpa only [hpass] using returns_pure TurnHooks.unentered
    | none => simpa only [hpass] using runStep_returns strategy opts st hstep

/-! ## The onion -/

/-- The run returned the error of a closing hook of the middleware, for the step. -/
def FailedWith (strategy : ExecutionStrategy σ) (index : Nat) (result : EngineResult σ) (m : Nat) :
    Prop :=
  ∃ mw step kind e, strategy.stepMiddlewares[m]? = some mw ∧ strategy.steps[index]? = some step ∧
    kind ≠ .beforeStep ∧ HookFails mw step.name e kind ∧
    result.1 = .error (.pipelineStepError step.name e)

/-- The middleware is closed by one of the hooks, or one behind it failed to close. -/
def ClosedOnce (fails : Nat → Prop) (closing : List Nat) (j : Nat) : Prop :=
  closing.count j = 1 ∨ ∃ m ∈ closing, j < m ∧ fails m

/-- The discipline of the hooks of a step: first `before_step` of the first `entered` middlewares,
then `on_step_error` of `told`, then `after_step` of `closed`, each of the two in reverse. -/
structure Onion (recovered filed : Prop) (fails : Nat → Prop) (hooks : List (HookKind × Nat))
    (entered : Nat) (told closed : List Nat) : Prop where
  hooks_eq : hooks = (List.range entered).map (.beforeStep, ·) ++ told.map (.onStepError, ·) ++
    closed.map (.afterStep, ·)
  told_reverse : told.Pairwise (· > ·)
  closed_reverse : closed.Pairwise (· > ·)
  only_entered : ∀ j ∈ told ++ closed, j < entered
  one_pass : ¬ recovered → told = [] ∨ closed = []
  closes : ¬ recovered → ¬ filed → ∀ j < entered, ClosedOnce fails (told ++ closed) j
  recovered_closes : recovered → ∀ j < entered, ClosedOnce fails closed j

/-- The discipline of a step, read off the events. -/
def OnionAt (strategy : ExecutionStrategy σ) (fails : Nat → Prop) (index : Nat)
    (evs : List (PipelineEvent σ)) : Prop :=
  ∃ entered ≤ strategy.stepMiddlewares.length, ∃ told closed,
    Onion (.recovered index ∈ evs) (FiledAt index evs) fails (hooksAt index evs) entered told closed

theorem ClosedOnce.mono {fails fails' : Nat → Prop} {closing : List Nat} {j : Nat}
    (h : ClosedOnce fails closing j) (hfails : ∀ m, fails m → fails' m) :
    ClosedOnce fails' closing j := by
  rcases h with hone | ⟨m, hm, hlt, hfail⟩
  · exact .inl hone
  · exact .inr ⟨m, hm, hlt, hfails m hfail⟩

theorem OnionAt.mono {strategy : ExecutionStrategy σ} {fails fails' : Nat → Prop} {index : Nat}
    {evs : List (PipelineEvent σ)} (h : OnionAt strategy fails index evs)
    (hfails : ∀ m, fails m → fails' m) : OnionAt strategy fails' index evs := by
  obtain ⟨entered, hle, told, closed, honion⟩ := h
  refine ⟨entered, hle, told, closed, honion.hooks_eq, honion.told_reverse, honion.closed_reverse,
    honion.only_entered, honion.one_pass, fun hrec hfiled j hj => ?_, fun hrec j hj => ?_⟩
  · exact (honion.closes hrec hfiled j hj).mono hfails
  · exact (honion.recovered_closes hrec j hj).mono hfails

/-- Nothing is reported of a step. -/
structure Quiet (index : Nat) (evs : List (PipelineEvent σ)) : Prop where
  hooks : hooksAt index evs = []
  recovered : .recovered index ∉ evs
  failed : ∀ ctx err, .failed index ctx err ∉ evs

theorem Quiet.nil (index : Nat) : Quiet index ([] : List (PipelineEvent σ)) :=
  ⟨rfl, by simp, by simp⟩

theorem Quiet.append {index : Nat} {evs evs' : List (PipelineEvent σ)} (h : Quiet index evs)
    (h' : Quiet index evs') : Quiet index (evs ++ evs') := by
  refine ⟨?_, ?_, fun ctx err => ?_⟩
  · rw [hooksAt_append, h.hooks, h'.hooks]
    rfl
  · rw [List.mem_append, not_or]
    exact ⟨h.recovered, h'.recovered⟩
  · rw [List.mem_append, not_or]
    exact ⟨h.failed ctx err, h'.failed ctx err⟩

/-- Events that are quiet about a step do not count for it. -/
theorem OnionAt.append_quiet {strategy : ExecutionStrategy σ} {fails : Nat → Prop} {index : Nat}
    {evs evs' : List (PipelineEvent σ)} (h : OnionAt strategy fails index evs)
    (hquiet : Quiet index evs') : OnionAt strategy fails index (evs ++ evs') := by
  have hrecovered : .recovered index ∈ evs ++ evs' ↔ .recovered index ∈ evs := by
    simp [hquiet.recovered]
  have hfiled : FiledAt index (evs ++ evs') ↔ FiledAt index evs := by
    simp [FiledAt, hquiet.failed]
  unfold OnionAt
  rw [hooksAt_append, hquiet.hooks, List.append_nil, propext hrecovered, propext hfiled]
  exact h

theorem OnionAt.quiet_append {strategy : ExecutionStrategy σ} {fails : Nat → Prop} {index : Nat}
    {evs evs' : List (PipelineEvent σ)} (h : OnionAt strategy fails index evs')
    (hquiet : Quiet index evs) : OnionAt strategy fails index (evs ++ evs') := by
  have hrecovered : .recovered index ∈ evs ++ evs' ↔ .recovered index ∈ evs' := by
    simp [hquiet.recovered]
  have hfiled : FiledAt index (evs ++ evs') ↔ FiledAt index evs' := by
    simp [FiledAt, hquiet.failed]
  unfold OnionAt
  rw [hooksAt_append, hquiet.hooks, List.nil_append, propext hrecovered, propext hfiled]
  exact h

/-- A step of which nothing is reported was not entered. -/
theorem OnionAt.of_quiet (strategy : ExecutionStrategy σ) (fails : Nat → Prop) {index : Nat}
    {evs : List (PipelineEvent σ)} (h : Quiet index evs) : OnionAt strategy fails index evs := by
  refine ⟨0, Nat.zero_le _, [], [], h.hooks, .nil, .nil, by simp, fun _ => .inl rfl, ?_, ?_⟩
  · exact fun _ _ j hj => absurd hj (Nat.not_lt_zero j)
  · exact fun _ j hj => absurd hj (Nat.not_lt_zero j)

/-! ## Positions -/

theorem chain_positions (strategy : ExecutionStrategy σ) :
    (chain strategy).map (·.2) = List.range strategy.stepMiddlewares.length := by
  unfold chain
  rw [List.zipIdx_map_snd, List.range_eq_range']

theorem chain_reverse_positions (strategy : ExecutionStrategy σ) :
    (chain strategy).reverse.map (·.2) = (List.range strategy.stepMiddlewares.length).reverse := by
  rw [List.map_reverse, chain_positions]

theorem range_reverse_pairwise (n : Nat) : (List.range n).reverse.Pairwise (· > ·) :=
  List.pairwise_reverse.mpr List.pairwise_lt_range

/-- A full pass closes every position once. -/
theorem closedOnce_reverse (fails : Nat → Prop) {n j : Nat} (hj : j < n) :
    ClosedOnce fails (List.range n).reverse j := by
  left
  rw [List.count_reverse]
  exact List.count_eq_one_of_mem List.nodup_range (List.mem_range.mpr hj)

/-- The middlewares a closing pass reaches: in reverse, and all of them but for those in front of
one whose hook failed. -/
theorem Pass.positions {strategy : ExecutionStrategy σ} {kind : HookKind} {index : Nat}
    {step : Step σ} {evs : List (PipelineEvent σ)} {failure : Option ModuleError}
    {left : LoopState σ ⊕ EngineResult σ} (hstep : strategy.steps[index]? = some step)
    (hkind : kind ≠ .beforeStep)
    (hpass : Pass kind index step.name (chain strategy).reverse evs failure)
    (hend : EndsWith step.name failure left) :
    ∃ closing : List Nat, hooksAt index evs = closing.map (kind, ·) ∧ closing.Pairwise (· > ·) ∧
      (∀ j ∈ closing, j < strategy.stepMiddlewares.length) ∧
      ∀ j < strategy.stepMiddlewares.length,
        ClosedOnce (FailedWith strategy index (conclude left)) closing j := by
  have hsorted := range_reverse_pairwise strategy.stepMiddlewares.length
  cases hpass with
  | all =>
    refine ⟨(List.range strategy.stepMiddlewares.length).reverse, ?_, hsorted, ?_, ?_⟩
    · rw [hooksAt_called, chain_reverse_positions]
    · intro j hj
      simpa using hj
    · exact fun j hj => closedOnce_reverse _ hj
  | @cut t mw e hmw hfails =>
    refine ⟨(List.range strategy.stepMiddlewares.length).reverse.take (t + 1), ?_,
      hsorted.sublist (List.take_sublist _ _), ?_, ?_⟩
    · rw [hooksAt_called, List.map_take, chain_reverse_positions]
    · intro j hj
      simpa using List.mem_of_mem_take hj
    intro j hj
    have hmem : j ∈ (List.range strategy.stepMiddlewares.length).reverse := by simpa using hj
    rw [← List.take_append_drop (t + 1) (List.range _).reverse, List.mem_append] at hmem
    rcases hmem with htake | hdrop
    · left
      refine List.count_eq_one_of_mem ?_ htake
      exact (List.nodup_reverse.mpr List.nodup_range).sublist (List.take_sublist _ _)
    · -- the pass stopped at a middleware that stands behind this one
      right
      have hpos : (List.range strategy.stepMiddlewares.length).reverse[t]? = some mw.2 := by
        rw [← chain_reverse_positions, List.getElem?_map, hmw]
        rfl
      have hin : mw.2 ∈ (List.range strategy.stepMiddlewares.length).reverse.take (t + 1) := by
        refine List.mem_iff_getElem?.mpr ⟨t, ?_⟩
        rw [List.getElem?_take_of_lt (Nat.lt_succ_self t)]
        exact hpos
      have hlt : mw.2 > j := by
        rw [← List.take_append_drop (t + 1) (List.range _).reverse] at hsorted
        exact (List.pairwise_append.mp hsorted).2.2 _ hin _ hdrop
      obtain ⟨ctx, hleft⟩ := hend e rfl
      refine ⟨mw.2, hin, hlt, mw.1, step, kind, e, ?_, hstep, hkind, hfails, ?_⟩
      · have hchain : mw ∈ chain strategy := List.mem_reverse.mp (List.mem_of_getElem? hmw)
        exact List.mem_zipIdx_iff_getElem?.mp hchain
      · rw [hleft]
        rfl

/-! ## The onion of a turn -/

theorem not_mem_called {kind : HookKind} {index : Nat} {mws : List (StepMiddleware σ × Nat)}
    {event : PipelineEvent σ} (h : event ∈ called kind index mws) :
    ∃ m, event = .hook kind index m := by
  obtain ⟨mw, -, heq⟩ := List.mem_map.mp h
  exact ⟨mw.2, heq.symm⟩

theorem Pass.called {kind : HookKind} {index : Nat} {stepName : String}
    {mws : List (StepMiddleware σ × Nat)} {evs : List (PipelineEvent σ)} {failure : Option ModuleError}
    (h : Pass kind index stepName mws evs failure) :
    ∃ mws', evs = PipelineEngine.called kind index mws' := by
  cases h with
  | all => exact ⟨_, rfl⟩
  | cut => exact ⟨_, rfl⟩

theorem quiet_called {kind : HookKind} {index j : Nat} (hj : j ≠ index)
    (mws : List (StepMiddleware σ × Nat)) : Quiet j (called kind index mws) := by
  refine ⟨hooksAt_called_ne kind hj mws, fun h => ?_, fun ctx err h => ?_⟩
  · obtain ⟨m, hm⟩ := not_mem_called h
    cases hm
  · obtain ⟨m, hm⟩ := not_mem_called h
    cases hm

theorem quiet_body {index j : Nat} (ctx : PipelineContext σ) {evs : List (PipelineEvent σ)}
    (h : Quiet j evs) : Quiet j (.body index ctx :: evs) :=
  ⟨h.hooks, by simpa using h.recovered, by simpa using h.failed⟩

theorem quiet_failed {index j : Nat} (hj : j ≠ index) (ctx : PipelineContext σ) (err : ModuleError)
    {evs : List (PipelineEvent σ)} (h : Quiet j evs) : Quiet j (.failed index ctx err :: evs) :=
  ⟨h.hooks, by simpa using h.recovered, by simpa [hj] using h.failed⟩

/-- A turn is quiet about the other steps. -/
theorem TurnHooks.quiet {strategy : ExecutionStrategy σ} {st : LoopState σ}
    {left : LoopState σ ⊕ EngineResult σ} {evs : List (PipelineEvent σ)}
    (h : TurnHooks strategy st left evs) {j : Nat} (hj : j ≠ st.idx) : Quiet j evs := by
  have hopened := @quiet_called σ .beforeStep _ _ hj (chain strategy)
  cases h with
  | unentered => exact .nil j
  | refused t => exact (quiet_called hj _).append (quiet_called hj _)
  | filed hdry => exact hopened.append (quiet_body _ (quiet_failed hj _ _ (.nil j)))
  | failed hstep hdry hhooks =>
    refine hopened.append (quiet_body _ (quiet_failed hj _ _ ?_))
    cases hhooks with
    | told hpass hend =>
      obtain ⟨mws, rfl⟩ := hpass.called
      exact quiet_called hj mws
    | recovered hpass hend =>
      obtain ⟨mws, rfl⟩ := hpass.called
      have hclosed := @quiet_called σ .afterStep _ _ hj mws
      refine (quiet_called hj _).append ⟨hclosed.hooks, ?_, by simpa using hclosed.failed⟩
      simpa [hj] using hclosed.recovered
  | succeeded hstep hpass hend =>
    obtain ⟨mws, rfl⟩ := hpass.called
    exact hopened.append (quiet_body _ (quiet_called hj mws))

/-- **The onion of a turn.** -/
theorem TurnHooks.onion {strategy : ExecutionStrategy σ} {st : LoopState σ}
    {left : LoopState σ ⊕ EngineResult σ} {evs : List (PipelineEvent σ)}
    (h : TurnHooks strategy st left evs) :
    OnionAt strategy (FailedWith strategy st.idx (conclude left)) st.idx evs := by
  have hopened : hooksAt st.idx (called .beforeStep st.idx (chain strategy)) =
      (List.range strategy.stepMiddlewares.length).map (.beforeStep, ·) := by
    rw [hooksAt_called, chain_positions]
  have hnone : ∀ kind mws event, (∀ m, event ≠ .hook kind st.idx m) →
      event ∉ @called σ kind st.idx mws := by
    intro kind mws event hne hmem
    obtain ⟨m, hm⟩ := not_mem_called hmem
    exact hne m hm
  cases h with
  | unentered => exact .of_quiet _ _ (.nil _)
  | refused t =>
    have hpositions : ((chain strategy).take t).map (·.2) =
        List.range (min t strategy.stepMiddlewares.length) := by
      rw [List.map_take, chain_positions, List.take_range]
    refine ⟨min t strategy.stepMiddlewares.length, Nat.min_le_right _ _,
      (List.range (min t strategy.stepMiddlewares.length)).reverse, [], ?_,
      range_reverse_pairwise _, .nil, by simp, fun _ => .inr rfl, ?_, ?_⟩
    · rw [hooksAt_append, hooksAt_called, hooksAt_called, List.map_reverse, hpositions]
      simp
    · intro _ _ j hj
      rw [List.append_nil]
      exact closedOnce_reverse _ hj
    · intro hrec
      rcases List.mem_append.mp hrec with hrec | hrec
      · exact absurd hrec (hnone _ _ _ (by simp))
      · exact absurd hrec (hnone _ _ _ (by simp))
  | @filed ctx err hdry =>
    refine ⟨_, le_rfl, [], [], ?_, .nil, .nil, by simp, fun _ => .inl rfl, ?_, ?_⟩
    · rw [hooksAt_append, hopened]
      simp
    · intro _ hfiled
      exact absurd ⟨ctx, err, by simp, hdry⟩ hfiled
    · intro hrec
      rcases List.mem_append.mp hrec with hrec | hrec
      · exact absurd hrec (hnone _ _ _ (by simp))
      · simp at hrec
  | @failed step ctx err evs hstep hdry hhooks =>
    cases hhooks with
    | told hpass hend =>
      obtain ⟨told, htold, hreverse, hentered, hcloses⟩ :=
        hpass.positions hstep (by simp) hend
      refine ⟨_, le_rfl, told, [], ?_, hreverse, .nil, by simpa using hentered,
        fun _ => .inr rfl, ?_, ?_⟩
      · rw [hooksAt_append, hopened, hooksAt_body, hooksAt_failed, htold]
        simp
      · intro _ _ j hj
        rw [List.append_nil]
        exact hcloses j hj
      · intro hrec
        obtain ⟨mws, rfl⟩ := hpass.called
        rcases List.mem_append.mp hrec with hrec | hrec
        · exact absurd hrec (hnone _ _ _ (by simp))
        · have hin : .recovered st.idx ∈ @called σ .onStepError st.idx mws := by simpa using hrec
          exact absurd hin (hnone _ _ _ (by simp))
    | @recovered t evs failure hpass hend =>
      obtain ⟨closed, hclosed, hreverse, hentered, hcloses⟩ :=
        hpass.positions hstep (by simp) hend
      refine ⟨_, le_rfl, (List.range strategy.stepMiddlewares.length).reverse.take t, closed, ?_,
        (range_reverse_pairwise _).sublist (List.take_sublist _ _), hreverse, ?_, ?_, ?_, ?_⟩
      · rw [hooksAt_append, hopened, hooksAt_body, hooksAt_failed, hooksAt_append, hooksAt_called,
          List.map_take, chain_reverse_positions, hooksAt_recovered, hclosed, List.append_assoc]
      · intro j hj
        rcases List.mem_append.mp hj with hj | hj
        · simpa using List.mem_of_mem_take hj
        · exact hentered j hj
      · exact fun hrec => absurd (by simp) hrec
      · exact fun hrec => absurd (by simp) hrec
      · exact fun _ => hcloses
  | succeeded hstep hpass hend =>
    obtain ⟨closed, hclosed, hreverse, hentered, hcloses⟩ := hpass.positions hstep (by simp) hend
    refine ⟨_, le_rfl, [], closed, ?_, .nil, hreverse, by simpa using hentered,
      fun _ => .inl rfl, fun _ _ => hcloses, fun _ => hcloses⟩
    rw [hooksAt_append, hopened, hooksAt_body, hclosed]
    simp

/-! ## The onion of a run -/

/-- Where a run goes on, no closing hook has failed. -/
theorem not_failedWith_next (strategy : ExecutionStrategy σ) (index : Nat) (st : LoopState σ)
    (m : Nat) : ¬ FailedWith strategy index (conclude (.inl st)) m := by
  rintro ⟨mw, step, kind, e, -, -, -, -, hresult⟩
  cases hresult

theorem loopFrom_onion (strategy : ExecutionStrategy σ) (opts : RunOptions σ)
    (ctx : PipelineContext σ) :
    (loopFrom strategy opts (start ctx)).Returns fun left evs =>
      ∀ i, OnionAt strategy (FailedWith strategy i (conclude left)) i evs := by
  refine (loop_returns
    (I := fun st evs => (∀ i, OnionAt strategy (fun _ => False) i evs) ∧
      ∀ i, st.idx ≤ i → Quiet i evs)
    (Q := fun left evs => ∀ i, OnionAt strategy (FailedWith strategy i (conclude left)) i evs)
    ?_ ?_ _ _ [] ⟨fun i => .of_quiet _ _ (.nil i), fun i _ => .nil i⟩).mono fun left evs h => h
  · rintro st evs ⟨honion, hquiet⟩ hgo w left hleft
    have hhooks := turn_returns strategy opts st w left hleft
    have hcase := turn_cases strategy opts st w
    rw [hleft] at hcase
    -- the step of the turn was quiet before, the others are quiet in the turn
    have hnow : ∀ i, OnionAt strategy
        (fun m => FailedWith strategy i (conclude left) m) i
        (evs ++ (turn strategy opts st w).events) := by
      intro i
      by_cases hi : i = st.idx
      · subst hi
        exact hhooks.onion.quiet_append (hquiet _ le_rfl)
      · exact ((honion i).append_quiet (hhooks.quiet hi)).mono fun m h => h.elim
    cases left with
    | inr result => exact hnow
    | inl st' =>
      have hlt := turn_advances hgo hcase
      refine ⟨fun i => (hnow i).mono fun m h => not_failedWith_next strategy i st' m h, ?_⟩
      intro i hi
      exact (hquiet i (by omega)).append (hhooks.quiet (by omega))
  · rintro st evs ⟨honion, -⟩ i
    exact (honion i).mono fun m h => h.elim

/-- **The onion discipline of every run that returns.** For each step the hooks are `before_step` of
the first middlewares, then the closing hooks in reverse and of those only. Where the step is not
recovered there is one closing pass, and, unless a dry run filed the failure of its body, each of them
is closed once but for those in front of one whose closing hook ended the run. Where the step is
recovered, the `after_step` pass does so. -/
theorem onion_of_run (strategy : ExecutionStrategy σ) (ctx : PipelineContext σ)
    (opts : RunOptions σ) (w : World σ) (result : EngineResult σ)
    (hreturns : (runWithOptions strategy ctx opts w).outcome = .ok result) (i : Nat) :
    OnionAt strategy (FailedWith strategy i result) i (runWithOptions strategy ctx opts w).events := by
  have hrun : (runWithOptions strategy ctx opts).Returns fun result evs =>
      ∀ i, OnionAt strategy (FailedWith strategy i result) i evs := by
    unfold runWithOptions
    refine returns_bind (loopFrom_onion strategy opts ctx) fun left evs h => returns_pure ?_
    rw [List.append_nil]
    exact h
  exact hrun w result hreturns i

/-! ### A recovered step -/

/-- One step, whose body fails. -/
def failingStrategy (middlewares : List (StepMiddleware Unit)) : ExecutionStrategy Unit where
  name := "failing"
  steps := [{
    name := "fetch"
    execute := fun ctx => pure (.error (.new .generalInternalError "down"), ctx) }]
  stepMiddlewares := middlewares
  gates_intact := by simpa using Step.GateIntact.of_none rfl

/-- A hook that recovers every failure. -/
def recovering : StepMiddleware Unit :=
  { StepMiddleware.idle with onStepError := fun _ _ _ => pure (.ok (some .null)) }

/-- What a run of the failing step reports under some middlewares. -/
def failingRun (middlewares : List (StepMiddleware Unit)) :
    Ran String (World Unit) (PipelineEvent Unit) (EngineResult Unit) :=
  runWithOptions (failingStrategy middlewares) (.new "billing.charge" .null (.anonymous "trace" 0)
    "failing") {} (World.fresh ())

/-- The hooks of a step that two idle middlewares see fail. -/
theorem onion_of_run_idle :
    ∃ result, (failingRun [.idle, .idle]).outcome = .ok result ∧
      OnionAt (failingStrategy [.idle, .idle]) (FailedWith (failingStrategy [.idle, .idle]) 0 result)
        0 (failingRun [.idle, .idle]).events :=
  ⟨_, rfl, onion_of_run (failingStrategy [.idle, .idle]) _ {} _ _ rfl 0⟩

/-- The middleware that recovers a step is told of the error and then closed. -/
theorem recovered_step_closes_twice :
    ¬ ∀ (strategy : ExecutionStrategy Unit) (ctx : PipelineContext Unit) (opts : RunOptions Unit)
      (w : World Unit) (result : EngineResult Unit),
      (runWithOptions strategy ctx opts w).outcome = .ok result → ∀ i j,
      (.beforeStep, j) ∈ hooksAt i (runWithOptions strategy ctx opts w).events →
      ((hooksAt i (runWithOptions strategy ctx opts w).events).filter fun hook =>
        hook.1 ≠ .beforeStep ∧ hook.2 = j).length = 1 := by
  intro h
  have hhooks : hooksAt 0 (failingRun [recovering]).events =
      [(.beforeStep, 0), (.onStepError, 0), (.afterStep, 0)] := rfl
  have hone := h (failingStrategy [recovering]) _ {} _ _ rfl 0 0
    (show (.beforeStep, 0) ∈ hooksAt 0 (failingRun [recovering]).events by simp [hhooks])
  have htwo : ((hooksAt 0 (failingRun [recovering]).events).filter fun hook =>
      hook.1 ≠ .beforeStep ∧ hook.2 = 0).length = 2 := by
    rw [hhooks]
    decide
  exact absurd (htwo.symm.trans hone) (by decide)

end PipelineEngine

end Apcore
