import Apcore.Pipeline.Turns

/-! # `Pipeline.Runs` — what holds of whole runs

A turn that goes on moves the index up, so the fuel of `loopFrom` is always enough and the loop
satisfies the equation of a `while` loop. A history invariant kept by every case of a turn holds of
every run. -/

namespace Apcore

namespace PipelineEngine

open Run

variable {σ : Type}

/-! ## The index moves up -/

/-- A step that is passed over leaves at most an entry in the trace. -/
theorem passOver_spec {opts : RunOptions σ} {st st' : LoopState σ} {step : Step σ}
    (h : passOver opts st step = some st') :
    st'.idx = st.idx + 1 ∧
      (st'.ctx = st.ctx ∨ ∃ reason, st'.ctx = st.ctx.record (skippedEntry step.name reason)) := by
  unfold passOver at h
  split_ifs at h <;> cases h
  · exact ⟨rfl, .inl rfl⟩
  · exact ⟨rfl, .inr ⟨_, rfl⟩⟩
  · exact ⟨rfl, .inr ⟨_, rfl⟩⟩
  · exact ⟨rfl, .inr ⟨_, rfl⟩⟩

/-- The context after a jump: the skipped steps have left entries in the trace. -/
def markSkipped (skipped : List (Step σ)) (ctx : PipelineContext σ) : PipelineContext σ :=
  skipped.foldl (fun ctx s => ctx.record (skippedEntry s.name none)) ctx

/-- A jump ends behind the step, and changes the context by its trace only. -/
theorem skipTo_spec (strategy : ExecutionStrategy σ) (st : LoopState σ) (step : Step σ)
    (target : String) :
    (∃ st' skipped, skipTo strategy st step target = .inl st' ∧ st.idx < st'.idx ∧
      st'.ctx = markSkipped skipped st.ctx) ∨
    (∃ e, skipTo strategy st step target = .inr (.error e, st.ctx)) := by
  unfold skipTo
  cases htarget : (strategy.nameToIdx target).filter (st.idx < ·) with
  | none => exact .inr ⟨_, rfl⟩
  | some targetIdx =>
    have hlt : st.idx < targetIdx := by simpa using (Option.filter_eq_some_iff.mp htarget).2
    exact .inl ⟨_, _, rfl, hlt, rfl⟩

/-- Where the loop goes on, a turn moves the index up. -/
theorem turn_advances {strategy : ExecutionStrategy σ} {opts : RunOptions σ}
    {st st' : LoopState σ} {evs : List (PipelineEvent σ)} (hgo : goesOn strategy opts st = true)
    (h : TurnCase strategy opts st (.ok (.inl st')) evs) : st.idx < st'.idx := by
  cases h with
  | past hstep => simp [goesOn, hstep] at hgo
  | passed hstep hpass =>
    have := (passOver_spec hpass).1
    omega
  | entered hstep hpass hhooks hbody =>
    cases hbody with
    | failed hleaves hcase =>
      cases hcase with
      | filed => exact Nat.lt_succ_self _
      | ignored => exact Nat.lt_succ_self _
      | recovered hdry hhooks hhooks' hout =>
        obtain ⟨p, hp⟩ | ⟨e, he⟩ | ⟨entry, hentry⟩ := hout
        · cases hp
        · cases he
        · cases hentry
          exact Nat.lt_succ_self _
    | succeeded hleaves hcase =>
      cases hcase with
      | flowed hhooks hflow =>
        generalize hend : (Except.ok (Sum.inl st') : TurnEnd σ) = out at hflow
        cases hflow with
        | next =>
          cases hend
          exact Nat.lt_succ_self _
        | unwound => cases hend
        | finished => cases hend
        | refused => cases hend
        | skipped target =>
          rcases skipTo_spec strategy _ _ target with ⟨st'', skipped, hskip, hlt, -⟩ | ⟨e, hskip⟩
          · rw [hskip] at hend
            cases hend
            exact hlt
          · rw [hskip] at hend
            cases hend

/-! ## The loop -/

theorem goesOn_eq_true {strategy : ExecutionStrategy σ} {opts : RunOptions σ} {st : LoopState σ} :
    goesOn strategy opts st = true ↔
      ∃ step, strategy.steps[st.idx]? = some step ∧ opts.stopBeforeStep ≠ some step.name := by
  unfold goesOn
  cases strategy.steps[st.idx]? with
  | none => simp
  | some step => simp

/-- No step is left where the measure of the loop is 0. -/
theorem goesOn_of_past {strategy : ExecutionStrategy σ} {opts : RunOptions σ} (st : LoopState σ)
    (h : strategy.steps.length - st.idx = 0) : goesOn strategy opts st = false := by
  have hnone : strategy.steps[st.idx]? = none := List.getElem?_eq_none (by omega)
  simp [goesOn, hnone]

/-- Every turn that goes on lowers the number of steps left. -/
theorem turn_lowers (strategy : ExecutionStrategy σ) (opts : RunOptions σ) (st : LoopState σ)
    (w : World σ) (st' : LoopState σ) (hgo : goesOn strategy opts st = true)
    (h : (turn strategy opts st w).outcome = .ok (.inl st')) :
    strategy.steps.length - st'.idx < strategy.steps.length - st.idx := by
  obtain ⟨step, hstep, -⟩ := goesOn_eq_true.mp hgo
  have hlt : st.idx < strategy.steps.length := (List.getElem?_eq_some_iff.mp hstep).1
  have hcase := turn_cases strategy opts st w
  rw [h] at hcase
  have := turn_advances hgo hcase
  omega

/-- The loop goes on from where a turn left it. -/
def loopOn (strategy : ExecutionStrategy σ) (opts : RunOptions σ) :
    LoopState σ ⊕ EngineResult σ → Traced σ (LoopState σ ⊕ EngineResult σ)
  | .inl st => loopFrom strategy opts st
  | .inr result => pure (.inr result)

/-- **The loop is a `while` loop**: its fuel is always enough. -/
theorem loopFrom_eq (strategy : ExecutionStrategy σ) (opts : RunOptions σ) (st : LoopState σ) :
    loopFrom strategy opts st =
      if goesOn strategy opts st then turn strategy opts st >>= loopOn strategy opts
      else pure (.inl st) := by
  have hfuel := loop_fuel (m := fun st : LoopState σ => strategy.steps.length - st.idx)
    (turn_lowers strategy opts) goesOn_of_past
  by_cases hgo : goesOn strategy opts st = true
  · rw [if_pos hgo]
    unfold loopFrom
    rw [hfuel _ (strategy.steps.length - st.idx + 1) st (le_refl _) (Nat.le_succ _), loop,
      if_pos hgo]
    ext w
    cases hturn : (turn strategy opts st w).outcome with
    | error p => rw [bind_apply_error hturn, bind_apply_error hturn]
    | ok next =>
      rw [bind_apply_ok hturn, bind_apply_ok hturn]
      cases next with
      | inr result => rfl
      | inl st' =>
        have hlt := turn_lowers strategy opts st w st' hgo hturn
        simp only [loopOn, loopFrom]
        rw [hfuel _ (strategy.steps.length - st'.idx) st' (by omega) (le_refl _)]
  · rw [if_neg hgo]
    unfold loopFrom
    cases strategy.steps.length - st.idx with
    | zero => rfl
    | succ n => rw [loop, if_neg hgo]

/-- A turn that goes on keeps the invariant, any other gives the result. -/
def KeptBy (I : LoopState σ → List (PipelineEvent σ) → Prop)
    (Q : TurnEnd σ → List (PipelineEvent σ) → Prop) (out : TurnEnd σ)
    (evs : List (PipelineEvent σ)) : Prop :=
  match out with
  | .ok (.inl st') => I st' evs
  | out => Q out evs

/-- **The history invariant of a run**, kept by every case of a turn. -/
theorem loopFrom_ensures {strategy : ExecutionStrategy σ} {opts : RunOptions σ}
    {I : LoopState σ → List (PipelineEvent σ) → Prop}
    {Q : TurnEnd σ → List (PipelineEvent σ) → Prop}
    (hturn : ∀ st evs, I st evs → goesOn strategy opts st = true → ∀ out evs',
      TurnCase strategy opts st out evs' → KeptBy I Q out (evs ++ evs'))
    (hexit : ∀ st evs, I st evs → Q (.ok (.inl st)) evs) (st : LoopState σ) (h : I st []) :
    (loopFrom strategy opts st).Ensures Q := by
  refine (loop_ensures (I := I) (Q := Q) ?_ hexit _ st [] h).mono fun out evs hQ => hQ
  intro st evs hI hgo w
  have hkept := hturn st evs hI hgo _ _ (turn_cases strategy opts st w)
  unfold KeptBy at hkept
  split at hkept <;> simp_all

/-- What the loop ensures, a run ensures of its result. -/
theorem runWithOptions_ensures {strategy : ExecutionStrategy σ} {ctx : PipelineContext σ}
    {opts : RunOptions σ} {Q : Except String (EngineResult σ) → List (PipelineEvent σ) → Prop}
    (h : (loopFrom strategy opts (start ctx)).Ensures fun out evs => Q (out.map conclude) evs) :
    (runWithOptions strategy ctx opts).Ensures Q := by
  unfold runWithOptions
  refine ensures_bind h (fun p evs hQ => hQ) fun left evs hQ => ensures_pure ?_
  rw [List.append_nil]
  exact hQ

/-! ## What the engine reports -/

/-- The events of the engine itself. -/
def ofEngine : PipelineEvent σ → Prop
  | .body .. | .failed .. | .recovered .. | .hook .. => True
  | .rerun .. | .preflight | .preview => False

theorem HooksOf.ofEngine {index : Nat} {evs : List (PipelineEvent σ)} (h : HooksOf index evs) :
    ∀ e ∈ evs, ofEngine e := by
  intro e he
  obtain ⟨kind, mw, rfl⟩ := h e he
  trivial

theorem turn_ofEngine {strategy : ExecutionStrategy σ} {opts : RunOptions σ} {st : LoopState σ}
    {out : TurnEnd σ} {evs : List (PipelineEvent σ)} (hcase : TurnCase strategy opts st out evs) :
    ∀ e ∈ evs, ofEngine e := by
  cases hcase with
  | past => simp
  | passed => simp
  | unwound hstep hpass hhooks => exact hhooks.ofEngine
  | refused hstep hpass hhooks => exact hhooks.ofEngine
  | entered hstep hpass hhooks hbody =>
    rw [List.forall_mem_append, List.forall_mem_cons]
    refine ⟨hhooks.ofEngine, trivial, ?_⟩
    cases hbody with
    | unwound => simp
    | failed hleaves hcase =>
      rw [List.forall_mem_cons]
      refine ⟨trivial, ?_⟩
      cases hcase with
      | filed => simp
      | unwound hdry hhooks => exact hhooks.ofEngine
      | aborted hdry hhooks => exact hhooks.ofEngine
      | ignored hdry hignore hhooks => exact hhooks.ofEngine
      | recovered hdry hhooks hhooks' =>
        rw [List.forall_mem_append, List.forall_mem_cons]
        exact ⟨hhooks.ofEngine, trivial, hhooks'.ofEngine⟩
    | succeeded hleaves hcase => exact hcase.hooks.ofEngine

/-- A run reports nothing but its own bodies and hooks. -/
theorem run_ofEngine (strategy : ExecutionStrategy σ) (ctx : PipelineContext σ)
    (opts : RunOptions σ) :
    (runWithOptions strategy ctx opts).Ensures fun _ evs => ∀ e ∈ evs, ofEngine e := by
  refine runWithOptions_ensures ?_
  refine loopFrom_ensures (I := fun _ evs => ∀ e ∈ evs, ofEngine e) ?_ (fun _ _ h => h) _ (by simp)
  intro st evs hevs _ out evs' hcase
  have hall : ∀ e ∈ evs ++ evs', ofEngine e := by
    rw [List.forall_mem_append]
    exact ⟨hevs, turn_ofEngine hcase⟩
  unfold KeptBy
  split <;> exact hall

/-! ## Strategies without step middlewares -/

/-- Without hooks, a step that is not passed over begins with its body. -/
theorem turn_plain {strategy : ExecutionStrategy σ} {opts : RunOptions σ} {st : LoopState σ}
    {step : Step σ} (hmw : strategy.stepMiddlewares = [])
    (hstep : strategy.steps[st.idx]? = some step) (hpass : passOver opts st step = none) :
    turn strategy opts st =
      (Run.report (.body st.idx st.ctx) >>= fun _ => lift (executeTimed step st.ctx) >>= fun
        | (.error err, ctx) =>
          Run.report (.failed st.idx ctx err) >>= fun _ => stepFailed strategy st step ctx err
        | (.ok result, ctx) => stepSucceeded strategy opts st step ctx result) := by
  simp only [turn, hstep, hpass, runStep, chain, hmw, List.zipIdx_nil, beforeHooks, pure_bind] <;>
    rfl

/-- A live run passes over no step that takes every module and lies in its segment. -/
theorem passOver_live {opts : RunOptions σ} {st : LoopState σ} {step : Step σ}
    (hlive : st.ctx.dryRun = false) (honly : opts.onlySteps = none)
    (hmatch : step.matchModules = none) : passOver opts st step = none := by
  simp [passOver, outsideSegment, missingDependency, unmatched, hlive, honly, hmatch]

/-! ## What the steps keep, the run keeps -/

/-- A property of the pipeline context that the bookkeeping of the engine cannot touch. -/
structure Bookkept (P : PipelineContext σ → Prop) : Prop where
  record : ∀ ctx entry, P ctx → P (ctx.record entry)
  success : ∀ ctx success, P ctx → P (ctx.setSuccess success)
  output : ∀ ctx output, P ctx → P { ctx with output }
  preflight : ∀ ctx preflightErrors, P ctx → P { ctx with preflightErrors }

/-- The body of a step keeps a property. -/
def KeptByStep (P : PipelineContext σ → Prop) (step : Step σ) : Prop :=
  ∀ ctx result ctx', P ctx → Leaves step ctx result ctx' → P ctx'

theorem Bookkept.markSkipped {P : PipelineContext σ → Prop} (hP : Bookkept P)
    (skipped : List (Step σ)) {ctx : PipelineContext σ} (h : P ctx) :
    P (markSkipped skipped ctx) := by
  induction skipped generalizing ctx with
  | nil => exact h
  | cons s rest ih => exact ih (hP.record _ _ h)

/-- The context a turn leaves: that of the next turn, or that of the result. -/
def ctxLeft : LoopState σ ⊕ EngineResult σ → PipelineContext σ
  | .inl st => st.ctx
  | .inr result => result.2

/-- Concluding a run touches only the verdict of its trace. -/
theorem Bookkept.conclude {P : PipelineContext σ → Prop} (hP : Bookkept P)
    {left : LoopState σ ⊕ EngineResult σ} (h : P (ctxLeft left)) : P (conclude left).2 := by
  cases left with
  | inl st => exact hP.success _ _ h
  | inr result => exact h

/-- What the body of the step of a turn keeps, the turn keeps. -/
theorem turn_keeps {strategy : ExecutionStrategy σ} {opts : RunOptions σ}
    {P : PipelineContext σ → Prop} (hP : Bookkept P) {st : LoopState σ} {out : TurnEnd σ}
    {evs : List (PipelineEvent σ)}
    (hstep : ∀ step, strategy.steps[st.idx]? = some step → KeptByStep P step) (h : P st.ctx)
    (hcase : TurnCase strategy opts st out evs) (left : LoopState σ ⊕ EngineResult σ)
    (hout : out = .ok left) : P (ctxLeft left) := by
  cases hcase with
  | past =>
    cases hout
    exact h
  | passed hs hpass =>
    cases hout
    show P _
    rcases (passOver_spec hpass).2 with heq | ⟨reason, heq⟩
    · rw [ctxLeft, heq]
      exact h
    · rw [ctxLeft, heq]
      exact hP.record _ _ h
  | unwound => cases hout
  | refused =>
    cases hout
    exact hP.record _ _ h
  | @entered step _ _ _ hs hpass hhooks hbody =>
    cases hbody with
    | unwound => cases hout
    | @failed ctx err _ _ hleaves hcase =>
      have hctx : P ctx := hstep step hs _ _ _ h hleaves
      cases hcase with
      | filed =>
        cases hout
        exact hP.record _ _ (hP.preflight _ _ hctx)
      | unwound => cases hout
      | aborted =>
        cases hout
        exact hP.record _ _ hctx
      | ignored =>
        cases hout
        exact hP.record _ _ hctx
      | recovered hdry hhooks hhooks' hcases =>
        rcases hcases with ⟨p, rfl⟩ | ⟨e, rfl⟩ | ⟨entry, rfl⟩
        · cases hout
        · cases hout
          exact hP.record _ _ (hP.output _ _ hctx)
        · cases hout
          exact hP.record _ _ (hP.output _ _ hctx)
    | @succeeded ctx result _ _ hleaves hcase =>
      have hctx : P ctx := hstep step hs _ _ _ h hleaves
      cases hcase with
      | unwound => cases hout
      | aborted =>
        cases hout
        exact hP.record _ _ hctx
      | flowed hhooks hflow =>
        have hrecorded : P (ctx.record { name := step.name, result }) := hP.record _ _ hctx
        cases hflow with
        | next =>
          cases hout
          exact hrecorded
        | unwound => cases hout
        | finished success =>
          cases hout
          exact hP.success _ _ hrecorded
        | skipped target =>
          rcases skipTo_spec strategy _ step target with ⟨st', skipped, hskip, -, hctx'⟩ | ⟨e, hskip⟩
          · rw [hskip] at hout
            cases hout
            show P st'.ctx
            rw [hctx']
            exact hP.markSkipped skipped hrecorded
          · rw [hskip] at hout
            cases hout
            exact hrecorded
        | refused e =>
          cases hout
          exact hrecorded

/-- **What the steps from an index on keep, the rest of a run keeps**: it holds where a body is
entered, and of the context the run leaves. -/
theorem loopFrom_keeps {strategy : ExecutionStrategy σ} (opts : RunOptions σ)
    {P : PipelineContext σ → Prop} (hP : Bookkept P) {k : Nat}
    (hsteps : ∀ i step, k ≤ i → strategy.steps[i]? = some step → KeptByStep P step)
    (st : LoopState σ) (hk : k ≤ st.idx) (h : P st.ctx) :
    (loopFrom strategy opts st).Ensures fun out evs =>
      (∀ i c, .body i c ∈ evs → k ≤ i ∧ P c) ∧ ∀ left, out = .ok left → P (ctxLeft left) := by
  refine loopFrom_ensures
    (I := fun st evs => k ≤ st.idx ∧ P st.ctx ∧ ∀ i c, .body i c ∈ evs → k ≤ i ∧ P c)
    ?_ ?_ st ⟨hk, h, by simp⟩
  · rintro st evs ⟨hk, hst, hevs⟩ hgo out evs' hcase
    have hleft := turn_keeps hP (fun step hs => hsteps _ step hk hs) hst hcase
    have hbodies : ∀ i c, .body i c ∈ evs ++ evs' → k ≤ i ∧ P c := by
      intro i c hmem
      rcases List.mem_append.mp hmem with hmem | hmem
      · exact hevs i c hmem
      · obtain ⟨rfl, rfl⟩ := turn_body hcase hmem
        exact ⟨hk, hst⟩
    unfold KeptBy
    split
    · rename_i st'
      have hlt := turn_advances hgo hcase
      exact ⟨by omega, hleft _ rfl, hbodies⟩
    · exact ⟨hbodies, hleft⟩
  · rintro st evs ⟨-, hst, hevs⟩
    refine ⟨hevs, ?_⟩
    rintro left hleft
    cases hleft
    exact hst

end PipelineEngine

end Apcore
