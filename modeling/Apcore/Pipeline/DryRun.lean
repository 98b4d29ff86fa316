import Apcore.Pipeline.Standard

/-! # `Pipeline.DryRun` — what a dry run files

A dry run goes on after the error of a body, and files it under the name of its step. As long as the
bodies leave those records alone, what a dry run has filed at its end is exactly what failed in it,
in order. -/

namespace Apcore

namespace PipelineEngine

open Run

variable {σ : Type}

/-- The entry a dry run makes of an event. -/
def filedEntry (strategy : ExecutionStrategy σ) : PipelineEvent σ → Option (String × ModuleError)
  | .failed i _ err => (strategy.steps[i]?).map fun step => (step.name, err)
  | _ => none

/-- The entries a dry run makes of its events. -/
def failuresOf (strategy : ExecutionStrategy σ) (evs : List (PipelineEvent σ)) :
    List (String × ModuleError) :=
  evs.filterMap (filedEntry strategy)

@[simp] theorem failuresOf_append (strategy : ExecutionStrategy σ)
    (evs evs' : List (PipelineEvent σ)) :
    failuresOf strategy (evs ++ evs') = failuresOf strategy evs ++ failuresOf strategy evs' :=
  List.filterMap_append

theorem HooksOf.failuresOf {index : Nat} {evs : List (PipelineEvent σ)} (h : HooksOf index evs)
    (strategy : ExecutionStrategy σ) : failuresOf strategy evs = [] := by
  refine List.filterMap_eq_nil_iff.mpr fun e he => ?_
  obtain ⟨kind, mw, rfl⟩ := h e he
  rfl

/-- A jump changes the trace only. -/
theorem markSkipped_eq (skipped : List (Step σ)) (ctx : PipelineContext σ) :
    ∃ trace, markSkipped skipped ctx = { ctx with trace } := by
  induction skipped generalizing ctx with
  | nil => exact ⟨ctx.trace, rfl⟩
  | cons s rest ih =>
    obtain ⟨trace, htrace⟩ := ih (ctx.record (skippedEntry s.name none))
    exact ⟨trace, htrace⟩

/-- The records after a turn: those before it, with what failed in it. -/
structure Filed (strategy : ExecutionStrategy σ) (before after : PipelineContext σ)
    (evs : List (PipelineEvent σ)) : Prop where
  dryRun : after.dryRun = true
  preflightErrors : after.preflightErrors = before.preflightErrors ++ failuresOf strategy evs

variable {strategy : ExecutionStrategy σ} {opts : RunOptions σ}

/-- A body that succeeded in a dry run has filed nothing, however the run goes on. -/
theorem flow_filed {st : LoopState σ} {step : Step σ} {out : TurnEnd σ}
    (hflow : FlowCase strategy opts st step out) (left : LoopState σ ⊕ EngineResult σ)
    (hout : out = .ok left) :
    (ctxLeft left).dryRun = st.ctx.dryRun ∧
      (ctxLeft left).preflightErrors = st.ctx.preflightErrors := by
  cases hflow with
  | next =>
    cases hout
    exact ⟨rfl, rfl⟩
  | unwound => cases hout
  | finished success =>
    cases hout
    exact ⟨rfl, rfl⟩
  | refused e =>
    cases hout
    exact ⟨rfl, rfl⟩
  | skipped target =>
    rcases skipTo_spec strategy st step target with ⟨st', skipped, hskip, -, hctx⟩ | ⟨e, hskip⟩
    · rw [hskip] at hout
      cases hout
      obtain ⟨trace, htrace⟩ := markSkipped_eq skipped st.ctx
      show st'.ctx.dryRun = _ ∧ st'.ctx.preflightErrors = _
      rw [hctx, htrace]
      exact ⟨rfl, rfl⟩
    · rw [hskip] at hout
      cases hout
      exact ⟨rfl, rfl⟩

/-- A turn of a dry run files what failed in it. -/
theorem turn_filed (hkeep : ∀ step ∈ strategy.steps, step.KeepsRecords) {st : LoopState σ}
    {out : TurnEnd σ} {evs : List (PipelineEvent σ)} (hdry : st.ctx.dryRun = true)
    (hcase : TurnCase strategy opts st out evs) (left : LoopState σ ⊕ EngineResult σ)
    (hout : out = .ok left) : Filed strategy st.ctx (ctxLeft left) evs := by
  cases hcase with
  | past =>
    cases hout
    exact ⟨hdry, by simp [ctxLeft, failuresOf]⟩
  | @passed step st' hstep hpass =>
    cases hout
    show Filed strategy st.ctx st'.ctx []
    rcases (passOver_spec hpass).2 with heq | ⟨reason, heq⟩
    · rw [heq]
      exact ⟨hdry, by simp [failuresOf]⟩
    · rw [heq]
      exact ⟨hdry, by simp [failuresOf, PipelineContext.record]⟩
  | unwound => cases hout
  | refused hstep hpass hhooks =>
    cases hout
    refine ⟨hdry, ?_⟩
    rw [hhooks.failuresOf, List.append_nil]
    rfl
  | @entered step _ evs evs' hstep hpass hhooks hbody =>
    have hevs : failuresOf strategy (evs ++ .body st.idx st.ctx :: evs') =
        failuresOf strategy evs' := by
      rw [failuresOf_append, hhooks.failuresOf]
      rfl
    have hkeep := hkeep step (List.mem_of_getElem? hstep)
    cases hbody with
    | unwound => cases hout
    | failed hleaves hcase =>
      obtain ⟨hdry', herrors⟩ := hkeep _ _ _ hleaves
      cases hcase with
      | filed =>
        cases hout
        refine ⟨hdry'.trans hdry, ?_⟩
        rw [hevs]
        simp [ctxLeft, PipelineContext.record, failuresOf, filedEntry, hstep, herrors]
      | unwound hlive => simp [hdry', hdry] at hlive
      | aborted hlive => simp [hdry', hdry] at hlive
      | ignored hlive => simp [hdry', hdry] at hlive
      | recovered hlive => simp [hdry', hdry] at hlive
    | succeeded hleaves hcase =>
      obtain ⟨hdry', herrors⟩ := hkeep _ _ _ hleaves
      have hnone := hcase.hooks.failuresOf strategy
      cases hcase with
      | unwound => cases hout
      | aborted hhooks =>
        cases hout
        refine ⟨hdry'.trans hdry, ?_⟩
        rw [hevs, hnone, List.append_nil]
        exact herrors
      | flowed hhooks hflow =>
        obtain ⟨hdry'', herrors'⟩ := flow_filed hflow left hout
        refine ⟨hdry''.trans (hdry'.trans hdry), ?_⟩
        rw [hevs, hnone, List.append_nil]
        exact herrors'.trans herrors

/-- **What a dry run has filed is what failed in it.** -/
theorem dryRun_filed (hkeep : ∀ step ∈ strategy.steps, step.KeepsRecords)
    (ctx : PipelineContext σ) (hdry : ctx.dryRun = true) :
    (runWithOptions strategy ctx opts).Ensures fun out evs =>
      ∀ result, out = .ok result → Filed strategy ctx result.2 evs := by
  refine runWithOptions_ensures ?_
  refine (loopFrom_ensures (I := fun st evs => Filed strategy ctx st.ctx evs)
    (Q := fun out evs => ∀ left, out = .ok left → Filed strategy ctx (ctxLeft left) evs)
    ?_ ?_ (start ctx) ⟨hdry, by simp [start, failuresOf]⟩).mono ?_
  · intro st evs hst _ out evs' hcase
    have hturn := turn_filed hkeep hst.dryRun hcase
    have hall : ∀ left, out = .ok left → Filed strategy ctx (ctxLeft left) (evs ++ evs') := by
      intro left hout
      refine ⟨(hturn left hout).dryRun, ?_⟩
      rw [(hturn left hout).preflightErrors, hst.preflightErrors, failuresOf_append,
        List.append_assoc]
    unfold KeptBy
    split
    · exact hall _ rfl
    · exact hall
  · rintro st evs hst left hleft
    cases hleft
    exact hst
  · intro out evs hQ result hresult
    cases out with
    | error p => cases hresult
    | ok left =>
      cases hresult
      cases left with
      | inl st => exact ⟨(hQ _ rfl).dryRun, (hQ _ rfl).preflightErrors⟩
      | inr result => exact hQ _ rfl

/-! ## The bodies that fail -/

/-- The body of a step that exists is what fails. -/
theorem run_failed_step (strategy : ExecutionStrategy σ) (ctx : PipelineContext σ)
    (opts : RunOptions σ) :
    (runWithOptions strategy ctx opts).Ensures fun _ evs =>
      ∀ i c err, .failed i c err ∈ evs → ∃ step, strategy.steps[i]? = some step := by
  refine runWithOptions_ensures ?_
  refine loopFrom_ensures (I := fun _ evs => ∀ i c err, .failed i c err ∈ evs →
    ∃ step, strategy.steps[i]? = some step) ?_ (fun _ _ h => h) _ (by simp)
  intro st evs hevs hgo out evs' hcase
  have hall : ∀ i c err, .failed i c err ∈ evs ++ evs' → ∃ step, strategy.steps[i]? = some step := by
    intro i c err hmem
    rcases List.mem_append.mp hmem with hmem | hmem
    · exact hevs i c err hmem
    · obtain ⟨rfl, -⟩ := turn_body hcase (turn_failed hcase hmem)
      obtain ⟨step, hstep, -⟩ := goesOn_eq_true.mp hgo
      exact ⟨step, hstep⟩
  unfold KeptBy
  split <;> exact hall

/-- The body of a step cannot succeed on a context. -/
def Denies (step : Step σ) (ctx : PipelineContext σ) : Prop :=
  ∀ result ctx', Leaves step ctx (.ok result) ctx' → False

/-- In a turn that does not unwind, a body that cannot succeed fails. -/
theorem turn_denied {st : LoopState σ} {left : LoopState σ ⊕ EngineResult σ}
    {evs : List (PipelineEvent σ)} (hcase : TurnCase strategy opts st (.ok left) evs) {g : Nat}
    {gate : Step σ} (hgate : strategy.steps[g]? = some gate) {c : PipelineContext σ}
    (hbody : .body g c ∈ evs) (hdenies : Denies gate c) : ∃ c' err, .failed g c' err ∈ evs := by
  obtain ⟨rfl, rfl⟩ := turn_body hcase hbody
  cases hcase with
  | past => cases hbody
  | passed => cases hbody
  | refused hstep hpass hhooks => exact absurd hbody (hhooks.no_body _ _)
  | entered hstep hpass hhooks hcase =>
    obtain rfl := Option.some.inj (hstep.symm.trans hgate)
    cases hcase with
    | failed hleaves hcase =>
      exact ⟨_, _, List.mem_append_right _ (List.mem_cons_of_mem _ List.mem_cons_self)⟩
    | succeeded hleaves hcase => exact (hdenies _ _ hleaves).elim

/-- What a run, or a part of it that did not unwind, shows of one step: it fails only where it is
entered, and always where it cannot succeed. -/
structure FailsWhereDenied (g : Nat) (gate : Step σ) (evs : List (PipelineEvent σ)) : Prop where
  entered : ∀ c err, .failed g c err ∈ evs → ∃ c', .body g c' ∈ evs
  fails : ∀ c, .body g c ∈ evs → Denies gate c → ∃ c' err, .failed g c' err ∈ evs

theorem FailsWhereDenied.append {g : Nat} {gate : Step σ} {evs evs' : List (PipelineEvent σ)}
    (h : FailsWhereDenied g gate evs) (h' : FailsWhereDenied g gate evs') :
    FailsWhereDenied g gate (evs ++ evs') := by
  constructor
  · intro c err hmem
    rcases List.mem_append.mp hmem with hmem | hmem
    · obtain ⟨c', hc'⟩ := h.entered c err hmem
      exact ⟨c', List.mem_append_left _ hc'⟩
    · obtain ⟨c', hc'⟩ := h'.entered c err hmem
      exact ⟨c', List.mem_append_right _ hc'⟩
  · intro c hmem hdenies
    rcases List.mem_append.mp hmem with hmem | hmem
    · obtain ⟨c', err, hc'⟩ := h.fails c hmem hdenies
      exact ⟨c', err, List.mem_append_left _ hc'⟩
    · obtain ⟨c', err, hc'⟩ := h'.fails c hmem hdenies
      exact ⟨c', err, List.mem_append_right _ hc'⟩

/-- A run that does not unwind shows every denial of a step as a failure of that step. -/
theorem run_failsWhereDenied {g : Nat} {gate : Step σ} (hgate : strategy.steps[g]? = some gate)
    (ctx : PipelineContext σ) :
    (runWithOptions strategy ctx opts).Ensures fun out evs =>
      ∀ result, out = .ok result → FailsWhereDenied g gate evs := by
  have hnil : FailsWhereDenied g gate ([] : List (PipelineEvent σ)) := ⟨by simp, by simp⟩
  refine runWithOptions_ensures ?_
  refine (loopFrom_ensures (I := fun _ evs => FailsWhereDenied g gate evs)
    (Q := fun out evs => ∀ left, out = .ok left → FailsWhereDenied g gate evs)
    ?_ (fun _ _ h _ _ => h) (start ctx) hnil).mono ?_
  · intro st evs hevs _ out evs' hcase
    have hall : ∀ left, out = .ok left → FailsWhereDenied g gate (evs ++ evs') := by
      rintro left rfl
      exact hevs.append ⟨fun c err hmem => ⟨_, turn_failed hcase hmem⟩,
        fun c hmem hdenies => turn_denied hcase hgate hmem hdenies⟩
    unfold KeptBy
    split
    · exact hall _ rfl
    · exact hall
  · intro out evs hQ result hresult
    cases out with
    | error p => cases hresult
    | ok left => exact hQ left rfl

end PipelineEngine

end Apcore
