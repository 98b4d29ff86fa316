import Mathlib.Data.List.Basic
import Mathlib.Logic.Function.Basic

/-! # `Transition` — runs of a partial step function

A system is given by a step function that may refuse a label. A run is the list of its labels; a
property of all the states that runs reach comes from an invariant, by itself or under a condition
that every step of the run meets where it is taken. -/

namespace Transition

variable {S L : Type}

/-- The state a run leads to. -/
def exec (step : S → L → Option S) : S → List L → Option S
  | s, [] => some s
  | s, l :: ls =>
    match step s l with
    | some s' => exec step s' ls
    | none => none

/-- Every step of the run meets the condition in the state in which it is taken. -/
def Along (step : S → L → Option S) (ok : S → L → Prop) : S → List L → Prop
  | _, [] => True
  | s, l :: ls => ok s l ∧
    match step s l with
    | some s' => Along step ok s' ls
    | none => True

variable {step : S → L → Option S}

theorem exec_cons {s s' : S} {l : L} {ls : List L} :
    exec step s (l :: ls) = some s' ↔ ∃ m, step s l = some m ∧ exec step m ls = some s' := by
  rw [exec]
  cases step s l with
  | none => simp
  | some m => simp

theorem exec_append {s s' m : S} {ls ls' : List L} (hrun : exec step s ls = some m)
    (hrest : exec step m ls' = some s') : exec step s (ls ++ ls') = some s' := by
  induction ls generalizing s with
  | nil =>
    obtain rfl : s = m := Option.some.inj hrun
    exact hrest
  | cons l ls ih =>
    obtain ⟨m', hm', htail⟩ := exec_cons.mp hrun
    exact exec_cons.mpr ⟨m', hm', ih htail⟩

theorem along_of_append {ok : S → L → Prop} {s : S} {ls ls' : List L}
    (h : Along step ok s (ls ++ ls')) : Along step ok s ls := by
  induction ls generalizing s with
  | nil => trivial
  | cons l ls ih =>
    rw [List.cons_append, Along] at h
    rw [Along]
    refine ⟨h.1, ?_⟩
    cases hm : step s l with
    | none => trivial
    | some m =>
      have hrest := h.2
      rw [hm] at hrest
      exact ih hrest

/-- What every allowed step keeps holds after a run of allowed steps. -/
theorem exec_invariant_along {I : S → Prop} {ok : S → L → Prop}
    (hstep : ∀ s l s', I s → ok s l → step s l = some s' → I s') {s s' : S} {ls : List L}
    (hI : I s) (hok : Along step ok s ls) (hrun : exec step s ls = some s') : I s' := by
  -- on the run, from any state that has the invariant
  induction ls generalizing s with
  | nil =>
    obtain rfl : s = s' := Option.some.inj hrun
    exact hI
  | cons l ls ih =>
    obtain ⟨m, hm, hrest⟩ := exec_cons.mp hrun
    rw [Along, hm] at hok
    exact ih (hstep s l m hI hok.1 hm) hok.2 hrest

instance decidableAlong {ok : S → L → Prop} [∀ s l, Decidable (ok s l)] :
    ∀ s ls, Decidable (Along step ok s ls)
  | _, [] => .isTrue trivial
  | s, l :: ls =>
    have : Decidable (match step s l with
        | some s' => Along step ok s' ls
        | none => True) :=
      match step s l with
      | some s' => decidableAlong s' ls
      | none => .isTrue trivial
    inferInstanceAs (Decidable (_ ∧ _))

theorem along_cons {ok : S → L → Prop} {s s' : S} {l : L} {ls : List L} (hok : ok s l)
    (hstep : step s l = some s') (hrest : Along step ok s' ls) : Along step ok s (l :: ls) := by
  rw [Along, hstep]
  exact ⟨hok, hrest⟩

/-- Labels that are allowed everywhere make allowed runs. -/
theorem along_of_forall {ok : S → L → Prop} {ls : List L} (hok : ∀ s, ∀ l ∈ ls, ok s l) (s : S) :
    Along step ok s ls := by
  induction ls generalizing s with
  | nil => trivial
  | cons l ls ih =>
    rw [Along]
    refine ⟨hok s l List.mem_cons_self, ?_⟩
    cases step s l with
    | none => trivial
    | some m => exact ih (fun s l hl => hok s l (List.mem_cons_of_mem _ hl)) m

/-- What every step keeps holds after every run. -/
theorem exec_invariant {I : S → Prop} (hstep : ∀ s l s', I s → step s l = some s' → I s')
    {s s' : S} {ls : List L} (hI : I s) (hrun : exec step s ls = some s') : I s' := by
  have hok : Along step (fun _ _ => True) s ls := along_of_forall (fun _ _ _ => trivial) s
  exact exec_invariant_along (fun s l s' hs _ hsl => hstep s l s' hs hsl) hI hok hrun

/-- Where a step that meets a side condition keeps `P` exactly when it is allowed, the runs of allowed
steps are, among those that meet the side condition, the ones that meet states of `P` only. -/
theorem along_iff_forall_prefix_of_along {I P : S → Prop} {ok side : S → L → Prop}
    (hstep : ∀ s l s', I s → P s → side s l → step s l = some s' → I s' ∧ (ok s l ↔ P s'))
    {s s' : S} {ls : List L} (hI : I s) (hP : P s) (hside : Along step side s ls)
    (hrun : exec step s ls = some s') :
    Along step ok s ls ↔ ∀ ls' m, ls' <+: ls → exec step s ls' = some m → P m := by
  induction ls generalizing s with
  | nil =>
    refine iff_of_true trivial ?_
    intro ls' m hprefix hm
    obtain rfl := List.prefix_nil.mp hprefix
    obtain rfl : s = m := Option.some.inj hm
    exact hP
  | cons l ls ih =>
    obtain ⟨m₁, hm₁, hrest⟩ := exec_cons.mp hrun
    rw [Along, hm₁] at hside
    obtain ⟨hI₁, hok⟩ := hstep s l m₁ hI hP hside.1 hm₁
    rw [Along, hm₁]
    constructor
    · rintro ⟨hl, halong⟩ ls' m hprefix hm
      cases ls' with
      | nil =>
        obtain rfl : s = m := Option.some.inj hm
        exact hP
      | cons l' ls' =>
        obtain ⟨rfl, htail⟩ := List.cons_prefix_cons.mp hprefix
        obtain ⟨m₁', hm₁', hm⟩ := exec_cons.mp hm
        obtain rfl : m₁ = m₁' := Option.some.inj (hm₁.symm.trans hm₁')
        exact (ih hI₁ (hok.mp hl) hside.2 hrest).mp halong ls' m htail hm
    · intro hall
      have hP₁ : P m₁ := by
        refine hall [l] m₁ ⟨ls, rfl⟩ ?_
        exact exec_cons.mpr ⟨m₁, hm₁, rfl⟩
      refine ⟨hok.mpr hP₁, (ih hI₁ hP₁ hside.2 hrest).mpr fun ls' m hprefix hm => ?_⟩
      exact hall (l :: ls') m (List.cons_prefix_cons.mpr ⟨rfl, hprefix⟩)
        (exec_cons.mpr ⟨m₁, hm₁, hm⟩)

/-- Where a step keeps `P` exactly when it is allowed, the runs of allowed steps are those that meet
states of `P` only. -/
theorem along_iff_forall_prefix {I P : S → Prop} {ok : S → L → Prop}
    (hstep : ∀ s l s', I s → P s → step s l = some s' → I s' ∧ (ok s l ↔ P s')) {s s' : S}
    {ls : List L} (hI : I s) (hP : P s) (hrun : exec step s ls = some s') :
    Along step ok s ls ↔ ∀ ls' m, ls' <+: ls → exec step s ls' = some m → P m := by
  have hside : Along step (fun _ _ => True) s ls := along_of_forall (fun _ _ _ => trivial) s
  exact along_iff_forall_prefix_of_along (fun s l s' hI hP _ h => hstep s l s' hI hP h) hI hP hside
    hrun

/-- Where a step that leads to `P` is allowed, a run that meets states of `P` only is allowed. -/
theorem along_of_forall_prefix {P : S → Prop} {ok : S → L → Prop}
    (hstep : ∀ s l s', step s l = some s' → P s' → ok s l) {s s' : S} {ls : List L}
    (hrun : exec step s ls = some s')
    (hall : ∀ ls' m, ls' <+: ls → exec step s ls' = some m → P m) : Along step ok s ls := by
  induction ls generalizing s with
  | nil => trivial
  | cons l ls ih =>
    obtain ⟨m₁, hm₁, hrest⟩ := exec_cons.mp hrun
    have hP : P m₁ := hall [l] m₁ ⟨ls, rfl⟩ (exec_cons.mpr ⟨m₁, hm₁, rfl⟩)
    refine along_cons (hstep s l m₁ hm₁ hP) hm₁ (ih hrest fun ls' m hprefix hm => ?_)
    exact hall (l :: ls') m (List.cons_prefix_cons.mpr ⟨rfl, hprefix⟩)
      (exec_cons.mpr ⟨m₁, hm₁, hm⟩)

/-- Where the invariant that allowed steps keep makes a step meet `P`, every step of an allowed run
does. -/
theorem along_of_along {I : S → Prop} {ok P : S → L → Prop} (hP : ∀ s l, I s → ok s l → P s l)
    (hstep : ∀ s l s', I s → ok s l → step s l = some s' → I s') {s : S} {ls : List L} (hI : I s)
    (hok : Along step ok s ls) : Along step P s ls := by
  induction ls generalizing s with
  | nil => trivial
  | cons l ls ih =>
    rw [Along] at hok ⊢
    refine ⟨hP s l hI hok.1, ?_⟩
    cases hm : step s l with
    | none => trivial
    | some m =>
      have hrest := hok.2
      rw [hm] at hrest
      exact ih (hstep s l m hI hok.1 hm) hrest

/-- What allowed steps keep holds in every state that a run of allowed steps comes through. -/
theorem forall_prefix_of_along {I : S → Prop} {ok : S → L → Prop}
    (hstep : ∀ s l s', I s → ok s l → step s l = some s' → I s') {s : S} {ls : List L} (hI : I s)
    (hok : Along step ok s ls) (ls' : List L) (m : S) (hls : ls' <+: ls)
    (hm : exec step s ls' = some m) : I m := by
  obtain ⟨rest, rfl⟩ := hls
  exact exec_invariant_along hstep hI (along_of_append hok) hm

/-! ## One party of many -/

section Update

variable {ι α : Type} [DecidableEq ι] {p : α → Bool} {parties : ι → α} {i : ι} {a : α}

/-- A party that did not have the property is replaced. -/
theorem exists_update (hold : p (parties i) = false) :
    (∃ j, p (Function.update parties i a j) = true) ↔ p a = true ∨ ∃ j, p (parties j) = true := by
  rw [Function.exists_update_iff parties fun _ a => p a = true]
  refine or_congr_right ⟨fun ⟨j, _, hj⟩ => ⟨j, hj⟩, fun ⟨j, hj⟩ => ⟨j, ?_, hj⟩⟩
  rintro rfl
  rw [hold] at hj
  cases hj

/-- A party is replaced by one that does not have the property. -/
theorem exists_of_update (hnew : p a = false) (h : ∃ j, p (Function.update parties i a j) = true) :
    ∃ j, p (parties j) = true := by
  rw [Function.exists_update_iff parties fun _ a => p a = true, hnew] at h
  obtain ⟨j, -, hj⟩ := h.resolve_left Bool.false_ne_true
  exact ⟨j, hj⟩

end Update

end Transition
