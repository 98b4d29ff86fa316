import Mathlib.Order.Basic
import Mathlib.Data.List.Basic

/-! # `DecisionList` — first-match scans that carry a flag

A decision list judges its entries in order. An entry decides, or passes, and a passing entry may
raise a flag that stays raised for whatever decides later. `scan` is the loop; `Decides`, `Passes`
and `Raised` say the same in terms of positions; `denote` reads each entry as a transformer of the
value of the rest, which is the form in which two scans are compared. -/

namespace DecisionList

variable {α β γ : Type}

/-- What one entry says. -/
inductive Verdict (β : Type) where
  | decide (b : β)
  | pass (raise : Bool)

/-- The loop, from a given position and with a given flag. -/
def scan (judge : Nat → α → Verdict β) : Nat → Bool → List α → Option (Nat × β) × Bool
  | _, flag, [] => (none, flag)
  | i, flag, x :: xs =>
    match judge i x with
    | .decide b => (some (i, b), flag)
    | .pass raise => scan judge (i + 1) (flag || raise) xs

/-! ## The scan by positions -/

/-- The entry at position `k` of the list, judged at `i + k`, passes. -/
def Passes (judge : Nat → α → Verdict β) (i : Nat) (xs : List α) (k : Nat) : Prop :=
  ∃ x raise, xs[k]? = some x ∧ judge (i + k) x = .pass raise

/-- The flag raised by an entry before position `n`. -/
def Raised (judge : Nat → α → Verdict β) (i : Nat) (xs : List α) (n : Nat) : Prop :=
  ∃ k < n, ∃ x, xs[k]? = some x ∧ judge (i + k) x = .pass true

/-- The entry at position `k` decides `b`, and every earlier one passes. -/
def Decides (judge : Nat → α → Verdict β) (i : Nat) (xs : List α) (k : Nat) (b : β) : Prop :=
  (∃ x, xs[k]? = some x ∧ judge (i + k) x = .decide b) ∧ ∀ j < k, Passes judge i xs j

theorem not_raised_zero (judge : Nat → α → Verdict β) (i : Nat) (xs : List α) :
    ¬ Raised judge i xs 0 := by
  rintro ⟨k, hk, _⟩
  exact absurd hk (by omega)

/-- Positions of a longer list, after its head passed. -/
theorem raised_cons {judge : Nat → α → Verdict β} {i : Nat} {x : α} {xs : List α} {raise : Bool}
    (h : judge i x = .pass raise) (n : Nat) :
    Raised judge i (x :: xs) (n + 1) ↔ raise = true ∨ Raised judge (i + 1) xs n := by
  constructor
  · rintro ⟨k, hk, y, hy, hjudge⟩
    cases k with
    | zero =>
      obtain rfl : x = y := by simpa using hy
      rw [Nat.add_zero, h] at hjudge
      exact .inl (Verdict.pass.inj hjudge)
    | succ k =>
      refine .inr ⟨k, by omega, y, by simpa using hy, ?_⟩
      rw [show i + 1 + k = i + (k + 1) by omega]
      exact hjudge
  · rintro (rfl | ⟨k, hk, y, hy, hjudge⟩)
    · exact ⟨0, by omega, x, rfl, h⟩
    · refine ⟨k + 1, by omega, y, by simpa using hy, ?_⟩
      rw [show i + (k + 1) = i + 1 + k by omega]
      exact hjudge

theorem passes_cons_succ {judge : Nat → α → Verdict β} {i : Nat} {x : α} {xs : List α} {k : Nat} :
    Passes judge i (x :: xs) (k + 1) ↔ Passes judge (i + 1) xs k := by
  simp only [Passes, List.getElem?_cons_succ, show i + (k + 1) = i + 1 + k by omega]

/-- **What a scan returns.** Either the first deciding entry, with the flag the entries before it
left, or no decision, with the flag of the whole list. -/
theorem scan_cases (judge : Nat → α → Verdict β) (i : Nat) (flag : Bool) (xs : List α) :
    (∃ k b flag', scan judge i flag xs = (some (i + k, b), flag') ∧ Decides judge i xs k b ∧
      (flag' = true ↔ flag = true ∨ Raised judge i xs k)) ∨
    (∃ flag', scan judge i flag xs = (none, flag') ∧ (∀ k < xs.length, Passes judge i xs k) ∧
      (flag' = true ↔ flag = true ∨ Raised judge i xs xs.length)) := by
  induction xs generalizing i flag with
  | nil =>
    refine .inr ⟨flag, rfl, by simp, ?_⟩
    simp [not_raised_zero]
  | cons x xs ih =>
    cases h : judge i x with
    | decide b =>
      refine .inl ⟨0, b, flag, by simp [scan, h], ⟨⟨x, rfl, h⟩, by omega⟩, ?_⟩
      simp [not_raised_zero]
    | pass raise =>
      have hscan : scan judge i flag (x :: xs) = scan judge (i + 1) (flag || raise) xs := by
        simp [scan, h]
      have hhead : Passes judge i (x :: xs) 0 := ⟨x, raise, rfl, h⟩
      rcases ih (i + 1) (flag || raise) with
        ⟨k, b, flag', hres, ⟨⟨y, hy, hdec⟩, hpass⟩, hflag⟩ | ⟨flag', hres, hpass, hflag⟩
      · refine .inl ⟨k + 1, b, flag', ?_, ⟨⟨y, by simpa using hy, ?_⟩, ?_⟩, ?_⟩
        · rw [hscan, hres, show i + 1 + k = i + (k + 1) by omega]
        · rw [show i + (k + 1) = i + 1 + k by omega]; exact hdec
        · intro j hj
          cases j with
          | zero => exact hhead
          | succ j => exact passes_cons_succ.mpr (hpass j (by omega))
        · rw [hflag, raised_cons h, Bool.or_eq_true, or_assoc]
      · refine .inr ⟨flag', by rw [hscan, hres], ?_, ?_⟩
        · intro j hj
          cases j with
          | zero => exact hhead
          | succ j => exact passes_cons_succ.mpr (hpass j (by simpa using hj))
        · rw [hflag, List.length_cons, raised_cons h, Bool.or_eq_true, or_assoc]

/-! ## The scan as a composition of transformers -/

/-- What an entry does to the value of the rest of the list. -/
def Verdict.act (grant : β → γ) (cap : Bool → γ → γ) : Verdict β → γ → γ
  | .decide b, _ => grant b
  | .pass raise, rest => cap raise rest

/-- The value of a decision list. -/
def denote (judge : Nat → α → Verdict β) (grant : β → γ) (cap : Bool → γ → γ) (dflt : γ) :
    Nat → List α → γ
  | _, [] => dflt
  | i, x :: xs => (judge i x).act grant cap (denote judge grant cap dflt (i + 1) xs)

/-- The value of a scan's result: its decision or the default, capped when the flag is raised. -/
def resultValue (grant : β → γ) (cap : Bool → γ → γ) (dflt : γ) :
    Option (Nat × β) × Bool → γ
  | (some (_, b), flag) => cap flag (grant b)
  | (none, flag) => cap flag dflt

/-- **The loop computes the denotation**, as soon as raising the flag twice is raising it once. -/
theorem resultValue_scan {judge : Nat → α → Verdict β} {grant : β → γ} {cap : Bool → γ → γ}
    {dflt : γ} (hcap : ∀ f g p, cap (f || g) p = cap f (cap g p)) (i : Nat) (flag : Bool)
    (xs : List α) : resultValue grant cap dflt (scan judge i flag xs) =
      cap flag (denote judge grant cap dflt i xs) := by
  induction xs generalizing i flag with
  | nil => rfl
  | cons x xs ih =>
    simp only [scan, denote]
    cases judge i x with
    | decide b => rfl
    | pass raise => rw [ih, hcap]; rfl

/-- **Comparing two decision lists** entry by entry compares their values. -/
theorem denote_le [Preorder γ] {judge₁ judge₂ : Nat → α → Verdict β} {grant : β → γ}
    {cap : Bool → γ → γ} {dflt : γ} {i : Nat} {xs : List α}
    (h : ∀ k x, xs[k]? = some x → ∀ p q, p ≤ q →
      (judge₁ (i + k) x).act grant cap p ≤ (judge₂ (i + k) x).act grant cap q) :
    denote judge₁ grant cap dflt i xs ≤ denote judge₂ grant cap dflt i xs := by
  induction xs generalizing i with
  | nil => exact le_refl _
  | cons x xs ih =>
    refine h 0 x rfl _ _ (ih fun k y hy => ?_)
    rw [show i + 1 + k = i + (k + 1) by omega]
    exact h (k + 1) y (by simpa using hy)

end DecisionList
