import Mathlib.Logic.Basic

/-! # `Lib.Fuel` — what holds with enough fuel

A function that counts its calls down answers in time where it answers from some amount of fuel on. -/

namespace Fuel

/-- The property holds of every amount from some one on. -/
def Enough (p : Nat → Prop) : Prop := ∃ bound, ∀ n, bound ≤ n → p n

variable {p q : Nat → Prop}

theorem Enough.of_forall (h : ∀ n, p n) : Enough p := ⟨0, fun n _ => h n⟩

theorem Enough.mono (h : Enough p) (hpq : ∀ n, p n → q n) : Enough q := by
  obtain ⟨bound, hbound⟩ := h
  exact ⟨bound, fun n hn => hpq n (hbound n hn)⟩

theorem Enough.and (hp : Enough p) (hq : Enough q) : Enough fun n => p n ∧ q n := by
  obtain ⟨first, hfirst⟩ := hp
  obtain ⟨second, hsecond⟩ := hq
  exact ⟨max first second, fun n hn => ⟨hfirst n (by omega), hsecond n (by omega)⟩⟩

/-- One call more. -/
theorem Enough.succ (h : Enough p) (hpq : ∀ n, p n → q (n + 1)) : Enough q := by
  obtain ⟨bound, hbound⟩ := h
  refine ⟨bound + 1, fun n hn => ?_⟩
  obtain ⟨m, rfl⟩ : ∃ m, n = m + 1 := ⟨n - 1, by omega⟩
  exact hpq m (hbound m (by omega))

/-- Enough for each of finitely many calls is enough for all. -/
theorem Enough.forall_mem {α : Type*} {l : List α} {r : α → Nat → Prop}
    (h : ∀ a ∈ l, Enough (r a)) : Enough fun n => ∀ a ∈ l, r a n := by
  induction l with
  | nil => exact .of_forall fun _ _ ha => by cases ha
  | cons head rest ih =>
    have hrest := ih fun a ha => h a (List.mem_cons_of_mem _ ha)
    refine ((h head List.mem_cons_self).and hrest).mono fun n hn a ha => ?_
    rcases List.mem_cons.mp ha with rfl | ha
    · exact hn.1
    · exact hn.2 a ha

/-- Two answers that enough fuel gives are one. -/
theorem Enough.unique {α : Type*} {f : Nat → Option α} {a b : α} (ha : Enough fun n => f n = some a)
    (hb : Enough fun n => f n = some b) : a = b := by
  obtain ⟨bound, hbound⟩ := ha.and hb
  obtain ⟨hfirst, hsecond⟩ := hbound bound (Nat.le_refl bound)
  exact Option.some.inj (hfirst.symm.trans hsecond)

end Fuel
