import Mathlib.Data.List.Forall2
import Mathlib.Data.List.Perm.Basic

/-! # `Kleene` — strong three-valued logic and its information order

A truth value is `some true`, `some false` or `none` (no answer). The connectives are the strong
Kleene ones: a decisive operand decides, whatever the other operand is. `Approx x y` is the
information order (`x` is `y`, or `x` gives no answer); every connective, and every fold of one
over a list, is monotone for it. -/

namespace Kleene

/-- A three-valued truth value: `none` is "no answer". -/
abbrev Truth := Option Bool

/-- Conjunction: one `some false` is decisive, otherwise both operands must answer. -/
def and (x y : Truth) : Truth :=
  if x = some false ∨ y = some false then some false else x.bind fun a => y.map a.and

/-- Negation: no answer stays no answer. -/
def not : Truth → Truth := Option.map Bool.not

/-- Disjunction, the De Morgan dual of `and`: one `some true` is decisive. -/
def or (x y : Truth) : Truth := not (and (not x) (not y))

/-- Conjunction of a list; the empty one holds. -/
def all (l : List Truth) : Truth := l.foldr and (some true)

/-- Disjunction of a list; the empty one does not hold. -/
def any (l : List Truth) : Truth := l.foldr or (some false)

@[simp] theorem all_cons (x : Truth) (l : List Truth) : all (x :: l) = and x (all l) := rfl

@[simp] theorem any_cons (x : Truth) (l : List Truth) : any (x :: l) = or x (any l) := rfl

/-! ## Laws of the connectives -/

theorem and_left_comm (x y z : Truth) : and x (and y z) = and y (and x z) := by
  rcases x with _ | _ | _ <;> rcases y with _ | _ | _ <;> rcases z with _ | _ | _ <;> rfl

theorem and_assoc (x y z : Truth) : and (and x y) z = and x (and y z) := by
  rcases x with _ | _ | _ <;> rcases y with _ | _ | _ <;> rcases z with _ | _ | _ <;> rfl

theorem or_assoc (x y z : Truth) : or (or x y) z = or x (or y z) := by
  rcases x with _ | _ | _ <;> rcases y with _ | _ | _ <;> rcases z with _ | _ | _ <;> rfl

@[simp] theorem true_and (x : Truth) : and (some true) x = x := by
  rcases x with _ | _ | _ <;> rfl

@[simp] theorem false_or (x : Truth) : or (some false) x = x := by
  rcases x with _ | _ | _ <;> rfl

/-- The conjunction of a list does not depend on the order of its members. -/
theorem all_perm {l₁ l₂ : List Truth} (h : l₁.Perm l₂) : all l₁ = all l₂ := by
  induction h with
  | nil => rfl
  | cons x _ ih => rw [all_cons, all_cons, ih]
  | swap x y l => simp only [all_cons, and_left_comm]
  | trans _ _ ih₁ ih₂ => exact ih₁.trans ih₂

/-- Folding `and` from the left, as a loop with an accumulator does, is the conjunction. -/
theorem foldl_and (x : Truth) (l : List Truth) : l.foldl and x = and x (all l) := by
  induction l generalizing x with
  | nil => rcases x with _ | _ | _ <;> rfl
  | cons y l ih => rw [List.foldl_cons, ih, all_cons, and_assoc]

/-- Folding `or` from the left is the disjunction. -/
theorem foldl_or (x : Truth) (l : List Truth) : l.foldl or x = or x (any l) := by
  induction l generalizing x with
  | nil => rcases x with _ | _ | _ <;> rfl
  | cons y l ih => rw [List.foldl_cons, ih, any_cons, or_assoc]

/-! ## The information order -/

/-- `x` carries no more information than `y`: it is `y`, or no answer. -/
def Approx (x y : Truth) : Prop := x = none ∨ x = y

theorem Approx.refl (x : Truth) : Approx x x := Or.inr rfl

theorem Approx.none (y : Truth) : Approx none y := Or.inl rfl

theorem Approx.not {x y : Truth} (h : Approx x y) : Approx (Kleene.not x) (Kleene.not y) := by
  rcases h with rfl | rfl
  · exact Approx.none _
  · exact Approx.refl _

theorem Approx.and {x₁ y₁ x₂ y₂ : Truth} (h₁ : Approx x₁ y₁) (h₂ : Approx x₂ y₂) :
    Approx (Kleene.and x₁ x₂) (Kleene.and y₁ y₂) := by
  rcases h₁ with rfl | rfl <;> rcases h₂ with rfl | rfl
  · exact Approx.none _
  -- one operand lost its answer: the other one either decides alone or the answer is lost too
  · rcases y₁ with _ | _ | _ <;> rcases x₂ with _ | _ | _ <;> simp [Approx, Kleene.and]
  · rcases x₁ with _ | _ | _ <;> rcases y₂ with _ | _ | _ <;> simp [Approx, Kleene.and]
  · exact Approx.refl _

theorem Approx.or {x₁ y₁ x₂ y₂ : Truth} (h₁ : Approx x₁ y₁) (h₂ : Approx x₂ y₂) :
    Approx (Kleene.or x₁ x₂) (Kleene.or y₁ y₂) :=
  (h₁.not.and h₂.not).not

/-- Conjunction of lists is monotone, member by member. -/
theorem Approx.all {l₁ l₂ : List Truth} (h : List.Forall₂ Approx l₁ l₂) :
    Approx (Kleene.all l₁) (Kleene.all l₂) := by
  induction h with
  | nil => exact Approx.refl _
  | cons h _ ih => exact h.and ih

/-- Disjunction of lists is monotone, member by member. -/
theorem Approx.any {l₁ l₂ : List Truth} (h : List.Forall₂ Approx l₁ l₂) :
    Approx (Kleene.any l₁) (Kleene.any l₂) := by
  induction h with
  | nil => exact Approx.refl _
  | cons h _ ih => exact h.or ih

end Kleene
