import Mathlib.Algebra.BigOperators.Group.Finset.Basic
import Mathlib.Algebra.Order.BigOperators.Group.Finset
import Mathlib.Logic.Relation

/-! # `Lib.Worklist` — a worklist visits what its start reaches

The list of nodes still to visit may hold nodes that were visited before; those are passed over. What
is left to do shrinks with every node taken, because a visit is paid for by the successors of nodes
that are not visited yet. -/

namespace Worklist

universe u

variable {α : Type u} {succ : α → List α} {start a : α} {visited pending : List α}

/-- Reached along successors. -/
def Reaches (succ : α → List α) : α → α → Prop := Relation.ReflTransGen fun a b => b ∈ succ a

/-- The nodes listed are reached, and those visited have their successors listed. -/
structure Inv (succ : α → List α) (start : α) (visited pending : List α) : Prop where
  visited_reached : ∀ a ∈ visited, Reaches succ start a
  pending_reached : ∀ a ∈ pending, Reaches succ start a
  start_listed : start ∈ visited ∨ start ∈ pending
  closed : ∀ a ∈ visited, ∀ b ∈ succ a, b ∈ visited ∨ b ∈ pending

theorem Inv.init : Inv succ start [] [start] where
  visited_reached := by simp
  pending_reached := by
    intro a ha
    obtain rfl := List.mem_singleton.mp ha
    exact .refl
  start_listed := .inr List.mem_cons_self
  closed := by simp

/-- A visited node is passed over. -/
theorem Inv.pass (h : Inv succ start visited (a :: pending)) (hvisited : a ∈ visited) :
    Inv succ start visited pending where
  visited_reached := h.visited_reached
  pending_reached := fun b hb => h.pending_reached b (List.mem_cons_of_mem _ hb)
  start_listed := by
    rcases h.start_listed with hstart | hstart
    · exact .inl hstart
    · rcases List.mem_cons.mp hstart with rfl | hstart
      · exact .inl hvisited
      · exact .inr hstart
  closed := by
    intro b hb c hc
    rcases h.closed b hb c hc with hmem | hmem
    · exact .inl hmem
    · rcases List.mem_cons.mp hmem with rfl | hmem
      · exact .inl hvisited
      · exact .inr hmem

/-- A node is visited, and its successors go on the list. -/
theorem Inv.visit (h : Inv succ start visited (a :: pending)) :
    Inv succ start (a :: visited) ((succ a).reverse ++ pending) where
  visited_reached := by
    intro b hb
    rcases List.mem_cons.mp hb with rfl | hb
    · exact h.pending_reached _ List.mem_cons_self
    · exact h.visited_reached b hb
  pending_reached := by
    intro b hb
    rcases List.mem_append.mp hb with hb | hb
    · exact (h.pending_reached a List.mem_cons_self).tail (List.mem_reverse.mp hb)
    · exact h.pending_reached b (List.mem_cons_of_mem _ hb)
  start_listed := by
    rcases h.start_listed with hstart | hstart
    · exact .inl (List.mem_cons_of_mem _ hstart)
    · rcases List.mem_cons.mp hstart with rfl | hstart
      · exact .inl List.mem_cons_self
      · exact .inr (List.mem_append_right _ hstart)
  closed := by
    intro b hb c hc
    rcases List.mem_cons.mp hb with rfl | hb
    · exact .inr (List.mem_append_left _ (List.mem_reverse.mpr hc))
    · rcases h.closed b hb c hc with hmem | hmem
      · exact .inl (List.mem_cons_of_mem _ hmem)
      · rcases List.mem_cons.mp hmem with rfl | hmem
        · exact .inl List.mem_cons_self
        · exact .inr (List.mem_append_right _ hmem)

/-- With an empty list, the nodes visited are the nodes reached. -/
theorem Inv.mem_visited_iff (h : Inv succ start visited []) :
    a ∈ visited ↔ Reaches succ start a := by
  refine ⟨h.visited_reached a, fun hreach => ?_⟩
  induction hreach with
  | refl => exact h.start_listed.resolve_right (by simp)
  | tail _ hstep ih => exact (h.closed _ ih _ hstep).resolve_right (by simp)

/-! ## Termination -/

variable [DecidableEq α]

/-- What is left to do among finitely many nodes. -/
def work (nodes : Finset α) (succ : α → List α) (visited pending : List α) : Nat :=
  pending.length + ∑ a ∈ nodes with a ∉ visited, (succ a).length

theorem work_pass (nodes : Finset α) :
    work nodes succ visited pending < work nodes succ visited (a :: pending) := by
  unfold work
  rw [List.length_cons]
  omega

theorem work_visit {nodes : Finset α} (hmem : a ∈ nodes) (hfresh : a ∉ visited) :
    work nodes succ (a :: visited) ((succ a).reverse ++ pending) <
      work nodes succ visited (a :: pending) := by
  have hsplit : (nodes.filter (· ∉ visited)) = insert a (nodes.filter (· ∉ a :: visited)) := by
    ext b
    by_cases hb : b = a
    · subst hb
      simp [hmem, hfresh]
    · simp [hb]
  unfold work
  rw [hsplit, Finset.sum_insert (by simp), List.length_append, List.length_reverse,
    List.length_cons]
  omega

end Worklist
