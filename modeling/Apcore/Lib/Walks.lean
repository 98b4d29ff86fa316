import Mathlib.Logic.Relation
import Mathlib.Logic.Relator
import Mathlib.Data.List.Chain
import Mathlib.Order.Lattice

/-! # `Lib.Walks` — chains, and walks that end in a cycle

Where every point has at most one successor, a chain either ends or runs back into itself, and a
chain that passes through a point shares the fate of that point. -/

namespace Chains

universe u

variable {α : Type u} {r : α → α → Prop} {s t : α}

/-- The chain from `s` leads to a point that leads back to itself. -/
def Endless (r : α → α → Prop) (s : α) : Prop :=
  ∃ t, Relation.ReflTransGen r s t ∧ Relation.TransGen r t t

/-- An endless chain goes on, and stays endless. -/
theorem Endless.step (h : Endless r s) : ∃ t, r s t ∧ Endless r t := by
  obtain ⟨back, hreach, hcycle⟩ := h
  cases hreach using Relation.ReflTransGen.head_induction_on with
  | refl =>
    -- `s` is the point that leads back to itself, and so does its successor
    obtain ⟨t, hst, hts⟩ := Relation.TransGen.head'_iff.mp hcycle
    exact ⟨t, hst, t, .refl, Relation.TransGen.tail' hts hst⟩
  | head hst hreach => exact ⟨_, hst, back, hreach, hcycle⟩

theorem endless_iff_of_step (hr : Relator.RightUnique r) (h : r s t) :
    Endless r s ↔ Endless r t := by
  constructor
  · intro hs
    obtain ⟨u, hsu, hu⟩ := hs.step
    rw [hr h hsu]
    exact hu
  · rintro ⟨back, hreach, hcycle⟩
    exact ⟨back, .head h hreach, hcycle⟩

/-- A point on the way decides. -/
theorem endless_iff_of_reaches (hr : Relator.RightUnique r) (h : Relation.ReflTransGen r s t) :
    Endless r s ↔ Endless r t := by
  induction h with
  | refl => exact Iff.rfl
  | tail _ hstep ih => exact ih.trans (endless_iff_of_step hr hstep)

/-- A chain that ends is not endless. -/
theorem not_endless_of_reaches (hr : Relator.RightUnique r) (h : Relation.ReflTransGen r s t)
    (hend : ∀ u, ¬ r t u) : ¬ Endless r s := by
  intro hs
  obtain ⟨u, htu, -⟩ := ((endless_iff_of_reaches hr h).mp hs).step
  exact hend u htu

end Chains

/-! ## Walks that end in a cycle

A node leads to a cycle if a node on one can be reached from it. A walk that always goes on to the
least successor that leads to a cycle is determined by where it starts, and ends in one cycle; what
holds of the edges of that cycle holds of every way to write it down (`closed_iff`). -/

namespace Walks

open Relation

variable {α : Type} {R S : α → α → Prop} {u v : α}

/-- A cycle can be reached from the node. -/
def Leads (R : α → α → Prop) (u : α) : Prop := ∃ v, ReflTransGen R u v ∧ TransGen R v v

theorem Leads.of_reflTransGen (h : ReflTransGen R u v) (hv : Leads R v) : Leads R u := by
  obtain ⟨w, hvw, hww⟩ := hv
  exact ⟨w, h.trans hvw, hww⟩

/-- A node leads to a cycle where a successor does. -/
theorem leads_iff : Leads R u ↔ ∃ v, R u v ∧ Leads R v := by
  constructor
  · rintro ⟨w, huw, hww⟩
    rcases ReflTransGen.cases_head huw with rfl | ⟨v, huv, hvw⟩
    · obtain ⟨v, huv, hvu⟩ := TransGen.head'_iff.mp hww
      exact ⟨v, huv, u, hvu, hww⟩
    · exact ⟨v, huv, w, hvw, hww⟩
  · rintro ⟨v, huv, hv⟩
    exact hv.of_reflTransGen (.single huv)

/-- A closed walk, with its first node again at its end. -/
def Closed (R : α → α → Prop) (p : List α) : Prop := p.IsChain R ∧ ∃ a q, p = a :: (q ++ [a])

/-- A node is related to all that come later on a walk. -/
theorem pairwise_of_isChain {p : List α} (h : p.IsChain R) : p.Pairwise (TransGen R) :=
  List.isChain_iff_pairwise.mp (h.imp fun _ _ hR => .single hR)

/-- The nodes of a closed walk lie on a cycle, together with its first. -/
theorem Closed.transGen {a : α} {q : List α} (h : (a :: (q ++ [a])).IsChain R) {u : α}
    (hu : u ∈ a :: q) : ReflTransGen R a u ∧ TransGen R u a := by
  have hpairs := pairwise_of_isChain h
  have hlast : TransGen R u a := by
    rw [← List.cons_append, List.pairwise_append] at hpairs
    exact hpairs.2.2 u hu a (List.mem_singleton_self a)
  refine ⟨?_, hlast⟩
  rcases List.mem_cons.mp hu with rfl | hu
  · exact .refl
  · exact ((List.pairwise_cons.mp hpairs).1 u (List.mem_append_left _ hu)).to_reflTransGen

/-- A node of a closed walk has a successor on it. -/
theorem Closed.exists_next {a : α} {q : List α} {u : α} (hu : u ∈ a :: q) :
    ∃ v ∈ a :: q, ∀ R : α → α → Prop, (a :: (q ++ [a])).IsChain R → R u v := by
  obtain ⟨l, l', hsplit⟩ := List.append_of_mem hu
  have hwalk : a :: (q ++ [a]) = l ++ u :: (l' ++ [a]) := by
    rw [← List.cons_append, hsplit, List.append_assoc, List.cons_append]
  rw [hwalk]
  cases l' with
  | nil =>
    refine ⟨a, List.mem_cons_self, fun R h => ?_⟩
    exact (List.isChain_cons_cons.mp (List.isChain_append.mp h).2.1).1
  | cons v l' =>
    refine ⟨v, by simp [hsplit], fun R h => ?_⟩
    exact (List.isChain_cons_cons.mp (List.isChain_append.mp h).2.1).1

/-- Where steps are determined, what a node on a cycle reaches leads back to it. -/
theorem reflTransGen_back (hunique : Relator.RightUnique R) (hcycle : TransGen R u u)
    (h : ReflTransGen R u v) : ReflTransGen R v u := by
  induction h with
  | refl => exact .refl
  | tail _ hstep ih =>
    rcases ReflTransGen.cases_head ih with rfl | ⟨x, hx, hrest⟩
    · obtain ⟨x, hx, hrest⟩ := TransGen.head'_iff.mp hcycle
      rw [hunique hstep hx]
      exact hrest
    · rw [hunique hstep hx]
      exact hrest

section Least

variable [LinearOrder α]

/-- The step to the least successor that leads to a cycle. -/
structure LeastStep (R : α → α → Prop) (u v : α) : Prop where
  step : R u v
  leads : Leads R v
  least : ∀ w, R u w → Leads R w → v ≤ w

theorem LeastStep.rightUnique : Relator.RightUnique (LeastStep R) :=
  fun _ _ _ hv hw => le_antisymm (hv.least _ hw.step hw.leads) (hw.least _ hv.step hv.leads)

/-- The cycle in which the least steps from a node end consists of edges of a kind. -/
def EndsIn (R S : α → α → Prop) (start : α) : Prop :=
  ∀ u v, ReflTransGen (LeastStep R) start u → TransGen (LeastStep R) u u → LeastStep R u v → S u v

/-- A closed walk of least steps that is reached from a start goes along the edges of the cycle in
which the steps from there end, and along no others. -/
theorem closed_iff {start a : α} {q : List α} (hchain : (a :: (q ++ [a])).IsChain (LeastStep R))
    (hstart : ReflTransGen (LeastStep R) start a) :
    Closed S (a :: (q ++ [a])) ↔ EndsIn R S start := by
  have hunique : Relator.RightUnique (LeastStep R) := LeastStep.rightUnique
  constructor
  · rintro ⟨hS, -⟩ u v hu hcycle hstep
    -- the walk is on the cycle by the time it is at `u`, and so is the closed walk
    have hau : ReflTransGen (LeastStep R) a u := by
      rcases ReflTransGen.total_of_right_unique hunique hstart hu with h | h
      · exact h
      · exact reflTransGen_back hunique hcycle h
    have hmem : u ∈ a :: q := by
      clear hcycle hstep hu
      induction hau with
      | refl => exact List.mem_cons_self
      | tail _ hxy ih =>
        obtain ⟨y, hy, hnext⟩ := Closed.exists_next ih
        rw [hunique hxy (hnext _ hchain)]
        exact hy
    obtain ⟨y, -, hnext⟩ := Closed.exists_next hmem
    rw [hunique hstep (hnext _ hchain)]
    exact hnext _ hS
  · intro hends
    refine ⟨hchain.imp_of_mem_imp ?_, a, q, rfl⟩
    intro u v hu _ hstep
    have hmem : u ∈ a :: q := by simpa [or_comm, or_assoc] using hu
    obtain ⟨hfrom, hto⟩ := Closed.transGen hchain hmem
    exact hends u v (hstart.trans hfrom) (hto.trans_left hfrom) hstep

end Least

end Walks
