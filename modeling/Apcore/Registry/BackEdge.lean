import Mathlib.Algebra.Order.BigOperators.Group.List
import Mathlib.Algebra.Order.Ring.Nat
import Apcore.Lib.Walks
import Apcore.Registry.Dependencies

/-! # `Registry.BackEdge` — what the search for a back edge finds

The stack of `dfs_find_cycle` is a walk (`Trail`): each frame has looked at some of its targets, none
of which leads to a cycle, and is now at the next. So the search goes along the least steps that lead
to a cycle, and the back edge it finds closes the cycle in which these steps end. Every turn is paid
for by a node that is not visited yet, or by what a frame has still to look at (`work`). -/

namespace Apcore

open Relation

variable {depMap : String → List String} {start : String}

/-- The target is listed for the node. -/
def Lists (depMap : String → List String) (u v : String) : Prop := v ∈ depMap u

/-- The first target of a node behind some that lead to no cycle. -/
def FirstListed (depMap : String → List String) (u v : String) : Prop :=
  ∃ i : Nat, (depMap u)[i]? = some v ∧
    ∀ w ∈ (depMap u).take i, ¬ Walks.Leads (Lists depMap) w

theorem FirstListed.lists {u v : String} (h : FirstListed depMap u v) : Lists depMap u v := by
  obtain ⟨i, hv, -⟩ := h
  exact List.mem_of_getElem? hv

/-- In a sorted list, the first target that leads to a cycle is the least. -/
theorem FirstListed.leastStep {u v : String} (hsorted : (depMap u).Pairwise (· ≤ ·))
    (h : FirstListed depMap u v) (hv : Walks.Leads (Lists depMap) v) :
    Walks.LeastStep (Lists depMap) u v := by
  refine ⟨h.lists, hv, fun w hw hleads => ?_⟩
  obtain ⟨i, hi, hclean⟩ := h
  obtain ⟨j, hj, rfl⟩ := List.mem_iff_getElem.mp hw
  have hij : i ≤ j := by
    by_contra hlt
    exact hclean _ (List.mem_take_iff_getElem.mpr ⟨j, by omega, rfl⟩) hleads
  obtain ⟨hlt, rfl⟩ := List.getElem?_eq_some_iff.mp hi
  rcases Nat.eq_or_lt_of_le hij with rfl | hlt
  · exact le_rfl
  · exact List.pairwise_iff_getElem.mp hsorted _ _ _ _ hlt

/-- The frames below a node: a walk from the start to it. -/
inductive Trail (depMap : String → List String) (start : String) :
    List String → List (String × Nat) → String → Prop
  | start : Trail depMap start [] [] start
  | step {path : List String} {below : List (String × Nat)} {u v : String} {i : Nat}
      (h : Trail depMap start path below u) (hv : (depMap u)[i]? = some v)
      (hclean : ∀ w ∈ (depMap u).take i, ¬ Walks.Leads (Lists depMap) w) :
    Trail depMap start (path ++ [u]) ((u, i + 1) :: below) v

theorem Trail.isChain {path : List String} {below : List (String × Nat)} {v : String}
    (h : Trail depMap start path below v) : (path ++ [v]).IsChain (FirstListed depMap) := by
  induction h with
  | start => exact List.isChain_singleton _
  | @step path below u v i _ hv hclean ih =>
    rw [List.append_assoc]
    rw [List.isChain_append] at ih ⊢
    refine ⟨ih.1, List.isChain_pair.mpr ⟨i, hv, hclean⟩, ?_⟩
    intro x hx y hy
    exact ih.2.2 x hx y (by simpa using hy)

theorem Trail.head {path : List String} {below : List (String × Nat)} {v : String}
    (h : Trail depMap start path below v) : ∃ rest, path ++ [v] = start :: rest := by
  induction h with
  | start => exact ⟨[], rfl⟩
  | @step path below u v i _ hv hclean ih =>
    obtain ⟨rest, hrest⟩ := ih
    exact ⟨rest ++ [v], by rw [hrest, List.cons_append]⟩

/-- Where the search is: at a node, back at one, or at the end. -/
inductive SearchAt (depMap : String → List String) (start : String) :
    List String → List (String × Nat) → Prop
  | entering {path : List String} {below : List (String × Nat)} {v : String}
      (h : Trail depMap start path below v) : SearchAt depMap start path ((v, 0) :: below)
  | resuming {path : List String} {below : List (String × Nat)} {u : String} {i : Nat}
      (h : Trail depMap start path below u)
      (hclean : ∀ w ∈ (depMap u).take (i + 1), ¬ Walks.Leads (Lists depMap) w) :
    SearchAt depMap start (path ++ [u]) ((u, i + 1) :: below)
  | done (h : ¬ Walks.Leads (Lists depMap) start) : SearchAt depMap start [] []

/-- The search comes back from a node that leads to no cycle. -/
theorem Trail.returned {path : List String} {below : List (String × Nat)} {v : String}
    (h : Trail depMap start path below v) (hv : ¬ Walks.Leads (Lists depMap) v) :
    SearchAt depMap start path below := by
  cases h with
  | start => exact .done hv
  | step h hi hclean =>
    refine .resuming h fun w hw => ?_
    rw [List.take_add_one, hi, List.mem_append] at hw
    rcases hw with hw | hw
    · exact hclean w hw
    · obtain rfl : w = v := by simpa using hw
      exact hv

/-- The invariant of a turn. -/
structure Searches (depMap : String → List String) (start : String) (st : DfsState) : Prop where
  at_ : SearchAt depMap start st.path st.stack
  onPath : st.onPath = st.path.reverse
  clean : ∀ u ∈ st.visited, u ∉ st.path → ¬ Walks.Leads (Lists depMap) u

/-- What the search ends with. -/
inductive Finds (depMap : String → List String) (start : String) : Option (List String) → Prop
  | none (h : ¬ Walks.Leads (Lists depMap) start) : Finds depMap start none
  | some (a : String) (q : List String)
      (hchain : (a :: (q ++ [a])).IsChain (Walks.LeastStep (Lists depMap)))
      (hstart : ReflTransGen (Walks.LeastStep (Lists depMap)) start a) :
    Finds depMap start (some (a :: (q ++ [a])))

/-- **A back edge** closes a walk of least steps. -/
theorem Trail.finds {path : List String} {below : List (String × Nat)} {v : String}
    (hsorted : ∀ u, (depMap u).Pairwise (· ≤ ·)) (h : Trail depMap start path below v)
    (hv : v ∈ path) : Finds depMap start (some (path.drop (path.idxOf v) ++ [v])) := by
  have hlt : path.idxOf v < path.length := List.idxOf_lt_length_iff.mpr hv
  obtain ⟨q, hq⟩ : ∃ q, path.drop (path.idxOf v) = v :: q :=
    ⟨_, by rw [List.drop_eq_getElem_cons hlt, List.getElem_idxOf hlt]⟩
  have hlisted : (path ++ [v]).IsChain (Lists depMap) := h.isChain.imp fun _ _ h => h.lists
  have hcycle : Walks.Leads (Lists depMap) v := by
    have hsuffix : (v :: q ++ [v]).IsChain (Lists depMap) := by
      rw [← hq, ← List.drop_append_of_le_length hlt.le]
      exact hlisted.drop _
    exact ⟨v, .refl, (Walks.Closed.transGen hsuffix List.mem_cons_self).2⟩
  -- every node of the walk leads to the cycle, so all its steps are least ones
  have hleads : ∀ u ∈ path ++ [v], Walks.Leads (Lists depMap) u := by
    intro u hu
    rcases List.mem_append.mp hu with hu | hu
    · have hpairs := List.pairwise_append.mp (Walks.pairwise_of_isChain hlisted)
      exact hcycle.of_reflTransGen (hpairs.2.2 u hu v (List.mem_singleton_self v)).to_reflTransGen
    · rw [List.mem_singleton.mp hu]
      exact hcycle
  have hleast : (path ++ [v]).IsChain (Walks.LeastStep (Lists depMap)) :=
    h.isChain.imp_of_mem_imp fun u w _ hw hstep => hstep.leastStep (hsorted u) (hleads w hw)
  rw [hq]
  refine .some v q ?_ ?_
  · rw [← List.cons_append, ← hq, ← List.drop_append_of_le_length hlt.le]
    exact hleast.drop _
  · obtain ⟨rest, hrest⟩ := h.head
    rw [hrest] at hleast
    have hmem : v ∈ start :: rest := by
      rw [← hrest]
      exact List.mem_append_left _ hv
    rcases List.mem_cons.mp hmem with rfl | hmem
    · exact .refl
    · exact ((List.pairwise_cons.mp (Walks.pairwise_of_isChain hleast)).1 v hmem).to_reflTransGen

/-! ## Turns -/

/-- The turns that a frame may take still. -/
def frameWork (depMap : String → List String) : String × Nat → Nat
  | (_, 0) => 1
  | (u, i + 1) => 2 * ((depMap u).length - (i + 1)) + 1

/-- The turns that a node takes once it is visited. -/
def visitWork (depMap : String → List String) (u : String) : Nat := 2 * (depMap u).length + 1

/-- The turns that a search may take still, among these nodes. -/
def work (depMap : String → List String) (ids : List String) (st : DfsState) : Nat :=
  ((ids.filter (· ∉ st.visited)).map (visitWork depMap)).sum + (st.stack.map (frameWork depMap)).sum

/-- A visit takes the work of the node away. -/
theorem sum_visit_le {ids visited : List String} {u : String} (hu : u ∈ ids) (hnew : u ∉ visited) :
    ((ids.filter (· ∉ u :: visited)).map (visitWork depMap)).sum + visitWork depMap u ≤
      ((ids.filter (· ∉ visited)).map (visitWork depMap)).sum := by
  have hfilter : ids.filter (· ∉ u :: visited) = (ids.filter (· ∉ visited)).filter (· ≠ u) := by
    rw [List.filter_filter]
    refine List.filter_congr fun w _ => ?_
    simp [not_or]
  rw [hfilter]
  have hmem : u ∈ ids.filter (· ∉ visited) := List.mem_filter.mpr ⟨hu, by simpa using hnew⟩
  generalize ids.filter (· ∉ visited) = left at hmem
  induction left with
  | nil => cases hmem
  | cons w left ih =>
    rw [List.filter_cons, List.map_cons, List.sum_cons]
    by_cases hw : w = u
    · subst hw
      have hle := ((List.filter_sublist (p := (· ≠ w)) (l := left)).map (visitWork depMap)).sum_le_sum
        fun _ _ => Nat.zero_le _
      rw [if_neg (by simp)]
      omega
    · have hle := ih ((List.mem_cons.mp hmem).resolve_left fun h => hw h.symm)
      rw [if_pos (by simpa using hw), List.map_cons, List.sum_cons]
      omega

/-- Below a node some of whose targets are looked at, the search goes on to the next target, or back
to where it came from. -/
theorem Searches.advance {st : DfsState} {path : List String} {below : List (String × Nat)}
    {u : String} {i : Nat} (h : Trail depMap start path below u)
    (hclean : ∀ w ∈ (depMap u).take i, ¬ Walks.Leads (Lists depMap) w)
    (hpath : st.path = path ++ [u]) (honPath : st.onPath = st.path.reverse)
    (hvisited : ∀ w ∈ st.visited, w ∉ st.path → ¬ Walks.Leads (Lists depMap) w) :
    Searches depMap start (dfsAdvance depMap st u i below) ∧
      (dfsAdvance depMap st u i below).visited = st.visited ∧
      ((dfsAdvance depMap st u i below).stack.map (frameWork depMap)).sum ≤
        2 * ((depMap u).length - i) + (below.map (frameWork depMap)).sum := by
  unfold dfsAdvance
  cases hnext : (depMap u)[i]? with
  | some v =>
    refine ⟨⟨?_, honPath, hvisited⟩, rfl, ?_⟩
    · show SearchAt depMap start st.path _
      rw [hpath]
      exact .entering (h.step hnext hclean)
    · have hlt := (List.getElem?_eq_some_iff.mp hnext).1
      simp only [List.map_cons, List.sum_cons, frameWork]
      omega
  | none =>
    -- no target is left, and none leads to a cycle
    have hu : ¬ Walks.Leads (Lists depMap) u := by
      rw [Walks.leads_iff]
      rintro ⟨w, hw, hleads⟩
      have hall : (depMap u).take i = depMap u :=
        List.take_of_length_le (List.getElem?_eq_none_iff.mp hnext)
      rw [hall] at hclean
      exact hclean w hw hleads
    have hback : st.path.dropLast = path := by rw [hpath, List.dropLast_concat]
    refine ⟨⟨?_, ?_, ?_⟩, rfl, Nat.le_add_left _ _⟩
    · show SearchAt depMap start st.path.dropLast below
      rw [hback]
      exact h.returned hu
    · show st.onPath.erase u = st.path.dropLast.reverse
      rw [honPath, hback, hpath, List.reverse_append, List.reverse_singleton,
        List.singleton_append, List.erase_cons_head]
    · intro w hw hout
      change w ∉ st.path.dropLast at hout
      rw [hback] at hout
      by_cases hwu : w = u
      · rw [hwu]
        exact hu
      · exact hvisited w hw (by simp [hpath, hout, hwu])

/-- The nodes of a walk are among those that the targets are. -/
theorem Trail.mem {ids : List String} (hstart : start ∈ ids)
    (hclosed : ∀ u, ∀ v ∈ depMap u, v ∈ ids) {path : List String} {below : List (String × Nat)}
    {v : String} (h : Trail depMap start path below v) : v ∈ ids := by
  cases h with
  | start => exact hstart
  | step _ hv _ => exact hclosed _ _ (List.mem_of_getElem? hv)

/-- **The search** finds a cycle if one can be reached, given its turns. -/
theorem finds_dfsFindCycle {ids : List String} (hsorted : ∀ u, (depMap u).Pairwise (· ≤ ·))
    (hstart : start ∈ ids) (hclosed : ∀ u, ∀ v ∈ depMap u, v ∈ ids) {fuel : Nat} {st : DfsState}
    (h : Searches depMap start st) (hfuel : work depMap ids st ≤ fuel) :
    Finds depMap start (dfsFindCycle depMap fuel st) := by
  -- on the turns, each of which costs some of the work
  induction fuel generalizing st with
  | zero =>
    obtain ⟨path, onPath, visited, stack⟩ := st
    obtain ⟨hat, -, -⟩ := h
    have hstack : (stack.map (frameWork depMap)).sum = 0 := by
      simp only [work] at hfuel
      omega
    cases hat with
    | entering => simp [frameWork] at hstack
    | resuming => simp [frameWork] at hstack
    | done hnot => exact .none hnot
  | succ fuel ih =>
    obtain ⟨path, onPath, visited, stack⟩ := st
    obtain ⟨hat, honPath, hclean⟩ := h
    rw [dfsFindCycle]
    cases hat with
    | done hnot => exact .none hnot
    | @entering path below v htrail =>
      change onPath = path.reverse at honPath
      change ∀ u ∈ visited, u ∉ path → _ at hclean
      simp only [work, List.map_cons, List.sum_cons, frameWork] at hfuel
      dsimp only
      rw [if_pos rfl]
      split_ifs with hon hvisited
      · rw [honPath, List.mem_reverse] at hon
        exact htrail.finds hsorted hon
      · have hout : v ∉ path := by
          rw [honPath, List.mem_reverse] at hon
          exact hon
        refine ih ⟨htrail.returned (hclean v hvisited hout), honPath, hclean⟩ ?_
        simp only [work]
        omega
      · have hvisited' : ∀ w ∈ v :: visited, w ∉ path ++ [v] →
            ¬ Walks.Leads (Lists depMap) w := by
          intro w hw hnot
          rw [List.mem_append, List.mem_singleton, not_or] at hnot
          exact hclean w ((List.mem_cons.mp hw).resolve_left hnot.2) hnot.1
        obtain ⟨hsearches, hsame, hstack⟩ := @Searches.advance depMap start
          { path := path ++ [v], onPath := v :: onPath, visited := v :: visited
            stack := (v, 0) :: below } path below v 0 htrail (by simp) rfl (by simp [honPath])
          hvisited'
        refine ih hsearches ?_
        have hvisit := @sum_visit_le depMap ids visited v (htrail.mem hstart hclosed) hvisited
        rw [work, hsame]
        unfold visitWork at hvisit hfuel ⊢
        dsimp only at hstack ⊢
        omega
    | @resuming path below u i htrail hdone =>
      change onPath = (path ++ [u]).reverse at honPath
      change ∀ w ∈ visited, w ∉ path ++ [u] → _ at hclean
      simp only [work, List.map_cons, List.sum_cons, frameWork] at hfuel
      dsimp only
      rw [if_neg (Nat.succ_ne_zero i)]
      obtain ⟨hsearches, hsame, hstack⟩ := @Searches.advance depMap start
        { path := path ++ [u], onPath, visited, stack := (u, i + 1) :: below } path below u (i + 1)
        htrail hdone rfl honPath hclean
      have hwork : work depMap ids (dfsAdvance depMap { path := path ++ [u], onPath, visited
                                                        stack := (u, i + 1) :: below } u (i + 1)
          below) ≤ fuel := by
        rw [work, hsame]
        dsimp only at hstack ⊢
        omega
      exact ih hsearches hwork

end Apcore
