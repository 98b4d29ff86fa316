import Mathlib.Data.List.Dedup
import Mathlib.Data.List.Sort
import Mathlib.Data.Fintype.EquivFin
import Mathlib.Data.Fintype.Sets
import Mathlib.Order.WellFounded
import Mathlib.Logic.Relation

/-! # `Lib.Kahn` — topological sorting with a queue

A graph is a list of edges from a node to its dependents. `Kahn.drain` takes ready nodes from a queue,
puts each into the order and lowers the in-degree of its dependents, which become ready at 0; ties
are broken by sorting. Its invariant (`Kahn.Inv`) says what an in-degree counts: the edges from nodes
that are not in the order yet, and those of the dependents still to be looked at.

`Kahn.complete_iff` says when every node is ordered, `Kahn.isTopologicalOrder` what the order then is,
and `Kahn.order_perm` that it depends on the nodes and edges only as multisets. -/

namespace Kahn

variable {α : Type}

/-! ## Orders and cycles -/

/-- The relation has no cycle. -/
def Acyclic (R : α → α → Prop) : Prop := ∀ v, ¬ Relation.TransGen R v v

/-- `u` stands before `v` in the list. -/
def Precedes (order : List α) (u v : α) : Prop :=
  ∃ i j : Nat, i < j ∧ order[i]? = some u ∧ order[j]? = some v

/-- The list has exactly the given nodes, each behind those it is related to. -/
structure IsTopologicalOrder (R : α → α → Prop) (ids order : List α) : Prop where
  perm : order.Perm ids
  precedes : ∀ u v, R u v → v ∈ ids → Precedes order u v

/-- Nodes that can be ordered form no cycle. -/
theorem IsTopologicalOrder.acyclic {R : α → α → Prop} {ids order : List α}
    (h : IsTopologicalOrder R ids order) (hnodup : ids.Nodup) (htarget : ∀ u v, R u v → v ∈ ids) :
    Acyclic R := by
  have horder : order.Nodup := h.perm.nodup_iff.mpr hnodup
  -- along a path the position grows
  have hpath : ∀ u v, Relation.TransGen R u v → Precedes order u v := by
    intro u v huv
    induction huv with
    | single hR => exact h.precedes _ _ hR (htarget _ _ hR)
    | tail _ hR ih =>
      obtain ⟨i, j, hij, hi, hj⟩ := ih
      obtain ⟨j', k, hjk, hj', hk⟩ := h.precedes _ _ hR (htarget _ _ hR)
      have hlt : j < order.length := (List.getElem?_eq_some_iff.mp hj).1
      obtain rfl : j = j' := (List.getElem?_inj hlt horder).mp (hj.trans hj'.symm)
      exact ⟨i, k, by omega, hi, hk⟩
  intro v hv
  obtain ⟨i, j, hij, hi, hj⟩ := hpath v v hv
  have hlt : i < order.length := (List.getElem?_eq_some_iff.mp hi).1
  have := (List.getElem?_inj hlt horder).mp (hi.trans hj.symm)
  omega

/-- Finitely many nodes, each with a predecessor among them, contain a cycle. -/
theorem not_acyclic_of_stuck {R : α → α → Prop} {stuck : List α} (hne : stuck ≠ [])
    (hpred : ∀ v ∈ stuck, ∃ u ∈ stuck, R u v) : ¬ Acyclic R := by
  intro hacyclic
  let S : {v // v ∈ stuck} → {v // v ∈ stuck} → Prop := fun a b => Relation.TransGen R a.1 b.1
  have hfinite : Finite {v // v ∈ stuck} := by
    classical
    exact Finite.of_fintype _
  have htrans : IsTrans {v // v ∈ stuck} S := ⟨fun _ _ _ hab hbc => hab.trans hbc⟩
  have hirrefl : Std.Irrefl S := ⟨fun a => hacyclic a.1⟩
  obtain ⟨v, hv⟩ := List.exists_mem_of_ne_nil stuck hne
  have hwf : WellFounded S := Finite.wellFounded_of_trans_of_irrefl S
  obtain ⟨⟨m, hm⟩, -, hmin⟩ := hwf.has_min Set.univ ⟨⟨v, hv⟩, trivial⟩
  obtain ⟨u, hu, hR⟩ := hpred m hm
  exact hmin ⟨u, hu⟩ trivial (.single hR)

/-! ## The algorithm -/

section Algorithm

variable [LinearOrder α]

/-- `sort`: equal elements are the same, so stability does not show. -/
def sorted (l : List α) : List α := l.insertionSort (· ≤ ·)

/-- Sorting forgets the order. -/
theorem sorted_perm {l l' : List α} (h : l.Perm l') : sorted l = sorted l' := by
  have hperm : (sorted l).Perm (sorted l') :=
    (List.perm_insertionSort _ l).trans (h.trans (List.perm_insertionSort _ l').symm)
  exact hperm.eq_of_sortedLE List.sortedLE_insertionSort List.sortedLE_insertionSort

theorem perm_sorted (l : List α) : (sorted l).Perm l := List.perm_insertionSort _ l

/-- In-degrees (of known nodes), ready nodes, and the order so far. -/
structure State (α : Type) where
  inDegree : α → Option Nat
  queue : List α
  order : List α

/-- Lower the in-degree of a dependent; at 0 it is ready. -/
def relax (st : State α) (dependent : α) : State α :=
  match st.inDegree dependent with
  | some deg =>
    { st with
      inDegree := Function.update st.inDegree dependent (some (deg - 1))
      queue := if deg - 1 = 0 then st.queue ++ [dependent] else st.queue }
  | none => st

/-- Take a ready node, with the rest of the queue. -/
def pop (graph : α → List α) (st : State α) (id : α) (rest : List α) : State α :=
  (sorted (graph id)).foldl relax { st with queue := rest, order := st.order ++ [id] }

/-- Take ready nodes while there are any, for at most `fuel` turns. -/
def drain (graph : α → List α) : Nat → State α → State α
  | 0, st => st
  | fuel + 1, st =>
    match st.queue with
    | [] => st
    | id :: rest => drain graph fuel (pop graph st id rest)

/-! ## The invariant -/

/-- The edges to a node from nodes that are not in the order. -/
def pending (edges : List (α × α)) (order : List α) (v : α) : Nat :=
  edges.countP fun e => e.2 = v ∧ e.1 ∉ order

/-- The dependents of a node, once for each edge. -/
def dependents (edges : List (α × α)) (u : α) : List α :=
  (edges.filter (·.1 = u)).map (·.2)

/-- The invariant of a turn, in which the dependents `todo` are still to be looked at. -/
structure Inv (ids : List α) (edges : List (α × α)) (todo : List α) (st : State α) : Prop where
  nodup : (st.order ++ st.queue).Nodup
  known : ∀ v ∈ st.order ++ st.queue, v ∈ ids
  degree : ∀ v ∈ ids, st.inDegree v = some (pending edges st.order v + todo.count v)
  ready : ∀ v ∈ ids, v ∈ st.order ++ st.queue ↔ pending edges st.order v + todo.count v = 0
  behind : ∀ i v, st.order[i]? = some v → ∀ u, (u, v) ∈ edges → u ∈ st.order.take i

theorem pending_eq_zero {edges : List (α × α)} {order : List α} {v : α} :
    pending edges order v = 0 ↔ ∀ u, (u, v) ∈ edges → u ∈ order := by
  unfold pending
  rw [List.countP_eq_zero]
  constructor
  · intro h u hu
    by_contra hnot
    exact h (u, v) hu (by simpa using hnot)
  · rintro h ⟨u, v'⟩ he hdec
    have hdec : v' = v ∧ u ∉ order := by simpa using hdec
    exact hdec.2 (h u (hdec.1 ▸ he))

/-- An edge from a new node of the order is pending no more: it is one of its dependents. -/
theorem pending_append (edges : List (α × α)) {order : List α} {id : α} (hid : id ∉ order) (v : α) :
    pending edges (order ++ [id]) v + (dependents edges id).count v = pending edges order v := by
  unfold pending dependents
  induction edges with
  | nil => rfl
  | cons e edges ih =>
    rw [List.countP_cons, List.countP_cons, ← ih]
    by_cases hsource : e.1 = id
    · rw [List.filter_cons_of_pos (by simpa using hsource), List.map_cons, List.count_cons]
      by_cases htarget : e.2 = v
      · simp [hsource, htarget, hid]
        omega
      · simp [htarget]
    · rw [List.filter_cons_of_neg (by simpa using hsource)]
      have hsame : (e.2 = v ∧ e.1 ∉ order ++ [id]) ↔ (e.2 = v ∧ e.1 ∉ order) := by
        simp [hsource]
      simp only [hsame]
      omega

/-- **One dependent**: it has an in-degree above 0 and is neither ordered nor ready. -/
theorem Inv.relax {ids : List α} {edges : List (α × α)} {dependent : α} {todo : List α}
    {st : State α} (h : Inv ids edges (dependent :: todo) st) (hmem : dependent ∈ ids) :
    Inv ids edges todo (relax st dependent) := by
  have hdeg := h.degree dependent hmem
  rw [List.count_cons_self] at hdeg
  have hfresh : dependent ∉ st.order ++ st.queue := by
    rw [h.ready dependent hmem, List.count_cons_self]
    omega
  have hlower : Kahn.relax st dependent =
      { st with
        inDegree := Function.update st.inDegree dependent
          (some (pending edges st.order dependent + todo.count dependent))
        queue := if pending edges st.order dependent + todo.count dependent = 0
          then st.queue ++ [dependent] else st.queue } := by
    unfold Kahn.relax
    rw [hdeg]
    rfl
  rw [hlower]
  by_cases hzero : pending edges st.order dependent + todo.count dependent = 0
  · rw [if_pos hzero]
    refine ⟨?_, ?_, ?_, ?_, h.behind⟩
    · rw [← List.append_assoc]
      exact List.nodup_append.mpr ⟨h.nodup, List.nodup_singleton _,
        fun a ha b hb hab => hfresh (by rw [← List.mem_singleton.mp hb, ← hab]; exact ha)⟩
    · intro v hv
      rw [← List.append_assoc, List.mem_append, List.mem_singleton] at hv
      rcases hv with hv | rfl
      · exact h.known v hv
      · exact hmem
    · intro v hv
      by_cases hvd : v = dependent
      · subst hvd
        exact Function.update_self ..
      · have := h.degree v hv
        rw [List.count_cons_of_ne (Ne.symm hvd)] at this
        exact (Function.update_of_ne hvd ..).trans this
    · intro v hv
      rw [← List.append_assoc, List.mem_append, List.mem_singleton]
      by_cases hvd : v = dependent
      · subst hvd
        exact iff_of_true (.inr rfl) hzero
      · have := h.ready v hv
        rw [List.count_cons_of_ne (Ne.symm hvd)] at this
        rw [or_iff_left hvd, this]
  · rw [if_neg hzero]
    refine ⟨h.nodup, h.known, ?_, ?_, h.behind⟩
    · intro v hv
      by_cases hvd : v = dependent
      · subst hvd
        exact Function.update_self ..
      · have := h.degree v hv
        rw [List.count_cons_of_ne (Ne.symm hvd)] at this
        exact (Function.update_of_ne hvd ..).trans this
    · intro v hv
      by_cases hvd : v = dependent
      · subst hvd
        exact iff_of_false hfresh hzero
      · have := h.ready v hv
        rw [List.count_cons_of_ne (Ne.symm hvd)] at this
        exact this

theorem Inv.foldl_relax {ids : List α} {edges : List (α × α)} {todo : List α} {st : State α}
    (h : Inv ids edges todo st) (hmem : ∀ v ∈ todo, v ∈ ids) :
    Inv ids edges [] (todo.foldl Kahn.relax st) := by
  induction todo generalizing st with
  | nil => exact h
  | cons dependent todo ih =>
    exact ih (h.relax (hmem dependent List.mem_cons_self))
      fun v hv => hmem v (List.mem_cons_of_mem _ hv)

/-- Dependents keep the order. -/
theorem foldl_relax_order (todo : List α) (st : State α) :
    (todo.foldl Kahn.relax st).order = st.order := by
  induction todo generalizing st with
  | nil => rfl
  | cons dependent todo ih =>
    refine (ih _).trans ?_
    unfold Kahn.relax
    cases st.inDegree dependent with
    | none => rfl
    | some deg => rfl

/-- **One turn.** -/
theorem Inv.pop {ids : List α} {edges : List (α × α)} {st : State α} {id : α} {rest : List α}
    (h : Inv ids edges [] st) (hqueue : st.queue = id :: rest) (htarget : ∀ e ∈ edges, e.2 ∈ ids) :
    Inv ids edges [] (pop (dependents edges) st id rest) := by
  have hnodup := h.nodup
  have hknown := h.known
  have hready := h.ready
  rw [hqueue] at hnodup hknown hready
  have hid : id ∈ ids := hknown id (by simp)
  have hout : id ∉ st.order := fun hin =>
    (List.nodup_append.mp hnodup).2.2 id hin id List.mem_cons_self rfl
  have hshift : st.order ++ id :: rest = (st.order ++ [id]) ++ rest := by simp
  -- with the node in the order, its dependents are the edges that are pending no more
  have hsame : ∀ v, pending edges (st.order ++ [id]) v + (sorted (dependents edges id)).count v =
      pending edges st.order v + ([] : List α).count v := by
    intro v
    rw [(perm_sorted _).count_eq, pending_append edges hout, List.count_nil, Nat.add_zero]
  refine Inv.foldl_relax ⟨?_, ?_, ?_, ?_, ?_⟩ ?_
  · exact hshift ▸ hnodup
  · exact hshift ▸ hknown
  · intro v hv
    refine (h.degree v hv).trans (congrArg some (hsame v).symm)
  · intro v hv
    have := hready v hv
    rw [hshift, ← hsame v] at this
    exact this
  · intro i v hi u hu
    rcases Nat.lt_or_ge i st.order.length with hlt | hge
    · rw [List.take_append_of_le_length hlt.le]
      refine h.behind i v ?_ u hu
      rw [← hi, List.getElem?_append_left hlt]
    · have hlast : i = st.order.length ∧ v = id := by
        have hlen := (List.getElem?_eq_some_iff.mp hi).1
        simp only [List.length_append, List.length_singleton] at hlen
        obtain rfl : i = st.order.length := by omega
        rw [List.getElem?_append_right le_rfl] at hi
        exact ⟨rfl, by simpa using hi.symm⟩
      obtain ⟨rfl, rfl⟩ := hlast
      rw [List.take_append_of_le_length le_rfl, List.take_length]
      have hzero : pending edges st.order v = 0 := by
        simpa using (hready v hid).mp (by simp)
      exact pending_eq_zero.mp hzero u hu
  · intro v hv
    obtain ⟨e, he, rfl⟩ := List.mem_map.mp ((perm_sorted _).mem_iff.mp hv)
    exact htarget e (List.mem_of_mem_filter he)

/-- **All turns**: with as many turns as there are nodes outside the order, the queue runs empty. -/
theorem Inv.drain {ids : List α} {edges : List (α × α)} {st : State α} (h : Inv ids edges [] st)
    (htarget : ∀ e ∈ edges, e.2 ∈ ids) {fuel : Nat} (hfuel : ids.length ≤ fuel + st.order.length) :
    Inv ids edges [] (drain (dependents edges) fuel st) ∧
      (drain (dependents edges) fuel st).queue = [] := by
  induction fuel generalizing st with
  | zero =>
    refine ⟨h, ?_⟩
    have hle : (st.order ++ st.queue).length ≤ ids.length :=
      (List.subperm_of_subset h.nodup h.known).length_le
    rw [List.length_append] at hle
    have : st.queue.length = 0 := by omega
    exact List.length_eq_zero_iff.mp this
  | succ fuel ih =>
    unfold Kahn.drain
    cases hqueue : st.queue with
    | nil => exact ⟨h, hqueue⟩
    | cons id rest =>
      refine ih (h.pop hqueue htarget) ?_
      have horder : (Kahn.pop (dependents edges) st id rest).order = st.order ++ [id] :=
        foldl_relax_order _ _
      rw [horder, List.length_append, List.length_singleton]
      omega

/-! ## The order -/

/-- The state before the first turn: the nodes without edges to them are ready. -/
def start (ids : List α) (edges : List (α × α)) : State α where
  inDegree v := if v ∈ ids then some (edges.countP (·.2 = v)) else none
  queue := sorted (ids.filter fun v => edges.countP (·.2 = v) = 0)
  order := []

/-- The order in which the nodes become ready. -/
def order (ids : List α) (edges : List (α × α)) : List α :=
  (drain (dependents edges) ids.length (start ids edges)).order

theorem pending_nil (edges : List (α × α)) (v : α) :
    pending edges [] v = edges.countP (·.2 = v) := by
  unfold pending
  simp

theorem start_inv {ids : List α} (hnodup : ids.Nodup) (edges : List (α × α)) :
    Inv ids edges [] (start ids edges) := by
  have hqueue : ∀ v, v ∈ ([] : List α) ++ (start ids edges).queue ↔
      v ∈ ids ∧ pending edges [] v = 0 := by
    intro v
    rw [List.nil_append, start, (perm_sorted _).mem_iff, List.mem_filter, pending_nil,
      decide_eq_true_iff]
  refine ⟨?_, fun v hv => ((hqueue v).mp hv).1, fun v hv => ?_, fun v hv => ?_, ?_⟩
  · rw [start, List.nil_append, (perm_sorted _).nodup_iff]
    exact hnodup.filter _
  · rw [start, pending_nil, List.count_nil, Nat.add_zero]
    exact if_pos hv
  · rw [List.count_nil, Nat.add_zero]
    exact (hqueue v).trans (and_iff_right hv)
  · intro i v hi
    cases hi

section

variable {ids : List α} {edges : List (α × α)} (hnodup : ids.Nodup)
  (htarget : ∀ e ∈ edges, e.2 ∈ ids)
include hnodup htarget

/-- What is known once the queue is empty. -/
theorem order_inv : ∃ st, Inv ids edges [] st ∧ st.queue = [] ∧ st.order = order ids edges :=
  ⟨_, ((start_inv hnodup edges).drain htarget (Nat.le_refl _)).1,
    ((start_inv hnodup edges).drain htarget (Nat.le_refl _)).2, rfl⟩

theorem length_order_le : (order ids edges).length ≤ ids.length := by
  obtain ⟨st, hinv, hqueue, horder⟩ := order_inv hnodup htarget
  have hknown := hinv.known
  have hdistinct := hinv.nodup
  rw [hqueue, List.append_nil, horder] at hknown hdistinct
  exact (List.subperm_of_subset hdistinct hknown).length_le

/-- The nodes left out are those with an edge from a node left out. -/
theorem mem_order_iff {v : α} (hv : v ∈ ids) :
    v ∈ order ids edges ↔ ∀ u, (u, v) ∈ edges → u ∈ order ids edges := by
  obtain ⟨st, hinv, hqueue, horder⟩ := order_inv hnodup htarget
  have hready := hinv.ready v hv
  rw [hqueue, List.append_nil, List.count_nil, Nat.add_zero, pending_eq_zero, horder] at hready
  exact hready

end

/-- A node that can be ordered, since those before it can be. -/
inductive Orderable (R : α → α → Prop) (ids : List α) : α → Prop
  | intro (v : α) (hmem : v ∈ ids) (hbefore : ∀ u, R u v → Orderable R ids u) : Orderable R ids v

omit [LinearOrder α] in
omit [LinearOrder α] in
/-- Only the members of the list of nodes matter. -/
theorem orderable_congr {R : α → α → Prop} {ids ids' : List α} (h : ∀ u, u ∈ ids ↔ u ∈ ids')
    {v : α} : Orderable R ids v ↔ Orderable R ids' v := by
  have himp : ∀ {l l' : List α}, (∀ u, u ∈ l → u ∈ l') → Orderable R l v → Orderable R l' v := by
    intro l l' hsub hv
    induction hv with
    | intro v hmem _ ih => exact .intro v (hsub v hmem) ih
  exact ⟨himp fun u => (h u).mp, himp fun u => (h u).mpr⟩

/-- **What is ordered**, once the queue is empty, is what can be. -/
theorem Inv.mem_order_iff_orderable {ids : List α} {edges : List (α × α)} {st : State α}
    (h : Inv ids edges [] st) (hqueue : st.queue = []) (v : α) :
    v ∈ st.order ↔ Orderable (fun u v => (u, v) ∈ edges) ids v := by
  have hknown := h.known
  have hready := h.ready
  rw [hqueue, List.append_nil] at hknown hready
  constructor
  · intro hv
    -- on the position in the order: what is before it has a smaller one
    obtain ⟨i, hi⟩ := List.mem_iff_getElem?.mp hv
    induction i using Nat.strong_induction_on generalizing v with
    | _ i ih =>
      refine .intro v (hknown v hv) fun u hu => ?_
      obtain ⟨j, hj⟩ := List.mem_iff_getElem?.mp (h.behind i v hi u hu)
      have hlt : j < i := by
        have := (List.getElem?_eq_some_iff.mp hj).1
        rw [List.length_take] at this
        omega
      rw [List.getElem?_take_of_lt hlt] at hj
      exact ih j hlt u (List.mem_of_getElem? hj) hj
  · intro hv
    induction hv with
    | intro v hmem _ ih =>
      rw [hready v hmem, List.count_nil, Nat.add_zero, pending_eq_zero]
      exact ih

section

variable {ids : List α} {edges : List (α × α)} (hnodup : ids.Nodup)
  (htarget : ∀ e ∈ edges, e.2 ∈ ids)
include hnodup htarget

/-- **The order is topological** where it has every node. -/
theorem isTopologicalOrder (hall : (order ids edges).length = ids.length) :
    IsTopologicalOrder (fun u v => (u, v) ∈ edges) ids (order ids edges) := by
  obtain ⟨st, hinv, hqueue, horder⟩ := order_inv hnodup htarget
  have hknown := hinv.known
  have hdistinct := hinv.nodup
  rw [hqueue, List.append_nil, horder] at hknown hdistinct
  have hperm : (order ids edges).Perm ids :=
    (List.subperm_of_subset hdistinct hknown).perm_of_length_le hall.ge
  refine ⟨hperm, fun u v huv hv => ?_⟩
  obtain ⟨j, hj⟩ := List.mem_iff_getElem?.mp (hperm.mem_iff.mpr hv)
  have hbefore : u ∈ (order ids edges).take j := by
    rw [← horder] at hj ⊢
    exact hinv.behind j v hj u huv
  obtain ⟨i, hi⟩ := List.mem_iff_getElem?.mp hbefore
  have hlt : i < j := by
    have := (List.getElem?_eq_some_iff.mp hi).1
    rw [List.length_take] at this
    omega
  refine ⟨i, j, hlt, ?_, hj⟩
  rw [← hi, List.getElem?_take_of_lt hlt]

/-- **Every node is ordered** if and only if the edges come from nodes and form no cycle. -/
theorem complete_iff :
    (order ids edges).length = ids.length ↔
      (∀ e ∈ edges, e.1 ∈ ids) ∧ Acyclic fun u v => (u, v) ∈ edges := by
  constructor
  · intro hall
    have htopological := isTopologicalOrder hnodup htarget hall
    refine ⟨fun e he => ?_, htopological.acyclic hnodup fun u v huv => htarget (u, v) huv⟩
    obtain ⟨i, j, -, hi, -⟩ := htopological.precedes e.1 e.2 he (htarget e he)
    exact htopological.perm.mem_iff.mp (List.mem_of_getElem? hi)
  · rintro ⟨hsource, hacyclic⟩
    obtain ⟨st, hinv, hqueue, horder⟩ := order_inv hnodup htarget
    have hdistinct := hinv.nodup
    have hknown := hinv.known
    rw [hqueue, List.append_nil, horder] at hdistinct hknown
    -- nodes left out would each have a predecessor that is left out
    have hall : ∀ v ∈ ids, v ∈ order ids edges := by
      intro v hv
      by_contra hnot
      let stuck := ids.filter (· ∉ order ids edges)
      have hmem : ∀ u, u ∈ stuck ↔ u ∈ ids ∧ u ∉ order ids edges := by
        intro u
        simp [stuck]
      have hne : stuck ≠ [] := List.ne_nil_of_mem ((hmem v).mpr ⟨hv, hnot⟩)
      refine not_acyclic_of_stuck hne (fun u hu => ?_) hacyclic
      have hout := ((hmem u).mp hu).2
      rw [mem_order_iff hnodup htarget ((hmem u).mp hu).1] at hout
      push Not at hout
      obtain ⟨p, hp, hpout⟩ := hout
      exact ⟨p, (hmem p).mpr ⟨hsource (p, u) hp, hpout⟩, hp⟩
    have hle := (List.subperm_of_subset hdistinct hknown).length_le
    have hge := (List.subperm_of_subset hnodup hall).length_le
    omega

end

/-! ## Independence of the listing -/

/-- Only the sorted dependents matter. -/
theorem drain_congr {graph graph' : α → List α} (h : ∀ u, (graph u).Perm (graph' u)) (fuel : Nat)
    (st : State α) : drain graph fuel st = drain graph' fuel st := by
  induction fuel generalizing st with
  | zero => rfl
  | succ fuel ih =>
    unfold drain
    cases st.queue with
    | nil => rfl
    | cons id rest =>
      have hpop : pop graph st id rest = pop graph' st id rest := by
        unfold pop
        rw [sorted_perm (h id)]
      dsimp only
      rw [hpop, ih]

theorem start_perm {ids ids' : List α} {edges edges' : List (α × α)} (hids : ids.Perm ids')
    (hedges : edges.Perm edges') : start ids edges = start ids' edges' := by
  have hcount : ∀ v, edges.countP (·.2 = v) = edges'.countP (·.2 = v) := fun v => hedges.countP_eq _
  unfold start
  congr 1
  · funext v
    rw [hcount v]
    exact if_congr hids.mem_iff rfl rfl
  · simp only [hcount]
    exact sorted_perm (hids.filter _)

/-- **The order does not depend on how nodes and edges are listed.** -/
theorem order_perm {ids ids' : List α} {edges edges' : List (α × α)} (hids : ids.Perm ids')
    (hedges : edges.Perm edges') : order ids edges = order ids' edges' := by
  unfold order
  rw [start_perm hids hedges, hids.length_eq]
  congr 1
  exact drain_congr (fun u => (hedges.filter _).map _) _ _

end Algorithm

end Kahn
