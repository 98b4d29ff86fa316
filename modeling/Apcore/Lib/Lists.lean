import Mathlib.Data.List.Perm.Basic

/-! # `Lib.Lists` — lists in the order of a key, and blocks in lists -/

namespace List

/-! ## Lists in descending order of a key, older entries first

A new entry goes before the first entry of a strictly lower key, so that it comes after the older
entries of its own key. -/

section StableDesc

variable {α : Type} {key stamp : α → Nat} {l : List α} {a : α}

/-- Descending by `key`, and ascending by `stamp` where the keys agree. -/
def StableDesc (key stamp : α → Nat) (l : List α) : Prop :=
  l.Pairwise fun a b => key b < key a ∨ key a = key b ∧ stamp a < stamp b

/-- The place of a new entry. -/
def stablePos (key : α → Nat) (k : Nat) (l : List α) : Nat := l.findIdx fun b => key b < k

theorem stablePos_le (k : Nat) : l.stablePos key k ≤ l.length := findIdx_le_length

/-- Only the keys decide about the place. -/
theorem stablePos_map {β : Type} (f : β → α) (k : Nat) (l : List β) :
    (l.map f).stablePos key k = l.stablePos (key ∘ f) k := by
  simp [stablePos, findIdx_map, Function.comp_def]

/-- An entry that is newer than the others keeps the order at its place. -/
theorem StableDesc.insert (h : l.StableDesc key stamp) (hnew : ∀ b ∈ l, stamp b < stamp a) :
    (l.insertIdx (l.stablePos key (key a)) a).StableDesc key stamp := by
  induction l with
  | nil => simp [StableDesc, stablePos]
  | cons b rest ih =>
    obtain ⟨hb, hrest⟩ := pairwise_cons.mp h
    by_cases hlower : key b < key a
    · -- before all of them
      have hpos : (b :: rest).stablePos key (key a) = 0 := by simp [stablePos, findIdx_cons, hlower]
      rw [hpos, insertIdx_zero]
      refine pairwise_cons.mpr ⟨?_, h⟩
      rintro c hc
      rcases mem_cons.mp hc with rfl | hc
      · exact .inl hlower
      · have := hb c hc
        left
        omega
    · have hpos : (b :: rest).stablePos key (key a) = rest.stablePos key (key a) + 1 := by
        simp [stablePos, findIdx_cons, hlower]
      rw [hpos, insertIdx_succ_cons]
      refine pairwise_cons.mpr ⟨?_, ih hrest fun c hc => hnew c (mem_cons_of_mem _ hc)⟩
      intro c hc
      rcases (mem_insertIdx (stablePos_le _)).mp hc with rfl | hc
      · have := hnew b mem_cons_self
        omega
      · exact hb c hc

/-- Taking an entry out keeps the order. -/
theorem StableDesc.eraseIdx (h : l.StableDesc key stamp) (i : Nat) :
    (l.eraseIdx i).StableDesc key stamp := h.sublist (eraseIdx_sublist l i)

end StableDesc

/-! ## Elements whose occurrences form one block -/

section Contiguous

variable {α : Type} {a b : α} {l : List α}

/-- The occurrences of `a` stand side by side. -/
def Contiguous (a : α) (l : List α) : Prop :=
  ∃ before k after, l = before ++ replicate k a ++ after ∧ a ∉ before ∧ a ∉ after

theorem contiguous_of_notMem (h : a ∉ l) : l.Contiguous a :=
  ⟨l, 0, [], by simp, h, not_mem_nil⟩

/-- Another element at the end does not come between the occurrences. -/
theorem Contiguous.append_ne (h : l.Contiguous a) (hne : b ≠ a) : (l ++ [b]).Contiguous a := by
  obtain ⟨before, k, after, rfl, hbefore, hafter⟩ := h
  refine ⟨before, k, after ++ [b], by simp, hbefore, ?_⟩
  simp [hafter, hne.symm]

/-- An element that ends the list has nothing after its block. -/
theorem Contiguous.of_getLast? (h : l.Contiguous a) (hlast : l.getLast? = some a) :
    ∃ before k, l = before ++ replicate (k + 1) a ∧ a ∉ before := by
  obtain ⟨before, k, after, rfl, hbefore, hafter⟩ := h
  -- the last element of a non-empty `after` would be `a`
  have hnil : after = [] := by
    by_contra hne
    rw [getLast?_append_of_ne_nil _ hne] at hlast
    exact hafter (mem_of_getLast? hlast)
  subst hnil
  cases k with
  | zero =>
    simp only [replicate_zero, append_nil] at hlast
    exact absurd (mem_of_getLast? hlast) hbefore
  | succ k => exact ⟨before, k, by simp, hbefore⟩

/-- One more occurrence at the end keeps the block exactly when the list has no occurrence, or
already ends with its block. -/
theorem contiguous_append_self :
    (l ++ [a]).Contiguous a ↔ a ∉ l ∨ l.Contiguous a ∧ l.getLast? = some a := by
  constructor
  · intro h
    obtain ⟨before, k, heq, hbefore⟩ := h.of_getLast? (by simp)
    have hl : l = before ++ replicate k a := by
      rw [replicate_succ', ← append_assoc] at heq
      exact append_inj_left' heq rfl
    subst hl
    cases k with
    | zero => left; simpa using hbefore
    | succ k =>
      right
      refine ⟨⟨before, k + 1, [], by simp, hbefore, not_mem_nil⟩, ?_⟩
      rw [replicate_succ', ← append_assoc, getLast?_append_of_ne_nil _ (by simp), getLast?_singleton]
  · rintro (hmem | ⟨hl, hlast⟩)
    · exact ⟨l, 1, [], by simp, hmem, not_mem_nil⟩
    · obtain ⟨before, k, rfl, hbefore⟩ := hl.of_getLast? hlast
      refine ⟨before, k + 2, [], ?_, hbefore, not_mem_nil⟩
      rw [append_nil, append_assoc, ← replicate_succ']

end Contiguous

end List

/-! ## The first match in a list sorted by size, largest first

A table is sorted by the size of its entries and searched for the first that matches. Where no two
matches are of one size, the entry found is the largest match, whatever the order of the table. -/

namespace LongestMatch

variable {α β : Type} {size : α → Nat} {f : α → Option β} {l : List α} {y : β}

/-- The first match, largest entry first. -/
def find (size : α → Nat) (f : α → Option β) (l : List α) : Option β :=
  (l.mergeSort fun a b => size b ≤ size a).findSome? f

/-- No two matches of the table are of one size. -/
def Distinct (size : α → Nat) (f : α → Option β) (l : List α) : Prop :=
  ∀ a ∈ l, ∀ b ∈ l, (f a).isSome → (f b).isSome → size a = size b → a = b

theorem pairwise_sorted (size : α → Nat) (l : List α) :
    (l.mergeSort fun a b => size b ≤ size a).Pairwise fun a b => size b ≤ size a := by
  have hsorted := @List.pairwise_mergeSort α (fun a b => decide (size b ≤ size a))
    (fun a b c hab hbc => by
      simp only [decide_eq_true_eq] at hab hbc ⊢
      omega)
    (fun a b => by
      simp only [Bool.or_eq_true, decide_eq_true_eq]
      omega) l
  exact hsorted.imp fun h => of_decide_eq_true h

/-- What is found is a match of the table, and no match is larger. -/
theorem exists_of_find (h : find size f l = some y) :
    ∃ a ∈ l, f a = some y ∧ ∀ b ∈ l, (f b).isSome → size b ≤ size a := by
  obtain ⟨before, a, after, hsplit, ha, hnone⟩ := List.findSome?_eq_some_iff.mp h
  have hsorted := pairwise_sorted size l
  rw [hsplit] at hsorted
  have hmem : ∀ b, b ∈ l ↔ b ∈ before ++ a :: after := fun b => by rw [← hsplit, List.mem_mergeSort]
  refine ⟨a, (hmem a).mpr (List.mem_append_right _ List.mem_cons_self), ha, fun b hb hsome => ?_⟩
  rcases List.mem_append.mp ((hmem b).mp hb) with hb | hb
  · rw [hnone b hb] at hsome
    cases hsome
  · rcases List.mem_cons.mp hb with rfl | hb
    · exact Nat.le_refl _
    · exact (List.pairwise_cons.mp (List.pairwise_append.mp hsorted).2.1).1 b hb

theorem find_isSome (h : ∃ a ∈ l, (f a).isSome = true) : (find size f l).isSome = true := by
  obtain ⟨a, ha, hsome⟩ := h
  rw [find, List.findSome?_isSome_iff]
  exact ⟨a, List.mem_mergeSort.mpr ha, hsome⟩

/-- The match that is found is the largest one. -/
theorem find_eq_some_iff (hdistinct : Distinct size f l) : find size f l = some y ↔
    ∃ a ∈ l, f a = some y ∧ ∀ b ∈ l, (f b).isSome → size b ≤ size a := by
  refine ⟨exists_of_find, ?_⟩
  rintro ⟨a, ha, hay, hlargest⟩
  have hsome : (f a).isSome = true := by
    rw [hay]
    rfl
  have hfound : (find size f l).isSome = true := find_isSome ⟨a, ha, hsome⟩
  obtain ⟨z, hz⟩ := Option.isSome_iff_exists.mp hfound
  obtain ⟨b, hb, hbz, hlargest'⟩ := exists_of_find hz
  have hsome' : (f b).isSome = true := by
    rw [hbz]
    rfl
  have hsize : size a = size b := Nat.le_antisymm (hlargest' a ha hsome) (hlargest b hb hsome')
  obtain rfl := hdistinct a ha b hb hsome hsome' hsize
  rw [hz, ← hbz, hay]

theorem Distinct.of_perm {l' : List α} (h : Distinct size f l) (hperm : l.Perm l') :
    Distinct size f l' :=
  fun a ha b hb => h a (hperm.mem_iff.mpr ha) b (hperm.mem_iff.mpr hb)

/-- The order of the table does not matter. -/
theorem find_perm {l' : List α} (hdistinct : Distinct size f l) (hperm : l.Perm l') :
    find size f l = find size f l' := by
  ext y
  rw [find_eq_some_iff hdistinct, find_eq_some_iff (hdistinct.of_perm hperm)]
  simp only [hperm.mem_iff]

end LongestMatch
