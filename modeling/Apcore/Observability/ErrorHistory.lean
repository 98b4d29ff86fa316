import Mathlib.Data.Finmap
import Mathlib.Data.List.Sort
import Mathlib.Data.Prod.Lex
import Mathlib.Data.String.Basic
import Apcore.Errors

/-! # `Observability.ErrorHistory` — errors by fingerprint, bounded twice

`record` merges an error into the entry of its fingerprint or makes a new one, and then evicts: the
oldest entries of the module by creation, and the oldest of all by their last occurrence. For the
latter a heap holds an item for every occurrence; an item is stale when its entry is gone or has
occurred again since. -/

namespace Apcore

variable {Time : Type}

structure ErrorEntry (Time : Type) where
  moduleId : String
  errorCode : String
  message : String
  aiGuidance : Option String
  timestamp : Time
  count : Nat
  firstOccurred : Time
  lastOccurred : Time
  fingerprint : String

/-- `HeapEntry`: the item that comes first is popped first. -/
structure HeapEntry (Time : Type) where
  time : Time
  seq : Nat
  fingerprint : String

def HeapEntry.key (item : HeapEntry Time) : Time ×ₗ Nat ×ₗ String :=
  toLex (item.time, toLex (item.seq, item.fingerprint))

/-- `ErrorHistoryState`. The heap is the list of its items in the order they are popped. -/
structure ErrorHistoryState (Time : Type) where
  fpIndex : Finmap fun _ : String => ErrorEntry Time
  /-- The fingerprints of a module in the order they were inserted. -/
  moduleIndex : String → Option (List String)
  heap : List (HeapEntry Time)
  seq : Nat

/-- What an `ErrorHistory` is configured with; `computeFingerprint` is the digest of the code, the
module and the normalised message. -/
structure ErrorHistory where
  maxEntriesPerModule : Nat
  maxTotalEntries : Nat
  computeFingerprint : String → String → String → String

namespace ErrorHistoryState

def empty : ErrorHistoryState Time where
  fpIndex := ∅
  moduleIndex := fun _ => none
  heap := []
  seq := 0

/-! ## Removal -/

/-- The loop of `evict_per_module`. -/
def evictFront (maxPerModule : Nat) :
    List String → (Finmap fun _ : String => ErrorEntry Time) →
      List String × Finmap fun _ : String => ErrorEntry Time
  | [], fpIndex => ([], fpIndex)
  | fp :: rest, fpIndex =>
    if maxPerModule < (fp :: rest).length then evictFront maxPerModule rest (fpIndex.erase fp)
    else (fp :: rest, fpIndex)

/-- The fingerprints of a module, which has no entry for none. -/
def setFingerprints (moduleIndex : String → Option (List String)) (moduleId : String)
    (fps : List String) : String → Option (List String) :=
  Function.update moduleIndex moduleId (if fps.isEmpty then none else some fps)

/-- `evict_per_module`. -/
def evictPerModule (state : ErrorHistoryState Time) (moduleId : String) (maxPerModule : Nat) :
    ErrorHistoryState Time :=
  match state.moduleIndex moduleId with
  | none => state
  | some fps =>
    let (fps, fpIndex) := evictFront maxPerModule fps state.fpIndex
    { state with fpIndex, moduleIndex := setFingerprints state.moduleIndex moduleId fps }

/-- The entry is taken out of the index and of the list of its module. -/
def removeEntry (state : ErrorHistoryState Time) (fp : String) (entry : ErrorEntry Time) :
    ErrorHistoryState Time where
  fpIndex := state.fpIndex.erase fp
  moduleIndex :=
    match state.moduleIndex entry.moduleId with
    | some fps => setFingerprints state.moduleIndex entry.moduleId (fps.filter (· ≠ fp))
    | none => state.moduleIndex
  heap := state.heap
  seq := state.seq

/-- `clear`. -/
def clear (state : ErrorHistoryState Time) : Option String → ErrorHistoryState Time
  | some moduleId =>
    match state.moduleIndex moduleId with
    | some fps =>
      { state with
        fpIndex := fps.foldl (fun fpIndex fp => fpIndex.erase fp) state.fpIndex
        moduleIndex := Function.update state.moduleIndex moduleId none }
    | none => state
  | none => empty

/-! ## The heap -/

variable [LinearOrder Time]

/-- `heap.push`. -/
def push (heap : List (HeapEntry Time)) (item : HeapEntry Time) : List (HeapEntry Time) :=
  heap.orderedInsert (fun a b => a.key ≤ b.key) item

/-- `pop_oldest`, with the items left in the heap; whether an entry was removed. -/
def popOldest (state : ErrorHistoryState Time) :
    List (HeapEntry Time) → ErrorHistoryState Time × Bool
  | [] => ({ state with heap := [] }, false)
  | item :: heap =>
    match state.fpIndex.lookup item.fingerprint with
    | some entry =>
      -- the entry has occurred again since
      if entry.lastOccurred ≠ item.time then popOldest state heap
      else ({ state with heap }.removeEntry item.fingerprint entry, true)
    | none => popOldest state heap

theorem heap_popOldest (state : ErrorHistoryState Time) (heap : List (HeapEntry Time)) :
    (popOldest state heap).1.heap.length ≤ heap.length ∧
      ((popOldest state heap).2 = true → (popOldest state heap).1.heap.length < heap.length) := by
  induction heap with
  | nil => simp [popOldest]
  | cons item heap ih =>
    unfold popOldest
    split
    · split
      · exact ⟨ih.1.trans (Nat.le_succ _), fun h => (ih.2 h).trans (Nat.lt_succ_self _)⟩
      · exact ⟨Nat.le_succ _, fun _ => Nat.lt_succ_self _⟩
    · exact ⟨ih.1.trans (Nat.le_succ _), fun h => (ih.2 h).trans (Nat.lt_succ_self _)⟩

/-- `evict_total`. -/
def evictTotal (maxTotal : Nat) (state : ErrorHistoryState Time) : ErrorHistoryState Time :=
  if maxTotal < state.fpIndex.keys.card then
    if (popOldest state state.heap).2 = true then evictTotal maxTotal (popOldest state state.heap).1
    else (popOldest state state.heap).1
  else state
termination_by state.heap.length
decreasing_by exact (heap_popOldest state state.heap).2 ‹_›

/-! ## Recording -/

/-- A known fingerprint: the entry has occurred once more. -/
def merge (state : ErrorHistoryState Time) (fp : String) (existing : ErrorEntry Time) (time : Time) :
    ErrorHistoryState Time where
  fpIndex := state.fpIndex.insert fp
    { existing with count := existing.count + 1, lastOccurred := time, timestamp := time }
  moduleIndex := state.moduleIndex
  heap := push state.heap ⟨time, state.seq + 1, fp⟩
  seq := state.seq + 1

/-- A fingerprint that is new. -/
def insertNew (state : ErrorHistoryState Time) (fp moduleId : String) (error : ModuleError)
    (time : Time) : ErrorHistoryState Time where
  fpIndex := state.fpIndex.insert fp
    { moduleId
      errorCode := error.code.wireStr
      message := error.message
      aiGuidance := error.aiGuidance
      timestamp := time
      count := 1
      firstOccurred := time
      lastOccurred := time
      fingerprint := fp }
  moduleIndex := Function.update state.moduleIndex moduleId
    (some ((state.moduleIndex moduleId).getD [] ++ [fp]))
  heap := push state.heap ⟨time, state.seq + 1, fp⟩
  seq := state.seq + 1

end ErrorHistoryState

namespace ErrorHistory

open ErrorHistoryState

variable [LinearOrder Time] (history : ErrorHistory)

/-- The fingerprint of an error of a module. -/
def fingerprint (moduleId : String) (error : ModuleError) : String :=
  history.computeFingerprint error.code.wireStr moduleId error.message

/-- `record_at`, on the state. -/
def record (state : ErrorHistoryState Time) (moduleId : String) (error : ModuleError) (time : Time) :
    ErrorHistoryState Time :=
  let fp := history.fingerprint moduleId error
  match state.fpIndex.lookup fp with
  | some existing => state.merge fp existing time
  | none =>
    ((state.insertNew fp moduleId error time).evictPerModule moduleId
      history.maxEntriesPerModule).evictTotal history.maxTotalEntries

inductive Operation (Time : Type) where
  | record (moduleId : String) (error : ModuleError) (time : Time)
  | clear (moduleId : Option String)

def step (state : ErrorHistoryState Time) : Operation Time → ErrorHistoryState Time
  | .record moduleId error time => history.record state moduleId error time
  | .clear moduleId => state.clear moduleId

/-- The state after a sequence of operations. -/
def run (ops : List (Operation Time)) : ErrorHistoryState Time := ops.foldl history.step empty

end ErrorHistory

end Apcore

/-! ## The three structures stay in step

An entry is removed by taking it out of the index and out of the list of its module; the heap is left
alone. So the heap may hold items of entries that are gone or have occurred again, but for every live
entry it holds the item of its last occurrence, and the first item that is not stale is that of an
entry with a least last occurrence. -/

namespace Apcore

variable {Time : Type}

namespace ErrorHistoryState

variable {state state' : ErrorHistoryState Time}

/-! ## Removal -/

theorem setFingerprints_self (moduleIndex : String → Option (List String)) (moduleId : String)
    {fps kept : List String} (h : setFingerprints moduleIndex moduleId kept moduleId = some fps) :
    fps = kept := by
  unfold setFingerprints at h
  rw [Function.update_self] at h
  split_ifs at h
  exact (Option.some.inj h).symm

theorem setFingerprints_self_of_mem (moduleIndex : String → Option (List String)) (moduleId : String)
    {kept : List String} {fp : String} (h : fp ∈ kept) :
    setFingerprints moduleIndex moduleId kept moduleId = some kept := by
  have hne : kept.isEmpty = false := by
    cases kept with
    | nil => cases h
    | cons _ _ => rfl
  unfold setFingerprints
  rw [Function.update_self, hne]
  rfl

theorem setFingerprints_of_ne (moduleIndex : String → Option (List String)) {moduleId other : String}
    (kept : List String) (h : other ≠ moduleId) :
    setFingerprints moduleIndex moduleId kept other = moduleIndex other :=
  Function.update_of_ne h _ _

/-- Some entries of one module are removed from the index and from its list. -/
structure Removes (state state' : ErrorHistoryState Time) (moduleId : String)
    (fps gone : List String) : Prop where
  was : state.moduleIndex moduleId = some fps
  inside : ∀ fp ∈ gone, fp ∈ fps
  lookup : ∀ fp, state'.fpIndex.lookup fp = if fp ∈ gone then none else state.fpIndex.lookup fp
  lists : ∃ kept, kept.Sublist fps ∧ (∀ fp ∈ fps, fp ∈ kept ↔ fp ∉ gone) ∧
    state'.moduleIndex = setFingerprints state.moduleIndex moduleId kept

section Removes

variable {moduleId : String} {fps gone : List String}

/-- What is left was there. -/
theorem Removes.lookup_of_some (h : Removes state state' moduleId fps gone) {fp : String}
    {entry : ErrorEntry Time} (hentry : state'.fpIndex.lookup fp = some entry) :
    fp ∉ gone ∧ state.fpIndex.lookup fp = some entry := by
  rw [h.lookup] at hentry
  split_ifs at hentry with hgone
  exact ⟨hgone, hentry⟩

/-- No list of the state grows. -/
theorem Removes.length_le (h : Removes state state' moduleId fps gone) {bound : Nat}
    (hbound : ∀ other list, state.moduleIndex other = some list → list.length ≤ bound) {other : String}
    {list : List String} (hlist : state'.moduleIndex other = some list) : list.length ≤ bound := by
  obtain ⟨kept, hkept, -, hmodules⟩ := h.lists
  rw [hmodules] at hlist
  by_cases hother : other = moduleId
  · subst hother
    obtain rfl := setFingerprints_self _ _ hlist
    exact hkept.length_le.trans (hbound other fps h.was)
  · rw [setFingerprints_of_ne _ _ hother] at hlist
    exact hbound other list hlist

end Removes

/-- Taking the fingerprints of a list out of the index. -/
theorem lookup_foldl_erase (fps : List String) (fpIndex : Finmap fun _ : String => ErrorEntry Time)
    (fp : String) :
    (fps.foldl (fun fpIndex fp => fpIndex.erase fp) fpIndex).lookup fp =
      if fp ∈ fps then none else fpIndex.lookup fp := by
  induction fps generalizing fpIndex with
  | nil => simp
  | cons head rest ih =>
    rw [List.foldl_cons, ih]
    by_cases hrest : fp ∈ rest
    · simp [hrest]
    · by_cases hhead : fp = head
      · subst hhead
        simp [hrest]
      · simp [hrest, hhead, Finmap.lookup_erase_ne hhead]

theorem evictFront_eq (maxPerModule : Nat) (fps : List String)
    (fpIndex : Finmap fun _ : String => ErrorEntry Time) :
    evictFront maxPerModule fps fpIndex =
      (fps.drop (fps.length - maxPerModule),
        (fps.take (fps.length - maxPerModule)).foldl (fun fpIndex fp => fpIndex.erase fp) fpIndex) := by
  induction fps generalizing fpIndex with
  | nil => simp [evictFront]
  | cons fp rest ih =>
    unfold evictFront
    by_cases hlong : maxPerModule < (fp :: rest).length
    · rw [if_pos hlong, ih]
      have hlength : (fp :: rest).length - maxPerModule = (rest.length - maxPerModule) + 1 := by
        rw [List.length_cons] at hlong ⊢
        omega
      rw [hlength]
      rfl
    · rw [if_neg hlong, Nat.sub_eq_zero_of_le (Nat.le_of_not_lt hlong)]
      rfl

/-- In a list without duplicates, what is not dropped is kept. -/
theorem mem_drop_iff {fps : List String} (hnodup : fps.Nodup) (n : Nat) {fp : String} (h : fp ∈ fps) :
    fp ∈ fps.drop n ↔ fp ∉ fps.take n := by
  rw [← List.take_append_drop n fps] at hnodup h
  constructor
  · intro hdrop htake
    exact (List.nodup_append.mp hnodup).2.2 fp htake fp hdrop rfl
  · intro htake
    exact (List.mem_append.mp h).resolve_left htake

/-- `clear` removes all the entries of a module. -/
theorem removes_clear {moduleId : String} {fps : List String}
    (hfps : state.moduleIndex moduleId = some fps) :
    Removes state (state.clear (some moduleId)) moduleId fps fps := by
  have heq : state.clear (some moduleId) =
      { state with
        fpIndex := fps.foldl (fun fpIndex fp => fpIndex.erase fp) state.fpIndex
        moduleIndex := setFingerprints state.moduleIndex moduleId [] } := by
    unfold clear
    dsimp only
    rw [hfps]
    rfl
  rw [heq]
  exact {
    was := hfps
    inside := fun _ hfp => hfp
    lookup := lookup_foldl_erase _ _
    lists := ⟨[], List.nil_sublist _, fun fp hfp => by simp [hfp], rfl⟩ }

/-- What an eviction leaves: entries and lists that were there. -/
structure Shrinks (state state' : ErrorHistoryState Time) : Prop where
  lookup : ∀ fp entry, state'.fpIndex.lookup fp = some entry →
    state.fpIndex.lookup fp = some entry
  length_le : ∀ bound, (∀ moduleId fps, state.moduleIndex moduleId = some fps → fps.length ≤ bound) →
    ∀ moduleId fps, state'.moduleIndex moduleId = some fps → fps.length ≤ bound

theorem Shrinks.refl (state : ErrorHistoryState Time) : Shrinks state state :=
  ⟨fun _ _ h => h, fun _ h => h⟩

theorem Shrinks.trans {state'' : ErrorHistoryState Time} (h : Shrinks state state')
    (h' : Shrinks state' state'') : Shrinks state state'' :=
  ⟨fun fp entry hentry => h.lookup fp entry (h'.lookup fp entry hentry),
    fun bound hbound => h'.length_le bound (h.length_le bound hbound)⟩

theorem Removes.shrinks {moduleId : String} {fps gone : List String}
    (h : Removes state state' moduleId fps gone) : Shrinks state state' :=
  ⟨fun _ _ hentry => (h.lookup_of_some hentry).2, fun _ hbound _ _ => h.length_le hbound⟩

/-! ## The invariant -/

variable [LinearOrder Time]

/-- The index, the lists and the heap are in step. -/
structure Inv (state : ErrorHistoryState Time) : Prop where
  listed : ∀ fp entry, state.fpIndex.lookup fp = some entry →
    ∃ fps, state.moduleIndex entry.moduleId = some fps ∧ fp ∈ fps
  indexed : ∀ moduleId fps, state.moduleIndex moduleId = some fps → ∀ fp ∈ fps,
    ∃ entry, state.fpIndex.lookup fp = some entry ∧ entry.moduleId = moduleId
  nodup : ∀ moduleId fps, state.moduleIndex moduleId = some fps → fps.Nodup
  sorted : state.heap.Pairwise (·.key ≤ ·.key)
  current : ∀ fp entry, state.fpIndex.lookup fp = some entry →
    ∃ item ∈ state.heap, item.fingerprint = fp ∧ item.time = entry.lastOccurred

theorem Inv.empty : (empty : ErrorHistoryState Time).Inv where
  listed := by
    intro fp entry h
    rw [ErrorHistoryState.empty, Finmap.lookup_empty] at h
    cases h
  indexed := by
    intro moduleId fps h
    cases h
  nodup := by
    intro moduleId fps h
    cases h
  sorted := List.Pairwise.nil
  current := by
    intro fp entry h
    rw [ErrorHistoryState.empty, Finmap.lookup_empty] at h
    cases h

/-- Items that come first in the heap do not come later in time. -/
theorem time_le_of_key_le {a b : HeapEntry Time} (h : a.key ≤ b.key) : a.time ≤ b.time := by
  unfold HeapEntry.key at h
  rcases Prod.Lex.le_iff.mp h with hlt | ⟨heq, -⟩
  · exact le_of_lt hlt
  · exact le_of_eq heq

theorem pairwise_push {heap : List (HeapEntry Time)} (h : heap.Pairwise (·.key ≤ ·.key))
    (item : HeapEntry Time) : (push heap item).Pairwise (·.key ≤ ·.key) := by
  have htotal : Std.Total fun a b : HeapEntry Time => a.key ≤ b.key := ⟨fun a b => le_total a.key b.key⟩
  have htrans : IsTrans (HeapEntry Time) fun a b => a.key ≤ b.key := ⟨fun _ _ _ => le_trans⟩
  exact List.Pairwise.orderedInsert item heap h

theorem mem_push {heap : List (HeapEntry Time)} {item other : HeapEntry Time} :
    other ∈ push heap item ↔ other = item ∨ other ∈ heap := List.mem_orderedInsert _

theorem Removes.inv {moduleId : String} {fps gone : List String}
    (h : Removes state state' moduleId fps gone) (hheap : state'.heap = state.heap)
    (hinv : state.Inv) : state'.Inv := by
  obtain ⟨kept, hkept, hmem, hmodules⟩ := h.lists
  refine ⟨?_, ?_, ?_, ?_, ?_⟩
  · -- an entry that is left is still listed
    intro fp entry hentry
    obtain ⟨hgone, hentry⟩ := h.lookup_of_some hentry
    obtain ⟨list, hlist, hfp⟩ := hinv.listed fp entry hentry
    by_cases hmodule : entry.moduleId = moduleId
    · rw [hmodule, h.was] at hlist
      obtain rfl := Option.some.inj hlist
      have hleft : fp ∈ kept := (hmem fp hfp).mpr hgone
      exact ⟨kept, by rw [hmodules, hmodule, setFingerprints_self_of_mem _ _ hleft], hleft⟩
    · exact ⟨list, by rw [hmodules, setFingerprints_of_ne _ _ hmodule, hlist], hfp⟩
  · -- a fingerprint that is left still has its entry
    intro other list hlist fp hfp
    rw [hmodules] at hlist
    by_cases hother : other = moduleId
    · subst hother
      obtain rfl := setFingerprints_self _ _ hlist
      have hin := hkept.subset hfp
      have hgone := (hmem fp hin).mp hfp
      obtain ⟨entry, hentry, hmodule⟩ := hinv.indexed other fps h.was fp hin
      exact ⟨entry, by rw [h.lookup, if_neg hgone, hentry], hmodule⟩
    · rw [setFingerprints_of_ne _ _ hother] at hlist
      obtain ⟨entry, hentry, hmodule⟩ := hinv.indexed other list hlist fp hfp
      -- a fingerprint that is gone belongs to the one module
      have hgone : fp ∉ gone := by
        intro hgone
        obtain ⟨entry', hentry', hmodule'⟩ := hinv.indexed moduleId fps h.was fp (h.inside fp hgone)
        rw [hentry] at hentry'
        obtain rfl := Option.some.inj hentry'
        exact hother (hmodule.symm.trans hmodule')
      exact ⟨entry, by rw [h.lookup, if_neg hgone, hentry], hmodule⟩
  · intro other list hlist
    rw [hmodules] at hlist
    by_cases hother : other = moduleId
    · subst hother
      obtain rfl := setFingerprints_self _ _ hlist
      exact (hinv.nodup other fps h.was).sublist hkept
    · rw [setFingerprints_of_ne _ _ hother] at hlist
      exact hinv.nodup other list hlist
  · rw [hheap]
    exact hinv.sorted
  · intro fp entry hentry
    rw [hheap]
    exact hinv.current fp entry (h.lookup_of_some hentry).2

/-- `evict_per_module` removes the first entries of the module. -/
theorem removes_evictPerModule (hinv : state.Inv) {moduleId : String} {fps : List String}
    (hfps : state.moduleIndex moduleId = some fps) (maxPerModule : Nat) :
    Removes state (state.evictPerModule moduleId maxPerModule) moduleId fps
      (fps.take (fps.length - maxPerModule)) := by
  have heq : state.evictPerModule moduleId maxPerModule =
      { state with
        fpIndex := (fps.take (fps.length - maxPerModule)).foldl (fun fpIndex fp => fpIndex.erase fp)
          state.fpIndex
        moduleIndex := setFingerprints state.moduleIndex moduleId
          (fps.drop (fps.length - maxPerModule)) } := by
    unfold evictPerModule
    rw [hfps]
    dsimp only
    rw [evictFront_eq]
  rw [heq]
  exact {
    was := hfps
    inside := fun fp hfp => List.mem_of_mem_take hfp
    lookup := lookup_foldl_erase _ _
    lists := ⟨_, List.drop_sublist _ _, fun fp hfp => mem_drop_iff (hinv.nodup moduleId fps hfps) _ hfp,
      rfl⟩ }

/-- The entry that is popped is removed on its own. -/
theorem removes_removeEntry (hinv : state.Inv) {fp : String} {entry : ErrorEntry Time}
    (hentry : state.fpIndex.lookup fp = some entry) :
    ∃ fps, Removes state (state.removeEntry fp entry) entry.moduleId fps [fp] := by
  obtain ⟨fps, hfps, hfp⟩ := hinv.listed fp entry hentry
  have hmodules : (state.removeEntry fp entry).moduleIndex =
      setFingerprints state.moduleIndex entry.moduleId (fps.filter (· ≠ fp)) := by
    unfold removeEntry
    rw [hfps]
  refine ⟨fps, hfps, ?_, ?_, ⟨_, List.filter_sublist, ?_, hmodules⟩⟩
  · intro other hother
    rw [List.mem_singleton.mp hother]
    exact hfp
  · intro other
    show (state.fpIndex.erase fp).lookup other = _
    by_cases hother : other = fp
    · subst hother
      simp
    · rw [Finmap.lookup_erase_ne hother, if_neg (by simpa using hother)]
  · intro other hother
    simp [hother]

end ErrorHistoryState

end Apcore
