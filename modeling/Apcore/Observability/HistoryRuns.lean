import Mathlib.Logic.Relation
import Apcore.Observability.ErrorHistory

/-! # `Observability.HistoryRuns` — the error history after any operations

Every operation keeps the index, the lists and the heap in step and stays within both limits; the
count of an entry is the number of records since it was absent last; and what is evicted for the
total limit has a least last occurrence among the entries that are live at that moment. -/

namespace Apcore

variable {Time : Type} [LinearOrder Time]

namespace ErrorHistoryState

variable {state state' : ErrorHistoryState Time}

/-! ## The oldest entry -/

/-- One entry is removed, and no live entry has a last occurrence before its own. -/
def EvictsOldest (state state' : ErrorHistoryState Time) : Prop :=
  ∃ fp entry, state.fpIndex.lookup fp = some entry ∧
    (∀ other live, state.fpIndex.lookup other = some live → entry.lastOccurred ≤ live.lastOccurred) ∧
    state'.fpIndex = state.fpIndex.erase fp

/-- The invariant with a heap in place of that of the state. -/
theorem Inv.tail {item : HeapEntry Time} {heap : List (HeapEntry Time)}
    (h : { state with heap := item :: heap }.Inv)
    (hstale : ∀ entry, state.fpIndex.lookup item.fingerprint = some entry →
      entry.lastOccurred ≠ item.time) :
    { state with heap }.Inv where
  listed := h.listed
  indexed := h.indexed
  nodup := h.nodup
  sorted := h.sorted.of_cons
  current := by
    intro fp entry hentry
    obtain ⟨other, hmem, hfp, htime⟩ := h.current fp entry hentry
    rcases List.mem_cons.mp hmem with rfl | hmem
    · exact absurd htime.symm (hstale entry (hfp ▸ hentry))
    · exact ⟨other, hmem, hfp, htime⟩

/-- The first item of the heap that is not stale is that of an oldest entry. -/
theorem le_of_head {item : HeapEntry Time} {heap : List (HeapEntry Time)} {entry : ErrorEntry Time}
    (h : { state with heap := item :: heap }.Inv) (htime : entry.lastOccurred = item.time)
    {other : String} {live : ErrorEntry Time} (hlive : state.fpIndex.lookup other = some live) :
    entry.lastOccurred ≤ live.lastOccurred := by
  obtain ⟨found, hmem, -, hfound⟩ := h.current other live hlive
  rw [htime, ← hfound]
  rcases List.mem_cons.mp hmem with rfl | hmem
  · exact le_refl _
  · exact time_le_of_key_le (List.rel_of_pairwise_cons h.sorted hmem)

/-- What `pop_oldest` comes to: an oldest entry is removed, or there is none. -/
inductive Popped (state : ErrorHistoryState Time) : ErrorHistoryState Time × Bool → Prop
  | oldest {state' : ErrorHistoryState Time} {moduleId : String} {fps gone : List String}
    (evicts : EvictsOldest state state') (removes : Removes state state' moduleId fps gone)
    (inv : state'.Inv) : Popped state (state', true)
  | nothing (hnone : ∀ fp, state.fpIndex.lookup fp = none) :
    Popped state ({ state with heap := [] }, false)

theorem popped_popOldest {heap : List (HeapEntry Time)} (h : { state with heap }.Inv) :
    Popped state (popOldest state heap) := by
  induction heap with
  | nil =>
    refine .nothing fun fp => ?_
    cases hentry : state.fpIndex.lookup fp with
    | none => rfl
    | some entry =>
      obtain ⟨item, hmem, -⟩ := h.current fp entry hentry
      cases hmem
  | cons item heap ih =>
    unfold popOldest
    cases hentry : state.fpIndex.lookup item.fingerprint with
    | none =>
      dsimp only
      refine ih (h.tail fun entry hentry' => ?_)
      rw [hentry] at hentry'
      cases hentry'
    | some entry =>
      dsimp only
      by_cases hstale : entry.lastOccurred ≠ item.time
      · rw [if_pos hstale]
        refine ih (h.tail fun other hother => ?_)
        rw [hentry] at hother
        obtain rfl := Option.some.inj hother
        exact hstale
      · rw [if_neg hstale]
        have htime : entry.lastOccurred = item.time := not_not.mp hstale
        obtain ⟨fps, hremoves⟩ := removes_removeEntry h hentry
        have hremoved := hremoves.inv rfl h
        have hinv : { ({ state with heap := item :: heap }.removeEntry item.fingerprint entry) with
            heap }.Inv := by
          refine hremoved.tail fun other hother => ?_
          -- the item popped is one of an entry that is gone
          exact absurd (List.mem_singleton_self _) (hremoves.lookup_of_some hother).1
        exact .oldest ⟨item.fingerprint, entry, hentry, fun _ _ => le_of_head h htime, rfl⟩
          ⟨hremoves.was, hremoves.inside, hremoves.lookup, hremoves.lists⟩ hinv

/-! ## Eviction -/

/-- `evict_total` evicts oldest entries until the index is within the limit. -/
theorem evictTotal_spec (maxTotal : Nat) (h : state.Inv) :
    (evictTotal maxTotal state).Inv ∧ Shrinks state (evictTotal maxTotal state) ∧
      (evictTotal maxTotal state).fpIndex.keys.card ≤ maxTotal ∧
      Relation.ReflTransGen EvictsOldest state (evictTotal maxTotal state) := by
  induction hlength : state.heap.length using Nat.strong_induction_on generalizing state with
  | _ n ih =>
    subst hlength
    unfold evictTotal
    by_cases hfull : maxTotal < state.fpIndex.keys.card
    · rw [if_pos hfull]
      have hpopped : Popped state (popOldest state state.heap) := popped_popOldest h
      have hshorter := (heap_popOldest state state.heap).2
      cases hresult : popOldest state state.heap with
      | mk state' popped =>
        rw [hresult] at hpopped hshorter
        cases hpopped with
        | oldest hevicts hremoves hinv =>
          rw [if_pos rfl]
          obtain ⟨hinv', hshrinks, hcard, hchain⟩ := ih _ (hshorter rfl) hinv rfl
          exact ⟨hinv', hremoves.shrinks.trans hshrinks, hcard, hchain.head hevicts⟩
        | nothing hnone =>
          -- an index without entries is not over the limit
          have hkeys : state.fpIndex.keys = ∅ := by
            refine Finset.eq_empty_of_forall_notMem fun fp hfp => ?_
            exact Finmap.lookup_eq_none.mp (hnone fp) (Finmap.mem_keys.mp hfp)
          rw [hkeys] at hfull
          exact absurd hfull (Nat.not_lt_zero _)
    · rw [if_neg hfull]
      exact ⟨h, .refl state, Nat.le_of_not_lt hfull, .refl⟩

/-! ## Recording -/

/-- A merge moves the time of an entry, and the heap gets the item for it. -/
theorem Inv.merge (h : state.Inv) {fp : String} {existing : ErrorEntry Time}
    (hentry : state.fpIndex.lookup fp = some existing) (time : Time) :
    (state.merge fp existing time).Inv where
  listed := by
    intro other entry hother
    by_cases hfp : other = fp
    · subst hfp
      rw [ErrorHistoryState.merge, Finmap.lookup_insert] at hother
      obtain rfl := Option.some.inj hother
      exact h.listed other existing hentry
    · rw [ErrorHistoryState.merge, Finmap.lookup_insert_of_ne _ hfp] at hother
      exact h.listed other entry hother
  indexed := by
    intro moduleId fps hfps other hother
    obtain ⟨entry, hlookup, hmodule⟩ := h.indexed moduleId fps hfps other hother
    by_cases hfp : other = fp
    · subst hfp
      rw [hentry] at hlookup
      obtain rfl := Option.some.inj hlookup
      exact ⟨_, Finmap.lookup_insert _, hmodule⟩
    · exact ⟨entry, (Finmap.lookup_insert_of_ne _ hfp).trans hlookup, hmodule⟩
  nodup := h.nodup
  sorted := pairwise_push h.sorted _
  current := by
    intro other entry hother
    by_cases hfp : other = fp
    · subst hfp
      rw [ErrorHistoryState.merge, Finmap.lookup_insert] at hother
      obtain rfl := Option.some.inj hother
      exact ⟨_, mem_push.mpr (.inl rfl), rfl, rfl⟩
    · rw [ErrorHistoryState.merge, Finmap.lookup_insert_of_ne _ hfp] at hother
      obtain ⟨item, hmem, hitem⟩ := h.current other entry hother
      exact ⟨item, mem_push.mpr (.inr hmem), hitem⟩

/-- A new entry goes at the end of the list of its module. -/
theorem Inv.insertNew (h : state.Inv) {fp : String} (hnone : state.fpIndex.lookup fp = none)
    (moduleId : String) (error : ModuleError) (time : Time) :
    (state.insertNew fp moduleId error time).Inv where
  listed := by
    intro other entry hother
    by_cases hfp : other = fp
    · subst hfp
      rw [ErrorHistoryState.insertNew, Finmap.lookup_insert] at hother
      obtain rfl := Option.some.inj hother
      exact ⟨_, Function.update_self _ _ _, List.mem_append_right _ List.mem_cons_self⟩
    · rw [ErrorHistoryState.insertNew, Finmap.lookup_insert_of_ne _ hfp] at hother
      obtain ⟨fps, hfps, hmem⟩ := h.listed other entry hother
      by_cases hmodule : entry.moduleId = moduleId
      · rw [hmodule] at hfps
        refine ⟨fps ++ [fp], ?_, List.mem_append_left _ hmem⟩
        rw [hmodule, ErrorHistoryState.insertNew]
        simp [hfps]
      · exact ⟨fps, (Function.update_of_ne hmodule _ _).trans hfps, hmem⟩
  indexed := by
    intro other fps hfps fp' hfp'
    have hold : ∀ list, state.moduleIndex other = some list → fp' ∈ list →
        ∃ entry, (state.insertNew fp moduleId error time).fpIndex.lookup fp' = some entry ∧
          entry.moduleId = other := by
      intro list hlist hmem
      obtain ⟨entry, hentry, hmodule⟩ := h.indexed other list hlist fp' hmem
      have hne : fp' ≠ fp := by
        rintro rfl
        rw [hnone] at hentry
        cases hentry
      exact ⟨entry, (Finmap.lookup_insert_of_ne _ hne).trans hentry, hmodule⟩
    by_cases hmodule : other = moduleId
    · subst hmodule
      change Function.update state.moduleIndex other _ other = some fps at hfps
      rw [Function.update_self] at hfps
      obtain rfl := Option.some.inj hfps
      rcases List.mem_append.mp hfp' with hmem | hmem
      · cases hlist : state.moduleIndex other with
        | none =>
          rw [hlist] at hmem
          cases hmem
        | some list =>
          rw [hlist] at hmem
          exact hold list hlist hmem
      · obtain rfl := List.mem_singleton.mp hmem
        exact ⟨_, Finmap.lookup_insert _, rfl⟩
    · change Function.update state.moduleIndex moduleId _ other = some fps at hfps
      rw [Function.update_of_ne hmodule] at hfps
      exact hold fps hfps hfp'
  nodup := by
    intro other fps hfps
    by_cases hmodule : other = moduleId
    · subst hmodule
      change Function.update state.moduleIndex other _ other = some fps at hfps
      rw [Function.update_self] at hfps
      obtain rfl := Option.some.inj hfps
      cases hlist : state.moduleIndex other with
      | none => exact List.nodup_singleton fp
      | some list =>
        refine List.nodup_append.mpr ⟨h.nodup other list hlist, List.nodup_singleton fp, ?_⟩
        rintro a ha b hb rfl
        obtain rfl := List.mem_singleton.mp hb
        obtain ⟨entry, hentry, -⟩ := h.indexed other list hlist _ ha
        rw [hnone] at hentry
        cases hentry
    · change Function.update state.moduleIndex moduleId _ other = some fps at hfps
      rw [Function.update_of_ne hmodule] at hfps
      exact h.nodup other fps hfps
  sorted := pairwise_push h.sorted _
  current := by
    intro other entry hother
    by_cases hfp : other = fp
    · subst hfp
      rw [ErrorHistoryState.insertNew, Finmap.lookup_insert] at hother
      obtain rfl := Option.some.inj hother
      exact ⟨_, mem_push.mpr (.inl rfl), rfl, rfl⟩
    · rw [ErrorHistoryState.insertNew, Finmap.lookup_insert_of_ne _ hfp] at hother
      obtain ⟨item, hmem, hitem⟩ := h.current other entry hother
      exact ⟨item, mem_push.mpr (.inr hmem), hitem⟩

omit [LinearOrder Time] in
/-- After `evict_per_module` the module is within its limit, and the others are as they were. -/
theorem length_evictPerModule {moduleId other : String} {maxPerModule : Nat} {fps : List String}
    (hfps : (state.evictPerModule moduleId maxPerModule).moduleIndex other = some fps) :
    (other = moduleId ∧ fps.length ≤ maxPerModule) ∨
      (other ≠ moduleId ∧ state.moduleIndex other = some fps) := by
  unfold evictPerModule at hfps
  cases hlist : state.moduleIndex moduleId with
  | none =>
    rw [hlist] at hfps
    refine .inr ⟨?_, hfps⟩
    rintro rfl
    rw [hlist] at hfps
    cases hfps
  | some list =>
    rw [hlist] at hfps
    dsimp only at hfps
    rw [evictFront_eq] at hfps
    by_cases hmodule : other = moduleId
    · subst hmodule
      obtain rfl := setFingerprints_self _ _ hfps
      refine .inl ⟨rfl, ?_⟩
      rw [List.length_drop]
      omega
    · rw [setFingerprints_of_ne _ _ hmodule] at hfps
      exact .inr ⟨hmodule, hfps⟩

end ErrorHistoryState

namespace ErrorHistory

open ErrorHistoryState

variable (history : ErrorHistory) {state : ErrorHistoryState Time}

/-- Both limits. -/
structure Within (state : ErrorHistoryState Time) : Prop where
  perModule : ∀ moduleId fps, state.moduleIndex moduleId = some fps →
    fps.length ≤ history.maxEntriesPerModule
  total : state.fpIndex.keys.card ≤ history.maxTotalEntries

/-- An error of this fingerprint is recorded. -/
def Operation.records (fp : String) : Operation Time → Bool
  | .record moduleId error _ => history.fingerprint moduleId error = fp
  | .clear _ => false

/-- The count of an entry that is live after an operation. -/
def Counted (state : ErrorHistoryState Time) (op : Operation Time) (fp : String)
    (entry : ErrorEntry Time) : Prop :=
  (∃ before, state.fpIndex.lookup fp = some before ∧
    entry.count = before.count + if op.records history fp then 1 else 0) ∨
  (state.fpIndex.lookup fp = none ∧ op.records history fp = true ∧ entry.count = 1)

variable {history}

omit [LinearOrder Time] in
/-- An entry that an operation has nothing to do with. -/
theorem counted_of_lookup {op : Operation Time} {fp : String} {entry : ErrorEntry Time}
    (h : state.fpIndex.lookup fp = some entry) (hop : op.records history fp = false) :
    Counted history state op fp entry :=
  .inl ⟨entry, h, by simp [hop]⟩

section Record

variable {moduleId : String} {error : ModuleError} {time : Time}

/-- A record that makes a new entry, before the eviction for the total limit. -/
theorem evictPerModule_spec (hinv : state.Inv) (hwithin : history.Within state) {fp : String}
    (hnone : state.fpIndex.lookup fp = none) :
    ((state.insertNew fp moduleId error time).evictPerModule moduleId
        history.maxEntriesPerModule).Inv ∧
      Shrinks (state.insertNew fp moduleId error time)
        ((state.insertNew fp moduleId error time).evictPerModule moduleId
          history.maxEntriesPerModule) ∧
      ∀ other fps, ((state.insertNew fp moduleId error time).evictPerModule moduleId
        history.maxEntriesPerModule).moduleIndex other = some fps →
        fps.length ≤ history.maxEntriesPerModule := by
  have hnew := hinv.insertNew hnone moduleId error time
  have hlist : (state.insertNew fp moduleId error time).moduleIndex moduleId =
      some ((state.moduleIndex moduleId).getD [] ++ [fp]) := Function.update_self _ _ _
  have hremoves := removes_evictPerModule hnew hlist history.maxEntriesPerModule
  refine ⟨hremoves.inv ?_ hnew, hremoves.shrinks, fun other fps hfps => ?_⟩
  · unfold ErrorHistoryState.evictPerModule
    rw [hlist]
  · rcases length_evictPerModule hfps with ⟨-, hlength⟩ | ⟨hother, hfps⟩
    · exact hlength
    · exact hwithin.perModule other fps ((Function.update_of_ne hother _ _).symm.trans hfps)

/-- What a `record` of a new error does. -/
theorem record_of_none (hnone : state.fpIndex.lookup (history.fingerprint moduleId error) = none) :
    history.record state moduleId error time =
      ((state.insertNew (history.fingerprint moduleId error) moduleId error time).evictPerModule
        moduleId history.maxEntriesPerModule).evictTotal history.maxTotalEntries := by
  unfold record
  dsimp only
  rw [hnone]

theorem record_of_some {existing : ErrorEntry Time}
    (hentry : state.fpIndex.lookup (history.fingerprint moduleId error) = some existing) :
    history.record state moduleId error time =
      state.merge (history.fingerprint moduleId error) existing time := by
  unfold record
  dsimp only
  rw [hentry]

theorem keys_merge {fp : String} {existing : ErrorEntry Time}
    (hentry : state.fpIndex.lookup fp = some existing) :
    (state.merge fp existing time).fpIndex.keys = state.fpIndex.keys := by
  ext other
  rw [Finmap.mem_keys, Finmap.mem_keys]
  show other ∈ state.fpIndex.insert fp _ ↔ _
  rw [Finmap.mem_insert]
  refine or_iff_right_of_imp ?_
  rintro rfl
  exact Finmap.mem_iff.mpr ⟨existing, hentry⟩

theorem record_spec (hinv : state.Inv) (hwithin : history.Within state) :
    (history.record state moduleId error time).Inv ∧
      history.Within (history.record state moduleId error time) ∧
      ∀ fp entry, (history.record state moduleId error time).fpIndex.lookup fp = some entry →
        Counted history state (.record moduleId error time) fp entry := by
  cases hlookup : state.fpIndex.lookup (history.fingerprint moduleId error) with
  | some existing =>
    rw [record_of_some hlookup]
    refine ⟨hinv.merge hlookup time, ⟨hwithin.perModule, ?_⟩, fun fp entry hentry => ?_⟩
    · rw [keys_merge hlookup]
      exact hwithin.total
    · by_cases hfp : fp = history.fingerprint moduleId error
      · subst hfp
        rw [ErrorHistoryState.merge, Finmap.lookup_insert] at hentry
        obtain rfl := Option.some.inj hentry
        exact .inl ⟨existing, hlookup, by simp [Operation.records]⟩
      · rw [ErrorHistoryState.merge, Finmap.lookup_insert_of_ne _ hfp] at hentry
        exact counted_of_lookup hentry (by simp [Operation.records, Ne.symm hfp])
  | none =>
    rw [record_of_none hlookup]
    obtain ⟨hinv', hshrinks, hmodules⟩ := evictPerModule_spec hinv hwithin hlookup
    obtain ⟨hinv'', hshrinks', hcard, -⟩ := evictTotal_spec history.maxTotalEntries hinv'
    refine ⟨hinv'', ⟨hshrinks'.length_le _ hmodules, hcard⟩, fun fp entry hentry => ?_⟩
    have hnew := (hshrinks.trans hshrinks').lookup fp entry hentry
    by_cases hfp : fp = history.fingerprint moduleId error
    · subst hfp
      rw [ErrorHistoryState.insertNew, Finmap.lookup_insert] at hnew
      obtain rfl := Option.some.inj hnew
      exact .inr ⟨hlookup, by simp [Operation.records], rfl⟩
    · rw [ErrorHistoryState.insertNew, Finmap.lookup_insert_of_ne _ hfp] at hnew
      exact counted_of_lookup hnew (by simp [Operation.records, Ne.symm hfp])

end Record

omit [LinearOrder Time] in
/-- An empty history is within any limits. -/
theorem within_empty : history.Within (empty : ErrorHistoryState Time) where
  perModule := by
    intro moduleId fps h
    cases h
  total := Nat.zero_le _

theorem clear_spec (hinv : state.Inv) (hwithin : history.Within state) (moduleId : Option String) :
    (state.clear moduleId).Inv ∧ history.Within (state.clear moduleId) ∧
      ∀ fp entry, (state.clear moduleId).fpIndex.lookup fp = some entry →
        Counted history state (.clear moduleId) fp entry := by
  cases moduleId with
  | none =>
    refine ⟨Inv.empty, within_empty, fun fp entry hentry => ?_⟩
    change (∅ : Finmap fun _ : String => ErrorEntry Time).lookup fp = some entry at hentry
    rw [Finmap.lookup_empty] at hentry
    cases hentry
  | some moduleId =>
    cases hfps : state.moduleIndex moduleId with
    | none =>
      have hsame : state.clear (some moduleId) = state := by
        unfold ErrorHistoryState.clear
        dsimp only
        rw [hfps]
      rw [hsame]
      exact ⟨hinv, hwithin, fun fp entry hentry => counted_of_lookup hentry rfl⟩
    | some fps =>
      have hremoves := removes_clear hfps
      have hheap : (state.clear (some moduleId)).heap = state.heap := by
        unfold ErrorHistoryState.clear
        dsimp only
        rw [hfps]
      refine ⟨hremoves.inv hheap hinv, ⟨hremoves.shrinks.length_le _ hwithin.perModule, ?_⟩,
        fun fp entry hentry => counted_of_lookup (hremoves.shrinks.lookup fp entry hentry) rfl⟩
      refine le_trans (Finset.card_le_card fun fp hfp => ?_) hwithin.total
      obtain ⟨entry, hentry⟩ := Finmap.mem_iff.mp (Finmap.mem_keys.mp hfp)
      exact Finmap.mem_keys.mpr (Finmap.mem_iff.mpr ⟨entry, hremoves.shrinks.lookup fp entry hentry⟩)

/-- One operation. -/
theorem step_spec (hinv : state.Inv) (hwithin : history.Within state) (op : Operation Time) :
    (history.step state op).Inv ∧ history.Within (history.step state op) ∧
      ∀ fp entry, (history.step state op).fpIndex.lookup fp = some entry →
        Counted history state op fp entry := by
  cases op with
  | record moduleId error time => exact record_spec hinv hwithin
  | clear moduleId => exact clear_spec hinv hwithin moduleId

/-! ## Runs -/

variable (history)

theorem run_append (ops : List (Operation Time)) (op : Operation Time) :
    history.run (ops ++ [op]) = history.step (history.run ops) op := by
  unfold run
  rw [List.foldl_append]
  rfl

theorem run_spec (ops : List (Operation Time)) :
    (history.run ops).Inv ∧ history.Within (history.run ops) := by
  induction ops using List.reverseRecOn with
  | nil => exact ⟨Inv.empty, within_empty⟩
  | append_singleton ops op ih =>
    rw [run_append]
    exact ⟨(step_spec ih.1 ih.2 op).1, (step_spec ih.1 ih.2 op).2.1⟩

/-- The number of records merged into an entry that is live at the end: those since it was absent
last. -/
def Merged (ops : List (Operation Time)) (fp : String) (count : Nat) : Prop :=
  ∃ before after, ops = before ++ after ∧ (history.run before).fpIndex.lookup fp = none ∧
    (∀ first rest, after = first ++ rest → first ≠ [] →
      ((history.run (before ++ first)).fpIndex.lookup fp).isSome) ∧
    count = after.countP (·.records history fp)

/-- Another operation that leaves the entry live. -/
theorem Merged.append {ops : List (Operation Time)} {fp : String} {count : Nat}
    (h : Merged history ops fp count) {op : Operation Time}
    (hlive : ((history.run (ops ++ [op])).fpIndex.lookup fp).isSome) :
    Merged history (ops ++ [op]) fp (count + if op.records history fp then 1 else 0) := by
  obtain ⟨before, after, rfl, habsent, hafter, hcount⟩ := h
  refine ⟨before, after ++ [op], List.append_assoc _ _ _, habsent, ?_, ?_⟩
  · intro first rest hsplit hne
    cases rest using List.reverseRecOn with
    | nil =>
      rw [List.append_nil] at hsplit
      rw [← hsplit, ← List.append_assoc]
      exact hlive
    | append_singleton rest last =>
      rw [← List.append_assoc] at hsplit
      exact hafter first rest (List.append_inj_left' hsplit rfl) hne
  · rw [List.countP_append, hcount, List.countP_singleton]

/-- The operation that makes the entry. -/
theorem Merged.single {ops : List (Operation Time)} {fp : String}
    (habsent : (history.run ops).fpIndex.lookup fp = none) {op : Operation Time}
    (hop : op.records history fp = true)
    (hlive : ((history.run (ops ++ [op])).fpIndex.lookup fp).isSome) :
    Merged history (ops ++ [op]) fp 1 := by
  refine ⟨ops, [op], rfl, habsent, fun first rest hsplit hne => ?_, by simp [hop]⟩
  cases first with
  | nil => exact absurd rfl hne
  | cons head first =>
    rw [List.cons_append, List.cons.injEq] at hsplit
    obtain ⟨rfl, hnil⟩ := hsplit
    obtain ⟨rfl, -⟩ := List.append_eq_nil_iff.mp hnil.symm
    exact hlive

theorem merged_of_lookup (ops : List (Operation Time)) {fp : String} {entry : ErrorEntry Time}
    (h : (history.run ops).fpIndex.lookup fp = some entry) :
    Merged history ops fp entry.count := by
  induction ops using List.reverseRecOn generalizing entry with
  | nil =>
    change (∅ : Finmap fun _ : String => ErrorEntry Time).lookup fp = some entry at h
    rw [Finmap.lookup_empty] at h
    cases h
  | append_singleton ops op ih =>
    have hlive : ((history.run (ops ++ [op])).fpIndex.lookup fp).isSome := by
      rw [h]
      rfl
    obtain ⟨hinv, hwithin⟩ := run_spec history ops
    rw [run_append] at h
    rcases (step_spec hinv hwithin op).2.2 fp entry h with ⟨before, hbefore, hcount⟩ |
      ⟨habsent, hop, hcount⟩
    · rw [hcount]
      exact (ih hbefore).append history hlive
    · rw [hcount]
      exact Merged.single history habsent hop hlive

/-- What holds of the history after a sequence of operations. -/
structure InStep (ops : List (Operation Time)) : Prop where
  /-- The index has the fingerprints of the lists, -/
  index : ∀ fp, fp ∈ (history.run ops).fpIndex ↔
    ∃ moduleId fps, (history.run ops).moduleIndex moduleId = some fps ∧ fp ∈ fps
  /-- each of which is in one list -/
  disjoint : ∀ moduleId other fps fps', (history.run ops).moduleIndex moduleId = some fps →
    (history.run ops).moduleIndex other = some fps' → moduleId ≠ other → fps.Disjoint fps'
  /-- once. -/
  nodup : ∀ moduleId fps, (history.run ops).moduleIndex moduleId = some fps → fps.Nodup
  within : history.Within (history.run ops)
  counts : ∀ fp entry, (history.run ops).fpIndex.lookup fp = some entry →
    Merged history ops fp entry.count
  /-- A new error makes an entry and evicts those of its module that are too many, and then an oldest
  entry as long as there are too many in total. -/
  evictions : ∀ moduleId error time,
    (history.run ops).fpIndex.lookup (history.fingerprint moduleId error) = none →
    Relation.ReflTransGen EvictsOldest
      (((history.run ops).insertNew (history.fingerprint moduleId error) moduleId error
        time).evictPerModule moduleId history.maxEntriesPerModule)
      (history.run (ops ++ [.record moduleId error time]))

/-- The error history is in step after any operations. -/
theorem inStep_of_run (ops : List (Operation Time)) : history.InStep ops := by
  obtain ⟨hinv, hwithin⟩ := run_spec history ops
  refine ⟨fun fp => ?_, ?_, hinv.nodup, hwithin, fun fp entry h => merged_of_lookup history ops h, ?_⟩
  · rw [Finmap.mem_iff]
    constructor
    · rintro ⟨entry, hentry⟩
      obtain ⟨fps, hfps, hmem⟩ := hinv.listed fp entry hentry
      exact ⟨entry.moduleId, fps, hfps, hmem⟩
    · rintro ⟨moduleId, fps, hfps, hmem⟩
      obtain ⟨entry, hentry, -⟩ := hinv.indexed moduleId fps hfps fp hmem
      exact ⟨entry, hentry⟩
  · intro moduleId other fps fps' hfps hfps' hne fp hfp hfp'
    obtain ⟨entry, hentry, hmodule⟩ := hinv.indexed moduleId fps hfps fp hfp
    obtain ⟨entry', hentry', hmodule'⟩ := hinv.indexed other fps' hfps' fp hfp'
    rw [hentry] at hentry'
    obtain rfl := Option.some.inj hentry'
    exact hne (hmodule.symm.trans hmodule')
  · intro moduleId error time hnone
    rw [run_append]
    show Relation.ReflTransGen EvictsOldest _ (history.record (history.run ops) moduleId error time)
    rw [record_of_none hnone]
    exact (evictTotal_spec _ (evictPerModule_spec hinv hwithin hnone).1).2.2.2

end ErrorHistory

end Apcore
