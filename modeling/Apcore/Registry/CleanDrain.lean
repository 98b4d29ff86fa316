import Apcore.Registry.Moves

/-! # `Registry.CleanDrain` — what a clean drain answers for

`safe_unregister` answers true where it found no reference or was woken by the release of the last.
The wake-up, the end of the mark and the removal are critical sections of their own, and a wake-up
may be late; where nobody gets a reference in between, a clean drain is clean. -/

namespace Apcore

namespace Registry

/-- The id that a thread drains, or is about to wake the drain of. -/
def Pc.busy : Pc → Option String
  | .waiting name _ _ | .undraining name _ _ | .forgetting name _ _ | .removing name _
  | .notifying name => some name
  | _ => none

/-- Calls of `acquire`, `release` and `safe_unregister`, where `acquire` fails on an id that a
thread is busy with, and only a reference that was acquired is released. -/
def DrainsUndisturbed (s : State) : Label → Prop
  | .call _ (.acquire name) => s.shared.core.draining name = true ∨
      s.shared.core.modules name = none ∨ ∀ t, (s.threads t).busy ≠ some name
  | .call _ (.release name reference) => reference.isSome ∨ s.shared.core.refCounts name = none
  | .call _ (.safeUnregister _) => True
  | .call _ _ => False
  | .act _ _ => True

/-- No reference is counted, and what was unregistered had none outstanding. -/
structure Settled (σ : Shared) (name : String) : Prop where
  refs : σ.core.refs name = 0
  removed : ∀ inst k, .removed name inst k ∈ σ.log → k = 0

section Drains

variable (core : RegistryCore)

/-- What a thread may rely on, from the registry it started with. -/
def Promises (σ : Shared) : Pc → Prop
  | .idle | .crashed | .draining _ => True
  | .waiting name note began => core.modules name = some began ∧ note < σ.nextNote ∧
      (σ.permits note = true → Settled σ name)
  | .undraining name began clean | .forgetting name began clean
  | .removing name (.drain began clean) =>
      core.modules name = some began ∧ (clean = true → Settled σ name)
  | .clearing name _ (.drain began clean) | .unloading name _ (.drain began clean) =>
      core.modules name = some began ∧ σ.core.modules name = none ∧
        (clean = true → Settled σ name)
  | .returned (.drained name began clean) => clean = true → σ.core.modules name = none ∧
      Settled σ name ∧ ∃ inst, began = some inst ∧ core.modules name = some inst
  | .returned _ => True
  | .notifying name => Settled σ name
  | _ => False

/-- The maps, the references and the log fit together. -/
structure Books (σ : Shared) : Prop where
  original : ∀ name inst, σ.core.modules name = some inst → core.modules name = some inst
  held : ∀ name inst, (name, inst) ∈ σ.held → core.modules name = some inst
  counts : ∀ name inst, σ.core.modules name = some inst →
    σ.core.refs name = σ.held.count (name, inst)
  free : ∀ name, σ.core.modules name = none → σ.core.refCounts name = none
  removed : ∀ name inst k, .removed name inst k ∈ σ.log → σ.core.modules name = none
  gone : ∀ name inst, core.modules name = some inst → σ.core.modules name = none →
    ∃ k, .removed name inst k ∈ σ.log
  notes : ∀ name note, σ.drainEvents name = some note → note < σ.nextNote
  permits : ∀ note, σ.permits note = true → note < σ.nextNote

/-- The drains of a registry are in order. -/
structure DrainsInOrder (s : State) : Prop where
  books : Books core s.shared
  promises : ∀ t, Promises core s.shared (s.threads t)
  owner : ∀ name note t name' began, s.shared.drainEvents name = some note →
    s.threads t = .waiting name' note began → name' = name

variable {core}

/-- A thread that does not move may rely on the same, where what is settled stays so for it. -/
theorem Promises.frame {σ σ' : Shared} {pc : Pc} (h : Promises core σ pc)
    (hsettled : ∀ name, pc.busy = some name ∨ σ.core.modules name = none →
      Settled σ name → Settled σ' name)
    (hfree : ∀ name, σ.core.modules name = none → σ'.core.modules name = none)
    (hnext : σ.nextNote ≤ σ'.nextNote)
    (hpermits : ∀ name note began, pc = .waiting name note began → σ'.permits note = true →
      σ.permits note = true ∨ Settled σ' name) : Promises core σ' pc := by
  cases pc with
  | waiting name note began =>
    obtain ⟨hbegan, hnote, hpermit⟩ := h
    refine ⟨hbegan, lt_of_lt_of_le hnote hnext, fun hp => ?_⟩
    rcases hpermits name note began rfl hp with hold | hnew
    · exact hsettled name (.inl rfl) (hpermit hold)
    · exact hnew
  | undraining name began clean => exact ⟨h.1, fun hc => hsettled name (.inl rfl) (h.2 hc)⟩
  | forgetting name began clean => exact ⟨h.1, fun hc => hsettled name (.inl rfl) (h.2 hc)⟩
  | removing name remover =>
    cases remover with
    | unregister => exact h.elim
    | drain began clean => exact ⟨h.1, fun hc => hsettled name (.inl rfl) (h.2 hc)⟩
  | clearing name inst remover =>
    cases remover with
    | unregister => exact h.elim
    | drain began clean =>
      exact ⟨h.1, hfree name h.2.1, fun hc => hsettled name (.inr h.2.1) (h.2.2 hc)⟩
  | unloading name inst remover =>
    cases remover with
    | unregister => exact h.elim
    | drain began clean =>
      exact ⟨h.1, hfree name h.2.1, fun hc => hsettled name (.inr h.2.1) (h.2.2 hc)⟩
  | returned answer =>
    cases answer with
    | drained name began clean =>
      intro hc
      obtain ⟨hnone, hset, hbegan⟩ := h hc
      exact ⟨hfree name hnone, hsettled name (.inr hnone) hset, hbegan⟩
    | _ => trivial
  | notifying name => exact hsettled name (.inl rfl) h
  | _ => exact h

/-- Where the maps, the references and the removals are the same, so are the books. -/
theorem Books.frame {σ σ' : Shared} (h : Books core σ)
    (hmodules : σ'.core.modules = σ.core.modules) (hrefs : σ'.core.refCounts = σ.core.refCounts)
    (hheld : σ'.held = σ.held)
    (hlog : ∀ name inst k, .removed name inst k ∈ σ'.log ↔ .removed name inst k ∈ σ.log)
    (hnotes : ∀ name note, σ'.drainEvents name = some note → note < σ'.nextNote)
    (hpermits : ∀ note, σ'.permits note = true → note < σ'.nextNote) : Books core σ' := by
  have hcount : ∀ name, σ'.core.refs name = σ.core.refs name := by
    intro name
    rw [RegistryCore.refs, RegistryCore.refs, hrefs]
  refine ⟨?_, ?_, ?_, ?_, ?_, ?_, hnotes, hpermits⟩
  · rw [hmodules]
    exact h.original
  · rw [hheld]
    exact h.held
  · intro name inst hmodule
    rw [hmodules] at hmodule
    rw [hcount, hheld]
    exact h.counts name inst hmodule
  · rw [hmodules, hrefs]
    exact h.free
  · intro name inst k hremoved
    rw [hmodules]
    exact h.removed name inst k ((hlog name inst k).mp hremoved)
  · intro name inst horiginal hfree
    rw [hmodules] at hfree
    obtain ⟨k, hk⟩ := h.gone name inst horiginal hfree
    exact ⟨k, (hlog name inst k).mpr hk⟩

/-- Where the count of an id and its removals are the same, it stays settled. -/
theorem Settled.frame {σ σ' : Shared} {name : String} (h : Settled σ name)
    (hrefs : σ'.core.refCounts name = σ.core.refCounts name)
    (hlog : ∀ inst k, .removed name inst k ∈ σ'.log → .removed name inst k ∈ σ.log) :
    Settled σ' name := by
  refine ⟨?_, fun inst k hk => h.removed inst k (hlog inst k hk)⟩
  rw [RegistryCore.refs, hrefs]
  exact h.refs

/-- An id of the module that is registered has seen no removal. -/
theorem Books.settled {σ : Shared} (h : Books core σ) {name : String} {inst : Instance}
    (hmodule : σ.core.modules name = some inst) (hrefs : σ.core.refs name = 0) :
    Settled σ name := by
  refine ⟨hrefs, fun inst' k hk => ?_⟩
  rw [h.removed name inst' k hk] at hmodule
  cases hmodule

section Steps

variable {s : State} (hs : DrainsInOrder core s)
include hs

/-- A step after which the books fit and every thread may rely on what it needs. -/
theorem DrainsInOrder.advance {t : Nat} {σ : Shared} {pc : Pc} (hbooks : Books core σ)
    (hpc : Promises core σ pc)
    (hothers : ∀ t', t' ≠ t → Promises core σ (s.threads t'))
    (hevents : ∀ name note, σ.drainEvents name = some note →
      s.shared.drainEvents name = some note)
    (hwait : pc.waits = false) :
    DrainsInOrder core (s.advance t (σ, pc)) := by
  refine ⟨hbooks, fun t' => ?_, fun name note t' name' began hevent hwaiting => ?_⟩
  · rw [advance_threads]
    split_ifs with heq
    · exact hpc
    · exact hothers t' heq
  · rw [advance_threads] at hwaiting
    split_ifs at hwaiting
    · rw [hwaiting] at hwait
      cases hwait
    · exact hs.owner name note t' name' began (hevents name note hevent) hwaiting

/-- A step that leaves the maps, the references and the removals. -/
theorem DrainsInOrder.quiet {t : Nat} {σ : Shared} {pc : Pc}
    (hmodules : σ.core.modules = s.shared.core.modules)
    (hrefs : σ.core.refCounts = s.shared.core.refCounts) (hheld : σ.held = s.shared.held)
    (hlog : ∀ name inst k,
      .removed name inst k ∈ σ.log ↔ .removed name inst k ∈ s.shared.log)
    (hnext : σ.nextNote = s.shared.nextNote)
    (hevents : ∀ name note, σ.drainEvents name = some note →
      s.shared.drainEvents name = some note)
    (hpermits : ∀ note, σ.permits note = true → s.shared.permits note = true ∨
      ∃ name, s.shared.drainEvents name = some note ∧ Settled s.shared name)
    (hpc : Promises core σ pc) (hwait : pc.waits = false) :
    DrainsInOrder core (s.advance t (σ, pc)) := by
  have hsettled : ∀ name, Settled s.shared name → Settled σ name := by
    intro name h
    exact h.frame (by rw [hrefs]) fun inst k hk => (hlog name inst k).mp hk
  refine hs.advance ?_ hpc ?_ hevents hwait
  · refine hs.books.frame hmodules hrefs hheld hlog ?_ ?_
    · intro name note hevent
      rw [hnext]
      exact hs.books.notes name note (hevents name note hevent)
    · intro note hpermit
      rw [hnext]
      rcases hpermits note hpermit with hold | ⟨name, hevent, -⟩
      · exact hs.books.permits note hold
      · exact hs.books.notes name note hevent
  · intro t' hne
    refine (hs.promises t').frame (fun name _ h => hsettled name h) ?_ (le_of_eq hnext.symm) ?_
    · intro name hfree
      rw [hmodules]
      exact hfree
    · intro name note began hwaiting hpermit
      rcases hpermits note hpermit with hold | ⟨name', hevent, hset⟩
      · exact .inl hold
      · rw [hs.owner name' note t' name began hevent hwaiting]
        exact .inr (hsettled name' hset)

/-- The references to one id and its count change, while its module is the registered one or there
is none. -/
theorem DrainsInOrder.recount {t : Nat} {σ : Shared} {pc : Pc} {name : String}
    {count : Option Nat} {held : List (String × Instance)}
    (hσ : σ = { s.shared with
      core := { s.shared.core with
        refCounts := Function.update s.shared.core.refCounts name count }
      held := held })
    (hheld : ∀ other inst, (other, inst) ∈ held → core.modules other = some inst)
    (hothers : ∀ other inst, other ≠ name →
      held.count (other, inst) = s.shared.held.count (other, inst))
    (hcount : ∀ inst, s.shared.core.modules name = some inst →
      count.getD 0 = held.count (name, inst))
    (hfree : s.shared.core.modules name = none → count = none)
    (hsettled : ∀ t', (s.threads t').busy = some name ∨ s.shared.core.modules name = none →
      Settled s.shared name → count.getD 0 = 0)
    (hpc : Promises core σ pc) (hwait : pc.waits = false) :
    DrainsInOrder core (s.advance t (σ, pc)) := by
  subst hσ
  refine hs.advance ?_ hpc ?_ (fun _ _ h => h) hwait
  · refine ⟨hs.books.original, hheld, ?_, ?_, hs.books.removed, hs.books.gone, hs.books.notes,
      hs.books.permits⟩
    · intro other inst hmodule
      change s.shared.core.modules other = some inst at hmodule
      simp only [RegistryCore.refs, Function.update_apply]
      split_ifs with heq
      · subst heq
        exact hcount inst hmodule
      · rw [hothers other inst heq]
        exact hs.books.counts other inst hmodule
    · intro other hnone
      change s.shared.core.modules other = none at hnone
      simp only [Function.update_apply]
      split_ifs with heq
      · subst heq
        exact hfree hnone
      · exact hs.books.free other hnone
  · intro t' hne
    refine (hs.promises t').frame (fun other hbusy h => ?_) (fun _ h => h) le_rfl
      fun _ _ _ _ h => .inl h
    refine ⟨?_, h.removed⟩
    simp only [RegistryCore.refs, Function.update_apply]
    split_ifs with heq
    · subst heq
      exact hsettled t' hbusy h
    · exact h.refs

/-- A registered module is removed by a drain. -/
theorem DrainsInOrder.remove {t : Nat} {name : String} {inst began : Instance} {clean : Bool}
    (hmodule : s.shared.core.modules name = some inst)
    (hbegan : core.modules name = some began)
    (hclean : clean = true → Settled s.shared name) :
    DrainsInOrder core (s.advance t ({ s.shared with
      core := s.shared.core.removeModule name
      log := .removed name inst (s.shared.held.count (name, inst)) :: s.shared.log },
      .clearing name inst (.drain began clean))) := by
  have hmodules : ∀ other, (s.shared.core.removeModule name).modules other =
      if other = name then none else s.shared.core.modules other :=
    fun other => Function.update_apply ..
  have hcounts : ∀ other, (s.shared.core.removeModule name).refCounts other =
      if other = name then none else s.shared.core.refCounts other :=
    fun other => Function.update_apply ..
  have hfree : ∀ other, s.shared.core.modules other = none →
      (s.shared.core.removeModule name).modules other = none := by
    intro other h
    rw [hmodules, h, ite_self]
  -- a settled id is removed with a count of zero, which is what the event records
  have hsettled : ∀ other, Settled s.shared other → Settled { s.shared with
      core := s.shared.core.removeModule name
      log := .removed name inst (s.shared.held.count (name, inst)) :: s.shared.log } other := by
    intro other h
    constructor
    · rw [RegistryCore.refs, hcounts]
      split_ifs
      · rfl
      · exact h.refs
    · intro inst' k hk
      rcases List.mem_cons.mp hk with heq | hold
      · cases heq
        rw [← hs.books.counts name inst hmodule]
        exact h.refs
      · exact h.removed inst' k hold
  refine hs.advance ?_ ?_ ?_ (fun _ _ h => h) rfl
  · refine ⟨?_, hs.books.held, ?_, ?_, ?_, ?_, hs.books.notes, hs.books.permits⟩
    · intro other inst' h
      rw [hmodules] at h
      split_ifs at h
      exact hs.books.original other inst' h
    · intro other inst' h
      rw [hmodules] at h
      split_ifs at h with heq
      rw [RegistryCore.refs, hcounts, if_neg heq]
      exact hs.books.counts other inst' h
    · intro other h
      rw [hmodules] at h
      rw [hcounts]
      split_ifs at h ⊢
      · rfl
      · exact hs.books.free other h
    · intro other inst' k hk
      rcases List.mem_cons.mp hk with heq | hold
      · cases heq
        rw [hmodules, if_pos rfl]
      · exact hfree other (hs.books.removed other inst' k hold)
    · intro other inst' horiginal h
      rw [hmodules] at h
      split_ifs at h with heq
      · subst heq
        have hsame := horiginal.symm.trans (hs.books.original other inst hmodule)
        rw [Option.some.inj hsame]
        exact ⟨_, List.mem_cons_self⟩
      · obtain ⟨k, hk⟩ := hs.books.gone other inst' horiginal h
        exact ⟨k, List.mem_cons_of_mem _ hk⟩
  · refine ⟨hbegan, ?_, fun hc => hsettled name (hclean hc)⟩
    rw [hmodules, if_pos rfl]
  · intro t' hne
    exact (hs.promises t').frame (fun other _ h => hsettled other h) hfree le_rfl
      fun _ _ _ _ h => .inl h

/-- A drain begins to wait, with a `Notify` of its own. -/
theorem DrainsInOrder.wait {t : Nat} {name : String} {inst : Instance}
    (hmodule : s.shared.core.modules name = some inst) :
    DrainsInOrder core (s.advance t ({ s.shared with
      core := s.shared.core.setDraining name true
      drainEvents := Function.update s.shared.drainEvents name (some s.shared.nextNote)
      nextNote := s.shared.nextNote + 1 }, .waiting name s.shared.nextNote inst)) := by
  -- the number of the new `Notify` is in no entry yet
  have hold : ∀ other note, s.shared.drainEvents other = some note → note ≠ s.shared.nextNote :=
    fun other note h => Nat.ne_of_lt (hs.books.notes other note h)
  refine ⟨?_, fun t' => ?_, fun other note t' name' began hevent hwaiting => ?_⟩
  · refine hs.books.frame rfl rfl rfl (fun _ _ _ => Iff.rfl) ?_ ?_
    · intro other note h
      change Function.update s.shared.drainEvents name (some s.shared.nextNote) other = _ at h
      rw [Function.update_apply] at h
      split_ifs at h
      · rw [← Option.some.inj h]
        exact Nat.lt_succ_self _
      · exact Nat.lt_succ_of_lt (hs.books.notes other note h)
    · exact fun note h => Nat.lt_succ_of_lt (hs.books.permits note h)
  · rw [advance_threads]
    split_ifs
    · refine ⟨hs.books.original name inst hmodule, Nat.lt_succ_self _, fun h => ?_⟩
      exact absurd (hs.books.permits _ h) (Nat.lt_irrefl _)
    · exact (hs.promises t').frame (fun _ _ h => ⟨h.refs, h.removed⟩) (fun _ h => h)
        (Nat.le_succ _) fun _ _ _ _ h => .inl h
  · change Function.update s.shared.drainEvents name (some s.shared.nextNote) other = _ at hevent
    rw [Function.update_apply] at hevent
    rw [advance_threads] at hwaiting
    by_cases hname : other = name
    · rw [if_pos hname] at hevent
      split_ifs at hwaiting
      · cases hwaiting
        exact hname.symm
      · -- nobody waits on a number that is not handed out yet
        have hpromise := hs.promises t'
        rw [hwaiting, ← Option.some.inj hevent] at hpromise
        exact absurd hpromise.2.1 (Nat.lt_irrefl _)
    · rw [if_neg hname] at hevent
      split_ifs at hwaiting
      · cases hwaiting
        exact absurd rfl (hold other _ hevent)
      · exact hs.owner other note t' name' began hevent hwaiting

end Steps

end Drains

theorem drainsInOrder_begins {core : RegistryCore} {s : State} {t : Nat} {c : Call} {σ : Shared}
    {pc : Pc} (hs : DrainsInOrder core s) (hok : DrainsUndisturbed s (.call t c))
    (hbegin : Begins s.shared c σ pc) : DrainsInOrder core (s.advance t (σ, pc)) := by
  have hiff : ∀ name inst k, Event.removed name inst k ∈ s.shared.log ↔
      Event.removed name inst k ∈ s.shared.log := fun _ _ _ => Iff.rfl
  have hgiveBack : ∀ name reference other inst,
      (other, inst) ∈ giveBack s.shared.held name reference → core.modules other = some inst := by
    intro name reference other inst h
    exact hs.books.held other inst (mem_of_giveBack h)
  -- a release that finds a count gives back a reference to the registered module
  have hgiven : ∀ name reference count, s.shared.core.refCounts name = some count →
      (∀ inst, reference = some inst → (name, inst) ∈ s.shared.held) →
      DrainsUndisturbed s (.call t (.release name reference)) →
      ∃ inst, s.shared.core.modules name = some inst ∧
        (giveBack s.shared.held name reference).count (name, inst) = count - 1 := by
    intro name reference count hcount hheld hrelease
    rcases hrelease with hsome | hnone
    · obtain ⟨given, rfl⟩ := Option.isSome_iff_exists.mp hsome
      cases hmodule : s.shared.core.modules name with
      | none =>
        rw [hs.books.free name hmodule] at hcount
        cases hcount
      | some inst =>
        have hsame := (hs.books.held name given (hheld given rfl)).symm.trans
          (hs.books.original name inst hmodule)
        refine ⟨inst, rfl, ?_⟩
        rw [Option.some.inj hsame, giveBack, List.count_erase_self,
          ← hs.books.counts name inst hmodule, RegistryCore.refs, hcount]
        rfl
    · rw [hcount] at hnone
      cases hnone
  cases hbegin with
  | choosing c r explicit hcall hinst => cases c <;> first | exact hok.elim | cases hcall
  | registering c r hcall hinst => cases c <;> first | exact hok.elim | cases hcall
  | unregister name => exact hok.elim
  | toggleFailed name enabled e => exact hok.elim
  | toggled name enabled descriptor hdescriptor => exact hok.elim
  | safeUnregister name =>
    exact hs.quiet rfl rfl rfl hiff rfl (fun _ _ h => h) (fun _ h => .inl h) trivial rfl
  | acquireFailed name e =>
    exact hs.quiet rfl rfl rfl hiff rfl (fun _ _ h => h) (fun _ h => .inl h) trivial rfl
  | acquired name inst hdraining hmodule =>
    refine hs.recount rfl ?_ (fun _ _ hne => count_hold_of_ne hne) ?_ ?_ ?_ trivial rfl
    · intro other inst' h
      rcases List.mem_cons.mp h with heq | hold
      · cases heq
        exact hs.books.original name inst hmodule
      · exact hs.books.held other inst' hold
    · intro inst' hmodule'
      obtain rfl : inst = inst' := Option.some.inj (hmodule.symm.trans hmodule')
      rw [List.count_cons_self, ← hs.books.counts name inst hmodule]
      rfl
    · intro hfree
      rw [hmodule] at hfree
      cases hfree
    · intro t' hbusy hset
      -- nobody is busy with the id, so nobody relies on its count
      rcases hok with hdrain | hfree | hnobody
      · rw [hdraining] at hdrain
        cases hdrain
      · rw [hmodule] at hfree
        cases hfree
      · rcases hbusy with hbusy | hfree
        · exact absurd hbusy (hnobody t')
        · rw [hmodule] at hfree
          cases hfree
  | releasedNone name reference hheld hcount =>
    have hsame : Function.update s.shared.core.refCounts name none = s.shared.core.refCounts := by
      rw [← hcount, Function.update_eq_self]
    refine hs.recount (by rw [hsame]) (hgiveBack name reference)
      (fun _ _ hne => count_giveBack_of_ne reference hne) ?_ (fun _ => rfl) (fun _ _ _ => rfl)
      trivial rfl
    intro inst hmodule
    have hzero := hs.books.counts name inst hmodule
    rw [RegistryCore.refs, hcount] at hzero
    have hle := count_giveBack_le s.shared.held name reference (name, inst)
    rw [← hzero] at hle
    exact (Nat.le_zero.mp hle).symm
  | releasedLast name reference count hheld hcount hlast =>
    obtain ⟨inst, hmodule, hback⟩ := hgiven name reference count hcount hheld hok
    refine hs.recount rfl (hgiveBack name reference)
      (fun _ _ hne => count_giveBack_of_ne reference hne) ?_ (fun _ => rfl) (fun _ _ _ => rfl)
      ⟨?_, ?_⟩ rfl
    · intro inst' hmodule'
      obtain rfl : inst = inst' := Option.some.inj (hmodule.symm.trans hmodule')
      exact (hback.trans hlast).symm
    · show (Function.update s.shared.core.refCounts name none name).getD 0 = 0
      rw [Function.update_self]
      rfl
    · intro inst' k hk
      rw [hs.books.removed name inst' k hk] at hmodule
      cases hmodule
  | releasedOne name reference count hheld hcount hmore =>
    obtain ⟨inst, hmodule, hback⟩ := hgiven name reference count hcount hheld hok
    refine hs.recount rfl (hgiveBack name reference)
      (fun _ _ hne => count_giveBack_of_ne reference hne) ?_ ?_ ?_ trivial rfl
    · intro inst' hmodule'
      obtain rfl : inst = inst' := Option.some.inj (hmodule.symm.trans hmodule')
      exact hback.symm
    · intro hfree
      rw [hmodule] at hfree
      cases hfree
    · intro t' hbusy hset
      -- where the count is settled at zero there is none to take from
      have hzero := hset.refs
      rw [RegistryCore.refs, hcount] at hzero
      have hcount0 : count = 0 := hzero
      exact absurd (by omega) hmore

theorem drainsInOrder_move {core : RegistryCore} {s : State} {t : Nat} {choice : Choice}
    {σ : Shared} {pc : Pc} (hs : DrainsInOrder core s)
    (hmove : Move s.shared (s.threads t) choice σ pc) :
    DrainsInOrder core (s.advance t (σ, pc)) := by
  have hiff : ∀ name inst k, Event.removed name inst k ∈ s.shared.log ↔
      Event.removed name inst k ∈ s.shared.log := fun _ _ _ => Iff.rfl
  have hunload : ∀ inst' name inst k, Event.removed name inst k ∈ .onUnload inst' :: s.shared.log ↔
      Event.removed name inst k ∈ s.shared.log := by
    intro inst' name inst k
    simp
  have hforget : ∀ name other note,
      Function.update s.shared.drainEvents name none other = some note →
        s.shared.drainEvents other = some note := by
    intro name other note h
    rw [Function.update_apply] at h
    split_ifs at h
    exact h
  have hpromise := hs.promises t
  generalize hpc : s.threads t = here at hmove
  rw [hpc] at hpromise
  -- a promise of `False` rules the registrations and `unregister` out
  cases hmove with
  | quiet h => cases h <;> exact hpromise.elim
  | duplicate | added | committed | published => exact hpromise.elim
  | notFound name remover hfree =>
    cases remover with
    | unregister => exact hpromise.elim
    | drain began clean =>
      exact hs.quiet rfl rfl rfl hiff rfl (fun _ _ h => h) (fun _ h => .inl h)
        (fun hc => ⟨hfree, hpromise.2 hc, began, rfl, hpromise.1⟩) rfl
  | removed name remover inst hmodule =>
    cases remover with
    | unregister => exact hpromise.elim
    | drain began clean => exact hs.remove hmodule hpromise.1 hpromise.2
  | cleared name inst remover =>
    cases remover with
    | unregister => exact hpromise.elim
    | drain began clean =>
      exact hs.quiet rfl rfl rfl hiff rfl (hforget name) (fun _ h => .inl h)
        ⟨hpromise.1, hpromise.2.1, fun hc => ⟨(hpromise.2.2 hc).refs, (hpromise.2.2 hc).removed⟩⟩ rfl
  | unloaded name inst remover =>
    cases remover with
    | unregister => exact hpromise.elim
    | drain began clean =>
      refine hs.quiet rfl rfl rfl (hunload inst) rfl (fun _ _ h => h) (fun _ h => .inl h) ?_ rfl
      intro hc
      refine ⟨hpromise.2.1, (hpromise.2.2 hc).frame rfl ?_, began, rfl, hpromise.1⟩
      exact fun inst' k => (hunload inst name inst' k).mp
  | unloadPanicked name inst remover =>
    exact hs.quiet rfl rfl rfl (hunload inst) rfl (fun _ _ h => h) (fun _ h => .inl h) trivial rfl
  | drainNotFound name hfree =>
    exact hs.quiet rfl rfl rfl hiff rfl (fun _ _ h => h) (fun _ h => .inl h)
      (fun hc => (by cases hc)) rfl
  | drainNow name inst hmodule hrefs =>
    have hset := hs.books.settled hmodule hrefs
    exact hs.quiet rfl rfl rfl hiff rfl (fun _ _ h => h) (fun _ h => .inl h)
      ⟨hs.books.original name inst hmodule, fun _ => ⟨hset.refs, hset.removed⟩⟩ rfl
  | drainWait name inst hmodule hrefs => exact hs.wait hmodule
  | woken name note began hpermit =>
    have hset := hpromise.2.2 hpermit
    refine hs.quiet rfl rfl rfl hiff rfl (fun _ _ h => h) ?_
      ⟨hpromise.1, fun _ => ⟨hset.refs, hset.removed⟩⟩ rfl
    intro other h
    change Function.update s.shared.permits note false other = true at h
    rw [Function.update_apply] at h
    split_ifs at h
    exact .inl h
  | timedOut name note began hpermit =>
    exact hs.quiet rfl rfl rfl hiff rfl (fun _ _ h => h) (fun _ h => .inl h)
      ⟨hpromise.1, fun hc => (by cases hc)⟩ rfl
  | undrained name began clean =>
    exact hs.quiet rfl rfl rfl hiff rfl (fun _ _ h => h) (fun _ h => .inl h)
      ⟨hpromise.1, fun hc => ⟨(hpromise.2 hc).refs, (hpromise.2 hc).removed⟩⟩ rfl
  | forgotten name began clean =>
    exact hs.quiet rfl rfl rfl hiff rfl (hforget name) (fun _ h => .inl h)
      ⟨hpromise.1, fun hc => ⟨(hpromise.2 hc).refs, (hpromise.2 hc).removed⟩⟩ rfl
  | notified name note hnote =>
    refine hs.quiet rfl rfl rfl hiff rfl (fun _ _ h => h) ?_ trivial rfl
    intro other h
    change Function.update s.shared.permits note true other = true at h
    rw [Function.update_apply] at h
    split_ifs at h with heq
    · rw [heq]
      exact .inr ⟨name, hnote, hpromise⟩
    · exact .inl h
  | noWaiter name hnote =>
    exact hs.quiet rfl rfl rfl hiff rfl (fun _ _ h => h) (fun _ h => .inl h) trivial rfl

theorem drainsInOrder_step {core : RegistryCore} {s s' : State} {l : Label}
    (hs : DrainsInOrder core s) (hok : DrainsUndisturbed s l) (hstep : step s l = some s') :
    DrainsInOrder core s' := by
  obtain ⟨t, σ, pc, rfl, hmove⟩ := step_cases hstep
  rcases hmove with ⟨c, rfl, hresting, hbegin⟩ | ⟨choice, rfl, hmove⟩
  · exact drainsInOrder_begins hs hok hbegin
  · exact drainsInOrder_move hs hmove

/-- A registry with modules and no references is in order. -/
theorem drainsInOrder_start {core : RegistryCore} (hrefs : ∀ name, core.refCounts name = none)
    (nextInst : Nat) : DrainsInOrder core (State.start core nextInst) where
  promises _ := trivial
  owner _ _ _ _ _ h := by cases h
  books :=
    { original := fun _ _ h => h
      held := fun _ _ h => (by cases h)
      counts := fun name _ _ => by
        rw [RegistryCore.refs]
        show (core.refCounts name).getD 0 = 0
        rw [hrefs]
        rfl
      free := fun name _ => hrefs name
      removed := fun _ _ _ h => (by cases h)
      gone := fun name inst h h' => by
        change core.modules name = none at h'
        rw [h'] at h
        cases h
      notes := fun _ _ h => (by cases h)
      permits := fun _ h => (by cases h) }

/-- A drain that answers true took the module out with no reference to it outstanding. -/
theorem clean_drain_of_run (core : RegistryCore) (nextInst : Nat)
    (hrefs : ∀ name, core.refCounts name = none) (ls : List Label) (s : State)
    (hok : Transition.Along step DrainsUndisturbed (State.start core nextInst) ls)
    (hrun : Transition.exec step (State.start core nextInst) ls = some s) (t : Nat)
    (name : String) (began : Option Instance)
    (hanswer : s.threads t = .returned (.drained name began true)) :
    ∃ inst, began = some inst ∧ .removed name inst 0 ∈ s.shared.log ∧
      ∀ k, .removed name inst k ∈ s.shared.log → k = 0 := by
  have hs := Transition.exec_invariant_along
    (fun _ _ _ hs hl hstep => drainsInOrder_step hs hl hstep)
    (drainsInOrder_start hrefs nextInst) hok hrun
  have hpromise := hs.promises t
  rw [hanswer] at hpromise
  obtain ⟨hfree, hset, inst, rfl, hbegan⟩ := hpromise rfl
  -- the module is gone, so it was removed, and the drain answers for every removal of the id
  obtain ⟨k, hk⟩ := hs.books.gone name inst hbegan hfree
  obtain rfl : k = 0 := hset.removed inst k hk
  exact ⟨inst, rfl, hk, hset.removed inst⟩

theorem clean_drain_of_release : ∃ s, Transition.exec step (State.start oneModule 1)
    (.call 0 (.acquire "m") :: ([.call 1 (.safeUnregister "m"), .act 1 .go,
      .call 0 (.release "m" (some 0)), .act 0 .go] ++ endOfDrain 1 .woken)) = some s ∧
      .removed "m" 0 0 ∈ s.shared.log := by
  obtain ⟨s, hrun, hanswer⟩ : ∃ s, Transition.exec step (State.start oneModule 1)
      (.call 0 (.acquire "m") :: ([.call 1 (.safeUnregister "m"), .act 1 .go,
        .call 0 (.release "m" (some 0)), .act 0 .go] ++ endOfDrain 1 .woken)) = some s ∧
      s.threads 1 = .returned (.drained "m" (some 0) true) := ⟨_, rfl, rfl⟩
  refine ⟨s, hrun, ?_⟩
  have hok : Transition.Along step DrainsUndisturbed (State.start oneModule 1)
      (.call 0 (.acquire "m") :: ([.call 1 (.safeUnregister "m"), .act 1 .go,
        .call 0 (.release "m" (some 0)), .act 0 .go] ++ endOfDrain 1 .woken)) := by
    refine Transition.along_cons (.inr (.inr fun t h => (by cases h))) rfl ?_
    refine Transition.along_of_forall (fun s l hl => ?_) _
    simp only [endOfDrain, List.cons_append, List.nil_append, List.mem_cons,
      List.not_mem_nil, or_false] at hl
    rcases hl with rfl | rfl | rfl | rfl | rfl | rfl | rfl | rfl | rfl | rfl
    all_goals first | trivial | exact .inl rfl
  obtain ⟨inst, hbegan, hremoved, -⟩ := clean_drain_of_run oneModule 1 (fun _ => rfl) _ s hok hrun
    1 "m" (some 0) hanswer
  obtain rfl : 0 = inst := Option.some.inj hbegan
  exact hremoved

/-- The wake-up of a release is late: a drain that began after the next `acquire` gets it. -/
theorem late_wakeup_not_clean : ∃ s, Transition.exec step (State.start oneModule 1)
    ([.call 0 (.acquire "m"), .call 0 (.release "m" (some 0)), .call 1 (.acquire "m"),
      .call 2 (.safeUnregister "m"), .act 2 .go, .act 0 .go] ++ endOfDrain 2 .woken) = some s ∧
      s.threads 2 = .returned (.drained "m" (some 0) true) ∧ s.shared.held = [("m", 0)] ∧
      .removed "m" 0 1 ∈ s.shared.log :=
  ⟨_, rfl, rfl, rfl, List.mem_cons_of_mem _ List.mem_cons_self⟩

end Registry

end Apcore
