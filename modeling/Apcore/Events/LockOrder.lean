import Apcore.Events.Emitter
import Apcore.Lib.Transition

/-! # `Events.LockOrder` — the order of the locks of the emitter

Two calls hold one lock when they take another: `subscribe` takes `handles` under `subscribers`, and
`unsubscribe_handle` takes `subscribers` under `handles`. A cycle of waiting calls, however long, is
one of each. -/

namespace Apcore

namespace EmitterLocks

namespace Pc

/-- The thread has `subscribers` and takes `handles` next. -/
def takesHandles : Pc → Bool
  | pushing _ => true
  | _ => false

/-- The thread has `handles` and takes `subscribers` next. -/
def takesSubscribers : Pc → Bool
  | handleRemoved _ _ => true
  | _ => false

/-- The next act takes `subscribers`, and leaves the thread about to take `handles`. -/
def entersSubscribers : Pc → Bool
  | subscribing _ _ => true
  | _ => false

/-- The next act takes `handles`, and leaves the thread about to take `subscribers`. -/
def entersHandles (sh : Shared) : Pc → Bool
  | removingHandle handle => (sh.handles.findIdx? (· == handle)).isSome
  | _ => false

theorem eq_of_takesHandles {pc : Pc} (h : pc.takesHandles = true) : ∃ handle, pc = pushing handle := by
  cases pc
  case pushing handle => exact ⟨handle, rfl⟩
  all_goals cases h

theorem eq_of_takesSubscribers {pc : Pc} (h : pc.takesSubscribers = true) :
    ∃ handle pos, pc = handleRemoved handle pos := by
  cases pc
  case handleRemoved handle pos => exact ⟨handle, pos, rfl⟩
  all_goals cases h

end Pc

theorem awaited_pushing (t : Nat) (sh : Shared) (handle : Nat) :
    (next t sh (.pushing handle)).bind RwLocks.Act.awaited = some .handles := rfl

theorem awaited_handleRemoved (t : Nat) (sh : Shared) (handle pos : Nat) :
    (next t sh (.handleRemoved handle pos)).bind RwLocks.Act.awaited = some .subscribers := by
  simp only [next]
  split_ifs <;> rfl

/-- A thread that waits with a lock in its hands is in one of the two calls that nest. -/
theorem nests_of_awaited {t : Nat} {sh : Shared} {pc : Pc} {held awaited : Lock} {mode : RwLocks.Mode}
    (hheld : (mode, held) ∈ pc.holds)
    (hawaited : (next t sh pc).bind RwLocks.Act.awaited = some awaited) :
    pc.takesHandles = true ∧ held = .subscribers ∧ awaited = .handles ∨
      pc.takesSubscribers = true ∧ held = .handles ∧ awaited = .subscribers := by
  cases pc
  case pushing handle =>
    cases hawaited
    have heq := List.mem_singleton.mp hheld
    exact .inl ⟨rfl, congrArg Prod.snd heq, rfl⟩
  case handleRemoved handle pos =>
    rw [awaited_handleRemoved] at hawaited
    cases hawaited
    have heq := List.mem_singleton.mp hheld
    exact .inr ⟨rfl, congrArg Prod.snd heq, rfl⟩
  case pushed => cases hawaited
  case returning => cases hawaited
  case counted => cases hawaited
  case snapshotTaken => cases hawaited
  case taken => cases hawaited
  case releasing locks => cases locks <;> cases hawaited
  all_goals cases hheld

/-! ## Deadlocks are crossings -/

/-- `subscribe` waits for the handles with the subscribers, and `unsubscribe_handle` for the
subscribers with the handles. -/
def Crossed (s : State) : Prop :=
  (∃ t, (s.pc t).takesHandles = true) ∧ ∃ u, (s.pc u).takesSubscribers = true

/-- A crossing is a cycle of two. -/
theorem Crossed.deadlocked {s : State} (hown : RwLocks.Owned Pc.holds s) (h : Crossed s) :
    RwLocks.Deadlocked next s := by
  obtain ⟨⟨t, ht⟩, u, hu⟩ := h
  obtain ⟨handle, hpushing⟩ := Pc.eq_of_takesHandles ht
  obtain ⟨cut, pos, hremoved⟩ := Pc.eq_of_takesSubscribers hu
  have htu : RwLocks.WaitsFor next s t u := by
    refine ⟨.handles, .write, ?_, (hown.holder u .handles .write).mpr ?_⟩
    · rw [hpushing]
      exact awaited_pushing _ _ _
    · rw [hremoved]
      exact List.mem_singleton.mpr rfl
  have hut : RwLocks.WaitsFor next s u t := by
    refine ⟨.subscribers, .write, ?_, (hown.holder t .subscribers .write).mpr ?_⟩
    · rw [hremoved]
      exact awaited_handleRemoved _ _ _ _
    · rw [hpushing]
      exact List.mem_singleton.mpr rfl
  exact ⟨t, .tail (.single htu) hut⟩

/-- In a cycle a thread waits for one that waits itself, and these two are in the calls that nest,
one in each. -/
theorem deadlocked_iff {s : State} (hown : RwLocks.Owned Pc.holds s) :
    RwLocks.Deadlocked next s ↔ Crossed s := by
  refine ⟨fun hdead => ?_, Crossed.deadlocked hown⟩
  obtain ⟨t, u, v, w, ⟨lt, mt, -, hu⟩, ⟨lu, mu, huwaits, hv⟩, ⟨lv, mv, hvwaits, -⟩⟩ := hdead.path
  have huholds := (hown.holder u lt mt).mp hu
  have hvholds := (hown.holder v lu mu).mp hv
  rcases nests_of_awaited huholds huwaits with ⟨hupc, -, rfl⟩ | ⟨hupc, -, rfl⟩
  · rcases nests_of_awaited hvholds hvwaits with ⟨-, hheld, -⟩ | ⟨hvpc, -, -⟩
    · cases hheld
    · exact ⟨⟨u, hupc⟩, v, hvpc⟩
  · rcases nests_of_awaited hvholds hvwaits with ⟨hvpc, -, -⟩ | ⟨-, hheld, -⟩
    · exact ⟨⟨v, hvpc⟩, u, hupc⟩
    · cases hheld

/-! ## Which steps cross -/

/-- The step takes `subscribers` to go on to `handles` while `unsubscribe_handle` waits for it with
`handles`, or the other way round. -/
def crosses (s : State) : Label → Bool
  | .call _ _ => false
  | .go t =>
    ((s.pc t).entersSubscribers &&
        (s.holders .handles).any fun holder => (s.pc holder.1).takesSubscribers) ||
      ((s.pc t).entersHandles s.shared &&
        (s.holders .subscribers).any fun holder => (s.pc holder.1).takesHandles)

/-- Where an act leads. -/
theorem target_takes {t : Nat} {sh : Shared} {pc : Pc} {act : RwLocks.Act Lock Shared Pc}
    (h : next t sh pc = some act) :
    act.target.takesHandles = pc.entersSubscribers ∧
      act.target.takesSubscribers = pc.entersHandles sh := by
  cases pc
  case removingHandle handle =>
    simp only [next] at h
    split at h
    all_goals
      next hfind =>
        obtain rfl := Option.some.inj h
        refine ⟨rfl, ?_⟩
        rw [Pc.entersHandles, hfind]
        rfl
  case handleRemoved handle pos =>
    simp only [next] at h
    split_ifs at h <;> cases h <;> exact ⟨rfl, rfl⟩
  case snapshotTaken tracks => cases tracks <;> cases h <;> exact ⟨rfl, rfl⟩
  case taken unfinished => cases unfinished <;> cases h <;> exact ⟨rfl, rfl⟩
  case releasing locks =>
    cases locks with
    | nil => cases h
    | cons lock rest => cases h; cases rest <;> exact ⟨rfl, rfl⟩
  all_goals cases h <;> exact ⟨rfl, rfl⟩

theorem begin_takes (c : Call) :
    (begin c).takesHandles = false ∧ (begin c).takesSubscribers = false := by
  cases c
  case unsubscribe subscriberId =>
    simp only [begin]
    split_ifs <;> exact ⟨rfl, rfl⟩
  all_goals exact ⟨rfl, rfl⟩

/-- Among the holders of a lock are all the threads whose counter holds it to write. -/
theorem any_holder {s : State} (hown : RwLocks.Owned Pc.holds s) {lock : Lock} {p : Pc → Bool}
    (hp : ∀ pc, p pc = true → (.write, lock) ∈ pc.holds) :
    ((s.holders lock).any fun holder => p (s.pc holder.1)) = true ↔ ∃ u, p (s.pc u) = true := by
  rw [List.any_eq_true]
  constructor
  · rintro ⟨holder, -, hu⟩
    exact ⟨holder.1, hu⟩
  · rintro ⟨u, hu⟩
    exact ⟨(u, .write), (hown.holder u lock .write).mpr (hp _ hu), hu⟩

theorem holds_of_takesHandles {pc : Pc} (h : pc.takesHandles = true) :
    (.write, .subscribers) ∈ pc.holds := by
  obtain ⟨handle, rfl⟩ := Pc.eq_of_takesHandles h
  exact List.mem_singleton.mpr rfl

theorem holds_of_takesSubscribers {pc : Pc} (h : pc.takesSubscribers = true) :
    (.write, .handles) ∈ pc.holds := by
  obtain ⟨handle, pos, rfl⟩ := Pc.eq_of_takesSubscribers h
  exact List.mem_singleton.mpr rfl

/-- A thread between its two locks does not cross while it takes the second one. -/
theorem enters_of_takes (sh : Shared) {pc : Pc}
    (h : pc.takesHandles = true ∨ pc.takesSubscribers = true) :
    pc.entersSubscribers = false ∧ pc.entersHandles sh = false := by
  rcases h with h | h
  · obtain ⟨handle, rfl⟩ := Pc.eq_of_takesHandles h
    exact ⟨rfl, rfl⟩
  · obtain ⟨handle, pos, rfl⟩ := Pc.eq_of_takesSubscribers h
    exact ⟨rfl, rfl⟩

theorem enters_exclusive {sh : Shared} {pc : Pc} (h : pc.entersSubscribers = true) :
    pc.entersHandles sh = false := by
  cases pc
  case subscribing => rfl
  all_goals cases h

/-- A step leads to a crossing exactly when it crosses. -/
theorem crossed_step {s s' : State} {l : Label} (hown : RwLocks.Owned Pc.holds s)
    (hnot : ¬Crossed s) (hstep : step s l = some s') : Crossed s' ↔ crosses s l = true := by
  cases l with
  | call t c =>
    obtain ⟨-, rfl⟩ := step_call hstep
    obtain ⟨hhandles, hsubscribers⟩ := begin_takes c
    refine iff_of_false ?_ (by simp [crosses])
    rintro ⟨hleft, hright⟩
    exact hnot ⟨Transition.exists_of_update hhandles hleft, Transition.exists_of_update hsubscribers hright⟩
  | go t =>
    obtain ⟨act, hnext, hperform⟩ := step_go hstep
    obtain ⟨hleads, hleads'⟩ := target_takes hnext
    have hcrosses : crosses s (.go t) = true ↔
        ((s.pc t).entersSubscribers = true ∧ ∃ u, (s.pc u).takesSubscribers = true) ∨
          ((s.pc t).entersHandles s.shared = true ∧ ∃ u, (s.pc u).takesHandles = true) := by
      rw [crosses, Bool.or_eq_true, Bool.and_eq_true, Bool.and_eq_true,
        any_holder hown fun _ => holds_of_takesSubscribers,
        any_holder hown fun _ => holds_of_takesHandles]
    rw [hcrosses, Crossed, (RwLocks.perform_eq hperform).2]
    by_cases htakes : (s.pc t).takesHandles = true ∨ (s.pc t).takesSubscribers = true
    · obtain ⟨henters, henters'⟩ := enters_of_takes s.shared htakes
      rw [henters] at hleads
      rw [henters'] at hleads'
      rw [henters, henters']
      refine iff_of_false ?_ (by simp)
      rintro ⟨hl, hr⟩
      exact hnot ⟨Transition.exists_of_update hleads hl, Transition.exists_of_update hleads' hr⟩
    · obtain ⟨hl, hr⟩ := not_or.mp htakes
      rw [Transition.exists_update (Bool.eq_false_iff.mpr hl), Transition.exists_update (Bool.eq_false_iff.mpr hr), hleads,
        hleads']
      constructor
      · rintro ⟨hleft | hleft, hright | hright⟩
        · rw [enters_exclusive hleft] at hright
          cases hright
        · exact .inl ⟨hleft, hright⟩
        · exact .inr ⟨hright, hleft⟩
        · exact absurd ⟨hleft, hright⟩ hnot
      · rintro (⟨hleft, hright⟩ | ⟨hright, hleft⟩)
        · exact ⟨.inl hleft, .inr hright⟩
        · exact ⟨.inr hleft, .inl hright⟩

/-- **The emitter never deadlocks in a run exactly when no step of the run crosses.** A cycle of any
number of calls is meant, in any state the run comes through. -/
theorem noLockCycle_iff {ls : List Label} {s : State} (hrun : Transition.exec step init ls = some s) :
    Transition.Along step (fun s l => crosses s l = false) init ls ↔
      ∀ ls' m, ls' <+: ls → Transition.exec step init ls' = some m → ¬RwLocks.Deadlocked next m := by
  refine Transition.along_iff_forall_prefix (I := fun s => RwLocks.Owned Pc.holds s)
    (fun s l s' hown hfree hstep => ?_) owned_init ?_ hrun
  · have hown' := owned_step hown hstep
    rw [deadlocked_iff hown] at hfree
    rw [deadlocked_iff hown', crossed_step hown hfree hstep]
    exact ⟨hown', by simp⟩
  · rw [deadlocked_iff owned_init]
    rintro ⟨⟨t, ht⟩, -⟩
    cases ht

/-! ## A crossing -/

/-- A registration and, when it is done, its removal. -/
def subscribeThenRemove : List Label :=
  callRun 0 (.subscribe "audit" none) 4 ++ callRun 1 (.unsubscribeHandle 0) 4

/-- One call after the other, nobody waits. -/
theorem noLockCycle_sequential :
    (Transition.exec step init subscribeThenRemove).isSome = true ∧
      ∀ ls' m, ls' <+: subscribeThenRemove → Transition.exec step init ls' = some m →
        ¬RwLocks.Deadlocked next m := by
  have hruns : (Transition.exec step init subscribeThenRemove).isSome = true := by decide
  obtain ⟨s, hrun⟩ := Option.isSome_iff_exists.mp hruns
  exact ⟨hruns, (noLockCycle_iff hrun).mp (by decide)⟩

/-- `unsubscribe_handle` has the handles when another `subscribe` takes the subscribers: both wait
for ever. -/
theorem unsubscribeHandle_deadlocks :
    ∃ s, Transition.exec step init
        (callRun 0 (.subscribe "audit" none) 4 ++
          (callRun 1 (.unsubscribeHandle 0) 1 ++ callRun 0 (.subscribe "cache" none) 1)) = some s ∧
      RwLocks.Deadlocked next s := by
  refine ⟨_, rfl, 0, .tail (b := 1) (.single ⟨.handles, .write, rfl, ?_⟩)
    ⟨.subscribers, .write, rfl, ?_⟩⟩
  · exact List.mem_cons_self
  · exact List.mem_cons_self

end EmitterLocks

end Apcore
