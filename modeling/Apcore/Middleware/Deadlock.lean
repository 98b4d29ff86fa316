import Apcore.Lib.Transition
import Apcore.Middleware.Manager

/-! # `Middleware.Deadlock` — the order of the locks of the manager

Every call takes its locks in the order `middlewares`, `handles`, `identities`,
`registered_identities`, except `remove_handle`, which takes `middlewares` under `handles`. A cycle
of waiting calls is that call and one that waits for `handles` under `middlewares`. -/

namespace Apcore

namespace ManagerLocks

/-- The place of a lock in the common order, from the last one. -/
def Lock.rank : Lock → Nat
  | registeredIdentities => 0
  | identities => 1
  | handles => 2
  | middlewares => 3

/-- The lock a thread waits for. -/
def State.awaited (s : State) (t : Nat) : Option Lock :=
  (next t s.shared (s.pc t)).bind Locks.Act.awaited

namespace Pc

/-- The thread has `middlewares` and takes `handles` next. -/
def takesHandles : Pc → Bool
  | insertHasMiddlewares _ _ => true
  | removedMiddleware _ => true
  | _ => false

/-- The thread has `handles` and takes `middlewares` next. -/
def takesChain : Pc → Bool
  | handleRemoved _ => true
  | _ => false

/-- The next act takes `middlewares`, and leaves the thread about to take `handles`. -/
def entersChain (sh : Shared) : Pc → Bool
  | inserting _ _ => true
  | removing name => (sh.middlewares.findIdx? (·.name == name)).isSome
  | _ => false

/-- The next act takes `handles`, and leaves the thread about to take `middlewares`. -/
def entersHandles (sh : Shared) : Pc → Bool
  | removingHandle handle => (sh.handles.findIdx? (· == handle)).isSome
  | _ => false

end Pc

/-- A thread waits against the common order only in `remove_handle`. -/
theorem rank_awaited_lt {t : Nat} {sh : Shared} {pc : Pc} {held awaited : Lock}
    (hheld : held ∈ pc.holds) (hawaited : (next t sh pc).bind Locks.Act.awaited = some awaited) :
    awaited.rank < held.rank ∨ pc.takesChain = true ∧ held = .handles := by
  cases pc
  case insertHasMiddlewares =>
    obtain rfl := List.mem_singleton.mp hheld
    cases hawaited
    exact .inl (by decide)
  case insertHasHandles =>
    cases hawaited
    rcases List.mem_pair.mp hheld with rfl | rfl
    · exact .inl (by decide)
    · exact .inl (by decide)
  case removedMiddleware i =>
    obtain rfl := List.mem_singleton.mp hheld
    simp only [next] at hawaited
    split_ifs at hawaited
    · cases hawaited
      exact .inl (by decide)
    · cases hawaited
      exact .inl (by decide)
  case handleRemoved i => exact .inr ⟨rfl, List.mem_singleton.mp hheld⟩
  case forgetting inRemove i =>
    cases inRemove
    · cases hheld
    · obtain rfl := List.mem_singleton.mp hheld
      simp only [next] at hawaited
      split at hawaited
      · cases hawaited
        exact .inl (by decide)
      · cases hawaited
        exact .inl (by decide)
  case forgot inRemove identity =>
    cases hawaited
    cases inRemove
    · obtain rfl := List.mem_singleton.mp hheld
      exact .inl (by decide)
    · rcases List.mem_pair.mp hheld with rfl | rfl
      · exact .inl (by decide)
      · exact .inl (by decide)
  case releasing locks => cases locks <;> cases hawaited
  case noted => cases hawaited
  case removedHandle => cases hawaited
  case chainRemoved => cases hawaited
  case dropping => cases hawaited
  all_goals cases hheld

/-- A thread that waits for `handles` with a lock in its hands has `middlewares`. -/
theorem takesHandles_of_awaited {t : Nat} {sh : Shared} {pc : Pc} {held : Lock}
    (hheld : held ∈ pc.holds)
    (hawaited : (next t sh pc).bind Locks.Act.awaited = some .handles) :
    pc.takesHandles = true := by
  cases pc
  case insertHasMiddlewares => rfl
  case removedMiddleware => rfl
  case insertHasHandles => cases hawaited
  case handleRemoved i =>
    simp only [next] at hawaited
    split_ifs at hawaited <;> cases hawaited
  case forgetting inRemove i =>
    simp only [next] at hawaited
    split at hawaited <;> cases hawaited
  case forgot => cases hawaited
  case releasing locks => cases locks <;> cases hawaited
  case noted => cases hawaited
  case removedHandle => cases hawaited
  case chainRemoved => cases hawaited
  case dropping => cases hawaited
  all_goals cases hheld

theorem holds_of_takesHandles {pc : Pc} (h : pc.takesHandles = true) : .middlewares ∈ pc.holds := by
  cases pc
  case insertHasMiddlewares => exact List.mem_singleton.mpr rfl
  case removedMiddleware => exact List.mem_singleton.mpr rfl
  all_goals cases h

theorem holds_of_takesChain {pc : Pc} (h : pc.takesChain = true) : .handles ∈ pc.holds := by
  cases pc
  case handleRemoved => exact List.mem_singleton.mpr rfl
  all_goals cases h

theorem awaited_of_takesHandles {t : Nat} {sh : Shared} {pc : Pc} (h : pc.takesHandles = true) :
    (next t sh pc).bind Locks.Act.awaited = some .handles := by
  cases pc
  case insertHasMiddlewares => rfl
  case removedMiddleware i =>
    simp only [next]
    split_ifs
    · rfl
    · rfl
  all_goals cases h

theorem awaited_of_takesChain {t : Nat} {sh : Shared} {pc : Pc} (h : pc.takesChain = true) :
    (next t sh pc).bind Locks.Act.awaited = some .middlewares := by
  cases pc
  case handleRemoved i =>
    simp only [next]
    split_ifs
    · rfl
    · rfl
  all_goals cases h

/-! ## Deadlocks are crossings -/

/-- `remove_handle` waits for the chain with the handles, and another call for the handles with the
chain. -/
def Crossed (s : State) : Prop :=
  (∃ t, (s.pc t).takesHandles = true) ∧ ∃ u, (s.pc u).takesChain = true

/-- A crossing is a cycle of two. -/
theorem Crossed.deadlocked {s : State} (hown : Locks.Owned Pc.holds s) (h : Crossed s) :
    Locks.Deadlocked next s := by
  obtain ⟨⟨t, ht⟩, u, hu⟩ := h
  have htu : Locks.WaitsFor next s t u :=
    ⟨.handles, awaited_of_takesHandles ht, (hown.owner u .handles).mpr (holds_of_takesChain hu)⟩
  have hut : Locks.WaitsFor next s u t :=
    ⟨.middlewares, awaited_of_takesChain hu,
      (hown.owner t .middlewares).mpr (holds_of_takesHandles ht)⟩
  exact ⟨t, .tail (.single htu) hut⟩

/-- Without a crossing the locks that are waited for come ever later in the common order. -/
theorem deadlocked_iff {s : State} (hown : Locks.Owned Pc.holds s) :
    Locks.Deadlocked next s ↔ Crossed s := by
  refine ⟨fun ⟨t, hcycle⟩ => ?_, Crossed.deadlocked hown⟩
  by_contra hnot
  let f : Nat → Nat := fun u => ((s.awaited u).map Lock.rank).getD 0
  refine Relation.not_transGen_self_of_measure (f := f) ?_ t hcycle
  rintro w x y z ⟨lw, -, hx⟩ ⟨lx, hxwaits, hy⟩ ⟨ly, hywaits, -⟩
  have hrank : ∀ {u l}, s.awaited u = some l → f u = l.rank := by
    intro u l h
    show ((s.awaited u).map Lock.rank).getD 0 = _
    rw [h]
    rfl
  have hxholds : lw ∈ (s.pc x).holds := (hown.owner x lw).mp hx
  have hyholds : lx ∈ (s.pc y).holds := (hown.owner y lx).mp hy
  rw [hrank hxwaits, hrank hywaits]
  rcases rank_awaited_lt hyholds hywaits with hlt | ⟨hchain, rfl⟩
  · exact hlt
  · exact absurd ⟨⟨x, takesHandles_of_awaited hxholds hxwaits⟩, y, hchain⟩ hnot

/-! ## Which steps cross -/

/-- The step takes `middlewares` to go on to `handles` while `remove_handle` waits for it with
`handles`, or the other way round. -/
def crosses (s : State) : Label → Bool
  | .call _ _ => false
  | .go t =>
    ((s.pc t).entersChain s.shared &&
        (s.owner .handles).any fun u => (s.pc u).takesChain) ||
      ((s.pc t).entersHandles s.shared &&
        (s.owner .middlewares).any fun u => (s.pc u).takesHandles)

/-- The counter an act leads to. -/
def target : Locks.Act Lock Shared Pc → Pc
  | .acquire _ _ pc => pc
  | .release _ pc => pc

theorem perform_pc {s s' : State} {t : Nat} {act : Locks.Act Lock Shared Pc}
    (h : s.perform t act = some s') : s'.pc = Function.update s.pc t (target act) := by
  cases act with
  | acquire lock sh' pc' =>
    rw [Locks.State.perform] at h
    split_ifs at h
    obtain rfl := Option.some.inj h
    rfl
  | release lock pc' =>
    obtain rfl := Option.some.inj h
    rfl

/-- Where an act leads. -/
theorem target_takes {t : Nat} {sh : Shared} {pc : Pc} {act : Locks.Act Lock Shared Pc}
    (h : next t sh pc = some act) :
    (target act).takesHandles = pc.entersChain sh ∧ (target act).takesChain = pc.entersHandles sh := by
  cases pc
  case releasing locks =>
    cases locks with
    | nil => cases h
    | cons lock rest =>
      cases h
      cases rest <;> exact ⟨rfl, rfl⟩
  case removing name =>
    simp only [next] at h
    split at h
    all_goals
      next hfind =>
        obtain rfl := Option.some.inj h
        refine ⟨?_, rfl⟩
        rw [Pc.entersChain, hfind]
        rfl
  case removingHandle handle =>
    simp only [next] at h
    split at h
    all_goals
      next hfind =>
        obtain rfl := Option.some.inj h
        refine ⟨rfl, ?_⟩
        rw [Pc.entersHandles, hfind]
        rfl
  all_goals
    simp only [next] at h
    try split at h
    all_goals first | cases h; exact ⟨rfl, rfl⟩ | cases h

theorem begin_takes (c : Call) : (begin c).takesHandles = false ∧ (begin c).takesChain = false := by
  cases c with
  | insert middleware registration =>
    simp only [begin]
    split_ifs
    · exact ⟨rfl, rfl⟩
    · cases registration <;> exact ⟨rfl, rfl⟩
  | remove name => exact ⟨rfl, rfl⟩
  | removeHandle handle => exact ⟨rfl, rfl⟩
  | read reader => exact ⟨rfl, rfl⟩

/-- The owner of a lock is who has a counter that holds it. -/
theorem any_owner {s : State} (hown : Locks.Owned Pc.holds s) {lock : Lock} {p : Pc → Bool}
    (hp : ∀ pc, p pc = true → lock ∈ pc.holds) :
    ((s.owner lock).any fun u => p (s.pc u)) = true ↔ ∃ u, p (s.pc u) = true := by
  rw [Option.any_eq_true]
  constructor
  · rintro ⟨u, -, hu⟩
    exact ⟨u, hu⟩
  · rintro ⟨u, hu⟩
    exact ⟨u, (hown.owner u lock).mpr (hp _ hu), hu⟩

/-- A thread that waits for its second lock does not enter, and no thread enters both ways. -/
theorem enters_exclusive (sh : Shared) (pc : Pc) :
    (pc.takesHandles = true ∨ pc.takesChain = true →
        pc.entersChain sh = false ∧ pc.entersHandles sh = false) ∧
      ¬(pc.entersChain sh = true ∧ pc.entersHandles sh = true) := by
  cases pc <;> simp [Pc.takesHandles, Pc.takesChain, Pc.entersChain, Pc.entersHandles]

/-- A step leads to a crossing exactly when it crosses. -/
theorem crossed_step {s s' : State} {l : Label} (hown : Locks.Owned Pc.holds s)
    (hnot : ¬Crossed s) (hstep : step s l = some s') : Crossed s' ↔ crosses s l = true := by
  cases l with
  | call t c =>
    obtain ⟨hidle, rfl⟩ := step_call hstep
    obtain ⟨hhandles, hchain⟩ := begin_takes c
    refine iff_of_false ?_ (by simp [crosses])
    rintro ⟨hleft, hright⟩
    rw [Transition.exists_update (by rw [hidle]; rfl), hhandles] at hleft
    rw [Transition.exists_update (by rw [hidle]; rfl), hchain] at hright
    exact hnot ⟨hleft.resolve_left nofun, hright.resolve_left nofun⟩
  | go t =>
    obtain ⟨act, hnext, hperform⟩ := step_go hstep
    obtain ⟨hentersChain, hentersHandles⟩ := target_takes hnext
    have hholders : ∀ pc, Pc.takesHandles pc = true → .middlewares ∈ pc.holds :=
      fun _ => holds_of_takesHandles
    have hwaiters : ∀ pc, Pc.takesChain pc = true → .handles ∈ pc.holds :=
      fun _ => holds_of_takesChain
    have hcrosses : crosses s (.go t) = true ↔
        ((target act).takesHandles = true ∧ ∃ u, (s.pc u).takesChain = true) ∨
          ((target act).takesChain = true ∧ ∃ u, (s.pc u).takesHandles = true) := by
      rw [crosses, Bool.or_eq_true, Bool.and_eq_true, Bool.and_eq_true, any_owner hown hwaiters,
        any_owner hown hholders, hentersChain, hentersHandles]
    obtain ⟨hwaiting, hboth⟩ := enters_exclusive s.shared (s.pc t)
    rw [← hentersChain, ← hentersHandles] at hwaiting hboth
    rw [hcrosses, Crossed, perform_pc hperform]
    by_cases htakes : (s.pc t).takesHandles = true ∨ (s.pc t).takesChain = true
    · -- it had to wait for its second lock, and has got it
      obtain ⟨hleft, hright⟩ := hwaiting htakes
      rw [hleft, hright]
      refine iff_of_false ?_ (by simp)
      rintro ⟨hl, hr⟩
      exact hnot ⟨Transition.exists_of_update hleft hl, Transition.exists_of_update hright hr⟩
    · obtain ⟨hl, hr⟩ := not_or.mp htakes
      rw [Transition.exists_update (Bool.eq_false_iff.mpr hl), Transition.exists_update (Bool.eq_false_iff.mpr hr)]
      constructor
      · rintro ⟨hleft | hleft, hright | hright⟩
        · exact absurd ⟨hleft, hright⟩ hboth
        · exact .inl ⟨hleft, hright⟩
        · exact .inr ⟨hright, hleft⟩
        · exact absurd ⟨hleft, hright⟩ hnot
      · rintro (⟨hleft, hright⟩ | ⟨hright, hleft⟩)
        · exact ⟨.inl hleft, .inr hright⟩
        · exact ⟨.inr hleft, .inl hright⟩

/-- **The manager never deadlocks in a run exactly when no step of the run crosses.** A cycle of
any number of calls is meant, in any state the run comes through. -/
theorem deadlockFree_iff {ls : List Label} {s : State} (hrun : Transition.exec step init ls = some s) :
    Transition.Along step (fun s l => crosses s l = false) init ls ↔
      ∀ ls' m, ls' <+: ls → Transition.exec step init ls' = some m → ¬Locks.Deadlocked next m := by
  refine Transition.along_iff_forall_prefix (I := fun s => Locks.Owned Pc.holds s)
    (fun s l s' hown hfree hstep => ?_) owned_init ?_ hrun
  · have hown' := owned_step hown hstep
    rw [deadlocked_iff hown] at hfree
    rw [deadlocked_iff hown', crossed_step hown hfree hstep]
    exact ⟨hown', by simp⟩
  · rw [deadlocked_iff owned_init]
    rintro ⟨⟨t, ht⟩, -⟩
    cases ht

/-! ## A crossing -/

/-- Two instances of one priority. -/
def auditMiddleware : MiddlewareRef := { ref := 0, name := "audit", priority := 100 }
def cacheMiddleware : MiddlewareRef := { ref := 1, name := "cache", priority := 100 }

/-- `add(middleware)`, alone. -/
def addRun (t : Nat) (middleware : MiddlewareRef) : List Label :=
  .call t (.insert middleware none) :: List.replicate 6 (.go t)

/-- An addition and, when it is done, the removal of what it added. -/
def addThenRemove : List Label :=
  addRun 0 auditMiddleware ++ .call 1 (.removeHandle 0) :: List.replicate 6 (.go 1)

/-- Adding and then removing is free of deadlocks, one call after the other. -/
theorem deadlockFree_sequential :
    (Transition.exec step init addThenRemove).isSome = true ∧
      ∀ ls' m, ls' <+: addThenRemove → Transition.exec step init ls' = some m →
        ¬Locks.Deadlocked next m := by
  have hruns : (Transition.exec step init addThenRemove).isSome = true := by decide
  obtain ⟨s, hrun⟩ := Option.isSome_iff_exists.mp hruns
  exact ⟨hruns, (deadlockFree_iff hrun).mp (by decide)⟩

/-- `remove_handle` has the handles when a second `add` takes the chain: both wait for ever. -/
theorem removeHandle_deadlocks :
    ∃ s, Transition.exec step init
        (addRun 0 auditMiddleware ++
          [.call 1 (.removeHandle 0), .go 1, .call 0 (.insert cacheMiddleware none), .go 0]) = some s ∧
      Locks.Deadlocked next s :=
  ⟨_, rfl, 0, .tail (.single ⟨.handles, rfl, rfl⟩) ⟨.middlewares, rfl, rfl⟩⟩

end ManagerLocks

end Apcore
