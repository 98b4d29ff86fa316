import Apcore.Registry.Moves

/-! # `Registry.OwnDrain` — drains of one id side by side

`safe_unregister` looks the id up once when it begins and once when it removes it, and the drains of
an id share one entry of `drain_events`. Where nothing is registered under an id while it is drained,
and no drain takes the entry from another that waits, each removes its own instance and hears of the
last release. -/

namespace Apcore

namespace Registry

/-- The id that a drain is about to remove, and the instance registered when it began. -/
def Pc.midDrain : Pc → Option (String × Instance)
  | .waiting name _ began | .undraining name began _ | .forgetting name began _
  | .removing name (.drain began _) => some (name, began)
  | _ => none

/-- A thread is about to remove the id for a drain. -/
def State.Drains (s : State) (name : String) : Prop :=
  ∃ t began, (s.threads t).midDrain = some (name, began)

/-- A drain of the id waits, and nobody has woken it. -/
def State.Waits (s : State) (name : String) : Prop :=
  ∃ t note began, s.threads t = .waiting name note began ∧ s.shared.permits note = false

/-- A release of the last reference is about to wake the drain of the id. -/
def State.Notifies (s : State) (name : String) : Prop := ∃ t, s.threads t = .notifying name

/-- Nothing is registered under an id that is drained; a drain that waits keeps its entry and its
count; and it does not time out between the last release and its wake-up. -/
def DrainsApart (s : State) : Label → Prop
  | .call _ _ => True
  | .act t choice =>
    match s.threads t with
    | .publishing r =>
      (s.shared.core.modules r.name = none ∨ (Pc.publishing r).discovering = some r) →
        ¬ s.Drains r.name
    | .versionPush r => ∀ core, s.shared.core.addVersion r.name r.inst r.descriptor = .added core →
        core.modules r.name = s.shared.core.modules r.name ∨ ¬ s.Drains r.name
    -- a new entry takes the place of the old one, and the removal takes the count
    | .draining name | .removing name _ => s.shared.core.refs name = 0 ∨ ¬ s.Waits name
    | .forgetting name _ _ | .clearing name _ _ => ¬ s.Waits name
    | .waiting name _ _ =>
      match choice with
      | .timedOut => s.shared.core.refs name = 0 → ¬ s.Notifies name
      | _ => True
    | _ => True

/-- What a drain does with its instance and its waiting. -/
structure OwnDrain (s : State) : Prop where
  /-- What it removes is the instance that was registered when it began. -/
  own : ∀ t name began clean inst, s.threads t = .removing name (.drain began clean) →
    s.shared.core.modules name = some inst → inst = began
  /-- Once no reference is counted, it has its permit, or a release is about to give it. -/
  woken : ∀ t name note began, s.threads t = .waiting name note began →
    s.shared.core.refs name = 0 → s.shared.permits note = true ∨
      s.shared.drainEvents name = some note ∧ s.Notifies name
  /-- It times out only while references are counted. -/
  timely : ∀ t name note began s', s.threads t = .waiting name note began →
    DrainsApart s (.act t .timedOut) → step s (.act t .timedOut) = some s' →
      s.shared.core.refs name ≠ 0

/-- The drains of a registry do not disturb one another. -/
structure DrainsKept (s : State) : Prop where
  own : ∀ t name began inst, (s.threads t).midDrain = some (name, began) →
    s.shared.core.modules name = some inst → inst = began
  fresh : ∀ t name note began, s.threads t = .waiting name note began → note < s.shared.nextNote
  sole : ∀ t t' name name' note began began', s.threads t = .waiting name note began →
    s.threads t' = .waiting name' note began' → t = t'
  heard : ∀ t name note began, s.threads t = .waiting name note began →
    s.shared.permits note = false → s.shared.drainEvents name = some note ∧
      (s.shared.core.refs name ≠ 0 ∨ s.Notifies name)

/-- No instance is put under an id that a thread drains. -/
def LeavesDrained (s : State) (core : RegistryCore) : Prop :=
  ∀ name inst, core.modules name = some inst → s.shared.core.modules name = some inst ∨
    ¬ s.Drains name

theorem Pc.ne_notifying {pc : Pc} (h : pc.notifies = false) (name : String) :
    pc ≠ .notifying name := by
  rintro rfl
  cases h

theorem Pc.notifies_of_resting {pc : Pc} (h : pc.resting = true) : pc.notifies = false := by
  cases pc <;> first | rfl | cases h

/-- Who is about to wake a drain still is, where another thread has moved. -/
theorem State.Notifies.advance {s : State} {t : Nat} {σ : Shared} {pc : Pc} {name : String}
    (h : s.Notifies name) (ht : s.threads t ≠ .notifying name) :
    (s.advance t (σ, pc)).Notifies name := by
  obtain ⟨t', hnotifying⟩ := h
  refine ⟨t', ?_⟩
  rw [advance_threads]
  split_ifs with heq
  · rw [heq] at hnotifying
    exact absurd hnotifying ht
  · exact hnotifying

section Steps

variable {s : State} (hs : DrainsKept s)
include hs

/-- A step after which every drain that waits can still be told. -/
theorem DrainsKept.advance {t : Nat} {σ : Shared} {pc : Pc}
    (hmodules : LeavesDrained s σ.core)
    (hpc : ∀ name began, pc.midDrain = some (name, began) →
      (s.threads t).midDrain = some (name, began) ∨ σ.core.modules name = some began)
    (hnext : s.shared.nextNote ≤ σ.nextNote)
    (hheard : ∀ t' name note began, t' ≠ t → s.threads t' = .waiting name note began →
      σ.permits note = false → σ.drainEvents name = some note ∧
        (σ.core.refs name ≠ 0 ∨ (s.advance t (σ, pc)).Notifies name))
    (hwait : ∀ name note began, pc = .waiting name note began → note = s.shared.nextNote ∧
      note < σ.nextNote ∧ σ.drainEvents name = some note ∧ σ.core.refs name ≠ 0) :
    DrainsKept (s.advance t (σ, pc)) := by
  -- under a drained id nothing new is registered, so what is there was there when it began
  have hkept : ∀ t' name began inst, (s.threads t').midDrain = some (name, began) →
      σ.core.modules name = some inst → inst = began := by
    intro t' name began inst hmid hmodule
    rcases hmodules name inst hmodule with hold | hnobody
    · exact hs.own t' name began inst hmid hold
    · exact absurd ⟨t', began, hmid⟩ hnobody
  constructor
  case own =>
    intro t' name began inst hmid hmodule
    rw [advance_threads] at hmid
    split_ifs at hmid
    · rcases hpc name began hmid with hold | hnow
      · exact hkept t name began inst hold hmodule
      · exact Option.some.inj (hmodule.symm.trans hnow)
    · exact hkept t' name began inst hmid hmodule
  case fresh =>
    intro t' name note began h
    rw [advance_threads] at h
    split_ifs at h
    · exact (hwait name note began h).2.1
    · exact lt_of_lt_of_le (hs.fresh t' name note began h) hnext
  case sole =>
    intro t₁ t₂ name₁ name₂ note began₁ began₂ h₁ h₂
    rw [advance_threads] at h₁ h₂
    -- a drain that begins to wait has a number that nobody has yet
    split_ifs at h₁ h₂ with ht₁ ht₂ ht₂
    · rw [ht₁, ht₂]
    · have hnote := (hwait name₁ note began₁ h₁).1
      exact absurd (hs.fresh t₂ name₂ note began₂ h₂) (by omega)
    · have hnote := (hwait name₂ note began₂ h₂).1
      exact absurd (hs.fresh t₁ name₁ note began₁ h₁) (by omega)
    · exact hs.sole t₁ t₂ name₁ name₂ note began₁ began₂ h₁ h₂
  case heard =>
    intro t' name note began h hpermit
    rw [advance_threads] at h
    split_ifs at h with heq
    · obtain ⟨-, -, hevent, hrefs⟩ := hwait name note began h
      exact ⟨hevent, .inl hrefs⟩
    · exact hheard t' name note began heq h hpermit

/-- A step that leaves the entries, the permits and the counts. -/
theorem DrainsKept.quiet {t : Nat} {σ : Shared} {pc : Pc}
    (hmodules : LeavesDrained s σ.core)
    (hpc : ∀ name began, pc.midDrain = some (name, began) →
      (s.threads t).midDrain = some (name, began) ∨ σ.core.modules name = some began)
    (hnext : σ.nextNote = s.shared.nextNote) (hevents : σ.drainEvents = s.shared.drainEvents)
    (hpermits : σ.permits = s.shared.permits)
    (hrefs : σ.core.refCounts = s.shared.core.refCounts)
    (ht : (s.threads t).notifies = false) (hwait : pc.waits = false) :
    DrainsKept (s.advance t (σ, pc)) := by
  refine hs.advance hmodules hpc (le_of_eq hnext.symm) ?_ ?_
  · intro t' name note began hne h hpermit
    rw [hpermits] at hpermit
    obtain ⟨hevent, hcounted⟩ := hs.heard t' name note began h hpermit
    rw [hevents, RegistryCore.refs, hrefs]
    exact ⟨hevent, hcounted.imp id fun hnotifies => hnotifies.advance (Pc.ne_notifying ht name)⟩
  · intro name note began h
    rw [h] at hwait
    cases hwait

/-- Such a step of a thread that is in no drain afterwards. -/
theorem DrainsKept.outside {t : Nat} {σ : Shared} {pc : Pc}
    (hmodules : LeavesDrained s σ.core) (hmid : pc.midDrain = none)
    (hnext : σ.nextNote = s.shared.nextNote) (hevents : σ.drainEvents = s.shared.drainEvents)
    (hpermits : σ.permits = s.shared.permits)
    (hrefs : σ.core.refCounts = s.shared.core.refCounts)
    (ht : (s.threads t).notifies = false) (hwait : pc.waits = false) :
    DrainsKept (s.advance t (σ, pc)) := by
  refine hs.quiet hmodules ?_ hnext hevents hpermits hrefs ht hwait
  intro name began h
  rw [hmid] at h
  cases h

/-- The count of one id changes: references are counted still, or a wake-up is due. -/
theorem DrainsKept.recount {t : Nat} {pc : Pc} {name : String} {count : Option Nat}
    {held : List (String × Instance)} (ht : (s.threads t).notifies = false)
    (hmid : pc.midDrain = none) (hwait : pc.waits = false)
    (hcount : count.getD 0 ≠ 0 ∨ pc = .notifying name) :
    DrainsKept (s.advance t ({ s.shared with
      core := { s.shared.core with
        refCounts := Function.update s.shared.core.refCounts name count }
      held := held }, pc)) := by
  refine hs.advance (fun _ _ h => .inl h) ?_ le_rfl ?_ ?_
  · intro other began h
    rw [hmid] at h
    cases h
  · intro t' other note began hne h hpermit
    obtain ⟨hevent, hcounted⟩ := hs.heard t' other note began h hpermit
    refine ⟨hevent, ?_⟩
    by_cases hname : other = name
    · subst hname
      rcases hcount with hmore | rfl
      · left
        simpa only [RegistryCore.refs, Function.update_self] using hmore
      · -- the release that took the last reference has the wake-up still to do
        right
        refine ⟨t, ?_⟩
        rw [advance_threads, if_pos rfl]
    · refine hcounted.imp ?_ fun hnotifies => hnotifies.advance (Pc.ne_notifying ht other)
      intro hrefs
      simpa only [RegistryCore.refs, Function.update_of_ne hname] using hrefs
  · intro other note began h
    rw [h] at hwait
    cases hwait

/-- The entry of one id is taken away, for which nobody waits. -/
theorem DrainsKept.forget {t : Nat} {pc : Pc} {name : String}
    (ht : (s.threads t).notifies = false) (hnobody : ¬ s.Waits name)
    (hmid : pc.midDrain = none ∨ pc.midDrain = (s.threads t).midDrain)
    (hwait : pc.waits = false) :
    DrainsKept (s.advance t ({ s.shared with
      drainEvents := Function.update s.shared.drainEvents name none }, pc)) := by
  refine hs.advance (fun _ _ h => .inl h) ?_ le_rfl ?_ ?_
  · intro other began h
    rcases hmid with hnone | hsame
    · rw [hnone] at h
      cases h
    · exact .inl (hsame ▸ h)
  · intro t' other note began hne h hpermit
    obtain ⟨hevent, hcounted⟩ := hs.heard t' other note began h hpermit
    have hother : other ≠ name := by
      intro heq
      subst heq
      exact hnobody ⟨t', note, began, h, hpermit⟩
    refine ⟨?_, hcounted.imp id fun hnotifies => hnotifies.advance (Pc.ne_notifying ht other)⟩
    show Function.update s.shared.drainEvents name none other = some note
    rw [Function.update_of_ne hother]
    exact hevent
  · intro other note began h
    rw [h] at hwait
    cases hwait

/-- A module is removed, whose count nobody waits for. -/
theorem DrainsKept.remove {t : Nat} {name : String} {inst : Instance} {remover : Remover}
    {event : Event} (ht : (s.threads t).notifies = false)
    (hok : s.shared.core.refs name = 0 ∨ ¬ s.Waits name) :
    DrainsKept (s.advance t ({ s.shared with
      core := s.shared.core.removeModule name
      log := event :: s.shared.log }, .clearing name inst remover)) := by
  refine hs.advance ?_ (fun _ _ h => (by cases h)) le_rfl ?_ (fun _ _ _ h => (by cases h))
  · intro other inst' h
    change Function.update s.shared.core.modules name none other = some inst' at h
    rw [Function.update_apply] at h
    split_ifs at h
    exact .inl h
  · intro t' other note began hne h hpermit
    obtain ⟨hevent, hcounted⟩ := hs.heard t' other note began h hpermit
    refine ⟨hevent, ?_⟩
    by_cases hname : other = name
    · subst hname
      -- the removal takes the count, so the drain that waits relies on the wake-up alone
      right
      rcases hok with hzero | hnobody
      · rcases hcounted with hrefs | hnotifies
        · exact absurd hzero hrefs
        · exact hnotifies.advance (Pc.ne_notifying ht other)
      · exact absurd ⟨t', note, began, h, hpermit⟩ hnobody
    · refine hcounted.imp ?_ fun hnotifies => hnotifies.advance (Pc.ne_notifying ht other)
      intro hrefs
      simpa only [RegistryCore.refs, RegistryCore.removeModule, Function.update_of_ne hname]
        using hrefs

/-- A drain begins to wait, where no other of its id does. -/
theorem DrainsKept.wait {t : Nat} {name : String} {inst : Instance}
    (ht : (s.threads t).notifies = false)
    (hmodule : s.shared.core.modules name = some inst) (hrefs : s.shared.core.refs name ≠ 0)
    (hnobody : ¬ s.Waits name) :
    DrainsKept (s.advance t ({ s.shared with
      core := s.shared.core.setDraining name true
      drainEvents := Function.update s.shared.drainEvents name (some s.shared.nextNote)
      nextNote := s.shared.nextNote + 1 }, .waiting name s.shared.nextNote inst)) := by
  refine hs.advance (fun _ _ h => .inl h) ?_ (Nat.le_succ _) ?_ ?_
  · intro other began h
    cases h
    exact .inr hmodule
  · intro t' other note began hne h hpermit
    obtain ⟨hevent, hcounted⟩ := hs.heard t' other note began h hpermit
    have hother : other ≠ name := by
      intro heq
      subst heq
      exact hnobody ⟨t', note, began, h, hpermit⟩
    refine ⟨?_, hcounted.imp id fun hnotifies => hnotifies.advance (Pc.ne_notifying ht other)⟩
    show Function.update s.shared.drainEvents name (some s.shared.nextNote) other = some note
    rw [Function.update_of_ne hother]
    exact hevent
  · intro other note began h
    cases h
    exact ⟨rfl, Nat.lt_succ_self _, Function.update_self .., hrefs⟩

/-- A drain gets its wake-up. -/
theorem DrainsKept.wake {t : Nat} {name : String} {note : Nat} {began : Instance}
    (ht : s.threads t = .waiting name note began) :
    DrainsKept (s.advance t ({ s.shared with
      permits := Function.update s.shared.permits note false },
      .undraining name began true)) := by
  have hnot : (s.threads t).notifies = false := by rw [ht]; rfl
  refine hs.advance (fun _ _ h => .inl h) ?_ le_rfl ?_ (fun _ _ _ h => (by cases h))
  · intro other began' h
    rw [ht]
    exact .inl h
  · intro t' other note' began' hne h hpermit
    -- the permit that is used up is nobody else's
    have hnote : note' ≠ note := by
      intro heq
      rw [heq] at h
      exact hne (hs.sole t' t other name note began' began h ht)
    change Function.update s.shared.permits note false note' = false at hpermit
    rw [Function.update_of_ne hnote] at hpermit
    obtain ⟨hevent, hcounted⟩ := hs.heard t' other note' began' h hpermit
    exact ⟨hevent, hcounted.imp id fun hnotifies => hnotifies.advance (Pc.ne_notifying hnot other)⟩

/-- A release wakes the drain that waits, which is the one the entry is of. -/
theorem DrainsKept.notify {t : Nat} {name : String} {permits : Nat → Bool}
    (ht : s.threads t = .notifying name)
    (hpermits : ∀ note, permits note = false → s.shared.permits note = false ∧
      s.shared.drainEvents name ≠ some note) :
    DrainsKept (s.advance t ({ s.shared with permits := permits }, .returned .released)) := by
  refine hs.advance (fun _ _ h => .inl h) (fun _ _ h => (by cases h)) le_rfl ?_
    (fun _ _ _ h => (by cases h))
  intro t' other note began hne h hpermit
  obtain ⟨hold, hentry⟩ := hpermits note hpermit
  obtain ⟨hevent, hcounted⟩ := hs.heard t' other note began h hold
  refine ⟨hevent, hcounted.imp id fun hnotifies => hnotifies.advance ?_⟩
  -- this thread was not the one that the drain relied on: its entry is another
  rw [ht]
  intro heq
  cases heq
  exact hentry hevent

end Steps

/-- An instance is put under an id that nobody drains. -/
theorem leavesDrained_of_others {s : State} {core : RegistryCore} {name : String}
    (hothers : ∀ other, other ≠ name → core.modules other = s.shared.core.modules other)
    (hok : core.modules name = s.shared.core.modules name ∨ ¬ s.Drains name) :
    LeavesDrained s core := by
  intro other inst' h
  by_cases hname : other = name
  · subst hname
    rcases hok with hsame | hnobody
    · rw [hsame] at h
      exact .inl h
    · exact .inr hnobody
  · rw [hothers other hname] at h
    exact .inl h

/-- A registration is in no drain. -/
theorem Quiet.outside {σ : Shared} {pc pc' : Pc} {event : Option Event} {inFlight : String → Bool}
    (h : Quiet σ pc event inFlight pc') :
    pc'.midDrain = none ∧ pc.notifies = false ∧ pc'.waits = false := by
  cases h <;> exact ⟨rfl, rfl, rfl⟩

theorem drainsKept_begins {s : State} {t : Nat} {c : Call} {σ : Shared} {pc : Pc}
    (hs : DrainsKept s) (hresting : (s.threads t).resting = true)
    (hbegin : Begins s.shared c σ pc) : DrainsKept (s.advance t (σ, pc)) := by
  have ht := Pc.notifies_of_resting hresting
  cases hbegin with
  | acquired name inst hdraining hmodule =>
    exact hs.recount ht rfl rfl (.inl (Nat.succ_ne_zero _))
  | releasedLast name reference count hheld hcount hlast => exact hs.recount ht rfl rfl (.inr rfl)
  | releasedOne name reference count hheld hcount hmore => exact hs.recount ht rfl rfl (.inl hmore)
  | _ => exact hs.outside (fun _ _ h => .inl h) rfl rfl rfl rfl rfl ht rfl

theorem drainsKept_move {s : State} {t : Nat} {choice : Choice} {σ : Shared} {pc : Pc}
    (hs : DrainsKept s) (hok : DrainsApart s (.act t choice))
    (hmove : Move s.shared (s.threads t) choice σ pc) : DrainsKept (s.advance t (σ, pc)) := by
  generalize hpc : s.threads t = here at hmove
  have ht : (s.threads t).notifies = here.notifies := by rw [hpc]
  have hsame : ∀ p, here.midDrain = some p → (s.threads t).midDrain = some p := by
    intro p h
    rw [hpc]
    exact h
  simp only [DrainsApart, hpc] at hok
  cases hmove with
  | quiet h =>
    obtain ⟨hmid, hnotifies, hwaits⟩ := h.outside
    exact hs.outside (fun _ _ h => .inl h) hmid rfl rfl rfl rfl (ht.trans hnotifies) hwaits
  | added r current descriptor hmodule hdescriptor hnew =>
    have hadded := addVersion_added r.inst hmodule hdescriptor hnew
    refine hs.outside (leavesDrained_of_others ?_ (hok _ hadded)) rfl rfl rfl rfl
      (RegistryCore.refCounts_installEntries ..) ht rfl
    exact fun other hne => RegistryCore.modules_installEntries_of_ne hne
  | committed r source hpath =>
    have hnobody := hok (.inr (discovering_publishing hpath))
    refine hs.outside (leavesDrained_of_others ?_ (.inr hnobody)) rfl rfl rfl rfl rfl ht rfl
    exact fun other hne => Function.update_of_ne hne ..
  | published r hfree =>
    have hnobody := hok (.inl hfree)
    refine hs.outside (leavesDrained_of_others ?_ (.inr hnobody)) rfl rfl rfl rfl rfl ht rfl
    exact fun other hne => Function.update_of_ne hne ..
  | removed name remover inst hmodule => exact hs.remove ht hok
  | cleared name inst remover => exact hs.forget ht hok (.inl rfl) rfl
  | forgotten name began clean => exact hs.forget ht hok (.inr (hsame _ rfl).symm) rfl
  | drainNow name inst hmodule hrefs =>
    refine hs.quiet (fun _ _ h => .inl h) ?_ rfl rfl rfl rfl ht rfl
    intro other began h
    cases h
    exact .inr hmodule
  | drainWait name inst hmodule hrefs => exact hs.wait ht hmodule hrefs (hok.resolve_left hrefs)
  | woken name note began hpermit => exact hs.wake hpc
  | timedOut name note began hpermit =>
    exact hs.quiet (fun _ _ h => .inl h) (fun _ _ h => .inl (hsame _ h)) rfl rfl rfl rfl ht rfl
  | undrained name began clean =>
    exact hs.quiet (fun _ _ h => .inl h) (fun _ _ h => .inl (hsame _ h)) rfl rfl rfl rfl ht rfl
  | notified name note hnote =>
    refine hs.notify hpc ?_
    intro other hpermit
    rw [Function.update_apply] at hpermit
    split_ifs at hpermit with heq
    refine ⟨hpermit, ?_⟩
    rw [hnote]
    intro hentry
    exact heq (Option.some.inj hentry).symm
  | noWaiter name hnote =>
    refine hs.notify hpc fun note hpermit => ⟨hpermit, ?_⟩
    rw [hnote]
    intro hentry
    cases hentry
  | _ => exact hs.outside (fun _ _ h => .inl h) rfl rfl rfl rfl rfl ht rfl

theorem drainsKept_step {s s' : State} {l : Label} (hs : DrainsKept s) (hok : DrainsApart s l)
    (hstep : step s l = some s') : DrainsKept s' := by
  obtain ⟨t, σ, pc, rfl, hmove⟩ := step_cases hstep
  rcases hmove with ⟨c, rfl, hresting, hbegin⟩ | ⟨choice, rfl, hmove⟩
  · exact drainsKept_begins hs hresting hbegin
  · exact drainsKept_move hs hok hmove

theorem drainsKept_start (core : RegistryCore) (nextInst : Nat) :
    DrainsKept (State.start core nextInst) where
  own _ _ _ _ h := by cases h
  fresh _ _ _ _ h := by cases h
  sole _ _ _ _ _ _ _ h := by cases h
  heard _ _ _ _ h := by cases h

theorem DrainsKept.ownDrain {s : State} (hs : DrainsKept s) : OwnDrain s where
  own t name began clean inst h hmodule := hs.own t name began inst (by rw [h]; rfl) hmodule
  woken t name note began h hrefs := by
    cases hpermit : s.shared.permits note with
    | true => exact .inl rfl
    | false =>
      obtain ⟨hevent, hcounted⟩ := hs.heard t name note began h hpermit
      exact .inr ⟨hevent, hcounted.resolve_left fun hmore => hmore hrefs⟩
  timely t name note began s' h hok hstep := by
    intro hrefs
    simp only [DrainsApart, h] at hok
    cases hpermit : s.shared.permits note with
    | true =>
      -- `timeout` looks for the permit first
      simp only [step, h, next, hpermit] at hstep
      cases hstep
    | false =>
      obtain ⟨-, hcounted⟩ := hs.heard t name note began h hpermit
      exact hcounted.elim (fun hmore => hmore hrefs) (hok hrefs)

/-- A drain of a registry removes its own instance only, and is woken once nothing is counted. -/
theorem own_drain_of_run (core : RegistryCore) (nextInst : Nat) (ls : List Label) (s : State)
    (hok : Transition.Along step DrainsApart (State.start core nextInst) ls)
    (hrun : Transition.exec step (State.start core nextInst) ls = some s) : OwnDrain s :=
  (Transition.exec_invariant_along (fun _ _ _ hs hl hstep => drainsKept_step hs hl hstep)
    (drainsKept_start core nextInst) hok hrun).ownDrain

/-- A drain waits for the release of the one reference. -/
def oneDrain : List Label :=
  [.call 0 (.acquire "m"), .call 1 (.safeUnregister "m"), .act 1 .go,
    .call 0 (.release "m" (some 0))]

theorem own_drain_of_release : ∃ s, Transition.exec step (State.start oneModule 1) oneDrain =
    some s ∧ s.threads 1 = .waiting "m" 0 0 ∧ s.shared.core.refs "m" = 0 ∧
      s.shared.drainEvents "m" = some 0 ∧ s.Notifies "m" := by
  obtain ⟨s, hrun, hwaiting, hrefs, hpermit⟩ : ∃ s,
      Transition.exec step (State.start oneModule 1) oneDrain = some s ∧
        s.threads 1 = .waiting "m" 0 0 ∧ s.shared.core.refs "m" = 0 ∧
        s.shared.permits 0 = false := ⟨_, rfl, rfl, rfl, rfl⟩
  refine ⟨s, hrun, hwaiting, hrefs, ?_⟩
  have hok : Transition.Along step DrainsApart (State.start oneModule 1) oneDrain := by
    refine Transition.along_cons trivial rfl (Transition.along_cons trivial rfl
      (Transition.along_cons (.inr ?_) rfl (Transition.along_cons trivial rfl trivial)))
    -- the two threads of the run are in no drain yet, the others never
    rintro ⟨t, note, began, hother, -⟩
    match t with
    | 0 => cases hother
    | 1 => cases hother
    | t + 2 => cases hother
  have hown := own_drain_of_run oneModule 1 oneDrain s hok hrun
  have hwoken := hown.woken 1 "m" 0 0 hwaiting hrefs
  rw [hpermit] at hwoken
  exact hwoken.resolve_left Bool.false_ne_true

/-- Of two drains that wait for one id only the later hears of the last release; and of two that
need not wait the later removes what was registered in between. -/
theorem overlapping_drains_interfere :
    (∃ s, Transition.exec step State.initial (registerSteps 0 "m" ++ [.call 0 (.acquire "m"),
      .call 1 (.safeUnregister "m"), .act 1 .go, .call 2 (.safeUnregister "m"), .act 2 .go,
      .call 0 (.release "m" (some 0)), .act 0 .go] ++ endOfDrain 1 .timedOut) = some s ∧
      s.threads 1 = .returned (.drained "m" (some 0) false) ∧
      .removed "m" 0 0 ∈ s.shared.log) ∧
    ∃ s, Transition.exec step State.initial (registerSteps 0 "m" ++
      [.call 1 (.safeUnregister "m"), .act 1 .go, .call 2 (.safeUnregister "m"), .act 2 .go,
      .act 1 .go, .act 1 .go, .act 1 .go] ++ registerSteps 0 "m" ++ [.act 2 .go]) = some s ∧
      s.threads 2 = .clearing "m" 1 (.drain 0 true) ∧ .removed "m" 1 0 ∈ s.shared.log :=
  ⟨⟨_, rfl, rfl, List.mem_cons_of_mem _ List.mem_cons_self⟩, _, rfl, rfl, List.mem_cons_self⟩

end Registry

end Apcore
