import Apcore.Registry.Lifecycle
import Apcore.Registry.Moves

/-! # `Registry.Custody` — who handles which module object

An object that is on its way into the maps or out of them is handled by one thread, which knows its
stage; an object in the maps is registered. So no two threads ever call the hooks of one object, and
the log of every run is legal for every object. -/

namespace Apcore

/-- The object is in the maps under the id, as what is looked up or as one of the versions. -/
def RegistryCore.Live (core : RegistryCore) (name : String) (inst : Instance) : Prop :=
  core.modules name = some inst ∨
    ∃ entries, core.versions name = some entries ∧ ∃ entry ∈ entries, entry.module = inst

namespace RegistryCore

variable {core : RegistryCore} {name other : String} {inst current : Instance}
  {descriptor : RegisteredDescriptor}

theorem live_insertModule {new : Instance}
    (h : (core.insertModule name new descriptor).Live other inst) :
    core.Live other inst ∨ name = other ∧ new = inst := by
  rcases h with h | hversions
  · have h' : Function.update core.modules name (some new) other = some inst := h
    rw [Function.update_apply] at h'
    split_ifs at h' with heq
    · exact .inr ⟨heq.symm, Option.some.inj h'⟩
    · exact .inl (.inl h')
  · exact .inl (.inr hversions)

theorem live_commitDiscovered {new : Instance} {source : String}
    (h : (core.commitDiscovered name new descriptor source).Live other inst) :
    core.Live other inst ∨ name = other ∧ new = inst :=
  @live_insertModule core name other inst descriptor new h

/-- The entries of an id, new or not, hold what is live. -/
theorem live_of_entriesOf (hmodule : core.modules name = some current) {entry : VersionEntry}
    (h : entry ∈ core.entriesOf name current descriptor) : core.Live name entry.module := by
  unfold entriesOf at h
  cases hversions : core.versions name with
  | none =>
    rw [hversions] at h
    rw [List.mem_singleton.mp h]
    exact .inl hmodule
  | some entries =>
    rw [hversions] at h
    exact .inr ⟨entries, hversions, entry, h, rfl⟩

theorem live_newEntries (hmodule : core.modules name = some current)
    (h : Live { core with
      versions := Function.update core.versions name
        (some (core.entriesOf name current descriptor)) } other inst) : core.Live other inst := by
  rcases h with h | ⟨entries, hentries, entry, hentry, rfl⟩
  · exact .inl h
  · simp only [Function.update_apply] at hentries
    split_ifs at hentries with heq
    · rw [heq]
      rw [← Option.some.inj hentries] at hentry
      exact live_of_entriesOf hmodule hentry
    · exact .inr ⟨entries, hentries, entry, hentry, rfl⟩

theorem live_installEntries {entries : List VersionEntry} (hentries : entries ≠ [])
    (h : (core.installEntries name entries).Live other inst) :
    core.Live other inst ∨ name = other ∧ ∃ entry ∈ entries, entry.module = inst := by
  obtain ⟨latest, hlatest⟩ := exists_latestVersion hentries
  rw [installEntries_eq hlatest] at h
  rcases h with h | ⟨others, hothers, entry, hentry, rfl⟩
  · simp only [Function.update_apply] at h
    split_ifs at h with heq
    · refine .inr ⟨heq.symm, latest, (isLatest_of_latestVersion hlatest).1, ?_⟩
      exact Option.some.inj h
    · exact .inl (.inl h)
  · simp only [Function.update_apply] at hothers
    split_ifs at hothers with heq
    · rw [← Option.some.inj hothers] at hentry
      exact .inr ⟨heq.symm, entry, hentry, rfl⟩
    · exact .inl (.inr ⟨others, hothers, entry, hentry, rfl⟩)

end RegistryCore

namespace Registry

/-! ## Threads and the objects they handle -/

/-- The object that a thread handles, or whose registration it reports to have failed. -/
def Pc.handles : Pc → Option Instance
  | .choosing r _ | .versionCheck r | .versionLoading r | .versionPush r | .conflicts r
  | .reserving r | .loading r | .publishing r | .releasing r false | .loadFailed r _ => some r.inst
  | .clearing _ inst _ | .unloading _ inst _ => some inst
  | .returned answer => answer.failed
  | _ => none

/-- The stage that the object is at. -/
def Pc.Expects : Pc → Stage → Prop
  | .choosing _ _ | .versionCheck _ | .versionLoading _ | .conflicts _ | .reserving _
  | .loading _ => (· = .fresh)
  | .versionPush _ | .publishing _ => (· = .loaded)
  | .releasing _ _ => (· = .refused)
  | .loadFailed _ _ => (· = .failed)
  | .clearing _ _ _ | .unloading _ _ _ => (· = .removed)
  | .returned _ => Stage.Ended
  | _ => fun _ => False

/-- The registration that a thread has made. -/
def Pc.reports : Pc → Option (String × Instance)
  | .releasing r true => some (r.name, r.inst)
  | .returned answer => answer.succeeded
  | _ => none

/-- The object whose `on_unload` a thread has to call. -/
def Pc.unloads : Pc → Option Instance
  | .clearing _ inst _ | .unloading _ inst _ => some inst
  | _ => none

theorem Pc.handles_of_unloads {pc : Pc} {inst : Instance} (h : pc.unloads = some inst) :
    pc.handles = some inst := by
  cases pc <;> first | exact h | cases h

theorem Pc.unloads_of_resting {pc : Pc} (h : pc.resting = true) : pc.unloads = none := by
  cases pc <;> first | rfl | cases h

/-- The event is a step in the life of the object that the thread handles, and leaves the object at
the stage that the thread expects afterwards. -/
def Pc.MovesOn (pc pc' : Pc) (event : Event) : Prop :=
  ∀ st, pc.Expects st → ∃ st', st.next event = some st' ∧ st ≠ .registered ∧ st' ≠ .removed ∧
    (pc'.handles = some event.inst → pc'.Expects st')

/-- From a point at which one stage only is expected. -/
theorem Pc.movesOn_of {pc pc' : Pc} {event : Event} (st st' : Stage)
    (hst : ∀ st₁, pc.Expects st₁ → st₁ = st) (hnext : st.next event = some st')
    (hends : st ≠ .registered ∧ st' ≠ .removed)
    (hexpects : pc'.handles = some event.inst → pc'.Expects st') : pc.MovesOn pc' event := by
  intro st₁ h
  obtain rfl : st₁ = st := hst st₁ h
  exact ⟨st', hnext, hends.1, hends.2, hexpects⟩

/-- A quiet move without an event: the object is handled on. -/
theorem Quiet.silent {σ : Shared} {pc pc' : Pc} {inFlight : String → Bool}
    (h : Quiet σ pc none inFlight pc') :
    (∀ inst, pc'.handles = some inst → pc.handles = some inst ∧
      ∀ st, pc.Expects st → pc'.Expects st) ∧
    (∀ p, pc'.reports = some p → pc.reports = some p) ∧ pc.unloads = none := by
  cases h with
  | chooseVersion r explicit => exact ⟨fun _ h => ⟨h, fun _ h => h⟩, fun _ h => h, rfl⟩
  | chooseRegister r explicit => exact ⟨fun _ h => ⟨h, fun _ h => h⟩, fun _ h => h, rfl⟩
  | versionPassed r hvalid => exact ⟨fun _ h => ⟨h, fun _ h => h⟩, fun _ h => h, rfl⟩
  | passed r hvalid => exact ⟨fun _ h => ⟨h, fun _ h => h⟩, fun _ h => h, rfl⟩
  | reserved r => exact ⟨fun _ h => ⟨h, fun _ h => h⟩, fun _ h => h, rfl⟩
  | released r published =>
    cases published with
    | true =>
      refine ⟨fun inst h => ?_, fun p h => ?_, rfl⟩
      · change (r.answer (.ok ())).failed = some inst at h
        rw [r.failed_answer_ok] at h
        cases h
      · change (r.answer (.ok ())).succeeded = some p at h
        rw [r.succeeded_answer_ok] at h
        exact h
    | false =>
      refine ⟨fun inst h => ⟨?_, fun st hst => ?_⟩, fun p h => ?_, rfl⟩
      · change (r.answer (.error _)).failed = some inst at h
        rw [r.failed_answer_error] at h
        exact h
      · obtain rfl : st = .refused := hst
        trivial
      · change (r.answer (.error _)).succeeded = some p at h
        rw [r.succeeded_answer_error] at h
        cases h
  | rolledBack r e =>
    refine ⟨fun inst h => ⟨?_, fun st hst => ?_⟩, fun p h => ?_, rfl⟩
    · change (r.answer (.error e)).failed = some inst at h
      rw [r.failed_answer_error] at h
      exact h
    · obtain rfl : st = .failed := hst
      trivial
    · change (r.answer (.error e)).succeeded = some p at h
      rw [r.succeeded_answer_error] at h
      cases h

/-- A quiet move with an event: the event is a step in the life of the object that is handled. -/
theorem Quiet.event {σ : Shared} {pc pc' : Pc} {event : Event} {inFlight : String → Bool}
    (h : Quiet σ pc (some event) inFlight pc') :
    pc.handles = some event.inst ∧ pc.MovesOn pc' event ∧
    (pc'.handles = none ∨ pc'.handles = some event.inst) ∧ pc'.reports = none := by
  cases h with
  | versionRejected r answer hanswer =>
    exact ⟨rfl, Pc.movesOn_of .fresh .rejected (fun _ h => h) rfl (by decide) fun _ => trivial,
      .inr hanswer.1, hanswer.2⟩
  | rejected r answer hanswer =>
    exact ⟨rfl, Pc.movesOn_of .fresh .rejected (fun _ h => h) rfl (by decide) fun _ => trivial,
      .inr hanswer.1, hanswer.2⟩
  | reservedAlready r =>
    exact ⟨rfl, Pc.movesOn_of .fresh .rejected (fun _ h => h) rfl (by decide) fun _ => trivial,
      .inr (r.failed_answer_error _), r.succeeded_answer_error _⟩
  | versionLoaded r =>
    exact ⟨rfl, Pc.movesOn_of .fresh .loaded (fun _ h => h) rfl (by decide) fun _ => rfl,
      .inr rfl, rfl⟩
  | loaded r =>
    exact ⟨rfl, Pc.movesOn_of .fresh .loaded (fun _ h => h) rfl (by decide) fun _ => rfl,
      .inr rfl, rfl⟩
  | versionFailed r e =>
    exact ⟨rfl, Pc.movesOn_of .fresh .failed (fun _ h => h) rfl (by decide) fun _ => trivial,
      .inr (r.failed_answer_error e), r.succeeded_answer_error e⟩
  | failed r e =>
    exact ⟨rfl, Pc.movesOn_of .fresh .failed (fun _ h => h) rfl (by decide) fun _ => rfl,
      .inr rfl, rfl⟩
  | versionPanicked r =>
    refine ⟨rfl, Pc.movesOn_of .fresh .failed (fun _ h => h) rfl (by decide) ?_, .inl rfl, rfl⟩
    intro h
    cases h
  | panicked r =>
    refine ⟨rfl, Pc.movesOn_of .fresh .failed (fun _ h => h) rfl (by decide) ?_, .inl rfl, rfl⟩
    intro h
    cases h
  | fellBack r =>
    exact ⟨rfl, Pc.movesOn_of .loaded .fresh (fun _ h => h) rfl (by decide) fun _ => rfl,
      .inr rfl, rfl⟩
  | refused r =>
    exact ⟨rfl, Pc.movesOn_of .loaded .refused (fun _ h => h) rfl (by decide) fun _ => rfl,
      .inr rfl, rfl⟩

/-- What the threads and the maps say about the objects is so. -/
structure Custody (s : State) : Prop where
  hands : ∀ t inst, (s.threads t).handles = some inst → inst < s.shared.nextInst ∧
    ∃ st, stage inst s.shared.log = some st ∧ (s.threads t).Expects st
  distinct : ∀ t t' inst, (s.threads t).handles = some inst →
    (s.threads t').handles = some inst → t = t'
  live : ∀ name inst, s.shared.core.Live name inst →
    stage inst s.shared.log = some .registered ∧ Introduced s.shared.log name inst
  fresh : ∀ inst, s.shared.nextInst ≤ inst → stage inst s.shared.log = some .fresh
  legal : ∀ inst, ∃ st, stage inst s.shared.log = some st
  held : ∀ name inst, (name, inst) ∈ s.shared.held → Introduced s.shared.log name inst
  reports : ∀ t name inst, (s.threads t).reports = some (name, inst) →
    Introduced s.shared.log name inst
  unloading : ∀ inst, stage inst s.shared.log = some .removed →
    ∃ t, (s.threads t).unloads = some inst

theorem custody_initial : Custody State.initial where
  hands _ _ h := by cases h
  distinct _ _ _ h := by cases h
  live name inst h := by
    rcases h with h | ⟨entries, h, -⟩
    · cases h
    · cases h
  fresh _ _ := rfl
  legal _ := ⟨_, rfl⟩
  held _ _ h := by cases h
  reports _ _ _ h := by cases h
  unloading _ h := by cases h

section Steps

variable {s : State} (hs : Custody s)
include hs

/-- An object that is handled by nobody's thread but one. -/
theorem Custody.ne_of_ne {t t' : Nat} {inst inst' : Instance} (hne : t ≠ t')
    (h : (s.threads t).handles = some inst) (h' : (s.threads t').handles = some inst') :
    inst ≠ inst' := by
  rintro rfl
  exact hne (hs.distinct t t' inst h h')

/-- A step without an event: the thread keeps what it handles, or lets go of it. -/
theorem Custody.silent {t : Nat} {σ : Shared} {pc : Pc} (hlog : σ.log = s.shared.log)
    (hnext : σ.nextInst = s.shared.nextInst)
    (hlive : ∀ name inst, σ.core.Live name inst → s.shared.core.Live name inst)
    (hheld : ∀ name inst, (name, inst) ∈ σ.held →
      (name, inst) ∈ s.shared.held ∨ s.shared.core.Live name inst)
    (hhandles : ∀ inst, pc.handles = some inst → (s.threads t).handles = some inst ∧
      ∀ st, (s.threads t).Expects st → pc.Expects st)
    (hreports : ∀ p, pc.reports = some p → (s.threads t).reports = some p)
    (hunloads : ∀ inst, (s.threads t).unloads = some inst → pc.unloads = some inst) :
    Custody (s.advance t (σ, pc)) := by
  have hkept : ∀ t' inst, ((s.advance t (σ, pc)).threads t').handles = some inst →
      (s.threads t').handles = some inst := by
    intro t' inst h
    rw [advance_threads] at h
    split_ifs at h with heq
    · rw [heq]
      exact (hhandles inst h).1
    · exact h
  -- the log is the same, so every stage is; only the threads have to be gone through
  constructor
  case hands =>
    intro t' inst h
    have hold := hs.hands t' inst (hkept t' inst h)
    rw [advance_threads] at h ⊢
    rw [advance_shared, hnext, hlog]
    refine ⟨hold.1, ?_⟩
    obtain ⟨st, hst, hexpects⟩ := hold.2
    split_ifs at h ⊢ with heq
    · rw [heq] at hexpects
      exact ⟨st, hst, (hhandles inst h).2 st hexpects⟩
    · exact ⟨st, hst, hexpects⟩
  case distinct =>
    exact fun t' t'' inst h h' => hs.distinct t' t'' inst (hkept t' inst h) (hkept t'' inst h')
  case live =>
    intro name inst h
    rw [advance_shared, hlog]
    exact hs.live name inst (hlive name inst h)
  case fresh =>
    intro inst h
    rw [advance_shared] at h ⊢
    rw [hnext] at h
    rw [hlog]
    exact hs.fresh inst h
  case legal =>
    intro inst
    rw [advance_shared, hlog]
    exact hs.legal inst
  case held =>
    intro name inst h
    rw [advance_shared, hlog]
    rcases hheld name inst h with hold | hnew
    · exact hs.held name inst hold
    · exact (hs.live name inst hnew).2
  case reports =>
    intro t' name inst h
    rw [advance_shared, hlog]
    rw [advance_threads] at h
    split_ifs at h
    · exact hs.reports t name inst (hreports _ h)
    · exact hs.reports t' name inst h
  case unloading =>
    intro inst h
    rw [advance_shared, hlog] at h
    obtain ⟨t', ht'⟩ := hs.unloading inst h
    refine ⟨t', ?_⟩
    rw [advance_threads]
    split_ifs with heq
    · rw [heq] at ht'
      exact hunloads inst ht'
    · exact ht'

/-- A step with an event about the object that the thread handles. Where the event puts it into the
maps, it may be there and be reported. -/
theorem Custody.handle {t : Nat} {σ : Shared} {pc : Pc} {event : Event}
    (hlog : σ.log = event :: s.shared.log) (hnext : σ.nextInst = s.shared.nextInst)
    (hhandles : (s.threads t).handles = some event.inst)
    (hexpects : (s.threads t).MovesOn pc event)
    (hkept : pc.handles = none ∨ pc.handles = some event.inst)
    (hlive : ∀ name inst, σ.core.Live name inst → s.shared.core.Live name inst ∨
      event = .published name inst ∨ event = .versioned name inst)
    (hheld : σ.held = s.shared.held)
    (hreports : ∀ name inst, pc.reports = some (name, inst) →
      event = .published name inst ∨ event = .versioned name inst) :
    Custody (s.advance t (σ, pc)) := by
  obtain ⟨hbound, st, hst, hexpected⟩ := hs.hands t event.inst hhandles
  obtain ⟨st', hst', hnotreg, hnotrem, hpc⟩ := hexpects st hexpected
  -- one object moves on, and it is nobody else's
  have hself : stage event.inst σ.log = some st' := by
    rw [hlog, stage_cons_self rfl hst, hst']
  have hother : ∀ inst, inst ≠ event.inst → stage inst σ.log = stage inst s.shared.log := by
    intro inst hne
    rw [hlog, stage_cons_other hne.symm]
  have hintroduced : ∀ name inst, Introduced s.shared.log name inst →
      Introduced σ.log name inst := by
    intro name inst h
    rw [hlog, introduced_cons]
    exact .inr h
  have hnew : ∀ name inst, event = .published name inst ∨ event = .versioned name inst →
      Introduced σ.log name inst := by
    intro name inst h
    rw [hlog, introduced_cons]
    exact .inl h
  constructor
  case hands =>
    intro t' inst h
    rw [advance_threads] at h ⊢
    rw [advance_shared, hnext]
    split_ifs at h ⊢ with heq
    · obtain rfl : inst = event.inst := by
        rcases hkept with hnone | hsome
        · rw [hnone] at h
          cases h
        · exact Option.some.inj (h.symm.trans hsome)
      exact ⟨hbound, st', hself, hpc h⟩
    · have hold := hs.hands t' inst h
      rw [hother inst (hs.ne_of_ne heq h hhandles)]
      exact hold
  case distinct =>
    intro t' t'' inst h h'
    rw [advance_threads] at h h'
    have hmine : pc.handles = some inst → (s.threads t).handles = some inst := by
      intro hpc
      rcases hkept with hnone | hsome
      · rw [hnone] at hpc
        cases hpc
      · rw [hhandles, ← hsome, hpc]
    split_ifs at h h' with heq heq' heq'
    · rw [heq, heq']
    · rw [heq]
      exact hs.distinct t t'' inst (hmine h) h'
    · rw [heq']
      exact hs.distinct t' t inst h (hmine h')
    · exact hs.distinct t' t'' inst h h'
  case live =>
    intro name inst h
    rw [advance_shared] at h ⊢
    rcases hlive name inst h with hold | hevent
    · -- what is registered already is not on its way, so the event is not about it
      obtain ⟨hreg, hin⟩ := hs.live name inst hold
      have hne : inst ≠ event.inst := by
        rintro rfl
        rw [hreg] at hst
        exact hnotreg (Option.some.inj hst).symm
      rw [hother inst hne]
      exact ⟨hreg, hintroduced name inst hin⟩
    · -- an event that puts the object into the maps makes it registered
      have hinst : event.inst = inst := by rcases hevent with rfl | rfl <;> rfl
      have hreg : st' = .registered := by
        rcases hevent with rfl | rfl <;> cases st <;> cases hst' <;> rfl
      rw [← hinst, hself, hreg, hinst]
      exact ⟨rfl, hnew name inst hevent⟩
  case fresh =>
    intro inst h
    rw [advance_shared, hnext] at h
    rw [advance_shared, hother inst (Nat.ne_of_gt (lt_of_lt_of_le hbound h))]
    exact hs.fresh inst h
  case legal =>
    intro inst
    rw [advance_shared]
    by_cases heq : inst = event.inst
    · rw [heq]
      exact ⟨st', hself⟩
    · rw [hother inst heq]
      exact hs.legal inst
  case held =>
    intro name inst h
    rw [advance_shared, hheld] at h
    exact hintroduced name inst (hs.held name inst h)
  case reports =>
    intro t' name inst h
    rw [advance_shared]
    rw [advance_threads] at h
    split_ifs at h
    · exact hnew name inst (hreports name inst h)
    · exact hintroduced name inst (hs.reports t' name inst h)
  case unloading =>
    intro inst h
    rw [advance_shared] at h
    have hne : inst ≠ event.inst := by
      rintro rfl
      rw [hself] at h
      exact hnotrem (Option.some.inj h)
    rw [hother inst hne] at h
    obtain ⟨t', ht'⟩ := hs.unloading inst h
    refine ⟨t', ?_⟩
    rw [advance_threads, if_neg]
    · exact ht'
    · rintro rfl
      exact hne (Option.some.inj ((Pc.handles_of_unloads ht').symm.trans hhandles))

/-- A registration arrives, with an object that nobody has seen. -/
theorem Custody.arrive {t : Nat} {pc : Pc} (hhandles : pc.handles = some s.shared.nextInst)
    (hexpects : pc.Expects .fresh) (hreports : pc.reports = none)
    (hresting : (s.threads t).unloads = none) :
    Custody (s.advance t (s.shared.arrive, pc)) := by
  -- the numbers that are handed out are below the next one
  have hseen : ∀ t' inst, (s.threads t').handles = some inst → inst ≠ s.shared.nextInst :=
    fun t' inst h => Nat.ne_of_lt (hs.hands t' inst h).1
  constructor
  case hands =>
    intro t' inst h
    rw [advance_threads] at h ⊢
    rw [advance_shared]
    split_ifs at h ⊢
    · obtain rfl : s.shared.nextInst = inst := Option.some.inj (hhandles.symm.trans h)
      exact ⟨Nat.lt_succ_self _, .fresh, hs.fresh _ le_rfl, hexpects⟩
    · obtain ⟨hbound, hstage⟩ := hs.hands t' inst h
      exact ⟨Nat.lt_succ_of_lt hbound, hstage⟩
  case distinct =>
    intro t' t'' inst h h'
    rw [advance_threads] at h h'
    split_ifs at h h' with heq heq' heq'
    · rw [heq, heq']
    · exact absurd (Option.some.inj (h.symm.trans hhandles)) (hseen t'' inst h')
    · exact absurd (Option.some.inj (h'.symm.trans hhandles)) (hseen t' inst h)
    · exact hs.distinct t' t'' inst h h'
  case live => exact hs.live
  case fresh => exact fun inst h => hs.fresh inst (Nat.le_of_succ_le h)
  case legal => exact hs.legal
  case held => exact hs.held
  case reports =>
    intro t' name inst h
    rw [advance_threads] at h
    split_ifs at h
    · rw [hreports] at h
      cases h
    · exact hs.reports t' name inst h
  case unloading =>
    intro inst h
    obtain ⟨t', ht'⟩ := hs.unloading inst h
    refine ⟨t', ?_⟩
    rw [advance_threads, if_neg]
    · exact ht'
    · rintro rfl
      rw [hresting] at ht'
      cases ht'

/-- What is looked up under an id is unregistered, and a thread has to unload it. -/
theorem Custody.remove {t : Nat} {name : String} {inst : Instance} {remover : Remover} {k : Nat}
    (hmodule : s.shared.core.modules name = some inst)
    (hhandles : (s.threads t).handles = none) :
    Custody (s.advance t ({ s.shared with
      core := s.shared.core.removeModule name
      log := .removed name inst k :: s.shared.log }, .clearing name inst remover)) := by
  obtain ⟨hreg, hin⟩ := hs.live name inst (.inl hmodule)
  have hself : stage inst (.removed name inst k :: s.shared.log) = some .removed := by
    have hinst : (Event.removed name inst k).inst = inst := rfl
    rw [stage_cons_self hinst hreg]
    rfl
  have hother : ∀ inst', inst' ≠ inst →
      stage inst' (.removed name inst k :: s.shared.log) = stage inst' s.shared.log :=
    fun inst' hne => stage_cons_other (Ne.symm hne)
  have hintroduced : ∀ name' inst', Introduced s.shared.log name' inst' →
      Introduced (.removed name inst k :: s.shared.log) name' inst' :=
    fun name' inst' h => introduced_cons.mpr (.inr h)
  -- nobody handles what is registered
  have hfree : ∀ t' inst', (s.threads t').handles = some inst' → inst' ≠ inst := by
    rintro t' inst' h rfl
    obtain ⟨-, st, hst, hexpects⟩ := hs.hands t' inst' h
    obtain rfl : Stage.registered = st := Option.some.inj (hreg.symm.trans hst)
    revert hexpects
    cases s.threads t' <;> simp [Pc.Expects, Stage.Ended]
  constructor
  case hands =>
    intro t' inst' h
    rw [advance_threads] at h ⊢
    rw [advance_shared]
    split_ifs at h ⊢
    · obtain rfl : inst = inst' := Option.some.inj h
      refine ⟨?_, .removed, hself, rfl⟩
      by_contra hge
      have hfresh := hs.fresh inst (Nat.le_of_not_lt hge)
      rw [hreg] at hfresh
      cases hfresh
    · obtain ⟨hbound, st, hst, hexpects⟩ := hs.hands t' inst' h
      refine ⟨hbound, st, ?_, hexpects⟩
      rw [hother inst' (hfree t' inst' h)]
      exact hst
  case distinct =>
    intro t' t'' inst' h h'
    rw [advance_threads] at h h'
    split_ifs at h h' with heq heq' heq'
    · rw [heq, heq']
    · exact absurd (Option.some.inj h).symm (hfree t'' inst' h')
    · exact absurd (Option.some.inj h').symm (hfree t' inst' h)
    · exact hs.distinct t' t'' inst' h h'
  case live =>
    intro name' inst' h
    obtain ⟨hne, hlive⟩ : name' ≠ name ∧ s.shared.core.Live name' inst' := by
      rcases h with h | ⟨entries, h, hentry⟩
      · have h' : Function.update s.shared.core.modules name none name' = some inst' := h
        rw [Function.update_apply] at h'
        split_ifs at h' with heq
        exact ⟨heq, .inl h'⟩
      · have h' : Function.update s.shared.core.versions name none name' = some entries := h
        rw [Function.update_apply] at h'
        split_ifs at h' with heq
        exact ⟨heq, .inr ⟨entries, h', hentry⟩⟩
    obtain ⟨hreg', hin'⟩ := hs.live name' inst' hlive
    -- an object is under one id only, so nothing of it is left under another
    have hinst : inst' ≠ inst := by
      rintro rfl
      exact hne (introduced_unique hreg hin' hin)
    refine ⟨?_, hintroduced name' inst' hin'⟩
    rw [advance_shared, hother inst' hinst]
    exact hreg'
  case fresh =>
    intro inst' h
    have hfresh := hs.fresh inst' h
    rw [advance_shared, hother inst' ?_]
    · exact hfresh
    · rintro rfl
      rw [hreg] at hfresh
      cases hfresh
  case legal =>
    intro inst'
    rw [advance_shared]
    by_cases heq : inst' = inst
    · rw [heq]
      exact ⟨_, hself⟩
    · rw [hother inst' heq]
      exact hs.legal inst'
  case held => exact fun name' inst' h => hintroduced name' inst' (hs.held name' inst' h)
  case reports =>
    intro t' name' inst' h
    rw [advance_threads] at h
    split_ifs at h
    · cases h
    · exact hintroduced name' inst' (hs.reports t' name' inst' h)
  case unloading =>
    intro inst' h
    by_cases heq : inst' = inst
    · refine ⟨t, ?_⟩
      rw [advance_threads, if_pos rfl, heq]
      rfl
    · rw [advance_shared, hother inst' heq] at h
      obtain ⟨t', ht'⟩ := hs.unloading inst' h
      refine ⟨t', ?_⟩
      rw [advance_threads, if_neg]
      · exact ht'
      · rintro rfl
        rw [Pc.handles_of_unloads ht'] at hhandles
        cases hhandles

/-- A quiet move of a registration, with an event or without. -/
theorem Custody.quiet {t : Nat} {pc' : Pc} {event : Option Event} {inFlight : String → Bool}
    (h : Quiet s.shared (s.threads t) event inFlight pc') :
    Custody (s.advance t
      ({ s.shared with inFlight, log := event.toList ++ s.shared.log }, pc')) := by
  cases event with
  | none =>
    obtain ⟨hhandles, hreports, hunloads⟩ := h.silent
    refine hs.silent rfl rfl (fun _ _ hl => hl) (fun _ _ hh => .inl hh) hhandles hreports ?_
    intro inst hinst
    rw [hunloads] at hinst
    cases hinst
  | some event =>
    obtain ⟨hhandles, hexpects, hkept, hreports⟩ := h.event
    refine hs.handle rfl rfl hhandles hexpects hkept (fun _ _ hl => .inl hl) rfl ?_
    intro name inst hreport
    rw [hreports] at hreport
    cases hreport

end Steps

theorem custody_step {s s' : State} {l : Label} (hs : Custody s) (hstep : step s l = some s') :
    Custody s' := by
  obtain ⟨t, σ, pc, rfl, hmove⟩ := step_cases hstep
  have hkeep : ∀ name inst, s.shared.core.Live name inst → s.shared.core.Live name inst :=
    fun _ _ h => h
  rcases hmove with ⟨c, rfl, hresting, hbegin⟩ | ⟨choice, rfl, hmove⟩
  · have hrest : ∀ inst, (s.threads t).unloads = some inst → pc.unloads = some inst := by
      intro inst h
      rw [Pc.unloads_of_resting hresting] at h
      cases h
    cases hbegin with
    | choosing c r explicit hcall hinst =>
      refine hs.arrive (congrArg some hinst) rfl rfl ?_
      exact Option.eq_none_iff_forall_ne_some.mpr fun inst h => (by cases hrest inst h)
    | registering c r hcall hinst =>
      refine hs.arrive (congrArg some hinst) rfl rfl ?_
      exact Option.eq_none_iff_forall_ne_some.mpr fun inst h => (by cases hrest inst h)
    | unregister name =>
      exact hs.silent rfl rfl hkeep (fun _ _ h => .inl h) (fun _ h => (by cases h))
        (fun _ h => (by cases h)) hrest
    | safeUnregister name =>
      exact hs.silent rfl rfl hkeep (fun _ _ h => .inl h) (fun _ h => (by cases h))
        (fun _ h => (by cases h)) hrest
    | acquireFailed name e =>
      exact hs.silent rfl rfl hkeep (fun _ _ h => .inl h) (fun _ h => (by cases h))
        (fun _ h => (by cases h)) hrest
    | acquired name inst hdraining hmodule =>
      refine hs.silent rfl rfl (fun _ _ h => h) ?_ (fun _ h => (by cases h))
        (fun _ h => (by cases h)) hrest
      intro name' inst' h
      rcases List.mem_cons.mp h with heq | hold
      · cases heq
        exact .inr (.inl hmodule)
      · exact .inl hold
    | releasedNone name reference hheld hcount =>
      exact hs.silent rfl rfl (fun _ _ h => h) (fun _ _ h => .inl (mem_of_giveBack h))
        (fun _ h => (by cases h)) (fun _ h => (by cases h)) hrest
    | releasedLast name reference count hheld hcount hlast =>
      exact hs.silent rfl rfl (fun _ _ h => h) (fun _ _ h => .inl (mem_of_giveBack h))
        (fun _ h => (by cases h)) (fun _ h => (by cases h)) hrest
    | releasedOne name reference count hheld hcount hmore =>
      exact hs.silent rfl rfl (fun _ _ h => h) (fun _ _ h => .inl (mem_of_giveBack h))
        (fun _ h => (by cases h)) (fun _ h => (by cases h)) hrest
    | toggleFailed name enabled e =>
      exact hs.silent rfl rfl hkeep (fun _ _ h => .inl h) (fun _ h => (by cases h))
        (fun _ h => (by cases h)) hrest
    | toggled name enabled descriptor hdescriptor =>
      exact hs.silent rfl rfl (fun _ _ h => h) (fun _ _ h => .inl h) (fun _ h => (by cases h))
        (fun _ h => (by cases h)) hrest
  · generalize hpc : s.threads t = here at hmove
    cases hmove with
    | quiet h =>
      rw [← hpc] at h
      exact hs.quiet h
    | duplicate r current descriptor hmodule hdescriptor =>
      refine hs.handle rfl rfl (by rw [hpc]; rfl) ?_ (.inr (r.failed_answer_error _))
        (fun _ _ h => .inl (RegistryCore.live_newEntries hmodule h)) rfl ?_
      · rw [hpc]
        exact Pc.movesOn_of .loaded .refused (fun _ h => h) rfl (by decide) fun _ => trivial
      · intro name inst h
        change (r.answer (.error _)).succeeded = some (name, inst) at h
        rw [r.succeeded_answer_error] at h
        cases h
    | added r current descriptor hmodule hdescriptor hnew =>
      refine hs.handle rfl rfl (by rw [hpc]; rfl) ?_ (.inl r.failed_answer_ok) ?_ rfl ?_
      · rw [hpc]
        refine Pc.movesOn_of .loaded .registered (fun _ h => h) rfl (by decide) fun h => ?_
        change (r.answer (.ok ())).failed = _ at h
        rw [r.failed_answer_ok] at h
        cases h
      · intro name inst h
        rcases RegistryCore.live_installEntries (by simp) h with hold | ⟨rfl, entry, hentry, rfl⟩
        · exact .inl hold
        · rcases List.mem_append.mp hentry with hold | hnew
          · exact .inl (RegistryCore.live_of_entriesOf hmodule hold)
          · rw [List.mem_singleton.mp hnew]
            exact .inr (.inr rfl)
      · intro name inst h
        change (r.answer (.ok ())).succeeded = some (name, inst) at h
        rw [r.succeeded_answer_ok] at h
        cases h
        exact .inr rfl
    | committed r source hpath =>
      refine hs.handle rfl rfl (by rw [hpc]; rfl) ?_ (.inl rfl) ?_ rfl ?_
      · rw [hpc]
        refine Pc.movesOn_of .loaded .registered (fun _ h => h) rfl (by decide) fun h => ?_
        cases h
      · intro name inst h
        rcases RegistryCore.live_commitDiscovered h with hold | ⟨rfl, rfl⟩
        · exact .inl hold
        · exact .inr (.inl rfl)
      · intro name inst h
        cases h
        exact .inl rfl
    | published r hfree =>
      refine hs.handle rfl rfl (by rw [hpc]; rfl) ?_ (.inl rfl) ?_ rfl ?_
      · rw [hpc]
        refine Pc.movesOn_of .loaded .registered (fun _ h => h) rfl (by decide) fun h => ?_
        cases h
      · intro name inst h
        rcases RegistryCore.live_insertModule h with hold | ⟨rfl, rfl⟩
        · exact .inl hold
        · exact .inr (.inl rfl)
      · intro name inst h
        cases h
        exact .inl rfl
    | removed name remover inst hmodule => exact hs.remove hmodule (by rw [hpc]; rfl)
    | unloaded name inst remover =>
      refine hs.handle rfl rfl (by rw [hpc]; rfl) ?_ (.inl ?_) (fun _ _ h => .inl h) rfl ?_
      · rw [hpc]
        refine Pc.movesOn_of .removed .unloaded (fun _ h => h) rfl (by decide) fun h => ?_
        cases remover <;> cases h
      · cases remover <;> rfl
      · intro name inst h
        cases remover <;> cases h
    | unloadPanicked name inst remover =>
      refine hs.handle rfl rfl (by rw [hpc]; rfl) ?_ (.inl rfl) (fun _ _ h => .inl h) rfl ?_
      · rw [hpc]
        refine Pc.movesOn_of .removed .unloaded (fun _ h => h) rfl (by decide) fun h => ?_
        cases h
      · intro name inst h
        cases h
    | cleared name inst remover =>
      refine hs.silent rfl rfl (fun _ _ h => h) (fun _ _ h => .inl h) ?_ (fun _ h => (by cases h)) ?_
      · intro inst' h
        rw [hpc]
        exact ⟨h, fun st hst => hst⟩
      · intro inst' h
        rw [hpc] at h
        exact h
    | notFound name remover hfree =>
      refine hs.silent rfl rfl hkeep (fun _ _ h => .inl h) ?_ ?_ ?_
      · intro inst h
        cases remover <;> cases h
      · intro p h
        cases remover <;> cases h
      · intro inst h
        rw [hpc] at h
        cases h
    | _ =>
      refine hs.silent rfl rfl (fun _ _ h => h) (fun _ _ h => .inl h) (fun _ h => (by cases h))
        (fun _ h => (by cases h)) ?_
      intro inst h
      rw [hpc] at h
      cases h

/-- What the threads and the maps say about the objects is so after every run. -/
theorem custody_of_run {ls : List Label} {s : State}
    (hrun : Transition.exec step State.initial ls = some s) : Custody s :=
  Transition.exec_invariant (fun _ _ _ hs hstep => custody_step hs hstep) custody_initial hrun

end Registry

end Apcore
