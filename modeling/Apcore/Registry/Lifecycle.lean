import Apcore.Registry.Threads

/-! # `Registry.Lifecycle` — the life of a module object

What may happen to one module object, one event after the other, whatever the threads do. A log
that is legal for the object leaves it at a stage, and the stage says how often its hooks were
called. -/

namespace Apcore

namespace Registry

/-- The object an event is about. -/
def Event.inst : Event → Instance
  | .onLoad inst _ | .onUnload inst | .rejected inst | .refused inst | .fellBack inst
  | .published _ inst | .versioned _ inst | .removed _ inst _ => inst

/-- How far a module object is. -/
inductive Stage where
  /-- `on_load` is to come. -/
  | fresh
  | rejected
  | loaded
  | failed
  | refused
  | registered
  | removed
  | unloaded
  deriving DecidableEq, Repr

namespace Stage

/-- What an event makes of a stage. The last clause of a versioned registration that finds its id
unregistered is to begin anew. -/
def next : Stage → Event → Option Stage
  | fresh, .rejected _ => some rejected
  | fresh, .onLoad _ true => some loaded
  | fresh, .onLoad _ false => some failed
  | loaded, .refused _ => some refused
  -- `on_load` will be called again
  | loaded, .fellBack _ => some fresh
  | loaded, .published _ _ => some registered
  | loaded, .versioned _ _ => some registered
  | registered, .removed _ _ _ => some removed
  | removed, .onUnload _ => some unloaded
  | _, _ => none

/-- The calls of `on_load` on the way to a stage, where none is begun anew. -/
def loads : Stage → Nat
  | fresh | rejected => 0
  | _ => 1

/-- The stages of an object whose `on_load` succeeded. -/
def HasLoaded : Stage → Prop
  | loaded | refused | registered | removed | unloaded => True
  | _ => False

/-- The stages of an object that was put into the maps. -/
def WasRegistered : Stage → Prop
  | registered | removed | unloaded => True
  | _ => False

/-- The stages in which a registration ends that is not published. -/
def Ended : Stage → Prop
  | rejected | failed | refused => True
  | _ => False

end Stage

/-- The stage an object is at after a log, if the log is legal for it. -/
def stage (inst : Instance) : List Event → Option Stage
  | [] => some .fresh
  | event :: log =>
    if event.inst = inst then (stage inst log).bind (·.next event) else stage inst log

/-- The object is put into the maps under the id. -/
def Introduced (log : List Event) (name : String) (inst : Instance) : Prop :=
  .published name inst ∈ log ∨ .versioned name inst ∈ log

/-- The calls of `on_load` on an object. -/
def loads (inst : Instance) (log : List Event) : Nat :=
  log.countP fun
    | .onLoad other _ => other == inst
    | _ => false

/-- The calls of `on_unload` on an object. -/
def unloads (inst : Instance) (log : List Event) : Nat :=
  log.countP fun
    | .onUnload other => other == inst
    | _ => false

section Stages

variable {inst : Instance} {log : List Event} {event : Event} {st : Stage}

theorem stage_cons_other (h : event.inst ≠ inst) : stage inst (event :: log) = stage inst log := by
  rw [stage, if_neg h]

theorem stage_cons_self (h : event.inst = inst) (hlog : stage inst log = some st) :
    stage inst (event :: log) = st.next event := by
  rw [stage, if_pos h, hlog]
  rfl

/-- An object at a stage is there by one event at most. -/
theorem stage_cons {st' : Stage} (h : stage inst (event :: log) = some st') :
    event.inst ≠ inst ∧ stage inst log = some st' ∨
      event.inst = inst ∧ ∃ st, stage inst log = some st ∧ st.next event = some st' := by
  by_cases hinst : event.inst = inst
  · rw [stage, if_pos hinst] at h
    obtain ⟨st, hst, hnext⟩ := Option.bind_eq_some_iff.mp h
    exact .inr ⟨hinst, st, hst, hnext⟩
  · rw [stage_cons_other hinst] at h
    exact .inl ⟨hinst, h⟩

/-- What a legal log says of an object at a stage. -/
structure Tally (inst : Instance) (log : List Event) (st : Stage) : Prop where
  loads : .fellBack inst ∉ log → loads inst log = st.loads
  unloads : unloads inst log = if st = .unloaded then 1 else 0
  loaded : st.HasLoaded → .onLoad inst true ∈ log
  rejected : .rejected inst ∈ log ↔ st = .rejected
  removed : (∃ name outstanding, .removed name inst outstanding ∈ log) ↔
    st = .removed ∨ st = .unloaded
  introduced : (∃ name, Introduced log name inst) ↔ st.WasRegistered

/-- An event about another object changes nothing. -/
theorem Tally.cons_other (h : Tally inst log st) (hne : event.inst ≠ inst) :
    Tally inst (event :: log) st := by
  have hmem : ∀ e : Event, e.inst = inst → (e ∈ event :: log ↔ e ∈ log) := by
    intro e he
    rw [List.mem_cons, or_iff_right]
    rintro rfl
    exact hne he
  constructor
  case loads =>
    intro hfell
    rw [hmem _ rfl] at hfell
    rw [← h.loads hfell, Registry.loads, Registry.loads, List.countP_cons_of_neg]
    cases event <;> simp_all [Event.inst]
  case unloads =>
    rw [← h.unloads, Registry.unloads, Registry.unloads, List.countP_cons_of_neg]
    cases event <;> simp_all [Event.inst]
  case loaded => exact fun hloaded => (hmem _ rfl).mpr (h.loaded hloaded)
  case rejected =>
    rw [hmem _ rfl]
    exact h.rejected
  case removed =>
    rw [← h.removed]
    exact exists_congr fun name => exists_congr fun k => hmem _ rfl
  case introduced =>
    rw [← h.introduced]
    exact exists_congr fun name => or_congr (hmem _ rfl) (hmem _ rfl)

theorem introduced_cons {name : String} : Introduced (event :: log) name inst ↔
    (event = .published name inst ∨ event = .versioned name inst) ∨ Introduced log name inst := by
  simp only [Introduced, List.mem_cons, eq_comm (b := event)]
  tauto

/-- The events that move an object on. -/
inductive Advances (inst : Instance) : Stage → Event → Stage → Prop
  | rejected : Advances inst .fresh (.rejected inst) .rejected
  | loaded : Advances inst .fresh (.onLoad inst true) .loaded
  | failed : Advances inst .fresh (.onLoad inst false) .failed
  | refused : Advances inst .loaded (.refused inst) .refused
  | fellBack : Advances inst .loaded (.fellBack inst) .fresh
  | published (name : String) : Advances inst .loaded (.published name inst) .registered
  | versioned (name : String) : Advances inst .loaded (.versioned name inst) .registered
  | removed (name : String) (outstanding : Nat) :
    Advances inst .registered (.removed name inst outstanding) .removed
  | unloaded : Advances inst .removed (.onUnload inst) .unloaded

theorem advances_of_next {before : Stage} (heq : event.inst = inst)
    (hnext : before.next event = some st) : Advances inst before event st := by
  subst heq
  cases event with
  | onLoad inst ok =>
    cases ok <;> cases before <;> cases hnext
    all_goals constructor
  | _ =>
    cases before <;> cases hnext
    all_goals constructor

/-- An event about the object moves it on: of each thing that is tallied, the event says how it
changes. -/
theorem Tally.cons_self {before : Stage} (h : Tally inst log before) (heq : event.inst = inst)
    (hnext : before.next event = some st) : Tally inst (event :: log) st := by
  have hadvances := advances_of_next heq hnext
  -- each count and each membership grows by what the event says
  constructor
  case loads =>
    intro hfell
    rw [List.mem_cons, not_or] at hfell
    have hold := h.loads hfell.2
    unfold Registry.loads at hold ⊢
    rw [List.countP_cons, hold]
    cases hadvances <;> simp_all [Stage.loads]
  case unloads =>
    have hold := h.unloads
    unfold Registry.unloads at hold ⊢
    rw [List.countP_cons, hold]
    cases hadvances <;> simp
  case loaded =>
    intro hloaded
    rw [List.mem_cons]
    cases hadvances with
    | loaded => exact .inl rfl
    | rejected | failed | fellBack => exact hloaded.elim
    | refused | published | versioned | removed | unloaded => exact .inr (h.loaded trivial)
  case rejected =>
    rw [List.mem_cons, h.rejected]
    cases hadvances <;> simp
  case removed =>
    simp only [List.mem_cons, exists_or, h.removed]
    cases hadvances <;> simp
  case introduced =>
    simp only [introduced_cons, exists_or, h.introduced]
    cases hadvances <;> simp [Stage.WasRegistered]

theorem tally (h : stage inst log = some st) : Tally inst log st := by
  -- on the log, latest event first: the stage before it is the one of the rest
  induction log generalizing st with
  | nil =>
    obtain rfl : Stage.fresh = st := Option.some.inj h
    constructor <;> simp [Registry.loads, Registry.unloads, Stage.loads, Stage.HasLoaded,
      Stage.WasRegistered, Introduced]
  | cons event log ih =>
    rcases stage_cons h with ⟨hne, hlog⟩ | ⟨heq, before, hbefore, hnext⟩
    · exact (ih hlog).cons_other hne
    · exact (ih hbefore).cons_self heq hnext

/-- An object is put into the maps under one id only. -/
theorem introduced_unique (h : stage inst log = some st) {name name' : String}
    (hname : Introduced log name inst) (hname' : Introduced log name' inst) : name = name' := by
  induction log generalizing st with
  | nil => rcases hname with h | h <;> cases h
  | cons event log ih =>
    rw [introduced_cons] at hname hname'
    rcases stage_cons h with ⟨hne, hlog⟩ | ⟨heq, before, hbefore, hnext⟩
    · have hold : ∀ other, ¬ (event = .published other inst ∨ event = .versioned other inst) := by
        rintro other (rfl | rfl)
        · exact hne rfl
        · exact hne rfl
      exact ih hlog (hname.resolve_left (hold name)) (hname'.resolve_left (hold name'))
    · have hintroduced := (tally hbefore).introduced
      by_cases hwas : before.WasRegistered
      · -- what is registered already is not put in again
        have hold : ∀ other, ¬ (event = .published other inst ∨ event = .versioned other inst) := by
          rintro other (rfl | rfl) <;> cases before <;> first | exact hwas | cases hnext
        exact ih hbefore (hname.resolve_left (hold name)) (hname'.resolve_left (hold name'))
      · have hnot : ∀ other, ¬ Introduced log other inst := fun other hother =>
          hwas (hintroduced.mp ⟨other, hother⟩)
        rcases hname.resolve_right (hnot name) with h | h <;>
          rcases hname'.resolve_right (hnot name') with h' | h' <;> rw [h] at h' <;> cases h' <;> rfl

end Stages

end Registry

end Apcore
