import Mathlib.Data.List.Nodup
import Mathlib.Logic.Function.Basic
import Apcore.Events.Delivery

/-! # `Events.Completeness` — what `flush` and `shutdown` wait for

A `flush` waits for the handles it finds in the list. A delivery that another `flush` has taken out
of the list, or has let go, it does not see; and a delivery that `emit` spawns after it has read the
flag may come too late for `shutdown`. -/

namespace Apcore

namespace Deliveries

/-- Every `flush` without limit has waited for the deliveries it was due to wait for, and none calls
`on_event` after a `shutdown` without limit. -/
structure Complete (s : State) : Prop where
  overdue : s.overdue = []
  late : s.late = []

/-- The delivery is running and its handle is not in the list: a `flush` has it, or had it. -/
def State.untracked (s : State) (k : Nat) : Bool := s.task k != .finished && !s.pending.contains k

/-- A `flush` without limit takes the list while a delivery it is due to wait for is untracked; or
that of a `shutdown` does so while any delivery is untracked or an `emit` has read the flag and not
listed its deliveries; or a `shutdown` without limit finds the emitter shut down with something
still going on. -/
def misses (s : State) : Label → Bool
  | .take t =>
    match s.pc t with
    | .flushing call =>
      !call.timed &&
        (call.due.any s.untracked ||
          (call.inShutdown && (!s.emits.isEmpty || (List.range s.nextTask).any s.untracked)))
    | _ => false
  | .shutdown _ timed =>
    s.isShutdown && !timed &&
      (!s.emits.isEmpty || (List.range s.nextTask).any fun k => s.task k != .finished)
  | _ => false

variable {s s' : State} {t k : Nat} {call : FlushCall} {rest unfinished : List Nat}

/-! ## What a step leaves alone -/

/-- The emitter is shut down, nobody is about to spawn a delivery, and those that are not finished
are among the given ones. -/
structure Drained (s : State) (rest : List Nat) : Prop where
  isShutdown : s.isShutdown = true
  emits : s.emits = []
  finished : ∀ k, k < s.nextTask → s.task k = .finished ∨ k ∈ rest

/-- A thread that is between its look at the flag and its entry in the list. -/
def Pc.emits : Pc → Bool
  | emitting _ => true
  | spawning _ _ _ => true
  | _ => false

/-- What the steps of the program keep by themselves. -/
structure Sound (s : State) : Prop where
  emits : ∀ t, (s.pc t).emits = true → t ∈ s.emits
  unborn : ∀ k, s.nextTask ≤ k → s.task k = .unborn

/-- What a step may do to the deliveries and to the flag: a finished delivery stays finished, and once
the emitter is shut down with no `emit` on its way no delivery is added. -/
structure Effect (s s' : State) : Prop where
  flag : s.isShutdown = true → s'.isShutdown = true
  finished : ∀ k, s.task k = .finished → s'.task k = .finished
  quiet : s.isShutdown = true → s.emits = [] → s'.emits = [] ∧ s'.nextTask = s.nextTask
  late : s'.late = s.late ∨ s.shutDown = true ∧ ∃ k, s.task k ≠ .finished ∧ s.task k ≠ .unborn

theorem Drained.mono (heffect : Effect s s') (h : Drained s rest) : Drained s' rest := by
  obtain ⟨hemits, hnext⟩ := heffect.quiet h.isShutdown h.emits
  refine { isShutdown := heffect.flag h.isShutdown, emits := hemits, finished := fun k hk => ?_ }
  rw [hnext] at hk
  exact (h.finished k hk).imp_left (heffect.finished k)

/-! ## What a waiting thread may rely on -/

/-- A `flush` without limit has what it needs among the handles it has yet to wait for. -/
def Waits (s : State) : Pc → Prop
  | .flushing call => call.inShutdown = true → s.isShutdown = true
  | .awaiting call rest unfinished => call.timed = false →
    unfinished = [] ∧ (∀ k ∈ call.due, s.task k = .finished ∨ k ∈ rest) ∧
      (call.inShutdown = true → Drained s rest)
  | .relisting call _ => call.timed = true
  | _ => True

theorem Waits.mono {pc : Pc} (heffect : Effect s s') (h : Waits s pc) : Waits s' pc := by
  cases pc with
  | idle => trivial
  | emitting eventType => trivial
  | spawning subs all handles => trivial
  | flushing call => exact fun hin => heffect.flag (h hin)
  | awaiting call rest unfinished =>
    intro hlimit
    obtain ⟨hnone, hdue, hdrained⟩ := h hlimit
    exact ⟨hnone, fun k hk => (hdue k hk).imp_left (heffect.finished k),
      fun hin => (hdrained hin).mono heffect⟩
  | relisting call unfinished => exact h

structure Inv (s : State) : Prop where
  sound : Sound s
  waits : ∀ t, Waits s (s.pc t)
  shutDown : s.shutDown = true → Drained s []
  complete : Complete s

/-- The invariant after a step, from what the step does. -/
theorem Inv.of_effect (h : Inv s) (hsound : Sound s') (heffect : Effect s s')
    (hpc : ∀ u, s'.pc u = s.pc u ∨ Waits s' (s'.pc u))
    (hshut : s'.shutDown = true → s.shutDown = true ∨ Drained s' [])
    (hoverdue : s'.overdue = []) : Inv s' := by
  refine { sound := hsound, waits := fun u => ?_, shutDown := fun hdown => ?_,
           complete := { overdue := hoverdue, late := ?_ } }
  · rcases hpc u with hsame | hwaits
    · rw [hsame]
      exact (h.waits u).mono heffect
    · exact hwaits
  · rcases hshut hdown with hold | hdrained
    · exact (h.shutDown hold).mono heffect
    · exact hdrained
  · rcases heffect.late with hsame | ⟨hdown, k, hrunning, hborn⟩
    · rw [hsame]
      exact h.complete.late
    · -- after such a shutdown every delivery has finished
      by_cases hk : k < s.nextTask
      · rcases (h.shutDown hdown).finished k hk with hfinished | hmem
        · exact absurd hfinished hrunning
        · cases hmem
      · exact absurd (h.sound.unborn k (Nat.not_lt.mp hk)) hborn

/-! ## Steps of one thread -/

theorem Sound.goTo {pc : Pc} (h : Sound s) (hpc : pc.emits = true → t ∈ s.emits) :
    Sound (s.goTo t pc) where
  emits := (Function.forall_update_iff s.pc fun u pc => pc.emits = true → u ∈ s.emits).mpr
    ⟨hpc, fun u _ => h.emits u⟩
  unborn := h.unborn

theorem pc_goTo (pc : Pc) (hpcs : s'.pc = Function.update s.pc t pc) (hwaits : Waits s' pc) (u : Nat) :
    s'.pc u = s.pc u ∨ Waits s' (s'.pc u) := by
  rw [hpcs]
  by_cases hu : u = t
  · subst hu
    rw [Function.update_self]
    exact .inr hwaits
  · rw [Function.update_of_ne hu]
    exact .inl rfl

/-- A thread goes on and leaves the rest alone. -/
theorem Inv.goTo {pc : Pc} (h : Inv s) (hemits : pc.emits = true → t ∈ s.emits)
    (hwaits : Waits (s.goTo t pc) pc) : Inv (s.goTo t pc) :=
  h.of_effect (h.sound.goTo hemits)
    { flag := fun hflag => hflag, finished := fun _ hk => hk, quiet := fun _ he => ⟨he, rfl⟩,
      late := .inl rfl }
    (pc_goTo pc rfl hwaits) .inl h.complete.overdue

/-- A call of `flush` returns; what it had to wait for has finished. -/
theorem Inv.finishFlush (h : Inv s)
    (hdue : call.timed = false → ∀ k ∈ call.due, s.task k = .finished)
    (hdrained : call.timed = false → call.inShutdown = true → Drained s []) :
    Inv (s.finishFlush t call) := by
  have heffect : Effect s (s.finishFlush t call) :=
    { flag := fun hflag => hflag, finished := fun _ hk => hk, quiet := fun _ he => ⟨he, rfl⟩,
      late := .inl rfl }
  refine h.of_effect ?_ heffect (pc_goTo .idle rfl trivial) (fun hdown => ?_) ?_
  · have hidle : Sound (s.goTo t .idle) := h.sound.goTo fun he => by cases he
    exact { emits := hidle.emits, unborn := hidle.unborn }
  · rcases Bool.or_eq_true_iff.mp hdown with hold | hnew
    · exact .inl hold
    · obtain ⟨hin, hlimit⟩ := Bool.and_eq_true_iff.mp hnew
      exact .inr ((hdrained (by simpa using hlimit) hin).mono heffect)
  · show (if call.timed then s.overdue else _) = []
    split_ifs with hlimit
    · exact h.complete.overdue
    · have hnone : (call.due.filter fun k => s.task k != .finished) = [] := by
        refine List.filter_eq_nil_iff.mpr fun k hk => ?_
        simp [hdue (by simpa using hlimit) k hk]
      rw [hnone, h.complete.overdue]
      rfl

/-- A delivery that has started and not finished goes on. -/
theorem Sound.setTask {task : Task} (h : Sound s) (hborn : s.task k ≠ .unborn) :
    Sound (s.setTask k task) where
  emits := h.emits
  unborn := by
    intro j hj
    have hne : j ≠ k := by
      rintro rfl
      exact hborn (h.unborn j hj)
    show Function.update s.task k task j = .unborn
    rw [Function.update_of_ne hne]
    exact h.unborn j hj

theorem finished_setTask {task : Task} (hrunning : s.task k ≠ .finished) (j : Nat)
    (hj : s.task j = .finished) : (s.setTask k task).task j = .finished := by
  have hne : j ≠ k := by
    rintro rfl
    exact hrunning hj
  show Function.update s.task k task j = .finished
  rw [Function.update_of_ne hne]
  exact hj

theorem Inv.setTask {task : Task} (h : Inv s) (hrunning : s.task k ≠ .finished)
    (hborn : s.task k ≠ .unborn) : Inv (s.setTask k task) :=
  h.of_effect (h.sound.setTask hborn)
    { flag := fun hflag => hflag, finished := finished_setTask hrunning,
      quiet := fun _ he => ⟨he, rfl⟩, late := .inl rfl }
    (fun _ => .inl rfl) .inl h.complete.overdue

theorem Inv.callOnEvent {task : Task} (h : Inv s) (hrunning : s.task k ≠ .finished)
    (hborn : s.task k ≠ .unborn) : Inv (s.callOnEvent k task) := by
  have hsound : Sound (s.setTask k task) := h.sound.setTask hborn
  refine h.of_effect { emits := hsound.emits, unborn := hsound.unborn }
    { flag := fun hflag => hflag, finished := finished_setTask hrunning,
      quiet := fun _ he => ⟨he, rfl⟩, late := ?_ } (fun _ => .inl rfl) .inl h.complete.overdue
  by_cases hdown : s.shutDown = true
  · exact .inr ⟨hdown, k, hrunning, hborn⟩
  · exact .inl (if_neg hdown)

/-! ## The steps -/

theorem Inv.enter {eventType : String} (h : Inv s) (hflag : ¬s.isShutdown = true) :
    Inv { s.goTo t (.emitting eventType) with emits := t :: s.emits } := by
  refine h.of_effect { emits := ?_, unborn := h.sound.unborn }
    { flag := fun hf => hf, finished := fun _ hk => hk, quiet := fun hf => absurd hf hflag,
      late := .inl rfl } (pc_goTo (.emitting eventType) rfl trivial) .inl h.complete.overdue
  exact (Function.forall_update_iff s.pc fun u pc => pc.emits = true → u ∈ t :: s.emits).mpr
    ⟨fun _ => List.mem_cons_self, fun u _ he => List.mem_cons_of_mem _ (h.sound.emits u he)⟩

/-- A delivery is spawned. -/
theorem Inv.spawn {task : Task} {pc : Pc} (h : Inv s) (hemits : (s.pc t).emits = true)
    (hwaits : ∀ s', Waits s' pc) :
    Inv { (s.setTask s.nextTask task).goTo t pc with nextTask := s.nextTask + 1 } := by
  have hmem := h.sound.emits t hemits
  have hborn : ∀ j, s.task j ≠ .unborn → j ≠ s.nextTask := by
    rintro j hj rfl
    exact hj (h.sound.unborn _ (Nat.le_refl _))
  refine h.of_effect { emits := ?_, unborn := fun j hj => ?_ }
    { flag := fun hf => hf, finished := fun j hj => ?_, quiet := fun _ he => ?_, late := .inl rfl }
    (pc_goTo pc rfl (hwaits _)) .inl h.complete.overdue
  · exact (Function.forall_update_iff s.pc fun u pc => pc.emits = true → u ∈ s.emits).mpr
      ⟨fun _ => hmem, fun u _ => h.sound.emits u⟩
  · show Function.update s.task s.nextTask task j = .unborn
    rw [Function.update_of_ne (Nat.ne_of_gt hj)]
    exact h.sound.unborn j (Nat.le_of_succ_le hj)
  · show Function.update s.task s.nextTask task j = .finished
    rw [Function.update_of_ne (hborn j (by rw [hj]; simp))]
    exact hj
  · -- `emit` is on its way
    rw [he] at hmem
    cases hmem

theorem Inv.track {handles : List Nat} (h : Inv s) :
    Inv
      { s.goTo t .idle with
        pending := (s.pending.filter fun k => s.task k != .finished) ++ handles
        listed := s.listed ++ handles
        emits := s.emits.filter (· != t) } := by
  refine h.of_effect { emits := ?_, unborn := h.sound.unborn }
    { flag := fun hf => hf, finished := fun _ hk => hk, quiet := fun _ he => ?_, late := .inl rfl }
    (pc_goTo .idle rfl trivial) .inl h.complete.overdue
  · refine (Function.forall_update_iff s.pc fun u pc =>
      pc.emits = true → u ∈ s.emits.filter (· != t)).mpr ⟨fun he => (by cases he), fun u hu he => ?_⟩
    exact List.mem_filter.mpr ⟨h.sound.emits u he, by simpa using hu⟩
  · show s.emits.filter (· != t) = [] ∧ _
    rw [he]
    exact ⟨rfl, rfl⟩

theorem not_untracked (h : s.untracked k = false) : s.task k = .finished ∨ k ∈ s.pending := by
  rw [State.untracked, Bool.and_eq_false_iff] at h
  rcases h with h | h
  · exact .inl (by simpa using h)
  · exact .inr (by simpa using h)

/-- The call takes a list in which it finds what it waits for. -/
theorem tracked_of_not_misses (hpc : s.pc t = .flushing call) (hok : misses s (.take t) = false)
    (hlimit : call.timed = false) :
    (∀ k ∈ call.due, s.task k = .finished ∨ k ∈ s.pending) ∧
      (call.inShutdown = true → s.emits = [] ∧
        ∀ k, k < s.nextTask → s.task k = .finished ∨ k ∈ s.pending) := by
  rw [misses, hpc] at hok
  simp only [hlimit, Bool.not_false, Bool.true_and, Bool.or_eq_false_iff] at hok
  obtain ⟨hdue, hshutdown⟩ := hok
  refine ⟨fun k hk => not_untracked (by simpa using List.any_eq_false.mp hdue k hk), fun hin => ?_⟩
  rw [hin, Bool.true_and, Bool.or_eq_false_iff] at hshutdown
  obtain ⟨hemits, hall⟩ := hshutdown
  refine ⟨by simpa using hemits, fun k hk => not_untracked ?_⟩
  simpa using List.any_eq_false.mp hall k (List.mem_range.mpr hk)

theorem Inv.take (h : Inv s) (hpc : s.pc t = .flushing call) (hok : misses s (.take t) = false) :
    Inv { s.goTo t (.awaiting call s.pending []) with pending := [] } := by
  have hgo : Sound (s.goTo t (.awaiting call s.pending [])) := h.sound.goTo fun he => by cases he
  have heffect : Effect s { s.goTo t (.awaiting call s.pending []) with pending := [] } :=
    { flag := fun hf => hf, finished := fun _ hk => hk, quiet := fun _ he => ⟨he, rfl⟩,
      late := .inl rfl }
  refine h.of_effect { emits := hgo.emits, unborn := hgo.unborn } heffect
    (pc_goTo (.awaiting call s.pending []) rfl (fun hlimit => ?_)) .inl h.complete.overdue
  obtain ⟨hdue, hshutdown⟩ := tracked_of_not_misses hpc hok hlimit
  refine ⟨rfl, hdue, fun hin => ?_⟩
  obtain ⟨hemits, hall⟩ := hshutdown hin
  have hwaits := h.waits t
  rw [hpc] at hwaits
  exact { isShutdown := hwaits hin, emits := hemits, finished := hall }

/-- There is nothing to take. -/
theorem Inv.takeNothing (h : Inv s) (hpc : s.pc t = .flushing call)
    (hok : misses s (.take t) = false) (hnone : s.pending = []) : Inv (s.finishFlush t call) := by
  have hwaits := h.waits t
  rw [hpc] at hwaits
  refine h.finishFlush (fun hlimit k hk => ?_) (fun hlimit hin => ?_)
  · have hdue := (tracked_of_not_misses hpc hok hlimit).1 k hk
    rw [hnone] at hdue
    exact hdue.resolve_right (by simp)
  · obtain ⟨hemits, hall⟩ := (tracked_of_not_misses hpc hok hlimit).2 hin
    rw [hnone] at hall
    exact { isShutdown := hwaits hin, emits := hemits, finished := hall }

/-- `flush` has waited for a handle, or gives one up because its limit has passed. -/
theorem Inv.advance {unfinished' : List Nat} (h : Inv s)
    (hpc : s.pc t = .awaiting call (k :: rest) unfinished)
    (hdone : call.timed = true ∨ s.task k = .finished ∧ unfinished' = unfinished) :
    Inv (s.goTo t (.awaiting call rest unfinished')) := by
  refine h.goTo (fun he => by cases he) fun hlimit => ?_
  have hwaits := h.waits t
  rw [hpc] at hwaits
  obtain ⟨hnone, hdue, hdrained⟩ := hwaits hlimit
  rw [hlimit] at hdone
  obtain ⟨hfinished, rfl⟩ := hdone.resolve_left (by simp)
  have hrest : ∀ j, s.task j = .finished ∨ j ∈ k :: rest → s.task j = .finished ∨ j ∈ rest := by
    rintro j (hj | hj)
    · exact .inl hj
    · rcases List.mem_cons.mp hj with rfl | hj
      · exact .inl hfinished
      · exact .inr hj
  refine ⟨hnone, fun j hj => hrest j (hdue j hj), fun hin => ?_⟩
  have hd := hdrained hin
  exact { isShutdown := hd.isShutdown, emits := hd.emits,
          finished := fun j hj => hrest j (hd.finished j hj) }

theorem Inv.afterLoop (h : Inv s) (hpc : s.pc t = .awaiting call [] unfinished) :
    Inv (s.afterLoop t call unfinished) := by
  have hwaits := h.waits t
  rw [hpc] at hwaits
  unfold State.afterLoop
  split_ifs with hnone
  · refine h.finishFlush (fun hlimit k hk => ?_) (fun hlimit hin => (hwaits hlimit).2.2 hin)
    exact ((hwaits hlimit).2.1 k hk).resolve_right (by simp)
  · refine h.goTo (fun he => by cases he) ?_
    show call.timed = true
    by_contra hlimit
    obtain ⟨hempty, -, -⟩ := hwaits (by simpa using hlimit)
    rw [hempty] at hnone
    exact hnone rfl

theorem Inv.relist (h : Inv s) (hpc : s.pc t = .relisting call unfinished) :
    Inv { s.finishFlush t call with pending := unfinished ++ s.pending } := by
  have hwaits := h.waits t
  rw [hpc] at hwaits
  have hlimit : call.timed = true := hwaits
  have hdone : Inv (s.finishFlush t call) := h.finishFlush
    (fun hnot => by rw [hlimit] at hnot; cases hnot) (fun hnot => by rw [hlimit] at hnot; cases hnot)
  refine hdone.of_effect { emits := hdone.sound.emits, unborn := hdone.sound.unborn }
    { flag := fun hf => hf, finished := fun _ hk => hk, quiet := fun _ he => ⟨he, rfl⟩,
      late := .inl rfl } (fun _ => .inl rfl) .inl hdone.complete.overdue

theorem Inv.beginShutdown (h : Inv s) {due : List Nat} {timed : Bool} :
    Inv { s.goTo t (.flushing { timed, inShutdown := true, due }) with isShutdown := true } := by
  have hgo : Sound (s.goTo t (.flushing { timed, inShutdown := true, due })) :=
    h.sound.goTo fun he => by cases he
  exact h.of_effect { emits := hgo.emits, unborn := hgo.unborn }
    { flag := fun _ => rfl, finished := fun _ hk => hk, quiet := fun _ he => ⟨he, rfl⟩,
      late := .inl rfl } (pc_goTo _ rfl (fun _ => rfl)) .inl h.complete.overdue

/-- A `shutdown` after the first returns at once. -/
theorem Inv.shutdownAgain {timed : Bool} (h : Inv s) (hflag : s.isShutdown = true)
    (hok : misses s (.shutdown t timed) = false) :
    Inv { s with shutDown := s.shutDown || !timed } := by
  refine h.of_effect { emits := h.sound.emits, unborn := h.sound.unborn }
    { flag := fun hf => hf, finished := fun _ hk => hk, quiet := fun _ he => ⟨he, rfl⟩,
      late := .inl rfl } (fun _ => .inl rfl) (fun hdown => ?_) h.complete.overdue
  rcases Bool.or_eq_true_iff.mp hdown with hold | hlimit
  · exact .inl hold
  · rw [misses, hflag, hlimit, Bool.true_and, Bool.true_and, Bool.or_eq_false_iff] at hok
    obtain ⟨hemits, hall⟩ := hok
    refine .inr { isShutdown := hflag, emits := by simpa using hemits, finished := fun k hk => ?_ }
    exact .inl (by simpa using List.any_eq_false.mp hall k (List.mem_range.mpr hk))

theorem Inv.init : Inv init where
  sound := { emits := fun _ he => (by cases he), unborn := fun _ _ => rfl }
  waits := fun _ => trivial
  shutDown := fun hdown => by cases hdown
  complete := { overdue := rfl, late := rfl }

/-- The steps of the threads. -/
theorem Inv.step {l : Label} (h : Inv s) (hok : misses s l = false) (hstep : step s l = some s') :
    Inv s' := by
  cases l <;> simp only [Deliveries.step] at hstep
  case setSubscribers subs =>
    obtain rfl := Option.some.inj hstep
    exact h.of_effect { emits := h.sound.emits, unborn := h.sound.unborn }
      { flag := fun hf => hf, finished := fun _ hk => hk, quiet := fun _ he => ⟨he, rfl⟩,
        late := .inl rfl } (fun _ => .inl rfl) .inl h.complete.overdue
  case emit t eventType =>
    split at hstep
    · split_ifs at hstep with hflag
      · obtain rfl := Option.some.inj hstep
        exact h
      · obtain rfl := Option.some.inj hstep
        exact h.enter hflag
    · cases hstep
  case snapshot t =>
    split at hstep
    · next eventType hpc =>
      obtain rfl := Option.some.inj hstep
      exact h.goTo (fun _ => h.sound.emits t (by rw [hpc]; rfl)) trivial
    · cases hstep
  case spawn t =>
    split at hstep
    · next sub subs all handles hpc =>
      obtain rfl := Option.some.inj hstep
      exact h.spawn (by rw [hpc]; rfl) fun _ => trivial
    · cases hstep
  case track t =>
    split at hstep
    · obtain rfl := Option.some.inj hstep
      exact h.track
    · cases hstep
  case flush t timed =>
    split at hstep
    · obtain rfl := Option.some.inj hstep
      exact h.goTo (fun he => by cases he) (fun hin => by cases hin)
    · cases hstep
  case shutdown t timed =>
    split at hstep
    · split_ifs at hstep with hflag
      · obtain rfl := Option.some.inj hstep
        exact h.shutdownAgain hflag hok
      · obtain rfl := Option.some.inj hstep
        exact h.beginShutdown
    · cases hstep
  case take t =>
    split at hstep
    · next call hpc =>
      split_ifs at hstep with hnone
      · obtain rfl := Option.some.inj hstep
        exact h.takeNothing hpc hok (by simpa using hnone)
      · obtain rfl := Option.some.inj hstep
        exact h.take hpc hok
    · cases hstep
  case await t =>
    split at hstep
    · next call k rest unfinished hpc =>
      split_ifs at hstep with hfinished
      obtain rfl := Option.some.inj hstep
      exact h.advance hpc (.inr ⟨hfinished, rfl⟩)
    · next call unfinished hpc =>
      obtain rfl := Option.some.inj hstep
      exact h.afterLoop hpc
    · cases hstep
  case timeOut t =>
    split at hstep
    · next call k rest unfinished hpc =>
      split_ifs at hstep with hlimit
      obtain rfl := Option.some.inj hstep
      exact h.advance hpc (.inl hlimit)
    · cases hstep
  case keep t =>
    split at hstep
    · next call k rest unfinished hpc =>
      split_ifs at hstep with hlimit
      obtain rfl := Option.some.inj hstep
      exact h.advance hpc (.inl hlimit)
    · cases hstep
  case relist t =>
    split at hstep
    · next call unfinished hpc =>
      obtain rfl := Option.some.inj hstep
      exact h.relist hpc
    · cases hstep
  case cancel t =>
    split at hstep
    · obtain rfl := Option.some.inj hstep
      exact h.goTo (fun he => by cases he) trivial
    · cases hstep
  case callSubscriber k =>
    split at hstep
    · next htask =>
      obtain rfl := Option.some.inj hstep
      exact h.callOnEvent (by simp [htask]) (by simp [htask])
    · next htask =>
      obtain rfl := Option.some.inj hstep
      exact h.callOnEvent (by simp [htask]) (by simp [htask])
    · cases hstep
  case answer k ok =>
    split at hstep
    · next htask =>
      split_ifs at hstep
      all_goals
        obtain rfl := Option.some.inj hstep
        exact h.setTask (by simp [htask]) (by simp [htask])
    · next htask =>
      obtain rfl := Option.some.inj hstep
      exact h.setTask (by simp [htask]) (by simp [htask])
    · cases hstep
  case wake k =>
    split at hstep
    · next htask =>
      obtain rfl := Option.some.inj hstep
      exact h.setTask (by simp [htask]) (by simp [htask])
    · cases hstep
  case fail k =>
    split at hstep
    · next htask =>
      obtain rfl := Option.some.inj hstep
      exact h.setTask (by simp [htask]) (by simp [htask])
    · cases hstep
  case crash k =>
    split at hstep
    iterate 3
      · next htask =>
        obtain rfl := Option.some.inj hstep
        exact h.setTask (by simp [htask]) (by simp [htask])
    · cases hstep

/-- **While no call misses a delivery, flushing and shutting down are complete**, whatever calls
overlap and however the deliveries go. -/
theorem flush_complete {ls : List Label} (hrun : Transition.exec step Deliveries.init ls = some s)
    (hok : Transition.Along step (fun s l => misses s l = false) Deliveries.init ls) : Complete s := by
  have hinv : Inv s :=
    Transition.exec_invariant_along (fun _ _ _ hI hl hs => hI.step hl hs) Inv.init hok hrun
  exact hinv.complete

/-! ## Runs -/

/-- One event to one subscriber, by thread 0. -/
def emitOne : List Label :=
  [.setSubscribers [{}], .emit 0 "apcore.ready", .snapshot 0, .spawn 0, .track 0]

/-- The delivery, at the first attempt. -/
def deliver (k : Nat) : List Label := [.callSubscriber k, .answer k true]

/-- An event, and a `shutdown` that waits for it. -/
def emitThenShutdown : List Label :=
  emitOne ++ [.shutdown 1 false, .take 1] ++ deliver 0 ++ [.await 1, .await 1, .emit 0 "apcore.ready"]

theorem flush_complete_shutdown :
    ∃ s, Transition.exec step init emitThenShutdown = some s ∧ s.shutDown = true ∧ Complete s :=
  ⟨_, rfl, rfl, @flush_complete _ emitThenShutdown rfl (by decide)⟩

/-- Two flushes without limit: the second finds the list empty, and returns while the first still
waits. -/
theorem flush_incomplete :
    ∃ s, Transition.exec step init
        (emitOne ++ [.flush 1 false, .take 1, .flush 2 false, .take 2]) = some s ∧ ¬Complete s := by
  refine ⟨_, rfl, fun h => ?_⟩
  have hoverdue := h.overdue
  revert hoverdue
  decide

/-- `emit` has read the flag when `shutdown` begins: its delivery starts after `shutdown` has
returned. -/
example : (Transition.exec step init ([.setSubscribers [{}], .emit 0 "apcore.ready", .shutdown 1 false,
    .take 1, .snapshot 0, .spawn 0, .callSubscriber 0])).map (·.late) = some [0] := by
  decide

end Deliveries

end Apcore
