import Apcore.Lib.Transition
import Apcore.Middleware.Manager

/-! # `Middleware.HookRuns` — the instances that the hooks of a call run on

A call remembers its before hooks as positions, and `execute_on_error` looks these up in a snapshot
of its own, taken after the module has run; `execute_after` goes through its own snapshot whole. Both
reach the instances whose `before` ran as long as the chain still has these instances there. Any
number of calls run beside any number of threads that edit the chain. -/

namespace Apcore

namespace HookRuns

open ManagerLocks (MiddlewareRef)

/-! ## Calls -/

/-- What `on_error_outcome` answers, when it is neither `Ok(None)` nor an error. -/
inductive Outcome where
  | recovery | retry
  deriving DecidableEq, Repr

/-- Where a call stands. -/
inductive CallPc where
  /-- In the other steps of the pipeline, or in the module. -/
  | pipeline
  /-- In `execute_before`: the snapshot, `executed`, and the middlewares that are left. -/
  | before (mws : List MiddlewareRef) (executed : List Nat) (left : List (MiddlewareRef × Nat))
  | after (left : List MiddlewareRef)
  /-- In `execute_on_error_outcome`: the snapshot, and the positions that are left. -/
  | onError (mws : List MiddlewareRef) (left : List Nat)
  | returned
  deriving DecidableEq, Repr

/-- A call in its current attempt. The fields after the second are not in the program: the snapshot
that `executed_middlewares` are positions in, and the instances whose hooks were invoked, in the order
in which they were. -/
structure CallState where
  pc : CallPc
  executedMiddlewares : List Nat
  entered : List MiddlewareRef
  ran : List MiddlewareRef
  afterHooked : List MiddlewareRef
  errorHooked : List MiddlewareRef
  deriving DecidableEq, Repr

/-- An attempt begins, the first one or one after a `RetrySignal`. -/
def CallState.new : CallState where
  pc := .pipeline
  executedMiddlewares := []
  entered := []
  ran := []
  afterHooked := []
  errorHooked := []

/-- What happens next in a call. -/
inductive Event where
  /-- `BuiltinMiddlewareBefore` takes its snapshot; its loop goes on by one hook, or ends. -/
  | enter
  | before (failed : Bool)
  /-- `BuiltinMiddlewareAfter` takes its snapshot; its loop goes on by one hook, or ends. -/
  | leave
  | after (failed : Bool)
  /-- The attempt fails, and the error path of `Executor::call` takes its snapshot; its loop goes on
  by one position, or ends. -/
  | fail
  | onError (outcome : Option Outcome)
  /-- The time of the step is over, and its hooks are dropped. -/
  | timeout
  /-- The call returns without error hooks: with its output, or cancelled. -/
  | finish
  deriving DecidableEq, Repr

namespace CallState

/-- `execute_before` returns, by an error too: its list is recovered from the details. -/
def record (c : CallState) (mws : List MiddlewareRef) (executed : List Nat) : CallState :=
  { c with pc := .pipeline, executedMiddlewares := executed, entered := mws }

/-- The loop of `execute_before`. -/
def stepBefore (c : CallState) (failed : Bool) : Option CallState :=
  match c.pc with
  | .before mws executed [] => some (c.record mws executed)
  | .before mws executed ((mw, i) :: left) =>
    -- pushed before the hook runs, so that the one that fails is among them
    let c := { c with ran := c.ran ++ [mw] }
    if failed then some (c.record mws (executed ++ [i]))
    else some { c with pc := .before mws (executed ++ [i]) left }
  | _ => none

/-- The loop of `execute_after`. -/
def stepAfter (c : CallState) (failed : Bool) : Option CallState :=
  match c.pc with
  | .after [] => some { c with pc := .pipeline }
  | .after (mw :: left) => some
      { c with
        afterHooked := c.afterHooked ++ [mw]
        pc := if failed then .pipeline else .after left }
  | _ => none

/-- The loop of `execute_on_error_outcome`, and what `Executor::call` does with its outcome. -/
def stepOnError (c : CallState) (outcome : Option Outcome) : Option CallState :=
  match c.pc with
  | .onError _ [] => some { c with pc := .returned }
  | .onError mws (i :: left) =>
    match mws[i]? with
    | none => some { c with pc := .onError mws left }
    | some mw =>
      let c := { c with errorHooked := c.errorHooked ++ [mw] }
      match outcome with
      | none => some { c with pc := .onError mws left }
      | some .recovery => some { c with pc := .returned }
      | some .retry => some .new
  | _ => none

/-- A call goes on; `chain` is the list of middlewares, unless its mutex is taken. A step of the
pipeline that fails leads back to the pipeline, which may ignore the error or fail. -/
def step (c : CallState) (chain : Option (List MiddlewareRef)) : Event → Option CallState
  | .enter =>
    match c.pc, chain with
    | .pipeline, some mws => some { c with pc := .before mws [] mws.zipIdx }
    | _, _ => none
  | .before failed => c.stepBefore failed
  | .leave =>
    match c.pc, chain with
    | .pipeline, some mws => some { c with pc := .after mws.reverse, afterHooked := [] }
    | _, _ => none
  | .after failed => c.stepAfter failed
  | .fail =>
    match c.pc with
    | .pipeline =>
      if c.executedMiddlewares.isEmpty then some { c with pc := .returned }
      else chain.map fun mws =>
        { c with pc := .onError mws c.executedMiddlewares.reverse, errorHooked := [] }
    | _ => none
  | .onError outcome => c.stepOnError outcome
  | .timeout =>
    match c.pc with
    | .before _ _ _ | .after _ => some { c with pc := .pipeline }
    | _ => none
  | .finish =>
    match c.pc with
    | .pipeline => some { c with pc := .returned }
    | _ => none

end CallState

/-! ## Calls beside the manager -/

/-- The manager with its threads, and the calls, by number. -/
structure State where
  manager : ManagerLocks.State
  calls : Nat → CallState

/-- A step of a thread that edits the manager, or of a call. -/
inductive Label where
  | manager (l : ManagerLocks.Label)
  | call (n : Nat) (e : Event)
  deriving DecidableEq, Repr

/-- The middlewares, when their mutex is free. -/
def State.chain (s : State) : Option (List MiddlewareRef) :=
  if s.manager.owner .middlewares = none then some s.manager.shared.middlewares else none

def step (s : State) : Label → Option State
  | .manager l => (ManagerLocks.step s.manager l).map fun manager => { s with manager := manager }
  | .call n e =>
    ((s.calls n).step s.chain e).map fun c => { s with calls := Function.update s.calls n c }

/-- Nobody has called the manager, and no call has begun. -/
def init : State where
  manager := ManagerLocks.init
  calls := fun _ => .new

/-- The hooks of the attempt ran on instances whose `before` ran in it, in reverse order. -/
structure Faithful (c : CallState) : Prop where
  after : c.afterHooked.Sublist c.ran.reverse
  onError : c.errorHooked.Sublist c.ran.reverse

/-- The instances at the positions a call remembers. -/
def named (mws : List MiddlewareRef) (positions : List Nat) : List MiddlewareRef :=
  positions.filterMap (mws[·]?)

/-- Where a call takes the snapshot it unwinds over, the instances it will reach are, in their order,
among those whose `before` ran. -/
def steady (s : State) : Label → Bool
  | .call n .leave => s.manager.shared.middlewares.isSublist (s.calls n).ran
  | .call n .fail =>
    (named s.manager.shared.middlewares (s.calls n).executedMiddlewares).isSublist (s.calls n).ran
  | _ => true

/-! ## What the loops will still reach -/

theorem named_reverse (mws : List MiddlewareRef) (positions : List Nat) :
    named mws positions.reverse = (named mws positions).reverse := List.filterMap_reverse

namespace CallPc

/-- The middlewares that `execute_after` has still to go through. -/
def afterLeft : CallPc → List MiddlewareRef
  | after left => left
  | _ => []

/-- The middlewares that `execute_on_error_outcome` has still to go through. -/
def errorLeft : CallPc → List MiddlewareRef
  | onError mws left => named mws left
  | _ => []

end CallPc

/-- What was reached and what is left to reach are, together, within the instances that ran. -/
structure Inv (c : CallState) : Prop where
  after : (c.afterHooked ++ c.pc.afterLeft).Sublist c.ran.reverse
  onError : (c.errorHooked ++ c.pc.errorLeft).Sublist c.ran.reverse

theorem Inv.faithful {c : CallState} (h : Inv c) : Faithful c :=
  ⟨(List.sublist_append_left _ _).trans h.after, (List.sublist_append_left _ _).trans h.onError⟩

theorem inv_new : Inv .new := ⟨List.Sublist.refl _, List.Sublist.refl _⟩

/-- A call that stops a loop, or begins none of the unwinding ones. -/
theorem Inv.leave {c c' : CallState} (h : Inv c) (hran : c.ran.Sublist c'.ran)
    (hafter : c'.afterHooked = c.afterHooked) (honError : c'.errorHooked = c.errorHooked)
    (hafterLeft : c'.pc.afterLeft = []) (herrorLeft : c'.pc.errorLeft = []) : Inv c' := by
  constructor
  · rw [hafter, hafterLeft, List.append_nil]
    exact h.faithful.after.trans hran.reverse
  · rw [honError, herrorLeft, List.append_nil]
    exact h.faithful.onError.trans hran.reverse

theorem Inv.stepBefore {c c' : CallState} {failed : Bool} (h : Inv c)
    (hstep : c.stepBefore failed = some c') : Inv c' := by
  rw [CallState.stepBefore] at hstep
  split at hstep
  · obtain rfl := Option.some.inj hstep
    exact h.leave (List.Sublist.refl _) rfl rfl rfl rfl
  · next mws executed mw i left hpc =>
    have hran : c.ran.Sublist (c.ran ++ [mw]) := List.sublist_append_left _ _
    dsimp only at hstep
    split_ifs at hstep
    · obtain rfl := Option.some.inj hstep
      exact h.leave hran rfl rfl rfl rfl
    · obtain rfl := Option.some.inj hstep
      exact h.leave hran rfl rfl rfl rfl
  · cases hstep

theorem Inv.stepAfter {c c' : CallState} {failed : Bool} (h : Inv c)
    (hstep : c.stepAfter failed = some c') : Inv c' := by
  rw [CallState.stepAfter] at hstep
  split at hstep
  · obtain rfl := Option.some.inj hstep
    exact h.leave (List.Sublist.refl _) rfl rfl rfl rfl
  · next mw left hpc =>
    obtain rfl := Option.some.inj hstep
    have hafter := h.after
    rw [hpc, CallPc.afterLeft, List.append_cons] at hafter
    have honError := h.faithful.onError
    cases failed with
    | true => exact ⟨by simpa [CallPc.afterLeft] using (List.sublist_append_left _ _).trans hafter,
        by simpa [CallPc.errorLeft] using honError⟩
    | false => exact ⟨hafter, by simpa [CallPc.errorLeft] using honError⟩
  · cases hstep

theorem Inv.stepOnError {c c' : CallState} {outcome : Option Outcome} (h : Inv c)
    (hstep : c.stepOnError outcome = some c') : Inv c' := by
  rw [CallState.stepOnError] at hstep
  split at hstep
  · obtain rfl := Option.some.inj hstep
    exact h.leave (List.Sublist.refl _) rfl rfl rfl rfl
  · next mws i left hpc =>
    have hafter := h.faithful.after
    have honError := h.onError
    rw [hpc, CallPc.errorLeft, named, List.filterMap_cons] at honError
    split at hstep
    · next hnone =>
      obtain rfl := Option.some.inj hstep
      rw [hnone] at honError
      exact ⟨by simpa [CallPc.afterLeft] using hafter, honError⟩
    · next mw hsome =>
      rw [hsome, List.append_cons] at honError
      dsimp only at hstep
      split at hstep
      · obtain rfl := Option.some.inj hstep
        exact ⟨by simpa [CallPc.afterLeft] using hafter, honError⟩
      · obtain rfl := Option.some.inj hstep
        exact ⟨by simpa [CallPc.afterLeft] using hafter,
          by simpa [CallPc.errorLeft] using (List.sublist_append_left _ _).trans honError⟩
      · obtain rfl := Option.some.inj hstep
        exact inv_new
  · cases hstep

/-- A call that takes its snapshots steadily keeps within the instances that ran. -/
theorem Inv.step {c c' : CallState} {mws : List MiddlewareRef} {chain : Option (List MiddlewareRef)}
    {e : Event} (h : Inv c) (hchain : ∀ mws', chain = some mws' → mws' = mws)
    (hleave : e = .leave → mws.Sublist c.ran)
    (hfail : e = .fail → (named mws c.executedMiddlewares).Sublist c.ran)
    (hstep : c.step chain e = some c') : Inv c' := by
  cases e with
  | enter =>
    simp only [CallState.step] at hstep
    split at hstep
    · obtain rfl := Option.some.inj hstep
      exact h.leave (List.Sublist.refl _) rfl rfl rfl rfl
    · cases hstep
  | before failed => exact h.stepBefore hstep
  | leave =>
    simp only [CallState.step] at hstep
    split at hstep
    · next mws' hpc =>
      obtain rfl := Option.some.inj hstep
      obtain rfl := hchain mws' rfl
      refine ⟨(hleave rfl).reverse, ?_⟩
      simpa [CallPc.errorLeft] using h.faithful.onError
    · cases hstep
  | after failed => exact h.stepAfter hstep
  | fail =>
    simp only [CallState.step] at hstep
    split at hstep
    · split_ifs at hstep
      · obtain rfl := Option.some.inj hstep
        exact h.leave (List.Sublist.refl _) rfl rfl rfl rfl
      · obtain ⟨mws', hmws, rfl⟩ := Option.map_eq_some_iff.mp hstep
        obtain rfl := hchain mws' hmws
        refine ⟨by simpa [CallPc.afterLeft] using h.faithful.after, ?_⟩
        have hleft := (hfail rfl).reverse
        rwa [← named_reverse] at hleft
    · cases hstep
  | onError outcome => exact h.stepOnError hstep
  | timeout =>
    simp only [CallState.step] at hstep
    split at hstep
    · obtain rfl := Option.some.inj hstep
      exact h.leave (List.Sublist.refl _) rfl rfl rfl rfl
    · obtain rfl := Option.some.inj hstep
      exact h.leave (List.Sublist.refl _) rfl rfl rfl rfl
    · cases hstep
  | finish =>
    simp only [CallState.step] at hstep
    split at hstep
    · obtain rfl := Option.some.inj hstep
      exact h.leave (List.Sublist.refl _) rfl rfl rfl rfl
    · cases hstep

/-! ## Runs -/

theorem chain_eq {s : State} {mws : List MiddlewareRef} (h : s.chain = some mws) :
    mws = s.manager.shared.middlewares := by
  rw [State.chain] at h
  split_ifs at h
  exact (Option.some.inj h).symm

theorem inv_step {s s' : State} {l : Label} (h : ∀ n, Inv (s.calls n)) (hsteady : steady s l = true)
    (hstep : step s l = some s') : ∀ n, Inv (s'.calls n) := by
  cases l with
  | manager l =>
    obtain ⟨manager, -, rfl⟩ := Option.map_eq_some_iff.mp hstep
    exact h
  | call n e =>
    obtain ⟨c, hc, rfl⟩ := Option.map_eq_some_iff.mp hstep
    intro k
    show Inv (Function.update s.calls n c k)
    by_cases hk : k = n
    · subst hk
      rw [Function.update_self]
      apply (h k).step (fun _ hmws => chain_eq hmws) _ _ hc
      · rintro rfl
        exact List.isSublist_iff_sublist.mp hsteady
      · rintro rfl
        exact List.isSublist_iff_sublist.mp hsteady
    · rw [Function.update_of_ne hk]
      exact h k

/-- The loop of `execute_after` goes through what it has left. -/
theorem exec_after {n : Nat} {left : List MiddlewareRef} {s : State}
    (hpc : (s.calls n).pc = .after left) :
    ∃ s', Transition.exec step s (List.replicate left.length (.call n (.after false))) = some s' ∧
      (s'.calls n).afterHooked = (s.calls n).afterHooked ++ left ∧
      (s'.calls n).ran = (s.calls n).ran := by
  induction left generalizing s with
  | nil => exact ⟨s, rfl, (List.append_nil _).symm, rfl⟩
  | cons mw left ih =>
    let c : CallState :=
      { s.calls n with afterHooked := (s.calls n).afterHooked ++ [mw], pc := .after left }
    have hstep : step s (.call n (.after false)) =
        some { s with calls := Function.update s.calls n c } := by
      simp [step, CallState.step, CallState.stepAfter, hpc, c]
    have hself : Function.update s.calls n c n = c := Function.update_self ..
    obtain ⟨s', hrun, hhooked, hran⟩ :=
      ih (s := { s with calls := Function.update s.calls n c }) (by simp [c])
    refine ⟨s', Transition.exec_cons.mpr ⟨_, hstep, hrun⟩, ?_, ?_⟩
    · simp only [hself] at hhooked
      rw [hhooked, List.append_cons]
    · simp only [hself] at hran
      exact hran

/-- The loop of `execute_on_error_outcome` goes through what it has left. -/
theorem exec_onError {n : Nat} {mws : List MiddlewareRef} {left : List Nat} {s : State}
    (hpc : (s.calls n).pc = .onError mws left) :
    ∃ s', Transition.exec step s (List.replicate left.length (.call n (.onError none))) = some s' ∧
      (s'.calls n).errorHooked = (s.calls n).errorHooked ++ named mws left ∧
      (s'.calls n).ran = (s.calls n).ran := by
  induction left generalizing s with
  | nil => exact ⟨s, rfl, (List.append_nil _).symm, rfl⟩
  | cons i left ih =>
    let c : CallState :=
      { s.calls n with
        errorHooked := (s.calls n).errorHooked ++ named mws [i]
        pc := .onError mws left }
    have hstep : step s (.call n (.onError none)) =
        some { s with calls := Function.update s.calls n c } := by
      cases hmw : mws[i]? <;>
        simp [step, CallState.step, CallState.stepOnError, hpc, hmw, c, named]
    have hself : Function.update s.calls n c n = c := Function.update_self ..
    obtain ⟨s', hrun, hhooked, hran⟩ :=
      ih (s := { s with calls := Function.update s.calls n c }) (by simp [c])
    refine ⟨s', Transition.exec_cons.mpr ⟨_, hstep, hrun⟩, ?_, ?_⟩
    · simp only [hself] at hhooked
      rw [hhooked, List.append_assoc, named, named, named, ← List.filterMap_append]
      rfl
    · simp only [hself] at hran
      exact hran

/-- A step of a loop that unwinds. -/
def Label.isHook : Label → Bool
  | .call _ (.after _) => true
  | .call _ (.onError _) => true
  | _ => false

/-- Here, and wherever the loops under way lead to, the hooks are those of the instances that ran. -/
def Unwinds (s : State) : Prop :=
  ∀ hooks s', (∀ l ∈ hooks, Label.isHook l = true) → Transition.exec step s hooks = some s' →
    ∀ n, Faithful (s'.calls n)

theorem unwinds_iff {s : State} : Unwinds s ↔ ∀ n, Inv (s.calls n) := by
  constructor
  · intro h n
    constructor
    · cases hpc : (s.calls n).pc with
      | after left =>
        obtain ⟨s', hrun, hhooked, hran⟩ := exec_after hpc
        have hfaithful := (h _ s' (by simp [Label.isHook]) hrun n).after
        rwa [hhooked, hran] at hfaithful
      | _ => simpa [CallPc.afterLeft] using (h [] s nofun rfl n).after
    · cases hpc : (s.calls n).pc with
      | onError mws left =>
        obtain ⟨s', hrun, hhooked, hran⟩ := exec_onError hpc
        have hfaithful := (h _ s' (by simp [Label.isHook]) hrun n).onError
        rwa [hhooked, hran] at hfaithful
      | _ => simpa [CallPc.errorLeft] using (h [] s nofun rfl n).onError
  · intro h hooks s' hhooks hrun n
    have hsteady : Transition.Along step (fun s l => l ∈ hooks ∧ steady s l = true) s hooks := by
      apply Transition.along_of_forall
      intro m l hl
      refine ⟨hl, ?_⟩
      have hhook := hhooks l hl
      revert hhook
      cases l with
      | manager l => simp [Label.isHook]
      | call k e => cases e <;> simp [Label.isHook, steady]
    have hinv : ∀ n, Inv (s'.calls n) := Transition.exec_invariant_along
      (I := fun s : State => ∀ n, Inv (s.calls n))
      (fun s l s' h hok hstep => inv_step h hok.2 hstep) h hsteady hrun
    exact (hinv n).faithful

/-- Snapshots that are not steady are taken for hooks on other instances. -/
theorem steady_of_inv {s s' : State} {l : Label} (hstep : step s l = some s')
    (h : ∀ n, Inv (s'.calls n)) : steady s l = true := by
  cases l with
  | manager l => rfl
  | call n e =>
    obtain ⟨c, hc, rfl⟩ := Option.map_eq_some_iff.mp hstep
    have hn : Inv c := by simpa using h n
    cases e with
    | leave =>
      simp only [CallState.step] at hc
      split at hc
      · next mws hpc hmws =>
        obtain rfl := Option.some.inj hc
        obtain rfl := chain_eq hmws
        exact List.isSublist_iff_sublist.mpr (List.reverse_sublist.mp hn.after)
      · cases hc
    | fail =>
      simp only [CallState.step] at hc
      split at hc
      · split_ifs at hc with hempty
        · rw [steady, List.isEmpty_iff.mp hempty]
          exact List.isSublist_iff_sublist.mpr (List.nil_sublist _)
        · obtain ⟨mws, hmws, rfl⟩ := Option.map_eq_some_iff.mp hc
          obtain rfl := chain_eq hmws
          have hleft := hn.onError
          rw [CallPc.errorLeft, named_reverse] at hleft
          exact List.isSublist_iff_sublist.mpr (List.reverse_sublist.mp hleft)
      · cases hc
    | _ => rfl

/-- **The hooks of every call are those of the instances whose `before` ran in it, in reverse order,
exactly in the runs whose snapshots are steady.** -/
theorem hooks_faithful_iff {ls : List Label} {s : State}
    (hrun : Transition.exec step init ls = some s) :
    Transition.Along step (fun s l => steady s l = true) init ls ↔
      ∀ ls' m, ls' <+: ls → Transition.exec step init ls' = some m → Unwinds m := by
  apply Transition.along_iff_forall_prefix (I := fun _ => True) _ trivial _ hrun
  · intro s l s' _ hunwinds hstep
    rw [unwinds_iff] at hunwinds
    rw [unwinds_iff]
    exact ⟨trivial, fun hsteady => inv_step hunwinds hsteady hstep, steady_of_inv hstep⟩
  · exact unwinds_iff.mpr fun _ => inv_new

/-! ## Calls beside which the chain stays -/

theorem named_range (mws : List MiddlewareRef) (k : Nat) : named mws (List.range k) = mws.take k := by
  induction k with
  | zero => rfl
  | succ k ih =>
    have hlast : named mws [k] = mws[k]?.toList := by cases hk : mws[k]? <;> simp [named, hk]
    rw [List.range_succ, named, List.filterMap_append, List.take_add_one]
    exact congrArg₂ (· ++ ·) ih hlast

/-- The positions a call remembers are the first ones of the snapshot they are from. -/
structure Positions (c : CallState) : Prop where
  recorded : ∃ k, c.executedMiddlewares = List.range k ∧ (c.entered.take k).Sublist c.ran
  before : ∀ mws executed left, c.pc = .before mws executed left →
    ∃ k, executed = List.range k ∧ left = (mws.drop k).zipIdx k ∧ (mws.take k).Sublist c.ran

theorem positions_new : Positions .new := ⟨⟨0, rfl, List.nil_sublist _⟩, nofun⟩

/-- A call that is not in `execute_before` afterwards, and records nothing new. -/
theorem Positions.leave {c c' : CallState} (h : Positions c)
    (hexecuted : c'.executedMiddlewares = c.executedMiddlewares) (hentered : c'.entered = c.entered)
    (hran : c'.ran = c.ran) (hpc : ∀ mws executed left, c'.pc ≠ .before mws executed left) :
    Positions c' := by
  constructor
  · rw [hexecuted, hentered, hran]
    exact h.recorded
  · intro mws executed left hbefore
    exact absurd hbefore (hpc mws executed left)

theorem Positions.stepBefore {c c' : CallState} {failed : Bool} (h : Positions c)
    (hstep : c.stepBefore failed = some c') : Positions c' := by
  rw [CallState.stepBefore] at hstep
  split at hstep
  · next mws executed hpc =>
    obtain rfl := Option.some.inj hstep
    obtain ⟨k, hexecuted, -, hran⟩ := h.before _ _ _ hpc
    exact ⟨⟨k, hexecuted, hran⟩, nofun⟩
  · next mws executed mw i left hpc =>
    obtain ⟨k, rfl, hleft, hran⟩ := h.before _ _ _ hpc
    -- the next one of the snapshot is the one at position `i`
    have hk : k < mws.length := by
      by_contra hk
      rw [List.drop_eq_nil_of_le (by omega)] at hleft
      cases hleft
    rw [List.drop_eq_getElem_cons hk, List.zipIdx_cons] at hleft
    obtain ⟨hhead, rfl⟩ := List.cons.inj hleft
    obtain ⟨rfl, rfl⟩ := Prod.mk.inj hhead
    have hran' : (mws.take (i + 1)).Sublist (c.ran ++ [mws[i]]) := by
      rw [List.take_succ_eq_append_getElem hk]
      exact hran.append (List.Sublist.refl _)
    dsimp only at hstep
    split_ifs at hstep
    · obtain rfl := Option.some.inj hstep
      exact ⟨⟨i + 1, List.range_succ.symm, hran'⟩, nofun⟩
    · obtain rfl := Option.some.inj hstep
      obtain ⟨j, hj, hentered⟩ := h.recorded
      refine ⟨⟨j, hj, hentered.trans (List.sublist_append_left _ _)⟩, ?_⟩
      intro mws' executed left hbefore
      cases hbefore
      exact ⟨i + 1, List.range_succ.symm, rfl, hran'⟩
  · cases hstep

theorem Positions.step {c c' : CallState} {chain : Option (List MiddlewareRef)} {e : Event}
    (h : Positions c) (hstep : c.step chain e = some c') : Positions c' := by
  cases e with
  | enter =>
    simp only [CallState.step] at hstep
    split at hstep
    · next mws hpc =>
      obtain rfl := Option.some.inj hstep
      refine ⟨h.recorded, ?_⟩
      intro mws' executed left hbefore
      cases hbefore
      exact ⟨0, rfl, rfl, List.nil_sublist _⟩
    · cases hstep
  | before failed => exact h.stepBefore hstep
  | leave =>
    simp only [CallState.step] at hstep
    split at hstep
    · obtain rfl := Option.some.inj hstep
      exact h.leave rfl rfl rfl nofun
    · cases hstep
  | after failed =>
    simp only [CallState.step, CallState.stepAfter] at hstep
    split at hstep
    · obtain rfl := Option.some.inj hstep
      exact h.leave rfl rfl rfl nofun
    · obtain rfl := Option.some.inj hstep
      exact h.leave rfl rfl rfl (by cases failed <;> nofun)
    · cases hstep
  | fail =>
    simp only [CallState.step] at hstep
    split at hstep
    · split_ifs at hstep
      · obtain rfl := Option.some.inj hstep
        exact h.leave rfl rfl rfl nofun
      · obtain ⟨mws, -, rfl⟩ := Option.map_eq_some_iff.mp hstep
        exact h.leave rfl rfl rfl nofun
    · cases hstep
  | onError outcome =>
    simp only [CallState.step, CallState.stepOnError] at hstep
    split at hstep
    · obtain rfl := Option.some.inj hstep
      exact h.leave rfl rfl rfl nofun
    · split at hstep
      · obtain rfl := Option.some.inj hstep
        exact h.leave rfl rfl rfl nofun
      · split at hstep
        · obtain rfl := Option.some.inj hstep
          exact h.leave rfl rfl rfl nofun
        · obtain rfl := Option.some.inj hstep
          exact h.leave rfl rfl rfl nofun
        · obtain rfl := Option.some.inj hstep
          exact positions_new
    · cases hstep
  | timeout =>
    simp only [CallState.step] at hstep
    split at hstep
    · obtain rfl := Option.some.inj hstep
      exact h.leave rfl rfl rfl nofun
    · obtain rfl := Option.some.inj hstep
      exact h.leave rfl rfl rfl nofun
    · cases hstep
  | finish =>
    simp only [CallState.step] at hstep
    split at hstep
    · obtain rfl := Option.some.inj hstep
      exact h.leave rfl rfl rfl nofun
    · cases hstep

/-- The chain has, at a call's snapshot, what it had when the call entered it, or, where all the
middlewares were entered, has lost some of them since. -/
structure Stays (mws : List MiddlewareRef) (c : CallState) (e : Event) : Prop where
  fail : e = .fail → mws = c.entered ∨
    mws.Sublist c.entered ∧ c.entered.length ≤ c.executedMiddlewares.length
  leave : e = .leave → mws.Sublist c.entered ∧ c.entered.length ≤ c.executedMiddlewares.length

theorem Stays.steady {s : State} {n : Nat} {e : Event} (hpositions : Positions (s.calls n))
    (h : Stays s.manager.shared.middlewares (s.calls n) e) : steady s (.call n e) = true := by
  obtain ⟨k, hexecuted, hran⟩ := hpositions.recorded
  have hwhole : s.manager.shared.middlewares.Sublist (s.calls n).entered ∧
      (s.calls n).entered.length ≤ (s.calls n).executedMiddlewares.length →
        s.manager.shared.middlewares.Sublist (s.calls n).ran := by
    rintro ⟨hsublist, hall⟩
    rw [hexecuted, List.length_range] at hall
    rw [List.take_of_length_le hall] at hran
    exact hsublist.trans hran
  cases e with
  | leave => exact List.isSublist_iff_sublist.mpr (hwhole (h.leave rfl))
  | fail =>
    refine List.isSublist_iff_sublist.mpr ?_
    rw [hexecuted, named_range]
    rcases h.fail rfl with heq | hlost
    · rwa [heq]
    · exact (List.take_sublist _ _).trans (hwhole hlost)
  | _ => rfl

/-- Three instances of one priority. -/
def auditHook : MiddlewareRef := { ref := 0, name := "audit", priority := 100 }
def gateHook : MiddlewareRef := { ref := 1, name := "gate", priority := 100 }
def cacheHook : MiddlewareRef := { ref := 2, name := "cache", priority := 100 }

/-- A thread runs a call of the manager that takes six acts. -/
def managerCall (c : ManagerLocks.Call) : List Label :=
  .manager (.call 0 c) :: List.replicate 6 (.manager (.go 0))

def addThree : List Label :=
  managerCall (.insert auditHook none) ++ managerCall (.insert gateHook none) ++
    managerCall (.insert cacheHook none)

/-- `gate` fails in `before`, and `on_error` goes over the two instances that were entered. -/
def gateFails : List Label :=
  addThree ++ [.call 0 .enter, .call 0 (.before false), .call 0 (.before true), .call 0 .fail,
    .call 0 (.onError none), .call 0 (.onError none), .call 0 (.onError none)]

theorem hooks_faithful_gateFails :
    (Transition.exec step init gateFails).isSome = true ∧
      ∀ ls' m, ls' <+: gateFails → Transition.exec step init ls' = some m → Unwinds m := by
  have hruns : (Transition.exec step init gateFails).isSome = true := by decide
  obtain ⟨s, hrun⟩ := Option.isSome_iff_exists.mp hruns
  exact ⟨hruns, (hooks_faithful_iff hrun).mp (by decide)⟩

/-- The same call; `audit` is removed before the error path looks up the positions. -/
def gateFailsUnderRemoval : List Label :=
  addThree ++ [.call 0 .enter, .call 0 (.before false), .call 0 (.before true)] ++
    managerCall (.remove "audit") ++ [.call 0 .fail, .call 0 (.onError none)]

/-- Position 1 is `cache` by then: its `on_error` is invoked, and its `before` never ran. -/
theorem removal_misdirects_onError :
    ∃ s, Transition.exec step init gateFailsUnderRemoval = some s ∧
      (s.calls 0).ran = [auditHook, gateHook] ∧ (s.calls 0).errorHooked = [cacheHook] ∧
      ¬Faithful (s.calls 0) := by
  refine ⟨_, rfl, rfl, rfl, fun h => ?_⟩
  have hmem : cacheHook ∈ [auditHook, gateHook].reverse := h.onError.subset List.mem_cons_self
  revert hmem
  decide

end HookRuns

end Apcore
