import Mathlib.Logic.Function.Basic
import Apcore.Lib.Transition

/-! # `AsyncTask.Reaper` — the background reaper of a task manager

That a reaper runs is recorded three times: in the flag `reaper_running`, in the slot that keeps its
stop sender, and in the sender of its handle. `stop` of a handle and `stop_reaper` clear the flag and
the slot without a look at whose they are. -/

namespace Apcore

namespace Reapers

/-- How far a reaper has come: `start_reaper` has won the flag, has spawned the sweep loop, has put
the sender into the slot and returned the handle; the loop has returned. -/
inductive Phase where
  | absent
  | starting (n : Nat)
  | spawned (n : Nat)
  | registered
  | ended
  deriving DecidableEq, Repr

/-- A reaper; `stopped` says that `true` was sent to its loop, `held` that its handle is there. -/
structure Reaper where
  phase : Phase
  stopped : Bool
  held : Bool
  deriving DecidableEq, Repr

/-- Where a call stands. -/
inductive CallPc where
  | idle
  /-- `start_reaper`, from its compare-and-exchange on. -/
  | starting (r : Nat)
  | registering (r : Nat)
  /-- `ReaperHandle::stop`: about to send, to join the loop, to take the slot. -/
  | stopping (r : Nat)
  | joining (r : Nat)
  | unregistering
  /-- `stop_reaper`: about to take the slot, and to send with what it took. -/
  | taking
  | signalling (sender : Option Nat)
  /-- Both: about to clear the flag. -/
  | clearing
  deriving DecidableEq, Repr

/-- `AsyncTaskManager`, as far as its reapers go, with the reapers by number. -/
structure State where
  reaperRunning : Bool
  reaperStop : Option Nat
  reapers : Nat → Reaper
  nextReaper : Nat
  calls : Nat → CallPc

def init : State where
  reaperRunning := false
  reaperStop := none
  reapers := fun _ => { phase := .absent, stopped := false, held := false }
  nextReaper := 0
  calls := fun _ => .idle

namespace State

def setCall (s : State) (n : Nat) (pc : CallPc) : State :=
  { s with calls := Function.update s.calls n pc }

def setReaper (s : State) (r : Nat) (x : Reaper) : State :=
  { s with reapers := Function.update s.reapers r x }

/-- `stop_tx.send(true)`. -/
def send (s : State) (r : Nat) : State := s.setReaper r { s.reapers r with stopped := true }

/-- The compare-and-exchange of `start_reaper`, which returns an error when it loses. -/
def compareExchange (s : State) (n : Nat) : State :=
  if s.reaperRunning then s
  else
    { (s.setReaper s.nextReaper { phase := .starting n, stopped := false, held := false }).setCall n
        (.starting s.nextReaper) with
      reaperRunning := true
      nextReaper := s.nextReaper + 1 }

/-- A call goes on. -/
def go (s : State) (n : Nat) : Option State :=
  match s.calls n with
  | .idle => none
  | .starting r =>
    some ((s.setReaper r { s.reapers r with phase := .spawned n }).setCall n (.registering r))
  | .registering r =>
    some
      { (s.setReaper r { s.reapers r with phase := .registered, held := true }).setCall n .idle with
        reaperStop := some r }
  | .stopping r => some ((s.send r).setCall n (.joining r))
  | .joining r =>
    if (s.reapers r).phase = .ended then some (s.setCall n .unregistering) else none
  | .unregistering => some { s.setCall n .clearing with reaperStop := none }
  | .taking => some { s.setCall n (.signalling s.reaperStop) with reaperStop := none }
  | .signalling none => some (s.setCall n .clearing)
  | .signalling (some r) => some ((s.send r).setCall n .clearing)
  | .clearing => some { s.setCall n .idle with reaperRunning := false }

end State

inductive Label where
  | startReaper (n : Nat)
  | stop (n r : Nat)
  | stopReaper (n : Nat)
  /-- A handle is dropped; or the future of its `stop` is, while it waits for the loop. -/
  | drop (r : Nat)
  | dropStop (n : Nat)
  | go (n : Nat)
  /-- The sweep loop sees that it is stopped, and returns. -/
  | finish (r : Nat)
  deriving DecidableEq, Repr

def step (s : State) : Label → Option State
  | .startReaper n => if s.calls n = .idle then some (s.compareExchange n) else none
  | .stop n r =>
    if s.calls n = .idle ∧ (s.reapers r).held then
      some ((s.setReaper r { s.reapers r with held := false }).setCall n (.stopping r))
    else none
  | .stopReaper n => if s.calls n = .idle then some (s.setCall n .taking) else none
  | .drop r =>
    if (s.reapers r).held then some (s.setReaper r { s.reapers r with held := false }) else none
  | .dropStop n =>
    match s.calls n with
    | .joining _ => some (s.setCall n .idle)
    | _ => none
  | .go n => s.go n
  | .finish r =>
    if (s.reapers r).phase = .registered ∧ (s.reapers r).stopped then
      some (s.setReaper r { s.reapers r with phase := .ended })
    else none

/-! ## One reaper -/

namespace Reaper

/-- The sweep loop is alive, and was not told to stop. -/
def unstopped (x : Reaper) : Bool :=
  match x.phase with
  | .spawned _ => !x.stopped
  | .registered => !x.stopped
  | _ => false

/-- The sweep loop is alive, or about to be, and was not told to stop. -/
def live (x : Reaper) : Bool :=
  match x.phase with
  | .starting _ => true
  | _ => x.unstopped

end Reaper

/-- No call is in progress. -/
def Quiet (s : State) : Prop := ∀ n, s.calls n = .idle

/-- At most one unstopped sweep loop is alive; and with no call in progress the flag says whether one
is, and the slot has its sender. -/
structure OneReaper (s : State) : Prop where
  one : ∀ r r', (s.reapers r).unstopped = true → (s.reapers r').unstopped = true → r = r'
  running : Quiet s → (s.reaperRunning = true ↔ ∃ r, (s.reapers r).unstopped = true)
  slot : Quiet s → ∀ r, (s.reapers r).unstopped = true → s.reaperStop = some r

/-- A reaper is live. -/
def State.anyLive (s : State) : Bool :=
  (List.range s.nextReaper).any fun r => (s.reapers r).live

/-- `stop` takes no sender of a live reaper out of the slot, the flag is not cleared while a reaper is
live, and a `stop` that is dropped leaves a flag behind that is clear, or a live reaper's. -/
def inOrder (s : State) : Label → Bool
  | .go n =>
    match s.calls n with
    | .unregistering => !s.reaperStop.any fun r => (s.reapers r).live
    | .clearing => !s.anyLive
    | _ => true
  | .dropStop _ => !s.reaperRunning || s.anyLive
  | _ => true

end Reapers

end Apcore

/-! ## One reaper, while no other's flag and slot are cleared

A reaper is live from the moment its `start_reaper` wins the flag until its loop is told to stop. At
most one is; the slot has its sender, or a `stop_reaper` that is about to use it; and a flag that is
set is a live reaper's, or about to be cleared. -/

namespace Apcore

namespace Reapers

/-! ## What the records say of each other -/

/-- The reaper has been registered. -/
def Phase.Past : Phase → Prop
  | registered => True
  | ended => True
  | _ => False

namespace CallPc

/-- The reaper that a `start_reaper` has not registered yet. -/
def launches : CallPc → Option Nat
  | starting r => some r
  | registering r => some r
  | _ => none

/-- The reaper whose sender a call has. -/
def sender : CallPc → Option Nat
  | stopping r => some r
  | joining r => some r
  | signalling sender => sender
  | _ => none

/-- The call clears the flag before it returns. -/
def clears : CallPc → Bool
  | stopping _ => true
  | joining _ => true
  | unregistering => true
  | taking => true
  | signalling _ => true
  | clearing => true
  | _ => false

end CallPc

section Records

variable (s : State)

@[simp] theorem calls_setCall (n n' : Nat) (pc : CallPc) :
    (s.setCall n pc).calls n' = if n' = n then pc else s.calls n' := Function.update_apply ..

@[simp] theorem reapers_setReaper (r r' : Nat) (x : Reaper) :
    (s.setReaper r x).reapers r' = if r' = r then x else s.reapers r' := Function.update_apply ..

@[simp] theorem reaperStop_setCall (n : Nat) (pc : CallPc) :
    (s.setCall n pc).reaperStop = s.reaperStop := rfl

@[simp] theorem calls_setReaper (r : Nat) (x : Reaper) : (s.setReaper r x).calls = s.calls := rfl

@[simp] theorem reaperStop_setReaper (r : Nat) (x : Reaper) :
    (s.setReaper r x).reaperStop = s.reaperStop := rfl

end Records

/-- The phases against the calls, the slot and the handles. -/
structure Phases (s : State) : Prop where
  fresh : ∀ r, s.nextReaper ≤ r → (s.reapers r).phase = .absent
  starting : ∀ n r, s.calls n = .starting r ↔ (s.reapers r).phase = .starting n
  registering : ∀ n r, s.calls n = .registering r ↔ (s.reapers r).phase = .spawned n
  slot : ∀ r, s.reaperStop = some r → (s.reapers r).phase.Past
  held : ∀ r, (s.reapers r).held = true → (s.reapers r).phase.Past
  stopped : ∀ r, (s.reapers r).stopped = true → (s.reapers r).phase.Past
  sender : ∀ n r, (s.calls n).sender = some r → (s.reapers r).phase.Past

/-- One reaper is live; the flag is set while it is, and is due to be cleared when none is. -/
structure Inv (s : State) : Prop where
  phases : Phases s
  one : ∀ r r', (s.reapers r).live = true → (s.reapers r').live = true → r = r'
  flag : ∀ r, (s.reapers r).live = true → s.reaperRunning = true
  kept : ∀ r, (s.reapers r).phase = .registered → (s.reapers r).stopped = false →
    s.reaperStop = some r ∨ ∃ n, s.calls n = .signalling (some r)
  due : s.reaperRunning = true → (∃ r, (s.reapers r).live = true) ∨ ∃ n, (s.calls n).clears = true

theorem anyLive_iff {s : State} (h : Phases s) :
    s.anyLive = true ↔ ∃ r, (s.reapers r).live = true := by
  rw [State.anyLive, List.any_eq_true]
  constructor
  · rintro ⟨r, -, hr⟩
    exact ⟨r, hr⟩
  · rintro ⟨r, hr⟩
    refine ⟨r, List.mem_range.mpr ?_, hr⟩
    by_contra hle
    have habsent := h.fresh r (by omega)
    simp [Reaper.live, Reaper.unstopped, habsent] at hr

theorem live_of_unstopped {x : Reaper} (h : x.unstopped = true) : x.live = true := by
  cases hphase : x.phase <;> simp_all [Reaper.live, Reaper.unstopped]

theorem live_of_registered {x : Reaper} (hphase : x.phase = .registered)
    (hstopped : x.stopped = false) : x.live = true := by
  simp [Reaper.live, Reaper.unstopped, hphase, hstopped]

/-- With no call in progress, the reaper that is live runs. -/
theorem Inv.oneReaper {s : State} (h : Inv s) : OneReaper s := by
  constructor
  · intro r r' hr hr'
    exact h.one r r' (live_of_unstopped hr) (live_of_unstopped hr')
  · intro hquiet
    constructor
    · intro hrunning
      rcases h.due hrunning with ⟨r, hr⟩ | ⟨n, hn⟩
      · refine ⟨r, ?_⟩
        cases hphase : (s.reapers r).phase with
        | starting n =>
          have hcall := (h.phases.starting n r).mpr hphase
          rw [hquiet n] at hcall
          cases hcall
        | _ => simpa [Reaper.live, hphase] using hr
      · rw [hquiet n] at hn
        cases hn
    · rintro ⟨r, hr⟩
      exact h.flag r (live_of_unstopped hr)
  · intro hquiet r hr
    cases hphase : (s.reapers r).phase with
    | spawned n =>
      have hcall := (h.phases.registering n r).mpr hphase
      rw [hquiet n] at hcall
      cases hcall
    | registered =>
      have hstopped : (s.reapers r).stopped = false := by simpa [Reaper.unstopped, hphase] using hr
      refine (h.kept r hphase hstopped).resolve_right ?_
      rintro ⟨n, hn⟩
      rw [hquiet n] at hn
      cases hn
    | _ => simp [Reaper.unstopped, hphase] at hr

/-! ## Steps -/

/-- A call other than `start_reaper` goes on, and no reaper changes. -/
theorem Inv.call {s s' : State} {n : Nat} {pc : CallPc} (h : Inv s)
    (hreapers : s'.reapers = s.reapers) (hnext : s'.nextReaper = s.nextReaper)
    (hcalls : ∀ n', s'.calls n' = if n' = n then pc else s.calls n')
    (hslot : ∀ r, s'.reaperStop = some r → s.reaperStop = some r)
    (hold : (s.calls n).launches = none) (hnew : pc.launches = none)
    (hsender : ∀ r, pc.sender = some r → (s.reapers r).phase.Past)
    (hkept : ∀ r, (s.reapers r).live = true →
      s.reaperStop = some r ∨ s.calls n = .signalling (some r) →
        s'.reaperStop = some r ∨ pc = .signalling (some r))
    (hflag : s'.reaperRunning = s.reaperRunning ∨
      s'.reaperRunning = false ∧ ∀ r, (s.reapers r).live = false)
    (hdue : s'.reaperRunning = true → (s.calls n).clears = true →
      pc.clears = true ∨ ∃ r, (s.reapers r).live = true) : Inv s' := by
  have hlaunch : ∀ n' r, (s'.calls n' = .starting r ↔ s.calls n' = .starting r) ∧
      (s'.calls n' = .registering r ↔ s.calls n' = .registering r) := by
    intro n' r
    rw [hcalls]
    split_ifs with hn
    · subst hn
      constructor
      · constructor
        · rintro rfl
          cases hnew
        · intro hcall
          rw [hcall] at hold
          cases hold
      · constructor
        · rintro rfl
          cases hnew
        · intro hcall
          rw [hcall] at hold
          cases hold
    · exact ⟨Iff.rfl, Iff.rfl⟩
  refine ⟨⟨?_, ?_, ?_, ?_, ?_, ?_, ?_⟩, ?_, ?_, ?_, ?_⟩
  · rw [hreapers, hnext]
    exact h.phases.fresh
  · intro n' r
    rw [(hlaunch n' r).1, hreapers]
    exact h.phases.starting n' r
  · intro n' r
    rw [(hlaunch n' r).2, hreapers]
    exact h.phases.registering n' r
  · intro r hr
    rw [hreapers]
    exact h.phases.slot r (hslot r hr)
  · rw [hreapers]
    exact h.phases.held
  · rw [hreapers]
    exact h.phases.stopped
  · intro n' r hr
    rw [hreapers]
    rw [hcalls] at hr
    split_ifs at hr
    · exact hsender r hr
    · exact h.phases.sender n' r hr
  · rw [hreapers]
    exact h.one
  · intro r hr
    rw [hreapers] at hr
    rcases hflag with hsame | ⟨-, hnone⟩
    · rw [hsame]
      exact h.flag r hr
    · rw [hnone r] at hr
      cases hr
  · intro r hphase hstopped
    rw [hreapers] at hphase hstopped
    have hlive := live_of_registered hphase hstopped
    have hself : s'.reaperStop = some r ∨ pc = .signalling (some r) →
        s'.reaperStop = some r ∨ ∃ n', s'.calls n' = .signalling (some r) :=
      fun hor => hor.imp_right fun hpc => ⟨n, by rw [hcalls, if_pos rfl, hpc]⟩
    rcases h.kept r hphase hstopped with hslot' | ⟨n', hn'⟩
    · exact hself (hkept r hlive (.inl hslot'))
    · by_cases hn : n' = n
      · subst hn
        exact hself (hkept r hlive (.inr hn'))
      · exact .inr ⟨n', by rw [hcalls, if_neg hn, hn']⟩
  · intro hrunning
    rw [hreapers]
    have hrunning' : s.reaperRunning = true := by
      rcases hflag with hsame | ⟨hfalse, -⟩
      · rwa [← hsame]
      · rw [hfalse] at hrunning
        cases hrunning
    rcases h.due hrunning' with hlive | ⟨n', hn'⟩
    · exact .inl hlive
    · by_cases hn : n' = n
      · subst hn
        rcases hdue hrunning hn' with hpc | hlive
        · exact .inr ⟨n', by rw [hcalls, if_pos rfl, hpc]⟩
        · exact .inl hlive
      · exact .inr ⟨n', by rw [hcalls, if_neg hn, hn']⟩

/-- A reaper that is registered changes: it is stopped, or ends, or its handle goes. -/
theorem Inv.reaper {s : State} {r : Nat} {x : Reaper} (h : Inv s)
    (hpast : (s.reapers r).phase.Past) (hpast' : x.phase.Past)
    (hlive : x.live = true → (s.reapers r).live = true)
    (hkeeps : (s.reapers r).live = true → x.live = true ∨ ∃ n, (s.calls n).clears = true) :
    Inv (s.setReaper r x) := by
  have hother : ∀ r', ((s.setReaper r x).reapers r').live = true → (s.reapers r').live = true := by
    intro r' hr'
    rw [reapers_setReaper] at hr'
    split_ifs at hr' with hr
    · exact hr ▸ hlive hr'
    · exact hr'
  have hpasts : ∀ r', (s.reapers r').phase.Past → ((s.setReaper r x).reapers r').phase.Past := by
    intro r' hr'
    rw [reapers_setReaper]
    split_ifs
    · exact hpast'
    · exact hr'
  refine ⟨⟨?_, ?_, ?_, ?_, ?_, ?_, ?_⟩, ?_, ?_, ?_, ?_⟩
  · intro r' hr'
    have habsent := h.phases.fresh r' hr'
    rw [reapers_setReaper, if_neg]
    · exact habsent
    · rintro rfl
      rw [habsent] at hpast
      exact hpast
  · intro n r'
    rw [calls_setReaper, reapers_setReaper, h.phases.starting]
    split_ifs with hr
    · subst hr
      refine iff_of_false ?_ ?_
      · intro hphase
        rw [hphase] at hpast
        exact hpast
      · intro hphase
        rw [hphase] at hpast'
        exact hpast'
    · exact Iff.rfl
  · intro n r'
    rw [calls_setReaper, reapers_setReaper, h.phases.registering]
    split_ifs with hr
    · subst hr
      refine iff_of_false ?_ ?_
      · intro hphase
        rw [hphase] at hpast
        exact hpast
      · intro hphase
        rw [hphase] at hpast'
        exact hpast'
    · exact Iff.rfl
  · exact fun r' hr' => hpasts r' (h.phases.slot r' hr')
  · intro r' hr'
    rw [reapers_setReaper] at hr' ⊢
    split_ifs at hr' ⊢
    · exact hpast'
    · exact h.phases.held r' hr'
  · intro r' hr'
    rw [reapers_setReaper] at hr' ⊢
    split_ifs at hr' ⊢
    · exact hpast'
    · exact h.phases.stopped r' hr'
  · exact fun n r' hr' => hpasts r' (h.phases.sender n r' hr')
  · exact fun r' r'' hr' hr'' => h.one r' r'' (hother r' hr') (hother r'' hr'')
  · exact fun r' hr' => h.flag r' (hother r' hr')
  · intro r' hphase hstopped
    have hlive' := hother r' (live_of_registered hphase hstopped)
    cases hphase' : (s.reapers r').phase with
    | registered =>
      exact h.kept r' hphase' (by simpa [Reaper.live, Reaper.unstopped, hphase'] using hlive')
    | ended => simp [Reaper.live, Reaper.unstopped, hphase'] at hlive'
    | _ =>
      rw [reapers_setReaper] at hphase
      split_ifs at hphase with hr
      · rw [hr] at hphase'
        rw [hphase'] at hpast
        exact absurd hpast id
      · rw [hphase] at hphase'
        cases hphase'
  · intro hrunning
    rcases h.due hrunning with ⟨r', hr'⟩ | hclears
    · by_cases hr : r' = r
      · subst hr
        refine (hkeeps hr').imp_left fun hx => ⟨r', ?_⟩
        rw [reapers_setReaper, if_pos rfl]
        exact hx
      · refine .inl ⟨r', ?_⟩
        rw [reapers_setReaper, if_neg hr]
        exact hr'
    · exact .inr hclears

/-- A reaper that a call launches, while no other is live: the call, the reaper and the slot say how
far it is. -/
structure Launched (n r : Nat) (pc : CallPc) (x : Reaper) (slot slot' : Option Nat) : Prop where
  starting : pc = .starting r ↔ x.phase = .starting n
  registering : pc = .registering r ↔ x.phase = .spawned n
  slot : slot' = slot ∨ slot' = some r ∧ x.phase.Past
  registered : x.phase = .registered → slot' = some r
  stopped : x.stopped = false
  held : x.held = true → x.phase.Past
  launches : ∀ r', pc.launches = some r' → r' = r
  phase : ∀ n', x.phase = .starting n' ∨ x.phase = .spawned n' → n' = n
  sender : pc.sender = none
  live : x.live = true

theorem Inv.launch {s s' : State} {n r : Nat} {pc : CallPc} {x : Reaper} (h : Inv s)
    (hx : Launched n r pc x s.reaperStop s'.reaperStop)
    (hreapers : ∀ r', s'.reapers r' = if r' = r then x else s.reapers r')
    (hcalls : ∀ n', s'.calls n' = if n' = n then pc else s.calls n')
    (hnext : s.nextReaper ≤ s'.nextReaper) (hr : r < s'.nextReaper)
    (hrunning : s'.reaperRunning = true) (hpast : ¬(s.reapers r).phase.Past)
    (hself : ∀ r', (s.calls n).launches = some r' → r' = r)
    (hcaller : ∀ n', (s.calls n').launches = some r → n' = n)
    (hothers : ∀ r', r' ≠ r → (s.reapers r').live = false) : Inv s' := by
  have hpasts : ∀ r', (s.reapers r').phase.Past → (s'.reapers r').phase.Past := by
    intro r' hr'
    have hne : r' ≠ r := by
      rintro rfl
      exact hpast hr'
    rwa [hreapers, if_neg hne]
  have honly : ∀ r', (s'.reapers r').live = true → r' = r := by
    intro r' hlive
    rw [hreapers] at hlive
    split_ifs at hlive with hsame
    · exact hsame
    · rw [hothers r' hsame] at hlive
      cases hlive
  refine ⟨⟨?_, ?_, ?_, ?_, ?_, ?_, ?_⟩, ?_, ?_, ?_, ?_⟩
  · intro r' hr'
    rw [hreapers, if_neg (by omega)]
    exact h.phases.fresh r' (by omega)
  · intro n' r'
    rw [hcalls, hreapers]
    split_ifs with hn hsame hsame
    · subst hn hsame
      exact hx.starting
    · subst hn
      refine iff_of_false ?_ ?_
      · rintro rfl
        exact hsame (hx.launches r' rfl)
      · intro hphase
        have hcall := (h.phases.starting n' r').mpr hphase
        exact hsame (hself r' (by rw [hcall]; rfl))
    · subst hsame
      refine iff_of_false ?_ ?_
      · intro hcall
        exact hn (hcaller n' (by rw [hcall]; rfl))
      · exact fun hphase => hn (hx.phase n' (.inl hphase))
    · exact h.phases.starting n' r'
  · intro n' r'
    rw [hcalls, hreapers]
    split_ifs with hn hsame hsame
    · subst hn hsame
      exact hx.registering
    · subst hn
      refine iff_of_false ?_ ?_
      · rintro rfl
        exact hsame (hx.launches r' rfl)
      · intro hphase
        have hcall := (h.phases.registering n' r').mpr hphase
        exact hsame (hself r' (by rw [hcall]; rfl))
    · subst hsame
      refine iff_of_false ?_ ?_
      · intro hcall
        exact hn (hcaller n' (by rw [hcall]; rfl))
      · exact fun hphase => hn (hx.phase n' (.inr hphase))
    · exact h.phases.registering n' r'
  · intro r' hr'
    rcases hx.slot with hsame | ⟨hnew, hphase⟩
    · exact hpasts r' (h.phases.slot r' (hsame ▸ hr'))
    · obtain rfl : r = r' := Option.some.inj (hnew.symm.trans hr')
      rwa [hreapers, if_pos rfl]
  · intro r' hheld
    rw [hreapers] at hheld ⊢
    split_ifs at hheld ⊢
    · exact hx.held hheld
    · exact h.phases.held r' hheld
  · intro r' hstopped
    rw [hreapers] at hstopped ⊢
    split_ifs at hstopped ⊢
    · rw [hx.stopped] at hstopped
      cases hstopped
    · exact h.phases.stopped r' hstopped
  · intro n' r' hsender
    rw [hcalls] at hsender
    split_ifs at hsender
    · rw [hx.sender] at hsender
      cases hsender
    · exact hpasts r' (h.phases.sender n' r' hsender)
  · intro r₁ r₂ h₁ h₂
    rw [honly r₁ h₁, honly r₂ h₂]
  · exact fun _ _ => hrunning
  · intro r' hphase hstopped
    obtain rfl := honly r' (live_of_registered hphase hstopped)
    rw [hreapers, if_pos rfl] at hphase
    exact .inl (hx.registered hphase)
  · intro _
    refine .inl ⟨r, ?_⟩
    rw [hreapers, if_pos rfl]
    exact hx.live

/-- `start_reaper` wins the flag. -/
theorem Inv.compareExchange {s : State} {n : Nat} (h : Inv s) (hidle : s.calls n = .idle) :
    Inv (s.compareExchange n) := by
  rw [State.compareExchange]
  split_ifs with hrunning
  · exact h
  have habsent := h.phases.fresh s.nextReaper (Nat.le_refl _)
  have hlaunched : Launched n s.nextReaper (.starting s.nextReaper)
      { phase := .starting n, stopped := false, held := false } s.reaperStop s.reaperStop := by
    constructor <;> simp [CallPc.launches, CallPc.sender, Reaper.live]
  refine h.launch hlaunched (fun r' => reapers_setReaper ..) (fun n' => calls_setCall ..)
    (Nat.le_succ _) (Nat.lt_succ_self _) rfl ?_ ?_ ?_ ?_
  · rw [habsent]
    exact id
  · intro r' hr'
    rw [hidle] at hr'
    cases hr'
  · intro n' hn'
    cases hcall : s.calls n' with
    | starting r =>
      rw [hcall] at hn'
      cases hn'
      rw [(h.phases.starting n' _).mp hcall] at habsent
      cases habsent
    | registering r =>
      rw [hcall] at hn'
      cases hn'
      rw [(h.phases.registering n' _).mp hcall] at habsent
      cases habsent
    | _ =>
      rw [hcall] at hn'
      cases hn'
  · intro r' _
    exact Bool.eq_false_iff.mpr fun hlive => hrunning (h.flag r' hlive)

/-- The call that launches a reaper, and the other reapers. -/
theorem Inv.launching {s : State} {n r : Nat} (h : Inv s) (hcall : (s.calls n).launches = some r) :
    (¬(s.reapers r).phase.Past) ∧ (s.reapers r).stopped = false ∧ (s.reapers r).held = false ∧
      (s.reapers r).live = true ∧ (∀ n', (s.calls n').launches = some r → n' = n) ∧ r < s.nextReaper := by
  have hphase : ∀ n', (s.calls n').launches = some r →
      (s.reapers r).phase = .starting n' ∨ (s.reapers r).phase = .spawned n' := by
    intro n' hn'
    cases hpc : s.calls n' with
    | starting r' =>
      rw [hpc] at hn'
      cases hn'
      exact .inl ((h.phases.starting n' r).mp hpc)
    | registering r' =>
      rw [hpc] at hn'
      cases hn'
      exact .inr ((h.phases.registering n' r).mp hpc)
    | _ =>
      rw [hpc] at hn'
      cases hn'
  have hpast : ¬(s.reapers r).phase.Past := by
    rcases hphase n hcall with hphase | hphase <;> rw [hphase] <;> exact id
  have hstopped : (s.reapers r).stopped = false :=
    Bool.eq_false_iff.mpr fun hstopped => hpast (h.phases.stopped r hstopped)
  refine ⟨hpast, hstopped, Bool.eq_false_iff.mpr fun hheld => hpast (h.phases.held r hheld), ?_, ?_, ?_⟩
  · rcases hphase n hcall with hphase | hphase <;> simp [Reaper.live, Reaper.unstopped, hphase, hstopped]
  · intro n' hn'
    rcases hphase n hcall with hold | hold <;> rcases hphase n' hn' with hnew | hnew <;>
      rw [hold] at hnew <;> cases hnew <;> rfl
  · by_contra hle
    have habsent := h.phases.fresh r (by omega)
    rcases hphase n hcall with hphase | hphase <;> rw [hphase] at habsent <;> cases habsent

theorem Inv.others {s : State} {r : Nat} (h : Inv s) (hlive : (s.reapers r).live = true) (r' : Nat)
    (hne : r' ≠ r) : (s.reapers r').live = false :=
  Bool.eq_false_iff.mpr fun hlive' => hne (h.one r' r hlive' hlive)

/-- The loop of a reaper that is registered is told to stop by a call that clears the flag later. -/
theorem Inv.send {s : State} {n r : Nat} (h : Inv s) (hsender : (s.calls n).sender = some r)
    (hclears : (s.calls n).clears = true) : Inv (s.send r) := by
  have hpast := h.phases.sender n r hsender
  refine h.reaper hpast hpast (fun hlive => ?_) fun _ => .inr ⟨n, hclears⟩
  cases hphase : (s.reapers r).phase with
  | registered => simp [Reaper.live, Reaper.unstopped, hphase] at hlive
  | ended => simp [Reaper.live, Reaper.unstopped, hphase] at hlive
  | _ =>
    rw [hphase] at hpast
    exact absurd hpast id

theorem not_live_send (s : State) {r : Nat} (hpast : (s.reapers r).phase.Past) :
    ((s.send r).reapers r).live = false := by
  rw [State.send, reapers_setReaper, if_pos rfl]
  cases hphase : (s.reapers r).phase with
  | registered => simp [Reaper.live, Reaper.unstopped, hphase]
  | ended => simp [Reaper.live, Reaper.unstopped, hphase]
  | _ =>
    rw [hphase] at hpast
    exact absurd hpast id

/-- A call that is not about to signal has no reaper's sender but what the slot has. -/
theorem slot_kept {s : State} {n : Nat} {pc : CallPc}
    (hold : ∀ r, s.calls n ≠ .signalling (some r)) (r : Nat)
    (hkept : s.reaperStop = some r ∨ s.calls n = .signalling (some r)) :
    s.reaperStop = some r ∨ pc = .signalling (some r) :=
  .inl (hkept.resolve_right (hold r))

theorem Inv.go {s s' : State} {n : Nat} (h : Inv s) (horder : inOrder s (.go n) = true)
    (hstep : s.go n = some s') : Inv s' := by
  have hself : ∀ {r}, (s.calls n).launches = some r →
      ∀ r', (s.calls n).launches = some r' → r' = r :=
    fun hr r' hr' => Option.some.inj (hr'.symm.trans hr)
  rw [inOrder] at horder
  rw [State.go] at hstep
  cases hpc : s.calls n with
  | idle =>
    rw [hpc] at hstep
    cases hstep
  | starting r =>
    rw [hpc] at hstep
    obtain rfl := Option.some.inj hstep
    have hlaunches : (s.calls n).launches = some r := by rw [hpc]; rfl
    obtain ⟨hpast, hstopped, hheld, hlive, hcaller, hlt⟩ := h.launching hlaunches
    refine h.launch (n := n) (r := r) ?_ (fun r' => reapers_setReaper ..)
      (fun n' => calls_setCall ..) (Nat.le_refl _) hlt (h.flag r hlive) hpast (hself hlaunches)
      hcaller (h.others hlive)
    constructor <;>
      simp [CallPc.launches, CallPc.sender, Reaper.live, Reaper.unstopped, hstopped, hheld]
  | registering r =>
    rw [hpc] at hstep
    obtain rfl := Option.some.inj hstep
    have hlaunches : (s.calls n).launches = some r := by rw [hpc]; rfl
    obtain ⟨hpast, hstopped, hheld, hlive, hcaller, hlt⟩ := h.launching hlaunches
    refine h.launch (n := n) (r := r) ?_ (fun r' => reapers_setReaper ..)
      (fun n' => calls_setCall ..) (Nat.le_refl _) hlt (h.flag r hlive) hpast (hself hlaunches)
      hcaller (h.others hlive)
    constructor <;>
      simp [CallPc.launches, CallPc.sender, Reaper.live, Reaper.unstopped, hstopped, Phase.Past]
  | stopping r =>
    rw [hpc] at hstep
    obtain rfl := Option.some.inj hstep
    have hsender : (s.calls n).sender = some r := by rw [hpc]; rfl
    have hsent := h.send hsender (by rw [hpc]; rfl)
    have hold : ∀ r', (s.send r).calls n ≠ .signalling (some r') := by
      intro r' hcall
      rw [State.send, calls_setReaper, hpc] at hcall
      cases hcall
    refine hsent.call rfl rfl (fun n' => calls_setCall ..) (fun _ hslot => hslot) ?_ rfl ?_
      (fun r' _ => slot_kept hold r') (.inl rfl) fun _ _ => .inl rfl
    · exact congrArg CallPc.launches hpc
    · exact fun r' hr' => hsent.phases.sender n r' ((congrArg CallPc.sender hpc).trans hr')
  | joining r =>
    rw [hpc] at hstep
    dsimp only at hstep
    split_ifs at hstep
    obtain rfl := Option.some.inj hstep
    have hold : ∀ r', s.calls n ≠ .signalling (some r') := by rw [hpc]; exact nofun
    exact h.call rfl rfl (fun n' => calls_setCall ..) (fun _ hslot => hslot) (by rw [hpc]; rfl) rfl
      nofun (fun r' _ => slot_kept hold r') (.inl rfl) fun _ _ => .inl rfl
  | unregistering =>
    rw [hpc] at hstep horder
    obtain rfl := Option.some.inj hstep
    refine h.call rfl rfl (fun n' => calls_setCall ..) nofun (by rw [hpc]; rfl) rfl nofun ?_ (.inl rfl)
      fun _ _ => .inl rfl
    intro r' hlive hkept
    rcases hkept with hslot | hcall
    · -- the sender in the slot is that of a reaper that is not live
      rw [hslot] at horder
      simp [hlive] at horder
    · rw [hpc] at hcall
      cases hcall
  | taking =>
    rw [hpc] at hstep
    obtain rfl := Option.some.inj hstep
    refine h.call rfl rfl (fun n' => calls_setCall ..) nofun (by rw [hpc]; rfl) rfl
      (fun r' hr' => h.phases.slot r' hr') ?_ (.inl rfl) fun _ _ => .inl rfl
    intro r' _ hkept
    rcases hkept with hslot | hcall
    · exact .inr (congrArg CallPc.signalling hslot)
    · rw [hpc] at hcall
      cases hcall
  | signalling sender =>
    rw [hpc] at hstep
    cases sender with
    | none =>
      obtain rfl := Option.some.inj hstep
      have hold : ∀ r', s.calls n ≠ .signalling (some r') := by rw [hpc]; exact nofun
      exact h.call rfl rfl (fun n' => calls_setCall ..) (fun _ hslot => hslot) (by rw [hpc]; rfl) rfl
        nofun (fun r' _ => slot_kept hold r') (.inl rfl) fun _ _ => .inl rfl
    | some r =>
      obtain rfl := Option.some.inj hstep
      have hsender : (s.calls n).sender = some r := by rw [hpc]; rfl
      have hsent := h.send hsender (by rw [hpc]; rfl)
      refine hsent.call rfl rfl (fun n' => calls_setCall ..) (fun _ hslot => hslot) ?_ rfl nofun ?_
        (.inl rfl) fun _ _ => .inl rfl
      · exact congrArg CallPc.launches hpc
      · intro r' hlive hkept
        refine hkept.imp_right fun hcall => ?_
        rw [State.send, calls_setReaper, hpc] at hcall
        cases hcall
        rw [not_live_send s (h.phases.sender n r hsender)] at hlive
        cases hlive
  | clearing =>
    rw [hpc] at hstep horder
    obtain rfl := Option.some.inj hstep
    have hnone : ∀ r, (s.reapers r).live = false := by
      intro r
      by_contra hlive
      have hany := (anyLive_iff h.phases).mpr ⟨r, by simpa using hlive⟩
      simp [hany] at horder
    refine h.call rfl rfl (fun n' => calls_setCall ..) (fun _ hslot => hslot) (by rw [hpc]; rfl) rfl
      nofun ?_ (.inr ⟨rfl, hnone⟩) nofun
    intro r' hlive
    rw [hnone r'] at hlive
    cases hlive

/-- **Every step in order keeps one reaper.** -/
theorem Inv.step {s s' : State} {l : Label} (h : Inv s) (horder : inOrder s l = true)
    (hstep : Reapers.step s l = some s') : Inv s' := by
  cases l with
  | startReaper n =>
    simp only [Reapers.step] at hstep
    split_ifs at hstep with hidle
    obtain rfl := Option.some.inj hstep
    exact h.compareExchange hidle
  | stop n r =>
    simp only [Reapers.step] at hstep
    split_ifs at hstep with hcall
    obtain ⟨hidle, hheld⟩ := hcall
    obtain rfl := Option.some.inj hstep
    have hpast := h.phases.held r hheld
    have hdropped : Inv (s.setReaper r { s.reapers r with held := false }) :=
      h.reaper hpast hpast (fun hlive => hlive) .inl
    have hold : ∀ r', (s.setReaper r { s.reapers r with held := false }).calls n ≠
        .signalling (some r') := by
      intro r' hcall
      rw [calls_setReaper, hidle] at hcall
      cases hcall
    refine hdropped.call rfl rfl (fun n' => calls_setCall ..) (fun _ hslot => hslot) ?_ rfl ?_
      (fun r' _ => slot_kept hold r') (.inl rfl) fun _ _ => .inl rfl
    · exact congrArg CallPc.launches hidle
    · intro r' hr'
      obtain rfl : r = r' := Option.some.inj hr'
      rwa [reapers_setReaper, if_pos rfl]
  | stopReaper n =>
    simp only [Reapers.step] at hstep
    split_ifs at hstep with hidle
    obtain rfl := Option.some.inj hstep
    have hold : ∀ r', s.calls n ≠ .signalling (some r') := by rw [hidle]; exact nofun
    exact h.call rfl rfl (fun n' => calls_setCall ..) (fun _ hslot => hslot) (by rw [hidle]; rfl) rfl
      nofun (fun r' _ => slot_kept hold r') (.inl rfl) fun _ _ => .inl rfl
  | drop r =>
    simp only [Reapers.step] at hstep
    split_ifs at hstep with hheld
    obtain rfl := Option.some.inj hstep
    have hpast := h.phases.held r hheld
    exact h.reaper hpast hpast (fun hlive => hlive) .inl
  | dropStop n =>
    simp only [Reapers.step] at hstep
    split at hstep
    · next r hpc =>
      obtain rfl := Option.some.inj hstep
      have hold : ∀ r', s.calls n ≠ .signalling (some r') := by rw [hpc]; exact nofun
      refine h.call rfl rfl (fun n' => calls_setCall ..) (fun _ hslot => hslot) (by rw [hpc]; rfl) rfl
        nofun (fun r' _ => slot_kept hold r') (.inl rfl) ?_
      intro hrunning _
      have hany : s.anyLive = true := by
        rw [inOrder, show s.reaperRunning = true from hrunning] at horder
        simpa using horder
      exact .inr ((anyLive_iff h.phases).mp hany)
    · cases hstep
  | go n => exact h.go horder hstep
  | finish r =>
    simp only [Reapers.step] at hstep
    split_ifs at hstep with hends
    obtain ⟨hphase, hstopped⟩ := hends
    obtain rfl := Option.some.inj hstep
    refine h.reaper (by rw [hphase]; trivial) trivial (fun hlive => ?_) fun hlive => ?_
    · simp [Reaper.live, Reaper.unstopped] at hlive
    · simp [Reaper.live, Reaper.unstopped, hphase, hstopped] at hlive

theorem inv_init : Inv init := by
  refine ⟨⟨fun _ _ => rfl, ?_, ?_, nofun, nofun, nofun, nofun⟩, nofun, nofun, nofun, nofun⟩
  · exact fun n r => iff_of_false nofun nofun
  · exact fun n r => iff_of_false nofun nofun

/-- **There is one reaper**, in every state of a run whose steps are in order. -/
theorem oneReaper_of_run {ls : List Label} {s : State}
    (horder : Transition.Along step (fun s l => inOrder s l = true) init ls)
    (hrun : Transition.exec step init ls = some s) : OneReaper s := by
  have hinv : Inv s := Transition.exec_invariant_along
    (fun s l s' h hok hstep => h.step hok hstep) inv_init horder hrun
  exact hinv.oneReaper

/-! ## A handle that outlives its reaper -/

/-- `start_reaper`, by itself. -/
def startRun (n : Nat) : List Label := [.startReaper n, .go n, .go n]

/-- A reaper is stopped by its handle, the next one by the manager. -/
def stopInTurn : List Label :=
  startRun 0 ++ [.stop 0 0, .go 0, .finish 0, .go 0, .go 0, .go 0] ++ startRun 0 ++
    [.stopReaper 0, .go 0, .go 0, .go 0]

theorem oneReaper_stopInTurn :
    ∃ s, Transition.exec step init stopInTurn = some s ∧ OneReaper s := by
  have hruns : (Transition.exec step init stopInTurn).isSome = true := by decide
  obtain ⟨s, hrun⟩ := Option.isSome_iff_exists.mp hruns
  exact ⟨s, hrun, oneReaper_of_run (by decide) hrun⟩

/-- `stop_reaper` stops the first reaper, a second one is started, and the handle of the first one is
stopped; then a third one is started. -/
def stopLate : List Label :=
  startRun 0 ++ [.stopReaper 0, .go 0, .go 0, .go 0, .finish 0] ++ startRun 0 ++
    [.stop 0 0, .go 0, .go 0, .go 0, .go 0] ++ startRun 0

/-- The stale handle takes the second reaper's sender out of the slot and clears its flag: the third
one sweeps beside it. -/
theorem stop_hides_reaper :
    ∃ s, Transition.exec step init stopLate = some s ∧ Quiet s ∧
      (s.reapers 1).unstopped = true ∧ (s.reapers 2).unstopped = true ∧ ¬OneReaper s := by
  refine ⟨_, rfl, fun n => ?_, rfl, rfl, fun h => ?_⟩
  · match n with
    | 0 => rfl
    | n + 1 => rfl
  · have hsame : (1 : Nat) = 2 := h.one 1 2 rfl rfl
    cases hsame

end Reapers

end Apcore
