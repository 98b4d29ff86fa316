import Apcore.Errors
import Apcore.Lib.Transition

/-! # `Middleware.CircuitBreaker` — the circuit of one module and caller

The hooks of a call read the clock and then edit the circuit of its module and caller under the mutex
of the middleware. The circuit does not know which call a hook belongs to. Any number of calls are
under way. -/

namespace Apcore

namespace ModuleCircuit

inductive CircuitBreakerState where
  | closed | opened | halfOpen
  deriving DecidableEq, Repr

/-- `Circuit`. Instants are in nanoseconds. -/
structure Circuit where
  state : CircuitBreakerState
  window : List Bool
  openedAt : Option Nat
  probeInFlight : Bool
  probeStartedAt : Option Nat
  deriving DecidableEq, Repr

/-- `CircuitBreakerConfig`. The threshold is given by what it decides: whether so many errors among
so many samples have a rate, in floating point, that meets or exceeds it. -/
structure CircuitBreakerConfig where
  exceeds : Nat → Nat → Bool
  windowSize : Nat := 20
  recoveryWindowMs : Nat := 30000
  minSamples : Nat := 5

/-- `Duration::from_millis(recovery_window_ms)`. -/
def CircuitBreakerConfig.recovery (config : CircuitBreakerConfig) : Nat :=
  config.recoveryWindowMs * 1000000

/-- The decision of `before`. -/
inductive Outcome where
  | allow (state : CircuitBreakerState)
  | reject
  deriving DecidableEq, Repr

namespace Circuit

/-- `Circuit::new`. -/
def new : Circuit where
  state := .closed
  window := []
  openedAt := none
  probeInFlight := false
  probeStartedAt := none

def push (c : Circuit) (success : Bool) (windowSize : Nat) : Circuit :=
  let cap := max windowSize 1
  { c with window := c.window.drop (c.window.length + 1 - cap) ++ [success] }

/-- OPEN becomes HALF_OPEN when the recovery window has elapsed. -/
def recover (config : CircuitBreakerConfig) (c : Circuit) (now : Nat) : Circuit :=
  match c.state, c.openedAt with
  | .opened, some openedAt =>
    if config.recovery ≤ now - openedAt then
      { c with state := .halfOpen, probeInFlight := false, probeStartedAt := none }
    else c
  | _, _ => c

/-- The slot of a probe that has been held too long is taken back. -/
def reclaim (config : CircuitBreakerConfig) (c : Circuit) (now : Nat) : Circuit :=
  match c.state, c.probeInFlight, c.probeStartedAt with
  | .halfOpen, true, some started =>
    if config.recovery ≤ now - started then { c with probeInFlight := false, probeStartedAt := none }
    else c
  | _, _, _ => c

/-- The section of `before` under the mutex. -/
def before (config : CircuitBreakerConfig) (circuit : Circuit) (now : Nat) : Circuit × Outcome :=
  let c := (circuit.recover config now).reclaim config now
  match c.state with
  | .opened => (c, .reject)
  | .halfOpen =>
    if c.probeInFlight then (c, .reject)
    else ({ c with probeInFlight := true, probeStartedAt := some now }, .allow .halfOpen)
  | .closed => (c, .allow .closed)

/-- The section of `after`. -/
def after (config : CircuitBreakerConfig) (circuit : Circuit) : Circuit :=
  let c := circuit.push true config.windowSize
  if c.state = .halfOpen then
    -- the failures that opened the circuit are stale
    { state := .closed, window := [], openedAt := none, probeInFlight := false, probeStartedAt := none }
  else c

/-- Whether an error opens the circuit, which has it in its window. -/
def opens (config : CircuitBreakerConfig) (c : Circuit) : Bool :=
  match c.state with
  | .halfOpen => true
  | .closed =>
    config.minSamples ≤ c.window.length && config.exceeds (c.window.count false) c.window.length
  | .opened => false

/-- The section of `on_error`. -/
def onError (config : CircuitBreakerConfig) (circuit : Circuit) (now : Nat) : Circuit :=
  let c := circuit.push false config.windowSize
  if c.opens config then
    { c with state := .opened, openedAt := some now, probeInFlight := false, probeStartedAt := none }
  else c

end Circuit

/-! ## Calls -/

/-- Where a call stands. A call that has been through `before` may come to `after` and to
`on_error`, or to neither when it is cancelled. -/
inductive Pc where
  | idle
  | deciding (now : Nat)
  | decided (admitted : Bool)
  | erring (admitted : Bool) (now : Nat)
  deriving DecidableEq, Repr

/-- A call that `before` admitted, the instant it read, and the circuit it found. -/
structure Admission where
  call : Nat
  now : Nat
  found : Circuit
  deriving DecidableEq, Repr

/-- A change of the state, with the call in whose hook it happened, whether the hook reported the
outcome of the call, and the probe that had the slot. -/
structure Change where
  call : Nat
  isOutcome : Bool
  source : CircuitBreakerState
  target : CircuitBreakerState
  probe : Option Nat
  deriving DecidableEq, Repr

/-- The outcome of a call, and the probe that had the slot before it and after it. -/
structure Report where
  call : Nat
  probeBefore : Option Nat
  probeAfter : Option Nat
  deriving DecidableEq, Repr

/-- The circuit, the clock and the calls, by number. The last fields are not in the program: the
probe that has the slot, the probes without an outcome so far with the instants they started at, and
what has happened. -/
structure State where
  circuit : Circuit
  clock : Nat
  pc : Nat → Pc
  probe : Option Nat
  unended : List (Nat × Nat)
  admissions : List Admission
  changes : List Change
  reports : List Report

/-- Before the first call. -/
def init : State where
  circuit := .new
  clock := 0
  pc := fun _ => .idle
  probe := none
  unended := []
  admissions := []
  changes := []
  reports := []

/-- The clock moves on, or a hook of a call takes its next step: `before` and `on_error` read the
clock outside of the mutex. -/
inductive Label where
  | tick (now : Nat)
  | before (i : Nat)
  | decide (i : Nat)
  | after (i : Nat)
  | onError (i : Nat) (code : ErrorCode)
  | recordError (i : Nat)
  deriving DecidableEq, Repr

/-- A hook of a call leaves the circuit so. -/
def State.edit (s : State) (i : Nat) (isOutcome : Bool) (circuit : Circuit) (probe : Option Nat)
    (pc : Pc) : State :=
  { s with
    circuit := circuit
    pc := Function.update s.pc i pc
    probe := probe
    changes :=
      if circuit.state = s.circuit.state then s.changes
      else s.changes ++ [⟨i, isOutcome, s.circuit.state, circuit.state, s.probe⟩] }

/-- A call has had an outcome. -/
def State.report (s : State) (i : Nat) (probeAfter : Option Nat) : State :=
  { s with
    unended := s.unended.filter (·.1 != i)
    reports := s.reports ++ [⟨i, s.probe, probeAfter⟩] }

/-- Who has the slot of a circuit when nobody new has taken it. -/
def State.keptProbe (s : State) (circuit : Circuit) : Option Nat :=
  if circuit.probeInFlight then s.probe else none

/-- The section of `before` of one call. -/
def State.decide (config : CircuitBreakerConfig) (s : State) (i now : Nat) : State :=
  match s.circuit.before config now with
  | (circuit, .reject) => s.edit i false circuit (s.keptProbe circuit) (.decided false)
  | (circuit, .allow .halfOpen) =>
    { s.edit i false circuit (some i) (.decided true) with
      unended := (i, now) :: s.unended
      admissions := s.admissions ++ [⟨i, now, s.circuit⟩] }
  | (circuit, .allow _) =>
    { s.edit i false circuit (s.keptProbe circuit) (.decided true) with
      admissions := s.admissions ++ [⟨i, now, s.circuit⟩] }

/-- The section of `after` or `on_error` of one call. -/
def State.outcome (s : State) (i : Nat) (circuit : Circuit) (admitted : Bool) : State :=
  (s.report i (s.keptProbe circuit)).edit i true circuit (s.keptProbe circuit) (.decided admitted)

/-- One step. -/
def step (config : CircuitBreakerConfig) (s : State) : Label → Option State
  | .tick now => if s.clock ≤ now then some { s with clock := now } else none
  | .before i =>
    match s.pc i with
    | .idle => some { s with pc := Function.update s.pc i (.deciding s.clock) }
    | _ => none
  | .decide i =>
    match s.pc i with
    | .deciding now => some (s.decide config i now)
    | _ => none
  | .after i =>
    match s.pc i with
    | .decided true => some (s.outcome i (s.circuit.after config) true)
    | _ => none
  | .onError i code =>
    match s.pc i with
    | .decided admitted =>
      -- the short-circuits of this middleware are not counted
      if code = .circuitBreakerOpen then some (s.report i s.probe)
      else some { s with pc := Function.update s.pc i (.erring admitted s.clock) }
    | _ => none
  | .recordError i =>
    match s.pc i with
    | .erring admitted now => some (s.outcome i (s.circuit.onError config now) admitted)
    | _ => none

end ModuleCircuit

end Apcore

/-! ## Whose outcome decides a HALF_OPEN circuit

An outcome that comes while the circuit is HALF_OPEN closes or opens it, whichever call it belongs
to. Where these outcomes are the probe's own, there is one probe at a time and the circuit waits for
it. -/

namespace Apcore

namespace ModuleCircuit

/-- The discipline: an OPEN circuit admits nobody before its window has elapsed, of the probes that
are younger than the window one at most has no outcome yet, the circuit leaves HALF_OPEN by the
outcome of its probe alone, and an outcome ends the probe. -/
structure Disciplined (config : CircuitBreakerConfig) (s : State) : Prop where
  gate : ∀ a ∈ s.admissions, a.found.state = .opened →
    ∃ openedAt, a.found.openedAt = some openedAt ∧ config.recovery ≤ a.now - openedAt
  slot : ∀ p ∈ s.unended, ∀ q ∈ s.unended, s.clock - p.2 < config.recovery →
    s.clock - q.2 < config.recovery → p = q
  exits : ∀ c ∈ s.changes, c.source = .halfOpen → c.isOutcome = true ∧ c.probe = some c.call
  ends : ∀ r ∈ s.reports, r.probeBefore = some r.call → r.probeAfter ≠ some r.call

/-- The step brings a HALF_OPEN circuit the outcome of another call than its probe, or the probe
reports an error that is taken for a short-circuit of this middleware. -/
def strays (s : State) : Label → Bool
  | .after i => s.circuit.state == .halfOpen && s.probe != some i
  | .recordError i => s.circuit.state == .halfOpen && s.probe != some i
  | .onError i code => code == .circuitBreakerOpen && s.probe == some i
  | _ => false

variable {config : CircuitBreakerConfig} {s s' : State} {i now : Nat} {c : Circuit}

/-! ## The hooks -/

/-- What `before` does to a circuit. -/
inductive Before (config : CircuitBreakerConfig) (now : Nat) : Circuit → Circuit × Outcome → Prop where
  | closed {c : Circuit} (hstate : c.state = .closed) : Before config now c (c, .allow .closed)
  | rejected {c : Circuit} (hstate : c.state ≠ .closed) : Before config now c (c, .reject)
  | recovered {c : Circuit} {openedAt : Nat} (hstate : c.state = .opened) (hopened : c.openedAt = some openedAt)
      (helapsed : config.recovery ≤ now - openedAt) :
      Before config now c
        ({ c with state := .halfOpen, probeInFlight := true, probeStartedAt := some now },
          .allow .halfOpen)
  | probed {c : Circuit} (hstate : c.state = .halfOpen)
      (hfree : c.probeInFlight = true →
        ∀ started, c.probeStartedAt = some started → config.recovery ≤ now - started) :
      Before config now c
        ({ c with probeInFlight := true, probeStartedAt := some now }, .allow .halfOpen)

theorem Before.of (config : CircuitBreakerConfig) (c : Circuit) (now : Nat) :
    Before config now c (c.before config now) := by
  unfold Circuit.before
  cases hstate : c.state with
  | closed =>
    have hsame : (c.recover config now).reclaim config now = c := by
      simp [Circuit.recover, Circuit.reclaim, hstate]
    simp only [hsame, hstate]
    exact .closed hstate
  | opened =>
    by_cases helapsed : ∃ openedAt, c.openedAt = some openedAt ∧ config.recovery ≤ now - openedAt
    · obtain ⟨openedAt, hopened, helapsed⟩ := helapsed
      have hhalf : (c.recover config now).reclaim config now =
          { c with state := .halfOpen, probeInFlight := false, probeStartedAt := none } := by
        simp [Circuit.recover, Circuit.reclaim, hstate, hopened, helapsed]
      simp only [hhalf]
      exact .recovered hstate hopened helapsed
    · have hsame : (c.recover config now).reclaim config now = c := by
        have hrecover : c.recover config now = c := by
          cases hopened : c.openedAt with
          | none => simp [Circuit.recover, hstate, hopened]
          | some openedAt =>
            have hearly : ¬config.recovery ≤ now - openedAt :=
              fun hle => helapsed ⟨openedAt, hopened, hle⟩
            simp [Circuit.recover, hstate, hopened, hearly]
        rw [hrecover]
        simp [Circuit.reclaim, hstate]
      simp only [hsame, hstate]
      exact .rejected (by simp [hstate])
  | halfOpen =>
    have hrecover : c.recover config now = c := by simp [Circuit.recover, hstate]
    rw [hrecover]
    by_cases hheld : c.probeInFlight = true ∧
        ∀ started, c.probeStartedAt = some started → ¬config.recovery ≤ now - started
    · have hsame : c.reclaim config now = c := by
        cases hstarted : c.probeStartedAt with
        | none => simp [Circuit.reclaim, hstate, hheld.1, hstarted]
        | some started => simp [Circuit.reclaim, hstate, hheld.1, hstarted, hheld.2 started hstarted]
      simp only [hsame, hstate, hheld.1, if_true]
      exact .rejected (by simp [hstate])
    · have hfree : c.probeInFlight = true →
          ∀ started, c.probeStartedAt = some started → config.recovery ≤ now - started := by
        intro hflight started hstarted
        by_contra hnot
        refine hheld ⟨hflight, fun other hother => ?_⟩
        obtain rfl := Option.some.inj (hstarted.symm.trans hother)
        exact hnot
      have hslot : (c.reclaim config now).state = .halfOpen ∧
          (c.reclaim config now).probeInFlight = false ∧
          (c.reclaim config now).window = c.window ∧
          (c.reclaim config now).openedAt = c.openedAt := by
        cases hflight : c.probeInFlight with
        | false => simp [Circuit.reclaim, hstate, hflight]
        | true =>
          cases hstarted : c.probeStartedAt with
          | none => exact absurd ⟨hflight, by simp [hstarted]⟩ hheld
          | some started =>
            have hstale := hfree hflight started hstarted
            simp [Circuit.reclaim, hstate, hflight, hstarted, hstale]
      obtain ⟨hhalf, hflight, hwindow, hopened⟩ := hslot
      have hprobed := Before.probed hstate hfree
      simp only [hhalf, hflight, hwindow, hopened, Bool.false_eq_true, if_false]
      rwa [hstate] at hprobed

/-- What an outcome does to a circuit: a HALF_OPEN one is left, with a free slot; of another one the
slot is as it was, and it does not become HALF_OPEN. -/
structure Settled (c c' : Circuit) : Prop where
  left : c'.state ≠ .halfOpen
  freed : c.state = .halfOpen → c'.probeInFlight = false
  kept : c'.probeInFlight = true → c.probeInFlight = true

theorem Settled.after (config : CircuitBreakerConfig) (c : Circuit) : Settled c (c.after config) := by
  have hpush : (c.push true config.windowSize).state = c.state := rfl
  by_cases hstate : c.state = .halfOpen
  · have hafter : c.after config = ⟨.closed, [], none, false, none⟩ := by
      rw [Circuit.after, if_pos (hpush.trans hstate)]
    rw [hafter]
    exact { left := by simp, freed := fun _ => rfl, kept := fun h => by cases h }
  · have hafter : c.after config = c.push true config.windowSize := by
      rw [Circuit.after, if_neg (fun h => hstate (hpush.symm.trans h))]
    rw [hafter]
    exact { left := hstate, freed := fun h => absurd h hstate, kept := fun h => h }

theorem Settled.onError (config : CircuitBreakerConfig) (c : Circuit) (now : Nat) :
    Settled c (c.onError config now) := by
  have hpush : (c.push false config.windowSize).state = c.state := rfl
  by_cases hopens : (c.push false config.windowSize).opens config = true
  · rw [Circuit.onError, if_pos hopens]
    exact { left := by simp, freed := fun _ => rfl, kept := fun h => by cases h }
  · have hstate : c.state ≠ .halfOpen := by
      intro h
      rw [Circuit.opens, hpush, h] at hopens
      exact hopens rfl
    rw [Circuit.onError, if_neg hopens]
    exact { left := hstate, freed := fun h => absurd h hstate, kept := fun h => h }

/-! ## The slot -/

/-- The slot is that of a probe of the HALF_OPEN circuit, and a probe that has no outcome and not the
slot has outlived the window. -/
structure Inv (config : CircuitBreakerConfig) (s : State) : Prop where
  reads : ∀ i now, s.pc i = .deciding now → now ≤ s.clock
  held : ∀ i, s.probe = some i → s.circuit.state = .halfOpen ∧ s.circuit.probeInFlight = true
  stale : ∀ p ∈ s.unended, config.recovery ≤ s.clock - p.2 ∨
    s.probe = some p.1 ∧ s.circuit.probeStartedAt = some p.2
  gate : ∀ a ∈ s.admissions, a.found.state = .opened →
    ∃ openedAt, a.found.openedAt = some openedAt ∧ config.recovery ≤ a.now - openedAt
  exits : ∀ c ∈ s.changes, c.source = .halfOpen → c.isOutcome = true ∧ c.probe = some c.call
  ends : ∀ r ∈ s.reports, r.probeBefore = some r.call → r.probeAfter ≠ some r.call

theorem Inv.disciplined (h : Inv config s) : Disciplined config s := by
  refine { gate := h.gate, slot := fun p hp q hq hpfresh hqfresh => ?_, exits := h.exits,
           ends := h.ends }
  obtain ⟨hpheld, hpstart⟩ := (h.stale p hp).resolve_left (Nat.not_le.mpr hpfresh)
  obtain ⟨hqheld, hqstart⟩ := (h.stale q hq).resolve_left (Nat.not_le.mpr hqfresh)
  have hcall : p.1 = q.1 := Option.some.inj (hpheld.symm.trans hqheld)
  have hstart : p.2 = q.2 := Option.some.inj (hpstart.symm.trans hqstart)
  exact Prod.ext hcall hstart

/-- Nobody holds the slot of a circuit that is not HALF_OPEN. -/
theorem Inv.probe_eq_none (h : Inv config s) (hstate : s.circuit.state ≠ .halfOpen) :
    s.probe = none := by
  cases hprobe : s.probe with
  | none => rfl
  | some i => exact absurd (h.held i hprobe).1 hstate

theorem Inv.keptProbe_self (h : Inv config s) : s.keptProbe s.circuit = s.probe := by
  rw [State.keptProbe]
  split_ifs with hflight
  · rfl
  · cases hprobe : s.probe with
    | none => rfl
    | some i => exact absurd (h.held i hprobe).2 hflight

/-- After an outcome the slot is free. -/
theorem Inv.keptProbe_settled (h : Inv config s) (hc : Settled s.circuit c) : s.keptProbe c = none := by
  rw [State.keptProbe]
  split_ifs with hflight
  · by_cases hstate : s.circuit.state = .halfOpen
    · rw [hc.freed hstate] at hflight
      cases hflight
    · exact h.probe_eq_none hstate
  · rfl

/-- A change is an old one or the one just made. -/
theorem mem_changes_edit {isOutcome : Bool} {probe : Option Nat} {pc : Pc} {change : Change}
    (h : change ∈ (s.edit i isOutcome c probe pc).changes) :
    change ∈ s.changes ∨
      c.state ≠ s.circuit.state ∧ change = ⟨i, isOutcome, s.circuit.state, c.state, s.probe⟩ := by
  by_cases hsame : c.state = s.circuit.state
  · rw [State.edit] at h
    simp only [hsame, if_true] at h
    exact .inl h
  · rw [State.edit] at h
    simp only [hsame, if_false] at h
    rcases List.mem_append.mp h with h | h
    · exact .inl h
    · exact .inr ⟨hsame, List.mem_singleton.mp h⟩

/-- What a call has read of the clock is past. -/
theorem reads_update {pcs : Nat → Pc} {pc : Pc} {clock : Nat}
    (hpc : ∀ now, pc = .deciding now → now ≤ clock)
    (h : ∀ j now, pcs j = .deciding now → now ≤ clock) :
    ∀ j now, Function.update pcs i pc j = .deciding now → now ≤ clock :=
  (Function.forall_update_iff pcs fun _ pc => ∀ now, pc = .deciding now → now ≤ clock).mpr
    ⟨hpc, fun j _ => h j⟩

/-- `before` decides on a circuit that stays as it is. -/
theorem Inv.unchanged (h : Inv config s) (admitted : Bool) :
    Inv config (s.edit i false s.circuit (s.keptProbe s.circuit) (.decided admitted)) := by
  refine { reads := reads_update (fun _ hn => by cases hn) h.reads, held := ?_, stale := ?_, gate := h.gate,
           exits := fun change hchange => ?_, ends := h.ends }
  · show ∀ j, s.keptProbe s.circuit = some j → _
    rw [h.keptProbe_self]
    exact h.held
  · show ∀ p ∈ s.unended, _ ∨ s.keptProbe s.circuit = some p.1 ∧ _
    rw [h.keptProbe_self]
    exact h.stale
  · rcases mem_changes_edit hchange with hold | ⟨hne, -⟩
    · exact h.exits change hold
    · exact absurd rfl hne

theorem Inv.letIn (h : Inv config s) (found : Circuit)
    (hfound : found.state = .opened →
      ∃ openedAt, found.openedAt = some openedAt ∧ config.recovery ≤ now - openedAt) :
    Inv config { s with admissions := s.admissions ++ [⟨i, now, found⟩] } := by
  refine { reads := h.reads, held := h.held, stale := h.stale, gate := fun a ha => ?_,
           exits := h.exits, ends := h.ends }
  rcases List.mem_append.mp ha with ha | ha
  · exact h.gate a ha
  · obtain rfl := List.mem_singleton.mp ha
    exact hfound

/-- `before` gives the slot to a new probe: the last one had an outcome, or it has outlived the
window. -/
theorem Inv.takeSlot (h : Inv config s) (hnow : now ≤ s.clock) (hc : c.state = .halfOpen)
    (hflight : c.probeInFlight = true) (hstart : c.probeStartedAt = some now)
    (hlast : ∀ j started, s.probe = some j → s.circuit.probeStartedAt = some started →
      config.recovery ≤ now - started) :
    Inv config { s.edit i false c (some i) (.decided true) with unended := (i, now) :: s.unended } := by
  refine { reads := reads_update (fun _ hn => by cases hn) h.reads,
           held := fun j hj => ?_, stale := fun p hp => ?_,
           gate := h.gate, exits := fun change hchange => ?_, ends := h.ends }
  · exact ⟨hc, hflight⟩
  · rcases List.mem_cons.mp hp with rfl | hp
    · exact .inr ⟨rfl, hstart⟩
    · rcases h.stale p hp with hstale | ⟨hprobe, hstarted⟩
      · exact .inl hstale
      · have hold := hlast _ _ hprobe hstarted
        exact .inl (Nat.le_trans hold (Nat.sub_le_sub_right hnow _))
  · have hmem : change ∈ (s.edit i false c (some i) (.decided true)).changes := hchange
    rcases mem_changes_edit hmem with hold | ⟨hne, rfl⟩
    · exact h.exits change hold
    · intro hhalf
      have hhalf' : s.circuit.state = .halfOpen := hhalf
      rw [hc, hhalf'] at hne
      exact absurd rfl hne

theorem Inv.decide (h : Inv config s) (hpc : s.pc i = .deciding now) :
    Inv config (s.decide config i now) := by
  have hnow := h.reads i now hpc
  have hbefore := Before.of config s.circuit now
  unfold State.decide
  generalize s.circuit.before config now = result at hbefore
  cases hbefore with
  | closed hstate =>
    refine (h.unchanged (i := i) true).letIn s.circuit fun hopened => ?_
    rw [hstate] at hopened
    cases hopened
  | rejected hstate => exact h.unchanged false
  | recovered hstate hopened helapsed =>
    have htake := h.takeSlot (i := i) (c := { s.circuit with
      state := .halfOpen, probeInFlight := true, probeStartedAt := some now }) hnow rfl rfl rfl
      (fun j _ hj => by
        rw [h.probe_eq_none (by rw [hstate]; simp)] at hj
        cases hj)
    exact htake.letIn s.circuit fun _ => ⟨_, hopened, helapsed⟩
  | probed hstate hfree =>
    have htake := h.takeSlot (i := i) (c := { s.circuit with
      probeInFlight := true, probeStartedAt := some now }) hnow hstate rfl rfl
      (fun j started hj hstarted => hfree (h.held j hj).2 started hstarted)
    refine htake.letIn s.circuit fun hopened => ?_
    rw [hstate] at hopened
    cases hopened

/-- An outcome, of the probe while the circuit is HALF_OPEN. -/
theorem Inv.outcome (h : Inv config s) (hc : Settled s.circuit c) (admitted : Bool)
    (hown : s.circuit.state = .halfOpen → s.probe = some i) :
    Inv config (s.outcome i c admitted) := by
  have hkept := h.keptProbe_settled hc
  unfold State.outcome
  rw [hkept]
  refine { reads := reads_update (fun _ hn => by cases hn) h.reads,
           held := fun _ hj => (by cases hj), stale := fun p hp => ?_, gate := h.gate, exits := fun change hchange => ?_,
           ends := fun r hr => ?_ }
  · obtain ⟨hp, hne⟩ := List.mem_filter.mp hp
    rcases h.stale p hp with hstale | ⟨hprobe, -⟩
    · exact .inl hstale
    · have hi : s.probe = some i := hown (h.held _ hprobe).1
      rw [hprobe] at hi
      simp [Option.some.inj hi] at hne
  · rcases mem_changes_edit hchange with hold | ⟨-, rfl⟩
    · exact h.exits change hold
    · exact fun hhalf => ⟨rfl, hown hhalf⟩
  · rcases List.mem_append.mp hr with hr | hr
    · exact h.ends r hr
    · obtain rfl := List.mem_singleton.mp hr
      simp

/-- A short-circuit of this middleware leaves the probe alone. -/
theorem Inv.report (h : Inv config s) (hother : s.probe ≠ some i) :
    Inv config (s.report i s.probe) := by
  refine { reads := h.reads, held := h.held,
           stale := fun p hp => h.stale p (List.mem_of_mem_filter hp), gate := h.gate,
           exits := h.exits, ends := fun r hr => ?_ }
  rcases List.mem_append.mp hr with hr | hr
  · exact h.ends r hr
  · obtain rfl := List.mem_singleton.mp hr
    exact fun hprobe => absurd hprobe hother

/-! ## Runs -/

theorem Inv.init : Inv config init where
  reads := fun _ _ hpc => by cases hpc
  held := fun _ hprobe => by cases hprobe
  stale := fun _ hp => by cases hp
  gate := fun _ ha => by cases ha
  exits := fun _ hc => by cases hc
  ends := fun _ hr => by cases hr

/-- A call reads the clock. -/
theorem Inv.readClock (h : Inv config s) {pc : Pc}
    (hpc : ∀ now, pc = .deciding now → now ≤ s.clock) :
    Inv config { s with pc := Function.update s.pc i pc } := by
  exact { reads := reads_update hpc h.reads, held := h.held, stale := h.stale, gate := h.gate,
          exits := h.exits, ends := h.ends }

theorem own_of_not_strays (hok : (s.circuit.state == .halfOpen && s.probe != some i) = false)
    (hstate : s.circuit.state = .halfOpen) : s.probe = some i := by
  rw [hstate] at hok
  simpa using hok

theorem Inv.step {l : Label} (h : Inv config s) (hok : strays s l = false)
    (hstep : step config s l = some s') : Inv config s' := by
  cases l with
  | tick now =>
    simp only [ModuleCircuit.step] at hstep
    split_ifs at hstep with hle
    obtain rfl := Option.some.inj hstep
    refine { reads := fun j n hpc => Nat.le_trans (h.reads j n hpc) hle, held := h.held,
             stale := fun p hp => ?_, gate := h.gate, exits := h.exits, ends := h.ends }
    exact (h.stale p hp).imp_left fun hstale => Nat.le_trans hstale (Nat.sub_le_sub_right hle _)
  | before i =>
    simp only [ModuleCircuit.step] at hstep
    split at hstep
    · obtain rfl := Option.some.inj hstep
      refine h.readClock fun now hnow => ?_
      cases hnow
      exact Nat.le_refl _
    · cases hstep
  | decide i =>
    simp only [ModuleCircuit.step] at hstep
    split at hstep
    · next now hpc =>
      obtain rfl := Option.some.inj hstep
      exact h.decide hpc
    · cases hstep
  | after i =>
    simp only [ModuleCircuit.step] at hstep
    split at hstep
    · obtain rfl := Option.some.inj hstep
      exact h.outcome (.after config s.circuit) true (own_of_not_strays hok)
    · cases hstep
  | onError i code =>
    simp only [ModuleCircuit.step] at hstep
    split at hstep
    · split_ifs at hstep with hcode
      · obtain rfl := Option.some.inj hstep
        refine h.report fun hprobe => ?_
        rw [strays, hcode, hprobe] at hok
        simp at hok
      · obtain rfl := Option.some.inj hstep
        exact h.readClock fun now hnow => by cases hnow
    · cases hstep
  | recordError i =>
    simp only [ModuleCircuit.step] at hstep
    split at hstep
    · next admitted now hpc =>
      obtain rfl := Option.some.inj hstep
      exact h.outcome (.onError config s.circuit now) admitted (own_of_not_strays hok)
    · cases hstep

/-- An outcome in HALF_OPEN leaves it, so that it is the probe's where the discipline holds. -/
theorem own_of_disciplined (hc : Settled s.circuit c) {admitted : Bool}
    (h : Disciplined config (s.outcome i c admitted)) (hstate : s.circuit.state = .halfOpen) :
    s.probe = some i := by
  have hne : ¬c.state = s.circuit.state := by
    rw [hstate]
    exact hc.left
  have hmem : ⟨i, true, s.circuit.state, c.state, s.probe⟩ ∈ (s.outcome i c admitted).changes := by
    show _ ∈ if c.state = s.circuit.state then _ else _
    rw [if_neg hne]
    exact List.mem_append_right _ (List.mem_singleton.mpr rfl)
  exact (h.exits _ hmem hstate).2

/-- A step that strays breaks the discipline. -/
theorem not_strays_of_disciplined {l : Label} (hstep : step config s l = some s')
    (h : Disciplined config s') : strays s l = false := by
  cases l with
  | after i =>
    simp only [ModuleCircuit.step] at hstep
    split at hstep
    · obtain rfl := Option.some.inj hstep
      have hown := own_of_disciplined (.after config s.circuit) h
      by_cases hstate : s.circuit.state = .halfOpen
      · simp [strays, hown hstate]
      · simp [strays, hstate]
    · cases hstep
  | recordError i =>
    simp only [ModuleCircuit.step] at hstep
    split at hstep
    · next admitted now hpc =>
      obtain rfl := Option.some.inj hstep
      have hown := own_of_disciplined (.onError config s.circuit now) h
      by_cases hstate : s.circuit.state = .halfOpen
      · simp [strays, hown hstate]
      · simp [strays, hstate]
    · cases hstep
  | onError i code =>
    simp only [ModuleCircuit.step] at hstep
    split at hstep
    · split_ifs at hstep with hcode
      · obtain rfl := Option.some.inj hstep
        have hmem : ⟨i, s.probe, s.probe⟩ ∈ (s.report i s.probe).reports :=
          List.mem_append_right _ (List.mem_singleton.mpr rfl)
        have hother : s.probe ≠ some i := fun hprobe => h.ends _ hmem hprobe hprobe
        simpa [strays] using fun _ => hother
      · simpa [strays] using fun heq => absurd heq hcode
    · cases hstep
  | tick now => rfl
  | before i => rfl
  | decide i => rfl

/-- **The probe discipline holds in all the states of a run exactly when no step of the run strays**,
whatever calls overlap and however the clock moves on. -/
theorem disciplined_iff {ls : List Label} (hrun : Transition.exec (step config) ModuleCircuit.init ls = some s) :
    Transition.Along (step config) (fun s l => strays s l = false) ModuleCircuit.init ls ↔
      ∀ ls' m, ls' <+: ls → Transition.exec (step config) ModuleCircuit.init ls' = some m →
        Disciplined config m := by
  constructor
  · intro hok ls' m hprefix hm
    have hinv : Inv config m := Transition.forall_prefix_of_along
      (fun _ _ _ hI hl hs => hI.step hl hs) Inv.init hok ls' m hprefix hm
    exact hinv.disciplined
  · exact Transition.along_of_forall_prefix (fun _ _ _ hs hP => not_strays_of_disciplined hs hP) hrun

/-! ## Runs of one circuit -/

/-- One error opens the circuit, for a millisecond. -/
def fragile : CircuitBreakerConfig where
  exceeds := fun errors _ => decide (0 < errors)
  recoveryWindowMs := 1
  minSamples := 1

def begin (i : Nat) : List Label := [.before i, .decide i]

def fail (i : Nat) : List Label := [.onError i .moduleExecuteError, .recordError i]

/-- The circuit opens, turns a call away, and a probe closes it. -/
def openAndRecover : List Label :=
  begin 0 ++ fail 0 ++ begin 1 ++ [.onError 1 .circuitBreakerOpen, .tick 1000000] ++ begin 2 ++ [.after 2]

theorem disciplined_openAndRecover :
    (Transition.exec (step fragile) init openAndRecover).isSome = true ∧
      ∀ ls' m, ls' <+: openAndRecover → Transition.exec (step fragile) init ls' = some m →
        Disciplined fragile m := by
  have hruns : (Transition.exec (step fragile) init openAndRecover).isSome = true := by decide
  obtain ⟨s, hrun⟩ := Option.isSome_iff_exists.mp hruns
  exact ⟨hruns, (disciplined_iff hrun).mp (by decide)⟩

/-- A call is admitted before the circuit opens, and succeeds while the probe is under way. -/
def lateOutcome : List Label :=
  begin 0 ++ begin 1 ++ fail 0 ++ [.tick 1000000] ++ begin 2 ++ [.after 1]

/-- The late outcome closes the circuit. -/
theorem lateOutcome_undisciplined :
    ∃ s, Transition.exec (step fragile) init lateOutcome = some s ∧ ¬Disciplined fragile s := by
  have hchanges : (Transition.exec (step fragile) init lateOutcome).map (·.changes) =
      some [⟨0, true, .closed, .opened, none⟩, ⟨2, false, .opened, .halfOpen, none⟩,
        ⟨1, true, .halfOpen, .closed, some 2⟩] := by decide
  obtain ⟨s, hrun, hs⟩ := Option.map_eq_some_iff.mp hchanges
  refine ⟨s, hrun, fun h => ?_⟩
  have hlate : (⟨1, true, .halfOpen, .closed, some 2⟩ : Change) ∈ s.changes := by
    rw [hs]
    decide
  cases (h.exits _ hlate rfl).2

/-- The probe fails where a module it calls is behind an open circuit: it keeps the slot. -/
example : ((Transition.exec (step fragile) init
    (begin 0 ++ fail 0 ++ [.tick 1000000] ++ begin 1 ++ [.onError 1 .circuitBreakerOpen])).map
      (·.reports)) = some [⟨0, none, none⟩, ⟨1, some 1, some 1⟩] := by
  decide

end ModuleCircuit

end Apcore
