import Apcore.Middleware.CircuitBreaker
import Mathlib.Algebra.Order.Field.Basic
import Mathlib.Data.Nat.Cast.Order.Field
import Mathlib.Tactic.NormNum

/-! # `Middleware.OpeningLaw` — what is in the window of a circuit, and what it means

A log follows the calls of one key: with which outcome an admitted call ended, and which outcomes
went into the window, for which call. The window is always the end of what was recorded. That the
record is that of the calls, and that a CLOSED circuit is one below the threshold, depends on the
hooks. -/

namespace Apcore

namespace ModuleCircuit

/-- The threshold test on the exact ratio. -/
def exactRate (threshold : ℚ) (errors samples : Nat) : Bool := threshold ≤ (errors : ℚ) / samples

/-- A configuration whose test is exact, with a threshold and a number of samples that can be met. -/
structure CircuitBreakerConfig.Sensible (config : CircuitBreakerConfig) (threshold : ℚ) : Prop where
  exact_rate : config.exceeds = exactRate threshold
  positive : 0 < threshold
  atMostOne : threshold ≤ 1
  enough : config.minSamples ≤ config.windowSize

/-- `Circuit::error_rate`, as an exact ratio. -/
def Circuit.errorRate (c : Circuit) : ℚ :=
  if c.window.isEmpty then 0 else (c.window.count false : ℚ) / c.window.length

/-- What became of the calls: the outcomes of the admitted ones, the outcomes that were recorded,
with their calls, and how many of these were recorded before the last reset. -/
structure Log where
  ended : List (Nat × Bool)
  recorded : List (Nat × Bool)
  resetAt : Nat
  deriving DecidableEq, Repr

def Log.empty : Log where
  ended := []
  recorded := []
  resetAt := 0

/-- The outcomes of one call. -/
def outcomesOf (i : Nat) (l : List (Nat × Bool)) : List Bool := (l.filter (·.1 == i)).map Prod.snd

/-- What was recorded since the last reset. -/
def Log.sinceReset (log : Log) : List Bool := (log.recorded.drop log.resetAt).map Prod.snd

/-- An outcome goes into the window. -/
def Log.record (log : Log) (i : Nat) (success : Bool) : Log :=
  { log with recorded := log.recorded ++ [(i, success)] }

/-- An admitted call ends. -/
def Log.finish (log : Log) (i : Nat) (success : Bool) : Log :=
  { log with ended := log.ended ++ [(i, success)] }

/-- The window is cleared. -/
def Log.reset (log : Log) : Log := { log with resetAt := log.recorded.length }

/-- What a step adds to the log. -/
def Log.follow (log : Log) (s : State) : Label → Log
  | .after i =>
    let log' := (log.finish i true).record i true
    -- the success of a HALF_OPEN circuit clears the window it went into
    if s.circuit.state = .halfOpen then log'.reset else log'
  | .onError i code =>
    if code = .circuitBreakerOpen ∧ s.pc i = .decided true then log.finish i false else log
  | .recordError i =>
    match s.pc i with
    | .erring true _ => (log.finish i false).record i false
    | .erring false _ => log.record i false
    | _ => log
  | _ => log

/-- Every call that ended is recorded once, with its outcome. -/
def Log.Once (log : Log) : Prop :=
  ∀ i, outcomesOf i log.ended ≠ [] → ∃ o, outcomesOf i log.ended = [o] ∧ outcomesOf i log.recorded = [o]

/-- A hook of a call takes a step, or somebody resets the circuit. -/
inductive Event where
  | hook (l : Label)
  | reset
  deriving DecidableEq, Repr

/-- `CircuitBreakerMiddleware::reset`. -/
def State.reset (s : State) : State := { s with circuit := .new, probe := none }

/-- A step, and what it adds to the log. -/
def loggedStep (config : CircuitBreakerConfig) (p : State × Log) : Event → Option (State × Log)
  | .hook l => (step config p.1 l).map fun s' => (s', p.2.follow p.1 l)
  | .reset => some (p.1.reset, p.2.reset)

/-- The last so many of a list. -/
def lastOf (n : Nat) (l : List Bool) : List Bool := l.drop (l.length - n)

/-- The law: the window holds the last outcomes since the last reset, every admitted call that ended
is recorded once with its outcome, and a CLOSED circuit is below the threshold. -/
structure Lawful (config : CircuitBreakerConfig) (threshold : ℚ) (p : State × Log) : Prop where
  window : p.1.circuit.window = lastOf (max config.windowSize 1) p.2.sinceReset
  once : p.2.Once
  opening : p.1.circuit.state = .closed →
    p.1.circuit.window.length < config.minSamples ∨ p.1.circuit.errorRate < threshold

/-- The step goes past the record or past the threshold: an admitted call reports an error with the
code of this middleware's own short-circuits, a hook reports on a call that has ended already, or a
success is the sample that makes a CLOSED window full enough for the errors in it to count. -/
def Slips (config : CircuitBreakerConfig) (threshold : ℚ) (p : State × Log) : Event → Prop
  | .hook (.after i) => outcomesOf i p.2.ended ≠ [] ∨
    p.1.circuit.state = .closed ∧ p.1.circuit.window.length + 1 = config.minSamples ∧
      threshold ≤ (p.1.circuit.window.count false : ℚ) / config.minSamples
  | .hook (.onError i code) => code = .circuitBreakerOpen ∧ p.1.pc i = .decided true
  | .hook (.recordError i) => (∃ now, p.1.pc i = .erring true now) ∧ outcomesOf i p.2.ended ≠ []
  | _ => False

variable {config : CircuitBreakerConfig} {threshold : ℚ} {s s' : State} {log : Log} {i now : Nat}
  {c : Circuit} {success : Bool}

/-! ## The window -/

theorem lastOf_nil (n : Nat) : lastOf n [] = [] := List.drop_nil

/-- `push` on the last outcomes of a list are the last outcomes of the longer list. -/
theorem lastOf_push (n : Nat) (hn : 0 < n) (l : List Bool) (b : Bool) :
    (lastOf n l).drop ((lastOf n l).length + 1 - n) ++ [b] = lastOf n (l ++ [b]) := by
  have hlength : (lastOf n l).length = l.length - (l.length - n) := List.length_drop
  rw [hlength, lastOf, lastOf, List.drop_drop, List.length_append, List.length_singleton]
  have hle : l.length + 1 - n ≤ l.length := by omega
  rw [List.drop_append_of_le_length hle]
  congr 2
  omega

theorem Circuit.window_push (hwindow : c.window = lastOf (max config.windowSize 1) log.sinceReset)
    (hreset : log.resetAt ≤ log.recorded.length) (i : Nat) :
    (c.push success config.windowSize).window =
      lastOf (max config.windowSize 1) (log.record i success).sinceReset := by
  have hsince : (log.record i success).sinceReset = log.sinceReset ++ [success] := by
    rw [Log.sinceReset, Log.record, List.drop_append_of_le_length hreset, List.map_append]
    rfl
  rw [hsince, ← lastOf_push _ (Nat.lt_of_lt_of_le Nat.zero_lt_one (le_max_right _ _)), ← hwindow]
  rfl

theorem Circuit.window_onError (now : Nat) :
    (c.onError config now).window = (c.push false config.windowSize).window := by
  rw [Circuit.onError]
  split_ifs
  · rfl
  · rfl

theorem Circuit.after_of_halfOpen (hstate : c.state = .halfOpen) :
    c.after config = ⟨.closed, [], none, false, none⟩ := by
  rw [Circuit.after]
  exact if_pos hstate

theorem Circuit.after_of_not (hstate : c.state ≠ .halfOpen) :
    c.after config = c.push true config.windowSize := by
  rw [Circuit.after]
  exact if_neg hstate

/-! ## Below the threshold -/

/-- Fewer samples than count, or fewer errors than open the circuit. -/
def Circuit.Below (config : CircuitBreakerConfig) (threshold : ℚ) (c : Circuit) : Prop :=
  c.window.length < config.minSamples ∨ c.errorRate < threshold

theorem Circuit.errorRate_eq (c : Circuit) :
    c.errorRate = (c.window.count false : ℚ) / c.window.length := by
  rw [errorRate]
  split_ifs with hempty
  · rw [List.isEmpty_iff.mp hempty]
    simp
  · rfl

theorem Circuit.below_iff (hconfig : config.Sensible threshold) : c.Below config threshold ↔
    (config.minSamples ≤ c.window.length &&
      config.exceeds (c.window.count false) c.window.length) = false := by
  rw [Below, errorRate_eq, hconfig.exact_rate, exactRate, Bool.and_eq_false_iff, decide_eq_false_iff_not,
    decide_eq_false_iff_not, not_le, not_le]

/-- What `on_error` leaves CLOSED is below the threshold: this is what it tests. -/
theorem Circuit.below_onError (hconfig : config.Sensible threshold)
    (hclosed : (c.onError config now).state = .closed) :
    (c.onError config now).Below config threshold := by
  rw [Circuit.onError] at hclosed ⊢
  by_cases hopens : (c.push false config.windowSize).opens config = true
  · rw [if_pos hopens] at hclosed
    cases hclosed
  · rw [if_neg hopens] at hclosed ⊢
    rw [Circuit.opens, hclosed] at hopens
    exact (below_iff hconfig).mpr (Bool.not_eq_true _ ▸ hopens)

/-- A success among enough samples does not raise the rate. -/
theorem Circuit.errorRate_push_le (hcap : c.window.length ≤ max config.windowSize 1) :
    (c.push true config.windowSize).errorRate ≤ c.errorRate := by
  have hcount : (c.push true config.windowSize).window.count false ≤ c.window.count false := by
    rw [Circuit.push, List.count_append, List.count_singleton]
    exact (List.drop_sublist _ _).count_le false
  have hlength : c.window.length ≤ (c.push true config.windowSize).window.length := by
    simp only [Circuit.push, List.length_append, List.length_drop, List.length_singleton]
    omega
  rw [errorRate_eq, errorRate_eq]
  by_cases hnil : c.window = []
  · have hzero : (c.push true config.windowSize).window.count false = 0 := by
      rw [hnil] at hcount
      exact Nat.le_zero.mp hcount
    rw [hzero, hnil]
    simp
  · have hpos : (0 : ℚ) < c.window.length := Nat.cast_pos.mpr (List.length_pos_iff.mpr hnil)
    gcongr

/-- A success leaves a CLOSED circuit below the threshold, unless it is the sample that makes the
window full enough. -/
theorem Circuit.below_push (hconfig : config.Sensible threshold)
    (hcap : c.window.length ≤ max config.windowSize 1) (hbelow : c.Below config threshold) :
    (c.push true config.windowSize).Below config threshold ↔
      ¬(c.window.length + 1 = config.minSamples ∧
        threshold ≤ (c.window.count false : ℚ) / config.minSamples) := by
  have henough := hconfig.enough
  by_cases hless : c.window.length < config.minSamples
  · have hroom : c.window.length + 1 - max config.windowSize 1 = 0 := by omega
    have hwindow : (c.push true config.windowSize).window = c.window ++ [true] := by
      rw [Circuit.push, hroom, List.drop_zero]
    have hcount : (c.push true config.windowSize).window.count false = c.window.count false := by
      rw [hwindow, List.count_append]
      rfl
    have hlength : (c.push true config.windowSize).window.length = c.window.length + 1 := by
      rw [hwindow, List.length_append]
      rfl
    rw [Below, errorRate_eq, hcount, hlength, not_and, not_le]
    by_cases hfull : c.window.length + 1 = config.minSamples
    · rw [hfull]
      simp
    · exact iff_of_true (.inl (by omega)) fun h => absurd h hfull
  · have hrate : c.errorRate < threshold := hbelow.resolve_left hless
    refine iff_of_true (.inr ((errorRate_push_le hcap).trans_lt hrate)) fun h => hless ?_
    omega

/-! ## What a step does to the circuit and to the calls -/

/-- The steps, as far as the law asks. -/
inductive Moves (config : CircuitBreakerConfig) (s s' : State) : Label → Prop where
  | tick (now : Nat) (hcircuit : s'.circuit = s.circuit) (hpc : s'.pc = s.pc) :
      Moves config s s' (.tick now)
  | before (i : Nat) (hidle : s.pc i = .idle) (hcircuit : s'.circuit = s.circuit)
      (hpc : s'.pc = Function.update s.pc i (.deciding s.clock)) : Moves config s s' (.before i)
  | decide (i now : Nat) (admitted : Bool) (hidle : s.pc i = .deciding now)
      (hwindow : s'.circuit.window = s.circuit.window)
      (hclosed : s'.circuit.state = .closed → s.circuit.state = .closed)
      (hpc : s'.pc = Function.update s.pc i (.decided admitted)) : Moves config s s' (.decide i)
  | after (i : Nat) (hdecided : s.pc i = .decided true)
      (hcircuit : s'.circuit = s.circuit.after config)
      (hpc : s'.pc = Function.update s.pc i (.decided true)) : Moves config s s' (.after i)
  | shortCircuit (i : Nat) (admitted : Bool) (hdecided : s.pc i = .decided admitted)
      (hcircuit : s'.circuit = s.circuit) (hpc : s'.pc = s.pc) :
      Moves config s s' (.onError i .circuitBreakerOpen)
  | error (i : Nat) (code : ErrorCode) (admitted : Bool) (hcode : code ≠ .circuitBreakerOpen)
      (hdecided : s.pc i = .decided admitted) (hcircuit : s'.circuit = s.circuit)
      (hpc : s'.pc = Function.update s.pc i (.erring admitted s.clock)) :
      Moves config s s' (.onError i code)
  | record (i now : Nat) (admitted : Bool) (herring : s.pc i = .erring admitted now)
      (hcircuit : s'.circuit = s.circuit.onError config now)
      (hpc : s'.pc = Function.update s.pc i (.decided admitted)) :
      Moves config s s' (.recordError i)

/-- The section of `before` leaves the window alone, and closes no circuit. -/
theorem Before.kept {result : Circuit × Outcome} (h : Before config now c result) :
    result.1.window = c.window ∧ (result.1.state = .closed → c.state = .closed) := by
  cases h with
  | closed hstate => exact ⟨rfl, fun _ => hstate⟩
  | rejected hstate => exact ⟨rfl, fun h => h⟩
  | recovered hstate hopened helapsed => exact ⟨rfl, fun h => by cases h⟩
  | probed hstate hfree =>
    refine ⟨rfl, fun h => ?_⟩
    rw [← h]

theorem moves_of_decide (hpc : s.pc i = .deciding now) :
    Moves config s (s.decide config i now) (.decide i) := by
  have hbefore := Before.of config s.circuit now
  unfold State.decide
  generalize s.circuit.before config now = result at hbefore
  obtain ⟨hwindow, hclosed⟩ := hbefore.kept
  obtain ⟨circuit, outcome⟩ := result
  cases outcome with
  | reject => exact .decide i now false hpc hwindow hclosed rfl
  | allow state =>
    cases state with
    | halfOpen => exact .decide i now true hpc hwindow hclosed rfl
    | closed => exact .decide i now true hpc hwindow hclosed rfl
    | opened => exact .decide i now true hpc hwindow hclosed rfl

theorem moves_of_step {l : Label} (hstep : step config s l = some s') : Moves config s s' l := by
  cases l with
  | tick now =>
    simp only [step] at hstep
    split_ifs at hstep
    obtain rfl := Option.some.inj hstep
    exact .tick now rfl rfl
  | before i =>
    simp only [step] at hstep
    split at hstep
    · next hpc =>
      obtain rfl := Option.some.inj hstep
      exact .before i hpc rfl rfl
    · cases hstep
  | decide i =>
    simp only [step] at hstep
    split at hstep
    · next now hpc =>
      obtain rfl := Option.some.inj hstep
      exact moves_of_decide hpc
    · cases hstep
  | after i =>
    simp only [step] at hstep
    split at hstep
    · next hpc =>
      obtain rfl := Option.some.inj hstep
      exact .after i hpc rfl rfl
    · cases hstep
  | onError i code =>
    simp only [step] at hstep
    split at hstep
    · next admitted hpc =>
      split_ifs at hstep with hcode
      · obtain rfl := Option.some.inj hstep
        subst hcode
        exact .shortCircuit i admitted hpc rfl rfl
      · obtain rfl := Option.some.inj hstep
        exact .error i code admitted hcode hpc rfl rfl
    · cases hstep
  | recordError i =>
    simp only [step] at hstep
    split at hstep
    · next admitted now hpc =>
      obtain rfl := Option.some.inj hstep
      exact .record i now admitted hpc rfl rfl
    · cases hstep

/-! ## The log -/

@[simp] theorem outcomesOf_append (l l' : List (Nat × Bool)) :
    outcomesOf i (l ++ l') = outcomesOf i l ++ outcomesOf i l' := by
  rw [outcomesOf, List.filter_append, List.map_append]
  rfl

theorem outcomesOf_self : outcomesOf i [(i, success)] = [success] := by
  simp [outcomesOf]

theorem outcomesOf_of_ne {j : Nat} (hne : j ≠ i) : outcomesOf i [(j, success)] = [] := by
  simp [outcomesOf, hne]

/-- A call that `before` has let in. -/
def Pc.IsAdmitted (pc : Pc) : Prop := pc = .decided true ∨ ∃ now, pc = .erring true now

/-- A call that `before` has turned away. -/
def Pc.IsRejected (pc : Pc) : Prop := pc = .decided false ∨ ∃ now, pc = .erring false now

/-- The invariant of all runs: the window is the end of the record, calls that ended were let in,
and what was recorded is of calls that ended or that were turned away. -/
structure Logged (config : CircuitBreakerConfig) (p : State × Log) : Prop where
  window : p.1.circuit.window = lastOf (max config.windowSize 1) p.2.sinceReset
  reset : p.2.resetAt ≤ p.2.recorded.length
  ended : ∀ i, outcomesOf i p.2.ended ≠ [] → (p.1.pc i).IsAdmitted
  recorded : ∀ i, outcomesOf i p.2.recorded ≠ [] →
    outcomesOf i p.2.ended ≠ [] ∨ (p.1.pc i).IsRejected

/-- A call that was let in stays so, and one that was turned away. -/
theorem Moves.keeps {l : Label} (h : Moves config s s' l) (j : Nat) :
    ((s.pc j).IsAdmitted → (s'.pc j).IsAdmitted) ∧ ((s.pc j).IsRejected → (s'.pc j).IsRejected) := by
  have hupdate : ∀ {i : Nat} {pc : Pc}, ((s.pc i).IsAdmitted → pc.IsAdmitted) →
      ((s.pc i).IsRejected → pc.IsRejected) → s'.pc = Function.update s.pc i pc →
      ((s.pc j).IsAdmitted → (s'.pc j).IsAdmitted) ∧
        ((s.pc j).IsRejected → (s'.pc j).IsRejected) := by
    intro i pc hin hout hpc
    rw [hpc]
    by_cases hj : j = i
    · subst hj
      rw [Function.update_self]
      exact ⟨hin, hout⟩
    · rw [Function.update_of_ne hj]
      exact ⟨id, id⟩
  cases h with
  | tick now hcircuit hpc =>
    rw [hpc]
    exact ⟨id, id⟩
  | before i hidle hcircuit hpc =>
    exact hupdate (by simp [hidle, Pc.IsAdmitted]) (by simp [hidle, Pc.IsRejected]) hpc
  | decide i now admitted hidle hwindow hclosed hpc =>
    exact hupdate (by simp [hidle, Pc.IsAdmitted]) (by simp [hidle, Pc.IsRejected]) hpc
  | after i hdecided hcircuit hpc =>
    exact hupdate (by simp [hdecided]) (by simp [hdecided, Pc.IsRejected]) hpc
  | shortCircuit i admitted hdecided hcircuit hpc =>
    rw [hpc]
    exact ⟨id, id⟩
  | error i code admitted hcode hdecided hcircuit hpc =>
    exact hupdate (by simp [hdecided, Pc.IsAdmitted]) (by simp [hdecided, Pc.IsRejected]) hpc
  | record i now admitted herring hcircuit hpc =>
    exact hupdate (by simp [herring, Pc.IsAdmitted]) (by simp [herring, Pc.IsRejected]) hpc

theorem Pc.not_rejected_of_admitted {pc : Pc} (h : pc.IsAdmitted) : ¬ pc.IsRejected := by
  rintro (hout | ⟨now, hout⟩)
  · rcases h with h | ⟨now', h⟩
    · rw [h] at hout
      cases hout
    · rw [h] at hout
      cases hout
  · rcases h with h | ⟨now', h⟩
    · rw [h] at hout
      cases hout
    · rw [h] at hout
      cases hout

/-- What a step adds to the log: nothing, the outcome of an admitted call, an end without a record, or
a record of a call that was turned away. -/
inductive Adds (s : State) (log : Log) : Log → Prop where
  | nothing : Adds s log log
  | outcome (i resetAt : Nat) (success : Bool) (hin : (s.pc i).IsAdmitted) :
      Adds s log { ((log.finish i success).record i success) with resetAt }
  | lost (i : Nat) (hin : (s.pc i).IsAdmitted) : Adds s log (log.finish i false)
  | stray (i : Nat) (hout : (s.pc i).IsRejected) : Adds s log (log.record i false)

theorem Moves.adds {l : Label} (h : Moves config s s' l) (log : Log) : Adds s log (log.follow s l) := by
  cases h with
  | tick now hcircuit hpc => exact .nothing
  | before i hidle hcircuit hpc => exact .nothing
  | decide i now admitted hidle hwindow hclosed hpc => exact .nothing
  | after i hdecided hcircuit hpc =>
    rw [Log.follow]
    split_ifs
    · exact .outcome i _ true (.inl hdecided)
    · exact .outcome i _ true (.inl hdecided)
  | shortCircuit i admitted hdecided hcircuit hpc =>
    rw [Log.follow]
    split_ifs with hin
    · exact .lost i (.inl hin.2)
    · exact .nothing
  | error i code admitted hcode hdecided hcircuit hpc =>
    rw [Log.follow, if_neg fun hin => hcode hin.1]
    exact .nothing
  | record i now admitted herring hcircuit hpc =>
    rw [Log.follow, herring]
    cases admitted with
    | true => exact .outcome i _ false (.inr ⟨now, herring⟩)
    | false => exact .stray i (.inr ⟨now, herring⟩)

/-- One more outcome of a call. -/
theorem outcomesOf_concat_self (l : List (Nat × Bool)) :
    outcomesOf i (l ++ [(i, success)]) = outcomesOf i l ++ [success] := by
  rw [outcomesOf_append, outcomesOf_self]

/-- One more outcome of another call. -/
theorem outcomesOf_concat_of_ne {j : Nat} (hne : j ≠ i) (l : List (Nat × Bool)) :
    outcomesOf j (l ++ [(i, success)]) = outcomesOf j l := by
  rw [outcomesOf_append, outcomesOf_of_ne hne.symm, List.append_nil]

variable {p p' : State × Log}

/-- A call that was let in and has not ended has no record. -/
theorem Logged.recorded_eq_nil (h : Logged config p) (hin : (p.1.pc i).IsAdmitted)
    (hended : outcomesOf i p.2.ended = []) : outcomesOf i p.2.recorded = [] := by
  by_contra hrecorded
  rcases h.recorded i hrecorded with hne | hout
  · exact hne hended
  · exact Pc.not_rejected_of_admitted hin hout

/-- The outcome of a call is recorded once exactly when the call had none so far. -/
theorem Logged.once_outcome_iff (h : Logged config p) (honce : p.2.Once) (resetAt : Nat)
    (hin : (p.1.pc i).IsAdmitted) :
    Log.Once { ((p.2.finish i success).record i success) with resetAt } ↔
      outcomesOf i p.2.ended = [] := by
  constructor
  · intro hnew
    have hended : outcomesOf i (p.2.ended ++ [(i, success)]) = outcomesOf i p.2.ended ++ [success] :=
      outcomesOf_concat_self _
    obtain ⟨o, ho, -⟩ := hnew i (by
      show outcomesOf i (p.2.ended ++ [(i, success)]) ≠ []
      rw [hended]
      exact List.append_ne_nil_of_right_ne_nil _ (List.cons_ne_nil _ _))
    have hone : outcomesOf i p.2.ended ++ [success] = [] ++ [o] := hended.symm.trans ho
    exact (List.append_inj' hone rfl).1
  · intro hended j
    show outcomesOf j (p.2.ended ++ [(i, success)]) ≠ [] →
      ∃ o, outcomesOf j (p.2.ended ++ [(i, success)]) = [o] ∧
        outcomesOf j (p.2.recorded ++ [(i, success)]) = [o]
    by_cases hj : j = i
    · subst hj
      rw [outcomesOf_concat_self, outcomesOf_concat_self, hended, h.recorded_eq_nil hin hended]
      exact fun _ => ⟨success, rfl, rfl⟩
    · rw [outcomesOf_concat_of_ne hj, outcomesOf_concat_of_ne hj]
      exact honce j

/-- An end that is not recorded. -/
theorem Logged.not_once_lost (h : Logged config p) (hin : (p.1.pc i).IsAdmitted) :
    ¬ (p.2.finish i false).Once := by
  intro hnew
  have hended : outcomesOf i (p.2.ended ++ [(i, false)]) = outcomesOf i p.2.ended ++ [false] :=
    outcomesOf_concat_self _
  obtain ⟨o, ho, hrecorded⟩ := hnew i (by
    show outcomesOf i (p.2.ended ++ [(i, false)]) ≠ []
    rw [hended]
    exact List.append_ne_nil_of_right_ne_nil _ (List.cons_ne_nil _ _))
  have hone : outcomesOf i p.2.ended ++ [false] = [] ++ [o] := hended.symm.trans ho
  have hnil := h.recorded_eq_nil hin (List.append_inj' hone rfl).1
  have hrecorded' : outcomesOf i p.2.recorded = [o] := hrecorded
  rw [hnil] at hrecorded'
  cases hrecorded'

/-- A record of a call that was turned away is of no call that ended. -/
theorem Logged.once_stray (h : Logged config p) (honce : p.2.Once) (hout : (p.1.pc i).IsRejected) :
    (p.2.record i false).Once := by
  intro j hj
  have hne : j ≠ i := by
    rintro rfl
    exact Pc.not_rejected_of_admitted (h.ended j hj) hout
  obtain ⟨o, hended, hrecorded⟩ := honce j hj
  refine ⟨o, hended, ?_⟩
  show outcomesOf j (p.2.recorded ++ [(i, false)]) = [o]
  rw [outcomesOf_concat_of_ne hne, hrecorded]

/-! ## The invariant -/

/-- What the log holds of each call stays in step with where the calls stand. -/
theorem Logged.calls {log' : Log} (h : Logged config p)
    (hkeeps : ∀ j, ((p.1.pc j).IsAdmitted → (s'.pc j).IsAdmitted) ∧
      ((p.1.pc j).IsRejected → (s'.pc j).IsRejected))
    (hadds : Adds p.1 p.2 log') :
    (∀ j, outcomesOf j log'.ended ≠ [] → (s'.pc j).IsAdmitted) ∧
      ∀ j, outcomesOf j log'.recorded ≠ [] →
        outcomesOf j log'.ended ≠ [] ∨ (s'.pc j).IsRejected := by
  have hended : ∀ j, outcomesOf j p.2.ended ≠ [] → (s'.pc j).IsAdmitted :=
    fun j hj => (hkeeps j).1 (h.ended j hj)
  have hrecorded : ∀ j, outcomesOf j p.2.recorded ≠ [] →
      outcomesOf j p.2.ended ≠ [] ∨ (s'.pc j).IsRejected :=
    fun j hj => (h.recorded j hj).imp_right (hkeeps j).2
  have hconcat : ∀ (i : Nat) (success : Bool) (l : List (Nat × Bool)),
      outcomesOf i (l ++ [(i, success)]) ≠ [] := by
    intro i success l
    rw [outcomesOf_concat_self]
    exact List.append_ne_nil_of_right_ne_nil _ (List.cons_ne_nil _ _)
  cases hadds with
  | nothing => exact ⟨hended, hrecorded⟩
  | outcome i resetAt success hin =>
    refine ⟨fun j hj => ?_, fun j hj => ?_⟩
    · by_cases hne : j = i
      · exact hne ▸ (hkeeps i).1 hin
      · have hj' : outcomesOf j (p.2.ended ++ [(i, success)]) ≠ [] := hj
        rw [outcomesOf_concat_of_ne hne] at hj'
        exact hended j hj'
    · show outcomesOf j (p.2.ended ++ [(i, success)]) ≠ [] ∨ _
      by_cases hne : j = i
      · subst hne
        exact .inl (hconcat j success _)
      · have hj' : outcomesOf j (p.2.recorded ++ [(i, success)]) ≠ [] := hj
        rw [outcomesOf_concat_of_ne hne] at hj' ⊢
        exact hrecorded j hj'
  | lost i hin =>
    refine ⟨fun j hj => ?_, fun j hj => ?_⟩
    · by_cases hne : j = i
      · exact hne ▸ (hkeeps i).1 hin
      · have hj' : outcomesOf j (p.2.ended ++ [(i, false)]) ≠ [] := hj
        rw [outcomesOf_concat_of_ne hne] at hj'
        exact hended j hj'
    · show outcomesOf j (p.2.ended ++ [(i, false)]) ≠ [] ∨ _
      by_cases hne : j = i
      · subst hne
        exact .inl (hconcat j false _)
      · rw [outcomesOf_concat_of_ne hne]
        exact hrecorded j hj
  | stray i hout =>
    refine ⟨hended, fun j hj => ?_⟩
    by_cases hne : j = i
    · exact .inr (hne ▸ (hkeeps i).2 hout)
    · have hj' : outcomesOf j (p.2.recorded ++ [(i, false)]) ≠ [] := hj
      rw [outcomesOf_concat_of_ne hne] at hj'
      exact hrecorded j hj'

theorem Log.lastOf_sinceReset_reset (log : Log) (n : Nat) : lastOf n log.reset.sinceReset = [] := by
  rw [Log.sinceReset, Log.reset, List.drop_length]
  exact lastOf_nil n

/-- What goes into the window goes into the record. -/
theorem Logged.windows (h : Logged config p) {l : Label} (hmoves : Moves config p.1 s' l) :
    s'.circuit.window = lastOf (max config.windowSize 1) (p.2.follow p.1 l).sinceReset ∧
      (p.2.follow p.1 l).resetAt ≤ (p.2.follow p.1 l).recorded.length := by
  have hpush : ∀ i success, (p.1.circuit.push success config.windowSize).window =
      lastOf (max config.windowSize 1) (p.2.record i success).sinceReset :=
    fun i success => Circuit.window_push h.window h.reset i
  have hgrown : p.2.resetAt ≤ p.2.recorded.length + 1 := h.reset.trans (Nat.le_succ _)
  cases hmoves with
  | tick now hcircuit hpc => exact ⟨hcircuit ▸ h.window, h.reset⟩
  | before i hidle hcircuit hpc => exact ⟨hcircuit ▸ h.window, h.reset⟩
  | decide i now admitted hidle hwindow hclosed hpc => exact ⟨hwindow ▸ h.window, h.reset⟩
  | after i hdecided hcircuit hpc =>
    rw [hcircuit, Log.follow]
    by_cases hhalf : p.1.circuit.state = .halfOpen
    · rw [if_pos hhalf, Circuit.after_of_halfOpen hhalf]
      exact ⟨(Log.lastOf_sinceReset_reset _ _).symm, Nat.le_refl _⟩
    · rw [if_neg hhalf, Circuit.after_of_not hhalf]
      refine ⟨hpush i true, ?_⟩
      rw [Log.record, List.length_append]
      exact hgrown
  | shortCircuit i admitted hdecided hcircuit hpc =>
    rw [hcircuit, Log.follow]
    split_ifs
    · exact ⟨h.window, h.reset⟩
    · exact ⟨h.window, h.reset⟩
  | error i code admitted hcode hdecided hcircuit hpc =>
    rw [hcircuit, Log.follow, if_neg fun hin => hcode hin.1]
    exact ⟨h.window, h.reset⟩
  | record i now admitted herring hcircuit hpc =>
    rw [hcircuit, Log.follow, herring, Circuit.window_onError]
    cases admitted with
    | true =>
      refine ⟨hpush i false, ?_⟩
      show _ ≤ (p.2.recorded ++ [(i, false)]).length
      rw [List.length_append]
      exact hgrown
    | false =>
      refine ⟨hpush i false, ?_⟩
      show _ ≤ (p.2.recorded ++ [(i, false)]).length
      rw [List.length_append]
      exact hgrown

theorem loggedStep_hook {l : Label} (hstep : loggedStep config p (.hook l) = some p') :
    Moves config p.1 p'.1 l ∧ p'.2 = p.2.follow p.1 l := by
  obtain ⟨s', hs', rfl⟩ := Option.map_eq_some_iff.mp hstep
  exact ⟨moves_of_step hs', rfl⟩

theorem Logged.step {l : Event} (h : Logged config p) (hstep : loggedStep config p l = some p') :
    Logged config p' := by
  cases l with
  | hook l =>
    obtain ⟨hmoves, hlog⟩ := loggedStep_hook hstep
    obtain ⟨hwindow, hreset⟩ := h.windows hmoves
    obtain ⟨hended, hrecorded⟩ := h.calls hmoves.keeps (hmoves.adds p.2)
    rw [← hlog] at hwindow hreset hended hrecorded
    exact { window := hwindow, reset := hreset, ended := hended, recorded := hrecorded }
  | reset =>
    obtain rfl := Option.some.inj hstep
    exact
      { window := (Log.lastOf_sinceReset_reset p.2 _).symm
        reset := Nat.le_refl _
        ended := h.ended
        recorded := h.recorded }

theorem Logged.init : Logged config (ModuleCircuit.init, Log.empty) where
  window := (lastOf_nil _).symm
  reset := Nat.le_refl _
  ended := fun _ h => absurd rfl h
  recorded := fun _ h => absurd rfl h

/-! ## The law -/

theorem Circuit.below_congr {c' : Circuit} (hwindow : c'.window = c.window) :
    c'.Below config threshold ↔ c.Below config threshold := by
  rw [Below, Below, errorRate_eq, errorRate_eq, hwindow]

theorem Circuit.below_of_nil (hconfig : config.Sensible threshold) (hwindow : c.window = []) :
    c.Below config threshold := by
  refine .inr ?_
  rw [errorRate_eq, hwindow]
  simpa using hconfig.positive

theorem Logged.lawful_iff (h : Logged config p) : Lawful config threshold p ↔
    p.2.Once ∧ (p.1.circuit.state = .closed → p.1.circuit.Below config threshold) :=
  ⟨fun hp => ⟨hp.once, hp.opening⟩, fun hp => { window := h.window, once := hp.1, opening := hp.2 }⟩

/-- A step keeps the law exactly when it does not slip. -/
theorem lawful_step_iff (hconfig : config.Sensible threshold) {l : Event} (h : Logged config p)
    (hp : Lawful config threshold p) (hstep : loggedStep config p l = some p') :
    ¬ Slips config threshold p l ↔ Lawful config threshold p' := by
  rw [(h.step hstep).lawful_iff]
  have hopening : p.1.circuit.state = .closed → p.1.circuit.Below config threshold := hp.opening
  cases l with
  | reset =>
    obtain rfl := Option.some.inj hstep
    exact iff_of_true id ⟨hp.once, fun _ => Circuit.below_of_nil hconfig rfl⟩
  | hook l =>
    obtain ⟨hmoves, hlog⟩ := loggedStep_hook hstep
    rw [hlog]
    cases hmoves with
    | tick now hcircuit hpc =>
      rw [hcircuit]
      exact iff_of_true id ⟨hp.once, hopening⟩
    | before i hidle hcircuit hpc =>
      rw [hcircuit]
      exact iff_of_true id ⟨hp.once, hopening⟩
    | decide i now admitted hidle hwindow hclosed hpc =>
      refine iff_of_true id ⟨hp.once, fun h' => ?_⟩
      exact (Circuit.below_congr hwindow).mpr (hopening (hclosed h'))
    | after i hdecided hcircuit hpc =>
      have hin : (p.1.pc i).IsAdmitted := .inl hdecided
      have honce : (p.2.follow p.1 (.after i)).Once ↔ outcomesOf i p.2.ended = [] := by
        rw [Log.follow]
        split_ifs
        · exact h.once_outcome_iff hp.once _ hin
        · exact h.once_outcome_iff hp.once _ hin
      rw [honce, hcircuit, Slips, not_or, not_not]
      refine and_congr_right fun _ => ?_
      by_cases hhalf : p.1.circuit.state = .halfOpen
      · rw [Circuit.after_of_halfOpen hhalf, hhalf]
        exact iff_of_true (fun h' => by cases h'.1) fun _ => Circuit.below_of_nil hconfig rfl
      · rw [Circuit.after_of_not hhalf]
        by_cases hclosed : p.1.circuit.state = .closed
        · have hcap : p.1.circuit.window.length ≤ max config.windowSize 1 := by
            rw [h.window, lastOf, List.length_drop]
            omega
          have hpush := Circuit.below_push hconfig hcap (hopening hclosed)
          rw [not_and, forall_prop_of_true hclosed, ← hpush]
          exact ⟨fun hbelow _ => hbelow, fun hbelow => hbelow hclosed⟩
        · exact iff_of_true (fun h' => hclosed h'.1) fun h' => absurd h' hclosed
    | shortCircuit i admitted hdecided hcircuit hpc =>
      rw [hcircuit, Log.follow, Slips]
      by_cases hin : p.1.pc i = .decided true
      · rw [if_pos ⟨rfl, hin⟩]
        exact iff_of_false (fun h' => h' ⟨rfl, hin⟩) fun h' => h.not_once_lost (.inl hin) h'.1
      · rw [if_neg fun h' => hin h'.2]
        exact iff_of_true (fun h' => hin h'.2) ⟨hp.once, hopening⟩
    | error i code admitted hcode hdecided hcircuit hpc =>
      rw [hcircuit, Log.follow, Slips, if_neg fun h' => hcode h'.1]
      exact iff_of_true (fun h' => hcode h'.1) ⟨hp.once, hopening⟩
    | record i now admitted herring hcircuit hpc =>
      have hbelow : (p.1.circuit.onError config now).state = .closed →
          (p.1.circuit.onError config now).Below config threshold := Circuit.below_onError hconfig
      rw [hcircuit, Log.follow, Slips, herring]
      cases admitted with
      | true =>
        have honce : Log.Once { ((p.2.finish i false).record i false) with resetAt := p.2.resetAt } ↔
            outcomesOf i p.2.ended = [] := h.once_outcome_iff hp.once _ (.inr ⟨now, herring⟩)
        have hslips : ¬ ((∃ now', Pc.erring true now = .erring true now') ∧
            outcomesOf i p.2.ended ≠ []) ↔ outcomesOf i p.2.ended = [] := by
          rw [not_and, forall_prop_of_true ⟨now, rfl⟩, not_not]
        rw [hslips, ← honce]
        exact ⟨fun h' => ⟨h', hbelow⟩, fun h' => h'.1⟩
      | false =>
        refine iff_of_true ?_ ⟨h.once_stray hp.once (.inr ⟨now, herring⟩), hbelow⟩
        rintro ⟨⟨now', hnow⟩, -⟩
        cases hnow

/-- **In a run that no step of which slips the law holds throughout**, whatever calls overlap; and a
run in which it holds throughout has no step that slips. -/
theorem lawful_iff_of_run (hconfig : config.Sensible threshold) {ls : List Event}
    (hrun : Transition.exec (loggedStep config) (init, Log.empty) ls = some p) :
    Transition.Along (loggedStep config) (fun p l => ¬ Slips config threshold p l)
        (init, Log.empty) ls ↔
      ∀ ls' m, ls' <+: ls →
        Transition.exec (loggedStep config) (init, Log.empty) ls' = some m →
          Lawful config threshold m := by
  refine Transition.along_iff_forall_prefix (I := Logged config) ?_ .init ?_ hrun
  · exact fun p l p' h hp hstep => ⟨h.step hstep, lawful_step_iff hconfig h hp hstep⟩
  · refine Logged.init.lawful_iff.mpr ⟨fun i hi => absurd rfl hi, fun _ => ?_⟩
    exact Circuit.below_of_nil hconfig rfl

/-! ## A success that is one sample too many -/

/-- Two samples count, and half of them are enough. -/
def twoSamples : CircuitBreakerConfig where
  exceeds := exactRate (1 / 2)
  windowSize := 2
  minSamples := 2

theorem twoSamples_sensible : twoSamples.Sensible (1 / 2) where
  exact_rate := rfl
  positive := by norm_num
  atMostOne := by norm_num
  enough := Nat.le_refl 2

/-- Two calls, of which one fails and then the other succeeds. -/
def errorThenSuccess : List Event :=
  [.hook (.before 0), .hook (.decide 0), .hook (.before 1), .hook (.decide 1),
    .hook (.onError 0 .moduleExecuteError), .hook (.recordError 0), .hook (.after 1)]

/-- `after` does not look at the threshold: the circuit stays CLOSED at a rate that opens it. -/
theorem errorThenSuccess_staysClosed :
    ¬ ∀ (config : CircuitBreakerConfig) (threshold : ℚ), config.Sensible threshold →
      ∀ (ls : List Event) (p : State × Log),
        Transition.exec (loggedStep config) (init, Log.empty) ls = some p →
          Lawful config threshold p := by
  intro h
  obtain ⟨p, hp, hclosed, hwindow⟩ : ∃ p,
      Transition.exec (loggedStep twoSamples) (init, Log.empty) errorThenSuccess = some p ∧
        p.1.circuit.state = .closed ∧ p.1.circuit.window = [false, true] := ⟨_, rfl, rfl, rfl⟩
  have hopening := (h twoSamples _ twoSamples_sensible errorThenSuccess p hp).opening hclosed
  rw [Circuit.errorRate_eq, hwindow] at hopening
  rcases hopening with hfew | hrate
  · exact absurd hfew (by decide)
  · norm_num at hrate

theorem lawful_iff_errorThenSuccess : ∃ p,
    Transition.exec (loggedStep twoSamples) (init, Log.empty) errorThenSuccess = some p ∧
      (Transition.Along (loggedStep twoSamples) (fun p l => ¬ Slips twoSamples (1 / 2) p l)
          (init, Log.empty) errorThenSuccess ↔
        ∀ ls' m, ls' <+: errorThenSuccess →
          Transition.exec (loggedStep twoSamples) (init, Log.empty) ls' = some m →
            Lawful twoSamples (1 / 2) m) := by
  obtain ⟨p, hp⟩ : ∃ p,
      Transition.exec (loggedStep twoSamples) (init, Log.empty) errorThenSuccess = some p := ⟨_, rfl⟩
  exact ⟨p, hp, lawful_iff_of_run twoSamples_sensible hp⟩

end ModuleCircuit

end Apcore
