import Mathlib.Data.List.Basic
import Mathlib.Data.Sum.Basic

/-! # `Lib.Run` — computations over a world that report events and may unwind

`Run π σ ε α` reads and rewrites a world `σ`, reports events `ε` on its way, and either returns an
`α` or unwinds with a payload `π`. The events reported before an unwinding are kept, so a safety
property of the events speaks about every run, also about one that never returns.

A computation of user code has no event to report: it is a `Run π σ Empty α`, and `Run.lift` lets
it run inside a computation that has.

Reasoning is by `Run.Ensures`, which speaks about the outcome and the events together, with one rule
for each way to build a computation; loops have a history invariant (`Run.loop_ensures`) and do not
depend on their fuel once it covers a measure (`Run.loop_fuel`). -/

/-- What a computation leaves: how it ended, what it reported, and the world. -/
structure Ran (π σ ε α : Type) where
  outcome : Except π α
  events : List ε
  world : σ

/-- A computation over the world `σ`. -/
structure Run (π σ ε α : Type) where
  run : σ → Ran π σ ε α

instance (π σ ε α : Type) : CoeFun (Run π σ ε α) fun _ => σ → Ran π σ ε α := ⟨Run.run⟩

namespace Run

variable {π σ ε α β s r : Type}

instance : Monad (Run π σ ε) where
  pure a := ⟨fun w => ⟨.ok a, [], w⟩⟩
  bind x f := ⟨fun w =>
    match (x w).outcome with
    | .error p => ⟨.error p, (x w).events, (x w).world⟩
    | .ok a =>
      ⟨(f a (x w).world).outcome, (x w).events ++ (f a (x w).world).events,
        (f a (x w).world).world⟩⟩

/-- The world as it stands. -/
def world : Run π σ ε σ := ⟨fun w => ⟨.ok w, [], w⟩⟩

/-- Replace the world. -/
def setWorld (w' : σ) : Run π σ ε Unit := ⟨fun _ => ⟨.ok (), [], w'⟩⟩

/-- Report one event. -/
def report (e : ε) : Run π σ ε Unit := ⟨fun w => ⟨.ok (), [e], w⟩⟩

/-- Unwind with a payload. -/
def unwind (p : π) : Run π σ ε α := ⟨fun w => ⟨.error p, [], w⟩⟩

/-- Run a computation that has nothing to report. -/
def lift (x : Run π σ Empty α) : Run π σ ε α := ⟨fun w => ⟨(x w).outcome, [], (x w).world⟩⟩

/-- Stop an unwinding and return its payload. -/
def catchUnwind (x : Run π σ ε α) : Run π σ ε (Except π α) := ⟨fun w =>
  ⟨.ok (x w).outcome, (x w).events, (x w).world⟩⟩

/-! ## Equations -/

@[ext] theorem ext {x y : Run π σ ε α} (h : ∀ w, x w = y w) : x = y := by
  cases x
  cases y
  exact congrArg Run.mk (funext h)

@[simp] theorem pure_apply (a : α) (w : σ) : (pure a : Run π σ ε α) w = ⟨.ok a, [], w⟩ := rfl

@[simp] theorem world_apply (w : σ) : (world : Run π σ ε σ) w = ⟨.ok w, [], w⟩ := rfl

@[simp] theorem setWorld_apply (w' w : σ) : (setWorld w' : Run π σ ε Unit) w = ⟨.ok (), [], w'⟩ := rfl

@[simp] theorem report_apply (e : ε) (w : σ) : (report e : Run π σ ε Unit) w = ⟨.ok (), [e], w⟩ := rfl

@[simp] theorem lift_apply (x : Run π σ Empty α) (w : σ) :
    (lift x : Run π σ ε α) w = ⟨(x w).outcome, [], (x w).world⟩ := rfl

@[simp] theorem catchUnwind_apply (x : Run π σ ε α) (w : σ) :
    catchUnwind x w = ⟨.ok (x w).outcome, (x w).events, (x w).world⟩ := rfl

/-- What follows a computation that returned. -/
theorem bind_apply_ok {x : Run π σ ε α} {f : α → Run π σ ε β} {w : σ} {a : α}
    (h : (x w).outcome = .ok a) :
    (x >>= f) w =
      ⟨(f a (x w).world).outcome, (x w).events ++ (f a (x w).world).events,
        (f a (x w).world).world⟩ := by
  show (match (x w).outcome with | .error p => _ | .ok a => _) = _
  rw [h]

/-- Nothing follows a computation that unwound. -/
theorem bind_apply_error {x : Run π σ ε α} {f : α → Run π σ ε β} {w : σ} {p : π}
    (h : (x w).outcome = .error p) :
    (x >>= f) w = ⟨.error p, (x w).events, (x w).world⟩ := by
  show (match (x w).outcome with | .error p => _ | .ok a => _) = _
  rw [h]

/-- What follows a computation matters only where it returned. -/
theorem bind_congr_ok {x : Run π σ ε α} {f g : α → Run π σ ε β} {w : σ}
    (h : ∀ a, (x w).outcome = .ok a → f a (x w).world = g a (x w).world) :
    (x >>= f) w = (x >>= g) w := by
  cases hx : (x w).outcome with
  | error p => rw [bind_apply_error hx, bind_apply_error hx]
  | ok a => rw [bind_apply_ok hx, bind_apply_ok hx, h a hx]

/-- A sequence returns when both parts do. -/
theorem bind_outcome_eq_ok {x : Run π σ ε α} {f : α → Run π σ ε β} {w : σ} {b : β} :
    ((x >>= f) w).outcome = .ok b ↔
      ∃ a, (x w).outcome = .ok a ∧ (f a (x w).world).outcome = .ok b := by
  cases h : (x w).outcome with
  | error p => simp [bind_apply_error h]
  | ok a => simp [bind_apply_ok h]

/-! ## The laws of a monad -/

theorem run_map_id (x : Run π σ ε α) : id <$> x = x := by
  ext w
  show (x >>= pure) w = x w
  cases h : (x w).outcome with
  | error p => rw [bind_apply_error h, ← h]
  | ok a => simp [bind_apply_ok h, ← h]

theorem run_pure_bind (a : α) (f : α → Run π σ ε β) : pure a >>= f = f a := by
  ext w
  rw [bind_apply_ok rfl]
  rfl

theorem run_bind_assoc {γ : Type} (x : Run π σ ε α) (f : α → Run π σ ε β)
    (g : β → Run π σ ε γ) : x >>= f >>= g = x >>= fun a => f a >>= g := by
  ext w
  cases hx : (x w).outcome with
  | error p =>
    have hxf : ((x >>= f) w).outcome = .error p := by rw [bind_apply_error hx]
    rw [bind_apply_error hxf, bind_apply_error hx, bind_apply_error hx]
  | ok a =>
    rw [bind_apply_ok hx]
    cases hf : (f a (x w).world).outcome with
    | error p =>
      have hxf : ((x >>= f) w).outcome = .error p := by
        rw [bind_apply_ok hx]
        exact hf
      rw [bind_apply_error hxf, bind_apply_ok hx, bind_apply_error hf]
    | ok b =>
      have hxf : ((x >>= f) w).outcome = .ok b := by
        rw [bind_apply_ok hx]
        exact hf
      rw [bind_apply_ok hxf, bind_apply_ok hx, bind_apply_ok hf, List.append_assoc]

instance : LawfulMonad (Run π σ ε) :=
  LawfulMonad.mk' _ run_map_id run_pure_bind run_bind_assoc

/-- Whatever the world, the outcome and the events of `x` satisfy `Q`. -/
def Ensures (x : Run π σ ε α) (Q : Except π α → List ε → Prop) : Prop :=
  ∀ w, Q (x w).outcome (x w).events

theorem Ensures.mono {x : Run π σ ε α} {P Q : Except π α → List ε → Prop} (h : x.Ensures P)
    (hPQ : ∀ out evs, P out evs → Q out evs) : x.Ensures Q := fun w => hPQ _ _ (h w)

theorem ensures_pure {a : α} {Q : Except π α → List ε → Prop} (h : Q (.ok a) []) :
    (pure a : Run π σ ε α).Ensures Q := fun _ => h

theorem ensures_report {e : ε} {Q : Except π Unit → List ε → Prop} (h : Q (.ok ()) [e]) :
    (report e : Run π σ ε Unit).Ensures Q := fun _ => h

/-- Sequencing: what the second computation ensures is about the events of both. -/
theorem ensures_bind {x : Run π σ ε α} {f : α → Run π σ ε β} {P : Except π α → List ε → Prop}
    {Q : Except π β → List ε → Prop} (hx : x.Ensures P)
    (herr : ∀ p evs, P (.error p) evs → Q (.error p) evs)
    (hok : ∀ a evs, P (.ok a) evs → (f a).Ensures fun out evs' => Q out (evs ++ evs')) :
    (x >>= f).Ensures Q := by
  intro w
  have hP := hx w
  cases h : (x w).outcome with
  | error p =>
    rw [bind_apply_error h]
    exact herr p _ (h ▸ hP)
  | ok a =>
    rw [bind_apply_ok h]
    exact hok a _ (h ▸ hP) _

/-- After silent code nothing has been reported yet. -/
theorem ensures_lift_bind {x : Run π σ Empty α} {f : α → Run π σ ε β}
    {Q : Except π β → List ε → Prop} (herr : ∀ p, Q (.error p) [])
    (hok : ∀ a w, (x w).outcome = .ok a → (f a).Ensures Q) : (lift x >>= f).Ensures Q := by
  refine ensures_bind (P := fun out evs => evs = [] ∧ ∃ w, (x w).outcome = out)
    (fun w => ⟨rfl, w, rfl⟩) ?_ ?_
  · rintro p evs ⟨rfl, -⟩
    exact herr p
  · rintro a evs ⟨rfl, w, ha⟩
    exact hok a w ha

/-! ## What a computation that returns has done -/

/-- Whatever the world: if `x` returns, the value and the events satisfy `Q`. -/
def Returns (x : Run π σ ε α) (Q : α → List ε → Prop) : Prop :=
  ∀ w a, (x w).outcome = .ok a → Q a (x w).events

theorem Returns.mono {x : Run π σ ε α} {P Q : α → List ε → Prop} (h : x.Returns P)
    (hPQ : ∀ a evs, P a evs → Q a evs) : x.Returns Q := fun w a ha => hPQ _ _ (h w a ha)

theorem returns_pure {a : α} {Q : α → List ε → Prop} (h : Q a []) :
    (pure a : Run π σ ε α).Returns Q := by
  intro w b hb
  obtain rfl : a = b := Except.ok.inj hb
  exact h

/-- After a report, the event stands in front of what is reported. -/
theorem returns_report_bind {e : ε} {f : Unit → Run π σ ε β} {Q : β → List ε → Prop}
    (h : (f ()).Returns fun b evs => Q b (e :: evs)) : (report e >>= f).Returns Q :=
  fun w b hb => h w b hb

theorem returns_bind {x : Run π σ ε α} {f : α → Run π σ ε β} {P : α → List ε → Prop}
    {Q : β → List ε → Prop} (hx : x.Returns P)
    (hf : ∀ a evs, P a evs → (f a).Returns fun b evs' => Q b (evs ++ evs')) :
    (x >>= f).Returns Q := by
  intro w b hb
  obtain ⟨a, ha, hfa⟩ := bind_outcome_eq_ok.mp hb
  rw [bind_apply_ok ha]
  exact hf a _ (hx w a ha) _ b hfa

/-- Silent code gives a value it has from some world. -/
theorem returns_lift_bind {x : Run π σ Empty α} {f : α → Run π σ ε β} {Q : β → List ε → Prop}
    (h : ∀ a w, (x w).outcome = .ok a → (f a).Returns Q) : (lift x >>= f).Returns Q := by
  intro w b hb
  obtain ⟨a, ha, hfa⟩ := bind_outcome_eq_ok.mp hb
  rw [bind_apply_ok ha]
  exact h a w ha _ b hfa

/-! ## Loops -/

/-- `while cond { body }`, for at most `fuel` iterations. The body goes on in a new state (`inl`) or
returns from inside the loop (`inr`); the loop left by its condition gives the state it was left
in. -/
def loop (cond : s → Bool) (body : s → Run π σ ε (s ⊕ r)) : Nat → s → Run π σ ε (s ⊕ r)
  | 0, st => pure (.inl st)
  | fuel + 1, st =>
    if cond st then
      body st >>= fun
        | .inl st' => loop cond body fuel st'
        | .inr out => pure (.inr out)
    else pure (.inl st)

/-- **History invariant.** An invariant of the state and of all events reported so far, kept by
each iteration, holds wherever the loop is left by its condition or its fuel; where it is left from
inside or by an unwinding, what the iteration ensured holds of the whole history. -/
theorem loop_ensures {cond : s → Bool} {body : s → Run π σ ε (s ⊕ r)} {I : s → List ε → Prop}
    {Q : Except π (s ⊕ r) → List ε → Prop}
    (hbody : ∀ st evs, I st evs → cond st = true → (body st).Ensures fun out evs' =>
      match out with
      | .ok (.inl st') => I st' (evs ++ evs')
      | out => Q out (evs ++ evs'))
    (hexit : ∀ st evs, I st evs → Q (.ok (.inl st)) evs) :
    ∀ fuel st evs, I st evs → (loop cond body fuel st).Ensures fun out evs' => Q out (evs ++ evs') := by
  intro fuel
  induction fuel with
  | zero =>
    intro st evs hI
    exact ensures_pure (by simpa using hexit st evs hI)
  | succ fuel ih =>
    intro st evs hI
    rw [loop]
    by_cases hc : cond st = true
    · rw [if_pos hc]
      refine ensures_bind (hbody st evs hI hc) (fun p evs' h => h) ?_
      rintro (st' | out) evs' h
      · refine (ih st' _ h).mono fun out evs'' hQ => ?_
        rwa [← List.append_assoc]
      · exact ensures_pure (by simpa using h)
    · rw [if_neg hc]
      exact ensures_pure (by simpa using hexit st evs hI)

/-- The history invariant of a loop, for the runs in which it is left. -/
theorem loop_returns {cond : s → Bool} {body : s → Run π σ ε (s ⊕ r)} {I : s → List ε → Prop}
    {Q : s ⊕ r → List ε → Prop}
    (hbody : ∀ st evs, I st evs → cond st = true → (body st).Returns fun out evs' =>
      Sum.elim (fun st' => I st' (evs ++ evs')) (fun a => Q (.inr a) (evs ++ evs')) out)
    (hexit : ∀ st evs, I st evs → Q (.inl st) evs) :
    ∀ fuel st evs, I st evs → (loop cond body fuel st).Returns fun out evs' => Q out (evs ++ evs') := by
  intro fuel
  induction fuel with
  | zero => exact fun st evs hI => returns_pure (by simpa using hexit st evs hI)
  | succ fuel ih =>
    intro st evs hI
    rw [loop]
    by_cases hc : cond st = true
    · rw [if_pos hc]
      refine returns_bind (hbody st evs hI hc) ?_
      rintro (st' | a) evs' h
      · refine (ih st' _ h).mono fun out evs'' hQ => ?_
        rwa [← List.append_assoc]
      · exact returns_pure (by simpa using h)
    · rw [if_neg hc]
      exact returns_pure (by simpa using hexit st evs hI)

/-- **Enough fuel.** When every iteration that goes on lowers a measure, and the condition is false
where the measure is 0, fuel beyond the measure changes nothing. -/
theorem loop_fuel {cond : s → Bool} {body : s → Run π σ ε (s ⊕ r)} {m : s → Nat}
    (hdec : ∀ st w st', cond st = true → (body st w).outcome = .ok (.inl st') → m st' < m st)
    (hzero : ∀ st, m st = 0 → cond st = false) :
    ∀ fuel fuel' st, m st ≤ fuel → m st ≤ fuel' →
      loop cond body fuel st = loop cond body fuel' st := by
  intro fuel
  induction fuel with
  | zero =>
    intro fuel' st h _
    have hc : cond st = false := hzero st (Nat.le_zero.mp h)
    cases fuel' with
    | zero => rfl
    | succ n => rw [loop, loop, if_neg (by simp [hc])]
  | succ n ih =>
    intro fuel' st h h'
    cases fuel' with
    | zero =>
      have hc : cond st = false := hzero st (Nat.le_zero.mp h')
      rw [loop, loop, if_neg (by simp [hc])]
    | succ n' =>
      rw [loop, loop]
      by_cases hc : cond st = true
      · rw [if_pos hc, if_pos hc]
        ext w
        cases hb : (body st w).outcome with
        | error p => rw [bind_apply_error hb, bind_apply_error hb]
        | ok next =>
          rw [bind_apply_ok hb, bind_apply_ok hb]
          cases next with
          | inr out => rfl
          | inl st' =>
            have hlt := hdec st w st' hc hb
            simp only [ih n' st' (by omega) (by omega)]
      · rw [if_neg hc, if_neg hc]

/-! ## Lockstep -/

/-- Two outcomes that are alike: both unwound with one payload, or both returned related values. -/
inductive OutcomeRel (R : α → β → Prop) : Except π α → Except π β → Prop where
  | unwound (p : π) : OutcomeRel R (.error p) (.error p)
  | returned {a : α} {b : β} (h : R a b) : OutcomeRel R (.ok a) (.ok b)

/-- From every world, `x` and `y` end alike and leave the same world. What they report may differ. -/
def Sim (R : α → β → Prop) (x : Run π σ ε α) (y : Run π σ ε β) : Prop :=
  ∀ w, OutcomeRel R (x w).outcome (y w).outcome ∧ (x w).world = (y w).world

end Run
