import Apcore.Events.CircuitBreaker
import Apcore.Events.DeadLetterRuns

/-! # `Events.SubscriberWrappers` — deliveries to a subscriber inside of others

`EventTypeSubscriber`, `CircuitBreakerWrapper` and `FilterSubscriber` are subscribers around a
subscriber. What one of them does not override is the default of the trait, whatever the subscriber
inside of it says. A delivery to a nest of them is a delivery of the emitter whose attempts go
through the nest. -/

namespace Apcore

namespace SubscriberWrappers

open DeadLetters
open SubscriberCircuit (CircuitBreakerWrapper Cells)

/-- `EventRetryConfig`; the delays are left open, see `EventSubscriber`. -/
structure EventRetryConfig where
  maxAttempts : Nat := 3
  computeDelayMs : Nat → Nat := fun attempt => min (100 * 2 ^ attempt) 30000

/-- The subscriber with another `retry`. -/
def withRetry (sub : EventSubscriber) (retry : EventRetryConfig) : EventSubscriber :=
  { sub with maxAttempts := retry.maxAttempts, computeDelayMs := retry.computeDelayMs }

/-- `FilterSubscriber`, but for its delegate. -/
structure FilterSubscriber where
  id : String
  includeEvents : Option (List String) := none
  excludeEvents : Option (List String) := none
  retry : EventRetryConfig := {}

/-- `FilterSubscriber::matches`. -/
def FilterSubscriber.passes (f : FilterSubscriber) (eventType : String) : Bool :=
  match f.includeEvents with
  | some includes => includes.any fun pat => matchGlob pat eventType
  | none =>
    match f.excludeEvents with
    | some excludes => !excludes.any fun pat => matchGlob pat eventType
    | none => true

/-- A subscriber around another one, without the one inside. -/
inductive Wrapper where
  | eventType (name : String)
  | circuitBreaker (breaker : CircuitBreakerWrapper) (timeoutMs : Nat) (cells : Cells)
  | filter (filter : FilterSubscriber)

/-- What the wrapper says of itself to the emitter. The fields that are not listed are those of the
trait. -/
def Wrapper.wrap (w : Wrapper) (sub : EventSubscriber) : EventSubscriber :=
  match w with
  | .eventType name =>
    { subscriberId := sub.subscriberId
      eventPattern := name
      eventTypeFilter := some name }
  | .circuitBreaker _ _ _ =>
    { subscriberId := sub.subscriberId
      eventPattern := sub.eventPattern
      eventTypeFilter := sub.eventTypeFilter }
  | .filter f =>
    { subscriberId := f.id
      subscriberType := sub.subscriberType
      eventPattern := sub.eventPattern
      maxAttempts := f.retry.maxAttempts
      computeDelayMs := f.retry.computeDelayMs }

/-- The subscriber inside of the wrappers, the outermost of which comes first. -/
def wrapAll (nest : List Wrapper) (sub : EventSubscriber) : EventSubscriber :=
  nest.foldr Wrapper.wrap sub

/-- The retry setting of a nest: a filter has its own, the others leave that to the inside. -/
def retryOf (sub : EventSubscriber) : List Wrapper → EventRetryConfig
  | [] => { maxAttempts := sub.maxAttempts, computeDelayMs := sub.computeDelayMs }
  | .filter f :: _ => f.retry
  | .eventType _ :: rest => retryOf sub rest
  | .circuitBreaker _ _ _ :: rest => retryOf sub rest

/-- What of a call of `on_failure` on the nest comes to the subscriber: no wrapper overrides the
hook, and the trait's does nothing. -/
def onFailure {α : Type} : List Wrapper → α → List α
  | [], call => [call]
  | .eventType _ :: _, _ => []
  | .circuitBreaker _ _ _ :: _, _ => []
  | .filter _ :: _, _ => []

/-! ## `on_event` -/

/-- What the subscriber answers to an attempt, when the attempt begins, and how long it takes. -/
structure Answer where
  outcome : Outcome
  now : Int
  takesMs : Nat

/-- The instant some milliseconds after the attempt began. -/
def Answer.after (answer : Answer) (ms : Nat) : Int := answer.now + 1000000 * ms

/-- What a nest answers, how long it takes, and the nest afterwards. -/
structure Response where
  outcome : Outcome
  takesMs : Nat
  nest : List Wrapper

/-- What a breaker makes of the end of a delivery. -/
def recorded (b : CircuitBreakerWrapper) (cells : Cells) (succeeded : Bool) (now : Int) : Cells :=
  if succeeded then (b.onSuccess cells now).1
  else
    let counted := { CircuitBreakerWrapper.countFailure cells with lastFailureAt := some now }
    (b.onFailure counted counted.consecutiveFailures now).1

/-- The nest after its `on_event` is dropped, while it waits for the subscriber. -/
def abandoned (now : Int) (nest : List Wrapper) : List Wrapper :=
  nest.map fun w =>
    match w with
    | .circuitBreaker b timeoutMs cells => .circuitBreaker b timeoutMs (b.checkRecovery cells now)
    | .eventType name => .eventType name
    | .filter f => .filter f

/-- `on_event` of a nest. -/
def onEvent (event : DeadLetters.ApCoreEvent) (answer : Answer) : List Wrapper → Response
  | [] => { outcome := answer.outcome, takesMs := answer.takesMs, nest := [] }
  | .eventType name :: rest =>
    let inner := onEvent event answer rest
    { inner with nest := .eventType name :: inner.nest }
  | .filter f :: rest =>
    if f.passes event.eventType then
      let inner := onEvent event answer rest
      { inner with nest := .filter f :: inner.nest }
    else { outcome := .ok (), takesMs := 0, nest := .filter f :: rest }
  | .circuitBreaker b timeoutMs cells :: rest =>
    let checked := b.checkRecovery cells answer.now
    if checked.state = .opened then
      { outcome := .ok (), takesMs := 0, nest := .circuitBreaker b timeoutMs checked :: rest }
    else
      let inner := onEvent event answer rest
      -- the timeout asks the delivery before the clock
      if inner.takesMs ≤ timeoutMs then
        let cells' := recorded b checked inner.outcome.isOk (answer.after inner.takesMs)
        { outcome := .ok ()
          takesMs := inner.takesMs
          nest := .circuitBreaker b timeoutMs cells' :: inner.nest }
      else
        let cells' := recorded b checked false (answer.after timeoutMs)
        { outcome := .ok ()
          takesMs := timeoutMs
          nest := .circuitBreaker b timeoutMs cells' :: abandoned answer.now rest }

/-! ## Deliveries -/

/-- What a delivery meets: the answers to its attempts, the clock when it makes the dead letter, and
the answers of those who get it, by position. -/
structure Surroundings where
  answers : Nat → Answer
  now : String
  now' : String
  receivers : Nat → Outcome

/-- A delivery to a nest. -/
structure Run where
  delivery : DeadLetters.Delivery
  nest : List Wrapper

/-- The answer of the subscriber that the next step calls, if it calls one, and the nest then. -/
def Run.answered (env : Surroundings) (r : Run) : Outcome × List Wrapper :=
  match r.delivery.stage with
  | .attempting attempt _ =>
    if attempt < r.delivery.subscriber.maxAttempts then
      let response := onEvent r.delivery.event (env.answers attempt) r.nest
      (response.outcome, response.nest)
    else (.ok (), r.nest)
  | .deadLettering _ _ position => (env.receivers position, r.nest)
  | .sleeping _ _ => (.ok (), r.nest)
  | .finished => (.ok (), r.nest)

/-- One step of `deliver_with_dlq`. -/
def Run.advance (env : Surroundings) (r : Run) : Option Run :=
  (r.delivery.advance env.now env.now' (r.answered env).1).map fun d =>
    { delivery := d, nest := (r.answered env).2 }

/-- This many steps, or as many as there are. -/
def Run.proceed (env : Surroundings) : Nat → Run → Run
  | 0, r => r
  | n + 1, r =>
    match r.advance env with
    | some r' => r'.proceed env n
    | none => r

/-- `deliver_with_dlq` of a nest at a position of the snapshot. -/
def deliver (env : Surroundings) (target : Nat) (event : DeadLetters.ApCoreEvent) (all : List EventSubscriber)
    (nest : List Wrapper) (sub : EventSubscriber) : Run :=
  let d := DeadLetters.Delivery.start target (wrapAll nest sub) event all
  Run.proceed env d.bound { delivery := d, nest := nest }

/-- What there is to see of a delivery: the attempts, the dead letters by receiver, with the type of
the subscriber in them, and the calls of the subscriber's own `on_failure`. -/
structure Observed where
  attempts : Nat
  deadLetters : Nat → List DeadLetters.ApCoreEvent
  failures : List (DeadLetters.ApCoreEvent × ModuleError × Nat)

def observe (nest : List Wrapper) (d : DeadLetters.Delivery) : Observed where
  attempts := d.attempts.length
  deadLetters := d.deadLettersTo
  failures := d.failures.flatMap (onFailure nest)

/-- The delivery to the nest is to be seen as the one to the subscriber by itself, with the retry
setting of the nest. -/
def KeepsPolicy (env : Surroundings) (target : Nat) (event : DeadLetters.ApCoreEvent)
    (all : List EventSubscriber) (nest : List Wrapper) (sub : EventSubscriber) : Prop :=
  observe nest (deliver env target event all nest sub).delivery =
    observe [] (deliver env target event all [] (withRetry sub (retryOf sub nest))).delivery

/-- The circuits are closed and the filters let the event through. -/
structure Ready (nest : List Wrapper) (event : DeadLetters.ApCoreEvent) : Prop where
  closed : ∀ b timeoutMs cells, .circuitBreaker b timeoutMs cells ∈ nest → cells.state = .closed
  passes : ∀ f, .filter f ∈ nest → f.passes event.eventType = true

/-! ## What a nest answers -/

/-- A circuit breaker is among the wrappers. -/
def hasBreaker : List Wrapper → Bool
  | [] => false
  | .circuitBreaker _ _ _ :: _ => true
  | .eventType _ :: rest => hasBreaker rest
  | .filter _ :: rest => hasBreaker rest

section

variable {nest : List Wrapper} {event : DeadLetters.ApCoreEvent} {w : Wrapper}

theorem Ready.tail (h : Ready (w :: nest) event) : Ready nest event where
  closed := fun b timeoutMs cells hmem => h.closed b timeoutMs cells (List.mem_cons_of_mem w hmem)
  passes := fun f hmem => h.passes f (List.mem_cons_of_mem w hmem)

theorem ready_nil : Ready [] event where
  closed := fun _ _ _ hmem => absurd hmem List.not_mem_nil
  passes := fun _ hmem => absurd hmem List.not_mem_nil

/-- What the emitter sees of the answer to an attempt. -/
def seen (nest : List Wrapper) (answer : Answer) : Outcome :=
  if hasBreaker nest then .ok () else answer.outcome

theorem checkRecovery_of_closed {b : CircuitBreakerWrapper} {cells : Cells} {now : Int}
    (hclosed : cells.state = .closed) : b.checkRecovery cells now = cells := by
  rw [CircuitBreakerWrapper.checkRecovery, hclosed]

/-- A breaker answers that all is well, whatever the subscriber says; without one the answer is the
subscriber's. -/
theorem outcome_onEvent (answer : Answer) (h : Ready nest event) :
    (onEvent event answer nest).outcome = seen nest answer := by
  induction nest with
  | nil => rfl
  | cons w rest ih =>
    cases w with
    | eventType name => exact ih h.tail
    | filter f =>
      have hpass : f.passes event.eventType = true := h.passes f List.mem_cons_self
      rw [onEvent, if_pos hpass]
      exact ih h.tail
    | circuitBreaker b timeoutMs cells =>
      have hclosed : cells.state = .closed := h.closed b timeoutMs cells List.mem_cons_self
      rw [onEvent, checkRecovery_of_closed hclosed, hclosed]
      show (if _ ≤ timeoutMs then _ else _ : Response).outcome = .ok ()
      split_ifs <;> rfl

/-- Without a breaker nothing in the nest changes. -/
theorem nest_onEvent (answer : Answer) (h : Ready nest event) (hnone : hasBreaker nest = false) :
    (onEvent event answer nest).nest = nest := by
  induction nest with
  | nil => rfl
  | cons w rest ih =>
    cases w with
    | eventType name => exact congrArg (Wrapper.eventType name :: ·) (ih h.tail hnone)
    | filter f =>
      have hpass : f.passes event.eventType = true := h.passes f List.mem_cons_self
      rw [onEvent, if_pos hpass]
      exact congrArg (Wrapper.filter f :: ·) (ih h.tail hnone)
    | circuitBreaker b timeoutMs cells => cases hnone

/-- An attempt that fails leaves the nest as it was. -/
theorem nest_of_error {answer : Answer} {e : ModuleError} (h : Ready nest event)
    (herror : seen nest answer = .error e) : (onEvent event answer nest).nest = nest := by
  refine nest_onEvent answer h ?_
  cases hbreaker : hasBreaker nest with
  | false => rfl
  | true =>
    rw [seen, hbreaker] at herror
    cases herror

theorem onFailure_of_ne_nil {α : Type} {call : α} (hne : nest ≠ []) : onFailure nest call = [] := by
  cases nest with
  | nil => exact absurd rfl hne
  | cons w rest => cases w <;> rfl

end

/-! ## Runs -/

/-- What holds of a delivery to a nest at any time: the attempts it has made are the answers in
their order, and the nest is as it was unless the delivery is over. -/
structure Run.Faithful (env : Surroundings) (nest : List Wrapper) (r : Run) : Prop where
  sound : r.delivery.Sound
  attempts : r.delivery.attempts =
    (List.range r.delivery.attempts.length).map fun i => seen nest (env.answers i)
  nest : r.delivery.stage = .finished ∨ r.nest = nest

section

variable {env : Surroundings} {nest : List Wrapper} {r r' : Run}

/-- A step makes the attempt that is due, or none. -/
theorem attempts_advance {d d' : DeadLetters.Delivery} {now now' : String} {outcome : Outcome}
    (hstep : d.advance now now' outcome = some d') :
    (∃ attempt lastError, d.stage = .attempting attempt lastError ∧
      attempt < d.subscriber.maxAttempts ∧ d'.attempts = d.attempts ++ [outcome] ∧
      (outcome = .ok () → d'.stage = .finished)) ∨
    ((∀ attempt lastError, d.stage = .attempting attempt lastError →
      ¬ attempt < d.subscriber.maxAttempts) ∧ d'.attempts = d.attempts) := by
  rw [DeadLetters.Delivery.advance] at hstep
  cases hstage : d.stage with
  | attempting attempt lastError =>
    rw [hstage] at hstep
    by_cases hlt : attempt < d.subscriber.maxAttempts
    · refine .inl ⟨attempt, lastError, rfl, hlt, ?_⟩
      simp only [hlt, if_true] at hstep
      cases outcome with
      | ok u =>
        obtain rfl := Option.some.inj hstep
        exact ⟨DeadLetters.Delivery.attempts_goTo, fun _ => rfl⟩
      | error e =>
        refine ⟨?_, fun heq => by cases heq⟩
        split_ifs at hstep
        · obtain rfl := Option.some.inj hstep
          exact DeadLetters.Delivery.attempts_goTo
        · obtain rfl := Option.some.inj hstep
          exact DeadLetters.Delivery.attempts_goTo
    · simp only [hlt, if_false] at hstep
      obtain rfl := Option.some.inj hstep
      refine .inr ⟨fun _ _ h => ?_, DeadLetters.Delivery.attempts_goTo.trans (List.append_nil _)⟩
      cases h
      exact hlt
  | sleeping attempt e =>
    rw [hstage] at hstep
    obtain rfl := Option.some.inj hstep
    exact .inr ⟨fun _ _ h => (Stage.noConfusion h), DeadLetters.Delivery.attempts_goTo.trans (List.append_nil _)⟩
  | deadLettering error dlqEvent position =>
    rw [hstage] at hstep
    refine .inr ⟨fun _ _ h => (Stage.noConfusion h), ?_⟩
    cases hsub : d.allSubscribers[position]? with
    | some sub =>
      simp only [hsub] at hstep
      split_ifs at hstep
      · obtain rfl := Option.some.inj hstep
        exact DeadLetters.Delivery.attempts_goTo.trans (List.append_nil _)
      · obtain rfl := Option.some.inj hstep
        exact DeadLetters.Delivery.attempts_goTo.trans (List.append_nil _)
    | none =>
      simp only [hsub] at hstep
      obtain rfl := Option.some.inj hstep
      exact DeadLetters.Delivery.attempts_goTo.trans (List.append_nil _)
  | finished =>
    rw [hstage] at hstep
    cases hstep

/-- An attempt goes through the nest; what a step without one is told does not matter. -/
theorem answered_of_attempt {attempt : Nat} {lastError : Option ModuleError}
    (hstage : r.delivery.stage = .attempting attempt lastError)
    (hlt : attempt < r.delivery.subscriber.maxAttempts) :
    r.answered env =
      ((onEvent r.delivery.event (env.answers attempt) r.nest).outcome,
        (onEvent r.delivery.event (env.answers attempt) r.nest).nest) := by
  rw [Run.answered, hstage]
  exact if_pos hlt

theorem nest_answered (hnone : ∀ attempt lastError, r.delivery.stage = .attempting attempt lastError →
    ¬ attempt < r.delivery.subscriber.maxAttempts) : (r.answered env).2 = r.nest := by
  rw [Run.answered]
  cases hstage : r.delivery.stage with
  | attempting attempt lastError =>
    show (if attempt < r.delivery.subscriber.maxAttempts then _ else _ : Outcome × List Wrapper).2 = _
    rw [if_neg (hnone attempt lastError hstage)]
  | sleeping attempt e => rfl
  | deadLettering error dlqEvent position => rfl
  | finished => rfl

theorem Run.Faithful.start {target : Nat} {event : DeadLetters.ApCoreEvent} {all : List EventSubscriber}
    {sub : EventSubscriber} :
    Run.Faithful env nest ⟨DeadLetters.Delivery.start target (wrapAll nest sub) event all, nest⟩ where
  sound := .start
  attempts := rfl
  nest := .inr rfl

/-- A step keeps to the answers. -/
theorem Run.Faithful.advance (hready : Ready nest r.delivery.event) (hr : r.Faithful env nest)
    (hstep : r.advance env = some r') : r'.Faithful env nest := by
  obtain ⟨d', hd', rfl⟩ := Option.map_eq_some_iff.mp hstep
  rcases attempts_advance hd' with ⟨attempt, lastError, hstage, hlt, hattempts, hfinished⟩ |
    ⟨hnone, hattempts⟩
  · -- the attempt that is due
    have hnest : r.nest = nest := by
      refine hr.nest.resolve_left ?_
      rw [hstage]
      exact Stage.noConfusion
    have hlength : r.delivery.attempts.length = attempt := by
      have hin := hr.sound.inStage
      rw [hstage] at hin
      exact hin.1.1
    have hanswered : r.answered env =
        ((onEvent r.delivery.event (env.answers attempt) nest).outcome,
          (onEvent r.delivery.event (env.answers attempt) nest).nest) := by
      rw [← hnest]
      exact answered_of_attempt hstage hlt
    have hseen : (r.answered env).1 = seen nest (env.answers attempt) := by
      rw [hanswered]
      exact outcome_onEvent _ hready
    refine { sound := hr.sound.advance hd', attempts := ?_, nest := ?_ }
    · rw [hattempts, List.length_append, List.length_singleton, List.range_succ, List.map_append,
        ← hr.attempts, hlength, hseen]
      rfl
    · show d'.stage = .finished ∨ (r.answered env).2 = nest
      cases hanswer : seen nest (env.answers attempt) with
      | ok u => exact .inl (hfinished (hseen.trans hanswer))
      | error e =>
        right
        rw [hanswered]
        exact nest_of_error hready hanswer
  · refine { sound := hr.sound.advance hd', attempts := ?_, nest := ?_ }
    · rw [hattempts]
      exact hr.attempts
    · show d'.stage = .finished ∨ (r.answered env).2 = nest
      rw [nest_answered hnone]
      refine hr.nest.imp (fun hfin => ?_) id
      rw [DeadLetters.Delivery.advance, hfin] at hd'
      cases hd'

/-- With as many steps as are left, the delivery comes to its end. -/
theorem Run.Faithful.proceed (n : Nat) (hready : Ready nest r.delivery.event)
    (hr : r.Faithful env nest) (hleft : r.delivery.remaining r.delivery.stage ≤ n) :
    (r.proceed env n).Faithful env nest ∧ (r.proceed env n).delivery.stage = .finished ∧
      (r.proceed env n).delivery.subscriber = r.delivery.subscriber := by
  induction n generalizing r with
  | zero =>
    refine ⟨hr, ?_, rfl⟩
    by_contra hstage
    obtain ⟨d', hd'⟩ := DeadLetters.Delivery.exists_advance hstage env.now env.now' (.ok ())
    have hless := (DeadLetters.Delivery.inStage_advance hr.sound.inStage hd').2.2
    omega
  | succ n ih =>
    rw [Run.proceed]
    cases hstep : r.advance env with
    | none =>
      refine ⟨hr, ?_, rfl⟩
      by_contra hstage
      obtain ⟨d', hd'⟩ := DeadLetters.Delivery.exists_advance hstage env.now env.now' (r.answered env).1
      rw [Run.advance, hd'] at hstep
      cases hstep
    | some r' =>
      have hr' := hr.advance hready hstep
      obtain ⟨d', hd', rfl⟩ := Option.map_eq_some_iff.mp hstep
      obtain ⟨-, hsub, hevent, -⟩ := DeadLetters.Delivery.arguments_advance hd'
      have hless := (DeadLetters.Delivery.inStage_advance hr.sound.inStage hd').2.2
      have hready' : Ready nest d'.event := by
        rw [hevent]
        exact hready
      have hleft' : d'.remaining d'.stage ≤ n := by omega
      obtain ⟨hfaithful, hfinished, hsub'⟩ := ih hready' hr' hleft'
      exact ⟨hfaithful, hfinished, hsub'.trans hsub⟩

end

/-! ## The end of a delivery -/

/-- The first attempt that the answers let succeed. -/
def FirstSuccess (answers : Nat → Outcome) (k : Nat) : Prop :=
  answers k = .ok () ∧ ∀ i < k, answers i ≠ .ok ()

theorem FirstSuccess.unique {answers : Nat → Outcome} {k k' : Nat} (h : FirstSuccess answers k)
    (h' : FirstSuccess answers k') : k = k' := by
  rcases Nat.lt_trichotomy k k' with hlt | heq | hgt
  · exact absurd h.1 (h'.2 k hlt)
  · exact heq
  · exact absurd h'.1 (h.2 k' hgt)

/-- A delivery that succeeded, at the first attempt that could. -/
structure SucceedsAt (answers : Nat → Outcome) (d : DeadLetters.Delivery) (k : Nat) : Prop where
  first : FirstSuccess answers k
  inTime : k < d.subscriber.maxAttempts
  attempts : d.attempts.length = k + 1
  quiet : d.Quiet

/-- A delivery that failed, after all its attempts. -/
structure Fails (answers : Nat → Outcome) (d : DeadLetters.Delivery) : Prop where
  none : ∀ i < d.subscriber.maxAttempts, answers i ≠ .ok ()
  attempts : d.attempts.length = d.subscriber.maxAttempts
  failures : ∃ call, d.failures = [call]

theorem ends_of_settled {answers : Nat → Outcome} {d : DeadLetters.Delivery} (hsettled : d.Settled)
    (hanswers : d.attempts = (List.range d.attempts.length).map answers) :
    (∃ k, SucceedsAt answers d k) ∨ Fails answers d := by
  cases hsettled with
  | accepted failed hattempts hfailed hlength hquiet =>
    have hlen : d.attempts.length = failed.length + 1 := by
      rw [hattempts, List.length_append, List.length_singleton]
    have hsplit : (List.range failed.length).map answers ++ [answers failed.length] =
        failed ++ [.ok ()] := by
      rw [← hattempts, hanswers, hlen, List.range_succ, List.map_append]
      rfl
    obtain ⟨hfront, hlast⟩ := List.append_inj' hsplit rfl
    refine .inl ⟨failed.length, ⟨(List.cons.inj hlast).1, fun i hi hok => hfailed ?_⟩, ?_, hlen, hquiet⟩
    · rw [← hfront, ← hok]
      exact List.mem_map_of_mem (List.mem_range.mpr hi)
    · omega
  | exhausted error now now' position hfailed herror hposition hsent hfailures =>
    refine .inr ⟨fun i hi hok => hfailed.2.2 ?_, hfailed.1, ⟨_, hfailures⟩⟩
    rw [hanswers, hfailed.1, ← hok]
    exact List.mem_map_of_mem (List.mem_range.mpr hi)

section

variable {env : Surroundings} {target : Nat} {event : DeadLetters.ApCoreEvent} {all : List EventSubscriber}
  {nest : List Wrapper} {sub : EventSubscriber}

variable (env target all sub) in
/-- A delivery to a nest comes to an end, with the attempts that the retry setting of the outermost
wrapper allows. -/
theorem deliver_ends (hready : Ready nest event) :
    let d := (deliver env target event all nest sub).delivery
    d.subscriber = wrapAll nest sub ∧
      ((∃ k, SucceedsAt (fun i => seen nest (env.answers i)) d k) ∨
        Fails (fun i => seen nest (env.answers i)) d) := by
  have hstart : Run.Faithful env nest ⟨DeadLetters.Delivery.start target (wrapAll nest sub) event all, nest⟩ :=
    .start
  have hleft := hstart.sound.bounded
  rw [show (DeadLetters.Delivery.start target (wrapAll nest sub) event all).steps = 0 from rfl, Nat.zero_add]
    at hleft
  obtain ⟨hfaithful, hfinished, hsub⟩ := hstart.proceed _ hready hleft
  have hsettled := hfaithful.sound.inStage
  rw [hfinished] at hsettled
  exact ⟨hsub, ends_of_settled hsettled hfaithful.attempts⟩

variable (env target event all sub) in
/-- The delivery to the subscriber by itself. -/
theorem deliver_alone_ends :
    let d := (deliver env target event all [] sub).delivery
    d.subscriber = sub ∧
      ((∃ k, SucceedsAt (fun i => (env.answers i).outcome) d k) ∨
        Fails (fun i => (env.answers i).outcome) d) :=
  deliver_ends env target all sub ready_nil

theorem observe_quiet {d : DeadLetters.Delivery} (hquiet : d.Quiet) :
    observe nest d = ⟨d.attempts.length, fun _ => [], []⟩ := by
  rw [observe, hquiet.2, show d.deadLettersTo = fun _ => [] from funext hquiet.1]
  rfl

/-- The subscriber hears of no failure through a wrapper. -/
theorem failures_observe (hne : nest ≠ []) (d : DeadLetters.Delivery) : (observe nest d).failures = [] :=
  List.flatMap_eq_nil_iff.mpr fun _ _ => onFailure_of_ne_nil hne

/-- Success at an attempt, as a breaker lets the emitter see it and as the subscriber answers. -/
theorem firstSuccess_seen_iff {answers : Nat → Answer} {k : Nat} :
    FirstSuccess (fun i => seen nest (answers i)) k ↔
      if hasBreaker nest then k = 0 else FirstSuccess (fun i => (answers i).outcome) k := by
  cases hbreaker : hasBreaker nest with
  | false => simp only [seen, hbreaker, Bool.false_eq_true, if_false]
  | true =>
    simp only [seen, hbreaker, if_true]
    refine ⟨fun h => ?_, fun h => ⟨rfl, fun i hi => absurd hi (by omega)⟩⟩
    by_contra hk
    exact h.2 0 (Nat.pos_of_ne_zero hk) rfl

/-- A nest keeps the policy of the subscriber inside of it exactly where the subscriber takes the
event, at an attempt that its own setting and that of the outermost wrapper allow, and at the first
attempt where a circuit breaker is around it. -/
theorem keepsPolicy_exact (hready : Ready nest event) :
    KeepsPolicy env target event all nest sub ↔
      nest = [] ∨ ∃ k, FirstSuccess (fun i => (env.answers i).outcome) k ∧
        k < (retryOf sub nest).maxAttempts ∧ k < (wrapAll nest sub).maxAttempts ∧
        (hasBreaker nest = true → k = 0) := by
  rcases eq_or_ne nest [] with rfl | hne
  · exact iff_of_true rfl (.inl rfl)
  rw [or_iff_right hne, KeepsPolicy]
  obtain ⟨hwrapped, hends⟩ := deliver_ends env target all sub hready
  obtain ⟨halone, hends'⟩ :=
    deliver_alone_ends env target event all (withRetry sub (retryOf sub nest))
  generalize (deliver env target event all nest sub).delivery = d at hwrapped hends ⊢
  generalize (deliver env target event all [] _).delivery = d' at halone hends' ⊢
  have hmax : d'.subscriber.maxAttempts = (retryOf sub nest).maxAttempts := by
    rw [halone]
    rfl
  rw [← hmax, ← hwrapped]
  constructor
  · intro hsame
    rcases hends' with ⟨k, hk⟩ | hfails
    · have hlength : d.attempts.length = k + 1 := by
        rw [← hk.attempts]
        exact congrArg Observed.attempts hsame
      have hfirst : FirstSuccess (fun i => seen nest (env.answers i)) k ∧ k < d.subscriber.maxAttempts := by
        rcases hends with ⟨j, hj⟩ | hfails
        · obtain rfl : j = k := by
            have := hj.attempts
            omega
          exact ⟨hj.first, hj.inTime⟩
        · -- the attempt at which the subscriber succeeds is among those that failed
          have hattempts := hfails.attempts
          refine absurd ?_ (hfails.none k (by omega))
          rw [seen]
          split_ifs
          · rfl
          · exact hk.first.1
      refine ⟨k, hk.first, hk.inTime, hfirst.2, fun hbreaker => ?_⟩
      have hzero := firstSuccess_seen_iff.mp hfirst.1
      rwa [if_pos hbreaker] at hzero
    · -- the subscriber by itself would hear of it
      obtain ⟨call, hcall⟩ := hfails.failures
      have hheard : (observe [] d').failures = [call] := by
        rw [observe, hcall]
        rfl
      rw [← hsame, failures_observe hne] at hheard
      cases hheard
  · rintro ⟨k, hfirst, hlt, hlt', hbreaker⟩
    have hseen : FirstSuccess (fun i => seen nest (env.answers i)) k := by
      rw [firstSuccess_seen_iff]
      split_ifs with h
      · exact hbreaker h
      · exact hfirst
    have hleft : d.attempts.length = k + 1 ∧ d.Quiet := by
      rcases hends with ⟨j, hj⟩ | hfails
      · rw [hseen.unique hj.first]
        exact ⟨hj.attempts, hj.quiet⟩
      · exact absurd hseen.1 (hfails.none k hlt')
    have hright : d'.attempts.length = k + 1 ∧ d'.Quiet := by
      rcases hends' with ⟨j, hj⟩ | hfails
      · rw [hfirst.unique hj.first]
        exact ⟨hj.attempts, hj.quiet⟩
      · exact absurd hfirst.1 (hfails.none k hlt)
    rw [observe_quiet hleft.2, observe_quiet hright.2, hleft.1, hright.1]

end

/-- A subscriber with a setting of its own, for the events of one type. -/
def unlucky : EventSubscriber := { subscriberType := "webhook", maxAttempts := 5 }

/-- Every attempt fails. -/
def refusals : Surroundings where
  answers := fun _ => { outcome := .error unknownFailure, now := 0, takesMs := 0 }
  now := ""
  now' := ""
  receivers := fun _ => .ok ()

theorem keepsPolicy_success :
    Ready [.eventType "a"] (DeadLetters.ApCoreEvent.new "a" .null "") ∧
      KeepsPolicy { refusals with answers := fun _ => ⟨.ok (), 0, 0⟩ } 0 (DeadLetters.ApCoreEvent.new "a" .null "")
        [] [.eventType "a"] unlucky := by
  have hready : Ready [.eventType "a"] (DeadLetters.ApCoreEvent.new "a" .null "") :=
    { closed := fun _ _ _ hmem => by cases List.mem_singleton.mp hmem
      passes := fun _ hmem => by cases List.mem_singleton.mp hmem }
  refine ⟨hready, (keepsPolicy_exact hready).mpr (.inr ⟨0, ⟨rfl, ?_⟩, ?_, ?_, ?_⟩)⟩
  · exact fun i hi => absurd hi (Nat.not_lt_zero i)
  · decide
  · decide
  · exact fun _ => rfl

/-- Five attempts without the wrapper, three with it, and no `on_failure`. -/
theorem not_keepsPolicy_eventType :
    Ready [.eventType "a"] (DeadLetters.ApCoreEvent.new "a" .null "") ∧
      (wrapAll [.eventType "a"] unlucky).subscriberMatches "a" = true ∧
      ¬ KeepsPolicy refusals 0 (DeadLetters.ApCoreEvent.new "a" .null "") [] [.eventType "a"] unlucky := by
  refine ⟨⟨fun _ _ _ hmem => ?_, fun _ hmem => ?_⟩, by decide, fun hsame => ?_⟩
  · cases List.mem_singleton.mp hmem
  · cases List.mem_singleton.mp hmem
  · have hattempts : 3 = 5 := congrArg Observed.attempts hsame
    exact absurd hattempts (by decide)

end SubscriberWrappers

end Apcore
