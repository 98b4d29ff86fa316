import Apcore.Events.DeadLetters
import Mathlib.Data.List.Nodup

/-! # `Events.DeadLetterRuns` — what every delivery does, in every run of the emitter

A delivery reads nothing that other deliveries write, so the invariant is one of each delivery by
itself: what its trace holds, by where it stands. -/

namespace Apcore

namespace DeadLetters

open Deliveries Transition

namespace Delivery

variable {d d' : Delivery} {stage : Stage} {actions : List Action} {error : ModuleError}
  {ev : ApCoreEvent} {now now' : String} {outcome : Outcome} {position : Nat}

@[simp] theorem attempts_goTo :
    (d.goTo stage actions).attempts = d.attempts ++ actions.filterMap Action.attempt? :=
  List.filterMap_append

@[simp] theorem deadLettersTo_goTo (i : Nat) : (d.goTo stage actions).deadLettersTo i =
    d.deadLettersTo i ++ actions.filterMap (Action.deadLetterTo? i) :=
  List.filterMap_append

@[simp] theorem failures_goTo :
    (d.goTo stage actions).failures = d.failures ++ actions.filterMap Action.failure? :=
  List.filterMap_append

@[simp] theorem stage_goTo : (d.goTo stage actions).stage = stage := rfl

@[simp] theorem steps_goTo : (d.goTo stage actions).steps = d.steps + 1 := rfl

theorem isReceiver_iff {i : Nat} {sub : EventSubscriber} (hsub : d.allSubscribers[i]? = some sub) :
    d.isReceiver i ↔ sub.getsDeadLetters = true := by
  rw [isReceiver, EventSubscriber.getsDeadLetters, hsub]
  by_cases hall : sub.eventPattern = "*"
  · simp [hall]
  · simp [hall]

/-! ## The invariant -/

/-- Nothing but attempts and pauses so far. -/
def Quiet (d : Delivery) : Prop := (∀ i, d.deadLettersTo i = []) ∧ d.failures = []

/-- This many attempts, none of which succeeded. -/
def Failed (d : Delivery) (n : Nat) : Prop :=
  d.attempts.length = n ∧ n ≤ d.subscriber.maxAttempts ∧ .ok () ∉ d.attempts

/-- The error of the last attempt, if there was one. -/
def LastError (d : Delivery) (lastError : Option ModuleError) : Prop :=
  d.attempts.getLast? = lastError.map Except.error

/-- The dead letter has gone to the receivers before a position, and to nobody else. -/
def SentUpTo (d : Delivery) (ev : ApCoreEvent) (position : Nat) : Prop :=
  ∀ i, (i < position → d.isReceiver i → d.deadLettersTo i = [ev]) ∧
    (¬ (i < position ∧ d.isReceiver i) → d.deadLettersTo i = [])

/-- The delivery has succeeded, or it has used up its attempts and told everyone. -/
inductive Settled (d : Delivery) : Prop where
  | accepted (failed : List Outcome) (hattempts : d.attempts = failed ++ [.ok ()])
      (hfailed : .ok () ∉ failed) (hlength : d.attempts.length ≤ d.subscriber.maxAttempts)
      (hquiet : d.Quiet)
  | exhausted (error : ModuleError) (now now' : String) (position : Nat)
      (hfailed : d.Failed d.subscriber.maxAttempts) (herror : d.IsLastError error)
      (hposition : d.allSubscribers.length ≤ position)
      (hsent : d.SentUpTo (d.deadLetter error d.subscriber.maxAttempts now now') position)
      (hfailures : d.failures = [(d.event, error, d.subscriber.maxAttempts)])

/-- What the trace of a delivery holds, by where it stands. -/
def InStage (d : Delivery) : Stage → Prop
  | .attempting attempt lastError => d.Failed attempt ∧ d.LastError lastError ∧ d.Quiet
  | .sleeping attempt e => d.Failed (attempt + 1) ∧ d.LastError (some e) ∧ d.Quiet
  | .deadLettering error ev position =>
    d.Failed d.subscriber.maxAttempts ∧ d.IsLastError error ∧
      (∃ now now', ev = d.deadLetter error d.subscriber.maxAttempts now now') ∧
      d.SentUpTo ev position ∧ d.failures = []
  | .finished => d.Settled

/-- The steps a delivery has before it. -/
def remaining (d : Delivery) : Stage → Nat
  | .attempting attempt _ =>
    2 * (d.subscriber.maxAttempts - attempt) + d.allSubscribers.length + 2
  | .sleeping attempt _ =>
    2 * (d.subscriber.maxAttempts - (attempt + 1)) + d.allSubscribers.length + 3
  | .deadLettering _ _ position => d.allSubscribers.length - position + 1
  | .finished => 0

theorem quiet_goTo (hquiet : d.Quiet) (hdead : ∀ i, actions.filterMap (Action.deadLetterTo? i) = [])
    (hfail : actions.filterMap Action.failure? = []) : (d.goTo stage actions).Quiet := by
  refine ⟨fun i => ?_, ?_⟩
  · rw [deadLettersTo_goTo, hquiet.1, hdead, List.append_nil]
  · rw [failures_goTo, hquiet.2, hfail, List.append_nil]

/-- An attempt that fails. -/
theorem failed_goTo {n : Nat} (hfailed : d.Failed n) (hn : n < d.subscriber.maxAttempts) :
    (d.goTo stage [.onEvent (.error error)]).Failed (n + 1) := by
  obtain ⟨hlength, -, hnone⟩ := hfailed
  refine ⟨?_, hn, ?_⟩
  · rw [attempts_goTo, List.length_append, hlength]
    rfl
  · rw [attempts_goTo, List.mem_append, not_or]
    exact ⟨hnone, by simp [Action.attempt?]⟩

theorem lastError_goTo : (d.goTo stage [.onEvent (.error error)]).LastError (some error) := by
  rw [LastError, attempts_goTo]
  exact List.getLast?_concat

/-- A step over the head of the loop that calls nobody leaves the attempts as they are. -/
theorem failed_goTo_of_none {n : Nat} (hfailed : d.Failed n)
    (hnone : actions.filterMap Action.attempt? = []) : (d.goTo stage actions).Failed n := by
  rw [Failed, attempts_goTo, hnone, List.append_nil]
  exact hfailed

theorem lastError_goTo_of_none {lastError : Option ModuleError} (hlast : d.LastError lastError)
    (hnone : actions.filterMap Action.attempt? = []) :
    (d.goTo stage actions).LastError lastError := by
  rw [LastError, attempts_goTo, hnone, List.append_nil]
  exact hlast

theorem isLastError_goTo_of_none (herror : d.IsLastError error)
    (hnone : actions.filterMap Action.attempt? = []) :
    (d.goTo stage actions).IsLastError error := by
  rw [IsLastError, attempts_goTo, hnone, List.append_nil]
  exact herror

theorem isLastError_getD {lastError : Option ModuleError} (hlast : d.LastError lastError) :
    d.IsLastError (lastError.getD unknownFailure) := by
  cases lastError with
  | none => exact .inr ⟨List.getLast?_eq_none_iff.mp hlast, rfl⟩
  | some e => exact .inl hlast

/-- The loop over the subscribers comes past one that does not get dead letters. -/
theorem sentUpTo_succ_of_not {position : Nat} (hsent : d.SentUpTo ev position)
    (hnot : ¬ d.isReceiver position) :
    (d.goTo stage []).SentUpTo ev (position + 1) := by
  intro i
  rw [deadLettersTo_goTo]
  refine ⟨fun hi hrecv => ?_, fun hnone => ?_⟩
  · have hne : i ≠ position := by
      rintro rfl
      exact hnot hrecv
    rw [(hsent i).1 (by omega) hrecv]
    rfl
  · rw [(hsent i).2 fun h => hnone ⟨by omega, h.2⟩]
    rfl

/-- The loop over the subscribers comes to one that gets dead letters. -/
theorem sentUpTo_succ {position : Nat} (hsent : d.SentUpTo ev position)
    (hrecv : d.isReceiver position) :
    (d.goTo stage [.deadLetter position ev outcome]).SentUpTo ev (position + 1) := by
  intro i
  rw [deadLettersTo_goTo]
  by_cases hi : position = i
  · subst hi
    refine ⟨fun _ _ => ?_, fun hnone => absurd ⟨Nat.lt_succ_self _, hrecv⟩ hnone⟩
    rw [(hsent position).2 fun h => absurd h.1 (Nat.lt_irrefl _)]
    simp [Action.deadLetterTo?]
  · have hnil : [Action.deadLetter position ev outcome].filterMap (Action.deadLetterTo? i) = [] := by
      simp [Action.deadLetterTo?, hi]
    rw [hnil, List.append_nil]
    refine ⟨fun hlt hr => (hsent i).1 (by omega) hr, fun hnone => (hsent i).2 fun h => ?_⟩
    exact hnone ⟨by omega, h.2⟩

theorem sentUpTo_zero (hquiet : d.Quiet) : d.SentUpTo ev 0 := fun i =>
  ⟨fun hi => absurd hi (Nat.not_lt_zero i), fun _ => hquiet.1 i⟩

/-! ## One step -/

/-- A step keeps the invariant and takes one of the steps that are left. -/
theorem inStage_advance (hd : d.InStage d.stage) (hstep : d.advance now now' outcome = some d') :
    d'.InStage d'.stage ∧ d'.steps = d.steps + 1 ∧ d'.remaining d'.stage + 1 ≤ d.remaining d.stage := by
  rw [advance] at hstep
  cases hstage : d.stage with
  | attempting attempt lastError =>
    rw [hstage] at hd hstep
    obtain ⟨hfailed, hlast, hquiet⟩ := hd
    by_cases hlt : attempt < d.subscriber.maxAttempts
    · cases outcome with
      | ok u =>
        simp only [hlt, if_true, Option.some.injEq] at hstep
        subst hstep
        refine ⟨.accepted d.attempts ?_ hfailed.2.2 ?_ (quiet_goTo hquiet ?_ rfl), rfl, ?_⟩
        · rw [attempts_goTo]
          rfl
        · rw [attempts_goTo, List.length_append, hfailed.1]
          exact hlt
        · exact fun i => rfl
        · simp only [stage_goTo, remaining]
          omega
      | error e =>
        simp only [hlt, if_true] at hstep
        by_cases hmore : attempt + 1 < d.subscriber.maxAttempts
        · simp only [hmore, if_true, Option.some.injEq] at hstep
          subst hstep
          refine ⟨⟨failed_goTo hfailed hlt, lastError_goTo, quiet_goTo hquiet ?_ rfl⟩, rfl, ?_⟩
          · exact fun i => rfl
          · simp only [stage_goTo, remaining]
            simp only [goTo]
            omega
        · simp only [hmore, if_false, Option.some.injEq] at hstep
          subst hstep
          refine ⟨⟨failed_goTo hfailed hlt, lastError_goTo, quiet_goTo hquiet ?_ rfl⟩, rfl, ?_⟩
          · exact fun i => rfl
          · simp only [stage_goTo, remaining]
            simp only [goTo]
            omega
    · simp only [hlt, if_false, Option.some.injEq] at hstep
      subst hstep
      have hmax : attempt = d.subscriber.maxAttempts := by
        have hle := hfailed.2.1
        omega
      subst hmax
      refine ⟨⟨failed_goTo_of_none hfailed rfl, ?_, ⟨now, now', rfl⟩, ?_, ?_⟩, rfl, ?_⟩
      · exact isLastError_goTo_of_none (isLastError_getD hlast) rfl
      · exact sentUpTo_zero (quiet_goTo hquiet (fun i => rfl) rfl)
      · rw [failures_goTo, hquiet.2]
        rfl
      · simp only [stage_goTo, remaining]
        simp only [goTo]
        omega
  | sleeping attempt e =>
    rw [hstage] at hd hstep
    obtain ⟨hfailed, hlast, hquiet⟩ := hd
    obtain rfl := Option.some.inj hstep
    refine ⟨⟨failed_goTo_of_none hfailed rfl, lastError_goTo_of_none hlast rfl, ?_⟩, rfl, ?_⟩
    · exact quiet_goTo hquiet (fun i => rfl) rfl
    · simp only [stage_goTo, remaining]
      simp only [goTo]
      omega
  | deadLettering error dlqEvent position =>
    rw [hstage] at hd hstep
    obtain ⟨hfailed, herror, hev, hsent, hnone⟩ := hd
    cases hsub : d.allSubscribers[position]? with
    | some sub =>
      have hlt : position < d.allSubscribers.length := (List.getElem?_eq_some_iff.mp hsub).1
      simp only [hsub] at hstep
      by_cases hgets : sub.getsDeadLetters = true
      · simp only [hgets, if_true, Option.some.injEq] at hstep
        subst hstep
        refine ⟨⟨failed_goTo_of_none hfailed rfl, isLastError_goTo_of_none herror rfl, hev, ?_, ?_⟩,
          rfl, ?_⟩
        · exact sentUpTo_succ hsent ((isReceiver_iff hsub).mpr hgets)
        · rw [failures_goTo, hnone]
          rfl
        · simp only [stage_goTo, remaining]
          simp only [goTo]
          omega
      · simp only [hgets] at hstep
        obtain rfl := Option.some.inj hstep
        refine ⟨⟨failed_goTo_of_none hfailed rfl, isLastError_goTo_of_none herror rfl, hev, ?_, ?_⟩,
          rfl, ?_⟩
        · exact sentUpTo_succ_of_not hsent fun hr => hgets ((isReceiver_iff hsub).mp hr)
        · rw [failures_goTo, hnone]
          rfl
        · simp only [stage_goTo, remaining]
          simp only [goTo]
          omega
    | none =>
      simp only [hsub, Option.some.injEq] at hstep
      subst hstep
      obtain ⟨now, now', rfl⟩ := hev
      refine ⟨.exhausted error now now' position (failed_goTo_of_none hfailed rfl)
        (isLastError_goTo_of_none herror rfl) (List.getElem?_eq_none_iff.mp hsub) ?_ ?_, rfl, ?_⟩
      · intro i
        rw [deadLettersTo_goTo]
        exact ⟨fun hi hr => by rw [(hsent i).1 hi hr]; rfl, fun hn => by rw [(hsent i).2 hn]; rfl⟩
      · rw [failures_goTo, hnone]
        rfl
      · simp only [stage_goTo, remaining]
        omega
  | finished =>
    rw [hstage] at hstep
    cases hstep

/-- A delivery that is not finished can go on, whatever it is told. -/
theorem exists_advance (hstage : d.stage ≠ .finished) (now now' : String) (outcome : Outcome) :
    ∃ d', d.advance now now' outcome = some d' := by
  rw [← Option.isSome_iff_exists, advance]
  cases h : d.stage with
  | attempting attempt lastError => cases outcome <;> (simp only []; split_ifs <;> rfl)
  | sleeping attempt e => rfl
  | deadLettering error dlqEvent position =>
    cases hsub : d.allSubscribers[position]? with
    | some sub => simp only [hsub]; split_ifs <;> rfl
    | none => simp only [hsub]; rfl
  | finished => exact absurd h hstage

/-- A step leaves the arguments alone. -/
theorem arguments_advance (hstep : d.advance now now' outcome = some d') :
    d'.target = d.target ∧ d'.subscriber = d.subscriber ∧ d'.event = d.event ∧
      d'.allSubscribers = d.allSubscribers := by
  have hgo : ∃ stage actions, d' = d.goTo stage actions := by
    rw [advance] at hstep
    cases hstage : d.stage with
    | attempting attempt lastError =>
      rw [hstage] at hstep
      by_cases hlt : attempt < d.subscriber.maxAttempts
      · cases outcome with
        | ok u =>
          simp only [hlt, if_true] at hstep
          exact ⟨_, _, (Option.some.inj hstep).symm⟩
        | error e =>
          simp only [hlt, if_true] at hstep
          split_ifs at hstep
          · exact ⟨_, _, (Option.some.inj hstep).symm⟩
          · exact ⟨_, _, (Option.some.inj hstep).symm⟩
      · simp only [hlt, if_false] at hstep
        exact ⟨_, _, (Option.some.inj hstep).symm⟩
    | sleeping attempt e =>
      rw [hstage] at hstep
      exact ⟨_, _, (Option.some.inj hstep).symm⟩
    | deadLettering error dlqEvent position =>
      rw [hstage] at hstep
      cases hsub : d.allSubscribers[position]? with
      | some sub =>
        simp only [hsub] at hstep
        split_ifs at hstep
        · exact ⟨_, _, (Option.some.inj hstep).symm⟩
        · exact ⟨_, _, (Option.some.inj hstep).symm⟩
      | none =>
        simp only [hsub] at hstep
        exact ⟨_, _, (Option.some.inj hstep).symm⟩
    | finished =>
      rw [hstage] at hstep
      cases hstep
  obtain ⟨stage, actions, rfl⟩ := hgo
  exact ⟨rfl, rfl, rfl, rfl⟩

/-! ## What the invariant says -/

theorem receives_length_le (hsent : d.SentUpTo ev position) (i : Nat) :
    (d.deadLettersTo i).length ≤ 1 := by
  by_cases h : i < position ∧ d.isReceiver i
  · rw [(hsent i).1 h.1 h.2]
    exact Nat.le_refl 1
  · rw [(hsent i).2 h]
    exact Nat.zero_le 1

theorem SentUpTo.only (hsent : d.SentUpTo ev position) (i : Nat) (hnot : ¬ d.isReceiver i) :
    d.deadLettersTo i = [] :=
  (hsent i).2 fun h => hnot h.2

theorem Failed.noneAfterSuccess {n : Nat} (hfailed : d.Failed n) (before after : List Outcome)
    (hattempts : d.attempts = before ++ .ok () :: after) : after = [] := by
  refine absurd ?_ hfailed.2.2
  rw [hattempts]
  exact List.mem_append_right before List.mem_cons_self

/-- What holds while the attempts go on. -/
theorem faithful_of_quiet {n : Nat} (hfailed : d.Failed n) (hquiet : d.Quiet)
    (hstage : d.stage ≠ .finished) : d.Faithful where
  atMost := hfailed.1.le.trans hfailed.2.1
  noneAfterSuccess := hfailed.noneAfterSuccess
  atLeastOnce := fun h => absurd h hstage
  accepted := fun h => absurd h hstage
  exhausted := fun h => absurd h hstage
  onlyReceivers := fun i _ => hquiet.1 i
  oneDeadLetter := fun i => by
    rw [hquiet.1 i]
    exact Nat.zero_le 1
  oneFailure := by
    rw [hquiet.2]
    exact Nat.zero_le 1

theorem faithful_of_settled (hd : d.Settled) : d.Faithful := by
  cases hd with
  | accepted failed hattempts hfailed hlength hquiet =>
    have hmem : .ok () ∈ d.attempts := by
      rw [hattempts]
      exact List.mem_append_right failed List.mem_cons_self
    refine
      { atMost := hlength
        noneAfterSuccess := fun before after h => ?_
        atLeastOnce := fun _ _ => List.ne_nil_of_mem hmem
        accepted := fun _ _ => hquiet
        exhausted := fun _ hnot => absurd hmem hnot
        onlyReceivers := fun i _ => hquiet.1 i
        oneDeadLetter := fun i => ?_
        oneFailure := ?_ }
    · -- a success before the last attempt would be among those that failed
      rw [hattempts] at h
      rcases List.eq_nil_or_concat after with hnil | ⟨init, last, rfl⟩
      · exact hnil
      · rw [List.concat_eq_append, ← List.cons_append, ← List.append_assoc] at h
        have hfront : failed = before ++ .ok () :: init := (List.append_inj' h rfl).1
        refine absurd ?_ hfailed
        rw [hfront]
        exact List.mem_append_right before List.mem_cons_self
    · rw [hquiet.1 i]
      exact Nat.zero_le 1
    · rw [hquiet.2]
      exact Nat.zero_le 1
  | exhausted error now now' position hfailed herror hposition hsent hfailures =>
    refine
      { atMost := hfailed.1.le
        noneAfterSuccess := hfailed.noneAfterSuccess
        atLeastOnce := fun _ hmax => ?_
        accepted := fun _ hmem => absurd hmem hfailed.2.2
        exhausted := fun _ _ => ⟨error, now, now', herror, ?_, ?_⟩
        onlyReceivers := hsent.only
        oneDeadLetter := receives_length_le hsent
        oneFailure := ?_ }
    · rw [← List.length_pos_iff, hfailed.1]
      exact hmax
    · intro i hrecv
      obtain ⟨sub, hsub, -⟩ := id hrecv
      have hlt : i < d.allSubscribers.length := (List.getElem?_eq_some_iff.mp hsub).1
      rw [hfailed.1]
      exact (hsent i).1 (hlt.trans_le hposition) hrecv
    · rw [hfailures, hfailed.1]
    · rw [hfailures]
      exact Nat.le_refl 1

theorem faithful_of_inStage (hd : d.InStage d.stage) : d.Faithful := by
  cases hstage : d.stage with
  | attempting attempt lastError =>
    rw [hstage] at hd
    exact faithful_of_quiet hd.1 hd.2.2 (by rw [hstage]; exact Stage.noConfusion)
  | sleeping attempt e =>
    rw [hstage] at hd
    exact faithful_of_quiet hd.1 hd.2.2 (by rw [hstage]; exact Stage.noConfusion)
  | deadLettering error dlqEvent position =>
    rw [hstage] at hd
    obtain ⟨hfailed, -, -, hsent, hnone⟩ := hd
    have hne : d.stage ≠ .finished := by
      rw [hstage]
      exact Stage.noConfusion
    exact
      { atMost := hfailed.1.le
        noneAfterSuccess := hfailed.noneAfterSuccess
        atLeastOnce := fun h => absurd h hne
        accepted := fun h => absurd h hne
        exhausted := fun h => absurd h hne
        onlyReceivers := hsent.only
        oneDeadLetter := receives_length_le hsent
        oneFailure := by
          rw [hnone]
          exact Nat.zero_le 1 }
  | finished =>
    rw [hstage] at hd
    exact faithful_of_settled hd

/-- The invariant: the trace is that of the stage, and the steps that were taken and the ones that
are left are bounded. -/
structure Sound (d : Delivery) : Prop where
  inStage : d.InStage d.stage
  bounded : d.steps + d.remaining d.stage ≤ d.bound

theorem Sound.start {target : Nat} {sub : EventSubscriber} {event : ApCoreEvent}
    {all : List EventSubscriber} : (Delivery.start target sub event all).Sound where
  inStage := ⟨⟨rfl, Nat.zero_le _, List.not_mem_nil⟩, rfl, fun _ => rfl, rfl⟩
  bounded := by
    simp only [Delivery.start, remaining, bound]
    omega

theorem Sound.advance (hd : d.Sound) (hstep : d.advance now now' outcome = some d') : d'.Sound := by
  obtain ⟨hstage, hsteps, hless⟩ := inStage_advance hd.inStage hstep
  obtain ⟨-, hsub, -, hall⟩ := arguments_advance hstep
  have hbound : d'.bound = d.bound := by rw [bound, bound, hsub, hall]
  have hle := hd.bounded
  exact { inStage := hstage, bounded := by omega }

end Delivery

/-! ## The emissions -/

/-- The positions of the subscribers that match. -/
def Emission.matching (e : Emission) : List Nat :=
  (e.subscribers.zipIdx.filter fun p => p.1.subscriberMatches e.event.eventType).map Prod.snd

/-- One delivery for each subscriber that matches, with the arguments of the emission. -/
structure Emission.Inv (e : Emission) : Prop where
  targets : e.deliveries.map (·.target) = e.matching
  arguments : ∀ d ∈ e.deliveries, e.subscribers[d.target]? = some d.subscriber ∧
    d.event = e.event ∧ d.allSubscribers = e.subscribers
  sound : ∀ d ∈ e.deliveries, d.Sound

theorem Emission.mem_matching {e : Emission} {i : Nat} : i ∈ e.matching ↔
    ∃ sub, e.subscribers[i]? = some sub ∧ sub.subscriberMatches e.event.eventType = true := by
  simp only [matching, List.mem_map, List.mem_filter, List.mem_zipIdx_iff_getElem?]
  constructor
  · rintro ⟨⟨sub, target⟩, ⟨hsub, hmatches⟩, rfl⟩
    exact ⟨sub, hsub, hmatches⟩
  · rintro ⟨sub, hsub, hmatches⟩
    exact ⟨(sub, i), ⟨hsub, hmatches⟩, rfl⟩

theorem Emission.nodup_matching (e : Emission) : e.matching.Nodup := by
  refine (List.filter_sublist.map Prod.snd).nodup ?_
  rw [List.zipIdx_map_snd]
  exact List.nodup_range'

theorem Emission.Inv.start (event : ApCoreEvent) (subscribers : List EventSubscriber) :
    (Emission.start event subscribers).Inv := by
  refine { targets := ?_, arguments := fun d hd => ?_, sound := fun d hd => ?_ }
  · rw [Emission.start, Emission.matching, List.map_map]
    rfl
  · obtain ⟨p, hp, rfl⟩ := List.mem_map.mp hd
    exact ⟨List.mem_zipIdx_iff_getElem?.mp (List.mem_of_mem_filter hp), rfl, rfl⟩
  · obtain ⟨p, -, rfl⟩ := List.mem_map.mp hd
    exact .start

/-- Writing an entry that is there already. -/
theorem set_eq_self {α : Type} {l : List α} {i : Nat} {a : α} (h : l[i]? = some a) :
    l.set i a = l := by
  obtain ⟨hi, rfl⟩ := List.getElem?_eq_some_iff.mp h
  exact List.set_getElem_self hi

/-- A delivery of the emission takes a step. -/
theorem Emission.Inv.set {e : Emission} (he : e.Inv) {k : Nat} {d d' : Delivery}
    {now now' : String} {outcome : Outcome} (hd : e.deliveries[k]? = some d)
    (hstep : d.advance now now' outcome = some d') :
    Emission.Inv { e with deliveries := e.deliveries.set k d' } := by
  have hmem : d ∈ e.deliveries := List.mem_of_getElem? hd
  obtain ⟨htarget, hsub, hevent, hall⟩ := Delivery.arguments_advance hstep
  refine { targets := ?_, arguments := fun x hx => ?_, sound := fun x hx => ?_ }
  · show (e.deliveries.set k d').map (·.target) = e.matching
    rw [List.map_set, htarget, ← he.targets]
    refine set_eq_self ?_
    rw [List.getElem?_map, hd]
    rfl
  · rcases List.mem_or_eq_of_mem_set hx with hx | rfl
    · exact he.arguments x hx
    · rw [htarget, hsub, hevent, hall]
      exact he.arguments d hmem
  · rcases List.mem_or_eq_of_mem_set hx with hx | rfl
    · exact he.sound x hx
    · exact (he.sound d hmem).advance hstep

theorem Emission.Inv.delivers {e : Emission} (he : e.Inv) : e.Delivers where
  targets := fun i => by
    rw [← Emission.mem_matching, ← he.targets, List.mem_map]
  distinct := by
    rw [he.targets]
    exact e.nodup_matching
  arguments := he.arguments
  faithful := fun d hd => Delivery.faithful_of_inStage (he.sound d hd).inStage
  bounded := fun d hd => Nat.le_of_add_right_le (he.sound d hd).bounded

/-! ## Runs -/

variable {s s' : State}

/-- What the step of a delivery does to the emissions. -/
theorem step_advance {j k : Nat} {now now' : String} {outcome : Outcome} :
    step s (.advance j k now now' outcome) = some s' ↔
      ∃ e d d', s.emissions[j]? = some e ∧ e.deliveries[k]? = some d ∧
        d.advance now now' outcome = some d' ∧
        s' = { s with emissions :=
          s.emissions.set j { e with deliveries := e.deliveries.set k d' } } := by
  rw [step]
  cases he : s.emissions[j]? with
  | none => simp
  | some e =>
    cases hd : e.deliveries[k]? with
    | none => simp [hd]
    | some d =>
      cases hd' : d.advance now now' outcome with
      | none => simp [hd, hd']
      | some d' => simp [hd, hd', eq_comm]

theorem inv_step (hs : ∀ e ∈ s.emissions, e.Inv) {l : Label} (hstep : step s l = some s') :
    ∀ e ∈ s'.emissions, e.Inv := by
  cases l with
  | setSubscribers subs =>
    obtain rfl := Option.some.inj hstep
    exact hs
  | shutdown =>
    obtain rfl := Option.some.inj hstep
    exact hs
  | emit event =>
    rw [step] at hstep
    split_ifs at hstep
    · obtain rfl := Option.some.inj hstep
      exact hs
    · obtain rfl := Option.some.inj hstep
      intro e he
      rcases List.mem_append.mp he with he | he
      · exact hs e he
      · rw [List.mem_singleton.mp he]
        exact .start event s.subscribers
  | advance j k now now' outcome =>
    obtain ⟨e, d, d', he, hd, hd', rfl⟩ := step_advance.mp hstep
    intro x hx
    rcases List.mem_or_eq_of_mem_set hx with hx | rfl
    · exact hs x hx
    · exact (hs e (List.mem_of_getElem? he)).set hd hd'

/-- In every run each emission delivers to the subscribers that match and to nobody else, each
delivery is faithful and ends: it can go on until it is finished, in a bounded number of steps. A
delivery that goes on starts no other. -/
theorem deliveries_faithful {ls : List Label} (hrun : exec step init ls = some s) :
    (∀ e ∈ s.emissions, e.Delivers) ∧
      (∀ (j k : Nat) (e : Emission) (d : Delivery), s.emissions[j]? = some e →
        e.deliveries[k]? = some d → d.stage ≠ .finished → ∀ now now' outcome,
          ∃ s', step s (.advance j k now now' outcome) = some s') ∧
      ∀ j k now now' outcome s', step s (.advance j k now now' outcome) = some s' →
        s'.emissions.map (·.deliveries.length) = s.emissions.map (·.deliveries.length) := by
  have hinv : ∀ e ∈ s.emissions, e.Inv :=
    exec_invariant (I := fun s => ∀ e ∈ s.emissions, e.Inv) (fun s l s' hs hstep => inv_step hs hstep)
      (fun e he => absurd he List.not_mem_nil) hrun
  refine ⟨fun e he => (hinv e he).delivers, fun j k e d he hd hstage now now' outcome => ?_,
    fun j k now now' outcome s' hstep => ?_⟩
  · obtain ⟨d', hd'⟩ := Delivery.exists_advance hstage now now' outcome
    exact ⟨_, step_advance.mpr ⟨e, d, d', he, hd, hd', rfl⟩⟩
  · obtain ⟨e, d, d', he, hd, hd', rfl⟩ := step_advance.mp hstep
    show (s.emissions.set j _).map _ = _
    rw [List.map_set, List.length_set]
    refine set_eq_self ?_
    rw [List.getElem?_map, he]
    rfl

/-- A subscriber to one event type. -/
def listener (eventType : String) (maxAttempts : Nat) : EventSubscriber :=
  { eventPattern := eventType, eventTypeFilter := some eventType, maxAttempts }

/-- An event is emitted to these subscribers, and its first delivery goes on. -/
def emitTo (subs : List EventSubscriber) (outcomes : List Outcome) : List Label :=
  [.setSubscribers subs, .emit (.new "order" .null "09:00")] ++
    outcomes.map fun outcome => .advance 0 0 "09:01" "09:02" outcome

/-- The subscriber fails twice, and then so does the one that gets the dead letter. -/
theorem deliveries_faithful_twoFailures :
    ∃ s, exec step init (emitTo [listener "order" 2, listener DLQ_EVENT_TYPE 1]
        (List.replicate 7 (.error unknownFailure))) = some s ∧ ∀ e ∈ s.emissions, e.Delivers := by
  obtain ⟨s, hs⟩ : ∃ s, exec step init (emitTo [listener "order" 2, listener DLQ_EVENT_TYPE 1]
      (List.replicate 7 (.error unknownFailure))) = some s := ⟨_, rfl⟩
  exact ⟨s, hs, (deliveries_faithful hs).1⟩

/-- With no attempts allowed the event is given up without a call of `on_event`. -/
theorem noAttempts_notDelivered :
    ¬ ∀ (ls : List Label) (s : State), exec step init ls = some s →
      ∀ e ∈ s.emissions, ∀ d ∈ e.deliveries, d.stage = .finished → d.attempts ≠ [] := by
  intro h
  have hrun := h (emitTo [listener "order" 0] (List.replicate 3 (.ok ()))) _ rfl
  exact hrun _ (List.mem_singleton.mpr rfl) _ (List.mem_singleton.mpr rfl) rfl rfl

end DeadLetters

end Apcore
