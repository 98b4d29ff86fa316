import Apcore.Cancel.Tracking

/-! # `Cancel.Aborts` — a request to abort reaches every execution of its scope

What a request owes, call by call, is in the flag it has set, the records it has marked and the
handles it has still to use. An execution that enters the scope later is marked by the flag. -/

namespace Apcore

namespace Executions

namespace CallPc

/-- The scope whose flag the call has set. -/
def requested : CallPc → Option Nat
  | marking scope => some scope
  | aborting scope _ => some scope
  | draining true scope _ => some scope
  | _ => none

/-- The scope whose records the call has marked, with the handles it has still to use. -/
def sweeps : CallPc → Option (Nat × List Nat)
  | aborting scope aborts => some (scope, aborts)
  | draining true scope _ => some (scope, [])
  | _ => none

theorem requested_of_sweeps {pc : CallPc} {scope : Nat} {aborts : List Nat}
    (h : pc.sweeps = some (scope, aborts)) : pc.requested = some scope := by
  cases pc with
  | aborting scope' aborts' =>
    cases h
    rfl
  | draining aborted scope' pc =>
    cases aborted with
    | false => cases h
    | true =>
      cases h
      rfl
  | _ => cases h

@[simp] theorem sweeps_notifyCall (notify : Notify) (scope : Nat) (pc : CallPc) :
    (State.notifyCall notify scope pc).sweeps = pc.sweeps := by
  cases pc with
  | draining aborted scope' pc => cases pc <;> cases aborted <;> rfl
  | _ => rfl

@[simp] theorem requested_notifyCall (notify : Notify) (scope : Nat) (pc : CallPc) :
    (State.notifyCall notify scope pc).requested = pc.requested := by
  cases pc with
  | draining aborted scope' pc => cases pc <;> cases aborted <;> rfl
  | _ => rfl

end CallPc

/-- What the requests to abort have done, and what they have still to do. -/
structure Swept (s : State) : Prop where
  requested : ∀ d scope, (s.calls d).requested = some scope →
    (s.scopes scope).abortRequested = true
  marked : ∀ d scope aborts, (s.calls d).sweeps = some (scope, aborts) →
    ∀ id r, s.record scope id = some r → r.abortRequested = true
  aborted : ∀ d scope aborts, (s.calls d).sweeps = some (scope, aborts) →
    ∀ id r e, s.record scope id = some r → s.executions id = some e → r.abort = some id →
      e.aborted = true ∨ id ∈ aborts

/-- What a move of an execution makes of its records. -/
theorem ExecutionMove.records {notify : Notify} {s s' : State} {id : Nat} {e : Execution}
    (h : ExecutionMove notify s id e s') :
    ∃ e', s'.executions = Function.update s.executions id (some e') ∧
      (e.aborted = true → e'.aborted = true) ∧
      (∀ scope, (s'.scopes scope).abortRequested = (s.scopes scope).abortRequested) ∧
      (∀ d, (s'.calls d).requested = (s.calls d).requested ∧
        (s'.calls d).sweeps = (s.calls d).sweeps) ∧
      ∀ scope r', s'.record scope id = some r' →
        (r'.abort = none ∧ r'.abortRequested = (s.scopes scope).abortRequested) ∨
          ∃ r, s.record scope id = some r ∧ r'.abortRequested = r.abortRequested ∧
            (r'.abort = r.abort ∨ (r.abortRequested = true → e'.aborted = true)) := by
  have hflag : ∀ scope id r other, ((s.setRecord scope id r).scopes other).abortRequested =
      (s.scopes other).abortRequested := by
    intro scope id r other
    by_cases hother : other = scope
    · subst hother
      simp [State.setRecord, State.setScope]
    · simp [State.setRecord, State.setScope, hother]
  have hkept : ∀ (b : Bool) scope r', s.record scope id = some r' →
      ∃ r, s.record scope id = some r ∧ r'.abortRequested = r.abortRequested ∧
        (r'.abort = r.abort ∨ (r.abortRequested = true → b = true)) :=
    fun b scope r' hr' => ⟨r', hr', rfl, .inl rfl⟩
  cases h with
  | @insert scope left hpc =>
    refine ⟨_, rfl, fun haborted => haborted, hflag scope _ _, fun _ => ⟨rfl, rfl⟩, ?_⟩
    intro other r' hr'
    by_cases hother : other = scope
    · subst hother
      rw [record_setExecution, record_setRecord_self] at hr'
      obtain rfl := Option.some.inj hr'
      exact .inl ⟨rfl, rfl⟩
    · rw [record_setExecution, record_setRecord_of_ne _ _ _ (.inl hother)] at hr'
      exact .inr (hkept _ other r' hr')
  | run hpc =>
    exact ⟨_, rfl, fun haborted => haborted, fun _ => rfl, fun _ => ⟨rfl, rfl⟩,
      fun scope r' hr' => .inr (hkept _ scope r' hr')⟩
  | @arm scope left record hpc hrecord =>
    refine ⟨_, rfl, fun haborted => by simp [haborted], hflag scope _ _, fun _ => ⟨rfl, rfl⟩, ?_⟩
    intro other r' hr'
    by_cases hother : other = scope
    · subst hother
      rw [record_setExecution, record_setRecord_self] at hr'
      obtain rfl := Option.some.inj hr'
      exact .inr ⟨record, hrecord, rfl, .inr fun hmarked => by simp [hmarked]⟩
    · rw [record_setExecution, record_setRecord_of_ne _ _ _ (.inl hother)] at hr'
      exact .inr (hkept _ other r' hr')
  | pass hpc hrecord =>
    exact ⟨_, rfl, fun haborted => haborted, fun _ => rfl, fun _ => ⟨rfl, rfl⟩,
      fun scope r' hr' => .inr (hkept _ scope r' hr')⟩
  | finish hpc =>
    exact ⟨_, rfl, fun haborted => haborted, fun _ => rfl, fun _ => ⟨rfl, rfl⟩,
      fun scope r' hr' => .inr (hkept _ scope r' hr')⟩
  | @remove scope left hpc =>
    refine ⟨_, rfl, fun haborted => haborted, hflag scope _ _, fun _ => ⟨rfl, rfl⟩, ?_⟩
    intro other r' hr'
    by_cases hother : other = scope
    · subst hother
      rw [record_setExecution, record_setRecord_self] at hr'
      cases hr'
    · rw [record_setExecution, record_setRecord_of_ne _ _ _ (.inl hother)] at hr'
      exact .inr (hkept _ other r' hr')
  | notify hpc =>
    exact ⟨_, rfl, fun haborted => haborted, fun _ => rfl, fun d => by simp,
      fun scope r' hr' => .inr (hkept _ scope r' hr')⟩

theorem CallMove.sweeps {notify : Notify} {s : State} {pc pc' : CallPc}
    (h : CallMove notify s pc pc') : pc'.requested = pc.requested ∧ pc'.sweeps = pc.sweeps := by
  cases h with
  | drain => exact ⟨rfl, rfl⟩
  | abortOwned => exact ⟨rfl, rfl⟩
  | aborted => exact ⟨rfl, rfl⟩
  | @notified aborted => cases aborted <;> exact ⟨rfl, rfl⟩
  | @enable aborted => cases aborted <;> exact ⟨rfl, rfl⟩
  | @wait aborted => cases aborted <;> exact ⟨rfl, rfl⟩
  | @leave aborted => cases aborted <;> exact ⟨rfl, rfl⟩
  | @wake aborted => cases aborted <;> exact ⟨rfl, rfl⟩

/-- What the calls have swept, where they stay and the records do. -/
theorem Swept.frame {s s' : State} (h : Swept s)
    (hflag : ∀ scope, (s.scopes scope).abortRequested = true → (s'.scopes scope).abortRequested = true)
    (hcalls : ∀ d, (s'.calls d).requested = (s.calls d).requested ∧
      (s'.calls d).sweeps = (s.calls d).sweeps)
    (hrecord : ∀ scope id, s'.record scope id = s.record scope id)
    (hexecutions : ∀ scope id r e, s'.record scope id = some r → s'.executions id = some e →
      s.executions id = some e) : Swept s' := by
  constructor
  · intro d scope hd
    exact hflag scope (h.requested d scope ((hcalls d).1 ▸ hd))
  · intro d scope aborts hd id r hr
    exact h.marked d scope aborts ((hcalls d).2 ▸ hd) id r (hrecord scope id ▸ hr)
  · intro d scope aborts hd id r e hr he
    exact h.aborted d scope aborts ((hcalls d).2 ▸ hd) id r e (hrecord scope id ▸ hr)
      (hexecutions scope id r e hr he)

theorem Swept.execution {notify : Notify} {s s' : State} {id : Nat} {e : Execution} (h : Swept s)
    (he : s.executions id = some e) (hmove : ExecutionMove notify s id e s') : Swept s' := by
  obtain ⟨e', hexecutions, hkeeps, hflag, hcalls, hrecords⟩ := hmove.records
  constructor
  · intro d scope hd
    rw [hflag]
    exact h.requested d scope ((hcalls d).1 ▸ hd)
  · intro d scope aborts hd j r hr
    rw [(hcalls d).2] at hd
    by_cases hj : j = id
    · subst hj
      rcases hrecords scope r hr with ⟨-, hnew⟩ | ⟨r₀, hr₀, hsame, -⟩
      · rw [hnew]
        exact h.requested d scope (CallPc.requested_of_sweeps hd)
      · rw [hsame]
        exact h.marked d scope aborts hd j r₀ hr₀
    · rw [hmove.others scope j hj] at hr
      exact h.marked d scope aborts hd j r hr
  · intro d scope aborts hd j r x hr hx hhandle
    rw [(hcalls d).2] at hd
    rw [hexecutions] at hx
    by_cases hj : j = id
    · subst hj
      rw [Function.update_self] at hx
      obtain rfl := Option.some.inj hx
      rcases hrecords scope r hr with ⟨hnone, -⟩ | ⟨r₀, hr₀, -, hsame | harmed⟩
      · rw [hnone] at hhandle
        cases hhandle
      · exact (h.aborted d scope aborts hd j r₀ e hr₀ he (hsame ▸ hhandle)).imp_left hkeeps
      · exact .inl (harmed (h.marked d scope aborts hd j r₀ hr₀))
    · rw [Function.update_of_ne hj] at hx
      rw [hmove.others scope j hj] at hr
      exact h.aborted d scope aborts hd j r x hr hx hhandle

theorem Swept.move {notify : Notify} {s s' : State} (hregistered : Registered s) (h : Swept s)
    (hmove : Move notify s s') : Swept s' := by
  cases hmove with
  | derive hflag hancestors =>
    exact h.frame (fun _ hset => hset) (fun _ => ⟨rfl, rfl⟩) (fun _ _ => rfl) fun _ _ _ _ _ he => he
  | @spawn token htoken =>
    refine h.frame (fun _ hset => hset) (fun _ => ⟨rfl, rfl⟩) (fun _ _ => rfl) ?_
    intro scope id r e hr he
    -- the new execution has no record yet
    have hid : id ≠ s.nextExecution := by
      rintro rfl
      cases hnew : s.executions s.nextExecution with
      | none =>
        have hnone := hregistered.unknown _ hnew scope
        rw [show s.record scope s.nextExecution = some r from hr] at hnone
        cases hnone
      | some e' => exact Nat.lt_irrefl _ (hregistered.known _ e' hnew).1
    exact (Function.update_of_ne hid _ _).symm.trans he
  | execution he hexecution => exact h.execution he hexecution
  | @call d pc hcall =>
    refine h.frame (fun _ hset => hset) ?_ (fun _ _ => rfl) fun _ _ _ _ _ he => he
    intro d'
    rw [calls_setCall]
    split_ifs with hd
    · rw [hd]
      exact hcall.sweeps
    · exact ⟨rfl, rfl⟩
  | @request d scope hpc =>
    have hrecord : ∀ other id, ((s.setScope scope
        { s.scopes scope with abortRequested := true }).setCall d (.marking scope)).record other id =
          s.record other id := by
      intro other id
      by_cases hother : other = scope
      · subst hother
        simp [State.record, State.setScope, State.setCall]
      · simp [State.record, State.setScope, State.setCall, hother]
    have hset : ∀ other, other = scope ∨ (s.scopes other).abortRequested = true →
        (Function.update s.scopes scope { s.scopes scope with abortRequested := true }
          other).abortRequested = true := by
      intro other hother
      by_cases hsame : other = scope
      · subst hsame
        rw [Function.update_self]
      · rw [Function.update_of_ne hsame]
        exact hother.resolve_left hsame
    have hold : ∀ d', ((s.setCall d (.marking scope)).calls d').sweeps = (s.calls d').sweeps := by
      intro d'
      rw [calls_setCall]
      split_ifs with hd
      · rw [hd, hpc]
        rfl
      · rfl
    constructor
    · intro d' other hd'
      refine hset other ?_
      rw [calls_setCall] at hd'
      split_ifs at hd' with hd
      · exact .inl (Option.some.inj hd').symm
      · exact .inr (h.requested d' other hd')
    · intro d' other aborts hd' id r hr
      rw [hrecord] at hr
      exact h.marked d' other aborts ((hold d').symm.trans hd') id r hr
    · intro d' other aborts hd' id r e hr
      rw [hrecord] at hr
      exact h.aborted d' other aborts ((hold d').symm.trans hd') id r e hr
  | @mark d scope hpc =>
    have hflag : ∀ other, ((s.mark scope).1.scopes other).abortRequested =
        (s.scopes other).abortRequested := by
      intro other
      by_cases hother : other = scope
      · subst hother
        simp [State.mark, State.setScope]
      · simp [State.mark, State.setScope, hother]
    have hrecord : ∀ other id r, (s.mark scope).1.record other id = some r →
        ∃ r₀, s.record other id = some r₀ ∧ r.abort = r₀.abort ∧
          ((other = scope ∨ r₀.abortRequested = true) → r.abortRequested = true) := by
      intro other id r hr
      by_cases hother : other = scope
      · subst hother
        simp only [State.record, State.mark, State.setScope, Function.update_self] at hr
        obtain ⟨r₀, hr₀, rfl⟩ := Option.map_eq_some_iff.mp hr
        exact ⟨r₀, hr₀, rfl, fun _ => rfl⟩
      · simp only [State.record, State.mark, State.setScope, Function.update_of_ne hother] at hr
        exact ⟨r, hr, rfl, fun hor => hor.resolve_left hother⟩
    constructor
    · intro d' other hd'
      refine (hflag other).trans ?_
      rw [calls_setCall] at hd'
      split_ifs at hd' with hd
      · obtain rfl := Option.some.inj hd'
        exact h.requested d scope (by rw [hpc]; rfl)
      · exact h.requested d' other hd'
    · intro d' other aborts hd' id r hr
      obtain ⟨r₀, hr₀, -, hmarked⟩ := hrecord other id r hr
      apply hmarked
      rw [calls_setCall] at hd'
      split_ifs at hd' with hd
      · cases hd'
        exact .inl rfl
      · exact .inr (h.marked d' other aborts hd' id r₀ hr₀)
    · intro d' other aborts hd' id r e hr he hhandle
      obtain ⟨r₀, hr₀, hsame, -⟩ := hrecord other id r hr
      rw [calls_setCall] at hd'
      split_ifs at hd' with hd
      · cases hd'
        refine .inr (List.mem_filterMap.mpr ⟨id, ?_, ?_⟩)
        · exact List.mem_range.mpr (hregistered.known id e he).1
        · rw [hsame] at hhandle
          exact Option.bind_eq_some_iff.mpr ⟨r₀, hr₀, hhandle⟩
      · exact h.aborted d' other aborts hd' id r₀ e hr₀ he (hsame ▸ hhandle)
  | @abort d scope id aborts e hpc he hid =>
    have hback : ∀ d' other aborts',
        ((s.setCall d (.aborting scope (aborts.erase id))).calls d').sweeps = some (other, aborts') →
          ∃ all, (s.calls d').sweeps = some (other, all) ∧ ∀ j ∈ all, j = id ∨ j ∈ aborts' := by
      intro d' other aborts' hd'
      rw [calls_setCall] at hd'
      split_ifs at hd' with hd
      · cases hd'
        refine ⟨aborts, by rw [hd, hpc]; rfl, fun j hj => ?_⟩
        by_cases hji : j = id
        · exact .inl hji
        · exact .inr ((List.mem_erase_of_ne hji).mpr hj)
      · exact ⟨aborts', hd', fun j hj => .inr hj⟩
    constructor
    · intro d' other hd'
      rw [calls_setCall] at hd'
      split_ifs at hd' with hd
      · refine h.requested d other ?_
        rw [hpc]
        exact hd'
      · exact h.requested d' other hd'
    · intro d' other aborts' hd' j r hr
      obtain ⟨all, hall, -⟩ := hback d' other aborts' hd'
      exact h.marked d' other all hall j r hr
    · intro d' other aborts' hd' j r x hr hx hhandle
      obtain ⟨all, hall, hleft⟩ := hback d' other aborts' hd'
      simp only [State.setCall, State.setExecution] at hx
      by_cases hj : j = id
      · subst hj
        rw [Function.update_self] at hx
        obtain rfl := Option.some.inj hx
        exact .inl rfl
      · rw [Function.update_of_ne hj] at hx
        have hmem := h.aborted d' other all hall j r x hr hx hhandle
        exact hmem.imp_right fun hin => (hleft j hin).resolve_left hj

theorem swept_init : Swept init := ⟨nofun, nofun, nofun⟩

end Executions

end Apcore
