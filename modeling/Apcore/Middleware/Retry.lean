import Apcore.Middleware

/-! # `Middleware.Retry` — `RetryMiddleware`

The middleware counts its retries in the data map of the context, sleeps, and answers a retryable
error with the inputs of the call. The hook it answers from is `on_error`, whose value the trait
wraps as a recovery. -/

namespace Apcore

variable {σ : Type}

/-- The default of `Middleware::on_error_outcome`: whatever `on_error` gives is a recovery. -/
def Middleware.defaultOnErrorOutcome
    (onError : String → Json → ModuleError → Context → Code σ (Except ModuleError (Option Json)))
    (moduleId : String) (inputs : Json) (error : ModuleError) (ctx : Context) :
    Code σ (Except ModuleError (Option OnErrorOutcome)) := do
  match ← onError moduleId inputs error ctx with
  | .ok value => pure (.ok (value.map .recovery))
  | .error e => pure (.error e)

/-- `RetryConfig`. -/
structure RetryConfig where
  maxRetries : Nat := 3
  strategy : String := "exponential"
  baseDelayMs : Nat := 100
  maxDelayMs : Nat := 5000
  jitter : Bool := true

/-- `RetryMiddleware`; `sleep` is what becomes of the world while it sleeps so many milliseconds. -/
structure RetryMiddleware (σ : Type) where
  config : RetryConfig
  sleep : Nat → World σ → World σ

namespace RetryMiddleware

/-- `RETRY_COUNT_BASE.scoped(module_id)`. -/
def retryCountKey (moduleId : String) : String := "_apcore.mw.retry.count" ++ "." ++ moduleId

/-- `serde_json::from_value::<i64>`. -/
def asI64 : Json → Option Int
  | .number (.posInt n) => if n.toNat < 2 ^ 63 then some n.toNat else none
  | .number (.negInt n) => some n
  | _ => none

/-- `u32::try_from`. -/
def asU32 (n : Int) : Option Nat := if 0 ≤ n ∧ n < 2 ^ 32 then some n.toNat else none

/-- `RetryMiddleware::retry_count`. -/
def retryCount (w : World σ) (ctx : Context) (moduleId : String) : Nat :=
  (((Fields.get? (w.data ctx.data) (retryCountKey moduleId)).bind asI64).bind asU32).getD 0

/-- `RetryMiddleware::set_retry_count`. -/
def setRetryCount (ctx : Context) (moduleId : String) (count : Nat) (w : World σ) : World σ :=
  w.writeData ctx.data
    (Fields.insert (retryCountKey moduleId) (ModuleError.countJson count) (w.data ctx.data))

/-- `SystemTime::now().subsec_nanos()`. -/
def subsecNanos (now : ℚ) : Nat := ((now - now.floor) * 1000000000).floor.toNat

/-- `calculate_delay`, in milliseconds. -/
def calculateDelay (config : RetryConfig) (attempt : Nat) (now : ℚ) : ℚ :=
  let delay : ℚ :=
    if config.strategy = "fixed" then config.baseDelayMs
    else min (config.baseDelayMs * 2 ^ attempt) config.maxDelayMs
  if config.jitter then delay * (1 / 2 + (subsecNanos now % 1000000 : Nat) / 1000000) else delay

/-- `RetryMiddleware::on_error`. -/
def onError (mw : RetryMiddleware σ) (moduleId : String) (inputs : Json) (error : ModuleError)
    (ctx : Context) : Code σ (Except ModuleError (Option Json)) :=
  if error.retryable ≠ some true then pure (.ok none)
  else do
    let w ← Run.world
    let retryCount := retryCount w ctx moduleId
    if retryCount ≥ mw.config.maxRetries then pure (.ok none)
    else do
      modifyWorld (mw.sleep (calculateDelay mw.config retryCount w.now).floor.toNat)
      modifyWorld (setRetryCount ctx moduleId (retryCount + 1))
      pure (.ok (some inputs))

/-- `impl Middleware for RetryMiddleware`; `on_error_outcome` is the default. -/
def toMiddleware (mw : RetryMiddleware σ) : Middleware σ where
  name := "retry"
  before := fun _ _ _ => pure (.ok none)
  after := fun moduleId _ _ ctx => do
    modifyWorld fun w => w.writeData ctx.data (Fields.erase (w.data ctx.data) (retryCountKey moduleId))
    pure (.ok none)
  onErrorOutcome := Middleware.defaultOnErrorOutcome mw.onError

/-- The error is retryable, and the context has retries left for the module. -/
def grants (mw : RetryMiddleware σ) (moduleId : String) (error : ModuleError) (ctx : Context)
    (w : World σ) : Bool :=
  error.retryable == some true && retryCount w ctx moduleId < mw.config.maxRetries

/-- **A retry that is granted leaves the hook as a recovery with the inputs of the call.** -/
theorem onErrorOutcome_outcome (mw : RetryMiddleware σ) (moduleId : String) (inputs : Json)
    (error : ModuleError) (ctx : Context) (w : World σ) :
    (mw.toMiddleware.onErrorOutcome moduleId inputs error ctx w).outcome =
      .ok (.ok (if mw.grants moduleId error ctx w then some (.recovery inputs) else none)) := by
  have honError : (mw.onError moduleId inputs error ctx w).outcome =
      .ok (.ok (if mw.grants moduleId error ctx w then some inputs else none)) := by
    unfold onError grants
    by_cases hretryable : error.retryable = some true
    · rw [if_neg (not_not.mpr hretryable), Run.bind_apply_ok rfl]
      by_cases hcount : retryCount w ctx moduleId < mw.config.maxRetries
      · simp only [hretryable, hcount, ge_iff_le, not_le.mpr hcount, if_false, decide_true, beq_self_eq_true,
          Bool.and_self, if_true]
        rfl
      · simp [hretryable, hcount, not_lt.mp hcount]
    · simp [hretryable]
  show (Middleware.defaultOnErrorOutcome mw.onError moduleId inputs error ctx w).outcome = _
  unfold Middleware.defaultOnErrorOutcome
  rw [Run.bind_apply_ok honError]
  split_ifs <;> rfl

end RetryMiddleware

namespace MiddlewareManager

/-- The middleware answers no error. -/
def NeverRecovers (mw : Middleware σ) : Prop :=
  ∀ moduleId inputs error ctx w outcome,
    (mw.onErrorOutcome moduleId inputs error ctx w).outcome ≠ .ok (.ok (some outcome))

/-- `retry` is the only middleware that may answer an error. -/
def OnlyRecovers (manager : MiddlewareManager σ) (retry : RetryMiddleware σ) : Prop :=
  ∀ w, ∀ mw ∈ manager w, mw = retry.toMiddleware ∨ NeverRecovers mw

/-- Asking the given positions of the chain in turn comes to a `retry` that grants a retry. -/
def RetryGranted (retry : RetryMiddleware σ) (moduleId : String) (inputs : Json)
    (error : ModuleError) (ctx : Context) (chain : List (Middleware σ)) :
    List Nat → World σ → Prop
  | [], _ => False
  | i :: rest, w =>
    match chain[i]? with
    | none => RetryGranted retry moduleId inputs error ctx chain rest w
    | some mw =>
      (mw = retry.toMiddleware ∧ retry.grants moduleId error ctx w = true) ∨
        RetryGranted retry moduleId inputs error ctx chain rest
          (mw.onErrorOutcome moduleId inputs error ctx w).world

variable {retry : RetryMiddleware σ} {moduleId : String} {inputs : Json} {error : ModuleError}
  {ctx : Context} {chain : List (Middleware σ)}

/-- Where only `retry` may answer, an answer of a middleware is a retry it grants. -/
theorem answer_of_onlyRecovers {mw : Middleware σ} {w : World σ} {answer : Option OnErrorOutcome}
    (hmw : mw = retry.toMiddleware ∨ NeverRecovers mw)
    (hanswer : (mw.onErrorOutcome moduleId inputs error ctx w).outcome = .ok (.ok answer)) :
    ((mw = retry.toMiddleware ∧ retry.grants moduleId error ctx w = true) ∧
        answer = some (.recovery inputs)) ∨
      (¬(mw = retry.toMiddleware ∧ retry.grants moduleId error ctx w = true) ∧ answer = none) := by
  by_cases hretry : mw = retry.toMiddleware
  · rw [hretry, RetryMiddleware.onErrorOutcome_outcome] at hanswer
    obtain rfl := Except.ok.inj (Except.ok.inj hanswer)
    by_cases hgrants : retry.grants moduleId error ctx w = true
    · exact .inl ⟨⟨hretry, hgrants⟩, if_pos hgrants⟩
    · exact .inr ⟨fun h => hgrants h.2, if_neg hgrants⟩
  · refine .inr ⟨fun h => hretry h.1, ?_⟩
    cases answer with
    | none => rfl
    | some outcome => exact absurd hanswer (hmw.resolve_left hretry _ _ _ _ _ _)

/-- The `retry` has no error of its own. -/
theorem not_granted_of_error {mw : Middleware σ} {w : World σ} {e : ModuleError}
    (herror : (mw.onErrorOutcome moduleId inputs error ctx w).outcome = .ok (.error e)) :
    mw ≠ retry.toMiddleware := by
  intro hretry
  rw [hretry, RetryMiddleware.onErrorOutcome_outcome] at herror
  cases herror

/-- **What the chain answers where only `retry` may**: the inputs of the call, exactly when a retry
is granted. By induction on the positions that are still to be asked. -/
theorem onErrorLoop_outcome (honly : ∀ mw ∈ chain, mw = retry.toMiddleware ∨ NeverRecovers mw)
    {positions : List Nat} {w : World σ} {answer : Option OnErrorOutcome}
    (hanswer : (onErrorLoop moduleId inputs error ctx chain positions w).outcome = .ok answer) :
    (RetryGranted retry moduleId inputs error ctx chain positions w ∧
        answer = some (.recovery inputs)) ∨
      (¬RetryGranted retry moduleId inputs error ctx chain positions w ∧ answer = none) := by
  induction positions generalizing w with
  | nil =>
    obtain rfl : none = answer := Except.ok.inj hanswer
    exact .inr ⟨id, rfl⟩
  | cons i rest ih =>
    rw [onErrorLoop] at hanswer
    rw [RetryGranted]
    cases hmw : chain[i]? with
    | none =>
      rw [hmw] at hanswer
      exact ih hanswer
    | some mw =>
      rw [hmw] at hanswer
      have hmember := honly mw (List.mem_of_getElem? hmw)
      obtain ⟨own, hown, hrest⟩ := Run.bind_outcome_eq_ok.mp hanswer
      dsimp only
      rcases own with e | own
      · -- a failing hook is passed over
        have hne : mw ≠ retry.toMiddleware := not_granted_of_error hown
        rcases ih hrest with ⟨hgranted, ha⟩ | ⟨hnot, ha⟩
        · exact .inl ⟨.inr hgranted, ha⟩
        · exact .inr ⟨fun h => h.elim (fun h => hne h.1) hnot, ha⟩
      · rcases answer_of_onlyRecovers hmember hown with ⟨hgrants, rfl⟩ | ⟨hnot, rfl⟩
        · obtain rfl : some (.recovery inputs) = answer := Except.ok.inj hrest
          exact .inl ⟨.inl hgrants, rfl⟩
        · rcases ih hrest with ⟨hgranted, ha⟩ | ⟨hrest', ha⟩
          · exact .inl ⟨.inr hgranted, ha⟩
          · exact .inr ⟨fun h => h.elim hnot hrest', ha⟩

/-- A retry is granted for a retryable error and a positive budget only. -/
theorem RetryGranted.retryable {positions : List Nat} {w : World σ}
    (h : RetryGranted retry moduleId inputs error ctx chain positions w) :
    error.retryable = some true ∧ 0 < retry.config.maxRetries := by
  induction positions generalizing w with
  | nil => exact h.elim
  | cons i rest ih =>
    rw [RetryGranted] at h
    cases hmw : chain[i]? with
    | none =>
      rw [hmw] at h
      exact ih h
    | some mw =>
      rw [hmw] at h
      rcases h with ⟨-, hgrants⟩ | h
      · have hboth : error.retryable = some true ∧
            RetryMiddleware.retryCount w ctx moduleId < retry.config.maxRetries := by
          simpa [RetryMiddleware.grants] using hgrants
        exact ⟨hboth.1, by omega⟩
      · exact ih h

/-- No middleware of such a chain asks for a retry. -/
theorem OnlyRecovers.neverRetries {manager : MiddlewareManager σ}
    (h : manager.OnlyRecovers retry) : manager.NeverRetries := by
  intro w mw hmw moduleId inputs error ctx w' inputs' hout
  rcases answer_of_onlyRecovers (h w mw hmw) hout with ⟨-, ha⟩ | ⟨-, ha⟩
  · cases ha
  · cases ha

end MiddlewareManager

end Apcore
