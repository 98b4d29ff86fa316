import Apcore.Module

/-! # `Middleware` — the middleware chain around a module call

The manager hands out a snapshot of its list, so a hook that changes the list does not change the
chain it runs in. -/

namespace Apcore

/-- `OnErrorOutcome`; a retry carries the inputs of its `RetrySignal`. -/
inductive OnErrorOutcome where
  | recovery (value : Json)
  | retry (inputs : Json)

/-- A `dyn Middleware`. -/
structure Middleware (σ : Type) where
  name : String
  before : String → Json → Context → Code σ (Except ModuleError (Option Json))
  after : String → Json → Json → Context → Code σ (Except ModuleError (Option Json))
  onErrorOutcome : String → Json → ModuleError → Context →
    Code σ (Except ModuleError (Option OnErrorOutcome))

/-- The default hooks of the trait. -/
def Middleware.idle {σ : Type} (name : String) : Middleware σ where
  name := name
  before := fun _ _ _ => pure (.ok none)
  after := fun _ _ _ _ => pure (.ok none)
  onErrorOutcome := fun _ _ _ _ => pure (.ok none)

/-- An `Arc<MiddlewareManager>`: its chain, as the world stands. -/
abbrev MiddlewareManager (σ : Type) := World σ → List (Middleware σ)

/-- A list of indices as a JSON array. -/
def indicesJson (indices : List Nat) : Json := .array (indices.map ModuleError.countJson)

/-- A JSON array of indices, read back. -/
def indicesOfJson (v : Json) : Option (List Nat) := do
  let elems ← v.asArray?
  elems.mapM fun
    | .number (.posInt n) => some n.toNat
    | _ => none

namespace MiddlewareManager

variable {σ : Type}

/-- The loop of `execute_before`. A middleware counts as executed before its hook runs, so that the
one that fails is among those whose `on_error` runs. -/
def beforeLoop (moduleId : String) (ctx : Context) :
    Json → List Nat → List (Middleware σ × Nat) → Code σ (Except ModuleError (Json × List Nat))
  | inputs, executed, [] => pure (.ok (inputs, executed))
  | inputs, executed, (mw, i) :: rest => do
    let executed := executed ++ [i]
    match ← mw.before moduleId inputs ctx with
    | .ok (some modified) => beforeLoop moduleId ctx modified executed rest
    | .ok none => beforeLoop moduleId ctx inputs executed rest
    | .error e =>
      pure (.error (.middlewareChainError e ("executed_middlewares", indicesJson executed)
        ("Middleware '" ++ mw.name ++ "' before() failed: " ++ e.display)))

/-- `execute_before`. -/
def executeBefore (manager : MiddlewareManager σ) (moduleId : String) (inputs : Json)
    (ctx : Context) : Code σ (Except ModuleError (Json × List Nat)) := do
  let w ← Run.world
  beforeLoop moduleId ctx inputs [] (manager w).zipIdx

/-- The loop of `execute_after`. -/
def afterLoop (moduleId : String) (inputs : Json) (ctx : Context) :
    Json → List (Middleware σ) → Code σ (Except ModuleError Json)
  | output, [] => pure (.ok output)
  | output, mw :: rest => do
    match ← mw.after moduleId inputs output ctx with
    | .ok (some modified) => afterLoop moduleId inputs ctx modified rest
    | .ok none => afterLoop moduleId inputs ctx output rest
    | .error e => pure (.error e)

/-- `execute_after`. -/
def executeAfter (manager : MiddlewareManager σ) (moduleId : String) (inputs output : Json)
    (ctx : Context) : Code σ (Except ModuleError Json) := do
  let w ← Run.world
  afterLoop moduleId inputs ctx output (manager w).reverse

/-- The loop of `execute_on_error_outcome`: the first outcome wins, a failing hook is passed over. -/
def onErrorLoop (moduleId : String) (inputs : Json) (error : ModuleError) (ctx : Context)
    (chain : List (Middleware σ)) : List Nat → Code σ (Option OnErrorOutcome)
  | [] => pure none
  | i :: rest =>
    match chain[i]? with
    | none => onErrorLoop moduleId inputs error ctx chain rest
    | some mw => do
      match ← mw.onErrorOutcome moduleId inputs error ctx with
      | .ok (some outcome) => pure (some outcome)
      | .ok none | .error _ => onErrorLoop moduleId inputs error ctx chain rest

/-- `execute_on_error_outcome`. -/
def executeOnErrorOutcome (manager : MiddlewareManager σ) (moduleId : String) (inputs : Json)
    (error : ModuleError) (ctx : Context) (executed : List Nat) :
    Code σ (Option OnErrorOutcome) := do
  let w ← Run.world
  onErrorLoop moduleId inputs error ctx (manager w) executed.reverse

/-! ## Retries -/

/-- No middleware of the chain ever asks for a retry. -/
def NeverRetries (manager : MiddlewareManager σ) : Prop :=
  ∀ w, ∀ mw ∈ manager w, ∀ moduleId inputs error ctx w' inputs',
    (mw.onErrorOutcome moduleId inputs error ctx w').outcome ≠ .ok (.ok (some (.retry inputs')))

theorem onErrorLoop_ne_retry {chain : List (Middleware σ)} {moduleId : String} {inputs : Json}
    {error : ModuleError} {ctx : Context} {inputs' : Json}
    (h : ∀ mw ∈ chain, ∀ w,
      (mw.onErrorOutcome moduleId inputs error ctx w).outcome ≠ .ok (.ok (some (.retry inputs')))) :
    ∀ executed w, (onErrorLoop moduleId inputs error ctx chain executed w).outcome ≠
      .ok (some (.retry inputs')) := by
  intro executed
  induction executed with
  | nil =>
    intro w hout
    cases hout
  | cons i rest ih =>
    intro w hout
    rw [onErrorLoop] at hout
    cases hmw : chain[i]? with
    | none =>
      rw [hmw] at hout
      exact ih w hout
    | some mw =>
      rw [hmw] at hout
      obtain ⟨answer, hanswer, hrest⟩ := Run.bind_outcome_eq_ok.mp hout
      rcases answer with e | (_ | outcome)
      · exact ih _ hrest
      · exact ih _ hrest
      · obtain rfl : outcome = .retry inputs' := by simpa using hrest
        exact h mw (List.mem_of_getElem? hmw) w hanswer

/-- A chain that never retries gives no retry. -/
theorem NeverRetries.executeOnErrorOutcome {manager : MiddlewareManager σ}
    (h : manager.NeverRetries) (moduleId : String) (inputs : Json) (error : ModuleError)
    (ctx : Context) (executed : List Nat) (w : World σ) (inputs' : Json) :
    (manager.executeOnErrorOutcome moduleId inputs error ctx executed w).outcome ≠
      .ok (some (.retry inputs')) :=
  onErrorLoop_ne_retry (fun mw hmw w' => h w mw hmw _ _ _ _ w' _) _ _

end MiddlewareManager

end Apcore
