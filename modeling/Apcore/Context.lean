import Apcore.Json

/-! # `Context` — identities, cancellation tokens and the execution context

A call travels with a `Context`. What Rust shares behind an `Arc` (the cancellation flag of a token,
the data map, the executor a context is bound to) is a numbered cell here, so that two contexts
share a cell exactly when they carry the same number. -/

namespace Apcore

/-- `Identity`. -/
structure Identity where
  id : String
  identityType : String
  roles : List String
  attrs : List (String × Json)
  deriving Repr

/-- `CancelToken`: its own flag, and the flags of its ancestors from the parent upwards. -/
structure CancelToken where
  flag : Nat
  ancestors : List Nat
  deriving DecidableEq, Repr

namespace CancelToken

/-- `CancelToken::child`, on the fresh flag cell `flag`. -/
def child (parent : CancelToken) (flag : Nat) : CancelToken where
  flag := flag
  ancestors := parent.flag :: parent.ancestors

/-- The flag cells a token observes. -/
def cells (token : CancelToken) : List Nat := token.flag :: token.ancestors

/-- `CancelToken::is_cancelled`, when `cancelled` are the flags that are set. -/
def isCancelled (token : CancelToken) (cancelled : List Nat) : Bool :=
  token.cells.any (· ∈ cancelled)

end CancelToken

/-- `Context<serde_json::Value>`. -/
structure Context where
  traceId : String
  identity : Option Identity
  services : Json
  callerId : Option String
  /-- The cell of the shared data map. -/
  data : Nat
  callChain : List String
  redactedInputs : Option (List (String × Json))
  redactedOutput : Option (List (String × Json))
  cancelToken : Option CancelToken
  /-- Absolute deadline in seconds; a finite double, by the rational it stands for. -/
  globalDeadline : Option ℚ
  /-- The executor instance the context is bound to. -/
  executor : Option Nat
  deriving Repr

namespace Context

/-- `Context::anonymous`, on the fresh trace id and data cell. -/
def anonymous (traceId : String) (data : Nat) : Context where
  traceId := traceId
  identity := none
  services := .null
  callerId := none
  data := data
  callChain := []
  redactedInputs := none
  redactedOutput := none
  cancelToken := none
  globalDeadline := none
  executor := none

/-- `Context::child`: the last module of the chain becomes the caller. -/
def child (ctx : Context) (targetModuleId : String) : Context :=
  { ctx with
    callerId := ctx.callChain.getLast?
    callChain := ctx.callChain ++ [targetModuleId]
    redactedInputs := none
    redactedOutput := none }

@[simp] theorem child_callChain (ctx : Context) (target : String) :
    (ctx.child target).callChain = ctx.callChain ++ [target] := rfl

end Context

end Apcore
