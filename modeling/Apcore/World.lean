import Apcore.Lib.Run
import Apcore.Acl.Check

/-! # `World` — what the parts of a call share

Everything a call reaches through an `Arc` is state of the world: the flags of cancellation tokens,
the data maps of contexts, the condition registries, the clock, the warnings already given, and
whatever the code outside the library keeps, which is the type `σ`. Steps, middlewares, modules and
handlers are computations over it; what other tasks do in the meantime is part of what a
computation of that code does to the world. -/

namespace Apcore

/-- The shared state; `σ` is what the code outside the library keeps. -/
structure World (σ : Type) where
  user : σ
  /-- The flag cells of cancellation tokens that are set. -/
  cancelled : List Nat
  /-- The next flag cell or data map to hand out. -/
  nextCell : Nat
  /-- Seconds since the epoch. -/
  now : ℚ
  /-- The data maps of contexts, by cell. -/
  data : Nat → List (String × Json)
  /-- The condition registries and what else a check of an access list reads. -/
  checkEnv : CheckEnv
  /-- The governance warnings that were logged. -/
  warned : List String

/-- A world in which nothing has happened yet. -/
def World.fresh {σ : Type} (user : σ) : World σ where
  user := user
  cancelled := []
  nextCell := 0
  now := 0
  data := fun _ => []
  checkEnv := { registries := .builtin, order := .textual, now := "" }
  warned := []

/-- A computation of code that reports nothing; a panic unwinds with its message. -/
abbrev Code (σ α : Type) := Run String (World σ) Empty α

variable {σ : Type}

/-! ## Cancellation -/

/-- A fresh cell. -/
def freshCell : Code σ Nat := ⟨fun w =>
  ⟨.ok w.nextCell, [], { w with nextCell := w.nextCell + 1 }⟩⟩

/-- `CancelToken::new`. -/
def CancelToken.new : Code σ CancelToken := do
  let flag ← freshCell
  pure { flag, ancestors := [] }

/-- `CancelToken::child`, on a fresh flag. -/
def CancelToken.derive (parent : CancelToken) : Code σ CancelToken := do
  let flag ← freshCell
  pure (parent.child flag)

/-- `CancelToken::cancel`. -/
def CancelToken.cancel (token : CancelToken) : Code σ Unit := ⟨fun w =>
  ⟨.ok (), [], { w with cancelled := token.flag :: w.cancelled }⟩⟩

/-- `token.check_for(module_id)` of the token of a context, when there is one. -/
def checkCancelled (token : Option CancelToken) (moduleId : String) :
    Code σ (Except ModuleError Unit) := do
  let w ← Run.world
  if token.any (·.isCancelled w.cancelled) then pure (.error (.executionCancelled moduleId))
  else pure (.ok ())

/-! ## Shared data -/

/-- Write a whole data map. -/
def World.writeData (w : World σ) (cell : Nat) (map : List (String × Json)) : World σ :=
  { w with data := Function.update w.data cell map }

/-- `TRACING_SPANS`. -/
def tracingSpans : String := "_apcore.mw.tracing.spans"

/-- `events` of a span with one more event; a span whose `events` is no array is left alone. -/
def pushSpanEvent (event : Json) : Json → Json
  | .object span =>
    match (Fields.get? span "events").getD (.array []) with
    | .array events => .object (Fields.insert "events" (.array (events ++ [event])) span)
    | _ => .object span
  | span => span

/-- Append an event to the active (last) span in the data map of a context; without a span stack
there is nothing to append to. -/
def World.appendSpanEvent (w : World σ) (ctx : Context) (event : Json) : World σ :=
  match (Fields.get? (w.data ctx.data) tracingSpans).bind Json.asArray? with
  | some spans =>
    match spans.getLast? with
    | some last =>
      w.writeData ctx.data
        (Fields.insert tracingSpans (.array (spans.dropLast ++ [pushSpanEvent event last]))
          (w.data ctx.data))
    | none => w
  | none => w

/-! ## Events -/

/-- `ApCoreEvent::with_module`, without its time stamp. -/
structure ApCoreEvent where
  eventType : String
  data : Json
  moduleId : String
  severity : String

/-- An `EventEmitter`, by what the subscribers of an event do to the world: they run in tasks of
their own, so emitting never fails. -/
abbrev EventEmitter (σ : Type) := ApCoreEvent → World σ → World σ

/-- Change the world. -/
def modifyWorld (f : World σ → World σ) : Code σ Unit := ⟨fun w => ⟨.ok (), [], f w⟩⟩

/-- `emitter.emit(event)`, when an emitter is configured. -/
def emitEvent (emitter : Option (EventEmitter σ)) (event : ApCoreEvent) : Code σ Unit :=
  match emitter with
  | some emit => modifyWorld (emit event)
  | none => pure ()

@[simp] theorem modifyWorld_apply (f : World σ → World σ) (w : World σ) :
    modifyWorld f w = ⟨.ok (), [], f w⟩ := rfl

/-- Emitting never unwinds. -/
@[simp] theorem emitEvent_outcome (emitter : Option (EventEmitter σ)) (event : ApCoreEvent)
    (w : World σ) : (emitEvent emitter event w).outcome = .ok () := by
  cases emitter <;> rfl

end Apcore
