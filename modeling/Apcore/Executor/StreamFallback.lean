import Apcore.Pipeline.Segments
import Apcore.Executor.TraceAgreement
import Apcore.Executor.Stream

/-! # `Executor.StreamFallback` — streaming a module that does not stream

For such a module a stream is a call cut in two: the steps before `execute`, and a second run of the
engine restricted to the steps from there on. The two agree up to the cut on everything but an
abort. Behind it the call goes on to judge how its run ended, and the stream does not. -/

namespace Apcore

namespace Executor

open Run PipelineEngine

variable {σ : Type} {executor : Executor σ} {moduleId : String}

/-! ## The cut -/

/-- A middleware that answers every error with a value. -/
def recovering : Middleware Unit :=
  { Middleware.idle "recovery" with
    onErrorOutcome := fun _ _ _ _ => pure (.ok (some (.recovery (.string "cached")))) }

end Executor

end Apcore
