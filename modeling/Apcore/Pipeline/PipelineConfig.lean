import Apcore.Pipeline.Strategy
import Apcore.Lib.Fallible
import Apcore.Pipeline.Standard
import Apcore.Pipeline.StrategyInvariant

/-! # `Pipeline.PipelineConfig` — a strategy from the `pipeline:` section

`build_strategy_from_seed` removes steps, overlays the configurable fields of others, and inserts
new ones that registered factories make. Each edit is a call of a mutator, and the first error ends
the build. -/

namespace Apcore

open Fields (ofJson?)

variable {σ : Type}

/-! ## Overlays -/

/-- `ConfiguredStep`. -/
structure ConfiguredStep (σ : Type) where
  inner : Step σ
  nameOverride : Option String
  matchModules : Option (List String)
  ignoreErrors : Bool
  isPure : Bool
  timeoutMs : Nat

/-- A `ConfiguredStep` as a `dyn Step`: the overlay changes these fields and nothing else. -/
def ConfiguredStep.toStep (overlay : ConfiguredStep σ) : Step σ :=
  { overlay.inner with
    name := overlay.nameOverride.getD overlay.inner.name
    matchModules := overlay.matchModules.or overlay.inner.matchModules
    ignoreErrors := overlay.ignoreErrors
    isPure := overlay.isPure
    timeoutMs := overlay.timeoutMs }

/-- The strings of the array under a key, where there is one. -/
def stringsOf (entry : Json) (key : String) : Option (List String) :=
  ((ofJson? entry key).bind Json.asArray?).map (·.filterMap Json.asStr?)

namespace PipelineConfig

/-! ## Keys -/

/-- `CONFIGURABLE_STEP_FIELDS`. -/
def configurableStepFields : List String := ["match_modules", "ignore_errors", "pure", "timeout_ms"]

/-- `STEP_ENTRY_FIELDS`. -/
def stepEntryFields : List String :=
  ["name", "type", "handler", "config", "match_modules", "ignore_errors", "pure", "timeout_ms",
    "after", "before"]

/-- `reject_unknown_keys`. -/
def rejectUnknownKeys (entry : List (String × Json)) (allowed : List String) (context : String) :
    Except ModuleError Unit :=
  let unknown := (entry.map (·.1)).filter (!allowed.contains ·)
  if unknown.isEmpty then .ok ()
  else .error (.new .pipelineConfigurationError
    (context ++ ": " ++ toString unknown.length ++ " " ++
      (if unknown.length = 1 then "field" else "fields") ++ " not valid here: " ++
      ", ".intercalate (unknown.map fun k => "'" ++ k ++ "'") ++ ". Accepted: " ++
      ", ".intercalate allowed ++ "."))

/-- The keys of an entry that would weaken a gate, as `reject_gate_weakening_keys` names them. -/
def weakeningKeys (gate : BuiltinGate) (fields : List (String × Json)) : List String :=
  (if (Fields.get? fields "ignore_errors").bind Json.asBool? = some true then
    ["ignore_errors: true"] else []) ++
  (if ((Fields.get? fields "match_modules").any fun v => !v.isNull) then
    ["match_modules"] else []) ++
  (if gate = .approval ∧ (Fields.get? fields "pure").bind Json.asBool? = some true then
    ["pure: true"] else [])

/-- `reject_gate_weakening_keys`. -/
def rejectGateWeakeningKeys (stepName : String) (gate : Option BuiltinGate)
    (fields : List (String × Json)) : Except ModuleError Unit :=
  match gate with
  | none => .ok ()
  | some gate =>
    if (weakeningKeys gate fields).isEmpty then .ok ()
    else
      let err := Step.gateWeakeningError stepName (weakeningKeys gate fields)
      .error { err with message := "pipeline.configure: " ++ err.message }

/-! ## Steps made by factories -/

/-- The registered step types. -/
abbrev StepFactories (σ : Type) := String → Option (Json → Except ModuleError (Step σ))

/-- The key check of `resolve_step`, for an entry that is an object. -/
def checkStepEntry (stepName : String) (stepDef : Json) : Except ModuleError Unit :=
  match stepDef.asObject? with
  | none => .ok ()
  | some entry => rejectUnknownKeys entry stepEntryFields
      (if stepName.isEmpty then "pipeline.steps entry"
        else "pipeline.steps entry '" ++ stepName ++ "'")

/-- `resolve_step`. -/
def resolveStep (factories : StepFactories σ) (stepDef : Json) : Except ModuleError (Step σ) := do
  let name := (ofJson? stepDef "name").bind Json.asStr?
  let stepName := name.getD ""
  checkStepEntry stepName stepDef
  match (ofJson? stepDef "handler").bind Json.asStr?, (ofJson? stepDef "type").bind Json.asStr? with
  | some handler, _ => .error (.new .pipelineHandlerNotSupported
      ("pipeline step '" ++ stepName ++ "' uses 'handler: " ++ handler ++ "' which is not " ++
        "supported in apcore-rust. Use 'type:' with register_step_type(). " ++
        "See protocol-spec §5.16.1"))
  | none, none => .error (.new .generalInvalidInput
      ("Step '" ++ stepName ++ "' has neither 'type' nor 'handler'"))
  | none, some typeName =>
    match factories typeName with
    | none => .error (.new .generalInvalidInput
        ("Step type '" ++ typeName ++ "' not registered. Register with: register_step_type(\"" ++
          typeName ++ "\", factory)"))
    | some factory => do
      let inner ← factory ((ofJson? stepDef "config").getD (.object []))
      let overlay : ConfiguredStep σ :=
        { inner
          nameOverride := name
          matchModules := stringsOf stepDef "match_modules"
          ignoreErrors := ((ofJson? stepDef "ignore_errors").bind Json.asBool?).getD false
          isPure := ((ofJson? stepDef "pure").bind Json.asBool?).getD false
          timeoutMs := ((ofJson? stepDef "timeout_ms").bind Json.asU64?).getD 0 }
      pure overlay.toStep

/-! ## Limits -/

/-- What `validate_pipeline_limits` reads of the configuration, under `validation.pipeline`. -/
structure PipelineLimits where
  stepNameMaxLength : Option Nat
  timeoutMsMax : Option Nat

/-- The closure `check_timeout`. -/
def checkTimeout (maxTimeout : Option Nat) (place : String) (value : Option Json) :
    Except ModuleError Unit :=
  match maxTimeout, value.bind Json.asU64? with
  | some max, some v =>
    if v > max then .error (.new .configInvalid
      (place ++ ": timeout_ms " ++ toString v ++ " is over the " ++ toString max ++
        " configured by validation.pipeline.timeout_ms_max"))
    else .ok ()
  | _, _ => .ok ()

/-- The length check of a step's name, in characters. -/
def checkNameLength (maxName : Option Nat) (name : Option String) : Except ModuleError Unit :=
  match maxName, name with
  | some max, some name =>
    if name.length > max then .error (.new .configInvalid
      ("Step '" ++ name ++ "': name is " ++ toString name.length ++ " characters, over the " ++
        toString max ++ " configured by validation.pipeline.step_name_max_length"))
    else .ok ()
  | _, _ => .ok ()

/-- The `configure` entries of a section. -/
def configureEntries (pipelineConfig : Json) : List (String × Json) :=
  ((ofJson? pipelineConfig "configure").bind Json.asObject?).getD []

/-- The array under a key of a section. -/
def arrayUnder (pipelineConfig : Json) (key : String) : List Json :=
  ((ofJson? pipelineConfig key).bind Json.asArray?).getD []

/-- `validate_pipeline_limits`, where there is a configuration. -/
def validatePipelineLimits (pipelineConfig : Json) : Option PipelineLimits → Except ModuleError Unit
  | none => .ok ()
  | some limits => do
    (configureEntries pipelineConfig).forM fun entry =>
      checkTimeout limits.timeoutMsMax ("Step '" ++ entry.1 ++ "'") (ofJson? entry.2 "timeout_ms")
    (arrayUnder pipelineConfig "steps").forM fun step => do
      let name := (ofJson? step "name").bind Json.asStr?
      checkNameLength limits.stepNameMaxLength name
      checkTimeout limits.timeoutMsMax ("Step '" ++ name.getD "<unnamed>" ++ "'")
        (ofJson? step "timeout_ms")

/-! ## The build -/

/-- `result.map_err(f)?` after a mutator. -/
def settle (f : ModuleError → ModuleError) :
    StrategyTable.Mutated σ → Except ModuleError (StrategyTable σ)
  | (.ok (), table) => .ok table
  | (.error e, _) => .error (f e)

/-- One entry of `remove`. -/
def removeEntry (table : StrategyTable σ) (entry : Json) : Except ModuleError (StrategyTable σ) :=
  match entry.asStr? with
  | none => .ok table
  | some stepName =>
    settle (fun e => .new .pipelineConfigurationError
      ("pipeline.remove: cannot remove step '" ++ stepName ++ "': " ++ e.message))
      (table.remove stepName)

/-- The overlay a `configure` entry puts on a step. -/
def overlayOf (fields : List (String × Json)) (inner : Step σ) : ConfiguredStep σ where
  inner := inner
  nameOverride := none
  matchModules := (stringsOf (.object fields) "match_modules").or inner.matchModules
  ignoreErrors := ((Fields.get? fields "ignore_errors").bind Json.asBool?).getD inner.ignoreErrors
  isPure := ((Fields.get? fields "pure").bind Json.asBool?).getD inner.isPure
  timeoutMs := ((Fields.get? fields "timeout_ms").bind Json.asU64?).getD inner.timeoutMs

/-- The gate of the first step of a name. -/
def gateOf (table : StrategyTable σ) (stepName : String) : Option BuiltinGate :=
  (table.steps.find? (·.name = stepName)).bind (·.builtinGate)

/-- One entry of `configure`; what is not an object is passed over. -/
def configureEntry (table : StrategyTable σ) (entry : String × Json) :
    Except ModuleError (StrategyTable σ) :=
  let context := "pipeline.configure: cannot configure step '" ++ entry.1 ++ "'"
  match entry.2.asObject? with
  | none => .ok table
  | some fields => do
    rejectUnknownKeys fields configurableStepFields context
    -- on the raw keys: `replace_with` would find the weakened step only after consuming the old one
    rejectGateWeakeningKeys entry.1 (gateOf table entry.1) fields
    settle (fun e => .new .pipelineConfigurationError (context ++ ": " ++ e.message))
      (table.replaceWith entry.1 fun inner => (overlayOf fields inner).toStep)

/-- A missing anchor is a structural error of the section; other errors pass unchanged. -/
def anchorError (side anchor : String) (e : ModuleError) : ModuleError :=
  if e.code = .stepNotFound then .new .pipelineConfigurationError
    ("pipeline.steps: '" ++ side ++ "' anchor '" ++ anchor ++ "' not found: " ++ e.message)
  else e

/-- One entry of `steps`. -/
def insertEntry (factories : StepFactories σ) (table : StrategyTable σ) (stepDef : Json) :
    Except ModuleError (StrategyTable σ) := do
  let step ← resolveStep factories stepDef
  match (ofJson? stepDef "after").bind Json.asStr?, (ofJson? stepDef "before").bind Json.asStr? with
  | some anchor, _ => settle (anchorError "after" anchor) (table.insertAfter anchor step)
  | none, some anchor => settle (anchorError "before" anchor) (table.insertBefore anchor step)
  | none, none => .error (.new .pipelineConfigurationError
      ("pipeline.steps: step '" ++ ((ofJson? stepDef "name").bind Json.asStr?).getD "unknown" ++
        "' has neither 'after' nor 'before' anchor"))

/-- `build_strategy_from_seed`. -/
def buildStrategyFromSeed (factories : StepFactories σ) (seed : StrategyTable σ)
    (pipelineConfig : Json) (config : Option PipelineLimits) :
    Except ModuleError (StrategyTable σ) := do
  validatePipelineLimits pipelineConfig config
  let table ← (arrayUnder pipelineConfig "remove").foldlM removeEntry seed
  let table ← (configureEntries pipelineConfig).foldlM configureEntry table
  (arrayUnder pipelineConfig "steps").foldlM (insertEntry factories) table

end PipelineConfig

end Apcore

/-! ## The strategies a program can come by

A strategy comes from a constructor, from a `pipeline:` section, or from another strategy by a
mutator. A built section is a run of mutator calls on its seed, so what every call keeps holds of all
of them. -/

namespace Apcore

open StrategyTable
open Fallible (bind_eq_ok foldlM_reflTransGen)

variable {σ : Type}

/-! ## Presets -/

/-- The preset constructors. -/
inductive Preset where
  | standard | internal | testing | performance | minimal
  deriving DecidableEq, Repr

namespace Preset

def name : Preset → String
  | standard => "standard"
  | internal => "internal"
  | testing => "testing"
  | performance => "performance"
  | minimal => "minimal"

/-- The steps a preset takes out of the standard strategy. -/
def removed : Preset → List String
  | standard => []
  | internal => ["acl_check", "approval_gate"]
  | testing => ["acl_check", "approval_gate", "call_chain_guard"]
  | performance => ["middleware_before", "middleware_after"]
  | minimal => ["call_chain_guard", "acl_check", "approval_gate", "middleware_before",
      "input_validation", "output_validation", "middleware_after"]

end Preset

/-- `build_standard_strategy_with_toggle`; an error is the panic of its `expect`. -/
def buildStandardStrategy (ext : Externals σ) : Except ModuleError (StrategyTable σ) :=
  StrategyTable.new "standard" (standardStrategy ext).steps

/-- `set_name`. -/
def StrategyTable.setName (table : StrategyTable σ) (name : String) : StrategyTable σ :=
  { table with name }

/-- `build_standard_strategy`, `build_internal_strategy` and the others: the standard strategy,
renamed, without some of its steps. What `remove` returns is dropped. -/
def Preset.build (preset : Preset) (ext : Externals σ) : Except ModuleError (StrategyTable σ) := do
  let table ← buildStandardStrategy ext
  pure (StrategyOp.run (table.setName preset.name) (preset.removed.map .remove))

/-- The `expect` of the standard strategy never panics. -/
theorem buildStandardStrategy_ok (ext : Externals σ) :
    ∃ table, buildStandardStrategy ext = .ok table := by
  refine ⟨{ name := "standard", steps := (standardStrategy ext).steps,
            nameToIdx := indexOf (standardStrategy ext).steps }, ?_⟩
  rfl

/-! ## Calls -/

/-- `PlaceholderStep`. -/
def placeholderStep : Step σ where
  name := "__placeholder__"
  execute := fun ctx => pure (.ok .continueStep, ctx)

/-- `replace_with`, where the wrapper panics: the old step is gone and the index not rebuilt. -/
def StrategyTable.replaceWithPanicking (table : StrategyTable σ) (stepName : String) :
    StrategyTable σ :=
  match table.findStepIndex stepName with
  | .error _ => table
  | .ok idx => { table with steps := table.steps.set idx placeholderStep }

/-- A call that may change a strategy. -/
inductive StrategyCall (σ : Type) where
  | edit (op : StrategyOp σ)
  | replaceWithPanicking (stepName : String)
  | setName (name : String)
  | addStepMiddleware (mw : StepMiddleware σ)

/-- What the call leaves, whatever it returns. -/
def StrategyCall.leave (table : StrategyTable σ) : StrategyCall σ → StrategyTable σ
  | .edit op => (op.apply table).2
  | .replaceWithPanicking stepName => table.replaceWithPanicking stepName
  | .setName name => table.setName name
  | .addStepMiddleware mw =>
    { table with stepMiddlewares := table.stepMiddlewares ++ [mw] }

/-- No built-in gate of the strategy is weakened. -/
def GatesIntact (table : StrategyTable σ) : Prop := ∀ step ∈ table.steps, step.GateIntact

theorem GatesIntact.apply {table : StrategyTable σ} (hintact : GatesIntact table)
    (op : StrategyOp σ) : GatesIntact (op.apply table).2 := by
  rcases apply_cases table op with ⟨⟨e, hrefused⟩, -⟩ | ⟨steps, hinstalls, hafter, -, -⟩
  · rw [hrefused]
    exact hintact
  · rw [hafter]
    exact hinstalls.gates_intact hintact

theorem GatesIntact.run {table : StrategyTable σ} (hintact : GatesIntact table)
    (ops : List (StrategyOp σ)) : GatesIntact (StrategyOp.run table ops) := by
  unfold StrategyOp.run
  induction ops generalizing table with
  | nil => exact hintact
  | cons op ops ih => exact ih (hintact.apply op)

/-- No call weakens a gate, also where it reports an error or panics. -/
theorem GatesIntact.leave {table : StrategyTable σ} (hintact : GatesIntact table)
    (call : StrategyCall σ) : GatesIntact (call.leave table) := by
  cases call with
  | edit op => exact hintact.apply op
  | replaceWithPanicking stepName =>
    show GatesIntact (table.replaceWithPanicking stepName)
    unfold replaceWithPanicking
    cases table.findStepIndex stepName with
    | error e => exact hintact
    | ok idx =>
      intro step hstep
      rcases List.mem_or_eq_of_mem_set hstep with hold | rfl
      · exact hintact step hold
      · exact .of_none rfl
  | setName name => exact hintact
  | addStepMiddleware mw => exact hintact

theorem Preset.build_gatesIntact {preset : Preset} {ext : Externals σ} {table : StrategyTable σ}
    (h : preset.build ext = .ok table) : GatesIntact table := by
  obtain ⟨standard, hstandard⟩ := buildStandardStrategy_ok ext
  unfold Preset.build at h
  rw [hstandard] at h
  obtain rfl := Except.ok.inj h
  obtain ⟨hsteps, -, hgates, -⟩ := new_ok hstandard
  have hintact : GatesIntact standard := by
    unfold GatesIntact
    rw [hsteps]
    exact hgates
  have hrenamed : GatesIntact (standard.setName preset.name) := hintact
  exact hrenamed.run _

/-! ## Sections -/

namespace PipelineConfig

/-- The second strategy is what a call of a mutator leaves of the first. -/
def EditedOnce (table table' : StrategyTable σ) : Prop :=
  ∃ op : StrategyOp σ, table' = (op.apply table).2

/-- The second strategy comes from the first by calls of mutators. -/
abbrev Edited (table table' : StrategyTable σ) : Prop :=
  Relation.ReflTransGen EditedOnce table table'

theorem GatesIntact.edited {table table' : StrategyTable σ} (h : Edited table table')
    (hintact : GatesIntact table) : GatesIntact table' := by
  induction h with
  | refl => exact hintact
  | tail _ hstep ih =>
    obtain ⟨op, rfl⟩ := hstep
    exact ih.apply op

/-- What a mutator leaves behind where it succeeds. -/
theorem edited_of_settle {f : ModuleError → ModuleError} {table table' : StrategyTable σ}
    (op : StrategyOp σ) (h : settle f (op.apply table) = .ok table') : Edited table table' := by
  refine .single ⟨op, ?_⟩
  cases happly : op.apply table with
  | mk result left =>
    rw [happly] at h
    cases result with
    | ok u => exact (Except.ok.inj h).symm
    | error e => cases h

theorem removeEntry_edited {table table' : StrategyTable σ} {entry : Json}
    (h : removeEntry table entry = .ok table') : Edited table table' := by
  unfold removeEntry at h
  cases hname : entry.asStr? with
  | none =>
    rw [hname] at h
    obtain rfl := Except.ok.inj h
    exact .refl
  | some stepName =>
    rw [hname] at h
    exact edited_of_settle (.remove stepName) h

theorem configureEntry_edited {table table' : StrategyTable σ} {entry : String × Json}
    (h : configureEntry table entry = .ok table') : Edited table table' := by
  unfold configureEntry at h
  cases hfields : entry.2.asObject? with
  | none =>
    rw [hfields] at h
    obtain rfl := Except.ok.inj h
    exact .refl
  | some fields =>
    rw [hfields] at h
    obtain ⟨-, -, h⟩ := bind_eq_ok.mp h
    obtain ⟨-, -, h⟩ := bind_eq_ok.mp h
    exact edited_of_settle (.replaceWith entry.1 fun inner => (overlayOf fields inner).toStep) h

theorem insertEntry_edited {factories : StepFactories σ} {table table' : StrategyTable σ}
    {stepDef : Json} (h : insertEntry factories table stepDef = .ok table') :
    Edited table table' := by
  unfold insertEntry at h
  obtain ⟨step, -, h⟩ := bind_eq_ok.mp h
  split at h
  · next anchor _ => exact edited_of_settle (.insertAfter anchor step) h
  · next anchor _ _ => exact edited_of_settle (.insertBefore anchor step) h
  · cases h

/-- An overlay whose raw keys pass the check weakens no gate. -/
theorem overlay_gateIntact {fields : List (String × Json)} {inner : Step σ} {stepName : String}
    (hintact : inner.GateIntact)
    (h : rejectGateWeakeningKeys stepName inner.builtinGate fields = .ok ()) :
    (overlayOf fields inner).toStep.GateIntact := by
  intro gate hgate
  have hinner : inner.builtinGate = some gate := hgate
  obtain ⟨hignore, hmatch, hpure⟩ := hintact gate hinner
  have hkeys : (weakeningKeys gate fields).isEmpty = true := by
    by_contra hkeys
    rw [hinner] at h
    unfold rejectGateWeakeningKeys at h
    dsimp only at h
    rw [if_neg hkeys] at h
    cases h
  unfold weakeningKeys at hkeys
  simp only [List.isEmpty_iff, List.append_eq_nil_iff, ite_eq_right_iff, List.cons_ne_nil,
    imp_false, not_and] at hkeys
  obtain ⟨⟨hraw, hrawMatch⟩, hrawPure⟩ := hkeys
  -- a boolean that is not `true` is `false` or missing, and then the old value stays
  have hflag : ∀ key old, (Fields.get? fields key).bind Json.asBool? ≠ some true → old = false →
      ((Fields.get? fields key).bind Json.asBool?).getD old = false := by
    intro key old hne hold
    cases hval : (Fields.get? fields key).bind Json.asBool? with
    | none => exact hold
    | some b =>
      cases b with
      | true => exact absurd hval hne
      | false => rfl
  refine ⟨hflag _ _ hraw hignore, ?_, fun happroval => hflag _ _ (hrawPure happroval) ?_⟩
  · have hstrings : stringsOf (.object fields) "match_modules" = none := by
      show ((Fields.get? fields "match_modules").bind Json.asArray?).map _ = none
      cases hval : Fields.get? fields "match_modules" with
      | none => rfl
      | some v =>
        rw [hval] at hrawMatch
        cases v with
        | null => rfl
        | _ => exact absurd rfl hrawMatch
    show ((stringsOf (.object fields) "match_modules").or inner.matchModules).or
      inner.matchModules = none
    rw [hstrings, hmatch]
    rfl
  · exact hpure happroval

/-- In a sound strategy the first step of a name is the one the index finds. -/
theorem gateOf_eq {table : StrategyTable σ} (hsound : table.Sound) {stepName : String} {k : Nat}
    {step : Step σ} (hk : table.nameToIdx stepName = some k) (hstep : table.steps[k]? = some step) :
    gateOf table stepName = step.builtinGate := by
  obtain ⟨found, hfound, hname⟩ := (hsound.index_exact stepName k).mp hk
  obtain rfl := Option.some.inj (hstep.symm.trans hfound)
  unfold gateOf
  cases hfind : table.steps.find? (·.name = stepName) with
  | none =>
    have hnone := List.find?_eq_none.mp hfind step (List.mem_of_getElem? hstep)
    exact absurd hname (by simpa using hnone)
  | some first =>
    have hfirst : first.name = stepName := by simpa using List.find?_some hfind
    obtain ⟨j, hj⟩ := List.mem_iff_getElem?.mp (List.mem_of_find?_eq_some hfind)
    have hindex := (hsound.index_exact stepName j).mpr ⟨first, hj, hfirst⟩
    obtain rfl := Option.some.inj (hk.symm.trans hindex)
    rw [Option.some.inj (hstep.symm.trans hj)]
    rfl

/-- Past the check of the raw keys the overlay goes in as it is: no gate is ever consumed by a
`configure` entry that is then refused. -/
theorem configureEntry_installs {table : StrategyTable σ} (hsound : table.Sound)
    (hintact : GatesIntact table) {stepName : String} {fields : List (String × Json)} {k : Nat}
    {step : Step σ} (hk : table.nameToIdx stepName = some k) (hstep : table.steps[k]? = some step)
    (hgate : rejectGateWeakeningKeys stepName (gateOf table stepName) fields = .ok ()) :
    table.replaceWith stepName (fun inner => (overlayOf fields inner).toStep) =
      (.ok (), table.withSteps (table.steps.set k (overlayOf fields step).toStep)) := by
  rw [gateOf_eq hsound hk hstep] at hgate
  have hoverlay := overlay_gateIntact (hintact step (List.mem_of_getElem? hstep)) hgate
  have hok := (Step.rejectWeakenedGate_ok_iff _).mpr hoverlay
  unfold replaceWith findStepIndex stepAt installed
  simp only [hk, hstep, hok]

/-- The approval gate of the standard strategy is given a time limit. -/
theorem configureEntry_installs_timeout :
    let fields := [("timeout_ms", Json.number (.posInt 5000))]
    ∃ standard, buildStandardStrategy (.lax : Externals Unit) = .ok standard ∧
      (standard.replaceWith "approval_gate" fun inner => (overlayOf fields inner).toStep).1 =
        .ok () := by
  obtain ⟨standard, hstandard⟩ := buildStandardStrategy_ok (.lax : Externals Unit)
  obtain ⟨-, -, -, hsound⟩ := new_ok hstandard
  have hintact := @Preset.build_gatesIntact Unit .standard .lax _ hstandard
  obtain rfl := Except.ok.inj hstandard
  exact ⟨_, rfl,
    congrArg Prod.fst (@configureEntry_installs _ _ hsound hintact _ _ 4 _ rfl rfl rfl)⟩

/-- A section that is accepted is a sequence of mutator calls on the seed. -/
theorem buildStrategyFromSeed_edited {factories : StepFactories σ} {seed table : StrategyTable σ}
    {pipelineConfig : Json} {config : Option PipelineLimits}
    (h : buildStrategyFromSeed factories seed pipelineConfig config = .ok table) :
    Edited seed table := by
  unfold buildStrategyFromSeed at h
  obtain ⟨-, -, h⟩ := bind_eq_ok.mp h
  obtain ⟨removed, hremoved, h⟩ := bind_eq_ok.mp h
  obtain ⟨configured, hconfigured, hinserted⟩ := bind_eq_ok.mp h
  have hremove := foldlM_reflTransGen (fun _ _ _ => removeEntry_edited) hremoved
  have hconfigure := foldlM_reflTransGen (fun _ _ _ => configureEntry_edited) hconfigured
  have hinsert := foldlM_reflTransGen (fun _ _ _ => insertEntry_edited) hinserted
  exact (hremove.trans hconfigure).trans hinsert

end PipelineConfig

/-! ## The strategies of a program -/

open PipelineConfig (StepFactories PipelineLimits buildStrategyFromSeed)

/-- The strategies a program can come by. The registered step types and the limits may differ from
one build to the next. -/
inductive Reachable : StrategyTable σ → Prop
  | preset {table} (preset : Preset) (ext : Externals σ) (h : preset.build ext = .ok table) :
      Reachable table
  | new {table} (name : String) (steps : List (Step σ))
      (h : StrategyTable.new name steps = .ok table) : Reachable table
  | call {table} (call : StrategyCall σ) (h : Reachable table) : Reachable (call.leave table)
  | configured {seed table} (factories : StepFactories σ) (pipelineConfig : Json)
      (config : Option PipelineLimits) (hseed : Reachable seed)
      (h : buildStrategyFromSeed factories seed pipelineConfig config = .ok table) :
      Reachable table

/-- No strategy a program can come by holds a weakened gate. -/
theorem reachable_gatesIntact {table : StrategyTable σ} (h : Reachable table) :
    GatesIntact table := by
  induction h with
  | preset preset ext h => exact Preset.build_gatesIntact h
  | new name steps h =>
    obtain ⟨hsteps, -, hgates, -⟩ := new_ok h
    unfold GatesIntact
    rw [hsteps]
    exact hgates
  | call call _ ih => exact ih.leave call
  | configured factories pipelineConfig config _ h ih =>
    exact PipelineConfig.GatesIntact.edited (PipelineConfig.buildStrategyFromSeed_edited h) ih

/-- A wrapper that would let the access check fail open. -/
def failOpen : StrategyOp Unit :=
  .replaceWith "acl_check" fun inner => { inner with ignoreErrors := true }

/-- A section that gives the approval gate a time limit. -/
def limitedApproval : Json :=
  .object [("configure", .object [("approval_gate",
    .object [("timeout_ms", .number (.posInt 5000))])])]

/-- The standard strategy, after a refused wrapper, under a section that is accepted. -/
theorem reachable_gatesIntact_limited :
    ∃ standard table, Preset.standard.build (.lax : Externals Unit) = .ok standard ∧
      (∃ e, (failOpen.apply standard).1 = .error e) ∧
      buildStrategyFromSeed (fun _ => none) (failOpen.apply standard).2 limitedApproval none =
        .ok table ∧
      GatesIntact table :=
  ⟨_, _, rfl, ⟨_, rfl⟩, rfl,
    reachable_gatesIntact (.configured (fun _ => none) limitedApproval none
      (.call (.edit failOpen) (.preset .standard .lax rfl)) rfl)⟩

end Apcore
