import Apcore.Acl.Precheck
import Apcore.Acl.Semantics

/-! # `Acl.PrecheckReports` — the precheck foresees what the evaluator complains of

The evaluator complains of an unknown key and of an operand it cannot read, at the path of the
condition. The precheck walks the same tree under its own spelling of the paths, and lists a fault
at each of them. What a custom handler reports is its own affair: the registries are read with
silent handlers. -/

namespace Apcore

/-! ## Silent handlers -/

/-- The handler without its reports. -/
def HandlerBehaviour.silence (behaviour : HandlerBehaviour) : HandlerBehaviour where
  awaited call := { behaviour.awaited call with reports := [] }
  suspended call := (behaviour.suspended call).map fun _ => []

def ACLConditionHandler.silence : ACLConditionHandler → ACLConditionHandler
  | .custom behaviour => .custom behaviour.silence
  | handler => handler

theorem ACLConditionHandler.silence_eq_or {handler : ACLConditionHandler} {mode : CompoundMode} :
    handler.silence = .or mode ↔ handler = .or mode := by
  cases handler <;> simp [silence]

theorem ACLConditionHandler.silence_eq_not {handler : ACLConditionHandler} {mode : CompoundMode} :
    handler.silence = .not mode ↔ handler = .not mode := by
  cases handler <;> simp [silence]

/-- The registries with every handler silent: the reports that are left are the evaluator's. -/
def Registries.silence (registries : Registries) : Registries where
  condition key := (registries.condition key).map ACLConditionHandler.silence
  async key := (registries.async key).map ACLConditionHandler.silence
  condition_or key mode h := by
    obtain ⟨handler, hhandler, hsilent⟩ := Option.map_eq_some_iff.mp h
    rw [ACLConditionHandler.silence_eq_or.mp hsilent] at hhandler
    exact registries.condition_or key mode hhandler
  condition_not key mode h := by
    obtain ⟨handler, hhandler, hsilent⟩ := Option.map_eq_some_iff.mp h
    rw [ACLConditionHandler.silence_eq_not.mp hsilent] at hhandler
    exact registries.condition_not key mode hhandler
  async_or key mode h := by
    obtain ⟨handler, hhandler, hsilent⟩ := Option.map_eq_some_iff.mp h
    rw [ACLConditionHandler.silence_eq_or.mp hsilent] at hhandler
    exact registries.async_or key mode hhandler
  async_not key mode h := by
    obtain ⟨handler, hhandler, hsilent⟩ := Option.map_eq_some_iff.mp h
    rw [ACLConditionHandler.silence_eq_not.mp hsilent] at hhandler
    exact registries.async_not key mode hhandler
  async_seeded := by
    simp only [Option.isSome_map]
    exact registries.async_seeded

theorem Registries.lookup_silence (registries : Registries) (mode : CompoundMode) (key : String) :
    registries.silence.lookup mode key =
      (registries.lookup mode key).map ACLConditionHandler.silence := by
  cases mode with
  | sync => rfl
  | async => exact Option.map_or.symm

/-! ## Complaints -/

/-- The messages of the evaluator about a key without a handler and about an operand of `$or`,
`$not` or `arguments` that it cannot read. -/
def complaints : List String :=
  ["unknown ACL condition",
   "value must be a list of condition objects",
   "$or branch must be a condition object",
   "value must be a condition object",
   "value must be an object of predicates (has_key / has_all_keys / has_none_of)",
   "no predicate given; name at least one of has_key, has_all_keys, has_none_of",
   "unknown argument predicate; the vocabulary is closed (has_key, has_all_keys, has_none_of)",
   "predicate value must be a list of argument key names"]

/-- A report with one of these messages, for the path it is filed under. -/
def Complains (r : Report) : Prop := ∃ reason ∈ complaints, r = reportAt r.1 reason

/-- Each complaint among the reports is a fault at its path. -/
def Listed (faults : List RuleFault) (reports : List Report) : Prop :=
  ∀ r ∈ reports, Complains r → ∃ fault ∈ faults, fault.path = r.1

theorem listed_nil (faults : List RuleFault) : Listed faults [] := by
  intro r hr
  cases hr

theorem Listed.append {faults : List RuleFault} {first second : List Report}
    (hfirst : Listed faults first) (hsecond : Listed faults second) :
    Listed faults (first ++ second) := by
  intro r hr
  rcases List.mem_append.mp hr with hr | hr
  · exact hfirst r hr
  · exact hsecond r hr

theorem Listed.mono {faults more : List RuleFault} {reports : List Report}
    (h : Listed faults reports) (hmore : faults ⊆ more) : Listed more reports := by
  intro r hr hcomplains
  obtain ⟨fault, hfault, hpath⟩ := h r hr hcomplains
  exact ⟨fault, hmore hfault, hpath⟩

/-- A report is listed by a fault at its path. -/
theorem listed_singleton {faults : List RuleFault} {fault : RuleFault} {r : Report}
    (hfault : fault ∈ faults) (hpath : fault.path = r.1) : Listed faults [r] := by
  intro r' hr _
  obtain rfl := List.mem_singleton.mp hr
  exact ⟨fault, hfault, hpath⟩

/-- A report with another message is no complaint. -/
theorem listed_of_other {path reason : String} (h : reason ∉ complaints)
    (faults : List RuleFault) : Listed faults [reportAt path reason] := by
  intro r hr hcomplains
  obtain rfl := List.mem_singleton.mp hr
  obtain ⟨complaint, hmem, heq⟩ := hcomplains
  have hreason : reason = complaint := (String.append_right_inj _).mp (Prod.mk.inj heq).2
  exact absurd (hreason ▸ hmem) h

/-- What a handler's panic is reported as. -/
theorem panic_not_complaint (message : String) : "handler panicked: " ++ message ∉ complaints := by
  intro hmem
  have hstart : "handler p".toList <+: ("handler panicked: " ++ message).toList := by
    rw [String.toList_append]
    exact ⟨"anicked: ".toList ++ message.toList, rfl⟩
  have hnone : ∀ complaint ∈ complaints, ¬ "handler p".toList <+: complaint.toList := by decide
  exact hnone _ hmem hstart

/-! ## Two spellings of a path -/

theorem joinPath_append (pathPrefix first second : String) :
    joinPath pathPrefix (first ++ second) = joinPath pathPrefix first ++ second := by
  unfold joinPath
  split
  · rfl
  · rw [String.append_assoc, String.append_assoc, String.append_assoc]

theorem renderPath_concat (segments : List Segment) (segment : Segment) :
    renderPath (segments ++ [segment]) = conditionPath segments segment.render := by
  rw [renderPath, List.foldl_append]
  rfl

/-- The prefix the evaluator enters a branch under is the path the precheck gives it. -/
theorem renderPath_branch (segments : List Segment) (index : Nat) :
    renderPath (segments ++ [Segment.branch index]) =
      conditionPath segments "$or" ++ "[" ++ toString index ++ "]" := by
  rw [renderPath_concat, Segment.render, conditionPath, conditionPath, ← joinPath_append,
    ← joinPath_append, ← joinPath_append]
  rfl

theorem renderPath_branch_ne (segments : List Segment) (index : Nat) :
    (renderPath (segments ++ [Segment.branch index])).isEmpty = false := by
  rw [renderPath_branch, Bool.eq_false_iff, ne_eq, String.isEmpty_iff, String.append_eq_empty_iff]
  intro h
  exact absurd h.2 (by decide)

/-! ## Reports of one step -/

/-- The accumulator loop reports what its children report. -/
theorem foldOutcomes_listed {faults : List RuleFault}
    {op : ConditionOutcome → ConditionOutcome → ConditionOutcome} {children : List Evaluated}
    (h : ∀ child ∈ children, Listed faults child.reports) (acc : ConditionOutcome) :
    Listed faults (foldOutcomes op acc children).reports := by
  induction children generalizing acc with
  | nil => exact listed_nil faults
  | cons child rest ih =>
    obtain ⟨hchild, hrest⟩ := List.forall_mem_cons.mp h
    rw [foldOutcomes]
    split
    · exact hchild
    · exact hchild.append (ih hrest _)

theorem evaluateInvocations_listed {faults : List RuleFault} {scope : EvalScope}
    {mode : CompoundMode} {segments : List Segment} {entries : List (String × Option Invocation)}
    (h : ∀ entry ∈ entries, Listed faults (settle mode segments entry).reports) :
    Listed faults (evaluateInvocations scope mode segments entries).reports := by
  have hperm := scope.order.perm scope.rule segments entries
  refine foldOutcomes_listed (fun child hchild => ?_) .satisfied
  obtain ⟨entry, hentry, rfl⟩ := List.mem_map.mp hchild
  exact h entry (hperm.mem_iff.mp hentry)

/-- Settling an invocation adds no complaint to what it reported itself. -/
theorem settle_done_listed {faults : List RuleFault} {mode : CompoundMode} {segments : List Segment}
    {key : String} {run : HandlerRun} (h : Listed faults run.reports) :
    Listed faults (settle mode segments (key, some (.done run))).reports := by
  have hpanic : ∀ message, Listed faults
      (run.reports ++ [report segments key ("handler panicked: " ++ message)]) := fun message =>
    h.append (listed_of_other (panic_not_complaint message) faults)
  obtain ⟨reports, outcome | message | message⟩ := run
  · cases mode <;> exact h
  · cases mode with
    | sync => exact hpanic message
    | async => exact h
  · cases mode <;> exact hpanic message

/-- A silent handler of the application leaves only what settling it adds. -/
theorem settle_silence_listed (faults : List RuleFault) (mode : CompoundMode)
    (segments : List Segment) (key : String) (behaviour : HandlerBehaviour) (call : HandlerCall) :
    Listed faults
      (settle mode segments (key, some (behaviour.silence.invoke mode call))).reports := by
  have hdone : Listed faults
      (settle mode segments (key, some (.done (behaviour.silence.awaited call)))).reports :=
    settle_done_listed (listed_nil faults)
  have hpending : Listed faults (settle mode segments (key, some (.pending []))).reports :=
    listed_of_other (by decide) faults
  unfold HandlerBehaviour.invoke
  split
  · next reports _ hsuspended =>
    obtain ⟨_, _, rfl⟩ := Option.map_eq_some_iff.mp hsuspended
    exact hpending
  · next reports _ hsuspended =>
    obtain ⟨_, _, rfl⟩ := Option.map_eq_some_iff.mp hsuspended
    exact hpending
  · exact hdone

/-- Each predicate that is complained of is a fault of the operand. -/
theorem argumentsDecideOne_listed (segments : List Segment)
    (projection : Option GovernanceProjection) (predicate : String) (operand : Json) :
    Listed (argumentFault (conditionPath segments "arguments") predicate operand)
      (argumentsDecideOne segments projection predicate operand).1 := by
  have hpath : conditionPath segments "arguments" ++ "." ++ predicate =
      conditionPath segments ("arguments." ++ predicate) := by
    rw [conditionPath, conditionPath, ← joinPath_append, ← joinPath_append]
    rfl
  unfold argumentFault argumentsDecideOne
  dsimp only
  rw [hpath]
  split
  · exact listed_singleton List.mem_cons_self rfl
  · cases keyNames operand with
    | none => exact listed_singleton List.mem_cons_self rfl
    | some names =>
      cases projection with
      | none => exact listed_of_other (by decide) _
      | some projection => exact listed_nil _

theorem argumentsDecide_listed (segments : List Segment) (projection : Option GovernanceProjection)
    (value : Json) :
    Listed (collectArgumentFaults value (conditionPath segments "arguments"))
      (argumentsDecide segments projection value).1 := by
  -- the loop over the predicates, from any accumulator whose reports are listed
  have hloop : ∀ (faults : List RuleFault) (predicates : List (String × Json))
      (acc : List Report × ConditionOutcome), Listed faults acc.1 →
      (∀ entry ∈ predicates,
        argumentFault (conditionPath segments "arguments") entry.1 entry.2 ⊆ faults) →
      Listed faults (predicates.foldl (fun acc entry =>
        let one := argumentsDecideOne segments projection entry.1 entry.2
        (acc.1 ++ one.1, acc.2.and one.2)) acc).1 := by
    intro faults predicates
    induction predicates with
    | nil => exact fun acc hacc _ => hacc
    | cons entry rest ih =>
      intro acc hacc hsub
      obtain ⟨hentry, hrest⟩ := List.forall_mem_cons.mp hsub
      have hone := (argumentsDecideOne_listed segments projection entry.1 entry.2).mono hentry
      exact ih _ (hacc.append hone) hrest
  cases value with
  | object predicates =>
    cases predicates with
    | nil => exact listed_singleton List.mem_cons_self rfl
    | cons first rest =>
      refine hloop _ (first :: rest) ([], .satisfied) (listed_nil _) fun entry hentry => ?_
      exact fun fault hfault => List.mem_flatMap.mpr ⟨entry, hentry, hfault⟩
  | _ => exact listed_singleton List.mem_cons_self rfl

/-! ## Reports of a tree of conditions -/

section Walk

variable {registries : Registries} {scope : EvalScope} {mode : CompoundMode}

/-- A key that is no operator has its operand checked for shape only. -/
theorem collectOperandFaults_leaf {resolvable : String → Bool} {key : String}
    (hor : key ≠ "$or") (hnot : key ≠ "$not") (keyPath : String) (value : Json) :
    collectOperandFaults registries resolvable key keyPath value =
      operandShapeFaults key keyPath value := by
  cases value <;> simp [collectOperandFaults, hor, hnot]

theorem lookup_or_key {key : String} {inner : CompoundMode}
    (h : registries.lookup mode key = some (.or inner)) : key = "$or" := by
  cases mode with
  | sync => exact (registries.condition_or key inner h).1
  | async =>
    rcases Option.or_eq_some_iff.mp h with h | ⟨_, h⟩
    · exact (registries.async_or key inner h).1
    · exact (registries.condition_or key inner h).1

theorem lookup_not_key {key : String} {inner : CompoundMode}
    (h : registries.lookup mode key = some (.not inner)) : key = "$not" := by
  cases mode with
  | sync => exact (registries.condition_not key inner h).1
  | async =>
    rcases Option.or_eq_some_iff.mp h with h | ⟨_, h⟩
    · exact (registries.async_not key inner h).1
    · exact (registries.condition_not key inner h).1

/-- `ArgumentsHandler` stands under its own key only. -/
def Registries.ArgumentsInPlace (registries : Registries) : Prop :=
  ∀ mode key, registries.lookup mode key = some .arguments → key = "arguments"

/-- An operand its handler does not recurse into. -/
theorem settle_leaf_listed (hplace : registries.ArgumentsInPlace) {key : String}
    {handler : ACLConditionHandler} (hlookup : registries.lookup mode key = some handler)
    (hleaf : handler.compound? = none) (resolvable : String → Bool) (segments : List Segment)
    (value : Json) :
    Listed (collectOperandFaults registries resolvable key (conditionPath segments key) value)
      (settle mode segments
        (key, some (evaluateOutcome scope mode segments handler.silence value))).reports := by
  have hquiet : ∀ outcome, Listed
      (collectOperandFaults registries resolvable key (conditionPath segments key) value)
      (settle mode segments (key, some (.done { reports := [], ending := .ready outcome }))).reports :=
    fun outcome => settle_done_listed (listed_nil _)
  cases handler with
  | or inner => cases hleaf
  | not inner => cases hleaf
  | identityTypes => simpa only [ACLConditionHandler.silence, evaluateOutcome] using hquiet _
  | roles => simpa only [ACLConditionHandler.silence, evaluateOutcome] using hquiet _
  | maxCallDepth => simpa only [ACLConditionHandler.silence, evaluateOutcome] using hquiet _
  | custom behaviour =>
    simp only [ACLConditionHandler.silence, evaluateOutcome]
    exact settle_silence_listed _ mode segments key behaviour _
  | arguments =>
    obtain rfl := hplace mode key hlookup
    rw [collectOperandFaults_leaf (by decide) (by decide), operandShapeFaults,
      if_neg (by decide), if_neg (by decide), if_pos rfl]
    simp only [ACLConditionHandler.silence, evaluateOutcome]
    exact settle_done_listed (argumentsDecide_listed segments scope.projection value)

/-- An operator whose operand has the wrong shape complains at its own path, where the precheck
lists it. -/
theorem settle_shape_listed {segments : List Segment} {key reason : String} {value : Json}
    (hkey : key = "$or" ∨ key = "$not") :
    Listed (operandShapeFaults key (conditionPath segments key) value)
      (settle mode segments (key, some (.done
        { reports := [report segments key reason], ending := .ready .unevaluable }))).reports := by
  refine settle_done_listed ?_
  rcases hkey with rfl | rfl
  · exact listed_singleton List.mem_cons_self rfl
  · exact listed_singleton List.mem_cons_self rfl

/-- The future of an operator reports what the conditions under it do. -/
theorem settle_toRun_listed {faults : List RuleFault} {segments : List Segment} {key : String}
    {e : Evaluated} (h : Listed faults e.reports) :
    Listed faults (settle mode segments (key, some (.done e.toRun))).reports :=
  settle_done_listed h

mutual

/-- What evaluating the conditions of an object complains of, key by key. -/
theorem invokeEntries_listed (hsilent : scope.registries = registries.silence)
    (hplace : registries.ArgumentsInPlace) (segments : List Segment) :
    ∀ fields : List (String × Json), ∀ entry ∈ invokeEntries scope mode segments fields,
      Listed (collectFieldFaults registries (registries.isResolvable mode) (renderPath segments)
        fields) (settle mode segments entry).reports
  | [] => by
    intro entry hentry
    rw [invokeEntries] at hentry
    cases hentry
  | field :: rest => by
    intro entry hentry
    rw [invokeEntries] at hentry
    rw [collectFieldFaults]
    rcases List.mem_cons.mp hentry with rfl | hentry
    · exact (invokeEntry_listed hsilent hplace segments field).mono (List.subset_append_left _ _)
    · exact (invokeEntries_listed hsilent hplace segments rest entry hentry).mono
        (List.subset_append_right _ _)

/-- One key: without a handler it is complained of, and listed, itself. -/
theorem invokeEntry_listed (hsilent : scope.registries = registries.silence)
    (hplace : registries.ArgumentsInPlace) (segments : List Segment) :
    ∀ field : String × Json,
      Listed (collectFieldFault registries (registries.isResolvable mode) (renderPath segments)
        field) (settle mode segments (invokeEntry scope mode segments field)).reports
  | (key, value) => by
    rw [invokeEntry, collectFieldFault, hsilent, Registries.lookup_silence]
    cases hlookup : registries.lookup mode key with
    | none =>
      have hunresolved : registries.isResolvable mode key = false := by
        rw [Registries.isResolvable_eq, hlookup, Option.isSome_none]
      rw [if_pos (by rw [hunresolved]; rfl)]
      exact listed_singleton List.mem_cons_self rfl
    | some handler =>
      have hresolved : registries.isResolvable mode key = true := by
        rw [Registries.isResolvable_eq, hlookup, Option.isSome_some]
      rw [if_neg (by rw [hresolved]; exact Bool.false_ne_true)]
      exact evaluateOutcome_listed hsilent hplace segments key handler hlookup value

/-- One operand, under the handler its key resolves to. -/
theorem evaluateOutcome_listed (hsilent : scope.registries = registries.silence)
    (hplace : registries.ArgumentsInPlace) (segments : List Segment) (key : String)
    (handler : ACLConditionHandler) (hlookup : registries.lookup mode key = some handler) :
    ∀ value : Json,
      Listed (collectOperandFaults registries (registries.isResolvable mode) key
        (conditionPath segments key) value)
        (settle mode segments
          (key, some (evaluateOutcome scope mode segments handler.silence value))).reports
  | .array subs => by
    cases handler with
    | or inner =>
      obtain rfl := lookup_or_key hlookup
      rw [ACLConditionHandler.silence, Registries.lookup_or hlookup, evaluateOutcome,
        collectOperandFaults, if_pos rfl]
      · refine settle_toRun_listed (foldOutcomes_listed ?_ .unsatisfied)
        exact evaluateBranches_listed hsilent hplace segments 0 subs
      all_goals simp
    | not inner =>
      obtain rfl := lookup_not_key hlookup
      rw [ACLConditionHandler.silence, evaluateOutcome, collectOperandFaults, if_neg (by decide)]
      · exact settle_shape_listed (.inr rfl)
      all_goals simp
    | _ => exact settle_leaf_listed hplace hlookup rfl _ segments _
  | .object fields => by
    cases handler with
    | or inner =>
      obtain rfl := lookup_or_key hlookup
      rw [ACLConditionHandler.silence, evaluateOutcome, collectOperandFaults, if_neg (by decide)]
      · exact settle_shape_listed (.inl rfl)
      all_goals simp
    | not inner =>
      obtain rfl := lookup_not_key hlookup
      rw [ACLConditionHandler.silence, Registries.lookup_not hlookup, evaluateOutcome,
        collectOperandFaults, if_pos rfl]
      · refine settle_toRun_listed (evaluateInvocations_listed ?_)
        have hfields := invokeEntries_listed hsilent hplace (segments ++ [.negated]) fields
        rwa [renderPath_concat] at hfields
      all_goals simp
    | _ => exact settle_leaf_listed hplace hlookup rfl _ segments _
  | .null | .bool _ | .number _ | .string _ => by
    cases handler with
    | or inner =>
      obtain rfl := lookup_or_key hlookup
      simp only [ACLConditionHandler.silence, evaluateOutcome, collectOperandFaults]
      exact settle_shape_listed (.inl rfl)
    | not inner =>
      obtain rfl := lookup_not_key hlookup
      simp only [ACLConditionHandler.silence, evaluateOutcome, collectOperandFaults]
      exact settle_shape_listed (.inr rfl)
    | _ => exact settle_leaf_listed hplace hlookup rfl _ segments _

/-- The branches of a `$or`, whose prefix the precheck writes out at once. -/
theorem evaluateBranches_listed (hsilent : scope.registries = registries.silence)
    (hplace : registries.ArgumentsInPlace) (segments : List Segment) :
    ∀ (index : Nat) (subs : List Json), ∀ child ∈ evaluateBranches scope mode segments index subs,
      Listed (collectBranchFaults registries (registries.isResolvable mode)
        (conditionPath segments "$or") index subs) child.reports
  | _, [] => by
    intro child hchild
    rw [evaluateBranches] at hchild
    cases hchild
  | index, sub :: rest => by
    intro child hchild
    rw [evaluateBranches] at hchild
    rw [collectBranchFaults, ← renderPath_branch]
    rcases List.mem_cons.mp hchild with rfl | hchild
    · exact (evaluateBranch_listed hsilent hplace segments index sub).mono
        (List.subset_append_left _ _)
    · exact (evaluateBranches_listed hsilent hplace segments (index + 1) rest child hchild).mono
        (List.subset_append_right _ _)

/-- One branch: what is no object is complained of at the branch itself. -/
theorem evaluateBranch_listed (hsilent : scope.registries = registries.silence)
    (hplace : registries.ArgumentsInPlace) (segments : List Segment) (index : Nat) :
    ∀ sub : Json,
      Listed (collectConditionFaults registries (registries.isResolvable mode)
        (renderPath (segments ++ [.branch index])) sub)
        (evaluateBranch scope mode (segments ++ [.branch index]) sub).reports
  | .object fields => by
    rw [evaluateBranch, collectConditionFaults]
    exact evaluateInvocations_listed (invokeEntries_listed hsilent hplace _ fields)
  | .null | .bool _ | .number _ | .string _ | .array _ => by
    simp only [evaluateBranch, collectConditionFaults, renderPath_branch_ne]
    exact listed_singleton List.mem_cons_self rfl

end

end Walk

/-! ## The precheck against the evaluator -/

/-- The evaluation in which only the evaluator reports. -/
def EvalScope.silence (scope : EvalScope) : EvalScope :=
  { scope with registries := scope.registries.silence }

/-- **The precheck agrees with the evaluator**: what it passes is never complained of, and each
complaint of the evaluator is a fault it lists at the same path. -/
theorem complaints_prechecked (scope : EvalScope) (hplace : scope.registries.ArgumentsInPlace)
    (mode : CompoundMode) (fields : List (String × Json)) :
    (precheckConditions scope.registries mode (.object fields) = [] →
      ∀ r ∈ (evaluateConditions scope.silence mode [] fields).reports, ¬ Complains r) ∧
    Listed (precheckConditions scope.registries mode (.object fields))
      (evaluateConditions scope.silence mode [] fields).reports := by
  have hlisted : Listed (precheckConditions scope.registries mode (.object fields))
      (evaluateConditions scope.silence mode [] fields).reports := by
    have hfields : Listed
        (collectFieldFaults scope.registries (scope.registries.isResolvable mode) "" fields)
        (evaluateConditions scope.silence mode [] fields).reports := by
      have hsilent : scope.silence.registries = scope.registries.silence := rfl
      exact evaluateInvocations_listed (invokeEntries_listed hsilent hplace [] fields)
    refine hfields.mono fun fault hfault => ?_
    rw [precheckConditions, collectConditionFaults]
    exact (List.perm_insertionSort _ _).mem_iff.mpr hfault
  refine ⟨fun hnil r hr hcomplains => ?_, hlisted⟩
  obtain ⟨fault, hfault, _⟩ := hlisted r hr hcomplains
  rw [hnil] at hfault
  cases hfault

theorem builtinHandler_arguments {mode : CompoundMode} {key : String}
    (h : builtinHandler mode key = some .arguments) : key = "arguments" := by
  unfold builtinHandler at h
  split_ifs at h
  all_goals first | assumption | cases h

theorem argumentsInPlace_builtin : Registries.builtin.ArgumentsInPlace := by
  intro mode key h
  cases mode with
  | sync => exact builtinHandler_arguments h
  | async =>
    rcases Option.or_eq_some_iff.mp h with h | ⟨_, h⟩
    · exact builtinHandler_arguments h
    · exact builtinHandler_arguments h

/-- The built-in registries, on a `$or` with a branch that is no object. -/
theorem complaints_prechecked_builtin :
    let scope : EvalScope := { registries := .builtin, order := .textual, rule := 0
                               ctx := .anonymous "trace" 0, projection := none }
    let fields := [("$or", Json.array [.null])]
    (precheckConditions scope.registries .sync (.object fields) = [] →
      ∀ r ∈ (evaluateConditions scope.silence .sync [] fields).reports, ¬ Complains r) ∧
    Listed (precheckConditions scope.registries .sync (.object fields))
      (evaluateConditions scope.silence .sync [] fields).reports :=
  complaints_prechecked _ argumentsInPlace_builtin _ _

/-- `register_condition(key, Arc::new(ArgumentsHandler))`. -/
def Registries.registerArguments (registries : Registries) (key : String) : Registries where
  condition := Function.update registries.condition key (some .arguments)
  async := registries.async
  condition_or other mode h := by
    rw [Function.update_apply] at h
    split at h
    · cases h
    · exact registries.condition_or other mode h
  condition_not other mode h := by
    rw [Function.update_apply] at h
    split at h
    · cases h
    · exact registries.condition_not other mode h
  async_or := registries.async_or
  async_not := registries.async_not
  async_seeded := registries.async_seeded

/-- Registered under another key, `ArgumentsHandler` reads operands the precheck leaves to it. -/
theorem not_complaints_prechecked :
    ¬ ∀ (scope : EvalScope) (mode : CompoundMode) (fields : List (String × Json)),
      precheckConditions scope.registries mode (.object fields) = [] →
        ∀ r ∈ (evaluateConditions scope.silence mode [] fields).reports, ¬ Complains r := by
  intro h
  have hnone := h { registries := Registries.builtin.registerArguments "args", order := .textual
                    rule := 0, ctx := .anonymous "trace" 0, projection := none } .sync
    [("args", .null)] rfl
  refine hnone (reportAt "arguments"
    "value must be an object of predicates (has_key / has_all_keys / has_none_of)") ?_ ?_
  · exact List.mem_singleton.mpr rfl
  · exact ⟨_, by decide, rfl⟩

end Apcore
