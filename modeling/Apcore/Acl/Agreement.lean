import Apcore.Acl.Reference

/-! # `Acl.Agreement` — when the sync and the async check agree

Over handlers that answer the same on both paths, the two evaluators make the same reports and give
the same answers, on every nesting, as long as no handler panics while its future is being
constructed: the async evaluator catches the panics of the poll only, so such a panic unwinds out of
it, up to the next enclosing compound handler or out of the check. -/

namespace Apcore

variable {registries : Registries}

/-- What a key resolves to on the two paths answers the same: the same built-in, the compound
operator of each path, or handlers that are ready on the first poll with the run the other path
awaits. -/
inductive HandlersAgree : Option ACLConditionHandler → Option ACLConditionHandler → Prop where
  | unresolved : HandlersAgree none none
  | identityTypes : HandlersAgree (some .identityTypes) (some .identityTypes)
  | roles : HandlersAgree (some .roles) (some .roles)
  | maxCallDepth : HandlersAgree (some .maxCallDepth) (some .maxCallDepth)
  | arguments : HandlersAgree (some .arguments) (some .arguments)
  | or (m m' : CompoundMode) : HandlersAgree (some (.or m)) (some (.or m'))
  | not (m m' : CompoundMode) : HandlersAgree (some (.not m)) (some (.not m'))
  | custom (b b' : HandlerBehaviour) (h : ∀ call, b.invoke .sync call = .done (b'.awaited call)) :
    HandlersAgree (some (.custom b)) (some (.custom b'))

/-- Every condition key resolves to handlers that answer the same on the two paths. -/
def Registries.PathsAgree (registries : Registries) : Prop :=
  ∀ key, HandlersAgree (registries.lookup .sync key) (registries.lookup .async key)

/-- The operand of a key that the precheck lets through. -/
def PassesPrecheck (registries : Registries) (entry : String × Json) : Prop :=
  collectFieldFault registries (registries.isResolvable .async) "" entry = []

/-- No handler panics while its future is being constructed, on an operand that passes the precheck,
for this context and projection. -/
def Registries.ConstructsFutures (registries : Registries) (ctx : Context)
    (projection : Option GovernanceProjection) : Prop :=
  ∀ key behaviour value rule segments message,
    registries.lookup .async key = some (.custom behaviour) → PassesPrecheck registries (key, value) →
      (behaviour.awaited { rule, segments, value, ctx, projection }).ending ≠
        .constructPanic message

/-- How an application's handler ends depends on what it is asked, not on where. -/
def Registries.Stateless (registries : Registries) : Prop :=
  ∀ key behaviour (call call' : HandlerCall),
    registries.lookup .async key = some (.custom behaviour) →
    call.value = call'.value → call.ctx = call'.ctx → call.projection = call'.projection →
      (behaviour.awaited call).ending = (behaviour.awaited call').ending

theorem HandlersAgree.isSome_eq {h h' : Option ACLConditionHandler} (hagree : HandlersAgree h h') :
    h.isSome = h'.isSome := by
  cases hagree <;> rfl

/-- Agreeing registries resolve the same keys. -/
theorem Registries.PathsAgree.isResolvable (hagree : registries.PathsAgree) :
    registries.isResolvable .sync = registries.isResolvable .async := by
  funext key
  rw [Registries.isResolvable_eq, Registries.isResolvable_eq, (hagree key).isSome_eq]

/-! ## One evaluation -/

/-- Not an invocation whose construction panicked. -/
def Constructed (invocation : Option Invocation) : Prop :=
  ∀ reports message, invocation ≠ some (.done { reports, ending := .constructPanic message })

/-- The evaluators settle an invocation that was constructed in the same way. -/
theorem settle_mode_eq {segments : List Segment} {key : String} {invocation : Option Invocation}
    (h : Constructed invocation) :
    settle .sync segments (key, invocation) = settle .async segments (key, invocation) := by
  rcases invocation with _ | ⟨⟨reports, outcome | message | message⟩⟩ | reports
  · rfl
  · rfl
  · exact absurd rfl (h reports message)
  · rfl
  · rfl

/-- A compound handler's invocation is constructed. -/
theorem constructed_toRun (e : Evaluated) : Constructed (some (.done e.toRun)) := by
  intro reports message h
  simp only [Evaluated.toRun, Option.some.injEq, Invocation.done.injEq, HandlerRun.mk.injEq] at h
  cases e with
  | mk reports result => cases result <;> cases h.2

theorem constructed_ready (reports : List Report) (outcome : ConditionOutcome) :
    Constructed (some (.done { reports, ending := .ready outcome })) := by
  intro reports' message h
  cases h

/-- The evaluators agree on an object whose entries they invoke alike. -/
theorem evaluateInvocations_mode_eq {scope : EvalScope} {segments : List Segment}
    {entries : List (String × Option Invocation)} (h : ∀ entry ∈ entries, Constructed entry.2) :
    evaluateInvocations scope .sync segments entries =
      evaluateInvocations scope .async segments entries := by
  rw [evaluateInvocations, evaluateInvocations]
  refine congrArg _ (List.map_congr_left fun entry hentry => ?_)
  exact settle_mode_eq (h entry ((scope.order.perm _ _ _).mem_iff.mp hentry))

/-- The invocation of a compound handler is constructed, whatever is below it. -/
theorem constructed_compound {scope : EvalScope} {mode : CompoundMode} {segments : List Segment}
    {handler : ACLConditionHandler} {value : Json} (h : handler.compound? ≠ none) :
    Constructed (some (evaluateOutcome scope mode segments handler value)) := by
  cases handler with
  | or inner =>
    cases value <;> simp only [evaluateOutcome] <;>
      first | exact constructed_ready _ _ | exact constructed_toRun _
  | not inner =>
    cases value <;> simp only [evaluateOutcome] <;>
      first | exact constructed_ready _ _ | exact constructed_toRun _
  | _ => exact absurd rfl h

/-- The leaf case: handlers that answer the same are invoked alike. -/
theorem invokeEntry_leaf_mode_eq {scope : EvalScope}
    (hagree : scope.registries.PathsAgree)
    (hconstructs : scope.registries.ConstructsFutures scope.ctx scope.projection)
    {segments : List Segment} {key : String} {value : Json}
    (hpass : PassesPrecheck scope.registries (key, value))
    (hleaf : scope.registries.compound .async key = none) :
    invokeEntry scope .sync segments (key, value) = invokeEntry scope .async segments (key, value) ∧
      Constructed (invokeEntry scope .async segments (key, value)).2 := by
  rw [invokeEntry, invokeEntry]
  have hpair := hagree key
  rw [Registries.compound] at hleaf
  cases hasync : scope.registries.lookup .async key with
  | none =>
    rw [hasync] at hpair
    cases hsync : scope.registries.lookup .sync key with
    | none => exact ⟨rfl, by intro _ _ h; cases h⟩
    | some handler => rw [hsync] at hpair; cases hpair
  | some handler' =>
    rw [hasync] at hpair hleaf
    cases hsync : scope.registries.lookup .sync key with
    | none => rw [hsync] at hpair; cases hpair
    | some handler =>
      rw [hsync] at hpair
      cases hpair with
      | or m m' => cases hleaf
      | not m m' => cases hleaf
      | custom b b' h =>
        simp only [Option.map_some, evaluateOutcome, h]
        refine ⟨rfl, fun reports message heq => ?_⟩
        simp only [HandlerBehaviour.invoke, Option.some.injEq, Invocation.done.injEq] at heq
        exact hconstructs key b' value _ _ message hasync hpass (by rw [heq])
      | _ =>
        simp only [Option.map_some, evaluateOutcome, true_and]
        exact constructed_ready _ _

mutual

theorem invokeEntry_mode_eq {scope : EvalScope} (hagree : scope.registries.PathsAgree)
    (hconstructs : scope.registries.ConstructsFutures scope.ctx scope.projection)
    (pathPrefix : String) (segments : List Segment) : ∀ entry : String × Json,
      collectFieldFault scope.registries (scope.registries.isResolvable .async) pathPrefix entry
          = [] →
        invokeEntry scope .sync segments entry = invokeEntry scope .async segments entry ∧
          Constructed (invokeEntry scope .async segments entry).2
  | (key, value) => by
    intro hpass
    cases hcompound : scope.registries.compound .async key with
    | none =>
      exact invokeEntry_leaf_mode_eq hagree hconstructs
        (collectFieldFault_nil_of_nil (fun _ h => h) pathPrefix "" _ hpass) hcompound
    | some c =>
      have hasync := Registries.lookup_of_compound hcompound
      rw [collectFieldFault, Registries.isResolvable_eq, hasync] at hpass
      obtain ⟨hor, hnot⟩ :=
        evaluateOperand_mode_eq hagree hconstructs key (joinPath pathPrefix key) segments value hpass
      have hpair := hagree key
      rw [invokeEntry, invokeEntry]
      rw [hasync] at hpair
      cases hsync : scope.registries.lookup .sync key with
      | none => rw [hsync] at hpair; cases c <;> cases hpair
      | some handler =>
        rw [hsync] at hpair
        rw [hasync]
        cases c with
        | or =>
          cases hpair
          obtain rfl := Registries.lookup_or hsync
          rw [Option.map_some, Option.map_some, hor (scope.registries.condition_or key _ hsync).1]
          exact ⟨rfl, constructed_compound (by simp [ACLConditionHandler.compound?])⟩
        | not =>
          cases hpair
          obtain rfl := Registries.lookup_not hsync
          rw [Option.map_some, Option.map_some, hnot (scope.registries.condition_not key _ hsync).1]
          exact ⟨rfl, constructed_compound (by simp [ACLConditionHandler.compound?])⟩

/-- The compound handlers of the two paths answer the same on an operand that passes. -/
theorem evaluateOperand_mode_eq {scope : EvalScope} (hagree : scope.registries.PathsAgree)
    (hconstructs : scope.registries.ConstructsFutures scope.ctx scope.projection)
    (key keyPath : String) (segments : List Segment) : ∀ value : Json,
      collectOperandFaults scope.registries (scope.registries.isResolvable .async) key keyPath value
          = [] →
        (key = "$or" → evaluateOutcome scope .sync segments (.or .sync) value =
          evaluateOutcome scope .async segments (.or .async) value) ∧
        (key = "$not" → evaluateOutcome scope .sync segments (.not .sync) value =
          evaluateOutcome scope .async segments (.not .async) value)
  | .array subs => by
    intro hpass
    refine ⟨fun hkey => ?_, fun _ => by simp only [evaluateOutcome]⟩
    rw [collectOperandFaults, if_pos hkey] at hpass
    rw [evaluateOutcome, evaluateOutcome,
      evaluateBranches_mode_eq hagree hconstructs keyPath segments 0 subs hpass]
  | .object fields => by
    intro hpass
    refine ⟨fun _ => by simp only [evaluateOutcome], fun hkey => ?_⟩
    rw [collectOperandFaults, if_pos hkey] at hpass
    obtain ⟨hsame, hconstructed⟩ :=
      invokeEntries_mode_eq hagree hconstructs keyPath (segments ++ [.negated]) fields hpass
    rw [evaluateOutcome, evaluateOutcome, hsame, evaluateInvocations_mode_eq hconstructed]
  | .null | .bool _ | .number _ | .string _ => fun _ =>
    ⟨fun _ => by simp only [evaluateOutcome], fun _ => by simp only [evaluateOutcome]⟩

theorem invokeEntries_mode_eq {scope : EvalScope} (hagree : scope.registries.PathsAgree)
    (hconstructs : scope.registries.ConstructsFutures scope.ctx scope.projection)
    (pathPrefix : String) (segments : List Segment) : ∀ fields : List (String × Json),
      collectFieldFaults scope.registries (scope.registries.isResolvable .async) pathPrefix fields
          = [] →
        invokeEntries scope .sync segments fields = invokeEntries scope .async segments fields ∧
          ∀ entry ∈ invokeEntries scope .async segments fields, Constructed entry.2
  | [] => fun _ => ⟨rfl, by simp [invokeEntries]⟩
  | entry :: rest => by
    intro hpass
    rw [collectFieldFaults, List.append_eq_nil_iff] at hpass
    obtain ⟨hsame, hok⟩ :=
      invokeEntry_mode_eq hagree hconstructs pathPrefix segments entry hpass.1
    obtain ⟨hsames, hoks⟩ :=
      invokeEntries_mode_eq hagree hconstructs pathPrefix segments rest hpass.2
    rw [invokeEntries, invokeEntries, hsame, hsames]
    exact ⟨rfl, List.forall_mem_cons.mpr ⟨hok, hoks⟩⟩

theorem evaluateBranches_mode_eq {scope : EvalScope} (hagree : scope.registries.PathsAgree)
    (hconstructs : scope.registries.ConstructsFutures scope.ctx scope.projection)
    (keyPath : String) (segments : List Segment) : ∀ (index : Nat) (subs : List Json),
      collectBranchFaults scope.registries (scope.registries.isResolvable .async) keyPath index subs
          = [] →
        evaluateBranches scope .sync segments index subs =
          evaluateBranches scope .async segments index subs
  | _, [] => fun _ => rfl
  | index, sub :: rest => by
    intro hpass
    rw [collectBranchFaults, List.append_eq_nil_iff] at hpass
    rw [evaluateBranches, evaluateBranches,
      evaluateBranch_mode_eq hagree hconstructs _ (segments ++ [Segment.branch index]) sub hpass.1,
      evaluateBranches_mode_eq hagree hconstructs keyPath segments (index + 1) rest hpass.2]

theorem evaluateBranch_mode_eq {scope : EvalScope} (hagree : scope.registries.PathsAgree)
    (hconstructs : scope.registries.ConstructsFutures scope.ctx scope.projection)
    (pathPrefix : String) (segments : List Segment) : ∀ sub : Json,
      collectConditionFaults scope.registries (scope.registries.isResolvable .async) pathPrefix sub
          = [] →
        evaluateBranch scope .sync segments sub = evaluateBranch scope .async segments sub
  | .object fields => by
    intro hpass
    rw [collectConditionFaults] at hpass
    obtain ⟨hsame, hconstructed⟩ :=
      invokeEntries_mode_eq hagree hconstructs pathPrefix segments fields hpass
    rw [evaluateBranch, evaluateBranch, hsame, evaluateInvocations_mode_eq hconstructed]
  | .null | .bool _ | .number _ | .string _ | .array _ => fun _ => rfl

end

/-! ## One check -/

/-- The precheck finds the same faults on the two paths. -/
theorem precheckConditions_mode_eq (hagree : registries.PathsAgree) (conditions : Json) :
    precheckConditions registries .sync conditions =
      precheckConditions registries .async conditions := by
  rw [precheckConditions, precheckConditions, hagree.isResolvable]

variable {env : CheckEnv} {request : AccessRequest}

theorem checkConditionsIn_mode_eq (hagree : env.registries.PathsAgree)
    (hconstructs : ∀ ctx, request.ctx = some ctx →
      env.registries.ConstructsFutures ctx request.projection) (index : Nat) (conditions : Json) :
    checkConditionsIn .sync env request index conditions =
      checkConditionsIn .async env request index conditions := by
  unfold checkConditionsIn
  rw [precheckConditions_mode_eq hagree]
  simp only
  split
  · rfl
  · next hfaults =>
    cases hctx : request.ctx with
    | none => rfl
    | some ctx =>
      cases conditions with
      | object fields =>
        have hpass : collectFieldFaults env.registries (env.registries.isResolvable .async) ""
            fields = [] := by
          simpa [precheckConditions_eq_nil, collectConditionFaults] using hfaults
        obtain ⟨hsame, hconstructed⟩ := invokeEntries_mode_eq
          (show (env.scope request index ctx).registries.PathsAgree from hagree)
          (hconstructs ctx hctx) "" [] fields hpass
        simp only [evaluateConditions]
        rw [hsame, evaluateInvocations_mode_eq hconstructed]
      | _ => rfl

theorem matchesRuleIn_mode_eq (hagree : env.registries.PathsAgree)
    (hconstructs : ∀ ctx, request.ctx = some ctx →
      env.registries.ConstructsFutures ctx request.projection) (index : Nat) (rule : ACLRule) :
    matchesRuleIn .sync env request index rule = matchesRuleIn .async env request index rule := by
  unfold matchesRuleIn
  cases rule.conditions with
  | none => rfl
  | some conditions => simp only [checkConditionsIn_mode_eq hagree hconstructs index conditions]

theorem scanRules_mode_eq (hagree : env.registries.PathsAgree)
    (hconstructs : ∀ ctx, request.ctx = some ctx →
      env.registries.ConstructsFutures ctx request.projection) (defaultEffect : String)
    (index : Nat) (reports : List Report) (pending : Bool) (rules : List ACLRule) :
    scanRules .sync env request defaultEffect index reports pending rules =
      scanRules .async env request defaultEffect index reports pending rules := by
  induction rules generalizing index reports pending with
  | nil => rfl
  | cons rule rest ih =>
    simp only [scanRules, matchesRuleIn_mode_eq hagree hconstructs index rule, ih]

/-- **The two checks agree**, reports, audit and decision, when every future is constructed. -/
theorem checkAccess_eq_async (acl : ACL) (hagree : env.registries.PathsAgree)
    (hconstructs : ∀ ctx, request.ctx = some ctx →
      env.registries.ConstructsFutures ctx request.projection) :
    acl.checkAccess env request = acl.asyncCheckAccess env request := by
  unfold ACL.checkAccess ACL.asyncCheckAccess ACL.checkInnerIn
  rw [scanRules_mode_eq hagree hconstructs]

/-! ## The converse -/

/-- One rule that allows every call on which a condition holds. -/
def allowWhen (key : String) (value : Json) : ACLRule where
  callers := ["*"]
  targets := ["*"]
  effect := "allow"
  approval := none
  description := none
  conditions := some (.object [(key, value)])

def allowWhenList (key : String) (value : Json) : ACL where
  rules := [allowWhen key value]
  defaultEffect := "deny"
  auditSink := { callback := true, config := none }
  default_valid := by decide
  rules_valid := by
    rw [List.forall_mem_singleton]
    exact ⟨0, rfl⟩

/-- A construction panic on a rule's own condition unwinds out of the async check. -/
theorem asyncCheckAccess_unwinds {key message : String} {value : Json} {ctx : Context}
    {behaviour : HandlerBehaviour}
    (hlookup : env.registries.lookup .async key = some (.custom behaviour))
    (hpass : PassesPrecheck env.registries (key, value)) (hctx : request.ctx = some ctx)
    (hpanic : (behaviour.awaited
      { rule := 0, segments := [], value, ctx, projection := request.projection }).ending =
        .constructPanic message) :
    ((allowWhenList key value).asyncCheckAccess env request).decision = .error message := by
  have hnil : precheckConditions env.registries .async (.object [(key, value)]) = [] := by
    rw [precheckConditions_eq_nil, collectConditionFaults, collectFieldFaults, hpass]
    rfl
  have hpatterns : (allowWhen key value).patternsMatch request = true := by
    simp [allowWhen, ACLRule.patternsMatch, matchPatterns, matchAclPattern, externalCaller]
  have hvisit : ∀ invocation, env.order.visit 0 [] [(key, invocation)] = [(key, invocation)] :=
    fun invocation => List.perm_singleton.mp (env.order.perm 0 [] [(key, invocation)])
  have hmatch : (matchesRuleIn .async env request 0 (allowWhen key value)).2 = .error message := by
    have hfaults : precheckPatternFaults (allowWhen key value) = [] := rfl
    simp only [matchesRuleIn, hfaults, List.isEmpty_nil, Bool.not_true, Bool.false_eq_true, if_false,
      hpatterns]
    simp only [allowWhen, checkConditionsIn, hnil, List.isEmpty_nil, Bool.not_true,
      Bool.false_eq_true, if_false, hctx, evaluateConditions, evaluateInvocations, invokeEntries,
      invokeEntry, CheckEnv.scope, hlookup, Option.map_some, evaluateOutcome,
      HandlerBehaviour.invoke, hvisit, List.map_cons, List.map_nil, settle, hpanic, foldOutcomes,
      Except.map]
  show (scanRules .async env request "deny" 0 [] false [allowWhen key value]).decision = _
  simp only [scanRules, hmatch]

/-- **When the checks agree.** Over registries whose handlers answer the same on both paths, the
decision and the audit of every check with a given context and projection are the same on the two
paths if no handler panics while its future is being constructed. Conversely, when handlers are
stateless, such a panic makes the async check of some list unwind. -/
theorem paths_agree_iff (hagree : registries.PathsAgree) (ctx : Context)
    (projection : Option GovernanceProjection) :
    (registries.ConstructsFutures ctx projection →
      ∀ (acl : ACL) (order : MapOrder) (now : String) (callerId : Option String) (targetId : String),
        acl.checkAccess { registries, order, now } { callerId, targetId, ctx := some ctx, projection } =
          acl.asyncCheckAccess { registries, order, now }
            { callerId, targetId, ctx := some ctx, projection }) ∧
    (registries.Stateless →
      (∀ (acl : ACL) (order : MapOrder) (now : String) (callerId : Option String) (targetId : String),
        (acl.checkAccess { registries, order, now }
            { callerId, targetId, ctx := some ctx, projection }).decision =
          (acl.asyncCheckAccess { registries, order, now }
            { callerId, targetId, ctx := some ctx, projection }).decision) →
      registries.ConstructsFutures ctx projection) := by
  constructor
  · intro hconstructs acl order now callerId targetId
    refine checkAccess_eq_async acl hagree fun ctx' hctx => ?_
    obtain rfl : ctx = ctx' := Option.some.inj hctx
    exact hconstructs
  · intro hstateless hsame key behaviour value rule segments message hlookup hpass hpanic
    have hpanic₀ := (hstateless key behaviour
      { rule := 0, segments := [], value, ctx, projection }
      { rule, segments, value, ctx, projection } hlookup rfl rfl rfl).trans hpanic
    have hequal := hsame (allowWhenList key value) .textual "" none "target"
    rw [asyncCheckAccess_unwinds hlookup hpass rfl hpanic₀] at hequal
    obtain ⟨decision, hdecision⟩ := checkAccess_decides (allowWhenList key value)
      { registries, order := .textual, now := "" }
      { callerId := none, targetId := "target", ctx := some ctx, projection }
    rw [hdecision] at hequal
    cases hequal

theorem builtin_pathsAgree : Registries.builtin.PathsAgree := by
  intro key
  show HandlersAgree (builtinHandler .sync key)
    ((builtinHandler .async key).or (builtinHandler .sync key))
  unfold builtinHandler
  split_ifs <;> first | contradiction | constructor

/-- Registering a handler that never suspends keeps the paths in agreement. -/
theorem registerCondition_pathsAgree (key : String) (ending : Ending) (hkey : key ≠ "$or")
    (hkey' : key ≠ "$not") :
    (Registries.builtin.registerCondition key (.constant ending)).PathsAgree := by
  intro other
  by_cases heq : other = key
  · subst heq
    have hasync : builtinHandler .async other = none := by
      rw [builtinHandler, if_neg hkey, if_neg hkey', if_pos rfl]
    simp only [Registries.lookup, Registries.registerCondition, Registries.builtin,
      Function.update_self, hasync, Option.none_or]
    refine .custom _ _ fun call => ?_
    cases ending <;> rfl
  · simp only [Registries.lookup, Registries.registerCondition, Function.update_of_ne heq]
    exact builtin_pathsAgree other

/-- The registries of an application that registered one condition. -/
def withCondition (key : String) (ending : Ending) : Registries :=
  Registries.builtin.registerCondition key (.constant ending)

theorem withCondition_lookup {key other : String} {ending : Ending} {behaviour : HandlerBehaviour}
    (h : (withCondition key ending).lookup .async other = some (.custom behaviour)) :
    behaviour = .constant ending := by
  have hnone : ∀ mode b, builtinHandler mode other ≠ some (.custom b) := by
    intro mode b hb
    unfold builtinHandler at hb
    split_ifs at hb <;> cases hb
  simp only [withCondition, Registries.lookup, Registries.registerCondition, Registries.builtin,
    Function.update_apply] at h
  rcases Option.or_eq_some_iff.mp h with h | ⟨-, h⟩
  · exact absurd h (hnone _ _)
  · split at h
    · cases h; rfl
    · exact absurd h (hnone _ _)

/-- A handler that panics when polled is caught on both paths, and reported alike. -/
theorem paths_agree_iff_pollPanic :
    (allowWhenList "flagged" .null).checkAccess
        { registries := withCondition "flagged" (.pollPanic "down"), order := .textual, now := "" }
        anonymousRequest =
      (allowWhenList "flagged" .null).asyncCheckAccess
        { registries := withCondition "flagged" (.pollPanic "down"), order := .textual, now := "" }
        anonymousRequest :=
  (paths_agree_iff (registerCondition_pathsAgree "flagged" (.pollPanic "down") (by decide)
      (by decide)) (.anonymous "trace" 0) none).1
    (fun _ _ _ _ _ _ hlookup _ hpanic => by
      rw [withCondition_lookup hlookup] at hpanic
      cases hpanic) _ _ _ _ _

/-- A handler that panics while its future is being constructed is caught on the sync path only. -/
theorem constructPanic_paths_disagree :
    ¬ ∀ registries : Registries, registries.PathsAgree →
      ∀ (acl : ACL) (order : MapOrder) (now : String) (request : AccessRequest),
        (acl.checkAccess { registries, order, now } request).decision =
          (acl.asyncCheckAccess { registries, order, now } request).decision := by
  intro h
  have hequal := h (withCondition "flagged" (.constructPanic "down"))
    (registerCondition_pathsAgree "flagged" _ (by decide) (by decide))
    (allowWhenList "flagged" .null) .textual "" anonymousRequest
  have hasync : ((allowWhenList "flagged" .null).asyncCheckAccess
      { registries := withCondition "flagged" (.constructPanic "down"), order := .textual, now := "" }
      anonymousRequest).decision = .error "down" :=
    asyncCheckAccess_unwinds rfl (by rfl) rfl rfl
  obtain ⟨decision, hdecision⟩ := checkAccess_decides (allowWhenList "flagged" .null)
    { registries := withCondition "flagged" (.constructPanic "down"), order := .textual, now := "" }
    anonymousRequest
  rw [hasync, hdecision] at hequal
  cases hequal

end Apcore
