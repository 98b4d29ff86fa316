import Apcore.Acl.Reference

/-! # `Acl.FailClosed` — malformed operands of the built-in conditions

Each built-in condition requires a shape of its operand. `$or`, `$not` and `arguments` are checked
before anything is evaluated, so a malformed operand of theirs leaves the whole rule without an
answer. The three leaf handlers read their operand with fallbacks of their own, and always answer;
the shapes they do not recognise come out as a plain "no". -/

namespace Apcore

open Kleene (Truth)

/-! ## Shapes -/

/-- An integral number, of any sign and size. -/
def Number.isIntegral : Number → Bool
  | .posInt _ | .negInt _ => true
  | .float q => q.den == 1

/-- A number that is integral. -/
def isIntegralNumber (value : Json) : Bool := value.asNumber?.any Number.isIntegral

/-- The built-in condition keys. -/
def builtinKeys : List String :=
  ["identity_types", "roles", "max_call_depth", "arguments", "$or", "$not"]

/-- The built-in keys whose operand the precheck reads. -/
def structuralKeys : List String := ["$or", "$not", "arguments"]

/-- The operand of a built-in condition is malformed for its key. -/
def malformed (key : String) (value : Json) : Bool :=
  if key = "identity_types" ∨ key = "roles" then (keyNames value).isNone
  else if key = "max_call_depth" then
    match value with
    | .number n => !n.isIntegral
    | .object fields => !(Fields.get? fields "lte").any isIntegralNumber
    | _ => true
  else if key = "$or" then
    match value with
    | .array subs => !subs.all Json.isObject
    | _ => true
  else if key = "$not" then !value.isObject
  else if key = "arguments" then
    match value with
    | .object predicates => predicates.isEmpty || !predicates.all fun entry =>
        argumentPredicates.contains entry.1 && (keyNames entry.2).isSome
    | _ => true
  else false

/-- A condition at its position in a tree. -/
structure Occurrence where
  segments : List Segment
  key : String
  value : Json

mutual

/-- Every condition of an object, at any depth. -/
def occurrencesInFields (segments : List Segment) : List (String × Json) → List Occurrence
  | [] => []
  | entry :: rest => occurrencesInEntry segments entry ++ occurrencesInFields segments rest

def occurrencesInEntry (segments : List Segment) : String × Json → List Occurrence
  | (key, value) => { segments, key, value } :: occurrencesInOperand segments key value

def occurrencesInOperand (segments : List Segment) (key : String) : Json → List Occurrence
  | .array subs => if key = "$or" then occurrencesInBranches segments 0 subs else []
  | .object fields =>
    if key = "$not" then occurrencesInFields (segments ++ [.negated]) fields else []
  | _ => []

def occurrencesInBranches (segments : List Segment) : Nat → List Json → List Occurrence
  | _, [] => []
  | index, sub :: rest =>
    occurrencesInBranch (segments ++ [.branch index]) sub ++
      occurrencesInBranches segments (index + 1) rest

def occurrencesInBranch (segments : List Segment) : Json → List Occurrence
  | .object fields => occurrencesInFields segments fields
  | _ => []

end

/-- A malformed operand that the precheck reads. -/
def Occurrence.faulty (occ : Occurrence) : Bool :=
  structuralKeys.contains occ.key && malformed occ.key occ.value

/-! ## The precheck finds exactly the malformed structural operands -/

theorem argumentFault_nil_iff (keyPath predicate : String) (operand : Json) :
    argumentFault keyPath predicate operand = [] ↔
      argumentPredicates.contains predicate = true ∧ (keyNames operand).isSome = true := by
  unfold argumentFault
  cases argumentPredicates.contains predicate <;> cases keyNames operand <;> simp

theorem collectArgumentFaults_nil_iff (value : Json) (keyPath : String) :
    collectArgumentFaults value keyPath = [] ↔ malformed "arguments" value = false := by
  cases value with
  | object predicates =>
    cases predicates with
    | nil => simp [collectArgumentFaults, malformed]
    | cons entry rest =>
      simp only [collectArgumentFaults, List.flatMap_eq_nil_iff, argumentFault_nil_iff, malformed,
        String.reduceEq, or_self, if_false, if_true, List.isEmpty_cons, Bool.false_or,
        Bool.not_eq_false', List.all_eq_true, Bool.and_eq_true]
  | _ => simp [collectArgumentFaults, malformed]

/-- The shape of an operand there is nothing to recurse into. -/
theorem operandShapeFaults_nil_iff {key keyPath : String} {value : Json} {segments : List Segment}
    (hor : key = "$or" → value.asArray? = none) (hnot : key = "$not" → value.asObject? = none) :
    operandShapeFaults key keyPath value = [] ↔
      Occurrence.faulty { segments, key, value } = false := by
  unfold operandShapeFaults
  split_ifs with h₁ h₂ h₃
  · subst h₁
    have hfaulty : malformed "$or" value = true := by
      cases value <;> first | rfl | cases hor rfl
    simp [Occurrence.faulty, structuralKeys, hfaulty]
  · subst h₂
    have hfaulty : malformed "$not" value = true := by
      cases value <;> first | rfl | cases hnot rfl
    simp [Occurrence.faulty, structuralKeys, hfaulty]
  · subst h₃
    rw [collectArgumentFaults_nil_iff]
    simp [Occurrence.faulty, structuralKeys]
  · simp [Occurrence.faulty, structuralKeys, h₁, h₂, h₃]

variable {registries : Registries} {resolvable : String → Bool}

mutual

theorem collectFieldFaults_nil_iff
    (hbuiltin : ∀ key ∈ builtinKeys, resolvable key = true)
    (pathPrefix : String) (segments : List Segment) : ∀ fields : List (String × Json),
      (∀ occ ∈ occurrencesInFields segments fields, occ.key ∈ builtinKeys) →
        (collectFieldFaults registries resolvable pathPrefix fields = [] ↔
          ∀ occ ∈ occurrencesInFields segments fields, occ.faulty = false)
  | [] => by simp [collectFieldFaults, occurrencesInFields]
  | entry :: rest => by
    intro hkeys
    rw [occurrencesInFields, List.forall_mem_append] at hkeys
    rw [collectFieldFaults, List.append_eq_nil_iff, occurrencesInFields, List.forall_mem_append,
      collectFieldFault_nil_iff hbuiltin pathPrefix segments entry hkeys.1,
      collectFieldFaults_nil_iff hbuiltin pathPrefix segments rest hkeys.2]

theorem collectFieldFault_nil_iff
    (hbuiltin : ∀ key ∈ builtinKeys, resolvable key = true)
    (pathPrefix : String) (segments : List Segment) : ∀ entry : String × Json,
      (∀ occ ∈ occurrencesInEntry segments entry, occ.key ∈ builtinKeys) →
        (collectFieldFault registries resolvable pathPrefix entry = [] ↔
          ∀ occ ∈ occurrencesInEntry segments entry, occ.faulty = false)
  | (key, value) => by
    intro hkeys
    rw [occurrencesInEntry, List.forall_mem_cons] at hkeys
    rw [collectFieldFault, occurrencesInEntry, List.forall_mem_cons]
    simp only [hbuiltin key hkeys.1, Bool.not_true, Bool.false_eq_true, if_false]
    exact collectOperandFaults_nil_iff hbuiltin key _ segments value hkeys.2

/-- **The precheck is exact**: an operand passes when neither it nor a condition under it is
malformed. -/
theorem collectOperandFaults_nil_iff
    (hbuiltin : ∀ key ∈ builtinKeys, resolvable key = true)
    (key keyPath : String) (segments : List Segment) : ∀ value : Json,
      (∀ occ ∈ occurrencesInOperand segments key value, occ.key ∈ builtinKeys) →
        (collectOperandFaults registries resolvable key keyPath value = [] ↔
          Occurrence.faulty { segments, key, value } = false ∧
            ∀ occ ∈ occurrencesInOperand segments key value, occ.faulty = false)
  | .array subs => by
    intro hkeys
    rw [collectOperandFaults, occurrencesInOperand]
    rw [occurrencesInOperand] at hkeys
    by_cases hor : key = "$or"
    · subst hor
      rw [if_pos rfl, if_pos rfl]
      rw [if_pos rfl] at hkeys
      rw [collectBranchFaults_nil_iff hbuiltin keyPath segments 0 subs hkeys]
      simp [Occurrence.faulty, structuralKeys, malformed]
    · rw [if_neg hor, if_neg hor]
      rw [operandShapeFaults_nil_iff (fun h => absurd h hor) (fun _ => rfl)]
      exact (and_iff_left (by simp)).symm
  | .object fields => by
    intro hkeys
    rw [collectOperandFaults, occurrencesInOperand]
    rw [occurrencesInOperand] at hkeys
    by_cases hnot : key = "$not"
    · subst hnot
      rw [if_pos rfl, if_pos rfl]
      rw [if_pos rfl] at hkeys
      rw [collectFieldFaults_nil_iff hbuiltin keyPath _ fields hkeys]
      simp [Occurrence.faulty, structuralKeys, malformed, Json.isObject, Json.asObject?]
    · rw [if_neg hnot, if_neg hnot]
      rw [operandShapeFaults_nil_iff (fun _ => rfl) (fun h => absurd h hnot)]
      exact (and_iff_left (by simp)).symm
  | .null | .bool _ | .number _ | .string _ => by
    intro _
    rw [collectOperandFaults, operandShapeFaults_nil_iff (fun _ => rfl) (fun _ => rfl)]
    · exact (and_iff_left (by simp [occurrencesInOperand])).symm
    all_goals simp

theorem collectBranchFaults_nil_iff
    (hbuiltin : ∀ key ∈ builtinKeys, resolvable key = true)
    (keyPath : String) (segments : List Segment) : ∀ (index : Nat) (subs : List Json),
      (∀ occ ∈ occurrencesInBranches segments index subs, occ.key ∈ builtinKeys) →
        (collectBranchFaults registries resolvable keyPath index subs = [] ↔
          (∀ sub ∈ subs, sub.isObject = true) ∧
            ∀ occ ∈ occurrencesInBranches segments index subs, occ.faulty = false)
  | _, [] => by simp [collectBranchFaults, occurrencesInBranches]
  | index, sub :: rest => by
    intro hkeys
    rw [occurrencesInBranches, List.forall_mem_append] at hkeys
    rw [collectBranchFaults, List.append_eq_nil_iff, occurrencesInBranches, List.forall_mem_append,
      List.forall_mem_cons, collectBranchFault_nil_iff hbuiltin _ _ sub hkeys.1,
      collectBranchFaults_nil_iff hbuiltin keyPath segments (index + 1) rest hkeys.2]
    tauto

theorem collectBranchFault_nil_iff
    (hbuiltin : ∀ key ∈ builtinKeys, resolvable key = true)
    (pathPrefix : String) (segments : List Segment) : ∀ sub : Json,
      (∀ occ ∈ occurrencesInBranch segments sub, occ.key ∈ builtinKeys) →
        (collectConditionFaults registries resolvable pathPrefix sub = [] ↔
          sub.isObject = true ∧ ∀ occ ∈ occurrencesInBranch segments sub, occ.faulty = false)
  | .object fields => by
    intro hkeys
    rw [collectConditionFaults, occurrencesInBranch,
      collectFieldFaults_nil_iff hbuiltin pathPrefix segments fields hkeys]
    simp [Json.isObject, Json.asObject?]
  | .null | .bool _ | .number _ | .string _ | .array _ => by
    intro _
    simp only [collectConditionFaults, Json.isObject, Json.asObject?, Option.isSome_none,
      Bool.false_eq_true, false_and, iff_false]
    split <;> simp

end

/-! ## Which malformed operands fail closed -/

/-- No application handler took the place of a built-in one. -/
def Registries.KeepsBuiltins (registries : Registries) : Prop :=
  ∀ key ∈ builtinKeys, registries.condition key = builtinHandler .sync key

/-- What a check makes of one condition of a rule: no answer when the precheck refuses the rule,
false when there is no context to ask, and its own truth value otherwise. -/
def occurrenceTruth (env : CheckEnv) (request : AccessRequest) (index : Nat)
    (fields : List (String × Json)) (occ : Occurrence) : Truth :=
  if !(precheckConditions env.registries .sync (.object fields)).isEmpty then none
  else match request.ctx with
    | none => some false
    | some ctx =>
      truthOfEntry (env.registries.compound .sync) (leafTruth (env.scope request index ctx) .sync)
        occ.segments (occ.key, occ.value)

/-- The conditions of a rule fail closed on a malformed operand: the condition gives no answer, and
a deny rule in scope that carries one, with no other condition false, denies the calls that reach
it. -/
structure FailsClosed (env : CheckEnv) (request : AccessRequest) (index : Nat)
    (fields : List (String × Json)) : Prop where
  unevaluable : ∀ occ ∈ occurrencesInFields [] fields, malformed occ.key occ.value = true →
    occurrenceTruth env request index fields occ = none
  denies : ∀ (acl : ACL) (rule : ACLRule), acl.rules[index]? = some rule →
    rule.effect = "deny" → rule.patternsMatch request = true →
    rule.conditions = some (.object fields) →
    (∃ entry ∈ fields, malformed entry.1 entry.2 = true) →
    (∀ entry ∈ fields, malformed entry.1 entry.2 = false →
      occurrenceTruth env request index fields ⟨[], entry.1, entry.2⟩ ≠ some false) →
    (∀ j < index, ∀ earlier, acl.rules[j]? = some earlier →
      ¬ TakesEffect .sync env request j earlier) →
    (acl.checkAccess env request).decision = .ok
      { access := "deny", approvalRequired := false, matchedRuleIndex := some index
        reason := "rule_match" }

theorem mem_occurrencesInFields {segments : List Segment} {fields : List (String × Json)}
    {entry : String × Json} (h : entry ∈ fields) :
    ⟨segments, entry.1, entry.2⟩ ∈ occurrencesInFields segments fields := by
  induction fields with
  | nil => cases h
  | cons head rest ih =>
    rw [occurrencesInFields, List.mem_append]
    rcases List.mem_cons.mp h with rfl | hrest
    · exact .inl (by rw [occurrencesInEntry]; exact List.mem_cons_self)
    · exact .inr (ih hrest)

/-- The leaf handlers always answer, whatever their operand is. -/
theorem leaf_answers {env : CheckEnv} (hbuiltin : env.registries.KeepsBuiltins)
    {request : AccessRequest} {index : Nat} {ctx : Context} {segments : List Segment} {key : String}
    {value : Json} (hkey : key = "identity_types" ∨ key = "roles" ∨ key = "max_call_depth") :
    truthOfEntry (env.registries.compound .sync) (leafTruth (env.scope request index ctx) .sync)
      segments (key, value) ≠ none := by
  have hanswer : ∀ b, (ConditionOutcome.fromBool b).answer ≠ none := by
    intro b; cases b <;> simp [ConditionOutcome.fromBool, ConditionOutcome.answer]
  have hhandler : ∃ evaluate : Json → Context → Bool, ∃ handler,
      env.registries.condition key = some handler ∧ handler.compound? = none ∧
      evaluateOutcome (env.scope request index ctx) .sync segments handler value =
        .done { reports := [], ending := .ready (.fromBool (evaluate value ctx)) } := by
    rcases hkey with rfl | rfl | rfl
    · exact ⟨identityTypesEvaluate, _, hbuiltin _ (by decide), rfl, by rw [evaluateOutcome]; rfl⟩
    · exact ⟨rolesEvaluate, _, hbuiltin _ (by decide), rfl, by rw [evaluateOutcome]; rfl⟩
    · exact ⟨maxCallDepthEvaluate, _, hbuiltin _ (by decide), rfl, by rw [evaluateOutcome]; rfl⟩
  obtain ⟨evaluate, handler, hlookup, hleaf, hrun⟩ := hhandler
  have hcompound : env.registries.compound .sync key = none := by
    rw [Registries.compound, Registries.lookup, hlookup, Option.bind_some, hleaf]
  have hvalue : leafTruth (env.scope request index ctx) .sync segments key value ≠ none := by
    rw [leafTruth, invokeEntry, CheckEnv.scope, Registries.lookup, hlookup, Option.map_some]
    rw [CheckEnv.scope] at hrun
    rw [hrun]
    exact hanswer _
  rw [truthOfEntry]
  cases value <;> simpa [truthOfOperand, hcompound] using hvalue

/-- A key that is built in but not read by the precheck is one of the three leaf keys. -/
theorem leaf_key_of_not_structural {key : String} (hkey : key ∈ builtinKeys)
    (h : structuralKeys.contains key = false) :
    key = "identity_types" ∨ key = "roles" ∨ key = "max_call_depth" := by
  simp only [builtinKeys, List.mem_cons, List.not_mem_nil, or_false] at hkey
  rcases hkey with rfl | rfl | rfl | rfl | rfl | rfl
  · exact .inl rfl
  · exact .inr (.inl rfl)
  · exact .inr (.inr rfl)
  all_goals exact absurd h (by decide)

/-- The precheck refuses the conditions of a rule exactly when one of them is faulty. -/
theorem precheckConditions_nil_iff (hbuiltin : registries.KeepsBuiltins)
    {fields : List (String × Json)}
    (hkeys : ∀ occ ∈ occurrencesInFields [] fields, occ.key ∈ builtinKeys) :
    precheckConditions registries .sync (.object fields) = [] ↔
      ∀ occ ∈ occurrencesInFields [] fields, occ.faulty = false := by
  have hresolve : ∀ key ∈ builtinKeys, registries.isResolvable .sync key = true := by
    intro key hkey
    rw [Registries.isResolvable_eq, Registries.lookup, hbuiltin key hkey]
    revert key
    decide
  rw [precheckConditions_eq_nil, collectConditionFaults]
  exact collectFieldFaults_nil_iff hresolve "" [] fields hkeys

/-- A deny rule in scope whose conditions the precheck refuses denies the calls that reach it. -/
theorem denies_of_precheck {env : CheckEnv} {request : AccessRequest} {acl : ACL} {index : Nat}
    {rule : ACLRule} {conditions : Json}
    (hfaults : precheckConditions env.registries .sync conditions ≠ [])
    (hrule : acl.rules[index]? = some rule) (heffect : rule.effect = "deny")
    (hpatterns : rule.patternsMatch request = true) (hconditions : rule.conditions = some conditions)
    (hfirst : ∀ j < index, ∀ earlier, acl.rules[j]? = some earlier →
      ¬ TakesEffect .sync env request j earlier) :
    (acl.checkAccess env request).decision = .ok
      { access := "deny", approvalRequired := false, matchedRuleIndex := some index
        reason := "rule_match" } := by
  have htruth : ruleTruth .sync env request index rule = none := by
    rw [ruleTruth, if_neg (by simp [acl.pattern_faults (List.mem_of_getElem? hrule)]),
      if_neg (by simp [hpatterns]), hconditions]
    exact if_pos (by simpa using hfaults)
  have href : ReferenceDecision .sync env request acl.rules acl.defaultEffect
      { access := rule.effect, approvalRequired := false, matchedRuleIndex := some index
        reason := "rule_match" } :=
    .ruleMatch index rule false hrule (.inr ⟨htruth, heffect⟩) hfirst (by simp [heffect])
  obtain ⟨⟨decision, hdecision, hunique⟩, -⟩ :=
    checkInnerIn_reference acl request env.registries.contained_sync
  rw [ACL.checkAccess, hdecision, hunique.unique href, heffect]

/-- **Which malformed operands fail closed.** The conditions of a rule over the built-in keys fail
closed exactly when some `$or`, `$not` or `arguments` operand among them is malformed, or none is. -/
theorem failsClosed_iff {env : CheckEnv} (hbuiltin : env.registries.KeepsBuiltins)
    (request : AccessRequest) (index : Nat) {fields : List (String × Json)}
    (hkeys : ∀ occ ∈ occurrencesInFields [] fields, occ.key ∈ builtinKeys) :
    FailsClosed env request index fields ↔
      (∃ occ ∈ occurrencesInFields [] fields,
        structuralKeys.contains occ.key = true ∧ malformed occ.key occ.value = true) ∨
      ∀ occ ∈ occurrencesInFields [] fields, malformed occ.key occ.value = false := by
  have hprecheck := precheckConditions_nil_iff hbuiltin hkeys
  constructor
  · intro h
    by_cases hfaulty : ∀ occ ∈ occurrencesInFields [] fields, occ.faulty = false
    · -- the precheck accepts the rule: a malformed operand is a leaf's, which answers
      refine .inr fun occ hocc => Bool.eq_false_iff.mpr fun hmal => ?_
      have hleaf : structuralKeys.contains occ.key = false := by
        have hocc' := hfaulty occ hocc
        rwa [Occurrence.faulty, hmal, Bool.and_true] at hocc'
      have hnone := h.unevaluable occ hocc hmal
      rw [occurrenceTruth, if_neg (by simp [hprecheck.mpr hfaulty])] at hnone
      cases hctx : request.ctx with
      | none => rw [hctx] at hnone; cases hnone
      | some ctx =>
        rw [hctx] at hnone
        exact leaf_answers hbuiltin (leaf_key_of_not_structural (hkeys occ hocc) hleaf) hnone
    · simp only [not_forall, Bool.not_eq_false] at hfaulty
      obtain ⟨occ, hocc, hbad⟩ := hfaulty
      exact .inl ⟨occ, hocc, Bool.and_eq_true_iff.mp hbad⟩
  · rintro (⟨occ, hocc, hkey, hmal⟩ | hnone)
    · have hfaults : precheckConditions env.registries .sync (.object fields) ≠ [] := fun hnil => by
        have hocc' := hprecheck.mp hnil occ hocc
        rw [Occurrence.faulty, hkey, hmal] at hocc'
        cases hocc'
      exact
        { unevaluable := fun _ _ _ => if_pos (by simpa using hfaults)
          denies := fun acl rule hrule heffect hpatterns hconditions _ _ hfirst =>
            denies_of_precheck hfaults hrule heffect hpatterns hconditions hfirst }
    · exact
        { unevaluable := fun occ hocc hmal => by rw [hnone occ hocc] at hmal; cases hmal
          denies := fun _ _ _ _ _ _ hmal _ _ => by
            obtain ⟨entry, hentry, hmal⟩ := hmal
            rw [hnone _ (mem_occurrencesInFields hentry)] at hmal
            cases hmal }

/-- A `$or` that is not a list fails closed, next to a `roles` that is not a list. -/
theorem failsClosed_iff_malformed_or :
    FailsClosed { registries := .builtin, order := .textual, now := "" }
        { callerId := none, targetId := "billing.charge", ctx := none, projection := none } 0
        [("$or", .string "typo"), ("roles", .string "admin")] ↔
      (∃ occ ∈ occurrencesInFields [] [("$or", .string "typo"), ("roles", .string "admin")],
        structuralKeys.contains occ.key = true ∧ malformed occ.key occ.value = true) ∨
      ∀ occ ∈ occurrencesInFields [] [("$or", .string "typo"), ("roles", .string "admin")],
        malformed occ.key occ.value = false :=
  failsClosed_iff (fun _ _ => rfl) _ 0 (by decide)

/-- A `roles` operand that is a bare string is a plain "no": the deny rule carrying it is passed
over. -/
theorem roles_string_not_failsClosed :
    ¬ ∀ (env : CheckEnv) (request : AccessRequest) (index : Nat) (fields : List (String × Json)),
      env.registries.KeepsBuiltins →
      (∀ occ ∈ occurrencesInFields [] fields, occ.key ∈ builtinKeys) →
      FailsClosed env request index fields := by
  intro h
  have hclosed := h { registries := .builtin, order := .textual, now := "" }
    { callerId := none, targetId := "billing.charge", ctx := some (.anonymous "trace" 0)
      projection := none } 0 [("roles", .string "admin")] (fun _ _ => rfl) (by decide)
  have hnone := hclosed.unevaluable ⟨[], "roles", .string "admin"⟩
    (mem_occurrencesInFields List.mem_cons_self) rfl
  exact absurd hnone (by decide)

end Apcore
