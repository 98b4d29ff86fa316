import Apcore.Pipeline.DryRun
import Apcore.Executor.Validate

/-! # `Executor.Disclosure` — what a preflight lets a denied caller see

`validate` withholds the introspection of a module when a failed check carries the name of the
access check. A denial gets that name on the way through the dry run: the gate's body has to be
entered, and the name of its step has to be the one the check is looked up by. -/

namespace Apcore

namespace Executor

open Run PipelineEngine

variable {σ : Type}

/-- A preflight that asks the module nothing and predicts nothing. -/
structure Conceals (ran : Ran String (World σ) (PipelineEvent σ) PreflightResult) : Prop where
  preflight : .preflight ∉ ran.events
  preview : .preview ∉ ran.events
  changes : ∀ result, ran.outcome = .ok result → result.predictedChanges = []

/-- The records of a dry run hold a denial: a failed check carries the name of the access check. -/
def DenialOnFile (result : EngineResult σ) : Prop :=
  aclDenied (filePreflightErrors result.2.preflightErrors (runChecks result)) = true

/-! ## Introspection -/

/-- A denial on file, or a module that was not resolved, keeps the module from being asked. -/
theorem introspect_none {checks : List PreflightCheckResult} {module : Option (Module σ)}
    (h : module = none ∨ aclDenied checks = true) (inputs : Json) (ctx : Option Context) :
    introspect checks module inputs ctx = pure (checks, []) := by
  unfold introspect
  rcases h with rfl | h
  · cases aclDenied checks <;> rfl
  · rw [h]

/-- Otherwise the module is asked. -/
theorem introspect_some {checks : List PreflightCheckResult} (h : aclDenied checks = false)
    (module : Module σ) (inputs : Json) (ctx : Option Context) (w : World σ) :
    .preflight ∈ (introspect checks (some module) inputs ctx w).events := by
  have hfirst : .preflight ∈ (preflightCheck module inputs ctx w).events := by
    unfold preflightCheck
    rw [bind_apply_ok rfl]
    exact List.mem_append_left _ List.mem_cons_self
  unfold introspect
  simp only [h]
  cases hout : (preflightCheck module inputs ctx w).outcome with
  | error p =>
    rw [bind_apply_error hout]
    exact hfirst
  | ok check =>
    rw [bind_apply_ok hout]
    exact List.mem_append_left _ hfirst

/-- What follows the dry run asks the module exactly when one is resolved and no denial is on
file. -/
theorem conclude_conceals_iff (executor : Executor σ) (moduleId : String) (inputs : Json)
    (ctx : Option Context) (result : EngineResult σ) (w : World σ) :
    Conceals (executor.conclude moduleId inputs ctx result w) ↔
      result.2.module = none ∨ DenialOnFile result := by
  constructor
  · intro hconceals
    by_contra hopen
    rw [not_or] at hopen
    obtain ⟨hmodule, hdenial⟩ := hopen
    obtain ⟨module, hmodule⟩ := Option.ne_none_iff_exists'.mp hmodule
    refine hconceals.preflight ?_
    have hasked := introspect_some (Bool.eq_false_iff.mpr hdenial) module inputs ctx w
    unfold conclude
    rw [bind_apply_ok (a := w) rfl]
    simp only [hmodule]
    cases hout : (introspect (filePreflightErrors result.2.preflightErrors (runChecks result))
        (some module) inputs ctx w).outcome with
    | error p =>
      rw [show (Run.world w : Ran String (World σ) (PipelineEvent σ) _).world = w from rfl,
        bind_apply_error hout]
      exact hasked
    | ok told =>
      rw [show (Run.world w : Ran String (World σ) (PipelineEvent σ) _).world = w from rfl,
        bind_apply_ok hout]
      exact List.mem_append_right _ (List.mem_append_left _ hasked)
  · intro h
    unfold conclude
    rw [bind_apply_ok (a := w) rfl]
    simp only [introspect_none h, pure_bind]
    refine ⟨by simp, by simp, ?_⟩
    rintro r hr
    cases hr
    rfl

/-- The run of the engine reports nothing of what `validate` asks a module. -/
theorem dryRun_ofEngine (executor : Executor σ) (moduleId : String) (inputs : Json)
    (ctx : Option Context) :
    (executor.dryRun moduleId inputs ctx).Ensures fun _ evs => ∀ e ∈ evs, ofEngine e := by
  unfold dryRun
  cases validateModuleId moduleId with
  | error err => exact ensures_pure (by simp)
  | ok u =>
    refine ensures_lift_bind (by simp) fun prepared w _ => ?_
    cases prepared with
    | error err => exact ensures_pure (by simp)
    | ok pipeCtx =>
      refine ensures_bind (run_ofEngine _ _ _) (fun p evs h => h) fun result evs h => ?_
      exact ensures_pure (by simpa using h)

/-- A rejected call predicts nothing. -/
theorem dryRun_rejected (executor : Executor σ) (moduleId : String) (inputs : Json)
    (ctx : Option Context) (w : World σ) {result : PreflightResult}
    (h : (executor.dryRun moduleId inputs ctx w).outcome = .ok (.error result)) :
    result.predictedChanges = [] := by
  unfold dryRun at h
  cases hvalid : validateModuleId moduleId with
  | error err =>
    rw [hvalid] at h
    cases h
    rfl
  | ok u =>
    rw [hvalid] at h
    obtain ⟨prepared, -, hrest⟩ := bind_outcome_eq_ok.mp h
    cases prepared with
    | error err =>
      cases hrest
      rfl
    | ok pipeCtx =>
      obtain ⟨ended, -, hended⟩ := bind_outcome_eq_ok.mp hrest
      cases hended

/-- **When a preflight conceals.** Whatever the executor, the module is left alone exactly when the
dry run has not resolved one, or has a denial on file. -/
theorem validate_conceals_iff_onFile (executor : Executor σ) (moduleId : String) (inputs : Json)
    (ctx : Option Context) (w : World σ) :
    Conceals (executor.validate moduleId inputs ctx w) ↔
      ∀ result, (executor.dryRun moduleId inputs ctx w).outcome = .ok (.ok result) →
        result.2.module = none ∨ DenialOnFile result := by
  have hengine := dryRun_ofEngine executor moduleId inputs ctx w
  have hno : .preflight ∉ (executor.dryRun moduleId inputs ctx w).events ∧
      .preview ∉ (executor.dryRun moduleId inputs ctx w).events :=
    ⟨fun h => hengine _ h, fun h => hengine _ h⟩
  unfold validate
  cases hout : (executor.dryRun moduleId inputs ctx w).outcome with
  | error p =>
    rw [bind_apply_error hout]
    exact iff_of_true ⟨hno.1, hno.2, by simp⟩ (by simp)
  | ok ended =>
    rw [bind_apply_ok hout]
    cases ended with
    | error result =>
      refine iff_of_true ⟨by simpa using hno.1, by simpa using hno.2, ?_⟩ (by simp)
      rintro r hr
      cases hr
      exact dryRun_rejected executor moduleId inputs ctx w hout
    | ok result =>
      have hconclude := conclude_conceals_iff executor moduleId inputs ctx result
        (executor.dryRun moduleId inputs ctx w).world
      constructor
      · rintro ⟨hpre, hview, hchanges⟩ result' hresult'
        cases hresult'
        exact hconclude.mp ⟨fun h => hpre (List.mem_append_right _ h),
          fun h => hview (List.mem_append_right _ h), hchanges⟩
      · intro h
        obtain ⟨hpre, hview, hchanges⟩ := hconclude.mpr (h result rfl)
        exact ⟨by simpa using ⟨hno.1, hpre⟩, by simpa using ⟨hno.2, hview⟩, hchanges⟩

/-! ## The denial of the gate -/

/-- The access list denies what the gate asks of it in a context. -/
def AclDenies (ctx : PipelineContext σ) : Prop :=
  ∃ acl, ctx.acl = some acl ∧ ∀ env decision,
    (acl.acl.asyncCheckAccess env (BuiltinACLCheck.request ctx)).decision = .ok decision →
    decision.isAllowed = false

/-- A step with the body of the access gate cannot succeed where the list denies. -/
theorem denies_of_aclDenies {gate : Step σ} (hexec : gate.execute = BuiltinACLCheck.execute)
    {ctx : PipelineContext σ} (h : AclDenies ctx) : Denies gate ctx := by
  obtain ⟨acl, hacl, hdenied⟩ := h
  have hbody : ∀ w result ctx', (gate.execute ctx w).outcome = .ok (.ok result, ctx') → False := by
    intro w result ctx' hw
    rw [hexec, BuiltinACLCheck.execute, hacl] at hw
    obtain ⟨decision, hdecision, hrest⟩ := bind_outcome_eq_ok.mp hw
    rw [if_neg (by simp [hdenied _ decision hdecision])] at hrest
    obtain ⟨u, -, hfail⟩ := bind_outcome_eq_ok.mp hrest
    cases hfail
  rintro result ctx' ⟨w, hw⟩
  unfold executeTimed at hw
  by_cases htimeout : gate.timeoutMs > 0
  · rw [if_pos htimeout, bind_apply_ok (a := w) rfl] at hw
    dsimp only at hw
    split at hw
    · obtain ⟨u, -, hfail⟩ := bind_outcome_eq_ok.mp hw
      cases hfail
    · exact hbody _ _ _ hw
  · rw [if_neg htimeout] at hw
    exact hbody _ _ _ hw

/-- A failing body is filed under the name of the access check. -/
def FiledAsAcl (strategy : ExecutionStrategy σ) (evs : List (PipelineEvent σ)) (i : Nat) : Prop :=
  ∃ c err step, .failed i c err ∈ evs ∧ strategy.steps[i]? = some step ∧
    preflightCheckName step.name = aclCheckName

/-- Filed errors supersede every failed check there was. -/
theorem aclDenied_filed {entries : List (String × ModuleError)} (hentries : entries ≠ [])
    (checks : List PreflightCheckResult) :
    aclDenied (filePreflightErrors entries checks) = true ↔
      ∃ entry ∈ entries, preflightCheckName entry.1 = aclCheckName := by
  unfold filePreflightErrors
  rw [if_neg (by simpa using hentries), aclDenied, List.any_append, Bool.or_eq_true,
    List.any_eq_true, List.any_eq_true]
  constructor
  · rintro (⟨c, hc, hfailed⟩ | ⟨c, hc, hfailed⟩)
    · -- the checks that stay have passed
      have hpassed := (List.mem_filter.mp hc).2
      simp [hpassed] at hfailed
    · obtain ⟨entry, hentry, rfl⟩ := List.mem_map.mp hc
      exact ⟨entry, hentry, by simpa [failedCheck] using hfailed⟩
  · rintro ⟨entry, hentry, hname⟩
    exact .inr ⟨_, List.mem_map.mpr ⟨entry, hentry, rfl⟩, by simpa [failedCheck] using hname⟩

/-- Where the bodies leave the records alone, a denial is on file when a failing body is filed under
the name of the access check; or, in a run without a failing body, when the way the run ended is. -/
theorem denialOnFile_iff {strategy : ExecutionStrategy σ} {ctx : PipelineContext σ}
    {result : EngineResult σ} {evs : List (PipelineEvent σ)}
    (hstart : ctx.preflightErrors = [])
    (hfailed : ∀ i c err, .failed i c err ∈ evs → ∃ step, strategy.steps[i]? = some step)
    (hfiled : Filed strategy ctx result.2 evs) :
    DenialOnFile result ↔ (∃ i, FiledAsAcl strategy evs i) ∨
      ((∀ i c err, .failed i c err ∉ evs) ∧ aclDenied (runChecks result) = true) := by
  have hrecords : result.2.preflightErrors = failuresOf strategy evs := by
    rw [hfiled.preflightErrors, hstart, List.nil_append]
  have hentry : ∀ entry, entry ∈ failuresOf strategy evs ↔ ∃ i c err step,
      .failed i c err ∈ evs ∧ strategy.steps[i]? = some step ∧ entry = (step.name, err) := by
    intro entry
    unfold failuresOf
    rw [List.mem_filterMap]
    constructor
    · rintro ⟨e, he, hfe⟩
      cases e with
      | failed i c err =>
        obtain ⟨step, hstep, rfl⟩ := Option.map_eq_some_iff.mp hfe
        exact ⟨i, c, err, step, he, hstep, rfl⟩
      | _ => cases hfe
    · rintro ⟨i, c, err, step, he, hstep, rfl⟩
      exact ⟨_, he, by simp [filedEntry, hstep]⟩
  unfold DenialOnFile
  rw [hrecords]
  by_cases hfailures : failuresOf strategy evs = []
  · have hnone : ∀ i c err, .failed i c err ∉ evs := by
      intro i c err hmem
      obtain ⟨step, hstep⟩ := hfailed i c err hmem
      have := (hentry (step.name, err)).mpr ⟨i, c, err, step, hmem, hstep, rfl⟩
      rw [hfailures] at this
      cases this
    rw [hfailures]
    constructor
    · exact fun h => .inr ⟨hnone, h⟩
    · rintro (⟨i, c, err, step, hmem, -⟩ | ⟨-, h⟩)
      · exact absurd hmem (hnone i c err)
      · exact h
  · rw [aclDenied_filed hfailures]
    constructor
    · rintro ⟨entry, hfiled, hname⟩
      obtain ⟨i, c, err, step, hmem, hstep, rfl⟩ := (hentry entry).mp hfiled
      exact .inl ⟨i, c, err, step, hmem, hstep, hname⟩
    · rintro (⟨i, c, err, step, hmem, hstep, hname⟩ | ⟨hnone, -⟩)
      · exact ⟨_, (hentry _).mpr ⟨i, c, err, step, hmem, hstep, rfl⟩, hname⟩
      · obtain ⟨entry, hmem⟩ := List.exists_mem_of_ne_nil _ hfailures
        obtain ⟨i, c, err, step, hmem, -⟩ := (hentry entry).mp hmem
        exact absurd hmem (hnone i c err)

/-! ## Preflights -/

/-- The dry run of a preflight is a run of the engine from a dry context with nothing on file. -/
theorem dryRun_run {executor : Executor σ} {moduleId : String} {inputs : Json}
    {ctx : Option Context} {w : World σ} {result : EngineResult σ}
    (h : (executor.dryRun moduleId inputs ctx w).outcome = .ok (.ok result)) :
    ∃ pipeCtx w', pipeCtx.dryRun = true ∧ pipeCtx.preflightErrors = [] ∧
      (PipelineEngine.run executor.strategy pipeCtx w').outcome = .ok result ∧
      (executor.dryRun moduleId inputs ctx w).events =
        (PipelineEngine.run executor.strategy pipeCtx w').events := by
  unfold dryRun at h ⊢
  cases hvalid : validateModuleId moduleId with
  | error err =>
    rw [hvalid] at h
    cases h
  | ok u =>
    rw [hvalid] at h
    obtain ⟨prepared, hprepared, hrest⟩ := bind_outcome_eq_ok.mp h
    rw [bind_apply_ok hprepared]
    cases prepared with
    | error err => cases hrest
    | ok pipeCtx =>
      obtain ⟨ended, hrun, hended⟩ := bind_outcome_eq_ok.mp hrest
      obtain rfl : ended = result := by
        cases hended
        rfl
      have hdryPrepared : (executor.prepareDry moduleId inputs ctx w).outcome =
          .ok (.ok pipeCtx) := hprepared
      obtain ⟨bound, hbound, hdry⟩ := bind_outcome_eq_ok.mp hdryPrepared
      cases bound with
      | error err => cases hdry
      | ok bound =>
        obtain ⟨context, -, rfl⟩ := prepare_spec hbound
        cases hdry
        refine ⟨_, _, rfl, rfl, hrun, ?_⟩
        rw [bind_apply_ok hrun]
        simp

/-- **When a preflight conceals, and when a denial is on file.** Whatever the executor, the module
is left alone exactly when the dry run has resolved none or has a denial on file. Where the bodies
leave the records alone and the access list denies what the gate asks of it, a denial is on file
exactly when the gate is entered under the name of the access check, or something else is filed
under that name. -/
theorem validate_conceals_iff (executor : Executor σ) (moduleId : String) (inputs : Json)
    (ctx : Option Context) (w : World σ) :
    (Conceals (executor.validate moduleId inputs ctx w) ↔
      ∀ result, (executor.dryRun moduleId inputs ctx w).outcome = .ok (.ok result) →
        result.2.module = none ∨ DenialOnFile result) ∧
    ((∀ step ∈ executor.strategy.steps, step.KeepsRecords) → ∀ g gate,
      executor.strategy.steps[g]? = some gate → gate.execute = BuiltinACLCheck.execute →
      (∀ c, .body g c ∈ (executor.dryRun moduleId inputs ctx w).events → AclDenies c) →
      ∀ result, (executor.dryRun moduleId inputs ctx w).outcome = .ok (.ok result) →
        (DenialOnFile result ↔
          (preflightCheckName gate.name = aclCheckName ∧
            ∃ c, .body g c ∈ (executor.dryRun moduleId inputs ctx w).events) ∨
          (∃ i, i ≠ g ∧ FiledAsAcl executor.strategy
            (executor.dryRun moduleId inputs ctx w).events i) ∨
          ((∀ i c err, .failed i c err ∉ (executor.dryRun moduleId inputs ctx w).events) ∧
            aclDenied (runChecks result) = true))) := by
  refine ⟨validate_conceals_iff_onFile executor moduleId inputs ctx w, ?_⟩
  intro hkeep g gate hgate hexec hdenies result hresult
  obtain ⟨pipeCtx, w', hdry, hstart, hrun, hevents⟩ := dryRun_run hresult
  rw [hevents] at hdenies ⊢
  have hfiled := dryRun_filed hkeep pipeCtx hdry w' result hrun
  have hsteps := run_failed_step executor.strategy pipeCtx {} w'
  have hgateRun := run_failsWhereDenied hgate pipeCtx w' result hrun
  rw [denialOnFile_iff hstart hsteps hfiled]
  constructor
  · rintro (⟨i, hi⟩ | hend)
    · by_cases hig : i = g
      · subst hig
        obtain ⟨c, err, step, hmem, hstep, hname⟩ := hi
        obtain rfl := Option.some.inj (hstep.symm.trans hgate)
        exact .inl ⟨hname, hgateRun.entered c err hmem⟩
      · exact .inr (.inl ⟨i, hig, hi⟩)
    · exact .inr (.inr hend)
  · rintro (⟨hname, c, hc⟩ | ⟨i, -, hi⟩ | hend)
    · obtain ⟨c', err, hmem⟩ := hgateRun.fails c hc (denies_of_aclDenies hexec (hdenies c hc))
      exact .inl ⟨g, c', err, gate, hmem, hgate, hname⟩
    · exact .inl ⟨i, hi⟩
    · exact .inr hend

/-! ## A denied caller who is told -/

/-- A hook that fails before the access check, and only there. -/
def failsAtGate : StepMiddleware Unit :=
  { StepMiddleware.idle with
    beforeStep := fun stepName _ =>
      if stepName = "acl_check" then pure (.error (.new .generalInternalError "no metrics sink"))
      else pure (.ok ()) }

/-- The standard strategy under that hook, with everything denied. -/
def hookedExecutor : Executor Unit :=
  { Executor.over (.inert Unit) ((standardStrategy .lax).addStepMiddleware failsAtGate) with
    acl := some .denyAll }

/-- A failing hook takes the gate out of the dry run: the module is asked, though the access list
denies every call. -/
theorem denied_preflight_discloses :
    ¬ ∀ (executor : Executor Unit) (moduleId : String) (inputs : Json) (ctx : Option Context)
      (w : World Unit),
      (∃ gate ∈ executor.strategy.steps, gate.builtinGate = some .acl ∧
        gate.execute = BuiltinACLCheck.execute) →
      (∃ acl, executor.acl = some acl ∧ ∀ env request decision,
        (acl.acl.asyncCheckAccess env request).decision = .ok decision →
        decision.isAllowed = false) →
      Conceals (executor.validate moduleId inputs ctx w) := by
  intro h
  have hconceals := h hookedExecutor "billing.charge" .null none (World.fresh ())
    ⟨BuiltinACLCheck.step, List.mem_of_getElem? (i := 3) rfl, rfl, rfl⟩ ⟨.denyAll, rfl, ?_⟩
  · -- three steps and their hooks, the failing hook, and its unwinding
    exact hconceals.preflight (List.mem_of_getElem? (i := 11) rfl)
  · intro env request decision hdecision
    cases hdecision
    rfl

end Executor

end Apcore
