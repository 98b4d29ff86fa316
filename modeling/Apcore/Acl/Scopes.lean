import Apcore.Acl.Check
import Apcore.Text

/-! # `Acl.Scopes` — the capture scopes of nested checks

A check opens a scope that carries its projection, collects its errors and holds the path prefix:
a task-local cell for `ACL::async_check_access`, a thread-local one for `ACL::check_access`. Every
read and write prefers the task-local cell. A condition handler may start a check of its own, so
what runs is a tree: a check is the list of what the evaluator and the handlers do in it. A handler
that panics stops there, and the guards restore what they changed, so its trace is a list too. -/

namespace Apcore.Scopes

/-! ## The two cells -/

/-- `CaptureState`. -/
structure CaptureState where
  errors : List (String × String)
  pathPrefix : String
  projection : Option GovernanceProjection
  deriving Repr

/-- The state a scope opens with. -/
def CaptureState.fresh (projection : Option GovernanceProjection) : CaptureState :=
  { errors := [], pathPrefix := "", projection }

/-- `HANDLER_ERROR`, which is set inside an async check only, and `HANDLER_ERROR_SYNC` with its
depth. -/
structure Cells where
  handlerError : Option CaptureState
  syncDepth : Nat
  sync : CaptureState
  deriving Repr

/-- The cells outside any check. -/
def Cells.idle : Cells := { handlerError := none, syncDepth := 0, sync := .fresh none }

namespace Cells

/-- `current_path_prefix`. -/
def currentPathPrefix (c : Cells) : String :=
  match c.handlerError with
  | some state => state.pathPrefix
  | none => c.sync.pathPrefix

/-- `condition_path`. -/
def conditionPath (c : Cells) (localKey : String) : String := joinPath c.currentPathPrefix localKey

/-- `swap_path_prefix`: the previous prefix, and the cells with the next one. -/
def swapPathPrefix (c : Cells) (next : String) : String × Cells :=
  match c.handlerError with
  | some state =>
    (state.pathPrefix, { c with handlerError := some { state with pathPrefix := next } })
  | none =>
    if c.syncDepth = 0 then ("", c)
    else (c.sync.pathPrefix, { c with sync := { c.sync with pathPrefix := next } })

/-- `record_handler_error`. -/
def recordHandlerError (c : Cells) (path message : String) : Cells :=
  match c.handlerError with
  | some state =>
    { c with handlerError := some { state with errors := Fields.insert path message state.errors } }
  | none =>
    if c.syncDepth = 0 then c
    else { c with sync := { c.sync with errors := Fields.insert path message c.sync.errors } }

/-- `current_governance_projection`. -/
def currentGovernanceProjection (c : Cells) : Option GovernanceProjection :=
  match c.handlerError with
  | some state => state.projection
  | none => if c.syncDepth = 0 then none else c.sync.projection

/-- The scope of a check opens: `HANDLER_ERROR.scope`, or the first part of
`with_acl_evaluation_scope_sync`. -/
def enterScope (c : Cells) (mode : CompoundMode) (projection : Option GovernanceProjection) : Cells :=
  match mode with
  | .async => { c with handlerError := some (.fresh projection) }
  | .sync => { c with syncDepth := c.syncDepth + 1, sync := .fresh projection }

/-- The scope closes over the cells it was opened on: what it captured, and the cells it leaves. -/
def leaveScope (previous : Cells) (mode : CompoundMode) (c : Cells) : Option String × Cells :=
  match mode with
  | .async =>
    (joinHandlerErrors ((c.handlerError.map (·.errors)).getD []),
      { c with handlerError := previous.handlerError })
  | .sync =>
    (joinHandlerErrors c.sync.errors,
      { c with syncDepth := c.syncDepth - 1, sync := previous.sync })

end Cells

/-! ## What runs in a check -/

/-- One report: `report_condition_unevaluable`, `report_condition_unevaluable_at`, that of a `$or`
branch that is no object, or `report_handler_error`. -/
inductive Note where
  | unevaluable (localKey reason : String)
  | unevaluableAt (path reason : String)
  | branch
  | handlerError (message : String)
  deriving DecidableEq, Repr

/-- The entry of a report made under a path prefix. -/
def Note.entry (pathPrefix : String) : Note → String × String
  | unevaluable localKey reason => reportAt (joinPath pathPrefix localKey) reason
  | unevaluableAt path reason => reportAt path reason
  | branch => reportAt pathPrefix "$or branch must be a condition object"
  | handlerError message =>
    (match splitOnce ':' message with
      | some (lead, _) => String.ofList (rustTrim lead.toList)
      | none => message, message)

/-- What happens in a check: the `arguments` handler reads the projection, something is reported, a
compound operator enters a segment for as long as its operand takes, or a handler starts a check. -/
inductive Action where
  | readProjection
  | note (note : Note)
  | enter (segment : String) (body : List Action)
  | check (mode : CompoundMode) (projection : Option GovernanceProjection) (body : List Action)

mutual

/-- The cells after an action, and the projections read by the check it belongs to; those that a
nested check reads are its own. -/
def exec (c : Cells) : Action → Cells × List (Option GovernanceProjection)
  | .readProjection => (c, [c.currentGovernanceProjection])
  | .note n => (c.recordHandlerError (n.entry c.currentPathPrefix).1 (n.entry c.currentPathPrefix).2, [])
  | .enter segment body =>
    let entered := c.swapPathPrefix (c.conditionPath segment)
    let ran := execAll entered.2 body
    ((ran.1.swapPathPrefix entered.1).2, ran.2)
  | .check mode projection body =>
    ((c.leaveScope mode (execAll (c.enterScope mode projection) body).1).2, [])

def execAll (c : Cells) : List Action → Cells × List (Option GovernanceProjection)
  | [] => (c, [])
  | action :: rest =>
    ((execAll (exec c action).1 rest).1, (exec c action).2 ++ (execAll (exec c action).1 rest).2)

end

/-! ## A scope of its own -/

mutual

/-- What an action does to the scope of the check it belongs to, when that is the only one. -/
def own (state : CaptureState) : Action → CaptureState
  | .readProjection | .check _ _ _ => state
  | .note n =>
    { state with errors := Fields.insert (n.entry state.pathPrefix).1 (n.entry state.pathPrefix).2
                             state.errors }
  | .enter segment body =>
    { ownAll { state with pathPrefix := joinPath state.pathPrefix segment } body with
      pathPrefix := state.pathPrefix }

def ownAll (state : CaptureState) : List Action → CaptureState
  | [] => state
  | action :: rest => ownAll (own state action) rest

end

/-- A check that is started in these cells is isolated: it reads its own projection, captures the
errors that are its own, and leaves both cells, the enclosing check's with them, as they were. -/
structure CheckIsolated (c : Cells) (mode : CompoundMode)
    (projection : Option GovernanceProjection) (body : List Action) : Prop where
  reads : ∀ read ∈ (execAll (c.enterScope mode projection) body).2, read = projection
  records : (c.leaveScope mode (execAll (c.enterScope mode projection) body).1).1 =
    joinHandlerErrors (ownAll (.fresh projection) body).errors
  restores : (c.leaveScope mode (execAll (c.enterScope mode projection) body).1).2 = c

mutual

/-- Every check of a run is isolated, at any depth. -/
def Isolated (c : Cells) : Action → Prop
  | .readProjection | .note _ => True
  | .enter segment body => IsolatedAll (c.swapPathPrefix (c.conditionPath segment)).2 body
  | .check mode projection body =>
    CheckIsolated c mode projection body ∧ IsolatedAll (c.enterScope mode projection) body

def IsolatedAll (c : Cells) : List Action → Prop
  | [] => True
  | action :: rest => Isolated c action ∧ IsolatedAll (exec c action).1 rest

end

/-! ## The condition -/

mutual

/-- What a sync check may do by itself where an async check with projection `outer` is around it:
report nothing, and read its projection only where the two are the same. -/
def Quiet (projection outer : Option GovernanceProjection) : Action → Prop
  | .readProjection => projection = outer
  | .note _ => False
  | .enter _ body => QuietAll projection outer body
  | .check _ _ _ => True

def QuietAll (projection outer : Option GovernanceProjection) : List Action → Prop
  | [] => True
  | action :: rest => Quiet projection outer action ∧ QuietAll projection outer rest

end

mutual

/-- Every sync check inside an async one is quiet; `outer` is the projection of the innermost async
check around, if any. -/
def Separate (outer : Option (Option GovernanceProjection)) : Action → Prop
  | .readProjection | .note _ => True
  | .enter _ body => SeparateAll outer body
  | .check .async projection body => SeparateAll (some projection) body
  | .check .sync projection body =>
    (∀ around ∈ outer, QuietAll projection around body) ∧ SeparateAll outer body

def SeparateAll (outer : Option (Option GovernanceProjection)) : List Action → Prop
  | [] => True
  | action :: rest => Separate outer action ∧ SeparateAll outer rest

end

/-! ## What a run keeps, whatever it does -/

/-- The projections in force and the depth stay, and so does all of the thread-local state where the
task-local is set. -/
structure Kept (c c' : Cells) : Prop where
  outer : c'.handlerError.map (·.projection) = c.handlerError.map (·.projection)
  depth : c'.syncDepth = c.syncDepth
  projection : c'.sync.projection = c.sync.projection
  shadowed : c.handlerError.isSome → c'.sync = c.sync

theorem Kept.refl (c : Cells) : Kept c c := ⟨rfl, rfl, rfl, fun _ => rfl⟩

theorem Kept.isSome {c c' : Cells} (h : Kept c c') :
    c'.handlerError.isSome = c.handlerError.isSome := by
  have houter := congrArg Option.isSome h.outer
  simpa using houter

theorem Kept.trans {c c' c'' : Cells} (h : Kept c c') (h' : Kept c' c'') : Kept c c'' where
  outer := h'.outer.trans h.outer
  depth := h'.depth.trans h.depth
  projection := h'.projection.trans h.projection
  shadowed hsome := (h'.shadowed (by rw [h.isSome]; exact hsome)).trans (h.shadowed hsome)

theorem Kept.currentGovernanceProjection {c c' : Cells} (h : Kept c c') :
    c'.currentGovernanceProjection = c.currentGovernanceProjection := by
  have houter := h.outer
  unfold Cells.currentGovernanceProjection
  cases hc : c.handlerError with
  | none =>
    cases hc' : c'.handlerError with
    | none => simp only [h.depth, h.projection]
    | some state' =>
      rw [hc, hc'] at houter
      cases houter
  | some state =>
    cases hc' : c'.handlerError with
    | none =>
      rw [hc, hc'] at houter
      cases houter
    | some state' =>
      rw [hc, hc'] at houter
      exact Option.some.inj houter

theorem kept_recordHandlerError (c : Cells) (path message : String) :
    Kept c (c.recordHandlerError path message) := by
  unfold Cells.recordHandlerError
  cases hc : c.handlerError with
  | some state => exact ⟨by rw [hc]; rfl, rfl, rfl, fun _ => rfl⟩
  | none =>
    dsimp only
    split
    · exact Kept.refl c
    · exact ⟨by rw [hc], rfl, rfl, fun h => by rw [hc] at h; cases h⟩

theorem kept_swapPathPrefix (c : Cells) (next : String) : Kept c (c.swapPathPrefix next).2 := by
  unfold Cells.swapPathPrefix
  cases hc : c.handlerError with
  | some state => exact ⟨by rw [hc]; rfl, rfl, rfl, fun _ => rfl⟩
  | none =>
    dsimp only
    split
    · exact Kept.refl c
    · exact ⟨by rw [hc], rfl, rfl, fun h => by rw [hc] at h; cases h⟩

/-- A scope gives back what a run inside it kept. -/
theorem kept_leaveScope {c ran : Cells} {mode : CompoundMode}
    {projection : Option GovernanceProjection} (h : Kept (c.enterScope mode projection) ran) :
    Kept c (c.leaveScope mode ran).2 := by
  cases mode with
  | async => exact ⟨rfl, h.depth, h.projection, fun _ => h.shadowed rfl⟩
  | sync =>
    have hdepth : ran.syncDepth = c.syncDepth + 1 := h.depth
    refine ⟨h.outer, ?_, rfl, fun _ => rfl⟩
    show ran.syncDepth - 1 = c.syncDepth
    omega

mutual

theorem kept_exec (c : Cells) : ∀ action : Action, Kept c (exec c action).1
  | .readProjection => by
    rw [exec]
    exact Kept.refl c
  | .note n => by
    rw [exec]
    exact kept_recordHandlerError c _ _
  | .enter segment body => by
    rw [exec]
    have hentered := kept_swapPathPrefix c (c.conditionPath segment)
    exact (hentered.trans (kept_execAll _ body)).trans (kept_swapPathPrefix _ _)
  | .check mode projection body => by
    rw [exec]
    exact kept_leaveScope (kept_execAll _ body)

theorem kept_execAll (c : Cells) : ∀ actions : List Action, Kept c (execAll c actions).1
  | [] => by
    rw [execAll]
    exact Kept.refl c
  | action :: rest => by
    rw [execAll]
    exact (kept_exec c action).trans (kept_execAll _ rest)

end

mutual

/-- A check reads the projection of the cell that is in force where it started. -/
theorem reads_exec (c : Cells) : ∀ action : Action,
    ∀ read ∈ (exec c action).2, read = c.currentGovernanceProjection
  | .readProjection => by
    rw [exec]
    exact fun read hread => List.mem_singleton.mp hread
  | .note n => by
    rw [exec]
    intro read hread
    cases hread
  | .enter segment body => by
    rw [exec]
    intro read hread
    rw [reads_execAll _ body read hread]
    exact (kept_swapPathPrefix c _).currentGovernanceProjection
  | .check mode projection body => by
    rw [exec]
    intro read hread
    cases hread

theorem reads_execAll (c : Cells) : ∀ actions : List Action,
    ∀ read ∈ (execAll c actions).2, read = c.currentGovernanceProjection
  | [] => by
    rw [execAll]
    intro read hread
    cases hread
  | action :: rest => by
    rw [execAll]
    intro read hread
    rcases List.mem_append.mp hread with hread | hread
    · exact reads_exec c action read hread
    · rw [reads_execAll _ rest read hread]
      exact (kept_exec c action).currentGovernanceProjection

end

/-! ## What a run does to the scope in force -/

/-- A change of the scope in force: of the task-local one when there is one. -/
def Cells.update (c : Cells) (f : CaptureState → CaptureState) : Cells :=
  match c.handlerError with
  | some state => { c with handlerError := some (f state) }
  | none => if c.syncDepth = 0 then c else { c with sync := f c.sync }

theorem Cells.update_async {c : Cells} {state : CaptureState} (h : c.handlerError = some state)
    (f : CaptureState → CaptureState) : c.update f = { c with handlerError := some (f state) } := by
  rw [update, h]

theorem Cells.update_sync {c : Cells} (h : c.handlerError = none) (hdepth : c.syncDepth ≠ 0)
    (f : CaptureState → CaptureState) : c.update f = { c with sync := f c.sync } := by
  rw [update, h]
  exact if_neg hdepth

/-- A change that leaves every state as it is leaves the cells. -/
theorem Cells.update_of_id (c : Cells) {f : CaptureState → CaptureState} (hf : ∀ state, f state = state) :
    c.update f = c := by
  unfold update
  cases hc : c.handlerError with
  | some state =>
    dsimp only
    rw [hf, ← hc]
  | none =>
    dsimp only
    split
    · rfl
    · rw [hf, ← hc]

mutual

/-- A quiet check leaves the scope in force alone. -/
theorem own_of_quiet {projection outer : Option GovernanceProjection} (state : CaptureState) :
    ∀ action : Action, Quiet projection outer action → own state action = state
  | .readProjection => by
    intro _
    rw [own]
  | .note n => by
    intro h
    rw [Quiet] at h
    cases h
  | .enter segment body => by
    intro h
    rw [Quiet] at h
    rw [own, ownAll_of_quiet _ body h]
  | .check mode inner body => by
    intro _
    rw [own]

theorem ownAll_of_quiet {projection outer : Option GovernanceProjection} (state : CaptureState) :
    ∀ actions : List Action, QuietAll projection outer actions → ownAll state actions = state
  | [] => by
    intro _
    rw [ownAll]
  | action :: rest => by
    intro h
    rw [QuietAll] at h
    rw [ownAll, own_of_quiet state action h.1]
    exact ownAll_of_quiet state rest h.2

end

/-- The body of an operator, under the segment it enters. -/
theorem exec_enter {c : Cells} {segment : String} {body : List Action}
    (hbody : ∀ entered : Cells, Kept c entered →
      (execAll entered body).1 = entered.update fun state => ownAll state body) :
    (exec c (.enter segment body)).1 = c.update fun state => own state (.enter segment body) := by
  have hkept := kept_swapPathPrefix c (c.conditionPath segment)
  rw [exec]
  dsimp only
  rw [hbody _ hkept]
  cases hc : c.handlerError with
  | some state =>
    simp [Cells.swapPathPrefix, Cells.conditionPath, Cells.currentPathPrefix, Cells.update, hc, own]
  | none =>
    by_cases hdepth : c.syncDepth = 0
    · simp [Cells.swapPathPrefix, Cells.update, hc, hdepth]
    · simp [Cells.swapPathPrefix, Cells.conditionPath, Cells.currentPathPrefix, Cells.update, hc,
        hdepth, own]

/-- A check whose body does to its scope what it would do to one of its own leaves no trace. -/
theorem exec_check {c : Cells} {mode : CompoundMode} {projection : Option GovernanceProjection}
    {body : List Action}
    (hbody : (execAll (c.enterScope mode projection) body).1 =
      (c.enterScope mode projection).update fun state => ownAll state body)
    (hquiet : mode = .sync → ∀ around ∈ c.handlerError, ownAll around body = around) :
    (c.leaveScope mode (execAll (c.enterScope mode projection) body).1).2 = c := by
  rw [hbody]
  cases mode with
  | async => rw [Cells.update_async rfl]; rfl
  | sync =>
    have hopen : (c.enterScope .sync projection).handlerError = c.handlerError := rfl
    have hdepth : (c.enterScope .sync projection).syncDepth ≠ 0 := Nat.succ_ne_zero _
    cases hc : c.handlerError with
    | none =>
      rw [Cells.update_sync (hopen.trans hc) hdepth]
      rfl
    | some around =>
      rw [Cells.update_async (hopen.trans hc), hquiet rfl around hc, ← hc]
      rfl

mutual

/-- Where the sync checks inside async ones are quiet, a run acts on the scope in force only, and as
on one of its own. -/
theorem exec_of_separate (c : Cells) : ∀ action : Action,
    Separate (c.handlerError.map (·.projection)) action →
      (exec c action).1 = c.update fun state => own state action
  | .readProjection => by
    intro _
    rw [exec]
    exact (c.update_of_id fun state => by rw [own]).symm
  | .note n => by
    intro _
    rw [exec]
    cases hc : c.handlerError with
    | some state => simp [Cells.recordHandlerError, Cells.currentPathPrefix, Cells.update, hc, own]
    | none => simp [Cells.recordHandlerError, Cells.currentPathPrefix, Cells.update, hc, own]
  | .enter segment body => by
    intro h
    rw [Separate] at h
    refine exec_enter fun entered hkept => ?_
    exact execAll_of_separate entered body (hkept.outer ▸ h)
  | .check .async projection body => by
    intro h
    rw [Separate] at h
    rw [exec]
    have hbody := execAll_of_separate (c.enterScope .async projection) body h
    refine (exec_check hbody (fun hmode => by cases hmode)).trans ?_
    exact (c.update_of_id fun state => by rw [own]).symm
  | .check .sync projection body => by
    intro h
    rw [Separate] at h
    rw [exec]
    have hbody := execAll_of_separate (c.enterScope .sync projection) body h.2
    refine (exec_check hbody fun _ around haround => ?_).trans ?_
    · refine ownAll_of_quiet around body (h.1 around.projection ?_)
      exact Option.mem_map_of_mem _ haround
    · exact (c.update_of_id fun state => by rw [own]).symm

theorem execAll_of_separate (c : Cells) : ∀ actions : List Action,
    SeparateAll (c.handlerError.map (·.projection)) actions →
      (execAll c actions).1 = c.update fun state => ownAll state actions
  | [] => by
    intro _
    rw [execAll]
    exact (c.update_of_id fun state => by rw [ownAll]).symm
  | action :: rest => by
    intro h
    rw [SeparateAll] at h
    rw [execAll]
    have hrest := execAll_of_separate (exec c action).1 rest
      ((kept_exec c action).outer ▸ h.2)
    rw [hrest, exec_of_separate c action h.1]
    simp only [ownAll]
    unfold Cells.update
    cases hc : c.handlerError with
    | some state => rfl
    | none =>
      by_cases hdepth : c.syncDepth = 0
      · simp [hdepth, hc]
      · simp [hdepth]

end

/-! ## What betrays a check that is not quiet -/

theorem joinHandlerErrors_eq_none {errors : List (String × String)} :
    joinHandlerErrors errors = none ↔ errors = [] := by
  unfold joinHandlerErrors
  cases errors <;> simp

theorem insert_ne_nil (path message : String) (errors : List (String × String)) :
    Fields.insert path message errors ≠ [] := by
  cases errors with
  | nil => simp [Fields.insert]
  | cons entry rest =>
    rw [Fields.insert]
    split_ifs <;> simp

mutual

/-- An error that is recorded stays recorded. -/
theorem own_errors_ne {state : CaptureState} (h : state.errors ≠ []) :
    ∀ action : Action, (own state action).errors ≠ []
  | .readProjection => by
    rw [own]
    exact h
  | .note n => by
    rw [own]
    exact insert_ne_nil _ _ _
  | .enter segment body => by
    rw [own]
    apply ownAll_errors_ne _ body
    exact h
  | .check mode projection body => by
    rw [own]
    exact h

theorem ownAll_errors_ne {state : CaptureState} (h : state.errors ≠ []) :
    ∀ actions : List Action, (ownAll state actions).errors ≠ []
  | [] => by
    rw [ownAll]
    exact h
  | action :: rest => by
    rw [ownAll]
    exact ownAll_errors_ne (own_errors_ne h action) rest

end

mutual

/-- A check that reads no projection but its own and records nothing is quiet. -/
theorem quiet_of_own {projection : Option GovernanceProjection} (c : Cells) (state : CaptureState) :
    ∀ action : Action, (∀ read ∈ (exec c action).2, read = projection) →
      (own state action).errors = [] → Quiet projection c.currentGovernanceProjection action
  | .readProjection => by
    intro hreads _
    rw [exec] at hreads
    rw [Quiet]
    exact (hreads _ List.mem_cons_self).symm
  | .note n => by
    intro _ herrors
    rw [own] at herrors
    exact absurd herrors (insert_ne_nil _ _ _)
  | .enter segment body => by
    intro hreads herrors
    rw [exec] at hreads
    rw [own] at herrors
    rw [Quiet]
    have hbody := quietAll_of_own (c.swapPathPrefix (c.conditionPath segment)).2 _ body hreads herrors
    rwa [(kept_swapPathPrefix c _).currentGovernanceProjection] at hbody
  | .check mode inner body => by
    intro _ _
    rw [Quiet]
    trivial

theorem quietAll_of_own {projection : Option GovernanceProjection} (c : Cells) (state : CaptureState) :
    ∀ actions : List Action, (∀ read ∈ (execAll c actions).2, read = projection) →
      (ownAll state actions).errors = [] →
        QuietAll projection c.currentGovernanceProjection actions
  | [] => by
    intro _ _
    rw [QuietAll]
    trivial
  | action :: rest => by
    intro hreads herrors
    rw [execAll] at hreads
    obtain ⟨hfirst, hrest⟩ := List.forall_mem_append.mp hreads
    rw [ownAll] at herrors
    rw [QuietAll]
    have hnone : (own state action).errors = [] := by
      by_contra hne
      exact ownAll_errors_ne hne rest herrors
    have hquiet := quietAll_of_own (exec c action).1 (own state action) rest hrest herrors
    rw [(kept_exec c action).currentGovernanceProjection] at hquiet
    exact ⟨quiet_of_own c state action hfirst hnone, hquiet⟩

end

mutual

/-- A quiet check has read something only where its projection is the one in force. -/
theorem quiet_reads {projection outer : Option GovernanceProjection} (c : Cells) :
    ∀ action : Action, Quiet projection outer action → (exec c action).2 ≠ [] → projection = outer
  | .readProjection => by
    intro h _
    rw [Quiet] at h
    exact h
  | .note n => by
    intro h _
    rw [Quiet] at h
    cases h
  | .enter segment body => by
    intro h hne
    rw [Quiet] at h
    rw [exec] at hne
    exact quietAll_reads _ body h hne
  | .check mode inner body => by
    intro _ hne
    rw [exec] at hne
    exact absurd rfl hne

theorem quietAll_reads {projection outer : Option GovernanceProjection} (c : Cells) :
    ∀ actions : List Action, QuietAll projection outer actions → (execAll c actions).2 ≠ [] →
      projection = outer
  | [] => by
    intro _ hne
    rw [execAll] at hne
    exact absurd rfl hne
  | action :: rest => by
    intro h hne
    rw [QuietAll] at h
    rw [execAll] at hne
    by_cases hfirst : (exec c action).2 = []
    · refine quietAll_reads (exec c action).1 rest h.2 fun hrest => hne ?_
      show (exec c action).2 ++ _ = []
      rw [hfirst, hrest, List.append_nil]
    · exact quiet_reads c action h.1 hfirst

end

/-! ## Which checks are isolated -/

/-- A check is isolated when its body acts on one scope only, and is quiet inside an async check. -/
theorem checkIsolated_of_separate {c : Cells} {mode : CompoundMode}
    {projection : Option GovernanceProjection} {body : List Action}
    (hbody : SeparateAll ((c.enterScope mode projection).handlerError.map (·.projection)) body)
    (hquiet : mode = .sync → ∀ around ∈ c.handlerError, QuietAll projection around.projection body) :
    CheckIsolated c mode projection body := by
  have hran := execAll_of_separate (c.enterScope mode projection) body hbody
  have hreads := reads_execAll (c.enterScope mode projection) body
  refine ⟨fun read hread => ?_, ?_, ?_⟩
  · rw [hreads read hread]
    cases mode with
    | async => rfl
    | sync =>
      cases hc : c.handlerError with
      | none =>
        unfold Cells.currentGovernanceProjection Cells.enterScope
        simp only [hc]
        exact if_neg (Nat.succ_ne_zero _)
      | some around =>
        have hsame := quietAll_reads (c.enterScope .sync projection) body (hquiet rfl around hc)
          (List.ne_nil_of_mem hread)
        rw [hsame]
        simp only [Cells.currentGovernanceProjection, Cells.enterScope, hc]
  · rw [hran]
    cases mode with
    | async =>
      rw [Cells.update_async rfl]
      rfl
    | sync =>
      have hopen : (c.enterScope .sync projection).handlerError = c.handlerError := rfl
      have hdepth : (c.enterScope .sync projection).syncDepth ≠ 0 := Nat.succ_ne_zero _
      cases hc : c.handlerError with
      | none =>
        rw [Cells.update_sync (hopen.trans hc) hdepth]
        rfl
      | some around =>
        have hown := ownAll_of_quiet (.fresh projection) body (hquiet rfl around hc)
        rw [Cells.update_async (hopen.trans hc), hown]
        rfl
  · exact exec_check hran fun hmode around haround =>
      ownAll_of_quiet around body (hquiet hmode around haround)

/-- An isolated sync check inside an async one is quiet. -/
theorem CheckIsolated.quiet {c : Cells} {projection : Option GovernanceProjection}
    {body : List Action} (h : CheckIsolated c .sync projection body) {around : CaptureState}
    (haround : c.handlerError = some around) : QuietAll projection around.projection body := by
  have hkept := kept_execAll (c.enterScope .sync projection) body
  have hsync : (execAll (c.enterScope .sync projection) body).1.sync = .fresh projection :=
    hkept.shadowed (by
      show c.handlerError.isSome
      rw [haround]
      rfl)
  have herrors : (ownAll (.fresh projection) body).errors = [] := by
    rw [← joinHandlerErrors_eq_none, ← h.records]
    show joinHandlerErrors (execAll (c.enterScope .sync projection) body).1.sync.errors = none
    rw [hsync]
    rfl
  have hquiet := quietAll_of_own (c.enterScope .sync projection) _ body h.reads herrors
  have hforce : (c.enterScope .sync projection).currentGovernanceProjection = around.projection := by
    simp only [Cells.currentGovernanceProjection, Cells.enterScope, haround]
  rwa [hforce] at hquiet

mutual

theorem isolated_iff (c : Cells) : ∀ action : Action,
    Isolated c action ↔ Separate (c.handlerError.map (·.projection)) action
  | .readProjection | .note _ => by simp only [Isolated, Separate]
  | .enter segment body => by
    rw [Isolated, Separate, isolatedAll_iff _ body, (kept_swapPathPrefix c _).outer]
  | .check .async projection body => by
    rw [Isolated, Separate, isolatedAll_iff _ body]
    constructor
    · exact fun h => h.2
    · exact fun h => ⟨checkIsolated_of_separate h (fun hmode => by cases hmode), h⟩
  | .check .sync projection body => by
    rw [Isolated, Separate, isolatedAll_iff _ body]
    constructor
    · rintro ⟨hcheck, hbody⟩
      refine ⟨fun around haround => ?_, hbody⟩
      obtain ⟨state, hstate, rfl⟩ := Option.map_eq_some_iff.mp haround
      exact hcheck.quiet hstate
    · rintro ⟨hquiet, hbody⟩
      refine ⟨checkIsolated_of_separate hbody fun _ around haround => ?_, hbody⟩
      exact hquiet around.projection (Option.mem_map_of_mem _ haround)

/-- The checks of a run are isolated when the sync ones inside async ones are quiet, from whatever
cells the run starts. -/
theorem isolatedAll_iff (c : Cells) : ∀ actions : List Action,
    IsolatedAll c actions ↔ SeparateAll (c.handlerError.map (·.projection)) actions
  | [] => by simp only [IsolatedAll, SeparateAll]
  | action :: rest => by
    rw [IsolatedAll, SeparateAll, isolated_iff c action, isolatedAll_iff _ rest,
      (kept_exec c action).outer]

end

/-- **Which nestings of checks are isolated**: exactly those in which every sync check inside an
async one is quiet. Sync checks inside sync ones and async checks inside async ones always are. -/
theorem nesting_isolated_iff (actions : List Action) :
    IsolatedAll .idle actions ↔ SeparateAll none actions :=
  isolatedAll_iff .idle actions

/-- An async check on a call with an argument, in which a handler starts a sync check that reads its
own (empty) projection: it gets the enclosing one, and its error lands there. -/
theorem not_isolated_syncInAsync :
    ¬ ∀ actions : List Action, IsolatedAll .idle actions := by
  intro h
  have hisolated := h [.check .async (some { keys := ["amount"] })
    [.check .sync none [.readProjection, .note (.unevaluable "k" "unknown ACL condition")]]]
  rw [isolatedAll_iff] at hisolated
  simp only [SeparateAll, Separate, QuietAll, Quiet] at hisolated
  exact (hisolated.1.1.1 _ rfl).2.1

end Apcore.Scopes
