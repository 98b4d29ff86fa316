import Apcore.Pipeline.StrategyEdits

/-! # `Pipeline.StrategyInvariant` — what the mutators of a strategy keep

The index is rebuilt by every mutator, so it is right where the names are distinct. The names stay
distinct but for `replace_with`, which checks none. The dependencies are the delicate part: only the
constructor and the insertions check them, and an insertion does so when the step is already in.
`strategy_sound_iff` says which calls keep a strategy sound, and `failed_call_atomic_iff` which
failing calls leave it as it was. -/

namespace Apcore

namespace StrategyTable

variable {σ : Type}

/-! ## The invariant -/

/-- What a strategy is to be: distinct names, an index that is exact, dependencies met. -/
structure Sound (table : StrategyTable σ) : Prop where
  names_unique : (table.steps.map (·.name)).Nodup
  index_exact : ∀ name i, table.nameToIdx name = some i ↔
    ∃ step, table.steps[i]? = some step ∧ step.name = name
  dependencies_met : DependenciesMet table.steps

theorem sound_withSteps_iff (table : StrategyTable σ) (steps : List (Step σ)) :
    (table.withSteps steps).Sound ↔ (steps.map (·.name)).Nodup ∧ DependenciesMet steps :=
  ⟨fun h => ⟨h.names_unique, h.dependencies_met⟩,
    fun h => ⟨h.1, fun name i => indexOf_eq_some_iff h.1 name i, h.2⟩⟩

/-- The constructor's loop passes distinct names and intact gates only. -/
theorem checkSteps_ok {strategyName : String} {seen : List String} {steps : List (Step σ)}
    (h : checkSteps strategyName seen steps = .ok ()) :
    (steps.map (·.name)).Nodup ∧ (∀ step ∈ steps, step.name ∉ seen) ∧
      ∀ step ∈ steps, step.GateIntact := by
  induction steps generalizing seen with
  | nil => exact ⟨List.nodup_nil, by simp, by simp⟩
  | cons step rest ih =>
    rw [checkSteps] at h
    rcases rejectWeakenedGate_cases step with ⟨hgate, hok⟩ | ⟨-, e, herr⟩
    · rw [hok] at h
      change (if seen.contains step.name = true then _ else _) = _ at h
      split_ifs at h with hseen
      obtain ⟨hunique, hfresh, hgates⟩ := ih h
      have hnew : ∀ later ∈ rest, later.name ≠ step.name := fun later hlater heq =>
        hfresh later hlater (by rw [heq]; exact List.mem_cons_self)
      refine ⟨?_, ?_, ?_⟩
      · rw [List.map_cons, List.nodup_cons]
        refine ⟨fun hmem => ?_, hunique⟩
        obtain ⟨later, hlater, heq⟩ := List.mem_map.mp hmem
        exact hnew later hlater heq
      · rintro later (_ | ⟨_, hlater⟩)
        · simpa using hseen
        · exact fun hmem => hfresh later hlater (List.mem_cons_of_mem _ hmem)
      · rintro later (_ | ⟨_, hlater⟩)
        · exact hgate
        · exact hgates later hlater
    · rw [herr] at h
      cases h

/-- What the constructor returns. -/
theorem new_ok {name : String} {steps : List (Step σ)} {table : StrategyTable σ}
    (h : new name steps = .ok table) :
    table.steps = steps ∧ table.nameToIdx = indexOf steps ∧
      (∀ step ∈ steps, step.GateIntact) ∧ table.Sound := by
  unfold new at h
  cases hcheck : checkSteps name [] steps with
  | error e => rw [hcheck] at h; cases h
  | ok u =>
    obtain ⟨hunique, -, hgates⟩ := checkSteps_ok hcheck
    rw [hcheck] at h
    set built : StrategyTable σ := { name, steps, nameToIdx := indexOf steps } with hbuilt
    change (built.validateDependencies >>= fun _ => pure built) = .ok table at h
    cases hdeps : built.validateDependencies with
    | error e => rw [hdeps] at h; cases h
    | ok u =>
      rw [hdeps] at h
      have htable : built = table := Except.ok.inj h
      rw [← htable]
      refine ⟨rfl, rfl, hgates, ⟨hunique, fun name i => ?_, ?_⟩⟩
      · exact indexOf_eq_some_iff hunique name i
      · exact (validateDependencies_ok_iff built).mp hdeps

/-- A call that keeps a sound strategy sound. What it needs differs: the requirements of an inserted
step are there; no later step depends on a removed one alone; a replacement needs and provides the
right things, and where `replace_with` put it, its name is no other step's. -/
def Harmless (table : StrategyTable σ) : StrategyOp σ → Prop
  | .insertAfter anchor step => step.GateIntact → table.nameToIdx step.name = none →
      ∀ k, table.nameToIdx anchor = some k →
        ∀ req ∈ step.requires, ProvidedBefore table.steps (k + 1) req
  | .insertBefore anchor step => step.GateIntact → table.nameToIdx step.name = none →
      ∀ k, table.nameToIdx anchor = some k →
        ∀ req ∈ step.requires, ProvidedBefore table.steps k req
  | .remove stepName => ∀ k step, table.nameToIdx stepName = some k →
      table.steps[k]? = some step → step.removable = true → Dispensable table.steps k
  | .replace stepName newStep => ∀ k step, table.nameToIdx stepName = some k →
      table.steps[k]? = some step → step.replaceable = true →
      newStep.name = stepName ∨ table.nameToIdx newStep.name = none → newStep.GateIntact →
      CanReplace table.steps k newStep
  | .configureStep stepName newStep => ∀ k step, table.nameToIdx stepName = some k →
      table.steps[k]? = some step → step.replaceable = true →
      newStep.name = stepName ∨ table.nameToIdx newStep.name = none → newStep.GateIntact →
      CanReplace table.steps k newStep
  | .replaceWith stepName wrapper => ∀ k step, table.nameToIdx stepName = some k →
      table.steps[k]? = some step →
      ((wrapper step).name = stepName ∨ table.nameToIdx (wrapper step).name = none) ∧
        CanReplace table.steps k (wrapper step)

/-- A call that installs nothing is harmless. -/
theorem harmless_of_not_installs {table : StrategyTable σ} {op : StrategyOp σ}
    (h : ∀ steps, ¬ Installs table op steps) : Harmless table op := by
  cases op with
  | insertAfter anchor step => exact fun hgate hfresh k hk => (h _ (.insertAfter hgate hfresh hk)).elim
  | insertBefore anchor step =>
    exact fun hgate hfresh k hk => (h _ (.insertBefore hgate hfresh hk)).elim
  | remove stepName => exact fun k step hk hstep hrem => (h _ (.remove hk hstep hrem)).elim
  | replace stepName newStep =>
    exact fun k step hk hstep hrep hnew hgate => (h _ (.replace hk hstep hrep hnew hgate)).elim
  | configureStep stepName newStep =>
    exact fun k step hk hstep hrep hnew hgate => (h _ (.configureStep hk hstep hrep hnew hgate)).elim
  | replaceWith stepName wrapper => exact fun k step hk hstep => (h _ (.replaceWith hk hstep)).elim

section Edits

variable {table : StrategyTable σ} (hsound : table.Sound)
include hsound

theorem Sound.index_lt {name : String} {k : Nat} (hk : table.nameToIdx name = some k) :
    k < table.steps.length := by
  obtain ⟨step, hstep, -⟩ := (hsound.index_exact name k).mp hk
  exact (List.getElem?_eq_some_iff.mp hstep).1

/-- The index has no entry exactly where no step has the name. -/
theorem Sound.index_none_iff (name : String) :
    table.nameToIdx name = none ↔ name ∉ table.steps.map (·.name) := by
  constructor
  · intro hnone hmem
    obtain ⟨step, hstep, hname⟩ := List.mem_map.mp hmem
    obtain ⟨i, hi⟩ := List.mem_iff_getElem?.mp hstep
    have hsome := (hsound.index_exact name i).mpr ⟨step, hi, hname⟩
    rw [hnone] at hsome
    cases hsome
  · intro hmem
    cases hindex : table.nameToIdx name with
    | none => rfl
    | some i =>
      obtain ⟨step, hstep, hname⟩ := (hsound.index_exact name i).mp hindex
      exact absurd (List.mem_map.mpr ⟨step, List.mem_of_getElem? hstep, hname⟩) hmem

theorem Sound.insert_iff {anchor : String} {k : Nat} (hk : table.nameToIdx anchor = some k)
    {position : Nat} (hposition : position ≤ k + 1) {step : Step σ}
    (hfresh : table.nameToIdx step.name = none) :
    (table.withSteps (table.steps.insertIdx position step)).Sound ↔
      ∀ req ∈ step.requires, ProvidedBefore table.steps position req := by
  have hlt := hsound.index_lt hk
  have hnames : ((table.steps.insertIdx position step).map (·.name)).Nodup := by
    have hperm := (List.perm_insertIdx step table.steps (show position ≤ _ by omega)).map (·.name)
    rw [hperm.nodup_iff, List.map_cons, List.nodup_cons]
    exact ⟨(hsound.index_none_iff step.name).mp hfresh, hsound.names_unique⟩
  rw [sound_withSteps_iff,
    dependenciesMet_insertIdx_iff hsound.dependencies_met (by omega)]
  exact and_iff_right hnames

theorem Sound.remove_iff (k : Nat) :
    (table.withSteps (table.steps.eraseIdx k)).Sound ↔ Dispensable table.steps k := by
  have hnames : ((table.steps.eraseIdx k).map (·.name)).Nodup :=
    hsound.names_unique.sublist ((List.eraseIdx_sublist _ k).map _)
  rw [sound_withSteps_iff, dependenciesMet_eraseIdx_iff hsound.dependencies_met]
  exact and_iff_right hnames

/-- The names stay distinct exactly where the new one is no other step's. -/
theorem Sound.names_set_iff {stepName : String} {k : Nat}
    (hk : table.nameToIdx stepName = some k) (newStep : Step σ) :
    ((table.steps.set k newStep).map (·.name)).Nodup ↔
      newStep.name = stepName ∨ table.nameToIdx newStep.name = none := by
  have hlt : k < (table.steps.map (·.name)).length := by
    rw [List.length_map]
    exact hsound.index_lt hk
  rw [List.map_set, hsound.index_none_iff]
  constructor
  · intro hunique
    by_cases hmem : newStep.name ∈ table.steps.map (·.name)
    · left
      obtain ⟨step, hstep, hname⟩ := List.mem_map.mp hmem
      obtain ⟨i, hi⟩ := List.mem_iff_getElem?.mp hstep
      by_cases hik : i = k
      · subst hik
        have hindex := (hsound.index_exact stepName i).mp hk
        obtain ⟨old, hold, holdName⟩ := hindex
        obtain rfl := Option.some.inj (hi.symm.trans hold)
        exact hname.symm.trans holdName
      · have hilt : i < ((table.steps.map (·.name)).set k newStep.name).length := by
          rw [List.length_set, List.length_map]
          exact (List.getElem?_eq_some_iff.mp hi).1
        have hsame : ((table.steps.map (·.name)).set k newStep.name)[i]? =
            ((table.steps.map (·.name)).set k newStep.name)[k]? := by
          rw [List.getElem?_set_ne (Ne.symm hik), List.getElem?_set_self hlt, List.getElem?_map, hi,
            Option.map_some, hname]
        exact absurd ((List.getElem?_inj hilt hunique).mp hsame) hik
    · exact .inr hmem
  · rintro (hsame | hfresh)
    · obtain ⟨old, hold, holdName⟩ := (hsound.index_exact stepName k).mp hk
      have hself : (table.steps.map (·.name)).set k newStep.name = table.steps.map (·.name) := by
        refine List.ext_getElem? fun i => ?_
        by_cases hik : i = k
        · subst hik
          rw [List.getElem?_set_self hlt, List.getElem?_map, hold, Option.map_some, holdName, hsame]
        · rw [List.getElem?_set_ne (Ne.symm hik)]
      rw [hself]
      exact hsound.names_unique
    · exact hsound.names_unique.set hfresh

theorem Sound.set_iff {stepName : String} {k : Nat} (hk : table.nameToIdx stepName = some k)
    (newStep : Step σ) :
    (table.withSteps (table.steps.set k newStep)).Sound ↔
      (newStep.name = stepName ∨ table.nameToIdx newStep.name = none) ∧
        CanReplace table.steps k newStep := by
  rw [sound_withSteps_iff, hsound.names_set_iff hk,
    dependenciesMet_set_iff hsound.dependencies_met (hsound.index_lt hk)]

end Edits

theorem installed_of_replace (step : Step σ) :
    (installed step).name = step.name ∧ (installed step).requires = step.requires ∧
      (installed step).provides = step.provides := by
  unfold installed neutralised
  cases step.rejectWeakenedGate with
  | ok u => exact ⟨rfl, rfl, rfl⟩
  | error e =>
    cases step.builtinGate with
    | none => exact ⟨rfl, rfl, rfl⟩
    | some gate => exact ⟨rfl, rfl, rfl⟩

theorem canReplace_installed_iff (steps : List (Step σ)) (k : Nat) (step : Step σ) :
    CanReplace steps k (installed step) ↔ CanReplace steps k step := by
  obtain ⟨-, hrequires, hprovides⟩ := installed_of_replace step
  constructor
  · rintro ⟨hrequired, hprovided⟩
    rw [hrequires] at hrequired
    rw [hprovides] at hprovided
    exact ⟨hrequired, hprovided⟩
  · rintro ⟨hrequired, hprovided⟩
    refine ⟨?_, ?_⟩
    · rw [hrequires]
      exact hrequired
    · rw [hprovides]
      exact hprovided

/-- What a call installs in a sound strategy is sound exactly where the call is harmless. -/
theorem Sound.installs_iff {table : StrategyTable σ} (hsound : table.Sound) {op : StrategyOp σ}
    {steps : List (Step σ)} (h : Installs table op steps) :
    (table.withSteps steps).Sound ↔ Harmless table op := by
  cases h with
  | @insertAfter anchor step k hgate hfresh hk =>
    rw [hsound.insert_iff hk le_rfl hfresh]
    refine ⟨fun hreq _ _ j hj => ?_, fun hharm => hharm hgate hfresh k hk⟩
    obtain rfl := Option.some.inj (hk.symm.trans hj)
    exact hreq
  | @insertBefore anchor step k hgate hfresh hk =>
    rw [hsound.insert_iff hk (Nat.le_succ k) hfresh]
    refine ⟨fun hreq _ _ j hj => ?_, fun hharm => hharm hgate hfresh k hk⟩
    obtain rfl := Option.some.inj (hk.symm.trans hj)
    exact hreq
  | @remove stepName k step hk hstep hremovable =>
    rw [hsound.remove_iff]
    refine ⟨fun hdisp j _ hj _ _ => ?_, fun hharm => hharm k step hk hstep hremovable⟩
    obtain rfl := Option.some.inj (hk.symm.trans hj)
    exact hdisp
  | @replace stepName newStep k step hk hstep hreplaceable hnew hgate =>
    rw [hsound.set_iff hk]
    refine ⟨fun hset j _ hj _ _ _ _ => ?_,
      fun hharm => ⟨hnew, hharm k step hk hstep hreplaceable hnew hgate⟩⟩
    obtain rfl := Option.some.inj (hk.symm.trans hj)
    exact hset.2
  | @configureStep stepName newStep k step hk hstep hreplaceable hnew hgate =>
    rw [hsound.set_iff hk]
    refine ⟨fun hset j _ hj _ _ _ _ => ?_,
      fun hharm => ⟨hnew, hharm k step hk hstep hreplaceable hnew hgate⟩⟩
    obtain rfl := Option.some.inj (hk.symm.trans hj)
    exact hset.2
  | @replaceWith stepName wrapper k step hk hstep =>
    rw [hsound.set_iff hk, (installed_of_replace _).1, canReplace_installed_iff]
    refine ⟨fun hset j other hj hother => ?_, fun hharm => hharm k step hk hstep⟩
    obtain rfl := Option.some.inj (hk.symm.trans hj)
    obtain rfl := Option.some.inj (hstep.symm.trans hother)
    exact hset

/-- One call: a sound strategy stays sound exactly where the call is harmless. -/
theorem Sound.apply_iff {table : StrategyTable σ} (hsound : table.Sound) (op : StrategyOp σ) :
    (op.apply table).2.Sound ↔ Harmless table op := by
  rcases apply_cases table op with ⟨⟨e, heq⟩, hnot⟩ | ⟨steps, hinstalls, hafter, -, -⟩
  · rw [heq]
    exact iff_of_true hsound (harmless_of_not_installs hnot)
  · rw [hafter]
    exact hsound.installs_iff hinstalls

/-! ## Runs of calls -/

theorem run_take_succ (table : StrategyTable σ) {ops : List (StrategyOp σ)} {k : Nat}
    {op : StrategyOp σ} (hop : ops[k]? = some op) :
    StrategyOp.run table (ops.take (k + 1)) =
      (op.apply (StrategyOp.run table (ops.take k))).2 := by
  have htake : ops.take (k + 1) = ops.take k ++ [op] := by
    rw [List.take_add_one, hop]
    rfl
  unfold StrategyOp.run
  rw [htake, List.foldl_append]
  rfl

/-- Every strategy reached from a constructor by calls of the mutators is sound if and only if every
call was harmless when it was made. -/
theorem strategy_sound_iff {name : String} {steps : List (Step σ)} {table : StrategyTable σ}
    (hnew : new name steps = .ok table) (ops : List (StrategyOp σ)) :
    (∀ k ≤ ops.length, (StrategyOp.run table (ops.take k)).Sound) ↔
      ∀ k op, ops[k]? = some op → Harmless (StrategyOp.run table (ops.take k)) op := by
  constructor
  · intro hsound k op hop
    have hk : k < ops.length := (List.getElem?_eq_some_iff.mp hop).1
    have hnext := hsound (k + 1) hk
    rw [run_take_succ table hop] at hnext
    exact ((hsound k hk.le).apply_iff op).mp hnext
  · intro hharmless k
    -- by induction on the number of calls made
    induction k with
    | zero => exact fun _ => (new_ok hnew).2.2.2
    | succ k ih =>
      intro hk
      obtain ⟨op, hop⟩ : ∃ op, ops[k]? = some op := ⟨_, List.getElem?_eq_getElem hk⟩
      rw [run_take_succ table hop]
      exact ((ih (Nat.le_of_succ_le hk)).apply_iff op).mpr (hharmless k op hop)

/-! ### What fails -/

/-- A step that provides, and one that requires, a capability. -/
def provider : Step Unit where
  name := "module_lookup"
  provides := ["module"]
  execute := fun ctx => pure (.ok .continueStep, ctx)

def consumer : Step Unit where
  name := "input_validation"
  requires := ["module"]
  execute := fun ctx => pure (.ok .continueStep, ctx)

/-- The strategy of a list of steps that the constructor accepts. -/
def built (name : String) (steps : List (Step Unit)) : StrategyTable Unit :=
  { name, steps, nameToIdx := indexOf steps }

/-- A run of harmless and harmful calls. -/
theorem strategy_sound_iff_remove :
    (∀ k ≤ 1, (StrategyOp.run (built "checked" [provider, consumer])
        ([StrategyOp.remove "input_validation"].take k)).Sound) ↔
      ∀ k op, [StrategyOp.remove "input_validation"][k]? = some op →
        Harmless (StrategyOp.run (built "checked" [provider, consumer])
          ([StrategyOp.remove "input_validation"].take k)) op :=
  @strategy_sound_iff Unit "checked" [provider, consumer] _ rfl [.remove "input_validation"]

/-- `remove` takes a provider out from under the step that needs it. -/
theorem removed_provider_unsound :
    new "checked" [provider, consumer] = .ok (built "checked" [provider, consumer]) ∧
      ¬ (StrategyOp.run (built "checked" [provider, consumer])
        [.remove "module_lookup"]).Sound := by
  refine ⟨rfl, fun hsound => ?_⟩
  have hsteps : (StrategyOp.run (built "checked" [provider, consumer])
      [.remove "module_lookup"]).steps = [consumer] := rfl
  have hmet := hsound.dependencies_met
  rw [hsteps] at hmet
  exact providedBefore_zero _ _ (hmet 0 consumer rfl "module" (by simp [consumer]))

/-! ## Gates -/

/-- The step `replace_with` installs is no weakened gate. -/
theorem installed_gateIntact (step : Step σ) : (installed step).GateIntact := by
  unfold installed
  rcases rejectWeakenedGate_cases step with ⟨hgate, hok⟩ | ⟨-, e, herr⟩
  · rw [hok]
    exact hgate
  · rw [herr]
    cases hb : step.builtinGate with
    | none => exact .of_none hb
    | some gate =>
      intro other hother
      obtain rfl := Option.some.inj hother
      refine ⟨rfl, rfl, fun happroval => ?_⟩
      subst happroval
      rfl

/-- What the checks let through holds no weakened gate if the strategy held none. -/
theorem Installs.gates_intact {table : StrategyTable σ} {op : StrategyOp σ} {steps : List (Step σ)}
    (h : Installs table op steps) (hintact : ∀ step ∈ table.steps, step.GateIntact) :
    ∀ step ∈ steps, step.GateIntact := by
  have hset : ∀ (newStep : Step σ) k, newStep.GateIntact →
      ∀ step ∈ table.steps.set k newStep, step.GateIntact := by
    intro newStep k hnew step hstep
    rcases List.mem_or_eq_of_mem_set hstep with hold | rfl
    · exact hintact step hold
    · exact hnew
  have hinsert : ∀ (newStep : Step σ) k, newStep.GateIntact →
      ∀ step ∈ table.steps.insertIdx k newStep, step.GateIntact := by
    intro newStep k hnew step hstep
    rcases List.eq_or_mem_of_mem_insertIdx hstep with rfl | hold
    · exact hnew
    · exact hintact step hold
  cases h with
  | insertAfter hgate => exact hinsert _ _ hgate
  | insertBefore hgate => exact hinsert _ _ hgate
  | remove => exact fun step hstep => hintact step ((List.eraseIdx_sublist _ _).subset hstep)
  | replace _ _ _ _ hgate => exact hset _ _ hgate
  | configureStep _ _ _ _ hgate => exact hset _ _ hgate
  | replaceWith => exact hset _ _ (installed_gateIntact _)

/-- Whatever the calls, the index is the one of the steps, and no built-in gate is weakened. -/
theorem run_indexed {name : String} {steps : List (Step σ)} {table : StrategyTable σ}
    (hnew : new name steps = .ok table) (ops : List (StrategyOp σ)) :
    (StrategyOp.run table ops).nameToIdx = indexOf (StrategyOp.run table ops).steps ∧
      ∀ step ∈ (StrategyOp.run table ops).steps, step.GateIntact := by
  obtain ⟨hsteps, hindex, hgates, -⟩ := new_ok hnew
  have hstart : table.nameToIdx = indexOf table.steps ∧ ∀ step ∈ table.steps, step.GateIntact := by
    rw [hsteps]
    exact ⟨hindex, hgates⟩
  clear hsteps hindex hgates hnew
  unfold StrategyOp.run
  induction ops generalizing table with
  | nil => exact hstart
  | cons op ops ih =>
    refine ih ?_
    show (op.apply table).2.nameToIdx = indexOf (op.apply table).2.steps ∧
      ∀ step ∈ (op.apply table).2.steps, step.GateIntact
    rcases apply_cases table op with ⟨⟨e, heq⟩, -⟩ | ⟨installs, hinstalls, hafter, -, -⟩
    · rw [heq]
      exact hstart
    · rw [hafter]
      exact ⟨rfl, hinstalls.gates_intact hstart.2⟩

/-- The strategy the engine runs: a table whose gates are intact. -/
def toStrategy (table : StrategyTable σ) (h : ∀ step ∈ table.steps, step.GateIntact) :
    ExecutionStrategy σ where
  name := table.name
  steps := table.steps
  stepMiddlewares := table.stepMiddlewares
  gates_intact := h

/-- The engine looks a name up as the index does. -/
theorem toStrategy_nameToIdx (table : StrategyTable σ) (h : ∀ step ∈ table.steps, step.GateIntact)
    (hindexed : table.nameToIdx = indexOf table.steps) (name : String) :
    (table.toStrategy h).nameToIdx name = table.nameToIdx name := by
  rw [hindexed]
  show table.steps.zipIdx.foldl _ none = indexOf table.steps name
  generalize table.steps = steps
  induction steps using List.reverseRecOn with
  | nil => rfl
  | append_singleton steps step ih =>
    rw [indexOf_append_singleton, List.zipIdx_append, List.foldl_append, ih]
    by_cases hname : step.name = name
    · subst hname
      simp
    · rw [Function.update_of_ne (Ne.symm hname)]
      simp [hname]

/-! ## Calls that fail -/

/-- A failing call leaves the steps and the index as they were. -/
def Atomic (table : StrategyTable σ) (op : StrategyOp σ) : Prop :=
  (∃ e, (op.apply table).1 = .error e) →
    (op.apply table).2.steps = table.steps ∧ (op.apply table).2.nameToIdx = table.nameToIdx

/-- The insertion of a step passes its checks, and with the step in, a requirement is not met. -/
def LeavesUnmet (table : StrategyTable σ) (op : StrategyOp σ) : Prop :=
  op.inserts = true ∧ ∃ steps, Installs table op steps ∧ ¬ DependenciesMet steps

/-- An insertion that passes its checks makes the list longer. -/
theorem Installs.length {table : StrategyTable σ} {op : StrategyOp σ} {steps : List (Step σ)}
    (h : Installs table op steps) (hindexed : table.nameToIdx = indexOf table.steps)
    (hop : op.inserts = true) : steps.length = table.steps.length + 1 := by
  have hlt : ∀ name k, table.nameToIdx name = some k → k < table.steps.length := by
    intro name k hk
    rw [hindexed] at hk
    obtain ⟨step, hstep, -⟩ := indexOf_eq_some hk
    exact (List.getElem?_eq_some_iff.mp hstep).1
  cases h with
  | insertAfter _ _ hk => exact List.length_insertIdx_of_le_length (hlt _ _ hk) _
  | insertBefore _ _ hk => exact List.length_insertIdx_of_le_length (hlt _ _ hk).le _
  | remove => cases hop
  | replace => cases hop
  | configureStep => cases hop
  | replaceWith => cases hop

/-- In every strategy reached from a constructor, a failing call of a mutator other than
`replace_with` leaves steps and index alone, but for the insertions whose step is in when the
dependencies are found unmet. -/
theorem failed_call_atomic_iff {name : String} {steps : List (Step σ)} {table : StrategyTable σ}
    (hnew : new name steps = .ok table) (ops : List (StrategyOp σ)) (op : StrategyOp σ)
    (hop : op.wraps = false) :
    Atomic (StrategyOp.run table ops) op ↔ ¬ LeavesUnmet (StrategyOp.run table ops) op := by
  have hindexed := (run_indexed hnew ops).1
  generalize StrategyOp.run table ops = reached at hindexed ⊢
  rcases apply_cases reached op with
    ⟨⟨e, heq⟩, hnot⟩ | ⟨installs, hinstalls, hafter, hinserted, hothers⟩
  · -- a call that refuses installs nothing
    refine iff_of_true (fun _ => ?_) fun ⟨_, steps, h, _⟩ => hnot steps h
    rw [heq]
    exact ⟨rfl, rfl⟩
  · by_cases hins : op.inserts = true
    · have hvalid := validateDependencies_ok_iff (reached.withSteps installs)
      constructor
      · rintro hatomic ⟨-, steps, hsteps, hunmet⟩
        obtain rfl := hsteps.unique hinstalls
        have herror : ∃ e, (op.apply reached).1 = .error e := by
          rw [hinserted hins]
          cases hres : (reached.withSteps steps).validateDependencies with
          | ok u => exact absurd (hvalid.mp hres) hunmet
          | error e => exact ⟨e, rfl⟩
        have hlength := hsteps.length hindexed hins
        have hkept := (hatomic herror).1
        rw [hafter] at hkept
        have : steps.length = reached.steps.length := congrArg List.length hkept
        omega
      · rintro hmet ⟨e, he⟩
        by_cases hdeps : DependenciesMet installs
        · rw [hinserted hins, hvalid.mpr hdeps] at he
          cases he
        · exact absurd ⟨hins, installs, hinstalls, hdeps⟩ hmet
    · have hfalse : op.inserts = false := by simpa using hins
      refine iff_of_true (fun ⟨e, he⟩ => ?_) fun h => hins h.1
      rw [hothers hfalse hop] at he
      cases he

/-- An insertion behind the last step, with its requirement met. -/
theorem failed_call_atomic_iff_insert :
    Atomic (StrategyOp.run (built "checked" [provider]) [])
        (.insertAfter "module_lookup" consumer) ↔
      ¬ LeavesUnmet (StrategyOp.run (built "checked" [provider]) [])
        (.insertAfter "module_lookup" consumer) :=
  @failed_call_atomic_iff Unit "checked" [provider] _ rfl [] (.insertAfter "module_lookup" consumer)
    rfl

/-- An insertion in front of the provider is reported, and the step stays. -/
theorem failed_insertion_not_atomic :
    new "checked" [provider] = .ok (built "checked" [provider]) ∧
      (∃ e, ((StrategyOp.insertBefore "module_lookup" consumer).apply
        (built "checked" [provider])).1 = .error e ∧ e.code = .pipelineDependencyError) ∧
      ((StrategyOp.insertBefore "module_lookup" consumer).apply
        (built "checked" [provider])).2.steps = [consumer, provider] ∧
      ¬ Atomic (built "checked" [provider]) (.insertBefore "module_lookup" consumer) := by
  refine ⟨rfl, ⟨_, rfl, rfl⟩, rfl, fun hatomic => ?_⟩
  have hkept : [consumer, provider] = [provider] := (hatomic ⟨_, rfl⟩).1
  exact absurd (congrArg List.length hkept) (by decide)

end StrategyTable

end Apcore
