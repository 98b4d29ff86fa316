import Mathlib.Data.List.Induction
import Mathlib.Data.List.Nodup
import Apcore.Pipeline.Strategy

/-! # `Pipeline.StrategyEdits` — the index, the dependencies, and what a call installs

An edit of a step list moves positions, so what the index knows and what a step finds provided before
it are said by position, once for each kind of edit. `Installs` says which steps a call puts in place
where its checks let it through; `apply_cases` is the inversion of every mutator by it. -/

namespace Apcore

namespace StrategyTable

variable {σ : Type}

/-! ## The index -/

theorem indexOf_append_singleton (steps : List (Step σ)) (step : Step σ) :
    indexOf (steps ++ [step]) = Function.update (indexOf steps) step.name (some steps.length) := by
  unfold indexOf
  rw [List.zipIdx_append, List.foldl_append]
  simp

/-- The index knows exactly the names of the steps. -/
theorem indexOf_eq_none_iff (steps : List (Step σ)) (name : String) :
    indexOf steps name = none ↔ ∀ step ∈ steps, step.name ≠ name := by
  induction steps using List.reverseRecOn with
  | nil => simp [indexOf]
  | append_singleton steps step ih =>
    rw [indexOf_append_singleton]
    by_cases h : step.name = name
    · subst h
      simp
    · rw [Function.update_of_ne (Ne.symm h), ih]
      simp [or_imp, forall_and, h]

/-- An entry of the index is the last step of its name. -/
theorem indexOf_eq_some {steps : List (Step σ)} {name : String} {i : Nat}
    (h : indexOf steps name = some i) : ∃ step, steps[i]? = some step ∧ step.name = name := by
  induction steps using List.reverseRecOn with
  | nil => cases h
  | append_singleton steps step ih =>
    rw [indexOf_append_singleton] at h
    by_cases hname : step.name = name
    · subst hname
      rw [Function.update_self] at h
      obtain rfl := Option.some.inj h
      exact ⟨step, by simp, rfl⟩
    · rw [Function.update_of_ne (Ne.symm hname)] at h
      obtain ⟨found, hfound, hfoundName⟩ := ih h
      refine ⟨found, ?_, hfoundName⟩
      rw [List.getElem?_append_left (List.getElem?_eq_some_iff.mp hfound).1]
      exact hfound

/-- With distinct names the index sends each name to its position and nothing else. -/
theorem indexOf_eq_some_iff {steps : List (Step σ)} (hunique : (steps.map (·.name)).Nodup)
    (name : String) (i : Nat) :
    indexOf steps name = some i ↔ ∃ step, steps[i]? = some step ∧ step.name = name := by
  refine ⟨indexOf_eq_some, ?_⟩
  rintro ⟨step, hstep, rfl⟩
  cases hindex : indexOf steps step.name with
  | none =>
    have hnone := (indexOf_eq_none_iff steps step.name).mp hindex
    exact absurd rfl (hnone step (List.mem_of_getElem? hstep))
  | some j =>
    obtain ⟨other, hother, hname⟩ := indexOf_eq_some hindex
    have hnames : (steps.map (·.name))[j]? = (steps.map (·.name))[i]? := by
      rw [List.getElem?_map, List.getElem?_map, hstep, hother, Option.map_some, Option.map_some,
        hname]
    have hj : j < (steps.map (·.name)).length := by
      rw [List.length_map]
      exact (List.getElem?_eq_some_iff.mp hother).1
    exact congrArg some ((List.getElem?_inj hj hunique).mp hnames)

/-! ## Dependencies -/

/-- A step before the given position provides the capability. -/
def ProvidedBefore (steps : List (Step σ)) (k : Nat) (capability : String) : Prop :=
  ∃ j < k, ∃ step, steps[j]? = some step ∧ capability ∈ step.provides

/-- Every requirement of every step is provided before it. -/
def DependenciesMet (steps : List (Step σ)) : Prop :=
  ∀ i step, steps[i]? = some step → ∀ req ∈ step.requires, ProvidedBefore steps i req

theorem providedBefore_zero (steps : List (Step σ)) (capability : String) :
    ¬ ProvidedBefore steps 0 capability := by
  rintro ⟨j, hj, -⟩
  exact absurd hj (Nat.not_lt_zero j)

theorem providedBefore_cons_succ (step : Step σ) (steps : List (Step σ)) (k : Nat)
    (capability : String) :
    ProvidedBefore (step :: steps) (k + 1) capability ↔
      capability ∈ step.provides ∨ ProvidedBefore steps k capability := by
  constructor
  · rintro ⟨j, hj, provider, hprovider, hmem⟩
    cases j with
    | zero =>
      cases hprovider
      exact .inl hmem
    | succ j => exact .inr ⟨j, by omega, provider, hprovider, hmem⟩
  · rintro (hmem | ⟨j, hj, provider, hprovider, hmem⟩)
    · exact ⟨0, by omega, step, rfl, hmem⟩
    · exact ⟨j + 1, by omega, provider, hprovider, hmem⟩

/-- The loop accepts exactly the lists whose requirements are provided. -/
theorem checkDependencies_ok_iff (strategyName : String) (provided : List String)
    (steps : List (Step σ)) :
    checkDependencies strategyName provided steps = .ok () ↔
      ∀ i step, steps[i]? = some step → ∀ req ∈ step.requires,
        req ∈ provided ∨ ProvidedBefore steps i req := by
  induction steps generalizing provided with
  | nil => simp [checkDependencies]
  | cons step rest ih =>
    unfold checkDependencies
    cases hfind : step.requires.find? (!provided.contains ·) with
    | some req =>
      have hreq : req ∈ step.requires := List.mem_of_find?_eq_some hfind
      have hunmet : req ∉ provided := by simpa using List.find?_some hfind
      refine iff_of_false (by simp) fun h => ?_
      rcases h 0 step rfl req hreq with hmem | hbefore
      · exact hunmet hmem
      · exact providedBefore_zero _ _ hbefore
    | none =>
      have hmet : ∀ req ∈ step.requires, req ∈ provided := by
        simpa using List.find?_eq_none.mp hfind
      dsimp only
      rw [ih]
      constructor
      · intro h i later hlater req hreq
        cases i with
        | zero =>
          cases hlater
          exact .inl (hmet req hreq)
        | succ i =>
          rw [providedBefore_cons_succ]
          rcases h i later hlater req hreq with hmem | hbefore
          · rcases List.mem_append.mp hmem with hmem | hmem
            · exact .inl hmem
            · exact .inr (.inl hmem)
          · exact .inr (.inr hbefore)
      · intro h i later hlater req hreq
        rcases h (i + 1) later hlater req hreq with hmem | hbefore
        · exact .inl (List.mem_append_left _ hmem)
        · rcases (providedBefore_cons_succ step rest i req).mp hbefore with hmem | hbefore
          · exact .inl (List.mem_append_right _ hmem)
          · exact .inr hbefore

/-- `validate_dependencies` accepts exactly the strategies whose dependencies are met. -/
theorem validateDependencies_ok_iff (table : StrategyTable σ) :
    table.validateDependencies = .ok () ↔ DependenciesMet table.steps := by
  unfold validateDependencies DependenciesMet
  rw [checkDependencies_ok_iff]
  simp

/-! ## Edits -/

/-- A step can be put in at a position: what it requires is provided before. -/
theorem dependenciesMet_insertIdx_iff {steps : List (Step σ)} (hmet : DependenciesMet steps)
    {k : Nat} (hk : k ≤ steps.length) (step : Step σ) :
    DependenciesMet (steps.insertIdx k step) ↔
      ∀ req ∈ step.requires, ProvidedBefore steps k req := by
  have hat : (steps.insertIdx k step)[k]? = some step := by
    rw [List.getElem?_insertIdx_self, if_pos hk]
  have hbefore : ∀ j, j < k → (steps.insertIdx k step)[j]? = steps[j]? := fun j hj => by
    rw [List.getElem?_insertIdx_of_lt hj]
  have hafter : ∀ j, k < j → (steps.insertIdx k step)[j]? = steps[j - 1]? := fun j hj => by
    rw [List.getElem?_insertIdx_of_gt hj]
  -- up to the new step both lists provide the same
  have hsame : ∀ i ≤ k, ∀ req, ProvidedBefore (steps.insertIdx k step) i req ↔
      ProvidedBefore steps i req := by
    intro i hi req
    constructor
    · rintro ⟨j, hj, provider, hprovider, hmem⟩
      exact ⟨j, hj, provider, hbefore j (by omega) ▸ hprovider, hmem⟩
    · rintro ⟨j, hj, provider, hprovider, hmem⟩
      exact ⟨j, hj, provider, (hbefore j (by omega)).trans hprovider, hmem⟩
  constructor
  · intro h req hreq
    exact (hsame k le_rfl req).mp (h k step hat req hreq)
  · intro h i later hlater req hreq
    rcases Nat.lt_trichotomy i k with hi | rfl | hi
    · rw [hbefore i hi] at hlater
      exact (hsame i hi.le req).mpr (hmet i later hlater req hreq)
    · obtain rfl := Option.some.inj (hat.symm.trans hlater)
      exact (hsame i le_rfl req).mpr (h req hreq)
    · rw [hafter i hi] at hlater
      obtain ⟨j, hj, provider, hprovider, hmem⟩ := hmet (i - 1) later hlater req hreq
      by_cases hjk : j < k
      · exact ⟨j, by omega, provider, (hbefore j hjk).trans hprovider, hmem⟩
      · exact ⟨j + 1, by omega, provider, (hafter (j + 1) (by omega)).trans hprovider, hmem⟩

/-- Another step than the one at `k` provides the capability before the given position. -/
def ProvidedElsewhere (steps : List (Step σ)) (k i : Nat) (capability : String) : Prop :=
  ∃ j < i, j ≠ k ∧ ∃ step, steps[j]? = some step ∧ capability ∈ step.provides

/-- No later step depends on the step at `k` alone. -/
def Dispensable (steps : List (Step σ)) (k : Nat) : Prop :=
  ∀ i later, k < i → steps[i]? = some later → ∀ req ∈ later.requires, ProvidedElsewhere steps k i req

theorem dependenciesMet_eraseIdx_iff {steps : List (Step σ)} (hmet : DependenciesMet steps)
    (k : Nat) : DependenciesMet (steps.eraseIdx k) ↔ Dispensable steps k := by
  have hget : ∀ j, (steps.eraseIdx k)[j]? = if j < k then steps[j]? else steps[j + 1]? :=
    fun j => List.getElem?_eraseIdx
  constructor
  · intro h i later hi hlater req hreq
    have hlater' : (steps.eraseIdx k)[i - 1]? = some later := by
      rw [hget, if_neg (by omega), show i - 1 + 1 = i by omega]
      exact hlater
    obtain ⟨j, hj, provider, hprovider, hmem⟩ := h (i - 1) later hlater' req hreq
    rw [hget] at hprovider
    split_ifs at hprovider with hjk
    · exact ⟨j, by omega, by omega, provider, hprovider, hmem⟩
    · exact ⟨j + 1, by omega, by omega, provider, hprovider, hmem⟩
  · intro h i later hlater req hreq
    rw [hget] at hlater
    split_ifs at hlater with hik
    · obtain ⟨j, hj, provider, hprovider, hmem⟩ := hmet i later hlater req hreq
      refine ⟨j, hj, provider, ?_, hmem⟩
      rw [hget, if_pos (by omega)]
      exact hprovider
    · obtain ⟨j, hj, hjk, provider, hprovider, hmem⟩ := h (i + 1) later (by omega) hlater req hreq
      by_cases hlt : j < k
      · refine ⟨j, by omega, provider, ?_, hmem⟩
        rw [hget, if_pos hlt]
        exact hprovider
      · refine ⟨j - 1, by omega, provider, ?_, hmem⟩
        rw [hget, if_neg (by omega), show j - 1 + 1 = j by omega]
        exact hprovider

/-- A step can take the place at `k`: what it requires is provided before, and what later steps
require is provided elsewhere or by the new step. -/
structure CanReplace (steps : List (Step σ)) (k : Nat) (newStep : Step σ) : Prop where
  required : ∀ req ∈ newStep.requires, ProvidedBefore steps k req
  provided : ∀ i later, k < i → steps[i]? = some later → ∀ req ∈ later.requires,
    req ∈ newStep.provides ∨ ProvidedElsewhere steps k i req

theorem dependenciesMet_set_iff {steps : List (Step σ)} (hmet : DependenciesMet steps) {k : Nat}
    (hk : k < steps.length) (newStep : Step σ) :
    DependenciesMet (steps.set k newStep) ↔ CanReplace steps k newStep := by
  have hat : (steps.set k newStep)[k]? = some newStep := List.getElem?_set_self hk
  have hget : ∀ j, j ≠ k → (steps.set k newStep)[j]? = steps[j]? :=
    fun j hj => List.getElem?_set_ne (Ne.symm hj)
  have hsame : ∀ i ≤ k, ∀ req, ProvidedBefore (steps.set k newStep) i req ↔
      ProvidedBefore steps i req := by
    intro i hi req
    constructor
    · rintro ⟨j, hj, provider, hprovider, hmem⟩
      exact ⟨j, hj, provider, hget j (by omega) ▸ hprovider, hmem⟩
    · rintro ⟨j, hj, provider, hprovider, hmem⟩
      exact ⟨j, hj, provider, (hget j (by omega)).trans hprovider, hmem⟩
  constructor
  · intro h
    refine ⟨fun req hreq => (hsame k le_rfl req).mp (h k newStep hat req hreq), ?_⟩
    intro i later hi hlater req hreq
    obtain ⟨j, hj, provider, hprovider, hmem⟩ :=
      h i later ((hget i (by omega)).trans hlater) req hreq
    by_cases hjk : j = k
    · subst hjk
      obtain rfl := Option.some.inj (hat.symm.trans hprovider)
      exact .inl hmem
    · exact .inr ⟨j, hj, hjk, provider, hget j hjk ▸ hprovider, hmem⟩
  · intro h i later hlater req hreq
    rcases Nat.lt_trichotomy i k with hi | rfl | hi
    · rw [hget i (by omega)] at hlater
      exact (hsame i hi.le req).mpr (hmet i later hlater req hreq)
    · obtain rfl := Option.some.inj (hat.symm.trans hlater)
      exact (hsame i le_rfl req).mpr (h.required req hreq)
    · rw [hget i (by omega)] at hlater
      rcases h.provided i later hi hlater req hreq with hmem | ⟨j, hj, hjk, provider, hprovider, hmem⟩
      · exact ⟨k, hi, newStep, hat, hmem⟩
      · exact ⟨j, hj, provider, (hget j hjk).trans hprovider, hmem⟩

/-! ## What a call installs -/

/-- The steps a call installs where its checks let it through. -/
inductive Installs (table : StrategyTable σ) : StrategyOp σ → List (Step σ) → Prop
  | insertAfter {anchor step k} (hgate : step.GateIntact) (hfresh : table.nameToIdx step.name = none)
      (hanchor : table.nameToIdx anchor = some k) :
      Installs table (.insertAfter anchor step) (table.steps.insertIdx (k + 1) step)
  | insertBefore {anchor step k} (hgate : step.GateIntact)
      (hfresh : table.nameToIdx step.name = none) (hanchor : table.nameToIdx anchor = some k) :
      Installs table (.insertBefore anchor step) (table.steps.insertIdx k step)
  | remove {stepName k step} (hname : table.nameToIdx stepName = some k)
      (hstep : table.steps[k]? = some step) (hremovable : step.removable = true) :
      Installs table (.remove stepName) (table.steps.eraseIdx k)
  | replace {stepName newStep k step} (hname : table.nameToIdx stepName = some k)
      (hstep : table.steps[k]? = some step) (hreplaceable : step.replaceable = true)
      (hnew : newStep.name = stepName ∨ table.nameToIdx newStep.name = none)
      (hgate : newStep.GateIntact) :
      Installs table (.replace stepName newStep) (table.steps.set k newStep)
  | configureStep {stepName newStep k step} (hname : table.nameToIdx stepName = some k)
      (hstep : table.steps[k]? = some step) (hreplaceable : step.replaceable = true)
      (hnew : newStep.name = stepName ∨ table.nameToIdx newStep.name = none)
      (hgate : newStep.GateIntact) :
      Installs table (.configureStep stepName newStep) (table.steps.set k newStep)
  | replaceWith {stepName wrapper k step} (hname : table.nameToIdx stepName = some k)
      (hstep : table.steps[k]? = some step) :
      Installs table (.replaceWith stepName wrapper) (table.steps.set k (installed (wrapper step)))

/-- A call that refuses: it returns an error and leaves the strategy as it was. -/
def Refuses (table : StrategyTable σ) (mutated : Mutated σ) : Prop :=
  ∃ e, mutated = (.error e, table)

theorem rejectWeakenedGate_cases (step : Step σ) :
    (step.GateIntact ∧ step.rejectWeakenedGate = .ok ()) ∨
      ¬ step.GateIntact ∧ ∃ e, step.rejectWeakenedGate = .error e := by
  have hiff := step.rejectWeakenedGate_ok_iff
  cases hgate : step.rejectWeakenedGate with
  | ok u => exact .inl ⟨hiff.mp hgate, rfl⟩
  | error e =>
    refine .inr ⟨fun h => ?_, e, rfl⟩
    rw [hiff.mpr h] at hgate
    cases hgate

/-- An insertion refuses, or puts the step behind the anchor and reports on the dependencies then. -/
theorem insertAt_cases (offset : Nat) (table : StrategyTable σ) (anchor : String) (step : Step σ) :
    (Refuses table (insertAt offset table anchor step) ∧
        ¬ (step.GateIntact ∧ table.nameToIdx step.name = none ∧
            ∃ k, table.nameToIdx anchor = some k)) ∨
      ∃ k, step.GateIntact ∧ table.nameToIdx step.name = none ∧
        table.nameToIdx anchor = some k ∧
        insertAt offset table anchor step =
          ((table.withSteps (table.steps.insertIdx (k + offset) step)).validateDependencies,
            table.withSteps (table.steps.insertIdx (k + offset) step)) := by
  unfold insertAt Refuses
  rcases rejectWeakenedGate_cases step with ⟨hgate, hok⟩ | ⟨hgate, e, herr⟩
  · rw [hok]
    cases hfresh : table.nameToIdx step.name with
    | some i => exact .inl ⟨by simp [validateNoDuplicate, hfresh], fun h => by cases h.2.1⟩
    | none =>
      cases hanchor : table.nameToIdx anchor with
      | none =>
        exact .inl ⟨by simp [validateNoDuplicate, findStepIndex, hfresh, hanchor],
          fun ⟨_, _, k, hk⟩ => by cases hk⟩
      | some k =>
        exact .inr ⟨k, hgate, rfl, rfl, by simp [validateNoDuplicate, findStepIndex, hfresh, hanchor]⟩
  · rw [herr]
    exact .inl ⟨⟨e, rfl⟩, fun h => hgate h.1⟩

/-- A removal refuses, or takes the step out and succeeds. -/
theorem remove_cases (table : StrategyTable σ) (stepName : String) :
    (Refuses table (table.remove stepName) ∧ ¬ ∃ k step, table.nameToIdx stepName = some k ∧
        table.steps[k]? = some step ∧ step.removable = true) ∨
      ∃ k step, table.nameToIdx stepName = some k ∧ table.steps[k]? = some step ∧
        step.removable = true ∧
        table.remove stepName = (.ok (), table.withSteps (table.steps.eraseIdx k)) := by
  unfold remove Refuses findStepIndex stepAt
  cases hname : table.nameToIdx stepName with
  | none => exact .inl ⟨⟨_, rfl⟩, fun ⟨k, _, hk, _⟩ => by cases hk⟩
  | some k =>
    cases hstep : table.steps[k]? with
    | none =>
      refine .inl ⟨⟨_, by simp only [hstep]; rfl⟩, fun ⟨j, _, hj, hat, _⟩ => ?_⟩
      obtain rfl := Option.some.inj hj
      rw [hstep] at hat
      cases hat
    | some step =>
      by_cases hremovable : step.removable = true
      · exact .inr ⟨k, step, rfl, hstep, hremovable, by simp only [hstep, if_pos hremovable]⟩
      · refine .inl ⟨⟨_, by simp only [hstep, if_neg hremovable]; rfl⟩, fun ⟨j, _, hj, hat, h⟩ => ?_⟩
        obtain rfl := Option.some.inj hj
        obtain rfl := Option.some.inj (hstep.symm.trans hat)
        exact hremovable h

/-- A replacement refuses, or puts the step in place and succeeds. -/
theorem replaceAt_cases (table : StrategyTable σ) (stepName : String) (k : Nat)
    (newStep : Step σ) :
    (Refuses table (table.replaceAt stepName k newStep) ∧ ¬ ∃ step, table.steps[k]? = some step ∧
        step.replaceable = true ∧
        (newStep.name = stepName ∨ table.nameToIdx newStep.name = none) ∧ newStep.GateIntact) ∨
      ∃ step, table.steps[k]? = some step ∧ step.replaceable = true ∧
        (newStep.name = stepName ∨ table.nameToIdx newStep.name = none) ∧ newStep.GateIntact ∧
        table.replaceAt stepName k newStep =
          (.ok (), table.withSteps (table.steps.set k newStep)) := by
  unfold replaceAt Refuses stepAt
  cases hstep : table.steps[k]? with
  | none => exact .inl ⟨⟨_, rfl⟩, fun ⟨_, hat, _⟩ => by cases hat⟩
  | some step =>
    dsimp only
    by_cases hreplaceable : step.replaceable = true
    · rw [if_pos hreplaceable]
      by_cases hname : newStep.name = stepName ∨ table.nameToIdx newStep.name = none
      · have hvalid : table.validateReplacementName stepName newStep.name = .ok () := by
          refine if_neg fun ⟨hne, hsome⟩ => ?_
          rcases hname with hsame | hnone
          · exact hne hsame
          · rw [hnone] at hsome
            cases hsome
        rw [hvalid]
        rcases rejectWeakenedGate_cases newStep with ⟨hgate, hok⟩ | ⟨hgate, e, herr⟩
        · rw [hok]
          exact .inr ⟨step, rfl, hreplaceable, hname, hgate, rfl⟩
        · rw [herr]
          exact .inl ⟨⟨e, rfl⟩, fun ⟨_, _, _, _, h⟩ => hgate h⟩
      · rw [not_or] at hname
        have hinvalid : ∃ e, table.validateReplacementName stepName newStep.name = .error e :=
          ⟨_, if_pos ⟨hname.1, Option.isSome_iff_ne_none.mpr hname.2⟩⟩
        obtain ⟨e, he⟩ := hinvalid
        rw [he]
        exact .inl ⟨⟨e, rfl⟩, fun ⟨_, _, _, h, _⟩ => h.elim hname.1 hname.2⟩
    · rw [if_neg hreplaceable]
      refine .inl ⟨⟨_, rfl⟩, fun ⟨_, hat, h, _⟩ => ?_⟩
      obtain rfl := Option.some.inj hat
      exact hreplaceable h

/-- A call installs one list of steps. -/
theorem Installs.unique {table : StrategyTable σ} {op : StrategyOp σ} {steps other : List (Step σ)}
    (h : Installs table op steps) (h' : Installs table op other) : steps = other := by
  cases h with
  | insertAfter _ _ hk =>
    cases h' with
    | insertAfter _ _ hk' => rw [Option.some.inj (hk.symm.trans hk')]
  | insertBefore _ _ hk =>
    cases h' with
    | insertBefore _ _ hk' => rw [Option.some.inj (hk.symm.trans hk')]
  | remove hk =>
    cases h' with
    | remove hk' => rw [Option.some.inj (hk.symm.trans hk')]
  | replace hk =>
    cases h' with
    | replace hk' => rw [Option.some.inj (hk.symm.trans hk')]
  | configureStep hk =>
    cases h' with
    | configureStep hk' => rw [Option.some.inj (hk.symm.trans hk')]
  | replaceWith hk hstep =>
    cases h' with
    | replaceWith hk' hstep' =>
      obtain rfl := Option.some.inj (hk.symm.trans hk')
      rw [Option.some.inj (hstep.symm.trans hstep')]

/-- Every call refuses, or installs what its checks let through. Then `remove`, `replace` and
`configure_step` succeed, and an insertion reports on the dependencies of what it has installed. -/
theorem apply_cases (table : StrategyTable σ) (op : StrategyOp σ) :
    (Refuses table (op.apply table) ∧ ∀ steps, ¬ Installs table op steps) ∨
      ∃ steps, Installs table op steps ∧ (op.apply table).2 = table.withSteps steps ∧
        (op.inserts = true →
          (op.apply table).1 = (table.withSteps steps).validateDependencies) ∧
        (op.inserts = false → op.wraps = false → (op.apply table).1 = .ok ()) := by
  cases op with
  | insertAfter anchor step =>
    rcases insertAt_cases 1 table anchor step with ⟨href, hnot⟩ | ⟨k, hgate, hfresh, hk, heq⟩
    · refine .inl ⟨href, fun steps h => hnot ?_⟩
      cases h with
      | insertAfter hgate hfresh hk => exact ⟨hgate, hfresh, _, hk⟩
    · refine .inr ⟨_, .insertAfter hgate hfresh hk, ?_, fun _ => ?_, fun h => by cases h⟩
      · exact congrArg Prod.snd heq
      · exact congrArg Prod.fst heq
  | insertBefore anchor step =>
    rcases insertAt_cases 0 table anchor step with ⟨href, hnot⟩ | ⟨k, hgate, hfresh, hk, heq⟩
    · refine .inl ⟨href, fun steps h => hnot ?_⟩
      cases h with
      | insertBefore hgate hfresh hk => exact ⟨hgate, hfresh, _, hk⟩
    · refine .inr ⟨_, .insertBefore hgate hfresh hk, ?_, fun _ => ?_, fun h => by cases h⟩
      · exact congrArg Prod.snd heq
      · exact congrArg Prod.fst heq
  | remove stepName =>
    rcases remove_cases table stepName with ⟨href, hnot⟩ | ⟨k, step, hk, hstep, hremovable, heq⟩
    · refine .inl ⟨href, fun steps h => hnot ?_⟩
      cases h with
      | remove hk hstep hremovable => exact ⟨_, _, hk, hstep, hremovable⟩
    · refine .inr ⟨_, .remove hk hstep hremovable, ?_, fun h => (by cases h), fun _ _ => ?_⟩
      · exact congrArg Prod.snd heq
      · exact congrArg Prod.fst heq
  | replace stepName newStep =>
    have happly : (StrategyOp.replace stepName newStep).apply table =
        table.replace stepName newStep := rfl
    rw [happly]
    unfold replace findStepIndex
    cases hk : table.nameToIdx stepName with
    | none =>
      refine .inl ⟨⟨_, rfl⟩, fun steps h => ?_⟩
      cases h with
      | replace hname => rw [hk] at hname; cases hname
    | some k =>
      dsimp only
      rcases replaceAt_cases table stepName k newStep with
        ⟨href, hnot⟩ | ⟨step, hstep, hreplaceable, hnew, hgate, heq⟩
      · refine .inl ⟨href, fun steps h => hnot ?_⟩
        cases h with
        | replace hname hstep hreplaceable hnew hgate =>
          obtain rfl := Option.some.inj (hk.symm.trans hname)
          exact ⟨_, hstep, hreplaceable, hnew, hgate⟩
      · refine .inr ⟨_, .replace hk hstep hreplaceable hnew hgate, ?_, fun h => (by cases h),
          fun _ _ => ?_⟩
        · exact congrArg Prod.snd heq
        · exact congrArg Prod.fst heq
  | configureStep stepName newStep =>
    have happly : (StrategyOp.configureStep stepName newStep).apply table =
        table.configureStep stepName newStep := rfl
    rw [happly]
    unfold configureStep
    cases hk : table.nameToIdx stepName with
    | none =>
      refine .inl ⟨⟨_, rfl⟩, fun steps h => ?_⟩
      cases h with
      | configureStep hname => rw [hk] at hname; cases hname
    | some k =>
      dsimp only
      rcases replaceAt_cases table stepName k newStep with
        ⟨href, hnot⟩ | ⟨step, hstep, hreplaceable, hnew, hgate, heq⟩
      · refine .inl ⟨href, fun steps h => hnot ?_⟩
        cases h with
        | configureStep hname hstep hreplaceable hnew hgate =>
          obtain rfl := Option.some.inj (hk.symm.trans hname)
          exact ⟨_, hstep, hreplaceable, hnew, hgate⟩
      · refine .inr ⟨_, .configureStep hk hstep hreplaceable hnew hgate, ?_, fun h => (by cases h),
          fun _ _ => ?_⟩
        · exact congrArg Prod.snd heq
        · exact congrArg Prod.fst heq
  | replaceWith stepName wrapper =>
    have happly : (StrategyOp.replaceWith stepName wrapper).apply table =
        table.replaceWith stepName wrapper := rfl
    rw [happly]
    unfold replaceWith findStepIndex stepAt
    cases hk : table.nameToIdx stepName with
    | none =>
      refine .inl ⟨⟨_, rfl⟩, fun steps h => ?_⟩
      cases h with
      | replaceWith hname => rw [hk] at hname; cases hname
    | some k =>
      dsimp only
      cases hstep : table.steps[k]? with
      | none =>
        refine .inl ⟨⟨_, rfl⟩, fun steps h => ?_⟩
        cases h with
        | replaceWith hname hat =>
          obtain rfl := Option.some.inj (hk.symm.trans hname)
          rw [hstep] at hat
          cases hat
      | some step =>
        exact .inr ⟨_, .replaceWith hk hstep, rfl, fun h => (by cases h), fun _ h => by cases h⟩

end StrategyTable

end Apcore
