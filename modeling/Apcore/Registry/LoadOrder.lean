import Apcore.Registry.Dependencies

/-! # `Registry.LoadOrder` — when a batch can be ordered, and how

The edges that count are collected in one list (`effectiveEdges`), and the maps of the code represent
it (`DependencyGraph.Represents`), so that `resolve_dependencies` is `Kahn.order` on that list. The
correctness of the order is then that of the library. -/

namespace Apcore

variable (effectiveIds : List String) (versions : Option (String → Option String))

/-! ## What counts -/

/-- The version of the target, where it is known and constrained, satisfies the constraint. -/
def ConstraintMet (dep : DepInfo) : Prop :=
  ∀ constraint known actual, dep.version = some constraint → versions = some known →
    known dep.moduleId = some actual → tryMatchesVersionHint actual constraint = .ok true

/-- The constraint, where it is looked at, is well formed. -/
def ConstraintReadable (dep : DepInfo) : Prop :=
  ∀ constraint known actual err, dep.version = some constraint → versions = some known →
    known dep.moduleId = some actual → tryMatchesVersionHint actual constraint ≠ .error err

/-- A declaration the resolver accepts: what is required is there and fits, and what is optional and
there has a readable constraint. -/
structure Acceptable (dep : DepInfo) : Prop where
  required : dep.optional = false → dep.moduleId ∈ effectiveIds ∧ ConstraintMet versions dep
  readable : dep.moduleId ∈ effectiveIds → ConstraintReadable versions dep

/-- A dependency that orders its module: its target is known and fits. -/
def Effective (dep : DepInfo) : Prop := dep.moduleId ∈ effectiveIds ∧ ConstraintMet versions dep

/-- The target of an effective dependency, and the module that declares it. -/
def EffectiveEdge (modules : List (String × List DepInfo)) (target moduleId : String) : Prop :=
  ∃ deps, (moduleId, deps) ∈ modules ∧
    ∃ dep ∈ deps, dep.moduleId = target ∧ Effective effectiveIds versions dep

/-- What the check of a constraint answers. -/
theorem checkVersionConstraint_cases (moduleId : String) (dep : DepInfo) :
    (checkVersionConstraint moduleId dep versions = .ok ∧ ConstraintMet versions dep ∧
        ConstraintReadable versions dep) ∨
      (checkVersionConstraint moduleId dep versions = .skipOptional ∧ dep.optional = true ∧
        ¬ ConstraintMet versions dep ∧ ConstraintReadable versions dep) ∨
      ((∃ err, checkVersionConstraint moduleId dep versions = .err err) ∧
        ¬ ConstraintMet versions dep ∧
        (dep.optional = true → ¬ ConstraintReadable versions dep)) := by
  unfold checkVersionConstraint
  cases hversion : dep.version with
  | none =>
    refine .inl ⟨rfl, ?_, ?_⟩
    · intro constraint known actual h
      rw [hversion] at h
      cases h
    · intro constraint known actual err h
      rw [hversion] at h
      cases h
  | some constraint =>
    cases versions with
    | none => exact .inl ⟨rfl, (fun _ _ _ _ h => by cases h), (fun _ _ _ _ _ h => by cases h)⟩
    | some known =>
      dsimp only
      cases hactual : known dep.moduleId with
      | none =>
        refine .inl ⟨rfl, ?_, ?_⟩
        · intro c k actual _ hk h
          cases hk
          rw [hactual] at h
          cases h
        · intro c k actual err _ hk h
          cases hk
          rw [hactual] at h
          cases h
      | some actual =>
        -- the only constraint and version the two predicates look at
        have hmet : ConstraintMet (some known) dep ↔
            tryMatchesVersionHint actual constraint = .ok true := by
          refine ⟨fun h => h constraint known actual hversion rfl hactual, ?_⟩
          intro h c k a hc hk ha
          cases hk
          rw [hversion] at hc
          rw [hactual] at ha
          cases hc
          cases ha
          exact h
        have hreadable : ConstraintReadable (some known) dep ↔
            ∀ err, tryMatchesVersionHint actual constraint ≠ .error err := by
          refine ⟨fun h err => h constraint known actual err hversion rfl hactual, ?_⟩
          intro h c k a err hc hk ha
          cases hk
          rw [hversion] at hc
          rw [hactual] at ha
          cases hc
          cases ha
          exact h err
        rw [hmet, hreadable]
        dsimp only
        cases hhint : tryMatchesVersionHint actual constraint with
        | error err => exact .inr (.inr ⟨⟨err, rfl⟩, by simp, fun _ h => h err rfl⟩)
        | ok fits =>
          cases fits with
          | true => exact .inl ⟨rfl, rfl, by simp⟩
          | false =>
            dsimp only
            by_cases hoptional : dep.optional = true
            · rw [if_pos hoptional]
              exact .inr (.inl ⟨rfl, hoptional, by simp, by simp⟩)
            · rw [if_neg hoptional]
              exact .inr (.inr ⟨⟨_, rfl⟩, by simp, fun h => absurd h hoptional⟩)

/-! ## The list of edges -/

/-- The check as a computation, for the list of edges. -/
def isEffective (moduleId : String) (dep : DepInfo) : Bool :=
  decide (dep.moduleId ∈ effectiveIds) &&
    match checkVersionConstraint moduleId dep versions with
    | .ok => true
    | _ => false

theorem isEffective_iff (moduleId : String) (dep : DepInfo) :
    isEffective effectiveIds versions moduleId dep = true ↔ Effective effectiveIds versions dep := by
  unfold isEffective Effective
  rw [Bool.and_eq_true, decide_eq_true_iff]
  rcases checkVersionConstraint_cases versions moduleId dep with
    ⟨h, hmet, -⟩ | ⟨h, -, hmet, -⟩ | ⟨⟨err, h⟩, hmet, -⟩ <;> simp [h, hmet]

/-- The edges of one module. -/
def moduleEdges (entry : String × List DepInfo) : List (String × String) :=
  (entry.2.filter (isEffective effectiveIds versions entry.1)).map (·.moduleId, entry.1)

/-- The edges of a batch, in the order in which they are found. -/
def effectiveEdges (modules : List (String × List DepInfo)) : List (String × String) :=
  modules.flatMap (moduleEdges effectiveIds versions)

theorem mem_effectiveEdges {modules : List (String × List DepInfo)} {target moduleId : String} :
    (target, moduleId) ∈ effectiveEdges effectiveIds versions modules ↔
      EffectiveEdge effectiveIds versions modules target moduleId := by
  unfold effectiveEdges moduleEdges EffectiveEdge
  simp only [List.mem_flatMap, List.mem_map, List.mem_filter, isEffective_iff]
  constructor
  · rintro ⟨⟨id, deps⟩, hentry, dep, ⟨hdep, heffective⟩, heq⟩
    cases heq
    exact ⟨deps, hentry, dep, hdep, rfl, heffective⟩
  · rintro ⟨deps, hentry, dep, hdep, rfl, heffective⟩
    exact ⟨(moduleId, deps), hentry, dep, ⟨hdep, heffective⟩, rfl⟩

/-- The maps of the code represent a list of edges. -/
structure DependencyGraph.Represents (g : DependencyGraph) (ids : List String)
    (edges : List (String × String)) : Prop where
  graph : ∀ u, g.graph u = Kahn.dependents edges u
  inDegree : ∀ v, g.inDegree v = if v ∈ ids then some (edges.countP (·.2 = v)) else none

theorem DependencyGraph.represents_initial (ids : List String) :
    (DependencyGraph.initial ids).Represents ids [] :=
  ⟨fun _ => rfl, fun _ => rfl⟩

theorem DependencyGraph.Represents.addEdge {g : DependencyGraph} {ids : List String}
    {edges : List (String × String)} (h : g.Represents ids edges) (target : String)
    {moduleId : String} (hmem : moduleId ∈ ids) :
    (g.addEdge target moduleId).Represents ids (edges ++ [(target, moduleId)]) := by
  constructor
  · intro u
    rw [DependencyGraph.addEdge_graph, h.graph, h.graph, Kahn.dependents, Kahn.dependents,
      Kahn.dependents, List.filter_append, List.map_append]
    by_cases hu : u = target
    · subst hu
      simp
    · simp [hu, Ne.symm hu]
  · intro v
    rw [DependencyGraph.addEdge_inDegree, h.inDegree, h.inDegree, if_pos hmem, List.countP_append]
    by_cases hv : v = moduleId
    · subst hv
      simp [hmem]
    · simp [hv, Ne.symm hv]

/-- The maps that represent the edges are those that the library's loop starts with. -/
theorem DependencyGraph.Represents.start_eq {g : DependencyGraph} {ids : List String}
    {edges : List (String × String)} (h : g.Represents ids edges) :
    ({ inDegree := g.inDegree
       queue := Kahn.sorted (ids.dedup.filter (g.inDegree · = some 0))
       order := [] } : Kahn.State String) = Kahn.start ids.dedup edges := by
  have hdegree : g.inDegree = fun v => if v ∈ ids.dedup then
      some (edges.countP (·.2 = v)) else none := by
    funext v
    rw [h.inDegree]
    exact if_congr List.mem_dedup.symm rfl rfl
  have hzero : ids.dedup.filter (fun v => decide (g.inDegree v = some 0)) =
      ids.dedup.filter fun v => decide (edges.countP (·.2 = v) = 0) := by
    refine List.filter_congr fun v hv => ?_
    rw [h.inDegree v, if_pos (List.mem_dedup.mp hv)]
    simp
  unfold Kahn.start
  rw [hzero, hdegree]

/-- What the inner loop gives: the edges of the module, where its declarations are acceptable. -/
theorem addDependencies_spec {g : DependencyGraph} {ids : List String}
    {edges : List (String × String)} (h : g.Represents ids edges) {moduleId : String}
    (hmem : moduleId ∈ ids) (deps : List DepInfo) :
    (∀ g', addDependencies effectiveIds versions moduleId deps g = .ok g' →
      g'.Represents ids (edges ++ moduleEdges effectiveIds versions (moduleId, deps))) ∧
    ((∃ g', addDependencies effectiveIds versions moduleId deps g = .ok g') ↔
      ∀ dep ∈ deps, Acceptable effectiveIds versions dep) := by
  induction deps generalizing g edges with
  | nil =>
    refine ⟨fun g' hok => ?_, iff_of_true ⟨g, rfl⟩ (by simp)⟩
    cases hok
    simpa [moduleEdges] using h
  | cons dep deps ih =>
    rw [addDependencies, List.forall_mem_cons]
    by_cases hknown : dep.moduleId ∈ effectiveIds
    · rw [if_pos hknown]
      rcases checkVersionConstraint_cases versions moduleId dep with
        ⟨hcheck, hmet, hreadable⟩ | ⟨hcheck, hoptional, hmet, hreadable⟩ |
          ⟨⟨err, hcheck⟩, hmet, hreadable⟩
      · have hyes : isEffective effectiveIds versions moduleId dep = true :=
          (isEffective_iff effectiveIds versions moduleId dep).mpr ⟨hknown, hmet⟩
        have hacceptable : Acceptable effectiveIds versions dep :=
          ⟨fun _ => ⟨hknown, hmet⟩, fun _ => hreadable⟩
        obtain ⟨hedges, hok⟩ := ih (h.addEdge dep.moduleId hmem)
        rw [hcheck]
        refine ⟨fun g' hg' => ?_, hok.trans (and_iff_right hacceptable).symm⟩
        have hrep := hedges g' hg'
        rw [List.append_assoc] at hrep
        simpa [moduleEdges, hyes] using hrep
      · have hno : isEffective effectiveIds versions moduleId dep = false :=
          Bool.eq_false_iff.mpr fun hyes =>
            hmet ((isEffective_iff effectiveIds versions moduleId dep).mp hyes).2
        have hacceptable : Acceptable effectiveIds versions dep :=
          ⟨fun hreq => absurd hoptional (by simp [hreq]), fun _ => hreadable⟩
        obtain ⟨hedges, hok⟩ := ih h
        rw [hcheck]
        refine ⟨fun g' hg' => ?_, hok.trans (and_iff_right hacceptable).symm⟩
        simpa [moduleEdges, hno] using hedges g' hg'
      · rw [hcheck]
        have hunacceptable : ¬ Acceptable effectiveIds versions dep := by
          intro hacceptable
          cases hoptional : dep.optional with
          | false => exact hmet (hacceptable.required hoptional).2
          | true => exact hreadable hoptional (hacceptable.readable hknown)
        exact ⟨fun g' hg' => (by cases hg'),
          iff_of_false (fun ⟨g', hg'⟩ => by cases hg') fun hall => hunacceptable hall.1⟩
    · rw [if_neg hknown]
      have hno : isEffective effectiveIds versions moduleId dep = false :=
        Bool.eq_false_iff.mpr fun hyes =>
          hknown ((isEffective_iff effectiveIds versions moduleId dep).mp hyes).1
      by_cases hoptional : dep.optional = true
      · rw [if_pos hoptional]
        have hacceptable : Acceptable effectiveIds versions dep :=
          ⟨fun hreq => absurd hoptional (by simp [hreq]), fun hin => absurd hin hknown⟩
        obtain ⟨hedges, hok⟩ := ih h
        refine ⟨fun g' hg' => ?_, hok.trans (and_iff_right hacceptable).symm⟩
        simpa [moduleEdges, hno] using hedges g' hg'
      · rw [if_neg hoptional]
        refine ⟨fun g' hg' => (by cases hg'), iff_of_false (fun ⟨g', hg'⟩ => by cases hg') fun hall => ?_⟩
        exact hknown (hall.1.required (by simpa using hoptional)).1

/-- What the outer loop gives. -/
theorem addModules_spec {g : DependencyGraph} {ids : List String} {edges : List (String × String)}
    (h : g.Represents ids edges) (modules : List (String × List DepInfo))
    (hmem : ∀ entry ∈ modules, entry.1 ∈ ids) :
    (∀ g', addModules effectiveIds versions modules g = .ok g' →
      g'.Represents ids (edges ++ effectiveEdges effectiveIds versions modules)) ∧
    ((∃ g', addModules effectiveIds versions modules g = .ok g') ↔
      ∀ entry ∈ modules, ∀ dep ∈ entry.2, Acceptable effectiveIds versions dep) := by
  induction modules generalizing g edges with
  | nil =>
    refine ⟨fun g' hok => ?_, iff_of_true ⟨g, rfl⟩ (by simp)⟩
    cases hok
    simpa [effectiveEdges] using h
  | cons entry modules ih =>
    rw [addModules, List.forall_mem_cons]
    obtain ⟨hedges, hok⟩ := addDependencies_spec effectiveIds versions h
      (hmem entry List.mem_cons_self) entry.2
    cases hentry : addDependencies effectiveIds versions entry.1 entry.2 g with
    | error err =>
      dsimp only
      refine ⟨fun g' hg' => (by cases hg'), iff_of_false (fun ⟨g', hg'⟩ => by cases hg') fun hall => ?_⟩
      obtain ⟨g', hg'⟩ := hok.mpr hall.1
      rw [hentry] at hg'
      cases hg'
    | ok g' =>
      dsimp only
      obtain ⟨hedges', hok'⟩ := ih (hedges g' hentry) fun e he => hmem e (List.mem_cons_of_mem _ he)
      refine ⟨fun g'' hg'' => ?_, hok'.trans (and_iff_right (hok.mp ⟨g', hentry⟩)).symm⟩
      simpa [effectiveEdges, List.append_assoc] using hedges' g'' hg''

/-! ## The resolved order -/

/-- The modules listed in another order, each with its dependencies in another order. -/
def Relisted (modules modules' : List (String × List DepInfo)) : Prop :=
  ∃ listed, modules.Perm listed ∧
    List.Forall₂ (fun entry entry' => entry.1 = entry'.1 ∧ entry.2.Perm entry'.2) listed modules'

/-- `resolve_dependencies` is Kahn's order of the effective edges, where all declarations are
acceptable and every module is ordered. -/
theorem resolveDependencies_ok_iff {modules : List (String × List DepInfo)}
    (hdistinct : (modules.map (·.1)).Nodup) (knownIds : Option (List String)) (order : List String) :
    resolveDependencies modules knownIds versions = .ok order ↔
      (∀ entry ∈ modules, ∀ dep ∈ entry.2,
        Acceptable (knownIds.getD (modules.map (·.1))) versions dep) ∧
      order = Kahn.order (modules.map (·.1))
        (effectiveEdges (knownIds.getD (modules.map (·.1))) versions modules) ∧
      order.length = modules.length := by
  unfold resolveDependencies
  dsimp only
  generalize knownIds.getD (modules.map (·.1)) = effectiveIds
  by_cases hempty : modules = []
  · subst hempty
    have horder : Kahn.order ([] : List String) [] = [] := rfl
    simp [effectiveEdges, horder, eq_comm]
  · have hnonempty : modules.isEmpty = false := by simpa using hempty
    rw [hnonempty, if_neg Bool.false_ne_true]
    obtain ⟨hedges, hok⟩ := addModules_spec effectiveIds versions
      (DependencyGraph.represents_initial (modules.map (·.1))) modules
      fun entry hentry => List.mem_map_of_mem hentry
    cases hgraph : addModules effectiveIds versions modules (.initial (modules.map (·.1))) with
    | error err =>
      refine iff_of_false (by simp) fun hall => ?_
      obtain ⟨g, hg⟩ := hok.mpr hall.1
      rw [hgraph] at hg
      cases hg
    | ok g =>
      have hrep := hedges g hgraph
      rw [List.nil_append] at hrep
      -- the maps are those of the library, so the loop is the library's
      have hstart := hrep.start_eq
      rw [hdistinct.dedup] at hstart
      have horder : (Kahn.drain g.graph modules.length
          { inDegree := g.inDegree
            queue := Kahn.sorted ((modules.map (·.1)).dedup.filter (g.inDegree · = some 0))
            order := [] }).order =
          Kahn.order (modules.map (·.1)) (effectiveEdges effectiveIds versions modules) := by
        unfold Kahn.order
        rw [hdistinct.dedup, hstart, funext hrep.graph, List.length_map]
      dsimp only
      rw [horder]
      have hle := Kahn.length_order_le hdistinct
        (fun e he => (mem_effectiveEdges effectiveIds versions).mp he |>.elim
          fun deps hdeps => List.mem_map.mpr ⟨_, hdeps.1, rfl⟩)
      rw [List.length_map] at hle
      split_ifs with hshort
      · refine iff_of_false (by simp) ?_
        rintro ⟨-, rfl, hlength⟩
        omega
      · rw [Except.ok.injEq]
        constructor
        · rintro rfl
          exact ⟨hok.mp ⟨g, hgraph⟩, rfl, by omega⟩
        · rintro ⟨-, rfl, -⟩
          rfl

/-! ## Relisting -/

section Relisting

variable {effectiveIds' : List String} (hsame : ∀ id, id ∈ effectiveIds ↔ id ∈ effectiveIds')
include hsame

theorem acceptable_congr (dep : DepInfo) :
    Acceptable effectiveIds versions dep ↔ Acceptable effectiveIds' versions dep := by
  constructor
  · rintro ⟨hrequired, hreadable⟩
    rw [hsame] at hrequired hreadable
    exact ⟨hrequired, hreadable⟩
  · rintro ⟨hrequired, hreadable⟩
    rw [← hsame] at hrequired hreadable
    exact ⟨hrequired, hreadable⟩

theorem moduleEdges_perm {entry entry' : String × List DepInfo} (hid : entry.1 = entry'.1)
    (hdeps : entry.2.Perm entry'.2) :
    (moduleEdges effectiveIds versions entry).Perm (moduleEdges effectiveIds' versions entry') := by
  have hfilter : isEffective effectiveIds versions entry.1 =
      isEffective effectiveIds' versions entry'.1 := by
    funext dep
    unfold isEffective
    rw [hid]
    simp only [hsame]
  unfold moduleEdges
  rw [hfilter, hid]
  exact (hdeps.filter _).map _

theorem effectiveEdges_perm {modules modules' : List (String × List DepInfo)}
    (h : Relisted modules modules') :
    (effectiveEdges effectiveIds versions modules).Perm
      (effectiveEdges effectiveIds' versions modules') := by
  obtain ⟨listed, hperm, hlisted⟩ := h
  refine (hperm.flatMap_right _).trans ?_
  clear hperm
  induction hlisted with
  | nil => exact .nil
  | cons hentry _ ih =>
    exact (moduleEdges_perm effectiveIds versions hsame hentry.1 hentry.2).append ih

end Relisting

theorem Relisted.ids_perm {modules modules' : List (String × List DepInfo)}
    (h : Relisted modules modules') : (modules.map (·.1)).Perm (modules'.map (·.1)) := by
  obtain ⟨listed, hperm, hlisted⟩ := h
  refine (hperm.map _).trans (List.Perm.of_eq ?_)
  clear hperm
  induction hlisted with
  | nil => rfl
  | cons hentry _ ih => rw [List.map_cons, List.map_cons, hentry.1, ih]

theorem Relisted.forall_deps {modules modules' : List (String × List DepInfo)}
    (h : Relisted modules modules') {P : DepInfo → Prop}
    (hP : ∀ entry ∈ modules, ∀ dep ∈ entry.2, P dep) :
    ∀ entry ∈ modules', ∀ dep ∈ entry.2, P dep := by
  obtain ⟨listed, hperm, hlisted⟩ := h
  have hP : ∀ entry ∈ listed, ∀ dep ∈ entry.2, P dep :=
    fun entry hentry => hP entry (hperm.mem_iff.mpr hentry)
  clear hperm
  induction hlisted with
  | nil => simp
  | cons hentry _ ih =>
    rw [List.forall_mem_cons] at hP ⊢
    exact ⟨fun dep hdep => hP.1 dep (hentry.2.mem_iff.mpr hdep), ih hP.2⟩

/-- The resolver answers the same for every listing. -/
theorem resolveDependencies_relisted {modules modules' : List (String × List DepInfo)}
    (hdistinct : (modules.map (·.1)).Nodup) (h : Relisted modules modules')
    (knownIds : Option (List String)) {order : List String}
    (hok : resolveDependencies modules knownIds versions = .ok order) :
    resolveDependencies modules' knownIds versions = .ok order := by
  have hids := h.ids_perm
  have hsame : ∀ id, id ∈ knownIds.getD (modules.map (·.1)) ↔
      id ∈ knownIds.getD (modules'.map (·.1)) := by
    intro id
    cases knownIds with
    | none => exact hids.mem_iff
    | some known => exact Iff.rfl
  rw [resolveDependencies_ok_iff versions hdistinct] at hok
  rw [resolveDependencies_ok_iff versions (hids.nodup_iff.mp hdistinct)]
  obtain ⟨hacceptable, horder, hlength⟩ := hok
  refine ⟨?_, ?_, ?_⟩
  · refine h.forall_deps fun entry hentry dep hdep => ?_
    exact (acceptable_congr _ versions hsame dep).mp (hacceptable entry hentry dep hdep)
  · exact horder.trans (Kahn.order_perm hids (effectiveEdges_perm _ versions hsame h))
  · have := hids.length_eq
    rw [List.length_map, List.length_map] at this
    omega

/-! ## Correctness -/

/-- **`resolve_dependencies` is correct.** It succeeds if and only if every declaration is acceptable,
every effective dependency lies in the batch, and there is no cycle among them. The order then has
exactly the modules of the batch, each behind its effective dependencies, and it is the same for every
listing of the batch. -/
theorem resolveDependencies_correct (modules : List (String × List DepInfo))
    (hdistinct : (modules.map (·.1)).Nodup) (knownIds : Option (List String)) :
    ((∃ order, resolveDependencies modules knownIds versions = .ok order) ↔
      (∀ entry ∈ modules, ∀ dep ∈ entry.2,
        Acceptable (knownIds.getD (modules.map (·.1))) versions dep) ∧
      (∀ target moduleId, EffectiveEdge (knownIds.getD (modules.map (·.1))) versions modules
        target moduleId → target ∈ modules.map (·.1)) ∧
      Kahn.Acyclic (EffectiveEdge (knownIds.getD (modules.map (·.1))) versions modules)) ∧
    ∀ order, resolveDependencies modules knownIds versions = .ok order →
      Kahn.IsTopologicalOrder (EffectiveEdge (knownIds.getD (modules.map (·.1))) versions modules)
        (modules.map (·.1)) order ∧
      ∀ modules', Relisted modules modules' →
        resolveDependencies modules' knownIds versions = .ok order := by
  generalize heffective : knownIds.getD (modules.map (·.1)) = effectiveIds
  have hedge : ∀ target moduleId,
      (target, moduleId) ∈ effectiveEdges effectiveIds versions modules ↔
        EffectiveEdge effectiveIds versions modules target moduleId :=
    fun _ _ => mem_effectiveEdges effectiveIds versions
  have hrel : (fun target moduleId =>
      (target, moduleId) ∈ effectiveEdges effectiveIds versions modules) =
        EffectiveEdge effectiveIds versions modules :=
    funext fun target => funext fun moduleId => propext (hedge target moduleId)
  have htarget : ∀ e ∈ effectiveEdges effectiveIds versions modules, e.2 ∈ modules.map (·.1) := by
    rintro ⟨target, moduleId⟩ he
    obtain ⟨deps, hentry, -⟩ := (hedge target moduleId).mp he
    exact List.mem_map.mpr ⟨(moduleId, deps), hentry, rfl⟩
  have hcomplete := Kahn.complete_iff hdistinct htarget
  rw [hrel, List.length_map] at hcomplete
  have hok := fun order => resolveDependencies_ok_iff versions hdistinct knownIds order
  rw [heffective] at hok
  constructor
  · constructor
    · rintro ⟨order, horder⟩
      obtain ⟨hacceptable, rfl, hlength⟩ := (hok order).mp horder
      obtain ⟨hsource, hacyclic⟩ := hcomplete.mp hlength
      refine ⟨hacceptable, fun target moduleId h => ?_, hacyclic⟩
      exact hsource (target, moduleId) ((hedge target moduleId).mpr h)
    · rintro ⟨hacceptable, hsource, hacyclic⟩
      refine ⟨_, (hok _).mpr ⟨hacceptable, rfl, hcomplete.mpr ⟨?_, hacyclic⟩⟩⟩
      rintro ⟨target, moduleId⟩ he
      exact hsource target moduleId ((hedge target moduleId).mp he)
  · intro order horder
    obtain ⟨-, rfl, hlength⟩ := (hok order).mp horder
    refine ⟨?_, fun modules' h => resolveDependencies_relisted versions hdistinct h knownIds horder⟩
    rw [← hrel]
    exact Kahn.isTopologicalOrder hdistinct htarget (by rw [hlength, List.length_map])

/-- A batch of two modules, one of which needs the other. -/
theorem resolveDependencies_correct_pair :
    Kahn.IsTopologicalOrder (EffectiveEdge ["b", "a"] none [("b", [{ moduleId := "a" }]), ("a", [])])
      ["b", "a"] ["a", "b"] :=
  ((resolveDependencies_correct none [("b", [{ moduleId := "a" }]), ("a", [])] (by decide) none).2
    ["a", "b"] rfl).1

/-- A required dependency that is known, fits and closes no cycle, but lies outside the batch: the
batch is refused. -/
theorem known_dependency_outside_refused :
    Acceptable ["a", "b"] none { moduleId := "b" } ∧
      Kahn.Acyclic (fun target moduleId => target ∈ ["a"] ∧
        EffectiveEdge ["a", "b"] none [("a", [{ moduleId := "b" }])] target moduleId) ∧
      ∃ err, resolveDependencies [("a", [{ moduleId := "b" }])] (some ["a", "b"]) none = .error err ∧
        err.code = .moduleLoadError := by
  refine ⟨⟨fun _ => ⟨by simp, fun _ _ _ h => by cases h⟩, fun _ _ _ _ _ h => by cases h⟩, ?_, _, rfl,
    rfl⟩
  -- the only dependency is no member of the batch
  have hnone : ∀ target moduleId, ¬ (target ∈ ["a"] ∧
      EffectiveEdge ["a", "b"] none [("a", [{ moduleId := "b" }])] target moduleId) := by
    rintro target moduleId ⟨hin, deps, hentry, dep, hdep, rfl, -⟩
    simp only [List.mem_singleton, Prod.mk.injEq] at hin hentry
    obtain ⟨rfl, rfl⟩ := hentry
    obtain rfl := List.mem_singleton.mp hdep
    exact absurd hin (by decide)
  intro v hv
  cases hv with
  | single h => exact hnone _ _ h
  | tail _ h => exact hnone _ _ h

end Apcore
