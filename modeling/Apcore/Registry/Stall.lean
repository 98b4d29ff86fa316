import Apcore.Lib.Fallible
import Apcore.Registry.BackEdge
import Apcore.Registry.LoadOrder

/-! # `Registry.Stall` — what a stalled resolution is reported as

A stalled sort leaves the modules that cannot be ordered. `classify_stall` searches the declared
targets among them for a cycle, with optional dependencies that were skipped for their version and
without those of an earlier entry of the same id. `classified_iff` says where it reports what is the
case: where the cycle the search ends in is one of effective dependencies. -/

namespace Apcore

open Relation

/-! ## The edges of the search -/

/-- Dropping repetitions drops no element. -/
theorem mem_destutter' {α : Type} [DecidableEq α] {l : List α} {a v : α} (h : v ∈ a :: l) :
    v ∈ l.destutter' (· ≠ ·) a := by
  induction l generalizing a with
  | nil => simpa using h
  | cons b l ih =>
    by_cases hab : a = b
    · rw [List.destutter'_cons_neg _ (by simpa using hab)]
      refine ih ?_
      simpa [hab] using h
    · rw [List.destutter'_cons_pos _ hab]
      rcases List.mem_cons.mp h with rfl | h
      · exact List.mem_cons_self
      · exact List.mem_cons_of_mem _ (ih h)

theorem mem_destutter {α : Type} [DecidableEq α] {l : List α} {v : α} :
    v ∈ l.destutter (· ≠ ·) ↔ v ∈ l := by
  refine ⟨fun h => (List.destutter_sublist _ _).subset h, fun h => ?_⟩
  cases l with
  | nil => cases h
  | cons a l => exact mem_destutter' h

/-- The last entry of an id declares the target, whether or not the dependency counts. -/
def Declares (modules : List (String × List DepInfo)) (moduleId target : String) : Prop :=
  ∃ entry ∈ modules.reverse.find? (·.1 = moduleId), ∃ dep ∈ entry.2, dep.moduleId = target

theorem mem_remainingEdges {modules : List (String × List DepInfo)} {remaining : List String}
    {moduleId target : String} : target ∈ remainingEdges modules remaining moduleId ↔
      Declares modules moduleId target ∧ target ∈ remaining := by
  unfold remainingEdges Declares
  cases modules.reverse.find? (·.1 = moduleId) with
  | none => simp
  | some entry =>
    dsimp only
    rw [mem_destutter, (Kahn.perm_sorted _).mem_iff, List.mem_filter, List.mem_map]
    simp

theorem remainingEdges_sorted (modules : List (String × List DepInfo)) (remaining : List String)
    (moduleId : String) : (remainingEdges modules remaining moduleId).Pairwise (· ≤ ·) := by
  unfold remainingEdges
  split
  · exact List.sortedLE_insertionSort.pairwise.sublist (List.destutter_sublist _ _)
  · exact List.Pairwise.nil

/-! ## The search from all modules that are left -/

/-- The least of the modules that are left from which the search gets to a cycle. -/
structure FirstLeading (R : String → String → Prop) (among : String → Prop) (start : String) :
    Prop where
  mem : among start
  leads : Walks.Leads R start
  least : ∀ u, among u → Walks.Leads R u → start ≤ u

theorem fuel_eq (depMap : String → List String) (remaining : List String) (n : Nat) :
    remaining.foldl (fun n id => n + 2 * (depMap id).length + 1) n =
      n + (remaining.map (visitWork depMap)).sum := by
  induction remaining generalizing n with
  | nil => rfl
  | cons id rest ih =>
    rw [List.foldl_cons, ih, List.map_cons, List.sum_cons, visitWork]
    omega

theorem searches_start (depMap : String → List String) (start : String) :
    Searches depMap start { stack := [(start, 0)] } where
  at_ := .entering .start
  onPath := rfl
  clean u hu := by cases hu

/-- What `find_back_edge_cycle` finds. -/
theorem findBackEdgeCycle_spec (modules : List (String × List DepInfo)) (remaining : List String) :
    (findBackEdgeCycle modules remaining = none ∧
      ∀ u ∈ remaining, ¬ Walks.Leads (Lists (remainingEdges modules remaining)) u) ∨
    ∃ start a q, findBackEdgeCycle modules remaining = some (a :: (q ++ [a])) ∧
      FirstLeading (Lists (remainingEdges modules remaining)) (· ∈ remaining) start ∧
      (a :: (q ++ [a])).IsChain (Walks.LeastStep (Lists (remainingEdges modules remaining))) ∧
      ReflTransGen (Walks.LeastStep (Lists (remainingEdges modules remaining))) start a := by
  have hfinds : ∀ u ∈ remaining, Finds (remainingEdges modules remaining) u
      (dfsFindCycle (remainingEdges modules remaining)
        (remaining.foldl
          (fun n id => n + 2 * (remainingEdges modules remaining id).length + 1) 1)
        { stack := [(u, 0)] }) := by
    intro u hu
    refine finds_dfsFindCycle (remainingEdges_sorted modules remaining) hu
      (fun _ _ h => (mem_remainingEdges.mp h).2) (searches_start _ u) ?_
    rw [fuel_eq]
    simp only [work, frameWork, List.not_mem_nil, not_false_eq_true, decide_true,
      List.filter_true, List.map_cons, List.map_nil, List.sum_cons, List.sum_nil]
    omega
  cases hresult : findBackEdgeCycle modules remaining with
  | none =>
    refine .inl ⟨rfl, fun u hu => ?_⟩
    have hnone := List.findSome?_eq_none_iff.mp hresult u ((Kahn.perm_sorted _).mem_iff.mpr hu)
    have h := hfinds u hu
    rw [hnone] at h
    cases h with
    | none h => exact h
  | some cycle =>
    obtain ⟨before, start, after, hsplit, hfound, hbefore⟩ :=
      List.findSome?_eq_some_iff.mp hresult
    have hstart : start ∈ remaining := by
      rw [← (Kahn.perm_sorted remaining).mem_iff, hsplit]
      simp
    have h := hfinds start hstart
    rw [hfound] at h
    cases h with
    | some a q hchain hreach =>
      have hleads : Walks.Leads (Lists (remainingEdges modules remaining)) start := by
        refine ⟨a, hreach.lift id fun _ _ h => h.step, ?_⟩
        exact (Walks.Closed.transGen (hchain.imp fun _ _ h => h.step) List.mem_cons_self).2
      refine .inr ⟨start, a, q, rfl, ⟨hstart, hleads, fun u hu hleads => ?_⟩, hchain, hreach⟩
      have hmem := (Kahn.perm_sorted remaining).mem_iff.mpr hu
      have hsorted : (Kahn.sorted remaining).Pairwise (· ≤ ·) :=
        List.sortedLE_insertionSort.pairwise
      rw [hsplit] at hmem hsorted
      rcases List.mem_append.mp hmem with hmem | hmem
      · -- the search from an earlier module found nothing
        have h := hfinds u hu
        rw [hbefore u hmem] at h
        cases h with
        | none h => exact absurd hleads h
      · rcases List.mem_cons.mp hmem with rfl | hmem
        · exact le_rfl
        · exact (List.pairwise_cons.mp (List.pairwise_append.mp hsorted).2.1).1 u hmem

/-! ## The stall -/

section Stalls

variable (effectiveIds : List String) (versions : Option (String → Option String))
  (modules : List (String × List DepInfo))

/-- A module of the batch that cannot be ordered. -/
def Blocked (moduleId : String) : Prop :=
  moduleId ∈ modules.map (·.1) ∧
    ¬ Kahn.Orderable (EffectiveEdge effectiveIds versions modules) (modules.map (·.1)) moduleId

/-- A blocked module is declared as a dependency, whether or not it counts. -/
def BlockedStep (moduleId target : String) : Prop :=
  Declares modules moduleId target ∧ Blocked effectiveIds versions modules target

/-- A module has an effective dependency. -/
def DependsOn (moduleId target : String) : Prop :=
  EffectiveEdge effectiveIds versions modules target moduleId

/-- The error tells a cycle from a stall, and the cycle it names is one. -/
structure Classified (err : ModuleError) : Prop where
  circular_iff : err.code = .circularDependency ↔
    ¬ Kahn.Acyclic (EffectiveEdge effectiveIds versions modules)
  path : err.code = .circularDependency → ∃ cyclePath,
    err.details = [("cycle_path", ModuleError.namesJson cyclePath)] ∧
      Walks.Closed (DependsOn effectiveIds versions modules) cyclePath

/-- The declared targets among the blocked modules mislead the search nowhere: the cycle in which it
ends is one of effective dependencies, and where it finds none, there is none of these. -/
structure SearchFits : Prop where
  cyclic : ∀ start, FirstLeading (BlockedStep effectiveIds versions modules)
      (Blocked effectiveIds versions modules) start →
    Walks.EndsIn (BlockedStep effectiveIds versions modules)
      (DependsOn effectiveIds versions modules) start
  acyclic : (∀ u, Blocked effectiveIds versions modules u →
      ¬ Walks.Leads (BlockedStep effectiveIds versions modules) u) →
    Kahn.Acyclic (EffectiveEdge effectiveIds versions modules)

end Stalls

section Classification

variable {versions : Option (String → Option String)} {modules : List (String × List DepInfo)}

theorem namesJson_injective : Function.Injective ModuleError.namesJson := by
  intro names names' h
  exact List.map_injective_iff.mpr (fun _ _ h => Json.string.inj h) (Json.array.inj h)

/-- A closed walk of effective dependencies is a cycle of them. -/
theorem not_acyclic_of_closed {effectiveIds : List String} {p : List String}
    (h : Walks.Closed (DependsOn effectiveIds versions modules) p) :
    ¬ Kahn.Acyclic (EffectiveEdge effectiveIds versions modules) := by
  obtain ⟨hchain, a, q, rfl⟩ := h
  intro hacyclic
  have hcycle := (Walks.Closed.transGen hchain List.mem_cons_self).2
  exact hacyclic a (TransGen.swap a a hcycle)

/-- Where every declaration is acceptable, the only error is that of a stall, over the modules that
can be ordered. -/
theorem classifyStall_of_error {knownIds : Option (List String)} {err : ModuleError}
    (hacceptable : ∀ entry ∈ modules, ∀ dep ∈ entry.2,
      Acceptable (knownIds.getD (modules.map (·.1))) versions dep)
    (herr : resolveDependencies modules knownIds versions = .error err) :
    ∃ order, err = classifyStall modules order ∧ ∀ v, v ∈ order ↔
      Kahn.Orderable (EffectiveEdge (knownIds.getD (modules.map (·.1))) versions modules)
        (modules.map (·.1)) v := by
  unfold resolveDependencies at herr
  dsimp only at herr
  generalize knownIds.getD (modules.map (·.1)) = effectiveIds at hacceptable herr ⊢
  split_ifs at herr with hempty
  obtain ⟨hedges, hok⟩ := addModules_spec effectiveIds versions
    (DependencyGraph.represents_initial (modules.map (·.1))) modules
    fun entry hentry => List.mem_map_of_mem hentry
  obtain ⟨g, hg⟩ := hok.mpr hacceptable
  have hrep := hedges g hg
  rw [List.nil_append] at hrep
  rw [hg] at herr
  dsimp only at herr
  split_ifs at herr with hshort
  cases herr
  refine ⟨_, rfl, fun v => ?_⟩
  rw [hrep.start_eq, funext hrep.graph]
  have hedge : (fun u v => (u, v) ∈ effectiveEdges effectiveIds versions modules) =
      EffectiveEdge effectiveIds versions modules :=
    funext fun u => funext fun v => propext (mem_effectiveEdges effectiveIds versions)
  have htarget : ∀ e ∈ effectiveEdges effectiveIds versions modules,
      e.2 ∈ (modules.map (·.1)).dedup := by
    rintro ⟨target, moduleId⟩ he
    obtain ⟨deps, hentry, -⟩ := (mem_effectiveEdges effectiveIds versions).mp he
    exact List.mem_dedup.mpr (List.mem_map.mpr ⟨(moduleId, deps), hentry, rfl⟩)
  have hfuel : (modules.map (·.1)).dedup.length ≤ modules.length + 0 := by
    have hle := (List.dedup_sublist (modules.map (·.1))).length_le
    rwa [List.length_map] at hle
  obtain ⟨hinv, hqueue⟩ := (Kahn.start_inv (List.nodup_dedup (modules.map (·.1)))
    (effectiveEdges effectiveIds versions modules)).drain htarget hfuel
  rw [hinv.mem_order_iff_orderable hqueue, hedge]
  exact Kahn.orderable_congr fun u => List.mem_dedup

/-- **A stall is classified correctly** exactly where the search is not misled. -/
theorem classified_iff {knownIds : Option (List String)} {err : ModuleError}
    (hacceptable : ∀ entry ∈ modules, ∀ dep ∈ entry.2,
      Acceptable (knownIds.getD (modules.map (·.1))) versions dep)
    (herr : resolveDependencies modules knownIds versions = .error err) :
    Classified (knownIds.getD (modules.map (·.1))) versions modules err ↔
      SearchFits (knownIds.getD (modules.map (·.1))) versions modules := by
  obtain ⟨order, rfl, horder⟩ := classifyStall_of_error hacceptable herr
  generalize knownIds.getD (modules.map (·.1)) = effectiveIds at horder ⊢
  unfold classifyStall
  dsimp only
  have hremaining : ∀ u, u ∈ ((modules.map (·.1)).filter (· ∉ order)).dedup ↔
      Blocked effectiveIds versions modules u := by
    intro u
    rw [List.mem_dedup, List.mem_filter, decide_eq_true_iff, horder, Blocked]
  generalize ((modules.map (·.1)).filter (· ∉ order)).dedup = remaining at hremaining ⊢
  have hlists : Lists (remainingEdges modules remaining) =
      BlockedStep effectiveIds versions modules := by
    funext u v
    refine propext (mem_remainingEdges.trans ?_)
    rw [hremaining, BlockedStep]
  have hspec := findBackEdgeCycle_spec modules remaining
  rw [hlists] at hspec
  rcases hspec with ⟨hnone, hclean⟩ | ⟨start, a, q, hsome, hfirst, hchain, hreach⟩
  · -- nothing leads to a cycle, and none is reported
    rw [hnone]
    have hclean : ∀ u, Blocked effectiveIds versions modules u →
        ¬ Walks.Leads (BlockedStep effectiveIds versions modules) u :=
      fun u hu => hclean u ((hremaining u).mpr hu)
    constructor
    · intro h
      refine ⟨fun start hstart => absurd hstart.leads (hclean start hstart.mem), fun _ => ?_⟩
      by_contra hcyclic
      have hcode := h.circular_iff.mpr hcyclic
      cases hcode
    · intro h
      refine ⟨⟨fun hcode => (by cases hcode), fun hcyclic => absurd (h.acyclic hclean) hcyclic⟩,
        fun hcode => (by cases hcode)⟩
  · rw [hsome]
    have hblocked : (· ∈ remaining) = Blocked effectiveIds versions modules :=
      funext fun u => propext (hremaining u)
    rw [hblocked] at hfirst
    have hends := Walks.closed_iff (S := DependsOn effectiveIds versions modules) hchain hreach
    constructor
    · intro h
      obtain ⟨cyclePath, hdetails, hclosed⟩ := h.path rfl
      have hpath : a :: (q ++ [a]) = cyclePath := by
        refine namesJson_injective ?_
        exact (Prod.mk.inj (List.cons.inj hdetails).1).2
      rw [← hpath] at hclosed
      refine ⟨fun start' hstart' => ?_, fun hclean => absurd hfirst.leads (hclean start hfirst.mem)⟩
      obtain rfl : start' = start := le_antisymm
        (hstart'.least start hfirst.mem hfirst.leads) (hfirst.least start' hstart'.mem hstart'.leads)
      exact hends.mp hclosed
    · intro h
      have hclosed := hends.mpr (h.cyclic start hfirst)
      exact ⟨⟨fun _ => not_acyclic_of_closed hclosed, fun _ => rfl⟩,
        fun _ => ⟨_, rfl, hclosed⟩⟩

/-- Two modules that need each other. -/
theorem classified_iff_mutual : ∃ err,
    resolveDependencies [("a", [{ moduleId := "b" }]), ("b", [{ moduleId := "a" }])] none none =
      .error err ∧
    (Classified ["a", "b"] none [("a", [{ moduleId := "b" }]), ("b", [{ moduleId := "a" }])] err ↔
      SearchFits ["a", "b"] none [("a", [{ moduleId := "b" }]), ("b", [{ moduleId := "a" }])]) := by
  have hacceptable := (addModules_spec ["a", "b"] none (DependencyGraph.represents_initial ["a", "b"])
    [("a", [{ moduleId := "b" }]), ("b", [{ moduleId := "a" }])] (by simp)).2.mp ⟨_, rfl⟩
  refine ⟨_, rfl, ?_⟩
  exact @classified_iff none _ none _ hacceptable rfl

/-- An optional dependency that is skipped for its version closes the reported cycle: the module that
declares it is blocked by one outside the batch. -/
theorem not_classified : ¬ ∀ (modules : List (String × List DepInfo))
    (knownIds : Option (List String)) (versions : Option (String → Option String))
    (err : ModuleError), (∀ entry ∈ modules, ∀ dep ∈ entry.2,
      Acceptable (knownIds.getD (modules.map (·.1))) versions dep) →
    resolveDependencies modules knownIds versions = .error err →
    Classified (knownIds.getD (modules.map (·.1))) versions modules err := by
  intro h
  let modules : List (String × List DepInfo) :=
    [("a", [{ moduleId := "x" }, { moduleId := "b", version := some ">=2", optional := true }]),
      ("b", [{ moduleId := "a" }])]
  let versions : Option (String → Option String) :=
    some fun id => if id = "b" then some "1.0.0" else none
  have hacceptable := (addModules_spec ["a", "b", "x"] versions
    (DependencyGraph.represents_initial ["a", "b"]) modules (by simp [modules])).2.mp
    (Fallible.exists_ok_of_isSome (by decide +kernel))
  have hfails : (Fallible.error? (resolveDependencies modules (some ["a", "b", "x"])
      versions)).map (·.code) = some .circularDependency := by decide +kernel
  obtain ⟨err, herr, hcode⟩ := Option.map_eq_some_iff.mp hfails
  have hclassified := h modules (some ["a", "b", "x"]) versions err hacceptable
    (Fallible.error_of_error? herr)
  refine hclassified.circular_iff.mp hcode ?_
  -- the effective dependencies can be ordered, once the missing module is there
  have hedges : effectiveEdges ["a", "b", "x"] versions modules = [("x", "a"), ("a", "b")] := by
    decide +kernel
  have hedge : (fun u v => (u, v) ∈ effectiveEdges ["a", "b", "x"] versions modules) =
      EffectiveEdge ["a", "b", "x"] versions modules :=
    funext fun u => funext fun v => propext (mem_effectiveEdges ["a", "b", "x"] versions)
  show Kahn.Acyclic (EffectiveEdge ["a", "b", "x"] versions modules)
  rw [← hedge, hedges]
  exact ((@Kahn.complete_iff _ _ ["x", "a", "b"] _ (by decide) (by decide)).mp
    (by decide +kernel)).2

end Classification

end Apcore
