import Mathlib.Data.List.Destutter
import Mathlib.Data.String.Basic
import Apcore.Lib.Kahn
import Apcore.Utils
import Apcore.Registry.Version

/-! # `Registry.Dependencies` — the load order of a batch of modules

`resolve_dependencies` collects the edges that count, from known targets whose version fits, and
sorts by Kahn's algorithm. Where the sort stalls, `classify_stall` looks for a back edge among the
modules that are left. -/

namespace Apcore

/-- `DepInfo`. -/
structure DepInfo where
  moduleId : String
  version : Option String := none
  optional : Bool := false
  deriving DecidableEq, Repr

namespace ModuleError

/-- `ModuleError::dependency_not_found`. -/
def dependencyNotFound (moduleId dependencyId : String) : ModuleError :=
  ((new .dependencyNotFound ("Module '" ++ moduleId ++ "' has unsatisfied required dependency '" ++
      dependencyId ++ "'")).withDetails
    [("dependency_id", .string dependencyId), ("module_id", .string moduleId)]).withAiGuidance
    ("Module '" ++ moduleId ++ "' declares a required dependency on '" ++ dependencyId ++
      "', but no such module is registered. Either register '" ++ dependencyId ++
      "' before loading '" ++ moduleId ++ "', mark the dependency as optional, or remove it.")

/-- `ModuleError::dependency_version_mismatch`. -/
def dependencyVersionMismatch (moduleId dependencyId required actual : String) : ModuleError :=
  ((new .dependencyVersionMismatch ("Module '" ++ moduleId ++ "' requires dependency '" ++
      dependencyId ++ "' version '" ++ required ++ "', but registered version is '" ++ actual ++
      "'")).withDetails
    [("actual", .string actual), ("dependency_id", .string dependencyId),
      ("module_id", .string moduleId), ("required", .string required)]).withAiGuidance
    ("Module '" ++ moduleId ++ "' declares dependency '" ++ dependencyId ++
      "' with version constraint '" ++ required ++ "', but the registered version is '" ++ actual ++
      "'. Either upgrade the dependency, relax the constraint, or register a compatible version.")

end ModuleError

/-! ## Version constraints -/

/-- `VersionCheck`. -/
inductive VersionCheck where
  | ok
  | skipOptional
  | err (error : ModuleError)

/-- `check_version_constraint`. A target of unknown version is accepted; a malformed constraint is an
error, for an optional dependency too. -/
def checkVersionConstraint (moduleId : String) (dep : DepInfo)
    (moduleVersions : Option (String → Option String)) : VersionCheck :=
  match dep.version, moduleVersions with
  | some constraint, some versions =>
    match versions dep.moduleId with
    | none => .ok
    | some actual =>
      match tryMatchesVersionHint actual constraint with
      | .ok true => .ok
      | .error err => .err err
      | .ok false =>
        if dep.optional then .skipOptional
        else .err (.dependencyVersionMismatch moduleId dep.moduleId constraint actual)
  | _, _ => .ok

/-! ## The graph -/

/-- The maps `graph` and `in_degree`. -/
structure DependencyGraph where
  graph : String → List String
  inDegree : String → Option Nat

namespace DependencyGraph

/-- Every module of the batch has an in-degree. -/
def initial (ids : List String) : DependencyGraph where
  graph _ := []
  inDegree id := if id ∈ ids then some 0 else none

/-- One more edge to a module. -/
def addEdge (g : DependencyGraph) (target moduleId : String) : DependencyGraph where
  graph := Function.update g.graph target (g.graph target ++ [moduleId])
  inDegree := Function.update g.inDegree moduleId (some ((g.inDegree moduleId).getD 0 + 1))

theorem addEdge_graph (g : DependencyGraph) (target moduleId u : String) :
    (g.addEdge target moduleId).graph u =
      if u = target then g.graph target ++ [moduleId] else g.graph u := by
  show Function.update g.graph target _ u = _
  rw [Function.update_apply]

theorem addEdge_inDegree (g : DependencyGraph) (target moduleId v : String) :
    (g.addEdge target moduleId).inDegree v =
      if v = moduleId then some ((g.inDegree moduleId).getD 0 + 1) else g.inDegree v := by
  show Function.update g.inDegree moduleId _ v = _
  rw [Function.update_apply]

end DependencyGraph

/-- The inner loop: the dependencies of one module. -/
def addDependencies (effectiveIds : List String)
    (moduleVersions : Option (String → Option String)) (moduleId : String) :
    List DepInfo → DependencyGraph → Except ModuleError DependencyGraph
  | [], g => .ok g
  | dep :: deps, g =>
    if dep.moduleId ∈ effectiveIds then
      match checkVersionConstraint moduleId dep moduleVersions with
      | .ok => addDependencies effectiveIds moduleVersions moduleId deps (g.addEdge dep.moduleId moduleId)
      | .skipOptional => addDependencies effectiveIds moduleVersions moduleId deps g
      | .err err => .error err
    else if dep.optional then addDependencies effectiveIds moduleVersions moduleId deps g
    else .error (.dependencyNotFound moduleId dep.moduleId)

/-- The outer loop. -/
def addModules (effectiveIds : List String) (moduleVersions : Option (String → Option String)) :
    List (String × List DepInfo) → DependencyGraph → Except ModuleError DependencyGraph
  | [], g => .ok g
  | entry :: entries, g =>
    match addDependencies effectiveIds moduleVersions entry.1 entry.2 g with
    | .error err => .error err
    | .ok g => addModules effectiveIds moduleVersions entries g

/-! ## Stalls -/

/-- The state of `dfs_find_cycle`. -/
structure DfsState where
  path : List String := []
  onPath : List String := []
  visited : List String := []
  /-- The top of the stack comes first. -/
  stack : List (String × Nat)

/-- Go on below a node: to its next neighbour, or back. -/
def dfsAdvance (depMap : String → List String) (st : DfsState) (node : String) (idx : Nat)
    (below : List (String × Nat)) : DfsState :=
  match (depMap node)[idx]? with
  | some neighbour => { st with stack := (neighbour, 0) :: (node, idx + 1) :: below }
  | none =>
    { st with
      onPath := st.onPath.erase node
      path := st.path.dropLast
      stack := below }

/-- `dfs_find_cycle`: the path from a back edge on, or `none` when the stack runs empty. -/
def dfsFindCycle (depMap : String → List String) : Nat → DfsState → Option (List String)
  | 0, _ => none
  | fuel + 1, st =>
    match st.stack with
    | [] => none
    | (node, idx) :: below =>
      if idx = 0 then
        if node ∈ st.onPath then some (st.path.drop (st.path.idxOf node) ++ [node])
        else if node ∈ st.visited then dfsFindCycle depMap fuel { st with stack := below }
        else
          dfsFindCycle depMap fuel (dfsAdvance depMap
            { st with
              visited := node :: st.visited
              onPath := node :: st.onPath
              path := st.path ++ [node] } node idx below)
      else dfsFindCycle depMap fuel (dfsAdvance depMap st node idx below)

/-- The edges of `find_back_edge_cycle`: all declared targets that are left, sorted, each once. -/
def remainingEdges (modules : List (String × List DepInfo)) (remaining : List String) (id : String) :
    List String :=
  match modules.reverse.find? (·.1 = id) with
  | some entry =>
    (Kahn.sorted ((entry.2.map (·.moduleId)).filter (· ∈ remaining))).destutter (· ≠ ·)
  | none => []

/-- `find_back_edge_cycle`. A search takes a turn for each node it visits and two for each edge. -/
def findBackEdgeCycle (modules : List (String × List DepInfo)) (remaining : List String) :
    Option (List String) :=
  let depMap := remainingEdges modules remaining
  let fuel := remaining.foldl (fun n id => n + 2 * (depMap id).length + 1) 1
  (Kahn.sorted remaining).findSome? fun node => dfsFindCycle depMap fuel { stack := [(node, 0)] }

/-- `classify_stall`. -/
def classifyStall (modules : List (String × List DepInfo)) (loadOrder : List String) : ModuleError :=
  let remaining := ((modules.map (·.1)).filter (· ∉ loadOrder)).dedup
  match findBackEdgeCycle modules remaining with
  | some cyclePath =>
    (ModuleError.new .circularDependency
      ("Circular dependency detected: " ++ " -> ".intercalate cyclePath)).withDetails
      [("cycle_path", ModuleError.namesJson cyclePath)]
  | none =>
    let blocked := Kahn.sorted remaining
    (ModuleError.new .moduleLoadError
      (toString blocked.length ++ " module(s) could not be loaded — blocked by unresolved required " ++
        "dependencies: " ++ debugNames blocked)).withDetails
      [("blocked_modules", ModuleError.namesJson blocked),
        ("module_id", .string (",".intercalate blocked))]

/-! ## Resolution -/

/-- `resolve_dependencies`. No node is taken from the queue twice, so there are at most as many turns
as modules. -/
def resolveDependencies (modules : List (String × List DepInfo)) (knownIds : Option (List String))
    (moduleVersions : Option (String → Option String)) : Except ModuleError (List String) :=
  if modules.isEmpty then .ok []
  else
    let ids := modules.map (·.1)
    match addModules (knownIds.getD ids) moduleVersions modules (.initial ids) with
    | .error err => .error err
    | .ok g =>
      let zeroDegree := Kahn.sorted (ids.dedup.filter (g.inDegree · = some 0))
      let loadOrder := (Kahn.drain g.graph modules.length
        { inDegree := g.inDegree, queue := zeroDegree, order := [] }).order
      if loadOrder.length < modules.length then .error (classifyStall modules loadOrder)
      else .ok loadOrder

end Apcore
