import Roko.DependencyGraph

/-!
# The graph engine

The model of `roko-graph`: the graphs of `types.rs`, the order of `topo.rs` and the engine
of `engine.rs`, which runs the cells of a graph one after the other.  What petgraph finds is
the parameter `petgraph`, what a cell does is an arbitrary function of its inputs, and the
wall-clock times of the results are left out.
-/

namespace Roko

abbrev NodeId := String

/-- A condition on an edge. -/
inductive EdgeCondition
  | success
  | failure
  | outputEquals (key value : String)
  | always
  deriving DecidableEq

structure GraphNode (Config : Type) where
  id : NodeId
  cellType : String
  config : Config

structure GraphEdge where
  source : NodeId
  target : NodeId
  condition : Option EdgeCondition := none
  deriving DecidableEq

inductive GraphError
  | duplicateNode (id : NodeId)
  | nodeNotFound (id : NodeId)
  | cycleDetected
  | unknownCellType (cellType : String)
  deriving DecidableEq

/-- A graph with the nodes and the edges in the order they were added. -/
structure CellGraph (Config : Type) where
  name : String
  nodes : List (GraphNode Config)
  edges : List GraphEdge
  distinct : (nodes.map (·.id)).Nodup
  joined : ∀ edge ∈ edges,
    edge.source ∈ nodes.map (·.id) ∧ edge.target ∈ nodes.map (·.id)

namespace CellGraph

variable {Config : Type} (graph : CellGraph Config)

def ids : List NodeId :=
  graph.nodes.map (·.id)

def new (name : String) : CellGraph Config where
  name
  nodes := []
  edges := []
  distinct := List.nodup_nil
  joined := by simp

def addNode (node : GraphNode Config) : Except GraphError (CellGraph Config) :=
  if fresh : node.id ∈ graph.nodes.map (·.id) then
    .error (.duplicateNode node.id)
  else
    .ok { graph with
      nodes := graph.nodes ++ [node]
      distinct := by
        rw [List.map_append, List.nodup_append_comm]
        exact List.nodup_cons.mpr ⟨fresh, graph.distinct⟩
      joined := by
        intro edge member
        have ends := graph.joined edge member
        rw [List.map_append, List.mem_append, List.mem_append]
        exact ⟨Or.inl ends.1, Or.inl ends.2⟩ }

def addEdge (edge : GraphEdge) : Except GraphError (CellGraph Config) :=
  if sourceListed : edge.source ∈ graph.nodes.map (·.id) then
    if targetListed : edge.target ∈ graph.nodes.map (·.id) then
      .ok { graph with
        edges := graph.edges ++ [edge]
        joined := by
          intro other member
          rcases List.mem_append.mp member with earlier | last
          · exact graph.joined other earlier
          · rw [List.mem_singleton.mp last]
            exact ⟨sourceListed, targetListed⟩ }
    else .error (.nodeNotFound edge.target)
  else .error (.nodeNotFound edge.source)

def getNode (id : NodeId) : Option (GraphNode Config) :=
  graph.nodes.find? fun node => node.id = id

/-- An edge leads from the second node to the first. -/
def Needs (node dep : NodeId) : Prop :=
  ∃ edge ∈ graph.edges, edge.target = node ∧ edge.source = dep

def incomingEdges (id : NodeId) : List GraphEdge :=
  graph.edges.filter fun edge => edge.target = id

end CellGraph

/-- What the engine uses of petgraph: `toposort` and the sources of `neighbors_directed`
with `Direction::Incoming`. -/
structure Petgraph (Config : Type) where
  toposort : CellGraph Config → Option (List NodeId)
  incoming : CellGraph Config → NodeId → List NodeId

/-- The documented behaviour of petgraph on a graph: the sort lists every node after the
sources of its edges and fails on a cycle, and an incoming neighbour is found along each
edge, in whatever order. -/
structure Petgraph.Sound {Config : Type} (petgraph : Petgraph Config)
    (graph : CellGraph Config) : Prop where
  sorted : DependencyGraph.Acyclic graph.Needs →
    ∃ order, petgraph.toposort graph = some order ∧ order.Perm graph.ids ∧
      DependencyGraph.Ordered graph.Needs order
  cyclic : ¬ DependencyGraph.Acyclic graph.Needs → petgraph.toposort graph = none
  incoming : ∀ id,
    (petgraph.incoming graph id).Perm ((graph.incomingEdges id).map (·.source))

def topologicalOrder {Config : Type} (petgraph : Petgraph Config)
    (graph : CellGraph Config) : Except GraphError (List NodeId) :=
  match petgraph.toposort graph with
  | some sorted => .ok sorted
  | none => .error .cycleDetected

/-- What a cell makes of its inputs: outputs, or the text of an error. -/
abbrev Cell (Engram : Type) := List Engram → Except String (List Engram)

/-- The factories of the cell types. -/
abbrev CellRegistry (Config Engram : Type) := String → Option (Config → Cell Engram)

def CellRegistry.create {Config Engram : Type} (registry : CellRegistry Config Engram)
    (cellType : String) (config : Config) : Except GraphError (Cell Engram) :=
  match registry cellType with
  | some factory => .ok (factory config)
  | none => .error (.unknownCellType cellType)

inductive NodeStatus
  | pending
  | running
  | complete
  | failed
  | skipped
  deriving DecidableEq

structure NodeResult where
  nodeId : NodeId
  cellType : String
  status : NodeStatus
  error : Option String
  outputCount : Nat
  deriving DecidableEq

/-- The result of an execution, with the calls that were made to the cells. -/
structure GraphOutput (Engram : Type) where
  graphName : String
  success : Bool
  nodeResults : List NodeResult
  calls : List (NodeId × List Engram)
  deriving DecidableEq

/-- The variables of the loop of `execute`. -/
structure GraphRun (Engram : Type) where
  outputs : NodeId → Option (List Engram) := fun _ => none
  failedNodes : List NodeId := []
  results : List NodeResult := []
  calls : List (NodeId × List Engram) := []

namespace GraphEngine

variable {Config Engram : Type} (petgraph : Petgraph Config)
  (registry : CellRegistry Config Engram) (graph : CellGraph Config)

def hasFailedAncestor (nodeId : NodeId) (failed : List NodeId) : Bool :=
  (petgraph.incoming graph nodeId).any fun predId => failed.contains predId

def gatherInputs (nodeId : NodeId) (outputs : NodeId → Option (List Engram)) :
    List Engram :=
  (petgraph.incoming graph nodeId).flatMap fun predId => (outputs predId).getD []

/-- The body of the loop of `execute`. -/
def executeNode (run : GraphRun Engram) (nodeId : NodeId) :
    Except GraphError (GraphRun Engram) :=
  match graph.getNode nodeId with
  | none => .ok run
  | some node =>
      if hasFailedAncestor petgraph graph nodeId run.failedNodes then
        .ok { run with
          results := run.results ++
            [{ nodeId, cellType := node.cellType, status := .skipped
               error := some "upstream dependency failed", outputCount := 0 }]
          failedNodes := run.failedNodes ++ [nodeId] }
      else do
        let cell ← registry.create node.cellType node.config
        let input := gatherInputs petgraph graph nodeId run.outputs
        let run := { run with calls := run.calls ++ [(nodeId, input)] }
        match cell input with
        | .ok outputEngrams =>
            .ok { run with
              outputs := Function.update run.outputs nodeId (some outputEngrams)
              results := run.results ++
                [{ nodeId, cellType := node.cellType, status := .complete
                   error := none, outputCount := outputEngrams.length }] }
        | .error message =>
            .ok { run with
              failedNodes := run.failedNodes ++ [nodeId]
              results := run.results ++
                [{ nodeId, cellType := node.cellType, status := .failed
                   error := some message, outputCount := 0 }] }

def execute : Except GraphError (GraphOutput Engram) := do
  let order ← topologicalOrder petgraph graph
  let run ← order.foldlM (executeNode petgraph registry graph) {}
  pure
    { graphName := graph.name
      success := run.results.all fun result => result.status = .complete
      nodeResults := run.results
      calls := run.calls }

end GraphEngine

namespace CellGraph

variable {Config : Type} {graph : CellGraph Config}

theorem exists_getNode {id : NodeId} (listed : id ∈ graph.ids) :
    ∃ node ∈ graph.nodes, graph.getNode id = some node ∧ node.id = id := by
  obtain ⟨node, member, same⟩ := List.mem_map.mp listed
  have found : (graph.getNode id).isSome := by
    rw [getNode, List.find?_isSome]
    exact ⟨node, member, by simpa using same⟩
  obtain ⟨result, hit⟩ := Option.isSome_iff_exists.mp found
  have named := List.find?_some hit
  exact ⟨result, List.mem_of_find?_eq_some hit, hit, by simpa using named⟩

theorem mem_ids_of_needs {node dep : NodeId} (need : graph.Needs node dep) :
    dep ∈ graph.ids := by
  obtain ⟨edge, member, -, rfl⟩ := need
  exact (graph.joined edge member).1

theorem needs_iff (node dep : NodeId) :
    graph.Needs node dep ↔ dep ∈ (graph.incomingEdges node).map (·.source) := by
  simp only [Needs, incomingEdges, List.mem_map, List.mem_filter, decide_eq_true_eq]
  constructor
  · rintro ⟨edge, member, target, source⟩
    exact ⟨edge, ⟨member, target⟩, source⟩
  · rintro ⟨edge, ⟨member, target⟩, source⟩
    exact ⟨edge, member, target, source⟩

end CellGraph

theorem Petgraph.Sound.mem_incoming {Config : Type} {petgraph : Petgraph Config}
    {graph : CellGraph Config} (sound : petgraph.Sound graph) {node dep : NodeId} :
    dep ∈ petgraph.incoming graph node ↔ graph.Needs node dep := by
  rw [(sound.incoming node).mem_iff, CellGraph.needs_iff]

end Roko
