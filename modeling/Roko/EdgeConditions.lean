import Roko.GraphExecutions

/-!
# The conditions on edges

An edge may carry a condition on the outcome of its source.  The engine never reads it: a
node is run when all its predecessors are complete and skipped otherwise, so that the
conditions hold of what is run only where they say no more than that.
-/

namespace Roko

open DataFlow

namespace GraphEngine

variable {Config Engram : Type}

def Reported (output : GraphOutput Engram) (id : NodeId) (status : NodeStatus) : Prop :=
  ∃ result ∈ output.nodeResults, result.nodeId = id ∧ result.status = status

/-- The condition of an edge holds of the outcome of its source.  Whether the outputs of a
node have a named output of a given value is the parameter `named`. -/
def Fires (named : String → String → List Engram → Bool)
    (registry : CellRegistry Config Engram) (graph : CellGraph Config)
    (output : GraphOutput Engram) (edge : GraphEdge) : Prop :=
  match edge.condition with
  | none | some .always => True
  | some .success => Reported output edge.source .complete
  | some .failure => Reported output edge.source .failed
  | some (.outputEquals key value) =>
      ∃ delivered, Delivered registry graph output edge.source delivered ∧
        named key value delivered

/-- What an execution is meant to make of the conditions. -/
structure ConditionLaw (named : String → String → List Engram → Bool)
    (registry : CellRegistry Config Engram) (graph : CellGraph Config)
    (output : GraphOutput Engram) : Prop where
  /-- A node with incoming edges is run along an edge that fires. -/
  along : ∀ id, callsOf output id ≠ [] → graph.incomingEdges id ≠ [] →
    ∃ edge ∈ graph.incomingEdges id, Fires named registry graph output edge
  /-- A node that waits for failures is not run when all its sources complete. -/
  waits : ∀ id, graph.incomingEdges id ≠ [] →
    (∀ edge ∈ graph.incomingEdges id, edge.condition = some .failure ∧
      Reported output edge.source .complete) →
    callsOf output id = []
  /-- A node that a failure edge reaches from a failed source is run. -/
  recovers : ∀ edge ∈ graph.edges, edge.condition = some .failure →
    Reported output edge.source .failed → callsOf output edge.target ≠ []

end GraphEngine

/-- No edge waits for a failure, and every node with incoming edges has one that does not
compare outputs. -/
def CellGraph.ConditionsFollow {Config : Type} (graph : CellGraph Config) : Prop :=
  (∀ edge ∈ graph.edges, edge.condition ≠ some .failure) ∧
    ∀ id, graph.incomingEdges id ≠ [] → ∃ edge ∈ graph.incomingEdges id,
      ∀ key value, edge.condition ≠ some (.outputEquals key value)

namespace GraphEngine

variable {Config Engram : Type} {petgraph : Petgraph Config}
  {registry : CellRegistry Config Engram} {graph : CellGraph Config}
  {order : List NodeId} {outcome : NodeId → NodeOutcome Engram}
  {named : String → String → List Engram → Bool}

theorem reported_complete_iff {id : NodeId} :
    Reported (report graph outcome order) id .complete ↔
      id ∈ order ∧ (outcome id).isComplete := by
  constructor
  · rintro ⟨result, member, rfl, status⟩
    obtain ⟨id, listed, rfl⟩ := mem_nodeResults.mp member
    rw [nodeResult_complete_iff] at status
    rw [nodeResult_nodeId]
    exact ⟨listed, status⟩
  · rintro ⟨listed, complete⟩
    refine ⟨nodeResult graph id (outcome id), mem_nodeResults.mpr ⟨id, listed, rfl⟩,
      nodeResult_nodeId graph id _, ?_⟩
    rwa [nodeResult_complete_iff]

theorem reported_failed_of_isFailed {id : NodeId} (listed : id ∈ order)
    (failed : (outcome id).isFailed) :
    Reported (report graph outcome order) id .failed := by
  refine ⟨nodeResult graph id (outcome id), mem_nodeResults.mpr ⟨id, listed, rfl⟩,
    nodeResult_nodeId graph id _, ?_⟩
  rwa [nodeResult_failed_iff]

theorem exists_call {id : NodeId} (called : callsOf (report graph outcome order) id ≠ []) :
    ∃ input, (id, input) ∈ (report graph outcome order).calls := by
  obtain ⟨⟨other, input⟩, member⟩ := List.exists_mem_of_ne_nil _ called
  obtain ⟨listed, same⟩ := List.mem_filter.mp member
  rw [decide_eq_true_eq] at same
  exact ⟨input, same ▸ listed⟩

theorem callsOf_ne_nil {id : NodeId} {input : List Engram}
    (called : (id, input) ∈ (report graph outcome order).calls) :
    callsOf (report graph outcome order) id ≠ [] := by
  apply List.ne_nil_of_mem (a := (id, input))
  exact List.mem_filter.mpr ⟨called, by simp⟩

theorem mem_incomingEdges {id : NodeId} {edge : GraphEdge} :
    edge ∈ graph.incomingEdges id ↔ edge ∈ graph.edges ∧ edge.target = id := by
  simp [CellGraph.incomingEdges]

/-- Where the conditions ask for no more than complete sources, they hold of what is
run. -/
theorem report_conditions (sound : petgraph.Sound graph) (perm : order.Perm graph.ids)
    (solves : (flow petgraph registry graph).Solves order outcome)
    (follow : graph.ConditionsFollow) :
    ConditionLaw named registry graph (report graph outcome order) where
  along := by
    intro id called reached
    obtain ⟨input, member⟩ := exists_call called
    obtain ⟨listed, ran⟩ := mem_calls.mp member
    obtain ⟨complete, -, -⟩ := run_of_input? solves listed ran
    obtain ⟨edge, incoming, plain⟩ := follow.2 id reached
    obtain ⟨edgeListed, target⟩ := mem_incomingEdges.mp incoming
    have noFailure := follow.1 edge edgeListed
    have need : graph.Needs id edge.source := ⟨edge, edgeListed, target, rfl⟩
    refine ⟨edge, incoming, ?_⟩
    unfold Fires
    rcases condition : edge.condition with _ | _ | _ | ⟨key, value⟩ | _
    · trivial
    · rw [reported_complete_iff]
      exact ⟨perm.mem_iff.mpr (CellGraph.mem_ids_of_needs need),
        complete _ (sound.mem_incoming.mpr need)⟩
    · exact absurd condition noFailure
    · exact absurd condition (plain key value)
    · trivial
  waits := by
    intro id reached failures
    obtain ⟨edge, incoming, -⟩ := follow.2 id reached
    have noFailure := follow.1 edge (mem_incomingEdges.mp incoming).1
    exact absurd (failures edge incoming).1 noFailure
  recovers := fun edge listed failure => absurd failure (follow.1 edge listed)

/-- The registry whose cells all behave alike. -/
def uniform (cell : Cell Engram) : CellRegistry Config Engram :=
  fun _ => some fun _ => cell

theorem registered_uniform (cell : Cell Engram) (graph : CellGraph Config) :
    Registered (uniform cell) graph :=
  fun _ _ => ⟨_, rfl⟩

theorem cellAt_uniform (cell : Cell Engram) {id : NodeId} (listed : id ∈ graph.ids) :
    cellAt (uniform cell) graph id = cell := by
  obtain ⟨node, -, found, -⟩ := CellGraph.exists_getNode listed
  simp [cellAt, found, uniform]

/-- Some behaviour of the cells lets a given node fail. -/
theorem exists_failing (value : Engram) (sound : petgraph.Sound graph)
    (acyclic : DependencyGraph.Acyclic graph.Needs) {id : NodeId}
    (listed : id ∈ graph.ids) :
    ∃ cell : Cell Engram, ∃ order outcome, order.Perm graph.ids ∧
      (flow petgraph (uniform cell) graph).Solves order outcome ∧
      execute petgraph (uniform cell) graph = .ok (report graph outcome order) ∧
      (outcome id).isFailed := by
  obtain ⟨order, sorted, perm, ordered⟩ := sound.sorted acyclic
  have incomingEq : (fun node dep => dep ∈ petgraph.incoming graph node) = graph.Needs := by
    funext node dep
    exact propext sound.mem_incoming
  obtain ⟨limit, first⟩ := Flow.exists_first_failure (petgraph.incoming graph)
    value "failed" (perm.nodup_iff.mpr graph.distinct) (by rwa [incomingEq])
    (by rwa [incomingEq])
    (fun node dep need => perm.mem_iff.mpr
      (CellGraph.mem_ids_of_needs (sound.mem_incoming.mp need)))
    (perm.mem_iff.mpr listed)
  let cell : Cell Engram := fun input =>
    if input.length < limit then .ok (value :: input) else .error "failed"
  obtain ⟨other, outcome, otherPerm, -, solves, executed⟩ :=
    execute_acyclic sound acyclic (registered_uniform cell graph)
  refine ⟨cell, other, outcome, otherPerm, solves, executed, ?_⟩
  apply first
  have limitedSolves := solves.of_cells
    (Flow.limited (petgraph.incoming graph) value limit "failed") rfl
    fun node member => cellAt_uniform cell (otherPerm.mem_iff.mp member)
  intro node member
  exact limitedSolves node (otherPerm.mem_iff.mpr (perm.mem_iff.mp member))

/-- What a failure edge reaches is skipped when its source fails. -/
theorem no_failure_edge [Inhabited Engram] (sound : petgraph.Sound graph)
    (acyclic : DependencyGraph.Acyclic graph.Needs)
    (lawful : ∀ registry : CellRegistry Config Engram, Registered registry graph →
      ∃ output, execute petgraph registry graph = .ok output ∧
        ConditionLaw named registry graph output)
    {edge : GraphEdge} (listed : edge ∈ graph.edges) : edge.condition ≠ some .failure := by
  intro failure
  obtain ⟨cell, order, outcome, perm, solves, executed, failed⟩ :=
    exists_failing (default : Engram) sound acyclic (graph.joined edge listed).1
  obtain ⟨output, reported, law⟩ := lawful _ (registered_uniform cell graph)
  rw [executed, Except.ok.injEq] at reported
  subst reported
  have sourceListed : edge.source ∈ order := perm.mem_iff.mpr (graph.joined edge listed).1
  have called := law.recovers edge listed failure
    (reported_failed_of_isFailed sourceListed failed)
  obtain ⟨input, member⟩ := exists_call called
  obtain ⟨targetListed, ran⟩ := mem_calls.mp member
  have complete := (run_of_input? solves targetListed ran).1 edge.source
    (sound.mem_incoming.mpr ⟨edge, listed, rfl, rfl⟩)
  cases found : outcome edge.source <;>
    simp [found, Outcome.isComplete, Outcome.isFailed] at complete failed

/-- A node whose edges all compare outputs is run when its sources return nothing. -/
theorem exists_plain_edge (sound : petgraph.Sound graph)
    (acyclic : DependencyGraph.Acyclic graph.Needs)
    (silent : ∀ key value, named key value [] = false)
    (lawful : ∀ registry : CellRegistry Config Engram, Registered registry graph →
      ∃ output, execute petgraph registry graph = .ok output ∧
        ConditionLaw named registry graph output)
    {id : NodeId} (reached : graph.incomingEdges id ≠ []) :
    ∃ edge ∈ graph.incomingEdges id,
      ∀ key value, edge.condition ≠ some (.outputEquals key value) := by
  let quiet : Cell Engram := fun _ => .ok []
  obtain ⟨order, outcome, perm, -, solves, executed⟩ :=
    execute_acyclic sound acyclic (registered_uniform quiet graph)
  obtain ⟨output, reported, law⟩ := lawful _ (registered_uniform quiet graph)
  rw [executed, Except.ok.injEq] at reported
  subst reported
  obtain ⟨edge, incoming⟩ := List.exists_mem_of_ne_nil _ reached
  obtain ⟨edgeListed, target⟩ := mem_incomingEdges.mp incoming
  have listed : id ∈ order := perm.mem_iff.mpr (target ▸ (graph.joined edge edgeListed).2)
  have flowAcyclic :
      DependencyGraph.Acyclic (flow petgraph (uniform quiet) graph).Needs := by
    rwa [flow_needs sound]
  have complete := solves.complete_of_total flowAcyclic (closed_flow _ sound perm)
    (fun _ => [])
    (fun other member input => by
      rw [flow_cell, cellAt_uniform quiet (perm.mem_iff.mp member)]) listed
  have ran : (outcome id).input? = some ((flow petgraph (uniform quiet) graph).inputs
      outcome id) := by
    rw [complete]
    rfl
  have called : callsOf (report graph outcome order) id ≠ [] :=
    callsOf_ne_nil (mem_calls.mpr ⟨listed, ran⟩)
  obtain ⟨fired, firedIncoming, fires⟩ := law.along id called reached
  refine ⟨fired, firedIncoming, ?_⟩
  intro key value condition
  rw [Fires, condition] at fires
  obtain ⟨delivered, ⟨input, member, made⟩, holds⟩ := fires
  rw [cellAt_uniform quiet (perm.mem_iff.mp (mem_calls.mp member).1)] at made
  cases made
  rw [silent] at holds
  cases holds

/-- The executions of a graph respect its conditions, whatever the cells do, exactly when
no edge waits for a failure and no node has only edges that compare outputs. -/
theorem conditions_respected_iff [Inhabited Engram]
    (named : String → String → List Engram → Bool)
    (silent : ∀ key value, named key value [] = false) (petgraph : Petgraph Config)
    (graph : CellGraph Config) (sound : petgraph.Sound graph)
    (acyclic : DependencyGraph.Acyclic graph.Needs) :
    (∀ registry : CellRegistry Config Engram, Registered registry graph →
      ∃ output, execute petgraph registry graph = .ok output ∧
        ConditionLaw named registry graph output) ↔ graph.ConditionsFollow := by
  constructor
  · intro lawful
    exact ⟨fun edge listed => no_failure_edge sound acyclic lawful listed,
      fun id reached => exists_plain_edge sound acyclic silent lawful reached⟩
  · intro follow registry registered
    obtain ⟨order, outcome, perm, -, solves, executed⟩ :=
      execute_acyclic sound acyclic registered
    exact ⟨_, executed, report_conditions sound perm solves follow⟩

/-- An engram with one named output: its key and its value. -/
abbrev NamedOutput := String × String

def hasOutput (key value : String) (outputs : List NamedOutput) : Bool :=
  outputs.contains (key, value)

theorem conditions_respected_pair :
    (pairGraph [none]).ConditionsFollow ∧
      ∀ registry : CellRegistry Unit NamedOutput, Registered registry (pairGraph [none]) →
        ∃ output, execute inOrder registry (pairGraph [none]) = .ok output ∧
          ConditionLaw hasOutput registry (pairGraph [none]) output := by
  have follow : (pairGraph [none]).ConditionsFollow := by
    refine ⟨by decide, ?_⟩
    intro id reached
    obtain ⟨edge, incoming⟩ := List.exists_mem_of_ne_nil _ reached
    obtain ⟨listed, -⟩ := mem_incomingEdges.mp incoming
    refine ⟨edge, incoming, ?_⟩
    rw [List.mem_singleton.mp listed]
    simp
  exact ⟨follow, (conditions_respected_iff hasOutput (fun _ _ => rfl) inOrder (pairGraph [none])
    (inOrder_sound _) (pairGraph_acyclic _)).mpr follow⟩

/-- The one edge of the graph fires on a failure of its source. -/
def rescueGraph : CellGraph Unit :=
  pairGraph [some .failure]

/-- The handler of a failure is run after a success and skipped after a failure. -/
theorem rescue_inverted :
    inOrder.Sound rescueGraph ∧ DependencyGraph.Acyclic rescueGraph.Needs ∧
    (∃ output, execute inOrder (uniform fun _ => .ok [7]) rescueGraph = .ok output ∧
      output.calls = [("a", []), ("b", [7])] ∧
      ¬ ConditionLaw (fun _ _ _ => false) (uniform fun _ => .ok [7]) rescueGraph output) ∧
    ∃ output, execute inOrder (uniform fun _ => .error "broken") rescueGraph = .ok output ∧
      output.calls = [("a", [])] ∧ output.nodeResults.map (·.status) = [.failed, .skipped] ∧
      ¬ ConditionLaw (fun _ _ (_ : List Nat) => false) (uniform fun _ => .error "broken")
        rescueGraph output := by
  refine ⟨inOrder_sound _, pairGraph_acyclic _, ?_, ?_⟩
  · refine ⟨_, rfl, by decide, ?_⟩
    intro law
    have idle := law.waits "b" (by decide) (by
      intro edge incoming
      obtain rfl : edge = ⟨"a", "b", some .failure⟩ := by
        simpa [CellGraph.incomingEdges, rescueGraph, pairGraph] using incoming
      exact ⟨rfl, _, List.mem_cons_self, rfl, rfl⟩)
    exact absurd idle (by decide)
  · refine ⟨_, rfl, by decide, by decide, ?_⟩
    intro law
    have rescued := law.recovers ⟨"a", "b", some .failure⟩ (by decide) rfl
      ⟨_, List.mem_cons_self, rfl, rfl⟩
    exact absurd rescued (by decide)

end GraphEngine

end Roko
