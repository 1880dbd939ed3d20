import Roko.DataFlow
import Roko.GraphEngine

/-!
# The outcomes of a graph

An execution of a graph follows the equations of a data flow: the run after some nodes is
the summary of the outcomes of these nodes, and the output reports the solution for all.
-/

namespace Roko

open DataFlow

namespace GraphEngine

variable {Config Engram : Type} (petgraph : Petgraph Config)
  (registry : CellRegistry Config Engram) (graph : CellGraph Config)

/-- All cell types of the graph are registered. -/
def Registered : Prop :=
  ∀ node ∈ graph.nodes, ∃ factory, registry node.cellType = some factory

def cellType (id : NodeId) : String :=
  ((graph.getNode id).map (·.cellType)).getD ""

/-- The cell that the registry creates for a node. -/
def cellAt (id : NodeId) : Cell Engram :=
  ((graph.getNode id).bind fun node =>
    (registry node.cellType).map fun factory => factory node.config).getD .ok

/-- The cells of a graph and the edges between them. -/
def flow : Flow NodeId Engram String where
  parents := petgraph.incoming graph
  cell := cellAt registry graph

@[simp]
theorem flow_cell (id : NodeId) :
    (flow petgraph registry graph).cell id = cellAt registry graph id :=
  rfl

abbrev NodeOutcome (Engram : Type) := Outcome Engram String

def nodeResult (nodeId : NodeId) : NodeOutcome Engram → NodeResult
  | .complete _ output =>
      { nodeId, cellType := cellType graph nodeId, status := .complete
        error := none, outputCount := output.length }
  | .failed _ message =>
      { nodeId, cellType := cellType graph nodeId, status := .failed
        error := some message, outputCount := 0 }
  | .skipped =>
      { nodeId, cellType := cellType graph nodeId, status := .skipped
        error := some "upstream dependency failed", outputCount := 0 }

def nodeCall (outcome : NodeId → NodeOutcome Engram) (id : NodeId) :
    Option (NodeId × List Engram) :=
  (outcome id).input?.map fun input => (id, input)

/-- The variables of the loop when some nodes are done. -/
def summary (outcome : NodeId → NodeOutcome Engram) (done : List NodeId) :
    GraphRun Engram where
  outputs := fun id => (outcome id).output?
  failedNodes := done.filter fun id => !(outcome id).isComplete
  results := done.map fun id => nodeResult graph id (outcome id)
  calls := done.filterMap (nodeCall outcome)

/-- What `execute` returns for the outcomes of the nodes. -/
def report (outcome : NodeId → NodeOutcome Engram) (order : List NodeId) :
    GraphOutput Engram where
  graphName := graph.name
  success := order.all fun id => (outcome id).isComplete
  nodeResults := order.map fun id => nodeResult graph id (outcome id)
  calls := order.filterMap (nodeCall outcome)

@[simp]
theorem nodeResult_nodeId (id : NodeId) (outcome : NodeOutcome Engram) :
    (nodeResult graph id outcome).nodeId = id := by
  cases outcome <;> rfl

theorem nodeResult_complete_iff (id : NodeId) (outcome : NodeOutcome Engram) :
    (nodeResult graph id outcome).status = .complete ↔ outcome.isComplete = true := by
  cases outcome <;> simp [nodeResult, Outcome.isComplete]

theorem nodeResult_failed_iff (id : NodeId) (outcome : NodeOutcome Engram) :
    (nodeResult graph id outcome).status = .failed ↔ outcome.isFailed = true := by
  cases outcome <;> simp [nodeResult, Outcome.isFailed]

theorem nodeResult_skipped_iff (id : NodeId) (outcome : NodeOutcome Engram) :
    (nodeResult graph id outcome).status = .skipped ↔ outcome = .skipped := by
  cases outcome <;> simp [nodeResult]

variable {petgraph registry graph}

theorem summary_update (outcome : NodeId → NodeOutcome Engram) {done : List NodeId}
    {id : NodeId} (fresh : id ∉ done) (new : NodeOutcome Engram) :
    summary graph (Function.update outcome id new) (done ++ [id]) =
      { outputs := Function.update (summary graph outcome done).outputs id new.output?
        failedNodes := (summary graph outcome done).failedNodes ++
          if new.isComplete then [] else [id]
        results := (summary graph outcome done).results ++ [nodeResult graph id new]
        calls := (summary graph outcome done).calls ++
          (new.input?.map fun input => (id, input)).toList } := by
  have same : ∀ other ∈ done, Function.update outcome id new other = outcome other := by
    intro other member
    apply Function.update_of_ne
    rintro rfl
    exact fresh member
  have filtered : (done.filter fun other =>
      !(Function.update outcome id new other).isComplete) =
      done.filter fun other => !(outcome other).isComplete := by
    apply List.filter_congr
    intro other member
    rw [same other member]
  have called : done.filterMap (nodeCall (Function.update outcome id new)) =
      done.filterMap (nodeCall outcome) := by
    apply List.filterMap_congr
    intro other member
    rw [nodeCall, nodeCall, same other member]
  simp only [summary, List.filter_append, List.map_append, List.filterMap_append, filtered,
    called, GraphRun.mk.injEq]
  refine ⟨?_, ?_, ?_, ?_⟩
  · ext other
    by_cases isLast : other = id
    · simp [isLast]
    · simp [isLast]
  · cases complete : new.isComplete <;> simp [complete]
  · congr 1
    · apply List.map_congr_left
      intro other member
      rw [same other member]
    · simp
  · cases input : new.input? <;> simp [nodeCall, input]

theorem hasFailedAncestor_summary (outcome : NodeId → NodeOutcome Engram)
    {done : List NodeId} {id : NodeId} (met : ∀ dep ∈ petgraph.incoming graph id, dep ∈ done) :
    hasFailedAncestor petgraph graph id (summary graph outcome done).failedNodes =
      !((petgraph.incoming graph id).all fun dep => (outcome dep).isComplete) := by
  rw [hasFailedAncestor, Bool.eq_iff_iff, List.any_eq_true, Bool.not_eq_true',
    List.all_eq_false]
  constructor
  · rintro ⟨dep, need, failed⟩
    refine ⟨dep, need, ?_⟩
    simpa [summary, met dep need] using failed
  · rintro ⟨dep, need, failed⟩
    refine ⟨dep, need, ?_⟩
    simpa [summary, met dep need] using failed

theorem gatherInputs_summary (outcome : NodeId → NodeOutcome Engram) (done : List NodeId)
    (id : NodeId) : gatherInputs petgraph graph id (summary graph outcome done).outputs =
      (flow petgraph registry graph).inputs outcome id := by
  apply List.flatMap_congr
  intro dep need
  exact Outcome.getD_output? (outcome dep)

/-- One turn of the loop reports the next node. -/
theorem executeNode_summary (petgraph : Petgraph Config) (registered : Registered registry graph)
    (outcome : NodeId → NodeOutcome Engram) {done : List NodeId} {id : NodeId}
    (listed : id ∈ graph.ids) (fresh : id ∉ done) (waiting : outcome id = .skipped)
    (met : ∀ dep ∈ petgraph.incoming graph id, dep ∈ done) :
    executeNode petgraph registry graph (summary graph outcome done) id =
      .ok (summary graph (Function.update outcome id
        ((flow petgraph registry graph).evaluate outcome id)) (done ++ [id])) := by
  obtain ⟨node, member, found, named⟩ := CellGraph.exists_getNode listed
  obtain ⟨factory, known⟩ := registered node member
  have typed : cellType graph id = node.cellType := by
    simp [cellType, found]
  have cell : (flow petgraph registry graph).cell id = factory node.config := by
    simp [flow, cellAt, found, known]
  rw [summary_update outcome fresh, executeNode, found]
  dsimp only
  rw [hasFailedAncestor_summary outcome met]
  cases complete : (petgraph.incoming graph id).all fun dep => (outcome dep).isComplete with
  | false =>
      have skipped : (flow petgraph registry graph).evaluate outcome id = .skipped := by
        rw [Flow.evaluate, if_neg]
        simpa [flow] using complete
      simp [skipped, nodeResult, typed, Outcome.isComplete, Outcome.output?, Outcome.input?,
        summary, waiting]
  | true =>
      have run : (flow petgraph registry graph).evaluate outcome id =
          (flow petgraph registry graph).run id
            ((flow petgraph registry graph).inputs outcome id) :=
        Flow.evaluate_of_complete (List.all_eq_true.mp complete)
      have created : registry.create node.cellType node.config =
          .ok (factory node.config) := by
        rw [CellRegistry.create, known]
      have unset : (summary graph outcome done).outputs id = none := by
        simp [summary, waiting, Outcome.output?]
      have gathered : gatherInputs petgraph graph id (summary graph outcome done).outputs =
          (flow petgraph registry graph).inputs outcome id :=
        gatherInputs_summary outcome done id
      rw [Bool.not_true, if_neg Bool.false_ne_true, created, run, Flow.run, cell]
      simp only [bind, Except.bind, gathered]
      cases factory node.config ((flow petgraph registry graph).inputs outcome id) with
      | ok output =>
          simp [nodeResult, typed, Outcome.isComplete, Outcome.output?, Outcome.input?]
      | error message =>
          simp [nodeResult, typed, Outcome.isComplete, Outcome.output?, Outcome.input?,
            unset]

/-- The loop reports the solution of the flow for the nodes it has visited. -/
theorem foldlM_executeNode (registered : Registered registry graph) {order : List NodeId}
    (listed : ∀ id ∈ order, id ∈ graph.ids) (nodup : order.Nodup)
    (ordered : DependencyGraph.Ordered (flow petgraph registry graph).Needs order) :
    order.foldlM (executeNode petgraph registry graph) {} =
      .ok (summary graph ((flow petgraph registry graph).solve order) order) := by
  induction order using List.reverseRecOn with
  | nil => rfl
  | append_singleton order last ih =>
      have fresh : last ∉ order := by
        rw [List.nodup_append_comm, List.singleton_append, List.nodup_cons] at nodup
        exact nodup.1
      have before := ih (fun id member => listed id (List.mem_append_left _ member))
        (List.nodup_append.mp nodup).1 ordered.of_append
      rw [List.foldlM_append, before, Flow.solve_append_singleton]
      have turn := executeNode_summary petgraph registered
        ((flow petgraph registry graph).solve order)
        (listed last (List.mem_append_right _ (List.mem_singleton_self last))) fresh
        (Flow.solve_of_notMem fresh) (ordered order last [] rfl)
      simp [bind, Except.bind, pure, Except.pure, turn]

/-- An execution of an acyclic graph reports outcomes that solve the flow, in an order that
lists every node after the nodes it needs. -/
theorem execute_acyclic (sound : petgraph.Sound graph)
    (acyclic : DependencyGraph.Acyclic graph.Needs) (registered : Registered registry graph) :
    ∃ order outcome, order.Perm graph.ids ∧ DependencyGraph.Ordered graph.Needs order ∧
      (flow petgraph registry graph).Solves order outcome ∧
      execute petgraph registry graph = .ok (report graph outcome order) := by
  obtain ⟨order, sorted, perm, ordered⟩ := sound.sorted acyclic
  have nodup : order.Nodup := perm.nodup_iff.mpr graph.distinct
  have flowOrdered : DependencyGraph.Ordered (flow petgraph registry graph).Needs order :=
    fun before node after split dep need =>
      ordered before node after split dep (sound.mem_incoming.mp need)
  refine ⟨order, _, perm, ordered, Flow.solve_solves _ nodup flowOrdered, ?_⟩
  rw [execute, topologicalOrder, sorted]
  have run := foldlM_executeNode registered (fun id => perm.mem_iff.mp) nodup flowOrdered
  simp only [bind, Except.bind, run, pure, Except.pure]
  simp [report, summary, List.all_map, Function.comp_def, nodeResult_complete_iff]

end GraphEngine

/-!
# What an execution of a graph reports

Every node is reported once and after the nodes it needs, failures skip all that depends on
them, and every cell is run on the outputs of its predecessors.  A predecessor that is
joined by several edges delivers its outputs once for each of them.
-/

/-- No two edges lead from one node to another. -/
def CellGraph.Simple {Config : Type} (graph : CellGraph Config) : Prop :=
  (graph.edges.map fun edge => (edge.source, edge.target)).Nodup

/-- A graph has no repeated edges when no node has a source twice. -/
theorem CellGraph.simple_iff {Config : Type} (graph : CellGraph Config) :
    graph.Simple ↔ ∀ id, ((graph.incomingEdges id).map (·.source)).Nodup := by
  unfold Simple incomingEdges
  induction graph.edges with
  | nil => simp
  | cons edge edges ih =>
      rw [List.map_cons, List.nodup_cons, ih]
      have fresh : (edge.source, edge.target) ∉
            edges.map (fun other => (other.source, other.target)) ↔
          edge.source ∉
            (edges.filter fun other => other.target = edge.target).map (·.source) := by
        simp only [List.mem_map, List.mem_filter, Prod.mk.injEq, decide_eq_true_eq]
        constructor <;> rintro none ⟨other, found⟩
        · exact none ⟨other, found.1.1, found.2, found.1.2⟩
        · exact none ⟨other, ⟨found.1, found.2.2⟩, found.2.1⟩
      rw [fresh]
      constructor
      · rintro ⟨new, rest⟩ id
        by_cases target : edge.target = id
        · subst target
          simpa using ⟨by simpa using new, rest edge.target⟩
        · simpa [target] using rest id
      · intro rest
        constructor
        · have here := rest edge.target
          rw [List.filter_cons_of_pos (by simp), List.map_cons, List.nodup_cons] at here
          exact here.1
        · intro id
          have here := rest id
          by_cases target : edge.target = id
          · rw [List.filter_cons_of_pos (by simpa using target), List.map_cons,
              List.nodup_cons] at here
            exact here.2
          · rwa [List.filter_cons_of_neg (by simpa using target)] at here

namespace GraphEngine

variable {Config Engram : Type}

/-- The outputs of a node are what its cell returned for the inputs it was run on. -/
def Delivered (registry : CellRegistry Config Engram) (graph : CellGraph Config)
    (output : GraphOutput Engram) (id : NodeId) (delivered : List Engram) : Prop :=
  ∃ input, (id, input) ∈ output.calls ∧ cellAt registry graph id input = .ok delivered

/-- The calls of the cell of one node. -/
def callsOf (output : GraphOutput Engram) (id : NodeId) : List (NodeId × List Engram) :=
  output.calls.filter fun call => call.1 = id

/-- What an execution is meant to report. -/
structure ExecutionLaw (registry : CellRegistry Config Engram) (graph : CellGraph Config)
    (output : GraphOutput Engram) : Prop where
  once : (output.nodeResults.map (·.nodeId)).Perm graph.ids
  ordered : DependencyGraph.Ordered graph.Needs (output.nodeResults.map (·.nodeId))
  skipped : ∀ result ∈ output.nodeResults, (result.status = .skipped ↔
    ∃ other ∈ output.nodeResults, other.status = .failed ∧
      Relation.TransGen graph.Needs result.nodeId other.nodeId)
  idle : ∀ result ∈ output.nodeResults, result.status = .skipped →
    callsOf output result.nodeId = []
  run : ∀ result ∈ output.nodeResults, result.status ≠ .skipped →
    ∃ input, callsOf output result.nodeId = [(result.nodeId, input)] ∧
      result.status = match cellAt registry graph result.nodeId input with
        | .ok _ => .complete
        | .error _ => .failed
  /-- The inputs of a call are the outputs of each distinct predecessor. -/
  inputs : ∀ call ∈ output.calls, ∃ predecessors outputs, predecessors.Nodup ∧
    (∀ dep, dep ∈ predecessors ↔ graph.Needs call.1 dep) ∧
    List.Forall₂ (Delivered registry graph output) predecessors outputs ∧
    call.2 = outputs.flatten
  success : output.success = true ↔
    ∀ result ∈ output.nodeResults, result.status ≠ .failed

variable {petgraph : Petgraph Config} {registry : CellRegistry Config Engram}
  {graph : CellGraph Config} {order : List NodeId}
  {outcome : NodeId → NodeOutcome Engram}

theorem map_nodeId_report :
    (report graph outcome order).nodeResults.map (·.nodeId) = order := by
  simp [report, Function.comp_def]

theorem mem_nodeResults {result : NodeResult} :
    result ∈ (report graph outcome order).nodeResults ↔
      ∃ id ∈ order, nodeResult graph id (outcome id) = result := by
  simp [report]

theorem mem_calls {id : NodeId} {input : List Engram} :
    (id, input) ∈ (report graph outcome order).calls ↔
      id ∈ order ∧ (outcome id).input? = some input := by
  simp only [report, List.mem_filterMap, nodeCall, Option.map_eq_some_iff, Prod.mk.injEq]
  constructor
  · rintro ⟨other, listed, input, found, rfl, rfl⟩
    exact ⟨listed, found⟩
  · rintro ⟨listed, found⟩
    exact ⟨id, listed, input, found, rfl, rfl⟩

theorem callsOf_of_notMem {id : NodeId} (unlisted : id ∉ order) :
    callsOf (report graph outcome order) id = [] := by
  rw [callsOf, List.filter_eq_nil_iff]
  rintro ⟨other, input⟩ member
  have listed := (mem_calls.mp member).1
  simp only [decide_eq_true_eq]
  rintro rfl
  exact unlisted listed

/-- The cell of a node is called as often as its outcome says. -/
theorem callsOf_report (nodup : order.Nodup) {id : NodeId} (listed : id ∈ order) :
    callsOf (report graph outcome order) id = (nodeCall outcome id).toList := by
  induction order with
  | nil => cases listed
  | cons first order ih =>
      have split : callsOf (report graph outcome (first :: order)) id =
          ((nodeCall outcome first).toList.filter fun call => call.1 = id) ++
            callsOf (report graph outcome order) id := by
        cases call : nodeCall outcome first <;>
          simp [callsOf, report, call, List.filter_cons]
        split <;> rfl
      rw [List.nodup_cons] at nodup
      rw [split]
      rcases List.mem_cons.mp listed with rfl | later
      · rw [callsOf_of_notMem nodup.1, List.append_nil]
        cases input : (outcome id).input? <;> simp [nodeCall, input]
      · have other : first ≠ id := by
          rintro rfl
          exact nodup.1 later
        rw [ih nodup.2 later]
        cases input : (outcome first).input? <;> simp [nodeCall, input, other]

theorem closed_flow (registry : CellRegistry Config Engram) (sound : petgraph.Sound graph) (perm : order.Perm graph.ids)
    (node dep : NodeId) (need : (flow petgraph registry graph).Needs node dep) :
    dep ∈ order :=
  perm.mem_iff.mpr (CellGraph.mem_ids_of_needs (sound.mem_incoming.mp need))

theorem flow_needs (sound : petgraph.Sound graph) :
    (flow petgraph registry graph).Needs = graph.Needs := by
  funext node dep
  exact propext sound.mem_incoming

/-- A node that was run has complete parents, and its outcome is what its cell made of its
inputs. -/
theorem run_of_input? (solves : (flow petgraph registry graph).Solves order outcome)
    {id : NodeId} (listed : id ∈ order) {input : List Engram}
    (ran : (outcome id).input? = some input) :
    (∀ dep ∈ petgraph.incoming graph id, (outcome dep).isComplete) ∧
      input = (flow petgraph registry graph).inputs outcome id ∧
      outcome id = (flow petgraph registry graph).run id input := by
  have equation := solves id listed
  by_cases complete : ∀ dep ∈ petgraph.incoming graph id, (outcome dep).isComplete
  · rw [Flow.evaluate_of_complete complete] at equation
    rw [equation, Flow.input?_run, Option.some.injEq] at ran
    exact ⟨complete, ran.symm, ran ▸ equation⟩
  · push Not at complete
    rw [Flow.evaluate_eq_skipped_iff.mpr complete] at equation
    rw [equation] at ran
    cases ran

theorem delivered_of_complete (solves : (flow petgraph registry graph).Solves order outcome)
    {id : NodeId} (listed : id ∈ order) (complete : (outcome id).isComplete) :
    Delivered registry graph (report graph outcome order) id (outcome id).output := by
  cases found : outcome id with
  | complete input output =>
      have ran : (outcome id).input? = some input := by rw [found]; rfl
      obtain ⟨-, -, same⟩ := run_of_input? solves listed ran
      refine ⟨input, mem_calls.mpr ⟨listed, ran⟩, ?_⟩
      rw [found, Flow.run, flow_cell] at same
      cases made : cellAt registry graph id input with
      | ok delivered =>
          rw [made] at same
          cases same
          rfl
      | error message =>
          rw [made] at same
          cases same
  | failed input message => simp [found, Outcome.isComplete] at complete
  | skipped => simp [found, Outcome.isComplete] at complete

section Report

variable (sound : petgraph.Sound graph) (acyclic : DependencyGraph.Acyclic graph.Needs)
  (perm : order.Perm graph.ids) (solves : (flow petgraph registry graph).Solves order outcome)

include sound acyclic perm solves

theorem eq_skipped_iff {id : NodeId} (listed : id ∈ order) :
    outcome id = .skipped ↔ ∃ ancestor ∈ order,
      Relation.TransGen graph.Needs id ancestor ∧ (outcome ancestor).isFailed := by
  have flowAcyclic : DependencyGraph.Acyclic (flow petgraph registry graph).Needs := by
    rwa [flow_needs sound]
  rw [solves.eq_skipped_iff flowAcyclic (closed_flow _ sound perm) listed, flow_needs sound]
  constructor
  · rintro ⟨ancestor, path, failed⟩
    refine ⟨ancestor, ?_, path, failed⟩
    cases path with
    | single need => exact perm.mem_iff.mpr (CellGraph.mem_ids_of_needs need)
    | tail _ need => exact perm.mem_iff.mpr (CellGraph.mem_ids_of_needs need)
  · rintro ⟨ancestor, -, path, failed⟩
    exact ⟨ancestor, path, failed⟩

theorem report_skipped {id : NodeId} (listed : id ∈ order) :
    outcome id = .skipped ↔ ∃ other ∈ (report graph outcome order).nodeResults,
      other.status = .failed ∧ Relation.TransGen graph.Needs id other.nodeId := by
  rw [eq_skipped_iff sound acyclic perm solves listed]
  constructor
  · rintro ⟨ancestor, ancestorListed, path, failed⟩
    refine ⟨nodeResult graph ancestor (outcome ancestor),
      mem_nodeResults.mpr ⟨ancestor, ancestorListed, rfl⟩, ?_, ?_⟩
    · rwa [nodeResult_failed_iff]
    · rwa [nodeResult_nodeId]
  · rintro ⟨other, otherMember, failed, path⟩
    obtain ⟨ancestor, ancestorListed, rfl⟩ := mem_nodeResults.mp otherMember
    rw [nodeResult_failed_iff] at failed
    rw [nodeResult_nodeId] at path
    exact ⟨ancestor, ancestorListed, path, failed⟩

theorem report_success : (report graph outcome order).success = true ↔
    ∀ id ∈ order, ¬ (outcome id).isFailed := by
  simp only [report, List.all_eq_true]
  constructor
  · intro complete id listed
    have done := complete id listed
    cases found : outcome id <;>
      simp [found, Outcome.isComplete, Outcome.isFailed] at done ⊢
  · intro none id listed
    cases found : outcome id with
    | complete input output => rfl
    | failed input message =>
        have failed : (outcome id).isFailed := by rw [found]; rfl
        exact absurd failed (none id listed)
    | skipped =>
        obtain ⟨ancestor, ancestorListed, -, failed⟩ :=
          (eq_skipped_iff sound acyclic perm solves listed).mp found
        exact absurd failed (none ancestor ancestorListed)

omit sound acyclic in
theorem report_run {id : NodeId} (listed : id ∈ order) (ran : outcome id ≠ .skipped) :
    ∃ input, callsOf (report graph outcome order) id = [(id, input)] ∧
      (nodeResult graph id (outcome id)).status =
        match cellAt registry graph id input with
        | .ok _ => .complete
        | .error _ => .failed := by
  have nodup : order.Nodup := perm.nodup_iff.mpr graph.distinct
  obtain ⟨input, found⟩ : ∃ input, (outcome id).input? = some input := by
    cases found : outcome id with
    | complete input output => exact ⟨input, rfl⟩
    | failed input message => exact ⟨input, rfl⟩
    | skipped => exact absurd found ran
  refine ⟨input, ?_, ?_⟩
  · rw [callsOf_report nodup listed, nodeCall, found]
    rfl
  · obtain ⟨-, -, same⟩ := run_of_input? solves listed found
    rw [same, Flow.run, flow_cell]
    cases cellAt registry graph id input <;> rfl

omit acyclic in
/-- The inputs of a call are the outputs of the predecessors, once for each edge. -/
theorem report_inputs {id : NodeId} {input : List Engram}
    (called : (id, input) ∈ (report graph outcome order).calls) :
    ∃ outputs, List.Forall₂ (Delivered registry graph (report graph outcome order))
      (petgraph.incoming graph id) outputs ∧ input = outputs.flatten := by
  obtain ⟨listed, found⟩ := mem_calls.mp called
  obtain ⟨complete, rfl, -⟩ := run_of_input? solves listed found
  refine ⟨(petgraph.incoming graph id).map fun dep => (outcome dep).output, ?_,
    List.flatMap_def ..⟩
  rw [List.forall₂_map_right_iff, List.forall₂_same]
  intro dep need
  exact delivered_of_complete solves (closed_flow registry sound perm id dep need)
    (complete dep need)

/-- Without repeated edges an execution reports what it is meant to. -/
theorem report_lawful (simple : graph.Simple)
    (ordered : DependencyGraph.Ordered graph.Needs order) :
    ExecutionLaw registry graph (report graph outcome order) where
  once := by rwa [map_nodeId_report]
  ordered := by rwa [map_nodeId_report]
  skipped := by
    intro result member
    obtain ⟨id, listed, rfl⟩ := mem_nodeResults.mp member
    rw [nodeResult_skipped_iff, nodeResult_nodeId]
    exact report_skipped sound acyclic perm solves listed
  idle := by
    intro result member skipped
    obtain ⟨id, listed, rfl⟩ := mem_nodeResults.mp member
    have nodup : order.Nodup := perm.nodup_iff.mpr graph.distinct
    rw [nodeResult_skipped_iff] at skipped
    rw [nodeResult_nodeId, callsOf_report nodup listed, nodeCall, skipped]
    rfl
  run := by
    intro result member ran
    obtain ⟨id, listed, rfl⟩ := mem_nodeResults.mp member
    rw [ne_eq, nodeResult_skipped_iff] at ran
    rw [nodeResult_nodeId]
    exact report_run perm solves listed ran
  inputs := by
    rintro ⟨id, input⟩ called
    obtain ⟨outputs, delivered, same⟩ := report_inputs sound perm solves called
    have distinct : (petgraph.incoming graph id).Nodup :=
      (sound.incoming id).nodup_iff.mpr (graph.simple_iff.mp simple id)
    exact ⟨petgraph.incoming graph id, outputs, distinct,
      fun dep => sound.mem_incoming, delivered, same⟩
  success := by
    rw [report_success sound acyclic perm solves]
    constructor
    · intro none result member
      obtain ⟨id, listed, rfl⟩ := mem_nodeResults.mp member
      rw [ne_eq, nodeResult_failed_iff]
      exact none id listed
    · intro none id listed failed
      apply none _ (mem_nodeResults.mpr ⟨id, listed, rfl⟩)
      rwa [nodeResult_failed_iff]

end Report

/-- Every cell returns one given engram. -/
def emitting (value : Engram) : CellRegistry Config Engram :=
  fun _ => some fun _ _ => .ok [value]

theorem registered_emitting (value : Engram) (graph : CellGraph Config) :
    Registered (emitting value) graph :=
  fun _ _ => ⟨_, rfl⟩

theorem cellAt_emitting (value : Engram) {id : NodeId} (listed : id ∈ graph.ids)
    (input : List Engram) : cellAt (emitting value) graph id input = .ok [value] := by
  obtain ⟨node, -, found, -⟩ := CellGraph.exists_getNode listed
  simp [cellAt, found, emitting]

theorem length_of_delivered (value : Engram) (perm : order.Perm graph.ids)
    {ids : List NodeId} {outputs : List (List Engram)}
    (delivered : List.Forall₂ (Delivered (emitting value) graph (report graph outcome order))
      ids outputs) : outputs.flatten.length = ids.length := by
  induction delivered with
  | nil => rfl
  | cons first _ ih =>
      obtain ⟨input, called, made⟩ := first
      rw [cellAt_emitting value (perm.mem_iff.mp (mem_calls.mp called).1)] at made
      cases made
      simp [ih]

/-- If an execution is lawful when every cell returns one engram, then no edge is
repeated. -/
theorem simple_of_lawful (value : Engram) (sound : petgraph.Sound graph)
    (acyclic : DependencyGraph.Acyclic graph.Needs) {output : GraphOutput Engram}
    (executed : execute petgraph (emitting value) graph = .ok output)
    (law : ExecutionLaw (emitting value) graph output) : graph.Simple := by
  obtain ⟨order, outcome, perm, -, solves, reported⟩ :=
    execute_acyclic sound acyclic (registered_emitting value graph)
  rw [reported, Except.ok.injEq] at executed
  subst executed
  rw [CellGraph.simple_iff]
  intro id
  rw [← (sound.incoming id).nodup_iff]
  by_cases listed : id ∈ order
  · have flowAcyclic :
        DependencyGraph.Acyclic (flow petgraph (emitting value) graph).Needs := by
      rwa [flow_needs sound]
    have complete := solves.complete_of_total flowAcyclic (closed_flow _ sound perm)
      (fun _ => [value])
      (fun other member input => cellAt_emitting value (perm.mem_iff.mp member) input) listed
    have called : (id, (flow petgraph (emitting value) graph).inputs outcome id) ∈
        (report graph outcome order).calls :=
      mem_calls.mpr ⟨listed, by rw [complete]; rfl⟩
    obtain ⟨gathered, eachEdge, gatheredEq⟩ := report_inputs sound perm solves called
    obtain ⟨predecessors, outputs, distinct, needed, eachOnce, same⟩ := law.inputs _ called
    have lengths : predecessors.length = (petgraph.incoming graph id).length := by
      rw [← length_of_delivered value perm eachOnce, ← same, gatheredEq,
        length_of_delivered value perm eachEdge]
    have subperm : predecessors.Subperm (petgraph.incoming graph id) := by
      apply List.subperm_of_subset distinct
      intro dep member
      exact sound.mem_incoming.mpr ((needed dep).mp member)
    exact (subperm.perm_of_length_le lengths.ge).nodup_iff.mp distinct
  · have none : petgraph.incoming graph id = [] := by
      rw [List.eq_nil_iff_forall_not_mem]
      intro dep need
      obtain ⟨edge, member, rfl, -⟩ := sound.mem_incoming.mp need
      exact listed (perm.mem_iff.mpr (graph.joined edge member).2)
    simp [none]

/-- Every execution of a graph reports what it is meant to, whatever the cells do, exactly
when the graph has no repeated edges. -/
theorem executions_lawful_iff [Inhabited Engram] (petgraph : Petgraph Config)
    (graph : CellGraph Config) (sound : petgraph.Sound graph)
    (acyclic : DependencyGraph.Acyclic graph.Needs) :
    (∀ registry : CellRegistry Config Engram, Registered registry graph →
      ∃ output, execute petgraph registry graph = .ok output ∧
        ExecutionLaw registry graph output) ↔ graph.Simple := by
  constructor
  · intro lawful
    obtain ⟨output, executed, law⟩ := lawful _ (registered_emitting default graph)
    exact simple_of_lawful default sound acyclic executed law
  · intro simple registry registered
    obtain ⟨order, outcome, perm, ordered, solves, executed⟩ :=
      execute_acyclic sound acyclic registered
    exact ⟨_, executed, report_lawful sound acyclic perm solves simple ordered⟩

/-- Two nodes and an edge from the first to the second for each condition. -/
def pairGraph (conditions : List (Option EdgeCondition)) : CellGraph Unit where
  name := "pair"
  nodes := [⟨"a", "emit", ()⟩, ⟨"b", "emit", ()⟩]
  edges := conditions.map fun condition => ⟨"a", "b", condition⟩
  distinct := by decide
  joined := by
    intro edge member
    obtain ⟨condition, -, rfl⟩ := List.mem_map.mp member
    exact ⟨List.mem_cons_self, List.mem_cons_of_mem _ List.mem_cons_self⟩

/-- What petgraph finds in a graph whose nodes were added in the order of its edges. -/
def inOrder : Petgraph Unit where
  toposort := fun graph => some graph.ids
  incoming := fun graph id => ((graph.incomingEdges id).map (·.source)).reverse

section Pair

variable (conditions : List (Option EdgeCondition))

theorem pairGraph_needs {node dep : NodeId} (need : (pairGraph conditions).Needs node dep) :
    node = "b" ∧ dep = "a" := by
  obtain ⟨edge, member, rfl, rfl⟩ := need
  obtain ⟨condition, -, rfl⟩ := List.mem_map.mp member
  exact ⟨rfl, rfl⟩

theorem pairGraph_ordered :
    DependencyGraph.Ordered (pairGraph conditions).Needs (pairGraph conditions).ids := by
  have first : DependencyGraph.Ordered (pairGraph conditions).Needs ["a"] := by
    apply DependencyGraph.ordered_nil.append_singleton
    intro dep need
    exact absurd (pairGraph_needs conditions need).1 (by decide)
  apply first.append_singleton
  intro dep need
  rw [(pairGraph_needs conditions need).2]
  exact List.mem_singleton_self "a"

theorem pairGraph_acyclic : DependencyGraph.Acyclic (pairGraph conditions).Needs := by
  apply DependencyGraph.acyclic_of_ordered (pairGraph_ordered conditions)
  rintro node dep ⟨edge, member, rfl, -⟩
  exact ((pairGraph conditions).joined edge member).2

theorem inOrder_sound : inOrder.Sound (pairGraph conditions) where
  sorted := fun _ => ⟨_, rfl, List.Perm.refl _, pairGraph_ordered conditions⟩
  cyclic := fun cyclic => absurd (pairGraph_acyclic conditions) cyclic
  incoming := fun _ => List.reverse_perm _

end Pair

theorem executions_lawful_single :
    (pairGraph [none]).Simple ∧
      ∀ registry : CellRegistry Unit Nat, Registered registry (pairGraph [none]) →
        ∃ output, execute inOrder registry (pairGraph [none]) = .ok output ∧
          ExecutionLaw registry (pairGraph [none]) output := by
  have simple : (pairGraph [none]).Simple := List.nodup_singleton _
  exact ⟨simple, (executions_lawful_iff inOrder (pairGraph [none]) (inOrder_sound [none])
    (pairGraph_acyclic [none])).mpr simple⟩

/-- Along two edges the one engram of the first node is delivered twice. -/
theorem twice_delivered :
    inOrder.Sound (pairGraph [none, none]) ∧
      DependencyGraph.Acyclic (pairGraph [none, none]).Needs ∧
      Registered (emitting 7) (pairGraph [none, none]) ∧
      ∃ output, execute inOrder (emitting 7) (pairGraph [none, none]) = .ok output ∧
        output.calls = [("a", []), ("b", [7, 7])] ∧
        ¬ ExecutionLaw (emitting 7) (pairGraph [none, none]) output := by
  refine ⟨inOrder_sound _, pairGraph_acyclic _, registered_emitting 7 _, _, rfl,
    by decide, ?_⟩
  intro law
  have simple := simple_of_lawful 7 (inOrder_sound _) (pairGraph_acyclic _) rfl law
  exact absurd simple (by decide : ¬ ((pairGraph [none, none]).edges.map _).Nodup)

end GraphEngine

end Roko
