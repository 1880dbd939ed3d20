import Roko.TaskDagSort

/-!
# Building, mutating and culling the task graph

`build` collects the tasks of all plans and rejects cycles.  `apply_mutation`
edits a copy of the graph, rebuilds its indexes and installs the copy only when
the rebuild and a topological sort succeed.  `cull` removes what the targets do
not need and patches the indexes in place.
-/

namespace Roko

inductive DagMutationError
  | unknownTask (id : GlobalTaskId)
  | completedTask (id : GlobalTaskId)
  | invalidMutation (message : String)
  | cycle (tasks : List GlobalTaskId)
  deriving DecidableEq

inductive DagMutation
  | addTask (taskId : GlobalTaskId) (task : Task) (dependsOn : List GlobalTaskId)
  | removeTask (taskId : GlobalTaskId)
  | splitTask (taskId : GlobalTaskId) (into : List Task)
  | addDependency (fromId toId : GlobalTaskId)
  | updateTaskMetadata (taskId : GlobalTaskId) (task : Task)

/-- Keep the first occurrence of each reference. -/
def dedupInPlace (deps : List String) : List String :=
  deps.eraseDups

def replaceDep (deps : List String) (old new : String) : List String :=
  dedupInPlace (deps.map fun dep => if dep == old then new else dep)

def removeDep (deps : List String) (target : String) : List String :=
  dedupInPlace (deps.filter fun dep => dep != target)

/-- Push a reference unless it is there. -/
def pushDep (deps : List String) (dep : String) : List String :=
  if deps.contains dep then deps else deps ++ [dep]

def Task.editDeps (edit : List String → List String) (task : Task) : Task :=
  { task with dependsOn := edit task.dependsOn }

def mapRebuildError : DagError → DagMutationError
  | .cycle stuck => .cycle stuck
  | .danglingDepRef referrer target =>
      .invalidMutation
        s!"dangling dep during rebuild: {referrer.toString} -> {target}"
  | .unknownPlan plan => .invalidMutation s!"unknown plan during rebuild: {plan}"

namespace UnifiedTaskDag

def checkPlan (planTasks : Std.ExtTreeMap String (List Task)) (plan : String) :
    Except DagError Unit :=
  if planTasks.contains plan then .ok () else .error (.unknownPlan plan)

def collectTasks (planTasks : Std.ExtTreeMap String (List Task)) :
    Std.ExtTreeMap GlobalTaskId Task :=
  planTasks.toList.foldl
    (fun tasks entry =>
      entry.2.foldl (fun tasks task => tasks.insert ⟨entry.1, task.id⟩ task) tasks)
    ∅

def build (planTasks : Std.ExtTreeMap String (List Task))
    (planDeps : SetMap String String) (config : DagConfig) :
    Except DagError UnifiedTaskDag := do
  planDeps.toList.forM fun entry => do
    checkPlan planTasks entry.1
    entry.2.toList.forM (checkPlan planTasks)
  let rebuilt := rebuildIndexes
    { tasks := collectTasks planTasks, planDeps, edges := ∅, reverseEdges := ∅,
      nodes := [], estimates := ∅, config }
  rebuilt.2
  let _ ← rebuilt.1.topologicalSort
  return rebuilt.1

def ensureMutable (dag : UnifiedTaskDag) (taskId : GlobalTaskId) :
    Except DagMutationError Task :=
  match dag.tasks[taskId]? with
  | none => .error (.unknownTask taskId)
  | some task =>
      if task.status = .done then .error (.completedTask taskId) else .ok task

/-- The loop of `SplitTask`: check each replacement task, chain it behind the
one before and insert it. -/
def splitInto (taskId : GlobalTaskId) (originalDeps : List String) :
    List Task → List GlobalTaskId → Std.ExtTreeMap GlobalTaskId Task →
      Except DagMutationError
        (List GlobalTaskId × Std.ExtTreeMap GlobalTaskId Task)
  | [], chain, tasks => .ok (chain, tasks)
  | task :: into, chain, tasks =>
      if chain.isEmpty && task.id != taskId.task then
        .error (.invalidMutation
          s!"split head must keep original id {taskId.task}")
      else if task.id.isEmpty then
        .error (.invalidMutation "split tasks must have explicit ids")
      else if !chain.isEmpty && task.id == taskId.task then
        .error (.invalidMutation
          s!"split task id mismatch: replacement must not reuse original id {taskId.task}")
      else
        let dependsOn :=
          match chain.getLast? with
          | none => originalDeps
          | some previous => [previous.toString]
        let id : GlobalTaskId := ⟨taskId.plan, task.id⟩
        splitInto taskId originalDeps into (chain ++ [id])
          (tasks.insert id { task with dependsOn })

/-- Edit the references of the listed tasks. -/
def editDependsOn (edit : List String → List String) (ids : List GlobalTaskId)
    (tasks : Std.ExtTreeMap GlobalTaskId Task) :
    Std.ExtTreeMap GlobalTaskId Task :=
  ids.foldl (fun tasks id => tasks.modify id (Task.editDeps edit)) tasks

/-- The edit of the task map, before the indexes are rebuilt. -/
def editTasks (dag : UnifiedTaskDag) :
    DagMutation →
      Except DagMutationError (Std.ExtTreeMap GlobalTaskId Task)
  | .addTask taskId task dependsOn =>
      if taskId.task ≠ task.id then
        .error (.invalidMutation
          s!"task id mismatch: {taskId.toString} vs {task.id}")
      else if dag.tasks.contains taskId then
        .error (.invalidMutation s!"task already exists: {taskId.toString}")
      else
        .ok (dag.tasks.insert taskId
          { task with dependsOn := dependsOn.map GlobalTaskId.toString })
  | .removeTask taskId => do
      let task ← dag.ensureMutable taskId
      let edited := editDependsOn
        (fun deps =>
          task.dependsOn.foldl pushDep (removeDep deps taskId.toString))
        (dag.dependentsOf taskId).toList dag.tasks
      return edited.erase taskId
  | .splitTask taskId into => do
      let original ← dag.ensureMutable taskId
      if into.isEmpty then
        .error (.invalidMutation "split requires at least one replacement task")
      let (chain, tasks) ← splitInto taskId original.dependsOn into [] dag.tasks
      match chain.getLast? with
      | none => .error (.invalidMutation "empty split")
      | some last =>
          let edited := editDependsOn
            (fun deps => replaceDep deps taskId.toString last.toString)
            (dag.dependentsOf taskId).toList tasks
          return edited.erase taskId
  | .addDependency fromId toId => do
      if fromId = toId then
        .error (.invalidMutation "self-dependency is not allowed")
      let task ← dag.ensureMutable fromId
      return dag.tasks.insert fromId
        { task with dependsOn := pushDep task.dependsOn toId.toString }
  | .updateTaskMetadata taskId task => do
      let current ← dag.ensureMutable taskId
      if taskId.task ≠ task.id then
        .error (.invalidMutation
          s!"task id mismatch: {taskId.toString} vs {task.id}")
      return dag.tasks.insert taskId { task with dependsOn := current.dependsOn }

/-- Edit a copy; the graph is replaced only when the copy passes. -/
def applyMutation (dag : UnifiedTaskDag) (mutation : DagMutation) :
    UnifiedTaskDag × Except DagMutationError Unit :=
  match dag.editTasks mutation with
  | .error failure => (dag, .error failure)
  | .ok tasks =>
      match rebuildIndexes { dag with tasks } with
      | (_, .error failure) => (dag, .error (mapRebuildError failure))
      | (next, .ok ()) =>
          match next.topologicalSort with
          | .error failure => (dag, .error (mapRebuildError failure))
          | .ok _ => (next, .ok ())

/-- Queue a task and mark it as needed. -/
def need (found : List GlobalTaskId × Std.ExtTreeSet GlobalTaskId)
    (id : GlobalTaskId) : List GlobalTaskId × Std.ExtTreeSet GlobalTaskId :=
  (found.1 ++ [id], found.2.insert id)

/-- A qualified target names one task; a bare one names every task with that
task id. -/
def needTarget (dag : UnifiedTaskDag)
    (found : List GlobalTaskId × Std.ExtTreeSet GlobalTaskId)
    (target : String) : List GlobalTaskId × Std.ExtTreeSet GlobalTaskId :=
  match GlobalTaskId.parse target with
  | some id => if dag.tasks.contains id then need found id else found
  | none =>
      dag.nodes.foldl
        (fun found node => if node.task == target then need found node else found)
        found

def needDep (found : List GlobalTaskId × Std.ExtTreeSet GlobalTaskId)
    (dep : GlobalTaskId) : List GlobalTaskId × Std.ExtTreeSet GlobalTaskId :=
  if found.2.contains dep then found else need found dep

/-- The backward search from the queue.  Each turn takes one task off. -/
def needDeps (dag : UnifiedTaskDag) :
    Nat → List GlobalTaskId × Std.ExtTreeSet GlobalTaskId →
      Std.ExtTreeSet GlobalTaskId
  | 0, found => found.2
  | fuel + 1, found =>
      match found.1 with
      | [] => found.2
      | node :: queue =>
          dag.needDeps fuel
            ((dag.depsOf node).toList.foldl needDep (queue, found.2))

/-- The targets and everything they transitively depend on.  A task is queued
for a target or when it is first needed. -/
def neededFor (dag : UnifiedTaskDag) (targets : List String) :
    Std.ExtTreeSet GlobalTaskId :=
  let found := targets.foldl dag.needTarget ([], ∅)
  dag.needDeps (found.1.length + dag.nodes.length) found

/-- Drop the removed keys and values. -/
def patchEdges (removed : List GlobalTaskId)
    (edges : SetMap GlobalTaskId GlobalTaskId) :
    SetMap GlobalTaskId GlobalTaskId :=
  (removed.foldl (fun edges id => edges.erase id) edges).map fun _ deps =>
    deps.filter fun dep => !removed.contains dep

def cull (dag : UnifiedTaskDag) (targets : List String) :
    UnifiedTaskDag × Nat :=
  let needed := dag.neededFor targets
  let removed := dag.nodes.filter fun id => !needed.contains id
  if removed.length = 0 then (dag, 0)
  else
    let tasks := removed.foldl (fun tasks id => tasks.erase id) dag.tasks
    let estimates := removed.foldl (fun estimates id => estimates.erase id)
      dag.estimates
    ({ dag with
        tasks, estimates
        edges := patchEdges removed dag.edges
        reverseEdges := patchEdges removed dag.reverseEdges
        nodes := tasks.keys },
      removed.length)

end UnifiedTaskDag

end Roko
