import Roko.ContentHash
import Roko.GraphMarking
import Roko.TaskDagInvariant

/-!
# The incremental task graph

The model of `IncrementalDag` in `roko-orchestrator/src/dag.rs`: a task graph with
a set of dirty tasks and the hashes of the inputs that were seen last.  BLAKE3
and the JSON text of a task come from other crates: they are the parameters `hash`
and `toJson`.
-/

namespace Roko

inductive Durability
  | low
  | medium
  | high
  deriving DecidableEq

structure IncrementalDag where
  dag : UnifiedTaskDag
  dirty : Std.ExtTreeSet GlobalTaskId
  durability : Std.ExtTreeMap GlobalTaskId Durability
  /-- Counts the changes of an input. -/
  revision : UInt64
  verifiedAt : Std.ExtTreeMap GlobalTaskId UInt64
  inputHashes : Std.ExtTreeMap GlobalTaskId Digest

/-- The source's `mutation_touched_ids`. -/
def mutationTouchedIds : DagMutation → List GlobalTaskId
  | .addTask taskId _ _ | .removeTask taskId | .updateTaskMetadata taskId _ =>
      [taskId]
  | .splitTask taskId into =>
      taskId :: (into.head?.map fun first => ⟨taskId.plan, first.id⟩).toList
  | .addDependency fromId _ => [fromId]

/-- The bytes that are hashed for a task: its id, the JSON text of its spec and
the ids of its direct dependencies in order, without separators. -/
def UnifiedTaskDag.inputBytes (dag : UnifiedTaskDag)
    (toJson : Task → Option String) (taskId : GlobalTaskId) : List UInt8 :=
  textBytes taskId.toString ++
    ((dag.tasks[taskId]?.bind toJson).elim [] textBytes ++
      (dag.depsOf taskId).toList.flatMap fun dep => textBytes dep.toString)

namespace IncrementalDag

def new (dag : UnifiedTaskDag) : IncrementalDag :=
  { dag, dirty := ∅, durability := ∅, revision := 0, verifiedAt := ∅,
    inputHashes := ∅ }

def setDurability (inc : IncrementalDag) (task : GlobalTaskId)
    (durability : Durability) : IncrementalDag :=
  { inc with durability := inc.durability.insert task durability }

def isHigh (inc : IncrementalDag) (id : GlobalTaskId) : Bool :=
  inc.durability[id]? = some .high

/-- Mark a task and what depends on it.  The stack is searched until it is empty;
the first number bounds the turns by what can still be pushed. -/
def markDirty (inc : IncrementalDag) (task : GlobalTaskId) : IncrementalDag :=
  let dependents := fun id => (inc.dag.dependentsOf id).toList
  let turns := 1 + GraphMarking.pushes dependents inc.dirty
    inc.dag.reverseEdges.keys
  { inc with
    revision := inc.revision + 1
    dirty := GraphMarking.markFrom dependents inc.isHigh turns [task] inc.dirty }

def computeInputHash (hash : List UInt8 → Digest) (toJson : Task → Option String)
    (inc : IncrementalDag) (taskId : GlobalTaskId) : Digest :=
  hash (inc.dag.inputBytes toJson taskId)

/-- Report whether a task is clean.  A dirty task with the stored hash is cleaned;
otherwise the current hash is stored. -/
def ensureClean (hash : List UInt8 → Digest) (toJson : Task → Option String)
    (inc : IncrementalDag) (taskId : GlobalTaskId) : IncrementalDag × Bool :=
  if !inc.dirty.contains taskId then (inc, true)
  else
    let current := computeInputHash hash toJson inc taskId
    if inc.inputHashes[taskId]? = some current then
      ({ inc with
          dirty := inc.dirty.erase taskId
          verifiedAt := inc.verifiedAt.insert taskId inc.revision }, true)
    else
      ({ inc with inputHashes := inc.inputHashes.insert taskId current }, false)

def markVerified (hash : List UInt8 → Digest) (toJson : Task → Option String)
    (inc : IncrementalDag) (taskId : GlobalTaskId) : IncrementalDag :=
  { inc with
    dirty := inc.dirty.erase taskId
    verifiedAt := inc.verifiedAt.insert taskId inc.revision
    inputHashes := inc.inputHashes.insert taskId
      (computeInputHash hash toJson inc taskId) }

/-- Take a task out of the dirty set and append it to the plan. -/
def planDirty (planned : Std.ExtTreeSet GlobalTaskId × List GlobalTaskId)
    (id : GlobalTaskId) : Std.ExtTreeSet GlobalTaskId × List GlobalTaskId :=
  if planned.1.contains id then (planned.1.erase id, planned.2 ++ [id])
  else planned

/-- The dirty tasks in execution order; their marks are cleared. -/
def recomputePlan (inc : IncrementalDag) : IncrementalDag × List GlobalTaskId :=
  match inc.dag.topologicalSort with
  | .error _ => (inc, [])
  | .ok topo =>
      let planned := topo.foldl planDirty (inc.dirty, [])
      ({ inc with dirty := planned.1 }, planned.2)

/-- Mutate the graph and mark the touched tasks in the mutated graph. -/
def applyMutation (inc : IncrementalDag) (mutation : DagMutation) :
    IncrementalDag × Except DagMutationError Unit :=
  match inc.dag.applyMutation mutation with
  | (dag, .error failure) => ({ inc with dag }, .error failure)
  | (dag, .ok ()) =>
      ((mutationTouchedIds mutation).foldl markDirty { inc with dag }, .ok ())

inductive Op
  | setDurability (task : GlobalTaskId) (durability : Durability)
  | markDirty (task : GlobalTaskId)
  | markVerified (task : GlobalTaskId)
  | ensureClean (task : GlobalTaskId)
  | recomputePlan
  | applyMutation (mutation : DagMutation)

def step (hash : List UInt8 → Digest) (toJson : Task → Option String)
    (inc : IncrementalDag) : Op → IncrementalDag
  | .setDurability task durability => inc.setDurability task durability
  | .markDirty task => inc.markDirty task
  | .markVerified task => markVerified hash toJson inc task
  | .ensureClean task => (ensureClean hash toJson inc task).1
  | .recomputePlan => inc.recomputePlan.1
  | .applyMutation mutation => (inc.applyMutation mutation).1

/-- A call of `ensure_clean` finds the task clean, cleans it or stores its hash. -/
theorem ensureClean_cases (hash : List UInt8 → Digest)
    (toJson : Task → Option String) (inc : IncrementalDag) (id : GlobalTaskId) :
    (id ∉ inc.dirty ∧ ensureClean hash toJson inc id = (inc, true)) ∨
    (id ∈ inc.dirty ∧
      inc.inputHashes[id]? = some (hash (inc.dag.inputBytes toJson id)) ∧
      ensureClean hash toJson inc id =
        ({ inc with
            dirty := inc.dirty.erase id
            verifiedAt := inc.verifiedAt.insert id inc.revision }, true)) ∨
    (id ∈ inc.dirty ∧
      inc.inputHashes[id]? ≠ some (hash (inc.dag.inputBytes toJson id)) ∧
      ensureClean hash toJson inc id =
        ({ inc with
            inputHashes := inc.inputHashes.insert id
              (hash (inc.dag.inputBytes toJson id)) }, false)) := by
  unfold ensureClean computeInputHash
  by_cases dirty : inc.dirty.contains id = true
  · rw [if_neg (by simp [dirty])]
    right
    rw [Std.ExtTreeSet.contains_iff_mem] at dirty
    by_cases same : inc.inputHashes[id]? = some (hash (inc.dag.inputBytes toJson id))
    · exact Or.inl ⟨dirty, same, if_pos same⟩
    · exact Or.inr ⟨dirty, same, if_neg same⟩
  · left
    refine ⟨?_, if_pos (by simp [dirty])⟩
    rwa [Std.ExtTreeSet.contains_iff_mem] at dirty

/-- The search from the given tasks visits the task, over dependents that are
neither dirty nor of high durability. -/
def Reached (inc : IncrementalDag) (roots : List GlobalTaskId) :
    GlobalTaskId → Prop :=
  GraphMarking.Reached (fun id => (inc.dag.dependentsOf id).toList) inc.isHigh
    (· ∈ inc.dirty) roots

theorem mem_dirty_markDirty (inc : IncrementalDag) (task id : GlobalTaskId) :
    id ∈ (inc.markDirty task).dirty ↔ id ∈ inc.dirty ∨ inc.Reached [task] id := by
  apply GraphMarking.mem_markFrom_iff _ _ inc.dag.reverseEdges.keys
  · intro node missing
    have absent : inc.dag.reverseEdges[node]? = none :=
      Std.ExtTreeMap.getElem?_eq_none
        (fun member => missing (Std.ExtTreeMap.mem_keys.mpr member))
    simp [UnifiedTaskDag.dependentsOf, absent]
  · simp

theorem dag_foldl_markDirty (inc : IncrementalDag) (tasks : List GlobalTaskId) :
    (tasks.foldl markDirty inc).dag = inc.dag ∧
      (tasks.foldl markDirty inc).inputHashes = inc.inputHashes := by
  induction tasks generalizing inc with
  | nil => exact ⟨rfl, rfl⟩
  | cons task tasks ih => exact ih (inc.markDirty task)

theorem mem_dirty_foldl_markDirty (inc : IncrementalDag)
    (tasks : List GlobalTaskId) (id : GlobalTaskId) :
    id ∈ (tasks.foldl markDirty inc).dirty ↔
      id ∈ inc.dirty ∨ inc.Reached tasks id := by
  induction tasks generalizing inc with
  | nil => simp [Reached, GraphMarking.not_reached_nil]
  | cons task tasks ih =>
      rw [List.foldl_cons, ih]
      exact GraphMarking.reached_append [task]
        (inc.mem_dirty_markDirty task) id

end IncrementalDag

end Roko
