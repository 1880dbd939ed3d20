import Roko.TaskDagAcceptance

/-!
# Completed tasks under a mutation

`apply_mutation` refuses to touch a completed task that the mutation names.  Removing
or splitting another task still edits the references of its completed dependents, and a
split inserts its tasks over whatever stands under their ids.
-/

namespace Roko

namespace UnifiedTaskDag

/-- Every completed task keeps its place and its spec. -/
def DoneKept (before after : Std.ExtTreeMap GlobalTaskId Task) : Prop :=
  ∀ (id : GlobalTaskId) (task : Task), before[id]? = some task → task.status = .done →
    after[id]? = some task

/-- The references of a replacement task, from the task before it in the list. -/
def behind (originalDeps : List String) (previous : Option GlobalTaskId) : List String :=
  match previous with
  | none => originalDeps
  | some previous => [previous.toString]

/-- What a split leaves under an id of its list: the last of its tasks with that id,
behind the one before it. -/
def Replacement (taskId : GlobalTaskId) (originalDeps : List String) (into : List Task)
    (id : GlobalTaskId) (task : Task) : Prop :=
  ∃ earlier kept later, into = earlier ++ kept :: later ∧
    id = ⟨taskId.plan, kept.id⟩ ∧ (∀ other ∈ later, other.id ≠ kept.id) ∧
    task = { kept with
      dependsOn := behind originalDeps
        (earlier.getLast?.map fun previous => ⟨taskId.plan, previous.id⟩) }

/-- A completed dependent of a removed task refers to everything that the task refers
to, repeats nothing, and does not name the task itself, unless the task has this very
reference and it comes last. -/
def RemovalSpares (dag : UnifiedTaskDag) (taskId : GlobalTaskId) : Prop :=
  ∀ original : Task, dag.tasks[taskId]? = some original →
    ∀ id ∈ dag.dependentsOf taskId, ∀ task : Task, dag.tasks[id]? = some task →
      task.status = .done →
      task.dependsOn.Nodup ∧ (∀ raw ∈ original.dependsOn, raw ∈ task.dependsOn) ∧
        (taskId.toString ∈ task.dependsOn → taskId.toString ∈ original.dependsOn ∧
          task.dependsOn.getLast? = some taskId.toString)

/-- A completed task whose id the list reuses is replaced by itself; another completed
dependent repeats nothing and does not name the task, unless the list ends with it. -/
def SplitSpares (dag : UnifiedTaskDag) (taskId : GlobalTaskId) (into : List Task) : Prop :=
  ∀ original : Task, dag.tasks[taskId]? = some original →
    ∀ last ∈ into.getLast?, ∀ (id : GlobalTaskId) (task : Task),
      dag.tasks[id]? = some task → task.status = .done →
      (∀ kept, Replacement taskId original.dependsOn into id kept →
        task = if id ∈ dag.dependentsOf taskId then
          kept.editDeps fun deps => replaceDep deps taskId.toString
            (GlobalTaskId.toString ⟨taskId.plan, last.id⟩)
        else kept) ∧
      ((∀ other ∈ into, id ≠ ⟨taskId.plan, other.id⟩) → id ∈ dag.dependentsOf taskId →
        task.dependsOn.Nodup ∧ (taskId.toString ∈ task.dependsOn →
          taskId.toString = GlobalTaskId.toString ⟨taskId.plan, last.id⟩))

def SparesDone (dag : UnifiedTaskDag) : DagMutation → Prop
  | .removeTask taskId => dag.RemovalSpares taskId
  | .splitTask taskId into => dag.SplitSpares taskId into
  | .addTask _ _ _ | .addDependency _ _ | .updateTaskMetadata _ _ => True

variable {dag : UnifiedTaskDag}

theorem editDeps_eq_self_iff {edit : List String → List String} {task : Task} :
    task.editDeps edit = task ↔ edit task.dependsOn = task.dependsOn := by
  constructor
  · exact fun same => congrArg Task.dependsOn same
  · intro same
    unfold Task.editDeps
    rw [same]

section Edited

variable {edited : Prop} [Decidable edited] {edit : List String → List String}
  {kept task : Task}

/-- What is looked up when the stored task is edited under a condition. -/
theorem ite_editDeps_eq_some_iff :
    (if edited then (some kept).map (Task.editDeps edit) else some kept) = some task ↔
      task = if edited then kept.editDeps edit else kept := by
  split
  · exact Option.some_inj.trans eq_comm
  · exact Option.some_inj.trans eq_comm

theorem eq_ite_editDeps_iff :
    (task = if edited then task.editDeps edit else task) ↔
      (edited → edit task.dependsOn = task.dependsOn) := by
  split
  case isTrue holds =>
    rw [eq_comm, editDeps_eq_self_iff]
    exact (imp_iff_right holds).symm
  case isFalse fails => exact iff_of_true rfl fun holds => absurd holds fails

end Edited

theorem doneKept_insert {tasks : Std.ExtTreeMap GlobalTaskId Task} {id : GlobalTaskId}
    (open' : ∀ task : Task, tasks[id]? = some task → task.status ≠ .done) (task : Task) :
    DoneKept tasks (tasks.insert id task) := by
  intro other stored found finished
  have apart : id ≠ other := by
    rintro rfl
    exact open' stored found finished
  rw [Std.ExtTreeMap.getElem?_insert, if_neg (by simpa using apart)]
  exact found

theorem ne_of_done {taskId : GlobalTaskId} {original : Task}
    (found : dag.tasks[taskId]? = some original) (open' : original.status ≠ .done)
    (id : GlobalTaskId) (task : Task) (stored : dag.tasks[id]? = some task)
    (finished : task.status = .done) : taskId ≠ id := by
  rintro rfl
  rw [found] at stored
  cases stored
  exact open' finished

theorem doneKept_removal_iff {taskId : GlobalTaskId} {original : Task}
    (found : dag.tasks[taskId]? = some original) (open' : original.status ≠ .done) :
    DoneKept dag.tasks ((editDependsOn
      (reconnectDeps taskId.toString original.dependsOn)
      (dag.dependentsOf taskId).toList dag.tasks).erase taskId) ↔
      dag.RemovalSpares taskId := by
  have apart := ne_of_done found open'
  unfold DoneKept RemovalSpares
  simp only [found, Option.some.injEq, forall_eq']
  have spared (id : GlobalTaskId) (task : Task) (stored : dag.tasks[id]? = some task)
      (finished : task.status = .done) :
      ((editDependsOn (reconnectDeps taskId.toString original.dependsOn)
        (dag.dependentsOf taskId).toList dag.tasks).erase taskId)[id]? = some task ↔
        (id ∈ dag.dependentsOf taskId →
          reconnectDeps taskId.toString original.dependsOn task.dependsOn =
            task.dependsOn) := by
    rw [getElem?_edited_erased _ _ _ (apart id task stored finished), stored,
      ite_editDeps_eq_some_iff, eq_ite_editDeps_iff]
  constructor
  · intro kept id dependent task stored finished
    exact reconnectDeps_eq_self_iff.mp
      ((spared id task stored finished).mp (kept id task stored finished) dependent)
  · intro spares id task stored finished
    exact (spared id task stored finished).mpr fun dependent =>
      reconnectDeps_eq_self_iff.mpr (spares id dependent task stored finished)

/-- The loop chains the listed tasks, stores the last task with each id and leaves every
other id as it was. -/
theorem splitInto_spec {taskId : GlobalTaskId} {originalDeps : List String}
    {into : List Task} {chain ids : List GlobalTaskId}
    {tasks inserted : Std.ExtTreeMap GlobalTaskId Task}
    (split : splitInto taskId originalDeps into chain tasks = .ok (ids, inserted)) :
    ids = chain ++ into.map (fun task : Task => ⟨taskId.plan, task.id⟩) ∧
      (∀ id : GlobalTaskId, (∀ other ∈ into, id ≠ ⟨taskId.plan, other.id⟩) →
        inserted[id]? = tasks[id]?) ∧
      ∀ earlier kept later, into = earlier ++ kept :: later →
        (∀ other ∈ later, other.id ≠ kept.id) →
        inserted[(⟨taskId.plan, kept.id⟩ : GlobalTaskId)]? = some { kept with
          dependsOn := behind originalDeps
            (chain ++ earlier.map fun task : Task =>
              GlobalTaskId.mk taskId.plan task.id).getLast? } := by
  induction into generalizing chain tasks with
  | nil =>
      cases split
      refine ⟨by simp, fun _ _ => rfl, fun earlier kept later listed => ?_⟩
      simp at listed
  | cons task into ih =>
      unfold splitInto at split
      split at split
      · cases split
      split at split
      · cases split
      split at split
      · cases split
      obtain ⟨rfl, unchanged, stored⟩ := ih split
      refine ⟨by simp, fun id apart => ?_, fun earlier kept later listed last => ?_⟩
      · have others := unchanged id fun other member =>
          apart other (List.mem_cons_of_mem task member)
        have here := apart task List.mem_cons_self
        rw [others, Std.ExtTreeMap.getElem?_insert, if_neg (by simpa using here.symm)]
      · cases earlier with
        | nil =>
            obtain ⟨rfl, rfl⟩ := List.cons.inj listed
            have later' := unchanged ⟨taskId.plan, task.id⟩ fun other member same =>
              last other member (GlobalTaskId.mk.inj same).2.symm
            rw [later', Std.ExtTreeMap.getElem?_insert_self, List.map_nil, List.append_nil]
            rfl
        | cons first earlier =>
            obtain ⟨rfl, rest⟩ := List.cons.inj listed
            have deeper := stored earlier kept later rest last
            rw [List.append_assoc] at deeper
            exact deeper

/-- What the loop stores, when it starts with an empty chain. -/
theorem getElem?_of_replacement {taskId id : GlobalTaskId} {originalDeps : List String}
    {into : List Task} {ids : List GlobalTaskId} {kept : Task}
    {tasks inserted : Std.ExtTreeMap GlobalTaskId Task}
    (split : splitInto taskId originalDeps into [] tasks = .ok (ids, inserted))
    (replacement : Replacement taskId originalDeps into id kept) :
    inserted[id]? = some kept := by
  obtain ⟨earlier, task, later, listed, rfl, last, rfl⟩ := replacement
  obtain ⟨-, -, stored⟩ := splitInto_spec split
  rw [stored earlier task later listed last, List.nil_append, List.getLast?_map]

theorem replacement_unique {taskId id : GlobalTaskId} {originalDeps : List String}
    {into : List Task} {ids : List GlobalTaskId} {first second : Task}
    {tasks inserted : Std.ExtTreeMap GlobalTaskId Task}
    (split : splitInto taskId originalDeps into [] tasks = .ok (ids, inserted))
    (one : Replacement taskId originalDeps into id first)
    (other : Replacement taskId originalDeps into id second) : first = second :=
  Option.some.inj
    ((getElem?_of_replacement split one).symm.trans (getElem?_of_replacement split other))

theorem exists_last_with_id {into : List Task} {name : String}
    (listed : ∃ task ∈ into, task.id = name) :
    ∃ earlier kept later, into = earlier ++ kept :: later ∧ kept.id = name ∧
      ∀ other ∈ later, other.id ≠ name := by
  induction into with
  | nil =>
      obtain ⟨task, member, -⟩ := listed
      cases member
  | cons first into ih =>
      by_cases again : ∃ task ∈ into, task.id = name
      · obtain ⟨earlier, kept, later, rfl, sameId, last⟩ := ih again
        exact ⟨first :: earlier, kept, later, rfl, sameId, last⟩
      · obtain ⟨task, member, sameId⟩ := listed
        rcases List.mem_cons.mp member with rfl | late
        · refine ⟨[], task, into, rfl, sameId, fun other later same => ?_⟩
          exact again ⟨other, later, same⟩
        · exact absurd ⟨task, late, sameId⟩ again

/-- A listed id has a last task in the list. -/
theorem exists_replacement (taskId : GlobalTaskId) (originalDeps : List String)
    {into : List Task} {task : Task} (listed : task ∈ into) :
    ∃ kept, Replacement taskId originalDeps into ⟨taskId.plan, task.id⟩ kept := by
  obtain ⟨earlier, kept, later, rest, sameId, last⟩ :=
    exists_last_with_id ⟨task, listed, rfl⟩
  exact ⟨_, earlier, kept, later, rest, by rw [sameId],
    fun other member => sameId ▸ last other member, rfl⟩

theorem doneKept_split_iff {taskId last : GlobalTaskId} {into : List Task}
    {original : Task} {ids : List GlobalTaskId}
    {inserted : Std.ExtTreeMap GlobalTaskId Task}
    (found : dag.tasks[taskId]? = some original) (open' : original.status ≠ .done)
    (split : splitInto taskId original.dependsOn into [] dag.tasks = .ok (ids, inserted))
    (ends : ids.getLast? = some last) :
    DoneKept dag.tasks ((editDependsOn
      (fun deps => replaceDep deps taskId.toString last.toString)
      (dag.dependentsOf taskId).toList inserted).erase taskId) ↔
      dag.SplitSpares taskId into := by
  obtain ⟨listed, unchanged, -⟩ := splitInto_spec split
  rw [listed, List.nil_append, List.getLast?_map] at ends
  obtain ⟨lastTask, lastListed, rfl⟩ := Option.map_eq_some_iff.mp ends
  have apart := ne_of_done found open'
  unfold DoneKept SplitSpares
  simp only [found, Option.some.injEq, forall_eq', lastListed, Option.mem_def]
  refine forall₄_congr fun id task stored finished => ?_
  rw [getElem?_edited_erased _ _ _ (apart id task stored finished)]
  by_cases reused : ∃ other ∈ into, id = ⟨taskId.plan, other.id⟩
  · obtain ⟨other, member, rfl⟩ := reused
    obtain ⟨kept, replacement⟩ := exists_replacement taskId original.dependsOn member
    rw [getElem?_of_replacement split replacement, ite_editDeps_eq_some_iff]
    constructor
    · intro same
      refine ⟨fun again replacement' => ?_, fun fresh => absurd rfl (fresh other member)⟩
      rw [replacement_unique split replacement' replacement]
      exact same
    · rintro ⟨same, -⟩
      exact same kept replacement
  · have fresh : ∀ other ∈ into, id ≠ ⟨taskId.plan, other.id⟩ :=
      fun other member same => reused ⟨other, member, same⟩
    have none : ∀ kept, ¬ Replacement taskId original.dependsOn into id kept := by
      rintro kept ⟨earlier, task', later, rest, sameId, -⟩
      exact fresh task' (by simp [rest]) sameId
    rw [unchanged id fresh, stored, ite_editDeps_eq_some_iff, eq_ite_editDeps_iff]
    constructor
    · intro same
      exact ⟨fun kept replacement => absurd replacement (none kept),
        fun _ dependent => replaceDep_eq_self_iff.mp (same dependent)⟩
    · rintro ⟨-, spares⟩ dependent
      exact replaceDep_eq_self_iff.mpr (spares fresh dependent)

/-- An accepted mutation keeps the completed tasks as they are exactly when it spares
them. -/
theorem doneKept_iff (dag : UnifiedTaskDag) (mutation : DagMutation)
    (accepted : (dag.applyMutation mutation).2 = .ok ()) :
    DoneKept dag.tasks (dag.applyMutation mutation).1.tasks ↔
      dag.SparesDone mutation := by
  obtain ⟨tasks, edited, replaced, -⟩ := applyMutation_of_ok accepted
  rw [replaced]
  cases edit_of_ok edited with
  | addTask sameId fresh =>
      refine iff_of_true (doneKept_insert ?_ _) trivial
      intro task stored
      exact absurd (Std.ExtTreeMap.mem_iff_isSome_getElem?.mpr (by simp [stored])) fresh
  | removeTask found open' => exact doneKept_removal_iff found open'
  | splitTask found open' split ends => exact doneKept_split_iff found open' split ends
  | addDependency distinct found open' =>
      refine iff_of_true (doneKept_insert ?_ _) trivial
      rintro task stored finished
      exact ne_of_done found open' _ task stored finished rfl
  | updateTaskMetadata found open' sameId =>
      refine iff_of_true (doneKept_insert ?_ _) trivial
      rintro task stored finished
      exact ne_of_done found open' _ task stored finished rfl

/-- Two completed tasks, and an open one that was added later: it needs the first, and
it shares a file with the second. -/
def finishedPlans : Std.ExtTreeMap String (List Task) :=
  (∅ : Std.ExtTreeMap String (List Task)).insert "a"
    [{ id := "t0", title := "first", status := .done },
      { id := "t1", title := "late", files := ["lib.rs"], dependsOn := ["t0"] },
      { id := "t2", title := "second", files := ["lib.rs"], status := .done }]

theorem finishedPlans_removal :
    (build finishedPlans ∅ {}).toOption.map (fun dag =>
      ((dag.applyMutation (.removeTask ⟨"a", "t1"⟩)).2,
        dag.tasks[(⟨"a", "t2"⟩ : GlobalTaskId)]?.map fun task =>
          (task.status, task.dependsOn),
        (dag.applyMutation (.removeTask ⟨"a", "t1"⟩)).1.tasks[
          (⟨"a", "t2"⟩ : GlobalTaskId)]?.map Task.dependsOn)) =
      some (.ok (), some (.done, []), some ["t0"]) := by
  decide +kernel

/-- Removing the open task writes its reference into a completed task. -/
theorem finishedPlans_not_doneKept :
    ∃ dag : UnifiedTaskDag, build finishedPlans ∅ {} = .ok dag ∧
      (dag.applyMutation (.removeTask ⟨"a", "t1"⟩)).2 = .ok () ∧
      ¬ DoneKept dag.tasks (dag.applyMutation (.removeTask ⟨"a", "t1"⟩)).1.tasks := by
  obtain ⟨dag, built, reads⟩ := FallibleSteps.ok_of_map_toOption finishedPlans_removal
  obtain ⟨accepted, reads⟩ := Prod.mk.inj reads
  obtain ⟨before, after⟩ := Prod.mk.inj reads
  obtain ⟨task, stored, read⟩ := Option.map_eq_some_iff.mp before
  obtain ⟨finished, bare⟩ := Prod.mk.inj read
  refine ⟨dag, built, accepted, fun kept => ?_⟩
  rw [kept ⟨"a", "t2"⟩ task stored finished, Option.map_some, bare] at after
  exact absurd after (by decide)

theorem finishedPlans_doneKept_iff :
    ∃ dag : UnifiedTaskDag, build finishedPlans ∅ {} = .ok dag ∧
      (DoneKept dag.tasks (dag.applyMutation (.removeTask ⟨"a", "t1"⟩)).1.tasks ↔
        dag.SparesDone (.removeTask ⟨"a", "t1"⟩)) := by
  obtain ⟨dag, built, reads⟩ := FallibleSteps.ok_of_map_toOption finishedPlans_removal
  obtain ⟨accepted, -⟩ := Prod.mk.inj reads
  exact ⟨dag, built, doneKept_iff dag _ accepted⟩

end UnifiedTaskDag

end Roko
