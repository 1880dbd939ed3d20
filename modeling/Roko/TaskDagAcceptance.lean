import Roko.TaskDagCull
import Roko.TaskDagEdits

/-!
# When a mutation is accepted

A mutation is accepted when its edit is, every reference of the edited tasks resolves
and the dependencies that they require have no cycle.  The graph then has the edited
tasks and exactly these dependencies as its edges.
-/

namespace Roko

namespace UnifiedTaskDag

variable {dag : UnifiedTaskDag}

/-- A rebuild and the sort after it succeed on the same condition that the required
dependencies have to meet. -/
theorem sorted_iff_acyclic (rebuilt : (rebuildIndexes dag).2 = .ok ()) :
    (∃ out, (rebuildIndexes dag).1.topologicalSort = .ok out) ↔
      DependencyGraph.Acyclic dag.Requires := by
  rw [topologicalSort_ok_iff (indexed_rebuildIndexes rebuilt)]
  have same : (rebuildIndexes dag).1.edges.Has = dag.Requires := by
    funext id dep
    exact propext (has_rebuildIndexes rebuilt id dep)
  rw [same]

theorem applyMutation_ok_iff (mutation : DagMutation) :
    (dag.applyMutation mutation).2 = .ok () ↔
      ∃ tasks, dag.editTasks mutation = .ok tasks ∧
        Resolvable { dag with tasks } ∧
        DependencyGraph.Acyclic (Requires { dag with tasks }) := by
  constructor
  · intro accepted
    rcases dag.applyMutation_cases mutation with
      ⟨failure, failed, -⟩ | ⟨-, tasks, edited, rebuilt, -, out, sorted⟩
    · rw [accepted] at failed
      cases failed
    · exact ⟨tasks, edited, (rebuildIndexes_ok_iff _).mp rebuilt,
        (sorted_iff_acyclic rebuilt).mp ⟨out, sorted⟩⟩
  · rintro ⟨tasks, edited, resolvable, acyclic⟩
    have rebuilt := (rebuildIndexes_ok_iff _).mpr resolvable
    obtain ⟨out, sorted⟩ := (sorted_iff_acyclic rebuilt).mpr acyclic
    unfold applyMutation
    rw [edited]
    dsimp only
    split
    case h_1 next failure failed =>
      rw [failed] at rebuilt
      cases rebuilt
    case h_2 next succeeded =>
      rw [succeeded] at sorted
      rw [sorted]

/-- The graph that an accepted mutation leaves. -/
theorem applyMutation_of_ok {mutation : DagMutation}
    (accepted : (dag.applyMutation mutation).2 = .ok ()) :
    ∃ tasks, dag.editTasks mutation = .ok tasks ∧
      (dag.applyMutation mutation).1.tasks = tasks ∧
      ∀ id dep, (dag.applyMutation mutation).1.edges.Has id dep ↔
        Requires { dag with tasks } id dep := by
  rcases dag.applyMutation_cases mutation with
    ⟨failure, failed, -⟩ | ⟨-, tasks, edited, rebuilt, replaced, -⟩
  · rw [accepted] at failed
    cases failed
  · refine ⟨tasks, edited, ?_, ?_⟩
    · rw [replaced, (frame_rebuildIndexes rebuilt).1]
    · rw [replaced]
      exact has_rebuildIndexes rebuilt

/-- The tasks are the same, and so are their references and their files. -/
def Alike (before after : Std.ExtTreeMap GlobalTaskId Task) : Prop :=
  ∀ id : GlobalTaskId, (before[id]?.map fun task => (task.dependsOn, task.files)) =
    after[id]?.map fun task => (task.dependsOn, task.files)

theorem Alike.exists_iff {before after : Std.ExtTreeMap GlobalTaskId Task}
    (alike : Alike before after) (id : GlobalTaskId)
    (holds : List String → List String → Prop) :
    (∃ task : Task, before[id]? = some task ∧ holds task.dependsOn task.files) ↔
      ∃ task : Task, after[id]? = some task ∧ holds task.dependsOn task.files := by
  have same := alike id
  cases found : before[id]? with
  | none =>
      rw [found] at same
      simp [Option.map_eq_none_iff.mp same.symm]
  | some task =>
      rw [found] at same
      obtain ⟨other, otherFound, pair⟩ := Option.map_eq_some_iff.mp same.symm
      obtain ⟨deps, files⟩ := Prod.mk.inj pair
      simp [otherFound, deps, files]

variable {tasks : Std.ExtTreeMap GlobalTaskId Task}

theorem Alike.mem_iff (alike : Alike dag.tasks tasks) (id : GlobalTaskId) :
    id ∈ dag.tasks ↔ id ∈ tasks := by
  have same := alike.exists_iff id fun _ _ => True
  simp only [and_true] at same
  rw [Std.ExtTreeMap.mem_iff_isSome_getElem?, Std.ExtTreeMap.mem_iff_isSome_getElem?,
    Option.isSome_iff_exists, Option.isSome_iff_exists]
  exact same

theorem Alike.requires_iff (alike : Alike dag.tasks tasks) (id dep : GlobalTaskId) :
    Requires { dag with tasks } id dep ↔ dag.Requires id dep := by
  have declared := alike.exists_iff id fun deps _ =>
    ∃ raw ∈ deps, resolveDepRef id.plan raw = dep
  have overlap := alike.exists_iff id fun _ files =>
    ∃ depTask, dag.tasks[dep]? = some depTask ∧ ∃ file ∈ files, file ∈ depTask.files
  have shares : ∀ files : List String,
      (∃ depTask : Task, dag.tasks[dep]? = some depTask ∧
        ∃ file ∈ files, file ∈ depTask.files) ↔
      ∃ depTask : Task, tasks[dep]? = some depTask ∧
        ∃ file ∈ files, file ∈ depTask.files :=
    fun files => alike.exists_iff dep fun _ depFiles => ∃ file ∈ files, file ∈ depFiles
  unfold Requires DeclaredDep PlanDep OverlapDep
  dsimp only
  rw [declared, alike.mem_iff, alike.mem_iff, overlap]
  simp only [shares]

theorem Alike.resolvable (alike : Alike dag.tasks tasks) (resolvable : dag.Resolvable) :
    Resolvable { dag with tasks } where
  declared := by
    intro id task found raw member
    obtain ⟨other, otherFound, otherMember⟩ := (alike.exists_iff id fun deps _ =>
      raw ∈ deps).mpr ⟨task, found, member⟩
    exact (alike.mem_iff _).mp (resolvable.declared id other otherFound raw otherMember)
  plans := by
    have hasPlan : ∀ plan, dag.HasPlan plan → HasPlan { dag with tasks } plan := by
      rintro plan ⟨id, listed, rfl⟩
      exact ⟨id, (alike.mem_iff id).mp listed, rfl⟩
    intro plan deps found
    obtain ⟨here, there⟩ := resolvable.plans plan deps found
    exact ⟨hasPlan plan here, fun dep member => hasPlan dep (there dep member)⟩

/-- On a graph whose references resolve, an edit that changes neither references nor
files is accepted. -/
theorem accepted_of_alike (wellFormed : dag.WellFormed) (resolvable : dag.Resolvable)
    {mutation : DagMutation} (edited : dag.editTasks mutation = .ok tasks)
    (alike : Alike dag.tasks tasks) : (dag.applyMutation mutation).2 = .ok () := by
  refine (applyMutation_ok_iff mutation).mpr
    ⟨tasks, edited, alike.resolvable resolvable, ?_⟩
  apply wellFormed.acyclic.mono
  intro id dep requires
  exact (wellFormed.represents id dep).mpr ((alike.requires_iff id dep).mp requires)

end UnifiedTaskDag

/-!
`SplitTask` has the head of the replacement keep the id of the task and inserts it under
this id.  The task id is removed after that, so the head is gone again, whatever it was.
-/

namespace UnifiedTaskDag

/-- The split is accepted and puts the replacement, one task behind the other, in the
place of the task. -/
structure SplitLawful (dag : UnifiedTaskDag) (taskId : GlobalTaskId)
    (into : List Task) : Prop where
  accepted : (dag.applyMutation (.splitTask taskId into)).2 = .ok ()
  inserted : ∀ task ∈ into, (⟨taskId.plan, task.id⟩ : GlobalTaskId) ∈
    (dag.applyMutation (.splitTask taskId into)).1.tasks
  chained : ∀ earlier first second later,
    into = earlier ++ first :: second :: later →
      (dag.applyMutation (.splitTask taskId into)).1.edges.Has
        ⟨taskId.plan, second.id⟩ ⟨taskId.plan, first.id⟩
  keeps : ∀ head ∈ into.head?, ∀ dep, dag.DeclaredDep taskId dep →
    (dag.applyMutation (.splitTask taskId into)).1.edges.Has ⟨taskId.plan, head.id⟩ dep
  redirects : ∀ last ∈ into.getLast?, ∀ id, dag.DeclaredDep id taskId →
    (dag.applyMutation (.splitTask taskId into)).1.edges.Has id ⟨taskId.plan, last.id⟩

variable {dag : UnifiedTaskDag}

/-- No accepted split keeps the id of the task. -/
theorem not_mem_of_split {taskId : GlobalTaskId} {into : List Task}
    (accepted : (dag.applyMutation (.splitTask taskId into)).2 = .ok ()) :
    taskId ∉ (dag.applyMutation (.splitTask taskId into)).1.tasks := by
  obtain ⟨tasks, edited, replaced, -⟩ := applyMutation_of_ok accepted
  rw [replaced]
  cases edit_of_ok edited with
  | splitTask found open' split ends =>
      intro member
      exact (Std.ExtTreeMap.mem_erase.mp member).1 Std.ReflCmp.compare_self

/-- A split whose head keeps the id of the task is never what it should be. -/
theorem not_splitLawful (dag : UnifiedTaskDag) (taskId : GlobalTaskId) (head : Task)
    (rest : List Task) (sameId : head.id = taskId.task) :
    ¬ SplitLawful dag taskId (head :: rest) := by
  intro lawful
  have present := lawful.inserted head List.mem_cons_self
  rw [sameId] at present
  exact not_mem_of_split lawful.accepted present

/-- The first half of the replacement keeps the id. -/
def halves : List Task :=
  [{ id := "t1", title := "first half" }, { id := "t1b", title := "second half" }]

theorem samplePlans_split_rejected :
    ∃ dag : UnifiedTaskDag, build samplePlans ∅ {} = .ok dag ∧
      dag.tasks[(⟨"a", "t1"⟩ : GlobalTaskId)]?.map Task.status = some .pending ∧
      (⟨"a", "t1b"⟩ : GlobalTaskId) ∉ dag.tasks ∧
      (dag.applyMutation (.splitTask ⟨"a", "t1"⟩ halves)).2 =
        .error (.invalidMutation "dangling dep during rebuild: a:t1b -> a:t1") ∧
      ¬ SplitLawful dag ⟨"a", "t1"⟩ halves := by
  have ran : (build samplePlans ∅ {}).toOption.map (fun dag =>
      (dag.tasks[(⟨"a", "t1"⟩ : GlobalTaskId)]?.map Task.status,
        decide ((⟨"a", "t1b"⟩ : GlobalTaskId) ∈ dag.tasks),
        (dag.applyMutation (.splitTask ⟨"a", "t1"⟩ halves)).2)) =
      some (some .pending, false, .error (.invalidMutation
        "dangling dep during rebuild: a:t1b -> a:t1")) := by
    decide +kernel
  obtain ⟨dag, built, reads⟩ := FallibleSteps.ok_of_map_toOption ran
  obtain ⟨pending, reads⟩ := Prod.mk.inj reads
  obtain ⟨fresh, rejected⟩ := Prod.mk.inj reads
  refine ⟨dag, built, pending, of_decide_eq_false fresh, rejected, fun lawful => ?_⟩
  rw [lawful.accepted] at rejected
  cases rejected

theorem samplePlans_not_splitLawful :
    ∃ dag : UnifiedTaskDag, build samplePlans ∅ {} = .ok dag ∧
      ¬ SplitLawful dag ⟨"a", "t1"⟩ halves := by
  have ran : (build samplePlans ∅ {}).toOption.map (fun _ => true) = some true := by
    decide +kernel
  obtain ⟨dag, built, -⟩ := FallibleSteps.ok_of_map_toOption ran
  exact ⟨dag, built, not_splitLawful dag ⟨"a", "t1"⟩ _ _ rfl⟩

end UnifiedTaskDag

end Roko
