import Roko.TaskDagAcceptance

/-!
# Removing a task

`RemoveTask` takes the qualified name of the task out of the references of its
dependents and copies the references of the task in its place.  A bare reference stays
and dangles, and a copied one is read in the plan of the dependent.  A dependency of the
task that no reference states (on a plan, or through a file) is not copied.
-/

namespace Roko

namespace UnifiedTaskDag

/-- The removal is accepted, and the other tasks depend on what they depended on. -/
structure RemovalLawful (dag : UnifiedTaskDag) (taskId : GlobalTaskId) : Prop where
  accepted : (dag.applyMutation (.removeTask taskId)).2 = .ok ()
  kept : ∀ id dep, id ≠ taskId → dep ≠ taskId → Relation.TransGen dag.edges.Has id dep →
    Relation.TransGen (dag.applyMutation (.removeTask taskId)).1.edges.Has id dep

/-- What a task has to wait for, once the references are edited. -/
def Rewired (dag : UnifiedTaskDag) (taskId : GlobalTaskId) (original : Task)
    (id dep : GlobalTaskId) : Prop :=
  id ≠ taskId ∧
    ((∃ task, dag.tasks[id]? = some task ∧ ∃ raw ∈ task.dependsOn,
        (raw = taskId.toString → id ∉ dag.dependentsOf taskId) ∧
        resolveDepRef id.plan raw = dep) ∨
      (id ∈ dag.dependentsOf taskId ∧
        ∃ raw ∈ original.dependsOn, resolveDepRef id.plan raw = dep) ∨
      dep ≠ taskId ∧ (dag.PlanDep id dep ∨ dag.OverlapDep id dep))

structure RemovalFaithful (dag : UnifiedTaskDag) (taskId : GlobalTaskId)
    (original : Task) : Prop where
  /-- Every plan of the plan-level dependencies has another task. -/
  plans : ∀ (plan : String) (deps : Std.ExtTreeSet String),
    dag.planDeps[plan]? = some deps →
      (∃ id ∈ dag.tasks, id ≠ taskId ∧ id.plan = plan) ∧
      ∀ dep ∈ deps, ∃ id ∈ dag.tasks, id ≠ taskId ∧ id.plan = dep
  /-- The task is named in full wherever it is named. -/
  qualified : ∀ (id : GlobalTaskId) (task : Task), dag.tasks[id]? = some task →
    ∀ raw ∈ task.dependsOn, resolveDepRef id.plan raw = taskId → raw = taskId.toString
  /-- Read in the plan of a dependent, the references of the task name other tasks. -/
  copied : ∀ id ∈ dag.dependentsOf taskId, ∀ raw ∈ original.dependsOn,
    resolveDepRef id.plan raw ≠ taskId ∧ resolveDepRef id.plan raw ∈ dag.tasks
  acyclic : DependencyGraph.Acyclic (dag.Rewired taskId original)
  /-- What a dependent loses without waiting for the task is reached in another way. -/
  lost : ∀ id ∈ dag.dependentsOf taskId, ∀ task : Task, dag.tasks[id]? = some task →
    taskId.toString ∈ task.dependsOn →
    resolveDepRef id.plan taskId.toString ≠ taskId →
    Relation.TransGen (dag.Rewired taskId original) id
      (resolveDepRef id.plan taskId.toString)
  /-- Every dependent reaches what the task itself depends on. -/
  through : ∀ id dep, dag.edges.Has id taskId → dag.edges.Has taskId dep →
    Relation.TransGen (dag.Rewired taskId original) id dep

variable {dag : UnifiedTaskDag}

/-- The task map that a removal leaves. -/
def removed (dag : UnifiedTaskDag) (taskId : GlobalTaskId) (original : Task) :
    Std.ExtTreeMap GlobalTaskId Task :=
  (editDependsOn (reconnectDeps taskId.toString original.dependsOn)
    (dag.dependentsOf taskId).toList dag.tasks).erase taskId

theorem editTasks_removeTask {taskId : GlobalTaskId} {original : Task}
    (found : dag.tasks[taskId]? = some original) (open' : original.status ≠ .done) :
    dag.editTasks (.removeTask taskId) = .ok (dag.removed taskId original) := by
  have checked := ensureMutable_ok_iff.mpr ⟨found, open'⟩
  simp only [editTasks, checked]
  rfl

theorem getElem?_removed {taskId : GlobalTaskId} (original : Task) (id : GlobalTaskId) :
    (dag.removed taskId original)[id]? =
      if id = taskId then none
      else if id ∈ dag.dependentsOf taskId then
        dag.tasks[id]?.map
          (Task.editDeps (reconnectDeps taskId.toString original.dependsOn))
      else dag.tasks[id]? := by
  unfold removed
  split
  case isTrue same =>
    rw [same, Std.ExtTreeMap.getElem?_erase, if_pos Std.ReflCmp.compare_self]
  case isFalse apart => exact getElem?_edited_erased _ _ _ (Ne.symm apart)

theorem mem_removed {taskId : GlobalTaskId} (original : Task) (id : GlobalTaskId) :
    id ∈ dag.removed taskId original ↔ id ≠ taskId ∧ id ∈ dag.tasks := by
  rw [Std.ExtTreeMap.mem_iff_isSome_getElem?, getElem?_removed,
    Std.ExtTreeMap.mem_iff_isSome_getElem?]
  split
  · simp [*]
  · split
    · simp [*]
    · simp [*]

/-- A removal edits no files. -/
theorem exists_removed_iff (dag : UnifiedTaskDag) (taskId : GlobalTaskId)
    (original : Task) (id : GlobalTaskId) (holds : List String → Prop) :
    (∃ task : Task, (dag.removed taskId original)[id]? = some task ∧ holds task.files) ↔
      id ≠ taskId ∧ ∃ task : Task, dag.tasks[id]? = some task ∧ holds task.files := by
  rw [getElem?_removed]
  by_cases same : id = taskId
  · simp [same]
  rw [if_neg same]
  split
  · simp only [Option.map_eq_some_iff, ne_eq, same, not_false_eq_true, true_and]
    constructor
    · rintro ⟨-, ⟨task, stored, rfl⟩, files⟩
      exact ⟨task, stored, files⟩
    · rintro ⟨task, stored, files⟩
      exact ⟨_, ⟨task, stored, rfl⟩, files⟩
  · simp [same]

theorem declaredDep_removed_iff (wellFormed : dag.WellFormed) {taskId : GlobalTaskId}
    (original : Task) (id dep : GlobalTaskId) :
    DeclaredDep { dag with tasks := dag.removed taskId original } id dep ↔
      id ≠ taskId ∧
        ((∃ task, dag.tasks[id]? = some task ∧ ∃ raw ∈ task.dependsOn,
            (raw = taskId.toString → id ∉ dag.dependentsOf taskId) ∧
            resolveDepRef id.plan raw = dep) ∨
          id ∈ dag.dependentsOf taskId ∧
            ∃ raw ∈ original.dependsOn, resolveDepRef id.plan raw = dep) := by
  unfold DeclaredDep
  dsimp only
  rw [getElem?_removed]
  by_cases same : id = taskId
  · simp [same]
  rw [if_neg same]
  by_cases dependent : id ∈ dag.dependentsOf taskId
  · have edge := (mem_dependentsOf wellFormed.toIndexed taskId id).mp dependent
    obtain ⟨task, stored⟩ : ∃ task, dag.tasks[id]? = some task :=
      ⟨_, Std.ExtTreeMap.getElem?_eq_some_getElem (wellFormed.endpoints id taskId edge).1⟩
    rw [if_pos dependent, stored]
    simp only [Option.map_some, Option.some.injEq, exists_eq_left', dependsOn_editDeps,
      mem_reconnectDeps, ne_eq, same, not_false_eq_true, true_and, dependent]
    grind
  · simp [same, dependent]

theorem requires_removed_iff (wellFormed : dag.WellFormed) {taskId : GlobalTaskId}
    (original : Task) (id dep : GlobalTaskId) :
    Requires { dag with tasks := dag.removed taskId original } id dep ↔
      dag.Rewired taskId original id dep := by
  have planDep : PlanDep { dag with tasks := dag.removed taskId original } id dep ↔
      id ≠ taskId ∧ dep ≠ taskId ∧ dag.PlanDep id dep := by
    simp only [PlanDep, mem_removed]
    tauto
  have overlapDep : OverlapDep { dag with tasks := dag.removed taskId original } id dep ↔
      id ≠ taskId ∧ dep ≠ taskId ∧ dag.OverlapDep id dep := by
    have shares (files : List String) := exists_removed_iff dag taskId original dep
      fun depFiles => ∃ file ∈ files, file ∈ depFiles
    have overlaps := exists_removed_iff dag taskId original id
      fun files => dep ≠ taskId ∧ ∃ depTask : Task, dag.tasks[dep]? = some depTask ∧
        ∃ file ∈ files, file ∈ depTask.files
    simp only [OverlapDep, shares, overlaps]
    by_cases apart : dep = taskId
    · simp [apart]
    · simp only [ne_eq, apart, not_false_eq_true, true_and]
      constructor
      · rintro ⟨infers, less, other, shared⟩
        exact ⟨other, infers, less, shared⟩
      · rintro ⟨other, infers, less, shared⟩
        exact ⟨infers, less, other, shared⟩
  unfold Requires Rewired
  rw [declaredDep_removed_iff wellFormed, planDep, overlapDep]
  by_cases same : id = taskId
  · simp [same]
  · simp only [ne_eq, same, not_false_eq_true, true_and, or_assoc, and_or_left]

/-- The edited references resolve when every reference to the task was edited and the
copied ones name other tasks. -/
theorem resolvable_removed_iff {taskId : GlobalTaskId} (original : Task) :
    Resolvable { dag with tasks := dag.removed taskId original } ↔
      (∀ (plan : String) (deps : Std.ExtTreeSet String), dag.planDeps[plan]? = some deps →
        (∃ id ∈ dag.tasks, id ≠ taskId ∧ id.plan = plan) ∧
        ∀ dep ∈ deps, ∃ id ∈ dag.tasks, id ≠ taskId ∧ id.plan = dep) ∧
      (∀ id dep, DeclaredDep { dag with tasks := dag.removed taskId original } id dep →
        dep ≠ taskId ∧ dep ∈ dag.tasks) := by
  have hasPlan (plan : String) :
      HasPlan { dag with tasks := dag.removed taskId original } plan ↔
        ∃ id ∈ dag.tasks, id ≠ taskId ∧ id.plan = plan := by
    unfold HasPlan
    dsimp only
    simp only [mem_removed]
    grind
  constructor
  · intro resolvable
    refine ⟨fun plan deps named => ?_, ?_⟩
    · simpa only [hasPlan] using resolvable.plans plan deps named
    · rintro id dep ⟨task, stored, raw, member, rfl⟩
      exact (mem_removed original _).mp (resolvable.declared id task stored raw member)
  · rintro ⟨plans, declared⟩
    refine ⟨fun id task stored raw member => ?_, fun plan deps named => ?_⟩
    · exact (mem_removed original _).mpr (declared id _ ⟨task, stored, raw, member, rfl⟩)
    · simpa only [hasPlan] using plans plan deps named

theorem removal_accepted_iff (wellFormed : dag.WellFormed) {taskId : GlobalTaskId}
    {original : Task} (found : dag.tasks[taskId]? = some original)
    (open' : original.status ≠ .done) :
    (dag.applyMutation (.removeTask taskId)).2 = .ok () ↔
      Resolvable { dag with tasks := dag.removed taskId original } ∧
        DependencyGraph.Acyclic (dag.Rewired taskId original) := by
  have same : Requires { dag with tasks := dag.removed taskId original } =
      dag.Rewired taskId original := by
    funext id dep
    exact propext (requires_removed_iff wellFormed original id dep)
  rw [applyMutation_ok_iff, editTasks_removeTask found open', ← same]
  simp

theorem has_removal (wellFormed : dag.WellFormed) {taskId : GlobalTaskId}
    {original : Task} (found : dag.tasks[taskId]? = some original)
    (open' : original.status ≠ .done)
    (accepted : (dag.applyMutation (.removeTask taskId)).2 = .ok ()) :
    (dag.applyMutation (.removeTask taskId)).1.edges.Has = dag.Rewired taskId original := by
  obtain ⟨tasks, edited, -, edges⟩ := applyMutation_of_ok accepted
  rw [editTasks_removeTask found open'] at edited
  cases edited
  funext id dep
  exact propext ((edges id dep).trans (requires_removed_iff wellFormed original id dep))

theorem ne_of_dependent (wellFormed : dag.WellFormed) {taskId id : GlobalTaskId}
    (dependent : id ∈ dag.dependentsOf taskId) : id ≠ taskId := by
  rintro rfl
  exact wellFormed.acyclic id (.single ((mem_dependentsOf wellFormed.toIndexed id id).mp
    dependent))

theorem removalFaithful_of_lawful (wellFormed : dag.WellFormed) {taskId : GlobalTaskId}
    {original : Task} (found : dag.tasks[taskId]? = some original)
    (open' : original.status ≠ .done) (lawful : dag.RemovalLawful taskId) :
    dag.RemovalFaithful taskId original := by
  obtain ⟨resolvable, acyclic⟩ :=
    (removal_accepted_iff wellFormed found open').mp lawful.accepted
  obtain ⟨plans, declared⟩ := (resolvable_removed_iff original).mp resolvable
  have kept := lawful.kept
  rw [has_removal wellFormed found open' lawful.accepted] at kept
  have isDependent (id : GlobalTaskId) := mem_dependentsOf wellFormed.toIndexed taskId id
  refine ⟨plans, ?_, ?_, acyclic, ?_, ?_⟩
  · intro id task stored raw member resolved
    by_contra bare
    have edge := (wellFormed.represents id taskId).mpr
      (Or.inl ⟨task, stored, raw, member, resolved⟩)
    have apart := ne_of_dependent wellFormed ((isDependent id).mpr edge)
    have dangling := (declaredDep_removed_iff wellFormed original id taskId).mpr
      ⟨apart, Or.inl ⟨task, stored, raw, member, fun same => absurd same bare, resolved⟩⟩
    exact (declared id taskId dangling).1 rfl
  · intro id dependent raw member
    exact declared id _ ((declaredDep_removed_iff wellFormed original id _).mpr
      ⟨ne_of_dependent wellFormed dependent, Or.inr ⟨dependent, raw, member, rfl⟩⟩)
  · intro id dependent task stored member elsewhere
    apply kept id _ (ne_of_dependent wellFormed dependent) elsewhere
    exact .single ((wellFormed.represents id _).mpr
      (Or.inl ⟨task, stored, _, member, rfl⟩))
  · exact ((DependencyGraph.transGen_bypass_iff
      fun edge => wellFormed.acyclic taskId (.single edge)).mp kept).2

theorem removalLawful_of_faithful (wellFormed : dag.WellFormed) {taskId : GlobalTaskId}
    {original : Task} (found : dag.tasks[taskId]? = some original)
    (open' : original.status ≠ .done) (faithful : dag.RemovalFaithful taskId original) :
    dag.RemovalLawful taskId := by
  have isDependent (id : GlobalTaskId) := mem_dependentsOf wellFormed.toIndexed taskId id
  have edgeOfDeclared {id dep : GlobalTaskId} (declares : dag.DeclaredDep id dep) :
      dag.edges.Has id dep :=
    (wellFormed.represents id dep).mpr (Or.inl declares)
  have declared : ∀ id dep,
      DeclaredDep { dag with tasks := dag.removed taskId original } id dep →
        dep ≠ taskId ∧ dep ∈ dag.tasks := by
    intro id dep declares
    obtain ⟨-, ⟨task, stored, raw, member, unedited, rfl⟩ | ⟨dependent, raw, member, rfl⟩⟩ :=
      (declaredDep_removed_iff wellFormed original id dep).mp declares
    · have edge := edgeOfDeclared ⟨task, stored, raw, member, rfl⟩
      refine ⟨fun same => ?_, (wellFormed.endpoints id _ edge).2⟩
      have full := faithful.qualified id task stored raw member same
      rw [same] at edge
      exact unedited full ((isDependent id).mpr edge)
    · exact faithful.copied id dependent raw member
  have accepted : (dag.applyMutation (.removeTask taskId)).2 = .ok () :=
    (removal_accepted_iff wellFormed found open').mpr
      ⟨(resolvable_removed_iff original).mpr ⟨faithful.plans, declared⟩, faithful.acyclic⟩
  refine ⟨accepted, ?_⟩
  rw [has_removal wellFormed found open' accepted]
  refine (DependencyGraph.transGen_bypass_iff
    fun edge => wellFormed.acyclic taskId (.single edge)).mpr ⟨?_, faithful.through⟩
  intro id dep apart depApart edge
  rcases (wellFormed.represents id dep).mp edge with
    ⟨task, stored, raw, member, rfl⟩ | inferred
  · by_cases edited : raw = taskId.toString ∧ id ∈ dag.dependentsOf taskId
    · obtain ⟨rfl, dependent⟩ := edited
      exact faithful.lost id dependent task stored member depApart
    · refine .single ⟨apart, Or.inl ⟨task, stored, raw, member, ?_, rfl⟩⟩
      exact fun same dependent => edited ⟨same, dependent⟩
  · exact .single ⟨apart, Or.inr (Or.inr ⟨depApart, inferred⟩)⟩

/-- Removing an open task is lawful exactly when the edit of the references says all
that the task stood for. -/
theorem removalLawful_iff (wellFormed : dag.WellFormed) {taskId : GlobalTaskId}
    {original : Task} (found : dag.tasks[taskId]? = some original)
    (open' : original.status ≠ .done) :
    dag.RemovalLawful taskId ↔ dag.RemovalFaithful taskId original :=
  ⟨removalFaithful_of_lawful wellFormed found open',
    removalLawful_of_faithful wellFormed found open'⟩

theorem samplePlans_removalLawful_iff :
    ∃ (dag : UnifiedTaskDag) (original : Task), build samplePlans ∅ {} = .ok dag ∧
      dag.tasks[(⟨"a", "t2"⟩ : GlobalTaskId)]? = some original ∧
      (dag.RemovalLawful ⟨"a", "t2"⟩ ↔ dag.RemovalFaithful ⟨"a", "t2"⟩ original) := by
  have ran : (build samplePlans ∅ {}).toOption.map (fun dag =>
      dag.tasks[(⟨"a", "t2"⟩ : GlobalTaskId)]?.map Task.status) =
      some (some .pending) := by
    decide +kernel
  obtain ⟨dag, built, reads⟩ := FallibleSteps.ok_of_map_toOption ran
  obtain ⟨original, found, pending⟩ := Option.map_eq_some_iff.mp reads
  have open' : original.status ≠ .done := by
    rw [pending]
    exact nofun
  exact ⟨dag, original, built, found,
    removalLawful_iff (wellFormed_build built) found open'⟩

/-- The dependent names the task without its plan, and its reference dangles after the
removal. -/
theorem samplePlans_removal_rejected :
    ∃ dag : UnifiedTaskDag, build samplePlans ∅ {} = .ok dag ∧
      dag.tasks[(⟨"a", "t1"⟩ : GlobalTaskId)]?.map Task.status = some .pending ∧
      (dag.applyMutation (.removeTask ⟨"a", "t1"⟩)).2 =
        .error (.invalidMutation "dangling dep during rebuild: a:t2 -> t1") ∧
      ¬ dag.RemovalLawful ⟨"a", "t1"⟩ := by
  have ran : (build samplePlans ∅ {}).toOption.map (fun dag =>
      (dag.tasks[(⟨"a", "t1"⟩ : GlobalTaskId)]?.map Task.status,
        (dag.applyMutation (.removeTask ⟨"a", "t1"⟩)).2)) =
      some (some .pending, .error (.invalidMutation
        "dangling dep during rebuild: a:t2 -> t1")) := by
    decide +kernel
  obtain ⟨dag, built, reads⟩ := FallibleSteps.ok_of_map_toOption ran
  obtain ⟨pending, rejected⟩ := Prod.mk.inj reads
  refine ⟨dag, built, pending, rejected, fun lawful => ?_⟩
  rw [lawful.accepted] at rejected
  cases rejected

end UnifiedTaskDag

end Roko
