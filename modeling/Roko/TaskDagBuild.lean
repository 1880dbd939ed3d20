import Roko.OrderedMaps
import Roko.TaskDagMutation

/-!
# What a build returns

`build` checks the plan-level dependencies against the keys of the loaded plans,
then collects the tasks, rebuilds the indexes and sorts.  The edges it should end
with are stated over its arguments alone, and so are the three reasons for which it
should fail.  The rebuild looks for the tasks of a plan and takes a loaded plan
without tasks for an unknown one.
-/

namespace Roko

namespace UnifiedTaskDag

/-- The task is in the list of its plan. -/
def Loaded (planTasks : Std.ExtTreeMap String (List Task)) (id : GlobalTaskId)
    (task : Task) : Prop :=
  ∃ tasks, planTasks[id.plan]? = some tasks ∧ task ∈ tasks ∧ task.id = id.task

/-- The plan stands on either side of a plan-level dependency. -/
def MentionsPlan (planDeps : SetMap String String) (plan : String) : Prop :=
  plan ∈ planDeps ∨ ∃ dependent, planDeps.Has dependent plan

def MentionsUnknown (planTasks : Std.ExtTreeMap String (List Task))
    (planDeps : SetMap String String) : Prop :=
  ∃ plan, MentionsPlan planDeps plan ∧ plan ∉ planTasks

/-- Some reference resolves to no task. -/
def Dangles (planTasks : Std.ExtTreeMap String (List Task)) : Prop :=
  ∃ id task, Loaded planTasks id task ∧ ∃ raw ∈ task.dependsOn,
    ∀ dep, ¬ Loaded planTasks (resolveDepRef id.plan raw) dep

/-- The union of the declared, the plan-level and the overlap edges. -/
def LoadedEdge (planTasks : Std.ExtTreeMap String (List Task))
    (planDeps : SetMap String String) (config : DagConfig)
    (id dep : GlobalTaskId) : Prop :=
  (∃ task, Loaded planTasks id task ∧
    ∃ raw ∈ task.dependsOn, resolveDepRef id.plan raw = dep) ∨
  (planDeps.Has id.plan dep.plan ∧ (∃ task, Loaded planTasks id task) ∧
    ∃ task, Loaded planTasks dep task) ∨
  (config.inferFileOverlap = true ∧ dep < id ∧
    ∃ task, Loaded planTasks id task ∧ ∃ depTask, Loaded planTasks dep depTask ∧
      ∃ file ∈ task.files, file ∈ depTask.files)

/-- Each failure is returned for its own reason, in this order, and a graph has the
edges of the union. -/
structure BuildLawful (planTasks : Std.ExtTreeMap String (List Task))
    (planDeps : SetMap String String) (config : DagConfig) : Prop where
  unknownPlan : (∃ plan, build planTasks planDeps config = .error (.unknownPlan plan)) ↔
    MentionsUnknown planTasks planDeps
  dangling : ¬ MentionsUnknown planTasks planDeps →
    ((∃ referrer target, build planTasks planDeps config =
      .error (.danglingDepRef referrer target)) ↔ Dangles planTasks)
  cycle : ¬ MentionsUnknown planTasks planDeps → ¬ Dangles planTasks →
    ((∃ tasks, build planTasks planDeps config = .error (.cycle tasks)) ↔
      ¬ DependencyGraph.Acyclic (LoadedEdge planTasks planDeps config))
  built : ¬ MentionsUnknown planTasks planDeps → ¬ Dangles planTasks →
    DependencyGraph.Acyclic (LoadedEdge planTasks planDeps config) →
    ∃ dag, build planTasks planDeps config = .ok dag ∧
      ∀ id dep, dag.edges.Has id dep ↔ LoadedEdge planTasks planDeps config id dep

variable {planTasks : Std.ExtTreeMap String (List Task)}
  {planDeps : SetMap String String} {config : DagConfig}

/-- What holds on both sides of every entry holds of every plan that is named. -/
theorem forall_entries_iff (holds : String → Prop) :
    (∀ (plan : String) (deps : Std.ExtTreeSet String), planDeps[plan]? = some deps →
      holds plan ∧ ∀ dep ∈ deps, holds dep) ↔
      ∀ plan, MentionsPlan planDeps plan → holds plan := by
  unfold MentionsPlan SetMap.Has
  simp only [Std.ExtTreeMap.mem_iff_isSome_getElem? (t := planDeps),
    Option.isSome_iff_exists]
  grind

/-- The task that the tasks of one list leave under a task id. -/
def lastWith (tasks : List Task) (found : String → Option Task) (taskId : String) :
    Option Task :=
  tasks.foldl (fun found task => if task.id = taskId then some task else found)
    (found taskId)

theorem lastWith_eq_some {tasks : List Task} (distinct : (tasks.map Task.id).Nodup)
    {taskId : String} {task : Task} :
    lastWith tasks (fun _ => none) taskId = some task ↔
      task ∈ tasks ∧ task.id = taskId := by
  have general : ∀ found : Option Task,
      tasks.foldl (fun found task => if task.id = taskId then some task else found)
          found = some task ↔
        (task ∈ tasks ∧ task.id = taskId) ∨
          (found = some task ∧ taskId ∉ tasks.map Task.id) := by
    induction tasks with
    | nil => simp
    | cons head tasks ih =>
        intro found
        obtain ⟨fresh, later⟩ := List.nodup_cons.mp distinct
        rw [List.foldl_cons, ih later]
        by_cases here : head.id = taskId
        · subst here
          rw [if_pos rfl]
          grind
        · rw [if_neg here]
          grind
  unfold lastWith
  rw [general]
  simp

theorem getElem?_foldl_insert_task (plan : String) (tasks : List Task)
    (map : Std.ExtTreeMap GlobalTaskId Task) (id : GlobalTaskId) :
    (tasks.foldl (fun map task => map.insert ⟨plan, task.id⟩ task) map)[id]? =
      if id.plan = plan then lastWith tasks (fun taskId => map[(⟨plan, taskId⟩ :
        GlobalTaskId)]?) id.task
      else map[id]? := by
  obtain ⟨idPlan, idTask⟩ := id
  unfold lastWith
  induction tasks generalizing map with
  | nil =>
      by_cases same : idPlan = plan
      · simp [same]
      · simp [same]
  | cons head tasks ih =>
      rw [List.foldl_cons, ih, List.foldl_cons]
      by_cases same : idPlan = plan
      · simp only [same, if_true, Std.ExtTreeMap.getElem?_insert,
          Std.LawfulEqCmp.compare_eq_iff_eq, GlobalTaskId.mk.injEq, true_and]
      · have apart : ¬ plan = idPlan := fun equal => same equal.symm
        simp [same, apart, Std.ExtTreeMap.getElem?_insert]

/-- The collected tasks of a plan are those of its list. -/
theorem getElem?_collectTasks
    (distinct : ∀ (plan : String) (tasks : List Task),
      planTasks[plan]? = some tasks → (tasks.map Task.id).Nodup)
    (id : GlobalTaskId) (task : Task) :
    (collectTasks planTasks)[id]? = some task ↔ Loaded planTasks id task := by
  have steps : KeyedFold.OwnKey
      (fun (map : Std.ExtTreeMap GlobalTaskId Task) plan taskId =>
        map[(⟨plan, taskId⟩ : GlobalTaskId)]?)
      (fun map (entry : String × List Task) =>
        entry.2.foldl (fun map task => map.insert ⟨entry.1, task.id⟩ task) map)
      (fun _ tasks found => lastWith tasks found) := by
    constructor
    · intro map entry
      funext taskId
      rw [getElem?_foldl_insert_task, if_pos rfl]
    · intro map entry plan other
      funext taskId
      rw [getElem?_foldl_insert_task, if_neg other]
  have looked := congrFun (KeyedFold.look_foldl_toList steps planTasks ∅ id.plan) id.task
  have collected : (collectTasks planTasks)[id]? =
      (match planTasks[id.plan]? with
        | none => fun _ => none
        | some tasks => lastWith tasks fun _ => none) id.task := by
    refine looked.trans ?_
    cases planTasks[id.plan]? with
    | none => simp
    | some tasks => simp
  rw [collected]
  unfold Loaded
  cases found : planTasks[id.plan]? with
  | none => simp
  | some tasks =>
      dsimp only
      rw [lastWith_eq_some (distinct id.plan tasks found)]
      simp

theorem addDeclaredDep_error {nodes : List GlobalTaskId} {id : GlobalTaskId}
    {edges : SetMap GlobalTaskId GlobalTaskId} {raw : String} {failure : DagError}
    (failed : (addDeclaredDep nodes id edges raw).2 = .error failure) :
    failure = .danglingDepRef id raw := by
  unfold addDeclaredDep at failed
  dsimp only at failed
  split at failed
  · cases failed
  · exact (Except.error.inj failed).symm

theorem declaredIndexes_error {dag : UnifiedTaskDag} {failure : DagError}
    (failed : dag.declaredIndexes.2 = .error failure) :
    ∃ referrer target, failure = .danglingDepRef referrer target := by
  obtain ⟨indexes, entry, -, stepped⟩ := FallibleSteps.exists_of_forEach_error failed
  unfold indexTask at stepped
  dsimp only at stepped
  obtain ⟨edges, raw, -, missing⟩ := FallibleSteps.exists_of_forEach_error stepped
  exact ⟨entry.1, raw, addDeclaredDep_error missing⟩

theorem planEdges_error {dag : UnifiedTaskDag}
    {edges : SetMap GlobalTaskId GlobalTaskId} {failure : DagError}
    (failed : (dag.planEdges edges).2 = .error failure) :
    ∃ plan, failure = .unknownPlan plan := by
  obtain ⟨edges, entry, -, stepped⟩ := FallibleSteps.exists_of_forEach_error failed
  unfold addPlanDeps at stepped
  split at stepped
  case h_1 => exact ⟨entry.1, (Except.error.inj stepped).symm⟩
  case h_2 planIds found =>
    obtain ⟨edges, depPlan, -, missing⟩ := FallibleSteps.exists_of_forEach_error stepped
    unfold addPlanDep at missing
    split at missing
    · exact ⟨depPlan, (Except.error.inj missing).symm⟩
    · cases missing

theorem topologicalSort_error {dag : UnifiedTaskDag} {failure : DagError}
    (failed : dag.topologicalSort = .error failure) : ∃ tasks, failure = .cycle tasks := by
  unfold topologicalSort at failed
  dsimp only at failed
  split at failed
  · split at failed
    · exact ⟨_, (Except.error.inj failed).symm⟩
    · exact ⟨_, (Except.error.inj failed).symm⟩
  · cases failed

theorem rebuildIndexes_error {dag : UnifiedTaskDag} {failure : DagError}
    (failed : (rebuildIndexes dag).2 = .error failure) :
    dag.declaredIndexes.2 = .error failure ∨
      (dag.declaredIndexes.2 = .ok () ∧
        (dag.planEdges dag.declaredIndexes.1.1).2 = .error failure) := by
  unfold rebuildIndexes at failed
  split at failed
  case h_1 declared =>
    left
    rw [declared]
    exact failed
  case h_2 edges estimates declared =>
    split at failed
    case h_1 planned =>
      right
      rw [declared]
      refine ⟨rfl, ?_⟩
      rw [planned]
      exact failed
    case h_2 => cases failed

/-- The graph that `build` hands to the rebuild. -/
def collected (planTasks : Std.ExtTreeMap String (List Task))
    (planDeps : SetMap String String) (config : DagConfig) : UnifiedTaskDag where
  tasks := collectTasks planTasks
  planDeps := planDeps
  edges := ∅
  reverseEdges := ∅
  nodes := []
  estimates := ∅
  config := config

theorem forall_checkPlan_iff :
    (∀ entry ∈ planDeps.toList, (do
        checkPlan planTasks entry.1
        entry.2.toList.forM (checkPlan planTasks)) = .ok ()) ↔
      ¬ MentionsUnknown planTasks planDeps := by
  have check : ∀ plan, checkPlan planTasks plan = .ok () ↔ plan ∈ planTasks := by
    intro plan
    unfold checkPlan
    by_cases known : plan ∈ planTasks <;> simp [known]
  have both : ∀ entry : String × Std.ExtTreeSet String, (do
        checkPlan planTasks entry.1
        entry.2.toList.forM (checkPlan planTasks)) = .ok () ↔
      entry.1 ∈ planTasks ∧ ∀ dep ∈ entry.2, dep ∈ planTasks := by
    intro entry
    rw [← check entry.1]
    have deps : entry.2.toList.forM (checkPlan planTasks) = .ok () ↔
        ∀ dep ∈ entry.2, dep ∈ planTasks := by
      rw [FallibleSteps.forM_ok_iff]
      simp only [check, Std.ExtTreeSet.mem_toList]
    rw [← deps]
    cases checkPlan planTasks entry.1 with
    | error failure => simp [bind, Except.bind]
    | ok value => simp [bind, Except.bind]
  simp only [both, Prod.forall, Std.ExtTreeMap.mem_toList_iff_getElem?_eq_some]
  rw [forall_entries_iff fun plan => plan ∈ planTasks]
  unfold MentionsUnknown
  push Not
  rfl

theorem checkPlan_error {plan : String} {failure : DagError}
    (failed : checkPlan planTasks plan = .error failure) : failure = .unknownPlan plan := by
  unfold checkPlan at failed
  split at failed
  · cases failed
  · exact (Except.error.inj failed).symm

/-- Looking up the plans fails for an unknown one only. -/
theorem forM_checkPlan_error {failure : DagError}
    (failed : (planDeps.toList.forM fun entry => do
      checkPlan planTasks entry.1
      entry.2.toList.forM (checkPlan planTasks)) = .error failure) :
    ∃ plan, failure = .unknownPlan plan := by
  obtain ⟨entry, -, stopped⟩ := FallibleSteps.exists_of_forM_error failed
  cases first : checkPlan planTasks entry.1 with
  | error other =>
      rw [first] at stopped
      exact ⟨entry.1, (Except.error.inj stopped).symm.trans (checkPlan_error first)⟩
  | ok value =>
      rw [first] at stopped
      obtain ⟨dep, -, missing⟩ := FallibleSteps.exists_of_forM_error stopped
      exact ⟨dep, checkPlan_error missing⟩

section Collected

variable (distinct : ∀ (plan : String) (tasks : List Task),
  planTasks[plan]? = some tasks → (tasks.map Task.id).Nodup)

include distinct

theorem mem_collectTasks (id : GlobalTaskId) :
    id ∈ collectTasks planTasks ↔ ∃ task, Loaded planTasks id task := by
  rw [Std.ExtTreeMap.mem_iff_isSome_getElem?, Option.isSome_iff_exists]
  simp only [getElem?_collectTasks distinct]

theorem requires_collected_iff (id dep : GlobalTaskId) :
    (collected planTasks planDeps config).Requires id dep ↔
      LoadedEdge planTasks planDeps config id dep := by
  unfold Requires DeclaredDep PlanDep OverlapDep LoadedEdge collected
  simp only [mem_collectTasks distinct, getElem?_collectTasks distinct]

theorem declaredIndexes_collected_iff :
    (collected planTasks planDeps config).declaredIndexes.2 = .ok () ↔
      ¬ Dangles planTasks := by
  rw [declaredIndexes_ok_iff]
  unfold Dangles collected
  simp only [mem_collectTasks distinct, getElem?_collectTasks distinct]
  push Not
  rfl

theorem hasPlan_collected_iff (plan : String) :
    (collected planTasks planDeps config).HasPlan plan ↔
      ∃ tasks, planTasks[plan]? = some tasks ∧ tasks ≠ [] := by
  constructor
  · rintro ⟨id, listed, rfl⟩
    obtain ⟨task, tasks, found, member, -⟩ := (mem_collectTasks distinct id).mp listed
    exact ⟨tasks, found, List.ne_nil_of_mem member⟩
  · rintro ⟨tasks, found, nonempty⟩
    obtain ⟨task, member⟩ := List.exists_mem_of_ne_nil tasks nonempty
    exact ⟨⟨plan, task.id⟩, (mem_collectTasks distinct _).mpr
      ⟨task, tasks, found, member, rfl⟩, rfl⟩

theorem planEdges_collected_iff (edges : SetMap GlobalTaskId GlobalTaskId)
    (known : ¬ MentionsUnknown planTasks planDeps) :
    ((collected planTasks planDeps config).planEdges edges).2 = .ok () ↔
      ∀ plan, MentionsPlan planDeps plan → planTasks[plan]? ≠ some [] := by
  have loaded : ∀ plan, MentionsPlan planDeps plan →
      ((collected planTasks planDeps config).HasPlan plan ↔
        planTasks[plan]? ≠ some []) := by
    intro plan mentioned
    have listed : plan ∈ planTasks := by
      by_contra absent
      exact known ⟨plan, mentioned, absent⟩
    obtain ⟨tasks, found⟩ := Option.isSome_iff_exists.mp
      (Std.ExtTreeMap.mem_iff_isSome_getElem?.mp listed)
    rw [hasPlan_collected_iff distinct, found]
    simp
  refine (planEdges_ok_iff _ edges).trans ((forall_entries_iff _).trans ?_)
  exact forall₂_congr loaded

end Collected

/-- What `build` can return, and for which arguments. -/
inductive Outcome (planTasks : Std.ExtTreeMap String (List Task))
    (planDeps : SetMap String String) (config : DagConfig) :
    Except DagError UnifiedTaskDag → Prop
  | unknown (unknown : MentionsUnknown planTasks planDeps) (plan : String) :
      Outcome planTasks planDeps config (.error (.unknownPlan plan))
  | dangling (known : ¬ MentionsUnknown planTasks planDeps)
      (dangles : Dangles planTasks) (referrer : GlobalTaskId) (target : String) :
      Outcome planTasks planDeps config (.error (.danglingDepRef referrer target))
  | empty (known : ¬ MentionsUnknown planTasks planDeps)
      (resolved : ¬ Dangles planTasks)
      (empty : ∃ plan, MentionsPlan planDeps plan ∧ planTasks[plan]? = some [])
      (plan : String) :
      Outcome planTasks planDeps config (.error (.unknownPlan plan))
  | cycle (known : ¬ MentionsUnknown planTasks planDeps)
      (resolved : ¬ Dangles planTasks)
      (nonempty : ∀ plan, MentionsPlan planDeps plan → planTasks[plan]? ≠ some [])
      (cyclic : ¬ DependencyGraph.Acyclic (LoadedEdge planTasks planDeps config))
      (tasks : List GlobalTaskId) :
      Outcome planTasks planDeps config (.error (.cycle tasks))
  | built (known : ¬ MentionsUnknown planTasks planDeps)
      (resolved : ¬ Dangles planTasks)
      (nonempty : ∀ plan, MentionsPlan planDeps plan → planTasks[plan]? ≠ some [])
      (acyclic : DependencyGraph.Acyclic (LoadedEdge planTasks planDeps config))
      (dag : UnifiedTaskDag)
      (edges : ∀ id dep, dag.edges.Has id dep ↔
        LoadedEdge planTasks planDeps config id dep) :
      Outcome planTasks planDeps config (.ok dag)

section Outcomes

variable (distinct : ∀ (plan : String) (tasks : List Task),
  planTasks[plan]? = some tasks → (tasks.map Task.id).Nodup)
include distinct

/-- What fails while the indexes are rebuilt: a reference of a task, or a plan-level one. -/
theorem outcome_unindexed (known : ¬ MentionsUnknown planTasks planDeps) {failure : DagError}
    (rebuilt : (rebuildIndexes (collected planTasks planDeps config)).2 = .error failure) :
    Outcome planTasks planDeps config (.error failure) := by
  have declaredIff :
      (collected planTasks planDeps config).declaredIndexes.2 = .ok () ↔ ¬ Dangles planTasks :=
    declaredIndexes_collected_iff distinct
  rcases rebuildIndexes_error rebuilt with declared | ⟨declared, planned⟩
  · obtain ⟨referrer, target, rfl⟩ := declaredIndexes_error declared
    apply Outcome.dangling known
    by_contra resolved
    rw [declaredIff.mpr resolved] at declared
    cases declared
  · obtain ⟨plan, rfl⟩ := planEdges_error planned
    apply Outcome.empty known (declaredIff.mp declared)
    by_contra nonempty
    push Not at nonempty
    rw [(planEdges_collected_iff distinct _ known).mpr nonempty] at planned
    cases planned

/-- Once the indexes are rebuilt, only a cycle makes the build fail. -/
theorem outcome_indexed (known : ¬ MentionsUnknown planTasks planDeps)
    (rebuilt : (rebuildIndexes (collected planTasks planDeps config)).2 = .ok ()) :
    Outcome planTasks planDeps config
      ((rebuildIndexes (collected planTasks planDeps config)).1.topologicalSort >>=
        fun _ => .ok (rebuildIndexes (collected planTasks planDeps config)).1) := by
  have resolvable := (rebuildIndexes_ok_iff (collected planTasks planDeps config)).mp rebuilt
  have resolved : ¬ Dangles planTasks :=
    (declaredIndexes_collected_iff distinct).mp
      ((declaredIndexes_ok_iff _).mpr resolvable.declared)
  have nonempty := (planEdges_collected_iff distinct ∅ known).mp
    ((planEdges_ok_iff _ ∅).mpr resolvable.plans)
  have edges : ∀ id dep,
      (rebuildIndexes (collected planTasks planDeps config)).1.edges.Has id dep ↔
        LoadedEdge planTasks planDeps config id dep :=
    fun id dep => (has_rebuildIndexes rebuilt id dep).trans
      (requires_collected_iff distinct id dep)
  have same : (rebuildIndexes (collected planTasks planDeps config)).1.edges.Has =
      LoadedEdge planTasks planDeps config := by
    funext id dep
    exact propext (edges id dep)
  have sortedIff := topologicalSort_ok_iff (indexed_rebuildIndexes rebuilt)
  rw [same] at sortedIff
  cases sorted : (rebuildIndexes (collected planTasks planDeps config)).1.topologicalSort with
  | error failure =>
      obtain ⟨tasks, rfl⟩ := topologicalSort_error sorted
      apply Outcome.cycle known resolved nonempty
      intro acyclic
      obtain ⟨out, found⟩ := sortedIff.mpr acyclic
      rw [sorted] at found
      cases found
  | ok out => exact .built known resolved nonempty (sortedIff.mp ⟨out, sorted⟩) _ edges

theorem outcome_build :
    Outcome planTasks planDeps config (build planTasks planDeps config) := by
  have unfolded : build planTasks planDeps config =
      ((planDeps.toList.forM fun entry => do
        checkPlan planTasks entry.1
        entry.2.toList.forM (checkPlan planTasks)) >>= fun _ =>
      (rebuildIndexes (collected planTasks planDeps config)).2 >>= fun _ =>
      (rebuildIndexes (collected planTasks planDeps config)).1.topologicalSort >>=
        fun _ => .ok (rebuildIndexes (collected planTasks planDeps config)).1) := rfl
  rw [unfolded]
  cases checked : planDeps.toList.forM fun entry => do
      checkPlan planTasks entry.1
      entry.2.toList.forM (checkPlan planTasks) with
  | error failure =>
      obtain ⟨plan, rfl⟩ := forM_checkPlan_error checked
      apply Outcome.unknown
      by_contra known
      rw [FallibleSteps.forM_ok_iff.mpr (forall_checkPlan_iff.mpr known)] at checked
      cases checked
  | ok value =>
      have known : ¬ MentionsUnknown planTasks planDeps :=
        forall_checkPlan_iff.mp (FallibleSteps.forM_ok_iff.mp checked)
      cases rebuilt : (rebuildIndexes (collected planTasks planDeps config)).2 with
      | error failure => exact outcome_unindexed distinct known rebuilt
      | ok value => exact outcome_indexed distinct known rebuilt

end Outcomes

/-- `build` returns what it should exactly when no plan named by the plan-level
dependencies is loaded without tasks, unless an earlier reason already makes it
fail. -/
theorem buildLawful_iff
    (distinct : ∀ (plan : String) (tasks : List Task),
      planTasks[plan]? = some tasks → (tasks.map Task.id).Nodup) :
    BuildLawful planTasks planDeps config ↔
      MentionsUnknown planTasks planDeps ∨ Dangles planTasks ∨
        ∀ plan, MentionsPlan planDeps plan → planTasks[plan]? ≠ some [] := by
  have outcome : Outcome planTasks planDeps config (build planTasks planDeps config) :=
    outcome_build distinct
  constructor
  · intro lawful
    generalize returned : build planTasks planDeps config = result at outcome
    cases outcome with
    | unknown unknown plan => exact Or.inl unknown
    | dangling known dangles referrer target => exact Or.inr (Or.inl dangles)
    | empty known resolved empty plan =>
        exact absurd (lawful.unknownPlan.mp ⟨plan, returned⟩) known
    | cycle known resolved nonempty cyclic tasks => exact Or.inr (Or.inr nonempty)
    | built known resolved nonempty acyclic dag edges => exact Or.inr (Or.inr nonempty)
  · intro condition
    generalize returned : build planTasks planDeps config = result at outcome
    cases outcome with
    | unknown unknown plan =>
        exact ⟨by simp [returned, unknown], fun known => absurd unknown known,
          fun known => absurd unknown known, fun known => absurd unknown known⟩
    | dangling known dangles referrer target =>
        exact ⟨by simp [returned, known], fun _ => by simp [returned, dangles],
          fun _ resolved => absurd dangles resolved,
          fun _ resolved => absurd dangles resolved⟩
    | empty known resolved empty plan =>
        obtain ⟨plan, mentioned, found⟩ := empty
        rcases condition with unknown | dangles | nonempty
        · exact absurd unknown known
        · exact absurd dangles resolved
        · exact absurd found (nonempty plan mentioned)
    | cycle known resolved nonempty cyclic tasks =>
        exact ⟨by simp [returned, known], fun _ => by simp [returned, resolved],
          fun _ _ => by simp [returned, cyclic], fun _ _ acyclic => absurd acyclic cyclic⟩
    | built known resolved nonempty acyclic dag edges =>
        exact ⟨by simp [returned, known], fun _ => by simp [returned, resolved],
          fun _ _ => by simp [returned, acyclic], fun _ _ _ => ⟨dag, returned, edges⟩⟩

theorem distinct_of_toList
    (distinct : ∀ entry ∈ planTasks.toList, (entry.2.map Task.id).Nodup)
    (plan : String) (tasks : List Task) (found : planTasks[plan]? = some tasks) :
    (tasks.map Task.id).Nodup :=
  distinct (plan, tasks) (Std.ExtTreeMap.mem_toList_iff_getElem?_eq_some.mpr found)

theorem tasks_build {dag : UnifiedTaskDag}
    (built : build planTasks planDeps config = .ok dag) :
    dag.tasks = collectTasks planTasks := by
  unfold build at built
  obtain ⟨-, -, loaded⟩ := FallibleSteps.bind_ok built
  obtain ⟨_, rebuilt, checked⟩ := FallibleSteps.bind_ok loaded
  obtain ⟨_, -, returned⟩ := FallibleSteps.bind_ok checked
  cases returned
  exact (frame_rebuildIndexes rebuilt).1

/-- A plan with two tasks that depends on a plan with one. -/
def layeredPlans : Std.ExtTreeMap String (List Task) :=
  ((∅ : Std.ExtTreeMap String (List Task)).insert "a"
    [{ id := "t1", title := "one" }]).insert "b"
    [{ id := "u1", title := "two" }, { id := "u2", title := "three", dependsOn := ["u1"] }]

def secondAfterFirst : SetMap String String :=
  (∅ : SetMap String String).insertAt "b" "a"

theorem layeredPlans_lawful : BuildLawful layeredPlans secondAfterFirst {} := by
  apply (buildLawful_iff (distinct_of_toList (by decide +kernel))).mpr
  right
  right
  intro plan mentioned empty
  have listed := Std.ExtTreeMap.mem_toList_iff_getElem?_eq_some.mpr empty
  have nonempty : ∀ entry ∈ layeredPlans.toList, entry.2 ≠ [] := by decide +kernel
  exact nonempty _ listed rfl

/-- The plan `a` is loaded, but has no task yet. -/
def draftPlans : Std.ExtTreeMap String (List Task) :=
  ((∅ : Std.ExtTreeMap String (List Task)).insert "a" []).insert "b"
    [{ id := "u1", title := "one" }]

theorem draftPlans_unlawful :
    (∀ (plan : String) (tasks : List Task), draftPlans[plan]? = some tasks →
      (tasks.map Task.id).Nodup) ∧
    ¬ MentionsUnknown draftPlans secondAfterFirst ∧
    (∃ plan, build draftPlans secondAfterFirst {} = .error (.unknownPlan plan)) ∧
    ¬ BuildLawful draftPlans secondAfterFirst {} := by
  have known : ¬ MentionsUnknown draftPlans secondAfterFirst :=
    forall_checkPlan_iff.mp (by decide +kernel)
  have ran : (build draftPlans secondAfterFirst {}).map (fun _ => ()) =
      .error (.unknownPlan "a") := by
    decide +kernel
  have failed : ∃ plan, build draftPlans secondAfterFirst {} =
      .error (.unknownPlan plan) := by
    cases returned : build draftPlans secondAfterFirst {} with
    | error failure =>
        rw [returned] at ran
        exact ⟨"a", congrArg _ (Except.error.inj ran)⟩
    | ok dag =>
        rw [returned] at ran
        cases ran
  exact ⟨distinct_of_toList (by decide +kernel), known, failed,
    fun lawful => known (lawful.unknownPlan.mp failed)⟩

end UnifiedTaskDag

end Roko
