import Roko.TaskDag

/-!
# What the rebuilt indexes contain

`Requires` states which task has to wait for which, read off the task map, the
plan-level dependencies and the configuration alone.  A successful rebuild
makes the edge map represent exactly this relation; the rebuild succeeds exactly
when every reference can be resolved.
-/

namespace Roko

namespace UnifiedTaskDag

/-- A `depends_on` reference of the task resolves to the dependency. -/
def DeclaredDep (dag : UnifiedTaskDag) (id dep : GlobalTaskId) : Prop :=
  ∃ task, dag.tasks[id]? = some task ∧
    ∃ raw ∈ task.dependsOn, resolveDepRef id.plan raw = dep

/-- The plan of the task depends on the plan of the dependency. -/
def PlanDep (dag : UnifiedTaskDag) (id dep : GlobalTaskId) : Prop :=
  dag.planDeps.Has id.plan dep.plan ∧ id ∈ dag.tasks ∧ dep ∈ dag.tasks

/-- The two tasks share a file and the dependency has the smaller id. -/
def OverlapDep (dag : UnifiedTaskDag) (id dep : GlobalTaskId) : Prop :=
  dag.config.inferFileOverlap = true ∧ dep < id ∧
    ∃ task, dag.tasks[id]? = some task ∧
      ∃ depTask, dag.tasks[dep]? = some depTask ∧
        ∃ file ∈ task.files, file ∈ depTask.files

/-- The task has to wait for the dependency. -/
def Requires (dag : UnifiedTaskDag) (id dep : GlobalTaskId) : Prop :=
  dag.DeclaredDep id dep ∨ dag.PlanDep id dep ∨ dag.OverlapDep id dep

def HasPlan (dag : UnifiedTaskDag) (plan : String) : Prop :=
  ∃ id ∈ dag.tasks, id.plan = plan

/-- Every reference names a task, and every plan of the plan-level dependencies
has one. -/
structure Resolvable (dag : UnifiedTaskDag) : Prop where
  declared : ∀ (id : GlobalTaskId) (task : Task), dag.tasks[id]? = some task →
    ∀ raw ∈ task.dependsOn, resolveDepRef id.plan raw ∈ dag.tasks
  plans : ∀ (plan : String) (deps : Std.ExtTreeSet String),
    dag.planDeps[plan]? = some deps →
      dag.HasPlan plan ∧ ∀ dep ∈ deps, dag.HasPlan dep

/-- The four indexes agree with the task map and with one another. -/
structure Indexed (dag : UnifiedTaskDag) : Prop where
  sorted : dag.nodes.Pairwise (· < ·)
  mem_nodes : ∀ id, id ∈ dag.nodes ↔ id ∈ dag.tasks
  mem_edges : ∀ id, id ∈ dag.edges ↔ id ∈ dag.tasks
  mem_reverseEdges : ∀ id, id ∈ dag.reverseEdges ↔ id ∈ dag.tasks
  reversed : ∀ id dep, dag.edges.Has id dep ↔ dag.reverseEdges.Has dep id
  endpoints : ∀ id dep, dag.edges.Has id dep → id ∈ dag.tasks ∧ dep ∈ dag.tasks

theorem mem_tasks_iff {dag : UnifiedTaskDag} {id : GlobalTaskId} :
    id ∈ dag.tasks ↔ ∃ task, dag.tasks[id]? = some task := by
  rw [Std.ExtTreeMap.mem_iff_isSome_getElem?, Option.isSome_iff_exists]

instance decidableExistsSome {Value : Type} {found : Option Value} {p : Value → Prop}
    [DecidablePred p] : Decidable (∃ value, found = some value ∧ p value) :=
  match found with
  | none => isFalse fun ⟨_, absent, _⟩ => nomatch absent
  | some value =>
      decidable_of_iff (p value)
        ⟨fun holds => ⟨value, rfl, holds⟩,
          fun ⟨_, same, holds⟩ => Option.some.inj same ▸ holds⟩

instance (dag : UnifiedTaskDag) (id dep : GlobalTaskId) :
    Decidable (dag.DeclaredDep id dep) :=
  inferInstanceAs (Decidable (∃ task, dag.tasks[id]? = some task ∧
    ∃ raw ∈ task.dependsOn, resolveDepRef id.plan raw = dep))

instance (dag : UnifiedTaskDag) (id dep : GlobalTaskId) :
    Decidable (dag.OverlapDep id dep) :=
  inferInstanceAs (Decidable (dag.config.inferFileOverlap = true ∧ dep < id ∧
    ∃ task, dag.tasks[id]? = some task ∧
      ∃ depTask, dag.tasks[dep]? = some depTask ∧
        ∃ file ∈ task.files, file ∈ depTask.files))

theorem tasksForPlan_eq_none_iff (dag : UnifiedTaskDag) (plan : String) :
    tasksForPlan dag.tasks plan = none ↔ ¬ dag.HasPlan plan := by
  unfold tasksForPlan HasPlan
  simp [List.filter_eq_nil_iff]

theorem mem_tasksForPlan {dag : UnifiedTaskDag} {plan : String}
    {ids : List GlobalTaskId} (found : tasksForPlan dag.tasks plan = some ids)
    (id : GlobalTaskId) : id ∈ ids ↔ id ∈ dag.tasks ∧ id.plan = plan := by
  unfold tasksForPlan at found
  simp only [Option.ite_none_left_eq_some, Option.some.injEq] at found
  rw [← found.2, List.mem_filter, Std.ExtTreeMap.mem_keys, beq_iff_eq]

/-- The prefixes that `inits` pairs with the elements of a list. -/
theorem mem_zip_inits {ordered before : List GlobalTaskId} {id : GlobalTaskId} :
    (id, before) ∈ ordered.zip ordered.inits ↔
      ∃ after, ordered = before ++ id :: after := by
  induction ordered generalizing before with
  | nil => simp
  | cons head ordered ih =>
      cases before with
      | nil => simp [List.inits, List.zip_map_right, eq_comm]
      | cons first before =>
          have shifted : (id, first :: before) ∈
              (head :: ordered).zip (head :: ordered).inits ↔
                first = head ∧ (id, before) ∈ ordered.zip ordered.inits := by
            simp [List.inits, List.zip_map_right]
            grind
          rw [shifted, ih]
          simp [eq_comm]

/-- In a sorted list the pairs of an element and a member of its prefix are the
pairs of a larger and a smaller member. -/
theorem exists_mem_zip_inits {ordered : List GlobalTaskId}
    (sorted : ordered.Pairwise (· < ·)) {adds : GlobalTaskId → GlobalTaskId → Prop} :
    (∃ pair ∈ ordered.zip ordered.inits, ∃ dep ∈ pair.2, adds pair.1 dep) ↔
      ∃ id ∈ ordered, ∃ dep ∈ ordered, dep < id ∧ adds id dep := by
  constructor
  · rintro ⟨⟨id, before⟩, paired, dep, member, added⟩
    obtain ⟨after, rfl⟩ := mem_zip_inits.mp paired
    have smaller := (List.pairwise_append.mp sorted).2.2 dep member id
      List.mem_cons_self
    exact ⟨id, by simp, dep, by simp [member], smaller, added⟩
  · rintro ⟨id, idMember, dep, depMember, smaller, added⟩
    obtain ⟨before, after, rfl⟩ := List.append_of_mem idMember
    refine ⟨(id, before), mem_zip_inits.mpr ⟨after, rfl⟩, dep, ?_, added⟩
    have later := (List.pairwise_cons.mp (List.pairwise_append.mp sorted).2.1).1
    rcases List.mem_append.mp depMember with early | late
    · exact early
    · rcases List.mem_cons.mp late with rfl | after
      · exact absurd smaller (lt_irrefl dep)
      · exact absurd smaller (later dep after).asymm

theorem sorted_toList (ids : Std.ExtTreeSet GlobalTaskId) :
    ids.toList.Pairwise (· < ·) :=
  Std.ExtTreeSet.ordered_toList.imp fun less => compare_lt_iff_lt.mp less

theorem nodup_toList (ids : Std.ExtTreeSet GlobalTaskId) : ids.toList.Nodup :=
  (sorted_toList ids).imp fun less => less.ne

theorem has_tasksByFile (dag : UnifiedTaskDag) (file : String)
    (id : GlobalTaskId) :
    (tasksByFile dag.tasks).Has file id ↔
      ∃ task, dag.tasks[id]? = some task ∧ file ∈ task.files := by
  unfold tasksByFile
  rw [FallibleSteps.foldl_adds_iff
    (fun map : SetMap String GlobalTaskId => map.Has file id)
    fun entry => file ∈ entry.2.files ∧ id = entry.1]
  · simp only [Prod.exists, Std.ExtTreeMap.mem_toList_iff_getElem?_eq_some]
    simp only [SetMap.Has, Std.ExtTreeMap.getElem?_empty]
    grind
  · intro byFile entry _
    rw [FallibleSteps.foldl_adds_iff
      (fun map : SetMap String GlobalTaskId => map.Has file id)
      fun item => file = item ∧ id = entry.1]
    · grind
    · exact fun map item _ => SetMap.has_insertAt map item file entry.1 id

theorem addDeclaredDep_ok_iff (nodes : List GlobalTaskId) (id : GlobalTaskId)
    (edges : SetMap GlobalTaskId GlobalTaskId) (raw : String) :
    (addDeclaredDep nodes id edges raw).2 = .ok () ↔
      resolveDepRef id.plan raw ∈ nodes := by
  unfold addDeclaredDep
  by_cases known : resolveDepRef id.plan raw ∈ nodes <;> simp [known]

theorem indexTask_ok_iff (nodes : List GlobalTaskId)
    (indexes : SetMap GlobalTaskId GlobalTaskId ×
      Std.ExtTreeMap GlobalTaskId UInt32) (entry : GlobalTaskId × Task) :
    (indexTask nodes indexes entry).2 = .ok () ↔
      ∀ raw ∈ entry.2.dependsOn, resolveDepRef entry.1.plan raw ∈ nodes :=
  FallibleSteps.forEach_ok_iff _ (addDeclaredDep_ok_iff nodes entry.1) _ _

theorem addPlanDep_ok_iff (dag : UnifiedTaskDag) (planTasks : List GlobalTaskId)
    (edges : SetMap GlobalTaskId GlobalTaskId) (depPlan : String) :
    (addPlanDep dag.tasks planTasks edges depPlan).2 = .ok () ↔
      dag.HasPlan depPlan := by
  have unknown := dag.tasksForPlan_eq_none_iff depPlan
  unfold addPlanDep
  cases found : tasksForPlan dag.tasks depPlan with
  | none => simpa [found] using unknown
  | some depTasks => simpa [found] using unknown

theorem addPlanDeps_ok_iff (dag : UnifiedTaskDag)
    (edges : SetMap GlobalTaskId GlobalTaskId)
    (entry : String × Std.ExtTreeSet String) :
    (addPlanDeps dag.tasks edges entry).2 = .ok () ↔
      dag.HasPlan entry.1 ∧ ∀ dep ∈ entry.2, dag.HasPlan dep := by
  have unknown := dag.tasksForPlan_eq_none_iff entry.1
  unfold addPlanDeps
  cases found : tasksForPlan dag.tasks entry.1 with
  | none =>
      rw [found] at unknown
      simp [unknown.mp rfl]
  | some planTasks =>
      have known : dag.HasPlan entry.1 := by
        simpa [found] using unknown
      dsimp only
      rw [FallibleSteps.forEach_ok_iff _ (dag.addPlanDep_ok_iff planTasks)]
      simp [known]

/-! ### What the loops add

Each loop only calls `insertAt`.  For a fact about the edge map that an
insertion of `dep` under `id` makes true when `adds id dep` holds, the lemmas
below say when the loop makes it true.  They are used for the pairs and for the
keys of the map.
-/

section Adds

variable {holds : SetMap GlobalTaskId GlobalTaskId → Prop}
  {adds : GlobalTaskId → GlobalTaskId → Prop}
  (holds_insertAt : ∀ edges id dep,
    holds (edges.insertAt id dep) ↔ holds edges ∨ adds id dep)

include holds_insertAt

theorem holds_indexTask {nodes : List GlobalTaskId}
    {indexes : SetMap GlobalTaskId GlobalTaskId ×
      Std.ExtTreeMap GlobalTaskId UInt32} {entry : GlobalTaskId × Task}
    (indexed : (indexTask nodes indexes entry).2 = .ok ()) :
    holds (indexTask nodes indexes entry).1.1 ↔ holds indexes.1 ∨
      ∃ raw ∈ entry.2.dependsOn,
        adds entry.1 (resolveDepRef entry.1.plan raw) := by
  have known := (indexTask_ok_iff nodes indexes entry).mp indexed
  have folded : (indexTask nodes indexes entry).1.1 = _ :=
    FallibleSteps.forEach_eq_foldl indexed
  rw [folded]
  apply FallibleSteps.foldl_adds_iff
  intro edges raw member
  simp only [addDeclaredDep, List.contains_iff_mem, known raw member,
    ↓reduceIte]
  exact holds_insertAt edges _ _

theorem holds_addAllDeps (ids depIds : List GlobalTaskId)
    (edges : SetMap GlobalTaskId GlobalTaskId) :
    holds (addAllDeps ids depIds edges) ↔ holds edges ∨
      ∃ id ∈ ids, ∃ dep ∈ depIds, adds id dep := by
  apply FallibleSteps.foldl_adds_iff
  intro edges id _
  apply FallibleSteps.foldl_adds_iff
  exact fun edges dep _ => holds_insertAt edges id dep

theorem holds_addPlanDeps {dag : UnifiedTaskDag}
    {edges : SetMap GlobalTaskId GlobalTaskId}
    {entry : String × Std.ExtTreeSet String}
    (added : (addPlanDeps dag.tasks edges entry).2 = .ok ()) :
    holds (addPlanDeps dag.tasks edges entry).1 ↔ holds edges ∨
      ∃ id ∈ dag.tasks, ∃ dep ∈ dag.tasks,
        (id.plan = entry.1 ∧ dep.plan ∈ entry.2) ∧ adds id dep := by
  have plans := ((addPlanDeps_ok_iff dag edges entry).mp added).2
  unfold addPlanDeps at added ⊢
  cases found : tasksForPlan dag.tasks entry.1 with
  | none => simp [found] at added
  | some planTasks =>
      simp only [found] at added ⊢
      rw [FallibleSteps.forEach_eq_foldl added,
        FallibleSteps.foldl_adds_iff holds fun depPlan =>
          ∃ id ∈ planTasks, ∃ dep ∈ dag.tasks, dep.plan = depPlan ∧ adds id dep]
      · simp only [mem_tasksForPlan found, Std.ExtTreeSet.mem_toList]
        grind
      · intro edges depPlan member
        have known := plans depPlan (Std.ExtTreeSet.mem_toList.mp member)
        cases foundDep : tasksForPlan dag.tasks depPlan with
        | none => exact absurd known ((tasksForPlan_eq_none_iff _ _).mp foundDep)
        | some depTasks =>
            simp only [addPlanDep, foundDep]
            rw [holds_addAllDeps holds_insertAt]
            simp only [mem_tasksForPlan foundDep]
            grind

theorem holds_addOverlapDeps {ordered : List GlobalTaskId}
    (sorted : ordered.Pairwise (· < ·))
    (edges : SetMap GlobalTaskId GlobalTaskId) :
    holds (addOverlapDeps edges ordered) ↔ holds edges ∨
      ∃ id ∈ ordered, ∃ dep ∈ ordered, dep < id ∧ adds id dep := by
  rw [← exists_mem_zip_inits sorted]
  apply FallibleSteps.foldl_adds_iff
  rintro edges ⟨id, before⟩ paired
  apply FallibleSteps.foldl_adds_iff
  intro edges dep member
  obtain ⟨after, split⟩ := mem_zip_inits.mp paired
  rw [split] at sorted
  have distinct : id ≠ dep :=
    ((List.pairwise_append.mp sorted).2.2 dep member id List.mem_cons_self).ne'
  rw [if_pos distinct]
  exact holds_insertAt edges id dep

theorem holds_addFileOverlaps (dag : UnifiedTaskDag)
    (edges : SetMap GlobalTaskId GlobalTaskId) :
    holds (addFileOverlaps dag.tasks edges) ↔ holds edges ∨
      ∃ id dep, (dep < id ∧
        ∃ task, dag.tasks[id]? = some task ∧
          ∃ depTask, dag.tasks[dep]? = some depTask ∧
            ∃ file ∈ task.files, file ∈ depTask.files) ∧ adds id dep := by
  unfold addFileOverlaps
  rw [FallibleSteps.foldl_adds_iff holds fun entry =>
    ∃ id ∈ entry.2, ∃ dep ∈ entry.2, dep < id ∧ adds id dep]
  · apply or_congr_right
    constructor
    · rintro ⟨⟨file, sharers⟩, listed, id, idShares, dep, depShares, less, added⟩
      have found := Std.ExtTreeMap.mem_toList_iff_getElem?_eq_some.mp listed
      obtain ⟨task, taskFound, touches⟩ :=
        (has_tasksByFile dag file id).mp ⟨sharers, found, idShares⟩
      obtain ⟨depTask, depFound, depTouches⟩ :=
        (has_tasksByFile dag file dep).mp ⟨sharers, found, depShares⟩
      exact ⟨id, dep, ⟨less, task, taskFound, depTask, depFound, file, touches,
        depTouches⟩, added⟩
    · rintro ⟨id, dep, ⟨less, task, taskFound, depTask, depFound, file, touches,
        depTouches⟩, added⟩
      obtain ⟨sharers, found, idShares⟩ :=
        (has_tasksByFile dag file id).mpr ⟨task, taskFound, touches⟩
      have depShares : dep ∈ sharers := by
        have shares := (has_tasksByFile dag file dep).mpr
          ⟨depTask, depFound, depTouches⟩
        simpa [SetMap.Has, found] using shares
      exact ⟨(file, sharers),
        Std.ExtTreeMap.mem_toList_iff_getElem?_eq_some.mpr found,
        id, idShares, dep, depShares, less, added⟩
  · intro edges entry _
    rw [holds_addOverlapDeps holds_insertAt (sorted_toList entry.2)]
    simp

end Adds

theorem declaredIndexes_ok_iff (dag : UnifiedTaskDag) :
    dag.declaredIndexes.2 = .ok () ↔
      ∀ (id : GlobalTaskId) (task : Task), dag.tasks[id]? = some task →
        ∀ raw ∈ task.dependsOn, resolveDepRef id.plan raw ∈ dag.tasks := by
  unfold declaredIndexes
  rw [FallibleSteps.forEach_ok_iff _ (indexTask_ok_iff dag.tasks.keys)]
  simp only [Prod.forall, Std.ExtTreeMap.mem_toList_iff_getElem?_eq_some,
    Std.ExtTreeMap.mem_keys]

theorem planEdges_ok_iff (dag : UnifiedTaskDag)
    (edges : SetMap GlobalTaskId GlobalTaskId) :
    (dag.planEdges edges).2 = .ok () ↔
      ∀ (plan : String) (deps : Std.ExtTreeSet String),
        dag.planDeps[plan]? = some deps →
          dag.HasPlan plan ∧ ∀ dep ∈ deps, dag.HasPlan dep := by
  unfold planEdges
  rw [FallibleSteps.forEach_ok_iff _ (addPlanDeps_ok_iff dag)]
  simp only [Prod.forall, Std.ExtTreeMap.mem_toList_iff_getElem?_eq_some]

theorem rebuildIndexes_ok_iff (dag : UnifiedTaskDag) :
    (rebuildIndexes dag).2 = .ok () ↔ dag.Resolvable := by
  have declared := dag.declaredIndexes_ok_iff
  have plans := dag.planEdges_ok_iff
  have parts : dag.Resolvable ↔ dag.declaredIndexes.2 = .ok () ∧
      (dag.planEdges dag.declaredIndexes.1.1).2 = .ok () := by
    rw [declared, plans]
    exact ⟨fun resolvable => ⟨resolvable.declared, resolvable.plans⟩,
      fun both => ⟨both.1, both.2⟩⟩
  rw [parts]
  unfold rebuildIndexes
  split
  case h_1 indexed => simp [indexed]
  case h_2 edges estimates indexed =>
    rw [indexed]
    split
    case h_1 planned => simp [planned]
    case h_2 planned => simp [planned]

/-- The three sources of edges, one after the other. -/
theorem rebuildIndexes_of_ok {dag : UnifiedTaskDag}
    (rebuilt : (rebuildIndexes dag).2 = .ok ()) :
    (rebuildIndexes dag).1 = { dag with
      nodes := dag.tasks.keys
      edges := (rebuildIndexes dag).1.edges
      reverseEdges := SetMap.insertInverse (SetMap.emptyAt dag.tasks.keys)
        (rebuildIndexes dag).1.edges
      estimates := dag.declaredIndexes.1.2 } ∧
    (rebuildIndexes dag).1.edges =
      if dag.config.inferFileOverlap then
        addFileOverlaps dag.tasks (dag.planEdges dag.declaredIndexes.1.1).1
      else (dag.planEdges dag.declaredIndexes.1.1).1 := by
  unfold rebuildIndexes at rebuilt ⊢
  split at rebuilt
  case h_1 => cases rebuilt
  case h_2 edges estimates indexed =>
    split at rebuilt
    case h_1 => cases rebuilt
    case h_2 planned => simp [indexed, planned]

section Rebuilt

variable {dag : UnifiedTaskDag} (rebuilt : (rebuildIndexes dag).2 = .ok ())

include rebuilt

theorem holds_rebuildIndexes
    (holds : SetMap GlobalTaskId GlobalTaskId → Prop)
    {adds : GlobalTaskId → GlobalTaskId → Prop}
    (holds_insertAt : ∀ edges id dep,
      holds (edges.insertAt id dep) ↔ holds edges ∨ adds id dep) :
    holds (rebuildIndexes dag).1.edges ↔
      holds (SetMap.emptyAt dag.tasks.keys) ∨
        ∃ id dep, dag.Requires id dep ∧ adds id dep := by
  have resolvable := dag.rebuildIndexes_ok_iff.mp rebuilt
  have declaredOk := dag.declaredIndexes_ok_iff.mpr resolvable.declared
  have plansOk := (dag.planEdges_ok_iff dag.declaredIndexes.1.1).mpr
    resolvable.plans
  have declared : holds dag.declaredIndexes.1.1 ↔
      holds (SetMap.emptyAt dag.tasks.keys) ∨
        ∃ id dep, dag.DeclaredDep id dep ∧ adds id dep := by
    unfold declaredIndexes at declaredOk ⊢
    rw [FallibleSteps.forEach_eq_foldl declaredOk]
    refine (FallibleSteps.foldl_adds_iff
      (fun indexes : SetMap GlobalTaskId GlobalTaskId ×
        Std.ExtTreeMap GlobalTaskId UInt32 => holds indexes.1)
      (fun entry : GlobalTaskId × Task => ∃ raw ∈ entry.2.dependsOn,
        adds entry.1 (resolveDepRef entry.1.plan raw)) ?_ _).trans ?_
    · intro indexes entry listed
      apply holds_indexTask holds_insertAt
      rw [indexTask_ok_iff]
      intro raw member
      rw [Std.ExtTreeMap.mem_keys]
      exact resolvable.declared entry.1 entry.2
        (Std.ExtTreeMap.mem_toList_iff_getElem?_eq_some.mp listed) raw member
    · simp only [Prod.exists, Std.ExtTreeMap.mem_toList_iff_getElem?_eq_some,
        DeclaredDep]
      grind
  have planned : holds (dag.planEdges dag.declaredIndexes.1.1).1 ↔
      holds dag.declaredIndexes.1.1 ∨
        ∃ id dep, dag.PlanDep id dep ∧ adds id dep := by
    unfold planEdges at plansOk ⊢
    rw [FallibleSteps.forEach_eq_foldl plansOk,
      FallibleSteps.foldl_adds_iff holds fun entry =>
        ∃ id ∈ dag.tasks, ∃ dep ∈ dag.tasks,
          (id.plan = entry.1 ∧ dep.plan ∈ entry.2) ∧ adds id dep]
    · simp only [Prod.exists, Std.ExtTreeMap.mem_toList_iff_getElem?_eq_some,
        PlanDep, SetMap.Has]
      grind
    · intro edges entry listed
      apply holds_addPlanDeps holds_insertAt
      rw [addPlanDeps_ok_iff]
      exact resolvable.plans entry.1 entry.2
        (Std.ExtTreeMap.mem_toList_iff_getElem?_eq_some.mp listed)
  rw [(rebuildIndexes_of_ok rebuilt).2]
  by_cases infers : dag.config.inferFileOverlap = true
  · rw [if_pos infers, holds_addFileOverlaps holds_insertAt, planned, declared]
    simp only [Requires, OverlapDep, infers]
    grind
  · rw [if_neg infers, planned, declared]
    simp only [Requires, OverlapDep, infers]
    grind

/-- The edge map of a successful rebuild is the relation `Requires`. -/
theorem has_rebuildIndexes (id dep : GlobalTaskId) :
    (rebuildIndexes dag).1.edges.Has id dep ↔ dag.Requires id dep := by
  rw [holds_rebuildIndexes rebuilt (fun edges => edges.Has id dep)
    (fun edges other stored => SetMap.has_insertAt edges other id stored dep)]
  have none := SetMap.not_has_emptyAt dag.tasks.keys id dep
  simp [none]

theorem frame_rebuildIndexes :
    (rebuildIndexes dag).1.tasks = dag.tasks ∧
      (rebuildIndexes dag).1.planDeps = dag.planDeps ∧
      (rebuildIndexes dag).1.config = dag.config := by
  rw [(rebuildIndexes_of_ok rebuilt).1]
  exact ⟨rfl, rfl, rfl⟩

/-- Both ends of a required dependency are tasks. -/
theorem mem_tasks_of_requires {id dep : GlobalTaskId}
    (requires : dag.Requires id dep) : id ∈ dag.tasks ∧ dep ∈ dag.tasks := by
  have resolvable := dag.rebuildIndexes_ok_iff.mp rebuilt
  rcases requires with ⟨task, found, raw, member, rfl⟩ | planDep |
      ⟨-, -, task, found, depTask, depFound, -⟩
  · exact ⟨mem_tasks_iff.mpr ⟨task, found⟩,
      resolvable.declared id task found raw member⟩
  · exact planDep.2
  · exact ⟨mem_tasks_iff.mpr ⟨task, found⟩, mem_tasks_iff.mpr ⟨depTask, depFound⟩⟩

theorem indexed_rebuildIndexes : (rebuildIndexes dag).1.Indexed := by
  have has := has_rebuildIndexes rebuilt
  have ends : ∀ id dep, (rebuildIndexes dag).1.edges.Has id dep →
      id ∈ dag.tasks ∧ dep ∈ dag.tasks :=
    fun id dep edge => mem_tasks_of_requires rebuilt ((has id dep).mp edge)
  obtain ⟨sameTasks, -, -⟩ := frame_rebuildIndexes rebuilt
  have shape := (rebuildIndexes_of_ok rebuilt).1
  have nodes : (rebuildIndexes dag).1.nodes = dag.tasks.keys := by rw [shape]
  have reverse : (rebuildIndexes dag).1.reverseEdges = SetMap.insertInverse
      (SetMap.emptyAt dag.tasks.keys) (rebuildIndexes dag).1.edges := by
    rw [shape]
  constructor
  case sorted =>
    rw [nodes]
    exact Std.ExtTreeMap.ordered_keys.imp fun less => compare_lt_iff_lt.mp less
  case mem_nodes =>
    intro id
    rw [nodes, sameTasks, Std.ExtTreeMap.mem_keys]
  case mem_edges =>
    intro id
    rw [sameTasks, holds_rebuildIndexes rebuilt (fun edges => id ∈ edges)
      (fun edges other stored => SetMap.mem_insertAt edges other id stored),
      SetMap.mem_emptyAt, Std.ExtTreeMap.mem_keys]
    constructor
    · rintro (listed | ⟨other, dep, requires, rfl⟩)
      · exact listed
      · exact (mem_tasks_of_requires rebuilt requires).1
    · exact Or.inl
  case mem_reverseEdges =>
    intro id
    rw [sameTasks, reverse, SetMap.mem_insertInverse, SetMap.mem_emptyAt,
      Std.ExtTreeMap.mem_keys]
    constructor
    · rintro (listed | ⟨other, edge⟩)
      · exact listed
      · exact (ends other id edge).2
    · exact Or.inl
  case reversed =>
    intro id dep
    have none := SetMap.not_has_emptyAt dag.tasks.keys dep id
    rw [reverse, SetMap.has_insertInverse]
    simp [none]
  case endpoints =>
    intro id dep edge
    rw [sameTasks]
    exact ends id dep edge

end Rebuilt

end UnifiedTaskDag

end Roko
