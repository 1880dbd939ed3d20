import Roko.TaskDagAcceptance
import Roko.TaskDagBuild

/-!
# Mutating a culled graph

`cull` keeps what the targets transitively depend on and patches the indexes, but not
the plan-level dependencies.  A later rebuild looks for a task of every plan that these
name, so it fails when the cull has removed the last one.
-/

namespace Roko

namespace UnifiedTaskDag

/-- The task is one that the target names. -/
def Resolves (dag : UnifiedTaskDag) (target : String) (id : GlobalTaskId) : Prop :=
  match GlobalTaskId.parse target with
  | some named => named ∈ dag.tasks ∧ id = named
  | none => id ∈ dag.nodes ∧ id.task = target

/-- The task is a resolved target or something that one transitively depends on. -/
def IsNeeded (dag : UnifiedTaskDag) (targets : List String) (id : GlobalTaskId) : Prop :=
  ∃ target ∈ targets, ∃ root, dag.Resolves target root ∧
    Relation.ReflTransGen dag.edges.Has root id

/-- The cull keeps what is needed, counts the rest, keeps the dependencies, and leaves
a graph that can be rebuilt and mutated. -/
structure CullLawful (dag : UnifiedTaskDag) (targets : List String) : Prop where
  kept : ∀ id task, (dag.cull targets).1.tasks[id]? = some task ↔
    dag.tasks[id]? = some task ∧ dag.IsNeeded targets id
  count : (dag.cull targets).2 =
    (dag.nodes.filter fun id => !(dag.cull targets).1.tasks.contains id).length
  edges : ∀ id dep, (dag.cull targets).1.edges.Has id dep ↔
    dag.edges.Has id dep ∧ id ∈ (dag.cull targets).1.tasks ∧
      dep ∈ (dag.cull targets).1.tasks
  rebuilds : (rebuildIndexes (dag.cull targets).1).2 = .ok ()
  reproduces : ∀ id dep, (rebuildIndexes (dag.cull targets).1).1.edges.Has id dep ↔
    (dag.cull targets).1.edges.Has id dep
  updates : ∀ id current task, (dag.cull targets).1.tasks[id]? = some current →
    current.status ≠ .done → task.id = id.task → task.files = current.files →
    ((dag.cull targets).1.applyMutation (.updateTaskMetadata id task)).2 = .ok ()

variable {dag : UnifiedTaskDag} {targets : List String}

theorem mem_needTarget (found : List GlobalTaskId × Std.ExtTreeSet GlobalTaskId)
    (target : String) (id : GlobalTaskId) :
    id ∈ (dag.needTarget found target).2 ↔ id ∈ found.2 ∨ dag.Resolves target id := by
  unfold needTarget Resolves
  cases parsed : GlobalTaskId.parse target with
  | some named =>
      dsimp only
      split
      case isTrue known =>
        rw [(mem_need found named id).2]
        simp [Std.ExtTreeMap.contains_iff_mem.mp known]
      case isFalse unknown =>
        have absent : named ∉ dag.tasks := fun known =>
          unknown (Std.ExtTreeMap.contains_iff_mem.mpr known)
        simp [absent]
  | none =>
      refine (FallibleSteps.foldl_adds_iff
        (fun found : List GlobalTaskId × Std.ExtTreeSet GlobalTaskId => id ∈ found.2)
        (fun node : GlobalTaskId => node.task = target ∧ id = node) ?_ found).trans ?_
      · intro found node _
        split
        case isTrue same => simp [(mem_need found node id).2, beq_iff_eq.mp same]
        case isFalse other => simp [show node.task ≠ target by simpa using other]
      · grind

theorem mem_foldl_needTarget (targets : List String) (id : GlobalTaskId) :
    id ∈ (targets.foldl dag.needTarget ([], ∅)).2 ↔
      ∃ target ∈ targets, dag.Resolves target id := by
  refine (FallibleSteps.foldl_adds_iff
    (fun found : List GlobalTaskId × Std.ExtTreeSet GlobalTaskId => id ∈ found.2)
    (fun target => dag.Resolves target id)
    (fun found target _ => mem_needTarget found target id) ([], ∅)).trans ?_
  simp

/-- What is needed stays needed, and only dependencies are added. -/
theorem mem_needDeps (consistent : dag.Consistent) (holds : GlobalTaskId → Prop)
    (downward : ∀ id dep, holds id → dag.edges.Has id dep → holds dep) (fuel : Nat)
    {found : List GlobalTaskId × Std.ExtTreeSet GlobalTaskId}
    (queued : ∀ id ∈ found.1, holds id) (needed : ∀ id ∈ found.2, holds id) :
    (∀ id ∈ found.2, id ∈ dag.needDeps fuel found) ∧
      ∀ id ∈ dag.needDeps fuel found, holds id := by
  obtain ⟨queue, seen⟩ := found
  induction fuel generalizing queue seen with
  | zero => exact ⟨fun id member => member, needed⟩
  | succ fuel ih =>
      cases queue with
      | nil => exact ⟨fun id member => member, needed⟩
      | cons node queue =>
          have depListed : ∀ other ∈ (dag.depsOf node).toList, other ∈ dag.nodes := by
            intro other member
            rw [Std.ExtTreeSet.mem_toList, mem_depsOf] at member
            exact (consistent.mem_nodes other).mpr
              (consistent.endpoints node other member).2
          have depHolds : ∀ other ∈ (dag.depsOf node).toList, holds other := by
            intro other member
            rw [Std.ExtTreeSet.mem_toList, mem_depsOf] at member
            exact downward node other (queued node List.mem_cons_self) member
          obtain ⟨union, -, sources, -, -⟩ := needDep_foldl depListed (queue, seen)
          obtain ⟨stays, sound⟩ := ih
            ((dag.depsOf node).toList.foldl needDep (queue, seen)).1
            ((dag.depsOf node).toList.foldl needDep (queue, seen)).2
            (by
              intro other member
              rcases sources other member with before | after
              · exact queued other (List.mem_cons_of_mem _ before)
              · exact depHolds other after)
            (by
              intro other member
              rcases (union other).mp member with before | after
              · exact needed other before
              · exact depHolds other after)
          refine ⟨fun id member => ?_, sound⟩
          exact stays id ((union id).mpr (Or.inl member))

theorem mem_neededFor_iff (consistent : dag.Consistent) (id : GlobalTaskId) :
    id ∈ dag.neededFor targets ↔ dag.IsNeeded targets id := by
  have targeted : dag.Targeted (targets.foldl dag.needTarget ([], ∅)) :=
    targeted_foldl targets
      (fun _ target _ found => targeted_needTarget consistent.toIndexed found target)
      ⟨by simp, by simp⟩
  have roots : ∀ root ∈ (targets.foldl dag.needTarget ([], ∅)).2,
      dag.IsNeeded targets root := by
    intro root member
    obtain ⟨target, listed, resolved⟩ := (mem_foldl_needTarget targets root).mp member
    exact ⟨target, listed, root, resolved, .refl⟩
  obtain ⟨stays, sound⟩ := mem_needDeps consistent (dag.IsNeeded targets)
    (fun id dep needed edge => by
      obtain ⟨target, listed, root, resolved, path⟩ := needed
      exact ⟨target, listed, root, resolved, path.tail edge⟩)
    ((targets.foldl dag.needTarget ([], ∅)).1.length + dag.nodes.length)
    (fun root member => roots root ((targeted.queued root).mp member)) roots
  constructor
  · exact sound id
  · rintro ⟨target, listed, root, resolved, path⟩
    induction path with
    | refl => exact stays root ((mem_foldl_needTarget targets root).mpr
        ⟨target, listed, resolved⟩)
    | tail _ edge ih => exact closed_neededFor consistent ih edge

theorem mem_of_isNeeded (consistent : dag.Consistent) {id : GlobalTaskId}
    (needed : dag.IsNeeded targets id) : id ∈ dag.tasks := by
  obtain ⟨target, -, root, resolved, path⟩ := needed
  cases path with
  | refl =>
      unfold Resolves at resolved
      split at resolved
      · rw [resolved.2]
        exact resolved.1
      · exact (consistent.mem_nodes id).mp resolved.1
  | tail _ edge => exact (consistent.endpoints _ id edge).2

theorem getElem?_cull (consistent : dag.Consistent) (id : GlobalTaskId) (task : Task) :
    (dag.cull targets).1.tasks[id]? = some task ↔
      dag.tasks[id]? = some task ∧ dag.IsNeeded targets id := by
  have listed : dag.tasks[id]? = some task → id ∈ dag.nodes := fun found =>
    (consistent.mem_nodes id).mpr (mem_tasks_iff.mpr ⟨task, found⟩)
  rw [← mem_neededFor_iff consistent]
  unfold cull
  dsimp only
  split
  case isTrue none =>
    refine ⟨fun found => ⟨found, ?_⟩, And.left⟩
    have kept := List.filter_eq_nil_iff.mp (List.eq_nil_of_length_eq_zero none) id
      (listed found)
    simpa using kept
  case isFalse some =>
    rw [getElem?_foldl_erase, Option.ite_none_left_eq_some, and_comm]
    apply and_congr_right
    intro found
    simp [listed found]

theorem mem_cull (consistent : dag.Consistent) (id : GlobalTaskId) :
    id ∈ (dag.cull targets).1.tasks ↔ dag.IsNeeded targets id := by
  rw [mem_tasks_iff]
  simp only [getElem?_cull consistent]
  constructor
  · rintro ⟨task, -, needed⟩
    exact needed
  · intro needed
    obtain ⟨task, found⟩ := mem_tasks_iff.mp (mem_of_isNeeded consistent needed)
    exact ⟨task, found, needed⟩

theorem frame_cull (dag : UnifiedTaskDag) (targets : List String) :
    (dag.cull targets).1.planDeps = dag.planDeps ∧
      (dag.cull targets).1.config = dag.config := by
  unfold cull
  dsimp only
  split <;> exact ⟨rfl, rfl⟩

theorem count_cull (consistent : dag.Consistent) :
    (dag.cull targets).2 =
      (dag.nodes.filter fun id => !(dag.cull targets).1.tasks.contains id).length := by
  have removed : (dag.nodes.filter fun id => !(dag.cull targets).1.tasks.contains id) =
      dag.nodes.filter fun id => !(dag.neededFor targets).contains id := by
    apply List.filter_congr
    intro id _
    congr 1
    rw [Bool.eq_iff_iff, Std.ExtTreeMap.contains_iff_mem, Std.ExtTreeSet.contains_iff_mem,
      mem_cull consistent, mem_neededFor_iff consistent]
  rw [removed]
  unfold cull
  dsimp only
  split
  case isTrue none => exact none.symm
  case isFalse => rfl

theorem has_cull (consistent : dag.Consistent) (id dep : GlobalTaskId) :
    (dag.cull targets).1.edges.Has id dep ↔
      dag.edges.Has id dep ∧ id ∈ (dag.cull targets).1.tasks ∧
        dep ∈ (dag.cull targets).1.tasks := by
  rw [mem_cull consistent, mem_cull consistent, ← mem_neededFor_iff consistent,
    ← mem_neededFor_iff consistent]
  have ends : dag.edges.Has id dep → id ∈ dag.nodes ∧ dep ∈ dag.nodes := fun edge =>
    ⟨(consistent.mem_nodes id).mpr (consistent.endpoints id dep edge).1,
      (consistent.mem_nodes dep).mpr (consistent.endpoints id dep edge).2⟩
  unfold cull
  dsimp only
  split
  case isTrue none =>
    have kept := List.filter_eq_nil_iff.mp (List.eq_nil_of_length_eq_zero none)
    refine ⟨fun edge => ⟨edge, ?_, ?_⟩, And.left⟩
    · simpa using kept id (ends edge).1
    · simpa using kept dep (ends edge).2
  case isFalse some =>
    rw [has_patchEdges]
    apply and_congr_right
    intro edge
    simp [ends edge]

/-- The references of a well-formed graph resolve; only a plan can be missing. -/
theorem WellFormed.resolvable_iff (wellFormed : dag.WellFormed) :
    dag.Resolvable ↔ ∀ plan, MentionsPlan dag.planDeps plan → dag.HasPlan plan := by
  constructor
  · exact fun resolvable => (forall_entries_iff _).mp resolvable.plans
  · refine fun plans => ⟨?_, (forall_entries_iff _).mpr plans⟩
    intro id task found raw member
    have declared : dag.Requires id (resolveDepRef id.plan raw) :=
      Or.inl ⟨task, found, raw, member, rfl⟩
    exact (wellFormed.endpoints id _ ((wellFormed.represents id _).mpr declared)).2

theorem editTasks_updateTaskMetadata {id : GlobalTaskId} {current task : Task}
    (found : dag.tasks[id]? = some current) (open' : current.status ≠ .done)
    (sameId : task.id = id.task) :
    dag.editTasks (.updateTaskMetadata id task) =
      .ok (dag.tasks.insert id { task with dependsOn := current.dependsOn }) := by
  unfold editTasks ensureMutable
  simp [found, open', sameId, bind, Except.bind, pure, Except.pure]

theorem alike_insert {id : GlobalTaskId} {current task : Task}
    (found : dag.tasks[id]? = some current) (files : task.files = current.files) :
    Alike dag.tasks (dag.tasks.insert id { task with dependsOn := current.dependsOn }) := by
  intro other
  rw [Std.ExtTreeMap.getElem?_insert]
  by_cases same : id = other
  · subst same
    simp [found, files]
  · simp [same]

/-- A cull keeps its promises exactly when every plan that the plan-level dependencies
name has a task among those that are needed. -/
theorem cullLawful_iff (wellFormed : dag.WellFormed) :
    CullLawful dag targets ↔
      ∀ plan, MentionsPlan dag.planDeps plan →
        ∃ id, dag.IsNeeded targets id ∧ id.plan = plan := by
  have culled := wellFormed_cull wellFormed targets
  have resolvableIff := culled.resolvable_iff
  rw [(frame_cull dag targets).1] at resolvableIff
  have hasPlan : ∀ plan, (dag.cull targets).1.HasPlan plan ↔
      ∃ id, dag.IsNeeded targets id ∧ id.plan = plan := by
    intro plan
    unfold HasPlan
    simp only [mem_cull wellFormed.toConsistent]
  simp only [hasPlan] at resolvableIff
  rw [← resolvableIff]
  constructor
  · exact fun lawful => (rebuildIndexes_ok_iff _).mp lawful.rebuilds
  · intro resolvable
    have rebuilt := (rebuildIndexes_ok_iff _).mpr resolvable
    constructor
    case kept => exact getElem?_cull wellFormed.toConsistent
    case count => exact count_cull wellFormed.toConsistent
    case edges => exact has_cull wellFormed.toConsistent
    case rebuilds => exact rebuilt
    case reproduces =>
      exact fun id dep => (has_rebuildIndexes rebuilt id dep).trans
        (culled.represents id dep).symm
    case updates =>
      intro id current task found open' sameId files
      exact accepted_of_alike culled resolvable
        (editTasks_updateTaskMetadata found open' sameId) (alike_insert found files)

/-- Every plan that is named has a needed task, as the code finds them. -/
def namesNeededPlans (dag : UnifiedTaskDag) (targets : List String) : Bool :=
  dag.planDeps.toList.all fun entry => (entry.1 :: entry.2.toList).all fun plan =>
    (dag.neededFor targets).toList.any fun id => id.plan == plan

theorem layeredPlans_cullLawful :
    ∃ dag : UnifiedTaskDag, build layeredPlans secondAfterFirst {} = .ok dag ∧
      CullLawful dag ["b:u2"] := by
  have ran : (build layeredPlans secondAfterFirst {}).toOption.map
      (fun dag => dag.namesNeededPlans ["b:u2"]) = some true := by
    decide +kernel
  obtain ⟨dag, built, reads⟩ := FallibleSteps.ok_of_map_toOption ran
  have wellFormed := wellFormed_build built
  refine ⟨dag, built, (cullLawful_iff wellFormed).mpr ?_⟩
  apply (forall_entries_iff fun plan =>
    ∃ id, dag.IsNeeded ["b:u2"] id ∧ id.plan = plan).mp
  intro plan deps found
  have listed := Std.ExtTreeMap.mem_toList_iff_getElem?_eq_some.mpr found
  have needed : ∀ name ∈ plan :: deps.toList,
      ∃ id, dag.IsNeeded ["b:u2"] id ∧ id.plan = name := by
    intro name member
    have here := List.all_eq_true.mp (List.all_eq_true.mp reads _ listed) name member
    obtain ⟨id, idMember, same⟩ := List.any_eq_true.mp here
    refine ⟨id, (mem_neededFor_iff wellFormed.toConsistent id).mp ?_, beq_iff_eq.mp same⟩
    exact Std.ExtTreeSet.mem_toList.mp idMember
  exact ⟨needed plan List.mem_cons_self, fun dep member => needed dep
    (List.mem_cons_of_mem _ (Std.ExtTreeSet.mem_toList.mpr member))⟩

/-- Only the first plan is needed, but the dependency of the second one on it stays. -/
theorem layeredPlans_cull_unlawful :
    ∃ dag : UnifiedTaskDag, build layeredPlans secondAfterFirst {} = .ok dag ∧
      ((dag.cull ["a:t1"]).1.applyMutation (.updateTaskMetadata ⟨"a", "t1"⟩
        { id := "t1", title := "renamed" })).2 =
        .error (.invalidMutation "unknown plan during rebuild: b") ∧
      ¬ CullLawful dag ["a:t1"] := by
  have ran : (build layeredPlans secondAfterFirst {}).toOption.map
      (fun dag => (((dag.cull ["a:t1"]).1.applyMutation (.updateTaskMetadata ⟨"a", "t1"⟩
        { id := "t1", title := "renamed" })).2,
        (rebuildIndexes (dag.cull ["a:t1"]).1).2)) =
      some (.error (.invalidMutation "unknown plan during rebuild: b"),
        .error (.unknownPlan "b")) := by
    decide +kernel
  obtain ⟨dag, built, reads⟩ := FallibleSteps.ok_of_map_toOption ran
  obtain ⟨updated, rebuilt⟩ := Prod.mk.inj reads
  refine ⟨dag, built, updated, fun lawful => ?_⟩
  rw [lawful.rebuilds] at rebuilt
  cases rebuilt

end UnifiedTaskDag

end Roko
