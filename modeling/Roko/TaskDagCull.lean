import Roko.TaskDagInvariant

/-!
# What a cull keeps

The backward search of `cull` collects a set that contains the dependencies of
all its members, so a kept task keeps all of its dependencies and the patched
indexes are again those of the remaining tasks.
-/

namespace Roko

namespace UnifiedTaskDag

/-- The indexes are consistent, and the edges are those of the task map. -/
structure WellFormed (dag : UnifiedTaskDag) : Prop extends dag.Consistent where
  represents : ∀ id dep, dag.edges.Has id dep ↔ dag.Requires id dep

/-- What the search has found so far: queued tasks are needed, needed tasks are
nodes, and the dependencies of a needed task are needed once it has left the
queue. -/
structure SearchInvariant (dag : UnifiedTaskDag)
    (found : List GlobalTaskId × Std.ExtTreeSet GlobalTaskId) : Prop where
  queued : ∀ id ∈ found.1, id ∈ found.2
  nodes : ∀ id ∈ found.2, id ∈ dag.nodes
  closed : ∀ id ∈ found.2, id ∈ found.1 ∨
    ∀ dep, dag.edges.Has id dep → dep ∈ found.2

/-- Before the search every needed task is queued. -/
structure Targeted (dag : UnifiedTaskDag)
    (found : List GlobalTaskId × Std.ExtTreeSet GlobalTaskId) : Prop where
  queued : ∀ id, id ∈ found.1 ↔ id ∈ found.2
  nodes : ∀ id ∈ found.2, id ∈ dag.nodes

/-- How many nodes have not been needed. -/
def unneeded (dag : UnifiedTaskDag) (needed : Std.ExtTreeSet GlobalTaskId) : Nat :=
  (dag.nodes.toFinset.filter fun id => id ∉ needed).card

variable {dag : UnifiedTaskDag}

theorem mem_need (found : List GlobalTaskId × Std.ExtTreeSet GlobalTaskId)
    (id other : GlobalTaskId) :
    (other ∈ (need found id).1 ↔ other ∈ found.1 ∨ other = id) ∧
      (other ∈ (need found id).2 ↔ other ∈ found.2 ∨ other = id) := by
  simp only [need, List.mem_append, List.mem_singleton, Std.ExtTreeSet.mem_insert,
    Std.LawfulEqCmp.compare_eq_iff_eq, true_and]
  rw [or_comm, eq_comm]

theorem unneeded_insert {needed : Std.ExtTreeSet GlobalTaskId}
    {id : GlobalTaskId} (listed : id ∈ dag.nodes) (fresh : id ∉ needed) :
    dag.unneeded (needed.insert id) + 1 = dag.unneeded needed := by
  unfold unneeded
  have member : id ∈ dag.nodes.toFinset.filter fun other => other ∉ needed := by
    simp [listed, fresh]
  rw [← Finset.card_erase_add_one member]
  congr 2
  ext other
  simp only [Finset.mem_filter, Finset.mem_erase, Std.ExtTreeSet.mem_insert,
    Std.LawfulEqCmp.compare_eq_iff_eq]
  grind

/-- Needing the dependencies of a task queues those that were not needed. -/
theorem needDep_foldl {deps : List GlobalTaskId}
    (listed : ∀ dep ∈ deps, dep ∈ dag.nodes)
    (found : List GlobalTaskId × Std.ExtTreeSet GlobalTaskId) :
    (∀ id, id ∈ (deps.foldl needDep found).2 ↔ id ∈ found.2 ∨ id ∈ deps) ∧
    (∀ id ∈ found.1, id ∈ (deps.foldl needDep found).1) ∧
    (∀ id ∈ (deps.foldl needDep found).1, id ∈ found.1 ∨ id ∈ deps) ∧
    (∀ id ∈ (deps.foldl needDep found).2,
      id ∈ found.2 ∨ id ∈ (deps.foldl needDep found).1) ∧
    (deps.foldl needDep found).1.length +
        dag.unneeded (deps.foldl needDep found).2 =
      found.1.length + dag.unneeded found.2 := by
  induction deps generalizing found with
  | nil => simp +contextual
  | cons dep deps ih =>
      have later := ih (fun other member => listed other (List.mem_cons_of_mem _ member))
        (needDep found dep)
      rw [List.foldl_cons]
      by_cases known : dep ∈ found.2
      · have same : needDep found dep = found := by
          simp [needDep, known]
        rw [same] at later ⊢
        grind
      · have pushed : needDep found dep = need found dep := by
          simp [needDep, known]
        rw [pushed] at later ⊢
        obtain ⟨needed, kept, sources, fresh, count⟩ := later
        have step := mem_need found dep
        have fewer := unneeded_insert (listed dep List.mem_cons_self) known
        refine ⟨?_, ?_, ?_, ?_, ?_⟩
        · intro id
          rw [needed, (step id).2, List.mem_cons]
          tauto
        · intro id member
          exact kept id ((step id).1.mpr (Or.inl member))
        · intro id member
          rcases sources id member with before | after
          · rcases (step id).1.mp before with old | rfl
            · exact Or.inl old
            · exact Or.inr List.mem_cons_self
          · exact Or.inr (List.mem_cons_of_mem _ after)
        · intro id member
          rcases fresh id member with before | queued
          · rcases (step id).2.mp before with old | rfl
            · exact Or.inl old
            · exact Or.inr (kept id ((step id).1.mpr (Or.inr rfl)))
          · exact Or.inr queued
        · rw [count]
          simp only [need, List.length_append, List.length_singleton]
          omega

/-- One turn of the search: the task taken off the queue has its dependencies
needed, and the queue grows only by tasks that were not needed before. -/
theorem searchInvariant_turn (consistent : dag.Consistent) {node : GlobalTaskId}
    {queue : List GlobalTaskId} {needed : Std.ExtTreeSet GlobalTaskId}
    (invariant : dag.SearchInvariant (node :: queue, needed)) :
    dag.SearchInvariant ((dag.depsOf node).toList.foldl needDep (queue, needed)) ∧
      ((dag.depsOf node).toList.foldl needDep (queue, needed)).1.length +
          dag.unneeded ((dag.depsOf node).toList.foldl needDep (queue, needed)).2 =
        queue.length + dag.unneeded needed := by
  have depListed : ∀ other ∈ (dag.depsOf node).toList, other ∈ dag.nodes := by
    intro other member
    rw [Std.ExtTreeSet.mem_toList, mem_depsOf] at member
    exact (consistent.mem_nodes other).mpr (consistent.endpoints node other member).2
  obtain ⟨union, kept, sources, fresh, count⟩ := needDep_foldl depListed (queue, needed)
  refine ⟨⟨?_, ?_, ?_⟩, count⟩
  · intro other member
    rw [union]
    rcases sources other member with before | after
    · exact Or.inl (invariant.queued other (List.mem_cons_of_mem _ before))
    · exact Or.inr after
  · intro other member
    rcases (union other).mp member with before | after
    · exact invariant.nodes other before
    · exact depListed other after
  · intro other member
    rcases fresh other member with before | queued
    · rcases invariant.closed other before with waits | done
      · rcases List.mem_cons.mp waits with rfl | later
        · right
          intro below edge
          rw [union, Std.ExtTreeSet.mem_toList, mem_depsOf]
          exact Or.inr edge
        · exact Or.inl (kept other later)
      · right
        intro below edge
        rw [union]
        exact Or.inl (done below edge)
    · exact Or.inl queued

/-- With enough turns the search ends with a set that contains the dependencies
of its members. -/
theorem closed_needDeps (consistent : dag.Consistent) (fuel : Nat)
    {found : List GlobalTaskId × Std.ExtTreeSet GlobalTaskId}
    (invariant : dag.SearchInvariant found)
    (enough : found.1.length + dag.unneeded found.2 ≤ fuel)
    {id dep : GlobalTaskId} (needed : id ∈ dag.needDeps fuel found)
    (edge : dag.edges.Has id dep) : dep ∈ dag.needDeps fuel found := by
  obtain ⟨queue, seen⟩ := found
  dsimp only at enough
  induction fuel generalizing queue seen with
  | zero =>
      obtain rfl : queue = [] := List.eq_nil_of_length_eq_zero (by omega)
      exact (invariant.closed id needed).resolve_left List.not_mem_nil dep edge
  | succ fuel ih =>
      cases queue with
      | nil =>
          exact (invariant.closed id needed).resolve_left List.not_mem_nil dep edge
      | cons node queue =>
          obtain ⟨turned, count⟩ := searchInvariant_turn consistent invariant
          rw [List.length_cons] at enough
          apply ih _ _ turned _ needed
          omega

theorem targeted_need {found : List GlobalTaskId × Std.ExtTreeSet GlobalTaskId}
    (targeted : dag.Targeted found) {id : GlobalTaskId} (listed : id ∈ dag.nodes) :
    dag.Targeted (need found id) := by
  have step := mem_need found id
  constructor
  · intro other
    rw [(step other).1, (step other).2, targeted.queued]
  · intro other member
    rcases (step other).2.mp member with old | rfl
    · exact targeted.nodes other old
    · exact listed

theorem targeted_foldl {Item : Type} (items : List Item)
    {step : List GlobalTaskId × Std.ExtTreeSet GlobalTaskId → Item →
      List GlobalTaskId × Std.ExtTreeSet GlobalTaskId}
    (kept : ∀ found, ∀ item ∈ items, dag.Targeted found →
      dag.Targeted (step found item))
    {found : List GlobalTaskId × Std.ExtTreeSet GlobalTaskId}
    (targeted : dag.Targeted found) : dag.Targeted (items.foldl step found) := by
  induction items generalizing found with
  | nil => exact targeted
  | cons item items ih =>
      rw [List.foldl_cons]
      apply ih fun found other member => kept found other (List.mem_cons_of_mem _ member)
      exact kept found item List.mem_cons_self targeted

theorem targeted_needTarget (indexed : dag.Indexed)
    {found : List GlobalTaskId × Std.ExtTreeSet GlobalTaskId}
    (targeted : dag.Targeted found) (target : String) :
    dag.Targeted (dag.needTarget found target) := by
  unfold needTarget
  split
  case h_1 id parsed =>
    split
    case isTrue known =>
      exact targeted_need targeted ((indexed.mem_nodes id).mpr
        (Std.ExtTreeMap.contains_iff_mem.mp known))
    case isFalse => exact targeted
  case h_2 =>
    apply targeted_foldl _ _ targeted
    intro found node listed targeted
    split
    · exact targeted_need targeted listed
    · exact targeted

/-- What is needed for the targets contains the dependencies of its members. -/
theorem closed_neededFor (consistent : dag.Consistent) {targets : List String}
    {id dep : GlobalTaskId} (needed : id ∈ dag.neededFor targets)
    (edge : dag.edges.Has id dep) : dep ∈ dag.neededFor targets := by
  have empty : dag.Targeted ([], ∅) := ⟨by simp, by simp⟩
  have targeted : dag.Targeted (targets.foldl dag.needTarget ([], ∅)) :=
    targeted_foldl targets
      (fun _ target _ found => targeted_needTarget consistent.toIndexed found target)
      empty
  refine closed_needDeps consistent _ ⟨?_, targeted.nodes, ?_⟩ ?_ needed edge
  · exact fun id => (targeted.queued id).mp
  · exact fun id member => Or.inl ((targeted.queued id).mpr member)
  · apply Nat.add_le_add_left
    exact (Finset.card_filter_le _ _).trans (List.toFinset_card_le _)

theorem requires_of_frame {before after : UnifiedTaskDag}
    (tasks : after.tasks = before.tasks) (planDeps : after.planDeps = before.planDeps)
    (config : after.config = before.config) (id dep : GlobalTaskId) :
    after.Requires id dep ↔ before.Requires id dep := by
  unfold Requires DeclaredDep PlanDep OverlapDep
  rw [tasks, planDeps, config]

theorem wellFormed_of_sorted {out : List GlobalTaskId}
    (rebuilt : (rebuildIndexes dag).2 = .ok ())
    (sorted : (rebuildIndexes dag).1.topologicalSort = .ok out) :
    (rebuildIndexes dag).1.WellFormed := by
  refine ⟨consistent_of_sorted rebuilt sorted, fun id dep => ?_⟩
  obtain ⟨tasks, planDeps, config⟩ := frame_rebuildIndexes rebuilt
  exact (has_rebuildIndexes rebuilt id dep).trans
    (requires_of_frame tasks planDeps config id dep).symm

theorem wellFormed_build {planTasks : Std.ExtTreeMap String (List Task)}
    {planDeps : SetMap String String} {config : DagConfig}
    (built : UnifiedTaskDag.build planTasks planDeps config = .ok dag) :
    dag.WellFormed := by
  obtain ⟨collected, out, rebuilt, sorted, rfl⟩ := build_cases built
  exact wellFormed_of_sorted rebuilt sorted

/-- Only a declared reference could lead out of the kept tasks, and the search
has followed it. -/
theorem requires_erase_iff (wellFormed : dag.WellFormed)
    {removed : List GlobalTaskId} {next : UnifiedTaskDag}
    (tasks : next.tasks = removed.foldl (fun tasks id => tasks.erase id) dag.tasks)
    (planDeps : next.planDeps = dag.planDeps) (config : next.config = dag.config)
    (closed : ∀ id dep, dag.edges.Has id dep → id ∉ removed → dep ∉ removed)
    (id dep : GlobalTaskId) :
    next.Requires id dep ↔ dag.Requires id dep ∧ id ∉ removed ∧ dep ∉ removed := by
  have lookup : ∀ (id : GlobalTaskId) (task : Task), next.tasks[id]? = some task ↔
      dag.tasks[id]? = some task ∧ id ∉ removed := by
    intro id task
    rw [tasks, getElem?_foldl_erase, Option.ite_none_left_eq_some, and_comm]
  have member : ∀ id, id ∈ next.tasks ↔ id ∈ dag.tasks ∧ id ∉ removed := by
    intro id
    rw [tasks, mem_foldl_erase]
  have closedDep : dag.DeclaredDep id dep → id ∉ removed → dep ∉ removed :=
    fun declared => closed id dep ((wellFormed.represents id dep).mpr (Or.inl declared))
  unfold Requires DeclaredDep PlanDep OverlapDep at *
  simp only [lookup, member, planDeps, config]
  grind

theorem wellFormed_cull (wellFormed : dag.WellFormed) (targets : List String) :
    (dag.cull targets).1.WellFormed := by
  refine ⟨consistent_cull wellFormed.toConsistent targets, ?_⟩
  unfold cull
  dsimp only
  split
  · exact wellFormed.represents
  have closed : ∀ id dep, dag.edges.Has id dep →
      id ∉ dag.nodes.filter (fun id => !(dag.neededFor targets).contains id) →
      dep ∉ dag.nodes.filter (fun id => !(dag.neededFor targets).contains id) := by
    intro id dep edge kept removed
    have listed := (wellFormed.mem_nodes id).mpr (wellFormed.endpoints id dep edge).1
    have needed : id ∈ dag.neededFor targets := by
      simpa [listed] using kept
    have depNeeded := closed_neededFor wellFormed.toConsistent needed edge
    have found := Std.ExtTreeSet.contains_iff_mem.mpr depNeeded
    simp [found] at removed
  intro id dep
  refine (has_patchEdges _ dag.edges id dep).trans ?_
  rw [wellFormed.represents]
  symm
  apply requires_erase_iff wellFormed ?_ ?_ ?_ closed <;> rfl

end UnifiedTaskDag

end Roko
