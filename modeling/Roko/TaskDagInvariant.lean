import Roko.TaskDagMutation

/-!
# The indexes stay consistent

Every graph reached from a successful `build` by mutations and culls, failed
ones included, has consistent indexes and no cycle.  Mutations rebuild the
indexes, so they inherit the facts about the rebuild; `cull` patches them, and
its patch is followed entry by entry.
-/

namespace Roko

namespace UnifiedTaskDag

/-- Consistent indexes over edges without a cycle. -/
structure Consistent (dag : UnifiedTaskDag) : Prop extends dag.Indexed where
  acyclic : DependencyGraph.Acyclic dag.edges.Has

/-- The graphs that a caller can hold. -/
inductive Reachable : UnifiedTaskDag → Prop
  | build {planTasks : Std.ExtTreeMap String (List Task)}
      {planDeps : SetMap String String} {config : DagConfig}
      {dag : UnifiedTaskDag}
      (built : UnifiedTaskDag.build planTasks planDeps config = .ok dag) :
      Reachable dag
  | applyMutation {dag : UnifiedTaskDag} (mutation : DagMutation)
      (reachable : Reachable dag) : Reachable (dag.applyMutation mutation).1
  | cull {dag : UnifiedTaskDag} (targets : List String)
      (reachable : Reachable dag) : Reachable (dag.cull targets).1

/-- A rebuild that passes the sort is consistent. -/
theorem consistent_of_sorted {dag : UnifiedTaskDag} {out : List GlobalTaskId}
    (rebuilt : (rebuildIndexes dag).2 = .ok ())
    (sorted : (rebuildIndexes dag).1.topologicalSort = .ok out) :
    (rebuildIndexes dag).1.Consistent := by
  have indexed := indexed_rebuildIndexes rebuilt
  exact ⟨indexed, (topologicalSort_ok_iff indexed).mp ⟨out, sorted⟩⟩

/-- A built graph is a rebuilt one that passed the sort. -/
theorem build_cases {planTasks : Std.ExtTreeMap String (List Task)}
    {planDeps : SetMap String String} {config : DagConfig}
    {dag : UnifiedTaskDag}
    (built : UnifiedTaskDag.build planTasks planDeps config = .ok dag) :
    ∃ (collected : UnifiedTaskDag) (out : List GlobalTaskId),
      (rebuildIndexes collected).2 = .ok () ∧
      (rebuildIndexes collected).1.topologicalSort = .ok out ∧
      (rebuildIndexes collected).1 = dag := by
  unfold UnifiedTaskDag.build at built
  obtain ⟨-, -, loaded⟩ := FallibleSteps.bind_ok built
  obtain ⟨_, rebuilt, checked⟩ := FallibleSteps.bind_ok loaded
  obtain ⟨out, sorted, returned⟩ := FallibleSteps.bind_ok checked
  exact ⟨_, out, rebuilt, sorted, Except.ok.inj returned⟩

theorem consistent_build {planTasks : Std.ExtTreeMap String (List Task)}
    {planDeps : SetMap String String} {config : DagConfig}
    {dag : UnifiedTaskDag}
    (built : UnifiedTaskDag.build planTasks planDeps config = .ok dag) :
    dag.Consistent := by
  obtain ⟨collected, out, rebuilt, sorted, rfl⟩ := build_cases built
  exact consistent_of_sorted rebuilt sorted

/-- A mutation either fails and returns the graph it was given, or returns a
rebuilt graph that passed the sort. -/
theorem applyMutation_cases (dag : UnifiedTaskDag) (mutation : DagMutation) :
    (∃ failure, (dag.applyMutation mutation).2 = .error failure ∧
      (dag.applyMutation mutation).1 = dag) ∨
    ((dag.applyMutation mutation).2 = .ok () ∧
      ∃ tasks, dag.editTasks mutation = .ok tasks ∧
        (rebuildIndexes { dag with tasks }).2 = .ok () ∧
        (dag.applyMutation mutation).1 = (rebuildIndexes { dag with tasks }).1 ∧
        ∃ out, (rebuildIndexes { dag with tasks }).1.topologicalSort = .ok out) := by
  unfold applyMutation
  split
  case h_1 failure edited => exact Or.inl ⟨failure, rfl, rfl⟩
  case h_2 tasks edited =>
    split
    case h_1 failure rebuilt => exact Or.inl ⟨_, rfl, rfl⟩
    case h_2 next rebuilt =>
      split
      case h_1 failure sorted => exact Or.inl ⟨_, rfl, rfl⟩
      case h_2 out sorted =>
        refine Or.inr ⟨rfl, tasks, edited, ?_, ?_, out, ?_⟩
        · rw [rebuilt]
        · rw [rebuilt]
        · rw [rebuilt]
          exact sorted

theorem consistent_applyMutation {dag : UnifiedTaskDag}
    (consistent : dag.Consistent) (mutation : DagMutation) :
    (dag.applyMutation mutation).1.Consistent := by
  rcases dag.applyMutation_cases mutation with
    ⟨-, -, unchanged⟩ | ⟨-, tasks, -, rebuilt, replaced, out, sorted⟩
  · rw [unchanged]
    exact consistent
  · rw [replaced]
    exact consistent_of_sorted rebuilt sorted

theorem applyMutation_of_error {dag : UnifiedTaskDag} {mutation : DagMutation}
    {failure : DagMutationError}
    (failed : (dag.applyMutation mutation).2 = .error failure) :
    (dag.applyMutation mutation).1 = dag := by
  rcases dag.applyMutation_cases mutation with ⟨-, -, unchanged⟩ | ⟨accepted, -⟩
  · exact unchanged
  · rw [accepted] at failed
    cases failed

theorem getElem?_foldl_erase {Value : Type} (removed : List GlobalTaskId)
    (map : Std.ExtTreeMap GlobalTaskId Value) (id : GlobalTaskId) :
    (removed.foldl (fun map id => map.erase id) map)[id]? =
      if id ∈ removed then none else map[id]? := by
  induction removed generalizing map with
  | nil => simp
  | cons head removed ih =>
      rw [List.foldl_cons, ih, Std.ExtTreeMap.getElem?_erase]
      by_cases same : head = id
      · simp [same]
      · simp [same, Ne.symm same]

theorem mem_foldl_erase {Value : Type} (removed : List GlobalTaskId)
    (map : Std.ExtTreeMap GlobalTaskId Value) (id : GlobalTaskId) :
    id ∈ removed.foldl (fun map id => map.erase id) map ↔
      id ∈ map ∧ id ∉ removed := by
  rw [Std.ExtTreeMap.mem_iff_isSome_getElem?, getElem?_foldl_erase,
    Std.ExtTreeMap.mem_iff_isSome_getElem?]
  by_cases gone : id ∈ removed <;> simp [gone]

theorem mem_patchEdges (removed : List GlobalTaskId)
    (edges : SetMap GlobalTaskId GlobalTaskId) (id : GlobalTaskId) :
    id ∈ patchEdges removed edges ↔ id ∈ edges ∧ id ∉ removed := by
  rw [patchEdges, Std.ExtTreeMap.mem_map, mem_foldl_erase]

theorem has_patchEdges (removed : List GlobalTaskId)
    (edges : SetMap GlobalTaskId GlobalTaskId) (id dep : GlobalTaskId) :
    (patchEdges removed edges).Has id dep ↔
      edges.Has id dep ∧ id ∉ removed ∧ dep ∉ removed := by
  unfold patchEdges SetMap.Has
  rw [Std.ExtTreeMap.getElem?_map, getElem?_foldl_erase]
  by_cases gone : id ∈ removed
  · simp [gone]
  · cases edges[id]? with
    | none => simp [gone]
    | some deps => simp [gone, Std.ExtTreeSet.mem_filter]

theorem consistent_cull {dag : UnifiedTaskDag} (consistent : dag.Consistent)
    (targets : List String) : (dag.cull targets).1.Consistent := by
  unfold cull
  dsimp only
  split
  · exact consistent
  generalize dag.nodes.filter
    (fun id => !(dag.neededFor targets).contains id) = removed
  constructor
  case acyclic =>
    apply consistent.acyclic.mono
    intro id dep edge
    exact ((has_patchEdges removed dag.edges id dep).mp edge).1
  constructor
  case sorted =>
    exact Std.ExtTreeMap.ordered_keys.imp fun less => compare_lt_iff_lt.mp less
  case mem_nodes => exact fun id => Std.ExtTreeMap.mem_keys
  case mem_edges =>
    intro id
    dsimp only
    rw [mem_patchEdges, mem_foldl_erase, consistent.mem_edges]
  case mem_reverseEdges =>
    intro id
    dsimp only
    rw [mem_patchEdges, mem_foldl_erase, consistent.mem_reverseEdges]
  case reversed =>
    intro id dep
    dsimp only
    rw [has_patchEdges, has_patchEdges, consistent.reversed, and_comm (a := id ∉ removed)]
  case endpoints =>
    intro id dep edge
    dsimp only
    obtain ⟨kept, idKept, depKept⟩ := (has_patchEdges removed dag.edges id dep).mp edge
    obtain ⟨idListed, depListed⟩ := consistent.endpoints id dep kept
    rw [mem_foldl_erase, mem_foldl_erase]
    exact ⟨⟨idListed, idKept⟩, depListed, depKept⟩

theorem consistent_of_reachable {dag : UnifiedTaskDag}
    (reachable : dag.Reachable) : dag.Consistent := by
  induction reachable with
  | build built => exact consistent_build built
  | applyMutation mutation _ ih => exact consistent_applyMutation ih mutation
  | cull targets _ ih => exact consistent_cull ih targets

/-- In every reachable graph the node list is the sorted list of the task keys,
both edge maps have exactly these keys and mirror each other, every edge joins
two nodes, and no task waits for itself; a failed mutation changes nothing. -/
theorem reachable_consistent_and_failure_unchanged {dag : UnifiedTaskDag}
    (reachable : dag.Reachable) :
    (dag.nodes.Pairwise (· < ·) ∧ ∀ id, id ∈ dag.nodes ↔ id ∈ dag.tasks) ∧
    (∀ id, id ∈ dag.edges ↔ id ∈ dag.tasks) ∧
    (∀ id, id ∈ dag.reverseEdges ↔ id ∈ dag.tasks) ∧
    (∀ id dep, dag.edges.Has id dep ↔ dag.reverseEdges.Has dep id) ∧
    (∀ id dep, dag.edges.Has id dep → id ∈ dag.nodes ∧ dep ∈ dag.nodes) ∧
    (∀ id, ¬ Relation.TransGen dag.edges.Has id id) ∧
    ∀ mutation failure, (dag.applyMutation mutation).2 = .error failure →
      (dag.applyMutation mutation).1 = dag := by
  have consistent := consistent_of_reachable reachable
  refine ⟨⟨consistent.sorted, consistent.mem_nodes⟩, consistent.mem_edges,
    consistent.mem_reverseEdges, consistent.reversed, ?_, consistent.acyclic,
    fun mutation failure => applyMutation_of_error⟩
  intro id dep edge
  rw [consistent.mem_nodes, consistent.mem_nodes]
  exact consistent.endpoints id dep edge

/-- Two plans, the second one depending on a task of the first. -/
def samplePlans : Std.ExtTreeMap String (List Task) :=
  ((∅ : Std.ExtTreeMap String (List Task)).insert "a"
    [{ id := "t1", title := "one" },
      { id := "t2", title := "two", dependsOn := ["t1"] }]).insert "b"
    [{ id := "u1", title := "three", dependsOn := ["a:t2"] }]

/-- The sample after a mutation that would close a cycle and a cull. -/
def sampleRun (dag : UnifiedTaskDag) : UnifiedTaskDag :=
  ((dag.applyMutation (.addDependency ⟨"a", "t1"⟩ ⟨"b", "u1"⟩)).1.cull
    ["a:t2"]).1

theorem sampleRun_consistent :
    ∃ dag : UnifiedTaskDag, dag.Reachable ∧
      dag.nodes = [⟨"a", "t1"⟩, ⟨"a", "t2"⟩] ∧
      dag.edges.Has ⟨"a", "t2"⟩ ⟨"a", "t1"⟩ ∧
      ∀ id, ¬ Relation.TransGen dag.edges.Has id id := by
  have ran : (UnifiedTaskDag.build samplePlans ∅ {}).toOption.map
      (fun dag => (dag.sampleRun.nodes,
        decide (dag.sampleRun.edges.Has ⟨"a", "t2"⟩ ⟨"a", "t1"⟩))) =
      some ([⟨"a", "t1"⟩, ⟨"a", "t2"⟩], true) := by
    decide +kernel
  obtain ⟨dag, built, reads⟩ := FallibleSteps.ok_of_map_toOption ran
  obtain ⟨nodes, edge⟩ := Prod.mk.inj reads
  have reachable : dag.sampleRun.Reachable :=
    .cull _ (.applyMutation _ (.build built))
  obtain ⟨-, -, -, -, -, acyclic, -⟩ :=
    reachable_consistent_and_failure_unchanged reachable
  exact ⟨dag.sampleRun, reachable, nodes, of_decide_eq_true edge, acyclic⟩

/-!
The ready set is ordered, and the loop takes its smallest task.  Every emitted
task is therefore the least one that was ready at its turn, which makes the
output the least of all orders that respect the dependencies.
-/

variable {dag : UnifiedTaskDag}

/-- The head of an ordered set is below all its members. -/
theorem le_of_head_toList {ids : Std.ExtTreeSet GlobalTaskId}
    {first id : GlobalTaskId} (head : ids.toList.head? = some first)
    (member : id ∈ ids) : first ≤ id := by
  obtain ⟨rest, split⟩ := List.head?_eq_some_iff.mp head
  have sorted := sorted_toList ids
  have listed : id ∈ ids.toList := Std.ExtTreeSet.mem_toList.mpr member
  rw [split] at sorted listed
  rcases List.mem_cons.mp listed with rfl | later
  · exact le_rfl
  · exact (List.rel_of_pairwise_cons sorted later).le

/-- What the loop has emitted was chosen least first. -/
def EmitsLeast (dag : UnifiedTaskDag) (sort : SortState) : Prop :=
  DependencyGraph.LeastFirst dag.edges.Has {id | id ∈ dag.tasks} sort.out

theorem emitsLeast_emit {sort : SortState} (invariant : dag.SortInvariant sort)
    (least : dag.EmitsLeast sort) {next : GlobalTaskId}
    (first : sort.ready.toList.head? = some next) :
    dag.EmitsLeast (dag.emit sort next) := by
  unfold EmitsLeast
  rw [out_emit]
  apply least.append_singleton
  intro other listed waiting met
  apply le_of_head_toList first
  rw [invariant.ready_iff]
  refine ⟨listed, waiting, ?_⟩
  apply Finset.eq_empty_of_forall_notMem
  intro dep member
  obtain ⟨edge, unmet⟩ := (dag.mem_openDeps sort.out other dep).mp member
  exact unmet (met dep edge)

theorem emitsLeast_sortLoop (indexed : dag.Indexed) (fuel : Nat) {sort : SortState}
    (invariant : dag.SortInvariant sort) (least : dag.EmitsLeast sort) :
    dag.EmitsLeast (dag.sortLoop fuel sort) := by
  induction fuel generalizing sort with
  | zero => exact least
  | succ fuel ih =>
      unfold sortLoop
      split
      case h_1 idle => exact least
      case h_2 next first =>
        have ready : next ∈ sort.ready :=
          Std.ExtTreeSet.mem_toList.mp (List.mem_of_head? first)
        exact ih (sortInvariant_emit indexed invariant ready)
          (emitsLeast_emit invariant least first)

/-- A successful sort returns what the loop emitted. -/
theorem out_of_topologicalSort {out : List GlobalTaskId}
    (sorted : dag.topologicalSort = .ok out) :
    out = (dag.sortLoop dag.nodes.length dag.sortStart).out := by
  unfold topologicalSort at sorted
  dsimp only at sorted
  split at sorted
  · split at sorted <;> cases sorted
  · exact (Except.ok.inj sorted).symm

/-- No order that respects the dependencies is below the one returned. -/
theorem topologicalSort_le (indexed : dag.Indexed) {out other : List GlobalTaskId}
    (sorted : dag.topologicalSort = .ok out) (perm : other.Perm dag.nodes)
    (ordered : DependencyGraph.Ordered dag.edges.Has other) :
    out = other ∨ List.Lex (· < ·) out other := by
  have nodesNodup : dag.nodes.Nodup := indexed.sorted.imp fun less => less.ne
  have least : dag.EmitsLeast (dag.sortLoop dag.nodes.length dag.sortStart) :=
    emitsLeast_sortLoop indexed _ (sortInvariant_start indexed)
      DependencyGraph.leastFirst_nil
  unfold EmitsLeast at least
  rw [← out_of_topologicalSort sorted] at least
  apply least.eq_or_lex ordered
  · exact perm.nodup_iff.mpr nodesNodup
  · intro node member
    exact (indexed.mem_nodes node).mp (perm.mem_iff.mp member)
  · rw [(topologicalSort_ok indexed sorted).1.length_eq, perm.length_eq]

/-- The sort succeeds exactly on graphs without a cycle, and then returns the
least order of all tasks that lists every dependency before its dependents. -/
theorem topologicalSort_least (dag : UnifiedTaskDag) (indexed : dag.Indexed) :
    ((∃ out, dag.topologicalSort = .ok out) ↔
      DependencyGraph.Acyclic dag.edges.Has) ∧
    ∀ out, dag.topologicalSort = .ok out →
      out.Perm dag.nodes ∧
      DependencyGraph.Ordered dag.edges.Has out ∧
      ∀ other : List GlobalTaskId, other.Perm dag.nodes →
        DependencyGraph.Ordered dag.edges.Has other →
        out = other ∨ List.Lex (· < ·) out other := by
  refine ⟨topologicalSort_ok_iff indexed, ?_⟩
  intro out sorted
  obtain ⟨perm, ordered⟩ := topologicalSort_ok indexed sorted
  exact ⟨perm, ordered, fun other => topologicalSort_le indexed sorted⟩

/-- Two plans that do not depend on one another. -/
def separatePlans : Std.ExtTreeMap String (List Task) :=
  ((∅ : Std.ExtTreeMap String (List Task)).insert "a"
    [{ id := "t1", title := "one", dependsOn := ["t2"] },
      { id := "t2", title := "two" }]).insert "b"
    [{ id := "u1", title := "three" }]

theorem topologicalSort_least_separatePlans :
    ∃ dag : UnifiedTaskDag, UnifiedTaskDag.build separatePlans ∅ {} = .ok dag ∧
      dag.topologicalSort = .ok [⟨"a", "t2"⟩, ⟨"a", "t1"⟩, ⟨"b", "u1"⟩] ∧
      DependencyGraph.Acyclic dag.edges.Has ∧
      DependencyGraph.Ordered dag.edges.Has
        [⟨"a", "t2"⟩, ⟨"a", "t1"⟩, ⟨"b", "u1"⟩] := by
  have ran : (UnifiedTaskDag.build separatePlans ∅ {}).toOption.map
      (fun dag => dag.topologicalSort.toOption) =
      some (some [⟨"a", "t2"⟩, ⟨"a", "t1"⟩, ⟨"b", "u1"⟩]) := by
    decide +kernel
  obtain ⟨dag, built, reads⟩ := FallibleSteps.ok_of_map_toOption ran
  have sorted : dag.topologicalSort =
      .ok [⟨"a", "t2"⟩, ⟨"a", "t1"⟩, ⟨"b", "u1"⟩] := by
    cases returned : dag.topologicalSort with
    | error failure => simp [returned, Except.toOption] at reads
    | ok out => simpa [returned, Except.toOption] using reads
  have lawful := topologicalSort_least dag (consistent_build built).toIndexed
  exact ⟨dag, built, sorted, lawful.1.mp ⟨_, sorted⟩, (lawful.2 _ sorted).2.1⟩

end UnifiedTaskDag

end Roko
