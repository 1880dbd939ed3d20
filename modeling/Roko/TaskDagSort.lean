import Roko.DependencyGraph
import Roko.TaskDagIndexes

/-!
# Topological sort of the task graph

Kahn's algorithm with the smallest ready id first.  When some node is never
released, the nodes on cycles are collected by a depth-first search and reported
in the error.  On consistent indexes the sort succeeds exactly when the edges
have no cycle, and lists every task once and after its dependencies.
-/

namespace Roko

/-- The state of the depth-first search of `detect_cycle_nodes`.  A mark is 1
while the node is on the stack and 2 after it is left. -/
structure CycleSearch (Node : Type) [Ord Node] where
  marks : Std.ExtTreeMap Node Nat := ∅
  stack : List Node := []
  positions : Std.ExtTreeMap Node Nat := ∅
  cycleNodes : Std.ExtTreeSet Node := ∅

namespace CycleSearch

variable {Node : Type} [Ord Node] [Std.TransOrd Node]

def mark (search : CycleSearch Node) (node : Node) : Nat :=
  search.marks[node]?.getD 0

def enter (search : CycleSearch Node) (node : Node) : CycleSearch Node :=
  { search with
    marks := search.marks.insert node 1
    positions := search.positions.insert node search.stack.length
    stack := search.stack ++ [node] }

def leave (search : CycleSearch Node) (node : Node) : CycleSearch Node :=
  { search with
    stack := search.stack.dropLast
    positions := search.positions.erase node
    marks := search.marks.insert node 2 }

/-- A child on the stack closes a cycle through everything above it. -/
def closeCycle (search : CycleSearch Node) (child : Node) : CycleSearch Node :=
  match search.positions[child]? with
  | none => search
  | some start =>
      let closed := (search.stack.drop start).foldl
        (fun nodes entry => nodes.insert entry) search.cycleNodes
      { search with cycleNodes := closed }

/-- The nested function `dfs`.  A visit marks a fresh node, so the nesting is
bounded by the number of nodes; the first argument is that bound. -/
def dfs (deps : SetMap Node Node) :
    Nat → CycleSearch Node → Node → CycleSearch Node
  | 0, search, _ => search
  | depth + 1, search, node =>
      let explored := (deps[node]?.getD ∅).toList.foldl
        (fun search child =>
          match search.mark child with
          | 0 => dfs deps depth search child
          | 1 => search.closeCycle child
          | _ => search)
        (search.enter node)
      explored.leave node

end CycleSearch

/-- Every node on a cycle.  A node without an entry of its own has no children,
so the search is nested at most once more than there are entries. -/
def detectCycleNodes {Node : Type} [Ord Node] [Std.TransOrd Node]
    (deps : SetMap Node Node) : List Node :=
  let search := deps.keys.foldl
    (fun search node =>
      if CycleSearch.mark search node = 0 then
        CycleSearch.dfs deps (deps.size + 1) search node
      else search)
    {}
  search.cycleNodes.toList

/-- The loop variables of `topological_sort`. -/
structure SortState where
  remainingDeps : Std.ExtTreeMap GlobalTaskId Nat
  ready : Std.ExtTreeSet GlobalTaskId
  out : List GlobalTaskId

/-- One open dependency of a dependent is met. -/
def SortState.release (sort : SortState) (dependent : GlobalTaskId) : SortState :=
  match sort.remainingDeps[dependent]? with
  | none => sort
  | some count =>
      { sort with
        remainingDeps := sort.remainingDeps.insert dependent (count - 1)
        ready :=
          if count - 1 = 0 then sort.ready.insert dependent else sort.ready }

namespace UnifiedTaskDag

/-- Move a ready task to the output and release its dependents. -/
def emit (dag : UnifiedTaskDag) (sort : SortState) (next : GlobalTaskId) :
    SortState :=
  (dag.dependentsOf next).toList.foldl SortState.release
    { sort with ready := sort.ready.erase next, out := sort.out ++ [next] }

def sortLoop (dag : UnifiedTaskDag) : Nat → SortState → SortState
  | 0, sort => sort
  | fuel + 1, sort =>
      match sort.ready.toList.head? with
      | none => sort
      | some next => dag.sortLoop fuel (dag.emit sort next)

def sortStart (dag : UnifiedTaskDag) : SortState where
  remainingDeps := dag.edges.map fun _ deps => deps.size
  ready := (dag.edges.toList.filter fun entry => entry.2.size == 0).foldl
    (fun ready entry => ready.insert entry.1) ∅
  out := []

/-- Each turn of the loop emits a task, so it ends after as many turns as there
are nodes. -/
def topologicalSort (dag : UnifiedTaskDag) :
    Except DagError (List GlobalTaskId) :=
  let sort := dag.sortLoop dag.nodes.length dag.sortStart
  if sort.out.length ≠ dag.nodes.length then
    let cycleNodes := detectCycleNodes dag.edges
    if !cycleNodes.isEmpty then .error (.cycle cycleNodes)
    else
      .error (.cycle
        ((sort.remainingDeps.toList.filter fun entry => 0 < entry.2).map Prod.fst))
  else .ok sort.out

theorem mem_depsOf (dag : UnifiedTaskDag) (id dep : GlobalTaskId) :
    dep ∈ dag.depsOf id ↔ dag.edges.Has id dep :=
  SetMap.has_iff_getD.symm

theorem mem_dependentsOf {dag : UnifiedTaskDag} (indexed : dag.Indexed)
    (id dependent : GlobalTaskId) :
    dependent ∈ dag.dependentsOf id ↔ dag.edges.Has dependent id := by
  rw [indexed.reversed]
  exact SetMap.has_iff_getD.symm

/-- The dependencies of a task that are not in the output. -/
def openDeps (dag : UnifiedTaskDag) (out : List GlobalTaskId)
    (id : GlobalTaskId) : Finset GlobalTaskId :=
  (dag.depsOf id).toList.toFinset \ out.toFinset

theorem mem_openDeps (dag : UnifiedTaskDag) (out : List GlobalTaskId)
    (id dep : GlobalTaskId) :
    dep ∈ dag.openDeps out id ↔ dag.edges.Has id dep ∧ dep ∉ out := by
  simp [openDeps, mem_depsOf]

/-- The invariant of the loop: the counters count the open dependencies, and the
ready tasks are those without one. -/
structure SortInvariant (dag : UnifiedTaskDag) (sort : SortState) : Prop where
  nodup : sort.out.Nodup
  listed : ∀ id ∈ sort.out, id ∈ dag.tasks
  ordered : DependencyGraph.Ordered dag.edges.Has sort.out
  counted : ∀ id ∈ dag.tasks,
    sort.remainingDeps[id]? = some (dag.openDeps sort.out id).card
  ready_iff : ∀ id, id ∈ sort.ready ↔
    id ∈ dag.tasks ∧ id ∉ sort.out ∧ dag.openDeps sort.out id = ∅

/-- Releasing a dependent lowers its counter and makes it ready at zero. -/
theorem release_spec (sort : SortState) (dependent : GlobalTaskId) :
    (sort.release dependent).out = sort.out ∧
    (∀ id, (sort.release dependent).remainingDeps[id]? =
      if id = dependent then sort.remainingDeps[id]?.map (· - 1)
      else sort.remainingDeps[id]?) ∧
    ∀ id, id ∈ (sort.release dependent).ready ↔
      id ∈ sort.ready ∨ (id = dependent ∧
        sort.remainingDeps[id]?.map (· - 1) = some 0) := by
  unfold SortState.release
  split
  case h_1 missing => grind
  case h_2 count found =>
    refine ⟨rfl, ?_, ?_⟩
    · intro id
      rw [Std.ExtTreeMap.getElem?_insert]
      by_cases same : id = dependent
      · simp [same, found]
      · simp [same, Ne.symm same]
    · intro id
      by_cases last : count - 1 = 0
      · simp only [last, ↓reduceIte, Std.ExtTreeSet.mem_insert,
          Std.LawfulEqCmp.compare_eq_iff_eq]
        grind
      · simp only [last, ↓reduceIte]
        grind

theorem release_foldl (dependents : List GlobalTaskId)
    (nodup : dependents.Nodup) (sort : SortState) :
    (dependents.foldl SortState.release sort).out = sort.out ∧
    (∀ id, (dependents.foldl SortState.release sort).remainingDeps[id]? =
      if id ∈ dependents then sort.remainingDeps[id]?.map (· - 1)
      else sort.remainingDeps[id]?) ∧
    ∀ id, id ∈ (dependents.foldl SortState.release sort).ready ↔
      id ∈ sort.ready ∨ (id ∈ dependents ∧
        sort.remainingDeps[id]?.map (· - 1) = some 0) := by
  induction dependents generalizing sort with
  | nil => simp
  | cons dependent dependents ih =>
      obtain ⟨fresh, nodupRest⟩ := List.nodup_cons.mp nodup
      obtain ⟨sameOut, counts, readies⟩ := ih nodupRest (sort.release dependent)
      obtain ⟨releasedOut, releasedCounts, releasedReadies⟩ :=
        release_spec sort dependent
      rw [List.foldl_cons]
      refine ⟨sameOut.trans releasedOut, ?_, ?_⟩
      · intro id
        rw [counts id, releasedCounts id]
        grind
      · intro id
        rw [readies id, releasedReadies id, releasedCounts id]
        grind

variable {dag : UnifiedTaskDag}

theorem sortInvariant_start (indexed : dag.Indexed) :
    dag.SortInvariant dag.sortStart := by
  have openCard : ∀ id, (dag.openDeps [] id).card = (dag.depsOf id).size := by
    intro id
    have nodup : (dag.depsOf id).toList.Nodup :=
      (sorted_toList _).imp fun less => less.ne
    rw [openDeps, List.toFinset_nil, Finset.sdiff_empty,
      List.toFinset_card_of_nodup nodup, Std.ExtTreeSet.length_toList]
  have stored : ∀ id ∈ dag.tasks, dag.edges[id]? = some (dag.depsOf id) := by
    intro id listed
    have present := (indexed.mem_edges id).mpr listed
    rw [Std.ExtTreeMap.mem_iff_isSome_getElem?, Option.isSome_iff_exists] at present
    obtain ⟨deps, found⟩ := present
    simp [depsOf, found]
  constructor
  case nodup => exact List.nodup_nil
  case listed => exact fun id member => absurd member List.not_mem_nil
  case ordered => exact DependencyGraph.ordered_nil
  case counted =>
    intro id listed
    show (dag.edges.map fun _ deps => deps.size)[id]? =
      some (dag.openDeps [] id).card
    rw [Std.ExtTreeMap.getElem?_map, stored id listed, openCard id]
    rfl
  case ready_iff =>
    intro id
    unfold sortStart
    dsimp only
    refine (FallibleSteps.foldl_adds_iff
      (fun ready : Std.ExtTreeSet GlobalTaskId => id ∈ ready)
      (fun entry : GlobalTaskId × Std.ExtTreeSet GlobalTaskId => id = entry.1)
      ?_ ∅).trans ?_
    · intro ready entry _
      rw [Std.ExtTreeSet.mem_insert, Std.LawfulEqCmp.compare_eq_iff_eq, or_comm,
        eq_comm]
    · simp only [List.mem_filter, beq_iff_eq, Prod.exists,
        Std.ExtTreeMap.mem_toList_iff_getElem?_eq_some]
      rw [← Finset.card_eq_zero, openCard id]
      constructor
      · rintro (empty | ⟨id, deps, ⟨found, none⟩, rfl⟩)
        · simp at empty
        · have listed := (indexed.mem_edges id).mp
            (Std.ExtTreeMap.mem_iff_isSome_getElem?.mpr (by simp [found]))
          simp [depsOf, found, none, listed]
      · rintro ⟨listed, -, none⟩
        exact Or.inr ⟨id, dag.depsOf id, ⟨stored id listed, none⟩, rfl⟩

/-- Emitting a task closes it as a dependency of its dependents. -/
theorem openDeps_append_singleton (out : List GlobalTaskId)
    (id next : GlobalTaskId) :
    dag.openDeps (out ++ [next]) id = (dag.openDeps out id).erase next := by
  ext dep
  simp only [mem_openDeps, Finset.mem_erase, List.mem_append,
    List.mem_singleton]
  tauto

theorem openDeps_append_of_not_has (out : List GlobalTaskId)
    {id next : GlobalTaskId} (independent : ¬ dag.edges.Has id next) :
    dag.openDeps (out ++ [next]) id = dag.openDeps out id := by
  rw [openDeps_append_singleton]
  apply Finset.erase_eq_of_notMem
  simp [mem_openDeps, independent]

theorem card_openDeps_append_of_has {out : List GlobalTaskId}
    {id next : GlobalTaskId} (dependent : dag.edges.Has id next)
    (fresh : next ∉ out) :
    (dag.openDeps (out ++ [next]) id).card + 1 = (dag.openDeps out id).card := by
  rw [openDeps_append_singleton]
  apply Finset.card_erase_add_one
  exact (dag.mem_openDeps out id next).mpr ⟨dependent, fresh⟩

theorem out_emit (dag : UnifiedTaskDag) (sort : SortState) (next : GlobalTaskId) :
    (dag.emit sort next).out = sort.out ++ [next] :=
  (release_foldl _ ((sorted_toList _).imp fun less => less.ne) _).1

theorem sortInvariant_emit (indexed : dag.Indexed) {sort : SortState}
    (invariant : dag.SortInvariant sort) {next : GlobalTaskId}
    (ready : next ∈ sort.ready) : dag.SortInvariant (dag.emit sort next) := by
  obtain ⟨nextListed, nextFresh, nextOpen⟩ := (invariant.ready_iff next).mp ready
  have nextMet : ∀ dep, dag.edges.Has next dep → dep ∈ sort.out := by
    intro dep edge
    by_contra open'
    have member := (dag.mem_openDeps sort.out next dep).mpr ⟨edge, open'⟩
    simp [nextOpen] at member
  have noSelf : ¬ dag.edges.Has next next := fun edge => nextFresh (nextMet next edge)
  obtain ⟨-, counts, readies⟩ := release_foldl
    (dag.dependentsOf next).toList
    ((sorted_toList _).imp fun less => less.ne)
    { sort with ready := sort.ready.erase next, out := sort.out ++ [next] }
  have dependent_iff : ∀ id, id ∈ (dag.dependentsOf next).toList ↔
      dag.edges.Has id next := by
    intro id
    rw [Std.ExtTreeSet.mem_toList, mem_dependentsOf indexed]
  have out := out_emit dag sort next
  constructor
  case nodup =>
    rw [out]
    exact List.nodup_append.mpr
      ⟨invariant.nodup, List.nodup_singleton next, by grind⟩
  case listed =>
    rw [out]
    intro id member
    rcases List.mem_append.mp member with earlier | here
    · exact invariant.listed id earlier
    · rw [List.mem_singleton.mp here]
      exact nextListed
  case ordered =>
    rw [out]
    exact invariant.ordered.append_singleton nextMet
  case counted =>
    intro id listed
    have count := counts id
    simp only [dependent_iff, invariant.counted id listed] at count
    rw [out]
    refine count.trans ?_
    by_cases dependent : dag.edges.Has id next
    · have fewer := card_openDeps_append_of_has dependent nextFresh
      rw [if_pos dependent, ← fewer]
      simp
    · rw [if_neg dependent, openDeps_append_of_not_has sort.out dependent]
  case ready_iff =>
    intro id
    rw [out]
    refine (readies id).trans ?_
    simp only [dependent_iff, Std.ExtTreeSet.mem_erase, invariant.ready_iff id,
      ne_eq, Std.LawfulEqCmp.compare_eq_iff_eq]
    by_cases dependent : dag.edges.Has id next
    · -- A dependent of the emitted task was not ready and is not in the output.
      have listed := (indexed.endpoints id next dependent).1
      have waiting : id ∉ sort.out := fun done =>
        nextFresh (invariant.ordered.mem_of_needs done dependent)
      have other : id ≠ next := by
        rintro rfl
        exact noSelf dependent
      have fewer := card_openDeps_append_of_has dependent nextFresh
      rw [invariant.counted id listed, ← fewer]
      simp [dependent, listed, waiting, other, ← Finset.card_eq_zero, ← fewer]
    · rw [openDeps_append_of_not_has sort.out dependent]
      grind

/-- The loop keeps the invariant and stops with no ready task, or it has emitted
one task for each turn. -/
theorem sortLoop_spec (indexed : dag.Indexed) (fuel : Nat) {sort : SortState}
    (invariant : dag.SortInvariant sort) :
    dag.SortInvariant (dag.sortLoop fuel sort) ∧
      ((dag.sortLoop fuel sort).ready = ∅ ∨
        (dag.sortLoop fuel sort).out.length = sort.out.length + fuel) := by
  induction fuel generalizing sort with
  | zero => exact ⟨invariant, Or.inr rfl⟩
  | succ fuel ih =>
      unfold sortLoop
      split
      case h_1 empty =>
        refine ⟨invariant, Or.inl ?_⟩
        rw [List.head?_eq_none_iff, Std.ExtTreeSet.toList_eq_nil_iff] at empty
        exact empty
      case h_2 next first =>
        have ready : next ∈ sort.ready :=
          Std.ExtTreeSet.mem_toList.mp (List.mem_of_head? first)
        obtain ⟨kept, stopped⟩ := ih (sortInvariant_emit indexed invariant ready)
        refine ⟨kept, stopped.imp_right ?_⟩
        intro emitted
        rw [emitted, out_emit, List.length_append, List.length_singleton]
        omega

theorem perm_nodes_of_length (indexed : dag.Indexed) {out : List GlobalTaskId}
    (nodup : out.Nodup) (listed : ∀ id ∈ out, id ∈ dag.tasks)
    (full : out.length = dag.nodes.length) : out.Perm dag.nodes := by
  have subset : out ⊆ dag.nodes :=
    fun id member => (indexed.mem_nodes id).mpr (listed id member)
  exact (List.subperm_of_subset nodup subset).perm_of_length_le full.ge

/-- A successful sort lists every node once and after its dependencies. -/
theorem topologicalSort_ok (indexed : dag.Indexed) {out : List GlobalTaskId}
    (sorted : dag.topologicalSort = .ok out) :
    out.Perm dag.nodes ∧ DependencyGraph.Ordered dag.edges.Has out := by
  have invariant :=
    (sortLoop_spec indexed dag.nodes.length (sortInvariant_start indexed)).1
  unfold topologicalSort at sorted
  dsimp only at sorted
  split at sorted
  · split at sorted <;> cases sorted
  case isFalse full =>
    rw [← Except.ok.inj sorted]
    exact ⟨perm_nodes_of_length indexed invariant.nodup invariant.listed
      (not_not.mp full), invariant.ordered⟩

/-- Without a cycle, no ready task means that every task is in the output. -/
theorem mem_out_of_idle (indexed : dag.Indexed)
    (acyclic : DependencyGraph.Acyclic dag.edges.Has) {sort : SortState}
    (invariant : dag.SortInvariant sort) (idle : sort.ready = ∅)
    {id : GlobalTaskId} (listed : id ∈ dag.nodes) : id ∈ sort.out := by
  by_contra missing
  obtain ⟨ready, readyListed, waiting, met⟩ := acyclic.exists_ready
    (List.finite_toSet dag.nodes)
    (fun node dep edge => (indexed.mem_nodes dep).mpr
      (indexed.endpoints node dep edge).2)
    {id | id ∈ sort.out} listed missing
  have isReady : ready ∈ sort.ready := by
    rw [invariant.ready_iff]
    refine ⟨(indexed.mem_nodes ready).mp readyListed, waiting, ?_⟩
    apply Finset.eq_empty_of_forall_notMem
    intro dep member
    obtain ⟨edge, unmet⟩ := (dag.mem_openDeps sort.out ready dep).mp member
    exact unmet (met dep edge)
  rw [idle] at isReady
  exact Std.ExtTreeSet.not_mem_empty isReady

/-- The bound on the turns never cuts the loop short. -/
theorem ready_sortLoop_eq_empty (indexed : dag.Indexed) :
    (dag.sortLoop dag.nodes.length dag.sortStart).ready = ∅ := by
  obtain ⟨invariant, stopped⟩ :=
    sortLoop_spec indexed dag.nodes.length (sortInvariant_start indexed)
  rcases stopped with idle | emitted
  · exact idle
  · have full : (dag.sortLoop dag.nodes.length dag.sortStart).out.length =
        dag.nodes.length := by simpa [sortStart] using emitted
    have perm := perm_nodes_of_length indexed invariant.nodup invariant.listed full
    rw [Std.ExtTreeSet.eq_empty_iff_forall_not_mem]
    intro id ready
    obtain ⟨listed, waiting, -⟩ := (invariant.ready_iff id).mp ready
    exact waiting (perm.mem_iff.mpr ((indexed.mem_nodes id).mpr listed))

/-- The sort succeeds exactly when the edges have no cycle. -/
theorem topologicalSort_ok_iff (indexed : dag.Indexed) :
    (∃ out, dag.topologicalSort = .ok out) ↔
      DependencyGraph.Acyclic dag.edges.Has := by
  constructor
  · rintro ⟨out, sorted⟩
    obtain ⟨perm, ordered⟩ := topologicalSort_ok indexed sorted
    apply DependencyGraph.acyclic_of_ordered ordered
    intro id dep edge
    exact perm.mem_iff.mpr
      ((indexed.mem_nodes id).mpr (indexed.endpoints id dep edge).1)
  · intro acyclic
    have invariant :=
      (sortLoop_spec indexed dag.nodes.length (sortInvariant_start indexed)).1
    have idle := ready_sortLoop_eq_empty indexed
    refine ⟨(dag.sortLoop dag.nodes.length dag.sortStart).out, ?_⟩
    have full : (dag.sortLoop dag.nodes.length dag.sortStart).out.length =
        dag.nodes.length := by
      have nodesNodup : dag.nodes.Nodup := indexed.sorted.imp fun less => less.ne
      apply Nat.le_antisymm
      · exact (List.subperm_of_subset invariant.nodup fun id member =>
          (indexed.mem_nodes id).mpr (invariant.listed id member)).length_le
      · exact (List.subperm_of_subset nodesNodup fun id listed =>
          mem_out_of_idle indexed acyclic invariant idle listed).length_le
    simp [topologicalSort, full]

end UnifiedTaskDag

end Roko
