import Mathlib.Data.Set.Card
import Roko.TaskDagInvariant

/-!
# Partitions of the graph

`partition` distributes the tasks over `k` partitions.  It prefers the partition of the
heaviest dependency, unless its load is far above the smallest one.  The loads are
floating-point numbers; nothing below depends on how they are added and compared.
-/

namespace Roko

/-- The operations on floating-point loads. -/
structure Loads (Load : Type) where
  zero : Load
  infinity : Load
  add : Load → Load → Load
  min : Load → Load → Load
  ofMinutes : UInt32 → Load
  /-- `min_work * 1.5 + 1.0`. -/
  tolerated : Load → Load
  le : Load → Load → Bool
  partialCmp : Load → Load → Option Ordering

structure DagPartition (Load : Type) where
  partitionId : Nat
  tasks : List GlobalTaskId
  cutEdges : Nat
  totalWork : Load

namespace Loads

variable {Load : Type} (loads : Loads Load)

/-- The first of the least loads, as `min_by` finds it. -/
def lightestPartition (partitionWork : List Load) : Nat :=
  match partitionWork.zipIdx with
  | [] => 0
  | first :: others =>
      (others.foldl
        (fun least entry =>
          match (loads.partialCmp least.1 entry.1).getD .eq with
          | .gt => entry
          | .lt | .eq => least)
        first).2

def minWork (partitionWork : List Load) : Load :=
  partitionWork.foldl loads.min loads.infinity

/-- Without a load the source panics; there is one for every partition in use. -/
def keeps (partitionWork : List Load) (depPartition : Nat) : Bool :=
  match partitionWork[depPartition]? with
  | none => false
  | some work => loads.le work (loads.tolerated (loads.minWork partitionWork))

def emptyPartition (id : Nat) : DagPartition Load where
  partitionId := id
  tasks := []
  cutEdges := 0
  totalWork := loads.zero

end Loads

namespace UnifiedTaskDag

variable {Load : Type} (loads : Loads Load)

def minutesOf (dag : UnifiedTaskDag) (id : GlobalTaskId) : UInt32 :=
  dag.estimates[id]?.getD 0

/-- The partition of the heaviest dependency, the last one of these. -/
def depPartition (dag : UnifiedTaskDag) (assignment : Std.ExtTreeMap GlobalTaskId Nat)
    (node : GlobalTaskId) : Option Nat :=
  let candidates := (dag.depsOf node).toList.filterMap fun dep =>
    assignment[dep]?.map fun partition => (partition, dag.minutesOf dep)
  let heaviest := candidates.foldl
    (fun (heaviest : Option (Nat × UInt32)) candidate =>
      match heaviest with
      | none => some candidate
      | some other => if candidate.2 < other.2 then some other else some candidate)
    none
  heaviest.map Prod.fst

def choosePartition (dag : UnifiedTaskDag) (assignment : Std.ExtTreeMap GlobalTaskId Nat)
    (partitionWork : List Load) (node : GlobalTaskId) : Nat :=
  ((dag.depPartition assignment node).filter (loads.keeps partitionWork)).getD
    (loads.lightestPartition partitionWork)

/-- Assign one task. -/
def assignNode (dag : UnifiedTaskDag)
    (assigned : Std.ExtTreeMap GlobalTaskId Nat × List Load) (node : GlobalTaskId) :
    Std.ExtTreeMap GlobalTaskId Nat × List Load :=
  let chosen := dag.choosePartition loads assigned.1 assigned.2 node
  (assigned.1.insert node chosen,
    assigned.2.modify chosen fun work => loads.add work (loads.ofMinutes (dag.minutesOf node)))

def assignNodes (dag : UnifiedTaskDag) (k : Nat) :
    Std.ExtTreeMap GlobalTaskId Nat × List Load :=
  let topo := match dag.topologicalSort with
    | .ok topo => topo
    | .error _ => dag.nodes
  topo.foldl (dag.assignNode loads) (∅, List.replicate k loads.zero)

/-- Push one task onto its partition. -/
def placeNode (dag : UnifiedTaskDag) (assignment : Std.ExtTreeMap GlobalTaskId Nat)
    (partitions : List (DagPartition Load)) (node : GlobalTaskId) :
    List (DagPartition Load) :=
  partitions.modify (assignment[node]?.getD 0) fun part =>
    { part with
      tasks := part.tasks ++ [node]
      totalWork := loads.add part.totalWork (loads.ofMinutes (dag.minutesOf node)) }

/-- Count the dependencies of the tasks of a partition that are cut. -/
def countCuts (dag : UnifiedTaskDag) (cut : DagPartition Load → GlobalTaskId → Bool)
    (part : DagPartition Load) : DagPartition Load :=
  { part with
    cutEdges := part.tasks.foldl
      (fun cuts task => cuts + (dag.depsOf task).toList.countP (cut part)) part.cutEdges }

/-- Each task is a partition of its own. -/
def separate (dag : UnifiedTaskDag) (k : Nat) : List (DagPartition Load) :=
  let singles := dag.nodes.zipIdx.map fun entry =>
    { partitionId := entry.2
      tasks := [entry.1]
      cutEdges := 0
      totalWork := loads.ofMinutes (dag.minutesOf entry.1) : DagPartition Load }
  let filled := singles ++
    (List.range' singles.length (k - singles.length)).map loads.emptyPartition
  filled.map (dag.countCuts fun part dep => !part.tasks.contains dep)

def partition (dag : UnifiedTaskDag) (k : Nat) : List (DagPartition Load) :=
  let k := max k 1
  if dag.nodes.isEmpty then (List.range k).map loads.emptyPartition
  else if dag.nodes.length ≤ k then dag.separate loads k
  else
    let assignment := (dag.assignNodes loads k).1
    let partitions := dag.nodes.foldl (dag.placeNode loads assignment)
      ((List.range k).map loads.emptyPartition)
    partitions.map (dag.countCuts fun part dep =>
      assignment[dep]?.getD part.partitionId != part.partitionId)

/-- The number of dependencies between different partitions. -/
noncomputable def crossing (dag : UnifiedTaskDag) (partitions : List (DagPartition Load)) :
    Nat :=
  Set.ncard {edge : GlobalTaskId × GlobalTaskId | dag.edges.Has edge.1 edge.2 ∧
    ¬ ∃ part ∈ partitions, edge.1 ∈ part.tasks ∧ edge.2 ∈ part.tasks}

/-- The partitions are numbered, share out the tasks, and count what they cut. -/
structure PartitionLawful (dag : UnifiedTaskDag) (k : Nat)
    (partitions : List (DagPartition Load)) : Prop where
  numbered : partitions.map DagPartition.partitionId = List.range partitions.length
  enough : max k 1 ≤ partitions.length
  shared : (partitions.flatMap DagPartition.tasks).Perm dag.nodes
  once : (partitions.flatMap DagPartition.tasks).Nodup
  cuts : (partitions.map DagPartition.cutEdges).sum = dag.crossing partitions

variable {loads : Loads Load} {dag : UnifiedTaskDag}
  {partitions : List (DagPartition Load)}

/-- What the tasks of a partition need outside of it. -/
def cutPairs (dag : UnifiedTaskDag) (part : DagPartition Load) :
    List (GlobalTaskId × GlobalTaskId) :=
  part.tasks.flatMap fun task =>
    ((dag.depsOf task).toList.filter fun dep => dep ∉ part.tasks).map (Prod.mk task)

theorem mem_cutPairs {part : DagPartition Load} {id dep : GlobalTaskId} :
    (id, dep) ∈ dag.cutPairs part ↔
      id ∈ part.tasks ∧ dag.edges.Has id dep ∧ dep ∉ part.tasks := by
  simp only [cutPairs, List.mem_flatMap, List.mem_map, List.mem_filter,
    Std.ExtTreeSet.mem_toList, mem_depsOf, decide_eq_true_eq]
  grind

theorem nodup_cutPairs {part : DagPartition Load} (nodup : part.tasks.Nodup) :
    (dag.cutPairs part).Nodup := by
  unfold cutPairs
  refine List.nodup_flatMap.mpr ⟨fun task _ => ?_, nodup.imp fun apart => ?_⟩
  · have deps : (dag.depsOf task).toList.Nodup := nodup_toList _
    exact (deps.filter _).map fun _ _ same => (Prod.mk.inj same).2
  · rintro ⟨id, dep⟩ first second
    obtain ⟨_, -, sameFirst⟩ := List.mem_map.mp first
    obtain ⟨_, -, sameSecond⟩ := List.mem_map.mp second
    exact apart ((Prod.mk.inj sameFirst).1.trans (Prod.mk.inj sameSecond).1.symm)

/-- Where every partition counts what its tasks need outside of it, the dependencies
between partitions are counted once. -/
theorem sum_cutEdges (indexed : dag.Indexed)
    (shared : (partitions.flatMap DagPartition.tasks).Perm dag.nodes)
    (counted : ∀ part ∈ partitions, part.cutEdges = (dag.cutPairs part).length) :
    (partitions.map DagPartition.cutEdges).sum = dag.crossing partitions := by
  have once : (partitions.flatMap DagPartition.tasks).Nodup :=
    shared.nodup_iff.mpr (indexed.sorted.imp ne_of_lt)
  obtain ⟨nodup, disjoint⟩ := List.nodup_flatMap.mp once
  have unique : ∀ part ∈ partitions, ∀ other ∈ partitions, ∀ id ∈ part.tasks,
      id ∈ other.tasks → part = other := by
    intro part member other otherMember id first second
    by_contra apart
    have : Std.Symm (Function.onFun List.Disjoint fun part : DagPartition Load => part.tasks) :=
      ⟨fun _ _ => List.Disjoint.symm⟩
    exact disjoint.forall member otherMember apart first second
  have length : (partitions.map DagPartition.cutEdges).sum =
      (partitions.flatMap dag.cutPairs).length := by
    rw [List.length_flatMap, List.map_congr_left counted]
  have members : ∀ id dep, (id, dep) ∈ partitions.flatMap dag.cutPairs ↔
      ∃ part ∈ partitions, id ∈ part.tasks ∧ dag.edges.Has id dep ∧ dep ∉ part.tasks := by
    simp only [List.mem_flatMap, mem_cutPairs, implies_true]
  have listed : {edge : GlobalTaskId × GlobalTaskId | dag.edges.Has edge.1 edge.2 ∧
      ¬ ∃ part ∈ partitions, edge.1 ∈ part.tasks ∧ edge.2 ∈ part.tasks} =
      ((partitions.flatMap dag.cutPairs).toFinset : Set (GlobalTaskId × GlobalTaskId)) := by
    ext ⟨id, dep⟩
    rw [Set.mem_ofPred_eq, List.coe_toFinset, Set.mem_ofPred_eq, members]
    constructor
    · rintro ⟨edge, apart⟩
      have node := (indexed.mem_nodes id).mpr (indexed.endpoints id dep edge).1
      obtain ⟨part, member, here⟩ := List.mem_flatMap.mp (shared.mem_iff.mpr node)
      exact ⟨part, member, here, edge, fun there => apart ⟨part, member, here, there⟩⟩
    · rintro ⟨part, member, here, edge, outside⟩
      refine ⟨edge, ?_⟩
      rintro ⟨other, otherMember, also, inside⟩
      rw [unique part member other otherMember id here also] at outside
      exact outside inside
  have pairs : (partitions.flatMap dag.cutPairs).Nodup := by
    refine List.nodup_flatMap.mpr ⟨fun part member => nodup_cutPairs (nodup part member),
      disjoint.imp fun apart => ?_⟩
    rintro ⟨id, dep⟩ first second
    exact apart (mem_cutPairs.mp first).1 (mem_cutPairs.mp second).1
  rw [length]
  unfold crossing
  rw [listed, Set.ncard_coe_finset, List.toFinset_card_of_nodup pairs]

theorem foldl_add_eq {Item : Type} (count : Item → Nat) (items : List Item) (start : Nat) :
    items.foldl (fun counted item => counted + count item) start =
      start + (items.map count).sum := by
  induction items generalizing start with
  | nil => rfl
  | cons item items ih => rw [List.foldl_cons, ih, List.map_cons, List.sum_cons, Nat.add_assoc]

/-- A partition counts what its tasks need outside of it, if its test says what is
outside. -/
theorem cutEdges_countCuts {cut : DagPartition Load → GlobalTaskId → Bool}
    {part : DagPartition Load} (fresh : part.cutEdges = 0)
    (outside : ∀ id dep, dag.edges.Has id dep → cut part dep = decide (dep ∉ part.tasks)) :
    (dag.countCuts cut part).cutEdges =
      (dag.cutPairs (dag.countCuts cut part)).length := by
  have counts : ∀ task ∈ part.tasks, (dag.depsOf task).toList.countP (cut part) =
      (((dag.depsOf task).toList.filter fun dep => dep ∉ part.tasks).map
        (Prod.mk task)).length := by
    intro task _
    rw [List.length_map, ← List.countP_eq_length_filter]
    apply List.countP_congr
    intro dep member
    rw [Std.ExtTreeSet.mem_toList, mem_depsOf] at member
    rw [outside task dep member]
  unfold countCuts cutPairs
  dsimp only
  rw [foldl_add_eq, fresh, Nat.zero_add, List.length_flatMap, List.map_congr_left counts]

theorem tasks_countCuts (cut : DagPartition Load → GlobalTaskId → Bool)
    (partitions : List (DagPartition Load)) :
    (partitions.map (dag.countCuts cut)).flatMap DagPartition.tasks =
      partitions.flatMap DagPartition.tasks := by
  rw [List.flatMap_map]
  rfl

theorem partitionId_countCuts (cut : DagPartition Load → GlobalTaskId → Bool)
    (partitions : List (DagPartition Load)) :
    (partitions.map (dag.countCuts cut)).map DagPartition.partitionId =
      partitions.map DagPartition.partitionId := by
  rw [List.map_map]
  rfl

/-- Counted partitions are lawful when they are numbered and share out the tasks, and the
test of each partition says what is outside of it. -/
theorem partitionLawful_countCuts (indexed : dag.Indexed) {k : Nat}
    {cut : DagPartition Load → GlobalTaskId → Bool}
    (numbered : partitions.map DagPartition.partitionId = List.range partitions.length)
    (enough : max k 1 ≤ partitions.length)
    (shared : (partitions.flatMap DagPartition.tasks).Perm dag.nodes)
    (counted : ∀ part ∈ partitions, part.cutEdges = 0 ∧ ∀ id dep, dag.edges.Has id dep →
      cut part dep = decide (dep ∉ part.tasks)) :
    dag.PartitionLawful k (partitions.map (dag.countCuts cut)) := by
  have same : (partitions.map (dag.countCuts cut)).flatMap DagPartition.tasks =
      partitions.flatMap DagPartition.tasks := tasks_countCuts cut partitions
  refine ⟨?_, by simpa using enough, by rwa [same], ?_, ?_⟩
  · rw [partitionId_countCuts, numbered, List.length_map]
  · rw [same]
    exact shared.nodup_iff.mpr (indexed.sorted.imp ne_of_lt)
  · apply sum_cutEdges indexed (by rwa [same])
    intro part member
    obtain ⟨before, listed, rfl⟩ := List.mem_map.mp member
    exact cutEdges_countCuts (counted before listed).1 (counted before listed).2

theorem partitionLawful_separate (indexed : dag.Indexed) {k : Nat} (positive : 0 < k)
    (many : dag.nodes.length ≤ k) : dag.PartitionLawful k (dag.separate loads k) := by
  unfold separate
  dsimp only
  rw [List.length_map, List.length_zipIdx]
  apply partitionLawful_countCuts indexed
  · have ids : (DagPartition.partitionId ∘ fun entry : GlobalTaskId × Nat =>
        ({ partitionId := entry.2, tasks := [entry.1], cutEdges := 0,
           totalWork := loads.ofMinutes (dag.minutesOf entry.1) } : DagPartition Load)) =
        Prod.snd := rfl
    have filled : (DagPartition.partitionId ∘ loads.emptyPartition) = id := rfl
    rw [List.map_append, List.map_map, List.map_map, ids, filled, List.map_id,
      List.zipIdx_map_snd]
    have joined := List.range'_append_1 (s := 0) (m := dag.nodes.length)
      (n := k - dag.nodes.length)
    rw [Nat.zero_add] at joined
    simp only [List.range_eq_range', List.length_append, List.length_map,
      List.length_zipIdx, List.length_range', joined]
  · simp only [List.length_append, List.length_map, List.length_zipIdx, List.length_range']
    omega
  · rw [List.flatMap_append, List.flatMap_map, List.flatMap_map]
    have none : (List.range' dag.nodes.length (k - dag.nodes.length)).flatMap
        (fun id => (loads.emptyPartition id).tasks) = [] := by
      simp [Loads.emptyPartition]
    have one : dag.nodes.zipIdx.flatMap (fun entry => [entry.1]) = dag.nodes := by
      rw [← List.map_eq_flatMap, List.zipIdx_map_fst]
    rw [none, List.append_nil]
    exact List.Perm.of_eq one
  · intro part member
    rcases List.mem_append.mp member with single | empty
    · obtain ⟨entry, -, rfl⟩ := List.mem_map.mp single
      exact ⟨rfl, fun id dep _ => by simp⟩
    · obtain ⟨id, -, rfl⟩ := List.mem_map.mp empty
      exact ⟨rfl, fun id dep _ => by simp [Loads.emptyPartition]⟩

/-- The assigned tasks have a partition, and every partition has a load. -/
structure Assigned (k : Nat) (done : List GlobalTaskId)
    (assigned : Std.ExtTreeMap GlobalTaskId Nat × List Load) : Prop where
  loaded : assigned.2.length = k
  below : ∀ (id : GlobalTaskId) (part : Nat), assigned.1[id]? = some part → part < k
  covers : ∀ id ∈ done, id ∈ assigned.1

theorem lightestPartition_lt {partitionWork : List Load} (positive : 0 < partitionWork.length) :
    loads.lightestPartition partitionWork < partitionWork.length := by
  have indexed : ∀ entry ∈ partitionWork.zipIdx, entry.2 < partitionWork.length :=
    fun entry member => List.snd_lt_of_mem_zipIdx member
  unfold Loads.lightestPartition
  cases listed : partitionWork.zipIdx with
  | nil => simpa using positive
  | cons first others =>
      rw [listed] at indexed
      refine List.foldlRecOn others _
        (motive := fun least : Load × Nat => least.2 < partitionWork.length) ?_ ?_
      · exact indexed first List.mem_cons_self
      · intro least before entry member
        split
        · exact indexed entry (List.mem_cons_of_mem first member)
        · exact before
        · exact before

theorem depPartition_lt {k : Nat} {assignment : Std.ExtTreeMap GlobalTaskId Nat}
    (below : ∀ (id : GlobalTaskId) (part : Nat), assignment[id]? = some part → part < k)
    {node : GlobalTaskId} {part : Nat}
    (chosen : dag.depPartition assignment node = some part) : part < k := by
  unfold depPartition at chosen
  obtain ⟨heaviest, found, rfl⟩ := Option.map_eq_some_iff.mp chosen
  clear chosen
  let Below (heaviest : Option (Nat × UInt32)) : Prop :=
    ∀ candidate, heaviest = some candidate → candidate.1 < k
  refine List.foldlRecOn _ _ (motive := Below) ?_ ?_ heaviest found
  · intro candidate none
    cases none
  · intro heaviest before candidate member other same
    have here : candidate.1 < k := by
      obtain ⟨dep, -, picked⟩ := List.mem_filterMap.mp member
      obtain ⟨partition, assigned, rfl⟩ := Option.map_eq_some_iff.mp picked
      exact below dep partition assigned
    split at same
    · cases same
      exact here
    · split at same
      · exact before other same
      · cases same
        exact here

theorem assigned_assignNode {k : Nat} (positive : 0 < k) {done : List GlobalTaskId}
    {assigned : Std.ExtTreeMap GlobalTaskId Nat × List Load}
    (invariant : Assigned k done assigned) (node : GlobalTaskId) :
    Assigned k (done ++ [node]) (dag.assignNode loads assigned node) := by
  have chosen : dag.choosePartition loads assigned.1 assigned.2 node < k := by
    have lightest : loads.lightestPartition assigned.2 < k := by
      rw [← invariant.loaded] at positive ⊢
      exact lightestPartition_lt positive
    unfold choosePartition
    cases kept : (dag.depPartition assigned.1 node).filter (loads.keeps assigned.2) with
    | none => exact lightest
    | some part =>
        exact depPartition_lt invariant.below (Option.filter_eq_some_iff.mp kept).1
  refine ⟨?_, fun id part found => ?_, fun id member => ?_⟩
  · exact (List.length_modify _ _ _).trans invariant.loaded
  · unfold assignNode at found
    dsimp only at found
    rw [Std.ExtTreeMap.getElem?_insert] at found
    split at found
    · cases found
      exact chosen
    · exact invariant.below id part found
  · unfold assignNode
    rw [Std.ExtTreeMap.mem_insert]
    rcases List.mem_append.mp member with before | here
    · exact Or.inr (invariant.covers id before)
    · rw [List.mem_singleton.mp here]
      exact Or.inl Std.ReflCmp.compare_self

theorem assigned_assignNodes (indexed : dag.Indexed) {k : Nat} (positive : 0 < k) :
    Assigned k dag.nodes (dag.assignNodes loads k) := by
  have start : Assigned k []
      ((∅ : Std.ExtTreeMap GlobalTaskId Nat), List.replicate k loads.zero) :=
    ⟨by simp, by simp, by simp⟩
  have walked : ∀ topo : List GlobalTaskId, Assigned k topo
      (topo.foldl (dag.assignNode loads) (∅, List.replicate k loads.zero)) := by
    intro topo
    induction topo using List.reverseRecOn with
    | nil => exact start
    | append_singleton topo last ih =>
        rw [List.foldl_concat]
        exact assigned_assignNode positive ih last
  unfold assignNodes
  cases sorted : dag.topologicalSort with
  | error failure => exact walked dag.nodes
  | ok topo =>
      obtain ⟨loaded, below, covers⟩ := walked topo
      have perm := (topologicalSort_ok indexed sorted).1
      exact ⟨loaded, below, fun id listed => covers id (perm.mem_iff.mpr listed)⟩

/-- The tasks that the assignment gives to a partition, in order. -/
def partOf (loads : Loads Load) (dag : UnifiedTaskDag)
    (assignment : Std.ExtTreeMap GlobalTaskId Nat) (nodes : List GlobalTaskId) (id : Nat) :
    DagPartition Load :=
  let tasks := nodes.filter fun node => assignment[node]?.getD 0 == id
  { partitionId := id
    tasks := tasks
    cutEdges := 0
    totalWork := tasks.foldl
      (fun work node => loads.add work (loads.ofMinutes (dag.minutesOf node))) loads.zero }

theorem placeNode_partOf (assignment : Std.ExtTreeMap GlobalTaskId Nat)
    (nodes : List GlobalTaskId) (k : Nat) (last : GlobalTaskId) :
    dag.placeNode loads assignment ((List.range k).map (partOf loads dag assignment nodes))
        last =
      (List.range k).map (partOf loads dag assignment (nodes ++ [last])) := by
  apply List.ext_getElem?
  intro index
  unfold placeNode
  rw [List.getElem?_modify, List.getElem?_map, List.getElem?_map]
  by_cases here : index < k
  · rw [List.getElem?_range here]
    by_cases same : assignment[last]?.getD 0 = index
    · simp [partOf, same]
    · simp [partOf, same]
  · simp [Nat.le_of_not_lt here]

theorem foldl_placeNode (assignment : Std.ExtTreeMap GlobalTaskId Nat)
    (nodes : List GlobalTaskId) (k : Nat) :
    nodes.foldl (dag.placeNode loads assignment)
        ((List.range k).map loads.emptyPartition) =
      (List.range k).map (partOf loads dag assignment nodes) := by
  induction nodes using List.reverseRecOn with
  | nil => rfl
  | append_singleton nodes last ih => rw [List.foldl_concat, ih, placeNode_partOf]

theorem mem_partOf {assignment : Std.ExtTreeMap GlobalTaskId Nat}
    {nodes : List GlobalTaskId} {part : Nat} {id : GlobalTaskId} :
    id ∈ (partOf loads dag assignment nodes part).tasks ↔
      id ∈ nodes ∧ assignment[id]?.getD 0 = part := by
  simp [partOf]

/-- Assigned to partitions in use, the tasks are shared out. -/
theorem perm_partOf {k : Nat} {assignment : Std.ExtTreeMap GlobalTaskId Nat}
    {nodes : List GlobalTaskId} (nodup : nodes.Nodup)
    (below : ∀ id ∈ nodes, assignment[id]?.getD 0 < k) :
    (((List.range k).map (partOf loads dag assignment nodes)).flatMap
      DagPartition.tasks).Perm nodes := by
  rw [List.flatMap_map]
  apply (List.perm_ext_iff_of_nodup ?_ nodup).mpr
  · intro id
    simp only [List.mem_flatMap, List.mem_range, mem_partOf]
    constructor
    · rintro ⟨part, -, listed, -⟩
      exact listed
    · exact fun listed => ⟨_, below id listed, listed, rfl⟩
  · refine List.nodup_flatMap.mpr ⟨fun part _ => nodup.filter _,
      List.nodup_range.imp fun apart => ?_⟩
    intro id first second
    exact apart ((mem_partOf.mp first).2.symm.trans (mem_partOf.mp second).2)

theorem partitionLawful_greedy (loads : Loads Load) (indexed : dag.Indexed) {k : Nat}
    (positive : 0 < k) :
    dag.PartitionLawful k
      ((dag.nodes.foldl (dag.placeNode loads (dag.assignNodes loads k).1)
        ((List.range k).map loads.emptyPartition)).map
          (dag.countCuts fun part dep =>
            (dag.assignNodes loads k).1[dep]?.getD part.partitionId != part.partitionId)) := by
  have placed : Assigned k dag.nodes (dag.assignNodes loads k) :=
    assigned_assignNodes indexed positive
  obtain ⟨-, below, covers⟩ := placed
  have assigned : ∀ id ∈ dag.nodes, ∃ part < k,
      (dag.assignNodes loads k).1[id]? = some part := by
    intro id listed
    obtain ⟨part, found⟩ := Option.isSome_iff_exists.mp
      (Std.ExtTreeMap.mem_iff_isSome_getElem?.mp (covers id listed))
    exact ⟨part, below id part found, found⟩
  rw [foldl_placeNode]
  apply partitionLawful_countCuts indexed
  · rw [List.map_map, List.length_map, List.length_range]
    exact List.map_id _
  · simp only [List.length_map, List.length_range]
    omega
  · apply perm_partOf (indexed.sorted.imp ne_of_lt)
    intro id listed
    obtain ⟨part, inUse, found⟩ := assigned id listed
    rwa [found]
  · intro part member
    obtain ⟨number, -, rfl⟩ := List.mem_map.mp member
    refine ⟨rfl, fun id dep edge => ?_⟩
    have listed := (indexed.mem_nodes dep).mpr (indexed.endpoints id dep edge).2
    obtain ⟨there, -, found⟩ := assigned dep listed
    change ((dag.assignNodes loads k).1[dep]?.getD number != number) = _
    rw [Bool.eq_iff_iff, bne_iff_ne, decide_eq_true_iff, mem_partOf, found]
    simp [listed]

/-- Whatever the loads are, the partitions are lawful. -/
theorem partition_lawful (loads : Loads Load) (dag : UnifiedTaskDag) (indexed : dag.Indexed)
    (k : Nat) : dag.PartitionLawful k (dag.partition loads k) := by
  have positive : 0 < max k 1 := by omega
  unfold partition
  dsimp only
  split
  case isTrue empty =>
    have none : dag.nodes = [] := List.isEmpty_iff.mp empty
    have shared : (((List.range (max k 1)).map loads.emptyPartition).flatMap
        DagPartition.tasks).Perm dag.nodes := by
      rw [List.flatMap_map, none]
      simp [Loads.emptyPartition]
    refine ⟨?_, by simp, shared, ?_, sum_cutEdges indexed shared fun part member => ?_⟩
    · rw [List.map_map, List.length_map, List.length_range]
      exact List.map_id _
    · exact shared.nodup_iff.mpr (none ▸ List.nodup_nil)
    · obtain ⟨id, -, rfl⟩ := List.mem_map.mp member
      rfl
  case isFalse =>
    split
    case isTrue many =>
      have lawful : dag.PartitionLawful (max k 1) (dag.separate loads (max k 1)) :=
        partitionLawful_separate indexed positive many
      obtain ⟨numbered, enough, shared, once, cuts⟩ := lawful
      exact ⟨numbered, by omega, shared, once, cuts⟩
    case isFalse =>
      obtain ⟨numbered, enough, shared, once, cuts⟩ :=
        partitionLawful_greedy loads indexed positive
      exact ⟨numbered, by omega, shared, once, cuts⟩

/-- Loads in half minutes, exact for loads of whole minutes. -/
def halfMinutes : Loads Nat where
  zero := 0
  infinity := 2 ^ 64
  add := (· + ·)
  min := Nat.min
  ofMinutes := fun minutes => 2 * minutes.toNat
  tolerated := fun work => work * 3 / 2 + 2
  le := fun first second => first ≤ second
  partialCmp := fun first second => some (compare first second)

/-- Two tasks that need the first one. -/
def forkedPlans : Std.ExtTreeMap String (List Task) :=
  (∅ : Std.ExtTreeMap String (List Task)).insert "a"
    [{ id := "t1", title := "one", estimatedMinutes := some 5 },
      { id := "t2", title := "two", dependsOn := ["t1"], estimatedMinutes := some 7 },
      { id := "t3", title := "three", dependsOn := ["t1"], estimatedMinutes := some 1 }]

theorem forkedPlans_partitionLawful :
    ∃ dag : UnifiedTaskDag, build forkedPlans ∅ {} = .ok dag ∧
      (dag.partition halfMinutes 2).map DagPartition.tasks =
        [[⟨"a", "t1"⟩, ⟨"a", "t3"⟩], [⟨"a", "t2"⟩]] ∧
      (dag.partition halfMinutes 2).map DagPartition.cutEdges = [0, 1] ∧
      dag.PartitionLawful 2 (dag.partition halfMinutes 2) := by
  have ran : (build forkedPlans ∅ {}).toOption.map (fun dag =>
      ((dag.partition halfMinutes 2).map DagPartition.tasks,
        (dag.partition halfMinutes 2).map DagPartition.cutEdges)) =
      some ([[⟨"a", "t1"⟩, ⟨"a", "t3"⟩], [⟨"a", "t2"⟩]], [0, 1]) := by
    decide +kernel
  obtain ⟨dag, built, reads⟩ := FallibleSteps.ok_of_map_toOption ran
  obtain ⟨tasks, cuts⟩ := Prod.mk.inj reads
  exact ⟨dag, built, tasks, cuts,
    partition_lawful halfMinutes dag (consistent_build built).toIndexed 2⟩

end UnifiedTaskDag

end Roko
