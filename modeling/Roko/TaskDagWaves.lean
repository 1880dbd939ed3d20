import Roko.BatchQueue
import Roko.TaskDagInvariant

/-!
# Execution waves

`waves` computes the depth of every task along a topological order, collects the
tasks of each depth, and cuts waves of bounded width.  What does not fit into
the wave of its depth is merged and sorted with the tasks of the next depth, so
a task can overtake one it depends on.
-/

namespace Roko

structure ExecutionWave where
  index : Nat
  tasks : List GlobalTaskId
  /-- The longest estimate of the wave. -/
  estimatedMinutes : UInt32
  deriving DecidableEq

namespace UnifiedTaskDag

/-- The depth of a task from the depths of its dependencies. -/
def depthFrom (dag : UnifiedTaskDag) (depth : Std.ExtTreeMap GlobalTaskId Nat)
    (node : GlobalTaskId) : Nat :=
  ((dag.depsOf node).toList.map fun dep => depth[dep]?.getD 0 + 1).max?.getD 0

def depths (dag : UnifiedTaskDag) (topo : List GlobalTaskId) :
    Std.ExtTreeMap GlobalTaskId Nat :=
  topo.foldl (fun depth node => depth.insert node (dag.depthFrom depth node)) ∅

def byDepth (depth : Std.ExtTreeMap GlobalTaskId Nat) :
    SetMap Nat GlobalTaskId :=
  depth.toList.foldl (fun buckets entry => buckets.insertAt entry.2 entry.1) ∅

def batchSize (dag : UnifiedTaskDag) (available : Nat) : Nat :=
  if dag.config.maxWaveWidth = 0 then available
  else min available dag.config.maxWaveWidth

def wave (dag : UnifiedTaskDag) (index : Nat) (batch : List GlobalTaskId) :
    ExecutionWave where
  index
  tasks := batch
  estimatedMinutes :=
    (batch.map fun id => dag.estimates[id]?.getD 0).foldl max 0

/-- The inner loop over the combined tasks of one depth: the waves and the
overflow.  A turn takes at least one task. -/
def drainCombined (dag : UnifiedTaskDag) :
    Nat → List GlobalTaskId → List ExecutionWave →
      List ExecutionWave × List GlobalTaskId
  | 0, _, waves => (waves, [])
  | fuel + 1, combined, waves =>
      if combined.isEmpty then (waves, [])
      else
        let take := dag.batchSize combined.length
        let waves := waves ++ [dag.wave waves.length (combined.take take)]
        let rest := combined.drop take
        if 0 < dag.config.maxWaveWidth && !rest.isEmpty then (waves, rest)
        else dag.drainCombined fuel rest waves

/-- The turn of the outer loop for the tasks of one depth. -/
def layBucket (dag : UnifiedTaskDag)
    (laid : List ExecutionWave × List GlobalTaskId)
    (bucket : List GlobalTaskId) : List ExecutionWave × List GlobalTaskId :=
  let combined := (laid.2 ++ bucket).insertionSort (· ≤ ·)
  dag.drainCombined combined.length combined laid.1

/-- The last loop, over the final overflow. -/
def drainOverflow (dag : UnifiedTaskDag) :
    Nat → List GlobalTaskId → List ExecutionWave → List ExecutionWave
  | 0, _, waves => waves
  | fuel + 1, overflow, waves =>
      if overflow.isEmpty then waves
      else
        let take := dag.batchSize overflow.length
        dag.drainOverflow fuel (overflow.drop take)
          (waves ++ [dag.wave waves.length (overflow.take take)])

def waves (dag : UnifiedTaskDag) : Except DagError (List ExecutionWave) := do
  let topo ← dag.topologicalSort
  let buckets := (byDepth (dag.depths topo)).toList.map fun entry =>
    entry.2.toList
  let laid := buckets.foldl dag.layBucket ([], [])
  return dag.drainOverflow laid.2.length laid.2 laid.1

/-- The length of the longest chain of dependencies below a task. -/
noncomputable def depth (dag : UnifiedTaskDag) (id : GlobalTaskId) : Nat :=
  DependencyGraph.height dag.edges.Has id

/-- The tasks of one depth, in order. -/
noncomputable def atDepth (dag : UnifiedTaskDag) (depth : Nat) :
    List GlobalTaskId :=
  dag.nodes.filter fun id => dag.depth id = depth

variable {dag : UnifiedTaskDag}

theorem mem_atDepth {id : GlobalTaskId} {depth : Nat} :
    id ∈ dag.atDepth depth ↔ id ∈ dag.nodes ∧ dag.depth id = depth := by
  simp [atDepth]

/-- Along a topological order the computed depths are the longest chains. -/
theorem getElem?_depths {topo : List GlobalTaskId}
    (ordered : DependencyGraph.Ordered dag.edges.Has topo) :
    (∀ id ∈ topo, DependencyGraph.HasHeight dag.edges.Has id) ∧
      ∀ id, (dag.depths topo)[id]? = if id ∈ topo then some (dag.depth id)
        else none := by
  induction topo using List.reverseRecOn with
  | nil => simp [depths]
  | append_singleton topo last ih =>
      obtain ⟨heights, stored⟩ := ih ordered.of_append
      have listed : ∀ dep, dag.edges.Has last dep ↔
          dep ∈ (dag.depsOf last).toList := by
        intro dep
        rw [Std.ExtTreeSet.mem_toList, mem_depsOf]
      have earlier : ∀ dep ∈ (dag.depsOf last).toList, dep ∈ topo :=
        fun dep member => ordered topo last [] rfl dep ((listed dep).mpr member)
      have computed : dag.depthFrom (dag.depths topo) last =
          ((dag.depsOf last).toList.map fun dep =>
            DependencyGraph.height dag.edges.Has dep + 1).max?.getD 0 := by
        unfold depthFrom
        congr 2
        apply List.map_congr_left
        intro dep member
        simp [stored dep, earlier dep member, depth]
      obtain ⟨lastHeight, lastDepth⟩ := DependencyGraph.HasHeight.of_isGreatest
        (DependencyGraph.isGreatest_chain listed
          fun dep member => heights dep (earlier dep member))
      constructor
      · intro id member
        rcases List.mem_append.mp member with before | here
        · exact heights id before
        · rw [List.mem_singleton.mp here]
          exact lastHeight
      · intro id
        have appended : dag.depths (topo ++ [last]) = (dag.depths topo).insert last
            (dag.depthFrom (dag.depths topo) last) := by
          simp [depths]
        rw [appended, Std.ExtTreeMap.getElem?_insert, computed, ← lastDepth, stored]
        by_cases same : last = id
        · simp [same, depth]
        · simp [same, Ne.symm same]

theorem has_byDepth (depths : Std.ExtTreeMap GlobalTaskId Nat) (level : Nat)
    (id : GlobalTaskId) :
    (byDepth depths).Has level id ↔ depths[id]? = some level := by
  unfold byDepth
  refine (FallibleSteps.foldl_adds_iff
    (fun buckets : SetMap Nat GlobalTaskId => buckets.Has level id)
    (fun entry : GlobalTaskId × Nat => level = entry.2 ∧ id = entry.1)
    ?_ ∅).trans ?_
  · exact fun buckets entry _ => SetMap.has_insertAt buckets entry.2 level entry.1 id
  · simp only [Prod.exists, Std.ExtTreeMap.mem_toList_iff_getElem?_eq_some]
    simp only [SetMap.Has, Std.ExtTreeMap.getElem?_empty]
    grind

theorem mem_byDepth (depths : Std.ExtTreeMap GlobalTaskId Nat) (level : Nat) :
    level ∈ byDepth depths ↔
      ∃ id : GlobalTaskId, depths[id]? = some level := by
  unfold byDepth
  refine (FallibleSteps.foldl_adds_iff
    (fun buckets : SetMap Nat GlobalTaskId => level ∈ buckets)
    (fun entry : GlobalTaskId × Nat => level = entry.2) ?_ ∅).trans ?_
  · exact fun buckets entry _ => SetMap.mem_insertAt buckets entry.2 level entry.1
  · simp only [Prod.exists, Std.ExtTreeMap.mem_toList_iff_getElem?_eq_some]
    simp

theorem eq_of_sorted_of_mem_iff {Item : Type} [LinearOrder Item]
    {first second : List Item} (firstSorted : first.Pairwise (· < ·))
    (secondSorted : second.Pairwise (· < ·))
    (same : ∀ item, item ∈ first ↔ item ∈ second) : first = second := by
  have perm : first.Perm second :=
    (List.perm_ext_iff_of_nodup (firstSorted.imp fun less => less.ne)
      (secondSorted.imp fun less => less.ne)).mpr same
  exact perm.eq_of_pairwise (fun _ _ _ _ less greater => (less.asymm greater).elim)
    firstSorted secondSorted

/-- The levels of a graph have no gap. -/
theorem exists_eq_range (levels : List Nat)
    (sorted : levels.Pairwise (· < ·))
    (closed : ∀ level, level + 1 ∈ levels → level ∈ levels) :
    ∃ count, levels = List.range count := by
  have below : ∀ level ∈ levels, ∀ lower ≤ level, lower ∈ levels := by
    intro level member lower bounded
    induction bounded using Nat.decreasingInduction with
    | self => exact member
    | of_succ lower _ ih => exact closed lower ih
  rcases levels.eq_nil_or_concat' with rfl | ⟨init, last, rfl⟩
  · exact ⟨0, rfl⟩
  · refine ⟨last + 1, eq_of_sorted_of_mem_iff sorted List.pairwise_lt_range ?_⟩
    intro level
    rw [List.mem_range, Nat.lt_succ_iff]
    constructor
    · intro member
      rcases List.mem_append.mp member with before | here
      · exact ((List.pairwise_append.mp sorted).2.2 level before last
          (List.mem_singleton_self last)).le
      · exact (List.mem_singleton.mp here).le
    · exact below last (by simp) level

section Layers

variable (consistent : dag.Consistent)

include consistent

theorem hasHeight (id : GlobalTaskId) (listed : id ∈ dag.nodes) :
    DependencyGraph.HasHeight dag.edges.Has id := by
  obtain ⟨topo, sorted⟩ :=
    (topologicalSort_ok_iff consistent.toIndexed).mpr consistent.acyclic
  obtain ⟨perm, ordered⟩ := topologicalSort_ok consistent.toIndexed sorted
  exact (getElem?_depths ordered).1 id (perm.mem_iff.mpr listed)

theorem depth_lt_of_has {id dep : GlobalTaskId} (edge : dag.edges.Has id dep) :
    dag.depth dep < dag.depth id := by
  obtain ⟨idListed, depListed⟩ := consistent.endpoints id dep edge
  rw [← consistent.mem_nodes] at idListed depListed
  exact (hasHeight consistent id idListed).lt_of_needs
    (hasHeight consistent dep depListed) edge

theorem sorted_atDepth (level : Nat) :
    (dag.atDepth level).Pairwise (· < ·) :=
  consistent.sorted.filter _

/-- The buckets are the tasks of depth 0, 1, 2 and so on, none of them empty. -/
theorem buckets_eq {topo : List GlobalTaskId}
    (sorted : dag.topologicalSort = .ok topo) :
    ∃ count,
      ((byDepth (dag.depths topo)).toList.map fun entry => entry.2.toList) =
        (List.range count).map dag.atDepth ∧
      (∀ level < count, dag.atDepth level ≠ []) ∧
      ∀ level, count ≤ level → dag.atDepth level = [] := by
  obtain ⟨perm, ordered⟩ := topologicalSort_ok consistent.toIndexed sorted
  have stored := (getElem?_depths ordered).2
  have stored_iff : ∀ (id : GlobalTaskId) (level : Nat),
      (dag.depths topo)[id]? = some level ↔ id ∈ dag.atDepth level := by
    intro id level
    rw [stored id, mem_atDepth, ← perm.mem_iff]
    by_cases listed : id ∈ topo <;> simp [listed]
  have mem_levels : ∀ level, level ∈ (byDepth (dag.depths topo)).keys ↔
      ∃ id, id ∈ dag.atDepth level := by
    intro level
    rw [Std.ExtTreeMap.mem_keys, mem_byDepth]
    simp only [stored_iff]
  have bucket_eq : ∀ entry ∈ (byDepth (dag.depths topo)).toList,
      entry.2.toList = dag.atDepth entry.1 := by
    intro entry listed
    apply eq_of_sorted_of_mem_iff (sorted_toList entry.2)
      (sorted_atDepth consistent entry.1)
    intro id
    have found := Std.ExtTreeMap.mem_toList_iff_getElem?_eq_some.mp listed
    have has := has_byDepth (dag.depths topo) entry.1 id
    rw [stored_iff] at has
    rw [Std.ExtTreeSet.mem_toList, ← has]
    simp [SetMap.Has, found]
  obtain ⟨count, levels⟩ := exists_eq_range (byDepth (dag.depths topo)).keys
    (Std.ExtTreeMap.ordered_keys.imp fun less => compare_lt_iff_lt.mp less) (by
      intro level member
      obtain ⟨id, atLevel⟩ := (mem_levels (level + 1)).mp member
      obtain ⟨listed, depth⟩ := mem_atDepth.mp atLevel
      have inNodes : ∀ dep, dag.edges.Has id dep → dep ∈ dag.nodes :=
        fun dep edge => (consistent.mem_nodes dep).mpr
          (consistent.endpoints id dep edge).2
      obtain ⟨dep, edge, lower⟩ := (hasHeight consistent id listed).exists_needs
        (fun dep edge => hasHeight consistent dep (inNodes dep edge)) depth
      exact (mem_levels level).mpr
        ⟨dep, mem_atDepth.mpr ⟨inNodes dep edge, lower⟩⟩)
  refine ⟨count, ?_, ?_, ?_⟩
  · rw [List.map_congr_left bucket_eq, ← levels,
      ← Std.ExtTreeMap.map_fst_toList_eq_keys, List.map_map]
    rfl
  · intro level bounded
    have member := (mem_levels level).mp (levels ▸ List.mem_range.mpr bounded)
    obtain ⟨id, atLevel⟩ := member
    exact List.ne_nil_of_mem atLevel
  · intro level outside
    rw [List.eq_nil_iff_forall_not_mem]
    intro id atLevel
    have member := (mem_levels level).mpr ⟨id, atLevel⟩
    rw [levels, List.mem_range] at member
    omega

theorem fresh_atDepth : BatchQueue.Fresh [] dag.atDepth where
  waiting_nodup := List.nodup_nil
  arrivals_nodup level :=
    (sorted_atDepth consistent level).imp fun less => less.ne
  disjoint _ waits := absurd waits List.not_mem_nil
  once _ _ _ inFirst inSecond :=
    (mem_atDepth.mp inFirst).2.symm.trans (mem_atDepth.mp inSecond).2

end Layers

/-- The number of tasks that a wave can hold. -/
def waveWidth (dag : UnifiedTaskDag) : Nat :=
  if dag.config.maxWaveWidth = 0 then dag.nodes.length + 1
  else dag.config.maxWaveWidth

theorem waveWidth_pos (dag : UnifiedTaskDag) : 0 < dag.waveWidth := by
  unfold waveWidth
  split <;> omega

/-- The tasks that compete for the wave with the given index. -/
noncomputable def waveQueue (dag : UnifiedTaskDag) : Nat → List GlobalTaskId :=
  BatchQueue.queue dag.waveWidth [] dag.atDepth

/-- What does not fit into the waves before the given index. -/
noncomputable def spill (dag : UnifiedTaskDag) : Nat → List GlobalTaskId
  | 0 => []
  | index + 1 => (dag.waveQueue index).drop dag.waveWidth

/-- The first waves, cut from the queue. -/
noncomputable def cutWaves (dag : UnifiedTaskDag) (count : Nat) :
    List ExecutionWave :=
  (List.range count).map fun index =>
    dag.wave index ((dag.waveQueue index).take dag.waveWidth)

theorem waveQueue_eq_merge (dag : UnifiedTaskDag) (index : Nat) :
    dag.waveQueue index = BatchQueue.merge (dag.spill index) (dag.atDepth index) := by
  cases index with
  | zero => rfl
  | succ index => exact BatchQueue.queue_succ _ _ _ _

theorem cutWaves_succ (dag : UnifiedTaskDag) (count : Nat) :
    dag.cutWaves (count + 1) = dag.cutWaves count ++
      [dag.wave (dag.cutWaves count).length
        ((dag.waveQueue count).take dag.waveWidth)] := by
  simp [cutWaves, List.range_succ]

theorem length_waveQueue_le (consistent : dag.Consistent) (index : Nat) :
    (dag.waveQueue index).length ≤ dag.nodes.length := by
  have sorted := (fresh_atDepth consistent).sorted_queue dag.waveWidth index
  refine (List.subperm_of_subset (sorted.imp fun less => less.ne) ?_).length_le
  intro id queued
  rcases BatchQueue.mem_arrivals_of_mem_queue queued with waits | ⟨level, arrives⟩
  · cases waits
  · exact (mem_atDepth.mp arrives).1

/-- A batch of the source takes what the width allows. -/
theorem take_batchSize (dag : UnifiedTaskDag) {combined : List GlobalTaskId}
    (bounded : combined.length ≤ dag.nodes.length) :
    combined.take (dag.batchSize combined.length) = combined.take dag.waveWidth ∧
      combined.drop (dag.batchSize combined.length) =
        combined.drop dag.waveWidth := by
  unfold batchSize waveWidth
  split
  · rw [List.take_length, List.drop_length, List.take_of_length_le (by omega),
      List.drop_of_length_le (by omega)]
    exact ⟨rfl, rfl⟩
  · rcases Nat.le_total combined.length dag.config.maxWaveWidth with short | long
    · rw [Nat.min_eq_left short, List.take_length, List.drop_length,
        List.take_of_length_le short, List.drop_of_length_le short]
      exact ⟨rfl, rfl⟩
    · rw [Nat.min_eq_right long]
      exact ⟨rfl, rfl⟩

/-- The inner loop lays exactly one wave: it takes everything or stops after the
first batch. -/
theorem drainCombined_eq (dag : UnifiedTaskDag) {combined : List GlobalTaskId}
    (nonempty : combined ≠ []) (bounded : combined.length ≤ dag.nodes.length)
    (waves : List ExecutionWave) :
    dag.drainCombined combined.length combined waves =
      (waves ++ [dag.wave waves.length (combined.take dag.waveWidth)],
        combined.drop dag.waveWidth) := by
  obtain ⟨sameTake, sameDrop⟩ := dag.take_batchSize bounded
  cases combined with
  | nil => exact absurd rfl nonempty
  | cons head rest =>
      rw [List.length_cons] at *
      rw [drainCombined]
      simp only [List.length_cons, List.isEmpty_cons, Bool.false_eq_true,
        ↓reduceIte]
      rw [sameTake, sameDrop]
      split
      · rfl
      case isFalse unspilled =>
        have done : (head :: rest).drop dag.waveWidth = [] := by
          by_contra spilled
          apply unspilled
          have limited : 0 < dag.config.maxWaveWidth := by
            rw [Nat.pos_iff_ne_zero]
            intro unlimited
            apply spilled
            apply List.drop_of_length_le
            simp only [waveWidth, unlimited, ↓reduceIte, List.length_cons]
            omega
          simp [limited, spilled]
        rw [done]
        cases rest.length with
        | zero => rfl
        | succ fuel => simp [drainCombined]

theorem foldl_layBucket (consistent : dag.Consistent) {count : Nat}
    (nonempty : ∀ level < count, dag.atDepth level ≠ []) :
    ((List.range count).map dag.atDepth).foldl dag.layBucket ([], []) =
      (dag.cutWaves count, dag.spill count) := by
  induction count with
  | zero => rfl
  | succ count ih =>
      rw [List.range_succ, List.map_append, List.foldl_append,
        ih fun level bounded => nonempty level (by omega)]
      have queue := dag.waveQueue_eq_merge count
      have present : dag.waveQueue count ≠ [] := by
        obtain ⟨id, member⟩ := List.exists_mem_of_ne_nil _ (nonempty count (by omega))
        apply List.ne_nil_of_mem (a := id)
        rw [queue, BatchQueue.mem_merge]
        exact Or.inr member
      have drained := dag.drainCombined_eq present
        (length_waveQueue_le consistent count) (dag.cutWaves count)
      rw [cutWaves_succ, spill, ← drained, queue]
      rfl

theorem sorted_spill (consistent : dag.Consistent) (index : Nat) :
    (dag.spill index).Pairwise (· < ·) := by
  cases index with
  | zero => exact List.Pairwise.nil
  | succ index =>
      exact ((fresh_atDepth consistent).sorted_queue dag.waveWidth index).sublist
        (List.drop_sublist _ _)

/-- Once nothing arrives and nothing is left, the queue stays empty. -/
theorem waveQueue_eq_nil {count : Nat}
    (exhausted : ∀ level, count ≤ level → dag.atDepth level = [])
    (empty : dag.spill count = []) (index : Nat) (later : count ≤ index) :
    dag.waveQueue index = [] := by
  induction index, later using Nat.le_induction with
  | base =>
      rw [waveQueue_eq_merge, empty, exhausted count le_rfl]
      rfl
  | succ index later ih =>
      rw [waveQueue_eq_merge, spill, ih, exhausted (index + 1) (by omega),
        List.drop_nil]
      rfl

theorem drainOverflow_eq (consistent : dag.Consistent) {count : Nat}
    (exhausted : ∀ level, count ≤ level → dag.atDepth level = []) {fuel : Nat}
    (enough : (dag.spill count).length ≤ fuel) :
    ∃ total, dag.drainOverflow fuel (dag.spill count) (dag.cutWaves count) =
        dag.cutWaves total ∧
      ∀ index, total ≤ index → dag.waveQueue index = [] := by
  induction fuel generalizing count with
  | zero =>
      have empty := List.eq_nil_of_length_eq_zero (Nat.le_zero.mp enough)
      exact ⟨count, rfl, waveQueue_eq_nil exhausted empty⟩
  | succ fuel ih =>
      by_cases empty : dag.spill count = []
      · refine ⟨count, ?_, waveQueue_eq_nil exhausted empty⟩
        simp [drainOverflow, empty]
      · have queue : dag.waveQueue count = dag.spill count := by
          rw [waveQueue_eq_merge, exhausted count le_rfl,
            BatchQueue.merge_nil_right (sorted_spill consistent count)]
        have bounded := length_waveQueue_le consistent count
        rw [queue] at bounded
        obtain ⟨sameTake, sameDrop⟩ := dag.take_batchSize bounded
        have shorter : (dag.spill (count + 1)).length ≤ fuel := by
          have positive := dag.waveWidth_pos
          have left := List.length_pos_of_ne_nil empty
          rw [spill, queue, List.length_drop]
          omega
        obtain ⟨total, drained, done⟩ :=
          ih (fun level later => exhausted level (by omega)) shorter
        refine ⟨total, ?_, done⟩
        rw [← drained, drainOverflow, cutWaves_succ, spill, queue]
        simp only [List.isEmpty_iff, empty, ↓reduceIte]
        rw [sameTake, sameDrop]

/-- The waves of the source are the batches of the queue. -/
theorem waves_eq_cutWaves (consistent : dag.Consistent) :
    ∃ total, dag.waves = .ok (dag.cutWaves total) ∧
      ∀ index, total ≤ index → dag.waveQueue index = [] := by
  obtain ⟨topo, sorted⟩ :=
    (topologicalSort_ok_iff consistent.toIndexed).mpr consistent.acyclic
  obtain ⟨count, buckets, nonempty, exhausted⟩ := buckets_eq consistent sorted
  obtain ⟨total, drained, done⟩ :=
    drainOverflow_eq consistent exhausted (le_refl (dag.spill count).length)
  refine ⟨total, ?_, done⟩
  have laid := foldl_layBucket consistent nonempty
  unfold waves
  rw [sorted]
  simp only [bind, Except.bind, pure, Except.pure]
  rw [buckets, laid, drained]

end UnifiedTaskDag

end Roko
