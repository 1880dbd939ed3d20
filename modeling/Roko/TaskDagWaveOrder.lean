import Roko.TaskDagWaves

/-!
# When waves respect the dependencies

The waves always hold every task once and never more than the width allows.
Every dependency lies in an earlier wave exactly when the width is unbounded or
each dependency finds room before its dependent does; whether a task finds room
in a wave is a count of the tasks with smaller ids.
-/

namespace Roko

namespace UnifiedTaskDag

/-- Every task stands in exactly one wave, no wave is too wide, and every
dependency stands in an earlier wave. -/
structure WavesValid (dag : UnifiedTaskDag) (waves : List ExecutionWave) :
    Prop where
  numbered : waves.map ExecutionWave.index = List.range waves.length
  once : (waves.flatMap ExecutionWave.tasks).Perm dag.nodes
  bounded : dag.config.maxWaveWidth ≠ 0 →
    ∀ wave ∈ waves, wave.tasks.length ≤ dag.config.maxWaveWidth
  ordered : ∀ wave ∈ waves, ∀ depWave ∈ waves, ∀ id ∈ wave.tasks,
    ∀ dep ∈ depWave.tasks, dag.edges.Has id dep → depWave.index < wave.index

instance (dag : UnifiedTaskDag) (waves : List ExecutionWave) :
    Decidable (dag.WavesValid waves) :=
  decidable_of_iff
    (waves.map ExecutionWave.index = List.range waves.length ∧
      (waves.flatMap ExecutionWave.tasks).Perm dag.nodes ∧
      (dag.config.maxWaveWidth ≠ 0 →
        ∀ wave ∈ waves, wave.tasks.length ≤ dag.config.maxWaveWidth) ∧
      ∀ wave ∈ waves, ∀ depWave ∈ waves, ∀ id ∈ wave.tasks,
        ∀ dep ∈ depWave.tasks, dag.edges.Has id dep →
          depWave.index < wave.index)
    ⟨fun ⟨numbered, once, bounded, ordered⟩ => ⟨numbered, once, bounded, ordered⟩,
      fun valid => ⟨valid.numbered, valid.once, valid.bounded, valid.ordered⟩⟩

/-- The tasks with a smaller id leave room for the task in the wave: over every
window of depths that ends at the index, there are fewer of them than the waves
of the window can hold. -/
def HasRoom (dag : UnifiedTaskDag) (id : GlobalTaskId) (index : Nat) : Prop :=
  ∀ first ≤ index,
    (dag.nodes.toFinset.filter fun other =>
      other < id ∧ first ≤ dag.depth other ∧ dag.depth other ≤ index).card <
        dag.config.maxWaveWidth * (index - first + 1)

/-- Each dependency finds room, at or after its own depth, before its dependent
does. -/
def RoomInOrder (dag : UnifiedTaskDag) : Prop :=
  ∀ id dep, dag.edges.Has id dep →
    ∃ index, dag.depth dep ≤ index ∧ dag.HasRoom dep index ∧
      ∀ other, dag.depth id ≤ other → other ≤ index → ¬ dag.HasRoom id other

variable {dag : UnifiedTaskDag}

/-- The wave has room for the task. -/
def Fits (dag : UnifiedTaskDag) (id : GlobalTaskId) (index : Nat) : Prop :=
  BatchQueue.smaller id (dag.waveQueue index) < dag.waveWidth

theorem arrived_atDepth (consistent : dag.Consistent) (id : GlobalTaskId)
    (first last : Nat) :
    BatchQueue.arrived id dag.atDepth first last =
      (dag.nodes.toFinset.filter fun other =>
        other < id ∧ first ≤ dag.depth other ∧ dag.depth other ≤ last).card := by
  unfold BatchQueue.arrived
  rw [Finset.card_eq_sum_card_fiberwise (f := dag.depth)
    (t := Finset.Ico first (last + 1))]
  · apply Finset.sum_congr rfl
    intro level window
    have bounds := Finset.mem_Ico.mp window
    have nodup : ((dag.atDepth level).filter fun other => other < id).Nodup :=
      ((sorted_atDepth consistent level).imp fun less => less.ne).filter _
    rw [BatchQueue.smaller, List.countP_eq_length_filter,
      ← List.toFinset_card_of_nodup nodup]
    congr 1
    ext other
    simp only [List.mem_toFinset, List.mem_filter, mem_atDepth,
      Finset.mem_filter, decide_eq_true_eq]
    constructor
    · rintro ⟨⟨listed, rfl⟩, less⟩
      exact ⟨⟨listed, less, by omega, by omega⟩, rfl⟩
    · rintro ⟨⟨listed, less, -, -⟩, same⟩
      exact ⟨⟨listed, same⟩, less⟩
  · intro other member
    have bounds := (Finset.mem_filter.mp member).2
    exact Finset.mem_coe.mpr (Finset.mem_Ico.mpr (by omega))

theorem fits_iff_hasRoom (consistent : dag.Consistent)
    (limited : dag.config.maxWaveWidth ≠ 0) (id : GlobalTaskId) (index : Nat) :
    dag.Fits id index ↔ dag.HasRoom id index := by
  have width : dag.waveWidth = dag.config.maxWaveWidth := if_neg limited
  unfold Fits waveQueue HasRoom
  rw [BatchQueue.smaller_queue_lt_iff (fresh_atDepth consistent) id dag.waveWidth_pos]
  simp only [arrived_atDepth consistent, width]

/-- Without a limit every task fits at once. -/
theorem fits_of_unlimited (consistent : dag.Consistent)
    (unlimited : dag.config.maxWaveWidth = 0) (id : GlobalTaskId) (index : Nat) :
    dag.Fits id index := by
  have width : dag.waveWidth = dag.nodes.length + 1 := if_pos unlimited
  unfold Fits
  rw [width]
  calc BatchQueue.smaller id (dag.waveQueue index)
      ≤ (dag.waveQueue index).length := List.countP_le_length
    _ ≤ dag.nodes.length := length_waveQueue_le consistent index
    _ < dag.nodes.length + 1 := Nat.lt_succ_self _

/-- A task stands in the first wave, from its depth on, that it fits into. -/
theorem mem_batch_iff_fits (consistent : dag.Consistent) {id : GlobalTaskId}
    (listed : id ∈ dag.nodes) (index : Nat) :
    id ∈ (dag.waveQueue index).take dag.waveWidth ↔
      dag.depth id ≤ index ∧ dag.Fits id index ∧
        ∀ earlier, dag.depth id ≤ earlier → earlier < index →
          ¬ dag.Fits id earlier :=
  BatchQueue.mem_batch_iff (fresh_atDepth consistent) List.not_mem_nil
    (mem_atDepth.mpr ⟨listed, rfl⟩) dag.waveWidth index

theorem mem_nodes_of_mem_batch {id : GlobalTaskId} {index : Nat}
    (served : id ∈ (dag.waveQueue index).take dag.waveWidth) : id ∈ dag.nodes := by
  rcases BatchQueue.mem_arrivals_of_mem_queue (List.mem_of_mem_take served) with
    waits | ⟨level, arrives⟩
  · cases waits
  · exact (mem_atDepth.mp arrives).1

theorem batch_unique (consistent : dag.Consistent) {id : GlobalTaskId}
    {first second : Nat}
    (inFirst : id ∈ (dag.waveQueue first).take dag.waveWidth)
    (inSecond : id ∈ (dag.waveQueue second).take dag.waveWidth) :
    first = second := by
  have listed := mem_nodes_of_mem_batch inFirst
  obtain ⟨firstAfter, firstFits, firstLeast⟩ :=
    (mem_batch_iff_fits consistent listed first).mp inFirst
  obtain ⟨secondAfter, secondFits, secondLeast⟩ :=
    (mem_batch_iff_fits consistent listed second).mp inSecond
  rcases Nat.lt_trichotomy first second with before | same | after
  · exact absurd firstFits (secondLeast first firstAfter before)
  · exact same
  · exact absurd secondFits (firstLeast second secondAfter after)

/-- Every task is served, at the latest when the queue is empty. -/
theorem exists_batch (consistent : dag.Consistent) {total : Nat}
    (done : ∀ index, total ≤ index → dag.waveQueue index = [])
    {id : GlobalTaskId} (listed : id ∈ dag.nodes) :
    ∃ index < total, id ∈ (dag.waveQueue index).take dag.waveWidth := by
  classical
  have eventually : ∃ index, dag.depth id ≤ index ∧ dag.Fits id index := by
    refine ⟨max total (dag.depth id), le_max_right _ _, ?_⟩
    unfold Fits
    rw [done _ (le_max_left _ _)]
    exact dag.waveWidth_pos
  obtain ⟨after, fits⟩ := Nat.find_spec eventually
  have served := (mem_batch_iff_fits consistent listed (Nat.find eventually)).mpr
    ⟨after, fits, fun earlier later before fitsEarlier =>
      Nat.find_min eventually before ⟨later, fitsEarlier⟩⟩
  refine ⟨Nat.find eventually, ?_, served⟩
  by_contra late
  rw [done _ (not_lt.mp late)] at served
  simp at served

theorem mem_cutWaves {total : Nat} {wave : ExecutionWave} :
    wave ∈ dag.cutWaves total ↔ ∃ index < total,
      dag.wave index ((dag.waveQueue index).take dag.waveWidth) = wave := by
  simp [cutWaves]

/-- The parts that hold whatever the width is. -/
theorem once_cutWaves (consistent : dag.Consistent) {total : Nat}
    (done : ∀ index, total ≤ index → dag.waveQueue index = []) :
    ((dag.cutWaves total).flatMap ExecutionWave.tasks).Perm dag.nodes := by
  have flat : (dag.cutWaves total).flatMap ExecutionWave.tasks =
      (List.range total).flatMap fun index =>
        (dag.waveQueue index).take dag.waveWidth := by
    rw [cutWaves, List.flatMap_map]
    rfl
  have batchNodup : ∀ index,
      ((dag.waveQueue index).take dag.waveWidth).Nodup := by
    intro index
    have sorted := (fresh_atDepth consistent).sorted_queue dag.waveWidth index
    exact (sorted.imp fun less => less.ne).sublist (List.take_sublist _ _)
  have nodup : ((List.range total).flatMap fun index =>
      (dag.waveQueue index).take dag.waveWidth).Nodup := by
    rw [List.nodup_flatMap]
    refine ⟨fun index _ => batchNodup index, ?_⟩
    apply List.pairwise_lt_range.imp
    intro first second less id inFirst inSecond
    exact less.ne (batch_unique consistent inFirst inSecond)
  rw [flat]
  apply (List.perm_ext_iff_of_nodup nodup
    (consistent.sorted.imp fun less => less.ne)).mpr
  intro id
  rw [List.mem_flatMap]
  constructor
  · rintro ⟨index, -, served⟩
    exact mem_nodes_of_mem_batch served
  · intro listed
    obtain ⟨index, bounded, served⟩ := exists_batch consistent done listed
    exact ⟨index, List.mem_range.mpr bounded, served⟩

theorem bounded_cutWaves (limited : dag.config.maxWaveWidth ≠ 0) {total : Nat}
    {wave : ExecutionWave} (member : wave ∈ dag.cutWaves total) :
    wave.tasks.length ≤ dag.config.maxWaveWidth := by
  obtain ⟨index, -, rfl⟩ := mem_cutWaves.mp member
  have width : dag.waveWidth = dag.config.maxWaveWidth := if_neg limited
  show ((dag.waveQueue index).take dag.waveWidth).length ≤ _
  rw [List.length_take, width]
  exact Nat.min_le_left _ _

/-- A dependency stands in an earlier wave exactly when it fits into some wave
before its dependent does. -/
theorem earlier_iff (consistent : dag.Consistent) {id dep : GlobalTaskId}
    {index depIndex : Nat}
    (served : id ∈ (dag.waveQueue index).take dag.waveWidth)
    (depServed : dep ∈ (dag.waveQueue depIndex).take dag.waveWidth) :
    depIndex < index ↔
      ∃ room, dag.depth dep ≤ room ∧ dag.Fits dep room ∧
        ∀ other, dag.depth id ≤ other → other ≤ room → ¬ dag.Fits id other := by
  obtain ⟨after, fits, least⟩ := (mem_batch_iff_fits consistent
    (mem_nodes_of_mem_batch served) index).mp served
  obtain ⟨depAfter, depFits, depLeast⟩ := (mem_batch_iff_fits consistent
    (mem_nodes_of_mem_batch depServed) depIndex).mp depServed
  constructor
  · intro before
    exact ⟨depIndex, depAfter, depFits,
      fun other later bounded => least other later (by omega)⟩
  · rintro ⟨room, depBefore, roomFits, full⟩
    have notLater : depIndex ≤ room := by
      by_contra late
      exact depLeast room depBefore (by omega) roomFits
    by_contra notBefore
    exact full index after (by omega) fits

theorem ordered_cutWaves_iff (consistent : dag.Consistent) {total : Nat}
    (done : ∀ index, total ≤ index → dag.waveQueue index = []) :
    (∀ wave ∈ dag.cutWaves total, ∀ depWave ∈ dag.cutWaves total,
      ∀ id ∈ wave.tasks, ∀ dep ∈ depWave.tasks, dag.edges.Has id dep →
        depWave.index < wave.index) ↔
    ∀ id dep, dag.edges.Has id dep →
      ∃ room, dag.depth dep ≤ room ∧ dag.Fits dep room ∧
        ∀ other, dag.depth id ≤ other → other ≤ room → ¬ dag.Fits id other := by
  constructor
  · intro ordered id dep edge
    obtain ⟨idListed, depListed⟩ := consistent.endpoints id dep edge
    rw [← consistent.mem_nodes] at idListed depListed
    obtain ⟨index, bounded, served⟩ := exists_batch consistent done idListed
    obtain ⟨depIndex, depBounded, depServed⟩ :=
      exists_batch consistent done depListed
    rw [← earlier_iff consistent served depServed]
    exact ordered _ (mem_cutWaves.mpr ⟨index, bounded, rfl⟩) _
      (mem_cutWaves.mpr ⟨depIndex, depBounded, rfl⟩) id served dep depServed edge
  · intro rooms wave member depWave depMember id served dep depServed edge
    obtain ⟨index, -, rfl⟩ := mem_cutWaves.mp member
    obtain ⟨depIndex, -, rfl⟩ := mem_cutWaves.mp depMember
    exact (earlier_iff consistent served depServed).mpr (rooms id dep edge)

/-- For every built graph, `waves` succeeds with every task in one wave, no wave
too wide and every dependency in an earlier wave exactly when the width is
unbounded or each dependency finds room before its dependent. -/
theorem waves_valid_iff_roomInOrder
    {planTasks : Std.ExtTreeMap String (List Task)}
    {planDeps : SetMap String String} {config : DagConfig}
    {dag : UnifiedTaskDag}
    (built : UnifiedTaskDag.build planTasks planDeps config = .ok dag) :
    (∃ waves, dag.waves = .ok waves ∧ dag.WavesValid waves) ↔
      dag.config.maxWaveWidth = 0 ∨ dag.RoomInOrder := by
  have consistent := consistent_build built
  obtain ⟨total, laid, done⟩ := waves_eq_cutWaves consistent
  have ordered := ordered_cutWaves_iff consistent done
  constructor
  · rintro ⟨waves, returned, valid⟩
    rw [laid] at returned
    rw [← Except.ok.inj returned] at valid
    by_cases unlimited : dag.config.maxWaveWidth = 0
    · exact Or.inl unlimited
    · right
      have rooms := ordered.mp valid.ordered
      simp only [fits_iff_hasRoom consistent unlimited] at rooms
      exact rooms
  · intro condition
    refine ⟨dag.cutWaves total, laid, ?_, once_cutWaves consistent done,
      fun limited wave => bounded_cutWaves limited, ordered.mpr ?_⟩
    · simp [cutWaves, Function.comp_def, wave]
    · intro id dep edge
      by_cases unlimited : dag.config.maxWaveWidth = 0
      · refine ⟨dag.depth dep, le_rfl, fits_of_unlimited consistent unlimited _ _, ?_⟩
        intro other later bounded
        have deeper := depth_lt_of_has consistent edge
        omega
      · simp only [fits_iff_hasRoom consistent unlimited]
        exact condition.resolve_left unlimited id dep edge

/-- Whether a graph has waves, and whether they are valid. -/
def validWaves (dag : UnifiedTaskDag) : Option Bool :=
  dag.waves.toOption.map fun waves => decide (dag.WavesValid waves)

theorem validWaves_eq_some_true {dag : UnifiedTaskDag} :
    dag.validWaves = some true ↔
      ∃ waves, dag.waves = .ok waves ∧ dag.WavesValid waves := by
  unfold validWaves
  cases dag.waves with
  | error failure => simp [Except.toOption]
  | ok waves => simp [Except.toOption]

/-- The sample plans have room in order when one task runs at a time. -/
theorem sample_roomInOrder :
    ∃ dag, UnifiedTaskDag.build samplePlans ∅ { maxWaveWidth := 1 } = .ok dag ∧
      dag.config.maxWaveWidth = 1 ∧ dag.RoomInOrder := by
  have ran : (UnifiedTaskDag.build samplePlans ∅ { maxWaveWidth := 1 }).toOption.map
      (fun dag => (dag.config.maxWaveWidth, dag.validWaves)) =
      some (1, some true) := by
    decide +kernel
  obtain ⟨dag, built, reads⟩ := FallibleSteps.ok_of_map_toOption ran
  obtain ⟨width, valid⟩ := Prod.mk.inj reads
  refine ⟨dag, built, width, ?_⟩
  have rooms := (waves_valid_iff_roomInOrder built).mp
    (validWaves_eq_some_true.mp valid)
  exact rooms.resolve_left (by rw [width]; decide)

/-- Two tasks without dependencies and one that depends on the larger of them. -/
def overtakingPlans : Std.ExtTreeMap String (List Task) :=
  (∅ : Std.ExtTreeMap String (List Task)).insert "p"
    [{ id := "a", title := "first" }, { id := "z", title := "last" },
      { id := "b", title := "after last", dependsOn := ["z"] }]

/-- With waves of width one, `p:b` runs before `p:z`, on which it depends. -/
theorem overtakingPlans_waves_invalid :
    ∃ dag, UnifiedTaskDag.build overtakingPlans ∅ { maxWaveWidth := 1 } = .ok dag ∧
      ¬ ∃ waves, dag.waves = .ok waves ∧ dag.WavesValid waves := by
  have ran : (UnifiedTaskDag.build overtakingPlans ∅
      { maxWaveWidth := 1 }).toOption.map validWaves = some (some false) := by
    decide +kernel
  obtain ⟨dag, built, invalid⟩ := FallibleSteps.ok_of_map_toOption ran
  refine ⟨dag, built, ?_⟩
  rw [← validWaves_eq_some_true, invalid]
  decide

end UnifiedTaskDag

end Roko
