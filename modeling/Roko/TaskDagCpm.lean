import Mathlib.Data.List.TakeWhile
import Roko.TaskDagBuild
import Roko.TaskDagInvariant
import Roko.WeightedChains
import Std.Data.String.ToNat

/-!
# The critical path

`cpm_analysis` walks the topological order forwards for the earliest starts and
backwards for the latest ones.  A `Duration` holds its seconds in 64 bits, and its `+`
panics when they do not suffice.
-/

namespace Roko

/-- The panic of `Duration::add`. -/
inductive DurationPanic
  | overflowWhenAdding
  deriving DecidableEq

/-- `Duration + Duration`, in seconds. -/
def addDuration (first second : Nat) : Except DurationPanic Nat :=
  if first + second < 2 ^ 64 then .ok (first + second) else .error .overflowWhenAdding

/-- The tuple that `cpm_analysis` returns. -/
structure Cpm where
  earliest : Std.ExtTreeMap GlobalTaskId Nat
  latest : Std.ExtTreeMap GlobalTaskId Nat
  projectDuration : Nat
  topo : List GlobalTaskId

namespace UnifiedTaskDag

/-- The estimate of the task in seconds. -/
def taskDuration (dag : UnifiedTaskDag) (id : GlobalTaskId) : Nat :=
  match dag.tasks[id]?.bind Task.estimatedMinutes with
  | none => 0
  | some minutes => min (minutes.toNat * 60) (2 ^ 64 - 1)

/-- The turn of the forward loop for one task. -/
def addEarliest (dag : UnifiedTaskDag) (earliest : Std.ExtTreeMap GlobalTaskId Nat)
    (node : GlobalTaskId) : Except DurationPanic (Std.ExtTreeMap GlobalTaskId Nat) := do
  let finishes ← (dag.depsOf node).toList.mapM fun dep =>
    addDuration (earliest[dep]?.getD 0) (dag.taskDuration dep)
  return earliest.insert node (finishes.max?.getD 0)

def addFinish (dag : UnifiedTaskDag) (earliest : Std.ExtTreeMap GlobalTaskId Nat)
    (projectDuration : Nat) (node : GlobalTaskId) : Except DurationPanic Nat := do
  let finish ← addDuration (earliest[node]?.getD 0) (dag.taskDuration node)
  return max projectDuration finish

/-- The turn of the backward loop for one task. -/
def addLatest (dag : UnifiedTaskDag) (projectDuration : Nat)
    (latest : Std.ExtTreeMap GlobalTaskId Nat) (node : GlobalTaskId) :
    Std.ExtTreeMap GlobalTaskId Nat :=
  let latestFinish := ((dag.dependentsOf node).toList.map fun dep =>
    latest[dep]?.getD projectDuration).min?.getD projectDuration
  latest.insert node (latestFinish - dag.taskDuration node)

def cpmAnalysis (dag : UnifiedTaskDag) : Except DurationPanic (Option Cpm) :=
  match dag.topologicalSort with
  | .error _ => .ok none
  | .ok topo => do
      let earliest ← topo.foldlM dag.addEarliest ∅
      let projectDuration ← topo.foldlM (dag.addFinish earliest) 0
      let latest := topo.reverse.foldl (dag.addLatest projectDuration) ∅
      return some { earliest, latest, projectDuration, topo }

def earliestStart (dag : UnifiedTaskDag) (task : GlobalTaskId) :
    Except DurationPanic Nat := do
  match ← dag.cpmAnalysis with
  | none => return 0
  | some cpm => return cpm.earliest[task]?.getD 0

def latestStart (dag : UnifiedTaskDag) (task : GlobalTaskId) :
    Except DurationPanic Nat := do
  match ← dag.cpmAnalysis with
  | none => return 0
  | some cpm => return cpm.latest[task]?.getD 0

def slack (dag : UnifiedTaskDag) (task : GlobalTaskId) : Except DurationPanic Nat := do
  let latest ← dag.latestStart task
  let earliest ← dag.earliestStart task
  return latest - earliest

/-- The tasks without slack, in the order of the sort. -/
def criticalPath (dag : UnifiedTaskDag) : Except DurationPanic (List GlobalTaskId) := do
  match ← dag.cpmAnalysis with
  | none => return []
  | some cpm =>
      return cpm.topo.filter fun id =>
        match cpm.earliest[id]?, cpm.latest[id]? with
        | some earliest, some latest => latest - earliest == 0
        | _, _ => false

/-- The analysis is that of the longest chains, and what is subtracted is never more than
what it is subtracted from. -/
structure CpmLawful (dag : UnifiedTaskDag) (cpm : Cpm) : Prop where
  earliest : ∀ id ∈ dag.nodes, ∃ earliest, dag.earliestStart id = .ok earliest ∧
    IsGreatest (WeightedChains.TotalsBefore dag.edges.Has dag.taskDuration id) earliest
  projectDuration : IsGreatest
    (WeightedChains.Totals dag.edges.Has dag.taskDuration dag.nodes) cpm.projectDuration
  latest : ∀ id ∈ dag.nodes, ∃ earliest latest, dag.earliestStart id = .ok earliest ∧
    dag.latestStart id = .ok latest ∧ dag.slack id = .ok (latest - earliest) ∧
    earliest ≤ latest ∧ latest + dag.taskDuration id ≤ cpm.projectDuration ∧
    ∀ dependent, dag.edges.Has dependent id → ∃ later,
      dag.latestStart dependent = .ok later ∧ latest + dag.taskDuration id ≤ later
  critical : ∃ path, dag.criticalPath = .ok path ∧
    (∀ id, id ∈ path ↔ id ∈ dag.nodes ∧ dag.slack id = .ok 0) ∧
    ∃ chain, WeightedChains.Chained dag.edges.Has chain ∧ (∀ id ∈ chain, id ∈ path) ∧
      WeightedChains.total dag.taskDuration chain = cpm.projectDuration ∧
      (dag.nodes ≠ [] → chain ≠ [])

theorem addDuration_ok_iff {first second sum : Nat} :
    addDuration first second = .ok sum ↔ first + second < 2 ^ 64 ∧ sum = first + second := by
  unfold addDuration
  split
  case isTrue fits => exact ⟨fun same => ⟨fits, (Except.ok.inj same).symm⟩, by simp_all⟩
  case isFalse overflows => exact ⟨nofun, fun sum => absurd sum.1 overflows⟩

/-- The table with a value for each of the listed tasks. -/
def tabulate (value : GlobalTaskId → Nat) (ids : List GlobalTaskId) :
    Std.ExtTreeMap GlobalTaskId Nat :=
  ids.foldl (fun table id => table.insert id (value id)) ∅

theorem tabulate_concat (value : GlobalTaskId → Nat) (ids : List GlobalTaskId)
    (last : GlobalTaskId) :
    tabulate value (ids ++ [last]) = (tabulate value ids).insert last (value last) := by
  simp [tabulate]

theorem getElem?_tabulate (value : GlobalTaskId → Nat) (ids : List GlobalTaskId)
    (id : GlobalTaskId) :
    (tabulate value ids)[id]? = if id ∈ ids then some (value id) else none := by
  induction ids using List.reverseRecOn with
  | nil => simp [tabulate]
  | append_singleton ids last ih =>
      rw [tabulate_concat, Std.ExtTreeMap.getElem?_insert, ih]
      by_cases same : last = id
      · simp [same]
      · simp [same, Ne.symm same]

/-- When the task starts at the earliest. -/
noncomputable def start (dag : UnifiedTaskDag) (id : GlobalTaskId) : Nat :=
  WeightedChains.start dag.edges.Has dag.taskDuration id

/-- How long the tasks after the task take at least. -/
noncomputable def rest (dag : UnifiedTaskDag) (id : GlobalTaskId) : Nat :=
  WeightedChains.rest dag.edges.Has dag.taskDuration id

noncomputable def longest (dag : UnifiedTaskDag) (topo : List GlobalTaskId) : Nat :=
  WeightedChains.longest dag.edges.Has dag.taskDuration topo

/-- The end of the task is a `Duration`. -/
def MinutesFit (dag : UnifiedTaskDag) (id : GlobalTaskId) : Prop :=
  dag.start id + dag.taskDuration id < 2 ^ 64

variable {dag : UnifiedTaskDag} {topo : List GlobalTaskId}

theorem has_iff_mem_depsOf (dag : UnifiedTaskDag) (id dep : GlobalTaskId) :
    dag.edges.Has id dep ↔ dep ∈ (dag.depsOf id).toList := by
  rw [Std.ExtTreeSet.mem_toList, mem_depsOf]

theorem has_iff_mem_dependentsOf (indexed : dag.Indexed) (id dependent : GlobalTaskId) :
    dag.edges.Has dependent id ↔ dependent ∈ (dag.dependentsOf id).toList := by
  rw [Std.ExtTreeSet.mem_toList, mem_dependentsOf indexed]

theorem addEarliest_ok_iff {last : GlobalTaskId}
    (ordered : DependencyGraph.Ordered dag.edges.Has (topo ++ [last]))
    {table : Std.ExtTreeMap GlobalTaskId Nat} :
    dag.addEarliest (tabulate dag.start topo) last = .ok table ↔
      table = (tabulate dag.start topo).insert last (dag.start last) ∧
        ∀ dep, dag.edges.Has last dep → dag.MinutesFit dep := by
  have listed := has_iff_mem_depsOf dag last
  have earlier : ∀ dep ∈ (dag.depsOf last).toList, dep ∈ topo :=
    fun dep member => ordered topo last [] rfl dep ((listed dep).mpr member)
  have stored : ∀ dep ∈ (dag.depsOf last).toList,
      (tabulate dag.start topo)[dep]?.getD 0 = dag.start dep := by
    intro dep member
    rw [getElem?_tabulate, if_pos (earlier dep member), Option.getD_some]
  have starts : ∀ dep ∈ topo,
      WeightedChains.HasStart dag.edges.Has dag.taskDuration dep :=
    WeightedChains.hasStart_of_ordered (has_iff_mem_depsOf dag) ordered.of_append
  have started : dag.start last = (((dag.depsOf last).toList.map fun dep =>
      dag.start dep + dag.taskDuration dep).max?.getD 0) :=
    (WeightedChains.HasStart.of_isGreatest (WeightedChains.isGreatest_totalsBefore listed
      fun dep member => starts dep (earlier dep member))).2
  have finishes : (dag.depsOf last).toList.map (fun dep =>
      (tabulate dag.start topo)[dep]?.getD 0 + dag.taskDuration dep) =
      (dag.depsOf last).toList.map fun dep => dag.start dep + dag.taskDuration dep :=
    List.map_congr_left fun dep member => by rw [stored dep member]
  have returns : ∀ dep value, addDuration ((tabulate dag.start topo)[dep]?.getD 0)
      (dag.taskDuration dep) = .ok value →
      value = (tabulate dag.start topo)[dep]?.getD 0 + dag.taskDuration dep :=
    fun dep value sum => (addDuration_ok_iff.mp sum).2
  unfold addEarliest
  constructor
  · intro ran
    obtain ⟨values, sums, returned⟩ := FallibleSteps.bind_ok ran
    obtain ⟨rfl, fit⟩ := (FallibleSteps.mapM_ok_iff returns).mp sums
    cases returned
    rw [finishes, ← started]
    refine ⟨rfl, fun dep need => ?_⟩
    have member := (listed dep).mp need
    have fits := (addDuration_ok_iff.mp (fit dep member)).1
    rwa [stored dep member] at fits
  · rintro ⟨rfl, fits⟩
    have sums := (FallibleSteps.mapM_ok_iff returns).mpr
      ⟨rfl, fun dep member => addDuration_ok_iff.mpr
        ⟨by rw [stored dep member]; exact fits dep ((listed dep).mpr member), rfl⟩⟩
    rw [sums, finishes, started]
    rfl

theorem foldlM_addEarliest_ok_iff (ordered : DependencyGraph.Ordered dag.edges.Has topo)
    {table : Std.ExtTreeMap GlobalTaskId Nat} :
    topo.foldlM dag.addEarliest ∅ = .ok table ↔
      table = tabulate dag.start topo ∧
        ∀ id ∈ topo, ∀ dep, dag.edges.Has id dep → dag.MinutesFit dep := by
  induction topo using List.reverseRecOn generalizing table with
  | nil => simp [tabulate, pure, Except.pure, eq_comm]
  | append_singleton topo last ih =>
      rw [FallibleSteps.foldlM_concat_ok_iff, tabulate_concat, List.forall_mem_append,
        List.forall_mem_singleton]
      simp only [ih ordered.of_append]
      constructor
      · rintro ⟨-, ⟨rfl, fits⟩, stepped⟩
        obtain ⟨rfl, lastFits⟩ := (addEarliest_ok_iff ordered).mp stepped
        exact ⟨rfl, fits, lastFits⟩
      · rintro ⟨rfl, fits, lastFits⟩
        exact ⟨_, ⟨rfl, fits⟩, (addEarliest_ok_iff ordered).mpr ⟨rfl, lastFits⟩⟩

theorem addFinish_ok_iff {nodes : List GlobalTaskId} {node : GlobalTaskId}
    (listed : node ∈ nodes) {before after : Nat} :
    dag.addFinish (tabulate dag.start nodes) before node = .ok after ↔
      after = max before (dag.start node + dag.taskDuration node) ∧ dag.MinutesFit node := by
  unfold addFinish MinutesFit
  rw [getElem?_tabulate, if_pos listed, Option.getD_some]
  constructor
  · intro ran
    obtain ⟨finish, sum, returned⟩ := FallibleSteps.bind_ok ran
    obtain ⟨fits, rfl⟩ := addDuration_ok_iff.mp sum
    cases returned
    exact ⟨rfl, fits⟩
  · rintro ⟨rfl, fits⟩
    rw [addDuration_ok_iff.mpr ⟨fits, rfl⟩]
    rfl

theorem foldlM_addFinish_ok_iff {nodes : List GlobalTaskId}
    (listed : ∀ id ∈ topo, id ∈ nodes) {duration : Nat} :
    topo.foldlM (dag.addFinish (tabulate dag.start nodes)) 0 = .ok duration ↔
      duration = dag.longest topo ∧ ∀ id ∈ topo, dag.MinutesFit id := by
  unfold longest WeightedChains.longest
  induction topo using List.reverseRecOn generalizing duration with
  | nil => simp [WeightedChains.latestFinish, pure, Except.pure, eq_comm]
  | append_singleton topo last ih =>
      obtain ⟨earlier, lastListed⟩ := List.forall_mem_append.mp listed
      have step : ∀ before after : Nat,
          dag.addFinish (tabulate dag.start nodes) before last = .ok after ↔
            after = max before (dag.start last + dag.taskDuration last) ∧ dag.MinutesFit last :=
        fun before after => addFinish_ok_iff (List.forall_mem_singleton.mp lastListed)
      rw [FallibleSteps.foldlM_concat_ok_iff, WeightedChains.latestFinish_concat,
        List.forall_mem_append, List.forall_mem_singleton]
      simp only [ih earlier, step]
      constructor
      · rintro ⟨-, ⟨rfl, fits⟩, rfl, lastFits⟩
        exact ⟨rfl, fits, lastFits⟩
      · rintro ⟨rfl, fits, lastFits⟩
        exact ⟨_, ⟨rfl, fits⟩, rfl, lastFits⟩

theorem min?_map_sub {Item : Type} (whole : Nat) (value : Item → Nat) (items : List Item) :
    (items.map fun item => whole - value item).min?.getD whole =
      whole - (items.map value).max?.getD 0 := by
  cases greatest : (items.map value).max? with
  | none =>
      have empty : items = [] := by
        simpa [List.max?_eq_none_iff] using greatest
      simp [empty]
  | some top =>
      obtain ⟨member, bounded⟩ := List.max?_eq_some_iff.mp greatest
      obtain ⟨item, listed, rfl⟩ := List.mem_map.mp member
      have least : (items.map fun item => whole - value item).min? =
          some (whole - value item) := by
        refine List.min?_eq_some_iff.mpr ⟨List.mem_map_of_mem listed, ?_⟩
        rintro _ other
        obtain ⟨another, also, rfl⟩ := List.mem_map.mp other
        exact Nat.sub_le_sub_left (bounded _ (List.mem_map_of_mem also)) whole
      rw [least]
      rfl

/-- When the task has to start at the latest. -/
noncomputable def deadline (dag : UnifiedTaskDag) (projectDuration : Nat)
    (id : GlobalTaskId) : Nat :=
  projectDuration - (dag.rest id + dag.taskDuration id)

theorem foldl_addLatest (indexed : dag.Indexed) {backward : List GlobalTaskId}
    (ordered : DependencyGraph.Ordered (fun dep id => dag.edges.Has id dep) backward)
    (projectDuration : Nat) :
    backward.foldl (dag.addLatest projectDuration) ∅ =
      tabulate (dag.deadline projectDuration) backward := by
  induction backward using List.reverseRecOn with
  | nil => rfl
  | append_singleton backward last ih =>
      have listed := has_iff_mem_dependentsOf indexed last
      have later : ∀ dependent ∈ (dag.dependentsOf last).toList, dependent ∈ backward :=
        fun dependent member =>
          ordered backward last [] rfl dependent ((listed dependent).mpr member)
      have rests : ∀ id ∈ backward, WeightedChains.HasStart
          (fun dep id => dag.edges.Has id dep) dag.taskDuration id :=
        WeightedChains.hasStart_of_ordered (has_iff_mem_dependentsOf indexed)
          ordered.of_append
      have rested : dag.rest last = (((dag.dependentsOf last).toList.map fun dependent =>
          dag.rest dependent + dag.taskDuration dependent).max?.getD 0) :=
        (WeightedChains.HasStart.of_isGreatest
          (WeightedChains.isGreatest_totalsBefore listed
            fun dependent member => rests dependent (later dependent member))).2
      have stored : (dag.dependentsOf last).toList.map (fun dependent =>
          (tabulate (dag.deadline projectDuration) backward)[dependent]?.getD
            projectDuration) =
          (dag.dependentsOf last).toList.map fun dependent =>
            projectDuration - (dag.rest dependent + dag.taskDuration dependent) := by
        apply List.map_congr_left
        intro dependent member
        rw [getElem?_tabulate, if_pos (later dependent member)]
        rfl
      rw [List.foldl_concat, ih ordered.of_append, tabulate_concat]
      unfold addLatest
      rw [stored, min?_map_sub, ← rested]
      dsimp only
      rw [Nat.sub_sub]
      rfl

theorem mem_topo (indexed : dag.Indexed) (sorted : dag.topologicalSort = .ok topo)
    {id : GlobalTaskId} : id ∈ topo ↔ id ∈ dag.nodes :=
  (topologicalSort_ok indexed sorted).1.mem_iff

theorem endpoints_topo (indexed : dag.Indexed) (sorted : dag.topologicalSort = .ok topo)
    (id dep : GlobalTaskId) (edge : dag.edges.Has id dep) : id ∈ topo ∧ dep ∈ topo := by
  rw [mem_topo indexed sorted, mem_topo indexed sorted, indexed.mem_nodes,
    indexed.mem_nodes]
  exact indexed.endpoints id dep edge

theorem starts_topo (indexed : dag.Indexed) (sorted : dag.topologicalSort = .ok topo) :
    ∀ id ∈ topo, WeightedChains.HasStart dag.edges.Has dag.taskDuration id :=
  WeightedChains.hasStart_of_ordered (has_iff_mem_depsOf dag)
    (topologicalSort_ok indexed sorted).2

theorem ordered_reverse_topo (indexed : dag.Indexed)
    (sorted : dag.topologicalSort = .ok topo) :
    DependencyGraph.Ordered (fun dep id => dag.edges.Has id dep) topo.reverse := by
  obtain ⟨perm, ordered⟩ := topologicalSort_ok indexed sorted
  apply ordered.reverse
  · exact perm.nodup_iff.mpr (indexed.sorted.imp ne_of_lt)
  · exact fun id dep edge => (endpoints_topo indexed sorted id dep edge).1

theorem rests_topo (indexed : dag.Indexed) (sorted : dag.topologicalSort = .ok topo) :
    ∀ id ∈ topo, WeightedChains.HasStart (fun dep id => dag.edges.Has id dep)
      dag.taskDuration id := by
  intro id listed
  exact WeightedChains.hasStart_of_ordered (has_iff_mem_dependentsOf indexed)
    (ordered_reverse_topo indexed sorted) id (List.mem_reverse.mpr listed)

/-- The analysis along a topological order. -/
noncomputable def expectedCpm (dag : UnifiedTaskDag) (topo : List GlobalTaskId) : Cpm where
  earliest := tabulate dag.start topo
  latest := tabulate (dag.deadline (dag.longest topo)) topo.reverse
  projectDuration := dag.longest topo
  topo := topo

theorem cpmAnalysis_ok_iff (indexed : dag.Indexed)
    (sorted : dag.topologicalSort = .ok topo) {cpm : Cpm} :
    dag.cpmAnalysis = .ok (some cpm) ↔
      cpm = dag.expectedCpm topo ∧ ∀ id ∈ topo, dag.MinutesFit id := by
  have ordered := (topologicalSort_ok indexed sorted).2
  have backward := foldl_addLatest indexed (ordered_reverse_topo indexed sorted)
    (dag.longest topo)
  unfold cpmAnalysis expectedCpm
  rw [sorted]
  dsimp only
  constructor
  · intro ran
    obtain ⟨earliest, forward, ran⟩ := FallibleSteps.bind_ok ran
    obtain ⟨rfl, -⟩ := (foldlM_addEarliest_ok_iff ordered).mp forward
    obtain ⟨duration, finishes, returned⟩ := FallibleSteps.bind_ok ran
    obtain ⟨rfl, fits⟩ := (foldlM_addFinish_ok_iff fun _ listed => listed).mp finishes
    cases returned
    rw [backward]
    exact ⟨rfl, fits⟩
  · rintro ⟨rfl, fits⟩
    have forward := (foldlM_addEarliest_ok_iff ordered).mpr
      ⟨rfl, fun id _ dep edge => fits dep (endpoints_topo indexed sorted id dep edge).2⟩
    have finishes : topo.foldlM (dag.addFinish (tabulate dag.start topo)) 0 =
        .ok (dag.longest topo) :=
      (foldlM_addFinish_ok_iff fun _ listed => listed).mpr ⟨rfl, fits⟩
    rw [forward]
    change (topo.foldlM (dag.addFinish (tabulate dag.start topo)) 0 >>= _) = _
    rw [finishes, ← backward]
    rfl

section Analysed

variable (indexed : dag.Indexed) (sorted : dag.topologicalSort = .ok topo)
  (analysed : dag.cpmAnalysis = .ok (some (dag.expectedCpm topo)))
include analysed

theorem earliestStart_eq {id : GlobalTaskId} (listed : id ∈ topo) :
    dag.earliestStart id = .ok (dag.start id) := by
  unfold earliestStart
  rw [analysed]
  change Except.ok ((tabulate dag.start topo)[id]?.getD 0) = _
  rw [getElem?_tabulate, if_pos listed, Option.getD_some]

theorem latestStart_eq {id : GlobalTaskId} (listed : id ∈ topo) :
    dag.latestStart id = .ok (dag.deadline (dag.longest topo) id) := by
  unfold latestStart
  rw [analysed]
  change Except.ok ((tabulate (dag.deadline (dag.longest topo)) topo.reverse)[id]?.getD 0) =
    _
  rw [getElem?_tabulate, if_pos (List.mem_reverse.mpr listed), Option.getD_some]

theorem slack_eq {id : GlobalTaskId} (listed : id ∈ topo) :
    dag.slack id = .ok (dag.deadline (dag.longest topo) id - dag.start id) := by
  unfold slack
  rw [latestStart_eq analysed listed, earliestStart_eq analysed listed]
  rfl

theorem exists_criticalPath :
    ∃ path, dag.criticalPath = .ok path ∧
      ∀ id, id ∈ path ↔ id ∈ topo ∧ dag.slack id = .ok 0 := by
  refine ⟨_, by unfold criticalPath; rw [analysed]; rfl, fun id => ?_⟩
  rw [List.mem_filter]
  refine and_congr_right fun listed => ?_
  have early : (dag.expectedCpm topo).earliest[id]? = some (dag.start id) :=
    (getElem?_tabulate _ _ id).trans (if_pos listed)
  have late : (dag.expectedCpm topo).latest[id]? =
      some (dag.deadline (dag.longest topo) id) :=
    (getElem?_tabulate _ _ id).trans (if_pos (List.mem_reverse.mpr listed))
  rw [early, late, slack_eq analysed listed]
  simp

include indexed sorted

theorem cpmLawful_expectedCpm : dag.CpmLawful (dag.expectedCpm topo) := by
  have endpoints := endpoints_topo indexed sorted
  have starts := starts_topo indexed sorted
  have rests := rests_topo indexed sorted
  have listed {id : GlobalTaskId} (member : id ∈ dag.nodes) : id ∈ topo :=
    (mem_topo indexed sorted).mpr member
  have fits {id : GlobalTaskId} (member : id ∈ topo) :
      dag.start id + dag.taskDuration id + dag.rest id ≤ dag.longest topo :=
    WeightedChains.start_add_rest_le endpoints starts rests member
  constructor
  · intro id member
    exact ⟨_, earliestStart_eq analysed (listed member), starts id (listed member)⟩
  · have same : WeightedChains.Totals dag.edges.Has dag.taskDuration dag.nodes =
        WeightedChains.Totals dag.edges.Has dag.taskDuration topo := by
      simp only [WeightedChains.Totals, mem_topo indexed sorted]
    rw [same]
    exact WeightedChains.isGreatest_totals endpoints starts
  · intro id member
    have here := listed member
    have whole := fits here
    refine ⟨_, _, earliestStart_eq analysed here, latestStart_eq analysed here,
      slack_eq analysed here, ?_, ?_, fun dependent edge => ?_⟩
    · unfold deadline
      omega
    · change dag.deadline _ id + dag.taskDuration id ≤ dag.longest topo
      unfold deadline
      omega
    · have later := (endpoints dependent id edge).1
      refine ⟨_, latestStart_eq analysed later, ?_⟩
      have between : dag.rest dependent + dag.taskDuration dependent ≤ dag.rest id :=
        (rests id here).2 (WeightedChains.mem_totalsBefore_iff.mpr
          (Or.inr ⟨dependent, edge, _, (rests dependent later).1, rfl⟩))
      have wholeLater := fits later
      unfold deadline
      omega
  · obtain ⟨path, returned, members⟩ := exists_criticalPath analysed
    obtain ⟨chain, chained, inside, heaviest, nonempty⟩ :=
      WeightedChains.exists_longest_chain endpoints starts
    have tight := WeightedChains.start_add_rest_eq endpoints starts rests chained inside
      heaviest
    refine ⟨path, returned, fun id => ?_, chain, chained, fun id member => ?_, heaviest,
      fun present => nonempty fun empty => present ?_⟩
    · rw [members, mem_topo indexed sorted]
    · have here := inside id member
      have whole : dag.start id + dag.taskDuration id + dag.rest id = dag.longest topo :=
        tight id member
      refine (members id).mpr ⟨here, ?_⟩
      rw [slack_eq analysed here]
      unfold deadline
      congr 1
      omega
    · rw [List.eq_nil_iff_forall_not_mem] at empty ⊢
      exact fun id member => empty id (listed member)

end Analysed

theorem minutesFit_iff (indexed : dag.Indexed) (sorted : dag.topologicalSort = .ok topo) :
    (∀ id ∈ topo, dag.MinutesFit id) ↔
      ∀ sum ∈ WeightedChains.Totals dag.edges.Has dag.taskDuration dag.nodes,
        sum < 2 ^ 64 := by
  have endpoints := endpoints_topo indexed sorted
  have starts := starts_topo indexed sorted
  constructor
  · rintro fits sum ⟨chain, chained, listed, rfl⟩
    have bounded := WeightedChains.total_le_longest starts chained fun id member =>
      (mem_topo indexed sorted).mpr (listed id member)
    refine bounded.trans_lt ?_
    by_cases empty : topo = []
    · rw [empty]
      exact Nat.two_pow_pos 64
    · obtain ⟨id, member, same⟩ := WeightedChains.exists_latestFinish
        (fun id => WeightedChains.start dag.edges.Has dag.taskDuration id +
          dag.taskDuration id) empty
      exact same.trans_lt (fits id member)
  · intro bounded id member
    obtain ⟨chain, chained, sum⟩ := (starts id member).1
    have inside := WeightedChains.mem_of_chained_concat endpoints chained
    have whole := bounded _ ⟨chain ++ [id], chained, fun other listed => ?_, rfl⟩
    · rw [WeightedChains.total_append, WeightedChains.total_cons,
        WeightedChains.total_nil, sum] at whole
      exact whole
    · rw [← mem_topo indexed sorted]
      rcases List.mem_append.mp listed with before | here
      · exact inside other before
      · rwa [List.mem_singleton.mp here]

theorem cpmAnalysis_ne_none (sorted : dag.topologicalSort = .ok topo) :
    dag.cpmAnalysis ≠ .ok none := by
  intro ran
  unfold cpmAnalysis at ran
  rw [sorted] at ran
  obtain ⟨earliest, -, ran⟩ := FallibleSteps.bind_ok ran
  obtain ⟨duration, -, returned⟩ := FallibleSteps.bind_ok ran
  cases returned

/-- On every graph without a cycle the analysis either is lawful, when every chain of
dependencies is a `Duration`, or panics. -/
theorem cpmAnalysis_lawful (dag : UnifiedTaskDag) (indexed : dag.Indexed)
    (acyclic : DependencyGraph.Acyclic dag.edges.Has) :
    ((∀ sum ∈ WeightedChains.Totals dag.edges.Has dag.taskDuration dag.nodes,
        sum < 2 ^ 64) →
      ∃ cpm, dag.cpmAnalysis = .ok (some cpm) ∧ dag.CpmLawful cpm) ∧
    ((∃ sum ∈ WeightedChains.Totals dag.edges.Has dag.taskDuration dag.nodes,
        2 ^ 64 ≤ sum) →
      dag.cpmAnalysis = .error .overflowWhenAdding) := by
  obtain ⟨topo, sorted⟩ := (topologicalSort_ok_iff indexed).mpr acyclic
  constructor
  · intro bounded
    have analysed := (cpmAnalysis_ok_iff indexed sorted).mpr
      ⟨rfl, (minutesFit_iff indexed sorted).mpr bounded⟩
    exact ⟨_, analysed, cpmLawful_expectedCpm indexed sorted analysed⟩
  · rintro ⟨sum, member, overflows⟩
    cases ran : dag.cpmAnalysis with
    | error panic => cases panic; rfl
    | ok cpm =>
        cases cpm with
        | none => exact absurd ran (cpmAnalysis_ne_none sorted)
        | some cpm =>
            have fits := ((cpmAnalysis_ok_iff indexed sorted).mp ran).2
            exact absurd ((minutesFit_iff indexed sorted).mp fits sum member) overflows.not_gt

/-- Five minutes, then seven on the one side and one on the other. -/
def estimatedPlans : Std.ExtTreeMap String (List Task) :=
  (∅ : Std.ExtTreeMap String (List Task)).insert "a"
    [{ id := "t1", title := "one", estimatedMinutes := some 5 },
      { id := "t2", title := "two", dependsOn := ["t1"], estimatedMinutes := some 7 },
      { id := "t3", title := "three", dependsOn := ["t1"], estimatedMinutes := some 1 }]

theorem estimatedPlans_cpmLawful :
    ∃ (dag : UnifiedTaskDag) (cpm : Cpm), build estimatedPlans ∅ {} = .ok dag ∧
      dag.cpmAnalysis = .ok (some cpm) ∧ cpm.projectDuration = 720 ∧
      dag.criticalPath = .ok [⟨"a", "t1"⟩, ⟨"a", "t2"⟩] ∧ dag.CpmLawful cpm := by
  have ran : (build estimatedPlans ∅ {}).toOption.map (fun dag =>
      (dag.cpmAnalysis.toOption.map (Option.map Cpm.projectDuration),
        dag.criticalPath.toOption)) =
      some (some (some 720), some [⟨"a", "t1"⟩, ⟨"a", "t2"⟩]) := by
    decide +kernel
  obtain ⟨dag, built, reads⟩ := FallibleSteps.ok_of_map_toOption ran
  obtain ⟨analysed, path⟩ := Prod.mk.inj reads
  have consistent := consistent_build built
  obtain ⟨lawful, panics⟩ :=
    cpmAnalysis_lawful dag consistent.toIndexed consistent.acyclic
  obtain ⟨cpm, returned, ends⟩ := FallibleSteps.ok_of_map_toOption analysed
  have bounded : ∀ sum ∈ WeightedChains.Totals dag.edges.Has dag.taskDuration dag.nodes,
      sum < 2 ^ 64 := by
    intro sum member
    by_contra overflows
    rw [panics ⟨sum, member, not_lt.mp overflows⟩] at returned
    cases returned
  obtain ⟨again, analysedAgain, faithful⟩ := lawful bounded
  rw [returned] at analysedAgain
  cases analysedAgain
  refine ⟨dag, again, built, returned, Option.some.inj ends, ?_, faithful⟩
  cases walked : dag.criticalPath with
  | error panic =>
      rw [walked] at path
      cases path
  | ok tasks =>
      rw [walked] at path
      cases path
      rfl

/-- A task of the longest estimate, behind the one with the number before. -/
def longTask (number : Nat) : Task where
  id := number.repr
  title := "long"
  dependsOn := if number = 0 then [] else [(number - 1).repr]
  estimatedMinutes := some (UInt32.ofNat (2 ^ 32 - 1))

def longPlans (count : Nat) : Std.ExtTreeMap String (List Task) :=
  (∅ : Std.ExtTreeMap String (List Task)).insert "a" ((List.range count).map longTask)

def longId (number : Nat) : GlobalTaskId :=
  ⟨"a", number.repr⟩

theorem resolveDepRef_repr (number : Nat) : resolveDepRef "a" number.repr = longId number := by
  have digits : ∀ character ∈ number.repr.toList, (character != ':') = true := by
    intro character member
    rw [Nat.toList_repr] at member
    have digit := Nat.isDigit_of_mem_toDigits (by decide) (by decide) member
    rw [bne_iff_ne]
    rintro rfl
    exact absurd digit (by decide)
  have unparsed : GlobalTaskId.parse number.repr = none := by
    unfold GlobalTaskId.parse
    rw [List.span_eq_takeWhile_dropWhile, List.dropWhile_eq_nil_iff.mpr digits]
  unfold resolveDepRef
  rw [unparsed]
  rfl

theorem loaded_longPlans_iff {count : Nat} {id : GlobalTaskId} {task : Task} :
    Loaded (longPlans count) id task ↔
      ∃ number < count, id = longId number ∧ task = longTask number := by
  unfold Loaded longPlans
  rw [Std.ExtTreeMap.getElem?_insert]
  constructor
  · rintro ⟨tasks, found, member, named⟩
    split at found
    case isTrue same =>
      cases found
      obtain ⟨number, listed, rfl⟩ := List.mem_map.mp member
      refine ⟨number, List.mem_range.mp listed, ?_, rfl⟩
      have plan : "a" = id.plan := Std.LawfulEqCmp.eq_of_compare same
      obtain ⟨_, _⟩ := id
      exact congrArg₂ GlobalTaskId.mk plan.symm named.symm
    case isFalse => simp at found
  · rintro ⟨number, below, rfl, rfl⟩
    refine ⟨_, if_pos Std.ReflCmp.compare_self, ?_, rfl⟩
    exact List.mem_map_of_mem (List.mem_range.mpr below)

theorem distinct_longPlans (count : Nat) (plan : String) (tasks : List Task)
    (found : (longPlans count)[plan]? = some tasks) : (tasks.map Task.id).Nodup := by
  unfold longPlans at found
  rw [Std.ExtTreeMap.getElem?_insert] at found
  split at found
  case isTrue same =>
    cases found
    rw [List.map_map]
    exact List.nodup_range.map fun first second same => Nat.repr_injective same
  case isFalse => simp at found

theorem loadedEdge_longPlans_iff {count : Nat} {id dep : GlobalTaskId} :
    LoadedEdge (longPlans count) ∅ {} id dep ↔
      ∃ number, number + 1 < count ∧ id = longId (number + 1) ∧ dep = longId number := by
  unfold LoadedEdge
  simp only [loaded_longPlans_iff]
  constructor
  · rintro (⟨task, ⟨number, below, rfl, rfl⟩, raw, member, rfl⟩ | ⟨planned, -⟩ |
      ⟨-, -, task, ⟨number, -, -, rfl⟩, -, -, file, member, -⟩)
    · cases number with
      | zero => cases member
      | succ number =>
          rw [List.mem_singleton.mp member]
          exact ⟨number, below, rfl, resolveDepRef_repr number⟩
    · simp [SetMap.Has] at planned
    · cases member
  · rintro ⟨number, below, rfl, rfl⟩
    exact Or.inl ⟨_, ⟨number + 1, below, rfl, rfl⟩, number.repr, List.mem_singleton_self _,
      resolveDepRef_repr number⟩

theorem acyclic_longPlans (count : Nat) :
    DependencyGraph.Acyclic (LoadedEdge (longPlans count) ∅ {}) := by
  apply DependencyGraph.acyclic_of_rank fun id => id.task.toNat?.getD 0
  intro id dep edge
  obtain ⟨number, -, rfl, rfl⟩ := loadedEdge_longPlans_iff.mp edge
  simp [longId]

theorem build_longPlans (count : Nat) :
    ∃ dag, build (longPlans count) ∅ {} = .ok dag ∧
      ∀ id dep, dag.edges.Has id dep ↔ LoadedEdge (longPlans count) ∅ {} id dep := by
  have unnamed : ∀ plan, ¬ MentionsPlan ∅ plan := by
    simp [MentionsPlan, SetMap.Has]
  have nonempty : ∀ plan, MentionsPlan ∅ plan → (longPlans count)[plan]? ≠ some [] :=
    fun plan named => absurd named (unnamed plan)
  have lawful : BuildLawful (longPlans count) ∅ {} :=
    (buildLawful_iff (distinct_longPlans count)).mpr (Or.inr (Or.inr nonempty))
  apply lawful.built
  · rintro ⟨plan, named, -⟩
    exact unnamed plan named
  · rintro ⟨id, task, loaded, raw, member, dangles⟩
    obtain ⟨number, below, rfl, rfl⟩ := loaded_longPlans_iff.mp loaded
    cases number with
    | zero => cases member
    | succ number =>
        rw [List.mem_singleton.mp member] at dangles
        apply dangles (longTask number)
        exact loaded_longPlans_iff.mpr
          ⟨number, (Nat.lt_succ_self number).trans below, resolveDepRef_repr number, rfl⟩
  · exact acyclic_longPlans count

theorem taskDuration_longPlans {count : Nat}
    (built : build (longPlans count) ∅ {} = .ok dag) {number : Nat}
    (below : number < count) : dag.taskDuration (longId number) = 257698037700 := by
  have found : dag.tasks[longId number]? = some (longTask number) := by
    rw [tasks_build built, getElem?_collectTasks (distinct_longPlans count)]
    exact loaded_longPlans_iff.mpr ⟨number, below, rfl, rfl⟩
  unfold taskDuration
  rw [found]
  rfl

/-- With tasks enough the estimates in a chain add up to more than a `Duration`. -/
theorem longPlans_panics (count : Nat) (long : 2 ^ 64 ≤ count * 257698037700) :
    ∃ dag, build (longPlans count) ∅ {} = .ok dag ∧
      DependencyGraph.Acyclic dag.edges.Has ∧
      dag.cpmAnalysis = .error .overflowWhenAdding := by
  obtain ⟨dag, built, edges⟩ := build_longPlans count
  have consistent := consistent_build built
  refine ⟨dag, built, consistent.acyclic, ?_⟩
  apply (cpmAnalysis_lawful dag consistent.toIndexed consistent.acyclic).2
  refine ⟨_, ⟨(List.range count).map longId, ?_, ?_, rfl⟩, ?_⟩
  · unfold WeightedChains.Chained
    rw [List.isChain_map, List.isChain_range]
    intro number below
    exact (edges _ _).mpr (loadedEdge_longPlans_iff.mpr ⟨number, by omega, rfl, rfl⟩)
  · intro id member
    obtain ⟨number, below, rfl⟩ := List.mem_map.mp member
    rw [consistent.mem_nodes, tasks_build built, mem_collectTasks (distinct_longPlans count)]
    exact ⟨_, loaded_longPlans_iff.mpr ⟨number, List.mem_range.mp below, rfl, rfl⟩⟩
  · have durations : ((List.range count).map longId).map dag.taskDuration =
        List.replicate count 257698037700 := by
      rw [List.map_map, List.eq_replicate_iff]
      refine ⟨by simp, fun duration member => ?_⟩
      obtain ⟨number, below, rfl⟩ := List.mem_map.mp member
      exact taskDuration_longPlans built (List.mem_range.mp below)
    unfold WeightedChains.total
    rw [durations, List.sum_replicate_nat]
    exact long

theorem longPlans_not_lawful :
    ∃ dag, build (longPlans 71582789) ∅ {} = .ok dag ∧
      DependencyGraph.Acyclic dag.edges.Has ∧
      dag.cpmAnalysis = .error .overflowWhenAdding ∧
      ¬ ∃ cpm, dag.cpmAnalysis = .ok (some cpm) ∧ dag.CpmLawful cpm := by
  obtain ⟨dag, built, acyclic, panics⟩ := longPlans_panics 71582789 (by decide)
  refine ⟨dag, built, acyclic, panics, ?_⟩
  rintro ⟨cpm, analysed, -⟩
  rw [panics] at analysed
  cases analysed

end UnifiedTaskDag

end Roko
