import Roko.GuardedRuns
import Roko.IncrementalDag

/-!
# What a mutation marks dirty

A task whose spec or dependencies a mutation changes must be executed again, and
so must what depends on it, except across tasks of high durability.  The
mutation marks what the mutated graph connects to the touched ids.  It misses a
changed task that is no longer connected to them, and it does not search behind a
task that was dirty before.
-/

namespace Roko

namespace IncrementalDag

open GuardedRun

/-- The task is in both graphs, and its spec or its dependencies differ. -/
def Changed (before after : UnifiedTaskDag) (id : GlobalTaskId) : Prop :=
  id ∈ before.tasks ∧ id ∈ after.tasks ∧
    (before.tasks[id]? ≠ after.tasks[id]? ∨ before.depsOf id ≠ after.depsOf id)

/-- The tasks to execute again: the changed ones, and those connected to them by
a path of dependencies without a task of high durability. -/
inductive Affected (inc : IncrementalDag) (after : UnifiedTaskDag) :
    GlobalTaskId → Prop
  | changed {id : GlobalTaskId} (changed : Changed inc.dag after id) :
      Affected inc after id
  | dependent {id dependent : GlobalTaskId} (affected : Affected inc after id)
      (passes : inc.isHigh id = false) (edge : after.edges.Has dependent id)
      (counts : inc.isHigh dependent = false) : Affected inc after dependent

/-- The search from the touched ids in the mutated graph visits the task. -/
def TouchedReaches (inc : IncrementalDag) (mutation : DagMutation) :
    GlobalTaskId → Prop :=
  Reached { inc with dag := (inc.dag.applyMutation mutation).1 }
    (mutationTouchedIds mutation)

/-- Every affected task is dirty after the mutation and in the plan computed
next. -/
def RecomputesAffected (inc : IncrementalDag) (mutation : DagMutation) : Prop :=
  ∀ id, Affected inc (inc.dag.applyMutation mutation).1 id →
    id ∈ (inc.applyMutation mutation).1.dirty ∧
      id ∈ (inc.applyMutation mutation).1.recomputePlan.2

/-- A changed task was dirty before or is connected to a touched id, and so is
what depends on an affected task that was dirty before. -/
structure KeepsTrack (inc : IncrementalDag) (mutation : DagMutation) : Prop where
  changed : ∀ id, Changed inc.dag (inc.dag.applyMutation mutation).1 id →
    id ∈ inc.dirty ∨ inc.TouchedReaches mutation id
  behindDirty : ∀ id dependent,
    Affected inc (inc.dag.applyMutation mutation).1 id → id ∈ inc.dirty →
    inc.isHigh id = false → inc.isHigh dependent = false →
    (inc.dag.applyMutation mutation).1.edges.Has dependent id →
    dependent ∈ inc.dirty ∨ inc.TouchedReaches mutation dependent

variable {inc : IncrementalDag} {mutation : DagMutation}

theorem applyMutation_of_ok
    (accepted : (inc.dag.applyMutation mutation).2 = .ok ()) :
    inc.applyMutation mutation =
      ((mutationTouchedIds mutation).foldl markDirty
        { inc with dag := (inc.dag.applyMutation mutation).1 }, .ok ()) := by
  unfold applyMutation
  split
  case h_1 failure failed =>
    rw [failed] at accepted
    cases accepted
  case h_2 dag mutated => rw [mutated]

theorem applyMutation_ok_iff :
    (inc.applyMutation mutation).2 = .ok () ↔
      (inc.dag.applyMutation mutation).2 = .ok () := by
  unfold applyMutation
  split
  case h_1 failure failed => simp [failed]
  case h_2 dag mutated => simp [mutated]

theorem mem_dirty_applyMutation
    (accepted : (inc.dag.applyMutation mutation).2 = .ok ())
    (id : GlobalTaskId) :
    id ∈ (inc.applyMutation mutation).1.dirty ↔
      id ∈ inc.dirty ∨ inc.TouchedReaches mutation id := by
  rw [applyMutation_of_ok accepted]
  exact mem_dirty_foldl_markDirty _ _ id

theorem consistent_of_ok (accepted : (inc.dag.applyMutation mutation).2 = .ok ()) :
    (inc.dag.applyMutation mutation).1.Consistent := by
  rcases inc.dag.applyMutation_cases mutation with
    ⟨failure, failed, -⟩ | ⟨-, tasks, -, rebuilt, replaced, out, sorted⟩
  · rw [accepted] at failed
    cases failed
  · rw [replaced]
    exact UnifiedTaskDag.consistent_of_sorted rebuilt sorted

theorem affected_mem_tasks {after : UnifiedTaskDag} (consistent : after.Consistent)
    {id : GlobalTaskId} (affected : Affected inc after id) : id ∈ after.tasks := by
  cases affected with
  | changed changed => exact changed.2.1
  | dependent _ _ edge _ => exact (consistent.endpoints _ _ edge).1

/-- The loop of `recompute_plan` plans the dirty ones among the listed tasks. -/
theorem mem_foldl_planDirty {topo : List GlobalTaskId} (nodup : topo.Nodup)
    (planned : Std.ExtTreeSet GlobalTaskId × List GlobalTaskId)
    (id : GlobalTaskId) :
    id ∈ (topo.foldl planDirty planned).2 ↔
      id ∈ planned.2 ∨ (id ∈ topo ∧ id ∈ planned.1) := by
  induction topo generalizing planned with
  | nil => simp
  | cons head topo ih =>
      obtain ⟨fresh, nodup⟩ := List.nodup_cons.mp nodup
      rw [List.foldl_cons, ih nodup]
      unfold planDirty
      by_cases listed : planned.1.contains head = true
      · rw [if_pos listed]
        simp only [List.mem_append, Std.ExtTreeSet.mem_erase, ne_eq,
          Std.LawfulEqCmp.compare_eq_iff_eq, List.mem_cons]
        grind
      · rw [if_neg listed]
        simp only [List.mem_cons]
        grind

/-- In a consistent graph every dirty task of the graph is planned. -/
theorem mem_recomputePlan (consistent : inc.dag.Consistent) (id : GlobalTaskId) :
    id ∈ inc.recomputePlan.2 ↔ id ∈ inc.dag.tasks ∧ id ∈ inc.dirty := by
  obtain ⟨topo, sorted⟩ :=
    (UnifiedTaskDag.topologicalSort_ok_iff consistent.toIndexed).mpr
      consistent.acyclic
  obtain ⟨perm, -⟩ := UnifiedTaskDag.topologicalSort_ok consistent.toIndexed sorted
  have nodup : topo.Nodup :=
    perm.nodup_iff.mpr (consistent.sorted.imp fun less => less.ne)
  unfold recomputePlan
  simp only [sorted]
  rw [mem_foldl_planDirty nodup, perm.mem_iff, consistent.mem_nodes]
  simp

/-- A successful mutation recomputes what it affects exactly if it keeps track of
it. -/
theorem recomputesAffected_iff
    (accepted : (inc.dag.applyMutation mutation).2 = .ok ()) :
    inc.RecomputesAffected mutation ↔ inc.KeepsTrack mutation := by
  have consistent := consistent_of_ok accepted
  have marked := mem_dirty_applyMutation accepted
  constructor
  · intro recomputes
    constructor
    case changed =>
      exact fun id changed => (marked id).mp (recomputes id (.changed changed)).1
    case behindDirty =>
      intro id dependent affected _ passes counts edge
      exact (marked dependent).mp
        (recomputes dependent (.dependent affected passes edge counts)).1
  · intro keeps id affected
    have dirty : id ∈ inc.dirty ∨ inc.TouchedReaches mutation id := by
      induction affected with
      | changed changed => exact keeps.changed _ changed
      | @dependent id dependent affected passes edge counts ih =>
          by_cases old : id ∈ inc.dirty
          · exact keeps.behindDirty id dependent affected old passes counts edge
          · have listed : dependent ∈
                ((inc.dag.applyMutation mutation).1.dependentsOf id).toList :=
              Std.ExtTreeSet.mem_toList.mpr
                ((UnifiedTaskDag.mem_dependentsOf consistent.toIndexed id dependent).mpr
                  edge)
            exact Or.inr (.child (ih.resolve_left old) old passes listed)
    have same : (inc.applyMutation mutation).1.dag =
        (inc.dag.applyMutation mutation).1 := by
      rw [applyMutation_of_ok accepted]
      exact (dag_foldl_markDirty _ _).1
    refine ⟨(marked id).mpr dirty, ?_⟩
    rw [mem_recomputePlan (same ▸ consistent), same]
    exact ⟨affected_mem_tasks consistent affected, (marked id).mpr dirty⟩

/-- Along a run of any operations, every successful mutation recomputes what it
affects exactly if every one keeps track of it. -/
theorem run_recomputesAffected_iff (hash : List UInt8 → Digest)
    (toJson : Task → Option String) (dag : UnifiedTaskDag) (ops : List Op) :
    (∀ taken ∈ steps (step hash toJson) (new dag) ops,
      ∀ mutation, taken.2 = .applyMutation mutation →
        (taken.1.applyMutation mutation).2 = .ok () →
          taken.1.RecomputesAffected mutation) ↔
    (∀ taken ∈ steps (step hash toJson) (new dag) ops,
      ∀ mutation, taken.2 = .applyMutation mutation →
        (taken.1.dag.applyMutation mutation).2 = .ok () →
          taken.1.KeepsTrack mutation) := by
  apply forall₂_congr
  intro taken _
  apply forall₂_congr
  intro mutation _
  rw [applyMutation_ok_iff]
  exact forall_congr' recomputesAffected_iff

/-- Three tasks in a row. -/
def chainPlan : Std.ExtTreeMap String (List Task) :=
  (∅ : Std.ExtTreeMap String (List Task)).insert "a"
    [{ id := "t1", title := "one" },
      { id := "t2", title := "two", dependsOn := ["t1"] },
      { id := "t3", title := "three", dependsOn := ["a:t2"] }]

/-- Removing the middle task rewires the last one to the first, and the last one
stays clean. -/
theorem not_recomputesAffected_of_removed :
    ∃ dag : UnifiedTaskDag, dag.Reachable ∧
      ((new dag).applyMutation (.removeTask ⟨"a", "t2"⟩)).2 = .ok () ∧
      ¬ (new dag).RecomputesAffected (.removeTask ⟨"a", "t2"⟩) := by
  have ran : (UnifiedTaskDag.build chainPlan ∅ {}).toOption.map
      (fun dag =>
        let mutated := (new dag).applyMutation (.removeTask ⟨"a", "t2"⟩)
        let after := (dag.applyMutation (.removeTask ⟨"a", "t2"⟩)).1
        (decide (mutated.2 = .ok ()), mutated.1.dirty.contains ⟨"a", "t3"⟩,
          dag.tasks.contains ⟨"a", "t3"⟩, after.tasks.contains ⟨"a", "t3"⟩,
          decide (dag.tasks.get? ⟨"a", "t3"⟩ ≠ after.tasks.get? ⟨"a", "t3"⟩))) =
      some (true, false, true, true, true) := by
    decide +kernel
  obtain ⟨dag, built, reads⟩ := FallibleSteps.ok_of_map_toOption ran
  simp only [Prod.mk.injEq, decide_eq_true_eq, Std.ExtTreeMap.contains_iff_mem] at reads
  obtain ⟨accepted, clean, listed, kept, differs⟩ := reads
  refine ⟨dag, .build built, accepted, fun recomputes => ?_⟩
  have dirty := (recomputes ⟨"a", "t3"⟩ (.changed ⟨listed, kept, Or.inl differs⟩)).1
  rw [← Std.ExtTreeSet.contains_iff_mem, clean] at dirty
  cases dirty

end IncrementalDag

/-!
# What the stored hash of a task stands for

The stored hash of a task is the hash of its inputs at the last step that stored
it.  `mark_verified` stores the hash, but so does `ensure_clean` when it reports a
change, so a second call compares the changed inputs with themselves.  The bytes
of different inputs can also be the same, since nothing separates them.
-/

namespace IncrementalDag

open GuardedRun

/-- The serialized spec and the direct dependencies of a task. -/
def inputs (toJson : Task → Option String) (inc : IncrementalDag)
    (id : GlobalTaskId) : Option String × Std.ExtTreeSet GlobalTaskId :=
  (inc.dag.tasks[id]?.bind toJson, inc.dag.depsOf id)

/-- The task whose hash a step stores. -/
def storedTask (taken : IncrementalDag × Op) : Option GlobalTaskId :=
  match taken.2 with
  | .markVerified task => some task
  | .ensureClean task => if taken.1.dirty.contains task then some task else none
  | _ => none

def verifies (id : GlobalTaskId) (taken : IncrementalDag × Op) : Bool :=
  match taken.2 with
  | .markVerified task => task = id
  | _ => false

/-- The last step of the list that meets the test. -/
def lastStep (test : IncrementalDag × Op → Bool)
    (earlier : List (IncrementalDag × Op)) : Option (IncrementalDag × Op) :=
  (earlier.filter test).getLast?

/-- The buffers that are hashed in a run. -/
def hashedBytes (toJson : Task → Option String)
    (run : List (IncrementalDag × Op)) : List (List UInt8) :=
  run.filterMap fun taken =>
    (storedTask taken).map (taken.1.dag.inputBytes toJson)

/-- The call of `ensure_clean` asks for a dirty task whose inputs differ from those
at the last time it was verified. -/
structure AsksChanged (toJson : Task → Option String)
    (earlier : List (IncrementalDag × Op)) (inc : IncrementalDag)
    (id : GlobalTaskId) : Prop where
  dirty : id ∈ inc.dirty
  changed : ∃ verified, lastStep (verifies id) earlier = some verified ∧
    inputs toJson inc id ≠ inputs toJson verified.1 id

/-- Every call for a changed task reports the change and leaves the task dirty. -/
def ReportsChanges (hash : List UInt8 → Digest) (toJson : Task → Option String)
    (run : List (IncrementalDag × Op)) : Prop :=
  ∀ earlier inc id later, run = earlier ++ (inc, .ensureClean id) :: later →
    AsksChanged toJson earlier inc id →
      (ensureClean hash toJson inc id).2 = false ∧
        id ∈ (ensureClean hash toJson inc id).1.dirty

/-- At every call for a changed task, the bytes to hash are not those of the last
step that stored the hash of the task. -/
def SeesNewBytes (toJson : Task → Option String)
    (run : List (IncrementalDag × Op)) : Prop :=
  ∀ earlier inc id later, run = earlier ++ (inc, .ensureClean id) :: later →
    AsksChanged toJson earlier inc id →
      ∀ stored, lastStep (storedTask · = some id) earlier = some stored →
        inc.dag.inputBytes toJson id ≠ stored.1.dag.inputBytes toJson id

variable {hash : List UInt8 → Digest} {toJson : Task → Option String}

theorem inputHashes_applyMutation (inc : IncrementalDag) (mutation : DagMutation) :
    (inc.applyMutation mutation).1.inputHashes = inc.inputHashes := by
  unfold applyMutation
  split
  · rfl
  · exact (dag_foldl_markDirty _ _).2

theorem inputHashes_recomputePlan (inc : IncrementalDag) :
    inc.recomputePlan.1.inputHashes = inc.inputHashes := by
  unfold recomputePlan
  split <;> rfl

/-- A dirty task has the hash of its current inputs after `ensure_clean`, whatever
the answer is. -/
theorem inputHashes_ensureClean (inc : IncrementalDag) (task id : GlobalTaskId) :
    (ensureClean hash toJson inc task).1.inputHashes[id]? =
      if task ∈ inc.dirty ∧ task = id then
        some (hash (inc.dag.inputBytes toJson id))
      else inc.inputHashes[id]? := by
  rcases ensureClean_cases hash toJson inc task with
    ⟨clean, result⟩ | ⟨dirty, same, result⟩ | ⟨dirty, -, result⟩
  · rw [result, if_neg (fun both => clean both.1)]
  · rw [result]
    by_cases asked : task = id
    · subst asked
      rw [if_pos ⟨dirty, rfl⟩]
      exact same
    · rw [if_neg (fun both => asked both.2)]
  · rw [result]
    dsimp only
    rw [Std.ExtTreeMap.getElem?_insert]
    by_cases asked : task = id
    · subst asked
      simp [dirty]
    · simp [asked]

/-- A step stores the hash of the inputs of `storedTask` and keeps every other
hash. -/
theorem inputHashes_step (inc : IncrementalDag) (op : Op) (id : GlobalTaskId) :
    (step hash toJson inc op).inputHashes[id]? =
      if storedTask (inc, op) = some id then
        some (hash (inc.dag.inputBytes toJson id))
      else inc.inputHashes[id]? := by
  cases op with
  | setDurability task durability => rfl
  | markDirty task => rfl
  | markVerified task =>
      simp only [step, markVerified, storedTask, Option.some.injEq]
      rw [Std.ExtTreeMap.getElem?_insert]
      by_cases same : task = id
      · subst same
        simp [computeInputHash]
      · simp [same]
  | ensureClean task =>
      simp only [step, storedTask]
      rw [inputHashes_ensureClean]
      by_cases dirty : task ∈ inc.dirty
      · simp [dirty]
      · simp [dirty]
  | recomputePlan =>
      simp only [step, storedTask, inputHashes_recomputePlan, reduceCtorEq, ↓reduceIte]
  | applyMutation mutation =>
      simp only [step, storedTask, inputHashes_applyMutation, reduceCtorEq, ↓reduceIte]

/-- The stored hash is that of the inputs at the last step that stored it. -/
theorem inputHashes_foldl_step (dag : UnifiedTaskDag) (ops : List Op)
    (id : GlobalTaskId) :
    (ops.foldl (step hash toJson) (new dag)).inputHashes[id]? =
      (lastStep (storedTask · = some id)
        (steps (step hash toJson) (new dag) ops)).map
          fun stored => hash (stored.1.dag.inputBytes toJson id) := by
  induction ops using List.reverseRecOn with
  | nil => rfl
  | append_singleton ops op ih =>
      rw [List.foldl_append, steps_append]
      unfold lastStep at ih ⊢
      simp only [List.foldl_cons, List.foldl_nil, steps, List.filter_append]
      rw [inputHashes_step, ih]
      by_cases stores : storedTask
          (ops.foldl (step hash toJson) (new dag), op) = some id
      · simp [stores]
      · simp [stores]

theorem ensureClean_eq_false_iff (inc : IncrementalDag) (id : GlobalTaskId) :
    ((ensureClean hash toJson inc id).2 = false ∧
      id ∈ (ensureClean hash toJson inc id).1.dirty) ↔
    (id ∈ inc.dirty ∧
      inc.inputHashes[id]? ≠ some (hash (inc.dag.inputBytes toJson id))) := by
  rcases ensureClean_cases hash toJson inc id with
    ⟨clean, result⟩ | ⟨dirty, same, result⟩ | ⟨dirty, differ, result⟩
  · simp [result, clean]
  · simp [result, same]
  · simp [result, dirty, differ]

/-- The last step that verified a task is one that stored its hash. -/
theorem exists_lastStep_storedTask {earlier : List (IncrementalDag × Op)}
    {id : GlobalTaskId} {verified : IncrementalDag × Op}
    (last : lastStep (verifies id) earlier = some verified) :
    ∃ stored, lastStep (storedTask · = some id) earlier = some stored := by
  obtain ⟨listed, verifies⟩ := List.mem_filter.mp (List.mem_of_getLast? last)
  have stores : storedTask verified = some id := by
    obtain ⟨inc, op⟩ := verified
    cases op with
    | markVerified task => simpa [IncrementalDag.verifies, storedTask] using verifies
    | _ => cases verifies
  cases found : lastStep (storedTask · = some id) earlier with
  | some stored => exact ⟨stored, rfl⟩
  | none =>
      have none := List.filter_eq_nil_iff.mp (List.getLast?_eq_none_iff.mp found)
      exact absurd (by simpa using stores) (none verified listed)

/-- When no two buffers of the run collide, every changed task is reported at every
call exactly if each of these calls sees new bytes. -/
theorem reportsChanges_iff (hash : List UInt8 → Digest)
    (toJson : Task → Option String) (dag : UnifiedTaskDag) (ops : List Op)
    (collisionFree :
      ∀ first ∈ hashedBytes toJson (steps (step hash toJson) (new dag) ops),
      ∀ second ∈ hashedBytes toJson (steps (step hash toJson) (new dag) ops),
        hash first = hash second → first = second) :
    ReportsChanges hash toJson (steps (step hash toJson) (new dag) ops) ↔
      SeesNewBytes toJson (steps (step hash toJson) (new dag) ops) := by
  have reports_iff : ∀ {earlier inc id later},
      steps (step hash toJson) (new dag) ops =
        earlier ++ (inc, .ensureClean id) :: later →
      AsksChanged toJson earlier inc id → ∀ stored,
        lastStep (storedTask · = some id) earlier = some stored →
        (((ensureClean hash toJson inc id).2 = false ∧
            id ∈ (ensureClean hash toJson inc id).1.dirty) ↔
          inc.dag.inputBytes toJson id ≠ stored.1.dag.inputBytes toJson id) := by
    intro earlier inc id later run asks stored last
    obtain ⟨same, reached⟩ := steps_eq_append run
    have current : inc.inputHashes[id]? =
        some (hash (stored.1.dag.inputBytes toJson id)) := by
      rw [reached, inputHashes_foldl_step, ← same, last]
      rfl
    obtain ⟨listed, stores⟩ := List.mem_filter.mp (List.mem_of_getLast? last)
    have before : stored.1.dag.inputBytes toJson id ∈
        hashedBytes toJson (steps (step hash toJson) (new dag) ops) :=
      List.mem_filterMap.mpr ⟨stored, by simp [run, listed],
        by simp [of_decide_eq_true stores]⟩
    have now : inc.dag.inputBytes toJson id ∈
        hashedBytes toJson (steps (step hash toJson) (new dag) ops) :=
      List.mem_filterMap.mpr ⟨(inc, .ensureClean id), by simp [run],
        by simp [storedTask, asks.dirty]⟩
    rw [ensureClean_eq_false_iff, current, and_iff_right asks.dirty, ne_eq,
      Option.some.injEq]
    constructor
    · exact fun differ same => differ (congrArg hash same.symm)
    · exact fun differ same => differ (collisionFree _ before _ now same).symm
  constructor
  · intro reports earlier inc id later run asks stored last
    exact (reports_iff run asks stored last).mp (reports earlier inc id later run asks)
  · intro sees earlier inc id later run asks
    obtain ⟨verified, lastVerified, -⟩ := asks.changed
    obtain ⟨stored, last⟩ := exists_lastStep_storedTask lastVerified
    exact (reports_iff run asks stored last).mpr
      (sees earlier inc id later run asks stored last)

def samplePlan : Std.ExtTreeMap String (List Task) :=
  (∅ : Std.ExtTreeMap String (List Task)).insert "a" [{ id := "t", title := "one" }]

def sampleId : GlobalTaskId := ⟨"a", "t"⟩

/-- The members that differ between the tasks of the sample. -/
def sampleJson (task : Task) : Option String :=
  some ("\x7b\"id\":\"" ++ task.id ++ "\",\"title\":\"" ++ task.title ++ "\"\x7d")

/-- Distinct on the buffers of the sample, which differ in their first bytes. -/
def sampleHash (bytes : List UInt8) : Digest :=
  Vector.ofFn fun index => bytes.getD index 0

/-- Verify the task, change its title and ask for it twice. -/
def sampleOps : List Op :=
  [.markVerified sampleId,
    .applyMutation (.updateTaskMetadata sampleId { id := "t", title := "two" }),
    .ensureClean sampleId, .ensureClean sampleId]

theorem reportsChanges_iff_sample :
    ∃ dag : UnifiedTaskDag, dag.Reachable ∧
      (ReportsChanges sampleHash sampleJson
          (steps (step sampleHash sampleJson) (new dag) sampleOps) ↔
        SeesNewBytes sampleJson
          (steps (step sampleHash sampleJson) (new dag) sampleOps)) := by
  have ran : (UnifiedTaskDag.build samplePlan ∅ {}).toOption.map
      (fun dag =>
        let run := steps (step sampleHash sampleJson) (new dag) sampleOps
        (hashedBytes sampleJson run).all fun first =>
          (hashedBytes sampleJson run).all fun second =>
            sampleHash first != sampleHash second || first == second) =
      some true := by
    decide +kernel
  obtain ⟨dag, built, distinct⟩ := FallibleSteps.ok_of_map_toOption ran
  refine ⟨dag, .build built, reportsChanges_iff _ _ dag sampleOps ?_⟩
  simpa [List.all_eq_true, imp_iff_not_or] using distinct

/-- The second call cleans the changed task. -/
theorem not_reportsChanges_of_second_call :
    ∃ dag : UnifiedTaskDag, dag.Reachable ∧
      ¬ ReportsChanges sampleHash sampleJson
        (steps (step sampleHash sampleJson) (new dag) sampleOps) := by
  have ran : (UnifiedTaskDag.build samplePlan ∅ {}).toOption.map
      (fun dag =>
        let asked := (sampleOps.take 3).foldl (step sampleHash sampleJson) (new dag)
        (asked.dirty.contains sampleId,
          decide (inputs sampleJson asked sampleId = inputs sampleJson (new dag) sampleId),
          (ensureClean sampleHash sampleJson asked sampleId).2)) =
      some (true, false, true) := by
    decide +kernel
  obtain ⟨dag, built, reads⟩ := FallibleSteps.ok_of_map_toOption ran
  simp only [Prod.mk.injEq, Std.ExtTreeSet.contains_iff_mem,
    decide_eq_false_iff_not] at reads
  obtain ⟨dirty, changed, cleaned⟩ := reads
  refine ⟨dag, .build built, fun reports => ?_⟩
  have reported := (reports
    (steps (step sampleHash sampleJson) (new dag) (sampleOps.take 3)) _ sampleId [] rfl
    ⟨dirty, (new dag, .markVerified sampleId), rfl, changed⟩).1
  cases cleaned.symm.trans reported

end IncrementalDag

end Roko
