import Roko.GuardedRuns
import Roko.TaskScheduler

/-!
# Runs of the task scheduler

A run takes batches from the scheduler, marks their tasks running, and marks running tasks
completed or failed, in any order.  In every state of it the limit on parallel tasks and the
exclusion of files are kept, dependencies come first, failures skip all that depends on
them, and the scheduler is not stuck.
-/

namespace Roko

namespace TaskScheduler

/-- A scheduler, and the tasks of the current batch that are not marked running yet. -/
structure Session where
  scheduler : TaskScheduler
  pending : List String := []

inductive Call
  | nextBatch (visit : List String)
  | markRunning (id : String)
  | markCompleted (id : String) (visit : List String)
  | markFailed (id : String) (error : String) (visitTasks : String → List String)
      (visit : List String)

namespace Session

def step (session : Session) : Call → Session
  | .nextBatch visit => { session with pending := session.scheduler.nextBatch visit }
  | .markRunning id =>
      { scheduler := session.scheduler.markRunning id, pending := session.pending.erase id }
  | .markCompleted id visit =>
      { session with scheduler := session.scheduler.markCompleted id visit }
  | .markFailed id error visitTasks visit =>
      { session with scheduler := session.scheduler.markFailed id error visitTasks visit }

/-- Only tasks of the current batch are marked running, and only running tasks are marked
completed or failed; the maps are walked in any order. -/
def Allowed (session : Session) : Call → Prop
  | .nextBatch visit => visit.Perm session.scheduler.ids
  | .markRunning id => id ∈ session.pending
  | .markCompleted id visit =>
      session.scheduler.status id = some .running ∧ visit.Perm session.scheduler.ids
  | .markFailed id _ visitTasks visit =>
      session.scheduler.status id = some .running ∧
        (∀ other, (visitTasks other).Perm session.scheduler.ids) ∧
        visit.Perm session.scheduler.ids

end Session

/-- What holds of a scheduler between the calls. -/
structure ScheduleLaw (scheduler : TaskScheduler) : Prop where
  bounded : scheduler.runningCount ≤ scheduler.maxParallel
  exclusive : ∀ first second, first ≠ second → scheduler.status first = some .running →
    scheduler.status second = some .running →
    (scheduler.filesOf first).Disjoint (scheduler.filesOf second)
  ordered : ∀ id dep, Needs scheduler.tasks id dep →
    scheduler.status id = some .running ∨ scheduler.status id = some .completed →
    scheduler.status dep = some .completed
  blocked : ∀ id, scheduler.status id = some .blocked →
    ∃ dep, Needs scheduler.tasks id dep ∧ scheduler.status dep ≠ some .completed
  skipped : ∀ id failedId error, scheduler.status failedId = some (.failed error) →
    Relation.TransGen (Needs scheduler.tasks) id failedId →
    scheduler.status id = some .skipped
  live : (∀ id, scheduler.status id ≠ some .running) → 0 < scheduler.maxParallel →
    scheduler.isDone = true ∨
      ∀ visit : List String, visit.Perm scheduler.ids → scheduler.nextBatch visit ≠ []

/-- The statuses fit the dependencies. -/
structure Settled (scheduler : TaskScheduler) : Prop where
  known : ∀ id, scheduler.status id ≠ none ↔ id ∈ scheduler.ids
  /-- A task that was ready has its dependencies completed. -/
  met : ∀ id, scheduler.status id ≠ none → scheduler.status id ≠ some .blocked →
    scheduler.status id ≠ some .skipped → scheduler.allDepsDone id
  /-- A dependency that will never complete skips the task. -/
  propagated : ∀ id ∈ scheduler.ids, ∀ dep ∈ scheduler.depsOf id, ∀ status,
    scheduler.status dep = some status → status.isTerminal = true → status ≠ .completed →
    scheduler.status id = some .skipped

/-- A task that runs or is about to. -/
def Session.Active (session : Session) (id : String) : Prop :=
  session.scheduler.status id = some .running ∨ id ∈ session.pending

structure Session.Sound (session : Session) : Prop where
  settled : Settled session.scheduler
  waiting : ∀ id, session.scheduler.status id = some .blocked →
    ¬ session.scheduler.allDepsDone id
  pendingReady : ∀ id ∈ session.pending, session.scheduler.status id = some .ready
  pendingNodup : session.pending.Nodup
  slots : session.scheduler.runningCount + session.pending.length ≤
    session.scheduler.maxParallel
  exclusive : ∀ first second, first ≠ second → session.Active first →
    session.Active second →
    (session.scheduler.filesOf first).Disjoint (session.scheduler.filesOf second)

section Statuses

variable {scheduler : TaskScheduler} (distinct : (scheduler.tasks.map (·.id)).Nodup)

include distinct

theorem updateReady_eq_of_ne_blocked {visit : List String}
    (walk : visit.Perm scheduler.ids) {id : String}
    (other : scheduler.status id ≠ some .blocked) :
    (scheduler.updateReady visit).status id = scheduler.status id := by
  rw [updateReady_status scheduler distinct walk, if_neg]
  exact fun ready => other ready.1

/-- A status other than ready that a task has after `update_ready`, it had before. -/
theorem updateReady_eq_some {visit : List String} (walk : visit.Perm scheduler.ids)
    {id : String} {status : Status} (other : status ≠ .ready)
    (found : (scheduler.updateReady visit).status id = some status) :
    scheduler.status id = some status := by
  rw [updateReady_status scheduler distinct walk] at found
  split at found
  · exact absurd (Option.some.inj found).symm other
  · exact found

theorem updateReady_completed_iff {visit : List String} (walk : visit.Perm scheduler.ids)
    (id : String) : (scheduler.updateReady visit).status id = some .completed ↔
      scheduler.status id = some .completed := by
  constructor
  · exact updateReady_eq_some distinct walk (by simp)
  · intro completed
    rw [updateReady_eq_of_ne_blocked distinct walk (by simp [completed]), completed]

theorem updateReady_allDepsDone {visit : List String} (walk : visit.Perm scheduler.ids)
    (id : String) : (scheduler.updateReady visit).allDepsDone id ↔
      scheduler.allDepsDone id := by
  simp only [allDepsDone, updateReady_depsOf, updateReady_completed_iff distinct walk]

theorem Settled.updateReady (settled : Settled scheduler) {visit : List String}
    (walk : visit.Perm scheduler.ids) : Settled (scheduler.updateReady visit) where
  known := by
    intro id
    rw [updateReady_status scheduler distinct walk, updateReady_ids]
    split
    · rename_i ready
      simpa using ready.2.1
    · exact settled.known id
  met := by
    intro id present notBlocked notSkipped
    rw [updateReady_allDepsDone distinct walk]
    rw [updateReady_status scheduler distinct walk] at present notBlocked notSkipped
    split at present
    · rename_i ready
      exact ready.2.2
    · rename_i unready
      rw [if_neg unready] at notBlocked notSkipped
      exact settled.met id present notBlocked notSkipped
  propagated := by
    intro id listed dep need status found terminal uncompleted
    have before : scheduler.status dep = some status := by
      apply updateReady_eq_some distinct walk _ found
      rintro rfl
      cases terminal
    rw [updateReady_ids] at listed
    rw [updateReady_depsOf] at need
    have skipped := settled.propagated id listed dep need status before terminal uncompleted
    rw [updateReady_eq_of_ne_blocked distinct walk (by simp [skipped]), skipped]

/-- What is still blocked after `update_ready` waits for a dependency. -/
theorem Settled.waiting (settled : Settled scheduler) {visit : List String}
    (walk : visit.Perm scheduler.ids) {id : String}
    (blocked : (scheduler.updateReady visit).status id = some .blocked) :
    ¬ (scheduler.updateReady visit).allDepsDone id := by
  rw [updateReady_allDepsDone distinct walk]
  intro done
  have before := updateReady_eq_some distinct walk (by simp) blocked
  have listed := (settled.known id).mp (by simp [before])
  rw [updateReady_status scheduler distinct walk, if_pos ⟨before, listed, done⟩] at blocked
  cases blocked

end Statuses

theorem known_setStatus {scheduler : TaskScheduler} (settled : Settled scheduler)
    {marked : String} {before : Status} (found : scheduler.status marked = some before)
    (status : Status) (id : String) :
    (scheduler.setStatus marked status).status id ≠ none ↔ id ∈ scheduler.ids := by
  rw [setStatus_status scheduler found]
  by_cases same : id = marked
  · subst same
    have listed := (settled.known id).mp (by simp [found])
    simpa using listed
  · rw [Function.update_of_ne same]
    exact settled.known id

section Starts

variable {scheduler : TaskScheduler} {marked : String}
  (ready : scheduler.status marked = some .ready)

include ready

theorem markRunning_self : (scheduler.markRunning marked).status marked = some .running := by
  rw [TaskScheduler.markRunning, setStatus_status scheduler ready, Function.update_self]

theorem markRunning_of_ne {id : String} (different : id ≠ marked) :
    (scheduler.markRunning marked).status id = scheduler.status id := by
  rw [TaskScheduler.markRunning, setStatus_status scheduler ready,
    Function.update_of_ne different]

theorem markRunning_completed_iff (id : String) :
    (scheduler.markRunning marked).status id = some .completed ↔
      scheduler.status id = some .completed := by
  by_cases same : id = marked
  · subst same
    simp [markRunning_self ready, ready]
  · rw [markRunning_of_ne ready same]

theorem markRunning_allDepsDone (id : String) :
    (scheduler.markRunning marked).allDepsDone id ↔ scheduler.allDepsDone id := by
  unfold allDepsDone
  simp only [markRunning_completed_iff ready]
  rfl

theorem Settled.started (settled : Settled scheduler) :
    Settled (scheduler.markRunning marked) where
  known := known_setStatus settled ready .running
  met := by
    intro id present notBlocked notSkipped
    rw [markRunning_allDepsDone ready]
    by_cases same : id = marked
    · rw [same]
      exact settled.met marked (by simp [ready]) (by simp [ready]) (by simp [ready])
    · rw [markRunning_of_ne ready same] at present notBlocked notSkipped
      exact settled.met id present notBlocked notSkipped
  propagated := by
    intro id listed dep need status found terminal uncompleted
    have depOther : dep ≠ marked := by
      rintro rfl
      rw [markRunning_self ready, Option.some.injEq] at found
      subst found
      cases terminal
    rw [markRunning_of_ne ready depOther] at found
    have skipped := settled.propagated id listed dep need status found terminal uncompleted
    have different : id ≠ marked := by
      rintro rfl
      rw [ready] at skipped
      cases skipped
    rw [markRunning_of_ne ready different, skipped]

end Starts

section Marks

variable {scheduler : TaskScheduler} (settled : Settled scheduler) {marked : String}
  (running : scheduler.status marked = some .running)

include settled running

theorem allDepsDone_of_running : scheduler.allDepsDone marked :=
  settled.met marked (by simp [running]) (by simp [running]) (by simp [running])

theorem Settled.completed : Settled (scheduler.setStatus marked .completed) where
  known := known_setStatus settled running .completed
  met := by
    intro id present notBlocked notSkipped dep need
    rw [setStatus_status scheduler running] at present notBlocked notSkipped ⊢
    by_cases depMarked : dep = marked
    · rw [depMarked, Function.update_self]
    · rw [Function.update_of_ne depMarked]
      by_cases same : id = marked
      · subst same
        exact allDepsDone_of_running settled running dep need
      · rw [Function.update_of_ne same] at present notBlocked notSkipped
        exact settled.met id present notBlocked notSkipped dep need
  propagated := by
    intro id listed dep need status found terminal uncompleted
    rw [setStatus_status scheduler running] at found ⊢
    by_cases depMarked : dep = marked
    · subst depMarked
      rw [Function.update_self, Option.some.injEq] at found
      exact absurd found.symm uncompleted
    · rw [Function.update_of_ne depMarked] at found
      have skipped := settled.propagated id listed dep need status found terminal uncompleted
      have other : id ≠ marked := by
        rintro rfl
        rw [running] at skipped
        cases skipped
      rw [Function.update_of_ne other, skipped]

omit settled in
/-- A failure leaves the completed tasks alone. -/
theorem skips_completed {error : String} {after : TaskScheduler}
    (skips : Skips (scheduler.setStatus marked (.failed error)) after marked) {id : String}
    (completed : scheduler.status id = some .completed) :
    after.status id = some .completed := by
  have other : id ≠ marked := by
    rintro rfl
    rw [running] at completed
    cases completed
  have relabeled : (scheduler.setStatus marked (.failed error)).status id =
      some .completed := by
    rw [setStatus_status scheduler running, Function.update_of_ne other, completed]
  rcases skips.changes id with same | ⟨opened, -⟩
  · rw [same, relabeled]
  · rw [relabeled] at opened
    cases opened

/-- A task that a failure leaves neither blocked nor skipped has its dependencies done. -/
theorem skips_met {error : String} {after : TaskScheduler}
    (skips : Skips (scheduler.setStatus marked (.failed error)) after marked) {id : String}
    (present : after.status id ≠ none) (notBlocked : after.status id ≠ some .blocked)
    (notSkipped : after.status id ≠ some .skipped) : scheduler.allDepsDone id := by
  rcases skips.changes id with same | ⟨-, skipped⟩
  · by_cases isMarked : id = marked
    · rw [isMarked]
      exact allDepsDone_of_running settled running
    · rw [setStatus_status scheduler running, Function.update_of_ne isMarked] at same
      rw [same] at present notBlocked notSkipped
      exact settled.met id present notBlocked notSkipped
  · exact absurd skipped notSkipped

/-- What needs a task that will never complete is no longer open. -/
theorem skips_closed {error : String} {after : TaskScheduler}
    (skips : Skips (scheduler.setStatus marked (.failed error)) after marked) {id dep : String}
    {status : Status} (listed : id ∈ scheduler.ids) (need : dep ∈ scheduler.depsOf id)
    (found : after.status dep = some status) (terminal : status.isTerminal = true)
    (uncompleted : status ≠ .completed) : isOpen (after.status id) = false := by
  by_cases depMarked : dep = marked
  · exact skips.direct id listed (depMarked ▸ need)
  · by_cases opened : isOpen ((scheduler.setStatus marked (.failed error)).status dep) = true
    · apply skips.spreads id listed dep need opened
      rw [found, isOpen, terminal]
      rfl
    · have same := (skips.changes dep).resolve_right fun change => opened change.1
      rw [setStatus_status scheduler running, Function.update_of_ne depMarked, found] at same
      have skipped :=
        settled.propagated id listed dep need status same.symm terminal uncompleted
      have other : id ≠ marked := by
        rintro rfl
        rw [running] at skipped
        cases skipped
      rcases skips.changes id with kept | ⟨-, changed⟩
      · rw [kept, setStatus_status scheduler running, Function.update_of_ne other, skipped]
        rfl
      · rw [changed]
        rfl

theorem skips_known {error : String} {after : TaskScheduler}
    (skips : Skips (scheduler.setStatus marked (.failed error)) after marked) (id : String) :
    after.status id ≠ none ↔ id ∈ scheduler.ids := by
  rw [← known_setStatus settled running (.failed error) id]
  rcases skips.changes id with same | ⟨opened, skipped⟩
  · rw [same]
  · rw [skipped]
    refine ⟨fun _ missing => ?_, fun _ => by simp⟩
    rw [missing] at opened
    cases opened

theorem Settled.failed {error : String} {after : TaskScheduler}
    (tasks : after.tasks = scheduler.tasks)
    (skips : Skips (scheduler.setStatus marked (.failed error)) after marked) :
    Settled after := by
  obtain ⟨sameIds, sameDeps, -⟩ := lookups_congr tasks
  refine ⟨?known, ?met, ?propagated⟩
  case known =>
    rw [sameIds]
    exact skips_known settled running skips
  case met =>
    intro id present notBlocked notSkipped dep need
    rw [sameDeps] at need
    exact skips_completed running skips
      (skips_met settled running skips present notBlocked notSkipped dep need)
  case propagated =>
    intro id listed dep need status found terminal uncompleted
    rw [sameIds] at listed
    rw [sameDeps] at need
    have closed := skips_closed settled running skips listed need found terminal uncompleted
    by_contra notSkipped
    have present := (skips_known settled running skips id).mpr listed
    have notBlocked : after.status id ≠ some .blocked := by
      intro blocked
      rw [blocked] at closed
      cases closed
    have done := skips_met settled running skips present notBlocked notSkipped dep need
    rw [skips_completed running skips done, Option.some.injEq] at found
    exact uncompleted found.symm

/-- A failure leaves the tasks alone that are ready or running. -/
theorem skips_active {error : String} {after : TaskScheduler}
    (skips : Skips (scheduler.setStatus marked (.failed error)) after marked) {id : String}
    (other : id ≠ marked) (present : scheduler.status id ≠ none)
    (notBlocked : scheduler.status id ≠ some .blocked)
    (notSkipped : scheduler.status id ≠ some .skipped) :
    after.status id = scheduler.status id := by
  have relabeled : (scheduler.setStatus marked (.failed error)).status id =
      scheduler.status id := by
    rw [setStatus_status scheduler running, Function.update_of_ne other]
  have done := settled.met id present notBlocked notSkipped
  rcases skips.changes id with same | ⟨opened, skipped⟩
  · rw [same, relabeled]
  · rcases skips.origin id opened (by rw [skipped]; rfl) with direct | ⟨dep, need, depOpened⟩
    · have completed := done marked direct
      rw [running] at completed
      cases completed
    · have completed := done dep need
      have otherDep : dep ≠ marked := by
        rintro rfl
        rw [running] at completed
        cases completed
      rw [setStatus_status scheduler running, Function.update_of_ne otherDep,
        completed] at depOpened
      cases depOpened

end Marks

section Batches

variable {scheduler : TaskScheduler}

/-- What the loop of `next_batch` has picked from the ids it has visited. -/
structure Picked (scheduler : TaskScheduler) (availableSlots : Nat) (visited : List String)
    (picked : List String × List String) : Prop where
  files : picked.2 = picked.1.flatMap scheduler.filesOf
  visited : ∀ id ∈ picked.1, id ∈ visited
  nodup : picked.1.Nodup
  ready : ∀ id ∈ picked.1, scheduler.status id = some .ready
  fits : picked.1.length ≤ availableSlots
  apart : ∀ id ∈ picked.1, (scheduler.filesOf id).Disjoint scheduler.runningFiles
  exclusive : picked.1.Pairwise fun first second =>
    (scheduler.filesOf first).Disjoint (scheduler.filesOf second)

theorem Picked.step {availableSlots : Nat} {visited : List String}
    {picked : List String × List String}
    (sound : Picked scheduler availableSlots visited picked) {id : String}
    (fresh : id ∉ visited) :
    Picked scheduler availableSlots (visited ++ [id])
      (scheduler.pick availableSlots picked id) := by
  unfold pick
  split
  case isTrue chosen =>
      obtain ⟨ready, room, -, free⟩ := chosen
      have unpicked : id ∉ picked.1 := fun member => fresh (sound.visited id member)
      constructor
      · simp [sound.files]
      · intro other member
        rcases List.mem_append.mp member with earlier | last
        · exact List.mem_append_left _ (sound.visited other earlier)
        · exact List.mem_append_right _ last
      · rw [List.nodup_append_comm, List.singleton_append, List.nodup_cons]
        exact ⟨unpicked, sound.nodup⟩
      · intro other member
        rcases List.mem_append.mp member with earlier | last
        · exact sound.ready other earlier
        · rwa [List.mem_singleton.mp last]
      · rw [List.length_append, List.length_singleton]
        omega
      · intro other member
        rcases List.mem_append.mp member with earlier | last
        · exact sound.apart other earlier
        · rw [List.mem_singleton.mp last]
          exact fun file own busy => (free file own).1 busy
      · rw [List.pairwise_append]
        refine ⟨sound.exclusive, List.pairwise_singleton _ _, ?_⟩
        intro other member last isLast file theirs own
        rw [List.mem_singleton.mp isLast] at own
        apply (free file own).2
        rw [sound.files]
        exact List.mem_flatMap.mpr ⟨other, member, theirs⟩
  case isFalse =>
      exact { sound with
        visited := fun other member =>
          List.mem_append_left _ (sound.visited other member) }

theorem picked_foldl (availableSlots : Nat) {visit : List String} (nodup : visit.Nodup) :
    Picked scheduler availableSlots visit
      (visit.foldl (scheduler.pick availableSlots) ([], [])) := by
  induction visit using List.reverseRecOn with
  | nil => exact ⟨rfl, by simp, List.nodup_nil, by simp, Nat.zero_le _, by simp, .nil⟩
  | append_singleton visit last ih =>
      rw [List.nodup_append_comm, List.singleton_append, List.nodup_cons] at nodup
      rw [List.foldl_append, List.foldl_cons, List.foldl_nil]
      exact (ih nodup.2).step nodup.1

theorem nextBatch_picked {visit : List String} (nodup : visit.Nodup) :
    ∃ files, Picked scheduler (scheduler.maxParallel - scheduler.runningCount) visit
      (scheduler.nextBatch visit, files) := by
  unfold nextBatch
  dsimp only
  split
  · exact ⟨[], rfl, by simp, List.nodup_nil, by simp, Nat.zero_le _, by simp, .nil⟩
  · exact ⟨_, picked_foldl _ nodup⟩

/-- The batch never shrinks. -/
theorem foldl_pick_ne_nil (availableSlots : Nat) (visit : List String)
    {picked : List String × List String} (some' : picked.1 ≠ []) :
    (visit.foldl (scheduler.pick availableSlots) picked).1 ≠ [] := by
  induction visit generalizing picked with
  | nil => exact some'
  | cons id visit ih =>
      apply ih
      unfold pick
      split
      · simp
      · exact some'

/-- When nothing runs, a task that is ready gets into the batch, or another one before
it. -/
theorem nextBatch_ne_nil (distinct : (scheduler.tasks.map (·.id)).Nodup)
    (known : ∀ id, scheduler.status id ≠ none ↔ id ∈ scheduler.ids)
    (idle : ∀ id, scheduler.status id ≠ some .running) (positive : 0 < scheduler.maxParallel)
    {id : String} (ready : scheduler.status id = some .ready) {visit : List String}
    (walk : visit.Perm scheduler.ids) : scheduler.nextBatch visit ≠ [] := by
  have none : scheduler.runningCount = 0 := by
    simp [runningCount, idle]
  have noFiles : scheduler.runningFiles = [] := by
    simp [runningFiles, idle]
  have listed : id ∈ scheduler.ids := (known id).mp (by simp [ready])
  have member : id ∈ visit := walk.mem_iff.mpr listed
  rw [nextBatch, none, Nat.sub_zero, if_neg (by omega)]
  clear walk
  induction visit with
  | nil => cases member
  | cons head visit ih =>
      rw [List.foldl_cons]
      by_cases chosen : scheduler.status head = some .ready
      · have exists' := (isSome_task_iff distinct).mpr ((known head).mp (by simp [chosen]))
        apply foldl_pick_ne_nil
        simp [pick, chosen, positive, exists', noFiles]
      · have skipped : scheduler.pick scheduler.maxParallel ([], []) head = ([], []) := by
          rw [pick, if_neg fun all => chosen all.1]
        rw [skipped]
        apply ih
        exact (List.mem_cons.mp member).resolve_left fun same => chosen (same ▸ ready)

end Batches

namespace Session

variable {session : Session}
  (distinct : (session.scheduler.tasks.map (·.id)).Nodup)

/-- When a call ends the run of some tasks and changes none that is pending, the slots and
the files are still enough. -/
theorem Sound.of_fewer (sound : session.Sound) {after : TaskScheduler}
    (tasks : after.tasks = session.scheduler.tasks)
    (maxParallel : after.maxParallel = session.scheduler.maxParallel)
    (settled : Settled after)
    (waiting : ∀ id, after.status id = some .blocked → ¬ after.allDepsDone id)
    (running : ∀ id, after.status id = some .running →
      session.scheduler.status id = some .running)
    (ready : ∀ id ∈ session.pending, after.status id = some .ready) :
    Sound { session with scheduler := after } := by
  obtain ⟨sameIds, -, sameFiles⟩ := lookups_congr tasks
  have active : ∀ id, Active { session with scheduler := after } id → session.Active id :=
    fun id => Or.imp_left (running id)
  constructor
  · exact settled
  · exact waiting
  · exact ready
  · exact sound.pendingNodup
  · have slots := sound.slots
    have fewer : after.runningCount ≤ session.scheduler.runningCount := by
      rw [runningCount, runningCount, sameIds]
      apply List.countP_mono_left
      intro id _ runs
      simpa using running id (by simpa using runs)
    dsimp only
    omega
  · intro first second different firstActive secondActive
    rw [sameFiles]
    exact sound.exclusive first second different (active first firstActive)
      (active second secondActive)

include distinct

theorem Sound.nextBatch (sound : session.Sound) {visit : List String}
    (walk : visit.Perm session.scheduler.ids) :
    (session.step (.nextBatch visit)).Sound := by
  have nodup : visit.Nodup := by
    rw [walk.nodup_iff, ids_eq distinct]
    exact distinct
  obtain ⟨files, picked⟩ := nextBatch_picked nodup
  constructor
  · exact sound.settled
  · exact sound.waiting
  · exact picked.ready
  · exact picked.nodup
  · have slots := sound.slots
    have fits := picked.fits
    simp only [step] at fits ⊢
    omega
  · have runningApart : ∀ id, session.scheduler.status id = some .running →
        ∀ other ∈ session.scheduler.nextBatch visit,
          (session.scheduler.filesOf other).Disjoint (session.scheduler.filesOf id) := by
      intro id running other member file theirs own
      apply picked.apart other member theirs
      refine List.mem_flatMap.mpr ⟨id, List.mem_filter.mpr ⟨?_, by simp [running]⟩, own⟩
      exact (sound.settled.known id).mp (by simp [running])
    have symmetric : Std.Symm fun first second =>
        (session.scheduler.filesOf first).Disjoint (session.scheduler.filesOf second) :=
      ⟨fun _ _ apart => apart.symm⟩
    have exclusive : ∀ first second, first ≠ second →
        first ∈ session.scheduler.nextBatch visit →
        second ∈ session.scheduler.nextBatch visit →
        (session.scheduler.filesOf first).Disjoint (session.scheduler.filesOf second) :=
      fun first second different firstMember secondMember =>
        picked.exclusive.forall firstMember secondMember different
    rintro first second different (firstRuns | firstMember) (secondRuns | secondMember)
    · exact sound.exclusive first second different (Or.inl firstRuns) (Or.inl secondRuns)
    · exact (runningApart first firstRuns second secondMember).symm
    · exact runningApart second secondRuns first firstMember
    · exact exclusive first second different firstMember secondMember

/-- A running task ends, others may be skipped, and `update_ready` comes after that. -/
theorem Sound.ended (sound : session.Sound) {ended : TaskScheduler} {id : String}
    {visit : List String} (tasks : ended.tasks = session.scheduler.tasks)
    (maxParallel : ended.maxParallel = session.scheduler.maxParallel)
    (settled : Settled ended) (wasRunning : session.scheduler.status id = some .running)
    (walk : visit.Perm session.scheduler.ids)
    (running : ∀ other, ended.status other = some .running →
      session.scheduler.status other = some .running)
    (ready : ∀ other, other ≠ id → session.scheduler.status other = some .ready →
      ended.status other = some .ready) :
    Sound { session with scheduler := ended.updateReady visit } := by
  have same : (ended.tasks.map (·.id)).Nodup := tasks ▸ distinct
  have walkEnded : visit.Perm ended.ids := (lookups_congr tasks).1 ▸ walk
  apply sound.of_fewer
  · exact (updateReady_tasks _ _).trans tasks
  · exact (updateReady_maxParallel _ _).trans maxParallel
  · exact settled.updateReady same walkEnded
  · exact fun other => settled.waiting same walkEnded
  · intro other runs
    exact running other (updateReady_eq_some same walkEnded (by simp) runs)
  · intro other member
    have wasReady := sound.pendingReady other member
    have different : other ≠ id := by
      rintro rfl
      rw [wasRunning] at wasReady
      cases wasReady
    have before := ready other different wasReady
    rw [updateReady_eq_of_ne_blocked same walkEnded (by simp [before]), before]

theorem Sound.markCompleted (sound : session.Sound) {id : String} {visit : List String}
    (running : session.scheduler.status id = some .running)
    (walk : visit.Perm session.scheduler.ids) :
    (session.step (.markCompleted id visit)).Sound := by
  have relabeled := setStatus_status session.scheduler running .completed
  refine sound.ended distinct rfl rfl (sound.settled.completed running) running walk ?_ ?_
  · intro other runs
    by_cases isMarked : other = id
    · rwa [isMarked]
    · rwa [relabeled, Function.update_of_ne isMarked] at runs
  · intro other different ready
    rw [relabeled, Function.update_of_ne different, ready]

theorem Sound.markFailed (sound : session.Sound) {id : String} (error : String)
    {visitTasks : String → List String} {visit : List String}
    (running : session.scheduler.status id = some .running)
    (walkTasks : ∀ other, (visitTasks other).Perm session.scheduler.ids)
    (walk : visit.Perm session.scheduler.ids) :
    (session.step (.markFailed id error visitTasks visit)).Sound := by
  let marked := session.scheduler.setStatus id (.failed error)
  let skipping := marked.skipDependents id visitTasks
  have skips : Skips marked skipping id :=
    skipDependents_skips marked
      (fun other => (known_setStatus sound.settled running (.failed error) other).mp) id
      walkTasks
  have settled : Settled skipping := sound.settled.failed running rfl skips
  refine sound.ended distinct rfl rfl settled running walk ?_ ?_
  · intro other runs
    rcases skips.changes other with kept | ⟨-, skipped⟩
    · rw [kept, setStatus_status session.scheduler running] at runs
      by_cases isMarked : other = id
      · rwa [isMarked]
      · rwa [Function.update_of_ne isMarked] at runs
    · rw [runs] at skipped
      cases skipped
  · intro other different ready
    rw [skips_active sound.settled running skips different (by simp [ready])
      (by simp [ready]) (by simp [ready]), ready]

omit distinct in
theorem countP_update_le {Value : Type} [DecidableEq Value] (table : String → Value)
    (key : String) (value : Value) {keys : List String} (nodup : keys.Nodup) :
    (keys.countP fun other => Function.update table key value other = value) ≤
      (keys.countP fun other => table other = value) + 1 := by
  induction keys with
  | nil => simp
  | cons head keys ih =>
      rw [List.nodup_cons] at nodup
      by_cases same : head = key
      · subst same
        have rest : (keys.countP fun other => Function.update table head value other = value) =
            keys.countP fun other => table other = value := by
          apply List.countP_congr
          intro other member
          have different : other ≠ head := by
            rintro rfl
            exact nodup.1 member
          rw [Function.update_of_ne different]
        rw [List.countP_cons, List.countP_cons, rest]
        split <;> omega
      · have rest := ih nodup.2
        simp only [List.countP_cons, Function.update_of_ne same]
        omega

omit distinct in
theorem active_markRunning {id other : String} (member : id ∈ session.pending)
    (ready : session.scheduler.status id = some .ready)
    (active : (session.step (.markRunning id)).Active other) : session.Active other := by
  rcases active with runs | waits
  · by_cases same : other = id
    · exact Or.inr (same ▸ member)
    · rw [step, markRunning_of_ne ready same] at runs
      exact Or.inl runs
  · exact Or.inr (List.mem_of_mem_erase waits)

theorem runningCount_markRunning_le {id : String}
    (ready : session.scheduler.status id = some .ready) :
    (session.scheduler.markRunning id).runningCount ≤ session.scheduler.runningCount + 1 := by
  have nodup : session.scheduler.ids.Nodup := by
    rw [ids_eq distinct]
    exact distinct
  rw [runningCount, TaskScheduler.markRunning, setStatus_status session.scheduler ready]
  exact countP_update_le session.scheduler.status id (some .running) nodup

theorem Sound.markRunning (sound : session.Sound) {id : String} (member : id ∈ session.pending) :
    (session.step (.markRunning id)).Sound := by
  have ready := sound.pendingReady id member
  refine ⟨sound.settled.started ready, ?waiting, ?pendingReady, sound.pendingNodup.erase id,
    ?slots, ?exclusive⟩
  case waiting =>
    intro other blocked
    have different : other ≠ id := by
      rintro rfl
      rw [step, markRunning_self ready] at blocked
      cases blocked
    rw [step, markRunning_of_ne ready different] at blocked
    rw [step, markRunning_allDepsDone ready]
    exact sound.waiting other blocked
  case pendingReady =>
    intro other waits
    obtain ⟨different, earlier⟩ := sound.pendingNodup.mem_erase_iff.mp waits
    rw [step, markRunning_of_ne ready different]
    exact sound.pendingReady other earlier
  case slots =>
    have slots := sound.slots
    have more := runningCount_markRunning_le distinct ready
    have shorter := List.length_erase_of_mem member
    have positive := List.length_pos_of_mem member
    simp only [step]
    rw [shorter]
    change _ ≤ session.scheduler.maxParallel
    omega
  case exclusive =>
    intro first second different firstActive secondActive
    exact sound.exclusive first second different (active_markRunning member ready firstActive)
      (active_markRunning member ready secondActive)

end Session

theorem new_tasks (tasks : List SchedulableTask) (maxParallel : Nat) (visit : List String) :
    (new tasks maxParallel visit).tasks = tasks :=
  updateReady_tasks _ _

/-- Where every task is blocked, the statuses fit. -/
theorem settled_of_blocked {scheduler : TaskScheduler}
    (known : ∀ id, scheduler.status id ≠ none ↔ id ∈ scheduler.ids)
    (blocked : ∀ id status, scheduler.status id = some status → status = .blocked) :
    Settled scheduler where
  known := known
  met := by
    intro id present notBlocked
    obtain ⟨status, found⟩ := Option.ne_none_iff_exists'.mp present
    rw [blocked id status found] at found
    exact absurd found notBlocked
  propagated := by
    intro id listed dep need status found terminal
    rw [blocked dep status found] at terminal
    cases terminal

/-- A new scheduler is sound. -/
theorem sound_new {tasks : List SchedulableTask} (distinct : (tasks.map (·.id)).Nodup)
    (maxParallel : Nat) {visit : List String} (walk : visit.Perm (tasks.map (·.id))) :
    Session.Sound ⟨new tasks maxParallel visit, []⟩ := by
  let start : TaskScheduler :=
    { tasks
      status := fun id => if id ∈ tasks.map (·.id) then some .blocked else none
      maxParallel }
  have startDistinct : (start.tasks.map (·.id)).Nodup := distinct
  have ids : start.ids = tasks.map (·.id) := ids_eq startDistinct
  have blocked : ∀ id status, start.status id = some status → status = .blocked := by
    intro id status found
    simp only [start] at found
    split at found
    · exact (Option.some.inj found).symm
    · cases found
  have known : ∀ id, start.status id ≠ none ↔ id ∈ start.ids := by
    intro id
    rw [ids]
    by_cases listed : id ∈ tasks.map (·.id)
    · have found : start.status id = some .blocked := if_pos listed
      exact iff_of_true (by simp [found]) listed
    · have missing : start.status id = none := if_neg listed
      exact iff_of_false (by simp [missing]) listed
  have settled := settled_of_blocked known blocked
  have startWalk : visit.Perm start.ids := by rwa [ids]
  have idle : ∀ id, (start.updateReady visit).status id ≠ some .running := by
    intro id runs
    have before := updateReady_eq_some startDistinct startWalk (by simp) runs
    have same := blocked id _ before
    cases same
  constructor
  · exact settled.updateReady startDistinct startWalk
  · exact fun id => settled.waiting startDistinct startWalk
  · simp
  · exact List.nodup_nil
  · have none : (start.updateReady visit).runningCount = 0 := by
      simp [runningCount, idle]
    change (start.updateReady visit).runningCount + 0 ≤ _
    omega
  · rintro first second - (runs | waits)
    · exact absurd runs (idle first)
    · cases waits

section Laws

variable {session : Session} (sound : session.Sound)
  (distinct : (session.scheduler.tasks.map (·.id)).Nodup)

include sound distinct

/-- What depends on a failed task, directly or not, is skipped. -/
theorem skipped_of_failed {id failedId error : String}
    (failed : session.scheduler.status failedId = some (.failed error))
    (path : Relation.TransGen (Needs session.scheduler.tasks) id failedId) :
    session.scheduler.status id = some .skipped := by
  have listed : ∀ id dep, Needs session.scheduler.tasks id dep →
      id ∈ session.scheduler.ids := by
    rintro id dep ⟨task, member, rfl, -⟩
    rw [ids_eq distinct]
    exact List.mem_map_of_mem member
  induction path using Relation.TransGen.head_induction_on with
  | single need =>
      exact sound.settled.propagated _ (listed _ _ need) _
        ((mem_depsOf_iff distinct).mpr need) _ failed rfl (by simp)
  | head need _ ih =>
      exact sound.settled.propagated _ (listed _ _ need) _
        ((mem_depsOf_iff distinct).mpr need) _ ih rfl (by simp)

/-- While nothing runs and not all is done, some task is ready: the first blocked one in the
order of the dependencies would otherwise wait for nothing. -/
theorem exists_ready (acyclic : DependencyGraph.Acyclic (Needs session.scheduler.tasks))
    (closed : ∀ id dep, Needs session.scheduler.tasks id dep →
      dep ∈ session.scheduler.tasks.map (·.id))
    (idle : ∀ id, session.scheduler.status id ≠ some .running)
    (unfinished : session.scheduler.isDone ≠ true) :
    ∃ id, session.scheduler.status id = some .ready := by
  by_contra none
  push Not at none
  have statusCases : ∀ id ∈ session.scheduler.ids,
      session.scheduler.status id = some .blocked ∨
        ∃ status, session.scheduler.status id = some status ∧ status.isTerminal = true := by
    intro id listed
    obtain ⟨status, found⟩ :=
      Option.ne_none_iff_exists'.mp ((sound.settled.known id).mpr listed)
    cases status with
    | blocked => exact Or.inl found
    | ready => exact absurd found (none id)
    | running => exact absurd found (idle id)
    | completed => exact Or.inr ⟨_, found, rfl⟩
    | failed error => exact Or.inr ⟨_, found, rfl⟩
    | skipped => exact Or.inr ⟨_, found, rfl⟩
  obtain ⟨start, startListed, startBlocked⟩ : ∃ id ∈ session.scheduler.ids,
      session.scheduler.status id = some .blocked := by
    by_contra noneBlocked
    push Not at noneBlocked
    apply unfinished
    rw [isDone, List.all_eq_true]
    intro id listed
    obtain ⟨status, found, terminal⟩ :=
      (statusCases id listed).resolve_left (noneBlocked id listed)
    rw [found]
    exact terminal
  rw [ids_eq distinct] at startListed
  have finite := List.finite_toSet (session.scheduler.tasks.map (·.id))
  obtain ⟨id, listed, waits, met⟩ := acyclic.exists_ready finite closed
    {id | session.scheduler.status id ≠ some .blocked} startListed (not_not.mpr startBlocked)
  have blocked : session.scheduler.status id = some .blocked := not_not.mp waits
  apply sound.waiting id blocked
  intro dep need
  have depListed : dep ∈ session.scheduler.ids := by
    rw [ids_eq distinct]
    exact closed id dep ((mem_depsOf_iff distinct).mp need)
  obtain ⟨status, found, terminal⟩ := (statusCases dep depListed).resolve_left
    (met dep ((mem_depsOf_iff distinct).mp need))
  by_contra uncompleted
  have skipped := sound.settled.propagated id (ids_eq distinct ▸ listed) dep need status found
    terminal (fun same => uncompleted (same ▸ found))
  rw [blocked] at skipped
  cases skipped

theorem Session.Sound.law
    (acyclic : DependencyGraph.Acyclic (Needs session.scheduler.tasks))
    (closed : ∀ id dep, Needs session.scheduler.tasks id dep →
      dep ∈ session.scheduler.tasks.map (·.id)) :
    ScheduleLaw session.scheduler where
  bounded := (Nat.le_add_right _ _).trans sound.slots
  exclusive := fun first second different firstRuns secondRuns =>
    sound.exclusive first second different (Or.inl firstRuns) (Or.inl secondRuns)
  ordered := by
    intro id dep need status
    apply sound.settled.met id
    · rcases status with found | found <;> simp [found]
    · rcases status with found | found <;> simp [found]
    · rcases status with found | found <;> simp [found]
    · exact (mem_depsOf_iff distinct).mpr need
  blocked := by
    intro id blocked
    have waits := sound.waiting id blocked
    unfold allDepsDone at waits
    push Not at waits
    obtain ⟨dep, need, uncompleted⟩ := waits
    exact ⟨dep, (mem_depsOf_iff distinct).mp need, uncompleted⟩
  skipped := fun _ _ _ failed path => skipped_of_failed sound distinct failed path
  live := by
    intro idle positive
    by_cases done : session.scheduler.isDone = true
    · exact Or.inl done
    · obtain ⟨id, ready⟩ := exists_ready sound distinct acyclic closed idle done
      exact Or.inr fun visit walk =>
        nextBatch_ne_nil distinct sound.settled.known idle positive ready walk

end Laws

theorem step_tasks (session : Session) (call : Call) :
    (session.step call).scheduler.tasks = session.scheduler.tasks := by
  cases call with
  | nextBatch visit => rfl
  | markRunning id => rfl
  | markCompleted id visit => exact updateReady_tasks _ _
  | markFailed id error visitTasks visit => exact updateReady_tasks _ _

/-- In every run the tasks run within the limits and in the order of their dependencies,
failures skip their dependents, and the scheduler never gets stuck. -/
theorem schedule_lawful (tasks : List SchedulableTask) (maxParallel : Nat)
    (visit : List String) (distinct : (tasks.map (·.id)).Nodup)
    (listed : ∀ task ∈ tasks, ∀ dep ∈ task.dependsOn, dep ∈ tasks.map (·.id))
    (acyclic : DependencyGraph.Acyclic (Needs tasks))
    (walk : visit.Perm (tasks.map (·.id))) (calls : List Call)
    (allowed : GuardedRun.Guarded Session.step Session.Allowed
      ⟨new tasks maxParallel visit, []⟩ calls) :
    ∀ session ∈ GuardedRun.states Session.step ⟨new tasks maxParallel visit, []⟩ calls,
      ScheduleLaw session.scheduler := by
  have sound := GuardedRun.invariant_of_guarded Session.step Session.Allowed
    (fun session => session.Sound ∧ session.scheduler.tasks = tasks)
    (by
      rintro session call ⟨sound, same⟩ allowed
      have sessionDistinct : (session.scheduler.tasks.map (·.id)).Nodup := by rwa [same]
      refine ⟨?_, (step_tasks session call).trans same⟩
      cases call with
      | nextBatch visit => exact sound.nextBatch sessionDistinct allowed
      | markRunning id => exact sound.markRunning sessionDistinct allowed
      | markCompleted id visit =>
          exact sound.markCompleted sessionDistinct allowed.1 allowed.2
      | markFailed id error visitTasks visit =>
          exact sound.markFailed sessionDistinct error allowed.1 allowed.2.1 allowed.2.2)
    ⟨sound_new distinct maxParallel walk, new_tasks tasks maxParallel visit⟩ allowed
  intro session member
  obtain ⟨sessionSound, same⟩ := sound session member
  apply sessionSound.law
  · rwa [same]
  · rwa [same]
  · rw [same]
    rintro id dep ⟨task, taskListed, -, need⟩
    exact listed task taskListed dep need

/-- A task, and one that depends on it. -/
def chainTasks : List SchedulableTask :=
  [⟨"T1", [], ["a.rs"]⟩, ⟨"T2", ["T1"], ["a.rs"]⟩]

/-- The first task is run and fails. -/
def failingRun : List Call :=
  [.nextBatch ["T2", "T1"], .markRunning "T1",
    .markFailed "T1" "broken" (fun _ => ["T1", "T2"]) ["T1", "T2"]]

theorem schedule_lawful_failingRun :
    (failingRun.foldl Session.step ⟨new chainTasks 1 ["T1", "T2"], []⟩).scheduler.status "T2" =
        some .skipped ∧
      ∀ session ∈
        GuardedRun.states Session.step ⟨new chainTasks 1 ["T1", "T2"], []⟩ failingRun,
        ScheduleLaw session.scheduler := by
  refine ⟨by decide, schedule_lawful chainTasks 1 ["T1", "T2"] (by decide) (by decide) ?_
    (List.Perm.refl _) failingRun ?_⟩
  · apply DependencyGraph.acyclic_of_rank fun id => if id = "T2" then 1 else 0
    rintro id dep ⟨task, member, rfl, need⟩
    rcases List.mem_cons.mp member with rfl | last
    · cases need
    · rw [List.mem_singleton.mp last] at need ⊢
      rw [List.mem_singleton.mp need]
      decide
  · simp only [failingRun, GuardedRun.guarded_cons, GuardedRun.guarded_nil, and_true]
    have picked : "T1" ∈ (new chainTasks 1 ["T1", "T2"]).nextBatch ["T2", "T1"] := by decide
    exact ⟨List.Perm.swap _ _ _, picked, rfl, fun _ => List.Perm.refl _, List.Perm.refl _⟩

end TaskScheduler

end Roko
