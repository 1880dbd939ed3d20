import Roko.DependencyGraph
import Roko.Worklists

/-!
# The task scheduler

The model of `TaskScheduler` in `roko-runtime/src/task_scheduler.rs`.  The source keeps its
tasks and their statuses in hash maps: where a method walks such a map, the order in which
it meets the ids is a parameter.
-/

namespace Roko

structure SchedulableTask where
  id : String
  dependsOn : List String
  files : List String

namespace TaskScheduler

/-- The source's `TaskStatus`. -/
inductive Status
  | blocked
  | ready
  | running
  | completed
  | failed (error : String)
  | skipped
  deriving DecidableEq

def Status.isTerminal : Status → Bool
  | .completed | .failed _ | .skipped => true
  | .blocked | .ready | .running => false

end TaskScheduler

structure TaskScheduler where
  /-- The tasks in the order they were inserted; the last one of an id counts. -/
  tasks : List SchedulableTask
  status : String → Option TaskScheduler.Status
  maxParallel : Nat

namespace TaskScheduler

variable (scheduler : TaskScheduler)

/-- The keys of both maps. -/
def ids : List String :=
  (scheduler.tasks.map (·.id)).dedup

def task (id : String) : Option SchedulableTask :=
  scheduler.tasks.reverse.find? fun task => task.id = id

def filesOf (id : String) : List String :=
  ((scheduler.task id).map (·.files)).getD []

def depsOf (id : String) : List String :=
  ((scheduler.task id).map (·.dependsOn)).getD []

def setStatus (id : String) (status : Status) : TaskScheduler :=
  { scheduler with
    status := Function.update scheduler.status id ((scheduler.status id).map fun _ => status) }

def allDepsDone (id : String) : Prop :=
  ∀ dep ∈ scheduler.depsOf id, scheduler.status dep = some .completed

instance (id : String) : Decidable (scheduler.allDepsDone id) :=
  List.decidableBAll _ _

/-- The body of the loop of `update_ready`. -/
def makeReady (id : String) : TaskScheduler :=
  if (scheduler.task id).isSome ∧ scheduler.allDepsDone id then
    { scheduler with status := Function.update scheduler.status id (some .ready) }
  else scheduler

/-- Make the blocked tasks ready whose dependencies are completed. -/
def updateReady (visit : List String) : TaskScheduler :=
  (visit.filter fun id => scheduler.status id = some .blocked).foldl makeReady scheduler

def new (tasks : List SchedulableTask) (maxParallel : Nat) (visit : List String) :
    TaskScheduler :=
  updateReady
    { tasks
      status := fun id => if id ∈ tasks.map (·.id) then some .blocked else none
      maxParallel } visit

def runningCount : Nat :=
  scheduler.ids.countP fun id => scheduler.status id = some .running

def runningFiles : List String :=
  (scheduler.ids.filter fun id => scheduler.status id = some .running).flatMap
    scheduler.filesOf

/-- The body of the loop of `next_batch`, with the batch and its files. -/
def pick (availableSlots : Nat) (picked : List String × List String) (id : String) :
    List String × List String :=
  if scheduler.status id = some .ready ∧ picked.1.length < availableSlots ∧
      (scheduler.task id).isSome ∧
      ∀ file ∈ scheduler.filesOf id, file ∉ scheduler.runningFiles ∧ file ∉ picked.2 then
    (picked.1 ++ [id], picked.2 ++ scheduler.filesOf id)
  else picked

def nextBatch (visit : List String) : List String :=
  let availableSlots := scheduler.maxParallel - scheduler.runningCount
  if availableSlots = 0 then []
  else (visit.foldl (scheduler.pick availableSlots) ([], [])).1

def markRunning (id : String) : TaskScheduler :=
  scheduler.setStatus id .running

def markCompleted (id : String) (visit : List String) : TaskScheduler :=
  (scheduler.setStatus id .completed).updateReady visit

def dependents (visit : List String) (id : String) : List String :=
  visit.filter fun other => id ∈ scheduler.depsOf other

def isOpen : Option Status → Bool
  | some status => !status.isTerminal
  | none => false

/-- Skip what depends on a failed task.  The loop runs until its queue is empty; the number
bounds the turns by what can still be appended to the queue.  The tasks are walked once for
each task that is skipped. -/
def skipDependents (failedId : String) (visit : String → List String) : TaskScheduler :=
  let toSkip := scheduler.dependents (visit failedId) failedId
  let children := fun id => scheduler.dependents (visit id) id
  { scheduler with
    status := Worklists.closeFrom children isOpen (some .skipped)
      (toSkip.length + Worklists.owed children isOpen scheduler.status scheduler.ids)
      toSkip scheduler.status }

def markFailed (id : String) (error : String) (visitTasks : String → List String)
    (visit : List String) : TaskScheduler :=
  ((scheduler.setStatus id (.failed error)).skipDependents id visitTasks).updateReady visit

def isDone : Bool :=
  scheduler.ids.all fun id => (scheduler.status id).all Status.isTerminal

/-- A listed task names another as a dependency. -/
def Needs (tasks : List SchedulableTask) (id dep : String) : Prop :=
  ∃ task ∈ tasks, task.id = id ∧ dep ∈ task.dependsOn

section Tasks

variable {scheduler : TaskScheduler} (distinct : (scheduler.tasks.map (·.id)).Nodup)

include distinct

theorem ids_eq : scheduler.ids = scheduler.tasks.map (·.id) :=
  distinct.dedup

theorem task_eq_some_iff {id : String} {task : SchedulableTask} :
    scheduler.task id = some task ↔ task ∈ scheduler.tasks ∧ task.id = id := by
  constructor
  · intro found
    have named := List.find?_some found
    exact ⟨List.mem_reverse.mp (List.mem_of_find?_eq_some found), by simpa using named⟩
  · rintro ⟨member, rfl⟩
    cases found : scheduler.task task.id with
    | none =>
        have missing := List.find?_eq_none.mp found task (List.mem_reverse.mpr member)
        simp at missing
    | some other =>
        have named := List.find?_some found
        have otherMember := List.mem_reverse.mp (List.mem_of_find?_eq_some found)
        rw [List.inj_on_of_nodup_map distinct otherMember member (by simpa using named)]

theorem mem_depsOf_iff {id dep : String} :
    dep ∈ scheduler.depsOf id ↔ Needs scheduler.tasks id dep := by
  unfold depsOf Needs
  constructor
  · intro member
    cases found : scheduler.task id with
    | none => simp [found] at member
    | some task =>
        obtain ⟨listed, named⟩ := (task_eq_some_iff distinct).mp found
        exact ⟨task, listed, named, by simpa [found] using member⟩
  · rintro ⟨task, listed, named, member⟩
    rw [(task_eq_some_iff distinct).mpr ⟨listed, named⟩]
    exact member

theorem isSome_task_iff {id : String} :
    (scheduler.task id).isSome ↔ id ∈ scheduler.ids := by
  rw [ids_eq distinct, Option.isSome_iff_exists]
  simp only [task_eq_some_iff distinct, List.mem_map]

end Tasks

theorem makeReady_tasks (scheduler : TaskScheduler) (id : String) :
    (scheduler.makeReady id).tasks = scheduler.tasks ∧
      (scheduler.makeReady id).maxParallel = scheduler.maxParallel := by
  unfold makeReady
  split <;> exact ⟨rfl, rfl⟩

theorem foldl_makeReady_tasks (scheduler : TaskScheduler) (visit : List String) :
    (visit.foldl makeReady scheduler).tasks = scheduler.tasks ∧
      (visit.foldl makeReady scheduler).maxParallel = scheduler.maxParallel := by
  induction visit generalizing scheduler with
  | nil => exact ⟨rfl, rfl⟩
  | cons id visit ih =>
      obtain ⟨tasks, maxParallel⟩ := ih (scheduler.makeReady id)
      obtain ⟨sameTasks, sameMax⟩ := scheduler.makeReady_tasks id
      exact ⟨tasks.trans sameTasks, maxParallel.trans sameMax⟩

@[simp]
theorem updateReady_tasks (scheduler : TaskScheduler) (visit : List String) :
    (scheduler.updateReady visit).tasks = scheduler.tasks :=
  (foldl_makeReady_tasks scheduler _).1

@[simp]
theorem updateReady_maxParallel (scheduler : TaskScheduler) (visit : List String) :
    (scheduler.updateReady visit).maxParallel = scheduler.maxParallel :=
  (foldl_makeReady_tasks scheduler _).2

/-- The ids, the dependencies and the files are those of the tasks. -/
theorem lookups_congr {first second : TaskScheduler} (same : first.tasks = second.tasks) :
    first.ids = second.ids ∧ first.depsOf = second.depsOf ∧
      first.filesOf = second.filesOf := by
  refine ⟨by rw [ids, ids, same], ?_, ?_⟩
  · funext id
    rw [depsOf, depsOf, task, task, same]
  · funext id
    rw [filesOf, filesOf, task, task, same]

@[simp]
theorem updateReady_ids (scheduler : TaskScheduler) (visit : List String) :
    (scheduler.updateReady visit).ids = scheduler.ids :=
  (lookups_congr (updateReady_tasks scheduler visit)).1

@[simp]
theorem updateReady_depsOf (scheduler : TaskScheduler) (visit : List String) :
    (scheduler.updateReady visit).depsOf = scheduler.depsOf :=
  (lookups_congr (updateReady_tasks scheduler visit)).2.1

theorem setStatus_status (scheduler : TaskScheduler) {id : String} {old : Status}
    (found : scheduler.status id = some old) (status : Status) :
    (scheduler.setStatus id status).status =
      Function.update scheduler.status id (some status) := by
  rw [setStatus, found]
  rfl

/-- Some of the tasks that are not completed become ready. -/
theorem foldl_makeReady_status (scheduler : TaskScheduler) {visit : List String}
    (uncompleted : ∀ id ∈ visit, scheduler.status id ≠ some .completed) (id : String) :
    (visit.foldl makeReady scheduler).status id =
      if id ∈ visit ∧ (scheduler.task id).isSome ∧ scheduler.allDepsDone id then some .ready
      else scheduler.status id := by
  induction visit generalizing scheduler with
  | nil => simp
  | cons head visit ih =>
      have headOpen := uncompleted head List.mem_cons_self
      have kept : ∀ other, (scheduler.makeReady head).status other = some .completed ↔
          scheduler.status other = some .completed := by
        intro other
        unfold makeReady
        split
        · by_cases same : other = head
          · subst same
            simp [headOpen]
          · simp [Function.update_of_ne same]
        · rfl
      have sameTasks := (scheduler.makeReady_tasks head).1
      have sameTask : ∀ other, (scheduler.makeReady head).task other = scheduler.task other :=
        fun other => by rw [task, task, sameTasks]
      have sameDone : ∀ other,
          (scheduler.makeReady head).allDepsDone other ↔ scheduler.allDepsDone other := by
        intro other
        simp only [allDepsDone, depsOf, sameTask, kept]
      rw [List.foldl_cons, ih (scheduler.makeReady head)]
      · simp only [sameTask, sameDone, List.mem_cons]
        by_cases same : id = head
        · subst same
          by_cases ready : (scheduler.task id).isSome ∧ scheduler.allDepsDone id
          · simp [makeReady, ready]
          · simp [makeReady, ready]
        · have other : (scheduler.makeReady head).status id = scheduler.status id := by
            unfold makeReady
            split
            · exact Function.update_of_ne same _ _
            · rfl
          simp [same, other]
      · intro other member
        rw [ne_eq, kept]
        exact uncompleted other (List.mem_cons_of_mem _ member)

/-- Exactly the blocked tasks with completed dependencies become ready. -/
theorem updateReady_status (scheduler : TaskScheduler)
    (distinct : (scheduler.tasks.map (·.id)).Nodup)
    {visit : List String} (walk : visit.Perm scheduler.ids) (id : String) :
    (scheduler.updateReady visit).status id =
      if scheduler.status id = some .blocked ∧ id ∈ scheduler.ids ∧ scheduler.allDepsDone id
      then some .ready else scheduler.status id := by
  rw [updateReady, foldl_makeReady_status]
  · simp only [List.mem_filter, decide_eq_true_eq, walk.mem_iff, isSome_task_iff distinct]
    by_cases listed : id ∈ scheduler.ids <;> simp [listed]
  · intro other member
    obtain ⟨-, blocked⟩ := List.mem_filter.mp member
    rw [decide_eq_true_eq] at blocked
    simp [blocked]

/-- What a call of `skip_dependents` does to the statuses: it skips open tasks only, of what
depends on the failed task or on a skipped one it leaves nothing open, and what it skips
depends on the failed task or on an open one. -/
structure Skips (scheduler after : TaskScheduler) (failedId : String) : Prop where
  changes : ∀ id, after.status id = scheduler.status id ∨
    isOpen (scheduler.status id) = true ∧ after.status id = some .skipped
  direct : ∀ id ∈ scheduler.ids, failedId ∈ scheduler.depsOf id →
    isOpen (after.status id) = false
  spreads : ∀ id ∈ scheduler.ids, ∀ dep ∈ scheduler.depsOf id,
    isOpen (scheduler.status dep) = true → isOpen (after.status dep) = false →
    isOpen (after.status id) = false
  origin : ∀ id, isOpen (scheduler.status id) = true → isOpen (after.status id) = false →
    failedId ∈ scheduler.depsOf id ∨
      ∃ dep ∈ scheduler.depsOf id, isOpen (scheduler.status dep) = true

theorem skipDependents_skips (scheduler : TaskScheduler)
    (known : ∀ id, scheduler.status id ≠ none → id ∈ scheduler.ids) (failedId : String)
    {visit : String → List String} (walk : ∀ id, (visit id).Perm scheduler.ids) :
    Skips scheduler (scheduler.skipDependents failedId visit) failedId := by
  have member : ∀ id dep, id ∈ scheduler.dependents (visit dep) dep ↔
      id ∈ scheduler.ids ∧ dep ∈ scheduler.depsOf id := by
    intro id dep
    rw [dependents, List.mem_filter, (walk dep).mem_iff, decide_eq_true_eq]
  have listed : ∀ id, isOpen (scheduler.status id) = true → id ∈ scheduler.ids := by
    intro id opened
    apply known
    intro missing
    rw [missing] at opened
    cases opened
  let toSkip := scheduler.dependents (visit failedId) failedId
  let children := fun id => scheduler.dependents (visit id) id
  have closes : isOpen (some .skipped) = false := rfl
  have settled := Worklists.closeFrom_settled children closes scheduler.ids listed
    (le_refl (toSkip.length + Worklists.owed children isOpen scheduler.status scheduler.ids))
  constructor
  · exact fun id => Worklists.closeFrom_eq_or _ _ _ id
  · exact fun id idListed need => settled.1 id ((member id failedId).mpr ⟨idListed, need⟩)
  · exact fun id idListed dep need opened closed =>
      settled.2 dep opened closed id ((member id dep).mpr ⟨idListed, need⟩)
  · intro id opened closed
    rcases Worklists.closeFrom_origin _ opened closed with queued | ⟨dep, depOpened, edge⟩
    · exact Or.inl ((member id failedId).mp queued).2
    · exact Or.inr ⟨dep, ((member id dep).mp edge).2, depOpened⟩

end TaskScheduler

end Roko
