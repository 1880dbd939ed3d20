import Mathlib.Data.List.Sort
import Mathlib.Data.String.Basic
import Std.Data.ExtTreeMap

/-!
# The file-conflict-aware merge queue

The model of `roko-orchestrator/src/merge_queue.rs`.  Every public method of
`MergeQueue` locks the mutex once, so a method is one atomic step on `Inner`,
and any interleaving of any number of workers is a list of such steps.

`u32` counters are `UInt32`; the increment of `retry_count` wraps, as it does in
a release build.
-/

namespace Roko

/-- `roko_core::defaults::DEFAULT_MAX_MERGE_RETRIES`, used as `MAX_RETRIES`. -/
def maxRetries : UInt32 := 5

/-- `u32::saturating_sub`. -/
def saturatingSub (left right : UInt32) : UInt32 :=
  if left < right then 0 else left - right

/-- A request to merge a plan branch into the batch branch. -/
structure MergeRequest where
  planId : String
  branchName : String
  filesChanged : List String
  priority : UInt32
  retryCount : UInt32
deriving DecidableEq

namespace MergeRequest

/-- `MergeRequest::new`. -/
def new (planId branchName : String) (filesChanged : List String)
    (priority : UInt32) : MergeRequest :=
  ⟨planId, branchName, filesChanged, priority, 0⟩

def effectivePriority (request : MergeRequest) : UInt32 :=
  saturatingSub request.priority request.retryCount

end MergeRequest

/-- Status of a request inside the queue. -/
inductive MergeStatus where
  | queued
  | merging
deriving DecidableEq

/-- A request with its current status.  The serialized entry of a snapshot,
`MergeQueueEntrySnapshot`, has the same two fields. -/
structure QueueEntry where
  request : MergeRequest
  status : MergeStatus
deriving DecidableEq

/-- Serializable snapshot of the merge queue. -/
structure MergeQueueSnapshot where
  entries : List QueueEntry
  lockedFiles : Std.ExtTreeMap String String
  failed : Std.ExtTreeMap String String
  queuedOrder : List String
  maxRetries : UInt32

/-- The state behind the mutex. -/
structure MergeQueue where
  entries : Std.ExtTreeMap String QueueEntry
  order : List String
  lockedFiles : Std.ExtTreeMap String String
  failed : Std.ExtTreeMap String String

namespace MergeQueue

/-- `MergeQueue::new`: the derived default of `Inner`. -/
def new : MergeQueue :=
  ⟨∅, [], ∅, ∅⟩

/-- The effective priority the sort key of `rebuild_order` reads. -/
def effectivePriorityOf (queue : MergeQueue) (planId : String) : UInt32 :=
  (queue.entries[planId]?.map fun entry => entry.request.effectivePriority).getD 0

/-- Higher effective priority first, then the plan id in ascending order. -/
def ordersBefore (queue : MergeQueue) (first second : String) : Prop :=
  queue.effectivePriorityOf second < queue.effectivePriorityOf first ∨
    (queue.effectivePriorityOf first = queue.effectivePriorityOf second ∧
      first ≤ second)

instance (queue : MergeQueue) : DecidableRel queue.ordersBefore :=
  fun _ _ => inferInstanceAs (Decidable (_ ∨ _))

/-- `Inner::rebuild_order`. -/
def rebuildOrder (queue : MergeQueue) : MergeQueue :=
  let ids := (queue.entries.toList.filter fun pair =>
    pair.2.status == .queued).map Prod.fst
  { queue with order := ids.insertionSort queue.ordersBefore }

/-- The locks that stand on one of the given files, with their owners. -/
def lockedConflicts (lockedFiles : Std.ExtTreeMap String String)
    (filesChanged : List String) : List (String × String) :=
  lockedFiles.toList.filter fun pair => filesChanged.contains pair.1

/-- A queued entry none of whose files is locked. -/
def isMergeable (queue : MergeQueue) (planId : String) : Bool :=
  match queue.entries[planId]? with
  | none => false
  | some entry =>
      entry.status == .queued &&
        (lockedConflicts queue.lockedFiles entry.request.filesChanged).isEmpty

/-- Lock every listed file for a plan, replacing what is there. -/
def lockFiles (lockedFiles : Std.ExtTreeMap String String)
    (files : List String) (planId : String) : Std.ExtTreeMap String String :=
  files.foldl (fun locks file => locks.insert file planId) lockedFiles

/-- Remove the locks on every listed file, whoever owns them. -/
def unlockFiles (lockedFiles : Std.ExtTreeMap String String)
    (files : List String) : Std.ExtTreeMap String String :=
  files.foldl (fun locks file => locks.erase file) lockedFiles

/-- `MergeQueue::enqueue`: an existing request of the same plan is replaced. -/
def enqueue (queue : MergeQueue) (request : MergeRequest) : MergeQueue :=
  { queue with
    entries := queue.entries.insert request.planId ⟨request, .queued⟩ }.rebuildOrder

/-- `MergeQueue::next_mergeable`: a read, it leaves the state as it is. -/
def nextMergeable (queue : MergeQueue) : Option MergeRequest :=
  (queue.order.find? queue.isMergeable).bind fun planId =>
    queue.entries[planId]?.map QueueEntry.request

/-- The common tail of `mark_merging` and `reserve_next_mergeable`: the entry
becomes `merging` and its files are locked. -/
def startMerge (queue : MergeQueue) (planId : String) (entry : QueueEntry) :
    MergeQueue :=
  { queue with
    entries := queue.entries.insert planId { entry with status := .merging }
    lockedFiles :=
      lockFiles queue.lockedFiles entry.request.filesChanged planId }.rebuildOrder

/-- `MergeQueue::reserve_next_mergeable`. -/
def reserveNextMergeable (queue : MergeQueue) :
    MergeQueue × Option MergeRequest :=
  match queue.order.find? queue.isMergeable with
  | none => (queue, none)
  | some planId =>
      match queue.entries[planId]? with
      | none => (queue, none)
      | some entry => (queue.startMerge planId entry, some entry.request)

/-- `MergeQueue::mark_merging`.  It looks at the status of the entry only, not
at the locks. -/
def markMerging (queue : MergeQueue) (planId : String) : MergeQueue × Bool :=
  match queue.entries[planId]? with
  | none => (queue, false)
  | some entry =>
      if entry.status == .queued then (queue.startMerge planId entry, true)
      else (queue, false)

/-- `MergeQueue::mark_complete`. -/
def markComplete (queue : MergeQueue) (planId : String) : MergeQueue :=
  match queue.entries[planId]? with
  | none => queue.rebuildOrder
  | some entry =>
      { queue with
        entries := queue.entries.erase planId
        lockedFiles :=
          unlockFiles queue.lockedFiles entry.request.filesChanged }.rebuildOrder

/-- `MergeQueue::mark_failed`. -/
def markFailed (queue : MergeQueue) (planId reason : String) :
    MergeQueue × Bool :=
  match queue.entries[planId]? with
  | none => (queue, false)
  | some entry =>
      let locks := unlockFiles queue.lockedFiles entry.request.filesChanged
      let request :=
        { entry.request with retryCount := entry.request.retryCount + 1 }
      if maxRetries ≤ request.retryCount then
        ({ queue with
            entries := queue.entries.erase planId
            lockedFiles := locks
            failed := queue.failed.insert planId reason }.rebuildOrder, false)
      else
        ({ queue with
            entries := queue.entries.insert planId ⟨request, .queued⟩
            lockedFiles := locks }.rebuildOrder, true)

/-- `MergeQueue::snapshot`. -/
def snapshot (queue : MergeQueue) : MergeQueueSnapshot where
  entries := queue.entries.toList.map Prod.snd
  lockedFiles := queue.lockedFiles
  failed := queue.failed
  queuedOrder := queue.order
  maxRetries := Roko.maxRetries

/-- One entry of a snapshot is stored under the plan id of its request; a
merging one takes its locks again. -/
def restoreEntry (queue : MergeQueue) (entry : QueueEntry) : MergeQueue :=
  { queue with
    entries := queue.entries.insert entry.request.planId entry
    lockedFiles :=
      match entry.status with
      | .queued => queue.lockedFiles
      | .merging =>
          lockFiles queue.lockedFiles entry.request.filesChanged
            entry.request.planId }

/-- `MergeQueue::from_snapshot`: the stored lock map and order are not read. -/
def fromSnapshot (snapshot : MergeQueueSnapshot) : MergeQueue :=
  (snapshot.entries.foldl restoreEntry
    { new with failed := snapshot.failed }).rebuildOrder

/-- The operations of the queue that a worker can call. -/
inductive Op where
  | enqueue (request : MergeRequest)
  | nextMergeable
  | markMerging (planId : String)
  | reserveNextMergeable
  | markComplete (planId : String)
  | markFailed (planId reason : String)
  /-- `from_snapshot(snapshot())`. -/
  | restart

/-- The state after one operation. -/
def step (queue : MergeQueue) : Op → MergeQueue
  | .enqueue request => queue.enqueue request
  | .nextMergeable => queue
  | .markMerging planId => (queue.markMerging planId).1
  | .reserveNextMergeable => queue.reserveNextMergeable.1
  | .markComplete planId => queue.markComplete planId
  | .markFailed planId reason => (queue.markFailed planId reason).1
  | .restart => fromSnapshot queue.snapshot

@[simp]
theorem rebuildOrder_entries (queue : MergeQueue) :
    queue.rebuildOrder.entries = queue.entries :=
  rfl

@[simp]
theorem rebuildOrder_lockedFiles (queue : MergeQueue) :
    queue.rebuildOrder.lockedFiles = queue.lockedFiles :=
  rfl

/-- Locking adds exactly the listed files, all for the given plan. -/
theorem getElem?_lockFiles (locks : Std.ExtTreeMap String String)
    (files : List String) (planId file : String) :
    (lockFiles locks files planId)[file]? =
      if file ∈ files then some planId else locks[file]? := by
  induction files generalizing locks with
  | nil => simp [lockFiles]
  | cons head files ih =>
      have unfolded : lockFiles locks (head :: files) planId =
          lockFiles (locks.insert head planId) files planId := rfl
      rw [unfolded, ih, Std.ExtTreeMap.getElem?_insert]
      by_cases same : head = file
      · simp [same]
      · simp [same, Ne.symm same]

/-- Unlocking removes exactly the listed files. -/
theorem getElem?_unlockFiles (locks : Std.ExtTreeMap String String)
    (files : List String) (file : String) :
    (unlockFiles locks files)[file]? =
      if file ∈ files then none else locks[file]? := by
  induction files generalizing locks with
  | nil => simp [unlockFiles]
  | cons head files ih =>
      have unfolded : unlockFiles locks (head :: files) =
          unlockFiles (locks.erase head) files := rfl
      rw [unfolded, ih, Std.ExtTreeMap.getElem?_erase]
      by_cases same : head = file
      · simp [same]
      · simp [same, Ne.symm same]

theorem lockedConflicts_isEmpty_iff (locks : Std.ExtTreeMap String String)
    (files : List String) :
    (lockedConflicts locks files).isEmpty = true ↔
      ∀ file ∈ files, locks[file]? = none := by
  rw [lockedConflicts, List.isEmpty_iff, List.filter_eq_nil_iff]
  constructor
  · intro noConflict file fileMem
    cases owned : locks[file]? with
    | none => rfl
    | some owner =>
        have listed := Std.ExtTreeMap.mem_toList_iff_getElem?_eq_some.mpr owned
        exact absurd (by simpa using fileMem) (noConflict _ listed)
  · rintro unlocked ⟨file, owner⟩ listed conflict
    have owned := Std.ExtTreeMap.mem_toList_iff_getElem?_eq_some.mp listed
    rw [unlocked file (by simpa using conflict)] at owned
    cases owned

/-- A mergeable plan has a queued entry none of whose files is locked. -/
theorem isMergeable_iff (queue : MergeQueue) (planId : String) :
    queue.isMergeable planId = true ↔
      ∃ entry, queue.entries[planId]? = some entry ∧ entry.status = .queued ∧
        ∀ file ∈ entry.request.filesChanged,
          queue.lockedFiles[file]? = none := by
  unfold isMergeable
  cases found : queue.entries[planId]? with
  | none => simp
  | some entry =>
      simp only [Bool.and_eq_true, beq_iff_eq, lockedConflicts_isEmpty_iff,
        Option.some.injEq, exists_eq_left']

/-- What a reservation can do: nothing, or start the merge of one queued plan
whose files are free. -/
theorem reserveNextMergeable_cases (queue : MergeQueue) :
    queue.reserveNextMergeable.1 = queue ∨
      ∃ planId entry, queue.entries[planId]? = some entry ∧
        entry.status = .queued ∧
        (∀ file ∈ entry.request.filesChanged,
          queue.lockedFiles[file]? = none) ∧
        queue.reserveNextMergeable.1 = queue.startMerge planId entry := by
  unfold reserveNextMergeable
  cases search : queue.order.find? queue.isMergeable with
  | none => exact .inl rfl
  | some planId =>
      obtain ⟨entry, found, queued, free⟩ :=
        (isMergeable_iff queue planId).mp (List.find?_some search)
      exact .inr ⟨planId, entry, found, queued, free, by simp only [found]⟩

/-- What `mark_merging` can do: nothing, or start the merge of a queued plan. -/
theorem markMerging_cases (queue : MergeQueue) (planId : String) :
    (queue.markMerging planId).1 = queue ∧
        (∀ entry, queue.entries[planId]? = some entry →
          entry.status ≠ .queued) ∨
      ∃ entry, queue.entries[planId]? = some entry ∧
        entry.status = .queued ∧
        (queue.markMerging planId).1 = queue.startMerge planId entry := by
  unfold markMerging
  cases found : queue.entries[planId]? with
  | none => exact .inl ⟨rfl, by simp⟩
  | some entry =>
      by_cases queued : entry.status = .queued
      · exact .inr ⟨entry, rfl, queued, by simp [queued]⟩
      · refine .inl ⟨by simp [queued], ?_⟩
        rintro other ⟨⟩
        exact queued

end MergeQueue

end Roko
