import Roko.GuardedRuns
import Roko.MergeQueue

/-!
# Ownership of the file locks of the merge queue

The lock table is meant to hold one lock for every file of every merging plan
and nothing else.  Locks are released by file name, from whatever request is
stored under the plan id at that moment, so the table is exact along a run only
when no operation replaces a merging plan's request and no operation releases
the files of a plan that is not merging.  This file says exactly which steps
keep the table exact.
-/

namespace Roko

namespace MergeQueue

/-- The plan is merging a request that changes the file. -/
def MergesFile (queue : MergeQueue) (planId file : String) : Prop :=
  ∃ entry : QueueEntry, queue.entries[planId]? = some entry ∧ entry.status = .merging ∧
    file ∈ entry.request.filesChanged

/-- A file is locked for a plan exactly when the plan is merging it. -/
def LocksExact (queue : MergeQueue) : Prop :=
  ∀ file planId,
    queue.lockedFiles[file]? = some planId ↔ queue.MergesFile planId file

/-- Every entry is stored under the plan id of its request. -/
def Keyed (queue : MergeQueue) : Prop :=
  ∀ planId (entry : QueueEntry), queue.entries[planId]? = some entry →
    entry.request.planId = planId

/-- The plan an operation names, where it names one. -/
def Op.planId? : Op → Option String
  | .enqueue request => some request.planId
  | .markMerging planId | .markComplete planId | .markFailed planId _ =>
      some planId
  | .nextMergeable | .reserveNextMergeable | .restart => none

/-- No file of the plan's stored request is locked. -/
def FilesFree (queue : MergeQueue) (planId : String) : Prop :=
  ∀ entry : QueueEntry, queue.entries[planId]? = some entry →
    ∀ file ∈ entry.request.filesChanged, queue.lockedFiles[file]? = none

/-- The plan is stored with status `merging`. -/
def IsMerging (queue : MergeQueue) (planId : String) : Prop :=
  ∃ entry : QueueEntry, queue.entries[planId]? = some entry ∧ entry.status = .merging

/-- The condition, on the state before an operation, under which the operation
keeps the lock table exact.  Enqueueing must not replace a merging request that
holds locks; completing or failing a plan, and marking it as merging, must not
touch a file that is locked for another plan. -/
def LockGuard (queue : MergeQueue) : Op → Prop
  | .enqueue request => ∀ file, ¬ queue.MergesFile request.planId file
  | .markMerging planId => queue.IsMerging planId ∨ queue.FilesFree planId
  | .markComplete planId | .markFailed planId _ =>
      queue.IsMerging planId ∨ queue.FilesFree planId
  | .nextMergeable | .reserveNextMergeable | .restart => True

theorem mergesFile_insert (queue : MergeQueue) (planId : String)
    (entry : QueueEntry) (other file : String) :
    MergesFile { queue with entries := queue.entries.insert planId entry }
        other file ↔
      if planId = other then
        entry.status = .merging ∧ file ∈ entry.request.filesChanged
      else queue.MergesFile other file := by
  unfold MergesFile
  by_cases same : planId = other <;>
    simp [Std.ExtTreeMap.getElem?_insert, same]

theorem mergesFile_erase (queue : MergeQueue) (planId other file : String) :
    MergesFile { queue with entries := queue.entries.erase planId }
        other file ↔
      planId ≠ other ∧ queue.MergesFile other file := by
  unfold MergesFile
  by_cases same : planId = other <;>
    simp [Std.ExtTreeMap.getElem?_erase, same]

/-- Whether a plan merges a file depends on the entries only. -/
theorem mergesFile_congr {first second : MergeQueue}
    (entriesEq : first.entries = second.entries) (planId file : String) :
    first.MergesFile planId file ↔ second.MergesFile planId file := by
  unfold MergesFile
  rw [entriesEq]

theorem LocksExact.owner_unique {queue : MergeQueue} (locks : queue.LocksExact)
    {first second file : String} (firstMerges : queue.MergesFile first file)
    (secondMerges : queue.MergesFile second file) : first = second := by
  have firstOwns := (locks file first).mpr firstMerges
  have secondOwns := (locks file second).mpr secondMerges
  rw [firstOwns] at secondOwns
  exact Option.some.inj secondOwns

/-- In an exact table an unlocked file is a file nobody merges. -/
theorem LocksExact.getElem?_eq_none_iff {queue : MergeQueue}
    (locks : queue.LocksExact) (file : String) :
    queue.lockedFiles[file]? = none ↔
      ∀ planId, ¬ queue.MergesFile planId file := by
  rw [Option.eq_none_iff_forall_ne_some]
  exact forall_congr' fun planId => not_congr (locks file planId)

theorem mergesFile_startMerge (queue : MergeQueue) (planId : String)
    (entry : QueueEntry) (other file : String) :
    (queue.startMerge planId entry).MergesFile other file ↔
      if planId = other then file ∈ entry.request.filesChanged
      else queue.MergesFile other file := by
  have reduced := mergesFile_insert queue planId
    { entry with status := .merging } other file
  simp only [true_and] at reduced
  exact (mergesFile_congr rfl other file).trans reduced

/-- Starting a merge keeps the table exact exactly when the files of the plan
are free. -/
theorem locksExact_startMerge_iff {queue : MergeQueue} {planId : String}
    {entry : QueueEntry} (locks : queue.LocksExact)
    (found : queue.entries[planId]? = some entry)
    (queued : entry.status = .queued) :
    (queue.startMerge planId entry).LocksExact ↔
      ∀ file ∈ entry.request.filesChanged,
        queue.lockedFiles[file]? = none := by
  have notMerging : ∀ file, ¬ queue.MergesFile planId file := by
    rintro file ⟨stored, storedFound, merging, -⟩
    rw [found] at storedFound
    cases storedFound
    rw [queued] at merging
    cases merging
  have lookup : ∀ file, (queue.startMerge planId entry).lockedFiles[file]? =
      if file ∈ entry.request.filesChanged then some planId
      else queue.lockedFiles[file]? :=
    fun file => getElem?_lockFiles _ _ _ _
  constructor
  · intro exactAfter file fileMem
    rw [locks.getElem?_eq_none_iff]
    intro owner ownerMerges
    have ownerNe : planId ≠ owner := by
      rintro rfl
      exact notMerging file ownerMerges
    -- The old owner still merges the file, but the lock now names the plan.
    have stillMerges : (queue.startMerge planId entry).MergesFile owner file := by
      rw [mergesFile_startMerge, if_neg ownerNe]
      exact ownerMerges
    have owned := (exactAfter file owner).mpr stillMerges
    rw [lookup, if_pos fileMem] at owned
    exact ownerNe (Option.some.inj owned)
  · intro free file owner
    rw [lookup, mergesFile_startMerge]
    by_cases fileMem : file ∈ entry.request.filesChanged
    · have unmerged := (locks.getElem?_eq_none_iff file).mp (free file fileMem)
      by_cases same : planId = owner
      · simp [fileMem, same]
      · simp [fileMem, same, unmerged owner]
    · by_cases same : planId = owner
      · subst owner
        simp only [fileMem, if_false, if_true, iff_false]
        exact fun owned => notMerging file ((locks file planId).mp owned)
      · simp only [fileMem, same, if_false]
        exact locks file owner

/-- Releasing the files of a stored request, and taking the plan out of the
merging plans, keeps the table exact exactly when the plan was merging or none
of its files was locked. -/
theorem locksExact_release_iff {queue after : MergeQueue} {planId : String}
    {entry : QueueEntry} (locks : queue.LocksExact)
    (found : queue.entries[planId]? = some entry)
    (merges : ∀ other file, after.MergesFile other file ↔
      planId ≠ other ∧ queue.MergesFile other file)
    (released : after.lockedFiles =
      unlockFiles queue.lockedFiles entry.request.filesChanged) :
    after.LocksExact ↔ queue.IsMerging planId ∨ queue.FilesFree planId := by
  have lookup : ∀ file, after.lockedFiles[file]? =
      if file ∈ entry.request.filesChanged then none
      else queue.lockedFiles[file]? := by
    intro file
    rw [released, getElem?_unlockFiles]
  constructor
  · intro exactAfter
    by_cases merging : entry.status = .merging
    · exact .inl ⟨entry, found, merging⟩
    · right
      intro stored storedFound file fileMem
      rw [found] at storedFound
      cases storedFound
      rw [locks.getElem?_eq_none_iff]
      intro owner ownerMerges
      have ownerNe : planId ≠ owner := by
        rintro rfl
        obtain ⟨other, otherFound, otherMerging, -⟩ := ownerMerges
        rw [found] at otherFound
        cases otherFound
        exact merging otherMerging
      have owned := (exactAfter file owner).mpr
        ((merges owner file).mpr ⟨ownerNe, ownerMerges⟩)
      rw [lookup, if_pos fileMem] at owned
      cases owned
  · intro condition file owner
    rw [lookup, merges]
    by_cases fileMem : file ∈ entry.request.filesChanged
    · simp only [fileMem, if_true, reduceCtorEq, false_iff]
      rintro ⟨ownerNe, ownerMerges⟩
      rcases condition with ⟨stored, storedFound, merging⟩ | free
      · exact ownerNe (locks.owner_unique
          ⟨stored, storedFound, merging, by simp_all⟩ ownerMerges)
      · exact (locks.getElem?_eq_none_iff file).mp
          (free entry found file fileMem) owner ownerMerges
    · simp only [fileMem, if_false, locks file owner, ne_eq, iff_and_self]
      rintro ⟨stored, storedFound, -, storedMem⟩ rfl
      rw [found] at storedFound
      cases storedFound
      exact fileMem storedMem

theorem locksExact_enqueue_iff {queue : MergeQueue} (locks : queue.LocksExact)
    (request : MergeRequest) :
    (queue.enqueue request).LocksExact ↔
      ∀ file, ¬ queue.MergesFile request.planId file := by
  have merges : ∀ other file, (queue.enqueue request).MergesFile other file ↔
      request.planId ≠ other ∧ queue.MergesFile other file := by
    intro other file
    have reduced := mergesFile_insert queue request.planId
      ⟨request, .queued⟩ other file
    refine (mergesFile_congr rfl other file).trans (reduced.trans ?_)
    by_cases same : request.planId = other <;> simp [same]
  have lookup : ∀ file : String, (queue.enqueue request).lockedFiles[file]? =
      queue.lockedFiles[file]? := fun _ => rfl
  constructor
  · intro exactAfter file planMerges
    have owned := (locks file request.planId).mpr planMerges
    rw [← lookup, exactAfter, merges] at owned
    exact owned.1 rfl
  · intro unmerged file owner
    rw [lookup, locks, merges, iff_and_self]
    rintro ownerMerges rfl
    exact unmerged file ownerMerges

theorem markComplete_of_absent {queue : MergeQueue} {planId : String}
    (absent : queue.entries[planId]? = none) :
    queue.markComplete planId = queue.rebuildOrder := by
  simp only [markComplete, absent]

theorem mergesFile_markComplete {queue : MergeQueue} {planId : String}
    {entry : QueueEntry} (found : queue.entries[planId]? = some entry)
    (other file : String) :
    (queue.markComplete planId).MergesFile other file ↔
      planId ≠ other ∧ queue.MergesFile other file := by
  rw [← mergesFile_erase]
  apply mergesFile_congr
  simp only [markComplete, found, rebuildOrder_entries]

theorem mergesFile_markFailed {queue : MergeQueue} {planId : String}
    {entry : QueueEntry} (found : queue.entries[planId]? = some entry)
    (reason other file : String) :
    (queue.markFailed planId reason).1.MergesFile other file ↔
      planId ≠ other ∧ queue.MergesFile other file := by
  simp only [markFailed, found]
  split
  · rw [← mergesFile_erase]
    exact mergesFile_congr rfl other file
  · refine (mergesFile_congr rfl other file).trans
      ((mergesFile_insert queue planId ⟨_, .queued⟩ other file).trans ?_)
    by_cases same : planId = other <;> simp [same]

theorem markFailed_lockedFiles {queue : MergeQueue} {planId : String}
    {entry : QueueEntry} (found : queue.entries[planId]? = some entry)
    (reason : String) :
    (queue.markFailed planId reason).1.lockedFiles =
      unlockFiles queue.lockedFiles entry.request.filesChanged := by
  simp only [markFailed, found]
  split <;> rfl

/-!
# Restoring the merge queue from its own snapshot

`from_snapshot` stores the entries again under the plan ids of their requests
and takes new locks for the merging ones.  On a snapshot of a queue whose
entries are keyed by plan id this restores the entries, and the new lock table
is exact as soon as no file is merged by two plans.
-/

theorem getElem?_restoreEntries (entries : List (String × QueueEntry))
    (distinct : entries.Pairwise fun first second => first.1 ≠ second.1)
    (keyed : ∀ pair ∈ entries, pair.2.request.planId = pair.1)
    (start : MergeQueue) (planId : String) (entry : QueueEntry)
    (member : (planId, entry) ∈ entries) :
    ((entries.map Prod.snd).foldl restoreEntry start).entries[planId]? =
      some entry := by
  induction entries using List.reverseRecOn with
  | nil => simp at member
  | append_singleton entries last ih =>
      rw [List.map_append, List.foldl_append]
      rw [List.pairwise_append] at distinct
      have lastKey := keyed last (by simp)
      simp only [List.map_cons, List.map_nil, List.foldl_cons, List.foldl_nil,
        restoreEntry, Std.ExtTreeMap.getElem?_insert, lastKey]
      rcases List.mem_append.mp member with earlier | atLast
      · have keyNe : last.1 ≠ planId :=
          (distinct.2.2 _ earlier last (by simp)).symm
        rw [if_neg (by simpa using keyNe)]
        exact ih distinct.1 (fun pair pairMem => keyed pair (by simp [pairMem]))
          earlier
      · rw [List.mem_singleton] at atLast
        subst atLast
        simp

/-- Every entry the restored queue stores was in the list or in the start
state. -/
theorem mem_of_getElem?_restoreEntries (entries : List (String × QueueEntry))
    (keyed : ∀ pair ∈ entries, pair.2.request.planId = pair.1)
    (start : MergeQueue) (planId : String) (entry : QueueEntry)
    (found : ((entries.map Prod.snd).foldl restoreEntry start).entries[planId]? =
      some entry) :
    (planId, entry) ∈ entries ∨ start.entries[planId]? = some entry := by
  induction entries generalizing start with
  | nil => exact .inr found
  | cons head entries ih =>
      have headKey := keyed head (by simp)
      rcases ih (fun pair pairMem => keyed pair (by simp [pairMem])) _ found with
        inTail | inStart
      · exact .inl (List.mem_cons_of_mem _ inTail)
      · simp only [restoreEntry, Std.ExtTreeMap.getElem?_insert, headKey] at inStart
        by_cases same : head.1 = planId
        · subst planId
          simp only [Std.ReflCmp.compare_self, if_true, Option.some.injEq] at inStart
          subst entry
          exact .inl List.mem_cons_self
        · rw [if_neg (by simpa using same)] at inStart
          exact .inr inStart

/-- The locks of a restored queue belong to merging entries of the list, and
every file of a merging entry is locked. -/
theorem lockedFiles_restoreEntries (entries : List QueueEntry)
    (start : MergeQueue) (file : String) :
    (∀ owner, (entries.foldl restoreEntry start).lockedFiles[file]? = some owner →
      start.lockedFiles[file]? = some owner ∨
        ∃ entry ∈ entries, entry.status = .merging ∧
          entry.request.planId = owner ∧ file ∈ entry.request.filesChanged) ∧
    ((start.lockedFiles[file]? ≠ none ∨
        ∃ entry ∈ entries, entry.status = .merging ∧
          file ∈ entry.request.filesChanged) →
      (entries.foldl restoreEntry start).lockedFiles[file]? ≠ none) := by
  induction entries generalizing start with
  | nil => simp
  | cons head entries ih =>
      obtain ⟨ownersIH, lockedIH⟩ := ih (restoreEntry start head)
      have lookup : (restoreEntry start head).lockedFiles[file]? =
          if head.status = .merging ∧ file ∈ head.request.filesChanged then
            some head.request.planId
          else start.lockedFiles[file]? := by
        cases status : head.status <;>
          simp [restoreEntry, status, getElem?_lockFiles]
      rw [List.foldl_cons]
      constructor
      · intro owner owned
        rcases ownersIH owner owned with atHead | ⟨entry, entryMem, rest⟩
        · rw [lookup] at atHead
          split at atHead
          next merges =>
            exact .inr ⟨head, List.mem_cons_self, merges.1,
              Option.some.inj atHead, merges.2⟩
          next => exact .inl atHead
        · exact .inr ⟨entry, List.mem_cons_of_mem _ entryMem, rest⟩
      · intro locked
        apply lockedIH
        rcases locked with inStart | ⟨entry, entryMem, merging, fileMem⟩
        · left
          rw [lookup]
          split
          · simp
          · exact inStart
        · rcases List.mem_cons.mp entryMem with rfl | inTail
          · left
            rw [lookup, if_pos ⟨merging, fileMem⟩]
            simp
          · exact .inr ⟨entry, inTail, merging, fileMem⟩

theorem mem_snapshot_entries_iff (queue : MergeQueue) (entry : QueueEntry) :
    entry ∈ queue.snapshot.entries ↔
      ∃ planId : String, queue.entries[planId]? = some entry := by
  simp only [snapshot, List.mem_map, Prod.exists, exists_eq_right,
    Std.ExtTreeMap.mem_toList_iff_getElem?_eq_some]

/-- A snapshot round trip restores the entries. -/
theorem fromSnapshot_snapshot_entries {queue : MergeQueue} (keyed : queue.Keyed) :
    (fromSnapshot queue.snapshot).entries = queue.entries := by
  have distinct : queue.entries.toList.Pairwise
      fun first second => first.1 ≠ second.1 := by
    simpa using queue.entries.distinct_keys_toList
  have keyedList : ∀ pair ∈ queue.entries.toList,
      pair.2.request.planId = pair.1 := fun pair pairMem =>
    keyed pair.1 pair.2 (Std.ExtTreeMap.mem_toList_iff_getElem?_eq_some.mp pairMem)
  apply Std.ExtTreeMap.ext_getElem?
  intro planId
  apply Option.ext
  intro entry
  rw [← Std.ExtTreeMap.mem_toList_iff_getElem?_eq_some (t := queue.entries)]
  constructor
  · intro found
    rcases mem_of_getElem?_restoreEntries _ keyedList _ planId entry found with
      listed | initial
    · exact listed
    · simp [new] at initial
  · exact getElem?_restoreEntries _ distinct keyedList _ planId entry

/-- A snapshot round trip rebuilds an exact lock table whenever no file is
merged by two plans. -/
theorem locksExact_restart {queue : MergeQueue} (keyed : queue.Keyed)
    (exclusive : ∀ first second file, queue.MergesFile first file →
      queue.MergesFile second file → first = second) :
    (fromSnapshot queue.snapshot).LocksExact := by
  have merges : ∀ planId file,
      (fromSnapshot queue.snapshot).MergesFile planId file ↔
        queue.MergesFile planId file :=
    mergesFile_congr (fromSnapshot_snapshot_entries keyed)
  have owned : ∀ file owner,
      (fromSnapshot queue.snapshot).lockedFiles[file]? = some owner →
        queue.MergesFile owner file := by
    intro file owner locked
    rcases (lockedFiles_restoreEntries queue.snapshot.entries
      { new with failed := queue.failed } file).1 owner locked with
      initial | ⟨entry, entryMem, merging, ownerEq, fileMem⟩
    · simp [new] at initial
    · obtain ⟨planId, found⟩ := (mem_snapshot_entries_iff queue entry).mp entryMem
      have keyEq := keyed planId entry found
      rw [ownerEq] at keyEq
      subst keyEq
      exact ⟨entry, found, merging, fileMem⟩
  intro file planId
  rw [merges]
  constructor
  · exact owned file planId
  · rintro ⟨entry, found, merging, fileMem⟩
    have locked := (lockedFiles_restoreEntries queue.snapshot.entries
      { new with failed := queue.failed } file).2
      (.inr ⟨entry, (mem_snapshot_entries_iff queue entry).mpr ⟨planId, found⟩,
        merging, fileMem⟩)
    obtain ⟨owner, ownerEq⟩ := Option.ne_none_iff_exists'.mp locked
    have same := exclusive owner planId file (owned file owner ownerEq)
      ⟨entry, found, merging, fileMem⟩
    rw [← same]
    exact ownerEq

end MergeQueue

end Roko
