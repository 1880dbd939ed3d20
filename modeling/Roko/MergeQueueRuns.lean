import Roko.MergeQueueLocks

/-!
# Exactness of the lock table along runs of the merge queue

The lock table is not exact in every state a run from the empty queue can
reach.  It is exact along a run exactly when every step of the run meets
`LockGuard`, whatever the interleaving of the workers.
-/

namespace Roko

namespace MergeQueue

open GuardedRun

theorem keyed_new : new.Keyed := by
  intro planId entry found
  simp [new] at found

theorem keyed_insert {queue : MergeQueue} (keyed : queue.Keyed)
    {planId : String} (entry : QueueEntry)
    (entryKey : entry.request.planId = planId) :
    Keyed { queue with entries := queue.entries.insert planId entry } := by
  intro other stored found
  simp only [Std.ExtTreeMap.getElem?_insert] at found
  by_cases same : planId = other
  · subst other
    simp only [Std.ReflCmp.compare_self, if_true, Option.some.injEq] at found
    rw [← found]
    exact entryKey
  · rw [if_neg (by simpa using same)] at found
    exact keyed other stored found

theorem keyed_erase {queue : MergeQueue} (keyed : queue.Keyed)
    (planId : String) :
    Keyed { queue with entries := queue.entries.erase planId } := by
  intro other stored found
  simp only [Std.ExtTreeMap.getElem?_erase] at found
  by_cases same : planId = other
  · simp [same] at found
  · rw [if_neg (by simpa using same)] at found
    exact keyed other stored found

theorem keyed_startMerge {queue : MergeQueue} (keyed : queue.Keyed)
    {planId : String} {entry : QueueEntry}
    (found : queue.entries[planId]? = some entry) :
    (queue.startMerge planId entry).Keyed :=
  keyed_insert keyed { entry with status := .merging }
    (keyed planId entry found)

/-- Every operation stores entries under the plan id of their request. -/
theorem keyed_step {queue : MergeQueue} (keyed : queue.Keyed) (op : Op) :
    (queue.step op).Keyed := by
  cases op with
  | enqueue request => exact keyed_insert keyed ⟨request, .queued⟩ rfl
  | nextMergeable => exact keyed
  | markMerging planId =>
      rcases queue.markMerging_cases planId with
        ⟨unchanged, -⟩ | ⟨entry, found, -, started⟩
      · simpa only [step, unchanged] using keyed
      · simpa only [step, started] using keyed_startMerge keyed found
  | reserveNextMergeable =>
      rcases queue.reserveNextMergeable_cases with
        unchanged | ⟨planId, entry, found, -, -, started⟩
      · simpa only [step, unchanged] using keyed
      · simpa only [step, started] using keyed_startMerge keyed found
  | markComplete planId =>
      cases found : queue.entries[planId]? with
      | none =>
          rw [step, markComplete_of_absent found]
          exact keyed
      | some entry =>
          simp only [step, markComplete, found]
          exact keyed_erase keyed planId
  | markFailed planId reason =>
      cases found : queue.entries[planId]? with
      | none => simpa only [step, markFailed, found] using keyed
      | some entry =>
          simp only [step, markFailed, found]
          split
          · exact keyed_erase keyed planId
          · exact keyed_insert keyed ⟨_, .queued⟩
              (keyed planId entry found)
  | restart =>
      intro planId entry found
      rw [step, fromSnapshot_snapshot_entries keyed] at found
      exact keyed planId entry found

theorem locksExact_new : new.LocksExact := by
  intro file planId
  simp [new, MergesFile]

/-- From an exact table, a step leads to an exact table exactly when it meets
the guard. -/
theorem lockGuard_iff_locksExact_step {queue : MergeQueue}
    (keyed : queue.Keyed) (locks : queue.LocksExact) (op : Op) :
    queue.LockGuard op ↔ (queue.step op).LocksExact := by
  cases op with
  | enqueue request => exact (locksExact_enqueue_iff locks request).symm
  | nextMergeable => exact iff_of_true trivial locks
  | markMerging planId =>
      rcases queue.markMerging_cases planId with
        ⟨unchanged, notQueued⟩ | ⟨entry, found, queued, started⟩
      · refine iff_of_true ?_ (by simpa only [step, unchanged] using locks)
        cases found : queue.entries[planId]? with
        | none => exact .inr (by simp [FilesFree, found])
        | some entry =>
            have merging := notQueued entry found
            cases status : entry.status with
            | queued => exact (merging status).elim
            | merging => exact .inl ⟨entry, found, status⟩
      · rw [step, started, locksExact_startMerge_iff locks found queued]
        simp [LockGuard, IsMerging, FilesFree, found, queued]
  | reserveNextMergeable =>
      refine iff_of_true trivial ?_
      rcases queue.reserveNextMergeable_cases with
        unchanged | ⟨planId, entry, found, queued, free, started⟩
      · simpa only [step, unchanged] using locks
      · rw [step, started]
        exact (locksExact_startMerge_iff locks found queued).mpr free
  | markComplete planId =>
      cases found : queue.entries[planId]? with
      | none =>
          refine iff_of_true (.inr (by simp [FilesFree, found])) ?_
          rw [step, markComplete_of_absent found]
          exact locks
      | some entry =>
          refine (locksExact_release_iff locks found
            (mergesFile_markComplete found) ?_).symm
          simp only [markComplete, found, rebuildOrder_lockedFiles]
  | markFailed planId reason =>
      cases found : queue.entries[planId]? with
      | none =>
          refine iff_of_true (.inr (by simp [FilesFree, found])) ?_
          simpa only [step, markFailed, found] using locks
      | some entry =>
          exact (locksExact_release_iff locks found
            (mergesFile_markFailed found reason)
            (markFailed_lockedFiles found reason)).symm
  | restart =>
      refine iff_of_true trivial (locksExact_restart keyed ?_)
      exact fun first second file => locks.owner_unique

/-- The step removes no lock owned by a plan other than the one it names. -/
def KeepsForeignLocks (queue : MergeQueue) (op : Op) : Prop :=
  ∀ planId, op.planId? = some planId → ∀ file owner : String, owner ≠ planId →
    queue.lockedFiles[file]? = some owner →
      (queue.step op).lockedFiles[file]? = some owner

/-- An operation that names a plan changes no entry of another plan. -/
theorem getElem?_step_of_ne {queue : MergeQueue} {op : Op}
    {planId owner : String} (named : op.planId? = some planId)
    (ownerNe : owner ≠ planId) :
    (queue.step op).entries[owner]? = queue.entries[owner]? := by
  cases op with
  | enqueue request =>
      cases named
      simp [step, enqueue, Std.ExtTreeMap.getElem?_insert, ownerNe.symm]
  | nextMergeable => cases named
  | markMerging other =>
      cases named
      rcases queue.markMerging_cases planId with
        ⟨unchanged, -⟩ | ⟨entry, -, -, started⟩
      · rw [step, unchanged]
      · simp [step, started, startMerge, Std.ExtTreeMap.getElem?_insert,
          ownerNe.symm]
  | reserveNextMergeable => cases named
  | markComplete other =>
      cases named
      cases found : queue.entries[planId]? <;>
        simp [step, markComplete, found, Std.ExtTreeMap.getElem?_erase,
          ownerNe.symm]
  | markFailed other reason =>
      cases named
      cases found : queue.entries[planId]? with
      | none => simp [step, markFailed, found]
      | some entry =>
          simp only [step, markFailed, found]
          split <;>
            simp [Std.ExtTreeMap.getElem?_erase, Std.ExtTreeMap.getElem?_insert,
              ownerNe.symm]
  | restart => cases named

theorem keepsForeignLocks_of_locksExact {queue : MergeQueue} {op : Op}
    (before : queue.LocksExact) (after : (queue.step op).LocksExact) :
    queue.KeepsForeignLocks op := by
  intro planId named file owner ownerNe owned
  obtain ⟨entry, found, merging, fileMem⟩ := (before file owner).mp owned
  rw [after file owner]
  refine ⟨entry, ?_, merging, fileMem⟩
  rw [getElem?_step_of_ne named ownerNe]
  exact found

/-- The lock table is exact in every state of a run, and no step removes the
lock of a plan it does not name, exactly when every step meets the guard. -/
theorem locksExact_run_iff_lockGuard (ops : List Op) :
    ((∀ queue ∈ states step new ops, queue.LocksExact) ∧
      ∀ pair ∈ steps step new ops, pair.1.KeepsForeignLocks pair.2) ↔
    Guarded step LockGuard new ops := by
  have exactStep : ∀ (queue : MergeQueue) op, queue.Keyed ∧ queue.LocksExact →
      (LockGuard queue op ↔
        (queue.step op).Keyed ∧ (queue.step op).LocksExact) := by
    intro queue op invariant
    rw [lockGuard_iff_locksExact_step invariant.1 invariant.2 op]
    exact (and_iff_right (keyed_step invariant.1 op)).symm
  have runIff : Guarded step LockGuard new ops ↔
      ∀ queue ∈ states step new ops, queue.Keyed ∧ queue.LocksExact :=
    guarded_iff_invariant step LockGuard _ exactStep
      ⟨keyed_new, locksExact_new⟩
  have keyedRun : ∀ queue ∈ states step new ops, queue.Keyed :=
    invariant_of_preserved step Keyed (fun queue op keyed => keyed_step keyed op) ops keyed_new
  rw [runIff]
  constructor
  · rintro ⟨exactRun, -⟩ queue queueMem
    exact ⟨keyedRun queue queueMem, exactRun queue queueMem⟩
  · intro invariantRun
    refine ⟨fun queue queueMem => (invariantRun queue queueMem).2, ?_⟩
    intro pair pairMem
    obtain ⟨before, after⟩ := mem_states_of_mem_steps pairMem
    exact keepsForeignLocks_of_locksExact (invariantRun _ before).2
      (invariantRun _ after).2

/-- Replacing the request of a merging plan leaks its lock, and completing a
plan that is only queued takes the lock of the plan that is merging. -/
theorem locksExact_fails_on_reenqueue_and_on_queued_completion :
    (∃ queue ∈ states step new
        [.enqueue (.new "plan-a" "branch/plan-a" ["src/lib.rs"] 10),
          .reserveNextMergeable,
          .enqueue (.new "plan-a" "branch/plan-a" [] 10)],
      ¬ queue.LocksExact) ∧
    ∃ queue ∈ states step new
        [.enqueue (.new "plan-a" "branch/plan-a" ["src/lib.rs"] 10),
          .reserveNextMergeable,
          .enqueue (.new "plan-b" "branch/plan-b" ["src/lib.rs"] 5),
          .markComplete "plan-b"],
      ¬ queue.LocksExact := by
  refine ⟨⟨_, List.mem_cons_of_mem _ (List.mem_cons_of_mem _
      (List.mem_cons_of_mem _ List.mem_cons_self)), ?_⟩,
    ⟨_, List.mem_cons_of_mem _ (List.mem_cons_of_mem _ (List.mem_cons_of_mem _
      (List.mem_cons_of_mem _ List.mem_cons_self))), ?_⟩⟩
  · intro locks
    obtain ⟨entry, found, merging, -⟩ :=
      (locks "src/lib.rs" "plan-a").mp (by decide)
    have stored : entry =
        ⟨.new "plan-a" "branch/plan-a" [] 10, .queued⟩ :=
      Option.some.inj (found.symm.trans (by decide))
    rw [stored] at merging
    cases merging
  · intro locks
    have owned := (locks "src/lib.rs" "plan-a").mpr
      ⟨⟨.new "plan-a" "branch/plan-a" ["src/lib.rs"] 10, .merging⟩,
        by decide, rfl, by decide⟩
    exact absurd owned (by decide)

/-!
The queue is meant to keep two plans that change the same file from merging at
the same time.  `mark_merging` does not look at the locks, and completing or
failing a queued plan releases the locks of whoever merges its files.  Runs
that never do either to a plan sharing a file with a merging one are safe.
-/

/-- No two distinct plans merge the same file. -/
def MergesExclusive (queue : MergeQueue) : Prop :=
  ∀ first second file, queue.MergesFile first file →
    queue.MergesFile second file → first = second

/-- The plan is not merging and a file of its stored request is merged by
another plan. -/
def Contends (queue : MergeQueue) (planId : String) : Prop :=
  ∃ (entry : QueueEntry) (file owner : String),
    queue.entries[planId]? = some entry ∧ entry.status = .queued ∧
      file ∈ entry.request.filesChanged ∧ queue.MergesFile owner file

/-- The condition, on the state before an operation, under which exclusion is
kept: the plan that is marked as merging, completed or failed is not a queued
plan that shares a file with a merging one. -/
def ExclusionGuard (queue : MergeQueue) : Op → Prop
  | .markMerging planId | .markComplete planId | .markFailed planId _ =>
      ¬ queue.Contends planId
  | .enqueue _ | .nextMergeable | .reserveNextMergeable | .restart => True

/-- Every file of a merging plan is locked for it.  Other locks may be stale. -/
def LocksCover (queue : MergeQueue) : Prop :=
  ∀ planId file, queue.MergesFile planId file →
    queue.lockedFiles[file]? = some planId

theorem LocksCover.mergesExclusive {queue : MergeQueue}
    (covers : queue.LocksCover) : queue.MergesExclusive := by
  intro first second file firstMerges secondMerges
  have firstOwns := covers first file firstMerges
  rw [covers second file secondMerges] at firstOwns
  exact (Option.some.inj firstOwns).symm

theorem locksCover_startMerge {queue : MergeQueue} {planId : String}
    {entry : QueueEntry} (covers : queue.LocksCover)
    (free : ∀ file ∈ entry.request.filesChanged, ∀ owner, owner ≠ planId →
      ¬ queue.MergesFile owner file) :
    (queue.startMerge planId entry).LocksCover := by
  intro owner file ownerMerges
  rw [mergesFile_startMerge] at ownerMerges
  have lookup : (queue.startMerge planId entry).lockedFiles[file]? =
      if file ∈ entry.request.filesChanged then some planId
      else queue.lockedFiles[file]? := getElem?_lockFiles _ _ _ _
  rw [lookup]
  by_cases same : planId = owner
  · rw [if_pos same] at ownerMerges
    rw [if_pos ownerMerges, same]
  · rw [if_neg same] at ownerMerges
    have notShared : file ∉ entry.request.filesChanged := fun fileMem =>
      free file fileMem owner (Ne.symm same) ownerMerges
    rw [if_neg notShared]
    exact covers owner file ownerMerges

theorem locksCover_release {queue after : MergeQueue} {planId : String}
    {entry : QueueEntry} (covers : queue.LocksCover)
    (found : queue.entries[planId]? = some entry)
    (uncontended : ¬ queue.Contends planId)
    (merges : ∀ other file, after.MergesFile other file ↔
      planId ≠ other ∧ queue.MergesFile other file)
    (released : after.lockedFiles =
      unlockFiles queue.lockedFiles entry.request.filesChanged) :
    after.LocksCover := by
  intro owner file ownerMerges
  obtain ⟨ownerNe, ownerMerges⟩ := (merges owner file).mp ownerMerges
  have notShared : file ∉ entry.request.filesChanged := by
    intro fileMem
    cases status : entry.status with
    | queued =>
        exact uncontended ⟨entry, file, owner, found, status, fileMem, ownerMerges⟩
    | merging =>
        exact ownerNe (covers.mergesExclusive planId owner file
          ⟨entry, found, status, fileMem⟩ ownerMerges)
  rw [released, getElem?_unlockFiles, if_neg notShared]
  exact covers owner file ownerMerges

theorem locksCover_enqueue {queue : MergeQueue} (covers : queue.LocksCover)
    (request : MergeRequest) : (queue.enqueue request).LocksCover := by
  intro owner file ownerMerges
  have reduced := (mergesFile_insert queue request.planId ⟨request, .queued⟩
    owner file).mp ((mergesFile_congr rfl owner file).mp ownerMerges)
  by_cases same : request.planId = owner
  · simp [same] at reduced
  · rw [if_neg same] at reduced
    exact covers owner file reduced

/-- A guarded step keeps every merging plan's files locked for it. -/
theorem locksCover_step {queue : MergeQueue} (keyed : queue.Keyed)
    (covers : queue.LocksCover) (op : Op) (guard : queue.ExclusionGuard op) :
    (queue.step op).LocksCover := by
  cases op with
  | enqueue request => exact locksCover_enqueue covers request
  | nextMergeable => exact covers
  | markMerging planId =>
      rcases queue.markMerging_cases planId with
        ⟨unchanged, -⟩ | ⟨entry, found, queued, started⟩
      · simpa only [step, unchanged] using covers
      · rw [step, started]
        apply locksCover_startMerge covers
        intro file fileMem owner _ ownerMerges
        exact guard ⟨entry, file, owner, found, queued, fileMem, ownerMerges⟩
  | reserveNextMergeable =>
      rcases queue.reserveNextMergeable_cases with
        unchanged | ⟨planId, entry, found, queued, free, started⟩
      · simpa only [step, unchanged] using covers
      · rw [step, started]
        apply locksCover_startMerge covers
        intro file fileMem owner _ ownerMerges
        have owned := covers owner file ownerMerges
        rw [free file fileMem] at owned
        cases owned
  | markComplete planId =>
      cases found : queue.entries[planId]? with
      | none =>
          rw [step, markComplete_of_absent found]
          exact covers
      | some entry =>
          apply locksCover_release covers found guard
            (mergesFile_markComplete found)
          simp only [markComplete, found, rebuildOrder_lockedFiles]
  | markFailed planId reason =>
      cases found : queue.entries[planId]? with
      | none => simpa only [step, markFailed, found] using covers
      | some entry =>
          exact locksCover_release covers found guard
            (mergesFile_markFailed found reason)
            (markFailed_lockedFiles found reason)
  | restart =>
      have restored := locksExact_restart keyed covers.mergesExclusive
      exact fun planId file => (restored file planId).mpr

/-- In every run whose steps all meet the guard, no two distinct plans merge
the same file in any state reached. -/
theorem mergesExclusive_of_exclusionGuard (ops : List Op)
    (guarded : Guarded step ExclusionGuard new ops) :
    ∀ queue ∈ states step new ops, queue.MergesExclusive := by
  have coverRun := invariant_of_guarded step ExclusionGuard
    (fun queue => queue.Keyed ∧ queue.LocksCover)
    (fun queue op invariant guard =>
      ⟨keyed_step invariant.1 op,
        locksCover_step invariant.1 invariant.2 op guard⟩)
    ⟨keyed_new, fun planId file merges => by simp [new, MergesFile] at merges⟩
    guarded
  exact fun queue queueMem => (coverRun queue queueMem).2.mergesExclusive

/-- Two workers that both asked for the next mergeable request before either
marked it end up merging the same file. -/
theorem mergesExclusive_fails_on_check_then_act :
    ∃ queue ∈ states step new
        [.enqueue (.new "plan-a" "branch/plan-a" ["src/lib.rs"] 10),
          .nextMergeable,
          .enqueue (.new "plan-b" "branch/plan-b" ["src/lib.rs"] 20),
          .nextMergeable,
          .markMerging "plan-a",
          .markMerging "plan-b"],
      ¬ queue.MergesExclusive := by
  refine ⟨_, List.mem_cons_of_mem _ (List.mem_cons_of_mem _
    (List.mem_cons_of_mem _ (List.mem_cons_of_mem _ (List.mem_cons_of_mem _
      (List.mem_cons_of_mem _ List.mem_cons_self))))), ?_⟩
  intro exclusive
  have same := exclusive "plan-a" "plan-b" "src/lib.rs"
    ⟨⟨.new "plan-a" "branch/plan-a" ["src/lib.rs"] 10, .merging⟩,
      by decide, rfl, by decide⟩
    ⟨⟨.new "plan-b" "branch/plan-b" ["src/lib.rs"] 20, .merging⟩,
      by decide, rfl, by decide⟩
  exact absurd same (by decide)

/-- A reservation and its completion. -/
def reserveAndComplete : List Op :=
  [.enqueue (.new "plan-a" "branch/plan-a" ["src/lib.rs"] 10),
    .enqueue (.new "plan-b" "branch/plan-b" ["src/lib.rs"] 20),
    .reserveNextMergeable, .markComplete "plan-b"]

theorem guarded_reserveAndComplete :
    Guarded step ExclusionGuard new reserveAndComplete := by
  intro pair pairMem
  simp only [reserveAndComplete, steps, List.mem_cons, List.not_mem_nil,
    or_false] at pairMem
  rcases pairMem with rfl | rfl | rfl | rfl
  · trivial
  · trivial
  · trivial
  · rintro ⟨entry, file, owner, found, queued, -⟩
    have stored : entry =
        ⟨.new "plan-b" "branch/plan-b" ["src/lib.rs"] 20, .merging⟩ :=
      Option.some.inj (found.symm.trans (by decide))
    rw [stored] at queued
    cases queued

theorem mergesExclusive_reserve_complete :
    Guarded step ExclusionGuard new reserveAndComplete ∧
      ∀ queue ∈ states step new reserveAndComplete, queue.MergesExclusive :=
  ⟨guarded_reserveAndComplete,
    mergesExclusive_of_exclusionGuard reserveAndComplete guarded_reserveAndComplete⟩

end MergeQueue

end Roko
