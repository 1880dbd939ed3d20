import Roko.MergeQueueLocks

/-!
# Batches of the merge queue

`ready_batch` walks the order once and keeps the locks that the batch would take.  A
reservation sorts the queue again and searches it from the front.  The two agree: a
reservation only takes one plan out of the order, and a plan that was skipped stays
blocked while the locks grow.
-/

namespace Roko

namespace MergeQueue

/-- The loop of `ready_batch`.  The source panics on an ordered plan without an entry;
the order of a reachable queue has none. -/
def readyBatchLoop (entries : Std.ExtTreeMap String QueueEntry) (limit : Nat) :
    List String → Std.ExtTreeMap String String → List MergeRequest → List MergeRequest
  | [], _, out => out
  | planId :: order, virtualLocks, out =>
      if 0 < limit ∧ limit ≤ out.length then out
      else
        match entries[planId]? with
        | none => readyBatchLoop entries limit order virtualLocks out
        | some entry =>
            if entry.status ≠ .queued then
              readyBatchLoop entries limit order virtualLocks out
            else if ¬ (lockedConflicts virtualLocks entry.request.filesChanged).isEmpty then
              readyBatchLoop entries limit order virtualLocks out
            else
              readyBatchLoop entries limit order
                (lockFiles virtualLocks entry.request.filesChanged planId)
                (out ++ [entry.request])

/-- `MergeQueue::ready_batch`: a read, the queue is returned as it is. -/
def readyBatch (queue : MergeQueue) (limit : Nat) : MergeQueue × List MergeRequest :=
  (queue, readyBatchLoop queue.entries limit queue.order queue.lockedFiles [])

/-- At most so many calls of `reserve_next_mergeable`, until one returns none. -/
def reserveRepeatedly : Nat → MergeQueue → MergeQueue × List MergeRequest
  | 0, queue => (queue, [])
  | calls + 1, queue =>
      match queue.reserveNextMergeable with
      | (next, none) => (next, [])
      | (next, some request) =>
          let later := reserveRepeatedly calls next
          (later.1, request :: later.2)

/-- The states of a queue that starts empty or from a stored snapshot. -/
inductive Reachable : MergeQueue → Prop
  | new : Reachable MergeQueue.new
  | fromSnapshot (snapshot : MergeQueueSnapshot) : Reachable (fromSnapshot snapshot)
  | step {queue : MergeQueue} (op : Op) (before : Reachable queue) :
      Reachable (queue.step op)

/-- The order is the one that a rebuild gives. -/
def Fresh (queue : MergeQueue) : Prop :=
  queue.order = queue.rebuildOrder.order

variable {queue : MergeQueue}

theorem fresh_rebuildOrder (queue : MergeQueue) : queue.rebuildOrder.Fresh :=
  rfl

theorem fresh_step (fresh : queue.Fresh) (op : Op) : (queue.step op).Fresh := by
  cases op with
  | enqueue request => exact fresh_rebuildOrder _
  | nextMergeable => exact fresh
  | markMerging planId =>
      rcases queue.markMerging_cases planId with ⟨unchanged, -⟩ | ⟨entry, -, -, started⟩
      · rw [step, unchanged]
        exact fresh
      · rw [step, started]
        exact fresh_rebuildOrder _
  | reserveNextMergeable =>
      rcases queue.reserveNextMergeable_cases with
        unchanged | ⟨planId, entry, -, -, -, started⟩
      · rw [step, unchanged]
        exact fresh
      · rw [step, started]
        exact fresh_rebuildOrder _
  | markComplete planId =>
      change (queue.markComplete planId).Fresh
      unfold markComplete
      split
      · exact fresh_rebuildOrder _
      · exact fresh_rebuildOrder _
  | markFailed planId reason =>
      change (queue.markFailed planId reason).1.Fresh
      unfold markFailed
      split
      · exact fresh
      · dsimp only
        split
        · exact fresh_rebuildOrder _
        · exact fresh_rebuildOrder _
  | restart => exact fresh_rebuildOrder _

theorem fresh_of_reachable (reachable : queue.Reachable) : queue.Fresh := by
  induction reachable with
  | new => rfl
  | fromSnapshot snapshot => exact fresh_rebuildOrder _
  | step op _ ih => exact fresh_step ih op

theorem mem_order_iff (fresh : queue.Fresh) (planId : String) :
    planId ∈ queue.order ↔
      ∃ entry, queue.entries[planId]? = some entry ∧ entry.status = .queued := by
  rw [fresh]
  unfold rebuildOrder
  dsimp only
  rw [List.mem_insertionSort, List.mem_map]
  constructor
  · rintro ⟨⟨planId, entry⟩, member, rfl⟩
    obtain ⟨listed, queued⟩ := List.mem_filter.mp member
    exact ⟨entry, Std.ExtTreeMap.mem_toList_iff_getElem?_eq_some.mp listed,
      beq_iff_eq.mp queued⟩
  · rintro ⟨entry, found, queued⟩
    refine ⟨(planId, entry), List.mem_filter.mpr ⟨?_, beq_iff_eq.mpr queued⟩, rfl⟩
    exact Std.ExtTreeMap.mem_toList_iff_getElem?_eq_some.mpr found

theorem nodup_order (fresh : queue.Fresh) : queue.order.Nodup := by
  rw [fresh]
  unfold rebuildOrder
  dsimp only
  rw [(List.perm_insertionSort _ _).nodup_iff]
  apply List.Pairwise.map _ _
    ((Std.ExtTreeMap.distinct_keys_toList (t := queue.entries)).filter _)
  intro first second apart same
  exact apart (Std.LawfulEqCmp.compare_eq_iff_eq.mpr same)

theorem ordersBefore_iff {first second : String} :
    queue.ordersBefore first second ↔
      (queue.effectivePriorityOf second).toNat < (queue.effectivePriorityOf first).toNat ∨
        (queue.effectivePriorityOf first).toNat = (queue.effectivePriorityOf second).toNat ∧
          first ≤ second := by
  unfold ordersBefore
  rw [UInt32.lt_iff_toNat_lt, UInt32.toNat_inj]

instance (queue : MergeQueue) : Std.Total queue.ordersBefore where
  total first second := by
    rw [ordersBefore_iff, ordersBefore_iff]
    rcases lt_trichotomy (queue.effectivePriorityOf first).toNat
      (queue.effectivePriorityOf second).toNat with less | same | greater
    · exact Or.inr (Or.inl less)
    · rcases le_total first second with before | after
      · exact Or.inl (Or.inr ⟨same, before⟩)
      · exact Or.inr (Or.inr ⟨same.symm, after⟩)
    · exact Or.inl (Or.inl greater)

instance (queue : MergeQueue) : IsTrans String queue.ordersBefore where
  trans first second third := by
    rw [ordersBefore_iff, ordersBefore_iff, ordersBefore_iff]
    rintro (higher | ⟨same, before⟩) (higher' | ⟨same', before'⟩)
    · exact Or.inl (higher'.trans higher)
    · exact Or.inl (same' ▸ higher)
    · exact Or.inl (same ▸ higher')
    · exact Or.inr ⟨same.trans same', before.trans before'⟩

instance (queue : MergeQueue) : Std.Antisymm queue.ordersBefore where
  antisymm first second := by
    rw [ordersBefore_iff, ordersBefore_iff]
    rintro (higher | ⟨same, before⟩) (higher' | ⟨same', after⟩)
    · exact absurd higher' higher.not_gt
    · exact absurd same' higher.ne
    · exact absurd same higher'.ne
    · exact le_antisymm before after

theorem sorted_order (fresh : queue.Fresh) : queue.order.Pairwise queue.ordersBefore := by
  rw [fresh]
  exact List.pairwise_insertionSort queue.ordersBefore _

/-- A started merge changes no priority. -/
theorem effectivePriorityOf_startMerge {planId : String} {entry : QueueEntry}
    (found : queue.entries[planId]? = some entry) (other : String) :
    (queue.startMerge planId entry).effectivePriorityOf other =
      queue.effectivePriorityOf other := by
  unfold effectivePriorityOf startMerge
  rw [rebuildOrder_entries, Std.ExtTreeMap.getElem?_insert]
  split
  case isTrue same =>
    rw [← Std.LawfulEqCmp.compare_eq_iff_eq.mp same, found]
    rfl
  case isFalse => rfl

/-- A started merge takes its plan out of the order and leaves the rest as it is. -/
theorem order_startMerge (fresh : queue.Fresh) {planId : String} {entry : QueueEntry}
    (found : queue.entries[planId]? = some entry) :
    (queue.startMerge planId entry).order = queue.order.erase planId := by
  have freshNext : (queue.startMerge planId entry).Fresh := fresh_rebuildOrder _
  have same : (queue.startMerge planId entry).ordersBefore = queue.ordersBefore := by
    funext first second
    unfold ordersBefore
    rw [effectivePriorityOf_startMerge found, effectivePriorityOf_startMerge found]
  have sortedNext := sorted_order freshNext
  rw [same] at sortedNext
  apply List.Perm.eq_of_pairwise' sortedNext
    ((sorted_order fresh).sublist List.erase_sublist)
  apply (List.perm_ext_iff_of_nodup (nodup_order freshNext)
    ((nodup_order fresh).erase planId)).mpr
  intro other
  rw [mem_order_iff freshNext, (nodup_order fresh).mem_erase_iff, mem_order_iff fresh]
  unfold startMerge
  rw [rebuildOrder_entries, Std.ExtTreeMap.getElem?_insert]
  by_cases this : planId = other
  · simp [this]
  · simp [this, Ne.symm this]

theorem reserveNextMergeable_of_blocked
    (blocked : ∀ planId ∈ queue.order, ¬ queue.isMergeable planId) :
    queue.reserveNextMergeable = (queue, none) := by
  unfold reserveNextMergeable
  rw [List.find?_eq_none.mpr blocked]

theorem reserveNextMergeable_of_order {skipped later : List String} {planId : String}
    {entry : QueueEntry} (order : queue.order = skipped ++ planId :: later)
    (blocked : ∀ other ∈ skipped, ¬ queue.isMergeable other)
    (found : queue.entries[planId]? = some entry) (mergeable : queue.isMergeable planId) :
    queue.reserveNextMergeable = (queue.startMerge planId entry, some entry.request) := by
  have search : queue.order.find? queue.isMergeable = some planId := by
    rw [order, List.find?_append, List.find?_eq_none.mpr blocked, Option.none_or,
      List.find?_cons_of_pos mergeable]
  unfold reserveNextMergeable
  rw [search]
  dsimp only
  rw [found]

/-- A started merge leaves the entries of other plans as they are. -/
theorem entries_startMerge_of_ne {planId other : String} (entry : QueueEntry)
    (apart : planId ≠ other) :
    (queue.startMerge planId entry).entries[other]? = queue.entries[other]? := by
  unfold startMerge
  rw [rebuildOrder_entries, Std.ExtTreeMap.getElem?_insert, if_neg (by simpa using apart)]

/-- What was blocked stays blocked while the locks grow. -/
theorem blocked_startMerge {planId other : String} {entry : QueueEntry}
    (apart : planId ≠ other) (blocked : ¬ queue.isMergeable other) :
    ¬ (queue.startMerge planId entry).isMergeable other := by
  rw [isMergeable_iff] at blocked ⊢
  rintro ⟨stored, found, queued, free⟩
  rw [entries_startMerge_of_ne entry apart] at found
  refine blocked ⟨stored, found, queued, fun file listed => ?_⟩
  have unlocked := free file listed
  unfold startMerge at unlocked
  rw [rebuildOrder_lockedFiles, getElem?_lockFiles] at unlocked
  split at unlocked
  · cases unlocked
  · exact unlocked

/-- So many reservations are left to compare with the rest of the loop. -/
def CallsLeft (limit calls : Nat) (out : List MergeRequest) (later : List String) : Prop :=
  (0 < limit → calls = limit - out.length) ∧ (limit = 0 → later.length ≤ calls)

section CallsLeft

variable {limit calls : Nat} {out : List MergeRequest} {planId : String}
  {later : List String}

theorem CallsLeft.eq_zero (left : CallsLeft limit calls out (planId :: later))
    (full : 0 < limit ∧ limit ≤ out.length) : calls = 0 := by
  have calls := left.1 full.1
  omega

theorem CallsLeft.skip (left : CallsLeft limit calls out (planId :: later)) :
    CallsLeft limit calls out later :=
  ⟨left.1, fun unbounded => Nat.le_of_succ_le (left.2 unbounded)⟩

theorem CallsLeft.take (left : CallsLeft limit calls out (planId :: later))
    (open' : ¬ (0 < limit ∧ limit ≤ out.length)) (request : MergeRequest) :
    ∃ rest, calls = rest + 1 ∧ CallsLeft limit rest (out ++ [request]) later := by
  obtain ⟨bounded, unbounded⟩ := left
  rw [List.length_cons] at unbounded
  refine ⟨calls - 1, by omega, fun limited => ?_, fun unlimited => ?_⟩
  · have calls := bounded limited
    rw [List.length_append, List.length_singleton]
    omega
  · have enough := unbounded unlimited
    omega

end CallsLeft

theorem reserveRepeatedly_of_blocked
    (blocked : ∀ planId ∈ queue.order, ¬ queue.isMergeable planId) (calls : Nat) :
    reserveRepeatedly calls queue = (queue, []) := by
  cases calls with
  | zero => rfl
  | succ calls => rw [reserveRepeatedly, reserveNextMergeable_of_blocked blocked]

/-- A queued plan is mergeable when the locks leave its files free. -/
theorem isMergeable_of_queued {planId : String} {entry : QueueEntry}
    (found : queue.entries[planId]? = some entry) (queued : entry.status = .queued) :
    queue.isMergeable planId =
      (lockedConflicts queue.lockedFiles entry.request.filesChanged).isEmpty := by
  unfold isMergeable
  rw [found]
  simp [queued]

/-- A plan that is started leaves the order. -/
theorem order_startMerge_append (fresh : queue.Fresh) {planId : String} {entry : QueueEntry}
    (found : queue.entries[planId]? = some entry) {skipped later : List String}
    (order : queue.order = skipped ++ planId :: later) :
    (queue.startMerge planId entry).order = skipped ++ later := by
  have nodup := nodup_order fresh
  rw [order] at nodup
  obtain ⟨-, -, apart⟩ := List.nodup_append.mp nodup
  have before : planId ∉ skipped := fun again =>
    apart planId again planId List.mem_cons_self rfl
  rw [order_startMerge fresh found, order, List.erase_append_right _ before,
    List.erase_cons_head]

/-- The loop over the rest of the order returns what repeated reservations return from a
queue that has the locks of the loop and no mergeable plan before the rest. -/
theorem readyBatchLoop_eq {entries : Std.ExtTreeMap String QueueEntry} {limit calls : Nat}
    {skipped later : List String} {out : List MergeRequest} (fresh : queue.Fresh)
    (order : queue.order = skipped ++ later)
    (blocked : ∀ planId ∈ skipped, ¬ queue.isMergeable planId)
    (agree : ∀ planId ∈ later, queue.entries[planId]? = entries[planId]?)
    (left : CallsLeft limit calls out later) :
    readyBatchLoop entries limit later queue.lockedFiles out =
        out ++ (reserveRepeatedly calls queue).2 ∧
      (limit = 0 → (reserveRepeatedly calls queue).1.reserveNextMergeable.2 = none) := by
  induction later generalizing queue skipped calls out with
  | nil =>
      rw [List.append_nil] at order
      rw [← order] at blocked
      rw [reserveRepeatedly_of_blocked blocked, reserveNextMergeable_of_blocked blocked]
      simp [readyBatchLoop]
  | cons planId later ih =>
      unfold readyBatchLoop
      split
      case isTrue full =>
        obtain rfl := left.eq_zero full
        exact ⟨(List.append_nil out).symm, fun unbounded => absurd unbounded (by omega)⟩
      case isFalse open' =>
        have nodup := nodup_order fresh
        rw [order] at nodup
        obtain ⟨entry, found, queued⟩ := (mem_order_iff fresh planId).mp (by simp [order])
        rw [← agree planId List.mem_cons_self, found]
        dsimp only
        rw [if_neg (not_not.mpr queued)]
        rw [← isMergeable_of_queued found queued]
        split
        case isTrue conflicts =>
          have moved : queue.order = (skipped ++ [planId]) ++ later := by
            rw [order, List.append_assoc, List.singleton_append]
          apply ih fresh moved
          · exact List.forall_mem_append.mpr ⟨blocked, by simpa using conflicts⟩
          · exact fun other member => agree other (List.mem_cons_of_mem planId member)
          · exact left.skip
        case isFalse free =>
          have mergeable : queue.isMergeable planId := not_not.mp free
          obtain ⟨rest, rfl, leftRest⟩ := left.take open' entry.request
          obtain ⟨-, nodupLater, apart⟩ := List.nodup_append.mp nodup
          have shorter := order_startMerge_append fresh found order
          rw [reserveRepeatedly,
            reserveNextMergeable_of_order order blocked found mergeable]
          have joined := List.append_cons out entry.request
            (reserveRepeatedly rest (queue.startMerge planId entry)).2
          dsimp only
          rw [joined]
          apply ih (fresh_rebuildOrder _) shorter
          · intro other member
            refine blocked_startMerge (fun same => ?_) (blocked other member)
            exact apart other member planId List.mem_cons_self same.symm
          · intro other member
            have different : planId ≠ other := fun same =>
              (List.nodup_cons.mp nodupLater).1 (same ▸ member)
            exact (entries_startMerge_of_ne entry different).trans
              (agree other (List.mem_cons_of_mem planId member))
          · exact leftRest

/-- In every reachable state a batch is what repeated reservations return, and it leaves
the queue as it is. -/
theorem readyBatch_eq (reachable : queue.Reachable) (limit : Nat) :
    (queue.readyBatch limit).1 = queue ∧
      (0 < limit → (queue.readyBatch limit).2 = (reserveRepeatedly limit queue).2) ∧
      (limit = 0 → ∀ calls, queue.order.length ≤ calls →
        (queue.readyBatch limit).2 = (reserveRepeatedly calls queue).2 ∧
          (reserveRepeatedly calls queue).1.reserveNextMergeable.2 = none) := by
  have walked (calls : Nat) (left : CallsLeft limit calls [] queue.order) :=
    readyBatchLoop_eq (fresh_of_reachable reachable) (List.nil_append _).symm (by simp)
      (fun _ _ => rfl) left
  refine ⟨rfl, fun bounded => ?_, fun unbounded calls enough => ?_⟩
  · exact (walked limit ⟨fun _ => rfl, fun unbounded => absurd unbounded (by omega)⟩).1
  · obtain ⟨same, exhausted⟩ := walked calls
      ⟨fun bounded => absurd bounded (by omega), fun _ => enough⟩
    exact ⟨same, exhausted unbounded⟩

/-- Two plans that change the same file, and a third one. -/
def threePlans : MergeQueue :=
  ((new.step (.enqueue (.new "a" "plan/a" ["lib.rs"] 2))).step
    (.enqueue (.new "b" "plan/b" ["lib.rs"] 1))).step
      (.enqueue (.new "c" "plan/c" ["main.rs"] 0))

theorem threePlans_readyBatch :
    (threePlans.readyBatch 0).2.map MergeRequest.planId = ["a", "c"] ∧
      (threePlans.readyBatch 0).1 = threePlans ∧
      (threePlans.readyBatch 0).2 = (reserveRepeatedly 3 threePlans).2 ∧
      (reserveRepeatedly 3 threePlans).1.reserveNextMergeable.2 = none := by
  have reachable : threePlans.Reachable := .step _ (.step _ (.step _ .new))
  obtain ⟨unchanged, -, exhausting⟩ := readyBatch_eq reachable 0
  obtain ⟨same, exhausted⟩ := exhausting rfl 3 (by decide +kernel)
  exact ⟨by decide +kernel, unchanged, same, exhausted⟩

end MergeQueue

end Roko
