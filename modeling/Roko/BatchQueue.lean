import Mathlib.Algebra.BigOperators.Intervals
import Mathlib.Tactic.Linarith

/-!
# Sorted queues served in batches

In each round the newly arrived items join the waiting ones, the queue is
sorted, and its first `width` items are served; the others wait for the next
round.  Only the smaller items decide when an item is served, and their backlog
has a closed form: it is too long exactly when, over some window of rounds up to
the present one, more smaller items arrived than the window could serve.
-/

namespace BatchQueue

variable {Item : Type} [LinearOrder Item]

def merge (waiting arrivals : List Item) : List Item :=
  (waiting ++ arrivals).insertionSort (· ≤ ·)

/-- The sorted queue in each round, before a batch is served. -/
def queue (width : Nat) : List Item → (Nat → List Item) → Nat → List Item
  | waiting, arrivals, 0 => merge waiting (arrivals 0)
  | waiting, arrivals, round + 1 =>
      queue width ((merge waiting (arrivals 0)).drop width)
        (fun later => arrivals (later + 1)) round

/-- How many of the items are smaller than the given one. -/
def smaller (item : Item) (items : List Item) : Nat :=
  items.countP fun other => other < item

/-- How many smaller items arrive from one round to another, both included. -/
def arrived (item : Item) (arrivals : Nat → List Item) (first last : Nat) : Nat :=
  ∑ round ∈ Finset.Ico first (last + 1), smaller item (arrivals round)

/-- Every item arrives once. -/
structure Fresh (waiting : List Item) (arrivals : Nat → List Item) : Prop where
  waiting_nodup : waiting.Nodup
  arrivals_nodup : ∀ round, (arrivals round).Nodup
  disjoint : ∀ item ∈ waiting, ∀ round, item ∉ arrivals round
  once : ∀ item first second, item ∈ arrivals first → item ∈ arrivals second →
    first = second

theorem smaller_drop {items : List Item} (sorted : items.Pairwise (· < ·))
    (item : Item) (count : Nat) :
    smaller item (items.drop count) = smaller item items - count := by
  induction items generalizing count with
  | nil => simp [smaller]
  | cons head items ih =>
      obtain ⟨least, sortedRest⟩ := List.pairwise_cons.mp sorted
      cases count with
      | zero => simp
      | succ count =>
          rw [List.drop_succ_cons, ih sortedRest]
          unfold smaller
          by_cases less : head < item
          · simp [less]
          · have none : items.countP (fun other => other < item) = 0 := by
              rw [List.countP_eq_zero]
              intro other member
              have above := least other member
              simp only [decide_eq_true_eq, not_lt]
              exact (not_lt.mp less).trans above.le
            simp [less, none]

theorem mem_take_iff_smaller {items : List Item}
    (sorted : items.Pairwise (· < ·)) {item : Item} (member : item ∈ items)
    (count : Nat) : item ∈ items.take count ↔ smaller item items < count := by
  induction items generalizing count with
  | nil => cases member
  | cons head items ih =>
      obtain ⟨least, sortedRest⟩ := List.pairwise_cons.mp sorted
      cases count with
      | zero => simp
      | succ count =>
          rcases List.mem_cons.mp member with rfl | later
          · have none : smaller item items = 0 := by
              rw [smaller, List.countP_eq_zero]
              intro other member
              simpa using (least other member).le
            unfold smaller at none ⊢
            simp [none]
          · have less := least item later
            have rest := ih sortedRest later count
            unfold smaller at rest ⊢
            simp [less, less.ne', rest]

omit [LinearOrder Item] in
theorem mem_drop_iff_not_mem_take {items : List Item} (nodup : items.Nodup)
    {item : Item} (member : item ∈ items) (count : Nat) :
    item ∈ items.drop count ↔ item ∉ items.take count := by
  rw [← List.take_append_drop count items] at nodup member
  have disjoint := (List.nodup_append.mp nodup).2.2
  constructor
  · intro dropped taken
    exact disjoint item taken item dropped rfl
  · exact (List.mem_append.mp member).resolve_left

theorem mem_merge {waiting arrivals : List Item} {item : Item} :
    item ∈ merge waiting arrivals ↔ item ∈ waiting ∨ item ∈ arrivals := by
  simp [merge]

theorem smaller_merge (item : Item) (waiting arrivals : List Item) :
    smaller item (merge waiting arrivals) =
      smaller item waiting + smaller item arrivals := by
  unfold smaller merge
  rw [(List.perm_insertionSort _ _).countP_eq, List.countP_append]

variable {waiting : List Item} {arrivals : Nat → List Item}

theorem Fresh.sorted_merge (fresh : Fresh waiting arrivals) :
    (merge waiting (arrivals 0)).Pairwise (· < ·) := by
  have nodup : (waiting ++ arrivals 0).Nodup :=
    List.nodup_append.mpr ⟨fresh.waiting_nodup, fresh.arrivals_nodup 0,
      fun item waits other arrives same =>
        fresh.disjoint item waits 0 (same ▸ arrives)⟩
  have distinct : (merge waiting (arrivals 0)).Nodup :=
    (List.perm_insertionSort _ _).nodup_iff.mpr nodup
  have ordered : (merge waiting (arrivals 0)).Pairwise (· ≤ ·) :=
    List.pairwise_insertionSort _ _
  exact (ordered.and distinct).imp fun both => lt_of_le_of_ne both.1 both.2

theorem Fresh.next (fresh : Fresh waiting arrivals) (width : Nat) :
    Fresh ((merge waiting (arrivals 0)).drop width)
      fun later => arrivals (later + 1) := by
  have nodup : (merge waiting (arrivals 0)).Nodup :=
    fresh.sorted_merge.imp fun less => less.ne
  refine ⟨nodup.sublist (List.drop_sublist _ _), fun round =>
    fresh.arrivals_nodup (round + 1), ?_, ?_⟩
  · intro item waits round later
    rcases mem_merge.mp (List.mem_of_mem_drop waits) with before | now
    · exact fresh.disjoint item before (round + 1) later
    · have same := fresh.once item 0 (round + 1) now later
      omega
  · intro item first second firstArrival secondArrival
    have same := fresh.once item _ _ firstArrival secondArrival
    omega

theorem Fresh.sorted_queue (fresh : Fresh waiting arrivals) (width round : Nat) :
    (queue width waiting arrivals round).Pairwise (· < ·) := by
  induction round generalizing waiting arrivals with
  | zero => exact fresh.sorted_merge
  | succ round ih => exact ih (fresh.next width)

theorem queue_succ (width : Nat) (waiting : List Item)
    (arrivals : Nat → List Item) (round : Nat) :
    queue width waiting arrivals (round + 1) =
      merge ((queue width waiting arrivals round).drop width)
        (arrivals (round + 1)) := by
  induction round generalizing waiting arrivals with
  | zero => rfl
  | succ round ih =>
      rw [queue, ih]
      rfl

theorem mem_arrivals_of_mem_queue {width round : Nat} {item : Item}
    (queued : item ∈ queue width waiting arrivals round) :
    item ∈ waiting ∨ ∃ arrival, item ∈ arrivals arrival := by
  induction round generalizing waiting arrivals with
  | zero => exact (mem_merge.mp queued).imp_right fun now => ⟨0, now⟩
  | succ round ih =>
      rcases ih queued with dropped | ⟨arrival, later⟩
      · exact (mem_merge.mp (List.mem_of_mem_drop dropped)).imp_right
          fun now => ⟨0, now⟩
      · exact Or.inr ⟨arrival + 1, later⟩

theorem merge_nil_right {items : List Item} (sorted : items.Pairwise (· < ·)) :
    merge items [] = items := by
  rw [merge, List.append_nil]
  exact (sorted.imp fun less => less.le).insertionSort_eq

theorem arrived_shift (item : Item) (arrivals : Nat → List Item)
    (first last : Nat) :
    arrived item (fun later => arrivals (later + 1)) first last =
      arrived item arrivals (first + 1) (last + 1) := by
  unfold arrived
  rw [Finset.sum_Ico_add' (fun round => smaller item (arrivals round))]

theorem arrived_zero (item : Item) (arrivals : Nat → List Item) (last : Nat) :
    arrived item arrivals 0 last =
      smaller item (arrivals 0) + arrived item arrivals 1 last := by
  unfold arrived
  rw [Finset.sum_eq_sum_Ico_succ_bot (Nat.succ_pos last)]

/-- The backlog of smaller items in closed form. -/
theorem smaller_queue_le_iff (fresh : Fresh waiting arrivals) (item : Item)
    (width round bound : Nat) :
    smaller item (queue width waiting arrivals round) ≤ bound ↔
      smaller item waiting + arrived item arrivals 0 round ≤
          bound + width * round ∧
        ∀ first, 1 ≤ first → first ≤ round →
          arrived item arrivals first round ≤ bound + width * (round - first) := by
  induction round generalizing waiting arrivals with
  | zero =>
      simp [queue, smaller_merge, arrived]
      omega
  | succ round ih =>
      rw [queue, ih (fresh.next width), smaller_drop fresh.sorted_merge,
        smaller_merge, arrived_shift, Nat.zero_add,
        arrived_zero item arrivals (round + 1), Nat.mul_succ]
      constructor
      · rintro ⟨whole, windows⟩
        refine ⟨by omega, ?_⟩
        intro first positive bounded
        obtain ⟨first, rfl⟩ := Nat.exists_eq_add_of_le' positive
        cases first with
        | zero =>
            simp only [Nat.zero_add, Nat.add_sub_cancel]
            omega
        | succ first =>
            have window := windows (first + 1) (by omega) (by omega)
            rw [arrived_shift] at window
            simpa using window
      · rintro ⟨whole, windows⟩
        refine ⟨?_, ?_⟩
        · have latest := windows 1 (by omega) (by omega)
          simp only [Nat.add_sub_cancel] at latest
          omega
        · intro first positive bounded
          have window := windows (first + 1) (by omega) (by omega)
          rw [arrived_shift]
          simpa using window

/-- The queue of a round leaves room for the item in its batch. -/
theorem smaller_queue_lt_iff (fresh : Fresh [] arrivals) (item : Item)
    {width : Nat} (positive : 0 < width) (round : Nat) :
    smaller item (queue width [] arrivals round) < width ↔
      ∀ first ≤ round, arrived item arrivals first round <
        width * (round - first + 1) := by
  obtain ⟨bound, rfl⟩ := Nat.exists_eq_add_of_lt positive
  rw [Nat.zero_add, Nat.lt_succ_iff, smaller_queue_le_iff fresh]
  simp only [Nat.mul_succ]
  constructor
  · rintro ⟨whole, windows⟩ first bounded
    rcases Nat.eq_zero_or_pos first with rfl | later
    · simp only [smaller, List.countP_nil] at whole
      simp only [Nat.sub_zero]
      omega
    · have window := windows first later bounded
      omega
  · intro windows
    refine ⟨?_, fun first _ bounded => ?_⟩
    · have window := windows 0 (Nat.zero_le round)
      simp only [Nat.sub_zero] at window
      simp only [smaller, List.countP_nil]
      omega
    · have window := windows first bounded
      omega

theorem not_mem_queue (fresh : Fresh waiting arrivals) {item : Item}
    (notWaiting : item ∉ waiting) (neverArrives : ∀ round, item ∉ arrivals round)
    (width round : Nat) : item ∉ queue width waiting arrivals round := by
  induction round generalizing waiting arrivals with
  | zero =>
      rw [queue, mem_merge]
      exact not_or.mpr ⟨notWaiting, neverArrives 0⟩
  | succ round ih =>
      apply ih (fresh.next width)
      · intro waits
        rcases mem_merge.mp (List.mem_of_mem_drop waits) with before | now
        · exact notWaiting before
        · exact neverArrives 0 now
      · exact fun later => neverArrives (later + 1)

/-- An item that is in the queue now stays in it until a batch has room. -/
theorem mem_queue_of_present (fresh : Fresh waiting arrivals) {item : Item}
    (present : item ∈ waiting ∨ item ∈ arrivals 0) (width round : Nat) :
    item ∈ queue width waiting arrivals round ↔
      ∀ earlier < round,
        ¬ smaller item (queue width waiting arrivals earlier) < width := by
  induction round generalizing waiting arrivals with
  | zero => simpa [queue] using mem_merge.mpr present
  | succ round ih =>
      have member := mem_merge.mpr present
      have nodup : (merge waiting (arrivals 0)).Nodup :=
        fresh.sorted_merge.imp fun less => less.ne
      have served := mem_take_iff_smaller fresh.sorted_merge member width
      have kept := mem_drop_iff_not_mem_take nodup member width
      by_cases room : smaller item (merge waiting (arrivals 0)) < width
      · have gone : item ∉ (merge waiting (arrivals 0)).drop width := by
          rw [kept, served]
          exact not_not.mpr room
        have never : ∀ later, item ∉ arrivals (later + 1) := by
          intro later arrives
          rcases present with waits | now
          · exact fresh.disjoint item waits (later + 1) arrives
          · have same := fresh.once item 0 (later + 1) now arrives
            omega
        have absent := not_mem_queue (fresh.next width) gone never width round
        constructor
        · exact fun queued => absurd queued absent
        · exact fun full => absurd room (full 0 (Nat.succ_pos round))
      · have waits : item ∈ (merge waiting (arrivals 0)).drop width := by
          rw [kept, served]
          exact room
        rw [queue, ih (fresh.next width) (Or.inl waits)]
        constructor
        · intro full earlier bounded
          cases earlier with
          | zero => exact room
          | succ earlier => exact full earlier (by omega)
        · intro full earlier bounded
          exact full (earlier + 1) (by omega)

theorem mem_queue_iff (fresh : Fresh waiting arrivals) {item : Item}
    (notWaiting : item ∉ waiting) {arrival : Nat}
    (arrives : item ∈ arrivals arrival) (width round : Nat) :
    item ∈ queue width waiting arrivals round ↔
      arrival ≤ round ∧ ∀ earlier, arrival ≤ earlier → earlier < round →
        ¬ smaller item (queue width waiting arrivals earlier) < width := by
  induction arrival generalizing waiting arrivals round with
  | zero =>
      rw [mem_queue_of_present fresh (Or.inr arrives)]
      simp
  | succ arrival ih =>
      have notNow : item ∉ merge waiting (arrivals 0) := by
        rw [mem_merge, not_or]
        refine ⟨notWaiting, fun now => ?_⟩
        have same := fresh.once item 0 (arrival + 1) now arrives
        omega
      cases round with
      | zero => simp [queue, notNow]
      | succ round =>
          have notNext : item ∉ (merge waiting (arrivals 0)).drop width :=
            fun dropped => notNow (List.mem_of_mem_drop dropped)
          rw [queue, ih (fresh.next width) notNext arrives]
          constructor
          · rintro ⟨bounded, full⟩
            refine ⟨by omega, fun earlier after before => ?_⟩
            obtain ⟨earlier, rfl⟩ := Nat.exists_eq_add_of_le'
              (Nat.one_le_of_lt (Nat.lt_of_lt_of_le (Nat.succ_pos arrival) after))
            exact full earlier (by omega) (by omega)
          · rintro ⟨bounded, full⟩
            refine ⟨by omega, fun earlier after before => ?_⟩
            exact full (earlier + 1) (by omega) (by omega)

/-- An item is served in the first round, from its arrival on, whose batch has
room for it. -/
theorem mem_batch_iff (fresh : Fresh waiting arrivals) {item : Item}
    (notWaiting : item ∉ waiting) {arrival : Nat}
    (arrives : item ∈ arrivals arrival) (width round : Nat) :
    item ∈ (queue width waiting arrivals round).take width ↔
      arrival ≤ round ∧
        smaller item (queue width waiting arrivals round) < width ∧
        ∀ earlier, arrival ≤ earlier → earlier < round →
          ¬ smaller item (queue width waiting arrivals earlier) < width := by
  have queued := mem_queue_iff fresh notWaiting arrives width round
  constructor
  · intro served
    have member := List.mem_of_mem_take served
    have room := (mem_take_iff_smaller (fresh.sorted_queue width round) member
      width).mp served
    exact ⟨(queued.mp member).1, room, (queued.mp member).2⟩
  · rintro ⟨bounded, room, full⟩
    have member := queued.mpr ⟨bounded, full⟩
    exact (mem_take_iff_smaller (fresh.sorted_queue width round) member width).mpr
      room

end BatchQueue
