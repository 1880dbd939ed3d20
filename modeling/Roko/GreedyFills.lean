import Roko.Selections
import Mathlib.Data.List.Induction
import Mathlib.Data.List.Sort

/-!
# Greedy filling of a room

The items of a list are sorted, and each that still fits is taken.  Where one item comes
earlier, what was taken before it takes less room.  In a stable sort, an item stands after
the items that are before it under the order, those that tie with it and stood before it
included.
-/

namespace GreedyFill

open Selections

variable {Item : Type*}

section Fill

variable (size : Item → Nat)

/-- The room that the items of a list take when they are taken greedily. -/
def spent (room : Nat) (items : List Item) : Nat :=
  ((fill size room items).1.map size).sum

variable {size} {room : Nat}

theorem spent_le (size : Item → Nat) (room : Nat) (items : List Item) :
    spent size room items ≤ room :=
  sum_fill_le size room items

theorem fill_append (first second : List Item) :
    fill size room (first ++ second) =
      ((fill size room first).1 ++ (fill size (room - spent size room first) second).1,
        (fill size room first).2 ++ (fill size (room - spent size room first) second).2) := by
  induction first generalizing room with
  | nil => simp [fill, spent]
  | cons item first ih =>
      rw [List.cons_append, fill, fill]
      split
      case isTrue fits =>
        rw [ih]
        have rest : room - size item - spent size (room - size item) first =
            room - spent size room (item :: first) := by
          simp only [spent, fill, if_pos fits, List.map_cons, List.sum_cons, Nat.sub_sub]
        rw [rest]
        rfl
      case isFalse large =>
        have rest : spent size room (item :: first) = spent size room first := by
          simp only [spent, fill, if_neg large]
        rw [ih, rest]
        rfl

theorem spent_append (first second : List Item) :
    spent size room (first ++ second) =
      spent size room first + spent size (room - spent size room first) second := by
  rw [spent, fill_append, List.map_append, List.sum_append]
  rfl

theorem spent_mono (size : Item → Nat) (room : Nat) {first second : List Item}
    (earlier : first <+: second) :
    spent size room first ≤ spent size room second := by
  obtain ⟨rest, rfl⟩ := earlier
  rw [spent_append]
  exact Nat.le_add_right _ _

theorem fill_perm (room : Nat) (items : List Item) :
    ((fill size room items).1 ++ (fill size room items).2).Perm items := by
  induction items generalizing room with
  | nil => exact List.Perm.refl _
  | cons item items ih =>
      rw [fill]
      split
      · exact (ih (room - size item)).cons item
      · exact List.perm_middle.trans ((ih room).cons item)

theorem fill_map {Other : Type*} (read : Other → Item) (items : List Other) :
    fill size room (items.map read) =
      ((fill (size ∘ read) room items).1.map read,
        (fill (size ∘ read) room items).2.map read) := by
  induction items generalizing room with
  | nil => rfl
  | cons item items ih =>
      rw [List.map_cons, fill, fill, ih, ih]
      by_cases fits : size (read item) ≤ room
      · rw [if_pos fits, if_pos (show (size ∘ read) item ≤ room from fits)]
        rfl
      · rw [if_neg fits, if_neg (show ¬ (size ∘ read) item ≤ room from fits)]
        rfl

/-- An item that is taken stands where it fits. -/
theorem exists_of_mem_taken {items : List Item} {item : Item}
    (taken : item ∈ (fill size room items).1) :
    ∃ front back, items = front ++ item :: back ∧ spent size room front + size item ≤ room := by
  induction items using List.reverseRecOn with
  | nil => simp [fill] at taken
  | append_singleton items last ih =>
      rw [fill_append, List.mem_append] at taken
      rcases taken with taken | taken
      · obtain ⟨front, back, rfl, fits⟩ := ih taken
        exact ⟨front, back ++ [last], by simp, fits⟩
      · have within := spent_le size room items
        rw [fill] at taken
        split at taken
        case isTrue fits =>
          simp only [fill, List.mem_singleton] at taken
          subst taken
          exact ⟨items, [], rfl, by omega⟩
        case isFalse => simp [fill] at taken

theorem taken_of_fits {front back : List Item} {item : Item}
    (fits : spent size room front + size item ≤ room) :
    item ∈ (fill size room (front ++ item :: back)).1 := by
  rw [fill_append, fill, if_pos (by omega)]
  simp

/-- An item that is left stands where it does not fit. -/
theorem exists_of_mem_left {items : List Item} {item : Item}
    (left : item ∈ (fill size room items).2) :
    ∃ front back, items = front ++ item :: back ∧ room < spent size room front + size item := by
  induction items using List.reverseRecOn with
  | nil => simp [fill] at left
  | append_singleton items last ih =>
      rw [fill_append, List.mem_append] at left
      rcases left with left | left
      · obtain ⟨front, back, rfl, large⟩ := ih left
        exact ⟨front, back ++ [last], by simp, large⟩
      · have within := spent_le size room items
        rw [fill] at left
        split at left
        case isTrue => simp [fill] at left
        case isFalse large =>
          simp only [fill, List.mem_singleton] at left
          subst left
          exact ⟨items, [], rfl, by omega⟩

/-- What is left does not fit in the room that remains. -/
theorem lt_of_mem_left {items : List Item} {item : Item}
    (left : item ∈ (fill size room items).2) : room < spent size room items + size item := by
  obtain ⟨front, back, rfl, large⟩ := exists_of_mem_left left
  have more := spent_mono size room (List.prefix_append front (item :: back))
  omega

/-- An item is taken before each item that is left and no larger. -/
theorem taken_before_left {items : List Item} {taken left : Item}
    (isTaken : taken ∈ (fill size room items).1) (isLeft : left ∈ (fill size room items).2)
    (larger : size left ≤ size taken) :
    ∃ front back, items = front ++ left :: back ∧ taken ∈ front := by
  obtain ⟨front, back, split, large⟩ := exists_of_mem_left isLeft
  obtain ⟨before, after, split', fits⟩ := exists_of_mem_taken isTaken
  refine ⟨front, back, split, ?_⟩
  rw [split] at split'
  rcases List.append_eq_append_iff.mp split' with ⟨gap, whole, rest⟩ | ⟨gap, whole, rest⟩
  · have more := spent_mono size room (whole ▸ List.prefix_append front gap)
    omega
  · cases gap with
    | nil =>
        rw [List.append_nil] at whole
        subst whole
        omega
    | cons other gap =>
        rw [List.cons_append, List.cons.injEq] at rest
        rw [whole, rest.1]
        simp

end Fill

section Sorts

variable {order : Item → Item → Prop} [DecidableRel order]

theorem orderedInsert_append {item : Item} {front : List Item}
    (after : ∀ other ∈ front, ¬ order item other) (back : List Item) :
    (front ++ back).orderedInsert order item = front ++ back.orderedInsert order item := by
  induction front with
  | nil => rfl
  | cons other front ih =>
      rw [List.cons_append, List.orderedInsert_of_not_le order _ (after other (by simp)),
        ih fun later member => after later (List.mem_cons_of_mem _ member)]
      rfl

/-- An item is inserted into the front of a list if it belongs before all of the back. -/
theorem orderedInsert_append_of_forall {item : Item} {back : List Item}
    (before : ∀ other ∈ back, order item other) (front : List Item) :
    (front ++ back).orderedInsert order item = front.orderedInsert order item ++ back := by
  induction front with
  | nil =>
      cases back with
      | nil => rfl
      | cons other back => exact List.orderedInsert_cons_of_le order _ (before other (by simp))
  | cons other front ih =>
      rw [List.cons_append, List.orderedInsert_cons, List.orderedInsert_cons, ih]
      split <;> rfl

/-- An item that is no more than another is inserted before it. -/
theorem orderedInsert_before [IsTrans Item order] (front : List Item) {back : List Item}
    {item other : Item} (first : order other item)
    (more : ∀ later ∈ back, order item later) :
    (front ++ item :: back).orderedInsert order other =
        front.orderedInsert order other ++ item :: back ∧
      (front ++ back).orderedInsert order other = front.orderedInsert order other ++ back := by
  have all : ∀ later ∈ item :: back, order other later := by
    intro later member
    rcases List.mem_cons.mp member with rfl | member
    · exact first
    · exact trans_of order first (more later member)
  exact ⟨orderedInsert_append_of_forall all front,
    orderedInsert_append_of_forall
      (fun later member => all later (List.mem_cons_of_mem _ member)) front⟩

/-- An item that is more than another is inserted behind it. -/
theorem orderedInsert_behind [IsTrans Item order] {front : List Item} (back : List Item)
    {item other : Item} (behind : ¬ order other item)
    (less : ∀ earlier ∈ front, order earlier item) :
    (front ++ item :: back).orderedInsert order other =
        front ++ item :: back.orderedInsert order other ∧
      (front ++ back).orderedInsert order other = front ++ back.orderedInsert order other := by
  have passes : ∀ earlier ∈ front ++ [item], ¬ order other earlier := by
    intro earlier member below
    rcases List.mem_append.mp member with member | member
    · exact behind (trans_of order below (less earlier member))
    · rw [List.mem_singleton] at member
      exact behind (member ▸ below)
  have inserted := orderedInsert_append passes back
  exact ⟨by simpa using inserted, orderedInsert_append
    (fun earlier member => passes earlier (List.mem_append_left _ member)) back⟩

variable [Std.Total order] [IsTrans Item order]

theorem orderedInsert_of_sorted {items : List Item} (sorted : items.Pairwise order)
    (item : Item) :
    ∃ front back, items.orderedInsert order item = front ++ item :: back ∧
      front ++ back = items ∧
      (∀ other ∈ front, order other item) ∧ (∀ other ∈ back, order item other) ∧
      front.length = items.countP fun other => ¬ order item other := by
  induction items with
  | nil => exact ⟨[], [], rfl, rfl, by simp, by simp, rfl⟩
  | cons other items ih =>
      rw [List.pairwise_cons] at sorted
      by_cases before : order item other
      · have all : ∀ later ∈ other :: items, order item later := by
          intro later member
          rcases List.mem_cons.mp member with rfl | member
          · exact before
          · exact trans_of order before (sorted.1 later member)
        refine ⟨[], other :: items, List.orderedInsert_cons_of_le order _ before, rfl, by simp,
          all, ?_⟩
        rw [List.length_nil, eq_comm, List.countP_eq_zero]
        exact fun later member => by simpa using all later member
      · obtain ⟨front, back, inserted, rfl, less, more, length⟩ := ih sorted.2
        refine ⟨other :: front, back, ?_, rfl, ?_, more, ?_⟩
        · rw [List.orderedInsert_of_not_le order _ before, inserted]
          rfl
        · intro earlier member
          rcases List.mem_cons.mp member with rfl | member
          · exact (total_of order earlier item).resolve_right before
          · exact less earlier member
        · rw [List.length_cons, length, List.countP_cons_of_pos (by simpa using before)]

/-- Where an item comes to stand in a sorted list, and how many items stand before it. -/
theorem insertionSort_middle (order : Item → Item → Prop) [DecidableRel order]
    [Std.Total order] [IsTrans Item order] (before after : List Item) (item : Item) :
    ∃ front back, (before ++ item :: after).insertionSort order = front ++ item :: back ∧
      front ++ back = (before ++ after).insertionSort order ∧
      (∀ other ∈ front, order other item) ∧ (∀ other ∈ back, order item other) ∧
      front.length = before.countP (fun other => order other item) +
        after.countP (fun other => ¬ order item other) := by
  induction before with
  | nil =>
      obtain ⟨front, back, sorted, others, less, more, length⟩ :=
        orderedInsert_of_sorted (List.pairwise_insertionSort order after) item
      refine ⟨front, back, sorted, others, less, more, ?_⟩
      rw [length, (List.perm_insertionSort order after).countP_eq]
      simp
  | cons other before ih =>
      obtain ⟨front, back, sorted, others, less, more, length⟩ := ih
      rw [List.cons_append, List.insertionSort_cons, List.cons_append, List.insertionSort_cons,
        sorted, ← others, List.countP_cons]
      by_cases first : order other item
      · obtain ⟨inserted, omitted⟩ := orderedInsert_before front first more
        refine ⟨front.orderedInsert order other, back, inserted, omitted.symm, ?_, more, ?_⟩
        · intro earlier member
          rcases (List.mem_orderedInsert order).mp member with rfl | member
          · exact first
          · exact less earlier member
        · rw [List.orderedInsert_length, length, if_pos (by simpa using first)]
          omega
      · obtain ⟨inserted, omitted⟩ := orderedInsert_behind back first less
        refine ⟨front, back.orderedInsert order other, inserted, omitted.symm, less, ?_, ?_⟩
        · intro later member
          rcases (List.mem_orderedInsert order).mp member with rfl | member
          · exact (total_of order item later).resolve_right first
          · exact more later member
        · rw [length, if_neg (by simpa using first)]
          rfl

/-- An item that is taken is still taken when no more items come before it. -/
theorem taken_of_moved {size : Item → Nat} {room : Nat} {before after before' after' : List Item}
    {old : Item} (new : Item) (others : before ++ after = before' ++ after') (apart : old ∉ before ++ after)
    (sameSize : size new = size old)
    (fewer : before'.countP (fun other => order other new) +
        after'.countP (fun other => ¬ order new other) ≤
      before.countP (fun other => order other old) +
        after.countP (fun other => ¬ order old other))
    (taken : old ∈ (fill size room ((before ++ old :: after).insertionSort order)).1) :
    new ∈ (fill size room ((before' ++ new :: after').insertionSort order)).1 := by
  obtain ⟨front, back, sorted, rest, _, _, length⟩ :=
    insertionSort_middle order before after old
  obtain ⟨front', back', sorted', rest', _, _, length'⟩ :=
    insertionSort_middle order before' after' new
  have earlier : front' <+: front := by
    have whole : front' ++ back' = front ++ back := by rw [rest', rest, others]
    refine List.prefix_of_prefix_length_le (whole ▸ List.prefix_append front' back')
      (List.prefix_append front back) ?_
    omega
  have room_left : spent size room front + size old ≤ room := by
    rw [sorted] at taken
    obtain ⟨start, stop, split, fits⟩ := exists_of_mem_taken taken
    have missing : old ∉ front ++ back := by
      rw [rest, List.mem_insertionSort]
      exact apart
    rw [List.mem_append, not_or] at missing
    obtain ⟨rfl, _⟩ := (List.append_cons_inj_of_notMem missing.1 missing.2).mp split
    exact fits
  rw [sorted']
  refine taken_of_fits ?_
  have less := spent_mono size room earlier
  omega

end Sorts

end GreedyFill
