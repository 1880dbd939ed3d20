import Mathlib.Algebra.BigOperators.Group.List.Basic
import Mathlib.Algebra.GroupWithZero.Nat
import Mathlib.Data.List.FinRange

/-!
# Selections from a list

What a list of positions picks from a list, together with what it leaves, is the list again
when no position is repeated.  A room is filled by taking each item that still fits.
-/

namespace Selections

variable {Item : Type*}

def pick (items : List Item) (positions : List (Fin items.length)) : List Item :=
  positions.map items.get

def leave (items : List Item) (positions : List (Fin items.length)) : List Item :=
  ((List.finRange items.length).filter fun position => position ∉ positions).map items.get

theorem pick_append_leave {items : List Item} {positions : List (Fin items.length)}
    (distinct : positions.Nodup) :
    (pick items positions ++ leave items positions).Perm items := by
  have all : (positions ++
      (List.finRange items.length).filter fun position => position ∉ positions).Perm
        (List.finRange items.length) := by
    rw [List.perm_ext_iff_of_nodup _ (List.nodup_finRange _)]
    · intro position
      by_cases member : position ∈ positions <;> simp [member]
    · rw [List.nodup_append]
      refine ⟨distinct, (List.nodup_finRange _).filter _, ?_⟩
      intro first picked second left same
      subst same
      simp at left
      exact left picked
  have mapped := all.map items.get
  rwa [List.map_append, List.map_get_finRange] at mapped

/-- When as many positions as there are items miss one, more is picked and left than there
is. -/
theorem lt_length_of_missed {items : List Item} {positions : List (Fin items.length)}
    (many : items.length ≤ positions.length) {missed : Fin items.length}
    (notPicked : missed ∉ positions) :
    items.length < (pick items positions ++ leave items positions).length := by
  have left : items.get missed ∈ leave items positions :=
    List.mem_map_of_mem (by simp [notPicked])
  have positive := List.length_pos_of_mem left
  rw [List.length_append, pick, List.length_map]
  omega

/-- A search from the end finds the last position. -/
theorem find?_reverse_finRange {size : Nat} {found : Fin size → Bool} {index : Fin size}
    (last : (List.finRange size).reverse.find? found = some index) :
    found index ∧ ∀ later, index < later → found later = false := by
  obtain ⟨holds, before, after, split, earlier⟩ := List.find?_eq_some_iff_append.mp last
  refine ⟨holds, ?_⟩
  intro later greater
  have order : List.Pairwise (fun first second => second < first)
      (List.finRange size).reverse :=
    List.pairwise_reverse.mpr (List.pairwise_lt_finRange size)
  have member : later ∈ before ++ index :: after := by
    rw [← split, List.mem_reverse]
    exact List.mem_finRange later
  rw [split, List.pairwise_append, List.pairwise_cons] at order
  rw [List.mem_append, List.mem_cons] at member
  rcases member with member | rfl | member
  · simpa using earlier later member
  · exact absurd greater (lt_irrefl _)
  · exact absurd (order.2.1.1 later member) (not_lt_of_gt greater)

/-- Take each item that fits into what room is left; the items taken, and the others. -/
def fill (size : Item → Nat) : Nat → List Item → List Item × List Item
  | _, [] => ([], [])
  | room, item :: items =>
      if size item ≤ room then
        let rest := fill size (room - size item) items
        (item :: rest.1, rest.2)
      else
        let rest := fill size room items
        (rest.1, item :: rest.2)

theorem fill_sublist (size : Item → Nat) (room : Nat) (items : List Item) :
    (fill size room items).1.Sublist items := by
  induction items generalizing room with
  | nil => exact List.Sublist.refl _
  | cons item items ih =>
      rw [fill]
      split
      · exact (ih _).cons_cons item
      · exact (ih _).cons item

theorem sum_fill_le (size : Item → Nat) (room : Nat) (items : List Item) :
    ((fill size room items).1.map size).sum ≤ room := by
  induction items generalizing room with
  | nil => exact Nat.zero_le _
  | cons item items ih =>
      rw [fill]
      split
      case isTrue fits =>
        have rest := ih (room - size item)
        rw [List.map_cons, List.sum_cons]
        omega
      case isFalse => exact ih room

theorem fill_of_sum_le {size : Item → Nat} {room : Nat} {items : List Item}
    (fits : (items.map size).sum ≤ room) : (fill size room items).1 = items := by
  induction items generalizing room with
  | nil => rfl
  | cons item items ih =>
      rw [List.map_cons, List.sum_cons] at fits
      rw [fill, if_pos (by omega)]
      dsimp only
      rw [ih (by omega)]

end Selections
