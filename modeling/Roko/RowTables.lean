import Mathlib.Algebra.BigOperators.Group.Finset.Basic
import Mathlib.Algebra.Ring.Parity
import Mathlib.Data.Fintype.Card

/-!
# Tables with several rows

Every item is added to one slot of each row.  The sum over the slots of an item counts
every item as often as the two share a slot.  Where every value is its own inverse, only
the items that share an odd number of slots count.
-/

namespace RowTable

variable {Row Item Slot Value : Type*} [Fintype Row] [DecidableEq Slot] [AddCommMonoid Value]
  (position : Row → Item → Slot) (weight : Item → Value)

/-- The sum of the items in a slot of a row. -/
def held (items : List Item) (row : Row) (slot : Slot) : Value :=
  (items.map fun item => if position row item = slot then weight item else 0).sum

/-- The number of slots that two items share. -/
def shared (first second : Item) : Nat :=
  (Finset.univ.filter fun row => position row first = position row second).card

omit [Fintype Row] in
theorem held_append_singleton (items : List Item) (item : Item) (row : Row) (slot : Slot) :
    held position weight (items ++ [item]) row slot =
      held position weight items row slot +
        if position row item = slot then weight item else 0 := by
  unfold held
  rw [List.map_append, List.sum_append, List.map_singleton, List.sum_singleton]

theorem shared_self (item : Item) : shared position item item = Fintype.card Row := by
  simp [shared]

theorem sum_held (items : List Item) (item : Item) :
    ∑ row, held position weight items row (position row item) =
      (items.map fun other => shared position other item • weight other).sum := by
  induction items with
  | nil => simp [held]
  | cons other items ih =>
      have rows : ∑ row, (if position row other = position row item then weight other
          else 0) = shared position other item • weight other := by
        rw [← Finset.sum_filter, Finset.sum_const]
        rfl
      rw [List.map_cons, List.sum_cons, ← ih, ← rows, ← Finset.sum_add_distrib]
      rfl

variable {position weight}

section SelfInverse

variable (selfInverse : ∀ value : Value, value + value = 0)

include selfInverse

theorem nsmul_eq_ite (count : Nat) (value : Value) :
    count • value = if Odd count then value else 0 := by
  induction count with
  | zero => simp
  | succ count ih =>
      have parity : Odd (count + 1) ↔ ¬ Odd count := Nat.odd_add_one
      rw [succ_nsmul, ih]
      by_cases odd : Odd count
      · rw [if_pos odd, if_neg fun next => parity.mp next odd, selfInverse]
      · rw [if_neg odd, if_pos (parity.mpr odd), zero_add]

theorem add_eq_left_iff (value other : Value) : value + other = value ↔ other = 0 := by
  constructor
  · intro same
    calc other = value + (value + other) := by rw [← add_assoc, selfInverse, zero_add]
      _ = 0 := by rw [same, selfInverse]
  · rintro rfl
    exact add_zero value

/-- The slots of an item give back its weight exactly when the other items cancel. -/
theorem sum_held_eq_weight_iff [DecidableEq Item] {items : List Item} {item : Item}
    (odd : Odd (Fintype.card Row)) (member : item ∈ items) :
    ∑ row, held position weight items row (position row item) = weight item ↔
      (((items.erase item).filter fun other => Odd (shared position other item)).map
        weight).sum = 0 := by
  have others : ((items.erase item).map fun other =>
      shared position other item • weight other).sum =
        (((items.erase item).filter fun other => Odd (shared position other item)).map
          weight).sum := by
    simp only [nsmul_eq_ite selfInverse]
    rw [List.sum_map_ite, List.map_const', List.sum_replicate, nsmul_zero, add_zero]
  have own : shared position item item • weight item = weight item := by
    rw [nsmul_eq_ite selfInverse, shared_self, if_pos odd]
  rw [sum_held, ← List.sum_map_erase _ member, own, add_eq_left_iff selfInverse, others]

end SelfInverse

end RowTable
