import Mathlib.Data.List.DropRight

/-!
# Bounded rings

A ring of a given capacity drops its oldest value when it is full.  It always holds the
last values of what was pushed, and when these come in increasing order, they are the
highest ones.
-/

namespace RingBuffers

variable {Value : Type*}

def push (capacity : Nat) (ring : List Value) (value : Value) : List Value :=
  (if capacity ≤ ring.length then ring.tail else ring) ++ [value]

/-- The ring holds the last values of its history. -/
theorem push_rtake {capacity : Nat} (positive : 0 < capacity) (history : List Value)
    (value : Value) :
    push capacity (history.rtake capacity) value = (history ++ [value]).rtake capacity := by
  unfold push List.rtake
  rw [List.length_drop, List.length_append, List.length_singleton]
  split
  case isTrue full =>
      have long : capacity ≤ history.length := by omega
      rw [List.tail_drop, List.drop_append_of_le_length (by omega)]
      congr 2
      omega
  case isFalse room =>
      have short : history.length - capacity = 0 := by omega
      have stillShort : history.length + 1 - capacity = 0 := by omega
      rw [short, stillShort]
      rfl

theorem length_rtake (capacity : Nat) (history : List Value) :
    (history.rtake capacity).length = min capacity history.length := by
  rw [List.rtake, List.length_drop]
  omega

theorem mem_of_mem_rtake {capacity : Nat} {history : List Value} {value : Value}
    (member : value ∈ history.rtake capacity) : value ∈ history :=
  List.mem_of_mem_drop member

section Ranked

variable {below : Value → Value → Prop}

/-- A value of an increasing history is in the ring when fewer values are above it than the
ring has room for. -/
theorem mem_rtake_iff [DecidableRel below]
    (asymmetric : ∀ first second, below first second → ¬ below second first)
    {history : List Value} (sorted : history.Pairwise below) (capacity : Nat)
    (value : Value) :
    value ∈ history.rtake capacity ↔ value ∈ history ∧
      (history.countP fun other => below value other) < capacity := by
  by_cases member : value ∈ history
  · obtain ⟨before, after, rfl⟩ := List.append_of_mem member
    rw [List.pairwise_append, List.pairwise_cons] at sorted
    obtain ⟨-, ⟨above, -⟩, less⟩ := sorted
    have irreflexive : ¬ below value value := fun self => asymmetric value value self self
    have fresh : value ∉ after := fun later => irreflexive (above value later)
    have countBefore : (before.countP fun other => below value other) = 0 := by
      rw [List.countP_eq_zero]
      intro other earlier
      have reverse := asymmetric _ _ (less other earlier value List.mem_cons_self)
      simpa using reverse
    have countAfter : (after.countP fun other => below value other) = after.length := by
      rw [List.countP_eq_length]
      intro other later
      simpa using above other later
    have count : ((before ++ value :: after).countP fun other => below value other) =
        after.length := by
      rw [List.countP_append, List.countP_cons, countBefore, countAfter]
      simp [irreflexive]
    have inRing : value ∈ (before ++ value :: after).rtake capacity ↔
        after.length < capacity := by
      rw [List.rtake, List.length_append, List.length_cons]
      by_cases room : after.length < capacity
      · rw [List.drop_append_of_le_length (by omega)]
        simp [room]
      · have past : before.length + (after.length + 1) - capacity =
            before.length + (after.length - capacity + 1) := by omega
        rw [past, List.drop_length_add_append, List.drop_succ_cons]
        simp only [room, iff_false]
        exact fun found => fresh (List.mem_of_mem_drop found)
    rw [inRing, count]
    exact ⟨fun room => ⟨member, room⟩, And.right⟩
  · constructor
    · exact fun found => absurd (mem_of_mem_rtake found) member
    · exact fun found => absurd found.1 member

end Ranked

end RingBuffers
