import Mathlib.Order.Monotone.Basic

/-!
# Schedules of consecutive intervals

Intervals of given positive lengths follow one another from a start.  Every later time
lies in exactly one of them, and its index moves on by at most one in each unit of time.
-/

namespace Schedule

/-- The time at which the interval of this index begins. -/
def boundary (start : Nat) (length : Nat → Nat) : Nat → Nat
  | 0 => start
  | index + 1 => boundary start length index + length index

/-- The time lies in the interval of this index. -/
def Contains (start : Nat) (length : Nat → Nat) (index time : Nat) : Prop :=
  boundary start length index ≤ time ∧ time < boundary start length (index + 1)

variable {start : Nat} {length : Nat → Nat}

theorem boundary_strictMono (positive : ∀ index, 0 < length index) :
    StrictMono (boundary start length) :=
  strictMono_nat_of_lt_succ fun index => Nat.lt_add_of_pos_right (positive index)

theorem contains_start (positive : ∀ index, 0 < length index) :
    Contains start length 0 start :=
  ⟨le_rfl, Nat.lt_add_of_pos_right (positive 0)⟩

/-- One unit of time later the next interval has begun exactly when the time is at its
boundary. -/
theorem Contains.succ (positive : ∀ index, 0 < length index) {index time : Nat}
    (contained : Contains start length index time) :
    (time + 1 < boundary start length (index + 1) ∧
        Contains start length index (time + 1)) ∨
      (time + 1 = boundary start length (index + 1) ∧
        Contains start length (index + 1) (time + 1)) := by
  obtain ⟨begun, unfinished⟩ := contained
  have next := positive (index + 1)
  by_cases before : time + 1 < boundary start length (index + 1)
  · exact Or.inl ⟨before, by omega, before⟩
  · right
    have reached : time + 1 = boundary start length (index + 1) := by omega
    refine ⟨reached, reached.ge, ?_⟩
    rw [boundary]
    omega

/-- A time before a boundary lies in an interval before it, and only such a time does. -/
theorem Contains.lt_iff (positive : ∀ index, 0 < length index) {index time : Nat}
    (contained : Contains start length index time) (bound : Nat) :
    time < boundary start length bound ↔ index < bound := by
  have increasing : StrictMono (boundary start length) := boundary_strictMono positive
  constructor
  · intro before
    exact increasing.lt_iff_lt.mp (contained.1.trans_lt before)
  · intro below
    exact contained.2.trans_le (increasing.monotone below)

end Schedule
