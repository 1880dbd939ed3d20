import Roko.GuardedRuns
import Mathlib.Tactic.Linarith

/-!
# Token meters

A system takes tokens from a store that is refilled at a constant rate up to a capacity.
The clock of the system never goes back.  In a window of time no more tokens are taken
than the capacity and what the rate gives in that time.
-/

namespace TokenMeter

open GuardedRun

variable {State Op : Type*}

/-- What a store of tokens does in a system: `held` is what it holds at a time from the
clock of the state on, when nothing is taken until then. -/
structure Metered (step : State → Op → State) (invariant : State → Prop)
    (clock : State → Nat) (reading : State → Op → Nat) (taken : State → Op → Bool)
    (held : State → Nat → ℚ) (capacity rate : ℚ) : Prop where
  kept : ∀ state op, invariant state → invariant (step state op)
  forward : ∀ state op, clock state ≤ reading state op
  passes : ∀ state op, reading state op ≤ clock (step state op)
  rate_nonneg : 0 ≤ rate
  nonneg : ∀ state time, invariant state → 0 ≤ held state time
  capped : ∀ state time, invariant state → held state time ≤ capacity
  slow : ∀ state later, invariant state → clock state ≤ later →
    held state later ≤ held state (clock state) + rate * (later - clock state)
  enough : ∀ state op, invariant state →
    ((taken state op).toNat : ℚ) ≤ held state (reading state op)
  spent : ∀ state op, invariant state →
    held (step state op) (clock (step state op)) + (taken state op).toNat ≤
      held state (reading state op) +
        rate * (clock (step state op) - reading state op)

/-- The steps that take a token in a window of time. -/
def takenWithin (reading : State → Op → Nat) (taken : State → Op → Bool)
    (first last : Nat) (taking : List (State × Op)) : List (State × Op) :=
  taking.filter fun pair => taken pair.1 pair.2 && decide (first ≤ reading pair.1 pair.2) &&
    decide (reading pair.1 pair.2 ≤ last)

variable {step : State → Op → State} {invariant : State → Prop} {clock : State → Nat}
  {reading : State → Op → Nat} {taken : State → Op → Bool} {held : State → Nat → ℚ}
  {capacity rate : ℚ} {first last : Nat} {state : State}

theorem length_takenWithin_cons (op : Op) (ops : List Op) :
    (takenWithin reading taken first last (steps step state (op :: ops))).length =
      (if first ≤ reading state op ∧ reading state op ≤ last then
        (taken state op).toNat else 0) +
      (takenWithin reading taken first last (steps step (step state op) ops)).length := by
  rw [steps, takenWithin, List.filter_cons]
  cases taken state op <;> by_cases late : first ≤ reading state op <;>
    by_cases early : reading state op ≤ last <;>
    simp [takenWithin, late, early, Nat.add_comm]

/-- Nothing happens in a window that has ended. -/
theorem length_takenWithin_of_ended
    (meter : Metered step invariant clock reading taken held capacity rate)
    (ended : last < clock state) (ops : List Op) :
    (takenWithin reading taken first last (steps step state ops)).length = 0 := by
  induction ops generalizing state with
  | nil => rfl
  | cons op ops ih =>
      have forward := meter.forward state op
      have passes := meter.passes state op
      rw [length_takenWithin_cons, ih (by omega), if_neg (by omega)]

theorem given_nonneg
    (meter : Metered step invariant clock reading taken held capacity rate)
    {earlier later : Nat} (order : earlier ≤ later) : 0 ≤ rate * (later - earlier) :=
  mul_nonneg meter.rate_nonneg (sub_nonneg.mpr (Nat.cast_le.mpr order))

/-- What a step takes and what is taken after it is held at its reading or given later. -/
theorem taken_add_rest_le
    (meter : Metered step invariant clock reading taken held capacity rate)
    (holds : invariant state) (first : Nat) {op : Op} (running : reading state op ≤ last)
    {ops : List Op}
    (rest : clock (step state op) ≤ last →
      ((takenWithin reading taken first last (steps step (step state op) ops)).length : ℚ) ≤
        held (step state op) (clock (step state op)) +
          rate * (last - clock (step state op))) :
    ((taken state op).toNat : ℚ) +
        (takenWithin reading taken first last (steps step (step state op) ops)).length ≤
      held state (reading state op) + rate * (last - reading state op) := by
  by_cases ended : last < clock (step state op)
  · have enough := meter.enough state op holds
    have given := given_nonneg meter running
    rw [length_takenWithin_of_ended meter ended, Nat.cast_zero]
    linarith
  · have later := rest (Nat.not_lt.mp ended)
    have spent := meter.spent state op holds
    linarith

/-- From inside the window, the tokens taken are held now or are given until its end. -/
theorem length_takenWithin_le_held
    (meter : Metered step invariant clock reading taken held capacity rate)
    (holds : invariant state) (inside : first ≤ clock state) (running : clock state ≤ last)
    (ops : List Op) :
    ((takenWithin reading taken first last (steps step state ops)).length : ℚ) ≤
      held state (clock state) + rate * (last - clock state) := by
  induction ops generalizing state with
  | nil =>
      have given := given_nonneg meter running
      have some := meter.nonneg state (clock state) holds
      simp only [steps, takenWithin, List.filter_nil, List.length_nil, Nat.cast_zero]
      linarith
  | cons op ops ih =>
      have forward := meter.forward state op
      have passes := meter.passes state op
      rw [length_takenWithin_cons]
      by_cases late : last < reading state op
      · have given := given_nonneg meter running
        have some := meter.nonneg state (clock state) holds
        rw [if_neg (by omega), length_takenWithin_of_ended meter (by omega)]
        simp only [Nat.add_zero, Nat.cast_zero]
        linarith
      · have slow := meter.slow state _ holds forward
        have taken := taken_add_rest_le meter holds first (Nat.not_lt.mp late)
          (ih (meter.kept state op holds) (by omega))
        rw [if_pos (by omega), Nat.cast_add]
        linarith

/-- In a window of time no more tokens are taken than the capacity and what is given. -/
theorem length_takenWithin_le
    (meter : Metered step invariant clock reading taken held capacity rate)
    (holds : invariant state) (window : first ≤ last) (ops : List Op) :
    ((takenWithin reading taken first last (steps step state ops)).length : ℚ) ≤
      capacity + rate * (last - first) := by
  have given := given_nonneg meter window
  induction ops generalizing state with
  | nil =>
      have some := meter.nonneg state (clock state) holds
      have capped := meter.capped state (clock state) holds
      simp only [steps, takenWithin, List.filter_nil, List.length_nil, Nat.cast_zero]
      linarith
  | cons op ops ih =>
      have passes := meter.passes state op
      have some := meter.nonneg state (reading state op) holds
      have capped := meter.capped state (reading state op) holds
      have rest := ih (meter.kept state op holds)
      rw [length_takenWithin_cons]
      by_cases early : reading state op < first
      · rw [if_neg (by omega), Nat.zero_add]
        exact rest
      by_cases late : last < reading state op
      · rw [if_neg (by omega), length_takenWithin_of_ended meter (by omega)]
        simp only [Nat.add_zero, Nat.cast_zero]
        linarith
      · have taken := taken_add_rest_le meter holds first (Nat.not_lt.mp late) fun running =>
          length_takenWithin_le_held meter (meter.kept state op holds) (by omega) running ops
        have before := given_nonneg meter (Nat.not_lt.mp early)
        rw [if_pos (by omega), Nat.cast_add]
        linarith

end TokenMeter
