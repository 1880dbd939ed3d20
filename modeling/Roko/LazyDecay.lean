import Mathlib.Data.Nat.Dist
import Mathlib.Tactic.Ring

/-!
# Values that decay lazily towards a middle

A decaying value is stored with the time at which it was last written.  Reading it
halves its distance to the middle once for each period since then; poking it writes
what a read returns.  A poke starts the next period anew, so it is invisible later
only when no period is lost by that, or nothing is left to halve.
-/

namespace LazyDecay

/-- Halve the distance to the middle, rounding it down. -/
def halve (mid value : Nat) : Nat :=
  if mid < value then mid + (value - mid) / 2 else mid - (mid - value) / 2

theorem iterate_halve (mid value count : Nat) :
    (halve mid)^[count] value =
      if mid < value then mid + (value - mid) / 2 ^ count
      else mid - (mid - value) / 2 ^ count := by
  induction count with
  | zero =>
      simp only [Function.iterate_zero, id_eq, pow_zero, Nat.div_one]
      split <;> omega
  | succ count ih =>
      have above : (value - mid) / 2 ^ (count + 1) = (value - mid) / 2 ^ count / 2 := by
        rw [pow_succ, Nat.div_div_eq_div_mul]
      have below : (mid - value) / 2 ^ (count + 1) = (mid - value) / 2 ^ count / 2 := by
        rw [pow_succ, Nat.div_div_eq_div_mul]
      have bound : (mid - value) / 2 ^ count ≤ mid - value := Nat.div_le_self _ _
      rw [Function.iterate_succ_apply', ih, above, below, halve]
      generalize (value - mid) / 2 ^ count = up at *
      generalize (mid - value) / 2 ^ count = down at *
      by_cases higher : mid < value
      · simp only [higher, if_true]
        split <;> omega
      · simp only [higher, if_false]
        split <;> omega

theorem halve_mono (mid : Nat) : Monotone (halve mid) := by
  intro first second order
  unfold halve
  split <;> split <;> omega

/-- The distance to the middle is divided by two, over and over. -/
theorem dist_iterate_halve (mid value count : Nat) :
    Nat.dist ((halve mid)^[count] value) mid = Nat.dist value mid / 2 ^ count := by
  have down : (mid - value) / 2 ^ count ≤ mid :=
    (Nat.div_le_self _ _).trans (Nat.sub_le _ _)
  rw [iterate_halve, Nat.dist, Nat.dist]
  by_cases above : mid < value
  · have none : mid - value = 0 := by omega
    rw [if_pos above, none, Nat.add_zero]
    generalize (value - mid) / 2 ^ count = up
    omega
  · have none : value - mid = 0 := by omega
    rw [if_neg above, none, Nat.zero_add]
    generalize (mid - value) / 2 ^ count = below at *
    omega

/-- A quotient by a power of two determines the power until it is zero. -/
theorem div_two_pow_eq_iff (number first second : Nat) :
    number / 2 ^ first = number / 2 ^ second ↔
      first = second ∨ number < 2 ^ min first second := by
  have smaller : ∀ low high : Nat, low < high →
      (number / 2 ^ low = number / 2 ^ high ↔ number < 2 ^ low) := by
    intro low high less
    have positive : 0 < 2 ^ low := Nat.two_pow_pos low
    constructor
    · intro same
      by_contra large
      have nonzero : 0 < number / 2 ^ low := Nat.div_pos (by omega) positive
      have split : high = low + (high - low) := by omega
      have next : 2 ≤ 2 ^ (high - low) := Nat.le_self_pow (by omega) 2
      rw [split, pow_add, ← Nat.div_div_eq_div_mul] at same
      have halved : number / 2 ^ low / 2 ^ (high - low) ≤ number / 2 ^ low / 2 :=
        Nat.div_le_div_left next (by omega)
      omega
    · intro small
      have small' : number < 2 ^ high :=
        small.trans (Nat.pow_lt_pow_right (by omega) less)
      rw [Nat.div_eq_of_lt small, Nat.div_eq_of_lt small']
  rcases Nat.lt_trichotomy first second with less | rfl | greater
  · rw [smaller first second less, min_eq_left less.le]
    simp [less.ne]
  · simp
  · rw [eq_comm, smaller second first greater, min_eq_right greater.le]
    simp [greater.ne']

theorem iterate_halve_eq_iff (mid value first second : Nat) :
    (halve mid)^[first] value = (halve mid)^[second] value ↔
      first = second ∨ Nat.dist value mid < 2 ^ min first second := by
  rw [iterate_halve, iterate_halve, Nat.dist]
  by_cases above : mid < value
  · have none : mid - value = 0 := by omega
    rw [if_pos above, if_pos above, none, Nat.add_zero, ← div_two_pow_eq_iff]
    exact Nat.add_left_cancel_iff
  · have none : value - mid = 0 := by omega
    have bound : ∀ count : Nat, (mid - value) / 2 ^ count ≤ mid :=
      fun count => (Nat.div_le_self _ _).trans (Nat.sub_le _ _)
    have firstBound := bound first
    have secondBound := bound second
    rw [if_neg above, if_neg above, none, Nat.zero_add, ← div_two_pow_eq_iff]
    generalize (mid - value) / 2 ^ first = down at *
    generalize (mid - value) / 2 ^ second = down' at *
    omega

/-- A cap on the halvings is invisible when they halve away every distance. -/
theorem iterate_halve_min {mid value cap : Nat} (near : Nat.dist value mid < 2 ^ cap)
    (count : Nat) : (halve mid)^[min count cap] value = (halve mid)^[count] value := by
  rcases Nat.le_total count cap with below | above
  · rw [Nat.min_eq_left below]
  · rw [Nat.min_eq_right above, iterate_halve_eq_iff, Nat.min_eq_left above]
    exact Or.inr near

theorem iterate_halve_le {mid value top : Nat} (count : Nat) (middle : mid ≤ top)
    (bounded : value ≤ top) : (halve mid)^[count] value ≤ top := by
  have quotient : (value - mid) / 2 ^ count ≤ value - mid := Nat.div_le_self _ _
  rw [iterate_halve]
  generalize (value - mid) / 2 ^ count = up at *
  generalize (mid - value) / 2 ^ count = down at *
  split <;> omega

theorem iterate_halve_mid (mid count : Nat) : (halve mid)^[count] mid = mid := by
  simp [iterate_halve]

/-- Nothing is left to halve exactly when the value is the middle, unless no period
has passed. -/
theorem iterate_halve_eq_self_iff (mid value count : Nat) :
    (halve mid)^[count] value = value ↔ count = 0 ∨ value = mid := by
  have read := iterate_halve_eq_iff mid value count 0
  rw [Function.iterate_zero, id_eq, Nat.min_zero, pow_zero, Nat.lt_one_iff] at read
  rw [read]
  constructor
  · rintro (none | same)
    · exact Or.inl none
    · exact Or.inr (Nat.eq_of_dist_eq_zero same)
  · rintro (none | rfl)
    · exact Or.inl none
    · exact Or.inr (Nat.dist_self value)

/-- A value and the time at which it was last written. -/
structure Stamped where
  value : Nat
  since : Nat

section Poke

variable (mid : Nat) (periods : Nat → Nat → Nat)

/-- What a read returns at a time.  `periods` counts the halvings from one time to
another. -/
def read (now : Nat) (stamped : Stamped) : Nat :=
  (halve mid)^[periods stamped.since now] stamped.value

/-- A poke writes what a read returns when a period has passed, under a stamp for the
time of the poke. -/
def poke (now stamp : Nat) (stamped : Stamped) : Stamped :=
  if periods stamped.since now = 0 then stamped
  else ⟨read mid periods now stamped, stamp⟩

/-- A poke that writes only when the value changes. -/
def tick (now stamp : Nat) (stamped : Stamped) : Stamped :=
  if read mid periods now stamped = stamped.value then stamped
  else ⟨read mid periods now stamped, stamp⟩

/-- The halvings that a read sees after a number of pokes at one time. -/
def pokedPeriods (pokes since poked stamp now : Nat) : Nat :=
  if pokes = 0 ∨ periods since poked = 0 then periods since now
  else periods since poked + (pokes - 1) * periods stamp poked + periods stamp now

theorem iterate_poke_of_written (now stamp value count : Nat) :
    ((poke mid periods now stamp)^[count] ⟨value, stamp⟩) =
      ⟨(halve mid)^[count * periods stamp now] value, stamp⟩ := by
  induction count with
  | zero => simp
  | succ count ih =>
      rw [Function.iterate_succ_apply', ih, poke]
      by_cases none : periods stamp now = 0
      · simp [none]
      · rw [if_neg none, read, ← Function.iterate_add_apply, Nat.add_one_mul,
          Nat.add_comm]

theorem read_iterate_poke (pokes poked stamp now : Nat) (stamped : Stamped) :
    read mid periods now ((poke mid periods poked stamp)^[pokes] stamped) =
      (halve mid)^[pokedPeriods periods pokes stamped.since poked stamp now]
        stamped.value := by
  obtain ⟨value, since⟩ := stamped
  unfold pokedPeriods
  cases pokes with
  | zero => rfl
  | succ pokes =>
      by_cases none : periods since poked = 0
      · have same : poke mid periods poked stamp ⟨value, since⟩ = ⟨value, since⟩ :=
          if_pos none
        rw [Function.iterate_fixed same, if_pos (Or.inr none)]
        rfl
      · have written : poke mid periods poked stamp ⟨value, since⟩ =
            ⟨(halve mid)^[periods since poked] value, stamp⟩ := if_neg none
        have some : ¬ (pokes + 1 = 0 ∨ periods since poked = 0) := by omega
        have order : periods stamp now + (pokes * periods stamp poked + periods since poked) =
            periods since poked + pokes * periods stamp poked + periods stamp now := by
          omega
        rw [Function.iterate_succ_apply, written, iterate_poke_of_written, if_neg some,
          Nat.add_sub_cancel, read, ← Function.iterate_add_apply,
          ← Function.iterate_add_apply]
        dsimp only
        rw [Nat.add_assoc, order]

/-- Pokes are invisible at a later time exactly when the halvings that a read sees are
the same without them, or the distance to the middle has been halved away. -/
theorem read_iterate_poke_eq_iff (pokes poked stamp now : Nat) (stamped : Stamped) :
    read mid periods now ((poke mid periods poked stamp)^[pokes] stamped) =
        read mid periods now stamped ↔
      pokedPeriods periods pokes stamped.since poked stamp now =
          periods stamped.since now ∨
        Nat.dist stamped.value mid <
          2 ^ min (pokedPeriods periods pokes stamped.since poked stamp now)
            (periods stamped.since now) := by
  rw [read_iterate_poke, read, iterate_halve_eq_iff]

theorem read_mid (now : Nat) {stamped : Stamped} (middle : stamped.value = mid) :
    read mid periods now stamped = mid := by
  rw [read, middle, iterate_halve_mid]

theorem iterate_poke_mid (now stamp : Nat) {stamped : Stamped}
    (middle : stamped.value = mid) (count : Nat) :
    ((poke mid periods now stamp)^[count] stamped).value = mid := by
  induction count with
  | zero => exact middle
  | succ count ih =>
      rw [Function.iterate_succ_apply', poke]
      split
      · exact ih
      · exact read_mid mid periods now ih

/-- Leaving out the writes that change no value is invisible. -/
theorem read_iterate_tick (pokes poked stamp now : Nat) (stamped : Stamped) :
    read mid periods now ((tick mid periods poked stamp)^[pokes] stamped) =
      read mid periods now ((poke mid periods poked stamp)^[pokes] stamped) := by
  induction pokes generalizing stamped with
  | zero => rfl
  | succ pokes ih =>
      by_cases middle : stamped.value = mid
      · have same : tick mid periods poked stamp stamped = stamped :=
          if_pos ((read_mid mid periods poked middle).trans middle.symm)
        rw [Function.iterate_fixed same, read_mid mid periods now middle,
          read_mid mid periods now (iterate_poke_mid mid periods poked stamp middle _)]
      · have same : tick mid periods poked stamp stamped =
            poke mid periods poked stamp stamped := by
          unfold tick poke
          simp only [read, iterate_halve_eq_self_iff, middle, or_false]
        rw [Function.iterate_succ_apply, Function.iterate_succ_apply, same, ih]

end Poke

end LazyDecay
