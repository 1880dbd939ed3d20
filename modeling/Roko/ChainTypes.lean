import Roko.ForkTypes

/-!
# Numbers of the chain crate

The amounts of `phase2.rs` are of the type `u256`, which is an alias of `u128`.
-/

namespace Roko

/-- `phase2::u256`. -/
abbrev U128 := BitVec 128

namespace U128

def saturatingAdd (first second : U128) : U128 :=
  if first.toNat + second.toNat < 2 ^ 128 then first + second else BitVec.allOnes 128

def saturatingSub (first second : U128) : U128 :=
  if second ≤ first then first - second else 0

theorem toNat_saturatingAdd (first second : U128) :
    (saturatingAdd first second).toNat =
      min (first.toNat + second.toNat) (2 ^ 128 - 1) := by
  unfold saturatingAdd
  split
  case isTrue fits =>
    rw [BitVec.toNat_add, Nat.mod_eq_of_lt fits]
    omega
  case isFalse =>
    rw [BitVec.toNat_allOnes]
    omega

theorem toNat_saturatingSub (first second : U128) :
    (saturatingSub first second).toNat = first.toNat - second.toNat := by
  unfold saturatingSub
  split
  case isTrue enough => exact BitVec.toNat_sub_of_le enough
  case isFalse short =>
    rw [BitVec.le_def] at short
    simp only [BitVec.ofNat_eq_ofNat, BitVec.toNat_ofNat, Nat.zero_mod]
    omega

end U128

end Roko
