import Roko.RowTables
import Mathlib.Algebra.BigOperators.Fin
import Mathlib.Tactic.FinCases

/-!
# The binary fuse filter

`roko-chain/src/phase2.rs`: an array of fingerprints in three segments, for quick tests
of membership.
-/

namespace Roko

structure BinaryFuse8 where
  fingerprints : Array UInt8 := #[]
  segmentLength : Nat := 0
  seed : UInt64 := 0
  keyCount : Nat := 0
  deriving DecidableEq, Repr

namespace BinaryFuse8

def mix (key seed : UInt64) : UInt64 :=
  let h := key * 0x9E3779B97F4A7C15 + seed
  let h := h ^^^ (h >>> 30)
  let h := h * 0xBF58476D1CE4E5B9
  let h := h ^^^ (h >>> 27)
  let h := h * 0x94D049BB133111EB
  h ^^^ (h >>> 31)

/-- The upper bits, and never zero. -/
def fingerprint (hash : UInt64) : UInt8 :=
  let fp := (hash >>> 56).toUInt8
  if fp = 0 then 1 else fp

def computeSeed (keys : List UInt64) : UInt64 :=
  keys.foldl (fun seed key => seed ^^^ key * 0x9E3779B97F4A7C15) 0x517CC1B727220A95

/-- The fingerprint of a key goes into three positions. -/
def insertKey (segmentLength : Nat) (seed : UInt64) (fingerprints : Array UInt8)
    (key : UInt64) : Array UInt8 :=
  let hash := mix key seed
  let fp := fingerprint hash
  let h0 := hash.toNat % segmentLength
  let h1 := segmentLength + (hash >>> 16).toNat % segmentLength
  let h2 := 2 * segmentLength + (hash >>> 32).toNat % segmentLength
  let fingerprints := fingerprints.modify h0 (· ^^^ fp)
  let fingerprints := fingerprints.modify h1 (· ^^^ fp)
  fingerprints.modify h2 (· ^^^ fp)

variable (third : Nat → Nat)

/-- `((n as f64 * 1.125 / 3.0).ceil() as usize).max(4)`, of which `third` is the part in
floating point. -/
def segmentLengthOf (count : Nat) : Nat :=
  max (third count) 4

def fromKeys (keys : List UInt64) : BinaryFuse8 :=
  if keys.isEmpty then {}
  else
    let segmentLength := segmentLengthOf third keys.length
    let arrayLength := segmentLength * 3
    let seed := computeSeed keys
    { fingerprints := keys.foldl (insertKey segmentLength seed) (.replicate arrayLength 0)
      segmentLength, seed, keyCount := keys.length }

def contains (filter : BinaryFuse8) (key : UInt64) : Bool :=
  if filter.fingerprints.isEmpty then false
  else
    let hash := mix key filter.seed
    let fp := fingerprint hash
    let h0 := hash.toNat % filter.segmentLength
    let h1 := filter.segmentLength + (hash >>> 16).toNat % filter.segmentLength
    let h2 := 2 * filter.segmentLength + (hash >>> 32).toNat % filter.segmentLength
    let result := filter.fingerprints.getD h0 0 ^^^ filter.fingerprints.getD h1 0 ^^^
      filter.fingerprints.getD h2 0
    result == fp

end BinaryFuse8

/-!
The filter is a table with three rows whose slots hold sums of fingerprints.  A listed key
is found exactly when the other keys that it meets an odd number of times cancel.
-/

/-- Bytes with exclusive or for addition. -/
@[ext]
structure XorByte where
  byte : UInt8
  deriving DecidableEq, Repr

namespace XorByte

instance : Zero XorByte := ⟨⟨0⟩⟩

instance : Add XorByte := ⟨fun first second => ⟨first.byte ^^^ second.byte⟩⟩

@[simp]
theorem byte_zero : (0 : XorByte).byte = 0 :=
  rfl

@[simp]
theorem byte_add (first second : XorByte) :
    (first + second).byte = first.byte ^^^ second.byte :=
  rfl

instance : AddCommMonoid XorByte where
  add_assoc first second third := XorByte.ext (UInt8.xor_assoc ..)
  zero_add _ := XorByte.ext UInt8.zero_xor
  add_zero _ := XorByte.ext UInt8.xor_zero
  add_comm first second := XorByte.ext (UInt8.xor_comm ..)
  nsmul := nsmulRec

theorem add_self (byte : XorByte) : byte + byte = 0 :=
  XorByte.ext UInt8.xor_self

end XorByte

namespace BinaryFuse8

/-- Where a key goes in each of the three segments. -/
def offset (segmentLength : Nat) (seed : UInt64) (segment : Fin 3) (key : UInt64) : Nat :=
  match segment with
  | 0 => (mix key seed).toNat % segmentLength
  | 1 => (mix key seed >>> 16).toNat % segmentLength
  | 2 => (mix key seed >>> 32).toNat % segmentLength

def weight (seed key : UInt64) : XorByte :=
  ⟨fingerprint (mix key seed)⟩

/-- The exclusive or of the other fingerprints that a listed key meets in one or three of
its positions. -/
def interference (third : Nat → Nat) (keys : List UInt64) (key : UInt64) : XorByte :=
  let position := offset (segmentLengthOf third keys.length) (computeSeed keys)
  let met := (keys.erase key).filter fun other => Odd (RowTable.shared position other key)
  (met.map (weight (computeSeed keys))).sum

/-- The fingerprints of the added keys, in their segments. -/
structure Cells (segmentLength : Nat) (seed : UInt64) (added : List UInt64)
    (fingerprints : Array UInt8) : Prop where
  size : fingerprints.size = segmentLength * 3
  cell : ∀ (segment : Fin 3) (slot : Nat), slot < segmentLength →
    fingerprints.getD (segment * segmentLength + slot) 0 =
      (RowTable.held (offset segmentLength seed) (weight seed) added segment slot).byte

theorem getD_modify (fingerprints : Array UInt8) (index other : Nat) (fp : UInt8)
    (inside : other < fingerprints.size) :
    (fingerprints.modify index (· ^^^ fp)).getD other 0 =
      fingerprints.getD other 0 ^^^ if index = other then fp else 0 := by
  rw [Array.getD_eq_getD_getElem?, Array.getD_eq_getD_getElem?, Array.getElem?_modify,
    Array.getElem?_eq_getElem inside]
  split
  · rfl
  · exact (UInt8.xor_zero).symm

variable {segmentLength : Nat} {seed : UInt64} {added : List UInt64}
  {fingerprints : Array UInt8}

theorem getD_insertKey (key : UInt64) {index : Nat} (inside : index < fingerprints.size) :
    (insertKey segmentLength seed fingerprints key).getD index 0 =
      fingerprints.getD index 0 ^^^
        (if offset segmentLength seed 0 key = index then fingerprint (mix key seed)
          else 0) ^^^
        (if segmentLength + offset segmentLength seed 1 key = index then
          fingerprint (mix key seed) else 0) ^^^
        (if 2 * segmentLength + offset segmentLength seed 2 key = index then
          fingerprint (mix key seed) else 0) := by
  unfold insertKey
  dsimp only
  rw [getD_modify _ _ _ _ (by simpa only [Array.size_modify] using inside),
    getD_modify _ _ _ _ (by simpa only [Array.size_modify] using inside),
    getD_modify _ _ _ _ inside]
  rfl

theorem offset_lt (positive : 0 < segmentLength) (segment : Fin 3) (key : UInt64) :
    offset segmentLength seed segment key < segmentLength := by
  unfold offset
  split <;> exact Nat.mod_lt _ positive

theorem Cells.insertKey (cells : Cells segmentLength seed added fingerprints)
    (positive : 0 < segmentLength) (key : UInt64) :
    Cells segmentLength seed (added ++ [key])
      (insertKey segmentLength seed fingerprints key) := by
  have size := cells.size
  constructor
  · unfold BinaryFuse8.insertKey
    simp only [Array.size_modify, size]
  intro segment slot inside
  have first : offset segmentLength seed 0 key < segmentLength := offset_lt positive 0 key
  have second : offset segmentLength seed 1 key < segmentLength := offset_lt positive 1 key
  have third : offset segmentLength seed 2 key < segmentLength := offset_lt positive 2 key
  have segments : segment = 0 ∨ segment = 1 ∨ segment = 2 := by
    fin_cases segment <;> decide
  have index : segment * segmentLength + slot < fingerprints.size := by
    rw [size]
    obtain rfl | rfl | rfl := segments
    all_goals
      simp only [Fin.val_zero, Fin.val_one, Fin.val_two]
      omega
  rw [RowTable.held_append_singleton, XorByte.byte_add, ← cells.cell segment slot inside,
    getD_insertKey key index, apply_ite XorByte.byte]
  obtain rfl | rfl | rfl := segments
  · simp only [Fin.val_zero, zero_mul, zero_add]
    rw [if_neg (by omega : ¬ segmentLength + offset segmentLength seed 1 key = slot),
      if_neg (by omega : ¬ 2 * segmentLength + offset segmentLength seed 2 key = slot),
      UInt8.xor_zero, UInt8.xor_zero]
    rfl
  · simp only [Fin.val_one, one_mul, Nat.add_left_cancel_iff]
    rw [if_neg (by omega : ¬ offset segmentLength seed 0 key = segmentLength + slot),
      if_neg (by omega : ¬ 2 * segmentLength + offset segmentLength seed 2 key =
        segmentLength + slot), UInt8.xor_zero, UInt8.xor_zero]
    rfl
  · simp only [Fin.val_two, Nat.add_left_cancel_iff]
    rw [if_neg (by omega : ¬ offset segmentLength seed 0 key = 2 * segmentLength + slot),
      if_neg (by omega : ¬ segmentLength + offset segmentLength seed 1 key =
        2 * segmentLength + slot), UInt8.xor_zero, UInt8.xor_zero]
    rfl

theorem cells_foldl (positive : 0 < segmentLength) (keys : List UInt64) :
    Cells segmentLength seed keys (keys.foldl (BinaryFuse8.insertKey segmentLength seed)
      (.replicate (segmentLength * 3) 0)) := by
  induction keys using List.reverseRecOn with
  | nil =>
      constructor
      · exact Array.size_replicate
      · intro segment slot inside
        rw [List.foldl_nil, Array.getD_eq_getD_getElem?, Array.getElem?_replicate]
        split <;> rfl
  | append_singleton keys key ih =>
      rw [List.foldl_append, List.foldl_cons, List.foldl_nil]
      exact ih.insertKey positive key

theorem Cells.contains_iff (cells : Cells segmentLength seed added fingerprints)
    (positive : 0 < segmentLength) (keyCount : Nat) (key : UInt64) :
    contains { fingerprints, segmentLength, seed, keyCount } key = true ↔
      ∑ segment, RowTable.held (offset segmentLength seed) (weight seed) added segment
        (offset segmentLength seed segment key) = weight seed key := by
  have size := cells.size
  have filled : ¬ fingerprints.isEmpty = true := by
    rw [Array.isEmpty_iff_size_eq_zero]
    omega
  have read : ∀ segment : Fin 3,
      fingerprints.getD (segment * segmentLength + offset segmentLength seed segment key) 0 =
        (RowTable.held (offset segmentLength seed) (weight seed) added segment
          (offset segmentLength seed segment key)).byte := fun segment =>
    cells.cell segment _ (offset_lt positive segment key)
  have first := read 0
  have second := read 1
  have last := read 2
  simp only [Fin.val_zero, Fin.val_one, Fin.val_two, zero_mul, zero_add, one_mul]
    at first second last
  rw [Fin.sum_univ_three, XorByte.ext_iff, XorByte.byte_add, XorByte.byte_add, ← first,
    ← second, ← last]
  unfold contains
  dsimp only
  rw [if_neg filled, beq_iff_eq]
  rfl

theorem contains_fromKeys_iff (third : Nat → Nat) {keys : List UInt64} {key : UInt64}
    (member : key ∈ keys) :
    (fromKeys third keys).contains key = true ↔ interference third keys key = 0 := by
  have filled : ¬ keys.isEmpty = true := by
    rw [List.isEmpty_iff]
    exact List.ne_nil_of_mem member
  have positive : 0 < segmentLengthOf third keys.length :=
    Nat.lt_of_lt_of_le (by decide) (Nat.le_max_right _ 4)
  unfold fromKeys
  dsimp only
  rw [if_neg filled, (cells_foldl positive keys).contains_iff positive,
    RowTable.sum_held_eq_weight_iff XorByte.add_self (by decide) member]
  rfl

/-- There are no false negatives exactly when the other fingerprints that a listed key
meets cancel, for every listed key. -/
theorem contains_all_iff (third : Nat → Nat) (keys : List UInt64) :
    (∀ key ∈ keys, (fromKeys third keys).contains key = true) ↔
      ∀ key ∈ keys, interference third keys key = 0 :=
  forall₂_congr fun _ member => contains_fromKeys_iff third member

/-- Two keys that meet: the quotient is three eighths of the number of keys, rounded up. -/
theorem meeting_keys_missed :
    ¬ ∀ (keys : List UInt64), ∀ key ∈ keys,
      (fromKeys (fun count => (3 * count + 7) / 8) keys).contains key = true := by
  intro found
  have missed : (fromKeys (fun count => (3 * count + 7) / 8) [1, 2]).contains 1 = false := by
    decide +kernel
  have claimed := found [1, 2] 1 (List.mem_cons_self ..)
  rw [missed] at claimed
  cases claimed

end BinaryFuse8

end Roko
