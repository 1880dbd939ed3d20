import Mathlib.Data.List.Induction
import Mathlib.Tactic.NormNum

/-!
# Fixed-width and length-prefixed byte encodings

Big-endian numbers of a fixed width and byte strings behind a four-byte length.
Each encoding can be read back from the front of a longer byte string, which is
what makes a concatenation of such fields injective.
-/

namespace ByteEncoding

/-- The last `width` base-256 digits of a number, most significant first. -/
def bigEndian : Nat → Nat → List UInt8
  | 0, _ => []
  | width + 1, value => bigEndian width (value / 256) ++ [UInt8.ofNat value]

/-- A four-byte length, capped at the largest one, and then the bytes. -/
def lengthPrefixed (bytes : List UInt8) : List UInt8 :=
  bigEndian 4 (min bytes.length (2 ^ 32 - 1)) ++ bytes

@[simp]
theorem length_bigEndian (width value : Nat) :
    (bigEndian width value).length = width := by
  induction width generalizing value with
  | zero => rfl
  | succ width ih => simp [bigEndian, ih]

theorem bigEndian_inj {width left right : Nat} (leftBound : left < 256 ^ width)
    (rightBound : right < 256 ^ width)
    (same : bigEndian width left = bigEndian width right) : left = right := by
  induction width generalizing left right with
  | zero => omega
  | succ width ih =>
      obtain ⟨front, last⟩ := List.append_inj' same rfl
      have highSame : left / 256 = right / 256 := by
        apply ih _ _ front
        · rw [Nat.div_lt_iff_lt_mul (by norm_num), ← Nat.pow_succ]
          exact leftBound
        · rw [Nat.div_lt_iff_lt_mul (by norm_num), ← Nat.pow_succ]
          exact rightBound
      have lowSame : left % 256 = right % 256 := by
        have digits := congrArg UInt8.toNat (List.singleton_inj.mp last)
        simpa using digits
      omega

/-- Reading the digits back gives the value modulo the range of the width. -/
theorem foldl_bigEndian (width value : Nat) :
    (bigEndian width value).foldl (fun total byte => total * 256 + byte.toNat) 0 =
      value % 256 ^ width := by
  induction width generalizing value with
  | zero => simp [bigEndian, Nat.mod_one]
  | succ width ih =>
      have digit : (UInt8.ofNat value).toNat = value % 256 := by simp
      rw [bigEndian, List.foldl_append, ih, List.foldl_cons, List.foldl_nil, digit,
        Nat.pow_succ', Nat.mod_mul]
      omega

/-- The digits of a number, least significant first. -/
def littleEndian (width value : Nat) : List UInt8 :=
  (bigEndian width value).reverse

/-- The number that has these digits, least significant first. -/
def fromLittleEndian (bytes : List UInt8) : Nat :=
  bytes.foldr (fun byte total => total * 256 + byte.toNat) 0

@[simp]
theorem length_littleEndian (width value : Nat) :
    (littleEndian width value).length = width := by
  simp [littleEndian]

theorem fromLittleEndian_littleEndian (width value : Nat) :
    fromLittleEndian (littleEndian width value) = value % 256 ^ width := by
  unfold fromLittleEndian littleEndian
  rw [List.foldr_reverse, foldl_bigEndian]

theorem bigEndian_foldl (bytes : List UInt8) :
    bigEndian bytes.length (bytes.foldl (fun total byte => total * 256 + byte.toNat) 0) =
      bytes := by
  induction bytes using List.reverseRecOn with
  | nil => rfl
  | append_singleton bytes byte ih =>
      have small : byte.toNat < 256 := byte.toNat_lt
      rw [List.length_append, List.length_singleton, bigEndian, List.foldl_append]
      simp only [List.foldl_cons, List.foldl_nil]
      have high : ∀ total : Nat, (total * 256 + byte.toNat) / 256 = total := by omega
      have low : ∀ total : Nat, UInt8.ofNat (total * 256 + byte.toNat) = byte := by
        intro total
        apply UInt8.toNat_inj.mp
        simp only [UInt8.toNat_ofNat']
        omega
      rw [high, low, ih]

/-- Digits are the digits of the number that they give. -/
theorem littleEndian_fromLittleEndian {width : Nat} {bytes : List UInt8}
    (wide : bytes.length = width) : littleEndian width (fromLittleEndian bytes) = bytes := by
  have digits := bigEndian_foldl bytes.reverse
  rw [List.length_reverse, wide, List.foldl_reverse] at digits
  unfold littleEndian fromLittleEndian
  rw [digits, List.reverse_reverse]

theorem fromLittleEndian_lt (bytes : List UInt8) :
    fromLittleEndian bytes < 256 ^ bytes.length := by
  have read := fromLittleEndian_littleEndian bytes.length (fromLittleEndian bytes)
  rw [littleEndian_fromLittleEndian rfl] at read
  rw [read]
  exact Nat.mod_lt _ (by positivity)

/-- Two fields of one width can be split off. -/
theorem bigEndian_append_inj {width left right : Nat} {leftRest rightRest : List UInt8}
    (leftBound : left < 256 ^ width) (rightBound : right < 256 ^ width)
    (same : bigEndian width left ++ leftRest = bigEndian width right ++ rightRest) :
    left = right ∧ leftRest = rightRest := by
  obtain ⟨fields, rests⟩ := List.append_inj same (by simp)
  exact ⟨bigEndian_inj leftBound rightBound fields, rests⟩

/-- A length-prefixed field that is not longer than the length can say is split
off together with what follows it. -/
theorem lengthPrefixed_append_inj {left right leftRest rightRest : List UInt8}
    (leftBound : left.length < 2 ^ 32) (rightBound : right.length < 2 ^ 32)
    (same : lengthPrefixed left ++ leftRest = lengthPrefixed right ++ rightRest) :
    left = right ∧ leftRest = rightRest := by
  simp only [lengthPrefixed, List.append_assoc] at same
  obtain ⟨lengths, rests⟩ := bigEndian_append_inj
    (by norm_num) (by norm_num) same
  exact List.append_inj rests (by omega)

/-- A length-prefixed field at the end can be read back whatever its length,
because nothing follows it. -/
theorem lengthPrefixed_inj {left right : List UInt8}
    (same : lengthPrefixed left = lengthPrefixed right) : left = right :=
  (List.append_inj same (by simp)).2

end ByteEncoding

/-!
# Envelopes around a payload

An envelope has a magic number, the length of its payload as eight little-endian digits,
the payload, its hash and a trailer.  Only the whole of an envelope is an envelope, and one
that differs in a single byte has a payload with the same hash.
-/

namespace Envelope

open ByteEncoding

variable {size : Nat}

/-- What is around the payloads of a format. -/
structure Format (size : Nat) where
  magic : List UInt8
  trailer : List UInt8
  hash : List UInt8 → Vector UInt8 size

namespace Format

variable (format : Format size)

def front (payload : List UInt8) : List UInt8 :=
  format.magic ++ littleEndian 8 payload.length

def back (payload : List UInt8) : List UInt8 :=
  (format.hash payload).toList ++ format.trailer

def wrap (payload : List UInt8) : List UInt8 :=
  format.front payload ++ (payload ++ format.back payload)

variable {format} {payload other : List UInt8}

@[simp]
theorem length_front (payload : List UInt8) :
    (format.front payload).length = format.magic.length + 8 := by
  simp [front]

@[simp]
theorem length_back (payload : List UInt8) :
    (format.back payload).length = size + format.trailer.length := by
  simp [back]

theorem length_wrap (payload : List UInt8) :
    (format.wrap payload).length =
      format.magic.length + 8 + payload.length + size + format.trailer.length := by
  simp [wrap]
  omega

/-- Fields of the right lengths are an envelope when each is the one of its payload. -/
theorem parts_eq_wrap {first digits last : List UInt8} {expected : Vector UInt8 size}
    (firstLong : first.length = format.magic.length) (digitsLong : digits.length = 8) :
    first ++ (digits ++ (payload ++ (expected.toList ++ last))) = format.wrap payload ↔
      first = format.magic ∧ digits = littleEndian 8 payload.length ∧
        expected = format.hash payload ∧ last = format.trailer := by
  unfold wrap front back
  rw [List.append_assoc]
  constructor
  · intro same
    obtain ⟨firsts, rest⟩ := List.append_inj same firstLong
    obtain ⟨lengths, rest⟩ := List.append_inj rest (by simp [digitsLong])
    obtain ⟨hashes, lasts⟩ := List.append_inj (List.append_cancel_left rest) (by simp)
    exact ⟨firsts, lengths, Vector.toList_inj.mp hashes, lasts⟩
  · rintro ⟨rfl, rfl, rfl, rfl⟩
    rfl

/-- Payloads whose fronts agree have the same length. -/
theorem length_eq_of_front (small : payload.length < 2 ^ 64) (small' : other.length < 2 ^ 64)
    (same : format.front other = format.front payload) : other.length = payload.length := by
  have digits := congrArg fromLittleEndian (List.append_cancel_left same)
  rw [fromLittleEndian_littleEndian, fromLittleEndian_littleEndian] at digits
  omega

/-- An envelope in front of an envelope is all of it. -/
theorem wrap_eq_of_prefix (small : payload.length < 2 ^ 64) (small' : other.length < 2 ^ 64)
    (front : format.wrap other <+: format.wrap payload) :
    format.wrap other = format.wrap payload := by
  have fronts : format.front other = format.front payload := by
    have least := (List.prefix_append (format.front other) _).trans front
    exact (List.prefix_of_prefix_length_le least (List.prefix_append _ _)
      (by simp)).eq_of_length (by simp)
  apply front.eq_of_length
  rw [length_wrap, length_wrap, length_eq_of_front small small' fronts]

/-- Envelopes that end alike have payloads with the same hash. -/
theorem hash_eq_of_back (same : format.back other = format.back payload) :
    format.hash other = format.hash payload :=
  Vector.toList_inj.mp (List.append_inj same (by simp)).1

/-- An envelope at the end of another has a payload with the same hash. -/
theorem hash_eq_of_suffix (back : format.wrap other <:+ format.wrap payload) :
    format.hash other = format.hash payload := by
  apply hash_eq_of_back
  have last (payload : List UInt8) : format.back payload <:+ format.wrap payload :=
    (List.suffix_append payload _).trans (List.suffix_append _ _)
  exact (List.suffix_of_suffix_length_le ((last other).trans back) (last payload)
    (by simp)).eq_of_length (by simp)

/-- A byte of an envelope is written, and an envelope again comes out. -/
theorem hash_eq_of_set {index : Nat} {byte : UInt8}
    (same : format.wrap other = (format.wrap payload).set index byte) :
    format.hash other = format.hash payload := by
  have long := congrArg List.length same
  rw [List.length_set, length_wrap, length_wrap] at long
  have long' : other.length = payload.length := by omega
  unfold wrap at same
  rw [List.set_append, List.set_append] at same
  split at same
  · have rest := (List.append_inj same (by simp)).2
    rw [(List.append_inj rest long').1]
  split at same
  · have rest := (List.append_inj same (by simp)).2
    exact hash_eq_of_back (List.append_inj rest (by simp [long'])).2
  · have rest := (List.append_inj same (by simp)).2
    rw [(List.append_inj rest long').1]

end Format

end Envelope
