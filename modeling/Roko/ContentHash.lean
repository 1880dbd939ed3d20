import Mathlib.Data.List.Basic

/-!
# Digests and the bytes that are hashed

The part of `roko-core/src/hash.rs` that the orchestrator uses.  BLAKE3 itself is
a parameter wherever a digest is computed.
-/

namespace Roko

/-- A 32-byte digest. -/
abbrev Digest := Vector UInt8 32

/-- `ZERO_HASH`, the previous hash of the first entry. -/
def zeroHash : Digest := Vector.replicate 32 0

/-- `ContentHash::short`: the first four bytes in hexadecimal. -/
def Digest.short (digest : Digest) : String :=
  let digits := fun byte : UInt8 =>
    [Nat.digitChar (byte.toNat / 16), Nat.digitChar (byte.toNat % 16)]
  String.ofList ((digest.toList.take 4).flatMap digits)

/-- The bytes of a text, as `str::as_bytes` gives them. -/
def textBytes (text : String) : List UInt8 :=
  text.toByteArray.data.toList

theorem textBytes_inj {left right : String}
    (same : textBytes left = textBytes right) : left = right := by
  apply String.toByteArray_inj.mp
  apply ByteArray.ext
  exact Array.toList_inj.mp same

theorem textBytes_append (first second : String) :
    textBytes (first ++ second) = textBytes first ++ textBytes second := by
  simp [textBytes]

end Roko
