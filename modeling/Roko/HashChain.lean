import Mathlib.Data.List.Induction
import Mathlib.Data.Set.Function

/-!
# Hash chains

A chain starts from a fixed digest and replaces the current digest by the hash
of an encoding of the next record and the current digest.  When the hash has no
collision among the encodings that occur, and never gives the start digest, the
final digest determines the whole list of records.
-/

namespace HashChain

variable {Record Digest Buffer : Type*}

/-- The digest after a list of records. -/
def tip (hash : Buffer → Digest) (encode : Record → Digest → Buffer)
    (start : Digest) (records : List Record) : Digest :=
  records.foldl (fun digest record => hash (encode record digest)) start

/-- The buffers that are hashed along the chain. -/
def buffers (hash : Buffer → Digest) (encode : Record → Digest → Buffer) :
    Digest → List Record → List Buffer
  | _, [] => []
  | digest, record :: records =>
      encode record digest ::
        buffers hash encode (hash (encode record digest)) records

/-- Each record with the digest that it follows. -/
def linked (hash : Buffer → Digest) (encode : Record → Digest → Buffer) :
    Digest → List Record → List (Record × Digest)
  | _, [] => []
  | digest, record :: records =>
      (record, digest) :: linked hash encode (hash (encode record digest)) records

variable {hash : Buffer → Digest} {encode : Record → Digest → Buffer}
variable {start : Digest}

theorem tip_append_singleton (records : List Record) (record : Record) :
    tip hash encode start (records ++ [record]) =
      hash (encode record (tip hash encode start records)) := by
  simp [tip]

theorem buffers_append_singleton (records : List Record) (record : Record) :
    buffers hash encode start (records ++ [record]) =
      buffers hash encode start records ++
        [encode record (tip hash encode start records)] := by
  induction records generalizing start with
  | nil => rfl
  | cons head records ih =>
      simp only [List.cons_append, buffers, ih, tip, List.foldl_cons]

theorem linked_append_singleton (records : List Record) (record : Record) :
    linked hash encode start (records ++ [record]) =
      linked hash encode start records ++
        [(record, tip hash encode start records)] := by
  induction records generalizing start with
  | nil => rfl
  | cons head records ih =>
      simp only [List.cons_append, linked, ih, tip, List.foldl_cons]

/-- Two chains with the same final digest hold the same records, if neither the
hash nor the encoding confuses anything that occurs in them. -/
theorem eq_of_tip_eq (hash : Buffer → Digest)
    (encode : Record → Digest → Buffer) (start : Digest)
    {left right : List Record}
    (encodeInj : ∀ first ∈ left, ∀ second ∈ right, ∀ firstDigest secondDigest,
      encode first firstDigest = encode second secondDigest →
        first = second ∧ firstDigest = secondDigest)
    (hashInj : ∀ first ∈ buffers hash encode start left,
      ∀ second ∈ buffers hash encode start right,
        hash first = hash second → first = second)
    (leftNonzero : ∀ buffer ∈ buffers hash encode start left,
      hash buffer ≠ start)
    (rightNonzero : ∀ buffer ∈ buffers hash encode start right,
      hash buffer ≠ start)
    (sameTip : tip hash encode start left = tip hash encode start right) :
    left = right := by
  induction left using List.reverseRecOn generalizing right with
  | nil =>
      cases right using List.reverseRecOn with
      | nil => rfl
      | append_singleton right record =>
          rw [tip_append_singleton] at sameTip
          exact absurd sameTip.symm
            (rightNonzero _ (by simp [buffers_append_singleton]))
  | append_singleton left first ih =>
      cases right using List.reverseRecOn with
      | nil =>
          rw [tip_append_singleton] at sameTip
          exact absurd sameTip
            (leftNonzero _ (by simp [buffers_append_singleton]))
      | append_singleton right second =>
          rw [tip_append_singleton, tip_append_singleton] at sameTip
          have sameBuffer := hashInj _ (by simp [buffers_append_singleton])
            _ (by simp [buffers_append_singleton]) sameTip
          obtain ⟨sameRecord, samePrevious⟩ := encodeInj first (by simp)
            second (by simp) _ _ sameBuffer
          have samePrefix : left = right := by
            apply ih _ _ _ _ samePrevious
            · intro a aMem b bMem
              exact encodeInj a (by simp [aMem]) b (by simp [bMem])
            · intro a aMem b bMem
              exact hashInj a (by simp [buffers_append_singleton, aMem])
                b (by simp [buffers_append_singleton, bMem])
            · intro a aMem
              exact leftNonzero a (by simp [buffers_append_singleton, aMem])
            · intro a aMem
              exact rightNonzero a (by simp [buffers_append_singleton, aMem])
          rw [samePrefix, sameRecord]

end HashChain
