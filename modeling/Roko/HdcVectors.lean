import Roko.WordBits

/-!
# Hyperdimensional vectors

The model of `HdcVector` in `roko-primitives/src/hdc.rs`: binding, bundling, rotation and the
count of differing bits behind the similarity.  Each operation is given word by word; what it
does to single bits decides all that is proved about it.
-/

namespace Roko

open WordBits

def hdcBits : Nat := 10240

structure HdcVector where
  bits : Vector UInt64 160
deriving DecidableEq

namespace HdcVector

def zeros : HdcVector :=
  ⟨Vector.replicate 160 0⟩

def bind (first second : HdcVector) : HdcVector :=
  ⟨Vector.zipWith (· ^^^ ·) first.bits second.bits⟩

/-- The number of vectors with a bit in a word. -/
def ones (vectors : List HdcVector) (wordIndex : Fin 160) (bitIndex : Nat) : Nat :=
  (vectors.map fun vector =>
    ((vector.bits[wordIndex] >>> UInt64.ofNat bitIndex) &&& 1).toNat).sum

/-- The majority of the vectors, where a tie gives no bit. -/
def bundle (vectors : List HdcVector) : HdcVector :=
  if vectors.isEmpty then zeros
  else
    ⟨Vector.ofFn fun wordIndex =>
      assemble fun bitIndex => decide (vectors.length < ones vectors wordIndex bitIndex * 2)⟩

def permute (vector : HdcVector) (n : Nat) : HdcVector :=
  let bitsLen := 160 * 64
  let n := n % bitsLen
  if n = 0 then vector
  else
    let wordShift := n / 64
    let bitShift := n % 64
    ⟨Vector.ofFn fun index =>
      let src0 : Fin 160 := ⟨(index.val + 160 - wordShift) % 160, Nat.mod_lt _ (by decide)⟩
      if bitShift = 0 then vector.bits[src0]
      else
        let src1 : Fin 160 := ⟨(src0.val + 159) % 160, Nat.mod_lt _ (by decide)⟩
        vector.bits[src0] <<< UInt64.ofNat bitShift |||
          vector.bits[src1] >>> UInt64.ofNat (64 - bitShift)⟩

/-- The bits that `similarity` counts. -/
def differingBits (first second : HdcVector) : Nat :=
  ((first.bits.toList.zip second.bits.toList).map fun words =>
    countOnes (words.1 ^^^ words.2)).sum

def bit (vector : HdcVector) (position : Nat) : Bool :=
  WordBits.bit vector.bits position

theorem ext_bits {first second : HdcVector}
    (same : ∀ position < hdcBits, bit first position = bit second position) : first = second := by
  cases first
  cases second
  exact congrArg HdcVector.mk (WordBits.ext same)

/-- A position is a place in a word. -/
theorem exists_place {position : Nat} (inside : position < hdcBits) :
    ∃ index place, index < 160 ∧ place < 64 ∧ position = 64 * index + place := by
  refine ⟨position / 64, position % 64, ?_, Nat.mod_lt _ (by decide), by omega⟩
  simp only [hdcBits] at inside
  omega

theorem bit_bind (first second : HdcVector) {position : Nat} (inside : position < hdcBits) :
    bit (bind first second) position = (bit first position ^^ bit second position) := by
  obtain ⟨index, place, isWord, isPlace, rfl⟩ := exists_place inside
  rw [bit, bit, bit, bit_eq _ isWord isPlace, bit_eq _ isWord isPlace, bit_eq _ isWord isPlace,
    ← wordBit_xor]
  simp [bind]

theorem ones_eq (vectors : List HdcVector) (wordIndex : Fin 160) {bitIndex : Nat}
    (isPlace : bitIndex < 64) :
    ones vectors wordIndex bitIndex =
      vectors.countP fun vector => bit vector (64 * wordIndex.val + bitIndex) := by
  induction vectors with
  | nil => rfl
  | cons vector vectors ih =>
      rw [ones, List.map_cons, List.sum_cons, List.countP_cons, shifted_and_one _ isPlace,
        Nat.add_comm]
      refine congrArg₂ (· + ·) ih ?_
      rw [bit, bit_eq _ wordIndex.isLt isPlace, Fin.getElem_fin]
      cases wordBit vector.bits[wordIndex.val] bitIndex with
      | false => rfl
      | true => rfl

theorem bit_bundle (vectors : List HdcVector) {position : Nat} (inside : position < hdcBits) :
    bit (bundle vectors) position =
      decide (vectors.length < (vectors.countP fun vector => bit vector position) * 2) := by
  obtain ⟨index, place, isWord, isPlace, rfl⟩ := exists_place inside
  rw [bundle]
  split
  case isTrue empty =>
    rw [List.isEmpty_iff.mp empty, bit, bit_eq _ isWord isPlace]
    simp [zeros, wordBit]
  case isFalse =>
    rw [bit, bit_eq _ isWord isPlace, Vector.getElem_ofFn, wordBit_assemble _ isPlace,
      ones_eq _ _ isPlace]

/-- Rotation moves each bit by the shift. -/
theorem bit_permute (vector : HdcVector) (n : Nat) {position : Nat} (inside : position < hdcBits) :
    bit (permute vector n) position =
      bit vector ((position + (hdcBits - n % hdcBits)) % hdcBits) := by
  have whole : hdcBits = 160 * 64 := rfl
  obtain ⟨shift, isShift⟩ : ∃ shift, n % (160 * 64) = shift := ⟨_, rfl⟩
  have reduced : shift < 10240 := isShift ▸ Nat.mod_lt n (by decide)
  simp only [permute, whole, isShift]
  split
  case isTrue none =>
    rw [whole] at inside
    have same : (position + (160 * 64 - 0)) % (160 * 64) = position := by omega
    rw [none, same]
  case isFalse some =>
    obtain ⟨index, place, isWord, isPlace, rfl⟩ := exists_place inside
    have src0 : (index + 160 - shift / 64) % 160 < 160 := Nat.mod_lt _ (by decide)
    rw [bit, bit_eq _ isWord isPlace, Vector.getElem_ofFn]
    split
    case isTrue words =>
      have source : (64 * index + place + (160 * 64 - shift)) % (160 * 64) =
          64 * ((index + 160 - shift / 64) % 160) + place := by
        omega
      rw [source, bit, bit_eq _ src0 isPlace]
      rfl
    case isFalse bits =>
      have src1 : ((index + 160 - shift / 64) % 160 + 159) % 160 < 160 := Nat.mod_lt _ (by decide)
      rw [wordBit_funnel _ _ (Nat.pos_of_ne_zero bits) (Nat.mod_lt _ (by decide)) isPlace]
      split
      case isTrue below =>
        have source : (64 * index + place + (160 * 64 - shift)) % (160 * 64) =
            64 * (((index + 160 - shift / 64) % 160 + 159) % 160) +
              (place + 64 - shift % 64) := by
          omega
        rw [source, bit, bit_eq _ src1 (by omega)]
        rfl
      case isFalse above =>
        have source : (64 * index + place + (160 * 64 - shift)) % (160 * 64) =
            64 * ((index + 160 - shift / 64) % 160) + (place - shift % 64) := by
          omega
        rw [source, bit, bit_eq _ src0 (by omega)]
        rfl

/-- Where the bit at a position comes from, when a vector is rotated. -/
def source (n position : Nat) : Nat :=
  (position + (hdcBits - n % hdcBits)) % hdcBits

theorem source_lt (n position : Nat) : source n position < hdcBits :=
  Nat.mod_lt _ (by decide)

theorem bit_permute_add (vector : HdcVector) (n : Nat) {position : Nat}
    (inside : position < hdcBits) :
    bit (permute vector n) ((position + n) % hdcBits) = bit vector position := by
  have back : source n ((position + n) % hdcBits) = position := by
    simp only [source, hdcBits] at inside ⊢
    omega
  rw [bit_permute vector n (Nat.mod_lt _ (by decide)), ← source, back]

theorem permute_permute (vector : HdcVector) (m n : Nat) :
    (vector.permute m).permute n = vector.permute (m + n) := by
  refine ext_bits fun position inside => ?_
  have both : source m (source n position) = source (m + n) position := by
    simp only [source, hdcBits]
    omega
  rw [bit_permute _ n inside, ← source, bit_permute _ m (source_lt n position), ← source, both,
    bit_permute _ (m + n) inside, ← source]

theorem permute_back (vector : HdcVector) (n : Nat) :
    (vector.permute n).permute (hdcBits - n % hdcBits) = vector := by
  rw [permute_permute]
  refine ext_bits fun position inside => ?_
  have back : source (n + (hdcBits - n % hdcBits)) position = position := by
    simp only [source, hdcBits] at inside ⊢
    omega
  rw [bit_permute _ _ inside, ← source, back]

theorem permute_bind (first second : HdcVector) (n : Nat) :
    (bind first second).permute n = bind (first.permute n) (second.permute n) := by
  refine ext_bits fun position inside => ?_
  rw [bit_permute _ n inside, ← source, bit_bind _ _ (source_lt n position), bit_bind _ _ inside,
    bit_permute _ n inside, bit_permute _ n inside, source]

theorem permute_bundle (vectors : List HdcVector) (n : Nat) :
    (bundle vectors).permute n = bundle (vectors.map fun vector => vector.permute n) := by
  refine ext_bits fun position inside => ?_
  have votes : (vectors.map fun vector => vector.permute n).countP (fun vector =>
      bit vector position) = vectors.countP fun vector => bit vector (source n position) := by
    rw [List.countP_map]
    refine List.countP_congr fun vector _ => ?_
    rw [Function.comp_apply, bit_permute _ n inside, ← source]
  rw [bit_permute _ n inside, ← source, bit_bundle _ (source_lt n position),
    bit_bundle _ inside, List.length_map, votes]

/-- The differing bits, counted one by one. -/
theorem differingBits_eq (first second : HdcVector) :
    differingBits first second =
      ∑ position : Fin hdcBits, (bit first position ^^ bit second position).toNat := by
  have words : (first.bits.toList.zip second.bits.toList).map
      (fun words => countOnes (words.1 ^^^ words.2)) =
        (bind first second).bits.toList.map countOnes := by
    refine List.ext_getElem (by simp) fun index inside inside' => ?_
    simp [bind]
  rw [differingBits, words, sum_countOnes]
  exact Finset.sum_congr rfl fun position _ =>
    congrArg Bool.toNat (bit_bind first second position.isLt)

theorem differingBits_permute (first second : HdcVector) (n : Nat) :
    differingBits (first.permute n) (second.permute n) = differingBits first second := by
  let move (position : Fin hdcBits) : Fin hdcBits :=
    ⟨source n position, source_lt n position⟩
  have injective : Function.Injective move := by
    intro position other same
    have sources : source n position = source n other := congrArg Fin.val same
    have bound := position.isLt
    have bound' := other.isLt
    apply Fin.ext
    simp only [source, hdcBits] at sources bound bound'
    omega
  rw [differingBits_eq, differingBits_eq]
  refine Fintype.sum_bijective move (Finite.injective_iff_bijective.mp injective) _ _ ?_
  intro position
  rw [bit_permute _ n position.isLt, bit_permute _ n position.isLt, ← source]

structure PermuteLaw (n : Nat) : Prop where
  moves : ∀ (vector : HdcVector) (position : Nat), position < hdcBits →
    bit (vector.permute n) ((position + n) % hdcBits) = bit vector position
  composes : ∀ (vector : HdcVector) (m : Nat),
    (vector.permute m).permute n = vector.permute (m + n)
  undone : ∀ vector : HdcVector, (vector.permute n).permute (hdcBits - n % hdcBits) = vector
  binds : ∀ first second : HdcVector,
    (bind first second).permute n = bind (first.permute n) (second.permute n)
  bundles : ∀ vectors : List HdcVector,
    (bundle vectors).permute n = bundle (vectors.map fun vector => vector.permute n)
  differs : ∀ first second : HdcVector,
    differingBits (first.permute n) (second.permute n) = differingBits first second

theorem permute_lawful (n : Nat) : PermuteLaw n where
  moves vector _ inside := bit_permute_add vector n inside
  composes vector m := permute_permute vector m n
  undone vector := permute_back vector n
  binds first second := permute_bind first second n
  bundles vectors := permute_bundle vectors n
  differs first second := differingBits_permute first second n

end HdcVector

end Roko
