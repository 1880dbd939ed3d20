import Mathlib.Algebra.BigOperators.Fin

/-!
# Bits in words

A vector of 64-bit words as a sequence of bits: bit `64 * i + j` is bit `j` of word `i`.
Words are put together bit by bit, or from two words that are shifted against each other,
and the bits of all words are counted word by word.
-/

namespace WordBits

def wordBit (word : UInt64) (index : Nat) : Bool :=
  word.toBitVec.getLsbD index

theorem word_ext {first second : UInt64}
    (same : ∀ index < 64, wordBit first index = wordBit second index) : first = second := by
  apply UInt64.toBitVec_inj.mp
  exact BitVec.eq_of_getLsbD_eq same

theorem wordBit_xor (first second : UInt64) (index : Nat) :
    wordBit (first ^^^ second) index = (wordBit first index ^^ wordBit second index) := by
  simp [wordBit]

theorem wordBit_or (first second : UInt64) (index : Nat) :
    wordBit (first ||| second) index = (wordBit first index || wordBit second index) := by
  simp [wordBit]

theorem toNat_shift {shift : Nat} (small : shift < 64) :
    ((UInt64.ofNat shift).toBitVec % 64).toNat = shift := by
  have fits : shift < UInt64.size := small.trans (by decide)
  rw [BitVec.toNat_umod, UInt64.toNat_toBitVec, UInt64.toNat_ofNat_of_lt' fits]
  exact Nat.mod_eq_of_lt small

theorem wordBit_shiftLeft (word : UInt64) {shift : Nat} (small : shift < 64) (index : Nat) :
    wordBit (word <<< UInt64.ofNat shift) index =
      (decide (index < 64) && !decide (index < shift) && wordBit word (index - shift)) := by
  rw [wordBit, UInt64.toBitVec_shiftLeft, BitVec.getLsbD_shiftLeft', toNat_shift small]
  rfl

theorem wordBit_shiftRight (word : UInt64) {shift : Nat} (small : shift < 64) (index : Nat) :
    wordBit (word >>> UInt64.ofNat shift) index = wordBit word (shift + index) := by
  rw [wordBit, UInt64.toBitVec_shiftRight, BitVec.ushiftRight_eq', BitVec.getLsbD_ushiftRight,
    toNat_shift small]
  rfl

/-- The test `(word >> index) & 1 == 1`. -/
theorem shifted_and_one (word : UInt64) {index : Nat} (small : index < 64) :
    ((word >>> UInt64.ofNat index) &&& 1).toNat = (wordBit word index).toNat := by
  have lowest : wordBit (word >>> UInt64.ofNat index) 0 = wordBit word index :=
    wordBit_shiftRight word small 0
  rw [UInt64.toNat_and, ← lowest, wordBit, ← BitVec.testBit_toNat, UInt64.toNat_toBitVec]
  exact Nat.and_one_is_mod _ |>.trans (Nat.toNat_testBit _ 0 |>.trans (by simp)).symm

theorem wordBit_one_shiftLeft {index other : Nat} (small : index < 64) (small' : other < 64) :
    wordBit (1 <<< UInt64.ofNat index) other = decide (other = index) := by
  have lowest (place : Nat) : wordBit 1 place = decide (place = 0) := by
    simp [wordBit]
  rw [wordBit_shiftLeft 1 small, lowest, decide_eq_true small', Bool.true_and,
    Bool.eq_iff_iff]
  simp only [Bool.and_eq_true, Bool.not_eq_true', decide_eq_false_iff_not, decide_eq_true_eq]
  omega

/-- A word that is shifted to the left, with the upper bits of another word behind it. -/
theorem wordBit_funnel (high low : UInt64) {shift index : Nat} (some : 0 < shift)
    (small : shift < 64) (inside : index < 64) :
    wordBit (high <<< UInt64.ofNat shift ||| low >>> UInt64.ofNat (64 - shift)) index =
      if index < shift then wordBit low (index + 64 - shift)
      else wordBit high (index - shift) := by
  have back : 64 - shift < 64 := by omega
  rw [wordBit_or, wordBit_shiftLeft high small, wordBit_shiftRight low back]
  split
  case isTrue below =>
    have place : 64 - shift + index = index + 64 - shift := by omega
    simp [below, place]
  case isFalse above =>
    have outside : wordBit low (64 - shift + index) = false :=
      BitVec.getLsbD_of_ge _ _ (by omega)
    simp [above, inside, outside]

/-- A word with the bits that are chosen. -/
def assemble (chosen : Nat → Bool) : UInt64 :=
  (List.range 64).foldl (fun word index =>
    if chosen index then word ||| 1 <<< UInt64.ofNat index else word) 0

theorem wordBit_assemble (chosen : Nat → Bool) {index : Nat} (inside : index < 64) :
    wordBit (assemble chosen) index = chosen index := by
  have partly : ∀ rounds ≤ 64, wordBit ((List.range rounds).foldl (fun word index =>
      if chosen index then word ||| 1 <<< UInt64.ofNat index else word) 0) index =
        (decide (index < rounds) && chosen index) := by
    intro rounds
    induction rounds with
    | zero => simp [wordBit]
    | succ rounds ih =>
        intro bounded
        rw [List.range_succ, List.foldl_append, List.foldl_cons, List.foldl_nil]
        by_cases here : index = rounds
        · subst here
          split
          case isTrue isChosen =>
            rw [wordBit_or, wordBit_one_shiftLeft inside inside]
            simp [isChosen]
          case isFalse notChosen =>
            rw [ih (by omega)]
            simp [notChosen]
        · have next : index < rounds + 1 ↔ index < rounds := by omega
          split
          · rw [wordBit_or, wordBit_one_shiftLeft (by omega) inside, ih (by omega)]
            simp [here, next]
          · rw [ih (by omega)]
            simp [next]
  rw [assemble, partly 64 (Nat.le_refl 64), decide_eq_true inside, Bool.true_and]

/-- `u64::count_ones`. -/
def countOnes (word : UInt64) : Nat :=
  ((List.finRange 64).map fun index : Fin 64 => (wordBit word index.val).toNat).sum

variable {count : Nat}

def bit (words : Vector UInt64 count) (position : Nat) : Bool :=
  words[position / 64]?.any fun word => wordBit word (position % 64)

theorem bit_eq (words : Vector UInt64 count) {index : Nat} (inside : index < count) {place : Nat}
    (small : place < 64) : bit words (64 * index + place) = wordBit words[index] place := by
  have word : (64 * index + place) / 64 = index := by omega
  have within : (64 * index + place) % 64 = place := by omega
  rw [bit, word, within, Vector.getElem?_eq_getElem inside]
  rfl

theorem ext {first second : Vector UInt64 count}
    (same : ∀ position < 64 * count, bit first position = bit second position) :
    first = second := by
  refine Vector.ext fun index inside => word_ext fun place small => ?_
  rw [← bit_eq first inside small, ← bit_eq second inside small]
  exact same _ (by omega)

/-- The ones of all words are the bits that are set. -/
theorem sum_countOnes (words : Vector UInt64 count) :
    (words.toList.map countOnes).sum =
      ∑ position : Fin (count * 64), (bit words position).toNat := by
  have list : words.toList = List.ofFn fun index : Fin count => words[index] := by
    refine List.ext_getElem (by simp) fun index inside inside' => ?_
    simp
  rw [list, List.map_ofFn, List.sum_ofFn, ← finProdFinEquiv.sum_comp, Fintype.sum_prod_type]
  refine Finset.sum_congr rfl fun index _ => ?_
  rw [Function.comp_apply, countOnes, ← Fin.sum_univ_def]
  refine Finset.sum_congr rfl fun place _ => ?_
  have position : (finProdFinEquiv (index, place)).val = 64 * index.val + place.val :=
    Nat.add_comm _ _
  rw [position, bit_eq words index.isLt place.isLt]
  rfl

end WordBits
