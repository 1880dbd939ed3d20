import Roko.CapabilityTokens
import Roko.WordBits

/-!
# The mixing of a signature

What `keyed_mix` and the message of `sign_capability` keep apart.  The rounds of `permute`
can be undone, so a message that differs in one block leaves another state behind.
-/

namespace Roko

theorem rotateLeft_eq (word : UInt64) {count : Nat} (small : count < 64) :
    rotateLeft word (.ofNat count) =
      word <<< UInt64.ofNat count ||| word >>> UInt64.ofNat (64 - count) := by
  have back : (64 : UInt64) - .ofNat count = .ofNat (64 - count) := by
    apply UInt64.toNat_inj.mp
    rw [UInt64.toNat_sub, UInt64.toNat_ofNat', UInt64.toNat_ofNat']
    change (2 ^ 64 - count % 2 ^ 64 + 64) % 2 ^ 64 = (64 - count) % 2 ^ 64
    omega
  rw [rotateLeft, back]

theorem wordBit_rotateLeft (word : UInt64) {count index : Nat} (some : 0 < count)
    (small : count < 64) (inside : index < 64) :
    WordBits.wordBit (rotateLeft word (.ofNat count)) index =
      if index < count then WordBits.wordBit word (index + 64 - count)
      else WordBits.wordBit word (index - count) := by
  rw [rotateLeft_eq word small]
  exact WordBits.wordBit_funnel word word some small inside

theorem rotateLeft_rotateLeft (word : UInt64) {count : Nat} (some : 0 < count)
    (small : count < 64) :
    rotateLeft (rotateLeft word (.ofNat count)) (.ofNat (64 - count)) = word := by
  apply WordBits.word_ext
  intro index inside
  rw [wordBit_rotateLeft _ (by omega) (by omega) inside]
  split
  · rw [wordBit_rotateLeft word some small (by omega), if_neg (by omega)]
    congr 1
    omega
  · rw [wordBit_rotateLeft word some small (by omega), if_pos (by omega)]
    congr 1
    omega

/-- The counts that make up a whole turn. -/
theorem rotateLeft_cancel (word : UInt64) {first second : UInt64} (some : 0 < first)
    (small : first < 64) (whole : second = 64 - first) :
    rotateLeft (rotateLeft word first) second = word := by
  have count_lt : first.toNat < 64 := UInt64.lt_iff_toNat_lt.mp small
  have rest : second = .ofNat (64 - first.toNat) := by
    apply UInt64.toNat_inj.mp
    rw [whole, UInt64.toNat_sub_of_le _ _ (UInt64.le_of_lt small), UInt64.toNat_ofNat']
    change 64 - first.toNat = (64 - first.toNat) % 2 ^ 64
    omega
  have turned := rotateLeft_rotateLeft word (UInt64.lt_iff_toNat_lt.mp some) count_lt
  rwa [UInt64.ofNat_toNat, ← rest] at turned

namespace MixState

/-- The round backwards. -/
def unround (state : MixState) : MixState :=
  let s3 := rotateLeft (state.s3 ^^^ state.s0) 53
  let s1 := rotateLeft (state.s1 ^^^ state.s2) 39
  let s2 := rotateLeft (state.s2 - s1) 57
  let s0 := rotateLeft (state.s0 - s3) 33
  let s3 := rotateLeft (s3 ^^^ s2) 47
  let s1 := rotateLeft (s1 ^^^ s0) 51
  ⟨s0 - s1, s1, s2 - s3, s3⟩

theorem unround_round (state : MixState) : state.round.unround = state := by
  simp (disch := decide) only [round, unround, UInt64.xor_assoc, UInt64.xor_self,
    UInt64.xor_zero, UInt64.add_sub_cancel, rotateLeft_cancel]

theorem round_unround (state : MixState) : state.unround.round = state := by
  simp (disch := decide) only [round, unround, UInt64.xor_assoc, UInt64.xor_self,
    UInt64.xor_zero, UInt64.sub_add_cancel, rotateLeft_cancel]

theorem round_bijective : Function.Bijective round :=
  ⟨Function.LeftInverse.injective unround_round, Function.RightInverse.surjective round_unround⟩

theorem permute_bijective : Function.Bijective permute := by
  have rounds (count : Nat) :
      (fun state => (List.range count).foldl (fun state _ => round state) state) =
        round^[count] := by
    induction count with
    | zero => rfl
    | succ count ih =>
        funext state
        rw [List.range_succ, List.foldl_append, Function.iterate_succ_apply', ← ih]
        rfl
  have all : permute = round^[12] := rounds 12
  rw [all]
  exact round_bijective.iterate 12

end MixState

theorem fromLeBytes_eq (bytes : List UInt8) :
    fromLeBytes bytes = .ofNat (ByteEncoding.fromLittleEndian bytes) := by
  induction bytes with
  | nil => rfl
  | cons byte bytes ih =>
      have split : fromLeBytes (byte :: bytes) = fromLeBytes bytes * 256 + byte.toUInt64 := rfl
      rw [split, ih]
      apply UInt64.toNat_inj.mp
      simp [ByteEncoding.fromLittleEndian]

theorem fromLeBytes_inj {first second : List UInt8} (width : first.length = 8)
    (width' : second.length = 8) (same : fromLeBytes first = fromLeBytes second) :
    first = second := by
  have value {bytes : List UInt8} (width : bytes.length = 8) :
      (fromLeBytes bytes).toNat = ByteEncoding.fromLittleEndian bytes := by
    have small := ByteEncoding.fromLittleEndian_lt bytes
    rw [width] at small
    rw [fromLeBytes_eq, UInt64.toNat_ofNat_of_lt' small]
  rw [← ByteEncoding.littleEndian_fromLittleEndian width, ← value width, same, value width',
    ByteEncoding.littleEndian_fromLittleEndian width']

theorem toNat_toLeBytes (word : UInt64) :
    ByteEncoding.fromLittleEndian (toLeBytes word).toList = word.toNat := by
  have bytes : (toLeBytes word).toList = [word.toUInt8, (word >>> 8).toUInt8,
      (word >>> 16).toUInt8, (word >>> 24).toUInt8, (word >>> 32).toUInt8,
      (word >>> 40).toUInt8, (word >>> 48).toUInt8, (word >>> 56).toUInt8] := by
    simp [toLeBytes, Vector.toList_ofFn, List.ofFn_succ]
  have small := word.toNat_lt
  rw [bytes]
  simp [ByteEncoding.fromLittleEndian, Nat.shiftRight_eq_div_pow]
  omega

theorem toLeBytes_inj {first second : UInt64} (same : toLeBytes first = toLeBytes second) :
    first = second := by
  apply UInt64.toNat_inj.mp
  rw [← toNat_toLeBytes, same, toNat_toLeBytes]

/-- The bytes of a block.  The last one may be short, or empty. -/
def messageBlock (bytes : List UInt8) (index : Nat) : List UInt8 :=
  (bytes.drop (8 * index)).take 8

theorem length_messageBlock {bytes : List UInt8} {index : Nat} (whole : index < bytes.length / 8) :
    (messageBlock bytes index).length = 8 := by
  rw [messageBlock, List.length_take, List.length_drop]
  omega

theorem getElem?_messageBlock (bytes : List UInt8) (index : Nat) {place : Nat} (inside : place < 8) :
    (messageBlock bytes index)[place]? = bytes[8 * index + place]? := by
  rw [messageBlock, List.getElem?_take_of_lt inside, List.getElem?_drop]

theorem eq_of_messageBlock {first second : List UInt8}
    (same : ∀ index, messageBlock first index = messageBlock second index) : first = second := by
  apply List.ext_getElem?
  intro position
  have inside : position % 8 < 8 := Nat.mod_lt _ (by decide)
  have place := getElem?_messageBlock first (position / 8) inside
  have place' := getElem?_messageBlock second (position / 8) inside
  rw [Nat.div_add_mod] at place place'
  rw [← place, same, place']

/-- Two messages that differ only in one block differ there. -/
structure DifferIn (index : Nat) (first second : List UInt8) : Prop where
  length_eq : first.length = second.length
  elsewhere : ∀ position, position / 8 ≠ index → first[position]? = second[position]?
  apart : first ≠ second

namespace DifferIn

variable {index : Nat} {first second : List UInt8}

theorem messageBlock_eq (differ : DifferIn index first second) {other : Nat}
    (outside : other ≠ index) : messageBlock first other = messageBlock second other := by
  apply List.ext_getElem?
  intro place
  by_cases inside : place < 8
  · rw [getElem?_messageBlock _ _ inside, getElem?_messageBlock _ _ inside]
    apply differ.elsewhere
    omega
  · have short (bytes : List UInt8) : (messageBlock bytes other)[place]? = none := by
      apply List.getElem?_eq_none
      rw [messageBlock, List.length_take]
      omega
    rw [short, short]

theorem messageBlock_ne (differ : DifferIn index first second) :
    messageBlock first index ≠ messageBlock second index := by
  intro same
  refine differ.apart (eq_of_messageBlock fun other => ?_)
  by_cases here : other = index
  · rw [here, same]
  · exact differ.messageBlock_eq here

theorem index_le (differ : DifferIn index first second) : index ≤ first.length / 8 := by
  by_contra beyond
  have outside (bytes : List UInt8) (short : bytes.length / 8 < index) :
      messageBlock bytes index = [] := by
    rw [messageBlock, List.drop_eq_nil_of_le (by omega), List.take_nil]
  apply differ.messageBlock_ne
  rw [outside first (by omega), outside second (by rw [← differ.length_eq]; omega)]

end DifferIn

namespace MixState

def absorbBlock (state : MixState) (block : List UInt8) : MixState :=
  { state with s0 := state.s0 ^^^ fromLeBytes block }.permute

theorem absorb_eq (state : MixState) (bytes : List UInt8) :
    state.absorb bytes = (List.range (bytes.length / 8)).foldl
      (fun state index => state.absorbBlock (messageBlock bytes index)) state :=
  rfl

theorem absorbBlock_inj {state other : MixState} (block : List UInt8)
    (same : state.absorbBlock block = other.absorbBlock block) : state = other := by
  have mixed := permute_bijective.injective same
  cases state
  cases other
  simpa using mixed

theorem absorbBlock_block_inj (state : MixState) {block other : List UInt8}
    (width : block.length = 8) (width' : other.length = 8)
    (same : state.absorbBlock block = state.absorbBlock other) : block = other := by
  have mixed := permute_bijective.injective same
  apply fromLeBytes_inj width width'
  simpa using mixed

variable {index : Nat} {first second : List UInt8}

/-- After the blocks before the one that differs the states agree, and after it they do
not. -/
theorem absorbBlocks_eq_iff (differ : DifferIn index first second) (state : MixState)
    {count : Nat} (whole : count ≤ first.length / 8) :
    (List.range count).foldl (fun state index => state.absorbBlock (messageBlock first index))
        state =
      (List.range count).foldl (fun state index => state.absorbBlock (messageBlock second index))
        state ↔ count ≤ index := by
  induction count with
  | zero => simp
  | succ count ih =>
      have before := ih (by omega)
      rw [List.range_succ, List.foldl_append, List.foldl_append]
      simp only [List.foldl_cons, List.foldl_nil]
      rcases Nat.lt_trichotomy count index with early | rfl | late
      · rw [before.mpr (by omega), differ.messageBlock_eq (by omega)]
        simp only [true_iff]
        omega
      · rw [before.mpr (Nat.le_refl count)]
        refine iff_of_false (fun same => differ.messageBlock_ne ?_) (by omega)
        refine absorbBlock_block_inj _ (length_messageBlock (by omega))
          (length_messageBlock ?_) same
        rw [← differ.length_eq]
        omega
      · rw [differ.messageBlock_eq (by omega)]
        refine iff_of_false (fun same => ?_) (by omega)
        have earlier := before.mp (absorbBlock_inj _ same)
        omega

theorem absorb_eq_iff (differ : DifferIn index first second) (state : MixState) :
    state.absorb first = state.absorb second ↔ first.length / 8 ≤ index := by
  rw [absorb_eq, absorb_eq, ← differ.length_eq]
  exact absorbBlocks_eq_iff differ state (Nat.le_refl _)

end MixState

/-- The last block, which is short, with zeros and its length behind it. -/
def mixTail (rem : List UInt8) : List UInt8 :=
  rem ++ List.replicate (7 - rem.length) 0 ++ [UInt8.ofNat rem.length ||| 0x80]

theorem length_mixTail {rem : List UInt8} (short : rem.length < 8) :
    (mixTail rem).length = 8 := by
  simp only [mixTail, List.length_append, List.length_replicate, List.length_singleton]
  omega

theorem mixTail_inj {rem other : List UInt8} (length_eq : rem.length = other.length)
    (same : mixTail rem = mixTail other) : rem = other := by
  rw [mixTail, mixTail, List.append_assoc, List.append_assoc] at same
  exact (List.append_inj same length_eq).1

def MixState.squeeze (state : MixState) : Vector UInt8 32 :=
  toLeBytes state.s0 ++ toLeBytes state.s1 ++ toLeBytes state.s2 ++ toLeBytes state.s3

theorem MixState.squeeze_inj {state other : MixState} (same : state.squeeze = other.squeeze) :
    state = other := by
  obtain ⟨front, last⟩ := Vector.append_inj same
  obtain ⟨front, third⟩ := Vector.append_inj front
  obtain ⟨first, second⟩ := Vector.append_inj front
  cases state
  cases other
  rw [MixState.mk.injEq]
  exact ⟨toLeBytes_inj first, toLeBytes_inj second, toLeBytes_inj third, toLeBytes_inj last⟩

/-- The state that a key starts with. -/
def MixState.ofKey (key : Vector UInt8 32) : MixState :=
  let word := fun index => fromLeBytes (messageBlock key.toList index)
  ⟨word 0, word 1, word 2, word 3⟩

/-- The end of `keyed_mix`. -/
def MixState.finish (state : MixState) (rem : List UInt8) : MixState :=
  { state with s1 := state.s1 ^^^ fromLeBytes (mixTail rem) }.permute.permute

theorem lastBlock_eq (bytes : List UInt8) :
    bytes.drop (8 * (bytes.length / 8)) = messageBlock bytes (bytes.length / 8) := by
  rw [messageBlock, List.take_of_length_le]
  rw [List.length_drop]
  omega

theorem keyedMix_eq (key : Vector UInt8 32) (bytes : List UInt8) :
    keyedMix key bytes =
      (((MixState.ofKey key).absorb bytes).finish
        (messageBlock bytes (bytes.length / 8))).squeeze := by
  rw [← lastBlock_eq]
  rfl

theorem MixState.finish_inj {state other : MixState} {rem : List UInt8}
    (same : state.finish rem = other.finish rem) : state = other := by
  have mixed := permute_bijective.injective (permute_bijective.injective same)
  cases state
  cases other
  simpa using mixed

theorem MixState.finish_rem_inj {state : MixState} {rem other : List UInt8}
    (short : rem.length < 8) (length_eq : rem.length = other.length)
    (same : state.finish rem = state.finish other) : rem = other := by
  have mixed := permute_bijective.injective (permute_bijective.injective same)
  apply mixTail_inj length_eq
  apply fromLeBytes_inj (length_mixTail short) (length_mixTail (length_eq ▸ short))
  simpa using mixed

theorem length_lastBlock (bytes : List UInt8) :
    (messageBlock bytes (bytes.length / 8)).length = bytes.length % 8 := by
  rw [← lastBlock_eq, List.length_drop]
  omega

/-- Messages that differ in one block are mixed to different results. -/
theorem keyedMix_ne {index : Nat} {first second : List UInt8}
    (differ : DifferIn index first second) (key : Vector UInt8 32) :
    keyedMix key first ≠ keyedMix key second := by
  intro same
  rw [keyedMix_eq, keyedMix_eq, ← differ.length_eq] at same
  have finished := MixState.squeeze_inj same
  have absorbed := MixState.absorb_eq_iff differ (.ofKey key)
  rcases Nat.lt_or_eq_of_le differ.index_le with whole | rfl
  · rw [differ.messageBlock_eq (by omega : first.length / 8 ≠ index)] at finished
    have inside := absorbed.mp (MixState.finish_inj finished)
    omega
  · rw [absorbed.mpr (Nat.le_refl _)] at finished
    apply differ.messageBlock_ne
    apply MixState.finish_rem_inj ?_ ?_ finished
    · rw [length_lastBlock]
      omega
    · have other := length_lastBlock second
      rw [← differ.length_eq] at other
      rw [length_lastBlock, other]

/-- The message that `sign_capability` builds, for a kind of this name. -/
def capabilityMessage (id : Uuid) (issuedAtMs : Int64) (ttlMs : UInt64) (kind target : String) :
    List UInt8 :=
  id.toList ++ (toLeBytes issuedAtMs.toUInt64).toList ++ (toLeBytes ttlMs).toList ++
    ByteEncoding.lengthPrefixed (textBytes kind) ++ ByteEncoding.lengthPrefixed (textBytes target)

theorem capabilityMessage_inj {id otherId : Uuid} {issuedAtMs otherMs : Int64}
    {ttlMs otherTtl : UInt64} {kind otherKind target otherTarget : String}
    (short : (textBytes kind).length < 2 ^ 32) (otherShort : (textBytes otherKind).length < 2 ^ 32)
    (same : capabilityMessage id issuedAtMs ttlMs kind target =
      capabilityMessage otherId otherMs otherTtl otherKind otherTarget) :
    id = otherId ∧ issuedAtMs = otherMs ∧ ttlMs = otherTtl ∧ kind = otherKind ∧
      target = otherTarget := by
  simp only [capabilityMessage, List.append_assoc] at same
  obtain ⟨ids, same⟩ := List.append_inj same (by simp)
  obtain ⟨times, same⟩ := List.append_inj same (by simp)
  obtain ⟨ttls, same⟩ := List.append_inj same (by simp)
  obtain ⟨kinds, targets⟩ := ByteEncoding.lengthPrefixed_append_inj short otherShort same
  refine ⟨Vector.toList_inj.mp ids, ?_, toLeBytes_inj (Vector.toList_inj.mp ttls),
    textBytes_inj kinds, textBytes_inj (ByteEncoding.lengthPrefixed_inj targets)⟩
  exact congrArg Int64.ofUInt64 (toLeBytes_inj (Vector.toList_inj.mp times))

/-- What is signed determines the fields, and a change within one block of a message shows
in its mix, because a permutation of the state can be undone. -/
theorem signing_separates (key : Vector UInt8 32) :
    Function.Bijective MixState.permute ∧
    (∀ index first second, DifferIn index first second →
      keyedMix key first ≠ keyedMix key second) ∧
    ∀ id otherId issuedAtMs otherMs ttlMs otherTtl kind otherKind target otherTarget,
      (textBytes kind).length < 2 ^ 32 → (textBytes otherKind).length < 2 ^ 32 →
      capabilityMessage id issuedAtMs ttlMs kind target =
        capabilityMessage otherId otherMs otherTtl otherKind otherTarget →
      id = otherId ∧ issuedAtMs = otherMs ∧ ttlMs = otherTtl ∧ kind = otherKind ∧
        target = otherTarget := by
  refine ⟨MixState.permute_bijective, ?_, ?_⟩
  · intro index first second differ
    exact keyedMix_ne differ key
  · intro id otherId issuedAtMs otherMs ttlMs otherTtl kind otherKind target otherTarget
    exact capabilityMessage_inj

/-- Two messages of eleven bytes, which differ in the last one. -/
theorem signing_separates_last :
    keyedMix (Vector.replicate 32 7) (List.replicate 10 1 ++ [2]) ≠
        keyedMix (Vector.replicate 32 7) (List.replicate 10 1 ++ [3]) ∧
      capabilityMessage (Vector.replicate 16 1) 1000 30000 "FileWrite" "/tmp/a" ≠
        capabilityMessage (Vector.replicate 16 1) 1000 30000 "FileRead" "/tmp/a" := by
  obtain ⟨_, mixes, messages⟩ := signing_separates (Vector.replicate 32 7)
  constructor
  · refine mixes 1 _ _ ⟨rfl, ?_, by decide⟩
    intro position outside
    rcases Nat.lt_or_ge position 10 with front | back
    · rw [List.getElem?_append_left (by simpa using front),
        List.getElem?_append_left (by simpa using front)]
    · rw [List.getElem?_eq_none, List.getElem?_eq_none] <;>
        simp only [List.length_append, List.length_replicate, List.length_singleton] <;> omega
  · intro same
    have kinds := messages _ _ _ _ _ _ _ _ _ _ (by decide) (by decide) same
    exact absurd kinds.2.2.2.1 (by decide)

end Roko
