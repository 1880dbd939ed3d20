import Roko.HdcVectors
import Roko.Tallies

/-!
# Bundle accumulators

The model of `BundleAccumulator` in `roko-primitives/src/hdc.rs`.  A signed vote for each bit
goes up for a vector with the bit and down for one without it, so the sign of the vote decides
the majority, and a vector that is taken back leaves no trace.

The votes are `i32`: a sum that does not fit panics in a build with overflow checks and wraps
around in one without them.  Both kinds of build are modelled.
-/

namespace Roko

open WordBits

structure BundleAccumulator where
  votes : Vector Int32 hdcBits
  count : UInt64

namespace BundleAccumulator

def new : BundleAccumulator where
  votes := Vector.replicate hdcBits 0
  count := 0

def wordIndex (position : Fin hdcBits) : Fin 160 :=
  ⟨position.val / 64, Nat.div_lt_of_lt_mul position.isLt⟩

/-- What a vote becomes, before it is cut to 32 bits. -/
def votedOn (votes : Vector Int32 hdcBits) (hv : HdcVector) (weight : Int32)
    (position : Fin hdcBits) : Int :=
  if (hv.bits[wordIndex position] >>> UInt64.ofNat (position.val % 64)) &&& 1 = 1 then
    votes[position].toInt + weight.toInt
  else votes[position].toInt - weight.toInt

def Fits (sum : Int) : Prop :=
  -2 ^ 31 ≤ sum ∧ sum < 2 ^ 31

instance : DecidablePred Fits :=
  fun sum => inferInstanceAs (Decidable (-2 ^ 31 ≤ sum ∧ sum < 2 ^ 31))

/-- `update_votes_i32`, in a build with overflow checks or without them. -/
def updateVotes (checks : Bool) (votes : Vector Int32 hdcBits) (hv : HdcVector) (weight : Int32) :
    Option (Vector Int32 hdcBits) :=
  if weight = 0 then some votes
  else if checks = true ∧ ¬ ∀ position, Fits (votedOn votes hv weight position) then none
  else some (Vector.ofFn fun position => Int32.ofInt (votedOn votes hv weight position))

def saturatingAdd (first second : UInt64) : UInt64 :=
  UInt64.ofNat (min (first.toNat + second.toNat) (2 ^ 64 - 1))

def add (checks : Bool) (accumulator : BundleAccumulator) (hv : HdcVector) :
    Option BundleAccumulator :=
  (updateVotes checks accumulator.votes hv 1).map fun votes =>
    { votes, count := saturatingAdd accumulator.count 1 }

def addWeighted (checks : Bool) (accumulator : BundleAccumulator) (hv : HdcVector)
    (weight : Int32) : Option BundleAccumulator :=
  (updateVotes checks accumulator.votes hv weight).map fun votes =>
    { votes, count := saturatingAdd accumulator.count (UInt64.ofNat weight.toInt.natAbs) }

def finish (accumulator : BundleAccumulator) : HdcVector :=
  ⟨Vector.ofFn fun wordIndex =>
    assemble fun bitIndex =>
      accumulator.votes[wordIndex.val * 64 + bitIndex]?.any fun vote => 0 < vote⟩

inductive VoteStep where
  | add (vector : HdcVector)
  | addWeighted (vector : HdcVector) (weight : Int32)

namespace VoteStep

def vector : VoteStep → HdcVector
  | .add vector => vector
  | .addWeighted vector _ => vector

def weight : VoteStep → Int32
  | .add _ => 1
  | .addWeighted _ weight => weight

/-- The vote that a step casts. -/
def vote (step : VoteStep) : HdcVector × Int :=
  (step.vector, step.weight.toInt)

end VoteStep

def step (checks : Bool) (accumulator : BundleAccumulator) : VoteStep → Option BundleAccumulator
  | .add vector => accumulator.add checks vector
  | .addWeighted vector weight => accumulator.addWeighted checks vector weight

def run (checks : Bool) (steps : List VoteStep) : Option BundleAccumulator :=
  steps.foldlM (step checks) new

/-- What a vector is worth for a bit. -/
def worth (position : Nat) (vector : HdcVector) : Int :=
  if vector.bit position then 1 else -1

theorem worth_eq_or (position : Nat) (vector : HdcVector) :
    worth position vector = 1 ∨ worth position vector = -1 := by
  rw [worth]
  split
  · exact Or.inl rfl
  · exact Or.inr rfl

theorem abs_worth_le (position : Nat) (vector : HdcVector) : |worth position vector| ≤ 1 := by
  rcases worth_eq_or position vector with one | one <;> rw [one] <;> decide

theorem votedOn_eq (votes : Vector Int32 hdcBits) (hv : HdcVector) (weight : Int32)
    (position : Fin hdcBits) :
    votedOn votes hv weight position =
      votes[position].toInt + weight.toInt * worth position.val hv := by
  have isPlace : position.val % 64 < 64 := Nat.mod_lt _ (by decide)
  have isBit : hv.bit position.val =
      wordBit hv.bits[wordIndex position] (position.val % 64) := by
    have found := bit_eq hv.bits (wordIndex position).isLt isPlace
    have whole : 64 * (wordIndex position).val + position.val % 64 = position.val :=
      Nat.div_add_mod _ _
    rwa [whole] at found
  have test := shifted_and_one hv.bits[wordIndex position] isPlace
  rw [← isBit] at test
  rw [votedOn, worth]
  cases set : hv.bit position.val with
  | true =>
      have one : (hv.bits[wordIndex position] >>> UInt64.ofNat (position.val % 64)) &&& 1 = 1 :=
        UInt64.toNat_inj.mp (by rw [test, set]; rfl)
      rw [if_pos one, if_pos rfl, mul_one]
  | false =>
      have zero : (hv.bits[wordIndex position] >>> UInt64.ofNat (position.val % 64)) &&& 1 ≠ 1 := by
        intro one
        rw [one, set] at test
        exact absurd test (by decide)
      rw [if_neg zero, if_neg (by decide), mul_neg_one, sub_eq_add_neg]

/-- The votes after some steps, up to the turns of 32 bits. -/
def VotesOf (steps : List VoteStep) (votes : Vector Int32 hdcBits) : Prop :=
  ∀ position : Fin hdcBits, votes[position] =
    Int32.ofInt (WeightedTally.tally (worth position.val) (steps.map VoteStep.vote))

theorem VotesOf.step {checks : Bool} {steps : List VoteStep} {votes votes' : Vector Int32 hdcBits}
    (before : VotesOf steps votes) (next : VoteStep)
    (updated : updateVotes checks votes next.vector next.weight = some votes') :
    VotesOf (steps ++ [next]) votes' := by
  intro position
  have tally : WeightedTally.tally (worth position.val) ((steps ++ [next]).map VoteStep.vote) =
      WeightedTally.tally (worth position.val) (steps.map VoteStep.vote) +
        next.weight.toInt * worth position.val next.vector := by
    rw [List.map_append, WeightedTally.tally_append]
    simp [WeightedTally.tally, VoteStep.vote]
  rw [updateVotes] at updated
  split at updated
  case isTrue none =>
    rw [← Option.some.inj updated, before position, tally, none]
    simp
  case isFalse =>
    split at updated
    case isTrue => cases updated
    case isFalse =>
      rw [← Option.some.inj updated]
      rw [Fin.getElem_fin, Vector.getElem_ofFn, votedOn_eq, Int32.ofInt_add, Int32.ofInt_toInt,
        before position, ← Int32.ofInt_add, tally]

theorem step_eq (checks : Bool) (accumulator : BundleAccumulator) (next : VoteStep) :
    ∃ count, step checks accumulator next =
      (updateVotes checks accumulator.votes next.vector next.weight).map fun votes =>
        { votes, count } := by
  cases next with
  | add vector => exact ⟨_, rfl⟩
  | addWeighted vector weight => exact ⟨_, rfl⟩

theorem run_append (checks : Bool) (steps : List VoteStep) (next : VoteStep) :
    run checks (steps ++ [next]) = (run checks steps).bind fun accumulator =>
      step checks accumulator next := by
  rw [run, List.foldlM_append]
  simp [run]

theorem run_votes {checks : Bool} {steps : List VoteStep} {accumulator : BundleAccumulator}
    (ran : run checks steps = some accumulator) : VotesOf steps accumulator.votes := by
  induction steps using List.reverseRecOn generalizing accumulator with
  | nil =>
      cases ran
      intro position
      simp [new, WeightedTally.tally]
  | append_singleton steps next ih =>
      rw [run_append] at ran
      obtain ⟨earlier, ran', stepped⟩ := Option.bind_eq_some_iff.mp ran
      obtain ⟨count, updates⟩ := step_eq checks earlier next
      rw [updates] at stepped
      obtain ⟨votes, updated, rfl⟩ := Option.map_eq_some_iff.mp stepped
      exact (ih ran').step next updated

/-- The weights that are cast, whatever their signs. -/
def totalWeight (steps : List VoteStep) : Int :=
  ((steps.map VoteStep.vote).map fun vote => |vote.2|).sum

theorem totalWeight_append (steps : List VoteStep) (next : VoteStep) :
    totalWeight (steps ++ [next]) = totalWeight steps + |next.weight.toInt| := by
  simp [totalWeight, VoteStep.vote]

theorem updateVotes_fits {steps : List VoteStep} {votes : Vector Int32 hdcBits}
    (before : VotesOf steps votes) (next : VoteStep)
    (small : totalWeight (steps ++ [next]) < 2 ^ 31) (position : Fin hdcBits) :
    Fits (votedOn votes next.vector next.weight position) := by
  have bound := WeightedTally.abs_tally_le (abs_worth_le position.val) (steps.map VoteStep.vote)
  have own : |next.weight.toInt * worth position.val next.vector| ≤ |next.weight.toInt| := by
    rw [abs_mul]
    exact mul_le_of_le_one_right (abs_nonneg _) (abs_worth_le position.val next.vector)
  rw [totalWeight_append, totalWeight] at small
  have weight := abs_nonneg next.weight.toInt
  obtain ⟨low, high⟩ := abs_le.mp bound
  obtain ⟨low', high'⟩ := abs_le.mp own
  rw [votedOn_eq, before position, Int32.toInt_ofInt_of_le (by omega) (by omega), Fits]
  omega

/-- A build without overflow checks never stops, and no sum overflows while the weights fit. -/
theorem exists_run (checks : Bool) (steps : List VoteStep)
    (safe : checks = false ∨ totalWeight steps < 2 ^ 31) :
    ∃ accumulator, run checks steps = some accumulator := by
  induction steps using List.reverseRecOn with
  | nil => exact ⟨new, rfl⟩
  | append_singleton steps next ih =>
      have earlier : checks = false ∨ totalWeight steps < 2 ^ 31 := by
        refine safe.imp_right fun small => ?_
        have weight := abs_nonneg next.weight.toInt
        rw [totalWeight_append] at small
        omega
      obtain ⟨accumulator, ran⟩ := ih earlier
      obtain ⟨count, updates⟩ := step_eq checks accumulator next
      rw [run_append, ran, Option.bind_some, updates, updateVotes]
      split
      · exact ⟨_, rfl⟩
      · rw [if_neg]
        · exact ⟨_, rfl⟩
        · rintro ⟨checked, overflows⟩
          refine overflows fun position => updateVotes_fits (run_votes ran) next ?_ position
          exact safe.resolve_left (by rw [checked]; decide)

theorem bit_finish (accumulator : BundleAccumulator) (position : Fin hdcBits) :
    accumulator.finish.bit position = decide (0 < accumulator.votes[position]) := by
  obtain ⟨index, place, isWord, isPlace, whole⟩ := HdcVector.exists_place position.isLt
  have swapped : index * 64 + place = position.val := by omega
  have found := bit_eq accumulator.finish.bits isWord isPlace
  rw [← whole, finish, Vector.getElem_ofFn, wordBit_assemble _ isPlace, swapped,
    Vector.getElem?_eq_getElem position.isLt] at found
  exact found

/-- A list of vectors tips a bit by the majority. -/
theorem tally_ones (vectors : List HdcVector) (position : Nat) :
    WeightedTally.tally (worth position) (vectors.map fun vector => (vector, 1)) =
      2 * (vectors.countP fun vector => vector.bit position) - vectors.length := by
  induction vectors with
  | nil => rfl
  | cons vector vectors ih =>
      rw [WeightedTally.tally] at ih
      rw [WeightedTally.tally, List.map_cons, List.map_cons, List.sum_cons, ih, List.countP_cons,
        List.length_cons, worth]
      split <;> push_cast <;> omega

/-- Votes whose net weights count the vectors of a list decide as the list does. -/
theorem finish_eq_bundle {checks : Bool} {steps : List VoteStep} {vectors : List HdcVector}
    {accumulator : BundleAccumulator} (few : vectors.length < 2 ^ 31)
    (counts : ∀ vector, WeightedTally.net (steps.map VoteStep.vote) vector = vectors.count vector)
    (ran : run checks steps = some accumulator) :
    accumulator.finish = HdcVector.bundle vectors := by
  refine HdcVector.ext_bits fun position inside => ?_
  have tally : WeightedTally.tally (worth position) (steps.map VoteStep.vote) =
      2 * (vectors.countP fun vector => vector.bit position) - vectors.length := by
    rw [← tally_ones]
    exact WeightedTally.tally_congr _ fun vector =>
      (counts vector).trans (WeightedTally.net_ones vectors vector).symm
  have some : vectors.countP (fun vector => vector.bit position) ≤ vectors.length :=
    List.countP_le_length
  have vote := run_votes ran ⟨position, inside⟩
  rw [tally] at vote
  rw [HdcVector.bit_bundle _ inside, bit_finish accumulator ⟨position, inside⟩, vote,
    decide_eq_decide, Int32.lt_iff_toInt_lt, Int32.toInt_ofInt_of_le (by omega) (by omega)]
  have zero : (0 : Int32).toInt = 0 := rfl
  rw [zero]
  omega

/-- What an accumulator promises, in a build with overflow checks or without them. -/
structure AccumulatorLaw (checks : Bool) : Prop where
  /-- Votes that group the vectors of a list give its bundle. -/
  grouped : ∀ (vectors : List HdcVector) (steps : List VoteStep), vectors.length < 2 ^ 31 →
    (∀ step ∈ steps, 0 < step.weight.toInt) →
      (∀ vector, WeightedTally.net (steps.map VoteStep.vote) vector = vectors.count vector) →
        ∃ accumulator, run checks steps = some accumulator ∧
          accumulator.finish = HdcVector.bundle vectors
  ordered : ∀ (steps others : List VoteStep) (accumulator other : BundleAccumulator),
    steps.Perm others → run checks steps = some accumulator → run checks others = some other →
      accumulator.finish = other.finish
  /-- A vector that is added and taken back leaves the bundle of the others. -/
  removed : ∀ (vectors : List HdcVector) (before between after : List VoteStep)
    (vector : HdcVector) (weight back : Int32), vectors.length < 2 ^ 31 →
      back.toInt = -weight.toInt →
        (∀ vector, WeightedTally.net ((before ++ between ++ after).map VoteStep.vote) vector =
          vectors.count vector) →
            ∀ accumulator, run checks (before ++ .addWeighted vector weight ::
                (between ++ .addWeighted vector back :: after)) = some accumulator →
              accumulator.finish = HdcVector.bundle vectors
  /-- No step fails without overflow checks, or while the weights fit together. -/
  defined : ∀ steps : List VoteStep, checks = false ∨ totalWeight steps < 2 ^ 31 →
    ∃ accumulator, run checks steps = some accumulator

theorem run_perm {checks : Bool} {steps others : List VoteStep}
    {accumulator other : BundleAccumulator} (same : steps.Perm others)
    (ran : run checks steps = some accumulator) (ran' : run checks others = some other) :
    accumulator.finish = other.finish := by
  refine HdcVector.ext_bits fun position inside => ?_
  rw [bit_finish accumulator ⟨position, inside⟩, bit_finish other ⟨position, inside⟩,
    run_votes ran ⟨position, inside⟩, run_votes ran' ⟨position, inside⟩,
    WeightedTally.tally_perm _ (same.map VoteStep.vote)]

/-- Positive weights add up to the number of vectors that they group. -/
theorem totalWeight_of_counts {steps : List VoteStep} {vectors : List HdcVector}
    (positive : ∀ step ∈ steps, 0 < step.weight.toInt)
    (counts : ∀ vector, WeightedTally.net (steps.map VoteStep.vote) vector =
      vectors.count vector) : totalWeight steps = vectors.length := by
  have ones : WeightedTally.tally (fun _ => 1) (steps.map VoteStep.vote) =
      WeightedTally.tally (fun _ => 1) (vectors.map fun vector => (vector, 1)) :=
    WeightedTally.tally_congr _ fun vector =>
      (counts vector).trans (WeightedTally.net_ones vectors vector).symm
  have weights : (steps.map VoteStep.vote).map (fun vote => |vote.2|) =
      (steps.map VoteStep.vote).map fun vote => vote.2 * 1 := by
    rw [List.map_map, List.map_map]
    refine List.map_congr_left fun step member => ?_
    exact (abs_of_pos (positive step member)).trans (mul_one _).symm
  rw [totalWeight, weights]
  refine ones.trans ?_
  simp [WeightedTally.tally, Function.comp_def]

theorem net_removed (before between after : List VoteStep) (vector : HdcVector)
    {weight back : Int32} (opposite : back.toInt = -weight.toInt) (other : HdcVector) :
    WeightedTally.net ((before ++ .addWeighted vector weight ::
        (between ++ .addWeighted vector back :: after)).map VoteStep.vote) other =
      WeightedTally.net ((before ++ between ++ after).map VoteStep.vote) other := by
  simp only [WeightedTally.net, List.map_append, List.map_cons, List.sum_append, List.sum_cons,
    VoteStep.vote, VoteStep.vector, VoteStep.weight, opposite]
  split <;> omega

theorem accumulator_lawful (checks : Bool) : AccumulatorLaw checks where
  grouped vectors steps few positive counts := by
    have total := totalWeight_of_counts positive counts
    obtain ⟨accumulator, ran⟩ := exists_run checks steps (Or.inr (by omega))
    exact ⟨accumulator, ran, finish_eq_bundle few counts ran⟩
  ordered steps others accumulator other same ran ran' := run_perm same ran ran'
  removed vectors before between after vector weight back few opposite counts accumulator ran :=
    finish_eq_bundle few
      (fun other => (net_removed before between after vector opposite other).trans (counts other))
      ran
  defined := exists_run checks

end BundleAccumulator

end Roko
