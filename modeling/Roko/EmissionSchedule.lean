import Roko.FallibleSteps
import Mathlib.Algebra.BigOperators.Intervals
import Mathlib.Algebra.Order.Field.Rat
import Mathlib.Tactic.Ring

/-!
# The emission schedule

The emission schedule of `korai_token.rs`: the rate per block is halved with every epoch,
down to a terminal rate.  Amounts are `f64`, read as exact rationals.  Blocks and epochs are
`u64`, and an operation on them that overflows or divides by zero panics.

The emission of a range goes epoch by epoch and agrees with the sum over its blocks, unless
the epoch of the last block ends beyond the largest block number.
-/

namespace Roko

structure EmissionSchedule where
  baseEmissionPerBlock : ℚ
  blocksPerEpoch : UInt64
  terminalRate : ℚ
  maxSupply : ℚ
  totalMinted : ℚ

inductive BlockPanic
  | divideByZero
  | overflow
  deriving DecidableEq, Repr

def checkedBlockAdd (first second : UInt64) : Except BlockPanic UInt64 :=
  if first.toNat + second.toNat < 2 ^ 64 then .ok (first + second) else .error .overflow

def checkedBlockMul (first second : UInt64) : Except BlockPanic UInt64 :=
  if first.toNat * second.toNat < 2 ^ 64 then .ok (first * second) else .error .overflow

theorem toNat_min (first second : UInt64) :
    (min first second).toNat = min first.toNat second.toNat := by
  change (if first ≤ second then first else second).toNat = _
  split
  case isTrue order => exact (min_eq_left (UInt64.le_iff_toNat_le.mp order)).symm
  case isFalse order =>
    rw [UInt64.le_iff_toNat_le, not_le] at order
    exact (min_eq_right order.le).symm

namespace EmissionSchedule

def new (baseEmissionPerBlock : ℚ) (blocksPerEpoch : UInt64) (terminalRate maxSupply : ℚ) :
    EmissionSchedule where
  baseEmissionPerBlock := max baseEmissionPerBlock 0
  blocksPerEpoch := max blocksPerEpoch 1
  terminalRate := max terminalRate 0
  maxSupply := max maxSupply 0
  totalMinted := 0

def defaultKorai : EmissionSchedule :=
  new 100 2628000 1 1000000000

variable (schedule : EmissionSchedule)

def recordMint (amount : ℚ) : EmissionSchedule :=
  { schedule with totalMinted := schedule.totalMinted + amount }

def remainingSupply : ℚ :=
  max (schedule.maxSupply - schedule.totalMinted) 0

def epochForBlock (block : UInt64) : Except BlockPanic UInt64 :=
  if schedule.blocksPerEpoch = 0 then .error .divideByZero
  else .ok (block / schedule.blocksPerEpoch)

/-- `epoch as i32` keeps the low 32 bits, so that the exponent may be negative. -/
def halvings (epoch : UInt64) : Int :=
  epoch.toUInt32.toInt32.toInt

def rateAtBlock (block : UInt64) : Except BlockPanic ℚ :=
  if schedule.maxSupply ≤ schedule.totalMinted then .ok 0
  else do
    let epoch ← schedule.epochForBlock block
    return max (schedule.baseEmissionPerBlock * (1 / 2) ^ halvings epoch)
      schedule.terminalRate

/-- Where a turn of the loop ends. -/
def rangeEnd (endBlock block : UInt64) : Except BlockPanic UInt64 := do
  let epoch ← schedule.epochForBlock block
  let next ← checkedBlockAdd epoch 1
  let epochEnd ← checkedBlockMul next schedule.blocksPerEpoch
  return min endBlock epochEnd

/-- The first block after the epoch of a block. -/
def epochEnd (block : Nat) : Nat :=
  (block / schedule.blocksPerEpoch.toNat + 1) * schedule.blocksPerEpoch.toNat

variable {schedule}

theorem lt_epochEnd (someBlocks : schedule.blocksPerEpoch ≠ 0) (block : Nat) :
    block < schedule.epochEnd block := by
  have positive : 0 < schedule.blocksPerEpoch.toNat :=
    Nat.pos_of_ne_zero fun zero => someBlocks (UInt64.toNat_inj.mp zero)
  exact Nat.lt_mul_of_div_lt (Nat.lt_succ_self _) positive

theorem checkedBlockAdd_ok_iff {first second sum : UInt64} :
    checkedBlockAdd first second = .ok sum ↔ sum.toNat = first.toNat + second.toNat := by
  unfold checkedBlockAdd
  have bounded := sum.toNat_lt
  split
  case isTrue fits =>
    rw [Except.ok.injEq, ← UInt64.toNat_inj, UInt64.toNat_add, Nat.mod_eq_of_lt fits, eq_comm]
  case isFalse overflows => exact ⟨nofun, fun same => absurd (same ▸ bounded) overflows⟩

theorem checkedBlockMul_ok_iff {first second product : UInt64} :
    checkedBlockMul first second = .ok product ↔
      product.toNat = first.toNat * second.toNat := by
  unfold checkedBlockMul
  have bounded := product.toNat_lt
  split
  case isTrue fits =>
    rw [Except.ok.injEq, ← UInt64.toNat_inj, UInt64.toNat_mul, Nat.mod_eq_of_lt fits, eq_comm]
  case isFalse overflows => exact ⟨nofun, fun same => absurd (same ▸ bounded) overflows⟩

/-- A turn ends with its epoch or with the range, and the end of the epoch is a block
number. -/
theorem rangeEnd_ok_iff {endBlock block next : UInt64} :
    schedule.rangeEnd endBlock block = .ok next ↔
      schedule.blocksPerEpoch ≠ 0 ∧ schedule.epochEnd block.toNat < 2 ^ 64 ∧
        next.toNat = min endBlock.toNat (schedule.epochEnd block.toNat) := by
  constructor
  · intro found
    obtain ⟨epoch, divided, found⟩ := FallibleSteps.bind_ok found
    obtain ⟨following, added, found⟩ := FallibleSteps.bind_ok found
    obtain ⟨limit, multiplied, found⟩ := FallibleSteps.bind_ok found
    cases found
    rw [epochForBlock] at divided
    split at divided
    case isTrue => cases divided
    case isFalse someBlocks =>
      cases divided
      have value := Iff.mp checkedBlockMul_ok_iff multiplied
      rw [Iff.mp checkedBlockAdd_ok_iff added, UInt64.toNat_div] at value
      change limit.toNat = schedule.epochEnd block.toNat at value
      refine ⟨someBlocks, ?_, ?_⟩
      · exact value ▸ limit.toNat_lt
      · rw [toNat_min, value]
  · rintro ⟨someBlocks, fits, next_eq⟩
    have epochs : block.toNat / schedule.blocksPerEpoch.toNat + 1 < 2 ^ 64 := by
      refine lt_of_le_of_lt (Nat.le_mul_of_pos_right _ ?_) fits
      exact Nat.pos_of_ne_zero fun zero => someBlocks (UInt64.toNat_inj.mp zero)
    have following : (UInt64.ofNat (block.toNat / schedule.blocksPerEpoch.toNat + 1)).toNat =
        block.toNat / schedule.blocksPerEpoch.toNat + 1 := UInt64.toNat_ofNat_of_lt' epochs
    have limit : (UInt64.ofNat (schedule.epochEnd block.toNat)).toNat =
        schedule.epochEnd block.toNat := UInt64.toNat_ofNat_of_lt' fits
    have added : checkedBlockAdd (block / schedule.blocksPerEpoch) 1 =
        .ok (.ofNat (block.toNat / schedule.blocksPerEpoch.toNat + 1)) :=
      Iff.mpr checkedBlockAdd_ok_iff (by rw [following, UInt64.toNat_div]; rfl)
    have multiplied : checkedBlockMul
        (.ofNat (block.toNat / schedule.blocksPerEpoch.toNat + 1)) schedule.blocksPerEpoch =
          .ok (.ofNat (schedule.epochEnd block.toNat)) :=
      Iff.mpr checkedBlockMul_ok_iff (by rw [limit, following]; rfl)
    rw [rangeEnd, epochForBlock, if_neg someBlocks]
    change (checkedBlockAdd _ 1 >>= _) = _
    rw [added]
    change (checkedBlockMul _ _ >>= _) = _
    rw [multiplied]
    change Except.ok (min endBlock _) = _
    rw [Except.ok.injEq, ← UInt64.toNat_inj, toNat_min, limit, next_eq]

theorem lt_rangeEnd {endBlock block next : UInt64} (inside : block < endBlock)
    (found : schedule.rangeEnd endBlock block = .ok next) :
    block.toNat < next.toNat ∧ next.toNat ≤ endBlock.toNat := by
  obtain ⟨someBlocks, _, next_eq⟩ := Iff.mp rangeEnd_ok_iff found
  rw [next_eq]
  refine ⟨lt_min (UInt64.lt_iff_toNat_lt.mp inside) ?_, min_le_left _ _⟩
  exact lt_epochEnd someBlocks _

variable (schedule)

/-- The loop of `emission_for_range`. -/
def emissionFrom (endBlock block : UInt64) (total : ℚ) : Except BlockPanic ℚ :=
  if _inside : block < endBlock then
    match _found : schedule.rangeEnd endBlock block with
    | .error panic => .error panic
    | .ok next =>
        match schedule.rateAtBlock block with
        | .error panic => .error panic
        | .ok rate =>
            emissionFrom endBlock next (total + rate * (next - block).toNat)
  else .ok total
termination_by endBlock.toNat - block.toNat
decreasing_by
  have advanced := lt_rangeEnd _inside _found
  omega

def emissionForRange (startBlock endBlock : UInt64) : Except BlockPanic ℚ :=
  if endBlock ≤ startBlock then .ok 0
  else do
    let total ← schedule.emissionFrom endBlock startBlock 0
    return min total schedule.remainingSupply

/-- The epoch of the last block of a range ends at a block number. -/
def LastEpochFits (startBlock endBlock : UInt64) : Prop :=
  startBlock < endBlock →
    schedule.blocksPerEpoch ≠ 0 ∧ schedule.epochEnd (endBlock.toNat - 1) < 2 ^ 64

def rateOf (block : Nat) : ℚ :=
  ((schedule.rateAtBlock (.ofNat block)).toOption).getD 0

variable {schedule}

theorem rateAtBlock_congr {first second : UInt64}
    (same : first.toNat / schedule.blocksPerEpoch.toNat =
      second.toNat / schedule.blocksPerEpoch.toNat) :
    schedule.rateAtBlock first = schedule.rateAtBlock second := by
  have epochs : first / schedule.blocksPerEpoch = second / schedule.blocksPerEpoch := by
    rw [← UInt64.toNat_inj, UInt64.toNat_div, UInt64.toNat_div, same]
  rw [rateAtBlock, rateAtBlock, epochForBlock, epochForBlock, epochs]

theorem rateAtBlock_eq (someBlocks : schedule.blocksPerEpoch ≠ 0) (block : UInt64) :
    schedule.rateAtBlock block = .ok (schedule.rateOf block.toNat) := by
  rw [rateOf, UInt64.ofNat_toNat]
  unfold rateAtBlock
  split
  case isTrue => rfl
  case isFalse =>
    rw [epochForBlock, if_neg someBlocks]
    rfl

/-- Between a block and the end of its turn the rate does not change. -/
theorem sum_rateOf {endBlock block next : UInt64}
    (found : schedule.rangeEnd endBlock block = .ok next) :
    ∑ other ∈ Finset.Ico block.toNat next.toNat, schedule.rateOf other =
      schedule.rateOf block.toNat * ((next.toNat - block.toNat : Nat) : ℚ) := by
  obtain ⟨someBlocks, _, next_eq⟩ := Iff.mp rangeEnd_ok_iff found
  have constant : ∀ other ∈ Finset.Ico block.toNat next.toNat,
      schedule.rateOf other = schedule.rateOf block.toNat := by
    intro other member
    rw [Finset.mem_Ico] at member
    have bounded : other < 2 ^ 64 := member.2.trans next.toNat_lt
    have value : (UInt64.ofNat other).toNat = other := UInt64.toNat_ofNat_of_lt' bounded
    have within : other < schedule.epochEnd block.toNat := by omega
    have epoch : other / schedule.blocksPerEpoch.toNat =
        block.toNat / schedule.blocksPerEpoch.toNat := by
      apply le_antisymm
      · exact Nat.le_of_lt_succ (Nat.div_lt_of_lt_mul (by rwa [Nat.mul_comm]))
      · exact Nat.div_le_div_right member.1
    have sameEpoch : (UInt64.ofNat other).toNat / schedule.blocksPerEpoch.toNat =
        block.toNat / schedule.blocksPerEpoch.toNat := by rw [value, epoch]
    rw [rateOf, rateOf, UInt64.ofNat_toNat, rateAtBlock_congr sameEpoch]
  rw [Finset.sum_congr rfl constant, Finset.sum_const, Nat.card_Ico, nsmul_eq_mul, mul_comm]

theorem lastEpochFits_iff {endBlock block next : UInt64} (inside : block < endBlock)
    (found : schedule.rangeEnd endBlock block = .ok next) :
    schedule.LastEpochFits next endBlock ↔ schedule.LastEpochFits block endBlock := by
  obtain ⟨someBlocks, fits, next_eq⟩ := Iff.mp rangeEnd_ok_iff found
  obtain ⟨advanced, bounded⟩ := lt_rangeEnd inside found
  constructor
  · intro later _
    by_cases more : next < endBlock
    · exact later more
    · rw [UInt64.lt_iff_toNat_lt] at more
      have epoch : (endBlock.toNat - 1) / schedule.blocksPerEpoch.toNat ≤
          block.toNat / schedule.blocksPerEpoch.toNat := by
        refine Nat.le_of_lt_succ (Nat.div_lt_of_lt_mul ?_)
        rw [Nat.mul_comm]
        change _ < schedule.epochEnd block.toNat
        omega
      refine ⟨someBlocks, lt_of_le_of_lt ?_ fits⟩
      exact Nat.mul_le_mul_right _ (Nat.succ_le_succ epoch)
  · exact fun whole _ => whole inside

theorem rangeEnd_of_fits {endBlock block : UInt64} (inside : block < endBlock)
    (fits : schedule.LastEpochFits block endBlock) :
    ∃ next, schedule.rangeEnd endBlock block = .ok next := by
  obtain ⟨someBlocks, last⟩ := fits inside
  rw [UInt64.lt_iff_toNat_lt] at inside
  have bounded : schedule.epochEnd block.toNat < 2 ^ 64 := by
    refine lt_of_le_of_lt (Nat.mul_le_mul_right _ (Nat.succ_le_succ ?_)) last
    exact Nat.div_le_div_right (by omega)
  refine ⟨min endBlock (.ofNat (schedule.epochEnd block.toNat)), ?_⟩
  refine Iff.mpr rangeEnd_ok_iff ⟨someBlocks, bounded, ?_⟩
  rw [toNat_min, UInt64.toNat_ofNat_of_lt' bounded]

theorem emissionFrom_turn {endBlock block next : UInt64} (inside : block < endBlock)
    (found : schedule.rangeEnd endBlock block = .ok next) (total : ℚ) :
    schedule.emissionFrom endBlock block total =
      schedule.emissionFrom endBlock next (total +
        ∑ other ∈ Finset.Ico block.toNat next.toNat, schedule.rateOf other) := by
  obtain ⟨someBlocks, _, _⟩ := Iff.mp rangeEnd_ok_iff found
  have advanced := (lt_rangeEnd inside found).1
  have blocks : (next - block).toNat = next.toNat - block.toNat :=
    UInt64.toNat_sub_of_le _ _ (UInt64.le_iff_toNat_le.mpr advanced.le)
  rw [emissionFrom, dif_pos inside, sum_rateOf found, ← blocks]
  split
  case h_1 panic failed =>
    rw [found] at failed
    cases failed
  case h_2 other returned =>
    rw [found] at returned
    cases returned
    rw [rateAtBlock_eq someBlocks]

/-- The loop adds the rates of the blocks that are left. -/
theorem emissionFrom_ok_iff {endBlock block : UInt64} {total sum : ℚ} :
    schedule.emissionFrom endBlock block total = .ok sum ↔
      schedule.LastEpochFits block endBlock ∧
        sum = total + ∑ other ∈ Finset.Ico block.toNat endBlock.toNat,
          schedule.rateOf other := by
  induction blocks : endBlock.toNat - block.toNat using Nat.strong_induction_on
    generalizing block total with
  | _ blocks ih =>
      subst blocks
      by_cases inside : block < endBlock
      case neg =>
        have order : endBlock.toNat ≤ block.toNat := by
          rwa [UInt64.lt_iff_toNat_lt, not_lt] at inside
        rw [emissionFrom, dif_neg inside, Finset.Ico_eq_empty (not_lt.mpr order),
          Finset.sum_empty, add_zero, Except.ok.injEq, eq_comm]
        exact (and_iff_right fun within => absurd within inside).symm
      case pos =>
        cases found : schedule.rangeEnd endBlock block with
        | error panic =>
            have failed : schedule.emissionFrom endBlock block total = .error panic := by
              rw [emissionFrom, dif_pos inside]
              split <;> simp_all
            rw [failed]
            refine ⟨nofun, fun law => ?_⟩
            obtain ⟨next, returned⟩ := rangeEnd_of_fits inside law.1
            rw [found] at returned
            cases returned
        | ok next =>
            obtain ⟨advanced, bounded⟩ := lt_rangeEnd inside found
            rw [emissionFrom_turn inside found,
              ih (endBlock.toNat - next.toNat) (by omega) rfl,
              lastEpochFits_iff inside found, add_assoc,
              Finset.sum_Ico_consecutive _ advanced.le bounded]

/-- The emission of a range is what remains of the supply or the sum over the blocks,
whichever is less, and without the cap it is additive. -/
structure RangeLaw (schedule : EmissionSchedule) (startBlock endBlock : UInt64) : Prop where
  emission : ∃ rate : Nat → ℚ,
    (∀ block ∈ Finset.Ico startBlock.toNat endBlock.toNat,
      schedule.rateAtBlock (.ofNat block) = .ok (rate block)) ∧
    schedule.emissionForRange startBlock endBlock =
      .ok (min schedule.remainingSupply
        (∑ block ∈ Finset.Ico startBlock.toNat endBlock.toNat, rate block))
  additive : ∀ middle, startBlock ≤ middle → middle ≤ endBlock → ∃ first second,
    schedule.emissionFrom middle startBlock 0 = .ok first ∧
      schedule.emissionFrom endBlock middle 0 = .ok second ∧
      schedule.emissionFrom endBlock startBlock 0 = .ok (first + second)

theorem LastEpochFits.within {startBlock endBlock first last : UInt64}
    (fits : schedule.LastEpochFits startBlock endBlock) (starts : startBlock ≤ first)
    (ends : last ≤ endBlock) : schedule.LastEpochFits first last := by
  intro inside
  rw [UInt64.le_iff_toNat_le] at starts ends
  rw [UInt64.lt_iff_toNat_lt] at inside
  obtain ⟨someBlocks, bounded⟩ := fits (UInt64.lt_iff_toNat_lt.mpr (by omega))
  refine ⟨someBlocks, lt_of_le_of_lt ?_ bounded⟩
  exact Nat.mul_le_mul_right _ (Nat.succ_le_succ (Nat.div_le_div_right (by omega)))

theorem emissionForRange_ok_iff {startBlock endBlock : UInt64} {emission : ℚ} :
    schedule.emissionForRange startBlock endBlock = .ok emission ↔
      schedule.LastEpochFits startBlock endBlock ∧
        emission = min schedule.remainingSupply
          (∑ block ∈ Finset.Ico startBlock.toNat endBlock.toNat, schedule.rateOf block) := by
  unfold emissionForRange
  split
  case isTrue empty =>
    have order := UInt64.le_iff_toNat_le.mp empty
    rw [Finset.Ico_eq_empty (not_lt.mpr order), Finset.sum_empty,
      min_eq_right (show 0 ≤ schedule.remainingSupply from le_max_right _ _),
      Except.ok.injEq, eq_comm]
    refine (and_iff_right fun inside => ?_).symm
    rw [UInt64.lt_iff_toNat_lt] at inside
    omega
  case isFalse =>
    constructor
    · intro found
      obtain ⟨total, ran, found⟩ := FallibleSteps.bind_ok found
      obtain ⟨fits, rfl⟩ := Iff.mp emissionFrom_ok_iff ran
      cases found
      rw [zero_add, min_comm]
      exact ⟨fits, rfl⟩
    · rintro ⟨fits, rfl⟩
      rw [Iff.mpr emissionFrom_ok_iff ⟨fits, rfl⟩, zero_add, min_comm]
      rfl

/-- The emission of a range is right exactly when the epoch of its last block ends at a
block number. -/
theorem emission_right_iff (schedule : EmissionSchedule) (startBlock endBlock : UInt64) :
    RangeLaw schedule startBlock endBlock ↔ schedule.LastEpochFits startBlock endBlock := by
  constructor
  · rintro ⟨⟨rate, _, emission⟩, _⟩
    exact (Iff.mp emissionForRange_ok_iff emission).1
  · intro fits
    refine ⟨⟨schedule.rateOf, ?_, Iff.mpr emissionForRange_ok_iff ⟨fits, rfl⟩⟩, ?_⟩
    · intro block member
      rw [Finset.mem_Ico] at member
      have inside : startBlock < endBlock := UInt64.lt_iff_toNat_lt.mpr (by omega)
      rw [rateAtBlock_eq (fits inside).1,
        UInt64.toNat_ofNat_of_lt' (member.2.trans endBlock.toNat_lt)]
    · intro middle starts ends
      refine ⟨_, _, Iff.mpr emissionFrom_ok_iff ⟨fits.within (UInt64.le_refl _) ends, rfl⟩,
        Iff.mpr emissionFrom_ok_iff ⟨fits.within starts (UInt64.le_refl _), rfl⟩,
        Iff.mpr emissionFrom_ok_iff ⟨fits, ?_⟩⟩
      rw [zero_add, zero_add, zero_add, Finset.sum_Ico_consecutive]
      · exact UInt64.le_iff_toNat_le.mp starts
      · exact UInt64.le_iff_toNat_le.mp ends

/-- The epoch of the last block but one ends beyond the largest block number. -/
theorem last_epoch_overflows :
    ¬ ∀ startBlock endBlock : UInt64, startBlock ≤ endBlock →
      RangeLaw defaultKorai startBlock endBlock := by
  intro claimed
  obtain ⟨⟨rate, _, emission⟩, _⟩ :=
    claimed 18446744073709551614 18446744073709551615 (by decide)
  have failed : defaultKorai.emissionForRange 18446744073709551614 18446744073709551615 =
      .error .overflow := by
    have found : defaultKorai.rangeEnd 18446744073709551615 18446744073709551614 =
        .error .overflow := by decide
    rw [emissionForRange, if_neg (by decide), emissionFrom, dif_pos (by decide)]
    split <;> simp_all
  rw [failed] at emission
  cases emission

end EmissionSchedule

end Roko
