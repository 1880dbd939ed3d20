import Roko.GreedyFills
import Roko.PromptComposer
import Mathlib.Algebra.Order.Field.Basic
import Mathlib.Algebra.Order.Ring.Rat

/-!
# The VCG auction

`vcg_allocate` of `roko-compose/src/auction.rs`, with its payments and diagnostics.  Bids are
`f64`, read as exact rationals, and the density of a bid for no tokens is infinite.

A bid that is excluded is no larger than a winner of at least its size: the winner stands
before it in the order of densities.  The payments and the optimality check both rest on
this.
-/

namespace Roko

structure SectionAllocation where
  name : String
  value : ℚ
  tokens : Nat

structure AuctionDiagnostics where
  totalWelfare : ℚ
  totalPayments : ℚ
  welfareLoss : ℚ
  paretoOptimal : Bool
  highestPaymentSections : List (String × ℚ)
  displacedSections : List (String × ℚ)
  budgetUtilization : ℚ

structure FullVcgAllocation extends VcgAllocation ℚ where
  payments : List (String × ℚ)
  budgetUtilization : ℚ
  diagnostics : AuctionDiagnostics

namespace VcgAuction

def density (bid : VcgBid ℚ) : WithTop ℚ :=
  if 0 < bid.tokens then ((bid.adjustedBid / bid.tokens : ℚ) : WithTop ℚ) else ⊤

/-- The order of the bids: by value density, descending. -/
def DenserFirst (first second : VcgBid ℚ) : Prop :=
  density second ≤ density first

instance : DecidableRel DenserFirst :=
  fun first second => inferInstanceAs (Decidable (density second ≤ density first))

instance : Std.Total DenserFirst :=
  ⟨fun first second => le_total (density second) (density first)⟩

instance : IsTrans (VcgBid ℚ) DenserFirst :=
  ⟨fun _ _ _ denser denser' => le_trans denser' denser⟩

def isParetoOptimal (included excluded : List SectionAllocation) (budgetRemaining : Nat) : Bool :=
  excluded.all fun excludedSection =>
    !decide (excludedSection.tokens ≤ budgetRemaining) &&
      included.all fun includedSection =>
        !(decide (includedSection.value < excludedSection.value) &&
          decide (excludedSection.tokens ≤ includedSection.tokens))

def sectionAllocation (bid : VcgBid ℚ) : SectionAllocation where
  name := bid.sectionName
  value := bid.adjustedBid
  tokens := bid.tokens

/-- The highest excluded bid for no more tokens than a winner has. -/
def paymentOf (excluded : List (VcgBid ℚ)) (winner : VcgBid ℚ) : ℚ :=
  ((excluded.filter fun bid => bid.tokens ≤ winner.tokens).map (·.adjustedBid)).foldl max 0

def vcgAllocate (bids : List (VcgBid ℚ)) (totalBudget : Nat) : FullVcgAllocation :=
  if bids.isEmpty || totalBudget = 0 then
    { winners := []
      excluded := bids
      totalTokensUsed := 0
      payments := []
      budgetUtilization := 0
      diagnostics := ⟨0, 0, 0, true, [], [], 0⟩ }
  else
    let sorted := bids.insertionSort DenserFirst
    let winners := (Selections.fill VcgBid.tokens totalBudget sorted).1
    let excluded := (Selections.fill VcgBid.tokens totalBudget sorted).2
    let totalUsed := (winners.map VcgBid.tokens).sum
    let payments := winners.map fun winner => (winner.sectionName, paymentOf excluded winner)
    let budgetUtilization : ℚ := totalUsed / totalBudget
    { winners
      excluded
      totalTokensUsed := totalUsed
      payments
      budgetUtilization
      diagnostics :=
        { totalWelfare := (winners.map (·.adjustedBid)).sum
          totalPayments := (payments.map Prod.snd).sum
          welfareLoss := (excluded.map (·.adjustedBid)).sum
          paretoOptimal := isParetoOptimal (winners.map sectionAllocation)
            (excluded.map sectionAllocation) (totalBudget - totalUsed)
          highestPaymentSections := payments.filter fun payment => 0 < payment.2
          displacedSections := excluded.map fun bid => (bid.sectionName, bid.adjustedBid)
          budgetUtilization } }

/-- The places of the winners in the list of the bids. -/
def winningPositions (bids : List (VcgBid ℚ)) (totalBudget : Nat) : List (Fin bids.length) :=
  if bids.isEmpty || totalBudget = 0 then []
  else (Selections.fill (fun position => (bids.get position).tokens) totalBudget
    ((List.finRange bids.length).insertionSort fun first second =>
      DenserFirst (bids.get first) (bids.get second))).1

section Laws

variable {bids : List (VcgBid ℚ)} {totalBudget : Nat}

theorem winners_eq (bids : List (VcgBid ℚ)) (totalBudget : Nat) :
    (vcgAllocate bids totalBudget).winners =
      (winningPositions bids totalBudget).map bids.get := by
  unfold vcgAllocate winningPositions
  split
  case isTrue => rfl
  case isFalse =>
    have sorted : bids.insertionSort DenserFirst =
        ((List.finRange bids.length).insertionSort fun first second =>
          DenserFirst (bids.get first) (bids.get second)).map bids.get := by
      conv_lhs => rw [← List.map_get_finRange bids]
      exact (List.map_insertionSort _ _ bids.get _ fun _ _ _ _ => Iff.rfl).symm
    dsimp only
    rw [sorted, GreedyFill.fill_map]
    rfl

theorem allocated_perm (bids : List (VcgBid ℚ)) (totalBudget : Nat) :
    ((vcgAllocate bids totalBudget).winners ++ (vcgAllocate bids totalBudget).excluded).Perm
      bids := by
  unfold vcgAllocate
  split
  case isTrue => exact List.Perm.refl _
  case isFalse => exact (GreedyFill.fill_perm _ _).trans (List.perm_insertionSort _ _)

/-- A winner outbids what is excluded and no larger. -/
theorem adjustedBid_le {winner loser : VcgBid ℚ} (paying : 0 ≤ winner.adjustedBid)
    (won : winner ∈ (vcgAllocate bids totalBudget).winners)
    (lost : loser ∈ (vcgAllocate bids totalBudget).excluded)
    (larger : loser.tokens ≤ winner.tokens) : loser.adjustedBid ≤ winner.adjustedBid := by
  unfold vcgAllocate at won lost
  split at won
  case isTrue => simp at won
  case isFalse =>
    rw [if_neg (by assumption)] at lost
    obtain ⟨front, back, sorted, before⟩ :=
      GreedyFill.taken_before_left won lost larger
    have some : 0 < loser.tokens := by
      by_contra none
      have more := GreedyFill.lt_of_mem_left lost
      have within := GreedyFill.spent_le VcgBid.tokens totalBudget
        (bids.insertionSort DenserFirst)
      omega
    have order := List.pairwise_insertionSort DenserFirst bids
    rw [sorted, List.pairwise_append] at order
    have denser : DenserFirst winner loser := order.2.2 winner before loser (by simp)
    rw [DenserFirst, density, density, if_pos some, if_pos (some.trans_le larger),
      WithTop.coe_le_coe] at denser
    have positive : (0 : ℚ) < loser.tokens := by exact_mod_cast some
    have positive' : (0 : ℚ) < winner.tokens := by exact_mod_cast some.trans_le larger
    rw [div_le_div_iff₀ positive positive'] at denser
    have sizes : (loser.tokens : ℚ) ≤ winner.tokens := by exact_mod_cast larger
    have product : winner.adjustedBid * loser.tokens ≤ winner.adjustedBid * winner.tokens :=
      mul_le_mul_of_nonneg_left sizes paying
    exact le_of_mul_le_mul_right (denser.trans product) positive'

theorem foldl_max_le {values : List ℚ} {start bound : ℚ} (first : start ≤ bound)
    (all : ∀ value ∈ values, value ≤ bound) : values.foldl max start ≤ bound := by
  induction values generalizing start with
  | nil => exact first
  | cons value values ih =>
      refine ih (max_le first (all value (by simp))) ?_
      exact fun later member => all later (List.mem_cons_of_mem _ member)

theorem paymentOf_le {winner : VcgBid ℚ} (paying : 0 ≤ winner.adjustedBid)
    (won : winner ∈ (vcgAllocate bids totalBudget).winners) :
    paymentOf (vcgAllocate bids totalBudget).excluded winner ≤ winner.adjustedBid := by
  refine foldl_max_le paying fun value member => ?_
  obtain ⟨loser, lost, rfl⟩ := List.mem_map.mp member
  rw [List.mem_filter, decide_eq_true_eq] at lost
  exact adjustedBid_le paying won lost.1 lost.2

theorem payments_eq (bids : List (VcgBid ℚ)) (totalBudget : Nat) :
    (vcgAllocate bids totalBudget).payments =
      (vcgAllocate bids totalBudget).winners.map fun winner =>
        (winner.sectionName, paymentOf (vcgAllocate bids totalBudget).excluded winner) := by
  unfold vcgAllocate
  split <;> rfl

theorem tokens_eq (bids : List (VcgBid ℚ)) (totalBudget : Nat) :
    (vcgAllocate bids totalBudget).totalTokensUsed =
      ((vcgAllocate bids totalBudget).winners.map VcgBid.tokens).sum := by
  unfold vcgAllocate
  split <;> rfl

theorem tokens_le (bids : List (VcgBid ℚ)) (totalBudget : Nat) :
    ((vcgAllocate bids totalBudget).winners.map VcgBid.tokens).sum ≤ totalBudget := by
  unfold vcgAllocate
  split
  case isTrue => exact Nat.zero_le _
  case isFalse => exact Selections.sum_fill_le _ _ _

theorem paretoOptimal_eq (someBudget : 0 < totalBudget) (someBids : bids ≠ []) :
    (vcgAllocate bids totalBudget).diagnostics.paretoOptimal =
      isParetoOptimal ((vcgAllocate bids totalBudget).winners.map sectionAllocation)
        ((vcgAllocate bids totalBudget).excluded.map sectionAllocation)
        (totalBudget - ((vcgAllocate bids totalBudget).winners.map VcgBid.tokens).sum) := by
  have runs : ¬ (bids.isEmpty || decide (totalBudget = 0)) = true := by
    simp [someBids, someBudget.ne']
  unfold vcgAllocate
  rw [if_neg runs]

theorem remaining_lt {loser : VcgBid ℚ} (someBudget : 0 < totalBudget) (someBids : bids ≠ [])
    (lost : loser ∈ (vcgAllocate bids totalBudget).excluded) :
    totalBudget - ((vcgAllocate bids totalBudget).winners.map VcgBid.tokens).sum <
      loser.tokens := by
  have runs : ¬ (bids.isEmpty || decide (totalBudget = 0)) = true := by
    simp [someBids, someBudget.ne']
  unfold vcgAllocate at lost ⊢
  rw [if_neg runs] at lost ⊢
  have large := GreedyFill.lt_of_mem_left lost
  have within := GreedyFill.spent_le VcgBid.tokens totalBudget
    (bids.insertionSort DenserFirst)
  rw [GreedyFill.spent] at large within
  dsimp only
  omega

theorem paretoOptimal (paying : ∀ bid ∈ bids, 0 ≤ bid.adjustedBid) (totalBudget : Nat) :
    (vcgAllocate bids totalBudget).diagnostics.paretoOptimal = true := by
  by_cases nothing : bids = [] ∨ totalBudget = 0
  case pos =>
    have runs : (bids.isEmpty || decide (totalBudget = 0)) = true := by simpa using nothing
    unfold vcgAllocate
    rw [if_pos runs]
  case neg =>
    obtain ⟨someBids, someBudget⟩ := not_or.mp nothing
    rw [paretoOptimal_eq (Nat.pos_of_ne_zero someBudget) someBids, isParetoOptimal,
      List.all_eq_true]
    intro excluded member
    obtain ⟨loser, lost, rfl⟩ := List.mem_map.mp member
    have large := remaining_lt (Nat.pos_of_ne_zero someBudget) someBids lost
    rw [Bool.and_eq_true, List.all_eq_true]
    refine ⟨Bool.not_eq_true' _ |>.mpr (decide_eq_false (not_le.mpr large)), ?_⟩
    intro included member
    obtain ⟨winner, won, rfl⟩ := List.mem_map.mp member
    have isBid : winner ∈ bids :=
      (allocated_perm bids totalBudget).subset (List.mem_append_left _ won)
    have outbids := adjustedBid_le (paying winner isBid) won lost
    rw [Bool.not_eq_true', Bool.and_eq_false_iff]
    by_cases larger : loser.tokens ≤ winner.tokens
    · exact Or.inl (decide_eq_false (not_lt.mpr (outbids larger)))
    · exact Or.inr (decide_eq_false larger)

/-- The bid that stands between two parts of the list of bids is a winner. -/
def Wins (totalBudget : Nat) (before : List (VcgBid ℚ)) (bid : VcgBid ℚ)
    (after : List (VcgBid ℚ)) : Prop :=
  ∃ position ∈ winningPositions (before ++ bid :: after) totalBudget,
    position.val = before.length

/-- The bids with a mark at one of them. -/
def marked (before : List (VcgBid ℚ)) (bid : VcgBid ℚ) (after : List (VcgBid ℚ)) :
    List (VcgBid ℚ × Bool) :=
  before.map (·, false) ++ (bid, true) :: after.map (·, false)

theorem marked_eq (before : List (VcgBid ℚ)) (bid : VcgBid ℚ) (after : List (VcgBid ℚ)) :
    marked before bid after =
      (List.finRange (before ++ bid :: after).length).map fun position =>
        ((before ++ bid :: after).get position, decide (position.val = before.length)) := by
  refine List.ext_getElem (by simp [marked]) fun index inside inside' => ?_
  simp only [marked, List.getElem_map, List.getElem_finRange, List.get_eq_getElem,
    List.getElem_append, List.getElem_cons, List.length_map, Fin.val_cast]
  split
  case isTrue earlier => simp [earlier.ne]
  case isFalse later =>
    split
    case isTrue here =>
      have same : index = before.length := by omega
      simp [same]
    case isFalse past =>
      have different : index ≠ before.length := by omega
      simp [different]

theorem wins_iff (someBudget : 0 < totalBudget) (before : List (VcgBid ℚ)) (bid : VcgBid ℚ)
    (after : List (VcgBid ℚ)) :
    Wins totalBudget before bid after ↔
      (bid, true) ∈ (Selections.fill (VcgBid.tokens ∘ Prod.fst) totalBudget
        ((marked before bid after).insertionSort fun first second =>
          DenserFirst first.1 second.1)).1 := by
  have runs : ¬ ((before ++ bid :: after).isEmpty || decide (totalBudget = 0)) = true := by
    simp [someBudget.ne']
  have sorted : (marked before bid after).insertionSort (fun first second =>
      DenserFirst first.1 second.1) = ((List.finRange (before ++ bid :: after).length).insertionSort
        fun first second => DenserFirst ((before ++ bid :: after).get first)
          ((before ++ bid :: after).get second)).map fun position =>
            ((before ++ bid :: after).get position, decide (position.val = before.length)) := by
    rw [marked_eq]
    exact (List.map_insertionSort _ (fun first second : VcgBid ℚ × Bool =>
      DenserFirst first.1 second.1) _ _ fun _ _ _ _ => Iff.rfl).symm
  rw [Wins, winningPositions, if_neg runs, sorted, GreedyFill.fill_map, List.mem_map]
  refine exists_congr fun position => and_congr_right fun _ => ?_
  rw [Prod.mk.injEq, decide_eq_true_eq]
  refine ⟨fun here => ⟨?_, here⟩, And.right⟩
  simp [here]

theorem density_le {bid : VcgBid ℚ} {higher : ℚ} (raised : bid.adjustedBid ≤ higher) :
    density bid ≤ density { bid with adjustedBid := higher } := by
  unfold density
  split
  case isTrue => exact WithTop.coe_le_coe.mpr (div_le_div_of_nonneg_right raised (Nat.cast_nonneg _))
  case isFalse => exact le_rfl

theorem countP_marked (read : VcgBid ℚ × Bool → Bool) (bids : List (VcgBid ℚ)) :
    (bids.map fun bid => (bid, false)).countP read =
      bids.countP fun bid => read (bid, false) := by
  rw [List.countP_map]
  rfl

/-- The bids at least as dense as a value are the denser ones and those of just that density. -/
theorem countP_le_density (value : WithTop ℚ) (bids : List (VcgBid ℚ)) :
    bids.countP (fun bid => value ≤ density bid) =
      bids.countP (fun bid => value < density bid) +
        bids.countP (fun bid => density bid = value) := by
  induction bids with
  | nil => rfl
  | cons bid bids ih =>
      simp only [List.countP_cons, ih, decide_eq_true_eq]
      rcases lt_trichotomy value (density bid) with less | same | more
      · simp only [less, less.le, less.ne', if_true, if_false]
        omega
      · simp only [← same, le_refl, lt_irrefl, if_true, if_false]
        omega
      · simp only [not_le.mpr more, more.not_gt, more.ne, if_false]
        omega

/-- No more bids come before a bid that is raised and does not fall back among its equals. -/
theorem ahead_le {before after before' after' : List (VcgBid ℚ)} {old new : WithTop ℚ}
    (others : before' ++ after' = before ++ after) (denser : old ≤ new)
    (noLater : new = old → before'.countP (fun other => density other = old) ≤
      before.countP (fun other => density other = old)) :
    before'.countP (fun other => new ≤ density other) +
        after'.countP (fun other => new < density other) ≤
      before.countP (fun other => old ≤ density other) +
        after.countP (fun other => old < density other) := by
  have whole (value : WithTop ℚ) := congrArg (List.countP fun other => value < density other) others
  simp only [List.countP_append] at whole
  rcases denser.eq_or_lt with rfl | denser
  case inl =>
    have same := whole old
    have few := noLater rfl
    rw [countP_le_density, countP_le_density]
    omega
  case inr =>
    have above (bids : List (VcgBid ℚ)) : bids.countP (fun other => new ≤ density other) ≤
        bids.countP fun other => old < density other :=
      List.countP_mono_left fun _ _ dense =>
        decide_eq_true (denser.trans_le (of_decide_eq_true dense))
    have same := whole old
    have front := above before'
    have back := above after'
    rw [countP_le_density new after'] at back
    rw [countP_le_density old before]
    omega

/-- A winner that bids more, and stands no later among its equals, is still a winner. -/
theorem wins_of_le {before after before' after' : List (VcgBid ℚ)} {bid : VcgBid ℚ} {higher : ℚ}
    (others : before' ++ after' = before ++ after) (raised : bid.adjustedBid ≤ higher)
    (noLater : density { bid with adjustedBid := higher } = density bid →
      before'.countP (fun other => density other = density bid) ≤
        before.countP (fun other => density other = density bid))
    (won : Wins totalBudget before bid after) :
    Wins totalBudget before' { bid with adjustedBid := higher } after' := by
  rcases Nat.eq_zero_or_pos totalBudget with rfl | someBudget
  · obtain ⟨position, member, _⟩ := won
    simp [winningPositions] at member
  rw [wins_iff someBudget] at won ⊢
  have : Std.Total fun first second : VcgBid ℚ × Bool => DenserFirst first.1 second.1 :=
    ⟨fun first second => total_of DenserFirst first.1 second.1⟩
  have : IsTrans (VcgBid ℚ × Bool) fun first second => DenserFirst first.1 second.1 :=
    ⟨fun _ _ _ denser denser' => trans_of DenserFirst denser denser'⟩
  unfold marked at won ⊢
  refine GreedyFill.taken_of_moved ({ bid with adjustedBid := higher }, true) ?_ ?_ ?_ ?_ won
  · rw [← List.map_append, ← List.map_append, others]
  · simp
  · rfl
  · simp only [countP_marked, DenserFirst, not_le]
    exact ahead_le others (density_le raised) noLater

/-- The auction of the prompt composer is this one where its prices order the bids as exact
densities do. -/
theorem composer_allocates {Signal F : Type} (pricing : Pricing Signal F)
    (price : VcgBid ℚ → VcgBid F) (tokens : ∀ bid, (price bid).tokens = bid.tokens)
    (order : ∀ first second,
      PromptComposer.denserFirst pricing (price first) (price second) = true ↔
        DenserFirst first second)
    (bids : List (VcgBid ℚ)) (totalBudget : Nat) :
    PromptComposer.vcgAllocate pricing (bids.map price) totalBudget =
      { winners := (vcgAllocate bids totalBudget).winners.map price
        excluded := (vcgAllocate bids totalBudget).excluded.map price
        totalTokensUsed := (vcgAllocate bids totalBudget).totalTokensUsed } := by
  unfold PromptComposer.vcgAllocate vcgAllocate
  rw [List.isEmpty_map]
  split
  case isTrue => rfl
  case isFalse =>
    have sorted : (bids.map price).insertionSort (fun first second =>
        PromptComposer.denserFirst pricing first second = true) =
          (bids.insertionSort DenserFirst).map price :=
      (List.map_insertionSort _ _ price _ fun first _ second _ => (order first second).symm).symm
    have sizes : VcgBid.tokens ∘ price = VcgBid.tokens := funext tokens
    dsimp only
    rw [sorted, GreedyFill.fill_map, sizes, List.map_map, sizes]

/-- What the auction of some bids promises. -/
structure AuctionLaw (bids : List (VcgBid ℚ)) (totalBudget : Nat) : Prop where
  split : ((vcgAllocate bids totalBudget).winners ++
    (vcgAllocate bids totalBudget).excluded).Perm bids
  within : (vcgAllocate bids totalBudget).totalTokensUsed =
      ((vcgAllocate bids totalBudget).winners.map VcgBid.tokens).sum ∧
    (vcgAllocate bids totalBudget).totalTokensUsed ≤ totalBudget
  charged : List.Forall₂ (fun winner payment =>
      payment.1 = winner.sectionName ∧ payment.2 ≤ winner.adjustedBid)
    (vcgAllocate bids totalBudget).winners (vcgAllocate bids totalBudget).payments
  optimal : (vcgAllocate bids totalBudget).diagnostics.paretoOptimal = true
  /-- The winners are the bids at the winning places. -/
  places : (vcgAllocate bids totalBudget).winners =
      (winningPositions bids totalBudget).map bids.get ∧
    (winningPositions bids totalBudget).Nodup
  /-- A winner that bids more, and stands no later among its equals, is still a winner. -/
  monotone : ∀ (before after before' after' : List (VcgBid ℚ)) (bid : VcgBid ℚ) (higher : ℚ),
    bids = before ++ bid :: after → before' ++ after' = before ++ after →
      bid.adjustedBid ≤ higher →
      (density { bid with adjustedBid := higher } = density bid →
        before'.countP (fun other => density other = density bid) ≤
          before.countP (fun other => density other = density bid)) →
      Wins totalBudget before bid after →
        Wins totalBudget before' { bid with adjustedBid := higher } after'

theorem winningPositions_nodup (bids : List (VcgBid ℚ)) (totalBudget : Nat) :
    (winningPositions bids totalBudget).Nodup := by
  unfold winningPositions
  split
  case isTrue => exact List.nodup_nil
  case isFalse =>
    have apart : ((List.finRange bids.length).insertionSort fun first second =>
        DenserFirst (bids.get first) (bids.get second)).Nodup :=
      (List.perm_insertionSort _ _).nodup_iff.mpr (List.nodup_finRange _)
    exact List.Nodup.of_append_left ((GreedyFill.fill_perm _ _).nodup_iff.mpr apart)

theorem vcg_lawful (bids : List (VcgBid ℚ)) (totalBudget : Nat)
    (paying : ∀ bid ∈ bids, 0 ≤ bid.adjustedBid) : AuctionLaw bids totalBudget where
  split := allocated_perm bids totalBudget
  within := by
    rw [tokens_eq]
    exact ⟨rfl, tokens_le bids totalBudget⟩
  charged := by
    rw [payments_eq, List.forall₂_map_right_iff, List.forall₂_same]
    intro winner won
    have isBid : winner ∈ bids :=
      (allocated_perm bids totalBudget).subset (List.mem_append_left _ won)
    exact ⟨rfl, paymentOf_le (paying winner isBid) won⟩
  optimal := paretoOptimal paying totalBudget
  places := ⟨winners_eq bids totalBudget, winningPositions_nodup bids totalBudget⟩
  monotone := by
    intro before after before' after' bid higher _ others raised noLater won
    exact wins_of_le others raised noLater won

/-- Two sections compete for the same tokens, and a third costs none. -/
theorem competing_lawful :
    AuctionLaw [⟨.taskContext, "notes", 3, 2, 2⟩, ⟨.taskContext, "plan", 3, 5, 5⟩,
      ⟨.taskContext, "title", 0, 0, 0⟩] 4 :=
  vcg_lawful _ 4 (by decide +kernel)

end Laws

end VcgAuction

end Roko
