import Mathlib.Algebra.Order.BigOperators.Group.List
import Mathlib.Algebra.Order.Group.Nat
import Roko.PromptComposer

/-!
# The auctions of a prompt composer

The greedy selection takes each candidate at most once, and only while it fits.  The VCG
selection maps its winners back to candidates by their ids, and does the same when no two
candidates share an id.
-/

namespace Roko

namespace PromptComposer

variable {Signal F : Type}

/-- The section of a candidate, with its signal. -/
def sectionOf (candidate : AuctionCandidate Signal F) : PromptSection × Signal :=
  (candidate.fragment, candidate.sourceSignal)

/-- An auction that takes each candidate at most once, and no more than there is room for. -/
structure SoundAuction (auction : Auction Signal F)
    (optional : List (PromptSection × Signal)) (remainingTokens remainingSignals : Nat) :
    Prop where
  candidates : (auction.candidates.map sectionOf).Perm optional
  distinct : (auction.selected.map (·.candidateIndex)).Nodup
  fits : tokensOf auction.taken ≤ remainingTokens
  few : auction.selected.length ≤ remainingSignals

theorem taken_eq_pick (auction : Auction Signal F) :
    auction.taken = (Selections.pick auction.candidates
      (auction.selected.map (·.candidateIndex))).map sectionOf := by
  rw [Selections.pick, List.map_map, List.map_map]
  rfl

/-- What a sound auction takes and leaves are the optional sections. -/
theorem SoundAuction.taken_append_left {auction : Auction Signal F}
    {optional : List (PromptSection × Signal)} {remainingTokens remainingSignals : Nat}
    (sound : SoundAuction auction optional remainingTokens remainingSignals) :
    (auction.taken ++ (Selections.leave auction.candidates
      (auction.selected.map (·.candidateIndex))).map sectionOf).Perm optional := by
  rw [taken_eq_pick, ← List.map_append]
  exact ((Selections.pick_append_leave sound.distinct).map sectionOf).trans sound.candidates

/-- A section is taken at most as often as it is optional. -/
theorem SoundAuction.count_taken_le {auction : Auction Signal F}
    {optional : List (PromptSection × Signal)} {remainingTokens remainingSignals : Nat}
    (sound : SoundAuction auction optional remainingTokens remainingSignals)
    (fragment : PromptSection) :
    (auction.taken.map Prod.fst).count fragment ≤ (optional.map Prod.fst).count fragment := by
  rw [← (sound.taken_append_left.map Prod.fst).count_eq, List.map_append, List.count_append]
  exact Nat.le_add_right _ _

theorem SoundAuction.of_perm {auction : Auction Signal F}
    {first second : List (PromptSection × Signal)} {remainingTokens remainingSignals : Nat}
    (sound : SoundAuction auction first remainingTokens remainingSignals)
    (perm : first.Perm second) :
    SoundAuction auction second remainingTokens remainingSignals :=
  { sound with candidates := sound.candidates.trans perm }

@[simp]
theorem tokensOf_append (first second : List (PromptSection × Signal)) :
    tokensOf (first ++ second) = tokensOf first + tokensOf second := by
  simp [tokensOf]

theorem tokensOf_filter_le (chosen : PromptSection × Signal → Bool)
    (given : List (PromptSection × Signal)) : tokensOf (given.filter chosen) ≤ tokensOf given :=
  List.Sublist.sum_le_sum (List.filter_sublist.map _) fun _ _ => Nat.zero_le _

theorem tokensOf_perm {first second : List (PromptSection × Signal)}
    (perm : first.Perm second) : tokensOf first = tokensOf second :=
  (perm.map _).sum_eq

section Greedy

variable {pricing : Pricing Signal F} {candidates : List (AuctionCandidate Signal F)}
  {remainingTokens remainingSignals : Nat}

/-- The tokens of the candidates that are selected. -/
def spent (selected : List (SelectedCandidate candidates.length F)) : Nat :=
  (selected.map fun winner =>
    (candidates.get winner.candidateIndex).fragment.estimatedTokens).sum

@[simp]
theorem spent_append (first second : List (SelectedCandidate candidates.length F)) :
    spent (first ++ second) = spent first + spent second := by
  simp [spent]

theorem spent_eq_sum (selected : List (SelectedCandidate candidates.length F)) :
    spent selected = ((selected.map (·.candidateIndex)).map fun index =>
      (candidates.get index).fragment.estimatedTokens).sum := by
  rw [List.map_map]
  rfl

theorem tokensOf_taken (selected : List (SelectedCandidate candidates.length F)) :
    tokensOf (Auction.taken ⟨candidates, selected⟩) = spent selected := by
  rw [tokensOf, Auction.taken, List.map_map]
  rfl

/-- The best candidate is one of those that remain, and it fits. -/
theorem bestCandidate_fits {bidderWins : AttentionBidder → Nat} {usedTokens : Nat}
    {remaining : List (Fin candidates.length)} {winner : Fin candidates.length} {winnerBid : F}
    (best : bestCandidate pricing candidates remainingTokens bidderWins usedTokens remaining =
      (some winner, winnerBid)) :
    winner ∈ remaining ∧
      usedTokens + (candidates.get winner).fragment.estimatedTokens ≤ remainingTokens := by
  let Fits (best : Option (Fin candidates.length) × F) : Prop :=
    ∀ winner, best.1 = some winner → winner ∈ remaining ∧
      usedTokens + (candidates.get winner).fragment.estimatedTokens ≤ remainingTokens
  have fits : Fits (bestCandidate pricing candidates remainingTokens bidderWins usedTokens
      remaining) := by
    refine List.foldlRecOn remaining _ (motive := Fits) ?_ ?_
    · intro winner first
      cases first
    · intro best before index member winner after
      split at after
      · exact before winner after
      · dsimp only at after
        split at after
        · cases after
          exact ⟨member, by omega⟩
        · exact before winner after
  exact fits winner (by rw [best])

/-- The state of the greedy loop: no candidate is selected twice or is selected and remains,
and what is selected is within the limits. -/
structure SoundSelection (remainingTokens remainingSignals usedTokens : Nat)
    (selected : List (SelectedCandidate candidates.length F))
    (remaining : List (Fin candidates.length)) : Prop where
  distinct : (selected.map (·.candidateIndex) ++ remaining).Nodup
  spent : spent selected = usedTokens
  fits : usedTokens ≤ remainingTokens
  few : selected.length ≤ remainingSignals

theorem SoundSelection.select {usedTokens : Nat}
    {selected : List (SelectedCandidate candidates.length F)}
    {remaining : List (Fin candidates.length)}
    (sound : SoundSelection remainingTokens remainingSignals usedTokens selected remaining)
    {winner : Fin candidates.length} {winnerBid : F} (member : winner ∈ remaining)
    (fits : usedTokens + (candidates.get winner).fragment.estimatedTokens ≤ remainingTokens)
    (few : selected.length < remainingSignals) :
    SoundSelection remainingTokens remainingSignals
      (usedTokens + (candidates.get winner).fragment.estimatedTokens)
      (selected ++ [⟨winner, winnerBid⟩]) (remaining.filter fun index => index ≠ winner) where
  distinct := by
    have distinct := sound.distinct
    rw [List.nodup_append] at distinct
    obtain ⟨first, second, apart⟩ := distinct
    rw [List.map_append, List.append_assoc, List.nodup_append]
    refine ⟨first, ?_, ?_⟩
    · rw [List.map_singleton, List.singleton_append, List.nodup_cons]
      exact ⟨by simp, second.filter _⟩
    · intro index selectedIndex other otherMember
      rw [List.map_singleton, List.singleton_append, List.mem_cons] at otherMember
      rcases otherMember with rfl | otherMember
      · exact apart index selectedIndex _ member
      · exact apart index selectedIndex other (List.mem_filter.mp otherMember).1
  spent := by
    rw [spent_append, sound.spent]
    rfl
  fits := fits
  few := by
    rw [List.length_append, List.length_singleton]
    omega

/-- What the loop selects is sound, whatever the number of turns. -/
theorem selectLoop_sound {turns : Nat} {bidderWins : AttentionBidder → Nat} {usedTokens : Nat}
    {selected : List (SelectedCandidate candidates.length F)}
    {remaining : List (Fin candidates.length)}
    (sound : SoundSelection remainingTokens remainingSignals usedTokens selected remaining) :
    ∃ spentTokens left, SoundSelection remainingTokens remainingSignals spentTokens
      (selectLoop pricing candidates remainingTokens remainingSignals turns bidderWins usedTokens
        selected remaining) left := by
  induction turns generalizing bidderWins usedTokens selected remaining with
  | zero => exact ⟨usedTokens, remaining, sound⟩
  | succ turns ih =>
      rw [selectLoop]
      split
      case isTrue => exact ⟨usedTokens, remaining, sound⟩
      case isFalse proceed =>
        simp only [Bool.or_eq_true, decide_eq_true_eq, not_or, Nat.not_le] at proceed
        split
        case h_1 => exact ⟨usedTokens, remaining, sound⟩
        case h_2 winner winnerBid best =>
          split
          case isTrue => exact ⟨usedTokens, remaining, sound⟩
          case isFalse =>
            obtain ⟨member, fits⟩ := bestCandidate_fits best
            exact ih (sound.select member fits proceed.2)

/-- Once every candidate that remains has its turn, more turns select nothing more. -/
theorem selectLoop_succ {turns : Nat} {bidderWins : AttentionBidder → Nat} {usedTokens : Nat}
    {selected : List (SelectedCandidate candidates.length F)}
    {remaining : List (Fin candidates.length)} (enough : remaining.length ≤ turns) :
    selectLoop pricing candidates remainingTokens remainingSignals (turns + 1) bidderWins
        usedTokens selected remaining =
      selectLoop pricing candidates remainingTokens remainingSignals turns bidderWins usedTokens
        selected remaining := by
  induction turns generalizing bidderWins usedTokens selected remaining with
  | zero =>
      have empty : remaining = [] := List.eq_nil_of_length_eq_zero (by omega)
      subst empty
      rfl
  | succ turns ih =>
      rw [selectLoop, selectLoop]
      split
      · rfl
      · split
        case h_1 => rfl
        case h_2 winner winnerBid best =>
          split
          · rfl
          · have fewer : (remaining.filter fun index => index ≠ winner).length <
                remaining.length :=
              List.length_filter_lt_length_iff_exists.mpr
                ⟨winner, (bestCandidate_fits best).1, by simp⟩
            exact ih (by omega)

/-- The number of turns that the selection is given is enough. -/
theorem selectOptionalCandidates_eq (pricing : Pricing Signal F)
    (candidates : List (AuctionCandidate Signal F)) (remainingTokens remainingSignals : Nat)
    {turns : Nat} (enough : candidates.length ≤ turns) :
    selectLoop pricing candidates remainingTokens remainingSignals turns (fun _ => 0) 0 []
        (List.finRange candidates.length) =
      selectOptionalCandidates pricing candidates remainingTokens remainingSignals := by
  induction turns, enough using Nat.le_induction with
  | base => rfl
  | succ turns enough ih =>
      rw [selectLoop_succ (by rwa [List.length_finRange]), ih]

theorem selectOptionalCandidates_sound (pricing : Pricing Signal F)
    (candidates : List (AuctionCandidate Signal F)) (remainingTokens remainingSignals : Nat) :
    ∃ spentTokens left, SoundSelection remainingTokens remainingSignals spentTokens
      (selectOptionalCandidates pricing candidates remainingTokens remainingSignals) left := by
  refine selectLoop_sound ?_
  exact ⟨List.nodup_finRange _, rfl, Nat.zero_le _, Nat.zero_le _⟩

end Greedy

section Vcg

variable {pricing : Pricing Signal F} {candidates : List (AuctionCandidate Signal F)}
  {remainingTokens remainingSignals : Nat}

/-- The bids that win are those of distinct candidates, which fit together. -/
theorem vcgAllocate_winners (pricing : Pricing Signal F)
    (candidates : List (AuctionCandidate Signal F)) (remainingTokens : Nat) :
    ∃ positions : List (Fin candidates.length), positions.Nodup ∧
      (positions.map fun index =>
        (candidates.get index).fragment.estimatedTokens).sum ≤ remainingTokens ∧
      (vcgAllocate pricing (candidates.map (vcgBid pricing)) remainingTokens).winners =
        positions.map fun index => vcgBid pricing (candidates.get index) := by
  rw [vcgAllocate]
  split
  case isTrue => exact ⟨[], List.nodup_nil, Nat.zero_le _, rfl⟩
  case isFalse =>
    let bid (index : Fin candidates.length) := vcgBid pricing (candidates.get index)
    have bids : candidates.map (vcgBid pricing) = (List.finRange candidates.length).map bid := by
      have all := congrArg (List.map (vcgBid pricing)) (List.map_get_finRange candidates)
      rw [List.map_map] at all
      exact all.symm
    have sorted : (candidates.map (vcgBid pricing)).insertionSort
        (fun first second => denserFirst pricing first second = true) =
          ((List.finRange candidates.length).insertionSort fun first second =>
            denserFirst pricing (bid first) (bid second) = true).map bid := by
      rw [bids]
      exact (List.map_insertionSort _ _ bid _ fun _ _ _ _ => Iff.rfl).symm
    have won := Selections.fill_sublist VcgBid.tokens remainingTokens
      ((candidates.map (vcgBid pricing)).insertionSort
        fun first second => denserFirst pricing first second = true)
    have fits := Selections.sum_fill_le VcgBid.tokens remainingTokens
      ((candidates.map (vcgBid pricing)).insertionSort
        fun first second => denserFirst pricing first second = true)
    dsimp only
    rw [sorted] at won fits ⊢
    obtain ⟨positions, sublist, same⟩ := List.sublist_map_iff.mp won
    refine ⟨positions, ?_, ?_, same⟩
    · refine sublist.nodup ?_
      exact (List.perm_insertionSort _ _).nodup_iff.mpr (List.nodup_finRange _)
    · rw [same, List.map_map] at fits
      exact fits

/-- With room for all candidates, every bid wins. -/
theorem length_winners (pricing : Pricing Signal F)
    (room : (candidates.map fun candidate => candidate.fragment.estimatedTokens).sum <
      remainingTokens) :
    (vcgAllocate pricing (candidates.map (vcgBid pricing)) remainingTokens).winners.length =
      candidates.length := by
  let denser (first second : VcgBid F) : Prop := denserFirst pricing first second = true
  rw [vcgAllocate]
  split
  case isTrue nothing =>
    have empty : candidates = [] := by
      rw [Bool.or_eq_true, List.isEmpty_iff, List.map_eq_nil_iff, decide_eq_true_eq] at nothing
      exact nothing.resolve_right (by omega)
    rw [empty]
    rfl
  case isFalse =>
    have perm := List.perm_insertionSort denser (candidates.map (vcgBid pricing))
    have fits : (((candidates.map (vcgBid pricing)).insertionSort denser).map
        VcgBid.tokens).sum ≤ remainingTokens := by
      rw [(perm.map VcgBid.tokens).sum_eq, List.map_map]
      exact room.le
    dsimp only
    rw [Selections.fill_of_sum_le fits, perm.length_eq, List.length_map]

/-- The candidates that the winning bids are mapped back to. -/
def lookedUp (candidates : List (AuctionCandidate Signal F))
    (positions : List (Fin candidates.length)) : List (Fin candidates.length) :=
  positions.filterMap fun index =>
    candidateById candidates (candidates.get index).fragment.stableSectionId

theorem selectVcgCandidates_positions {positions : List (Fin candidates.length)}
    (winners : (vcgAllocate pricing (candidates.map (vcgBid pricing)) remainingTokens).winners =
      positions.map fun index => vcgBid pricing (candidates.get index)) :
    (selectVcgCandidates pricing candidates remainingTokens remainingSignals).map
        (·.candidateIndex) =
      lookedUp candidates (positions.take remainingSignals) := by
  rw [selectVcgCandidates, lookedUp, winners, ← List.map_take, List.filterMap_map, List.map_filterMap]
  refine List.filterMap_congr fun index _ => ?_
  dsimp only [Function.comp, vcgBid]
  rw [Option.map_map]
  exact congrFun Option.map_id _

theorem candidateById_spec {id : String} {index : Fin candidates.length}
    (found : candidateById candidates id = some index) :
    (candidates.get index).fragment.stableSectionId = id ∧
      ∀ later, index < later → (candidates.get later).fragment.stableSectionId ≠ id := by
  obtain ⟨holds, last⟩ := Selections.find?_reverse_finRange found
  refine ⟨by simpa using holds, ?_⟩
  intro later greater
  simpa using last later greater

/-- The id of a candidate finds a candidate. -/
theorem candidateById_isSome (index : Fin candidates.length) :
    ∃ found, candidateById candidates (candidates.get index).fragment.stableSectionId =
      some found := by
  rw [← Option.isSome_iff_exists, candidateById, List.find?_isSome]
  exact ⟨index, by simp, by simp⟩

theorem nodup_ids_iff :
    (candidates.map (·.fragment.stableSectionId)).Nodup ↔
      ∀ first second : Fin candidates.length, first < second →
        (candidates.get first).fragment.stableSectionId ≠
          (candidates.get second).fragment.stableSectionId := by
  rw [List.Nodup, List.pairwise_map, List.pairwise_iff_get]

/-- When no two candidates share an id, the id of a candidate finds the candidate itself. -/
theorem candidateById_self (distinct : (candidates.map (·.fragment.stableSectionId)).Nodup)
    (index : Fin candidates.length) :
    candidateById candidates (candidates.get index).fragment.stableSectionId = some index := by
  obtain ⟨found, search⟩ := candidateById_isSome index
  obtain ⟨same, last⟩ := candidateById_spec search
  rw [search, Option.some_inj]
  rcases lt_trichotomy found index with before | rfl | after
  · exact absurd rfl (last index before)
  · rfl
  · exact absurd same.symm (nodup_ids_iff.mp distinct index found after)

theorem lookedUp_self (distinct : (candidates.map (·.fragment.stableSectionId)).Nodup)
    (positions : List (Fin candidates.length)) :
    lookedUp candidates positions = positions := by
  rw [lookedUp]
  simp only [candidateById_self distinct]
  exact List.filterMap_some

/-- Of two candidates that share an id, the first is never looked up. -/
theorem notMem_lookedUp {first second : Fin candidates.length} (order : first < second)
    (same : (candidates.get first).fragment.stableSectionId =
      (candidates.get second).fragment.stableSectionId)
    (positions : List (Fin candidates.length)) : first ∉ lookedUp candidates positions := by
  intro member
  rw [lookedUp, List.mem_filterMap] at member
  obtain ⟨index, _, found⟩ := member
  obtain ⟨own, last⟩ := candidateById_spec found
  exact last second order (same.symm.trans own)

theorem length_lookedUp (positions : List (Fin candidates.length)) :
    (lookedUp candidates positions).length = positions.length := by
  rw [lookedUp, List.length_filterMap_eq_countP, List.countP_eq_length]
  intro index _
  rw [Option.isSome_iff_exists]
  exact candidateById_isSome index

end Vcg

section Sound

variable {pricing : Pricing Signal F} {candidates : List (AuctionCandidate Signal F)}
  {remainingTokens remainingSignals : Nat}

theorem selectOptionalCandidates_soundAuction :
    SoundAuction
      ⟨candidates, selectOptionalCandidates pricing candidates remainingTokens remainingSignals⟩
      (candidates.map sectionOf) remainingTokens remainingSignals := by
  obtain ⟨usedTokens, left, sound⟩ :=
    selectOptionalCandidates_sound pricing candidates remainingTokens remainingSignals
  refine ⟨List.Perm.refl _, (List.nodup_append.mp sound.distinct).1, ?_, sound.few⟩
  rw [tokensOf_taken, sound.spent]
  exact sound.fits

theorem selectVcgCandidates_soundAuction
    (distinct : (candidates.map (·.fragment.stableSectionId)).Nodup) :
    SoundAuction
      ⟨candidates, selectVcgCandidates pricing candidates remainingTokens remainingSignals⟩
      (candidates.map sectionOf) remainingTokens remainingSignals := by
  obtain ⟨positions, once, fits, winners⟩ :=
    vcgAllocate_winners pricing candidates remainingTokens
  have selected :=
    (selectVcgCandidates_positions winners).trans
      (lookedUp_self distinct (positions.take remainingSignals))
  refine ⟨List.Perm.refl _, ?distinct, ?fits, ?few⟩
  case distinct =>
    dsimp only
    rw [selected]
    exact (List.take_sublist _ _).nodup once
  case fits =>
    rw [tokensOf_taken, spent_eq_sum, selected]
    refine le_trans ?_ fits
    refine List.Sublist.sum_le_sum ((List.take_sublist _ _).map _) ?_
    exact fun _ _ => Nat.zero_le _
  case few =>
    have many := congrArg List.length selected
    rw [List.length_map, List.length_take] at many
    dsimp only
    omega

/-- When every bid wins, a candidate that shares its id with a later one is lost, and there is
more taken and left than there are candidates. -/
theorem lt_length_of_shared {first second : Fin candidates.length} (order : first < second)
    (same : (candidates.get first).fragment.stableSectionId =
      (candidates.get second).fragment.stableSectionId)
    (room : (candidates.map fun candidate => candidate.fragment.estimatedTokens).sum <
      remainingTokens)
    (enough : candidates.length ≤ remainingSignals) :
    let positions := (selectVcgCandidates pricing candidates remainingTokens
      remainingSignals).map (·.candidateIndex)
    candidates.length <
      (Selections.pick candidates positions ++ Selections.leave candidates positions).length := by
  obtain ⟨positions, once, fits, winners⟩ :=
    vcgAllocate_winners pricing candidates remainingTokens
  have all := length_winners pricing room
  rw [winners, List.length_map] at all
  dsimp only
  rw [selectVcgCandidates_positions winners]
  refine Selections.lt_length_of_missed ?_ (notMem_lookedUp order same _)
  rw [length_lookedUp, List.length_take]
  omega

end Sound

/-- With room for all sections, what the VCG selection takes and leaves is as much as there is
only when no two sections share an id. -/
theorem nodup_ids_of_account (pricing : Pricing Signal F)
    {optional : List (PromptSection × Signal)} (remainingTokens remainingSignals : Nat)
    (room : tokensOf optional < remainingTokens) (enough : optional.length ≤ remainingSignals)
    (account :
      let run := auction pricing .vcg optional remainingTokens remainingSignals
      run.taken.length +
        (Selections.leave run.candidates (run.selected.map (·.candidateIndex))).length =
          optional.length) :
    (optional.map (·.1.stableSectionId)).Nodup := by
  have ids : (optional.map (candidate pricing)).map (·.fragment.stableSectionId) =
      optional.map (·.1.stableSectionId) :=
    List.map_map
  rw [← ids, nodup_ids_iff]
  intro first second order same
  dsimp only at account
  rw [taken_eq_pick, List.length_map, ← List.length_append] at account
  refine absurd account (ne_of_gt ?_)
  refine (List.length_map (candidate pricing)).symm.trans_lt ?_
  exact lt_length_of_shared order same (by rwa [List.map_map]) (by rwa [List.length_map])

/-- What the composer selects is sound, save that the VCG selection needs distinct ids. -/
theorem auction_sound {pricing : Pricing Signal F} {optional : List (PromptSection × Signal)}
    {remainingTokens remainingSignals : Nat} {strategy : CompositionStrategy}
    (safe : strategy ≠ .vcg ∨ (optional.map (·.1.stableSectionId)).Nodup) :
    SoundAuction (auction pricing strategy optional remainingTokens remainingSignals) optional
      remainingTokens remainingSignals := by
  have sections : (optional.map (candidate pricing)).map sectionOf = optional := by
    rw [List.map_map]
    exact List.map_id optional
  rw [auction]
  split
  case isTrue vcg =>
    have distinct : ((optional.map (candidate pricing)).map
        (·.fragment.stableSectionId)).Nodup := by
      rw [List.map_map]
      exact safe.resolve_left (not_not_intro vcg)
    exact (selectVcgCandidates_soundAuction distinct).of_perm (.of_eq sections)
  case isFalse =>
    refine selectOptionalCandidates_soundAuction.of_perm ?_
    have perm := (List.perm_insertionSort (fun first second =>
      candidateOrder pricing first second = true) (optional.map (candidate pricing))).map
        sectionOf
    exact perm.trans (.of_eq sections)

end PromptComposer

end Roko
