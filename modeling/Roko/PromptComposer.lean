import Mathlib.Data.List.Sort
import Roko.PromptSections
import Roko.Selections

/-!
# The prompt composer

The model of `PromptComposer::compose` in `roko-compose/src/prompt.rs`, with the greedy
selection, the VCG selection of `auction.rs`, the strategies of `strategy.rs` and the
manifest.  Scores and bids are numbers of an arbitrary type, and what is computed from them
in floating point is a parameter.  Sums of token counts are natural numbers: the texts that
are counted are in memory together.
-/

namespace Roko

inductive CompositionStrategy
  | auto
  | densityGreedy
  | weightedSum
  | vcg
  deriving DecidableEq

namespace CompositionStrategy

def autoSelect (bidderObservations : List Nat) (warmupObservations : Nat) :
    CompositionStrategy :=
  if warmupObservations ≤ bidderObservations.min?.getD 0 then vcg else densityGreedy

def resolve (strategy : CompositionStrategy) (bidderObservations : List Nat)
    (warmupObservations : Nat) : CompositionStrategy :=
  match strategy with
  | auto => autoSelect bidderObservations warmupObservations
  | weightedSum => densityGreedy
  | other => other

end CompositionStrategy

/-- The operations on floating-point numbers. -/
structure Floats (F : Type) where
  partialCmp : F → F → Option Ordering
  zero : F
  minimum : F
  infinity : F
  max : F → F → F
  mul : F → F → F
  div : F → F → F
  ofTokens : Nat → F

/-- What a scorer, a context and the learning bidders say of sections. -/
structure Pricing (Signal F : Type) extends Floats F where
  candidateScore : PromptSection → Signal → F
  /-- `bid_with_cost` of the bidder of a section, or one. -/
  learnedMultiplier : PromptSection → F
  diversityBoost : Nat → F
  diminishingReturns : Nat → F
  bidderAffectMultiplier : PromptSection → F
  /-- `AffectModulation::adjust_bid` with the valence of a section. -/
  adjustBid : F → PromptSection → F

structure AuctionCandidate (Signal F : Type) where
  score : F
  bidValue : F
  bidDensity : F
  fragment : PromptSection
  sourceSignal : Signal

structure SelectedCandidate (candidates : Nat) (F : Type) where
  candidateIndex : Fin candidates
  adjustedBid : F

structure VcgBid (F : Type) where
  bidder : AttentionBidder
  sectionName : String
  tokens : Nat
  rawBid : F
  adjustedBid : F

structure VcgAllocation (F : Type) where
  winners : List (VcgBid F)
  excluded : List (VcgBid F)
  totalTokensUsed : Nat

/-- What the manifest says of every section. -/
structure SectionMeta where
  sectionId : String
  actionId : String
  name : String
  bidder : AttentionBidder
  estimatedTokens : Nat
  deriving DecidableEq

structure IncludedSectionMeta (F : Type) extends SectionMeta where
  score : F
  bidValue : F
  reason : String

structure ExcludedSectionMeta (F : Type) extends SectionMeta where
  score : F
  bidValue : F
  reason : String

structure CompositionManifest (F : Type) where
  requestedStrategy : CompositionStrategy
  selectedStrategy : CompositionStrategy
  included : List (IncludedSectionMeta F)
  excluded : List (ExcludedSectionMeta F)
  totalTokens : Nat
  tokenBudgetLimit : Option Nat

structure Budget where
  maxTokens : Option Nat := none
  maxPulses : Option Nat := none

structure BudgetExceeded where
  dimension : String
  used : Nat
  limit : Nat
  deriving DecidableEq

structure PromptComposer where
  includeHeaders : Bool := true
  compositionStrategy : CompositionStrategy := .auto
  vcgWarmupObservations : Nat := 10
  /-- `observation_count` of the learning bidders, zero where there is none. -/
  observationCount : AttentionBidder → Nat := fun _ => 0

structure ComposedPrompt (Signal F : Type) where
  /-- The sections that are rendered, in order, with their signals. -/
  kept : List (PromptSection × Signal)
  text : String
  tokenTotal : Nat
  manifest : CompositionManifest F

def usizeMax : Nat := 2 ^ 64 - 1

def PromptSection.sectionMeta (fragment : PromptSection) : SectionMeta where
  sectionId := fragment.stableSectionId
  actionId := fragment.actionId
  name := fragment.name
  bidder := fragment.bidder
  estimatedTokens := fragment.estimatedTokens

namespace Floats

variable {F : Type} (floats : Floats F)

/-- `partial_cmp`, with equality where there is no order. -/
def cmp (first second : F) : Ordering :=
  (floats.partialCmp first second).getD .eq

def gt (first second : F) : Bool :=
  floats.partialCmp first second = some .gt

def le (first second : F) : Bool :=
  floats.partialCmp first second = some .lt || floats.partialCmp first second = some .eq

end Floats

namespace PromptComposer

variable {Signal F : Type} (pricing : Pricing Signal F)

section Greedy

variable (candidates : List (AuctionCandidate Signal F)) (remainingTokens remainingSignals : Nat)

def effectiveCandidateBid (candidate : AuctionCandidate Signal F)
    (bidderWins : AttentionBidder → Nat) : F :=
  let wins := bidderWins candidate.fragment.bidder
  pricing.mul
    (pricing.mul (pricing.mul candidate.bidDensity (pricing.diversityBoost wins))
      (pricing.diminishingReturns wins))
    (pricing.bidderAffectMultiplier candidate.fragment)

/-- The candidate with the highest bid among those that fit, and its bid. -/
def bestCandidate (bidderWins : AttentionBidder → Nat) (usedTokens : Nat)
    (remaining : List (Fin candidates.length)) : Option (Fin candidates.length) × F :=
  remaining.foldl
    (fun best index =>
      if remainingTokens < usedTokens + (candidates.get index).fragment.estimatedTokens then best
      else
        let adjustedBid := effectiveCandidateBid pricing (candidates.get index) bidderWins
        if pricing.gt adjustedBid best.2 then (some index, adjustedBid) else best)
    (none, pricing.minimum)

/-- The loop of `select_optional_candidates`.  Each turn takes one candidate away, so that as
many turns as there are candidates are enough. -/
def selectLoop :
    Nat → (AttentionBidder → Nat) → Nat → List (SelectedCandidate candidates.length F) →
      List (Fin candidates.length) → List (SelectedCandidate candidates.length F)
  | 0, _, _, selected, _ => selected
  | turns + 1, bidderWins, usedTokens, selected, remaining =>
      if remaining.isEmpty || remainingTokens ≤ usedTokens ||
          remainingSignals ≤ selected.length then selected
      else
        match bestCandidate pricing candidates remainingTokens bidderWins usedTokens
            remaining with
        | (none, _) => selected
        | (some winner, winnerBid) =>
            if pricing.le winnerBid pricing.zero then selected
            else
              let bidder := (candidates.get winner).fragment.bidder
              selectLoop turns (Function.update bidderWins bidder (bidderWins bidder + 1))
                (usedTokens + (candidates.get winner).fragment.estimatedTokens)
                (selected ++ [⟨winner, winnerBid⟩])
                (remaining.filter fun index => index ≠ winner)

def selectOptionalCandidates : List (SelectedCandidate candidates.length F) :=
  selectLoop pricing candidates remainingTokens remainingSignals candidates.length (fun _ => 0)
    0 [] (List.finRange candidates.length)

end Greedy

def densityOf (bid : VcgBid F) : F :=
  if 0 < bid.tokens then pricing.div bid.adjustedBid (pricing.ofTokens bid.tokens)
  else pricing.infinity

/-- The order of the bids: by value density, descending. -/
def denserFirst (first second : VcgBid F) : Bool :=
  pricing.cmp (densityOf pricing second) (densityOf pricing first) ≠ .gt

def vcgAllocate (bids : List (VcgBid F)) (totalBudget : Nat) : VcgAllocation F :=
  if bids.isEmpty || totalBudget = 0 then
    { winners := [], excluded := bids, totalTokensUsed := 0 }
  else
    let sorted := bids.insertionSort fun first second => denserFirst pricing first second = true
    let (winners, excluded) := Selections.fill VcgBid.tokens totalBudget sorted
    { winners, excluded, totalTokensUsed := (winners.map VcgBid.tokens).sum }

def vcgBid (candidate : AuctionCandidate Signal F) : VcgBid F :=
  let rawBid := pricing.max candidate.bidValue pricing.zero
  { bidder := candidate.fragment.bidder
    sectionName := candidate.fragment.stableSectionId
    tokens := candidate.fragment.estimatedTokens
    rawBid
    adjustedBid := pricing.adjustBid rawBid candidate.fragment }

/-- `candidate_by_id`: of the candidates with an id, the map keeps the last one. -/
def candidateById (candidates : List (AuctionCandidate Signal F)) (id : String) :
    Option (Fin candidates.length) :=
  (List.finRange candidates.length).reverse.find? fun index =>
    (candidates.get index).fragment.stableSectionId = id

def selectVcgCandidates (candidates : List (AuctionCandidate Signal F))
    (remainingTokens remainingSignals : Nat) : List (SelectedCandidate candidates.length F) :=
  let allocation := vcgAllocate pricing (candidates.map (vcgBid pricing)) remainingTokens
  (allocation.winners.take remainingSignals).filterMap fun winner =>
    (candidateById candidates winner.sectionName).map fun index => ⟨index, winner.adjustedBid⟩

def includedMeta (selectedStrategy : CompositionStrategy)
    (candidates : List (AuctionCandidate Signal F))
    (selected : List (SelectedCandidate candidates.length F))
    (keptSection : PromptSection × Signal) : IncludedSectionMeta F :=
  match candidateById candidates keptSection.1.stableSectionId with
  | some index =>
      let adjusted := selected.reverse.find? fun winner => winner.candidateIndex = index
      { keptSection.1.sectionMeta with
        score := (candidates.get index).score
        bidValue := (adjusted.map (·.adjustedBid)).getD (candidates.get index).bidValue
        reason :=
          if selectedStrategy = .vcg then "selected_by_vcg" else "selected_by_density" }
  | none =>
      let score := pricing.candidateScore keptSection.1 keptSection.2
      { keptSection.1.sectionMeta with score, bidValue := score, reason := "critical" }

def excludedMeta (selectedStrategy : CompositionStrategy)
    (candidate : AuctionCandidate Signal F) : ExcludedSectionMeta F :=
  { candidate.fragment.sectionMeta with
    score := candidate.score
    bidValue := candidate.bidValue
    reason :=
      if selectedStrategy = .vcg then "excluded_by_vcg" else "dropped_by_density_budget" }

def renderSection (headers : Bool) (fragment : PromptSection) : String :=
  (if headers then "--- " ++ fragment.name ++ " ---\n" else "") ++ fragment.content ++
    (if fragment.content.endsWith "\n" then "" else "\n") ++ (if headers then "\n" else "")

def renderSections (headers : Bool) (kept : List (PromptSection × Signal)) : String :=
  String.join (kept.map fun keptSection => renderSection headers keptSection.1)

def candidate (keptSection : PromptSection × Signal) : AuctionCandidate Signal F :=
  let score := pricing.candidateScore keptSection.1 keptSection.2
  let bidValue := pricing.mul score (pricing.learnedMultiplier keptSection.1)
  { score
    bidValue
    bidDensity :=
      pricing.div bidValue (pricing.ofTokens (Nat.max keptSection.1.estimatedTokens 1))
    fragment := keptSection.1
    sourceSignal := keptSection.2 }

/-- The order in which the greedy selection looks at candidates. -/
def candidateOrder (first second : AuctionCandidate Signal F) : Bool :=
  ((pricing.cmp second.bidDensity first.bidDensity).then
    ((compare first.fragment.cacheLayer.rank second.fragment.cacheLayer.rank).then
      (compare second.fragment.priority.rank first.fragment.priority.rank))) ≠ .gt

/-- The order of the sections in the prompt. -/
def outputOrder (first second : PromptSection × Signal) : Bool :=
  ((compare first.1.placement.order second.1.placement.order).then
    (compare first.1.cacheLayer.rank second.1.cacheLayer.rank)) ≠ .gt

/-- The sections that signals hold, cut down to their hard caps. -/
def decodedSections (fromSignal : Signal → Option PromptSection) (signals : List Signal) :
    List (PromptSection × Signal) :=
  signals.filterMap fun signal =>
    (fromSignal signal).map fun fragment => (fragment.enforceHardCap, signal)

def isCritical (keptSection : PromptSection × Signal) : Bool :=
  keptSection.1.priority = .critical

def tokensOf (kept : List (PromptSection × Signal)) : Nat :=
  (kept.map fun keptSection => keptSection.1.estimatedTokens).sum

/-- The candidates in the order in which they are indexed, and the winners. -/
structure Auction (Signal F : Type) where
  candidates : List (AuctionCandidate Signal F)
  selected : List (SelectedCandidate candidates.length F)

/-- The sections that an auction takes, in the order of the winners. -/
def Auction.taken (auction : Auction Signal F) : List (PromptSection × Signal) :=
  auction.selected.map fun winner =>
    let candidate := auction.candidates.get winner.candidateIndex
    (candidate.fragment, candidate.sourceSignal)

variable (composer : PromptComposer)

def selectedStrategy (optional : List (PromptSection × Signal)) : CompositionStrategy :=
  composer.compositionStrategy.resolve
    (optional.map fun keptSection => composer.observationCount keptSection.1.bidder)
    composer.vcgWarmupObservations

def auction (strategy : CompositionStrategy) (optional : List (PromptSection × Signal))
    (remainingTokens remainingSignals : Nat) : Auction Signal F :=
  let candidates := optional.map (candidate pricing)
  if strategy = .vcg then
    { candidates
      selected := selectVcgCandidates pricing candidates remainingTokens remainingSignals }
  else
    let sorted := candidates.insertionSort fun first second =>
      candidateOrder pricing first second = true
    { candidates := sorted
      selected := selectOptionalCandidates pricing sorted remainingTokens remainingSignals }

def buildCompositionManifest (strategy : CompositionStrategy) (auction : Auction Signal F)
    (kept : List (PromptSection × Signal)) (tokenTotal : Nat) (budget : Budget) :
    CompositionManifest F where
  requestedStrategy := composer.compositionStrategy
  selectedStrategy := strategy
  included := kept.map (includedMeta pricing strategy auction.candidates auction.selected)
  excluded :=
    (Selections.leave auction.candidates (auction.selected.map (·.candidateIndex))).map
      (excludedMeta strategy)
  totalTokens := tokenTotal
  tokenBudgetLimit := budget.maxTokens

def compose (fromSignal : Signal → Option PromptSection) (signals : List Signal)
    (budget : Budget) : Except BudgetExceeded (ComposedPrompt Signal F) :=
  let decoded := decodedSections fromSignal signals
  let critical := decoded.filter isCritical
  let optional := decoded.filter fun keptSection => !isCritical keptSection
  let criticalTokens := tokensOf critical
  if budget.maxTokens.any fun max => max < criticalTokens then
    .error { dimension := "tokens", used := criticalTokens, limit := budget.maxTokens.getD 0 }
  else
    let remainingTokens := (budget.maxTokens.map fun max => max - criticalTokens).getD usizeMax
    let remainingSignals :=
      (budget.maxPulses.map fun max => max - critical.length).getD usizeMax
    let strategy := composer.selectedStrategy optional
    let auction := auction pricing strategy optional remainingTokens remainingSignals
    let tokenTotal := criticalTokens + tokensOf auction.taken
    let kept := (critical ++ auction.taken).insertionSort fun first second =>
      outputOrder first second = true
    .ok
      { kept
        text := renderSections composer.includeHeaders kept
        tokenTotal
        manifest := buildCompositionManifest pricing composer strategy auction kept tokenTotal
          budget }

end PromptComposer

end Roko
