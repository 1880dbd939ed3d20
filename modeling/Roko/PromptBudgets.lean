import Roko.PromptAuctions

/-!
# Prompts within their budgets

The greedy selection takes each candidate at most once, and only while it fits.  The VCG
selection maps its winners back to candidates by their ids.  What is composed keeps to the
budget, and accounts for every section once, in every case exactly when the greedy selection
is used or the ids of the optional sections are distinct.
-/

namespace Roko

namespace PromptComposer

variable {Signal F : Type}

/-- What a composed prompt is meant to hold of the sections that were given. -/
structure CompositionLaw (given : List (PromptSection × Signal)) (budget : Budget)
    (prompt : ComposedPrompt Signal F) : Prop where
  critical : ∀ fragment : PromptSection, fragment.priority = .critical →
    (prompt.kept.map Prod.fst).count fragment = (given.map Prod.fst).count fragment
  others : ∀ fragment : PromptSection,
    (prompt.kept.map Prod.fst).count fragment ≤ (given.map Prod.fst).count fragment
  tokens : ∀ max, budget.maxTokens = some max → tokensOf prompt.kept ≤ max
  pulses : ∀ max, budget.maxPulses = some max →
    prompt.kept.length ≤ Nat.max max (given.countP isCritical)
  accounted : (prompt.manifest.included.map (·.toSectionMeta) ++
    prompt.manifest.excluded.map (·.toSectionMeta)).Perm
      (given.map fun keptSection => keptSection.1.sectionMeta)

theorem parts_perm (given : List (PromptSection × Signal)) :
    (given.filter isCritical ++
      given.filter fun keptSection => !isCritical keptSection).Perm given :=
  List.filter_append_perm _ _

theorem count_given (given : List (PromptSection × Signal)) (fragment : PromptSection) :
    (given.map Prod.fst).count fragment =
      ((given.filter isCritical).map Prod.fst).count fragment +
        ((given.filter fun keptSection => !isCritical keptSection).map Prod.fst).count
          fragment := by
  rw [← ((parts_perm given).map Prod.fst).count_eq, List.map_append, List.count_append]

theorem count_optional_of_critical (given : List (PromptSection × Signal))
    {fragment : PromptSection} (critical : fragment.priority = .critical) :
    ((given.filter fun keptSection => !isCritical keptSection).map Prod.fst).count fragment =
      0 := by
  rw [List.count_eq_zero]
  intro member
  obtain ⟨keptSection, kept, rfl⟩ := List.mem_map.mp member
  have optional := (List.mem_filter.mp kept).2
  simp [isCritical, critical] at optional

variable {pricing : Pricing Signal F} {composer : PromptComposer}
  {fromSignal : Signal → Option PromptSection} {signals : List Signal} {budget : Budget}
  {prompt : ComposedPrompt Signal F}

theorem toSectionMeta_included (strategy : CompositionStrategy)
    (candidates : List (AuctionCandidate Signal F))
    (selected : List (SelectedCandidate candidates.length F))
    (keptSection : PromptSection × Signal) :
    (includedMeta pricing strategy candidates selected keptSection).toSectionMeta =
      keptSection.1.sectionMeta := by
  rw [includedMeta]
  split <;> rfl

/-- What the composer does when the critical sections fit. -/
theorem compose_ok (composed : composer.compose pricing fromSignal signals budget = .ok prompt) :
    let given := decodedSections fromSignal signals
    let critical := given.filter isCritical
    let optional := given.filter fun keptSection => !isCritical keptSection
    let strategy := composer.selectedStrategy optional
    let run := auction pricing strategy optional
      ((budget.maxTokens.map fun max => max - tokensOf critical).getD usizeMax)
      ((budget.maxPulses.map fun max => max - critical.length).getD usizeMax)
    (∀ max, budget.maxTokens = some max → tokensOf critical ≤ max) ∧
      prompt.kept.Perm (critical ++ run.taken) ∧
      prompt.manifest.included.map (·.toSectionMeta) =
        prompt.kept.map (fun keptSection => keptSection.1.sectionMeta) ∧
      prompt.manifest.excluded.map (·.toSectionMeta) =
        (Selections.leave run.candidates (run.selected.map (·.candidateIndex))).map
          fun candidate => candidate.fragment.sectionMeta := by
  dsimp only
  rw [compose] at composed
  dsimp only at composed
  split at composed
  case isTrue => cases composed
  case isFalse within =>
    cases composed
    refine ⟨?_, List.perm_insertionSort _ _, ?_, ?_⟩
    · intro max limit
      rw [limit] at within
      simpa using within
    · dsimp only [buildCompositionManifest]
      rw [List.map_map]
      refine List.map_congr_left fun keptSection _ => ?_
      exact toSectionMeta_included _ _ _ keptSection
    · dsimp only [buildCompositionManifest]
      rw [List.map_map]
      rfl

theorem SoundAuction.law
    (composed : composer.compose pricing fromSignal signals budget = .ok prompt)
    (sound :
      let given := decodedSections fromSignal signals
      let critical := given.filter isCritical
      let optional := given.filter fun keptSection => !isCritical keptSection
      let remainingTokens := (budget.maxTokens.map fun max => max - tokensOf critical).getD usizeMax
      let remainingSignals :=
        (budget.maxPulses.map fun max => max - critical.length).getD usizeMax
      SoundAuction (auction pricing (composer.selectedStrategy optional) optional remainingTokens
        remainingSignals) optional remainingTokens remainingSignals) :
    CompositionLaw (decodedSections fromSignal signals) budget prompt := by
  obtain ⟨within, kept, included, excluded⟩ := compose_ok composed
  dsimp only at sound within kept included excluded
  generalize decodedSections fromSignal signals = given at sound within kept included excluded ⊢
  generalize auction pricing _ _ _ _ = run at sound kept excluded
  have countKept : ∀ fragment : PromptSection, (prompt.kept.map Prod.fst).count fragment =
      ((given.filter isCritical).map Prod.fst).count fragment +
        (run.taken.map Prod.fst).count fragment := by
    intro fragment
    rw [(kept.map Prod.fst).count_eq, List.map_append, List.count_append]
  refine ⟨?critical, ?others, ?tokens, ?pulses, ?accounted⟩
  case critical =>
    intro fragment critical
    have fewer := sound.count_taken_le fragment
    rw [count_optional_of_critical given critical] at fewer
    rw [countKept, count_given given, count_optional_of_critical given critical]
    omega
  case others =>
    intro fragment
    rw [countKept, count_given given]
    exact Nat.add_le_add_left (sound.count_taken_le fragment) _
  case tokens =>
    intro max limit
    have enough := within max limit
    have fits := sound.fits
    rw [limit, Option.map_some, Option.getD_some] at fits
    rw [tokensOf_perm kept, tokensOf_append]
    omega
  case pulses =>
    intro max limit
    have few := sound.few
    rw [limit, Option.map_some, Option.getD_some] at few
    have many : prompt.kept.length =
        (given.filter isCritical).length + run.selected.length := by
      rw [kept.length_eq, List.length_append, Auction.taken, List.length_map]
    rw [many, List.countP_eq_length_filter]
    change _ ≤ Max.max max _
    omega
  case accounted =>
    rw [included, excluded]
    have all := ((List.Perm.append_left _ sound.taken_append_left).trans (parts_perm given)).map
      fun keptSection => keptSection.1.sectionMeta
    rw [← List.append_assoc, List.map_append] at all
    refine List.Perm.trans ?_ all
    rw [List.map_map]
    exact (kept.map _).append_right _

theorem compose_fits (within : ∀ max, budget.maxTokens = some max →
      tokensOf ((decodedSections fromSignal signals).filter isCritical) ≤ max) :
    ∃ prompt, composer.compose pricing fromSignal signals budget = .ok prompt := by
  rw [compose]
  dsimp only
  split
  case isTrue exceeded =>
    rw [Option.any_eq_true] at exceeded
    obtain ⟨max, limit, exceeded⟩ := exceeded
    have enough := within max limit
    simp only [decide_eq_true_eq] at exceeded
    omega
  case isFalse => exact ⟨_, rfl⟩

/-- A budget with room for everything that is given. -/
def roomyBudget (given : List (PromptSection × Signal)) : Budget where
  maxTokens := some (tokensOf given + 1)
  maxPulses := some given.length

/-- With room for everything, an id that is shared by two sections breaks the account. -/
theorem nodup_of_accounted
    (vcg : composer.selectedStrategy
      ((decodedSections fromSignal signals).filter fun keptSection => !isCritical keptSection) =
        .vcg)
    (composed : composer.compose pricing fromSignal signals
      (roomyBudget (decodedSections fromSignal signals)) = .ok prompt)
    (law : CompositionLaw (decodedSections fromSignal signals)
      (roomyBudget (decodedSections fromSignal signals)) prompt) :
    (((decodedSections fromSignal signals).filter fun keptSection =>
      !isCritical keptSection).map (·.1.stableSectionId)).Nodup := by
  obtain ⟨within, kept, included, excluded⟩ := compose_ok composed
  have account := law.accounted.length_eq
  rw [included, excluded, List.length_append, List.length_map, List.length_map, List.length_map,
    kept.length_eq, List.length_append] at account
  rw [vcg] at account
  generalize decodedSections fromSignal signals = given at account ⊢
  have tokens := tokensOf_perm (parts_perm given)
  have lengths := (parts_perm given).length_eq
  rw [tokensOf_append] at tokens
  rw [List.length_append] at lengths
  refine nodup_ids_of_account pricing (tokensOf given + 1 - tokensOf (given.filter isCritical))
    (given.length - (given.filter isCritical).length) (by omega) (by omega) ?_
  dsimp only [roomyBudget, Option.map_some, Option.getD_some] at account ⊢
  omega

/-- Whatever the budget, the prompts that are composed are lawful exactly when the greedy
selection is used or no two of the sections that are not critical share an id. -/
theorem compose_lawful_iff (composer : PromptComposer) (pricing : Pricing Signal F)
    (fromSignal : Signal → Option PromptSection) (signals : List Signal) :
    (∀ budget prompt, composer.compose pricing fromSignal signals budget = .ok prompt →
      CompositionLaw (decodedSections fromSignal signals) budget prompt) ↔
      let optional := (decodedSections fromSignal signals).filter fun keptSection =>
        !isCritical keptSection
      composer.selectedStrategy optional ≠ .vcg ∨ (optional.map (·.1.stableSectionId)).Nodup := by
  dsimp only
  constructor
  case mp =>
    intro lawful
    by_cases vcg : composer.selectedStrategy
        ((decodedSections fromSignal signals).filter fun keptSection =>
          !isCritical keptSection) = .vcg
    · obtain ⟨prompt, composed⟩ : ∃ prompt, composer.compose pricing fromSignal signals
          (roomyBudget (decodedSections fromSignal signals)) = .ok prompt := by
        refine compose_fits fun max limit => ?_
        cases limit
        exact (tokensOf_filter_le _ _).trans (Nat.le_succ _)
      exact Or.inr (nodup_of_accounted vcg composed (lawful _ prompt composed))
    · exact Or.inl vcg
  case mpr =>
    intro safe budget prompt composed
    exact SoundAuction.law composed (auction_sound safe)

/-- Prices in whole numbers, two for every section. -/
def wholePricing : Pricing PromptSection Nat where
  partialCmp first second := some (compare first second)
  zero := 0
  minimum := 0
  infinity := 2 ^ 128
  max := Nat.max
  mul := Nat.mul
  div := Nat.div
  ofTokens tokens := tokens
  candidateScore _ _ := 2
  learnedMultiplier _ := 1
  diversityBoost _ := 1
  diminishingReturns _ := 1
  bidderAffectMultiplier _ := 1
  adjustBid bid _ := bid

/-- One token, and the id `prompt:notes`. -/
def shortNote : PromptSection where
  name := "Notes"
  content := "one"

/-- Two tokens, and the same id. -/
def longNote : PromptSection where
  name := "notes"
  content := "second"

def vcgComposer : PromptComposer where
  compositionStrategy := .vcg

/-- The short note wins the one token that there is, and the long note is rendered. -/
theorem shared_id_exceeds_budget :
    ∃ prompt : ComposedPrompt PromptSection Nat,
      vcgComposer.compose wholePricing some [shortNote, longNote] { maxTokens := some 1 } =
        .ok prompt ∧
      ¬ CompositionLaw (decodedSections some [shortNote, longNote]) { maxTokens := some 1 }
        prompt := by
  have rendered : (vcgComposer.compose wholePricing some [shortNote, longNote]
      { maxTokens := some 1 }).toOption.map (fun prompt => tokensOf prompt.kept) = some 2 := by
    decide +kernel
  generalize vcgComposer.compose wholePricing some [shortNote, longNote]
    { maxTokens := some 1 } = result at rendered ⊢
  cases result with
  | error exceeded => cases rendered
  | ok prompt =>
      refine ⟨prompt, rfl, ?_⟩
      intro law
      have within := law.tokens 1 rfl
      have spent : tokensOf prompt.kept = 2 := Option.some_inj.mp rendered
      omega

end PromptComposer

end Roko
