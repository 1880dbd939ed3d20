import Roko.OrderedMaps
import Roko.ForkWatchers

/-!
# The capacity of the watch list

`DiffClassifier::apply` adds the protocol contracts of a diff in the order of a hash map,
and fails at the first one for which there is no room.  The contracts before it stay
watched; nothing else changes.
-/

namespace Roko

open Std

namespace DiffClassifier

/-- The protocol contracts that are not excluded, in the order of the visits. -/
def eligible (store : DirtyStore) (visited : List (Address × Classification)) :
    List Address :=
  (visited.filter fun entry =>
    !store.unwatchList.contains entry.1 && demoted store entry.2 = .protocol).map Prod.fst

def newContracts (store : DirtyStore) (visited : List (Address × Classification)) :
    List Address :=
  CappedMap.newKeys store.watchList (eligible store visited)

/-- The places that are left on the watch list. -/
def room (config : ClassificationConfig) (store : DirtyStore) : Nat :=
  config.maxWatchedContracts - store.watchList.size

/-- Everything eligible is added, or nothing is. -/
def AllOrNothing (config : ClassificationConfig) (store : DirtyStore) (diff : StateDiff)
    (blockNumber : UInt64) (visited : List (Address × Classification)) : Prop :=
  let applied := apply config store diff blockNumber visited
  (applied.2 = .ok () ∧ ∀ address ∈ eligible store visited, address ∈ applied.1.watchList) ∨
    applied.2 = .error .watchListFull ∧ applied.1.watchList = store.watchList

/-- The new contracts that find room are added, and the call succeeds when all do. -/
structure FillsUp (config : ClassificationConfig) (store : DirtyStore) (diff : StateDiff)
    (blockNumber : UInt64) (visited : List (Address × Classification))
    (after : DirtyStore) (result : Except MirageError Unit) : Prop where
  outcome : result =
    if (newContracts store visited).length ≤ room config store then .ok ()
    else .error .watchListFull
  all : result = .ok () → ∀ address ∈ eligible store visited, address ∈ after.watchList
  filled : ∃ added, added <+: newContracts store visited ∧
    added.length = min (newContracts store visited).length (room config store) ∧
    ∀ address : Address, after.watchList[address]? = store.watchList[address]?.or
      (if address ∈ added then some (watchEntry .autoClassified diff address blockNumber)
        else none)
  size : after.watchList.size =
    store.watchList.size + min (newContracts store visited).length (room config store)
  kept : ∀ (address : Address) (entry : WatchEntry),
    store.watchList[address]? = some entry → after.watchList[address]? = some entry
  bounded : store.watchList.size ≤ config.maxWatchedContracts →
    after.watchList.size ≤ config.maxWatchedContracts
  frame : after = { store with watchList := after.watchList }
  new : ∀ address : Address, address ∈ newContracts store visited ↔
    address ∉ store.watchList ∧ store.unwatchList.contains address = false ∧
      store.demoteProtocolsToSlotOnly = false ∧
      ∃ accountDiff, diff.accounts[address]? = some accountDiff ∧
        classifyAccount config accountDiff = .protocol

variable {config : ClassificationConfig} {store : DirtyStore} {diff : StateDiff}
  {blockNumber : UInt64} {visited : List (Address × Classification)}

/-- A call fills the watch list up with the eligible contracts. -/
theorem apply_eq (config : ClassificationConfig) (store : DirtyStore) (diff : StateDiff)
    (blockNumber : UInt64) (visited : List (Address × Classification)) :
    apply config store diff blockNumber visited =
      let filled := CappedMap.addUpTo
        (fun address => watchEntry .autoClassified diff address blockNumber)
        config.maxWatchedContracts store.watchList (eligible store visited)
      ({ store with watchList := filled.1 },
        if filled.2 then .ok () else .error .watchListFull) := by
  induction visited generalizing store with
  | nil => rfl
  | cons entry visited ih =>
      obtain ⟨address, classification⟩ := entry
      unfold apply
      by_cases excluded : store.unwatchList.contains address = true
      · have same : eligible store ((address, classification) :: visited) =
            eligible store visited := by
          simp [eligible, excluded]
        rw [if_pos excluded, same, ih]
      by_cases protocol : demoted store classification = .protocol
      · have grown : eligible store ((address, classification) :: visited) =
            address :: eligible store visited := by
          simp [eligible, excluded, protocol]
        rw [if_neg excluded, if_neg (not_not_intro protocol), grown]
        unfold CappedMap.addUpTo
        split
        case isTrue => rfl
        case isFalse => exact ih (watch store address _)
      · have same : eligible store ((address, classification) :: visited) =
            eligible store visited := by
          simp [eligible, protocol]
        rw [if_neg excluded, if_pos protocol, same, ih]

theorem nodup_classify (config : ClassificationConfig) (diff : StateDiff) :
    ((classify config diff).map Prod.fst).Nodup := by
  have keys : (classify config diff).map Prod.fst = diff.accounts.keys := by
    rw [classify, List.map_map]
    exact ExtTreeMap.map_fst_toList_eq_keys
  rw [keys]
  exact ExtTreeMap.nodup_keys

theorem nodup_eligible (order : visited.Perm (classify config diff)) :
    (eligible store visited).Nodup :=
  ((List.Perm.nodup_iff (order.map Prod.fst)).mpr (nodup_classify config diff)).sublist
    (List.filter_sublist.map Prod.fst)

theorem demoted_eq_protocol {classification : Classification} :
    demoted store classification = .protocol ↔
      store.demoteProtocolsToSlotOnly = false ∧ classification = .protocol := by
  unfold demoted
  cases store.demoteProtocolsToSlotOnly <;> cases classification <;> simp

theorem mem_eligible (order : visited.Perm (classify config diff)) (address : Address) :
    address ∈ eligible store visited ↔
      store.unwatchList.contains address = false ∧
      store.demoteProtocolsToSlotOnly = false ∧
      ∃ accountDiff, diff.accounts[address]? = some accountDiff ∧
        classifyAccount config accountDiff = .protocol := by
  constructor
  · intro member
    obtain ⟨⟨_, classification⟩, chosen, rfl⟩ := List.mem_map.mp member
    obtain ⟨listed, accepted⟩ := List.mem_filter.mp chosen
    obtain ⟨⟨_, accountDiff⟩, touched, same⟩ :=
      List.mem_map.mp (order.mem_iff.mp listed)
    obtain ⟨rfl, rfl⟩ := Prod.mk.inj same
    simp only [Bool.and_eq_true, Bool.not_eq_true', decide_eq_true_eq,
      demoted_eq_protocol] at accepted
    exact ⟨accepted.1, accepted.2.1, accountDiff,
      ExtTreeMap.mem_toList_iff_getElem?_eq_some.mp touched, accepted.2.2⟩
  · rintro ⟨included, promoted, accountDiff, touched, protocol⟩
    refine List.mem_map.mpr ⟨(address, .protocol), List.mem_filter.mpr ⟨?_, ?_⟩, rfl⟩
    · exact order.mem_iff.mpr (List.mem_map.mpr ⟨(address, accountDiff),
        ExtTreeMap.mem_toList_iff_getElem?_eq_some.mpr touched,
        congrArg (Prod.mk address) protocol⟩)
    · simp only [Bool.and_eq_true, Bool.not_eq_true', decide_eq_true_eq,
        demoted_eq_protocol]
      exact ⟨included, promoted, trivial⟩

theorem mem_newContracts (order : visited.Perm (classify config diff)) (address : Address) :
    address ∈ newContracts store visited ↔
      address ∉ store.watchList ∧ store.unwatchList.contains address = false ∧
      store.demoteProtocolsToSlotOnly = false ∧
      ∃ accountDiff, diff.accounts[address]? = some accountDiff ∧
        classifyAccount config accountDiff = .protocol := by
  rw [newContracts, CappedMap.newKeys, List.mem_filter, mem_eligible order, and_comm]
  refine and_congr ?_ Iff.rfl
  rw [Bool.not_eq_true', Bool.eq_false_iff]
  rfl

/-- In every order of the visits, as many new contracts are added as there is room for. -/
theorem apply_eq_addAll (order : visited.Perm (classify config diff)) (blockNumber : UInt64) :
    apply config store diff blockNumber visited =
      ({ store with
          watchList := CappedMap.addAll
            (fun address => watchEntry .autoClassified diff address blockNumber)
            store.watchList ((newContracts store visited).take (room config store)) },
        if (newContracts store visited).length ≤ room config store then .ok ()
        else .error .watchListFull) := by
  rw [apply_eq, CappedMap.addUpTo_eq _ _ _ (nodup_eligible order)]
  simp only [decide_eq_true_eq]
  rfl

theorem watched_or_new {address : Address} (member : address ∈ eligible store visited) :
    address ∈ store.watchList ∨ address ∈ newContracts store visited := by
  by_cases known : address ∈ store.watchList
  · exact Or.inl known
  · refine Or.inr (List.mem_filter.mpr ⟨member, ?_⟩)
    rw [Bool.not_eq_true']
    exact Bool.eq_false_iff.mpr known

/-- In every order of the visits, the watch list is filled up with new contracts. -/
theorem apply_fillsUp (order : visited.Perm (classify config diff)) :
    FillsUp config store diff blockNumber visited
      (apply config store diff blockNumber visited).1
      (apply config store diff blockNumber visited).2 := by
  let entry (address : Address) := watchEntry .autoClassified diff address blockNumber
  let added := (newContracts store visited).take (room config store)
  have apart : added.Nodup :=
    ((nodup_eligible order).filter _).sublist (List.take_sublist _ _)
  have new : ∀ address ∈ added, address ∉ store.watchList := fun address member =>
    ((mem_newContracts order address).mp (List.mem_of_mem_take member)).1
  have looked (address : Address) :
      (CappedMap.addAll entry store.watchList added)[address]? =
        store.watchList[address]?.or (if address ∈ added then some (entry address) else none) :=
    CappedMap.getElem?_addAll entry store.watchList added address
  have grown : (CappedMap.addAll entry store.watchList added).size =
      store.watchList.size + min (newContracts store visited).length (room config store) := by
    rw [CappedMap.size_addAll entry store.watchList apart new, List.length_take,
      Nat.min_comm]
  rw [apply_eq_addAll order]
  refine ⟨rfl, ?_, ⟨added, List.take_prefix _ _, ?_, looked⟩, grown, ?_, ?_, rfl,
    mem_newContracts order⟩
  · intro succeeded address member
    have fits : (newContracts store visited).length ≤ room config store := by
      by_contra full
      rw [if_neg full] at succeeded
      cases succeeded
    have every : added = newContracts store visited := List.take_of_length_le fits
    change address ∈ CappedMap.addAll entry store.watchList added
    rw [ExtTreeMap.mem_iff_isSome_getElem?, looked, every]
    obtain known | listed := watched_or_new member
    · rw [ExtTreeMap.mem_iff_isSome_getElem?] at known
      rw [Option.isSome_or, known, Bool.true_or]
    · rw [if_pos listed, Option.isSome_or, Option.isSome_some, Bool.or_true]
  · rw [List.length_take, Nat.min_comm]
  · intro address old found
    change (CappedMap.addAll entry store.watchList added)[address]? = some old
    rw [looked, found]
    rfl
  · intro within
    change (CappedMap.addAll entry store.watchList added).size ≤ _
    rw [grown]
    unfold room
    omega

def sampleConfig : ClassificationConfig := { maxWatchedContracts := 1 }

/-- Three slots of a protocol are written. -/
def sampleAccountDiff : AccountDiff :=
  { storageWritten := ExtTreeMap.ofList [((1 : U256), (1 : U256)), (2, 1), (3, 1)] }

def sampleDiff : StateDiff :=
  { accounts := ExtTreeMap.ofList [((1 : Address), sampleAccountDiff), (2, sampleAccountDiff)] }

/-- The first of two contracts stays watched when the second one finds the list full. -/
theorem partial_watch_list :
    ¬ ∀ (config : ClassificationConfig) (store : DirtyStore) (diff : StateDiff)
      (blockNumber : UInt64) (visited : List (Address × Classification)),
      visited.Perm (classify config diff) →
      AllOrNothing config store diff blockNumber visited := by
  intro claim
  have applied := claim sampleConfig {} sampleDiff 5 (classify sampleConfig sampleDiff)
    (List.Perm.refl _)
  have failed : (apply sampleConfig {} sampleDiff 5 (classify sampleConfig sampleDiff)).2 =
      .error .watchListFull := by
    decide +kernel
  have grown : (apply sampleConfig {} sampleDiff 5
      (classify sampleConfig sampleDiff)).1.watchList.size = 1 := by
    decide +kernel
  obtain ⟨succeeded, -⟩ | ⟨-, unchanged⟩ := applied
  · rw [failed] at succeeded
    cases succeeded
  · rw [unchanged] at grown
    exact absurd grown (by decide +kernel)

/-- Visited in the other order, the same contracts leave the other one on the list. -/
theorem sample_fillsUp :
    let visited := [(2, .protocol), (1, .protocol)]
    FillsUp sampleConfig {} sampleDiff 5 visited
      (apply sampleConfig {} sampleDiff 5 visited).1
      (apply sampleConfig {} sampleDiff 5 visited).2 :=
  apply_fillsUp (by decide +kernel)

end DiffClassifier

end Roko
