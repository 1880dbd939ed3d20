import Roko.ForkDatabase

/-!
# Watching contracts

The model of `DiffClassifier` in `mirage-rs/src/fork.rs` and of the contagion watchers
in `mirage-rs/src/replay.rs`.  An account that a transaction wrote to like a protocol
is put on the watch list.  The classified accounts come from a hash map, so they are
visited in any order.
-/

namespace Roko

structure ClassificationConfig where
  protocolSlotThreshold : Nat := 3
  checkTokenInterface : Bool := true
  maxWatchedContracts : Nat := 64
  enableContagion : Bool := true
  maxContagionDepth : Nat := 2
  deriving DecidableEq

inductive Classification
  | protocol
  | slotOnly
  | readOnly
  deriving DecidableEq

namespace DiffClassifier

def looksLikeSlotOnlyToken (config : ClassificationConfig) (diff : AccountDiff) :
    Bool :=
  if !config.checkTokenInterface || diff.storageWritten.isEmpty then false
  else diff.storageWritten.keys.all fun slot => 20 ≤ slot

def classifyAccount (config : ClassificationConfig) (diff : AccountDiff) :
    Classification :=
  if diff.storageWritten.isEmpty && !diff.infoChanged then .readOnly
  else if config.protocolSlotThreshold ≤ diff.storageWritten.size &&
      !looksLikeSlotOnlyToken config diff then .protocol
  else .slotOnly

/-- The accounts in the order of their addresses. -/
def classify (config : ClassificationConfig) (diff : StateDiff) :
    List (Address × Classification) :=
  diff.accounts.toList.map fun entry => (entry.1, classifyAccount config entry.2)

/-- What is recorded of a contract that is watched from now on. -/
def watchEntry (source : WatchSource) (diff : StateDiff) (address : Address)
    (blockNumber : UInt64) : WatchEntry :=
  { source, addedAtBlock := blockNumber
    initialSlotCount := diff.accounts[address]?.elim 0 (·.storageWritten.size)
    replayCount := 0 }

def watch (store : DirtyStore) (address : Address) (entry : WatchEntry) : DirtyStore :=
  { store with watchList := store.watchList.insertIfNew address entry }

/-- Protocols count as plain tokens when the store demotes them. -/
def demoted (store : DirtyStore) (classification : Classification) : Classification :=
  if store.demoteProtocolsToSlotOnly && classification = .protocol then .slotOnly
  else classification

/-- The contracts that were added before the list is found full stay on it. -/
def apply (config : ClassificationConfig) (store : DirtyStore) (diff : StateDiff)
    (blockNumber : UInt64) :
    List (Address × Classification) → DirtyStore × Except MirageError Unit
  | [] => (store, .ok ())
  | (address, classification) :: visited =>
      if store.unwatchList.contains address then
        apply config store diff blockNumber visited
      else if demoted store classification ≠ .protocol then
        apply config store diff blockNumber visited
      else if !store.watchList.contains address &&
          config.maxWatchedContracts ≤ store.watchList.size then
        (store, .error .watchListFull)
      else
        apply config
          (watch store address (watchEntry .autoClassified diff address blockNumber))
          diff blockNumber visited

end DiffClassifier

namespace TargetedFollower

open DiffClassifier

/-- The addresses of the list that the walk has not been at. -/
def unseen (watchList : Std.ExtTreeMap Address WatchEntry) (seen : List Address) :
    List Address :=
  watchList.keys.filter (· ∉ seen)

theorem length_unseen_cons {watchList : Std.ExtTreeMap Address WatchEntry}
    {seen : List Address} {current : Address} (new : current ∉ seen)
    (watched : current ∈ watchList) :
    (unseen watchList (current :: seen)).length < (unseen watchList seen).length := by
  have rest : unseen watchList (current :: seen) =
      (unseen watchList seen).filter (· ≠ current) := by
    unfold unseen
    rw [List.filter_filter]
    congr 1
    funext address
    simp [not_or]
  rw [rest, List.length_filter_lt_length_iff_exists]
  refine ⟨current, ?_, by simp⟩
  exact List.mem_filter.mpr ⟨Std.ExtTreeMap.mem_keys.mpr watched, by simpa using new⟩

/-- Follow the parents until one was not watched by contagion or was seen before. -/
def watchDepthFrom (watchList : Std.ExtTreeMap Address WatchEntry)
    (seen : List Address) (depth : Nat) (current : Address) : Nat :=
  if _ : current ∈ seen then depth
  else
    match _ : watchList[current]? with
    | none => depth
    | some entry =>
        match entry.source with
        | .autoClassified | .manual => depth
        | .contagion parent =>
            watchDepthFrom watchList (current :: seen) (depth + 1) parent
termination_by (unseen watchList seen).length
decreasing_by
  have found : watchList[current]? = some entry := ‹_›
  refine length_unseen_cons ‹_› (Std.ExtTreeMap.mem_iff_isSome_getElem?.mpr ?_)
  rw [found]
  rfl

def watchDepth (watchList : Std.ExtTreeMap Address WatchEntry) (address : Address) :
    Nat :=
  watchDepthFrom watchList [] 0 address

/-- The address `0` stands for an unknown parent. -/
def contagionSource (parent : Address) : WatchSource :=
  if parent = 0 then .autoClassified else .contagion parent

def watchTouched (config : ClassificationConfig) (store : DirtyStore)
    (diff : StateDiff) (blockNumber : UInt64) (parent : Address) :
    List (Address × Classification) → DirtyStore × Except MirageError Unit
  | [] => (store, .ok ())
  | (address, classification) :: visited =>
      if classification ≠ .protocol then
        watchTouched config store diff blockNumber parent visited
      else if config.maxContagionDepth < watchDepth store.watchList parent + 1 then
        watchTouched config store diff blockNumber parent visited
      else if store.unwatchList.contains address || store.watchList.contains address then
        watchTouched config store diff blockNumber parent visited
      else if config.maxWatchedContracts ≤ store.watchList.size then
        (store, .error .watchListFull)
      else
        watchTouched config
          (watch store address
            (watchEntry (contagionSource parent) diff address blockNumber))
          diff blockNumber parent visited

def applyContagionWatchers (config : ClassificationConfig) (store : DirtyStore)
    (diff : StateDiff) (blockNumber : UInt64) (parent : Option Address)
    (visited : List (Address × Classification)) :
    DirtyStore × Except MirageError Unit :=
  if store.demoteProtocolsToSlotOnly then (store, .ok ())
  else if !config.enableContagion then (store, .ok ())
  else watchTouched config store diff blockNumber (parent.getD 0) visited

theorem accounts_apply (config : ClassificationConfig) (store : DirtyStore)
    (diff : StateDiff) (blockNumber : UInt64)
    (visited : List (Address × Classification)) :
    (apply config store diff blockNumber visited).1.accounts = store.accounts := by
  induction visited generalizing store with
  | nil => rfl
  | cons entry visited ih =>
      unfold apply
      split
      · exact ih store
      · split
        · exact ih store
        · split
          · rfl
          · exact ih _

end TargetedFollower

end Roko
