import Roko.ForkCells
import Roko.ForkSnapshots

/-!
# Interleavings of the follower and the writers

What a step adds to the live fork is an effect: a write of cells, together with what its
writer had read, and index entries.  A history loses nothing when the write layer is the
result of all writes, each write replaces values that its writer had read, and every
index entry is there until its block is evicted.

The follower puts its clone in the place of the live fork without the gate of the
writers, so whatever was committed since it cloned is lost.
-/

namespace Roko

open UpdateLog

namespace ForkState

structure ForkEffect where
  write : Write AccountCell.Value
  entries : IndexEntries

/-- The later of two entries, where it differs. -/
def newEntry {Entry : Type} [DecidableEq Entry] (before after : Option Entry) :
    Option Entry :=
  if after = before then none else after

theorem of_newEntry {Entry : Type} [DecidableEq Entry] {before after : Option Entry}
    {entry : Entry} (new : newEntry before after = some entry) : after = some entry := by
  unfold newEntry at new
  split at new
  case isTrue => cases new
  case isFalse => exact new

def IndexEntries.added (before after : IndexEntries) : IndexEntries where
  transactions hash := newEntry (before.transactions hash) (after.transactions hash)
  receipts hash := newEntry (before.receipts hash) (after.receipts hash)
  blocksByNumber number :=
    newEntry (before.blocksByNumber number) (after.blocksByNumber number)
  blocksByHash hash := newEntry (before.blocksByHash hash) (after.blocksByHash hash)

/-- The entries of a block alone. -/
def blockEntries (keys : List B256) (block : LocalBlock) : IndexEntries where
  transactions _ := none
  receipts _ := none
  blocksByNumber number := if number = block.number then some block else none
  blocksByHash hash := if hash ∈ keys then some block else none

def localEntries (ext : Externals) (transaction : LocalTransaction)
    (receipt : LocalReceipt) (block : LocalBlock) : IndexEntries :=
  { blockEntries (blockKeys ext block) block with
    transactions := fun hash =>
      if hash = transaction.hash then some transaction else none
    receipts := fun hash =>
      if hash = receipt.transactionHash then some receipt else none }

def noEntries : IndexEntries where
  transactions _ := none
  receipts _ := none
  blocksByNumber _ := none
  blocksByHash _ := none

def noWrite (fork : ForkState) : Write AccountCell.Value :=
  ⟨fork.db.cells, fun _ => none⟩

/-- What was there from the start. -/
def initialEffect (start : ForkState) : ForkEffect :=
  ⟨noWrite start, start.entries⟩

/-- What a replayed transaction did: the difference that it made on the clone. -/
def replayEffect (fork branch : ForkState) : ForkEffect :=
  ⟨⟨fork.db.cells, changes fork.db.cells branch.db.cells⟩,
    fork.entries.added branch.entries⟩

/-- What a committed transaction writes: its diff, computed on the clone, and its
entries. -/
def commitEffect (turn : CommitTurn) (fork : ForkState)
    (committed : CommittedTransaction) : ForkEffect :=
  ⟨⟨fork.db.cells, committed.diff.update turn.ext⟩,
    localEntries turn.ext committed.transaction committed.receipt committed.block⟩

end ForkState

namespace ForkSystem

open ForkState

/-- The effect of a step, if it has one. -/
def effect (system : ForkSystem) : ForkAction → Option ForkEffect
  | .followerClone => none
  | .followerAdopt config turn =>
      (system.replayed config turn).map fun replayed =>
        replayEffect replayed.1 replayed.2
  | .followerFinish syncStateOnly block =>
      if syncStateOnly then none
      else
        let filed := TargetedFollower.localBlock block
          (TargetedFollower.updateEnvironment block system.live)
        some ⟨noWrite system.live, blockEntries [filed.hash] filed⟩
  | .writerClone _ => none
  | .writerCommit writer turn =>
      (system.executed writer turn).map fun executed =>
        commitEffect turn executed.1 executed.2
  | .write change => some ⟨⟨system.live.db.cells, change.update⟩, noEntries⟩
  | .mine ext clock =>
      some ⟨noWrite system.live,
        system.live.entries.added (clock.foldl (mineEmptyBlock ext) system.live).entries⟩

/-- A system with the effects of the steps so far. -/
abbrev Recorded := ForkSystem × List ForkEffect

def record (recorded : Recorded) (action : ForkAction) : Recorded :=
  (recorded.1.step action, recorded.2 ++ (recorded.1.effect action).toList)

def start (live : ForkState) : Recorded :=
  (idle live, [initialEffect live])

/-- Blocks that were there from the start or were added. -/
def Committed (log : List ForkEffect) (number : UInt64) (block : LocalBlock) : Prop :=
  ∃ effect ∈ log, effect.entries.blocksByNumber number = some block

structure NothingLost (base : View AccountCell.Value) (log : List ForkEffect)
    (live : ForkState) : Prop where
  /-- The write layer is the result of all writes. -/
  cells : live.db.cells = result base (log.map (·.write))
  /-- No write has replaced a value that its writer had not read. -/
  serial : Serial base (log.map (·.write))
  /-- Every entry is there, or its block was evicted. -/
  shown : ∀ effect ∈ log, Shows (Committed log) effect.entries live
  /-- There are no other blocks. -/
  blocks : ∀ number block, live.blocksByNumber[number]? = some block →
    Committed log number block

/-- Nothing has been written to the live fork since it was cloned. -/
structure Undisturbed (live fork : ForkState) : Prop where
  accounts : live.db.dirty.accounts = fork.db.dirty.accounts
  indexes : SameIndexes live fork

/-- Nothing is indexed under the keys of a transaction in the next block. -/
structure NextUnused (ext : Externals) (fork : ForkState) : Prop where
  number : fork.blocksByNumber[saturatingSucc fork.localBlockNumber]? = none
  blockHash : fork.blocksByHash[ext.keccak256
    (u64Bytes (saturatingSucc fork.localBlockNumber))]? = none
  transactions : ∀ sender recipient value nonce, fork.transactions[nextTransactionHash ext
    sender recipient value nonce (fork.localBlockNumber + 1)]? = none
  receipts : ∀ sender recipient value nonce, fork.receipts[nextTransactionHash ext
    sender recipient value nonce (fork.localBlockNumber + 1)]? = none

/-- The block of an iteration of `evm_mine` gets keys of its own. -/
def MineUnused (ext : Externals) (live : ForkState) (_ : UInt64) : Prop :=
  let number := saturatingSucc live.localBlockNumber
  live.blocksByNumber[number]? = none ∧
    live.blocksByHash[ext.keccak256 (u64Bytes number).reverse]? = none ∧
    live.blocksByHash[ext.keccak256 (u64Bytes number)]? = none

/-- The follower adopts a branch of what is live, a request overwrites only cells it has
read the current values of, and every new entry gets keys of its own. -/
def Orderly (recorded : Recorded) : ForkAction → Prop
  | .followerAdopt config turn => ∀ fork branch,
      recorded.1.replayed config turn = some (fork, branch) →
      Undisturbed recorded.1.live fork ∧ NextUnused turn.ext fork
  | .followerFinish syncStateOnly block => syncStateOnly = false →
      recorded.1.live.blocksByNumber[block.number]? = none ∧
      recorded.1.live.blocksByHash[block.hash.getD 0]? = none
  | .writerCommit writer turn => ∀ fork committed,
      recorded.1.executed writer turn = some (fork, committed) →
      ReadsCurrent recorded.1.live.db.cells
          ⟨fork.db.cells, committed.diff.update turn.ext⟩ ∧
        LocalUnused turn.ext recorded.1.live committed.transaction committed.receipt
          committed.block
  | .mine ext clock => GuardedRun.Guarded (mineEmptyBlock ext) (MineUnused ext)
      recorded.1.live clock
  | _ => True

theorem committed_concat {log : List ForkEffect} {effect : ForkEffect}
    {number : UInt64} {block : LocalBlock} :
    Committed (log ++ [effect]) number block ↔
      Committed log number block ∨
        effect.entries.blocksByNumber number = some block := by
  simp only [Committed, List.mem_append, List.mem_singleton]
  constructor
  · rintro ⟨other, member | rfl, found⟩
    · exact Or.inl ⟨other, member, found⟩
    · exact Or.inr found
  · rintro (⟨other, member, found⟩ | found)
    · exact ⟨other, Or.inl member, found⟩
    · exact ⟨effect, Or.inr rfl, found⟩

variable {base : View AccountCell.Value} {log : List ForkEffect} {live next : ForkState}
  {effect : ForkEffect}

/-- An effect that writes what it has read, takes no entries away and arrives itself. -/
theorem NothingLost.concat (held : NothingLost base log live)
    (cells : next.db.cells = apply live.db.cells effect.write.update)
    (current : ReadsCurrent live.db.cells effect.write)
    (keeps : Keeps (Committed (log ++ [effect])) live next)
    (arrived : Shows (Committed (log ++ [effect])) effect.entries next)
    (blocks : ∀ number block, next.blocksByNumber[number]? = some block →
      Committed (log ++ [effect]) number block) :
    NothingLost base (log ++ [effect]) next where
  cells := by
    rw [List.map_append, List.map_singleton, result_concat, ← held.cells, cells]
  serial := by
    rw [List.map_append, List.map_singleton, serial_concat, ← held.cells]
    exact ⟨held.serial, current⟩
  shown := by
    intro other member
    rcases List.mem_append.mp member with earlier | new
    · refine (Shows.mono (fun number block found => ?_)
        (held.shown other earlier)).trans keeps
      exact committed_concat.mpr (Or.inl found)
    · rw [List.mem_singleton.mp new]
      exact arrived
  blocks := blocks

/-- A step that writes neither cells nor entries. -/
theorem NothingLost.of_same (held : NothingLost base log live)
    (cells : next.db.cells = live.db.cells) (same : SameIndexes live next) :
    NothingLost base log next where
  cells := cells.trans held.cells
  serial := held.serial
  shown effect member := (held.shown effect member).trans (Keeps.of_sameIndexes same)
  blocks number block found := by
    rw [same.blocksByNumber] at found
    exact held.blocks number block found

theorem readsCurrent_noWrite (fork : ForkState) (view : View AccountCell.Value) :
    ReadsCurrent view (noWrite fork) := by
  intro cell written
  cases written

theorem shows_noEntries (known : UInt64 → LocalBlock → Prop) (fork : ForkState) :
    Shows known noEntries fork := by
  constructor <;> intro _ _ found <;> cases found

theorem cells_congr {before after : HybridDb}
    (same : after.dirty.accounts = before.dirty.accounts) :
    after.cells = before.cells := by
  funext cell
  unfold HybridDb.cells HybridDb.account DirtyStore.account
  rw [same]

/-- The entries of the later state that the earlier one does not have are found in the
later one. -/
theorem shows_added (known : UInt64 → LocalBlock → Prop) (before : IndexEntries)
    (after : ForkState) : Shows known (before.added after.entries) after where
  transactions _ _ found := Or.inl (of_newEntry found)
  receipts _ _ found := Or.inl (of_newEntry found)
  blocksByNumber _ _ found := Or.inl (of_newEntry found)
  blocksByHash _ _ found := Or.inl (of_newEntry found)

/-- A block of the later state is one of the earlier ones, or was added. -/
theorem blocks_added (before : ForkState) {after : ForkState} {number : UInt64}
    {block : LocalBlock} (found : after.blocksByNumber[number]? = some block) :
    before.blocksByNumber[number]? = some block ∨
      (before.entries.added after.entries).blocksByNumber number = some block := by
  by_cases same : after.blocksByNumber[number]? = before.blocksByNumber[number]?
  · exact Or.inl (same.symm.trans found)
  · exact Or.inr ((if_neg same).trans found)

/-- A branch to adopt is a finalized transaction on the clone, apart from the watch list
and the environment of the database. -/
theorem executed_cases {config : ClassificationConfig}
    {turn : TargetedFollower.ReplayTurn} {fork branch : ForkState}
    (ran : TargetedFollower.replayOnClone config turn fork = .executed branch) :
    ∃ db origin target amount input gas nonce diff, SameIndexes
      (EvmExecutor.finalizeTransaction turn.ext { fork.snapshot.1 with db } origin target
        amount input gas nonce diff).1 branch := by
  unfold TargetedFollower.replayOnClone at ran
  rcases replay : TxReplay.execute turn.ext turn.fetched fork.snapshot.1 with
    ⟨last, failure | ⟨result, diff⟩⟩ <;> rw [replay] at ran
  · cases ran
  · have indexes : SameIndexes last branch := by
      dsimp only at ran
      split at ran
      · cases ran
      · split at ran
        · cases ran
        · split at ran
          · cases ran
          · cases ran
            exact ⟨rfl, rfl, rfl, rfl⟩
    unfold TxReplay.execute at replay
    split at replay
    · cases replay
    · split at replay
      · cases replay
      · obtain ⟨db, origin, target, amount, input, gas, nonce, diff, finished⟩ :=
          EvmExecutor.finalized_of_ok (congrArg Prod.snd replay)
        rw [finished] at replay
        refine ⟨db, origin, target, amount, input, gas, nonce, diff, ?_⟩
        rw [replay]
        exact indexes

theorem keeps_finalizeTransaction {known : UInt64 → LocalBlock → Prop} {ext : Externals}
    {fork : ForkState} (unused : NextUnused ext fork)
    (all : ∀ number block, fork.blocksByNumber[number]? = some block →
      known number block) (db : HybridDb) (origin : Address) (target : Option Address)
    (amount : U256) (input : Bytes) (gas nonce : UInt64) (diff : StateDiff) :
    Keeps known fork (EvmExecutor.finalizeTransaction ext { fork.snapshot.1 with db }
      origin target amount input gas nonce diff).1 := by
  have same : Keeps known fork { fork.snapshot.1 with
      db, localBlockNumber := saturatingSucc fork.localBlockNumber } :=
    Keeps.of_sameIndexes ⟨rfl, rfl, rfl, rfl⟩
  unfold EvmExecutor.finalizeTransaction
  dsimp only
  refine same.trans (keeps_insertLocal_of_own ?_ all rfl rfl)
  refine ⟨unused.transactions _ _ _ _, unused.receipts _ _ _ _, unused.number, ?_⟩
  intro hash own
  rcases mem_blockKeys.mp own with same | same <;> rw [same] <;> exact unused.blockHash

theorem nothingLost_adopt (held : NothingLost base log live)
    {config : ClassificationConfig} {turn : TargetedFollower.ReplayTurn}
    {fork branch : ForkState}
    (ran : TargetedFollower.replayOnClone config turn fork = .executed branch)
    (undisturbed : Undisturbed live fork) (unused : NextUnused turn.ext fork) :
    NothingLost base (log ++ [replayEffect fork branch])
      (live.adoptExecutedBranch branch) := by
  obtain ⟨db, origin, target, amount, input, gas, nonce, diff, finished⟩ :=
    executed_cases ran
  have sameCells := cells_congr undisturbed.accounts
  have adopted : SameIndexes branch (live.adoptExecutedBranch branch) :=
    ⟨rfl, rfl, rfl, rfl⟩
  have blocks : ∀ number block, fork.blocksByNumber[number]? = some block →
      Committed (log ++ [replayEffect fork branch]) number block := by
    intro number block found
    rw [undisturbed.indexes.blocksByNumber] at found
    exact committed_concat.mpr (Or.inl (held.blocks number block found))
  refine held.concat ?_ ?_ ?_ ?_ ?_
  · rw [sameCells]
    exact (apply_changes fork.db.cells branch.db.cells).symm
  · intro cell _
    rw [sameCells]
    rfl
  · exact ((Keeps.of_sameIndexes undisturbed.indexes).trans
      (keeps_finalizeTransaction unused blocks db origin target amount input gas nonce
        diff)).trans (Keeps.of_sameIndexes (finished.trans adopted))
  · exact (shows_added _ fork.entries branch).trans (Keeps.of_sameIndexes adopted)
  · intro number block found
    rcases blocks_added fork found with old | new
    · exact blocks number block old
    · exact committed_concat.mpr (Or.inr new)

/-- The entries of a block are found once it is filed. -/
theorem shows_blockEntries {known : UInt64 → LocalBlock → Prop} {before after : ForkState}
    {block : LocalBlock} {keys : List B256}
    (numbered : after.blocksByNumber = before.blocksByNumber.insert block.number block)
    (hashed : ∀ hash, after.blocksByHash[hash]? =
      if hash ∈ keys then some block else before.blocksByHash[hash]?) :
    Shows known (blockEntries keys block) after := by
  constructor
  case transactions => exact fun _ _ found => by cases found
  case receipts => exact fun _ _ found => by cases found
  case blocksByNumber =>
    intro number other found
    unfold blockEntries at found
    dsimp only at found
    split at found
    case isTrue same =>
      left
      rw [numbered, getElem?_insert, if_pos same, found]
    case isFalse => cases found
  case blocksByHash =>
    intro hash other found
    unfold blockEntries at found
    dsimp only at found
    split at found
    case isTrue own =>
      left
      rw [hashed, if_pos own, found]
    case isFalse => cases found

theorem shows_localEntries {known : UInt64 → LocalBlock → Prop} (ext : Externals)
    (state : ForkState) (transaction : LocalTransaction) (receipt : LocalReceipt)
    (block : LocalBlock) :
    Shows known (localEntries ext transaction receipt block)
      (fileLocal ext state transaction receipt block) := by
  have filed : Shows known (blockEntries (blockKeys ext block) block)
      (fileLocal ext state transaction receipt block) :=
    shows_blockEntries (blocksByNumber_fileLocal ext state transaction receipt block)
      (getElem?_blocksByHash_indexByHash ext _ block)
  constructor
  case blocksByNumber => exact filed.blocksByNumber
  case blocksByHash => exact filed.blocksByHash
  case transactions =>
    intro hash other found
    unfold localEntries at found
    dsimp only at found
    split at found
    case isTrue same =>
      have entry := getElem?_insert state.transactions transaction.hash hash transaction
      rw [if_pos same, found] at entry
      rw [← entry]
      left
      exact congrArg (·[hash]?) (sameIndexes_indexByHash ext _ block).1
    case isFalse => cases found
  case receipts =>
    intro hash other found
    unfold localEntries at found
    dsimp only at found
    split at found
    case isTrue same =>
      have entry := getElem?_insert state.receipts receipt.transactionHash hash receipt
      rw [if_pos same, found] at entry
      rw [← entry]
      left
      exact congrArg (·[hash]?) (sameIndexes_indexByHash ext _ block).2.1
    case isFalse => cases found

/-- A transaction is indexed in a state in which its writes were made. -/
theorem nothingLost_insertLocal (held : NothingLost base log live) {ext : Externals}
    {written : ForkState} {write : Write AccountCell.Value}
    {transaction : LocalTransaction} {receipt : LocalReceipt} {block : LocalBlock}
    (same : SameIndexes live written)
    (cells : written.db.cells = apply live.db.cells write.update)
    (current : ReadsCurrent live.db.cells write)
    (unused : LocalUnused ext written transaction receipt block) :
    NothingLost base (log ++ [⟨write, localEntries ext transaction receipt block⟩])
      (insertLocal ext written transaction receipt block) := by
  have blocks : ∀ number other, written.blocksByNumber[number]? = some other →
      Committed (log ++ [⟨write, localEntries ext transaction receipt block⟩])
        number other := by
    intro number other found
    rw [same.blocksByNumber] at found
    exact committed_concat.mpr (Or.inl (held.blocks number other found))
  obtain ⟨pruned, kept, retained⟩ := keeps_insertLocal ext written transaction receipt
    block unused blocks (committed_concat.mpr (Or.inr (if_pos rfl)))
  refine held.concat ?_ current ?_ ?_ retained
  · rw [(sameChain_insertLocal ext written transaction receipt block).db]
    exact cells
  · exact (Keeps.of_sameIndexes same).trans kept
  · exact (shows_localEntries ext written transaction receipt block).trans pruned

theorem nothingLost_commit (held : NothingLost base log live) {turn : CommitTurn}
    {fork : ForkState} {committed : CommittedTransaction}
    (current : ReadsCurrent live.db.cells
      ⟨fork.db.cells, committed.diff.update turn.ext⟩)
    (unused : LocalUnused turn.ext live committed.transaction committed.receipt
      committed.block) :
    NothingLost base (log ++ [commitEffect turn fork committed])
      (commitTransaction turn live committed) := by
  have indexed : NothingLost base (log ++ [commitEffect turn fork committed])
      (live.commitLocalTransaction turn.ext committed.diff committed.transaction
        committed.receipt committed.block) :=
    nothingLost_insertLocal held ⟨rfl, rfl, rfl, rfl⟩
      (HybridDb.cells_applyStateDiff turn.ext live.db committed.diff) current
      ⟨unused.transaction, unused.receipt, unused.block.number, unused.block.hashes⟩
  exact indexed.of_same (cells_congr (TargetedFollower.accounts_apply _ _ _ _ _))
    (sameIndexes_withDirty _ _)

/-- Blocks are filed in a state with the same write layer, and then pruned. -/
theorem nothingLost_filed (held : NothingLost base log live) {filed : ForkState}
    {entries : IndexEntries} (sameDb : filed.db = live.db)
    (kept : Keeps (Committed (log ++ [⟨noWrite live, entries⟩])) live filed)
    (arrived : Shows (Committed (log ++ [⟨noWrite live, entries⟩])) entries filed)
    (blocks : ∀ number block, filed.blocksByNumber[number]? = some block →
      live.blocksByNumber[number]? = some block ∨
        entries.blocksByNumber number = some block) :
    NothingLost base (log ++ [⟨noWrite live, entries⟩]) filed.pruneOldBlocks := by
  have all : ∀ number block, filed.blocksByNumber[number]? = some block →
      Committed (log ++ [⟨noWrite live, entries⟩]) number block := by
    intro number block found
    rcases blocks number block found with old | new
    · exact committed_concat.mpr (Or.inl (held.blocks number block old))
    · exact committed_concat.mpr (Or.inr new)
  obtain ⟨pruned, retained⟩ := keeps_pruneOldBlocks all
  refine held.concat ?_ (readsCurrent_noWrite live _) (kept.trans pruned)
    (arrived.trans pruned) retained
  rw [(sameChain_pruneOldBlocks filed).db, sameDb]
  rfl

theorem nothingLost_finish (held : NothingLost base log live)
    (block : TargetedFollower.UpstreamBlock)
    (unusedNumber : live.blocksByNumber[block.number]? = none)
    (unusedHash : live.blocksByHash[block.hash.getD 0]? = none) :
    let filed := TargetedFollower.localBlock block
      (TargetedFollower.updateEnvironment block live)
    NothingLost base (log ++ [⟨noWrite live, blockEntries [filed.hash] filed⟩])
      (TargetedFollower.fileUpstream block live).pruneOldBlocks := by
  intro filed
  have numbered : (TargetedFollower.fileUpstream block live).blocksByNumber =
      live.blocksByNumber.insert filed.number filed := rfl
  have hashed : ∀ hash, (TargetedFollower.fileUpstream block live).blocksByHash[hash]? =
      if hash ∈ [filed.hash] then some filed else live.blocksByHash[hash]? := by
    intro hash
    refine (getElem?_insert live.blocksByHash filed.hash hash filed).trans ?_
    exact if_congr List.mem_singleton.symm rfl rfl
  refine nothingLost_filed held rfl ?_ (shows_blockEntries numbered hashed) ?_
  · refine keeps_of_filed rfl rfl numbered hashed unusedNumber ?_
    intro hash own
    rw [List.mem_singleton.mp own]
    exact unusedHash
  · intro number other found
    rw [numbered, getElem?_insert] at found
    split at found
    case isTrue same => exact Or.inr ((if_pos same).trans found)
    case isFalse => exact Or.inl found

theorem mineEmptyBlock_db (ext : Externals) (clock : List UInt64) (live : ForkState) :
    (clock.foldl (mineEmptyBlock ext) live).db = live.db := by
  induction clock generalizing live with
  | nil => rfl
  | cons timestamp clock ih =>
      rw [List.foldl_cons, ih]
      unfold mineEmptyBlock fileBlock indexByHash
      dsimp only
      split <;> rfl

theorem keeps_mineEmptyBlocks {known : UInt64 → LocalBlock → Prop} {ext : Externals}
    {clock : List UInt64} {live : ForkState}
    (unused : GuardedRun.Guarded (mineEmptyBlock ext) (MineUnused ext) live clock) :
    Keeps known live (clock.foldl (mineEmptyBlock ext) live) := by
  induction clock generalizing live with
  | nil => exact Keeps.of_sameIndexes ⟨rfl, rfl, rfl, rfl⟩
  | cons timestamp clock ih =>
      rw [GuardedRun.guarded_cons] at unused
      obtain ⟨⟨number, ownHash, canonical⟩, rest⟩ := unused
      have environment : SameIndexes live { live with
          localBlockNumber := saturatingSucc live.localBlockNumber, timestamp } :=
        ⟨rfl, rfl, rfl, rfl⟩
      refine ((Keeps.of_sameIndexes environment).trans (keeps_fileBlock ?_)).trans (ih rest)
      refine ⟨number, fun hash own => ?_⟩
      rcases mem_blockKeys.mp own with same | same <;> rw [same]
      · exact ownHash
      · exact canonical

theorem nothingLost_mine (held : NothingLost base log live) {ext : Externals}
    {clock : List UInt64}
    (unused : GuardedRun.Guarded (mineEmptyBlock ext) (MineUnused ext) live clock) :
    NothingLost base (log ++ [⟨noWrite live, live.entries.added
      (clock.foldl (mineEmptyBlock ext) live).entries⟩]) (evmMine ext live clock) :=
  nothingLost_filed held (mineEmptyBlock_db ext clock live)
    (keeps_mineEmptyBlocks unused) (shows_added _ live.entries _)
    fun _ _ found => blocks_added live found

theorem nothingLost_write (held : NothingLost base log live) (change : AccountWrite) :
    NothingLost base (log ++ [⟨⟨live.db.cells, change.update⟩, noEntries⟩])
      { live with db := change.apply live.db } := by
  have same : SameIndexes live { live with db := change.apply live.db } :=
    ⟨rfl, rfl, rfl, rfl⟩
  refine held.concat (change.cells_apply live.db) (fun _ _ => rfl)
    (Keeps.of_sameIndexes same) (shows_noEntries _ _) ?_
  intro number block found
  exact committed_concat.mpr (Or.inl (held.blocks number block found))

/-- The live fork of a recorded system has lost nothing of its history. -/
def Intact (base : ForkState) (recorded : Recorded) : Prop :=
  NothingLost base.db.cells recorded.2 recorded.1.live

theorem intact_start (live : ForkState) : Intact live (start live) where
  cells := rfl
  serial := ⟨readsCurrent_noWrite live _, trivial⟩
  shown := by
    intro effect member
    rw [start, List.mem_singleton] at member
    rw [member]
    exact (Keeps.of_sameIndexes ⟨rfl, rfl, rfl, rfl⟩ : Keeps _ live live).shows
  blocks number block found := ⟨_, List.mem_singleton.mpr rfl, found⟩

theorem replayed_eq_some {system : ForkSystem} {config : ClassificationConfig}
    {turn : TargetedFollower.ReplayTurn} {fork branch : ForkState}
    (replayed : system.replayed config turn = some (fork, branch)) :
    system.follower = some fork ∧
      TargetedFollower.replayOnClone config turn fork = .executed branch := by
  obtain ⟨clone, cloned, ran⟩ := Option.bind_eq_some_iff.mp replayed
  cases result : TargetedFollower.replayOnClone config turn clone with
  | skipped =>
      rw [result] at ran
      cases ran
  | stopped failure =>
      rw [result] at ran
      cases ran
  | executed last =>
      rw [result] at ran
      cases ran
      exact ⟨cloned, result⟩

theorem executed_eq_some {system : ForkSystem} {writer : Nat} {turn : CommitTurn}
    {fork : ForkState} {committed : CommittedTransaction}
    (executed : system.executed writer turn = some (fork, committed)) :
    system.writers[writer]? = some fork ∧
      commitTransactionOnSnapshot turn fork = .ok committed := by
  obtain ⟨clone, cloned, ran⟩ := Option.bind_eq_some_iff.mp executed
  cases result : commitTransactionOnSnapshot turn clone with
  | error failure =>
      rw [result] at ran
      cases ran
  | ok last =>
      rw [result] at ran
      cases ran
      exact ⟨cloned, result⟩

theorem intact_record (base : ForkState) (recorded : Recorded) (action : ForkAction)
    (held : Intact base recorded) (orderly : Orderly recorded action) :
    Intact base (record recorded action) := by
  obtain ⟨system, log⟩ := recorded
  unfold Intact at held
  unfold Intact record
  dsimp only at held ⊢
  cases action with
  | followerClone =>
      rw [effect, Option.toList_none, List.append_nil]
      exact held
  | writerClone writer =>
      rw [effect, Option.toList_none, List.append_nil]
      exact held
  | followerAdopt config turn =>
      unfold step effect
      dsimp only
      cases replay : system.replayed config turn with
      | none =>
          rw [Option.map_none, Option.toList_none, List.append_nil]
          exact held
      | some replayed =>
          obtain ⟨undisturbed, unused⟩ := orderly replayed.1 replayed.2 replay
          exact nothingLost_adopt held (replayed_eq_some replay).2 undisturbed unused
  | followerFinish syncStateOnly block =>
      unfold step effect TargetedFollower.finishBlock
      dsimp only
      cases syncStateOnly with
      | true =>
          rw [if_pos rfl, if_pos rfl, Option.toList_none, List.append_nil]
          exact held.of_same rfl ⟨rfl, rfl, rfl, rfl⟩
      | false =>
          obtain ⟨number, hash⟩ := orderly rfl
          rw [if_neg Bool.false_ne_true, if_neg Bool.false_ne_true]
          exact nothingLost_finish held block number hash
  | writerCommit writer turn =>
      unfold step effect
      dsimp only
      cases execution : system.executed writer turn with
      | none =>
          rw [Option.map_none, Option.toList_none, List.append_nil]
          exact held
      | some executed =>
          obtain ⟨current, unused⟩ := orderly executed.1 executed.2 execution
          exact nothingLost_commit held current unused
  | write change => exact nothingLost_write held change
  | mine ext clock =>
      unfold step effect
      dsimp only
      exact nothingLost_mine held orderly

/-- A hash that returns the last bytes. -/
def tailExternals : Externals :=
  { EvmExecutor.mappingExternals with
    keccak256 := fun bytes => ofBytes 256 (bytes.drop (bytes.length - 32)) }

/-- A request that sends three from the first account to the second. -/
def paymentTurn : CommitTurn where
  ext := tailExternals
  request := { sender := some 1, recipient := some 2, gas := none, value := some 3,
               data := none }
  overrideHash := none
  transactionOrder := id
  classifierOrder := id

/-- An upstream transaction between two other accounts. -/
def replayTurn : TargetedFollower.ReplayTurn where
  ext := tailExternals
  fetched := .ok { sender := some 5, recipient := some 6, gas := none, value := none,
                   data := none }
  number := 101
  parent := some 6
  contagionOrder := id
  classifierOrder := id

end ForkSystem

end Roko
