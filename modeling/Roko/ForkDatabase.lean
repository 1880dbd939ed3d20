import Roko.ForkTypes

/-!
# The write layer and the database of a fork

The model of `DirtyStore` and `HybridDB` in `mirage-rs/src/fork.rs`.  A read takes
what the write layer overrides and asks the upstream node for the rest.  The
balance of a token owner is read from the storage of the token, at a mapping slot
that is guessed once and recorded.
-/

namespace Roko

namespace DirtyAccount

/-- Some of the account data is not overridden. -/
def needsUpstream (account : DirtyAccount) : Bool :=
  account.balance.isNone || account.nonce.isNone || account.code.isNone

/-- The overrides laid over the data of the upstream node. -/
def overlay (account : DirtyAccount) (base : AccountInfo) : AccountInfo :=
  { balance := account.balance.getD base.balance
    nonce := account.nonce.getD base.nonce
    codeHash := account.codeHash.getD base.codeHash
    code := account.code.or base.code }

def applyDiff (ext : Externals) (account : DirtyAccount) (diff : AccountDiff) :
    DirtyAccount :=
  { account with
    balance := diff.newBalance.or account.balance
    nonce := diff.newNonce.or account.nonce
    code := diff.newCode.or account.code
    codeHash := (diff.newCode.map ext.keccak256).or account.codeHash
    storage := diff.storageWritten.toList.foldl
      (fun storage entry => storage.insert entry.1 entry.2) account.storage }

end DirtyAccount

namespace DirtyStore

/-- The entry of an account, or an entry without overrides. -/
def account (store : DirtyStore) (address : Address) : DirtyAccount :=
  store.accounts[address]?.getD {}

/-- `entry(address).or_default()`, followed by a change. -/
def modify (store : DirtyStore) (address : Address)
    (change : DirtyAccount → DirtyAccount) : DirtyStore :=
  { store with
    accounts := store.accounts.insert address (change (store.account address)) }

def setStorage (store : DirtyStore) (address : Address) (slot value : U256) :
    DirtyStore :=
  let fresh := !(store.account address).storage.contains slot
  let store := store.modify address fun account =>
    { account with storage := account.storage.insert slot value }
  if fresh then
    { store with totalDirtySlots := saturatingSucc store.totalDirtySlots }
  else store

def snapshot (store : DirtyStore) (blockNumber txIndex : UInt64) :
    DirtyStore × UInt64 :=
  let id := store.nextSnapshotId
  ({ store with
      nextSnapshotId := saturatingSucc id
      snapshots := store.snapshots.insert id
        { accounts := store.accounts, watchList := store.watchList,
          unwatchList := store.unwatchList,
          totalDirtySlots := store.totalDirtySlots, blockNumber, txIndex } },
    id)

/-- Restore a snapshot and drop it and the later ones. -/
def revert (store : DirtyStore) (id : UInt64) :
    DirtyStore × Except MirageError (UInt64 × UInt64) :=
  match store.snapshots[id]? with
  | none => (store, .error (.snapshotNotFound id))
  | some snapshot =>
      ({ store with
          accounts := snapshot.accounts
          watchList := snapshot.watchList
          unwatchList := snapshot.unwatchList
          totalDirtySlots := snapshot.totalDirtySlots
          snapshots := (store.snapshots.erase id).filter fun other _ => other < id },
        .ok (snapshot.blockNumber, snapshot.txIndex))

/-- Drop all local state; the counter of snapshots goes on. -/
def clear (store : DirtyStore) : DirtyStore :=
  { store with
    accounts := ∅
    watchList := ∅
    unwatchList := ∅
    totalDirtySlots := 0
    snapshots := ∅ }

/-- The slots of a diff that the account does not override yet. -/
def freshSlots (account : DirtyAccount) (diff : AccountDiff) : List U256 :=
  diff.storageWritten.keys.filter fun slot => !account.storage.contains slot

def applyAccountDiff (ext : Externals) (store : DirtyStore)
    (entry : Address × AccountDiff) : DirtyStore :=
  let fresh := freshSlots (store.account entry.1) entry.2
  let store := store.modify entry.1 fun account => account.applyDiff ext entry.2
  { store with
    totalDirtySlots := fresh.foldl (fun count _ => saturatingSucc count)
      store.totalDirtySlots }

def applyStateDiff (ext : Externals) (store : DirtyStore) (diff : StateDiff) :
    DirtyStore :=
  diff.accounts.toList.foldl (applyAccountDiff ext) store

end DirtyStore

/-- The slot of an owner in the balance mapping with the given slot. -/
def erc20MappingSlot (ext : Externals) (owner : Address) (slot : U256) : U256 :=
  ext.keccak256 (List.replicate 12 0 ++ addressBytes owner ++ u256Bytes slot)

def knownErc20BalanceSlot (token : Address) : Option U256 :=
  if token = 0xC02aaA39b223FE8D0A0e5C4F27eAD9083C756Cc2 ∨
      token = 0x4200000000000000000000000000000000000006 then some 3
  else if token = 0xA0b86991c6218b36c1d19D4a2e9Eb0cE3606eB48 ∨
      token = 0x833589fCD6eDb6E08f4c7C32D4f71b54bdA02913 then some 9
  else none

namespace HybridDb

def resolveBlock (db : HybridDb) : BlockTag :=
  db.pinnedBlock.elim .latest .number

/-- Change the entry of an account in the write layer. -/
def modify (db : HybridDb) (address : Address)
    (change : DirtyAccount → DirtyAccount) : HybridDb :=
  { db with dirty := db.dirty.modify address change }

def setBalance (db : HybridDb) (address : Address) (balance : U256) : HybridDb :=
  db.modify address fun account => { account with balance := some balance }

def setNonce (db : HybridDb) (address : Address) (nonce : UInt64) : HybridDb :=
  db.modify address fun account => { account with nonce := some nonce }

def setCode (ext : Externals) (db : HybridDb) (address : Address)
    (code : Bytecode) : HybridDb :=
  db.modify address fun account =>
    { account with code := some code, codeHash := some (ext.keccak256 code) }

def setStorage (db : HybridDb) (address : Address) (slot value : U256) :
    HybridDb :=
  { db with dirty := db.dirty.setStorage address slot value }

def basic (ext : Externals) (db : HybridDb) (address : Address) :
    Except MirageError (Option AccountInfo) :=
  match db.dirty.accounts[address]? with
  | none => ext.accountInfo address db.resolveBlock
  | some dirty =>
      if dirty.needsUpstream then
        (ext.accountInfo address db.resolveBlock).map fun fetched =>
          some (dirty.overlay (fetched.getD {}))
      else .ok (some (dirty.overlay {}))

def storage (ext : Externals) (db : HybridDb) (address : Address) (index : U256) :
    Except MirageError U256 :=
  match (db.dirty.account address).storage[index]? with
  | some value => .ok value
  | none => ext.storageAt address index db.resolveBlock

/-- Try the mapping slots in turn until the owner has a balance there. -/
def probeBalanceSlot (ext : Externals) (db : HybridDb) (token owner : Address) :
    List U256 → Except MirageError U256
  | [] => .error (.slotDetectionFailed token)
  | slot :: slots => do
      let balance ← storage ext db token (erc20MappingSlot ext owner slot)
      if balance ≠ 0 then return slot
      probeBalanceSlot ext db token owner slots

/-- The slot that a lookup without a recorded slot finds. -/
def findBalanceSlot (ext : Externals) (db : HybridDb) (token owner : Address) :
    Except MirageError U256 :=
  match knownErc20BalanceSlot token with
  | some slot => .ok slot
  | none => probeBalanceSlot ext db token owner [0, 1, 2, 3, 4, 5, 6, 7]

def recordBalanceSlot (db : HybridDb) (token : Address) (slot : U256) : HybridDb :=
  db.modify token fun account => { account with erc20BalanceSlot := some slot }

def erc20BalanceSlot (ext : Externals) (db : HybridDb) (token owner : Address) :
    HybridDb × Except MirageError U256 :=
  match (db.dirty.account token).erc20BalanceSlot with
  | some slot => (db, .ok slot)
  | none =>
      match findBalanceSlot ext db token owner with
      | .error failure => (db, .error failure)
      | .ok slot => (db.recordBalanceSlot token slot, .ok slot)

/-- The call `balanceOf(owner)` on the upstream node; the last 32 bytes of the
answer are the balance. -/
def upstreamBalanceOf (ext : Externals) (db : HybridDb) (token owner : Address) :
    Except MirageError U256 := do
  if (← basic ext db token).isNone then throw (.slotDetectionFailed token)
  let data := [0x70, 0xa0, 0x82, 0x31] ++ List.replicate 12 0 ++ addressBytes owner
  let raw ← ext.ethCall owner token data db.resolveBlock
  return ofBytes 256 (raw.drop (raw.length - 32))

def erc20BalanceOf (ext : Externals) (db : HybridDb) (token owner : Address) :
    HybridDb × Except MirageError U256 :=
  match (db.dirty.account token).erc20Balances[owner]? with
  | some balance => (db, .ok balance)
  | none =>
      match erc20BalanceSlot ext db token owner with
      | (db, .ok slot) => (db, storage ext db token (erc20MappingSlot ext owner slot))
      | (db, .error _) => (db, upstreamBalanceOf ext db token owner)

/-- The total supply is taken to be in slot 1 and follows the change. -/
def nextTotalSupply (total previous balance : U256) : U256 :=
  if previous ≤ balance then U256.saturatingAdd total (balance - previous)
  else U256.saturatingSub total (previous - balance)

/-- Write a balance into the mapping, adjust the total supply and keep the balance
as an override.  Reads that fail count as zero. -/
def setErc20Balance (ext : Externals) (db : HybridDb) (token owner : Address)
    (balance : U256) : HybridDb × U256 :=
  let (db, read) := erc20BalanceOf ext db token owner
  let previous := read.toOption.getD 0
  let (db, found) := erc20BalanceSlot ext db token owner
  let slot := found.toOption.getD 0
  let db := db.setStorage token (erc20MappingSlot ext owner slot) balance
  let total := (storage ext db token 1).toOption.getD 0
  let db := db.setStorage token 1 (nextTotalSupply total previous balance)
  let db := db.modify token fun account =>
    { account with
      erc20BalanceSlot := some slot
      erc20Balances := account.erc20Balances.insert owner balance }
  (db, slot)

/-- Drop the entry of an account and stop counting its slots. -/
def removeAccount (db : HybridDb) (address : Address) : HybridDb :=
  match db.dirty.accounts[address]? with
  | none => db
  | some old =>
      { db with dirty := { db.dirty with
          accounts := db.dirty.accounts.erase address
          totalDirtySlots := saturatingSub64 db.dirty.totalDirtySlots
            (UInt64.ofNat old.storage.size) } }

/-- Write the fields of a committed account. -/
def writeAccount (ext : Externals) (db : HybridDb) (address : Address)
    (account : EvmAccount) : HybridDb :=
  let db := (db.setBalance address account.balance).setNonce address account.nonce
  let db :=
    match account.code with
    | none => db
    | some code => if code.isEmpty then db else setCode ext db address code
  account.storage.toList.foldl
    (fun db entry =>
      if entry.2.original ≠ entry.2.present then
        db.setStorage address entry.1 entry.2.present
      else db)
    db

def commitAccount (ext : Externals) (db : HybridDb)
    (entry : Address × EvmAccount) : HybridDb :=
  if !entry.2.touched then db
  else if entry.2.selfdestructed then db.removeAccount entry.1
  else if entry.2.created then
    writeAccount ext (db.removeAccount entry.1) entry.1 entry.2
  else writeAccount ext db entry.1 entry.2

def commit (ext : Externals) (db : HybridDb)
    (changes : Std.ExtTreeMap Address EvmAccount) : HybridDb :=
  changes.toList.foldl (commitAccount ext) db

/-- The source's `hollow_hybrid`: the database without the write layer. -/
def hollowHybrid (template : HybridDb) : HybridDb :=
  { template with dirty := {} }

end HybridDb

/-!
# The state of a fork

The model of `ForkState` in `mirage-rs/src/fork.rs`: the database, the block
environment and the indexes of local transactions, receipts and blocks.  At most
a thousand blocks are retained.
-/

structure ForkState where
  db : HybridDb
  localBlockNumber : UInt64
  chainId : UInt64
  timestamp : UInt64
  nextBaseFeePerGas : BitVec 128
  coinbase : Address
  prevRandao : B256
  receipts : Std.ExtTreeMap B256 LocalReceipt
  transactions : Std.ExtTreeMap B256 LocalTransaction
  blocksByNumber : Std.ExtTreeMap UInt64 LocalBlock
  blocksByHash : Std.ExtTreeMap B256 LocalBlock
  strictBalance : Bool
  deriving DecidableEq

namespace ForkState

/-- A fork without local transactions; the timestamp is the time of the clock. -/
def new (db : HybridDb) (localBlockNumber chainId timestamp : UInt64) : ForkState :=
  { db, localBlockNumber, chainId, timestamp, nextBaseFeePerGas := 1, coinbase := 0
    prevRandao := 0, receipts := ∅, transactions := ∅, blocksByNumber := ∅
    blocksByHash := ∅, strictBalance := false }

def snapshot (state : ForkState) : ForkState × UInt64 :=
  let (dirty, id) := state.db.dirty.snapshot state.localBlockNumber
    (UInt64.ofNat state.transactions.size)
  ({ state with db := { state.db with dirty } }, id)

/-- The number of transactions at the snapshot is returned to here and dropped. -/
def revert (state : ForkState) (id : UInt64) :
    ForkState × Except MirageError Bool :=
  match state.db.dirty.revert id with
  | (dirty, .error failure) =>
      ({ state with db := { state.db with dirty } }, .error failure)
  | (dirty, .ok (blockNumber, _)) =>
      ({ state with
          db := { state.db with dirty }, localBlockNumber := blockNumber },
        .ok true)

def maxRetainedBlocks : Nat := 1000

/-- Drop the oldest block with its transactions and receipts. -/
def popFirstBlock (state : ForkState) : ForkState :=
  match state.blocksByNumber.minEntry? with
  | none => state
  | some (number, old) =>
      { state with
        blocksByNumber := state.blocksByNumber.erase number
        blocksByHash := state.blocksByHash.erase old.hash
        transactions := old.transactions.foldl (fun map hash => map.erase hash)
          state.transactions
        receipts := old.transactions.foldl (fun map hash => map.erase hash)
          state.receipts }

/-- Each turn of the loop drops a block, so the surplus is the number of turns. -/
def pruneOldBlocks (state : ForkState) : ForkState :=
  (popFirstBlock^[state.blocksByNumber.size - maxRetainedBlocks]) state

/-- A block is found under its own hash and under the hash of its number. -/
def indexByHash (ext : Externals) (state : ForkState) (block : LocalBlock) :
    ForkState :=
  let canonicalHash := ext.keccak256 (u64Bytes block.number)
  let state :=
    { state with blocksByHash := state.blocksByHash.insert block.hash block }
  if canonicalHash ≠ block.hash then
    { state with blocksByHash := state.blocksByHash.insert canonicalHash block }
  else state

/-- Index a transaction, its receipt and its block, and prune. -/
def insertLocal (ext : Externals) (state : ForkState)
    (transaction : LocalTransaction) (receipt : LocalReceipt)
    (block : LocalBlock) : ForkState :=
  let state := { state with
    transactions := state.transactions.insert transaction.hash transaction
    receipts := state.receipts.insert receipt.transactionHash receipt }
  let state := indexByHash ext state block
  { state with
    blocksByNumber := state.blocksByNumber.insert block.number block }.pruneOldBlocks

/-- Merge a transaction that was executed on a clone. -/
def commitLocalTransaction (ext : Externals) (state : ForkState)
    (diff : StateDiff) (transaction : LocalTransaction) (receipt : LocalReceipt)
    (block : LocalBlock) : ForkState :=
  let dirty := state.db.dirty.applyStateDiff ext diff
  insertLocal ext
    { state with db := { state.db with dirty }, localBlockNumber := block.number }
    transaction receipt block

/-- Take over what was executed on a clone. -/
def adoptExecutedBranch (state branch : ForkState) : ForkState :=
  { state with
    db := { state.db with dirty := branch.db.dirty }
    localBlockNumber := branch.localBlockNumber
    timestamp := branch.timestamp
    receipts := branch.receipts
    transactions := branch.transactions
    blocksByNumber := branch.blocksByNumber
    blocksByHash := branch.blocksByHash }

/-- Indexing writes neither the database nor the block environment. -/
structure SameChain (before after : ForkState) : Prop where
  db : after.db = before.db
  localBlockNumber : after.localBlockNumber = before.localBlockNumber
  strictBalance : after.strictBalance = before.strictBalance

theorem SameChain.trans {first second third : ForkState}
    (left : SameChain first second) (right : SameChain second third) :
    SameChain first third :=
  ⟨right.db.trans left.db, right.localBlockNumber.trans left.localBlockNumber,
    right.strictBalance.trans left.strictBalance⟩

theorem sameChain_popFirstBlock (state : ForkState) :
    SameChain state state.popFirstBlock := by
  unfold popFirstBlock
  split <;> exact ⟨rfl, rfl, rfl⟩

theorem sameChain_pruneOldBlocks (state : ForkState) :
    SameChain state state.pruneOldBlocks := by
  unfold pruneOldBlocks
  induction state.blocksByNumber.size - maxRetainedBlocks generalizing state with
  | zero => exact ⟨rfl, rfl, rfl⟩
  | succ count ih =>
      rw [Function.iterate_succ_apply]
      exact (sameChain_popFirstBlock state).trans (ih state.popFirstBlock)

theorem sameChain_insertLocal (ext : Externals) (state : ForkState)
    (transaction : LocalTransaction) (receipt : LocalReceipt) (block : LocalBlock) :
    SameChain state (insertLocal ext state transaction receipt block) := by
  refine SameChain.trans ?_ (sameChain_pruneOldBlocks _)
  unfold indexByHash
  dsimp only
  split <;> exact ⟨rfl, rfl, rfl⟩

/-- The indexes of transactions, receipts and blocks are the same. -/
structure SameIndexes (before after : ForkState) : Prop where
  transactions : after.transactions = before.transactions
  receipts : after.receipts = before.receipts
  blocksByNumber : after.blocksByNumber = before.blocksByNumber
  blocksByHash : after.blocksByHash = before.blocksByHash

theorem SameIndexes.trans {first second third : ForkState}
    (left : SameIndexes first second) (right : SameIndexes second third) :
    SameIndexes first third :=
  ⟨right.transactions.trans left.transactions, right.receipts.trans left.receipts,
    right.blocksByNumber.trans left.blocksByNumber,
    right.blocksByHash.trans left.blocksByHash⟩

end ForkState

end Roko
