import Roko.ForkCommits
import Roko.GuardedRuns

/-!
# Snapshots of a fork

A snapshot captures the write layer and the block number, and a revert restores them
and drops the later snapshots.  The indexes of transactions, receipts and blocks are
not captured, so what a transaction added there survives a revert; and a failed
execution of the EVM leaves a write layer without snapshots.
-/

namespace Roko

open HybridDb

namespace HybridDb

/-- The snapshots and their counter are the same. -/
structure SameSnapshots (before after : HybridDb) : Prop where
  snapshots : after.dirty.snapshots = before.dirty.snapshots
  nextSnapshotId : after.dirty.nextSnapshotId = before.dirty.nextSnapshotId

namespace SameSnapshots

theorem refl (db : HybridDb) : SameSnapshots db db :=
  ⟨rfl, rfl⟩

theorem trans {first second third : HybridDb} (left : SameSnapshots first second)
    (right : SameSnapshots second third) : SameSnapshots first third :=
  ⟨right.snapshots.trans left.snapshots,
    right.nextSnapshotId.trans left.nextSnapshotId⟩

theorem modify (db : HybridDb) (address : Address)
    (change : DirtyAccount → DirtyAccount) :
    SameSnapshots db (db.modify address change) :=
  ⟨rfl, rfl⟩

theorem setStorage (db : HybridDb) (address : Address) (slot value : U256) :
    SameSnapshots db (db.setStorage address slot value) := by
  unfold HybridDb.setStorage DirtyStore.setStorage
  dsimp only
  split <;> exact ⟨rfl, rfl⟩

theorem erc20BalanceSlot (ext : Externals) (db : HybridDb) (token owner : Address) :
    SameSnapshots db (HybridDb.erc20BalanceSlot ext db token owner).1 := by
  rcases erc20BalanceSlot_fst ext db token owner with
    ⟨same, -⟩ | ⟨slot, -, -, recorded⟩
  · rw [same]
    exact refl db
  · rw [recorded]
    exact modify db token _

theorem erc20BalanceOf (ext : Externals) (db : HybridDb) (token owner : Address) :
    SameSnapshots db (HybridDb.erc20BalanceOf ext db token owner).1 := by
  rw [erc20BalanceOf_fst]
  split
  · exact refl db
  · exact erc20BalanceSlot ext db token owner

theorem setErc20Balance (ext : Externals) (db : HybridDb) (token owner : Address)
    (balance : U256) :
    SameSnapshots db (HybridDb.setErc20Balance ext db token owner balance).1 := by
  have reads := (erc20BalanceOf ext db token owner).trans
    (erc20BalanceSlot ext _ token owner)
  unfold HybridDb.setErc20Balance
  exact ((reads.trans (setStorage _ token _ _)).trans (setStorage _ token _ _)).trans
    (modify _ token _)

theorem removeAccount (db : HybridDb) (address : Address) :
    SameSnapshots db (db.removeAccount address) := by
  unfold HybridDb.removeAccount
  split <;> exact ⟨rfl, rfl⟩

theorem writeAccount (ext : Externals) (db : HybridDb) (address : Address)
    (account : EvmAccount) :
    SameSnapshots db (HybridDb.writeAccount ext db address account) := by
  have slots : ∀ (entries : List (U256 × EvmSlot)) (db : HybridDb),
      SameSnapshots db (entries.foldl (fun db entry =>
        if entry.2.original ≠ entry.2.present then
          db.setStorage address entry.1 entry.2.present
        else db) db) := by
    intro entries
    induction entries with
    | nil => exact refl
    | cons entry entries ih =>
        intro db
        rw [List.foldl_cons]
        refine trans ?_ (ih _)
        split
        case isTrue => exact setStorage db address _ _
        case isFalse => exact refl db
  unfold HybridDb.writeAccount
  dsimp only
  refine trans ?_ (slots _ _)
  cases account.code with
  | none => exact ⟨rfl, rfl⟩
  | some code => dsimp only; split <;> exact ⟨rfl, rfl⟩

theorem commit (ext : Externals) (db : HybridDb)
    (changes : Std.ExtTreeMap Address EvmAccount) :
    SameSnapshots db (HybridDb.commit ext db changes) := by
  unfold HybridDb.commit
  induction changes.toList generalizing db with
  | nil => exact refl db
  | cons entry entries ih =>
      rw [List.foldl_cons]
      refine trans ?_ (ih _)
      unfold commitAccount
      split
      case isTrue => exact refl db
      case isFalse =>
        split
        case isTrue => exact removeAccount db entry.1
        case isFalse =>
          split
          case isTrue =>
            exact (removeAccount db entry.1).trans (writeAccount ext _ _ _)
          case isFalse => exact writeAccount ext _ _ _

theorem applyStateDiff (ext : Externals) (db : HybridDb) (diff : StateDiff) :
    SameSnapshots db (db.applyStateDiff ext diff) := by
  have entries : ∀ (entries : List (Address × AccountDiff)) (store : DirtyStore),
      (entries.foldl (DirtyStore.applyAccountDiff ext) store).snapshots =
          store.snapshots ∧
        (entries.foldl (DirtyStore.applyAccountDiff ext) store).nextSnapshotId =
          store.nextSnapshotId := by
    intro entries
    induction entries with
    | nil => exact fun _ => ⟨rfl, rfl⟩
    | cons entry entries ih => exact fun store => ih _
  exact ⟨(entries _ _).1, (entries _ _).2⟩

end SameSnapshots

end HybridDb

namespace EvmExecutor

variable {ext : Externals} {state : ForkState} {sender : Address}

/-- When the EVM is reached it returns. -/
def EvmReturns (ext : Externals) (state : ForkState) (sender : Address)
    (target : Option Address) (data : Bytes) (value : U256) (gasLimit : UInt64) :
    Prop :=
  ∀ found, SenderCovers ext state sender value found →
    let call := evmCall state sender target data value gasLimit (found.getD {}).nonce
    ext.buildTx call = .ok () → ∃ outcome, ext.transact call state.db = .ok outcome

/-- The transaction does not reach the EVM, or the EVM returns. -/
def NoEvmFailure (ext : Externals) (state : ForkState) (sender : Address)
    (recipient : Option Address) (data : Bytes) (value : U256) (gasLimit : UInt64) :
    Prop :=
  if data.isEmpty then True
  else
    match recipient with
    | none => EvmReturns ext state sender none data value gasLimit
    | some target =>
        match (transactionSelector data).filter isProtocolSelector with
        | some _ => True
        | none =>
            match decodeErc20Transfer data with
            | some _ => True
            | none => EvmReturns ext state sender (some target) data value gasLimit

/-- A transaction fails after some writes of the database, or writes the database and
is finalized. -/
inductive Outcome (ext : Externals) (state : ForkState) (result : ForkState × Executed) :
    Prop
  | failed (db : HybridDb) (failure : MirageError)
      (same : SameSnapshots state.db db)
      (stopped : result = ({ state with db }, .error failure))
  | completed (db : HybridDb) (same : SameSnapshots state.db db)
      (sender : Address) (recipient : Option Address) (value : U256) (input : Bytes)
      (gasLimit nonce : UInt64) (diff : StateDiff)
      (finished : result = finalizeTransaction ext { state with db } sender recipient
        value input gasLimit nonce diff)

theorem outcome_finishSimulated {db : HybridDb} (same : SameSnapshots state.db db)
    (contract : Address) (input : Bytes) (gasLimit : UInt64) (diff : StateDiff) :
    Outcome ext state
      (finishSimulated ext { state with db } sender contract input gasLimit diff) := by
  rcases finishSimulated_cases ext { state with db } sender contract input gasLimit
    diff with ⟨failure, -, stopped⟩ | ⟨found, -, finished⟩
  · exact .failed db failure same stopped
  · exact .completed _ (same.trans (SameSnapshots.modify db sender _)) _ _ _ _ _ _ _
      finished

theorem sameSnapshots_writeValueTransfer (db : HybridDb) (target : Address)
    (senderBalance targetBalance : U256) (nextNonce : UInt64) :
    SameSnapshots db (writeValueTransfer db sender target senderBalance targetBalance
      nextNonce) :=
  ⟨rfl, rfl⟩

theorem sameSnapshots_touchContract (db : HybridDb) (contract : Address)
    (selector input : Bytes) :
    SameSnapshots db (touchContract ext db sender contract selector input).1 := by
  have marked : SameSnapshots db (markContract db contract (ext.keccak256 selector)
      (ext.keccak256 (addressBytes sender)) (BitVec.ofNat 256 input.length)) :=
    ((SameSnapshots.setStorage db contract 0 _).trans
      (SameSnapshots.setStorage _ contract 1 _)).trans
      (SameSnapshots.setStorage _ contract 2 _)
  unfold touchContract
  dsimp only
  split
  case isFalse => exact marked
  case isTrue =>
    split <;>
      exact (marked.trans (SameSnapshots.erc20BalanceOf ext _ contract sender)).trans
        (SameSnapshots.setErc20Balance ext _ contract sender _)

theorem sameSnapshots_transferBalances (ext : Externals) (db : HybridDb)
    (strict : Bool) (token sender recipient : Address) (amount : U256) :
    SameSnapshots db
      (transferBalances ext db strict token sender recipient amount).1 := by
  have first := SameSnapshots.erc20BalanceOf ext db token sender
  unfold transferBalances
  rcases senderRead : HybridDb.erc20BalanceOf ext db token sender with
    ⟨next, failure | senderBalance⟩
  · rw [senderRead] at first
    exact first
  · rw [senderRead] at first
    dsimp only
    split
    case isTrue => exact first
    case isFalse =>
      have second := SameSnapshots.erc20BalanceOf ext next token recipient
      rcases recipientRead : HybridDb.erc20BalanceOf ext next token recipient with
        ⟨last, failure | recipientBalance⟩ <;>
        rw [recipientRead] at second <;> exact first.trans second

theorem outcome_erc20Transfer (token recipient : Address) (amount : U256)
    (gasLimit : UInt64) (input : Bytes) :
    Outcome ext state
      (transactErc20Transfer ext state sender token recipient amount gasLimit
        input) := by
  have reads := sameSnapshots_transferBalances ext state.db state.strictBalance token
    sender recipient amount
  unfold transactErc20Transfer
  rcases read : transferBalances ext state.db state.strictBalance token sender recipient
    amount with ⟨db, failure | ⟨senderBalance, recipientBalance⟩⟩
  · rw [read] at reads
    exact .failed db failure reads rfl
  · rw [read] at reads
    exact outcome_finishSimulated ((reads.trans
      (SameSnapshots.setErc20Balance ext db token sender _)).trans
        (SameSnapshots.setErc20Balance ext _ token recipient _)) token input gasLimit _

/-- The path through the EVM, unless the EVM fails. -/
theorem outcome_evm {target : Option Address} {data : Bytes} {value : U256}
    {gasLimit : UInt64} {output : EvmResult → Bytes}
    (returns : EvmReturns ext state sender target data value gasLimit ∨
      ∃ outcome, (transactEvm ext state sender target data value gasLimit output).2 =
        .ok outcome) :
    Outcome ext state
      (transactEvm ext state sender target data value gasLimit output) := by
  rcases transactEvm_cases ext state sender target data value gasLimit output with
    ⟨failure, stopped, -⟩ |
    ⟨found, covers, built, ⟨failure, failed, stopped⟩ | ⟨result, changes, -, finished⟩⟩
  · exact .failed state.db failure (SameSnapshots.refl state.db) stopped
  · rcases returns with returns | ⟨outcome, completes⟩
    · obtain ⟨outcome, ran⟩ := returns found covers built
      rw [failed] at ran
      cases ran
    · rw [stopped] at completes
      cases completes
  · exact .completed _ (SameSnapshots.commit ext state.db changes) _ _ _ _ _ _ _
      finished

theorem outcome_transact {recipient : Option Address} {data : Bytes} {value : U256}
    {gasLimit : UInt64}
    (returns : NoEvmFailure ext state sender recipient data value gasLimit ∨
      ∃ outcome, (transact ext state sender recipient data value gasLimit).2 =
        .ok outcome) :
    Outcome ext state (transact ext state sender recipient data value gasLimit) := by
  unfold NoEvmFailure transact at returns
  unfold transact
  split
  case isTrue =>
    rcases valueTransfer_cases ext state sender recipient value gasLimit with
      ⟨failure, stopped⟩ | ⟨senderFound, targetFound, -, -, finished⟩
    · exact .failed state.db failure (SameSnapshots.refl state.db) stopped
    · exact .completed _ (sameSnapshots_writeValueTransfer state.db _ _ _ _) _ _ _ _ _ _
        _ finished
  case isFalse called =>
    rw [if_neg called, if_neg called] at returns
    cases recipient with
    | none => exact outcome_evm returns
    | some target =>
        dsimp only at returns ⊢
        cases chosen : (transactionSelector data).filter isProtocolSelector with
        | some selector =>
            exact outcome_finishSimulated
              (sameSnapshots_touchContract state.db target selector data) target data
              gasLimit _
        | none =>
            rw [chosen] at returns
            dsimp only at returns ⊢
            cases decoded : decodeErc20Transfer data with
            | none =>
                rw [decoded] at returns
                exact outcome_evm returns
            | some call =>
                exact outcome_erc20Transfer target call.1 call.2 gasLimit data

/-- A transaction that completes is finalized after some writes of the database. -/
theorem finalized_of_ok {recipient : Option Address} {data : Bytes} {value : U256}
    {gasLimit : UInt64} {outcome : ExecutionResult × StateDiff}
    (completes : (transact ext state sender recipient data value gasLimit).2 =
      .ok outcome) :
    ∃ db origin target amount input gas nonce diff,
      transact ext state sender recipient data value gasLimit =
        finalizeTransaction ext { state with db } origin target amount input gas nonce
          diff := by
  cases outcome_transact (Or.inr ⟨outcome, completes⟩) with
  | failed db failure same stopped =>
      rw [stopped] at completes
      cases completes
  | completed db same origin target amount input gas nonce diff finished =>
      exact ⟨db, origin, target, amount, input, gas, nonce, diff, finished⟩

end EvmExecutor

namespace ForkState

/-- What can happen to a fork between a snapshot and a revert.  A transaction is
executed in place or merged from a clone; each request may get other answers. -/
inductive ForkOp
  | transact (ext : Externals) (sender : Address) (recipient : Option Address)
      (data : Bytes) (value : U256) (gasLimit : UInt64)
  | commit (ext : Externals) (diff : StateDiff) (transaction : LocalTransaction)
      (receipt : LocalReceipt) (block : LocalBlock)
  | setBalance (address : Address) (balance : U256)
  | setNonce (address : Address) (nonce : UInt64)
  | setCode (ext : Externals) (address : Address) (code : Bytecode)
  | setStorage (address : Address) (slot value : U256)
  | snapshot
  | revert (id : UInt64)

def step (state : ForkState) : ForkOp → ForkState
  | .transact ext sender recipient data value gasLimit =>
      (EvmExecutor.transact ext state sender recipient data value gasLimit).1
  | .commit ext diff transaction receipt block =>
      state.commitLocalTransaction ext diff transaction receipt block
  | .setBalance address balance =>
      { state with db := state.db.setBalance address balance }
  | .setNonce address nonce => { state with db := state.db.setNonce address nonce }
  | .setCode ext address code =>
      { state with db := HybridDb.setCode ext state.db address code }
  | .setStorage address slot value =>
      { state with db := state.db.setStorage address slot value }
  | .snapshot => state.snapshot.1
  | .revert id => (state.revert id).1

/-- The EVM does not fail, and a snapshot gets an identifier of its own. -/
def SnapshotSafe (state : ForkState) : ForkOp → Prop
  | .transact ext sender recipient data value gasLimit =>
      EvmExecutor.NoEvmFailure ext state sender recipient data value gasLimit
  | .snapshot => state.db.dirty.nextSnapshotId ≠ 0xFFFFFFFFFFFFFFFF
  | _ => True

/-- No transaction is completed. -/
def Quiet (state : ForkState) : ForkOp → Prop
  | .transact ext sender recipient data value gasLimit =>
      ∀ outcome, (EvmExecutor.transact ext state sender recipient data value
        gasLimit).2 ≠ .ok outcome
  | .commit .. => False
  | _ => True

/-- The snapshots that can be reverted to are those that the counter has passed. -/
def IdsBelow (db : HybridDb) : Prop :=
  ∀ id, id ∈ db.dirty.snapshots → id < db.dirty.nextSnapshotId

theorem lt_saturatingSucc {count : UInt64} (room : count ≠ 0xFFFFFFFFFFFFFFFF) :
    count < saturatingSucc count := by
  rw [UInt64.lt_iff_toNat_lt, (toNat_saturatingSucc count).mpr room]
  omega

theorem getElem?_snapshot (state : ForkState) (id : UInt64) :
    state.snapshot.1.db.dirty.snapshots[id]? =
      if id = state.db.dirty.nextSnapshotId then
        some
          { accounts := state.db.dirty.accounts
            watchList := state.db.dirty.watchList
            unwatchList := state.db.dirty.unwatchList
            totalDirtySlots := state.db.dirty.totalDirtySlots
            blockNumber := state.localBlockNumber
            txIndex := UInt64.ofNat state.transactions.size }
      else state.db.dirty.snapshots[id]? :=
  getElem?_insert state.db.dirty.snapshots state.db.dirty.nextSnapshotId id _

/-- A revert fails and changes nothing, or restores a snapshot and keeps the earlier
ones. -/
theorem revert_cases (state : ForkState) (id : UInt64) :
    (state.db.dirty.snapshots[id]? = none ∧
      state.revert id = (state, .error (.snapshotNotFound id))) ∨
    ∃ captured, state.db.dirty.snapshots[id]? = some captured ∧
      (state.revert id).2 = .ok true ∧
      (state.revert id).1 =
        { state with
          localBlockNumber := captured.blockNumber
          db := { state.db with
            dirty := { state.db.dirty with
              accounts := captured.accounts
              watchList := captured.watchList
              unwatchList := captured.unwatchList
              totalDirtySlots := captured.totalDirtySlots
              snapshots := (state.db.dirty.snapshots.erase id).filter
                fun other _ => other < id } } } := by
  unfold revert DirtyStore.revert
  cases found : state.db.dirty.snapshots[id]? with
  | none => exact Or.inl ⟨rfl, rfl⟩
  | some captured => exact Or.inr ⟨captured, rfl, rfl, rfl⟩

theorem getElem?_reverted (snapshots : Std.ExtTreeMap UInt64 DirtyStoreSnapshot)
    (id other : UInt64) :
    ((snapshots.erase id).filter fun key _ => key < id)[other]? =
      if other < id then snapshots[other]? else none := by
  rw [Std.ExtTreeMap.getElem?_filter', getElem?_erase]
  by_cases earlier : other < id
  · rw [if_pos earlier, if_neg (UInt64.ne_of_lt earlier)]
    cases snapshots[other]? <;> simp [Option.filter, earlier]
  · rw [if_neg earlier]
    split
    · rfl
    · cases snapshots[other]? <;> simp [Option.filter, earlier]

/-- As long as the snapshot of `start` can be reverted to, it and the earlier ones are
as they were when it was taken. -/
structure SnapshotKept (start state : ForkState) : Prop where
  below : IdsBelow state.db
  passed : start.db.dirty.nextSnapshotId < state.db.dirty.nextSnapshotId
  kept : start.db.dirty.nextSnapshotId ∈ state.db.dirty.snapshots →
    ∀ id ≤ start.db.dirty.nextSnapshotId, state.db.dirty.snapshots[id]? =
      start.snapshot.1.db.dirty.snapshots[id]?

theorem idsBelow_of_same {before after : HybridDb}
    (same : SameSnapshots before after) (below : IdsBelow before) :
    IdsBelow after := by
  intro id live
  rw [same.snapshots] at live
  rw [same.nextSnapshotId]
  exact below id live

theorem SnapshotKept.of_same {start state next : ForkState}
    (same : SameSnapshots state.db next.db) (held : SnapshotKept start state) :
    SnapshotKept start next where
  below := idsBelow_of_same same held.below
  passed := by
    rw [same.nextSnapshotId]
    exact held.passed
  kept := by
    rw [same.snapshots]
    exact held.kept

/-- A step takes a snapshot, reverts to one, or leaves the snapshots alone. -/
theorem sameSnapshots_step (state : ForkState) (op : ForkOp)
    (safe : SnapshotSafe state op) :
    op = .snapshot ∨ (∃ id, op = .revert id) ∨
      SameSnapshots state.db (step state op).db := by
  cases op with
  | transact ext sender recipient data value gasLimit =>
      right; right
      cases EvmExecutor.outcome_transact (Or.inl safe) with
      | failed db failure same stopped =>
          rw [step, stopped]
          exact same
      | completed db same sender recipient value input gasLimit nonce diff finished =>
          rw [step, finished, EvmExecutor.finalizeTransaction_db]
          exact same
  | commit ext diff transaction receipt block =>
      right; right
      rw [step, commitLocalTransaction, (sameChain_insertLocal ext _ _ _ _).db]
      exact SameSnapshots.applyStateDiff ext state.db diff
  | setBalance address balance =>
      right; right
      exact SameSnapshots.modify state.db address _
  | setNonce address nonce =>
      right; right
      exact SameSnapshots.modify state.db address _
  | setCode ext address code =>
      right; right
      exact SameSnapshots.modify state.db address _
  | setStorage address slot value =>
      right; right
      exact SameSnapshots.setStorage state.db address slot value
  | snapshot => exact Or.inl rfl
  | revert id => exact Or.inr (Or.inl ⟨id, rfl⟩)

theorem idsBelow_snapshot {state : ForkState} (below : IdsBelow state.db)
    (room : state.db.dirty.nextSnapshotId ≠ 0xFFFFFFFFFFFFFFFF) :
    IdsBelow state.snapshot.1.db := by
  intro id live
  have next : state.db.dirty.nextSnapshotId <
      state.snapshot.1.db.dirty.nextSnapshotId := lt_saturatingSucc room
  rw [Std.ExtTreeMap.mem_iff_isSome_getElem?, getElem?_snapshot] at live
  split at live
  case isTrue newest =>
    rw [newest]
    exact next
  case isFalse =>
    have earlier := below id (Std.ExtTreeMap.mem_iff_isSome_getElem?.mpr live)
    exact UInt64.lt_trans earlier next

theorem idsBelow_revert {state : ForkState} (below : IdsBelow state.db) (id : UInt64) :
    IdsBelow (state.revert id).1.db := by
  rcases revert_cases state id with ⟨-, unchanged⟩ | ⟨captured, -, -, reverted⟩
  · rw [unchanged]
    exact below
  · rw [reverted]
    intro other live
    rw [Std.ExtTreeMap.mem_iff_isSome_getElem?, getElem?_reverted] at live
    split at live
    case isTrue =>
      exact below other (Std.ExtTreeMap.mem_iff_isSome_getElem?.mpr live)
    case isFalse => cases live

theorem snapshotKept_snapshot {start state : ForkState}
    (held : SnapshotKept start state)
    (room : state.db.dirty.nextSnapshotId ≠ 0xFFFFFFFFFFFFFFFF) :
    SnapshotKept start state.snapshot.1 := by
  have older : ∀ id ≤ start.db.dirty.nextSnapshotId,
      state.snapshot.1.db.dirty.snapshots[id]? = state.db.dirty.snapshots[id]? := by
    intro id earlier
    rw [getElem?_snapshot, if_neg (UInt64.ne_of_lt
      (UInt64.lt_of_le_of_lt earlier held.passed))]
  refine ⟨idsBelow_snapshot held.below room,
    UInt64.lt_trans held.passed (lt_saturatingSucc room), fun live id earlier => ?_⟩
  rw [older id earlier]
  refine held.kept ?_ id earlier
  rw [Std.ExtTreeMap.mem_iff_isSome_getElem?, older _ (UInt64.le_refl _)] at live
  exact Std.ExtTreeMap.mem_iff_isSome_getElem?.mpr live

/-- A revert to an earlier snapshot, or to this one, makes it unusable; a revert to a
later one leaves it alone. -/
theorem snapshotKept_revert {start state : ForkState}
    (held : SnapshotKept start state) (id : UInt64) :
    SnapshotKept start (state.revert id).1 := by
  rcases revert_cases state id with ⟨-, unchanged⟩ | ⟨captured, -, -, reverted⟩
  · rw [unchanged]
    exact held
  · refine ⟨idsBelow_revert held.below id, ?_, fun live other earlier => ?_⟩
    · rw [reverted]
      exact held.passed
    · rw [reverted] at live ⊢
      rw [Std.ExtTreeMap.mem_iff_isSome_getElem?, getElem?_reverted] at live
      rw [getElem?_reverted]
      split at live
      case isTrue later =>
        rw [if_pos (UInt64.lt_of_le_of_lt earlier later)]
        exact held.kept (Std.ExtTreeMap.mem_iff_isSome_getElem?.mpr live) other earlier
      case isFalse => cases live

theorem snapshotKept_step (start state : ForkState) (op : ForkOp)
    (held : SnapshotKept start state) (safe : SnapshotSafe state op) :
    SnapshotKept start (step state op) := by
  rcases sameSnapshots_step state op safe with rfl | ⟨id, rfl⟩ | same
  · exact snapshotKept_snapshot held safe
  · exact snapshotKept_revert held id
  · exact held.of_same same

theorem snapshotKept_start {start : ForkState} (below : IdsBelow start.db)
    (room : start.db.dirty.nextSnapshotId ≠ 0xFFFFFFFFFFFFFFFF) :
    SnapshotKept start start.snapshot.1 :=
  ⟨idsBelow_snapshot below room, lt_saturatingSucc room, fun _ _ _ => rfl⟩

/-- The write layer and the block number are the same, and so are the snapshots that
can be reverted to. -/
structure SameWriteLayer (before after : ForkState) : Prop where
  accounts : after.db.dirty.accounts = before.db.dirty.accounts
  watchList : after.db.dirty.watchList = before.db.dirty.watchList
  unwatchList : after.db.dirty.unwatchList = before.db.dirty.unwatchList
  totalDirtySlots : after.db.dirty.totalDirtySlots = before.db.dirty.totalDirtySlots
  localBlockNumber : after.localBlockNumber = before.localBlockNumber
  snapshots : after.db.dirty.snapshots = before.db.dirty.snapshots

theorem sameIndexes_revert (state : ForkState) (id : UInt64) :
    SameIndexes state (state.revert id).1 := by
  rcases revert_cases state id with ⟨-, unchanged⟩ | ⟨captured, -, -, reverted⟩
  · rw [unchanged]
    exact ⟨rfl, rfl, rfl, rfl⟩
  · rw [reverted]
    exact ⟨rfl, rfl, rfl, rfl⟩

/-- Only a transaction that completes adds to the indexes. -/
theorem sameIndexes_step (state : ForkState) (op : ForkOp)
    (safe : SnapshotSafe state op) (quiet : Quiet state op) :
    SameIndexes state (step state op) := by
  cases op with
  | transact ext sender recipient data value gasLimit =>
      cases EvmExecutor.outcome_transact (Or.inl safe) with
      | failed db failure same stopped =>
          rw [step, stopped]
          exact ⟨rfl, rfl, rfl, rfl⟩
      | completed db same origin target amount input gas nonce diff finished =>
          have completes := quiet (⟨diff.success, diff.gasUsed, diff.output⟩, diff)
          rw [finished] at completes
          exact absurd rfl completes
  | commit => exact quiet.elim
  | revert id => exact sameIndexes_revert state id
  | setBalance | setNonce | setCode | setStorage | snapshot => exact ⟨rfl, rfl, rfl, rfl⟩

theorem sameIndexes_of_guarded {state : ForkState} {ops : List ForkOp}
    (safe : GuardedRun.Guarded step SnapshotSafe state ops)
    (quiet : GuardedRun.Guarded step Quiet state ops) :
    SameIndexes state (ops.foldl step state) := by
  induction ops generalizing state with
  | nil => exact ⟨rfl, rfl, rfl, rfl⟩
  | cons op ops ih =>
      rw [GuardedRun.guarded_cons] at safe quiet
      exact (sameIndexes_step state op safe.1 quiet.1).trans (ih safe.2 quiet.2)

theorem sameIndexes_snapshot (state : ForkState) : SameIndexes state state.snapshot.1 :=
  ⟨rfl, rfl, rfl, rfl⟩

theorem snapshotKept_of_guarded {start : ForkState} {ops : List ForkOp}
    (below : IdsBelow start.db)
    (room : start.db.dirty.nextSnapshotId ≠ 0xFFFFFFFFFFFFFFFF)
    (safe : GuardedRun.Guarded step SnapshotSafe start.snapshot.1 ops) :
    SnapshotKept start (ops.foldl step start.snapshot.1) :=
  GuardedRun.invariant_of_guarded step SnapshotSafe (SnapshotKept start)
    (snapshotKept_step start) (snapshotKept_start below room) safe _
    (GuardedRun.foldl_mem_states _ ops)

theorem revert_succeeds_iff (state : ForkState) (id : UInt64) :
    (state.revert id).2 = .ok true ↔ id ∈ state.db.dirty.snapshots := by
  rw [Std.ExtTreeMap.mem_iff_isSome_getElem?]
  rcases revert_cases state id with ⟨missing, failed⟩ | ⟨captured, found, worked, -⟩
  · simp [missing, failed]
  · simp [found, worked]

/-- The snapshots from the reverted one on are gone, the earlier ones stay. -/
theorem revert_earlier_iff (state : ForkState) (id : UInt64)
    (succeeds : (state.revert id).2 = .ok true) (other : UInt64) :
    ((state.revert id).1.revert other).2 = .ok true ↔
      other < id ∧ (state.revert other).2 = .ok true := by
  rcases revert_cases state id with ⟨-, failed⟩ | ⟨captured, -, -, reverted⟩
  · rw [failed] at succeeds
    cases succeeds
  · rw [revert_succeeds_iff, revert_succeeds_iff, reverted,
      Std.ExtTreeMap.mem_iff_isSome_getElem?, getElem?_reverted,
      Std.ExtTreeMap.mem_iff_isSome_getElem?]
    by_cases earlier : other < id <;> simp [earlier]

/-- A revert to a snapshot that was kept restores the write layer of the state the
snapshot was taken of. -/
theorem sameWriteLayer_revert {start state : ForkState} (below : IdsBelow start.db)
    (held : SnapshotKept start state)
    (succeeds : (state.revert start.snapshot.2).2 = .ok true) :
    SameWriteLayer start (state.revert start.snapshot.2).1 := by
  have live := (revert_succeeds_iff state _).mp succeeds
  have kept := held.kept live
  obtain ⟨-, failed⟩ | ⟨captured, found, -, reverted⟩ :=
    revert_cases state start.snapshot.2
  · rw [failed] at succeeds
    cases succeeds
  · have taken := kept _ (UInt64.le_refl _)
    rw [getElem?_snapshot, if_pos rfl] at taken
    cases found.symm.trans taken
    rw [reverted]
    refine ⟨rfl, rfl, rfl, rfl, rfl, ?_⟩
    ext1 id
    rw [getElem?_reverted]
    by_cases earlier : id < start.snapshot.2
    · have other : id ≠ start.db.dirty.nextSnapshotId := UInt64.ne_of_lt earlier
      rw [if_pos earlier, kept id (UInt64.le_of_lt earlier), getElem?_snapshot,
        if_neg other]
    · rw [if_neg earlier]
      have dead : id ∉ start.db.dirty.snapshots := fun alive => earlier (below id alive)
      exact (Std.ExtTreeMap.getElem?_eq_none dead).symm

/-- After any history in which the EVM does not fail, a revert that succeeds restores
the write layer and the block number, invalidates the snapshot and the later ones, and
keeps the earlier ones; the indexes are as they were when no transaction completed. -/
theorem revert_restores {start : ForkState} {ops : List ForkOp}
    (below : IdsBelow start.db)
    (room : start.db.dirty.nextSnapshotId ≠ 0xFFFFFFFFFFFFFFFF)
    (safe : GuardedRun.Guarded step SnapshotSafe start.snapshot.1 ops)
    (succeeds :
      ((ops.foldl step start.snapshot.1).revert start.snapshot.2).2 = .ok true) :
    let last := ops.foldl step start.snapshot.1
    let reverted := (last.revert start.snapshot.2).1
    SameWriteLayer start reverted ∧
      (∀ id, (reverted.revert id).2 = .ok true ↔
        id < start.snapshot.2 ∧ (last.revert id).2 = .ok true) ∧
      (GuardedRun.Guarded step Quiet start.snapshot.1 ops →
        SameIndexes start reverted) := by
  refine ⟨sameWriteLayer_revert below (snapshotKept_of_guarded below room safe) succeeds,
    revert_earlier_iff _ _ succeeds, fun quiet => ?_⟩
  exact ((sameIndexes_snapshot start).trans (sameIndexes_of_guarded safe quiet)).trans
    (sameIndexes_revert _ _)

theorem idsBelow_strictFork : IdsBelow EvmExecutor.strictFork.db := by
  intro id live
  exact absurd live Std.ExtTreeMap.not_mem_empty

theorem revert_restores_strictFork :
    let start := EvmExecutor.strictFork
    let reverted := (([.setBalance 1 7, .snapshot, .setNonce 1 4, .revert 1].foldl step
      start.snapshot.1).revert 0).1
    SameWriteLayer start reverted ∧ SameIndexes start reverted := by
  have safe : GuardedRun.Guarded step SnapshotSafe EvmExecutor.strictFork.snapshot.1
      [.setBalance 1 7, .snapshot, .setNonce 1 4, .revert 1] := by
    simp only [GuardedRun.guarded_cons, GuardedRun.guarded_nil, SnapshotSafe, and_true,
      true_and]
    decide
  have quiet : GuardedRun.Guarded step Quiet EvmExecutor.strictFork.snapshot.1
      [.setBalance 1 7, .snapshot, .setNonce 1 4, .revert 1] := by
    simp [GuardedRun.guarded_cons, Quiet]
  have live := (revert_earlier_iff ([.setBalance 1 7, .snapshot, .setNonce 1 4].foldl step
    EvmExecutor.strictFork.snapshot.1) 1 rfl 0).mpr ⟨by decide, rfl⟩
  obtain ⟨layer, -, indexes⟩ := revert_restores idsBelow_strictFork (by decide) safe live
  exact ⟨layer, indexes quiet⟩

/-- The block of a transaction that was executed after the snapshot is still there
after the revert. -/
theorem revert_keeps_block :
    ¬ ∀ (start : ForkState) (ops : List ForkOp),
      IdsBelow start.db →
      let last := ops.foldl step start.snapshot.1
      let reverted := (last.revert start.snapshot.2).1
      (last.revert start.snapshot.2).2 = .ok true →
      SameWriteLayer start reverted ∧
        (∀ id, (reverted.revert id).2 = .ok true ↔
          id < start.snapshot.2 ∧ (last.revert id).2 = .ok true) ∧
        SameIndexes start reverted := by
  intro claim
  obtain ⟨-, -, indexes⟩ := claim EvmExecutor.strictFork
    [.transact EvmExecutor.mappingExternals 1 (some 2) [] 3 21000] idsBelow_strictFork
    (by rfl)
  have sizes := congrArg Std.ExtTreeMap.size indexes.blocksByNumber
  exact absurd sizes (by decide)

end ForkState

end Roko
