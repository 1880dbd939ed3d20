import Roko.EvmExecutor
import Roko.ForkReads

/-!
# What the simulated paths write

The entries after a plain transfer and after a token transfer.  A token transfer and
a simulated protocol call leave the account data of every address alone.
-/

namespace Roko

namespace EvmExecutor

open HybridDb

variable {ext : Externals} {sender : Address}

theorem account_writeValueTransfer (db : HybridDb) (sender target other : Address)
    (senderBalance targetBalance : U256) (nextNonce : UInt64) :
    (writeValueTransfer db sender target senderBalance targetBalance
        nextNonce).account other =
      { db.account other with
        balance :=
          if other = target then some targetBalance
          else if other = sender then some senderBalance
          else (db.account other).balance
        nonce :=
          if other = sender then some nextNonce else (db.account other).nonce } := by
  unfold writeValueTransfer setBalance setNonce
  by_cases isTarget : other = target
  · subst isTarget
    by_cases isSender : other = sender
    · subst isSender
      simp
    · simp [isSender]
  · by_cases isSender : other = sender
    · subst isSender
      simp [isTarget]
    · simp [isTarget, isSender]

theorem account_writeTransfer (ext : Externals) (db : HybridDb)
    (token sender recipient other : Address) (nextSender nextRecipient : U256) :
    let slot := writtenSlot ext db token sender
    let between := (setErc20Balance ext db token sender nextSender).1
    (writeTransfer ext db token sender recipient nextSender
        nextRecipient).account other =
      if other = token then
        { db.account token with
          erc20BalanceSlot := some slot
          erc20Balances := ((db.account token).erc20Balances.insert sender
            nextSender).insert recipient nextRecipient
          storage := ((((db.account token).storage.insert
            (erc20MappingSlot ext sender slot) nextSender).insert 1
              (writtenTotal ext db token sender nextSender)).insert
            (erc20MappingSlot ext recipient slot) nextRecipient).insert 1
              (writtenTotal ext between token recipient nextRecipient) }
      else db.account other := by
  intro slot between
  have entry : between.account token = _ :=
    account_setErc20Balance ext db token sender token nextSender
  rw [if_pos rfl] at entry
  have sameSlot : writtenSlot ext between token recipient = slot := by
    unfold writtenSlot balanceSlot
    rw [entry]
    rfl
  have written := account_setErc20Balance ext between token recipient other nextRecipient
  unfold writeTransfer
  dsimp only
  rw [written, sameSlot, entry]
  split
  case isTrue => rfl
  case isFalse apart =>
    rw [account_setErc20Balance, if_neg apart]

theorem tokenBalance_recorded {db : HybridDb} {token owner : Address} {slot : U256}
    (recorded : (db.account token).erc20BalanceSlot = some slot) :
    tokenBalance ext db token owner =
      match (db.account token).erc20Balances[owner]? with
      | some balance => .ok balance
      | none => storage ext db token (erc20MappingSlot ext owner slot) := by
  have found : balanceSlot ext db token owner = .ok slot := by
    unfold balanceSlot
    rw [recorded]
  have read := tokenBalance_eq ext db token owner
  rw [found] at read
  exact read

/-- A read or a write of a balance adds no entry but the token's. -/
theorem present_erc20BalanceSlot_ne (ext : Externals) (db : HybridDb)
    {token address : Address} (owner : Address) (apart : address ≠ token) :
    (erc20BalanceSlot ext db token owner).1.present address = db.present address := by
  rcases erc20BalanceSlot_fst ext db token owner with
    ⟨same, -⟩ | ⟨slot, -, -, recorded⟩
  · rw [same]
  · rw [recorded]
    unfold recordBalanceSlot
    simp [apart]

theorem present_erc20BalanceOf_ne (ext : Externals) (db : HybridDb)
    {token address : Address} (owner : Address) (apart : address ≠ token) :
    (erc20BalanceOf ext db token owner).1.present address = db.present address := by
  rw [erc20BalanceOf_fst]
  split
  · rfl
  · exact present_erc20BalanceSlot_ne ext db owner apart

theorem present_setErc20Balance (ext : Externals) (db : HybridDb)
    (token address owner : Address) (balance : U256) :
    (setErc20Balance ext db token owner balance).1.present address =
      (decide (address = token) || db.present address) := by
  unfold setErc20Balance
  simp only [present_modify, present_setStorage]
  by_cases isToken : address = token
  · simp [isToken]
  · rw [present_erc20BalanceSlot_ne ext _ owner isToken,
      present_erc20BalanceOf_ne ext db owner isToken]
    simp [isToken]

theorem sameInfo_markContract (db : HybridDb) (contract : Address)
    (marker callerMarker calldataMarker : U256) :
    SameInfo db (markContract db contract marker callerMarker calldataMarker) :=
  ((SameInfo.setStorage db contract 0 marker).trans
    (SameInfo.setStorage _ contract 1 callerMarker)).trans
    (SameInfo.setStorage _ contract 2 calldataMarker)

theorem storage_markContract (ext : Externals) (db : HybridDb)
    (contract address : Address)
    (marker callerMarker calldataMarker index : U256) :
    storage ext (markContract db contract marker callerMarker calldataMarker) address
        index =
      if address = contract ∧ index = 2 then .ok calldataMarker
      else if address = contract ∧ index = 1 then .ok callerMarker
      else if address = contract ∧ index = 0 then .ok marker
      else storage ext db address index := by
  unfold markContract
  rw [storage_setStorage, storage_setStorage, storage_setStorage]

theorem overrides_markContract (db : HybridDb) (contract token : Address)
    (marker callerMarker calldataMarker : U256) :
    let written := markContract db contract marker callerMarker calldataMarker
    (written.account token).erc20Balances = (db.account token).erc20Balances ∧
      (written.account token).erc20BalanceSlot =
        (db.account token).erc20BalanceSlot := by
  unfold markContract
  by_cases isContract : token = contract <;> simp [isContract]

theorem present_markContract (db : HybridDb) (contract address : Address)
    (marker callerMarker calldataMarker : U256) :
    (markContract db contract marker callerMarker calldataMarker).present address =
      (decide (address = contract) || db.present address) := by
  unfold markContract
  simp only [present_setStorage]
  cases decide (address = contract) <;> rfl

theorem sameInfo_touchContract (db : HybridDb) (contract : Address)
    (selector input : Bytes) :
    SameInfo db (touchContract ext db sender contract selector input).1 := by
  have marked := sameInfo_markContract db contract (ext.keccak256 selector)
    (ext.keccak256 (addressBytes sender)) (BitVec.ofNat 256 input.length)
  unfold touchContract
  dsimp only
  split
  case isFalse => exact marked
  case isTrue =>
    split <;>
      exact (marked.trans (sameInfo_erc20BalanceOf ext _ contract sender)).trans
        (sameInfo_setErc20Balance ext _ contract sender _)

theorem sameInfo_writeTransfer (db : HybridDb) (token recipient : Address)
    (nextSender nextRecipient : U256) :
    SameInfo db
      (writeTransfer ext db token sender recipient nextSender nextRecipient) :=
  (sameInfo_setErc20Balance ext db token sender nextSender).trans
    (sameInfo_setErc20Balance ext _ token recipient nextRecipient)

/-- The database after the two reads of a transfer. -/
def transferReads (ext : Externals) (db : HybridDb)
    (token sender recipient : Address) : HybridDb :=
  (erc20BalanceOf ext (erc20BalanceOf ext db token sender).1 token recipient).1

theorem sameInfo_transferReads (db : HybridDb) (token recipient : Address) :
    SameInfo db (transferReads ext db token sender recipient) :=
  (sameInfo_erc20BalanceOf ext db token sender).trans
    (sameInfo_erc20BalanceOf ext _ token recipient)

theorem storage_transferReads (db : HybridDb) (token recipient address : Address)
    (index : U256) :
    storage ext (transferReads ext db token sender recipient) address index =
      storage ext db address index := by
  unfold transferReads
  rw [storage_erc20BalanceOf, storage_erc20BalanceOf]

/-- The reads of a transfer can record a slot and change nothing else. -/
theorem account_transferReads (ext : Externals) (sender : Address) (db : HybridDb)
    (token recipient other : Address) :
    ∃ recorded, (transferReads ext db token sender recipient).account other =
      if other = token then
        { db.account token with erc20BalanceSlot := recorded }
      else db.account other := by
  refine ⟨slotAfterRead ext (erc20BalanceOf ext db token sender).1 token recipient, ?_⟩
  unfold transferReads
  rw [account_erc20BalanceOf]
  split
  case isTrue => rw [account_erc20BalanceOf, if_pos rfl]
  case isFalse apart => rw [account_erc20BalanceOf, if_neg apart]

/-- A token transfer fails, or writes the balances that were read. -/
theorem erc20Transfer_cases (ext : Externals) (state : ForkState)
    (sender token recipient : Address) (amount : U256)
    (gasLimit : UInt64) (input : Bytes) :
    (∃ db failure,
      transactErc20Transfer ext state sender token recipient amount gasLimit input =
        ({ state with db }, .error failure)) ∨
    ∃ senderBalance recipientBalance,
      tokenBalance ext state.db token sender = .ok senderBalance ∧
      (state.strictBalance = true → amount ≤ senderBalance) ∧
      tokenBalance ext (erc20BalanceOf ext state.db token sender).1 token recipient =
        .ok recipientBalance ∧
      let nextSender := U256.saturatingSub senderBalance amount
      let nextRecipient := U256.saturatingAdd recipientBalance amount
      let db := writeTransfer ext (transferReads ext state.db token sender recipient)
        token sender recipient nextSender nextRecipient
      transactErc20Transfer ext state sender token recipient amount gasLimit input =
        finishSimulated ext { state with db } sender token input gasLimit
          (transferDiff ext (db.dirty.account token) token sender recipient amount
            nextSender nextRecipient gasLimit) := by
  unfold transactErc20Transfer transferBalances transferReads tokenBalance
  rcases senderRead : erc20BalanceOf ext state.db token sender with
    ⟨first, failure | senderBalance⟩
  · exact Or.inl ⟨first, failure, rfl⟩
  · dsimp only
    by_cases short : (state.strictBalance && decide (senderBalance < amount)) = true
    · rw [if_pos short]
      exact Or.inl ⟨first, _, rfl⟩
    · rw [if_neg short]
      rcases recipientRead : erc20BalanceOf ext first token recipient with
        ⟨second, failure | recipientBalance⟩
      · exact Or.inl ⟨second, failure, rfl⟩
      · refine Or.inr ⟨senderBalance, recipientBalance, rfl, fun strict => ?_, rfl, rfl⟩
        simpa [strict] using short

end EvmExecutor

/-!
# What a failed transaction leaves behind

A transaction should leave the fork as it was when it fails.  The simulated paths
write before their last read, and a failed execution of the EVM leaves an empty
write layer behind.
-/

namespace EvmExecutor

open HybridDb

variable {ext : Externals} {state : ForkState} {sender : Address}

/-- The transaction completes or the fork stays as it is. -/
def UnchangedOnError (state : ForkState) (result : ForkState × Executed) : Prop :=
  ∀ failure, result.2 = .error failure → result.1 = state

/-- The account data of the sender can be read. -/
def SenderReadable (ext : Externals) (state : ForkState) (sender : Address) :
    Prop :=
  ∃ found, basic ext state.db sender = .ok found

/-- If the EVM is reached and fails, there is nothing in the write layer. -/
def EvmClean (ext : Externals) (state : ForkState) (sender : Address)
    (target : Option Address) (data : Bytes) (value : U256) (gasLimit : UInt64) :
    Prop :=
  ∀ found, SenderCovers ext state sender value found →
    let call := evmCall state sender target data value gasLimit (found.getD {}).nonce
    ext.buildTx call = .ok () →
    ∀ failure, ext.transact call state.db = .error failure → state.db.dirty = {}

/-- A read of the balance finds a slot that is not recorded yet. -/
def ReadRecords (ext : Externals) (db : HybridDb) (token owner : Address) : Prop :=
  (db.account token).erc20Balances[owner]? = none ∧ FindsNewSlot ext db token owner

/-- A token transfer that stops at the balances has recorded no slot, and one that
stops at the sender's account has written nothing new. -/
def TransferClean (ext : Externals) (state : ForkState)
    (sender token recipient : Address) (amount : U256) : Prop :=
  match tokenBalance ext state.db token sender with
  | .error _ => ¬ ReadRecords ext state.db token sender
  | .ok senderBalance =>
      let read := (erc20BalanceOf ext state.db token sender).1
      if state.strictBalance ∧ senderBalance < amount then
        ¬ ReadRecords ext state.db token sender
      else
        match tokenBalance ext read token recipient with
        | .error _ => ¬ ReadRecords ext state.db token sender ∧
            ¬ ReadRecords ext state.db token recipient
        | .ok recipientBalance =>
            SenderReadable ext state sender ∨
              writeTransfer ext (erc20BalanceOf ext read token recipient).1 token
                sender recipient (U256.saturatingSub senderBalance amount)
                (U256.saturatingAdd recipientBalance amount) = state.db

/-- When the transaction fails without a trace. -/
def CleanOnError (ext : Externals) (state : ForkState) (sender : Address)
    (recipient : Option Address) (data : Bytes) (value : U256)
    (gasLimit : UInt64) : Prop :=
  if data.isEmpty then True
  else
    match recipient with
    | none => EvmClean ext state sender none data value gasLimit
    | some target =>
        match (transactionSelector data).filter isProtocolSelector with
        | some selector =>
            SenderReadable ext state sender ∨
              (touchContract ext state.db sender target selector data).1 = state.db
        | none =>
            match decodeErc20Transfer data with
            | some (receiver, amount) =>
                TransferClean ext state sender target receiver amount
            | none => EvmClean ext state sender (some target) data value gasLimit

theorem unchangedOnError_of_finalized {finalized : ForkState} {recipient : Option Address}
    {value : U256} {input : Bytes} {gasLimit nonce : UInt64} {diff : StateDiff} :
    UnchangedOnError state (finalizeTransaction ext finalized sender recipient value
      input gasLimit nonce diff) := by
  intro failure failed
  cases failed

theorem unchangedOnError_of_error {failure : MirageError} (db : HybridDb) :
    UnchangedOnError state ({ state with db }, .error failure) ↔ db = state.db := by
  constructor
  · exact fun unchanged => congrArg ForkState.db (unchanged failure rfl)
  · rintro rfl _ -
    rfl

theorem unchangedOnError_valueTransfer (recipient : Option Address) (value : U256)
    (gasLimit : UInt64) :
    UnchangedOnError state
      (transactValueTransfer ext state sender recipient value gasLimit) := by
  rcases valueTransfer_cases ext state sender recipient value gasLimit with
    ⟨failure, stopped⟩ | ⟨_, _, -, -, completed⟩
  · rw [stopped]
    exact (unchangedOnError_of_error state.db).mpr rfl
  · rw [completed]
    exact unchangedOnError_of_finalized

theorem unchangedOnError_finishSimulated {db : HybridDb}
    (same : SameInfo state.db db) (contract : Address) (input : Bytes)
    (gasLimit : UInt64) (diff : StateDiff) :
    UnchangedOnError state
        (finishSimulated ext { state with db } sender contract input gasLimit diff) ↔
      SenderReadable ext state sender ∨ db = state.db := by
  have readable : SenderReadable ext state sender ↔
      ∃ found, basic ext db sender = .ok found := by
    unfold SenderReadable
    rw [basic_ok_iff, basic_ok_iff, same.info]
  rw [readable]
  rcases finishSimulated_cases ext { state with db } sender contract input gasLimit
    diff with
    ⟨failure, read, stopped⟩ | ⟨found, read, completed⟩
  · rw [stopped, unchangedOnError_of_error]
    dsimp only at read
    simp [read]
  · rw [completed]
    exact iff_of_true unchangedOnError_of_finalized (Or.inl ⟨found, read⟩)

theorem erc20BalanceOf_fst_eq_iff (ext : Externals) (db : HybridDb)
    (token owner : Address) :
    (erc20BalanceOf ext db token owner).1 = db ↔
      ¬ ReadRecords ext db token owner := by
  unfold ReadRecords
  rw [erc20BalanceOf_fst]
  cases (db.account token).erc20Balances[owner]? with
  | some balance => simp
  | none => simpa using erc20BalanceSlot_fst_eq_iff ext db token owner

/-- After a slot is recorded no read records another one. -/
theorem erc20BalanceOf_fst_fst_eq_iff (ext : Externals) (db : HybridDb)
    (token owner other : Address) :
    (erc20BalanceOf ext (erc20BalanceOf ext db token owner).1 token other).1 = db ↔
      ¬ ReadRecords ext db token owner ∧ ¬ ReadRecords ext db token other := by
  by_cases records : ReadRecords ext db token owner
  · refine iff_of_false ?_ fun neither => neither.1 records
    obtain ⟨missing, unrecorded, slot, found⟩ := records
    have first : (erc20BalanceOf ext db token owner).1 =
        db.recordBalanceSlot token slot := by
      unfold erc20BalanceOf erc20BalanceSlot
      rw [missing, unrecorded, found]
    have second : ¬ ReadRecords ext (db.recordBalanceSlot token slot) token other := by
      rintro ⟨-, empty, -⟩
      simp [recordBalanceSlot] at empty
    rw [first, (erc20BalanceOf_fst_eq_iff ext _ token other).mpr second]
    exact recordBalanceSlot_ne db token slot unrecorded
  · rw [(erc20BalanceOf_fst_eq_iff ext db token owner).mpr records,
      erc20BalanceOf_fst_eq_iff]
    exact (and_iff_right records).symm

theorem unchangedOnError_erc20Transfer (token recipient : Address) (amount : U256)
    (gasLimit : UInt64) (input : Bytes) :
    UnchangedOnError state
        (transactErc20Transfer ext state sender token recipient amount gasLimit
          input) ↔
      TransferClean ext state sender token recipient amount := by
  have senderRecords := erc20BalanceOf_fst_eq_iff ext state.db token sender
  have bothRecord :=
    erc20BalanceOf_fst_fst_eq_iff ext state.db token sender recipient
  have sameFirst := sameInfo_erc20BalanceOf ext state.db token sender
  unfold transactErc20Transfer transferBalances TransferClean tokenBalance
  rcases senderRead : erc20BalanceOf ext state.db token sender with
    ⟨first, failure | senderBalance⟩
  · rw [senderRead] at senderRecords
    exact (unchangedOnError_of_error first).trans senderRecords
  · rw [senderRead] at senderRecords bothRecord sameFirst
    have sameSecond := sameInfo_erc20BalanceOf ext first token recipient
    dsimp only at senderRecords bothRecord ⊢
    by_cases short : state.strictBalance ∧ senderBalance < amount
    · rw [if_pos (by simpa using short), if_pos short]
      exact (unchangedOnError_of_error first).trans senderRecords
    · rw [if_neg (by simpa using short), if_neg short]
      rcases recipientRead : erc20BalanceOf ext first token recipient with
        ⟨second, failure | recipientBalance⟩
      · rw [recipientRead] at bothRecord
        exact (unchangedOnError_of_error second).trans bothRecord
      · rw [recipientRead] at sameSecond
        exact unchangedOnError_finishSimulated
          ((sameFirst.trans sameSecond).trans
            (sameInfo_writeTransfer second token recipient _ _)) _ input gasLimit _

theorem unchangedOnError_evm (target : Option Address) (data : Bytes)
    (value : U256) (gasLimit : UInt64) (output : EvmResult → Bytes) :
    UnchangedOnError state
        (transactEvm ext state sender target data value gasLimit output) ↔
      EvmClean ext state sender target data value gasLimit := by
  rcases transactEvm_cases ext state sender target data value gasLimit output with
    ⟨failure, stopped, unreached⟩ |
    ⟨found, covers, built, ⟨failure, failed, emptied⟩ | ⟨result, changes, executed, completed⟩⟩
  · rw [stopped]
    refine iff_of_true ((unchangedOnError_of_error state.db).mpr rfl) ?_
    intro other otherCovers _ built
    exact absurd built (unreached other otherCovers)
  · rw [emptied, unchangedOnError_of_error]
    constructor
    · intro same other _ _ _ _ _
      rw [← same]
      rfl
    · intro clean
      have empty := clean found covers built failure failed
      unfold hollowHybrid
      rw [← empty]
  · rw [completed]
    refine iff_of_true unchangedOnError_of_finalized ?_
    intro other otherCovers _ _ failure failed
    have unique : other = found := by
      have read := otherCovers.read
      rw [covers.read] at read
      exact (Except.ok.inj read).symm
    subst unique
    rw [executed] at failed
    cases failed

/-- A failed transaction leaves the fork as it was exactly if it fails without a
trace. -/
theorem unchangedOnError_iff (ext : Externals) (state : ForkState)
    (sender : Address) (recipient : Option Address) (data : Bytes) (value : U256)
    (gasLimit : UInt64) :
    UnchangedOnError state
        (transact ext state sender recipient data value gasLimit) ↔
      CleanOnError ext state sender recipient data value gasLimit := by
  unfold transact CleanOnError
  split
  · exact iff_of_true (unchangedOnError_valueTransfer recipient value gasLimit) trivial
  cases recipient with
  | none => exact unchangedOnError_evm none data value gasLimit _
  | some target =>
      dsimp only
      cases (transactionSelector data).filter isProtocolSelector with
      | some selector =>
          exact unchangedOnError_finishSimulated
            (sameInfo_touchContract state.db target selector data) target data
            gasLimit _
      | none =>
          dsimp only
          rcases decodeErc20Transfer data with _ | ⟨receiver, amount⟩
          · exact unchangedOnError_evm (some target) data value gasLimit _
          · exact unchangedOnError_erc20Transfer target receiver amount gasLimit data

/-- The upstream node knows no account and the EVM rejects every call. -/
def rejectingExternals : Externals where
  keccak256 _ := 0
  accountInfo _ _ := .ok none
  storageAt _ _ _ := .ok 0
  ethCall _ _ _ _ := .ok []
  buildTx _ := .ok ()
  transact _ _ := .error (.upstream "lack of funds")

/-- A fork in which one account was given a balance. -/
def fundedFork : ForkState :=
  .new (HybridDb.setBalance ⟨{}, some 100, 1⟩ 1 5) 100 1 0

/-- A rejected call takes the balances that were set away. -/
theorem rejectedCall_loses_balance :
    ¬ ∀ (ext : Externals) (state : ForkState) (sender : Address)
        (recipient : Option Address) (data : Bytes) (value : U256)
        (gasLimit : UInt64),
      UnchangedOnError state
        (transact ext state sender recipient data value gasLimit) := by
  intro claim
  have unchanged := claim rejectingExternals fundedFork 1 (some 2) [1] 0 21000
    (.upstream "lack of funds") (by rfl)
  have balance := congrArg (fun state => (state.db.account 1).balance) unchanged
  have lost : ((transact rejectingExternals fundedFork 1 (some 2) [1] 0
      21000).1.db.account 1).balance = none := by rfl
  have kept : (fundedFork.db.account 1).balance = some 5 := by rfl
  rw [lost, kept] at balance
  cases balance

end EvmExecutor

end Roko
