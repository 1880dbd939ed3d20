import Roko.ForkDiffs

/-!
# Carrying a token transfer over

The diff of a token transfer has the two mapping slots, but neither the slot that was
recorded nor the overrides of the two balances nor the total supply.  The reads agree
when the slot is known without the transfer, the parties have no override that would
go stale, and the total supply comes out as it was.
-/

namespace Roko

open HybridDb

namespace HybridDb

variable {ext : Externals}

/-- The mapping slot of a token that needs no search. -/
def knownSlot (db : HybridDb) (token : Address) : Option U256 :=
  (db.account token).erc20BalanceSlot.or (knownErc20BalanceSlot token)

theorem balanceSlot_of_known (ext : Externals) {db : HybridDb} {token : Address} {slot : U256}
    (known : db.knownSlot token = some slot) (owner : Address) :
    balanceSlot ext db token owner = .ok slot := by
  unfold knownSlot at known
  unfold balanceSlot findBalanceSlot
  cases recorded : (db.account token).erc20BalanceSlot with
  | some other =>
      rw [recorded] at known
      cases known
      rfl
  | none =>
      rw [recorded, Option.none_or] at known
      rw [known]

theorem knownSlot_erc20BalanceOf {db : HybridDb} {token : Address} {slot : U256}
    (known : db.knownSlot token = some slot) (owner : Address) :
    (erc20BalanceOf ext db token owner).1.knownSlot token = some slot := by
  have lookup := balanceSlot_of_known ext known owner
  unfold knownSlot at known ⊢
  rw [account_erc20BalanceOf, if_pos rfl]
  dsimp only
  unfold slotAfterRead
  split
  case isTrue => exact known
  case isFalse =>
    rw [lookup]
    rfl

/-- With a known slot a balance is an override or in storage. -/
theorem tokenBalance_of_known {db : HybridDb} {token : Address} {slot : U256}
    (known : db.knownSlot token = some slot) (owner : Address) :
    tokenBalance ext db token owner =
      match (db.account token).erc20Balances[owner]? with
      | some balance => .ok balance
      | none => storage ext db token (erc20MappingSlot ext owner slot) := by
  have read := tokenBalance_eq ext db token owner
  rw [balanceSlot_of_known ext known] at read
  exact read

/-- With a known slot a read changes no other read. -/
theorem tokenBalance_erc20BalanceOf_of_known {db : HybridDb} {token : Address}
    {slot : U256} (known : db.knownSlot token = some slot) (owner other : Address) :
    tokenBalance ext (erc20BalanceOf ext db token owner).1 token other =
      tokenBalance ext db token other := by
  rw [tokenBalance_of_known (knownSlot_erc20BalanceOf known owner),
    tokenBalance_of_known known, account_erc20BalanceOf, if_pos rfl,
    storage_erc20BalanceOf]

theorem toNat_nextTotalSupply (total previous balance : U256) :
    (nextTotalSupply total previous balance).toNat =
      if previous.toNat ≤ balance.toNat then
        min (total.toNat + (balance.toNat - previous.toNat)) (2 ^ 256 - 1)
      else total.toNat - (previous.toNat - balance.toNat) := by
  unfold nextTotalSupply
  by_cases grows : previous ≤ balance
  · rw [if_pos grows, if_pos (BitVec.le_def.mp grows), U256.toNat_saturatingAdd,
      BitVec.toNat_sub_of_le grows]
  · have falls : balance ≤ previous := BitVec.le_of_lt (BitVec.not_le.mp grows)
    rw [if_neg grows, if_neg fun le => grows (BitVec.le_def.mpr le),
      U256.toNat_saturatingSub, BitVec.toNat_sub_of_le falls]

end HybridDb

namespace EvmExecutor

variable {ext : Externals} {sender : Address}

/-- The diff of a token transfer leaves out nothing that a read shows. -/
structure TokenCarried (ext : Externals) (db : HybridDb)
    (sender token recipient : Address) (amount : U256) : Prop where
  notToken : sender ≠ token
  known : ∃ slot, db.knownSlot token = some slot
  moves : sender ≠ recipient ∨ amount = 0
  covered : ∀ balance, tokenBalance ext db token sender = .ok balance →
    amount ≤ balance
  room : ∀ balance, tokenBalance ext db token recipient = .ok balance →
    balance.toNat + amount.toNat < 2 ^ 256
  fresh : amount = 0 ∨ (db.account token).erc20Balances[sender]? = none ∧
    (db.account token).erc20Balances[recipient]? = none
  supply : ∃ total, storage ext db token 1 = .ok total ∧ amount ≤ total

theorem knownSlot_transferReads {db : HybridDb} {token : Address} {slot : U256}
    (known : db.knownSlot token = some slot) (recipient : Address) :
    (transferReads ext db token sender recipient).knownSlot token = some slot :=
  knownSlot_erc20BalanceOf (knownSlot_erc20BalanceOf known sender) recipient

theorem writtenSlot_of_known {db : HybridDb} {token : Address} {slot : U256}
    (known : db.knownSlot token = some slot) (owner : Address) :
    writtenSlot ext db token owner = slot := by
  unfold writtenSlot
  rw [balanceSlot_of_known ext known]
  rfl

theorem tokenBalance_transferReads {db : HybridDb} {token : Address} {slot : U256}
    (known : db.knownSlot token = some slot) (recipient owner : Address) :
    tokenBalance ext (transferReads ext db token sender recipient) token owner =
      tokenBalance ext db token owner := by
  unfold transferReads
  rw [tokenBalance_erc20BalanceOf_of_known (knownSlot_erc20BalanceOf known sender),
    tokenBalance_erc20BalanceOf_of_known known]

/-- Taking the amount from the sender lowers the total by it. -/
theorem writtenTotal_sender {db : HybridDb} {token : Address}
    {slot amount senderBalance total : U256} (apart : MappingApart ext slot)
    (known : db.knownSlot token = some slot)
    (senderRead : tokenBalance ext db token sender = .ok senderBalance)
    (supply : storage ext db token 1 = .ok total) (covered : amount ≤ senderBalance)
    (enough : amount ≤ total) :
    writtenTotal ext db token sender (U256.saturatingSub senderBalance amount) =
      total - amount := by
  have covers : amount.toNat ≤ senderBalance.toNat := BitVec.le_def.mp covered
  have enoughNat : amount.toNat ≤ total.toNat := BitVec.le_def.mp enough
  have nextSender := U256.toNat_saturatingSub senderBalance amount
  unfold writtenTotal
  rw [writtenSlot_of_known known, senderRead, supply]
  dsimp only [Except.toOption, Option.getD_some]
  rw [if_neg (apart.notTotal sender)]
  apply BitVec.eq_of_toNat_eq
  have bound := total.isLt
  rw [toNat_nextTotalSupply, BitVec.toNat_sub_of_le enough, nextSender]
  split <;> omega

/-- The recipient's balance is read as before once the sender's is written, unless the
sender is the recipient and the amount is not zero. -/
theorem tokenBalance_setErc20Balance {db : HybridDb} {token recipient : Address}
    {slot amount senderBalance : U256}
    (apart : MappingApart ext slot) (known : db.knownSlot token = some slot)
    (senderRead : tokenBalance ext db token sender = .ok senderBalance)
    (moves : sender ≠ recipient ∨ amount = 0) :
    tokenBalance ext
        (setErc20Balance ext db token sender (U256.saturatingSub senderBalance amount)).1
        token recipient =
      tokenBalance ext db token recipient := by
  set nextSender := U256.saturatingSub senderBalance amount with lowered
  set between := (setErc20Balance ext db token sender nextSender).1
  have entry : between.account token = _ :=
    account_setErc20Balance ext db token sender token nextSender
  rw [if_pos rfl, writtenSlot_of_known known] at entry
  have recorded : (between.account token).erc20BalanceSlot = some slot := by rw [entry]
  have pinned : between.pinnedBlock = db.pinnedBlock :=
    (sameInfo_setErc20Balance ext db token sender nextSender).pinnedBlock
  rw [tokenBalance_recorded recorded, entry]
  dsimp only
  by_cases same : recipient = sender
  · have zero : amount = 0 := moves.resolve_left fun distinct => distinct same.symm
    have unchanged : nextSender = senderBalance := by
      apply BitVec.eq_of_toNat_eq
      rw [lowered, U256.toNat_saturatingSub, zero]
      rfl
    rw [same, Std.ExtTreeMap.getElem?_insert_self, senderRead, unchanged]
  · rw [getElem?_insert_of_ne same, tokenBalance_of_known known]
    have stored : storage ext between token (erc20MappingSlot ext recipient slot) =
        storage ext db token (erc20MappingSlot ext recipient slot) := by
      apply storage_congr ext pinned
      rw [entry, getElem?_insert_of_ne (apart.notTotal recipient),
        getElem?_insert_of_ne (apart.injective.ne same)]
    cases (db.account token).erc20Balances[recipient]? with
    | some balance => rfl
    | none => exact stored

/-- The first write of a transfer lowers the total supply and the second raises it
again. -/
theorem writtenTotal_transfer {db : HybridDb} {token recipient : Address}
    {slot amount senderBalance recipientBalance total : U256}
    (apart : MappingApart ext slot) (known : db.knownSlot token = some slot)
    (senderRead : tokenBalance ext db token sender = .ok senderBalance)
    (recipientRead : tokenBalance ext db token recipient = .ok recipientBalance)
    (supply : storage ext db token 1 = .ok total)
    (moves : sender ≠ recipient ∨ amount = 0) (covered : amount ≤ senderBalance)
    (room : recipientBalance.toNat + amount.toNat < 2 ^ 256)
    (enough : amount ≤ total) :
    let nextSender := U256.saturatingSub senderBalance amount
    let between := (setErc20Balance ext db token sender nextSender).1
    writtenTotal ext between token recipient
      (U256.saturatingAdd recipientBalance amount) = total := by
  intro nextSender between
  have enoughNat : amount.toNat ≤ total.toNat := BitVec.le_def.mp enough
  have entry : between.account token = _ :=
    account_setErc20Balance ext db token sender token nextSender
  rw [if_pos rfl, writtenSlot_of_known known] at entry
  have recorded : (between.account token).erc20BalanceSlot = some slot := by rw [entry]
  have previous : tokenBalance ext between token recipient = .ok recipientBalance :=
    (tokenBalance_setErc20Balance apart known senderRead moves).trans recipientRead
  have between_total : storage ext between token 1 = .ok (total - amount) := by
    unfold storage
    have first : (between.account token).storage[(1 : U256)]? = some (total - amount) := by
      rw [entry, Std.ExtTreeMap.getElem?_insert_self,
        writtenTotal_sender apart known senderRead supply covered enough]
    rw [first]
  have writtenIs : writtenSlot ext between token recipient = slot := by
    unfold writtenSlot balanceSlot
    rw [recorded]
    rfl
  unfold writtenTotal
  rw [writtenIs, previous, between_total]
  dsimp only [Except.toOption, Option.getD_some]
  rw [if_neg (apart.notTotal recipient)]
  apply BitVec.eq_of_toNat_eq
  have bound := total.isLt
  have raised := U256.toNat_saturatingAdd recipientBalance amount
  rw [toNat_nextTotalSupply, BitVec.toNat_sub_of_le enough, raised]
  split <;> omega

theorem present_writeTransfer (db : HybridDb) (token recipient address : Address)
    (nextSender nextRecipient : U256) :
    (writeTransfer ext (transferReads ext db token sender recipient) token sender
        recipient nextSender nextRecipient).present address =
      (decide (address = token) || db.present address) := by
  unfold writeTransfer transferReads
  rw [present_setErc20Balance, present_setErc20Balance]
  by_cases isToken : address = token
  · simp [isToken]
  · rw [present_erc20BalanceOf_ne ext _ recipient isToken,
      present_erc20BalanceOf_ne ext db sender isToken]
    simp [isToken]

/-- The mapping slots in the diff of a token transfer. -/
theorem writtenBalances_transfer {token : DirtyAccount} {slot : U256}
    {recipient : Address} {nextSender nextRecipient : U256}
    (senderSlot : token.storage.contains (erc20MappingSlot ext sender slot) = true)
    (recipientSlot : token.storage.contains (erc20MappingSlot ext recipient slot) =
      true) :
    writtenBalances ext token slot
        [(sender, nextSender), (recipient, nextRecipient)] =
      [(erc20MappingSlot ext sender slot, nextSender),
        (erc20MappingSlot ext recipient slot, nextRecipient)] := by
  unfold writtenBalances
  simp [senderSlot, recipientSlot]

/-- The token's entry after a transfer through a known slot. -/
structure TransferEntry (ext : Externals) (before after : DirtyAccount)
    (sender recipient : Address) (slot nextSender nextRecipient lowered total : U256) :
    Prop where
  recorded : after.erc20BalanceSlot = some slot
  overrides : after.erc20Balances =
    (before.erc20Balances.insert sender nextSender).insert recipient nextRecipient
  storage : after.storage = (((before.storage.insert
    (erc20MappingSlot ext sender slot) nextSender).insert 1 lowered).insert
      (erc20MappingSlot ext recipient slot) nextRecipient).insert 1 total

theorem transferEntry_writeTransfer {db : HybridDb} {token recipient : Address}
    {amount slot senderBalance recipientBalance total : U256}
    (apart : MappingApart ext slot) (known : db.knownSlot token = some slot)
    (carried : TokenCarried ext db sender token recipient amount)
    (senderRead : tokenBalance ext db token sender = .ok senderBalance)
    (recipientRead : tokenBalance ext db token recipient = .ok recipientBalance)
    (supply : storage ext db token 1 = .ok total) (enough : amount ≤ total) :
    let nextSender := U256.saturatingSub senderBalance amount
    let nextRecipient := U256.saturatingAdd recipientBalance amount
    let written := writeTransfer ext (transferReads ext db token sender recipient) token
      sender recipient nextSender nextRecipient
    (∃ lowered, TransferEntry ext (db.account token) (written.account token) sender
      recipient slot nextSender nextRecipient lowered total) ∧
    ∀ other, other ≠ token → written.account other = db.account other := by
  intro nextSender nextRecipient written
  have knownReads : (transferReads ext db token sender recipient).knownSlot token =
      some slot := knownSlot_transferReads known recipient
  have entries := fun other => account_writeTransfer ext
    (transferReads ext db token sender recipient) token sender recipient other nextSender
    nextRecipient
  have raised := writtenTotal_transfer apart knownReads
    ((tokenBalance_transferReads known recipient sender).trans senderRead)
    ((tokenBalance_transferReads known recipient recipient).trans recipientRead)
    ((storage_transferReads db token recipient token 1).trans supply) carried.moves
    (carried.covered senderBalance senderRead)
    (carried.room recipientBalance recipientRead) enough
  dsimp only at entries raised
  constructor
  · obtain ⟨recorded, reads⟩ := account_transferReads ext sender db token recipient token
    have entry := entries token
    rw [if_pos rfl, raised, writtenSlot_of_known knownReads, reads, if_pos rfl] at entry
    exact ⟨_, by rw [entry], by rw [entry], by rw [entry]⟩
  · intro other notToken
    obtain ⟨recorded, reads⟩ := account_transferReads ext sender db token recipient other
    have entry := entries other
    rw [if_neg notToken] at entry
    rw [if_neg notToken] at reads
    exact entry.trans reads

theorem storage_of_transferEntry {db written : HybridDb} {token recipient : Address}
    {slot nextSender nextRecipient lowered total : U256}
    (pinned : written.pinnedBlock = db.pinnedBlock)
    (entry : TransferEntry ext (db.account token) (written.account token) sender
      recipient slot nextSender nextRecipient lowered total) (index : U256) :
    storage ext written token index =
      if index = 1 then .ok total
      else if index = erc20MappingSlot ext recipient slot then .ok nextRecipient
      else if index = erc20MappingSlot ext sender slot then .ok nextSender
      else storage ext db token index := by
  unfold storage resolveBlock
  rw [pinned, entry.storage, getElem?_insert, getElem?_insert, getElem?_insert,
    getElem?_insert]
  by_cases first : index = 1
  · rw [if_pos first, if_pos first]
  · by_cases second : index = erc20MappingSlot ext recipient slot
    · rw [if_neg first, if_neg first, if_neg first, if_pos second, if_pos second]
    · rw [if_neg first, if_neg first, if_neg first, if_neg second, if_neg second]
      by_cases third : index = erc20MappingSlot ext sender slot
      · rw [if_pos third, if_pos third]
      · rw [if_neg third, if_neg third]

theorem transferDiff_accounts {entry before : DirtyAccount} {recipient : Address}
    {slot nextSender nextRecipient lowered total : U256} (token : Address)
    (amount : U256) (gasLimit : UInt64)
    (after : TransferEntry ext before entry sender recipient slot nextSender
      nextRecipient lowered total) :
    ∃ storageRead, (transferDiff ext entry token sender recipient amount nextSender
        nextRecipient gasLimit).accounts =
      (∅ : Std.ExtTreeMap Address AccountDiff).insert token
        { storageWritten := ((∅ : Std.ExtTreeMap U256 U256).insert
            (erc20MappingSlot ext sender slot) nextSender).insert
              (erc20MappingSlot ext recipient slot) nextRecipient
          storageRead } := by
  have senderSlot : entry.storage.contains (erc20MappingSlot ext sender slot) = true := by
    rw [after.storage]
    simp
  have recipientSlot :
      entry.storage.contains (erc20MappingSlot ext recipient slot) = true := by
    rw [after.storage]
    simp
  unfold transferDiff
  rw [after.recorded, Option.elim_some,
    writtenBalances_transfer senderSlot recipientSlot]
  exact ⟨_, rfl⟩

/-- The slots of the token after a transfer are those of its diff. -/
theorem storage_of_transferDiff {db written : HybridDb} {diff : StateDiff}
    {token recipient : Address} {nextNonce : UInt64}
    {slot nextSender nextRecipient lowered total : U256}
    (simulated : SimulatedDiff diff sender token nextNonce
      (((∅ : Std.ExtTreeMap U256 U256).insert (erc20MappingSlot ext sender slot)
        nextSender).insert (erc20MappingSlot ext recipient slot) nextRecipient))
    (same : SameInfo db written)
    (entry : TransferEntry ext (db.account token) (written.account token) sender
      recipient slot nextSender nextRecipient lowered total)
    (others : ∀ other, other ≠ token → written.account other = db.account other)
    (apart : MappingApart ext slot) (notToken : sender ≠ token)
    (supply : storage ext db token 1 = .ok total) (address : Address) (index : U256) :
    storage ext (db.applyStateDiff ext diff) address index =
      storage ext (written.setNonce sender nextNonce) address index := by
  rw [storage_simulated simulated, storage_setNonce]
  by_cases isToken : address = token
  · rw [isToken, if_pos ⟨rfl, Ne.symm notToken⟩, getElem?_insert, getElem?_insert,
      Std.ExtTreeMap.getElem?_empty, storage_of_transferEntry same.pinnedBlock entry]
    by_cases first : index = 1
    · rw [if_neg (first ▸ Ne.symm (apart.notTotal recipient)),
        if_neg (first ▸ Ne.symm (apart.notTotal sender)), if_pos first, first]
      exact supply
    · rw [if_neg first]
      by_cases second : index = erc20MappingSlot ext recipient slot
      · rw [if_pos second, if_pos second]
      · rw [if_neg second, if_neg second]
        by_cases third : index = erc20MappingSlot ext sender slot
        · rw [if_pos third, if_pos third]
        · rw [if_neg third, if_neg third]
  · rw [if_neg fun both => isToken both.1]
    exact (storage_congr ext same.pinnedBlock (by rw [others address isToken])).symm

/-- The reads after the transfer agree with those after its diff, if no override of the
two parties goes stale. -/
theorem readsAgree_of_transferEntry {db written : HybridDb} {diff : StateDiff}
    {token recipient : Address} {nextNonce : UInt64}
    {slot nextSender nextRecipient lowered total : U256}
    (simulated : SimulatedDiff diff sender token nextNonce
      (((∅ : Std.ExtTreeMap U256 U256).insert (erc20MappingSlot ext sender slot)
        nextSender).insert (erc20MappingSlot ext recipient slot) nextRecipient))
    (same : SameInfo db written)
    (present : ∀ address, written.present address =
      (decide (address = token) || db.present address))
    (entry : TransferEntry ext (db.account token) (written.account token) sender
      recipient slot nextSender nextRecipient lowered total)
    (others : ∀ other, other ≠ token → written.account other = db.account other)
    (apart : MappingApart ext slot) (notToken : sender ≠ token)
    (known : db.knownSlot token = some slot)
    (supply : storage ext db token 1 = .ok total)
    (senderOverride : ∀ balance,
      (db.account token).erc20Balances[sender]? = some balance → balance = nextSender)
    (recipientOverride : ∀ balance,
      (db.account token).erc20Balances[recipient]? = some balance →
        balance = nextRecipient) :
    ReadsAgree ext (db.applyStateDiff ext diff)
      (written.setNonce sender nextNonce) := by
  have basics := basic_simulated ext simulated same present
  have counted := fun other => tokenFields_setNonce written sender other nextNonce
  simp only [DirtyAccount.tokenFields, Prod.mk.injEq] at counted
  have unchanged := overrides_applyStateDiff ext db diff
  have slots := storage_of_transferDiff simulated same entry others apart notToken supply
  refine ⟨basics, slots, fun other owner => ?_⟩
  by_cases isToken : other = token
  · subst isToken
    have liveKnown : (db.applyStateDiff ext diff).knownSlot other = some slot := by
      unfold knownSlot at known ⊢
      rw [(unchanged other).2, known]
    have recorded : ((written.setNonce sender nextNonce).account other).erc20BalanceSlot =
        some slot := (counted other).1.trans entry.recorded
    rw [tokenBalance_of_known liveKnown, tokenBalance_recorded recorded,
      (unchanged other).1, (counted other).2.1, entry.overrides, slots, storage_setNonce]
    have stored := storage_of_transferEntry same.pinnedBlock entry
      (erc20MappingSlot ext owner slot)
    rw [if_neg (apart.notTotal owner)] at stored
    by_cases isRecipient : owner = recipient
    · subst isRecipient
      rw [Std.ExtTreeMap.getElem?_insert_self, stored, if_pos rfl]
      cases override : (db.account other).erc20Balances[owner]? with
      | none => rfl
      | some balance => rw [recipientOverride balance override]
    · rw [getElem?_insert_of_ne isRecipient]
      by_cases isSender : owner = sender
      · subst isSender
        rw [if_neg (apart.injective.ne isRecipient), if_pos rfl] at stored
        rw [Std.ExtTreeMap.getElem?_insert_self, stored]
        cases override : (db.account other).erc20Balances[owner]? with
        | none => rfl
        | some balance => rw [senderOverride balance override]
      · cases override : (db.account other).erc20Balances[owner]? with
        | none => rw [getElem?_insert_of_ne isSender, override]
        | some balance => rw [getElem?_insert_of_ne isSender, override]
  · have pinned : (db.applyStateDiff ext diff).pinnedBlock =
        (written.setNonce sender nextNonce).pinnedBlock := same.pinnedBlock.symm
    apply tokenBalance_congr pinned (basics other) _ _ (slots other)
    · rw [(unchanged other).1, (counted other).2.1, others other isToken]
    · rw [(unchanged other).2, (counted other).1, others other isToken]

theorem readsAgree_tokenTransfer {db : HybridDb} {token recipient : Address}
    {amount senderBalance recipientBalance : U256} (nextNonce gasLimit : UInt64)
    (carried : TokenCarried ext db sender token recipient amount)
    (apart : ∀ slot, db.knownSlot token = some slot → MappingApart ext slot)
    (senderRead : tokenBalance ext db token sender = .ok senderBalance)
    (foundRead : tokenBalance ext (erc20BalanceOf ext db token sender).1 token
      recipient = .ok recipientBalance) :
    let nextSender := U256.saturatingSub senderBalance amount
    let nextRecipient := U256.saturatingAdd recipientBalance amount
    let written := writeTransfer ext (transferReads ext db token sender recipient) token
      sender recipient nextSender nextRecipient
    let diff := transferDiff ext (written.dirty.account token) token sender recipient
      amount nextSender nextRecipient gasLimit
    ReadsAgree ext
      (db.applyStateDiff ext
        { diff with
          accounts := diff.accounts.insert sender
            { infoChanged := true, newNonce := some nextNonce } })
      (written.setNonce sender nextNonce) := by
  intro nextSender nextRecipient written diff
  obtain ⟨slot, known⟩ := carried.known
  obtain ⟨total, supply, enough⟩ := carried.supply
  have recipientRead :=
    (tokenBalance_erc20BalanceOf_of_known known sender recipient).symm.trans foundRead
  obtain ⟨⟨lowered, entry⟩, others⟩ := transferEntry_writeTransfer (apart slot known)
    known carried senderRead recipientRead supply enough
  obtain ⟨storageRead, accounts⟩ := transferDiff_accounts token amount gasLimit entry
  have same : SameInfo db written := (sameInfo_transferReads db token recipient).trans
    (sameInfo_writeTransfer _ token recipient nextSender nextRecipient)
  refine readsAgree_of_transferEntry (simulatedDiff_insert sender nextNonce accounts) same
    (fun address => present_writeTransfer db token recipient address nextSender
      nextRecipient) entry others (apart slot known) carried.notToken known supply ?_ ?_
  · intro balance override
    rcases carried.fresh with zero | ⟨absent, -⟩
    · rw [tokenBalance_of_override override] at senderRead
      rw [Except.ok.inj senderRead]
      exact (zero ▸ U256.saturatingSub_zero senderBalance).symm
    · cases absent.symm.trans override
  · intro balance override
    rcases carried.fresh with zero | ⟨-, absent⟩
    · rw [tokenBalance_of_override override] at recipientRead
      rw [Except.ok.inj recipientRead]
      exact (zero ▸ U256.saturatingAdd_zero recipientBalance).symm
    · cases absent.symm.trans override

end EvmExecutor

end Roko
