import Roko.EvmExecutorInputs
import Roko.Memoization

/-!
# What a speculative execution depends on

A request is looked up under a hash of its fields, and executed on a copy of the fork.  The
copy has the entries of the fork when the baseline of its storage is fresh.  A change of the
fork is reported by the slots that it writes, and agrees with the fork elsewhere.
-/

namespace Roko

open HybridDb

variable {ext : Externals}

/-- The requests differ at most between no recipient and the zero address. -/
structure SameShape (first second : TransactionRequest) : Prop where
  sender : second.sender = first.sender
  recipient : second.recipient.getD 0 = first.recipient.getD 0
  value : second.value.getD 0 = first.value.getD 0
  gas : second.gasLimit = first.gasLimit
  data : second.data.getD [] = first.data.getD []

theorem addressBytes_append_inj {left right : Address} {leftRest rightRest : Bytes}
    (same : addressBytes left ++ leftRest = addressBytes right ++ rightRest) :
    left = right ∧ leftRest = rightRest := by
  have range : (256 : Nat) ^ 20 = 2 ^ 160 := by norm_num
  obtain ⟨values, rests⟩ := ByteEncoding.bigEndian_append_inj
    (by rw [range]; exact left.isLt) (by rw [range]; exact right.isLt) same
  exact ⟨BitVec.eq_of_toNat_eq values, rests⟩

theorem u256Bytes_append_inj {left right : U256} {leftRest rightRest : Bytes}
    (same : u256Bytes left ++ leftRest = u256Bytes right ++ rightRest) :
    left = right ∧ leftRest = rightRest := by
  have range : (256 : Nat) ^ 32 = 2 ^ 256 := by norm_num
  obtain ⟨values, rests⟩ := ByteEncoding.bigEndian_append_inj
    (by rw [range]; exact left.isLt) (by rw [range]; exact right.isLt) same
  exact ⟨BitVec.eq_of_toNat_eq values, rests⟩

theorem u64Bytes_append_inj {left right : UInt64} {leftRest rightRest : Bytes}
    (same : u64Bytes left ++ leftRest = u64Bytes right ++ rightRest) :
    left = right ∧ leftRest = rightRest := by
  have range : (256 : Nat) ^ 8 = 2 ^ 64 := by norm_num
  obtain ⟨values, rests⟩ := ByteEncoding.bigEndian_append_inj
    (by rw [range]; exact left.toNat_lt) (by rw [range]; exact right.toNat_lt) same
  exact ⟨UInt64.toNat_inj.mp values, rests⟩

namespace TransactionRequest

/-- The bytes that a request with this sender is hashed from. -/
def keyBytes (request : TransactionRequest) (sender : Address) : Bytes :=
  speculativeKeyBytes sender request.recipient (request.value.getD 0) request.gasLimit
    (request.data.getD [])

theorem sameShape_of_keyBytes {first second : TransactionRequest} {left right : Address}
    (firstSender : first.sender = some left) (secondSender : second.sender = some right)
    (same : second.keyBytes right = first.keyBytes left) : SameShape first second := by
  unfold keyBytes speculativeKeyBytes at same
  simp only [List.append_assoc] at same
  obtain ⟨senders, same⟩ := addressBytes_append_inj same
  obtain ⟨recipients, same⟩ := addressBytes_append_inj same
  obtain ⟨values, same⟩ := u256Bytes_append_inj same
  obtain ⟨gas, data⟩ := u64Bytes_append_inj same
  exact ⟨by rw [firstSender, secondSender, senders], recipients, values, gas, data⟩

theorem transact_congr_request (ext : Externals) (state : ForkState)
    {first second : TransactionRequest} (shape : SameShape first second)
    (recipients : first.recipient = second.recipient) :
    second.transact ext state = first.transact ext state := by
  unfold transact
  rw [shape.sender, recipients, shape.value, shape.gas, shape.data]

end TransactionRequest

/-- The entries of the write layer. -/
abbrev Entries := Std.ExtTreeMap Address DirtyAccount

def Entries.entry (entries : Entries) (address : Address) : DirtyAccount :=
  entries[address]?.getD {}

def ForkState.dirtyEntries (state : ForkState) : Entries :=
  state.db.dirty.accounts

abbrev Locations := Set (Address × U256)

def SlotRefs.locations (refs : SlotRefs) : Locations :=
  { location | location ∈ refs }

/-- The entries agree at some slots, slot zero standing for the account data as well.  A
shadowed token balance goes with the mapping slot of its owner. -/
structure AgreesOn (ext : Externals) (locations : Locations) (left right : Entries) :
    Prop where
  storage : ∀ address slot, (address, slot) ∈ locations →
    (right.entry address).storage[slot]? = (left.entry address).storage[slot]?
  info : ∀ address, (address, 0) ∈ locations →
    (right.entry address).infoFields = (left.entry address).infoFields
  recorded : ∀ address slot, (address, slot) ∈ locations →
    (right.entry address).erc20BalanceSlot = (left.entry address).erc20BalanceSlot
  overrides : ∀ token owner slot, (left.entry token).erc20BalanceSlot = some slot →
    (token, erc20MappingSlot ext owner slot) ∈ locations →
      (right.entry token).erc20Balances[owner]? = (left.entry token).erc20Balances[owner]?

theorem agreement_agreesOn (ext : Externals) : Memo.Agreement (AgreesOn ext) where
  refl _ _ := ⟨fun _ _ _ => rfl, fun _ _ => rfl, fun _ _ _ => rfl, fun _ _ _ _ _ => rfl⟩
  trans := by
    intro locations first second third left right
    constructor
    · exact fun address slot member =>
        (right.storage address slot member).trans (left.storage address slot member)
    · exact fun address member => (right.info address member).trans (left.info address member)
    · exact fun address slot member =>
        (right.recorded address slot member).trans (left.recorded address slot member)
    · intro token owner slot known member
      have still := (left.recorded token _ member).trans known
      exact (right.overrides token owner slot still member).trans
        (left.overrides token owner slot known member)

/-- A change of the fork is reported: each slot that is written, and slot zero of each
account whose balance, nonce or code changes.  A shadowed token balance is written with
the mapping slot of its owner. -/
structure Reported (ext : Externals) (writes : Locations) (before after : Entries) :
    Prop where
  storage : ∀ address slot, (address, slot) ∉ writes →
    (after.entry address).storage[slot]? = (before.entry address).storage[slot]?
  info : ∀ address, (address, 0) ∉ writes →
    (after.entry address).infoFields = (before.entry address).infoFields
  overrides : ∀ token owner slot, (before.entry token).erc20BalanceSlot = some slot →
    (token, erc20MappingSlot ext owner slot) ∉ writes →
      (after.entry token).erc20Balances[owner]? = (before.entry token).erc20Balances[owner]?

/-- What is not reported is unchanged. -/
theorem Reported.agreesOn {writes reads : Locations} {before after : Entries}
    (reported : Reported ext writes before after)
    (apart : ∀ location ∈ reads, location ∉ writes)
    (recorded : ∀ address slot, (address, slot) ∈ reads →
      (after.entry address).erc20BalanceSlot = (before.entry address).erc20BalanceSlot) :
    AgreesOn ext reads before after where
  storage address slot member := reported.storage address slot (apart _ member)
  info address member := reported.info address (apart _ member)
  recorded := recorded
  overrides token owner slot known member :=
    reported.overrides token owner slot known (apart _ member)

/-- The outcome of a request in an environment. -/
def outcomeIn (ext : Externals) (environment : Environment) (entries : Entries)
    (request : TransactionRequest) : Executed :=
  request.transact ext (environment.fork entries)

theorem transact_request_congr (reads : DependsOnReads ext) (left right : ForkState)
    (entries : right.dirtyEntries = left.dirtyEntries)
    (environment : right.environment = left.environment) (request : TransactionRequest) :
    request.transact ext right = request.transact ext left := by
  have pinned : right.db.pinnedBlock = left.db.pinnedBlock :=
    congrArg Environment.pinnedBlock environment
  unfold TransactionRequest.transact
  cases request.sender with
  | none => rfl
  | some sender =>
      exact EvmExecutor.transact_congr reads ⟨entries, pinned⟩ environment _ _ _ _

theorem outcomeIn_entries (reads : DependsOnReads ext) (state : ForkState)
    (request : TransactionRequest) :
    outcomeIn ext state.environment state.dirtyEntries request = request.transact ext state :=
  transact_request_congr reads state (state.environment.fork state.dirtyEntries) rfl rfl request

/-- The baseline of the executor has the values of the slots that the fork stores. -/
def BaselineFresh (baseline : SlotValues) (entries : Entries) : Prop :=
  ∀ (address : Address) (slot : U256) value,
    (entries.entry address).storage[slot]? = some value →
      baseline.find address slot = some value

theorem find_storages (entries : Entries) :
    BaselineFresh (entries.map fun _ account => account.storage) entries := by
  intro address slot value stored
  unfold SlotValues.find
  unfold Entries.entry at stored
  rw [Std.ExtTreeMap.getElem?_map]
  cases found : entries[address]? with
  | none =>
      rw [found] at stored
      cases stored
  | some account =>
      rw [found] at stored
      exact stored

theorem entries_buildSpeculativeState {state : ForkState} {baseline : SlotValues}
    (fresh : BaselineFresh baseline state.dirtyEntries) :
    (buildSpeculativeState state (CowState.branch baseline)).dirtyEntries = state.dirtyEntries := by
  apply Std.ExtTreeMap.ext_getElem?
  intro address
  unfold ForkState.dirtyEntries buildSpeculativeState
  dsimp only [ForkState.new]
  rw [Std.ExtTreeMap.getElem?_map]
  cases found : state.db.dirty.accounts[address]? with
  | none => rfl
  | some account =>
      have copied : account.storage.filterMap (fun slot _ =>
          (CowState.branch baseline).read address slot) = account.storage := by
        apply Std.ExtTreeMap.ext_getElem?
        intro slot
        rw [Std.ExtTreeMap.getElem?_filterMap']
        cases stored : account.storage[slot]? with
        | none => rfl
        | some value =>
            have same : (state.dirtyEntries.entry address).storage[slot]? = some value := by
              unfold Entries.entry ForkState.dirtyEntries
              rw [found]
              exact stored
            have kept := fresh address slot value same
            unfold CowState.read CowState.branch
            rw [kept]
            rfl
      dsimp only [Option.map_some]
      rw [copied]

/-- The clone has the environment of the fork, without the check of balances. -/
theorem environment_buildSpeculativeState (state : ForkState) (cow : CowState) :
    (buildSpeculativeState state cow).environment =
      { state with strictBalance := false : ForkState }.environment :=
  rfl

/-- The sender of the request covers what it moves, if balances are checked. -/
def StrictHarmless (ext : Externals) (state : ForkState) (request : TransactionRequest) :
    Prop :=
  state.strictBalance = true → ∀ sender, request.sender = some sender →
    EvmExecutor.CoversRequest ext state.db sender request.recipient
      (request.data.getD []) (request.value.getD 0)

/-- A clone from a fresh baseline returns what the fork would return. -/
theorem transact_buildSpeculativeState (reads : DependsOnReads ext) {state : ForkState}
    {request : TransactionRequest} {baseline : SlotValues}
    (fresh : BaselineFresh baseline state.dirtyEntries)
    (harmless : StrictHarmless ext state request) :
    request.transact ext (buildSpeculativeState state (CowState.branch baseline)) =
      request.transact ext state := by
  have lenient : request.transact ext (buildSpeculativeState state
      (CowState.branch baseline)) =
        request.transact ext { state with strictBalance := false } :=
    transact_request_congr reads { state with strictBalance := false } _
      (entries_buildSpeculativeState fresh) (environment_buildSpeculativeState state _) request
  rw [lenient]
  unfold TransactionRequest.transact
  cases sent : request.sender with
  | none => rfl
  | some sender =>
      dsimp only
      cases checked : state.strictBalance with
      | false =>
          have same : { state with strictBalance := false } = state := by
            rw [← checked]
          rw [same]
      | true =>
          exact EvmExecutor.transact_lenient state _ _ _ _ false
            (harmless checked sender sent)

theorem mem_readSetOf {diff : StateDiff} {address : Address} {change : AccountDiff}
    (changed : diff.accounts[address]? = some change) (info : change.infoChanged = true) :
    (address, 0) ∈ readSetOf diff := by
  unfold readSetOf
  refine List.mem_flatMap.mpr
    ⟨(address, change), Std.ExtTreeMap.mem_toList_iff_getElem?_eq_some.mpr changed, ?_⟩
  rw [info]
  exact List.mem_append_right _ List.mem_cons_self

theorem transact_plain (ext : Externals) (state : ForkState) {request : TransactionRequest}
    {sender : Address} (sent : request.sender = some sender)
    (plain : (request.data.getD []).isEmpty = true) :
    request.transact ext state =
      (EvmExecutor.transactValueTransfer ext state sender request.recipient
        (request.value.getD 0) request.gasLimit).2 := by
  unfold TransactionRequest.transact EvmExecutor.transact
  rw [sent]
  dsimp only
  rw [if_pos plain]

/-- A value transfer that goes through says in its diff whose account data it read. -/
theorem valueTransfer_readSet {state : ForkState} {sender : Address}
    {recipient : Option Address} {value : U256} {gasLimit : UInt64}
    {outcome : ExecutionResult × StateDiff}
    (completes : (EvmExecutor.transactValueTransfer ext state sender recipient value
      gasLimit).2 = .ok outcome) :
    (sender, 0) ∈ readSetOf outcome.2 ∧
      (recipient.getD EvmExecutor.burnAddress, 0) ∈ readSetOf outcome.2 := by
  rw [EvmExecutor.transactValueTransfer_snd] at completes
  cases senderRead : info ext state.db sender with
  | error failure =>
      rw [senderRead] at completes
      cases completes
  | ok senderInfo =>
      cases targetRead : info ext state.db (recipient.getD EvmExecutor.burnAddress) with
      | error failure =>
          rw [senderRead, targetRead] at completes
          cases completes
      | ok targetInfo =>
          rw [senderRead, targetRead] at completes
          dsimp only [Except.bind] at completes
          split at completes
          case isTrue => cases completes
          case isFalse =>
            cases completes
            have target := EvmExecutor.getElem?_valueTransferDiff sender
              (recipient.getD EvmExecutor.burnAddress)
              (recipient.getD EvmExecutor.burnAddress)
              ((U256.checkedSub senderInfo.balance value).getD 0)
              (U256.saturatingAdd targetInfo.balance value)
              (saturatingSucc senderInfo.nonce) gasLimit
            have source := EvmExecutor.getElem?_valueTransferDiff sender
              (recipient.getD EvmExecutor.burnAddress) sender
              ((U256.checkedSub senderInfo.balance value).getD 0)
              (U256.saturatingAdd targetInfo.balance value)
              (saturatingSucc senderInfo.nonce) gasLimit
            rw [if_pos rfl] at target
            refine ⟨?_, mem_readSetOf target rfl⟩
            by_cases same : sender = recipient.getD EvmExecutor.burnAddress
            · rw [if_pos same] at source
              exact mem_readSetOf source rfl
            · rw [if_neg same, if_pos rfl] at source
              exact mem_readSetOf source rfl

/-- The read set of a plain transfer determines its outcome. -/
theorem complete_valueTransfer (ext : Externals) (environment : Environment)
    (entries : Entries) {request : TransactionRequest} {sender : Address}
    (sent : request.sender = some sender) (plain : (request.data.getD []).isEmpty = true)
    {outcome : ExecutionResult × StateDiff}
    (completes : outcomeIn ext environment entries request = .ok outcome) :
    Memo.Complete (AgreesOn ext) (outcomeIn ext environment) entries request
      (readSetOf outcome.2).locations := by
  intro other agree
  unfold outcomeIn at completes ⊢
  rw [transact_plain ext _ sent plain] at completes ⊢
  rw [transact_plain ext _ sent plain]
  obtain ⟨senderRead, targetRead⟩ := valueTransfer_readSet completes
  have same : ∀ address, (address, 0) ∈ readSetOf outcome.2 →
      info ext (environment.fork other).db address =
        info ext (environment.fork entries).db address :=
    fun address member => info_congr ext rfl (agree.info address member)
  rw [EvmExecutor.transactValueTransfer_snd, EvmExecutor.transactValueTransfer_snd,
    same _ senderRead, same _ targetRead]
  rfl

theorem reported_setBalance (ext : Externals) (db : HybridDb) (address : Address)
    (balance : U256) :
    Reported ext (SlotRefs.locations [(address, 0)]) db.dirty.accounts
      (db.setBalance address balance).dirty.accounts := by
  have entry : ∀ other, Entries.entry (db.setBalance address balance).dirty.accounts other =
      if other = address then { db.account address with balance := some balance }
      else db.account other :=
    fun other => account_modify db address other _
  constructor
  · intro other slot _
    rw [entry]
    split
    case isTrue same => rw [same]; rfl
    case isFalse => rfl
  · intro other apart
    have different : other ≠ address := by
      rintro rfl
      exact apart List.mem_cons_self
    rw [entry, if_neg different]
    rfl
  · intro token owner slot _ _
    rw [entry]
    split
    case isTrue same => rw [same]; rfl
    case isFalse => rfl

end Roko
