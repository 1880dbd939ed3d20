import Roko.ForkSlotCounts
import Roko.ForkSnapshots

/-!
# What the write layer keeps twice

The write layer counts its slots, keeps the hash of each code and shadows balances of
tokens that also stand in storage.  The counter and the hashes are kept by every
operation; a shadowed balance is kept unless its slot is written past it.
-/

namespace Roko

open HybridDb

variable {ext : Externals}

/-- The hash of an entry is that of its code, and a shadowed balance is the one that
stands in the mapping slot of its owner. -/
structure EntryKept (ext : Externals) (entry : DirtyAccount) : Prop where
  hashed : ∀ code, entry.code = some code → entry.codeHash = some (ext.keccak256 code)
  shadowed : ∀ owner balance, entry.erc20Balances[owner]? = some balance →
    ∃ slot, entry.erc20BalanceSlot = some slot ∧
      entry.storage[erc20MappingSlot ext owner slot]? = some balance

/-- What is written into the storage of an entry leaves the mapping slots of the
shadowed balances as they are. -/
def Undisturbed (ext : Externals) (entry : DirtyAccount) (written : U256 → Option U256) :
    Prop :=
  ∀ owner balance slot, entry.erc20Balances[owner]? = some balance →
    entry.erc20BalanceSlot = some slot →
      ∀ value, written (erc20MappingSlot ext owner slot) = some value → value = balance

namespace EntryKept

theorem empty (ext : Externals) : EntryKept ext {} := by
  constructor
  · intro code set
    cases set
  · intro owner balance set
    rw [Std.ExtTreeMap.getElem?_empty] at set
    cases set

/-- Code is written with its hash, and slots are written past no shadowed balance. -/
theorem of_writes {entry after : DirtyAccount} (kept : EntryKept ext entry)
    (code : Option Bytecode) (written : U256 → Option U256)
    (codeIs : after.code = code.or entry.code)
    (hashIs : after.codeHash = (code.map ext.keccak256).or entry.codeHash)
    (balances : after.erc20Balances = entry.erc20Balances)
    (recorded : after.erc20BalanceSlot = entry.erc20BalanceSlot)
    (storage : ∀ index : U256, after.storage[index]? =
      (written index).or entry.storage[index]?)
    (undisturbed : Undisturbed ext entry written) : EntryKept ext after := by
  constructor
  · intro shown set
    rw [codeIs] at set
    rw [hashIs]
    cases code with
    | none => exact kept.hashed shown set
    | some code =>
        cases set
        rfl
  · intro owner balance set
    rw [balances] at set
    obtain ⟨slot, known, stored⟩ := kept.shadowed owner balance set
    refine ⟨slot, recorded.trans known, ?_⟩
    rw [storage]
    cases changed : written (erc20MappingSlot ext owner slot) with
    | none => exact stored
    | some value =>
        rw [undisturbed owner balance slot set known value changed]
        rfl

/-- No slot is written. -/
theorem of_code {entry after : DirtyAccount} (kept : EntryKept ext entry)
    (code : Option Bytecode) (codeIs : after.code = code.or entry.code)
    (hashIs : after.codeHash = (code.map ext.keccak256).or entry.codeHash)
    (token : after.tokenFields = entry.tokenFields) : EntryKept ext after := by
  unfold DirtyAccount.tokenFields at token
  simp only [Prod.mk.injEq] at token
  obtain ⟨recorded, balances, storage⟩ := token
  apply kept.of_writes code (fun _ => none) codeIs hashIs balances recorded
  · intro index
    rw [storage]
    rfl
  · intro owner balance slot set known value changed
    cases changed

theorem of_diff {entry : DirtyAccount} (kept : EntryKept ext entry) {diff : AccountDiff}
    (undisturbed : Undisturbed ext entry (diff.storageWritten[·]?)) :
    EntryKept ext (entry.applyDiff ext diff) :=
  kept.of_writes diff.newCode (diff.storageWritten[·]?) rfl rfl rfl rfl
    (DirtyAccount.storage_applyDiff entry diff) undisturbed

theorem of_written {entry : DirtyAccount} (kept : EntryKept ext entry)
    {account : EvmAccount} (undisturbed : Undisturbed ext entry account.changedTo) :
    EntryKept ext (writtenEntry ext entry account) :=
  kept.of_writes (account.code.filter fun code => !code.isEmpty) account.changedTo rfl rfl
    rfl rfl (getElem?_writtenStorage account entry.storage) undisturbed

end EntryKept

/-- The accounts of a layer or of a snapshot, and their count. -/
structure LayerKept (ext : Externals) (accounts : Std.ExtTreeMap Address DirtyAccount)
    (count : UInt64) : Prop where
  counted : count.toNat = slotCount accounts
  entries : ∀ address : Address, EntryKept ext (accounts[address]?.getD {})

structure StoreKept (ext : Externals) (store : DirtyStore) : Prop where
  layer : LayerKept ext store.accounts store.totalDirtySlots
  snapshots : ∀ (id : UInt64) captured, store.snapshots[id]? = some captured →
    LayerKept ext captured.accounts captured.totalDirtySlots

theorem layerKept_empty (ext : Externals) : LayerKept ext ∅ 0 := by
  constructor
  · rfl
  · intro address
    rw [Std.ExtTreeMap.getElem?_empty]
    exact EntryKept.empty ext

theorem storeKept_empty (ext : Externals) : StoreKept ext {} := by
  refine ⟨layerKept_empty ext, fun id captured found => ?_⟩
  rw [Std.ExtTreeMap.getElem?_empty] at found
  cases found

theorem StoreKept.entry {db : HybridDb} (kept : StoreKept ext db.dirty)
    (address : Address) : EntryKept ext (db.account address) :=
  kept.layer.entries address

/-- A step that keeps the entries and counts what it stores keeps the layer. -/
theorem StoreKept.of_adds {before after : HybridDb} (kept : StoreKept ext before.dirty)
    {slots : Nat} (adds : DirtyStore.Adds slots before.dirty after.dirty)
    (room : slotCount before.dirty.accounts + slots < 2 ^ 64)
    (snapshots : SameSnapshots before after)
    (entries : ∀ address, EntryKept ext (after.account address)) :
    StoreKept ext after.dirty where
  layer := ⟨(adds kept.layer.counted room).1, entries⟩
  snapshots := by
    rw [snapshots.snapshots]
    exact kept.snapshots

/-- A change of one entry. -/
theorem entries_modify {db : HybridDb} (kept : StoreKept ext db.dirty) (address : Address)
    {change : DirtyAccount → DirtyAccount}
    (changed : EntryKept ext (change (db.account address))) (other : Address) :
    EntryKept ext ((db.modify address change).account other) := by
  rw [account_modify]
  split
  case isTrue => exact changed
  case isFalse => exact kept.entry other

/-- The same hash, with the answers that an upstream node gives at some moment. -/
def Externals.answers (ext node : Externals) : Externals :=
  { node with keccak256 := ext.keccak256 }

inductive LayerOp
  | setBalance (address : Address) (balance : U256)
  | setNonce (address : Address) (nonce : UInt64)
  | setCode (address : Address) (code : Bytecode)
  | setStorage (address : Address) (slot value : U256)
  | setErc20Balance (node : Externals) (token owner : Address) (balance : U256)
  | erc20BalanceOf (node : Externals) (token owner : Address)
  | applyStateDiff (diff : StateDiff)
  | commit (changes : Std.ExtTreeMap Address EvmAccount)
  | snapshot (blockNumber txIndex : UInt64)
  | revert (id : UInt64)
  | clear

namespace LayerOp

def step (ext : Externals) (db : HybridDb) : LayerOp → HybridDb
  | .setBalance address balance => db.setBalance address balance
  | .setNonce address nonce => db.setNonce address nonce
  | .setCode address code => HybridDb.setCode ext db address code
  | .setStorage address slot value => db.setStorage address slot value
  | .setErc20Balance node token owner balance =>
      (HybridDb.setErc20Balance (ext.answers node) db token owner balance).1
  | .erc20BalanceOf node token owner =>
      (HybridDb.erc20BalanceOf (ext.answers node) db token owner).1
  | .applyStateDiff diff => db.applyStateDiff ext diff
  | .commit changes => HybridDb.commit ext db changes
  | .snapshot blockNumber txIndex =>
      { db with dirty := (db.dirty.snapshot blockNumber txIndex).1 }
  | .revert id => { db with dirty := (db.dirty.revert id).1 }
  | .clear => { db with dirty := db.dirty.clear }

/-- The number of slots that an operation writes. -/
def slotsWritten : LayerOp → Nat
  | .setStorage .. => 1
  | .setErc20Balance .. => 2
  | .applyStateDiff diff => DirtyStore.slotsOfDiff diff
  | .commit changes => slotsOfChanges changes
  | _ => 0

/-- The operation writes no slot that a shadowed balance stands in, except with that
balance. -/
def LeavesShadowed (ext : Externals) (db : HybridDb) : LayerOp → Prop
  | .setStorage address slot value =>
      Undisturbed ext (db.account address) fun index =>
        if index = slot then some value else none
  | .setErc20Balance node token owner _ =>
      let slot := writtenSlot (ext.answers node) db token owner
      let written := erc20MappingSlot ext owner slot
      written ≠ 1 ∧ ∀ other, other ≠ owner →
        (db.account token).erc20Balances[other]?.isSome = true →
          erc20MappingSlot ext other slot ≠ written ∧ erc20MappingSlot ext other slot ≠ 1
  | .applyStateDiff diff => ∀ address change, diff.accounts[address]? = some change →
      Undisturbed ext (db.account address) (change.storageWritten[·]?)
  | .commit changes => ∀ address account, changes[address]? = some account →
      account.Survives → account.created = false →
        Undisturbed ext (db.account address) account.changedTo
  | _ => True

end LayerOp

/-- The counter has room for the slots of the operation, and the shadowed balances are
left alone. -/
def StepSafe (ext : Externals) (db : HybridDb) (op : LayerOp) : Prop :=
  slotCount db.dirty.accounts + op.slotsWritten < 2 ^ 64 ∧ op.LeavesShadowed ext db

/-- A hash that keeps the owners' slots apart lets every balance be written. -/
theorem leavesShadowed_setErc20Balance
    (apart : ∀ slot, EvmExecutor.MappingApart ext slot) (db : HybridDb) (node : Externals)
    (token owner : Address) (balance : U256) :
    (LayerOp.setErc20Balance node token owner balance).LeavesShadowed ext db :=
  ⟨(apart _).notTotal owner, fun other different _ =>
    ⟨fun same => different ((apart _).injective same), (apart _).notTotal other⟩⟩

theorem entries_setStorage {db : HybridDb} (kept : StoreKept ext db.dirty)
    {address : Address} {slot value : U256}
    (left : (LayerOp.setStorage address slot value).LeavesShadowed ext db)
    (other : Address) :
    EntryKept ext ((db.setStorage address slot value).account other) := by
  rw [account_setStorage]
  split
  case isFalse => exact kept.entry other
  case isTrue =>
    have written : ∀ index : U256, ((db.account address).storage.insert slot value)[index]? =
        (if index = slot then some value else none).or
          (db.account address).storage[index]? := by
      intro index
      rw [getElem?_insert]
      split <;> rfl
    exact (kept.entry address).of_writes none _ rfl rfl rfl rfl written left

theorem entries_erc20BalanceOf {db : HybridDb} (kept : StoreKept ext db.dirty)
    (node : Externals) (token owner other : Address) :
    EntryKept ext ((erc20BalanceOf node db token owner).1.account other) := by
  rw [account_erc20BalanceOf]
  split
  case isFalse => exact kept.entry other
  case isTrue =>
    have entry := kept.entry token
    refine ⟨entry.hashed, fun shown balance set => ?_⟩
    obtain ⟨slot, known, stored⟩ := entry.shadowed shown balance set
    refine ⟨slot, ?_, stored⟩
    unfold slotAfterRead balanceSlot
    rw [known]
    split <;> rfl

theorem entries_setErc20Balance {db : HybridDb} (kept : StoreKept ext db.dirty)
    {node : Externals} {token owner : Address} {balance : U256}
    (left : (LayerOp.setErc20Balance node token owner balance).LeavesShadowed ext db)
    (other : Address) :
    EntryKept ext
      ((setErc20Balance (ext.answers node) db token owner balance).1.account other) := by
  obtain ⟨ownApart, othersApart⟩ := left
  rw [account_setErc20Balance]
  split
  case isFalse => exact kept.entry other
  case isTrue =>
    have entry := kept.entry token
    refine ⟨entry.hashed, fun shown value set => ?_⟩
    refine ⟨writtenSlot (ext.answers node) db token owner, rfl, ?_⟩
    dsimp only at set ⊢
    rw [getElem?_insert] at set
    rw [getElem?_insert, getElem?_insert]
    by_cases own : shown = owner
    · subst own
      rw [if_pos rfl] at set
      rw [if_neg ownApart]
      exact (if_pos rfl).trans set
    · rw [if_neg own] at set
      obtain ⟨slot, known, stored⟩ := entry.shadowed shown value set
      have same : writtenSlot (ext.answers node) db token owner = slot := by
        unfold writtenSlot balanceSlot
        rw [known]
        rfl
      obtain ⟨apart, notTotal⟩ := othersApart shown own (by rw [set]; rfl)
      rw [if_neg notTotal]
      refine (if_neg apart).trans ?_
      rw [same]
      exact stored

theorem entries_applyStateDiff {db : HybridDb} (kept : StoreKept ext db.dirty)
    {diff : StateDiff} (left : (LayerOp.applyStateDiff diff).LeavesShadowed ext db)
    (address : Address) :
    EntryKept ext ((db.applyStateDiff ext diff).account address) := by
  rw [account_applyStateDiff]
  cases changed : diff.accounts[address]? with
  | none => exact kept.entry address
  | some change =>
      exact (kept.entry address).of_diff (left address change changed)

theorem entries_commit {db : HybridDb} (kept : StoreKept ext db.dirty)
    {changes : Std.ExtTreeMap Address EvmAccount}
    (left : (LayerOp.commit changes).LeavesShadowed ext db) (address : Address) :
    EntryKept ext ((HybridDb.commit ext db changes).account address) := by
  have entry := kept.entry address
  unfold HybridDb.account DirtyStore.account
  rw [getElem?_commit]
  cases changed : changes[address]? with
  | none => exact entry
  | some account =>
      dsimp only
      unfold committedEntry
      split
      case isTrue => exact entry
      case isFalse touched =>
        split
        case isTrue => exact EntryKept.empty ext
        case isFalse survived =>
          split
          case isTrue =>
            refine (EntryKept.empty ext).of_written ?_
            intro owner balance slot set
            rw [Std.ExtTreeMap.getElem?_empty] at set
            cases set
          case isFalse old =>
            have survives : account.Survives :=
              ⟨by simpa using touched, by simpa using survived⟩
            exact entry.of_written
              (left address account changed survives (by simpa using old))

theorem storeKept_revert {store : DirtyStore} (kept : StoreKept ext store) (id : UInt64) :
    StoreKept ext (store.revert id).1 := by
  unfold DirtyStore.revert
  cases found : store.snapshots[id]? with
  | none => exact kept
  | some captured =>
      refine ⟨kept.snapshots id captured found, fun other earlier live => ?_⟩
      dsimp only at live
      rw [ForkState.getElem?_reverted] at live
      split at live
      case isTrue => exact kept.snapshots other earlier live
      case isFalse => cases live

theorem storeKept_snapshot {store : DirtyStore} (kept : StoreKept ext store)
    (blockNumber txIndex : UInt64) :
    StoreKept ext (store.snapshot blockNumber txIndex).1 := by
  refine ⟨kept.layer, fun id captured live => ?_⟩
  unfold DirtyStore.snapshot at live
  dsimp only at live
  rw [getElem?_insert] at live
  split at live
  case isTrue =>
    cases live
    exact kept.layer
  case isFalse => exact kept.snapshots id captured live

/-- An operation that meets the guard keeps the copies. -/
theorem storeKept_step {db : HybridDb} {op : LayerOp} (kept : StoreKept ext db.dirty)
    (safe : StepSafe ext db op) : StoreKept ext (op.step ext db).dirty := by
  obtain ⟨room, left⟩ := safe
  cases op with
  | setBalance address balance =>
      apply kept.of_adds (adds_setBalance db address balance) room
        (SameSnapshots.modify db address _)
      exact entries_modify kept address
        ((kept.entry address).of_code none rfl rfl rfl)
  | setNonce address nonce =>
      apply kept.of_adds (adds_setNonce db address nonce) room
        (SameSnapshots.modify db address _)
      exact entries_modify kept address
        ((kept.entry address).of_code none rfl rfl rfl)
  | setCode address code =>
      apply kept.of_adds (adds_setCode ext db address code) room
        (SameSnapshots.modify db address _)
      exact entries_modify kept address
        ((kept.entry address).of_code (some code) rfl rfl rfl)
  | setStorage address slot value =>
      exact kept.of_adds (DirtyStore.adds_setStorage db.dirty address slot value) room
        (SameSnapshots.setStorage db address slot value) (entries_setStorage kept left)
  | setErc20Balance node token owner balance =>
      exact kept.of_adds (adds_setErc20Balance _ db token owner balance) room
        (SameSnapshots.setErc20Balance _ db token owner balance)
        (entries_setErc20Balance kept left)
  | erc20BalanceOf node token owner =>
      exact kept.of_adds (adds_erc20BalanceOf _ db token owner) room
        (SameSnapshots.erc20BalanceOf _ db token owner)
        (entries_erc20BalanceOf kept _ token owner)
  | applyStateDiff diff =>
      exact kept.of_adds (DirtyStore.adds_applyStateDiff ext db.dirty diff) room
        (SameSnapshots.applyStateDiff ext db diff) (entries_applyStateDiff kept left)
  | commit changes =>
      exact kept.of_adds (adds_commit ext db changes) room
        (SameSnapshots.commit ext db changes) (entries_commit kept left)
  | snapshot blockNumber txIndex => exact storeKept_snapshot kept blockNumber txIndex
  | revert id => exact storeKept_revert kept id
  | clear =>
      refine ⟨layerKept_empty ext, fun id captured found => ?_⟩
      exact (storeKept_empty ext).snapshots id captured found

/-- The counter is the number of stored slots, the hash of each account is that of its
code, and a shadowed balance is the one in storage. -/
structure Consistent (ext : Externals) (db : HybridDb) : Prop where
  counted : db.dirty.totalDirtySlots.toNat = slotCount db.dirty.accounts
  hashed : ∀ (address : Address) account code, db.dirty.accounts[address]? = some account →
    account.code = some code → account.codeHash = some (ext.keccak256 code)
  shadowed : ∀ token owner balance,
    (db.account token).erc20Balances[owner]? = some balance →
      ∃ slot, (db.account token).erc20BalanceSlot = some slot ∧
        storage ext db token (erc20MappingSlot ext owner slot) = .ok balance

theorem consistent_of_storeKept {db : HybridDb} (kept : StoreKept ext db.dirty) :
    Consistent ext db where
  counted := kept.layer.counted
  hashed := by
    intro address account code found set
    have entry := kept.layer.entries address
    rw [found] at entry
    exact entry.hashed code set
  shadowed := by
    intro token owner balance set
    obtain ⟨slot, known, stored⟩ := (kept.entry token).shadowed owner balance set
    refine ⟨slot, known, ?_⟩
    unfold storage
    rw [stored]

/-- In a run that writes past no shadowed balance the copies agree in every state. -/
theorem copies_agree (ext : Externals) (pinnedBlock : Option UInt64) (chainId : UInt64)
    {ops : List LayerOp}
    (guarded : GuardedRun.Guarded (LayerOp.step ext) (StepSafe ext)
      { dirty := {}, pinnedBlock, chainId } ops) :
    ∀ db ∈ GuardedRun.states (LayerOp.step ext) { dirty := {}, pinnedBlock, chainId } ops,
      Consistent ext db := by
  have kept := GuardedRun.invariant_of_guarded (LayerOp.step ext) (StepSafe ext)
    (fun db => StoreKept ext db.dirty) (fun _ _ kept safe => storeKept_step kept safe)
    (storeKept_empty ext) guarded
  exact fun db member => consistent_of_storeKept (kept db member)

/-- A token whose two owners have balances and one of whose other slots is written. -/
def tokenOps : List LayerOp :=
  [.setErc20Balance EvmExecutor.mappingExternals 9 1 10,
    .setErc20Balance EvmExecutor.mappingExternals 9 2 4, .setStorage 9 2 7]

theorem copies_agree_tokenOps :
    GuardedRun.Guarded (LayerOp.step EvmExecutor.mappingExternals)
        (StepSafe EvmExecutor.mappingExternals) ⟨{}, some 100, 1⟩ tokenOps ∧
      ∀ db ∈ GuardedRun.states (LayerOp.step EvmExecutor.mappingExternals)
        ⟨{}, some 100, 1⟩ tokenOps, Consistent EvmExecutor.mappingExternals db := by
  have guarded : GuardedRun.Guarded (LayerOp.step EvmExecutor.mappingExternals)
      (StepSafe EvmExecutor.mappingExternals) ⟨{}, some 100, 1⟩ tokenOps := by
    unfold tokenOps
    rw [GuardedRun.guarded_cons, GuardedRun.guarded_cons, GuardedRun.guarded_cons]
    refine ⟨⟨by decide, ?_⟩, ⟨by decide, ?_⟩, ⟨by decide, ?_⟩, GuardedRun.guarded_nil _⟩
    · exact leavesShadowed_setErc20Balance EvmExecutor.mappingApart_mappingExternals _ _ _ _ _
    · exact leavesShadowed_setErc20Balance EvmExecutor.mappingApart_mappingExternals _ _ _ _ _
    · intro owner balance slot _ _ value written
      have other : erc20MappingSlot EvmExecutor.mappingExternals owner slot ≠ 2 :=
        EvmExecutor.mappingSlot_ne (by decide)
      dsimp only at written
      rw [if_neg other] at written
      cases written
  exact ⟨guarded, copies_agree EvmExecutor.mappingExternals (some 100) 1 guarded⟩

/-- A balance is written into both copies, and its slot is then written alone. -/
theorem slot_written_past_balance :
    ¬ ∀ (ext : Externals) (pinnedBlock : Option UInt64) (chainId : UInt64)
        (ops : List LayerOp),
      ∀ db ∈ GuardedRun.states (LayerOp.step ext) { dirty := {}, pinnedBlock, chainId } ops,
        Consistent ext db := by
  intro claim
  let ops : List LayerOp :=
    [.setErc20Balance EvmExecutor.mappingExternals 9 1 10,
      .setStorage 9 (erc20MappingSlot EvmExecutor.mappingExternals 1 0) 3]
  have final := claim EvmExecutor.mappingExternals (some 100) 1 ops _
    (GuardedRun.foldl_mem_states _ ops)
  obtain ⟨slot, known, stored⟩ := final.shadowed 9 1 10 rfl
  cases known
  have written : storage EvmExecutor.mappingExternals
      (ops.foldl (LayerOp.step EvmExecutor.mappingExternals) ⟨{}, some 100, 1⟩) 9
      (erc20MappingSlot EvmExecutor.mappingExternals 1 0) = .ok 3 := by
    rfl
  cases written.symm.trans stored

end Roko
