import Roko.ForkCommits

/-!
# The counter of the stored slots

The write layer keeps the number of its slots in a counter.  Each operation moves the
counter by the slots that it stores or drops, as long as the counter has room.
-/

namespace Roko

open HybridDb

/-- The number of slots that are stored for some accounts. -/
def slotCount (accounts : Std.ExtTreeMap Address DirtyAccount) : Nat :=
  MapTotal.total (fun account => account.storage.size) accounts

namespace DirtyStore

/-- The counter is the number of the stored slots. -/
def Counted (store : DirtyStore) : Prop :=
  store.totalDirtySlots.toNat = slotCount store.accounts

/-- A step keeps the count and stores at most some number of slots more, as long as the
counter has room for them. -/
def Adds (slots : Nat) (before after : DirtyStore) : Prop :=
  before.Counted → slotCount before.accounts + slots < 2 ^ 64 →
    after.Counted ∧ slotCount after.accounts ≤ slotCount before.accounts + slots

theorem Adds.refl (store : DirtyStore) : Adds 0 store store :=
  fun counted _ => ⟨counted, le_rfl⟩

theorem Adds.trans {first second : Nat} {before middle after : DirtyStore}
    (left : Adds first before middle) (right : Adds second middle after) :
    Adds (first + second) before after := by
  intro counted room
  obtain ⟨between, atMost⟩ := left counted (by omega)
  obtain ⟨final, bounded⟩ := right between (by omega)
  exact ⟨final, by omega⟩

theorem Adds.mono {fewer more : Nat} {before after : DirtyStore}
    (adds : Adds fewer before after) (le : fewer ≤ more) : Adds more before after := by
  intro counted room
  obtain ⟨final, bounded⟩ := adds counted (by omega)
  exact ⟨final, by omega⟩

theorem totalDirtySlots_modify (store : DirtyStore) (address : Address)
    (change : DirtyAccount → DirtyAccount) :
    (store.modify address change).totalDirtySlots = store.totalDirtySlots :=
  rfl

theorem weightAt_account (store : DirtyStore) (address : Address) :
    MapTotal.weightAt (fun account => account.storage.size) store.accounts address =
      (store.account address).storage.size := by
  unfold MapTotal.weightAt account
  cases store.accounts[address]? <;> rfl

theorem slotCount_modify (store : DirtyStore) (address : Address)
    (change : DirtyAccount → DirtyAccount) :
    slotCount (store.modify address change).accounts +
        (store.account address).storage.size =
      slotCount store.accounts + (change (store.account address)).storage.size := by
  have written := MapTotal.total_insert_add (fun account : DirtyAccount =>
    account.storage.size) store.accounts address (change (store.account address))
  rwa [weightAt_account] at written

theorem adds_modify (store : DirtyStore) (address : Address)
    {change : DirtyAccount → DirtyAccount}
    (same : ∀ account, (change account).storage = account.storage) :
    Adds 0 store (store.modify address change) := by
  intro counted room
  have slots := slotCount_modify store address change
  rw [same] at slots
  unfold Counted at counted ⊢
  rw [totalDirtySlots_modify]
  omega

theorem toNat_saturatingSucc_of_lt {count : UInt64} (room : count.toNat + 1 < 2 ^ 64) :
    (saturatingSucc count).toNat = count.toNat + 1 := by
  rw [toNat_saturatingSucc]
  rintro rfl
  exact absurd room (by decide)

theorem adds_setStorage (store : DirtyStore) (address : Address) (slot value : U256) :
    Adds 1 store (store.setStorage address slot value) := by
  intro counted room
  have slots := slotCount_modify store address fun account =>
    { account with storage := account.storage.insert slot value }
  dsimp only at slots
  rw [Std.ExtTreeMap.size_insert] at slots
  unfold Counted at counted ⊢
  rw [accounts_setStorage]
  unfold setStorage
  dsimp only
  cases stored : (store.account address).storage.contains slot with
  | false =>
      rw [stored, if_neg Bool.false_ne_true] at slots
      rw [Bool.not_false, if_pos rfl]
      dsimp only
      rw [totalDirtySlots_modify, toNat_saturatingSucc_of_lt (by omega)]
      omega
  | true =>
      rw [stored, if_pos rfl] at slots
      rw [Bool.not_true, if_neg Bool.false_ne_true,
        totalDirtySlots_modify]
      omega

theorem toNat_foldl_saturatingSucc {Slot : Type*} (fresh : List Slot) (count : UInt64)
    (room : count.toNat + fresh.length < 2 ^ 64) :
    (fresh.foldl (fun count _ => saturatingSucc count) count).toNat =
      count.toNat + fresh.length := by
  induction fresh generalizing count with
  | nil => rfl
  | cons slot fresh ih =>
      rw [List.length_cons] at room ⊢
      have next : (saturatingSucc count).toNat = count.toNat + 1 :=
        toNat_saturatingSucc_of_lt (by omega)
      rw [List.foldl_cons, ih _ (by omega), next]
      omega

/-- The writes of a diff store its fresh slots. -/
theorem size_storage_applyDiff (ext : Externals) (account : DirtyAccount)
    (diff : AccountDiff) :
    (account.applyDiff ext diff).storage.size =
      account.storage.size + (freshSlots account diff).length := by
  have written := MapTotal.size_foldl_insert diff.storageWritten.toList
    Std.ExtTreeMap.distinct_keys_toList account.storage
  have keys : freshSlots account diff = (diff.storageWritten.toList.filter
      fun entry => !account.storage.contains entry.1).map Prod.fst := by
    unfold freshSlots
    rw [← Std.ExtTreeMap.map_fst_toList_eq_keys, List.filter_map]
    rfl
  rw [keys, List.length_map]
  exact written

theorem length_freshSlots_le (account : DirtyAccount) (diff : AccountDiff) :
    (freshSlots account diff).length ≤ diff.storageWritten.size := by
  rw [← Std.ExtTreeMap.length_keys]
  exact List.length_filter_le _ _

theorem adds_applyAccountDiff (ext : Externals) (store : DirtyStore)
    (entry : Address × AccountDiff) :
    Adds entry.2.storageWritten.size store (applyAccountDiff ext store entry) := by
  intro counted room
  have slots := slotCount_modify store entry.1 fun account => account.applyDiff ext entry.2
  have atMost := length_freshSlots_le (store.account entry.1) entry.2
  rw [size_storage_applyDiff] at slots
  unfold Counted at counted ⊢
  unfold applyAccountDiff
  dsimp only
  rw [totalDirtySlots_modify, toNat_foldl_saturatingSucc _ _ (by omega)]
  omega

/-- A loop of steps adds what the steps add. -/
theorem adds_foldl {Change : Type*} {step : DirtyStore → Change → DirtyStore}
    {slots : Change → Nat}
    (adds : ∀ store change, Adds (slots change) store (step store change))
    (changes : List Change) (store : DirtyStore) :
    Adds (changes.map slots).sum store (changes.foldl step store) := by
  induction changes generalizing store with
  | nil => exact Adds.refl store
  | cons change changes ih =>
      rw [List.map_cons, List.sum_cons, List.foldl_cons]
      exact (adds store change).trans (ih _)

/-- The number of slots that a diff writes. -/
def slotsOfDiff (diff : StateDiff) : Nat :=
  MapTotal.total (fun change : AccountDiff => change.storageWritten.size) diff.accounts

theorem adds_applyStateDiff (ext : Externals) (store : DirtyStore) (diff : StateDiff) :
    Adds (slotsOfDiff diff) store (applyStateDiff ext store diff) :=
  adds_foldl (adds_applyAccountDiff ext) diff.accounts.toList store

end DirtyStore

namespace HybridDb

open DirtyStore

theorem adds_setBalance (db : HybridDb) (address : Address) (balance : U256) :
    Adds 0 db.dirty (db.setBalance address balance).dirty :=
  adds_modify db.dirty address fun _ => rfl

theorem adds_setNonce (db : HybridDb) (address : Address) (nonce : UInt64) :
    Adds 0 db.dirty (db.setNonce address nonce).dirty :=
  adds_modify db.dirty address fun _ => rfl

theorem adds_setCode (ext : Externals) (db : HybridDb) (address : Address)
    (code : Bytecode) : Adds 0 db.dirty (setCode ext db address code).dirty :=
  adds_modify db.dirty address fun _ => rfl

theorem adds_erc20BalanceSlot (ext : Externals) (db : HybridDb) (token owner : Address) :
    Adds 0 db.dirty (erc20BalanceSlot ext db token owner).1.dirty := by
  rcases erc20BalanceSlot_fst ext db token owner with
    ⟨same, -⟩ | ⟨slot, -, -, recorded⟩
  · rw [same]
    exact Adds.refl db.dirty
  · rw [recorded]
    exact adds_modify db.dirty token fun _ => rfl

theorem adds_erc20BalanceOf (ext : Externals) (db : HybridDb) (token owner : Address) :
    Adds 0 db.dirty (erc20BalanceOf ext db token owner).1.dirty := by
  rw [erc20BalanceOf_fst]
  split
  · exact Adds.refl db.dirty
  · exact adds_erc20BalanceSlot ext db token owner

theorem adds_setErc20Balance (ext : Externals) (db : HybridDb) (token owner : Address)
    (balance : U256) :
    Adds 2 db.dirty (setErc20Balance ext db token owner balance).1.dirty := by
  unfold setErc20Balance
  dsimp only
  have read := adds_erc20BalanceOf ext db token owner
  have found := adds_erc20BalanceSlot ext (erc20BalanceOf ext db token owner).1 token owner
  have reads := read.trans found
  refine ((reads.trans (adds_setStorage _ token _ _)).trans
    (adds_setStorage _ token _ _)).trans (adds_modify _ token ?_)
  exact fun _ => rfl

theorem adds_removeAccount (db : HybridDb) (address : Address) :
    Adds 0 db.dirty (db.removeAccount address).dirty := by
  intro counted room
  unfold removeAccount
  cases found : db.dirty.accounts[address]? with
  | none => exact ⟨counted, le_rfl⟩
  | some old =>
      have slots := MapTotal.total_eq_weightAt_add_erase
        (fun account : DirtyAccount => account.storage.size) db.dirty.accounts address
      have weight : MapTotal.weightAt (fun account : DirtyAccount => account.storage.size)
          db.dirty.accounts address = old.storage.size := by
        unfold MapTotal.weightAt
        rw [found]
        rfl
      rw [weight] at slots
      unfold Counted slotCount at *
      have below : old.storage.size < 2 ^ 64 := by omega
      have removed : (UInt64.ofNat old.storage.size).toNat = old.storage.size :=
        UInt64.toNat_ofNat_of_lt' below
      have fits : UInt64.ofNat old.storage.size ≤ db.dirty.totalDirtySlots := by
        rw [UInt64.le_iff_toNat_le]
        omega
      dsimp only
      unfold saturatingSub64
      rw [if_pos fits, UInt64.toNat_sub_of_le _ _ fits]
      omega

theorem adds_writeSlots (address : Address) (entries : List (U256 × EvmSlot))
    (db : HybridDb) :
    Adds entries.length db.dirty
      (entries.foldl (fun db entry =>
        if entry.2.original ≠ entry.2.present then
          db.setStorage address entry.1 entry.2.present
        else db) db).dirty := by
  induction entries generalizing db with
  | nil => exact Adds.refl db.dirty
  | cons entry entries ih =>
      rw [List.foldl_cons, List.length_cons, Nat.add_comm]
      refine Adds.trans ?_ (ih _)
      split
      case isTrue => exact adds_setStorage db.dirty address _ _
      case isFalse => exact (Adds.refl db.dirty).mono (Nat.zero_le 1)

theorem adds_writeAccount (ext : Externals) (db : HybridDb) (address : Address)
    (account : EvmAccount) :
    Adds account.storage.size db.dirty (writeAccount ext db address account).dirty := by
  have fields : Adds 0 db.dirty
      ((db.setBalance address account.balance).setNonce address account.nonce).dirty :=
    (adds_setBalance db address _).trans (adds_setNonce _ address _)
  have slots := fun written : HybridDb =>
    adds_writeSlots address account.storage.toList written
  rw [Std.ExtTreeMap.length_toList] at slots
  unfold writeAccount
  dsimp only
  cases account.code with
  | none => exact (fields.trans (slots _)).mono (by omega)
  | some code =>
      dsimp only
      split
      case isTrue => exact (fields.trans (slots _)).mono (by omega)
      case isFalse =>
        have written := fields.trans (adds_setCode ext _ address code)
        exact (written.trans (slots _)).mono (by omega)

theorem adds_commitAccount (ext : Externals) (db : HybridDb)
    (entry : Address × EvmAccount) :
    Adds entry.2.storage.size db.dirty (commitAccount ext db entry).dirty := by
  have removed := adds_removeAccount db entry.1
  unfold commitAccount
  split
  case isTrue => exact (Adds.refl db.dirty).mono (Nat.zero_le _)
  case isFalse =>
    split
    case isTrue => exact removed.mono (Nat.zero_le _)
    case isFalse =>
      split
      case isTrue =>
        exact (removed.trans (adds_writeAccount ext _ entry.1 entry.2)).mono (by omega)
      case isFalse => exact adds_writeAccount ext db entry.1 entry.2

/-- The number of slots that the committed changes carry. -/
def slotsOfChanges (changes : Std.ExtTreeMap Address EvmAccount) : Nat :=
  MapTotal.total (fun account : EvmAccount => account.storage.size) changes

theorem adds_commit (ext : Externals) (db : HybridDb)
    (changes : Std.ExtTreeMap Address EvmAccount) :
    Adds (slotsOfChanges changes) db.dirty (commit ext db changes).dirty := by
  unfold slotsOfChanges MapTotal.total commit
  induction changes.toList generalizing db with
  | nil => exact Adds.refl db.dirty
  | cons entry entries ih =>
      rw [List.map_cons, List.sum_cons, List.foldl_cons]
      exact (adds_commitAccount ext db entry).trans (ih _)

end HybridDb

end Roko
