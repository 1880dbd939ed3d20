import Roko.ForkDiffs
import Roko.ForkReplay
import Roko.UpdateLogs

/-!
# The write layer as a store of cells

Every field of an account's entry in the write layer is a cell.  A state diff and a
short write update the cells that they name and no others.
-/

namespace Roko

open UpdateLog

inductive AccountField
  | balance
  | nonce
  | code
  | codeHash
  | erc20BalanceSlot
  | erc20Balance (owner : Address)
  | storage (slot : U256)
  deriving DecidableEq

/-- An override, or nothing. -/
def AccountField.Value : AccountField → Type
  | .balance => Option U256
  | .nonce => Option UInt64
  | .code => Option Bytecode
  | .codeHash => Option B256
  | .erc20BalanceSlot => Option U256
  | .erc20Balance _ => Option U256
  | .storage _ => Option U256

instance (field : AccountField) : DecidableEq field.Value := by
  cases field <;> exact inferInstanceAs (DecidableEq (Option _))

namespace DirtyAccount

def field (account : DirtyAccount) : (field : AccountField) → field.Value
  | .balance => account.balance
  | .nonce => account.nonce
  | .code => account.code
  | .codeHash => account.codeHash
  | .erc20BalanceSlot => account.erc20BalanceSlot
  | .erc20Balance owner => account.erc20Balances[owner]?
  | .storage slot => account.storage[slot]?

end DirtyAccount

abbrev AccountCell := Address × AccountField

abbrev AccountCell.Value (cell : AccountCell) : Type := cell.2.Value

def HybridDb.cells (db : HybridDb) : View AccountCell.Value :=
  fun cell => (db.account cell.1).field cell.2

/-- The fields that a diff of an account writes. -/
def AccountDiff.update (ext : Externals) (diff : AccountDiff) :
    (field : AccountField) → Option field.Value
  | .balance => diff.newBalance.map some
  | .nonce => diff.newNonce.map some
  | .code => diff.newCode.map some
  | .codeHash => (diff.newCode.map ext.keccak256).map some
  | .erc20BalanceSlot => none
  | .erc20Balance _ => none
  | .storage slot => diff.storageWritten[slot]?.map some

def StateDiff.update (ext : Externals) (diff : StateDiff) : Update AccountCell.Value :=
  fun cell => diff.accounts[cell.1]?.bind fun change => change.update ext cell.2

theorem or_eq_getD {Value : Type} (new old : Option Value) :
    new.or old = (new.map some).getD old := by
  cases new <;> rfl

theorem DirtyAccount.field_applyDiff (ext : Externals) (account : DirtyAccount)
    (diff : AccountDiff) (field : AccountField) :
    (account.applyDiff ext diff).field field =
      (diff.update ext field).getD (account.field field) := by
  cases field with
  | balance => exact or_eq_getD diff.newBalance account.balance
  | nonce => exact or_eq_getD diff.newNonce account.nonce
  | code => exact or_eq_getD diff.newCode account.code
  | codeHash => exact or_eq_getD (diff.newCode.map ext.keccak256) account.codeHash
  | erc20BalanceSlot => rfl
  | erc20Balance owner => rfl
  | storage slot =>
      exact (storage_applyDiff account diff slot).trans (or_eq_getD _ _)

theorem HybridDb.cells_applyStateDiff (ext : Externals) (db : HybridDb)
    (diff : StateDiff) :
    (db.applyStateDiff ext diff).cells = UpdateLog.apply db.cells (diff.update ext) := by
  funext cell
  unfold cells UpdateLog.apply StateDiff.update
  rw [account_applyStateDiff]
  cases diff.accounts[cell.1]? with
  | none => rfl
  | some change => exact DirtyAccount.field_applyDiff ext _ change cell.2

namespace AccountWrite

def address : AccountWrite → Address
  | .setBalance address _ => address
  | .setNonce address _ => address
  | .setCode _ address _ => address
  | .setStorage address _ _ => address

/-- The fields of its account that a request writes. -/
def fields : AccountWrite → (field : AccountField) → Option field.Value
  | .setBalance _ balance, .balance => some (some balance)
  | .setNonce _ nonce, .nonce => some (some nonce)
  | .setCode _ _ code, .code => some (some code)
  | .setCode ext _ code, .codeHash => some (some (ext.keccak256 code))
  | .setStorage _ slot value, .storage other =>
      if other = slot then some (some value) else none
  | _, _ => none

def update (change : AccountWrite) : Update AccountCell.Value :=
  fun cell => if cell.1 = change.address then change.fields cell.2 else none

theorem account_apply (change : AccountWrite) (db : HybridDb) :
    ∃ written : DirtyAccount,
      (∀ other, (change.apply db).account other =
        if other = change.address then written else db.account other) ∧
      ∀ field, written.field field =
        (change.fields field).getD ((db.account change.address).field field) := by
  cases change with
  | setBalance address balance =>
      exact ⟨_, fun other => HybridDb.account_modify db address other _,
        fun field => by cases field <;> rfl⟩
  | setNonce address nonce =>
      exact ⟨_, fun other => HybridDb.account_modify db address other _,
        fun field => by cases field <;> rfl⟩
  | setCode ext address code =>
      exact ⟨_, fun other => HybridDb.account_modify db address other _,
        fun field => by cases field <;> rfl⟩
  | setStorage address slot value =>
      refine ⟨_, fun other => HybridDb.account_setStorage db address other slot value,
        fun field => ?_⟩
      cases field with
      | storage other =>
          change (_ : Std.ExtTreeMap U256 U256)[other]? =
            (if other = slot then some (some value) else none).getD _
          rw [getElem?_insert]
          split <;> rfl
      | _ => rfl

theorem cells_apply (change : AccountWrite) (db : HybridDb) :
    (change.apply db).cells = UpdateLog.apply db.cells change.update := by
  obtain ⟨written, accounts, fields⟩ := change.account_apply db
  funext cell
  unfold HybridDb.cells UpdateLog.apply update
  rw [accounts]
  split
  case isTrue own =>
    rw [fields, ← own]
  case isFalse => rfl

end AccountWrite

end Roko
