import Roko.ByteEncoding
import Std.Data.ExtTreeMap
import Std.Data.ExtTreeSet

/-!
# The data of a fork

The records of `mirage-rs`: account data, state diffs, the local write layer and
what is stored about a local transaction.  Addresses and words are bit vectors of
their width.
-/

namespace Roko

abbrev Address := BitVec 160

abbrev U256 := BitVec 256

abbrev B256 := BitVec 256

instance : Std.TransOrd Address :=
  BitVec.instTransOrd

instance : Std.LawfulEqOrd Address :=
  BitVec.instLawfulEqOrd

instance : LawfulBEq Address :=
  inferInstance

instance : Std.TransOrd U256 :=
  BitVec.instTransOrd

instance : Std.LawfulEqOrd U256 :=
  BitVec.instLawfulEqOrd

abbrev Bytes := List UInt8

abbrev Bytecode := Bytes

namespace U256

def saturatingAdd (first second : U256) : U256 :=
  if first.uaddOverflow second then BitVec.allOnes 256 else first + second

def checkedSub (first second : U256) : Option U256 :=
  if second ≤ first then some (first - second) else none

def saturatingSub (first second : U256) : U256 :=
  (checkedSub first second).getD 0

end U256

/-- `saturating_add(1)` on `u64`. -/
def saturatingSucc (count : UInt64) : UInt64 :=
  if count = 0xFFFFFFFFFFFFFFFF then count else count + 1

/-- `saturating_sub` on `u64`. -/
def saturatingSub64 (count removed : UInt64) : UInt64 :=
  if removed ≤ count then count - removed else 0

def addressBytes (address : Address) : Bytes :=
  ByteEncoding.bigEndian 20 address.toNat

def u256Bytes (value : U256) : Bytes :=
  ByteEncoding.bigEndian 32 value.toNat

def u64Bytes (value : UInt64) : Bytes :=
  ByteEncoding.bigEndian 8 value.toNat

/-- Read big-endian bytes, as `from_be_slice` and `Address::from_slice` do. -/
def ofBytes (width : Nat) (bytes : Bytes) : BitVec width :=
  BitVec.ofNat width (bytes.foldl (fun value byte => value * 256 + byte.toNat) 0)

theorem ofBytes_addressBytes (address : Address) :
    ofBytes 160 (addressBytes address) = address := by
  have range : (256 : Nat) ^ 20 = 2 ^ 160 := by norm_num
  unfold ofBytes addressBytes
  rw [ByteEncoding.foldl_bigEndian, range, Nat.mod_eq_of_lt address.isLt]
  exact BitVec.ofNat_toNat 160 address ▸ BitVec.setWidth_eq address

/-- The errors of the fork's own operations.  The texts of an upstream failure and
of a rejected transaction come from other crates. -/
inductive MirageError
  | invalidParams (text : String)
  | unsupported (text : String)
  | snapshotNotFound (id : UInt64)
  | slotDetectionFailed (token : Address)
  | watchListFull
  | upstream (text : String)
  deriving DecidableEq

structure AccountInfo where
  balance : U256 := 0
  nonce : UInt64 := 0
  codeHash : B256 := 0
  code : Option Bytecode := none
  deriving DecidableEq

structure LogEntry where
  address : Address
  topics : List B256
  data : Bytes
  logIndex : UInt32
  deriving DecidableEq

structure AccountDiff where
  infoChanged : Bool := false
  newBalance : Option U256 := none
  newNonce : Option UInt64 := none
  newCode : Option Bytecode := none
  storageWritten : Std.ExtTreeMap U256 U256 := ∅
  storageRead : Std.ExtTreeSet U256 := ∅
  deriving DecidableEq

structure StateDiff where
  accounts : Std.ExtTreeMap Address AccountDiff := ∅
  logs : List LogEntry := []
  gasUsed : UInt64 := 0
  success : Bool := false
  output : Bytes := []
  deriving DecidableEq

structure ExecutionResult where
  success : Bool
  gasUsed : UInt64
  output : Bytes
  deriving DecidableEq

/-- The overrides of one account. -/
structure DirtyAccount where
  balance : Option U256 := none
  nonce : Option UInt64 := none
  code : Option Bytecode := none
  codeHash : Option B256 := none
  /-- The slot of the balance mapping of a token, when it is known. -/
  erc20BalanceSlot : Option U256 := none
  erc20Balances : Std.ExtTreeMap Address U256 := ∅
  storage : Std.ExtTreeMap U256 U256 := ∅
  deriving DecidableEq

inductive WatchSource
  | autoClassified
  | contagion (parent : Address)
  | manual
  deriving DecidableEq

structure WatchEntry where
  source : WatchSource
  addedAtBlock : UInt64
  initialSlotCount : Nat
  replayCount : UInt64
  deriving DecidableEq

structure DirtyStoreSnapshot where
  accounts : Std.ExtTreeMap Address DirtyAccount
  watchList : Std.ExtTreeMap Address WatchEntry
  unwatchList : Std.ExtTreeSet Address
  totalDirtySlots : UInt64
  blockNumber : UInt64
  txIndex : UInt64
  deriving DecidableEq

structure DirtyStore where
  accounts : Std.ExtTreeMap Address DirtyAccount := ∅
  watchList : Std.ExtTreeMap Address WatchEntry := ∅
  unwatchList : Std.ExtTreeSet Address := ∅
  totalDirtySlots : UInt64 := 0
  demoteProtocolsToSlotOnly : Bool := false
  snapshots : Std.ExtTreeMap UInt64 DirtyStoreSnapshot := ∅
  nextSnapshotId : UInt64 := 0
  deriving DecidableEq

/-- The database without its caches: they hold copies of what the upstream node
answers. -/
structure HybridDb where
  dirty : DirtyStore
  pinnedBlock : Option UInt64
  chainId : UInt64
  deriving DecidableEq

structure LocalTransaction where
  hash : B256
  sender : Address
  recipient : Option Address
  value : U256
  input : Bytes
  gas : UInt64
  nonce : UInt64
  blockNumber : UInt64
  deriving DecidableEq

structure LocalReceipt where
  transactionHash : B256
  blockHash : B256
  blockNumber : UInt64
  sender : Address
  recipient : Option Address
  gasUsed : UInt64
  success : Bool
  logs : List LogEntry
  stateDiff : StateDiff
  deriving DecidableEq

structure LocalBlock where
  hash : B256
  number : UInt64
  timestamp : UInt64
  gasUsed : UInt64
  gasLimit : UInt64
  baseFeePerGas : BitVec 128
  coinbase : Address
  prevRandao : B256
  transactions : List B256
  deriving DecidableEq

structure TransactionRequest where
  sender : Option Address
  recipient : Option Address
  gas : Option UInt64
  value : Option U256
  data : Option Bytes
  deriving DecidableEq

inductive BlockTag
  | latest
  | number (number : UInt64)
  deriving DecidableEq

/-- The transaction and block environment that is handed to the EVM.  Without a
target it creates a contract. -/
structure EvmCall where
  caller : Address
  target : Option Address
  data : Bytes
  value : U256
  gasLimit : UInt64
  nonce : UInt64
  chainId : UInt64
  gasPrice : UInt64
  blockNumber : UInt64
  beneficiary : Address
  timestamp : UInt64
  baseFee : UInt64
  prevRandao : B256
  deriving DecidableEq

/-- A storage slot with its value before and after the execution. -/
structure EvmSlot where
  original : U256
  present : U256
  deriving DecidableEq

/-- The account of the EVM's own state that is committed. -/
structure EvmAccount where
  balance : U256
  nonce : UInt64
  code : Option Bytecode
  touched : Bool
  selfdestructed : Bool
  created : Bool
  storage : Std.ExtTreeMap U256 EvmSlot
  deriving DecidableEq

structure EvmResult where
  success : Bool
  gasUsed : UInt64
  output : Option Bytes
  logs : List (Address × List B256 × Bytes)
  createdAddress : Option Address
  deriving DecidableEq

/-- What other crates and the upstream node compute: the hash, the answers to the
read requests, the check of a transaction and its execution.  The upstream node
gives the same answer to the same request. -/
structure Externals where
  keccak256 : Bytes → B256
  accountInfo : Address → BlockTag → Except MirageError (Option AccountInfo)
  storageAt : Address → U256 → BlockTag → Except MirageError U256
  ethCall : Address → Address → Bytes → BlockTag → Except MirageError Bytes
  buildTx : EvmCall → Except MirageError Unit
  /-- The result and the changes to commit, or an error. -/
  transact : EvmCall → HybridDb →
    Except MirageError (EvmResult × Std.ExtTreeMap Address EvmAccount)

end Roko
