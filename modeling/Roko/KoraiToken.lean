import Roko.ChainTypes
import Roko.GuardedRuns
import Roko.OrderedMaps

/-!
# The KORAI token

`korai_token.rs`: balances that lose value with time.  A balance is stored with the time
of its last update, and the loss is applied when it is read or written.
-/

namespace Roko

structure BalanceRecord where
  storedBalance : U128
  lastUpdate : UInt64
  deriving DecidableEq, Repr

/-- What is left of a balance from one time to a later one.  The source computes it in
floating point from the annual rate. -/
structure Demurrage where
  decayed : U128 → UInt64 → UInt64 → U128
  decayed_le : ∀ balance lastUpdate now, decayed balance lastUpdate now ≤ balance

namespace BalanceRecord

variable (demurrage : Demurrage) (record : BalanceRecord) (now : UInt64)

def effectiveBalance : U128 :=
  if now ≤ record.lastUpdate ∨ record.storedBalance = 0 then record.storedBalance
  else demurrage.decayed record.storedBalance record.lastUpdate now

def materialiseDemurrage : BalanceRecord where
  storedBalance := record.effectiveBalance demurrage now
  lastUpdate := now

/-- The record after its demurrage is materialised and an amount is added. -/
def credited (amount : U128) : BalanceRecord :=
  let record := record.materialiseDemurrage demurrage now
  { storedBalance := U128.saturatingAdd record.storedBalance amount
    lastUpdate := now }

/-- The record after its demurrage is materialised and an amount is taken. -/
def debited (amount : U128) : BalanceRecord :=
  let record := record.materialiseDemurrage demurrage now
  { storedBalance := U128.saturatingSub record.storedBalance amount
    lastUpdate := now }

end BalanceRecord

inductive EarningPathway
  | taskCompletion
  | knowledgeContribution
  | validationParticipation
  | reputationStaking
  | marketplaceFees
  deriving DecidableEq, Repr

inductive SpendingMechanism
  | computePurchase
  | knowledgeAccess
  | jobPosting
  | escrowDeposit
  | governanceParticipation
  deriving DecidableEq, Repr

inductive TransferReason
  | earn (pathway : EarningPathway)
  | spend (mechanism : SpendingMechanism)
  | transfer
  deriving DecidableEq, Repr

/-- The structure `Transfer` of the source. -/
structure KoraiTransfer where
  sender : String
  receiver : String
  amount : U128
  reason : TransferReason
  timestamp : UInt64
  deriving DecidableEq, Repr

/-- The configuration only names the token and its rate. -/
structure KoraiToken where
  balances : Std.ExtTreeMap String BalanceRecord := ∅
  totalSupply : U128 := 0
  transfers : List KoraiTransfer := []

namespace KoraiToken

variable (demurrage : Demurrage) (token : KoraiToken)

/-- The effective balance of an address, zero without a record. -/
def effectiveAt (balances : Std.ExtTreeMap String BalanceRecord) (address : String)
    (now : UInt64) : U128 :=
  (balances[address]?.map fun record => record.effectiveBalance demurrage now).getD 0

def balanceOf (address : String) (now : UInt64) : U128 :=
  effectiveAt demurrage token.balances address now

/-- `balances.entry(address)`, credited after a new record is made where there is none. -/
def credit (balances : Std.ExtTreeMap String BalanceRecord) (address : String)
    (amount : U128) (now : UInt64) : Std.ExtTreeMap String BalanceRecord :=
  let entry := balances[address]?.getD ⟨0, now⟩
  balances.insert address (entry.credited demurrage now amount)

/-- `if let Some(record) = balances.get_mut(address)`, debited. -/
def debit (balances : Std.ExtTreeMap String BalanceRecord) (address : String)
    (amount : U128) (now : UInt64) : Std.ExtTreeMap String BalanceRecord :=
  match balances[address]? with
  | some record => balances.insert address (record.debited demurrage now amount)
  | none => balances

def mint (receiver : String) (amount : U128) (pathway : EarningPathway) (now : UInt64) :
    KoraiToken where
  balances := credit demurrage token.balances receiver amount now
  totalSupply := U128.saturatingAdd token.totalSupply amount
  transfers := token.transfers ++ [⟨"0x0", receiver, amount, .earn pathway, now⟩]

def transfer (sender receiver : String) (amount : U128) (now : UInt64) :
    Bool × KoraiToken :=
  if token.balanceOf demurrage sender now < amount then (false, token)
  else
    let balances := debit demurrage token.balances sender amount now
    (true,
      { token with
        balances := credit demurrage balances receiver amount now
        transfers := token.transfers ++ [⟨sender, receiver, amount, .transfer, now⟩] })

def burn (sender : String) (amount : U128) (mechanism : SpendingMechanism)
    (now : UInt64) : Bool × KoraiToken :=
  if token.balanceOf demurrage sender now < amount then (false, token)
  else
    (true,
      { balances := debit demurrage token.balances sender amount now
        totalSupply := U128.saturatingSub token.totalSupply amount
        transfers := token.transfers ++ [⟨sender, "0x0", amount, .spend mechanism, now⟩] })

end KoraiToken

/-- A call that changes a token. -/
inductive KoraiCall
  | mint (receiver : String) (amount : U128) (pathway : EarningPathway) (now : UInt64)
  | transfer (sender receiver : String) (amount : U128) (now : UInt64)
  | burn (sender : String) (amount : U128) (mechanism : SpendingMechanism) (now : UInt64)
  deriving DecidableEq, Repr

namespace KoraiToken

/-- What a call returns, and the token after it.  A mint returns nothing and always
succeeds. -/
def execute (demurrage : Demurrage) (token : KoraiToken) : KoraiCall → Bool × KoraiToken
  | .mint receiver amount pathway now =>
      (true, token.mint demurrage receiver amount pathway now)
  | .transfer sender receiver amount now =>
      token.transfer demurrage sender receiver amount now
  | .burn sender amount mechanism now => token.burn demurrage sender amount mechanism now

def step (demurrage : Demurrage) (token : KoraiToken) (call : KoraiCall) : KoraiToken :=
  (token.execute demurrage call).2

end KoraiToken

/-!
Every change of a balance first materialises its demurrage, which only lowers it.  The
stored balances therefore never add up to more than the supply, and no addition
saturates as long as what is minted fits its type.
-/

open Std

namespace BalanceRecord

variable {demurrage : Demurrage} {record : BalanceRecord} {now : UInt64}

theorem effectiveBalance_le :
    (record.effectiveBalance demurrage now).toNat ≤ record.storedBalance.toNat := by
  unfold effectiveBalance
  split
  · exact le_rfl
  · exact demurrage.decayed_le _ _ _

theorem effectiveBalance_at (stored : U128) :
    effectiveBalance demurrage ⟨stored, now⟩ now = stored :=
  if_pos (Or.inl (UInt64.le_refl now))

end BalanceRecord

namespace KoraiToken

open BalanceRecord

/-- The sum of the stored balances. -/
def storedTotal (balances : ExtTreeMap String BalanceRecord) : Nat :=
  MapTotal.total (fun record => record.storedBalance.toNat) balances

variable {demurrage : Demurrage} {balances : ExtTreeMap String BalanceRecord}
  {address other : String} {amount : U128} {now : UInt64}

theorem effectiveAt_insert_self (stored : U128) :
    effectiveAt demurrage (balances.insert address ⟨stored, now⟩) address now = stored := by
  unfold effectiveAt
  rw [ExtTreeMap.getElem?_insert_self]
  exact effectiveBalance_at stored

theorem effectiveAt_credit_self :
    effectiveAt demurrage (credit demurrage balances address amount now) address now =
      U128.saturatingAdd (effectiveAt demurrage balances address now) amount := by
  unfold credit credited materialiseDemurrage
  rw [effectiveAt_insert_self]
  unfold effectiveAt
  cases balances[address]? with
  | none => exact congrArg (U128.saturatingAdd · amount) (effectiveBalance_at 0)
  | some record => rfl

theorem effectiveAt_debit_self :
    effectiveAt demurrage (debit demurrage balances address amount now) address now =
      U128.saturatingSub (effectiveAt demurrage balances address now) amount := by
  unfold debit
  cases found : balances[address]? with
  | none =>
      apply BitVec.eq_of_toNat_eq
      unfold effectiveAt
      rw [U128.toNat_saturatingSub, found]
      simp
  | some record =>
      dsimp only
      unfold debited materialiseDemurrage
      rw [effectiveAt_insert_self]
      unfold effectiveAt
      rw [found]
      rfl

theorem getElem?_credit_of_ne (apart : other ≠ address) :
    (credit demurrage balances address amount now)[other]? = balances[other]? := by
  unfold credit
  rw [ExtTreeMap.getElem?_insert, if_neg fun same => apart (Std.compare_eq_iff_eq.mp same).symm]

theorem getElem?_debit_of_ne (apart : other ≠ address) :
    (debit demurrage balances address amount now)[other]? = balances[other]? := by
  unfold debit
  split
  · rw [ExtTreeMap.getElem?_insert,
      if_neg fun same => apart (Std.compare_eq_iff_eq.mp same).symm]
  · rfl

theorem effectiveAt_congr {first second : ExtTreeMap String BalanceRecord}
    (same : first[address]? = second[address]?) :
    effectiveAt demurrage first address now = effectiveAt demurrage second address now := by
  unfold effectiveAt
  rw [same]

variable (demurrage balances address now)

theorem effectiveAt_le_weightAt :
    (effectiveAt demurrage balances address now).toNat ≤
      MapTotal.weightAt (fun record => record.storedBalance.toNat) balances address := by
  unfold effectiveAt MapTotal.weightAt
  cases balances[address]? with
  | none => exact le_rfl
  | some record => exact effectiveBalance_le

theorem effectiveAt_le_storedTotal :
    (effectiveAt demurrage balances address now).toNat ≤ storedTotal balances := by
  have held := effectiveAt_le_weightAt demurrage balances address now
  have split := MapTotal.total_eq_weightAt_add_erase
    (fun record : BalanceRecord => record.storedBalance.toNat) balances address
  unfold storedTotal
  omega

theorem storedTotal_credit_le (amount : U128) :
    storedTotal (credit demurrage balances address amount now) ≤
      storedTotal balances + amount.toNat := by
  have written := MapTotal.total_insert_add
    (fun record : BalanceRecord => record.storedBalance.toNat) balances address
    ((balances[address]?.getD ⟨0, now⟩).credited demurrage now amount)
  have held := effectiveAt_le_weightAt demurrage balances address now
  have stored : ((balances[address]?.getD ⟨0, now⟩).credited demurrage now
      amount).storedBalance =
        U128.saturatingAdd (effectiveAt demurrage balances address now) amount := by
    rw [← effectiveAt_credit_self]
    exact (effectiveAt_insert_self _).symm
  rw [stored, U128.toNat_saturatingAdd] at written
  unfold storedTotal credit
  dsimp only
  omega

variable {demurrage balances address now}

theorem storedTotal_debit_le
    (enough : amount ≤ effectiveAt demurrage balances address now) :
    storedTotal (debit demurrage balances address amount now) + amount.toNat ≤
      storedTotal balances := by
  rw [BitVec.le_def] at enough
  unfold debit
  cases found : balances[address]? with
  | none =>
      unfold effectiveAt at enough
      rw [found] at enough
      dsimp only
      simp at enough
      omega
  | some record =>
      have written := MapTotal.total_insert_add
        (fun record : BalanceRecord => record.storedBalance.toNat) balances address
        (record.debited demurrage now amount)
      have held := effectiveAt_le_weightAt demurrage balances address now
      have stored : (record.debited demurrage now amount).storedBalance =
          U128.saturatingSub (effectiveAt demurrage balances address now) amount := by
        unfold effectiveAt
        rw [found]
        rfl
      rw [stored, U128.toNat_saturatingSub] at written
      unfold storedTotal
      dsimp only
      omega

/-- A transfer moved exactly the amount between the two effective balances. -/
structure Moved (demurrage : Demurrage) (before after : KoraiToken)
    (sender receiver : String) (amount : U128) (now : UInt64) : Prop where
  taken : sender ≠ receiver →
    (after.balanceOf demurrage sender now).toNat + amount.toNat =
      (before.balanceOf demurrage sender now).toNat
  given : sender ≠ receiver →
    (after.balanceOf demurrage receiver now).toNat =
      (before.balanceOf demurrage receiver now).toNat + amount.toNat
  same : sender = receiver →
    after.balanceOf demurrage receiver now = before.balanceOf demurrage receiver now
  others : ∀ address, address ≠ sender → address ≠ receiver →
    after.balances[address]? = before.balances[address]?

/-- What a call promises: one that returns `false` changes nothing, and a transfer that
returns `true` has moved the amount. -/
def Exact (demurrage : Demurrage) (token : KoraiToken) (call : KoraiCall) : Prop :=
  ((token.execute demurrage call).1 = false → token.step demurrage call = token) ∧
    ∀ sender receiver amount now, call = .transfer sender receiver amount now →
      (token.execute demurrage call).1 = true →
        Moved demurrage token (token.step demurrage call) sender receiver amount now

/-- The amount that a call mints. -/
def mintedBy : KoraiCall → Nat
  | .mint _ amount _ _ => amount.toNat
  | _ => 0

/-- The amount that a call burns, nothing when it fails. -/
def burnedBy (demurrage : Demurrage) (token : KoraiToken) : KoraiCall → Nat
  | .burn sender amount mechanism now =>
      if (token.burn demurrage sender amount mechanism now).1 then amount.toNat else 0
  | _ => 0

/-- The stored balances are covered by the supply. -/
def Covered (token : KoraiToken) : Prop :=
  storedTotal token.balances ≤ token.totalSupply.toNat

variable {token : KoraiToken}

theorem moved_transfer (covered : token.Covered) {sender receiver : String}
    (enough : amount ≤ token.balanceOf demurrage sender now) :
    Moved demurrage token
      { token with
        balances := credit demurrage (debit demurrage token.balances sender amount now)
          receiver amount now
        transfers := token.transfers ++ [⟨sender, receiver, amount, .transfer, now⟩] }
      sender receiver amount now := by
  have held := storedTotal_debit_le enough
  have bound := token.totalSupply.isLt
  have taken := @effectiveAt_debit_self demurrage token.balances sender amount now
  have received := effectiveAt_le_storedTotal demurrage
    (debit demurrage token.balances sender amount now) receiver now
  have credited := @effectiveAt_credit_self demurrage
    (debit demurrage token.balances sender amount now) receiver amount now
  unfold Covered at covered
  unfold balanceOf at enough
  rw [BitVec.le_def] at enough
  constructor
  · intro apart
    unfold balanceOf
    rw [effectiveAt_congr (getElem?_credit_of_ne apart), taken, U128.toNat_saturatingSub]
    omega
  · intro apart
    unfold balanceOf
    rw [credited, U128.toNat_saturatingAdd]
    rw [effectiveAt_congr (getElem?_debit_of_ne (Ne.symm apart))] at received ⊢
    omega
  · rintro rfl
    unfold balanceOf
    apply BitVec.eq_of_toNat_eq
    have small := (effectiveAt demurrage token.balances sender now).isLt
    rw [credited, U128.toNat_saturatingAdd, taken, U128.toNat_saturatingSub]
    omega
  · intro address notSender notReceiver
    exact (getElem?_credit_of_ne notReceiver).trans (getElem?_debit_of_ne notSender)

theorem exact_step (covered : token.Covered) (call : KoraiCall) :
    Exact demurrage token call := by
  constructor
  · intro failed
    cases call with
    | mint receiver amount pathway now => cases failed
    | transfer sender receiver amount now =>
        unfold step execute at *
        unfold transfer at *
        dsimp only at failed ⊢
        split at failed
        case isTrue short => rw [if_pos short]
        case isFalse => cases failed
    | burn sender amount mechanism now =>
        unfold step execute at *
        unfold burn at *
        dsimp only at failed ⊢
        split at failed
        case isTrue short => rw [if_pos short]
        case isFalse => cases failed
  · rintro sender receiver amount now rfl succeeded
    unfold step execute at *
    unfold transfer at *
    dsimp only at succeeded ⊢
    split at succeeded
    case isTrue => cases succeeded
    case isFalse enough =>
      rw [if_neg enough]
      exact moved_transfer covered (BitVec.not_lt.mp enough)

/-- A call keeps the stored balances covered, and changes the supply by what it mints
and burns. -/
theorem covered_step (demurrage : Demurrage) (covered : token.Covered) (call : KoraiCall)
    (fits : token.totalSupply.toNat + mintedBy call < 2 ^ 128) :
    (token.step demurrage call).Covered ∧
      (token.step demurrage call).totalSupply.toNat + burnedBy demurrage token call =
        token.totalSupply.toNat + mintedBy call := by
  unfold Covered at *
  cases call with
  | mint receiver amount pathway now =>
      have credited := storedTotal_credit_le demurrage token.balances receiver now amount
      unfold mintedBy at fits
      unfold step execute mint burnedBy mintedBy
      dsimp only at *
      rw [U128.toNat_saturatingAdd]
      omega
  | transfer sender receiver amount now =>
      unfold step execute transfer burnedBy mintedBy
      dsimp only
      split
      case isTrue => exact ⟨covered, rfl⟩
      case isFalse enough =>
        have debited := storedTotal_debit_le (BitVec.not_lt.mp enough)
        have credited := storedTotal_credit_le demurrage
          (debit demurrage token.balances sender amount now) receiver now amount
        exact ⟨by dsimp only; omega, rfl⟩
  | burn sender amount mechanism now =>
      unfold step execute burnedBy mintedBy burn
      dsimp only
      split
      case isTrue => exact ⟨covered, rfl⟩
      case isFalse enough =>
        have debited := storedTotal_debit_le (BitVec.not_lt.mp enough)
        dsimp only
        rw [U128.toNat_saturatingSub, if_pos rfl]
        omega

/-- What the calls of a run mint. -/
def minted (calls : List KoraiCall) : Nat :=
  (calls.map mintedBy).sum

/-- What the calls of a run burn. -/
def burned (demurrage : Demurrage) (start : KoraiToken) (calls : List KoraiCall) : Nat :=
  ((GuardedRun.steps (step demurrage) start calls).map fun taken =>
    burnedBy demurrage taken.1 taken.2).sum

theorem conserved_of_covered (demurrage : Demurrage) {start : KoraiToken}
    (covered : start.Covered) {calls : List KoraiCall}
    (fits : start.totalSupply.toNat + minted calls < 2 ^ 128) :
    (calls.foldl (step demurrage) start).Covered ∧
      (calls.foldl (step demurrage) start).totalSupply.toNat +
          burned demurrage start calls = start.totalSupply.toNat + minted calls ∧
      GuardedRun.Guarded (step demurrage) (Exact demurrage) start calls := by
  induction calls generalizing start with
  | nil => exact ⟨covered, rfl, GuardedRun.guarded_nil start⟩
  | cons call calls ih =>
      have mintedHere : minted (call :: calls) = mintedBy call + minted calls :=
        List.sum_cons
      have burnedHere : burned demurrage start (call :: calls) =
          burnedBy demurrage start call +
            burned demurrage (start.step demurrage call) calls := List.sum_cons
      obtain ⟨stepCovered, supply⟩ :=
        covered_step demurrage covered call (by omega)
      obtain ⟨lastCovered, total, exact⟩ := ih stepCovered (by omega)
      rw [List.foldl_cons, GuardedRun.guarded_cons]
      exact ⟨lastCovered, by omega, exact_step covered call, exact⟩

/-- While everything minted fits its type, the supply is what was minted less what was
burned, the stored balances never exceed it, and every call keeps its promise. -/
theorem supply_conserved (demurrage : Demurrage) (calls : List KoraiCall)
    (fits : minted calls < 2 ^ 128) :
    (∀ earlier later, calls = earlier ++ later →
      (earlier.foldl (step demurrage) {}).totalSupply.toNat +
          burned demurrage {} earlier = minted earlier ∧
        storedTotal (earlier.foldl (step demurrage) {}).balances ≤
          (earlier.foldl (step demurrage) {}).totalSupply.toNat) ∧
      GuardedRun.Guarded (step demurrage) (Exact demurrage) {} calls := by
  have start : Covered {} := by
    unfold Covered storedTotal
    rw [MapTotal.total_empty]
    exact Nat.zero_le _
  constructor
  · rintro earlier later rfl
    have parts : minted (earlier ++ later) = minted earlier + minted later := by
      unfold minted
      rw [List.map_append, List.sum_append]
    have few : minted earlier < 2 ^ 128 := by omega
    obtain ⟨covered, total, -⟩ :=
      conserved_of_covered demurrage start (by simpa using few)
    exact ⟨by simpa using total, covered⟩
  · exact (conserved_of_covered demurrage start (by simpa using fits)).2.2

/-- A demurrage that takes nothing. -/
def keepsAll : Demurrage :=
  ⟨fun balance _ _ => balance, fun balance _ _ => BitVec.le_refl balance⟩

/-- Calls at one time, at which nothing decays. -/
def sampleCalls : List KoraiCall :=
  [.mint "alice" 10 .taskCompletion 5, .transfer "alice" "bob" 4 5,
    .transfer "bob" "bob" 3 5, .burn "bob" 1 .jobPosting 5]

theorem supply_conserved_sampleCalls :
    minted sampleCalls = 10 ∧
      (∀ earlier later, sampleCalls = earlier ++ later →
        (earlier.foldl (step keepsAll) {}).totalSupply.toNat +
            burned keepsAll {} earlier = minted earlier ∧
          storedTotal (earlier.foldl (step keepsAll) {}).balances ≤
            (earlier.foldl (step keepsAll) {}).totalSupply.toNat) ∧
      GuardedRun.Guarded (step keepsAll) (Exact keepsAll) {} sampleCalls :=
  ⟨by decide, supply_conserved keepsAll sampleCalls (by decide)⟩

end KoraiToken

end Roko
