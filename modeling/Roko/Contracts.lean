import Roko.FallibleSteps
import Roko.ForkTypes

/-!
# Calls of contracts

What the Solidity contracts share: the reasons of a revert, checked arithmetic, the
message a call is made with, and the ERC-20 tokens they hold.  A `uint256` is a
natural number, and an operation that does not fit its width reverts.  The code of a
token is not part of the repository; the contracts rely on it to move exactly the
stated amount.
-/

namespace Roko

namespace Contracts

/-- Why a call reverts: a custom error of a contract, a failed `require` with its
text, a panic with its code, or a revert of a token. -/
inductive Revert
  | insufficientBond
  | alreadyRegistered
  | notRegistered
  | notAuthorized
  | belowMinBond
  | wrongState
  | deadlinePassed
  | workerTierTooLow
  | unknownJob
  | alreadyAssembled
  | notAssembled
  | notAMember
  | alreadyVoted
  | alreadyTallied
  | insufficientTrustedWorkers
  | notAdmin
  | notPassportOwner
  | notAuthorizedRegistrar
  | invalidTier
  | invalidAmount
  | nonexistentPassport
  | noChange
  | promptUpdateNotReady
  | stakingDisabled
  | cooldownActive (availableAt : Nat)
  | insufficientStake
  | invalidScore
  | unknownPassport
  | notOwner
  | invalidDomain
  | unauthorizedRater
  | soulbound
  | workProofAlreadyExists
  | unknownWorkProof
  | unknownRequest
  | requestResolved
  | zeroTreasury
  | transferFailed
  | alreadyConfirmed
  | selfConfirm
  | nothingToClaim
  | unknownInsight
  | require (message : String)
  | panic (code : Nat)
  | token
  deriving DecidableEq, Repr

section Reverts

variable {Value Result : Type}

/-- `if (!condition) revert …`. -/
def ensure (condition : Prop) [Decidable condition] (revert : Revert) :
    Except Revert Unit :=
  if condition then .ok () else .error revert

@[simp]
theorem ensure_ok_iff {condition : Prop} [Decidable condition] {revert : Revert}
    {value : Unit} : ensure condition revert = .ok value ↔ condition := by
  unfold ensure
  split <;> simp_all

@[simp]
theorem bind_ok_iff {first : Except Revert Value}
    {rest : Value → Except Revert Result} {result : Result} :
    (first >>= rest) = .ok result ↔
      ∃ value, first = .ok value ∧ rest value = .ok result := by
  constructor
  · exact FallibleSteps.bind_ok
  · rintro ⟨value, rfl, next⟩
    exact next

@[simp]
theorem pure_ok_iff {value result : Value} :
    (pure value : Except Revert Value) = .ok result ↔ value = result := by
  simp [pure, Except.pure]

/-- A reverted call leaves the state as it was. -/
def settle (before : Value) : Except Revert Value → Value
  | .ok after => after
  | .error _ => before

@[simp]
theorem settle_ok (before after : Value) : settle before (.ok after) = after :=
  rfl

@[simp]
theorem settle_error (before : Value) (revert : Revert) :
    settle before (.error revert) = before :=
  rfl

/-- What holds before a call and is kept by it when it succeeds holds after it. -/
theorem settle_induction {holds : Value → Prop} {before : Value}
    {call : Except Revert Value} (initial : holds before)
    (kept : ∀ after, call = .ok after → holds after) : holds (settle before call) := by
  cases call with
  | ok after => exact kept after rfl
  | error revert => exact initial

end Reverts

/-- Addition that reverts when the sum does not fit. -/
def checkedAdd (bits first second : Nat) : Except Revert Nat :=
  if first + second < 2 ^ bits then .ok (first + second) else .error (.panic 0x11)

def checkedSub (first second : Nat) : Except Revert Nat :=
  if second ≤ first then .ok (first - second) else .error (.panic 0x11)

def checkedMul (bits first second : Nat) : Except Revert Nat :=
  if first * second < 2 ^ bits then .ok (first * second) else .error (.panic 0x11)

theorem checkedAdd_ok_iff {bits first second sum : Nat} :
    checkedAdd bits first second = .ok sum ↔
      first + second < 2 ^ bits ∧ sum = first + second := by
  unfold checkedAdd
  split <;> simp_all [eq_comm]

theorem checkedSub_ok_iff {first second difference : Nat} :
    checkedSub first second = .ok difference ↔
      second ≤ first ∧ difference = first - second := by
  unfold checkedSub
  split <;> simp_all [eq_comm]

theorem checkedMul_ok_iff {bits first second product : Nat} :
    checkedMul bits first second = .ok product ↔
      first * second < 2 ^ bits ∧ product = first * second := by
  unfold checkedMul
  split <;> simp_all [eq_comm]

/-- The cast `uint64(value)`. -/
def toUint64 (value : Nat) : Nat :=
  value % 2 ^ 64

theorem toUint64_of_lt {value : Nat} (small : value < 2 ^ 64) : toUint64 value = value :=
  Nat.mod_eq_of_lt small

/-- `msg.sender`, `block.timestamp` and `block.number`. -/
structure Msg where
  sender : Address
  timestamp : Nat
  number : Nat
  deriving DecidableEq, Repr

/-- The balances before and after exactly the stated amount has moved. -/
def Moved {Ledger : Type} (balanceOf : Ledger → Address → Address → Nat)
    (contract sender receiver : Address) (amount : Nat) (before after : Ledger) : Prop :=
  ∀ token owner,
    balanceOf after token owner +
        (if token = contract ∧ owner = sender then amount else 0) =
      balanceOf before token owner +
        (if token = contract ∧ owner = receiver then amount else 0)

/-- The ERC-20 contracts of a chain.  A call of one reverts or answers a boolean,
and when it answers `true` it has moved the stated amount. -/
structure Erc20 (Ledger : Type) where
  balanceOf : Ledger → Address → Address → Nat
  transfer : Ledger → Address → Address → Address → Nat → Option (Bool × Ledger)
  transferFrom :
    Ledger → Address → Address → Address → Address → Nat → Option (Bool × Ledger)
  transfer_moves : ∀ {before token sender receiver amount after},
    transfer before token sender receiver amount = some (true, after) →
      Moved balanceOf token sender receiver amount before after
  transferFrom_moves : ∀ {before token spender sender receiver amount after},
    transferFrom before token spender sender receiver amount = some (true, after) →
      Moved balanceOf token sender receiver amount before after

/-- The event of a transfer. -/
structure Transfer where
  token : Address
  sender : Address
  receiver : Address
  amount : Nat
  deriving DecidableEq, Repr

/-- The ledgers of the tokens and the transfers that the contracts have made. -/
structure Tokens (Ledger : Type) where
  ledger : Ledger
  transfers : List Transfer

namespace Tokens

variable {Ledger : Type} (erc20 : Erc20 Ledger)

def answered (tokens : Tokens Ledger) (transfer : Transfer) (message : String) :
    Option (Bool × Ledger) → Except Revert (Tokens Ledger)
  | none => .error .token
  | some (ok, ledger) => do
      ensure (ok = true) (.require message)
      pure ⟨ledger, tokens.transfers ++ [transfer]⟩

/-- `bool ok = token.transfer(receiver, amount); require(ok, message);` -/
def transfer (tokens : Tokens Ledger) (token this receiver : Address) (amount : Nat)
    (message : String) : Except Revert (Tokens Ledger) :=
  tokens.answered ⟨token, this, receiver, amount⟩ message
    (erc20.transfer tokens.ledger token this receiver amount)

/-- `bool ok = token.transferFrom(sender, address(this), amount); require(ok, message);` -/
def transferFrom (tokens : Tokens Ledger) (token this sender : Address) (amount : Nat)
    (message : String) : Except Revert (Tokens Ledger) :=
  tokens.answered ⟨token, sender, this, amount⟩ message
    (erc20.transferFrom tokens.ledger token this sender this amount)

theorem answered_ok_iff {tokens after : Tokens Ledger} {transfer : Transfer}
    {message : String} {answer : Option (Bool × Ledger)} :
    tokens.answered transfer message answer = .ok after ↔
      answer = some (true, after.ledger) ∧
        after.transfers = tokens.transfers ++ [transfer] := by
  rcases answer with _ | ⟨ok, ledger⟩
  · simp [answered]
  · obtain ⟨afterLedger, afterTransfers⟩ := after
    simp only [answered, bind_ok_iff, ensure_ok_iff, pure_ok_iff, Tokens.mk.injEq,
      Option.some.injEq, Prod.mk.injEq, exists_const, eq_comm (a := afterTransfers)]
    tauto

/-- The tokens after a transfer of a contract. -/
def After (before after : Tokens Ledger) (transfer : Transfer) : Prop :=
  Moved erc20.balanceOf transfer.token transfer.sender transfer.receiver
      transfer.amount before.ledger after.ledger ∧
    after.transfers = before.transfers ++ [transfer]

variable {erc20}

theorem after_transfer {tokens after : Tokens Ledger} {token this receiver : Address}
    {amount : Nat} {message : String}
    (called : tokens.transfer erc20 token this receiver amount message = .ok after) :
    tokens.After erc20 after ⟨token, this, receiver, amount⟩ := by
  obtain ⟨answer, logged⟩ := answered_ok_iff.mp called
  exact ⟨erc20.transfer_moves answer, logged⟩

theorem after_transferFrom {tokens after : Tokens Ledger} {token this sender : Address}
    {amount : Nat} {message : String}
    (called : tokens.transferFrom erc20 token this sender amount message = .ok after) :
    tokens.After erc20 after ⟨token, sender, this, amount⟩ := by
  obtain ⟨answer, logged⟩ := answered_ok_iff.mp called
  exact ⟨erc20.transferFrom_moves answer, logged⟩

end Tokens

/-- Balances and allowances, per token contract. -/
structure PlainLedger where
  balances : Address → Address → Nat
  allowances : Address → Address → Address → Nat

namespace PlainLedger

def move (ledger : PlainLedger) (token sender receiver : Address) (amount : Nat) :
    PlainLedger :=
  let taken := Function.update (ledger.balances token) sender
    (ledger.balances token sender - amount)
  { ledger with
    balances := Function.update ledger.balances token
      (Function.update taken receiver (taken receiver + amount)) }

/-- A transfer moves the amount when the sender holds it, and reverts otherwise. -/
def transfer (ledger : PlainLedger) (token sender receiver : Address) (amount : Nat) :
    Option (Bool × PlainLedger) :=
  if receiver ≠ 0 ∧ amount ≤ ledger.balances token sender then
    some (true, ledger.move token sender receiver amount)
  else none

/-- A transfer by a spender also uses up its allowance. -/
def transferFrom (ledger : PlainLedger) (token spender sender receiver : Address)
    (amount : Nat) : Option (Bool × PlainLedger) :=
  if amount ≤ ledger.allowances token sender spender then
    { ledger with
      allowances := Function.update ledger.allowances token
        (Function.update (ledger.allowances token) sender
          (Function.update (ledger.allowances token sender) spender
            (ledger.allowances token sender spender - amount))) }.transfer
      token sender receiver amount
  else none

theorem move_moves {ledger : PlainLedger} {token sender receiver : Address}
    {amount : Nat} (held : amount ≤ ledger.balances token sender) :
    Moved PlainLedger.balances token sender receiver amount ledger
      (ledger.move token sender receiver amount) := by
  intro other owner
  by_cases sameToken : other = token
  · subst other
    by_cases isReceiver : owner = receiver <;> by_cases isSender : owner = sender
    · subst owner
      subst sender
      simp [move]
      omega
    · subst owner
      simp [move, Function.update_of_ne, isSender]
    · subst owner
      simp [move, Function.update_of_ne, isReceiver]
      omega
    · simp [move, Function.update_of_ne, isReceiver, isSender]
  · simp [move, Function.update_of_ne, sameToken]

theorem transfer_moves {before after : PlainLedger} {token sender receiver : Address}
    {amount : Nat}
    (called : before.transfer token sender receiver amount = some (true, after)) :
    Moved PlainLedger.balances token sender receiver amount before after := by
  unfold transfer at called
  split at called
  case isTrue held =>
    obtain rfl : before.move token sender receiver amount = after := by
      simpa using called
    exact move_moves held.2
  case isFalse => cases called

theorem transferFrom_moves {before after : PlainLedger}
    {token spender sender receiver : Address} {amount : Nat}
    (called : before.transferFrom token spender sender receiver amount =
      some (true, after)) :
    Moved PlainLedger.balances token sender receiver amount before after := by
  unfold transferFrom at called
  split at called
  case isTrue =>
    have moved := transfer_moves called
    exact moved
  case isFalse => cases called

/-- The plain ledger as a token: what ERC-20 prescribes and nothing else. -/
def erc20 : Erc20 PlainLedger where
  balanceOf := PlainLedger.balances
  transfer := transfer
  transferFrom := transferFrom
  transfer_moves := transfer_moves
  transferFrom_moves := transferFrom_moves

end PlainLedger

end Contracts

end Roko
