import Roko.Contracts
import Roko.EvenSplits
import Roko.Tallies
import Mathlib.Data.FinEnum

/-!
# Splitting a payment

`FeeDistributor.sol` pulls an amount in and pays it out to validators, data providers, the
winner and the treasury.  The first three shares are rounded down and the treasury gets
the rest; within a group the remainder goes to the first recipients.
-/

namespace Roko

open Contracts

inductive FeeEvent
  | feesDistributed (jobId amount : Nat) (winner : Address)
      (validatorShare dataShare agentShare treasuryShare : Nat)
  | earningsCredited (participant : Address) (amount : Nat)
  deriving DecidableEq, Repr

/-- The immutable fields of the contract. -/
structure FeeDistributor where
  rewardToken : Address
  treasury : Address
  deriving DecidableEq, Repr

/-- What a call changes. -/
structure FeeState (Ledger : Type) where
  cumulativeEarnings : Address → Nat
  tokens : Tokens Ledger
  events : List FeeEvent

namespace FeeDistributor

def validatorBps : Nat := 4_000

def dataProviderBps : Nat := 3_000

def agentBps : Nat := 2_000

def bpsDenominator : Nat := 10_000

def deployed (rewardToken treasury : Address) : Except Revert FeeDistributor := do
  ensure (treasury ≠ 0) .zeroTreasury
  pure ⟨rewardToken, treasury⟩

/-- `if (!ok) revert TransferFailed();` after a call of a token. -/
def answered {Ledger : Type} (tokens : Tokens Ledger) (transfer : Transfer) :
    Option (Bool × Ledger) → Except Revert (Tokens Ledger)
  | none => .error .token
  | some (ok, ledger) => do
      ensure (ok = true) .transferFailed
      pure ⟨ledger, tokens.transfers ++ [transfer]⟩

section Calls

variable {Ledger : Type} (erc20 : Erc20 Ledger) (this : Address)
  (distributor : FeeDistributor)

/-- `_credit`. -/
def credit (recipient : Address) (amount : Nat) (state : FeeState Ledger) :
    Except Revert (FeeState Ledger) := do
  let earnings ← checkedAdd 256 (state.cumulativeEarnings recipient) amount
  let tokens ← answered state.tokens ⟨distributor.rewardToken, this, recipient, amount⟩
    (erc20.transfer state.tokens.ledger distributor.rewardToken this recipient amount)
  pure
    { cumulativeEarnings := Function.update state.cumulativeEarnings recipient earnings
      tokens
      events := state.events ++ [.earningsCredited recipient amount] }

/-- `perRecipient`, and one more for the first recipients. -/
def amountAt (perRecipient remainder i : Nat) : Except Revert Nat :=
  if i < remainder then checkedAdd 256 perRecipient 1 else .ok perRecipient

/-- The loop of `_creditGroup`, from an index on. -/
def creditFrom (perRecipient remainder : Nat) :
    Nat → List Address → FeeState Ledger → Except Revert (FeeState Ledger)
  | _, [], state => .ok state
  | i, recipient :: recipients, state => do
      let amount ← amountAt perRecipient remainder i
      let state ← credit erc20 this distributor recipient amount state
      creditFrom perRecipient remainder (i + 1) recipients state

/-- `_creditGroup`. -/
def creditGroup (recipients : List Address) (totalAmount : Nat) (state : FeeState Ledger) :
    Except Revert (FeeState Ledger) := do
  ensure (recipients.length ≠ 0) (.panic 0x12)
  let perRecipient := totalAmount / recipients.length
  let remainder := totalAmount % recipients.length
  creditFrom erc20 this distributor perRecipient remainder 0 recipients state

/-- A group of `distribute` is paid its share, or the treasury is when the group is
empty.  Returned are the shares of the treasury and of the group. -/
def payGroup (recipients : List Address) (treasuryShare groupShare : Nat)
    (state : FeeState Ledger) : Except Revert (Nat × Nat × FeeState Ledger) :=
  if recipients.length = 0 then do
    let treasuryShare ← checkedAdd 256 treasuryShare groupShare
    pure (treasuryShare, 0, state)
  else do
    let state ← creditGroup erc20 this distributor recipients groupShare state
    pure (treasuryShare, groupShare, state)

/-- `(amount * bps) / BPS_DENOMINATOR`. -/
def shareOf (amount bps : Nat) : Except Revert Nat := do
  let product ← checkedMul 256 amount bps
  pure (product / bpsDenominator)

def distribute (msg : Msg) (jobId amount : Nat) (winner : Address)
    (validators dataProviders : List Address) (state : FeeState Ledger) :
    Except Revert (FeeState Ledger) := do
  let tokens ← answered state.tokens ⟨distributor.rewardToken, msg.sender, this, amount⟩
    (erc20.transferFrom state.tokens.ledger distributor.rewardToken this msg.sender this
      amount)
  let state := { state with tokens }
  let validatorShare ← shareOf amount validatorBps
  let dataShare ← shareOf amount dataProviderBps
  let agentShare ← shareOf amount agentBps
  let rest ← checkedSub amount validatorShare
  let rest ← checkedSub rest dataShare
  let treasuryShare ← checkedSub rest agentShare
  let (treasuryShare, validatorShare, state) ←
    payGroup erc20 this distributor validators treasuryShare validatorShare state
  let (treasuryShare, dataShare, state) ←
    payGroup erc20 this distributor dataProviders treasuryShare dataShare state
  let state ← credit erc20 this distributor winner agentShare state
  let state ← credit erc20 this distributor distributor.treasury treasuryShare state
  pure
    { state with
      events := state.events ++
        [.feesDistributed jobId amount winner validatorShare dataShare agentShare
          treasuryShare] }

/-- Payments that are made one after the other. -/
def creditAll : List (Address × Nat) → FeeState Ledger → Except Revert (FeeState Ledger)
  | [], state => .ok state
  | (recipient, amount) :: payments, state => do
      let state ← credit erc20 this distributor recipient amount state
      creditAll payments state

end Calls

/-- The payments that an amount is split into. -/
structure Split where
  validatorPayments : List (Address × Nat)
  dataPayments : List (Address × Nat)
  agentShare : Nat
  treasuryShare : Nat
  deriving DecidableEq, Repr

def paid (payments : List (Address × Nat)) : Nat :=
  (payments.map Prod.snd).sum

def received (payments : List (Address × Nat)) (participant : Address) : Nat :=
  (payments.map fun payment => if payment.1 = participant then payment.2 else 0).sum

def Split.payments (split : Split) (winner treasury : Address) : List (Address × Nat) :=
  split.validatorPayments ++ (split.dataPayments ++
    [(winner, split.agentShare), (treasury, split.treasuryShare)])

/-- The split of `distribute`.  The share of an empty group goes to the treasury. -/
def splitOf (amount : Nat) (validators dataProviders : List Address) : Split :=
  let validatorShare := amount * validatorBps / bpsDenominator
  let dataShare := amount * dataProviderBps / bpsDenominator
  let agentShare := amount * agentBps / bpsDenominator
  { validatorPayments := EvenSplit.payments validatorShare validators
    dataPayments := EvenSplit.payments dataShare dataProviders
    agentShare
    treasuryShare := amount - validatorShare - dataShare - agentShare +
      (if validators.length = 0 then validatorShare else 0) +
      (if dataProviders.length = 0 then dataShare else 0) }

/-- Later payments of a group are at most one smaller, and not larger. -/
def Even (payments : List (Address × Nat)) : Prop :=
  (payments.map Prod.snd).Pairwise fun first second =>
    second ≤ first ∧ first ≤ second + 1

section Laws

variable {Ledger : Type} (erc20 : Erc20 Ledger) (this : Address)
  (distributor : FeeDistributor)

def held (state : FeeState Ledger) : Nat :=
  erc20.balanceOf state.tokens.ledger distributor.rewardToken this

/-- What a list of payments changes. -/
structure Pays (payments : List (Address × Nat)) (before after : FeeState Ledger) :
    Prop where
  earnings : ∀ participant, after.cumulativeEarnings participant =
    before.cumulativeEarnings participant + received payments participant
  events : after.events = before.events ++
    payments.map fun payment => .earningsCredited payment.1 payment.2
  transfers : after.tokens.transfers = before.tokens.transfers ++
    payments.map fun payment => ⟨distributor.rewardToken, this, payment.1, payment.2⟩
  balance : this ∉ payments.map Prod.fst →
    held erc20 this distributor after + paid payments = held erc20 this distributor before

/-- A successful call pays out what it pulls in.  A contract that does not call itself is
not the sender. -/
structure Distribution (msg : Msg) (jobId amount : Nat) (winner : Address)
    (validators dataProviders : List Address) (before after : FeeState Ledger)
    (split : Split) : Prop where
  total : paid (split.payments winner distributor.treasury) = amount
  validatorsPaid : split.validatorPayments.map Prod.fst = validators
  validatorsEven : Even split.validatorPayments
  dataProvidersPaid : split.dataPayments.map Prod.fst = dataProviders
  dataProvidersEven : Even split.dataPayments
  events : after.events = before.events ++
    ((split.payments winner distributor.treasury).map fun payment =>
      .earningsCredited payment.1 payment.2) ++
    [.feesDistributed jobId amount winner (paid split.validatorPayments)
      (paid split.dataPayments) split.agentShare split.treasuryShare]
  transfers : after.tokens.transfers = before.tokens.transfers ++
    ⟨distributor.rewardToken, msg.sender, this, amount⟩ ::
      (split.payments winner distributor.treasury).map fun payment =>
        ⟨distributor.rewardToken, this, payment.1, payment.2⟩
  earnings : ∀ participant, after.cumulativeEarnings participant =
    before.cumulativeEarnings participant +
      received (split.payments winner distributor.treasury) participant
  earned : ∑ participant, after.cumulativeEarnings participant =
    ∑ participant, before.cumulativeEarnings participant + amount
  balance : msg.sender ≠ this →
    this ∉ winner :: distributor.treasury :: (validators ++ dataProviders) →
    held erc20 this distributor after = held erc20 this distributor before

/-- A call fails by a token, or when an entry of the mapping could not take the amount. -/
def Excused (amount : Nat) (state : FeeState Ledger) (revert : Revert) : Prop :=
  revert = .token ∨ revert = .transferFailed ∨
    ∃ participant, 2 ^ 256 ≤ state.cumulativeEarnings participant + amount

variable {erc20 this distributor} {before middle after : FeeState Ledger}

@[simp]
theorem paid_append (first second : List (Address × Nat)) :
    paid (first ++ second) = paid first + paid second := by
  simp [paid]

@[simp]
theorem paid_cons (payment : Address × Nat) (payments : List (Address × Nat)) :
    paid (payment :: payments) = payment.2 + paid payments := by
  simp [paid]

@[simp]
theorem paid_nil : paid [] = 0 :=
  rfl

theorem received_le_paid (payments : List (Address × Nat)) (participant : Address) :
    received payments participant ≤ paid payments := by
  induction payments with
  | nil => exact le_rfl
  | cons payment payments ih =>
      simp only [received, paid, List.map_cons, List.sum_cons] at ih ⊢
      split <;> omega

/-- Every payment is received by somebody. -/
theorem sum_received (payments : List (Address × Nat)) :
    ∑ participant, received payments participant = paid payments := by
  induction payments with
  | nil => simp [received]
  | cons payment payments ih =>
      simp only [received, List.map_cons, List.sum_cons] at ih ⊢
      rw [Finset.sum_add_distrib, ih, Finset.sum_ite_eq, if_pos (Finset.mem_univ _),
        paid_cons]

theorem answered_ok_iff {tokens after : Tokens Ledger} {transfer : Transfer}
    {answer : Option (Bool × Ledger)} :
    answered tokens transfer answer = .ok after ↔
      answer = some (true, after.ledger) ∧
        after.transfers = tokens.transfers ++ [transfer] := by
  rcases answer with _ | ⟨ok, ledger⟩
  · simp [answered]
  · obtain ⟨afterLedger, afterTransfers⟩ := after
    simp only [answered, bind_ok_iff, ensure_ok_iff, pure_ok_iff, Tokens.mk.injEq,
      Option.some.injEq, Prod.mk.injEq, exists_const, eq_comm (a := afterTransfers)]
    tauto

theorem answered_error {tokens : Tokens Ledger} {transfer : Transfer}
    {answer : Option (Bool × Ledger)} {revert : Revert}
    (failed : answered tokens transfer answer = .error revert) :
    revert = .token ∨ revert = .transferFailed := by
  rcases answer with _ | ⟨_ | _, ledger⟩
  · exact Or.inl (Except.error.inj failed).symm
  · exact Or.inr (Except.error.inj failed).symm
  · cases failed

theorem Pays.nil (state : FeeState Ledger) : Pays erc20 this distributor [] state state where
  earnings _ := rfl
  events := (List.append_nil _).symm
  transfers := (List.append_nil _).symm
  balance _ := rfl

theorem Pays.append {first second : List (Address × Nat)}
    (earlier : Pays erc20 this distributor first before middle)
    (later : Pays erc20 this distributor second middle after) :
    Pays erc20 this distributor (first ++ second) before after where
  earnings participant := by
    rw [later.earnings, earlier.earnings, received, received, received, List.map_append,
      List.sum_append, Nat.add_assoc]
  events := by
    rw [later.events, earlier.events, List.map_append, List.append_assoc]
  transfers := by
    rw [later.transfers, earlier.transfers, List.map_append, List.append_assoc]
  balance outside := by
    rw [List.map_append, List.mem_append, not_or] at outside
    have paidEarlier := earlier.balance outside.1
    have paidLater := later.balance outside.2
    rw [paid_append]
    omega

theorem pays_of_credit {recipient : Address} {amount : Nat}
    (credited : credit erc20 this distributor recipient amount before = .ok after) :
    Pays erc20 this distributor [(recipient, amount)] before after := by
  simp only [credit, bind_ok_iff, pure_ok_iff, checkedAdd_ok_iff, answered_ok_iff]
    at credited
  obtain ⟨earnings, ⟨-, rfl⟩, tokens, ⟨called, logged⟩, rfl⟩ := credited
  constructor
  · intro participant
    by_cases same : participant = recipient
    · simp [received, same]
    · simp [received, same, Ne.symm same]
  · rfl
  · exact logged
  · intro outside
    have apart : this ≠ recipient := by simpa using outside
    have moved := erc20.transfer_moves called distributor.rewardToken this
    simpa [held, paid, apart] using moved

theorem pays_of_creditAll {payments : List (Address × Nat)}
    (credited : creditAll erc20 this distributor payments before = .ok after) :
    Pays erc20 this distributor payments before after := by
  induction payments generalizing before with
  | nil =>
      obtain rfl : before = after := Except.ok.inj credited
      exact Pays.nil before
  | cons payment payments ih =>
      obtain ⟨state, first, rest⟩ := bind_ok_iff.mp credited
      exact (pays_of_credit first).append (ih rest)

theorem creditAll_error {payments : List (Address × Nat)} {revert : Revert}
    (failed : creditAll erc20 this distributor payments before = .error revert) :
    Excused (paid payments) before revert := by
  induction payments generalizing before with
  | nil => cases failed
  | cons payment payments ih =>
      obtain ⟨recipient, amount⟩ := payment
      rw [paid_cons]
      cases first : credit erc20 this distributor recipient amount before with
      | ok state =>
          rw [creditAll, first] at failed
          obtain token | refused | ⟨participant, full⟩ := ih failed
          · exact Or.inl token
          · exact Or.inr (Or.inl refused)
          · have earned := (pays_of_credit first).earnings participant
            have bound := received_le_paid [(recipient, amount)] participant
            simp only [paid_cons, paid_nil] at bound
            exact Or.inr (Or.inr ⟨participant, by omega⟩)
      | error reason =>
          rw [creditAll, first] at failed
          obtain rfl : reason = revert := Except.error.inj failed
          unfold credit checkedAdd at first
          split at first
          · cases asked : answered before.tokens
              ⟨distributor.rewardToken, this, recipient, amount⟩
              (erc20.transfer before.tokens.ledger distributor.rewardToken this recipient
                amount) with
            | ok tokens =>
                rw [asked] at first
                cases first
            | error refusal =>
                rw [asked] at first
                obtain rfl : refusal = reason := Except.error.inj first
                exact (answered_error asked).imp_right Or.inl
          · exact Or.inr (Or.inr ⟨recipient, by dsimp only; omega⟩)

theorem creditAll_append (first second : List (Address × Nat)) (state : FeeState Ledger) :
    creditAll erc20 this distributor (first ++ second) state =
      creditAll erc20 this distributor first state >>=
        creditAll erc20 this distributor second := by
  induction first generalizing state with
  | nil => rfl
  | cons payment first ih =>
      simp only [List.cons_append, creditAll, ih, bind_assoc]

/-- The loop pays the shares of the recipients from an index on. -/
theorem creditFrom_eq (total parts index : Nat) (recipients : List Address)
    (state : FeeState Ledger) (some : 0 < parts) (small : total < 2 ^ 256) :
    creditFrom erc20 this distributor (total / parts) (total % parts) index recipients
        state =
      creditAll erc20 this distributor
        ((recipients.zipIdx index).map fun entry =>
          (entry.1, EvenSplit.share total parts entry.2)) state := by
  induction recipients generalizing index state with
  | nil => rfl
  | cons recipient recipients ih =>
      have amount : amountAt (total / parts) (total % parts) index =
          .ok (EvenSplit.share total parts index) := by
        unfold amountAt EvenSplit.share
        split
        case isTrue first =>
          have fits := EvenSplit.succ_le_total some first
          exact checkedAdd_ok_iff.mpr ⟨by omega, rfl⟩
        case isFalse => rfl
      rw [creditFrom, amount, List.zipIdx_cons, List.map_cons, creditAll]
      simp only [ih]
      rfl

theorem creditGroup_eq {recipients : List Address} (some : recipients.length ≠ 0)
    {total : Nat} (small : total < 2 ^ 256) (state : FeeState Ledger) :
    creditGroup erc20 this distributor recipients total state =
      creditAll erc20 this distributor (EvenSplit.payments total recipients) state := by
  unfold creditGroup ensure
  rw [if_pos some]
  exact creditFrom_eq total recipients.length 0 recipients state (by omega) small

theorem shareOf_eq {amount bps : Nat} (part : bps ≤ bpsDenominator)
    (small : amount * bpsDenominator < 2 ^ 256) :
    shareOf amount bps = .ok (amount * bps / bpsDenominator) := by
  have fits : amount * bps < 2 ^ 256 := (Nat.mul_le_mul_left amount part).trans_lt small
  rw [shareOf, checkedMul_ok_iff.mpr ⟨fits, rfl⟩]
  rfl

/-- The rounded shares leave something of the amount. -/
theorem shares_le (amount : Nat) :
    amount * validatorBps / bpsDenominator + amount * dataProviderBps / bpsDenominator +
      amount * agentBps / bpsDenominator ≤ amount := by
  unfold validatorBps dataProviderBps agentBps bpsDenominator
  omega

theorem paid_payments (total : Nat) (recipients : List Address) :
    paid (EvenSplit.payments total recipients) =
      if recipients.length = 0 then 0 else total := by
  split
  case isTrue none =>
    obtain rfl := List.length_eq_zero_iff.mp none
    rfl
  case isFalse some =>
    exact EvenSplit.sum_payments total (by rintro rfl; exact some rfl)

theorem payGroup_eq (erc20 : Erc20 Ledger) (this : Address) (distributor : FeeDistributor)
    (recipients : List Address) {treasuryShare groupShare : Nat}
    (small : treasuryShare + groupShare < 2 ^ 256) (state : FeeState Ledger) :
    payGroup erc20 this distributor recipients treasuryShare groupShare state =
      (do
        let state ← creditAll erc20 this distributor
          (EvenSplit.payments groupShare recipients) state
        pure (treasuryShare + (if recipients.length = 0 then groupShare else 0),
          paid (EvenSplit.payments groupShare recipients), state)) := by
  rw [payGroup, paid_payments]
  split
  case isTrue none =>
    obtain rfl := List.length_eq_zero_iff.mp none
    rw [checkedAdd_ok_iff.mpr ⟨small, rfl⟩]
    rfl
  case isFalse some => rw [creditGroup_eq some (by omega), Nat.add_zero]

/-- A call makes the payments of its split. -/
theorem distribute_eq {amount : Nat} (small : amount * bpsDenominator < 2 ^ 256) (msg : Msg)
    (jobId : Nat) (winner : Address) (validators dataProviders : List Address)
    (state : FeeState Ledger) :
    distribute erc20 this distributor msg jobId amount winner validators dataProviders
        state =
      (do
        let tokens ← answered state.tokens
          ⟨distributor.rewardToken, msg.sender, this, amount⟩
          (erc20.transferFrom state.tokens.ledger distributor.rewardToken this msg.sender
            this amount)
        let split := splitOf amount validators dataProviders
        let state ← creditAll erc20 this distributor
          (split.payments winner distributor.treasury) { state with tokens }
        pure
          { state with
            events := state.events ++
              [.feesDistributed jobId amount winner (paid split.validatorPayments)
                (paid split.dataPayments) split.agentShare split.treasuryShare] }) := by
  have within := shares_le amount
  have bound : amount < 2 ^ 256 := by
    unfold bpsDenominator at small
    omega
  have okBind {Value Result : Type} (value : Value) (rest : Value → Except Revert Result) :
      (Except.ok value >>= rest) = rest value := rfl
  unfold distribute splitOf Split.payments
  simp only [okBind, shareOf_eq (by decide : validatorBps ≤ bpsDenominator) small,
    shareOf_eq (by decide : dataProviderBps ≤ bpsDenominator) small,
    shareOf_eq (by decide : agentBps ≤ bpsDenominator) small, paid_payments]
  generalize amount * validatorBps / bpsDenominator = validatorShare at *
  generalize amount * dataProviderBps / bpsDenominator = dataShare at *
  generalize amount * agentBps / bpsDenominator = agentShare at *
  have first : checkedSub amount validatorShare = .ok (amount - validatorShare) :=
    checkedSub_ok_iff.mpr ⟨by omega, rfl⟩
  have second : checkedSub (amount - validatorShare) dataShare =
      .ok (amount - validatorShare - dataShare) := checkedSub_ok_iff.mpr ⟨by omega, rfl⟩
  have third : checkedSub (amount - validatorShare - dataShare) agentShare =
      .ok (amount - validatorShare - dataShare - agentShare) :=
    checkedSub_ok_iff.mpr ⟨by omega, rfl⟩
  have firstGroup := payGroup_eq erc20 this distributor validators
    (show amount - validatorShare - dataShare - agentShare + validatorShare < 2 ^ 256 by omega)
  have secondGroup := payGroup_eq erc20 this distributor dataProviders
    (show amount - validatorShare - dataShare - agentShare +
      (if validators.length = 0 then validatorShare else 0) + dataShare < 2 ^ 256 by
      split <;> omega)
  simp only [okBind, first, second, third, firstGroup, secondGroup, creditAll_append,
    creditAll, bind_assoc, pure_bind, paid_payments]

theorem paid_splitOf (amount : Nat) (winner treasury : Address)
    (validators dataProviders : List Address) :
    paid ((splitOf amount validators dataProviders).payments winner treasury) = amount := by
  have within := shares_le amount
  simp only [splitOf, Split.payments, paid_append, paid_cons, paid_nil, paid_payments]
  split <;> split <;> omega

theorem mem_recipients_iff {amount : Nat} {winner treasury participant : Address}
    {validators dataProviders : List Address} :
    participant ∈ ((splitOf amount validators dataProviders).payments winner treasury).map
        Prod.fst ↔
      participant ∈ winner :: treasury :: (validators ++ dataProviders) := by
  simp only [splitOf, Split.payments, List.map_append, EvenSplit.map_fst_payments,
    List.map_cons, List.map_nil, List.mem_append, List.mem_cons, List.not_mem_nil, or_false]
  tauto

theorem distribution_of_ok {msg : Msg} {jobId amount : Nat}
    (small : amount * bpsDenominator < 2 ^ 256) {winner : Address}
    {validators dataProviders : List Address}
    (distributed : distribute erc20 this distributor msg jobId amount winner validators
      dataProviders before = .ok after) :
    Distribution erc20 this distributor msg jobId amount winner validators dataProviders
      before after (splitOf amount validators dataProviders) := by
  rw [distribute_eq small] at distributed
  simp only [bind_ok_iff, pure_ok_iff, answered_ok_iff] at distributed
  obtain ⟨tokens, ⟨called, logged⟩, state, credited, rfl⟩ := distributed
  have pays := pays_of_creditAll credited
  have total := paid_splitOf amount winner distributor.treasury validators dataProviders
  constructor
  · exact total
  · exact EvenSplit.map_fst_payments _ _
  · exact EvenSplit.pairwise_payments _ _
  · exact EvenSplit.map_fst_payments _ _
  · exact EvenSplit.pairwise_payments _ _
  · exact congrArg (· ++ _) pays.events
  · rw [pays.transfers, logged, List.append_assoc]
    rfl
  · exact pays.earnings
  · simp only [pays.earnings, Finset.sum_add_distrib, sum_received, total]
  · intro outside apart
    rw [← mem_recipients_iff] at apart
    have paidOut := pays.balance apart
    have pulled := erc20.transferFrom_moves called distributor.rewardToken this
    simp only [Ne.symm outside, and_false, if_false, and_self, if_true] at pulled
    rw [total] at paidOut
    unfold held at *
    dsimp only at *
    omega

theorem excused_of_error {msg : Msg} {jobId amount : Nat}
    (small : amount * bpsDenominator < 2 ^ 256) {winner : Address}
    {validators dataProviders : List Address} {revert : Revert}
    (failed : distribute erc20 this distributor msg jobId amount winner validators
      dataProviders before = .error revert) :
    Excused amount before revert := by
  rw [distribute_eq small] at failed
  cases asked : answered before.tokens ⟨distributor.rewardToken, msg.sender, this, amount⟩
      (erc20.transferFrom before.tokens.ledger distributor.rewardToken this msg.sender this
        amount) with
  | error reason =>
      rw [asked] at failed
      obtain rfl : reason = revert := Except.error.inj failed
      exact (answered_error asked).imp_right Or.inl
  | ok tokens =>
      rw [asked] at failed
      cases credited : creditAll erc20 this distributor
          ((splitOf amount validators dataProviders).payments winner distributor.treasury)
          { before with tokens } with
      | error reason =>
          dsimp only [bind, Except.bind] at failed
          rw [credited] at failed
          obtain rfl : reason = revert := Except.error.inj failed
          have excused := creditAll_error credited
          rwa [paid_splitOf] at excused
      | ok state =>
          dsimp only [bind, Except.bind] at failed
          rw [credited] at failed
          cases failed

/-- What is pulled in is paid out, and a call fails only by a token or a full entry. -/
theorem distribute_conserves (erc20 : Erc20 Ledger) (this : Address)
    (distributor : FeeDistributor) (msg : Msg) (jobId amount : Nat)
    (small : amount * bpsDenominator < 2 ^ 256) (winner : Address)
    (validators dataProviders : List Address) (before : FeeState Ledger) :
    (∀ after, distribute erc20 this distributor msg jobId amount winner validators
        dataProviders before = .ok after →
      ∃ split, Distribution erc20 this distributor msg jobId amount winner validators
        dataProviders before after split) ∧
    ∀ revert, distribute erc20 this distributor msg jobId amount winner validators
        dataProviders before = .error revert →
      Excused amount before revert :=
  ⟨fun _ distributed => ⟨_, distribution_of_ok small distributed⟩,
    fun _ failed => excused_of_error small failed⟩

end Laws

def sampleDistributor : FeeDistributor := ⟨1, 2⟩

/-- The account 4 holds 20000 units and lets the contract at 3 spend them. -/
def sampleState : FeeState PlainLedger where
  cumulativeEarnings _ := 0
  tokens :=
    { ledger :=
        { balances := fun _ => Function.update (fun _ => 0) 4 20_000
          allowances := fun _ _ _ => 20_000 }
      transfers := [] }
  events := []

/-- Three shares of validators, one of them for the winner, and no data providers. -/
def sampleCall : Except Revert (FeeState PlainLedger) :=
  distribute PlainLedger.erc20 3 sampleDistributor ⟨4, 0, 0⟩ 7 10_003 5 [6, 5, 6] []
    sampleState

/-- The shares 4001, 2000 and 1001 are rounded down, and the treasury gets the rest. -/
example : (sampleCall.toOption.map fun state => state.events) =
    some [.earningsCredited 6 1334, .earningsCredited 5 1334, .earningsCredited 6 1333,
      .earningsCredited 5 2000, .earningsCredited 2 4002,
      .feesDistributed 7 10_003 5 4001 0 2000 4002] := by
  decide +kernel

theorem sample_distribution :
    ∃ after, sampleCall = .ok after ∧
      ∃ split, Distribution PlainLedger.erc20 3 sampleDistributor ⟨4, 0, 0⟩ 7 10_003 5
        [6, 5, 6] [] sampleState after split := by
  obtain ⟨after, distributed, -⟩ : ∃ after, sampleCall = .ok after ∧
      after.events.length = 6 :=
    FallibleSteps.ok_of_map_toOption (by decide +kernel)
  refine ⟨after, distributed, ?_⟩
  exact (distribute_conserves PlainLedger.erc20 3 sampleDistributor ⟨4, 0, 0⟩ 7 10_003
    (by decide) 5 [6, 5, 6] [] sampleState).1 after distributed

end FeeDistributor

end Roko
