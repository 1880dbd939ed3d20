import Roko.Tallies
import Roko.WorkerArithmetic

/-!
# The bonds of the worker registry

In every history of the registry its stake tokens are the bonds of the workers, what was
slashed from them, and what others sent to it.  Each worker is registered once, and the
reputations stay within the scale, so that no arithmetic on them fails.
-/

namespace Roko

open Contracts

/-- The calls that change the registry, and the calls that others make of the tokens. -/
inductive WorkerCall (Ledger : Type)
  | setAuthorized (caller : Address) (allowed : Bool)
  | register (amount : U256)
  | bond (amount : U256)
  | unbond (amount : U256)
  | updateReputation (worker : Address) (outcome : Bool)
  | slash (worker : Address) (reasonCode : UInt8) (bpsAmount : U256)
  | decay (worker : Address)
  | token (after : Ledger)

/-- A registry, its tokens, and the sums of what was slashed and of what was sent to it
otherwise. -/
structure BondHistory (Ledger : Type) where
  registry : WorkerRegistry
  tokens : Tokens Ledger
  slashed : Nat := 0
  donated : Nat

namespace BondHistory

open WorkerRegistry

variable {Ledger : Type} (erc20 : Erc20 Ledger) (this : Address) (history : BondHistory Ledger)

/-- The stake tokens of the registry. -/
def held (history : BondHistory Ledger) : Nat :=
  erc20.balanceOf history.tokens.ledger history.registry.stakeToken this

def quiet (call : Except Revert WorkerRegistry) : Except Revert (BondHistory Ledger) := do
  let registry ← call
  pure { history with registry }

def withTokens (call : Except Revert (WorkerRegistry × Tokens Ledger)) :
    Except Revert (BondHistory Ledger) := do
  let (registry, tokens) ← call
  pure { history with registry, tokens }

def execute (msg : Msg) : WorkerCall Ledger → Except Revert (BondHistory Ledger)
  | .setAuthorized caller allowed =>
      history.quiet (history.registry.setAuthorized msg caller allowed)
  | .register amount =>
      history.withTokens
        (history.registry.register erc20 this msg history.tokens amount.toNat)
  | .bond amount =>
      history.withTokens
        (history.registry.addBond erc20 this msg history.tokens amount.toNat)
  | .unbond amount =>
      history.withTokens
        (history.registry.unbond erc20 this msg history.tokens amount.toNat)
  | .updateReputation worker outcome =>
      history.quiet (history.registry.checkedUpdateReputation msg worker outcome)
  | .slash worker _ bpsAmount => do
      let registry ← history.registry.slash msg worker bpsAmount.toNat
      pure { history with
        registry
        slashed := history.slashed +
          ((history.registry.workers worker).bond - (registry.workers worker).bond) }
  | .decay worker => history.quiet (history.registry.checkedDecay msg worker)
  | .token ledger => do
      -- nobody else can spend what the registry holds
      let balance := erc20.balanceOf ledger history.registry.stakeToken this
      ensure (history.held erc20 this ≤ balance) .token
      pure { history with
        tokens := { history.tokens with ledger }
        donated := history.donated + (balance - history.held erc20 this) }

/-- A call by any account but the registry itself, which makes none. -/
def step (history : BondHistory Ledger) (call : Msg × WorkerCall Ledger) :
    BondHistory Ledger :=
  if call.1.sender = this then history
  else settle history (history.execute erc20 this call.1 call.2)

/-- A new registry.  What it holds already was sent to it. -/
def deployed (stakeToken owner : Address) (ledger : Ledger) : BondHistory Ledger where
  registry := .deployed stakeToken owner
  tokens := ⟨ledger, []⟩
  donated := erc20.balanceOf ledger stakeToken this

/-- The sum of the bonds of all workers. -/
def bonds (registry : WorkerRegistry) : Nat :=
  (registry.registered.map fun worker => (registry.workers worker).bond).sum

/-- A call fails by an overflow or an underflow. -/
def Panics {Value : Type} (call : Except Revert Value) : Prop :=
  call = .error (.panic 0x11)

/-- No call about this worker fails in its arithmetic, except that the counter of an
outcome reaches its limit. -/
structure ArithmeticSound (registry : WorkerRegistry) (worker : Address) : Prop where
  updateReputation : ∀ (msg : Msg) (outcome : Bool),
    count (registry.workers worker) outcome + 1 < 2 ^ 64 →
      ¬ Panics (registry.checkedUpdateReputation msg worker outcome)
  decay : ∀ msg : Msg, ¬ Panics (registry.checkedDecay msg worker)
  tier : ∀ now, ¬ Panics (registry.checkedTier now worker)
  canAccept : ∀ now minTier, ¬ Panics (registry.checkedCanAccept now worker minTier)
  reputationOf : ∀ now, ¬ Panics (registry.checkedReputationOf now worker)

/-- What holds of the bonds, the workers and their reputations. -/
structure Sound (history : BondHistory Ledger) : Prop where
  solvent : bonds history.registry ≤ history.held erc20 this
  accounted : history.donated = 0 →
    history.held erc20 this = bonds history.registry + history.slashed
  once : history.registry.registered.Nodup
  listed : ∀ worker, worker ∈ history.registry.registered ↔
    (history.registry.workers worker).existing = true
  bounded : ∀ worker, (history.registry.workers worker).reputation ≤ scale
  arithmetic : ∀ worker, (history.registry.workers worker).existing = true →
    ArithmeticSound history.registry worker

/-- What holds of the records of the workers. -/
structure RecordsSound (registry : WorkerRegistry) : Prop where
  once : registry.registered.Nodup
  listed : ∀ worker, worker ∈ registry.registered ↔
    (registry.workers worker).existing = true
  bounded : ∀ worker, (registry.workers worker).reputation ≤ scale

variable {erc20 this history} {registry after : WorkerRegistry} {worker : Address}

theorem RecordsSound.setWorker (sound : RecordsSound registry) {record : Worker}
    (change : RecordStep (registry.workers worker) record) :
    RecordsSound (registry.setWorker worker record) := by
  refine ⟨sound.once, fun other => ?_, fun other => ?_⟩
  · refine (sound.listed other).trans ?_
    by_cases isHere : other = worker
    · subst isHere
      simp [WorkerRegistry.setWorker, change.existed, change.existing]
    · simp [WorkerRegistry.setWorker, isHere]
  · by_cases isHere : other = worker
    · subst isHere
      simpa [WorkerRegistry.setWorker] using change.bounded (sound.bounded other)
    · simpa [WorkerRegistry.setWorker, isHere] using sound.bounded other

theorem RecordsSound.registeredWith (sound : RecordsSound registry) {msg : Msg}
    (new : (registry.workers msg.sender).existing = false) (amount : Nat) :
    RecordsSound (registry.registeredWith msg amount) := by
  have absent : msg.sender ∉ registry.registered := by
    rw [sound.listed, new]
    exact Bool.false_ne_true
  refine ⟨?_, fun other => ?_, fun other => ?_⟩
  · unfold WorkerRegistry.registeredWith
    rw [List.nodup_append_comm]
    exact List.nodup_cons.mpr ⟨absent, sound.once⟩
  · unfold WorkerRegistry.registeredWith WorkerRegistry.setWorker
    rw [List.mem_append, sound.listed, List.mem_singleton]
    by_cases isHere : other = msg.sender
    · subst isHere
      simp
    · simp [isHere]
  · unfold WorkerRegistry.registeredWith WorkerRegistry.setWorker
    by_cases isHere : other = msg.sender
    · subst isHere
      simp [Nat.div_le_self]
    · simpa [isHere] using sound.bounded other

theorem bonds_setWorker (sound : RecordsSound registry)
    (existing : (registry.workers worker).existing = true) (record : Worker) :
    bonds (registry.setWorker worker record) + (registry.workers worker).bond =
      bonds registry + record.bond := by
  have update : (fun other => ((registry.setWorker worker record).workers other).bond) =
      Function.update (fun other => (registry.workers other).bond) worker record.bond := by
    funext other
    by_cases isHere : other = worker
    · subst isHere
      simp [WorkerRegistry.setWorker]
    · simp [WorkerRegistry.setWorker, isHere]
  unfold bonds
  rw [update]
  exact Tally.sum_map_update_add sound.once ((sound.listed worker).mpr existing) _ _

theorem bonds_registeredWith (sound : RecordsSound registry) {msg : Msg}
    (new : (registry.workers msg.sender).existing = false) (amount : Nat) :
    bonds (registry.registeredWith msg amount) = bonds registry + amount := by
  have absent : msg.sender ∉ registry.registered := by
    rw [sound.listed, new]
    exact Bool.false_ne_true
  have others : registry.registered.map
      (fun other => ((registry.registeredWith msg amount).workers other).bond) =
      registry.registered.map fun other => (registry.workers other).bond := by
    refine List.map_congr_left fun other member => ?_
    have apart : other ≠ msg.sender := by
      rintro rfl
      exact absent member
    simp [WorkerRegistry.registeredWith, WorkerRegistry.setWorker, apart]
  unfold bonds
  rw [show (registry.registeredWith msg amount).registered =
    registry.registered ++ [msg.sender] from rfl, List.map_append, List.sum_append, others]
  simp [WorkerRegistry.registeredWith, WorkerRegistry.setWorker]

theorem not_panics_ok {Value : Type} (value : Value) :
    ¬ Panics (.ok value : Except Revert Value) :=
  nofun

/-- While the reputation of a worker is within the scale, only a counter can overflow. -/
theorem arithmeticSound_of_bounded
    (bounded : (registry.workers worker).reputation ≤ scale)
    (existing : (registry.workers worker).existing = true) :
    ArithmeticSound registry worker := by
  refine ⟨fun msg outcome fits => ?_, fun msg => ?_, fun now => ?_, fun now minTier => ?_,
    fun now => ?_⟩
  · rw [checkedUpdateReputation_eq msg outcome bounded]
    cases authorized : registry.authorized msg.sender with
    | true =>
        rw [updateReputation_eq authorized existing bounded fits]
        exact not_panics_ok _
    | false =>
        unfold updateReputation Panics
        simp [ensure, authorized, bind, Except.bind]
  · rw [checkedDecay_eq msg bounded]
    simp [WorkerRegistry.decay, ensure, existing, bind, Except.bind, pure, Except.pure, Panics]
  · rw [checkedTier_eq now bounded]
    exact not_panics_ok _
  · rw [checkedCanAccept_eq now minTier bounded]
    exact not_panics_ok _
  · rw [checkedReputationOf_eq now bounded]
    exact not_panics_ok _

/-- The records are sound, and the stake tokens of the registry are accounted for. -/
structure Accounted (erc20 : Erc20 Ledger) (this : Address) (history : BondHistory Ledger) :
    Prop where
  records : RecordsSound history.registry
  balance : history.held erc20 this =
    bonds history.registry + history.slashed + history.donated

theorem held_received {before after : Ledger} {token sender : Address} {amount : Nat}
    (outside : sender ≠ this)
    (moved : Moved erc20.balanceOf token sender this amount before after) :
    erc20.balanceOf after token this = erc20.balanceOf before token this + amount := by
  have balance := moved token this
  rw [if_neg (fun both => outside both.2.symm), if_pos ⟨rfl, rfl⟩] at balance
  exact balance

theorem held_sent {before after : Ledger} {token receiver : Address} {amount : Nat}
    (outside : receiver ≠ this)
    (moved : Moved erc20.balanceOf token this receiver amount before after) :
    erc20.balanceOf after token this + amount = erc20.balanceOf before token this := by
  have balance := moved token this
  rw [if_pos ⟨rfl, rfl⟩, if_neg (fun both => outside both.2.symm)] at balance
  exact balance

/-- A write of a record that keeps its bond. -/
theorem Accounted.setRecord (accounted : Accounted erc20 this history) {record : Worker}
    (change : RecordStep (history.registry.workers worker) record)
    (bond : record.bond = (history.registry.workers worker).bond) :
    Accounted erc20 this
      { history with registry := history.registry.setWorker worker record } := by
  refine ⟨accounted.records.setWorker change, ?_⟩
  have sum := bonds_setWorker accounted.records change.existed record
  have balance := accounted.balance
  simp only [held, WorkerRegistry.setWorker] at sum balance ⊢
  omega

/-- A write of a bond, when the balance changes by as much. -/
theorem Accounted.setBond (accounted : Accounted erc20 this history) {bond : Nat}
    {tokens : Tokens Ledger} {slashed : Nat}
    (existing : (history.registry.workers worker).existing = true)
    (balanced : erc20.balanceOf tokens.ledger history.registry.stakeToken this +
        (history.registry.workers worker).bond + history.slashed =
      history.held erc20 this + bond + slashed) :
    Accounted erc20 this
      { history with
        registry := history.registry.setWorker worker
          { history.registry.workers worker with bond }
        tokens
        slashed } := by
  have sum := bonds_setWorker accounted.records existing
    { history.registry.workers worker with bond }
  have balance := accounted.balance
  refine ⟨⟨accounted.records.once, fun other => ?_, fun other => ?_⟩, ?_⟩
  · rw [show (history.registry.setWorker worker
      { history.registry.workers worker with bond }).registered = history.registry.registered
      from rfl, accounted.records.listed other]
    by_cases isHere : other = worker
    · subst isHere
      simp [WorkerRegistry.setWorker]
    · simp [WorkerRegistry.setWorker, isHere]
  · by_cases isHere : other = worker
    · subst isHere
      simpa [WorkerRegistry.setWorker] using accounted.records.bounded other
    · simpa [WorkerRegistry.setWorker, isHere] using accounted.records.bounded other
  · simp only [held, WorkerRegistry.setWorker] at sum balance balanced ⊢
    omega

theorem Accounted.execute (accounted : Accounted erc20 this history) {msg : Msg}
    (outside : msg.sender ≠ this) {call : WorkerCall Ledger} {next : BondHistory Ledger}
    (executed : history.execute erc20 this msg call = .ok next) :
    Accounted erc20 this next := by
  have bounded := accounted.records.bounded
  cases call with
  | setAuthorized caller allowed =>
      simp only [BondHistory.execute, quiet, WorkerRegistry.setAuthorized, bind_ok_iff,
        ensure_ok_iff, pure_ok_iff] at executed
      obtain ⟨registry, ⟨-, -, rfl⟩, rfl⟩ := executed
      have records := accounted.records
      exact ⟨⟨records.once, records.listed, records.bounded⟩, accounted.balance⟩
  | register amount =>
      simp only [BondHistory.execute, withTokens, bind_ok_iff, pure_ok_iff] at executed
      obtain ⟨⟨registry, tokens⟩, called, rfl⟩ := executed
      obtain ⟨new, -, paid, rfl⟩ := register_ok called
      refine ⟨accounted.records.registeredWith new amount.toNat, ?_⟩
      have sum := bonds_registeredWith accounted.records new amount.toNat
      have received := held_received outside paid.1
      have balance := accounted.balance
      simp only [held, registeredWith, WorkerRegistry.setWorker] at sum received balance ⊢
      omega
  | bond amount =>
      simp only [BondHistory.execute, withTokens, bind_ok_iff, pure_ok_iff] at executed
      obtain ⟨⟨registry, tokens⟩, called, rfl⟩ := executed
      obtain ⟨existing, paid, -, rfl⟩ := addBond_ok called
      have received := held_received outside paid.1
      refine accounted.setBond existing ?_
      simp only [held] at received ⊢
      omega
  | unbond amount =>
      simp only [BondHistory.execute, withTokens, bind_ok_iff, pure_ok_iff] at executed
      obtain ⟨⟨registry, tokens⟩, called, rfl⟩ := executed
      obtain ⟨existing, enough, paid, rfl⟩ := unbond_ok called
      have sent := held_sent outside paid.1
      refine accounted.setBond existing ?_
      simp only [held] at sent ⊢
      omega
  | updateReputation worker outcome =>
      simp only [BondHistory.execute, quiet, bind_ok_iff, pure_ok_iff,
        checkedUpdateReputation_eq msg outcome (bounded worker)] at executed
      obtain ⟨registry, called, rfl⟩ := executed
      obtain ⟨-, record, observing, change, rfl⟩ := updateReputation_ok called
      refine accounted.setRecord change ?_
      rw [(observed_ok observing).2]
      exact (applyDecay_counters msg.timestamp _).2.2
  | slash worker reasonCode bpsAmount =>
      simp only [BondHistory.execute, bind_ok_iff, pure_ok_iff] at executed
      obtain ⟨registry, called, rfl⟩ := executed
      obtain ⟨-, existing, bond, smaller, rfl⟩ := slash_ok called
      refine accounted.setBond existing ?_
      simp only [held, WorkerRegistry.setWorker, Function.update_self]
      omega
  | decay worker =>
      simp only [BondHistory.execute, quiet, checkedDecay_eq msg (bounded worker),
        WorkerRegistry.decay, bind_ok_iff, ensure_ok_iff, pure_ok_iff] at executed
      obtain ⟨registry, ⟨-, existing, rfl⟩, rfl⟩ := executed
      exact accounted.setRecord (applyDecay_recordStep msg.timestamp existing)
        (applyDecay_counters msg.timestamp _).2.2
  | token ledger =>
      simp only [BondHistory.execute, bind_ok_iff, ensure_ok_iff, pure_ok_iff] at executed
      obtain ⟨-, kept, rfl⟩ := executed
      refine ⟨accounted.records, ?_⟩
      have balance := accounted.balance
      simp only [held] at kept balance ⊢
      omega

theorem Accounted.step (accounted : Accounted erc20 this history)
    (call : Msg × WorkerCall Ledger) :
    Accounted erc20 this (history.step erc20 this call) := by
  unfold BondHistory.step
  split
  case isTrue => exact accounted
  case isFalse outside =>
    exact settle_induction accounted fun next executed => accounted.execute outside executed

theorem accounted_deployed (erc20 : Erc20 Ledger) (this stakeToken owner : Address)
    (ledger : Ledger) : Accounted erc20 this (deployed erc20 this stakeToken owner ledger) := by
  refine ⟨⟨List.nodup_nil, fun worker => ?_, fun worker => Nat.zero_le _⟩, ?_⟩
  · exact iff_of_false List.not_mem_nil Bool.false_ne_true
  · simp [held, deployed, bonds, WorkerRegistry.deployed]

theorem Accounted.sound (accounted : Accounted erc20 this history) :
    Sound erc20 this history where
  solvent := by
    rw [accounted.balance]
    omega
  accounted none := by
    rw [accounted.balance, none, Nat.add_zero]
  once := accounted.records.once
  listed := accounted.records.listed
  bounded := accounted.records.bounded
  arithmetic worker existing :=
    arithmeticSound_of_bounded (accounted.records.bounded worker) existing

/-- In every history of the registry its stake tokens cover the bonds, nothing but
slashed and donated tokens is left over, each worker is registered once, and the
reputations stay within the scale, where their arithmetic does not fail. -/
theorem bonds_sound (erc20 : Erc20 Ledger) (this stakeToken owner : Address)
    (ledger : Ledger) (calls : List (Msg × WorkerCall Ledger)) :
    ∀ history ∈ GuardedRun.states (step erc20 this)
      (deployed erc20 this stakeToken owner ledger) calls, Sound erc20 this history := by
  intro history member
  refine Accounted.sound ?_
  exact GuardedRun.invariant_of_guarded (step erc20 this) (fun _ _ => True)
    (Accounted erc20 this) (fun _ call accounted _ => accounted.step call)
    (accounted_deployed erc20 this stakeToken owner ledger) (fun _ _ => trivial)
    history member

/-- A worker that bonded twice the minimum is slashed by a tenth. -/
theorem bonds_sound_slashed :
    let tokens : PlainLedger :=
      ⟨fun _ owner => if owner = 3 then 2 * minBond else 0, fun _ _ _ => 2 * minBond⟩
    let calls : List (Msg × WorkerCall PlainLedger) :=
      [(⟨2, 50, 1⟩, .setAuthorized 2 true),
        (⟨3, 100, 1⟩, .register (.ofNat 256 (2 * minBond))),
        (⟨2, 200, 2⟩, .slash 3 0 1000)]
    Sound PlainLedger.erc20 9
      (calls.foldl (step PlainLedger.erc20 9) (deployed PlainLedger.erc20 9 1 2 tokens)) := by
  intro tokens calls
  exact bonds_sound PlainLedger.erc20 9 1 2 tokens calls _
    (GuardedRun.foldl_mem_states _ _)

end BondHistory

end Roko
