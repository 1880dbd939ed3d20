import Roko.IdentityEffects

/-!
# The tiers of passports

A passport is meant to have the tier that its stake earns.  Of the two ways to
register, one takes the tier from its caller: everybody may register themselves, so the
tiers are the earned ones exactly as long as nobody asks for another.
-/

namespace Roko

open Contracts

namespace IdentityRegistry

/-- The tier that a stake earns. -/
def earnedTier (total : Nat) : Nat :=
  if sovereignStakeThreshold ≤ total then tierSovereign
  else if workerStakeThreshold ≤ total then tierWorker
  else tierEdge

/-- Every passport with an owner has the tier that its stake earns. -/
def TiersEarned (registry : IdentityRegistry) : Prop :=
  ∀ passportId, registry.owners passportId ≠ 0 →
    (registry.passports passportId).tier = earnedTier (registry.totalStakeOf passportId)

/-- Ids that were not given out have no owner and no stake. -/
def Fresh (registry : IdentityRegistry) : Prop :=
  ∀ passportId, registry.nextPassportId ≤ passportId →
    registry.owners passportId = 0 ∧ registry.totalStakeOf passportId = 0

theorem earnedTier_ne_protocol (total : Nat) : earnedTier total ≠ tierProtocol := by
  unfold earnedTier
  split
  · decide
  · split <;> decide

theorem earnedTier_zero : earnedTier 0 = tierEdge :=
  rfl

theorem tierFromStake_of_ne {total tier : Nat} (unprotected : tier ≠ tierProtocol) :
    tierFromStake total tier = earnedTier total := by
  rw [tierFromStake, if_neg unprotected, earnedTier]

variable {registry : IdentityRegistry}

theorem Fresh.lt_of_live (fresh : registry.Fresh) {passportId : Nat}
    (live : registry.owners passportId ≠ 0) : passportId < registry.nextPassportId := by
  by_contra unused
  exact live (fresh passportId (by omega)).1

theorem Fresh.minted (fresh : registry.Fresh) (owner : Address) (passport : PassportData) :
    (registry.minted owner passport).Fresh := by
  intro passportId unused
  dsimp only [IdentityRegistry.minted] at unused ⊢
  rw [Function.update_of_ne (by omega)]
  exact fresh passportId (by omega)

theorem Fresh.revoked (fresh : registry.Fresh) (passportId : Nat) :
    (registry.revoked passportId).Fresh := by
  intro other unused
  obtain ⟨noOwner, noStake⟩ := fresh other unused
  refine ⟨?_, noStake⟩
  dsimp only [IdentityRegistry.revoked]
  rw [Function.update_apply]
  split
  · rfl
  · exact noOwner

theorem Fresh.restaked (fresh : registry.Fresh) {passportId : Nat}
    (live : registry.owners passportId ≠ 0) (key : B256) (stakeData : DomainStake)
    (keys : List B256) (total : Nat) :
    (registry.restaked passportId key stakeData keys total).Fresh := by
  intro other unused
  have given := fresh.lt_of_live live
  dsimp only [IdentityRegistry.restaked] at unused ⊢
  rw [Function.update_of_ne (by omega)]
  exact fresh other unused

/-- A new passport keeps the tiers earned exactly when it starts at the lowest one. -/
theorem tiersEarned_minted_iff (earned : registry.TiersEarned) (fresh : registry.Fresh)
    {owner : Address} (real : owner ≠ 0) (passport : PassportData) :
    (registry.minted owner passport).TiersEarned ↔ passport.tier = tierEdge := by
  constructor
  · intro kept
    have newest := kept registry.nextPassportId
      (by simpa only [minted, Function.update_self] using real)
    simpa only [minted, Function.update_self, (fresh _ le_rfl).2, earnedTier_zero]
      using newest
  · intro edge passportId live
    by_cases new : passportId = registry.nextPassportId
    · subst passportId
      simp only [minted, Function.update_self, edge, (fresh _ le_rfl).2, earnedTier_zero]
    · simp only [minted, Function.update_of_ne new] at live ⊢
      exact earned passportId live

theorem TiersEarned.revoked (earned : registry.TiersEarned) (passportId : Nat) :
    (registry.revoked passportId).TiersEarned := by
  intro other live
  refine earned other ?_
  dsimp only [IdentityRegistry.revoked] at live
  by_cases same : other = passportId
  · rw [same, Function.update_self] at live
    exact absurd rfl live
  · rwa [Function.update_of_ne same] at live

theorem TiersEarned.setPassport (earned : registry.TiersEarned) {passportId : Nat}
    {passport : PassportData}
    (tier : passport.tier = (registry.passports passportId).tier) :
    (registry.setPassport passportId passport).TiersEarned := by
  intro other live
  dsimp only [IdentityRegistry.setPassport] at live ⊢
  by_cases same : other = passportId
  · rw [same, Function.update_self, tier]
    exact earned passportId (same ▸ live)
  · rw [Function.update_of_ne same]
    exact earned other live

theorem TiersEarned.setPending (earned : registry.TiersEarned) (passportId : Nat)
    (pending : PendingPromptUpdate) : (registry.setPending passportId pending).TiersEarned :=
  earned

theorem TiersEarned.restaked (earned : registry.TiersEarned) {passportId : Nat}
    (owned : registry.owners passportId ≠ 0) (key : B256) (stakeData : DomainStake)
    (keys : List B256) (total : Nat) :
    (registry.restaked passportId key stakeData keys total).TiersEarned := by
  intro other live
  dsimp only [IdentityRegistry.restaked] at live ⊢
  by_cases same : other = passportId
  · subst other
    rw [Function.update_self, Function.update_self, synced, earned passportId owned,
      tierFromStake_of_ne (earnedTier_ne_protocol _)]
  · rw [Function.update_of_ne same, Function.update_of_ne same]
    exact earned other live

end IdentityRegistry

namespace Identity

open IdentityRegistry

variable {Ledger : Type} {chain : IdentityChain Ledger} {msg : Msg}
  {state after : Identity Ledger} {call : IdentityCall Ledger}

theorem fresh_effect (fresh : state.registry.Fresh)
    (effect : Effect chain msg state call after) : after.registry.Fresh := by
  cases effect with
  | setRegistrar => exact fresh
  | registerPassport => exact fresh.minted _ _
  | register => exact fresh.minted _ _
  | revokePassport => exact fresh.revoked _
  | updatePassport => exact fresh
  | schedule => exact fresh
  | finalize => exact fresh
  | stakeIntoDomain live => exact fresh.restaked live _ _ _ _
  | withdrawFromDomain live => exact fresh.restaked live _ _ _ _
  | setTier => exact fresh
  | token => exact fresh

theorem fresh_step (fresh : state.registry.Fresh) (call : Msg × IdentityCall Ledger) :
    (state.step chain call).registry.Fresh := by
  rcases step_cases chain state call with same | ⟨-, effect⟩
  · rwa [same]
  · exact fresh_effect fresh effect

/-- The sender is neither the admin nor a registrar. -/
def Unprivileged (state : Identity Ledger) (call : Msg × IdentityCall Ledger) : Prop :=
  call.1.sender ≠ state.registry.admin ∧
    state.registry.registrars call.1.sender = false

/-- A `register` call of the sender goes through. -/
def Registers (chain : IdentityChain Ledger) (state : Identity Ledger) (msg : Msg)
    (agent : Address) (tier : UInt8) : Prop :=
  msg.sender ≠ chain.this ∧ state.registry.isRegistrarFor msg.sender agent ∧
    tier.toNat ≤ tierEdge ∧ agent ≠ 0 ∧ state.registry.ownerToPassportId agent = 0 ∧
    state.registry.nextPassportId + 1 < 2 ^ 256 ∧ state.registry.balances agent + 1 < 2 ^ 256

/-- A `register` call that goes through asks for the lowest tier. -/
def AsksForEdge (chain : IdentityChain Ledger) (state : Identity Ledger) :
    Msg × IdentityCall Ledger → Prop
  | (msg, .register agent _ tier _ _) =>
      Registers chain state msg agent tier → tier.toNat = tierEdge
  | _ => True

theorem registers_of_execute {agent : Address} {capabilities : UInt64} {tier : UInt8}
    {promptHash : B256} {uri : Bytes} (outside : msg.sender ≠ chain.this)
    (executed : state.execute chain msg
      (.register agent capabilities tier promptHash uri) = .ok after) :
    Registers chain state msg agent tier := by
  simp only [execute, quiet, register, mint, bind_ok_iff, ensure_ok_iff,
    checkedAdd_ok_iff] at executed
  obtain ⟨registry, ⟨-, permitted, -, bounded, -, real, -, new, next, ⟨nextFits, -⟩,
    balance, ⟨balanceFits, -⟩, -⟩, -⟩ := executed
  exact ⟨outside, permitted, bounded, real, new, nextFits, balanceFits⟩

theorem step_of_registers {agent : Address} {capabilities : UInt64} {tier : UInt8}
    {promptHash : B256} {uri : Bytes} (registers : Registers chain state msg agent tier) :
    (state.step chain (msg, .register agent capabilities tier promptHash uri)).registry =
      state.registry.minted agent
        ⟨capabilities, tier.toNat, promptHash, 0, 0, toUint64 msg.number, uri⟩ := by
  obtain ⟨outside, permitted, bounded, real, new, nextFits, balanceFits⟩ := registers
  simp only [step, if_neg outside, execute, quiet, register, mint, ensure, permitted,
    if_true, bounded, real, ne_eq, not_false_eq_true, new, checkedAdd, nextFits,
    balanceFits]
  rfl

theorem tiersEarned_step (earned : state.registry.TiersEarned)
    (fresh : state.registry.Fresh) {call : Msg × IdentityCall Ledger}
    (unprivileged : Unprivileged state call) (edge : AsksForEdge chain state call) :
    (state.step chain call).registry.TiersEarned := by
  obtain ⟨msg, call⟩ := call
  unfold step
  split
  case isTrue => exact earned
  case isFalse outside =>
    cases executed : state.execute chain msg call with
    | error revert => exact earned
    | ok after =>
        rw [settle_ok]
        cases effect_of_execute executed with
        | setRegistrar => exact earned
        | registerPassport real _ lowest =>
            exact (tiersEarned_minted_iff earned fresh real _).mpr lowest
        | register real _ requested =>
            refine (tiersEarned_minted_iff earned fresh real _).mpr ?_
            rw [requested]
            exact edge (registers_of_execute outside executed)
        | revokePassport => exact earned.revoked _
        | updatePassport _ _ tier => exact earned.setPassport tier
        | schedule => exact earned
        | finalize =>
            refine TiersEarned.setPending ?_ _ _
            exact earned.setPassport rfl
        | stakeIntoDomain live => exact earned.restaked live _ _ _ _
        | withdrawFromDomain live => exact earned.restaked live _ _ _ _
        | setTier _ byAdmin => exact absurd byAdmin unprivileged.1
        | token => exact earned

theorem asksForEdge_of_kept {call : Msg × IdentityCall Ledger}
    (earned : state.registry.TiersEarned) (fresh : state.registry.Fresh)
    (kept : (state.step chain call).registry.TiersEarned) :
    AsksForEdge chain state call := by
  obtain ⟨msg, call⟩ := call
  cases call with
  | register agent capabilities tier promptHash uri =>
      intro registers
      rw [step_of_registers registers] at kept
      exact (tiersEarned_minted_iff earned fresh registers.2.2.2.1 _).mp kept
  | _ => trivial

/-- In a history of unprivileged calls every live passport has the tier that its stake
earns exactly when every registration that goes through asks for the lowest tier. -/
theorem tiers_earned_iff (chain : IdentityChain Ledger)
    (initialAdmin stakeToken sender : Address) (ledger : Ledger)
    (calls : List (Msg × IdentityCall Ledger))
    (unprivileged : GuardedRun.Guarded (step chain) Unprivileged
      (deployed initialAdmin stakeToken sender ledger) calls) :
    (∀ state ∈ GuardedRun.states (step chain)
        (deployed initialAdmin stakeToken sender ledger) calls,
      state.registry.TiersEarned) ↔
      GuardedRun.Guarded (step chain) (AsksForEdge chain)
        (deployed initialAdmin stakeToken sender ledger) calls := by
  have initialFresh :
      (deployed initialAdmin stakeToken sender ledger).registry.Fresh :=
    fun passportId _ => ⟨rfl, rfl⟩
  have fresh : ∀ state ∈ GuardedRun.states (step chain)
      (deployed initialAdmin stakeToken sender ledger) calls, state.registry.Fresh :=
    GuardedRun.invariant_of_preserved (step chain) (fun state => state.registry.Fresh)
      (fun state call holds => fresh_step holds call) calls initialFresh
  constructor
  · intro earned pair member
    have visited := GuardedRun.mem_states_of_mem_steps member
    exact asksForEdge_of_kept (earned _ visited.1) (fresh _ visited.1) (earned _ visited.2)
  · intro edge
    have both := GuardedRun.invariant_of_guarded (step chain)
      (fun state call => Unprivileged state call ∧ AsksForEdge chain state call)
      (fun state => state.registry.TiersEarned ∧ state.registry.Fresh)
      (fun state call holds guard =>
        ⟨tiersEarned_step holds.1 holds.2 guard.1 guard.2, fresh_step holds.2 call⟩)
      ⟨fun passportId live => absurd rfl live, initialFresh⟩
      (fun pair member => ⟨unprivileged pair member, edge pair member⟩)
    exact fun state member => (both state member).1

/-- A newly deployed registry at address 9, with admin 1 and a token at address 2. -/
def exampleChain : IdentityChain PlainLedger :=
  ⟨PlainLedger.erc20, fun domain => ofBytes 256 domain, 9⟩

def exampleStart : Identity PlainLedger :=
  deployed 1 2 1 ⟨fun _ _ => 10 ^ 24, fun _ _ _ => 10 ^ 24⟩

theorem tiers_earned_self_registered :
    (exampleStart.step exampleChain (⟨3, 0, 0⟩, .register 3 0 3 0 [])).registry.owners 1 =
        3 ∧
      ∀ state ∈ GuardedRun.states (step exampleChain) exampleStart
          [(⟨3, 0, 0⟩, .register 3 0 3 0 [])],
        state.registry.TiersEarned :=
  ⟨by decide, (tiers_earned_iff exampleChain 1 2 1 _ [(⟨3, 0, 0⟩, .register 3 0 3 0 [])]
    ((GuardedRun.guarded_cons _ _ _).mpr
      ⟨⟨by decide, rfl⟩, GuardedRun.guarded_nil _⟩)).mpr
    ((GuardedRun.guarded_cons _ _ _).mpr ⟨fun _ => rfl, GuardedRun.guarded_nil _⟩)⟩

/-- Without any stake an unprivileged account registers itself at the protocol tier. -/
theorem protocol_tier_self_registered :
    let call : Msg × IdentityCall PlainLedger := (⟨3, 0, 0⟩, .register 3 0 0 0 [])
    let state := exampleStart.step exampleChain call
    (call.1.sender ≠ exampleStart.registry.admin ∧
        exampleStart.registry.registrars call.1.sender = false) ∧
      state.registry.owners 1 = 3 ∧
      (state.registry.passports 1).tier = tierProtocol ∧
      state.registry.totalStakeOf 1 = 0 ∧ earnedTier 0 = tierEdge := by
  decide

end Identity

end Roko
