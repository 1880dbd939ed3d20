import Roko.GuardedRuns
import Roko.IdentityRegistry

/-!
# What a call of the identity registry does

A call that does not revert has one of a few effects on the registry.  The invariants
of whole histories are derived from these effects alone.
-/

namespace Roko

open Contracts

namespace IdentityRegistry

variable (registry : IdentityRegistry)

/-- The registry after a new passport. -/
def minted (owner : Address) (passport : PassportData) : IdentityRegistry :=
  { registry with
    nextPassportId := registry.nextPassportId + 1
    owners := Function.update registry.owners registry.nextPassportId owner
    balances := Function.update registry.balances owner (registry.balances owner + 1)
    ownerToPassportId :=
      Function.update registry.ownerToPassportId owner registry.nextPassportId
    passports := Function.update registry.passports registry.nextPassportId passport }

/-- The registry after a revocation. -/
def revoked (passportId : Nat) : IdentityRegistry :=
  let owner := registry.owners passportId
  { registry with
    balances := Function.update registry.balances owner (registry.balances owner - 1)
    ownerToPassportId := Function.update registry.ownerToPassportId owner 0
    owners := Function.update registry.owners passportId 0 }

/-- The passport with the tier that its stake earns. -/
def synced (passportId total : Nat) : PassportData :=
  { registry.passports passportId with
    tier := tierFromStake total (registry.passports passportId).tier }

/-- The registry after a change of a stake. -/
def restaked (passportId : Nat) (key : B256) (stakeData : DomainStake) (keys : List B256)
    (total : Nat) : IdentityRegistry :=
  { registry with
    domainStakes := Function.update registry.domainStakes passportId
      (Function.update (registry.domainStakes passportId) key stakeData)
    domainStakeKeys := Function.update registry.domainStakeKeys passportId keys
    totalStakeOf := Function.update registry.totalStakeOf passportId total
    passports := Function.update registry.passports passportId
      (registry.synced passportId total) }

/-- The keys that are listed after a stake. -/
def keysAfterStake (passportId : Nat) (key : B256) : List B256 :=
  if (registry.domainStakes passportId key).domain.length = 0 then
    registry.domainStakeKeys passportId ++ [key]
  else registry.domainStakeKeys passportId

/-- The domain of a record after a stake. -/
def domainAfterStake (passportId : Nat) (key : B256) (domain : Bytes) : Bytes :=
  let stakeData := registry.domainStakes passportId key
  if stakeData.domain.length = 0 then domain else stakeData.domain

variable {registry}

theorem ownerOf_ok_iff {passportId : Nat} {owner : Address} :
    registry.ownerOf passportId = .ok owner ↔
      registry.owners passportId ≠ 0 ∧ registry.owners passportId = owner := by
  simp only [ownerOf, bind_ok_iff, ensure_ok_iff, pure_ok_iff, exists_const]

theorem onlyPassportOwner_ok_iff {msg : Msg} {passportId : Nat} {value : Unit} :
    registry.onlyPassportOwner msg passportId = .ok value ↔
      registry.owners passportId ≠ 0 ∧ registry.owners passportId = msg.sender := by
  simp only [onlyPassportOwner, bind_ok_iff, ownerOf_ok_iff, ensure_ok_iff]
  constructor
  · rintro ⟨owner, ⟨live, rfl⟩, same⟩
    exact ⟨live, same⟩
  · rintro ⟨live, same⟩
    exact ⟨_, ⟨live, rfl⟩, same⟩

theorem mint_ok {owner : Address} {passport : PassportData} {after : IdentityRegistry}
    (called : registry.mint owner passport = .ok after) :
    owner ≠ 0 ∧ registry.ownerToPassportId owner = 0 ∧
      after = registry.minted owner passport := by
  simp only [mint, bind_ok_iff, ensure_ok_iff, checkedAdd_ok_iff, pure_ok_iff] at called
  obtain ⟨-, some, -, new, next, ⟨-, rfl⟩, balance, ⟨-, rfl⟩, rfl⟩ := called
  exact ⟨some, new, rfl⟩

theorem revokePassport_ok {msg : Msg} {passportId : Nat} {after : IdentityRegistry}
    (called : registry.revokePassport msg passportId = .ok after) :
    registry.owners passportId ≠ 0 ∧
      (msg.sender = registry.admin ∨ msg.sender = registry.owners passportId) ∧
      after = registry.revoked passportId := by
  simp only [revokePassport, bind_ok_iff, ensure_ok_iff, checkedSub_ok_iff, pure_ok_iff,
    ownerOf_ok_iff] at called
  obtain ⟨owner, ⟨some, rfl⟩, -, permitted, balance, ⟨-, rfl⟩, rfl⟩ := called
  exact ⟨some, by tauto, rfl⟩

theorem updatePassport_ok {msg : Msg} {passportId : Nat}
    {change : PassportData → PassportData} {after : IdentityRegistry}
    (called : registry.updatePassport msg passportId change = .ok after) :
    registry.owners passportId ≠ 0 ∧
      after = registry.setPassport passportId (change (registry.passports passportId)) := by
  simp only [updatePassport, bind_ok_iff, onlyPassportOwner_ok_iff, pure_ok_iff] at called
  obtain ⟨-, ⟨some, -⟩, rfl⟩ := called
  exact ⟨some, rfl⟩

theorem setTier_ok {passportId newTier : Nat} {after : IdentityRegistry}
    (called : registry.setTier passportId newTier = .ok after) :
    registry.owners passportId ≠ 0 ∧
      after = registry.setPassport passportId
        { registry.passports passportId with tier := newTier } := by
  simp only [setTier, bind_ok_iff, ensure_ok_iff, pure_ok_iff, ownerOf_ok_iff] at called
  obtain ⟨-, ⟨some, -⟩, -, -, rfl⟩ := called
  exact ⟨some, rfl⟩

theorem syncTier_eq (registry : IdentityRegistry) (passportId : Nat) :
    registry.syncTier passportId =
      registry.setPassport passportId
        (registry.synced passportId (registry.totalStakeOf passportId)) := by
  unfold syncTier synced setPassport
  dsimp only
  split
  case isTrue => rfl
  case isFalse same =>
    rw [not_not] at same
    rw [same, Function.update_eq_self]

/-- A scheduled update, or a finalized one. -/
theorem scheduleOrFinalize_ok {timestamp passportId : Nat} {newHash : B256}
    {after : IdentityRegistry}
    (called :
      registry.scheduleOrFinalizePromptUpdate timestamp passportId newHash = .ok after) :
    ((registry.pendingPromptUpdates passportId).newHash ≠ newHash ∧
        after = registry.setPending passportId
          ⟨newHash, toUint64 (timestamp + promptUpdateDelay)⟩) ∨
      (registry.pendingPromptUpdates passportId).newHash = newHash ∧
        (registry.pendingPromptUpdates passportId).executableAt ≤ timestamp ∧
        after = (registry.setPassport passportId
          { registry.passports passportId with systemPromptHash := newHash }).setPending
            passportId noPending := by
  simp only [scheduleOrFinalizePromptUpdate, bind_ok_iff, ensure_ok_iff] at called
  obtain ⟨-, -, called⟩ := called
  split at called
  case isTrue other =>
    simp only [bind_ok_iff, checkedAdd_ok_iff, pure_ok_iff] at called
    obtain ⟨executableAt, ⟨-, rfl⟩, rfl⟩ := called
    exact Or.inl ⟨other, rfl⟩
  case isFalse same =>
    simp only [bind_ok_iff, ensure_ok_iff, pure_ok_iff] at called
    obtain ⟨-, ready, rfl⟩ := called
    exact Or.inr ⟨not_not.mp same, ready, rfl⟩

section Stakes

variable {Ledger : Type} {erc20 : Erc20 Ledger} {keccak256 : Bytes → B256}
  {this : Address} {msg : Msg} {tokens : Tokens Ledger}

theorem listDomain_eq (registry : IdentityRegistry) (passportId : Nat) (key : B256)
    (domain : Bytes) :
    registry.listDomain passportId key domain =
      { registry.setStake passportId key
          { registry.domainStakes passportId key with
            domain := registry.domainAfterStake passportId key domain } with
        domainStakeKeys := Function.update registry.domainStakeKeys passportId
          (registry.keysAfterStake passportId key) } := by
  unfold listDomain domainAfterStake keysAfterStake setStake
  dsimp only
  split
  case isTrue => rfl
  case isFalse => simp only [Function.update_eq_self]

theorem stakeIntoDomain_ok {passportId : Nat} {domain : Bytes} {amount : Nat}
    {after : IdentityRegistry × Tokens Ledger}
    (called : registry.stakeIntoDomain erc20 keccak256 this msg tokens passportId domain
      amount = .ok after) :
    registry.owners passportId ≠ 0 ∧ amount ≠ 0 ∧
      tokens.After erc20 after.2 ⟨registry.stakeToken, msg.sender, this, amount⟩ ∧
      ∃ cooldownEndsAt,
        after.1 = registry.restaked passportId (keccak256 domain)
          ⟨registry.domainAfterStake passportId (keccak256 domain) domain,
            (registry.domainStakes passportId (keccak256 domain)).amount + amount,
            cooldownEndsAt⟩
          (registry.keysAfterStake passportId (keccak256 domain))
          (registry.totalStakeOf passportId + amount) := by
  simp only [stakeIntoDomain, bind_ok_iff, onlyPassportOwner_ok_iff, ensure_ok_iff,
    checkedAdd_ok_iff, pure_ok_iff, listDomain_eq, setStake, Function.update_self] at called
  obtain ⟨-, ⟨some, -⟩, -, positive, -, -, paid, moved, staked, ⟨-, rfl⟩, cooldown,
    ⟨-, rfl⟩, total, ⟨-, rfl⟩, rfl⟩ := called
  refine ⟨some, positive, Tokens.after_transferFrom moved,
    toUint64 (msg.timestamp + withdrawCooldown), ?_⟩
  rw [syncTier_eq]
  simp only [restaked, setPassport, synced, Function.update_self, Function.update_idem]

theorem withdrawFromDomain_ok {passportId : Nat} {domain : Bytes} {amount : Nat}
    {after : IdentityRegistry × Tokens Ledger}
    (called : registry.withdrawFromDomain erc20 keccak256 this msg tokens passportId domain
      amount = .ok after) :
    registry.owners passportId ≠ 0 ∧ amount ≠ 0 ∧
      amount ≤ (registry.domainStakes passportId (keccak256 domain)).amount ∧
      amount ≤ registry.totalStakeOf passportId ∧
      tokens.After erc20 after.2 ⟨registry.stakeToken, this, msg.sender, amount⟩ ∧
      after.1 = registry.restaked passportId (keccak256 domain)
        { registry.domainStakes passportId (keccak256 domain) with
          amount := (registry.domainStakes passportId (keccak256 domain)).amount - amount }
        (registry.domainStakeKeys passportId)
        (registry.totalStakeOf passportId - amount) := by
  simp only [withdrawFromDomain, bind_ok_iff, onlyPassportOwner_ok_iff, ensure_ok_iff,
    checkedSub_ok_iff, pure_ok_iff, setStake] at called
  obtain ⟨-, ⟨some, -⟩, -, positive, -, -, -, enough, -, -, left, ⟨-, rfl⟩, total,
    ⟨bounded, rfl⟩, paid, moved, rfl⟩ := called
  refine ⟨some, positive, enough, bounded, Tokens.after_transfer moved, ?_⟩
  rw [syncTier_eq]
  simp only [restaked, setPassport, synced, Function.update_self, Function.update_eq_self]

end Stakes

end IdentityRegistry

namespace Identity

variable {Ledger : Type}

/-- The passport and hash of a prompt update, under either of its names. -/
def promptUpdate? : IdentityCall Ledger → Option (Nat × B256)
  | .updatePromptHash passportId newHash => some (passportId.toNat, newHash)
  | .updateSystemPromptHash passportId newHash => some (passportId.toNat, newHash)
  | _ => none

/-- What a call that does not revert does. -/
inductive Effect (chain : IdentityChain Ledger) (msg : Msg) (state : Identity Ledger) :
    IdentityCall Ledger → Identity Ledger → Prop
  | setRegistrar {registrar : Address} {allowed : Bool}
      (byAdmin : msg.sender = state.registry.admin) :
      Effect chain msg state (.setRegistrar registrar allowed)
        { state with
          registry := { state.registry with
            registrars := Function.update state.registry.registrars registrar allowed } }
  | registerPassport {owner : Address} {capabilities : UInt64}
      {promptHash attestation : B256} {expiry : UInt64} {passport : PassportData}
      (real : owner ≠ 0) (new : state.registry.ownerToPassportId owner = 0)
      (edge : passport.tier = IdentityRegistry.tierEdge) :
      Effect chain msg state
        (.registerPassport owner capabilities promptHash attestation expiry)
        { state with registry := state.registry.minted owner passport }
  | register {agent : Address} {capabilities : UInt64} {tier : UInt8}
      {promptHash : B256} {uri : Bytes} {passport : PassportData}
      (real : agent ≠ 0) (new : state.registry.ownerToPassportId agent = 0)
      (requested : passport.tier = tier.toNat) :
      Effect chain msg state (.register agent capabilities tier promptHash uri)
        { state with registry := state.registry.minted agent passport }
  | revokePassport {passportId : U256}
      (live : state.registry.owners passportId.toNat ≠ 0) :
      Effect chain msg state (.revokePassport passportId)
        { state with registry := state.registry.revoked passportId.toNat }
  | updatePassport {call : IdentityCall Ledger} {passportId : Nat} {passport : PassportData}
      (quiet : promptUpdate? call = none)
      (live : state.registry.owners passportId ≠ 0)
      (tier : passport.tier = (state.registry.passports passportId).tier)
      (promptHash : passport.systemPromptHash =
        (state.registry.passports passportId).systemPromptHash) :
      Effect chain msg state call
        { state with registry := state.registry.setPassport passportId passport }
  | schedule {call : IdentityCall Ledger} {passportId : Nat} {newHash : B256}
      (update : promptUpdate? call = some (passportId, newHash))
      (live : state.registry.owners passportId ≠ 0)
      (owned : state.registry.owners passportId = msg.sender)
      (other : (state.registry.pendingPromptUpdates passportId).newHash ≠ newHash) :
      Effect chain msg state call
        { state with
          registry := state.registry.setPending passportId
            ⟨newHash, toUint64 (msg.timestamp + IdentityRegistry.promptUpdateDelay)⟩ }
  | finalize {call : IdentityCall Ledger} {passportId : Nat} {newHash : B256}
      (update : promptUpdate? call = some (passportId, newHash))
      (live : state.registry.owners passportId ≠ 0)
      (owned : state.registry.owners passportId = msg.sender)
      (same : (state.registry.pendingPromptUpdates passportId).newHash = newHash)
      (ready : (state.registry.pendingPromptUpdates passportId).executableAt ≤
        msg.timestamp) :
      Effect chain msg state call
        { state with
          registry := (state.registry.setPassport passportId
            { state.registry.passports passportId with
              systemPromptHash := newHash }).setPending passportId
                IdentityRegistry.noPending }
  | stakeIntoDomain {passportId : U256} {domain : Bytes} {amount : U256}
      {tokens : Tokens Ledger} {cooldownEndsAt : Nat}
      (live : state.registry.owners passportId.toNat ≠ 0)
      (paid : state.tokens.After chain.erc20 tokens
        ⟨state.registry.stakeToken, msg.sender, chain.this, amount.toNat⟩) :
      Effect chain msg state (.stakeIntoDomain passportId domain amount)
        ⟨state.registry.restaked passportId.toNat (chain.keccak256 domain)
          ⟨state.registry.domainAfterStake passportId.toNat (chain.keccak256 domain) domain,
            (state.registry.domainStakes passportId.toNat
              (chain.keccak256 domain)).amount + amount.toNat,
            cooldownEndsAt⟩
          (state.registry.keysAfterStake passportId.toNat (chain.keccak256 domain))
          (state.registry.totalStakeOf passportId.toNat + amount.toNat), tokens⟩
  | withdrawFromDomain {passportId : U256} {domain : Bytes} {amount : U256}
      {tokens : Tokens Ledger}
      (live : state.registry.owners passportId.toNat ≠ 0)
      (positive : amount.toNat ≠ 0)
      (enough : amount.toNat ≤ (state.registry.domainStakes passportId.toNat
        (chain.keccak256 domain)).amount)
      (bounded : amount.toNat ≤ state.registry.totalStakeOf passportId.toNat)
      (paid : state.tokens.After chain.erc20 tokens
        ⟨state.registry.stakeToken, chain.this, msg.sender, amount.toNat⟩) :
      Effect chain msg state (.withdrawFromDomain passportId domain amount)
        ⟨state.registry.restaked passportId.toNat (chain.keccak256 domain)
          { state.registry.domainStakes passportId.toNat (chain.keccak256 domain) with
            amount := (state.registry.domainStakes passportId.toNat
              (chain.keccak256 domain)).amount - amount.toNat }
          (state.registry.domainStakeKeys passportId.toNat)
          (state.registry.totalStakeOf passportId.toNat - amount.toNat), tokens⟩
  | setTier {call : IdentityCall Ledger} {passportId newTier : Nat}
      (quiet : promptUpdate? call = none)
      (byAdmin : msg.sender = state.registry.admin)
      (live : state.registry.owners passportId ≠ 0) :
      Effect chain msg state call
        { state with
          registry := state.registry.setPassport passportId
            { state.registry.passports passportId with tier := newTier } }
  | token {ledger : Ledger}
      (kept : chain.erc20.balanceOf state.tokens.ledger state.registry.stakeToken
          chain.this ≤
        chain.erc20.balanceOf ledger state.registry.stakeToken chain.this) :
      Effect chain msg state (.token ledger)
        { state with tokens := { state.tokens with ledger } }

variable {chain : IdentityChain Ledger} {msg : Msg} {state after : Identity Ledger}

theorem quiet_ok {call : Except Revert IdentityRegistry} :
    state.quiet call = .ok after ↔
      ∃ registry, call = .ok registry ∧ after = { state with registry } := by
  simp only [quiet, bind_ok_iff, pure_ok_iff, eq_comm (a := after)]

theorem ofPair_ok {call : Except Revert (IdentityRegistry × Tokens Ledger)} :
    ofPair call = .ok after ↔ ∃ pair, call = .ok pair ∧ after = ⟨pair.1, pair.2⟩ := by
  simp only [ofPair, bind_ok_iff, pure_ok_iff, eq_comm (a := after)]

/-- An update of the owner's that changes neither the tier nor the prompt hash. -/
theorem effect_of_update {call : IdentityCall Ledger} {passportId : Nat}
    {change : PassportData → PassportData}
    (executed : state.quiet (state.registry.updatePassport msg passportId change) =
      .ok after)
    (quiet : promptUpdate? call = none)
    (tier : ∀ passport, (change passport).tier = passport.tier)
    (promptHash : ∀ passport,
      (change passport).systemPromptHash = passport.systemPromptHash) :
    Effect chain msg state call after := by
  obtain ⟨registry, called, rfl⟩ := quiet_ok.mp executed
  obtain ⟨live, rfl⟩ := IdentityRegistry.updatePassport_ok called
  exact .updatePassport quiet live (tier _) (promptHash _)

theorem effect_of_promptUpdate {call : IdentityCall Ledger} {passportId : Nat}
    {newHash : B256} (update : promptUpdate? call = some (passportId, newHash))
    {registry : IdentityRegistry}
    (called : (do
        state.registry.onlyPassportOwner msg passportId
        state.registry.scheduleOrFinalizePromptUpdate msg.timestamp passportId newHash) =
      .ok registry) :
    Effect chain msg state call { state with registry } := by
  simp only [bind_ok_iff, IdentityRegistry.onlyPassportOwner_ok_iff] at called
  obtain ⟨-, ⟨live, owned⟩, updated⟩ := called
  rcases IdentityRegistry.scheduleOrFinalize_ok updated with
    ⟨other, rfl⟩ | ⟨same, ready, rfl⟩
  · exact .schedule update live owned other
  · exact .finalize update live owned same ready

theorem effect_of_execute {call : IdentityCall Ledger}
    (executed : state.execute chain msg call = .ok after) :
    Effect chain msg state call after := by
  cases call with
  | setRegistrar registrar allowed =>
      obtain ⟨registry, called, rfl⟩ := quiet_ok.mp executed
      simp only [IdentityRegistry.setRegistrar, IdentityRegistry.onlyAdmin, bind_ok_iff,
        ensure_ok_iff, pure_ok_iff] at called
      obtain ⟨-, byAdmin, rfl⟩ := called
      exact .setRegistrar byAdmin
  | registerPassport owner capabilities promptHash attestation expiry =>
      obtain ⟨registry, called, rfl⟩ := quiet_ok.mp executed
      simp only [IdentityRegistry.registerPassport, bind_ok_iff, ensure_ok_iff] at called
      obtain ⟨-, -, called⟩ := called
      obtain ⟨real, new, rfl⟩ := IdentityRegistry.mint_ok called
      exact .registerPassport real new rfl
  | register agent capabilities tier promptHash uri =>
      obtain ⟨registry, called, rfl⟩ := quiet_ok.mp executed
      simp only [IdentityRegistry.register, bind_ok_iff, ensure_ok_iff] at called
      obtain ⟨-, -, -, -, called⟩ := called
      obtain ⟨real, new, rfl⟩ := IdentityRegistry.mint_ok called
      exact .register real new rfl
  | revokePassport passportId =>
      obtain ⟨registry, called, rfl⟩ := quiet_ok.mp executed
      obtain ⟨live, -, rfl⟩ := IdentityRegistry.revokePassport_ok called
      exact .revokePassport live
  | updateCapabilities passportId newCapabilities =>
      exact effect_of_update executed rfl (fun _ => rfl) (fun _ => rfl)
  | updatePromptHash passportId newHash =>
      obtain ⟨registry, called, rfl⟩ := quiet_ok.mp executed
      exact effect_of_promptUpdate rfl called
  | updateSystemPromptHash passportId newHash =>
      obtain ⟨registry, called, rfl⟩ := quiet_ok.mp executed
      exact effect_of_promptUpdate rfl called
  | updateAttestation passportId attestationHash expiry =>
      exact effect_of_update executed rfl (fun _ => rfl) (fun _ => rfl)
  | updateTeeAttestation passportId attestationHash =>
      exact effect_of_update executed rfl (fun _ => rfl) (fun _ => rfl)
  | updateAgentCardUri passportId newUri =>
      exact effect_of_update executed rfl (fun _ => rfl) (fun _ => rfl)
  | stakeIntoDomain passportId domain amount =>
      obtain ⟨⟨registry, tokens⟩, called, rfl⟩ := ofPair_ok.mp executed
      obtain ⟨live, -, paid, cooldown, staked⟩ :=
        IdentityRegistry.stakeIntoDomain_ok called
      dsimp only at staked paid
      subst registry
      exact .stakeIntoDomain live paid
  | withdrawFromDomain passportId domain amount =>
      obtain ⟨⟨registry, tokens⟩, called, rfl⟩ := ofPair_ok.mp executed
      obtain ⟨live, positive, enough, bounded, paid, withdrawn⟩ :=
        IdentityRegistry.withdrawFromDomain_ok called
      dsimp only at withdrawn paid
      subst registry
      exact .withdrawFromDomain live positive enough bounded paid
  | demoteTier passportId =>
      obtain ⟨registry, called, rfl⟩ := quiet_ok.mp executed
      simp only [IdentityRegistry.demoteTier, IdentityRegistry.onlyAdmin, bind_ok_iff,
        ensure_ok_iff] at called
      obtain ⟨-, byAdmin, called⟩ := called
      obtain ⟨live, rfl⟩ := IdentityRegistry.setTier_ok called
      exact .setTier rfl byAdmin live
  | demoteTierTo passportId newTier =>
      obtain ⟨registry, called, rfl⟩ := quiet_ok.mp executed
      simp only [IdentityRegistry.demoteTierTo, IdentityRegistry.onlyAdmin, bind_ok_iff,
        ensure_ok_iff] at called
      obtain ⟨-, byAdmin, -, -, called⟩ := called
      obtain ⟨live, rfl⟩ := IdentityRegistry.setTier_ok called
      exact .setTier rfl byAdmin live
  | token ledger =>
      simp only [execute, bind_ok_iff, ensure_ok_iff, pure_ok_iff] at executed
      obtain ⟨-, kept, rfl⟩ := executed
      exact .token kept

/-- A step changes nothing, or is a call by an outside account that has an effect. -/
theorem step_cases (chain : IdentityChain Ledger) (state : Identity Ledger)
    (call : Msg × IdentityCall Ledger) :
    state.step chain call = state ∨
      call.1.sender ≠ chain.this ∧
        Effect chain call.1 state call.2 (state.step chain call) := by
  unfold step
  split
  case isTrue => exact Or.inl rfl
  case isFalse outside =>
    cases executed : state.execute chain call.1 call.2 with
    | error revert => exact Or.inl rfl
    | ok after => exact Or.inr ⟨outside, effect_of_execute executed⟩

end Identity

end Roko
