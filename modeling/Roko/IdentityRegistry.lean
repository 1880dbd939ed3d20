import Roko.Contracts

/-!
# The identity registry

`IdentityRegistry.sol`: soulbound passports with a tier, a system prompt hash that
changes after a delay, and stakes in domains.  A string is the list of its bytes.
-/

namespace Roko

open Contracts

structure PassportData where
  capabilityList : UInt64
  tier : Nat
  systemPromptHash : B256
  teeAttestation : B256
  teeExpiry : UInt64
  registeredBlock : Nat
  agentCardUri : Bytes
  deriving DecidableEq, Repr

structure PendingPromptUpdate where
  newHash : B256
  executableAt : Nat
  deriving DecidableEq, Repr

structure DomainStake where
  domain : Bytes
  amount : Nat
  cooldownEndsAt : Nat
  deriving DecidableEq, Repr

structure IdentityRegistry where
  admin : Address
  stakeToken : Address
  registrars : Address → Bool
  passports : Nat → PassportData
  ownerToPassportId : Address → Nat
  pendingPromptUpdates : Nat → PendingPromptUpdate
  totalStakeOf : Nat → Nat
  owners : Nat → Address
  balances : Address → Nat
  domainStakes : Nat → B256 → DomainStake
  domainStakeKeys : Nat → List B256
  nextPassportId : Nat

namespace IdentityRegistry

def tierProtocol : Nat := 0

def tierSovereign : Nat := 1

def tierWorker : Nat := 2

def tierEdge : Nat := 3

/-- 1 day. -/
def promptUpdateDelay : Nat := 24 * 60 * 60

/-- 7 days. -/
def withdrawCooldown : Nat := 7 * 24 * 60 * 60

def workerStakeThreshold : Nat := 5_000 * 10 ^ 18

def sovereignStakeThreshold : Nat := 25_000 * 10 ^ 18

/-- What the mappings hold for a key that was never written. -/
def noPassport : PassportData := ⟨0, 0, 0, 0, 0, 0, []⟩

def noPending : PendingPromptUpdate := ⟨0, 0⟩

def noStake : DomainStake := ⟨[], 0, 0⟩

/-- `constructor(initialAdmin, stakeToken_)`, called by `sender`. -/
def deployed (initialAdmin stakeToken sender : Address) : IdentityRegistry :=
  let admin := if initialAdmin = 0 then sender else initialAdmin
  { admin
    stakeToken
    registrars := Function.update (fun _ => false) admin true
    passports := fun _ => noPassport
    ownerToPassportId := fun _ => 0
    pendingPromptUpdates := fun _ => noPending
    totalStakeOf := fun _ => 0
    owners := fun _ => 0
    balances := fun _ => 0
    domainStakes := fun _ _ => noStake
    domainStakeKeys := fun _ => []
    nextPassportId := 1 }

variable (registry : IdentityRegistry)

def ownerOf (passportId : Nat) : Except Revert Address := do
  ensure (registry.owners passportId ≠ 0) .nonexistentPassport
  pure (registry.owners passportId)

def getDomainStakes (passportId : Nat) : Except Revert (List DomainStake) := do
  let _ ← registry.ownerOf passportId
  pure ((registry.domainStakeKeys passportId).map (registry.domainStakes passportId))

def getTier (passportId : Nat) : Except Revert Nat := do
  let _ ← registry.ownerOf passportId
  pure (registry.passports passportId).tier

/-- `_isRegistrarFor`. -/
def isRegistrarFor (sender owner : Address) : Bool :=
  sender = owner || sender = registry.admin || registry.registrars sender

/-- `_tierFromStake`. -/
def tierFromStake (totalStake currentTier : Nat) : Nat :=
  if currentTier = tierProtocol then tierProtocol
  else if sovereignStakeThreshold ≤ totalStake then tierSovereign
  else if workerStakeThreshold ≤ totalStake then tierWorker
  else tierEdge

def setPassport (passportId : Nat) (passport : PassportData) : IdentityRegistry :=
  { registry with passports := Function.update registry.passports passportId passport }

def onlyAdmin (msg : Msg) : Except Revert Unit :=
  ensure (msg.sender = registry.admin) .notAdmin

def onlyPassportOwner (msg : Msg) (passportId : Nat) : Except Revert Unit := do
  let owner ← registry.ownerOf passportId
  ensure (owner = msg.sender) .notPassportOwner

def setRegistrar (msg : Msg) (registrar : Address) (allowed : Bool) :
    Except Revert IdentityRegistry := do
  registry.onlyAdmin msg
  pure { registry with
    registrars := Function.update registry.registrars registrar allowed }

/-- `_register`. -/
def mint (owner : Address) (passport : PassportData) : Except Revert IdentityRegistry := do
  ensure (owner ≠ 0) .nonexistentPassport
  ensure (registry.ownerToPassportId owner = 0) .alreadyRegistered
  let passportId := registry.nextPassportId
  let nextPassportId ← checkedAdd 256 passportId 1
  let balance ← checkedAdd 256 (registry.balances owner) 1
  pure
    { registry with
      nextPassportId
      owners := Function.update registry.owners passportId owner
      balances := Function.update registry.balances owner balance
      ownerToPassportId := Function.update registry.ownerToPassportId owner passportId
      passports := Function.update registry.passports passportId passport }

def registerPassport (msg : Msg) (owner : Address) (capabilityBitmask : UInt64)
    (systemPromptHash teeAttestation : B256) (teeExpiry : UInt64) :
    Except Revert IdentityRegistry := do
  ensure (registry.isRegistrarFor msg.sender owner) .notAuthorizedRegistrar
  registry.mint owner
    { capabilityList := capabilityBitmask
      tier := tierFromStake 0 tierEdge
      systemPromptHash
      teeAttestation
      teeExpiry
      registeredBlock := toUint64 msg.number
      agentCardUri := [] }

def register (msg : Msg) (agent : Address) (capabilityList : UInt64) (tier : Nat)
    (systemPromptHash : B256) (agentCardUri : Bytes) : Except Revert IdentityRegistry := do
  ensure (registry.isRegistrarFor msg.sender agent) .notAuthorizedRegistrar
  ensure (tier ≤ tierEdge) .invalidTier
  registry.mint agent
    { capabilityList
      tier
      systemPromptHash
      teeAttestation := 0
      teeExpiry := 0
      registeredBlock := toUint64 msg.number
      agentCardUri }

def revokePassport (msg : Msg) (passportId : Nat) : Except Revert IdentityRegistry := do
  let owner ← registry.ownerOf passportId
  ensure (¬ (msg.sender ≠ registry.admin ∧ msg.sender ≠ owner)) .notPassportOwner
  let balance ← checkedSub (registry.balances owner) 1
  pure
    { registry with
      balances := Function.update registry.balances owner balance
      ownerToPassportId := Function.update registry.ownerToPassportId owner 0
      owners := Function.update registry.owners passportId 0 }

/-- A change of the caller's own passport.  The setters of the contract are instances. -/
def updatePassport (msg : Msg) (passportId : Nat) (change : PassportData → PassportData) :
    Except Revert IdentityRegistry := do
  registry.onlyPassportOwner msg passportId
  pure (registry.setPassport passportId (change (registry.passports passportId)))

def updateCapabilities (msg : Msg) (passportId : Nat) (newCapabilities : UInt64) :
    Except Revert IdentityRegistry :=
  registry.updatePassport msg passportId fun passport =>
    { passport with capabilityList := newCapabilities }

def updateAttestation (msg : Msg) (passportId : Nat) (attestationHash : B256)
    (expiry : UInt64) : Except Revert IdentityRegistry :=
  registry.updatePassport msg passportId fun passport =>
    { passport with teeAttestation := attestationHash, teeExpiry := expiry }

def updateTeeAttestation (msg : Msg) (passportId : Nat) (attestationHash : B256) :
    Except Revert IdentityRegistry :=
  registry.updatePassport msg passportId fun passport =>
    { passport with teeAttestation := attestationHash }

def updateAgentCardUri (msg : Msg) (passportId : Nat) (newUri : Bytes) :
    Except Revert IdentityRegistry :=
  registry.updatePassport msg passportId fun passport =>
    { passport with agentCardUri := newUri }

def setPending (passportId : Nat) (pending : PendingPromptUpdate) : IdentityRegistry :=
  { registry with
    pendingPromptUpdates :=
      Function.update registry.pendingPromptUpdates passportId pending }

/-- `_scheduleOrFinalizePromptUpdate`. -/
def scheduleOrFinalizePromptUpdate (timestamp : Nat) (passportId : Nat) (newHash : B256) :
    Except Revert IdentityRegistry := do
  let passport := registry.passports passportId
  ensure (passport.systemPromptHash ≠ newHash) .noChange
  let pending := registry.pendingPromptUpdates passportId
  if pending.newHash ≠ newHash then
    let executableAt ← checkedAdd 256 timestamp promptUpdateDelay
    pure (registry.setPending passportId ⟨newHash, toUint64 executableAt⟩)
  else
    ensure (pending.executableAt ≤ timestamp) .promptUpdateNotReady
    let registry :=
      registry.setPassport passportId { passport with systemPromptHash := newHash }
    -- `delete pendingPromptUpdates[passportId]`
    pure (registry.setPending passportId noPending)

def updatePromptHash (msg : Msg) (passportId : Nat) (newHash : B256) :
    Except Revert IdentityRegistry := do
  registry.onlyPassportOwner msg passportId
  registry.scheduleOrFinalizePromptUpdate msg.timestamp passportId newHash

def updateSystemPromptHash (msg : Msg) (passportId : Nat) (newHash : B256) :
    Except Revert IdentityRegistry := do
  registry.onlyPassportOwner msg passportId
  registry.scheduleOrFinalizePromptUpdate msg.timestamp passportId newHash

/-- `_syncTier`. -/
def syncTier (passportId : Nat) : IdentityRegistry :=
  let passport := registry.passports passportId
  let newTier := tierFromStake (registry.totalStakeOf passportId) passport.tier
  if newTier ≠ passport.tier then
    registry.setPassport passportId { passport with tier := newTier }
  else registry

/-- `_setTier`. -/
def setTier (passportId newTier : Nat) : Except Revert IdentityRegistry := do
  let _ ← registry.ownerOf passportId
  let passport := registry.passports passportId
  ensure (passport.tier ≠ newTier) .noChange
  pure (registry.setPassport passportId { passport with tier := newTier })

def demoteTier (msg : Msg) (passportId : Nat) : Except Revert IdentityRegistry := do
  registry.onlyAdmin msg
  registry.setTier passportId tierEdge

/-- The overload `demoteTier(passportId, newTier)`. -/
def demoteTierTo (msg : Msg) (passportId newTier : Nat) : Except Revert IdentityRegistry := do
  registry.onlyAdmin msg
  ensure (newTier ≤ tierEdge) .invalidTier
  registry.setTier passportId newTier

def setStake (passportId : Nat) (key : B256) (stakeData : DomainStake) :
    IdentityRegistry :=
  { registry with
    domainStakes := Function.update registry.domainStakes passportId
      (Function.update (registry.domainStakes passportId) key stakeData) }

/-- The registry after `if (bytes(stakeData.domain).length == 0) …`. -/
def listDomain (passportId : Nat) (key : B256) (domain : Bytes) : IdentityRegistry :=
  let stakeData := registry.domainStakes passportId key
  if stakeData.domain.length = 0 then
    let registry := registry.setStake passportId key { stakeData with domain }
    { registry with
      domainStakeKeys := Function.update registry.domainStakeKeys passportId
        (registry.domainStakeKeys passportId ++ [key]) }
  else registry

section Stakes

variable {Ledger : Type} (erc20 : Erc20 Ledger) (keccak256 : Bytes → B256)
  (this : Address) (msg : Msg) (tokens : Tokens Ledger)

def stakeIntoDomain (passportId : Nat) (domain : Bytes) (amount : Nat) :
    Except Revert (IdentityRegistry × Tokens Ledger) := do
  registry.onlyPassportOwner msg passportId
  ensure (amount ≠ 0) .invalidAmount
  ensure (registry.stakeToken ≠ 0) .stakingDisabled
  let tokens ← tokens.transferFrom erc20 registry.stakeToken this msg.sender amount
    "transferFrom failed"
  let domainKey := keccak256 domain
  let registry := registry.listDomain passportId domainKey domain
  let stakeData := registry.domainStakes passportId domainKey
  let staked ← checkedAdd 256 stakeData.amount amount
  let cooldownEndsAt ← checkedAdd 256 msg.timestamp withdrawCooldown
  let total ← checkedAdd 256 (registry.totalStakeOf passportId) amount
  let registry := registry.setStake passportId domainKey
    { stakeData with amount := staked, cooldownEndsAt := toUint64 cooldownEndsAt }
  let registry := { registry with
    totalStakeOf := Function.update registry.totalStakeOf passportId total }
  pure (registry.syncTier passportId, tokens)

def withdrawFromDomain (passportId : Nat) (domain : Bytes) (amount : Nat) :
    Except Revert (IdentityRegistry × Tokens Ledger) := do
  registry.onlyPassportOwner msg passportId
  ensure (amount ≠ 0) .invalidAmount
  ensure (registry.stakeToken ≠ 0) .stakingDisabled
  let domainKey := keccak256 domain
  let stakeData := registry.domainStakes passportId domainKey
  ensure (amount ≤ stakeData.amount) .insufficientStake
  ensure (stakeData.cooldownEndsAt ≤ msg.timestamp) (.cooldownActive stakeData.cooldownEndsAt)
  let left ← checkedSub stakeData.amount amount
  let total ← checkedSub (registry.totalStakeOf passportId) amount
  let registry := registry.setStake passportId domainKey { stakeData with amount := left }
  let registry := { registry with
    totalStakeOf := Function.update registry.totalStakeOf passportId total }
  let tokens ← tokens.transfer erc20 registry.stakeToken this msg.sender amount
    "transfer failed"
  pure (registry.syncTier passportId, tokens)

end Stakes

end IdentityRegistry

/-- The calls that change a registry, and the calls that others make of its token. -/
inductive IdentityCall (Ledger : Type)
  | setRegistrar (registrar : Address) (allowed : Bool)
  | registerPassport (owner : Address) (capabilityBitmask : UInt64)
      (systemPromptHash teeAttestation : B256) (teeExpiry : UInt64)
  | register (agent : Address) (capabilityList : UInt64) (tier : UInt8)
      (systemPromptHash : B256) (agentCardUri : Bytes)
  | revokePassport (passportId : U256)
  | updateCapabilities (passportId : U256) (newCapabilities : UInt64)
  | updatePromptHash (passportId : U256) (newHash : B256)
  | updateSystemPromptHash (passportId : U256) (newHash : B256)
  | updateAttestation (passportId : U256) (attestationHash : B256) (expiry : UInt64)
  | updateTeeAttestation (passportId : U256) (attestationHash : B256)
  | updateAgentCardUri (passportId : U256) (newUri : Bytes)
  | stakeIntoDomain (passportId : U256) (domain : Bytes) (amount : U256)
  | withdrawFromDomain (passportId : U256) (domain : Bytes) (amount : U256)
  | demoteTier (passportId : U256)
  | demoteTierTo (passportId : U256) (newTier : UInt8)
  | token (after : Ledger)

/-- A deployed registry and the tokens. -/
structure Identity (Ledger : Type) where
  registry : IdentityRegistry
  tokens : Tokens Ledger

/-- Where a registry is deployed, and what it calls. -/
structure IdentityChain (Ledger : Type) where
  erc20 : Erc20 Ledger
  keccak256 : Bytes → B256
  this : Address

namespace Identity

variable {Ledger : Type} (chain : IdentityChain Ledger) (state : Identity Ledger)

/-- A call that touches no token. -/
def quiet (call : Except Revert IdentityRegistry) : Except Revert (Identity Ledger) := do
  let registry ← call
  pure { state with registry }

def ofPair (call : Except Revert (IdentityRegistry × Tokens Ledger)) :
    Except Revert (Identity Ledger) := do
  let (registry, tokens) ← call
  pure { registry, tokens }

def execute (msg : Msg) : IdentityCall Ledger → Except Revert (Identity Ledger)
  | .setRegistrar registrar allowed =>
      state.quiet (state.registry.setRegistrar msg registrar allowed)
  | .registerPassport owner capabilityBitmask systemPromptHash teeAttestation teeExpiry =>
      state.quiet (state.registry.registerPassport msg owner capabilityBitmask
        systemPromptHash teeAttestation teeExpiry)
  | .register agent capabilityList tier systemPromptHash agentCardUri =>
      state.quiet (state.registry.register msg agent capabilityList tier.toNat
        systemPromptHash agentCardUri)
  | .revokePassport passportId =>
      state.quiet (state.registry.revokePassport msg passportId.toNat)
  | .updateCapabilities passportId newCapabilities =>
      state.quiet (state.registry.updateCapabilities msg passportId.toNat newCapabilities)
  | .updatePromptHash passportId newHash =>
      state.quiet (state.registry.updatePromptHash msg passportId.toNat newHash)
  | .updateSystemPromptHash passportId newHash =>
      state.quiet (state.registry.updateSystemPromptHash msg passportId.toNat newHash)
  | .updateAttestation passportId attestationHash expiry =>
      state.quiet
        (state.registry.updateAttestation msg passportId.toNat attestationHash expiry)
  | .updateTeeAttestation passportId attestationHash =>
      state.quiet (state.registry.updateTeeAttestation msg passportId.toNat attestationHash)
  | .updateAgentCardUri passportId newUri =>
      state.quiet (state.registry.updateAgentCardUri msg passportId.toNat newUri)
  | .stakeIntoDomain passportId domain amount =>
      ofPair (state.registry.stakeIntoDomain chain.erc20 chain.keccak256 chain.this msg
        state.tokens passportId.toNat domain amount.toNat)
  | .withdrawFromDomain passportId domain amount =>
      ofPair (state.registry.withdrawFromDomain chain.erc20 chain.keccak256 chain.this msg
        state.tokens passportId.toNat domain amount.toNat)
  | .demoteTier passportId => state.quiet (state.registry.demoteTier msg passportId.toNat)
  | .demoteTierTo passportId newTier =>
      state.quiet (state.registry.demoteTierTo msg passportId.toNat newTier.toNat)
  | .token after => do
      -- nobody else can spend what the registry holds
      let held := fun ledger =>
        chain.erc20.balanceOf ledger state.registry.stakeToken chain.this
      ensure (held state.tokens.ledger ≤ held after) .token
      pure { state with tokens := { state.tokens with ledger := after } }

/-- A call by an account other than the registry; a reverted call changes nothing. -/
def step (state : Identity Ledger) (call : Msg × IdentityCall Ledger) : Identity Ledger :=
  if call.1.sender = chain.this then state
  else settle state (state.execute chain call.1 call.2)

/-- A newly deployed registry. -/
def deployed (initialAdmin stakeToken sender : Address) (ledger : Ledger) :
    Identity Ledger :=
  ⟨.deployed initialAdmin stakeToken sender, ⟨ledger, []⟩⟩

end Identity

end Roko
