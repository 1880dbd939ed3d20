import Roko.ReputationRegistry
import Roko.SoulboundPassports

/-!
# The validation registry

`ValidationRegistry.sol`: proofs of work for a job, and requests for validation that
passports attest to until they are resolved.
-/

namespace Roko

open Contracts

inductive ValidatorType
  | reputationBased
  | stakeSecuredReExecution
  | zkMLProof
  | teeOracle
  deriving DecidableEq, Repr

structure ValidationRequest where
  requesterPassportId : Nat
  workHash : B256
  taskId : B256
  validatorType : ValidatorType
  requestedBlock : Nat
  resolved : Bool
  deriving DecidableEq, Repr

structure ValidationAttestation where
  validatorPassportId : Nat
  workHash : B256
  approved : Bool
  evidenceHash : B256
  attestedBlock : Nat
  deriving DecidableEq, Repr

structure WorkProof where
  passportId : Nat
  jobHash : B256
  deliverableMerkleRoot : B256
  gateResults : List UInt8
  clearingCert : Bytes
  blockNumber : Nat
  timestamp : Nat
  deriving DecidableEq, Repr

structure GateStats where
  passed : Nat
  total : Nat
  deriving DecidableEq, Repr

structure ValidationRegistry where
  owner : Address
  requests : B256 → ValidationRequest
  authorizedSubmitters : Address → Bool
  attestations : B256 → List ValidationAttestation
  workProofs : B256 → WorkProof
  hasWorkProof : B256 → Bool
  passportJobHashes : Nat → List B256
  gateStats : Nat → GateStats
  requestNonce : Nat

namespace ValidationRegistry

/-- What the mappings hold for a key that was never written. -/
def noRequest : ValidationRequest := ⟨0, 0, 0, .reputationBased, 0, false⟩

def noWorkProof : WorkProof := ⟨0, 0, 0, [], [], 0, 0⟩

/-- `constructor(identityRegistry_, initialOwner)`, called by `sender`. -/
def deployed (initialOwner sender : Address) : ValidationRegistry where
  owner := if initialOwner = 0 then sender else initialOwner
  requests _ := noRequest
  authorizedSubmitters _ := false
  attestations _ := []
  workProofs _ := noWorkProof
  hasWorkProof _ := false
  passportJobHashes _ := []
  gateStats _ := ⟨0, 0⟩
  requestNonce := 1

variable (registry : ValidationRegistry)

def setAuthorizedSubmitter (msg : Msg) (submitter : Address) (allowed : Bool) :
    Except Revert ValidationRegistry := do
  ensure (msg.sender = registry.owner) .notOwner
  pure { registry with
    authorizedSubmitters :=
      Function.update registry.authorizedSubmitters submitter allowed }

/-- `_canSubmitProof`. -/
def canSubmitProof (identity : IdentityRegistry) (passportId : Nat) (sender : Address) :
    Except Revert Bool :=
  if registry.authorizedSubmitters sender then do
    ReputationRegistry.requirePassport identity passportId
    pure true
  else
    match identity.ownerOf passportId with
    | .ok owner => .ok (owner = sender)
    | .error _ => .error .unknownPassport

/-- One round of the loop of `submitWorkProof`. -/
def countGate (stats : GateStats) (result : UInt8) : Except Revert GateStats := do
  let total ← checkedAdd 64 stats.total 1
  if result ≠ 0 then
    let passed ← checkedAdd 64 stats.passed 1
    pure ⟨passed, total⟩
  else pure { stats with total }

def submitWorkProof (identity : IdentityRegistry) (msg : Msg) (passportId : Nat)
    (jobHash deliverableMerkleRoot : B256) (gateResults : List UInt8)
    (clearingCert : Bytes) : Except Revert ValidationRegistry := do
  let permitted ← registry.canSubmitProof identity passportId msg.sender
  ensure (permitted = true) .notAuthorized
  ensure (registry.hasWorkProof jobHash = false) .workProofAlreadyExists
  let stats ← gateResults.foldlM countGate (registry.gateStats passportId)
  pure { registry with
    workProofs := Function.update registry.workProofs jobHash
      ⟨passportId, jobHash, deliverableMerkleRoot, gateResults, clearingCert,
        toUint64 msg.number, toUint64 msg.timestamp⟩
    hasWorkProof := Function.update registry.hasWorkProof jobHash true
    passportJobHashes := Function.update registry.passportJobHashes passportId
      (registry.passportJobHashes passportId ++ [jobHash])
    gateStats := Function.update registry.gateStats passportId stats }

def verifyWork (jobHash : B256) : Except Revert WorkProof := do
  ensure (registry.hasWorkProof jobHash = true) .unknownWorkProof
  pure (registry.workProofs jobHash)

/-- `keccak256(abi.encode(workHash, requesterPassportId, block.number, nonce))`. -/
def requestKey (keccak256 : Bytes → B256) (workHash : B256)
    (requesterPassportId number nonce : Nat) : B256 :=
  keccak256 ([workHash.toNat, requesterPassportId, number, nonce].flatMap
    (ByteEncoding.bigEndian 32))

def setRequest (requestId : B256) (request : ValidationRequest) : ValidationRegistry :=
  { registry with requests := Function.update registry.requests requestId request }

/-- The id of the request, and the registry with it. -/
def requestValidation (keccak256 : Bytes → B256) (identity : IdentityRegistry) (msg : Msg)
    (workHash taskId : B256) (validatorType : ValidatorType) :
    Except Revert (B256 × ValidationRegistry) := do
  let requesterPassportId := identity.ownerToPassportId msg.sender
  ensure (requesterPassportId ≠ 0) .unknownPassport
  let requestId :=
    requestKey keccak256 workHash requesterPassportId msg.number registry.requestNonce
  let requestNonce ← checkedAdd 256 registry.requestNonce 1
  pure (requestId,
    { registry.setRequest requestId
        { requesterPassportId
          workHash
          taskId
          validatorType
          requestedBlock := toUint64 msg.number
          resolved := false } with
      requestNonce })

def submitAttestation (identity : IdentityRegistry) (msg : Msg) (requestId : B256)
    (approved : Bool) (evidenceHash : B256) : Except Revert ValidationRegistry := do
  let request := registry.requests requestId
  ensure (request.requestedBlock ≠ 0) .unknownRequest
  ensure (request.resolved = false) .requestResolved
  let validatorPassportId := identity.ownerToPassportId msg.sender
  ensure (validatorPassportId ≠ 0) .unknownPassport
  let attestations := registry.attestations requestId ++
    [⟨validatorPassportId, request.workHash, approved, evidenceHash, toUint64 msg.number⟩]
  let registry := { registry with
    attestations := Function.update registry.attestations requestId attestations }
  if 3 ≤ attestations.length then
    pure (registry.setRequest requestId { request with resolved := true })
  else pure registry

def getAttestations (requestId : B256) : List ValidationAttestation :=
  registry.attestations requestId

def getRequest (requestId : B256) : Except Revert ValidationRequest := do
  ensure ((registry.requests requestId).requestedBlock ≠ 0) .unknownRequest
  pure (registry.requests requestId)

end ValidationRegistry

/-- The calls of a validation registry, and those of its identity registry. -/
inductive ValidationCall (Ledger : Type)
  | passport (call : PassportCall Ledger)
  | setAuthorizedSubmitter (submitter : Address) (allowed : Bool)
  | submitWorkProof (passportId : U256) (jobHash deliverableMerkleRoot : B256)
      (gateResults : List UInt8) (clearingCert : Bytes)
  | requestValidation (workHash taskId : B256) (validatorType : ValidatorType)
  | submitAttestation (requestId : B256) (approved : Bool) (evidenceHash : B256)

/-- The two registries. -/
structure Validation (Ledger : Type) where
  identity : Identity Ledger
  registry : ValidationRegistry

namespace Validation

variable {Ledger : Type} (chain : IdentityChain Ledger)

/-- A call that changes the validation registry only. -/
def quiet (state : Validation Ledger) (call : Except Revert ValidationRegistry) :
    Except Revert (Validation Ledger) := do
  let registry ← call
  pure { state with registry }

def execute (state : Validation Ledger) (msg : Msg) :
    ValidationCall Ledger → Except Revert (Validation Ledger)
  | .passport call => do
      let identity ← state.identity.executePassport chain msg call
      pure { state with identity }
  | .setAuthorizedSubmitter submitter allowed =>
      state.quiet (state.registry.setAuthorizedSubmitter msg submitter allowed)
  | .submitWorkProof passportId jobHash deliverableMerkleRoot gateResults clearingCert =>
      state.quiet (state.registry.submitWorkProof state.identity.registry msg
        passportId.toNat jobHash deliverableMerkleRoot gateResults clearingCert)
  | .requestValidation workHash taskId validatorType =>
      state.quiet ((state.registry.requestValidation chain.keccak256
        state.identity.registry msg workHash taskId validatorType).map Prod.snd)
  | .submitAttestation requestId approved evidenceHash =>
      state.quiet (state.registry.submitAttestation state.identity.registry msg requestId
        approved evidenceHash)

/-- A call by any account; a reverted call changes nothing. -/
def step (state : Validation Ledger) (call : Msg × ValidationCall Ledger) :
    Validation Ledger :=
  settle state (state.execute chain call.1 call.2)

/-- Newly deployed registries. -/
def deployed (initialAdmin stakeToken identityDeployer initialOwner sender : Address)
    (ledger : Ledger) : Validation Ledger where
  identity := ⟨.deployed initialAdmin stakeToken identityDeployer, ⟨ledger, []⟩⟩
  registry := .deployed initialOwner sender

end Validation

/-!
A request for validation is resolved by its third attestation.  The registry counts
attestations, not attesters: one passport may attest three times.  The runs in which
resolution means what it should are those in which nobody attests again.
-/

namespace ValidationRegistry

variable {registry after : ValidationRegistry} {requestId : B256}

/-- The passports that have attested to a request. -/
def validators (registry : ValidationRegistry) (requestId : B256) : List Nat :=
  (registry.attestations requestId).map ValidationAttestation.validatorPassportId

/-- A request is resolved exactly when three passports have attested to it, and none
has attested twice. -/
structure RequestSound (registry : ValidationRegistry) (requestId : B256) : Prop where
  resolved : (registry.requests requestId).resolved = true ↔
    3 ≤ (registry.validators requestId).toFinset.card
  once : (registry.validators requestId).Nodup

/-- The checks of `submitAttestation`. -/
structure Attests (registry : ValidationRegistry) (requestId : B256) (validator : Nat) :
    Prop where
  known : (registry.requests requestId).requestedBlock ≠ 0
  pending : (registry.requests requestId).resolved = false
  passport : validator ≠ 0

/-- The registry after an attestation. -/
def attested (registry : ValidationRegistry) (requestId : B256)
    (attestation : ValidationAttestation) : ValidationRegistry :=
  let attestations := registry.attestations requestId ++ [attestation]
  { registry with
    attestations := Function.update registry.attestations requestId attestations
    requests := Function.update registry.requests requestId
      { registry.requests requestId with
        resolved := decide (3 ≤ attestations.length) } }

theorem submitAttestation_ok_iff {identity : IdentityRegistry} {msg : Msg}
    {approved : Bool} {evidenceHash : B256} :
    registry.submitAttestation identity msg requestId approved evidenceHash = .ok after ↔
      Attests registry requestId (identity.ownerToPassportId msg.sender) ∧
        after = registry.attested requestId
          ⟨identity.ownerToPassportId msg.sender, (registry.requests requestId).workHash,
            approved, evidenceHash, toUint64 msg.number⟩ := by
  unfold submitAttestation
  simp only [bind_ok_iff, ensure_ok_iff, exists_const]
  constructor
  · rintro ⟨known, pending, passport, attested⟩
    refine ⟨⟨known, pending, passport⟩, ?_⟩
    split at attested
    case isTrue third =>
      rw [pure_ok_iff] at attested
      rw [← attested, ValidationRegistry.attested, setRequest]
      simp only [third, decide_true]
    case isFalse early =>
      rw [pure_ok_iff] at attested
      rw [← attested, ValidationRegistry.attested]
      simp only [early, decide_false, ← pending, Function.update_eq_self]
  · rintro ⟨⟨known, pending, passport⟩, rfl⟩
    refine ⟨known, pending, passport, ?_⟩
    split
    case isTrue third =>
      rw [pure_ok_iff, ValidationRegistry.attested, setRequest]
      simp only [third, decide_true]
    case isFalse early =>
      rw [pure_ok_iff, ValidationRegistry.attested]
      simp only [early, decide_false, ← pending, Function.update_eq_self]

/-- The checks of `requestValidation`. -/
structure Requests (registry : ValidationRegistry) (requester : Nat) : Prop where
  passport : requester ≠ 0
  counted : registry.requestNonce + 1 < 2 ^ 256

/-- The registry after a request. -/
def requested (registry : ValidationRegistry) (requestId : B256)
    (request : ValidationRequest) : ValidationRegistry :=
  { registry.setRequest requestId request with
    requestNonce := registry.requestNonce + 1 }

theorem requestValidation_ok_iff {keccak256 : Bytes → B256} {identity : IdentityRegistry}
    {msg : Msg} {workHash taskId : B256} {validatorType : ValidatorType}
    {pair : B256 × ValidationRegistry} :
    registry.requestValidation keccak256 identity msg workHash taskId validatorType =
        .ok pair ↔
      Requests registry (identity.ownerToPassportId msg.sender) ∧
        pair.1 = requestKey keccak256 workHash (identity.ownerToPassportId msg.sender)
          msg.number registry.requestNonce ∧
        pair.2 = registry.requested pair.1
          ⟨identity.ownerToPassportId msg.sender, workHash, taskId, validatorType,
            toUint64 msg.number, false⟩ := by
  simp only [requestValidation, bind_ok_iff, ensure_ok_iff, checkedAdd_ok_iff,
    pure_ok_iff]
  constructor
  · rintro ⟨-, passport, nonce, ⟨counted, rfl⟩, rfl⟩
    exact ⟨⟨passport, counted⟩, rfl, rfl⟩
  · rintro ⟨⟨passport, counted⟩, isKey, same⟩
    refine ⟨(), passport, _, ⟨counted, rfl⟩, Prod.ext isKey.symm ?_⟩
    rw [same, isKey]
    rfl

theorem exists_requestValidation (keccak256 : Bytes → B256) {identity : IdentityRegistry}
    {msg : Msg} (workHash taskId : B256) (validatorType : ValidatorType)
    (accepted : Requests registry (identity.ownerToPassportId msg.sender)) :
    ∃ pair, registry.requestValidation keccak256 identity msg workHash taskId
      validatorType = .ok pair := by
  generalize isKey : requestKey keccak256 workHash
    (identity.ownerToPassportId msg.sender) msg.number registry.requestNonce = requestId
  exact ⟨(requestId, registry.requested requestId
      ⟨identity.ownerToPassportId msg.sender, workHash, taskId, validatorType,
        toUint64 msg.number, false⟩),
    requestValidation_ok_iff.mpr ⟨accepted, isKey.symm, rfl⟩⟩

theorem RequestSound.of_same (sound : RequestSound registry requestId)
    (requests : after.requests requestId = registry.requests requestId)
    (attestations : after.attestations requestId = registry.attestations requestId) :
    RequestSound after requestId := by
  obtain ⟨resolved, once⟩ := sound
  unfold validators at resolved once
  rw [← requests, ← attestations] at resolved
  rw [← attestations] at once
  exact ⟨resolved, once⟩

/-- An unresolved request stays sound exactly when the attesting passport is new to it. -/
theorem attested_sound_iff (sound : RequestSound registry requestId)
    (attestation : ValidationAttestation) :
    RequestSound (registry.attested requestId attestation) requestId ↔
      attestation.validatorPassportId ∉ registry.validators requestId := by
  have validatorsAfter : (registry.attested requestId attestation).validators requestId =
      registry.validators requestId ++ [attestation.validatorPassportId] := by
    unfold attested validators
    dsimp only
    rw [Function.update_self, List.map_append]
    rfl
  have count : (registry.attestations requestId ++ [attestation]).length =
      (registry.validators requestId ++ [attestation.validatorPassportId]).length := by
    simp [validators]
  have resolvedAfter : ((registry.attested requestId attestation).requests
      requestId).resolved =
      decide (3 ≤ (registry.validators requestId ++
        [attestation.validatorPassportId]).length) := by
    unfold attested
    dsimp only
    rw [Function.update_self, count]
  have nodup_iff : (registry.validators requestId ++
      [attestation.validatorPassportId]).Nodup ↔
      attestation.validatorPassportId ∉ registry.validators requestId := by
    rw [List.nodup_append_comm, List.singleton_append, List.nodup_cons,
      and_iff_left sound.once]
  constructor
  · intro after
    rw [← nodup_iff, ← validatorsAfter]
    exact after.once
  · intro new
    have once := nodup_iff.mpr new
    refine ⟨?_, ?_⟩
    · rw [resolvedAfter, validatorsAfter, decide_eq_true_iff,
        List.toFinset_card_of_nodup once]
    · rw [validatorsAfter]
      exact once

/-- A new request under an id stays sound exactly when the id has no three attestations. -/
theorem requested_sound_iff (sound : RequestSound registry requestId)
    (unresolved : (after.requests requestId).resolved = false)
    (attestations : after.attestations = registry.attestations) :
    RequestSound after requestId ↔ (registry.attestations requestId).length < 3 := by
  have same : after.validators requestId = registry.validators requestId := by
    unfold validators
    rw [attestations]
  have count : (registry.validators requestId).toFinset.card =
      (registry.attestations requestId).length := by
    rw [List.toFinset_card_of_nodup sound.once, validators, List.length_map]
  constructor
  · intro soundAfter
    have resolved := soundAfter.resolved
    rw [unresolved, same, count] at resolved
    by_contra many
    exact Bool.false_ne_true (resolved.mpr (Nat.not_lt.mp many))
  · intro few
    refine ⟨?_, same ▸ sound.once⟩
    rw [unresolved, same, count]
    exact iff_of_false Bool.false_ne_true (Nat.not_le.mpr few)

end ValidationRegistry

namespace Validation

open ValidationRegistry

variable {Ledger : Type} {chain : IdentityChain Ledger} {state after : Validation Ledger}
  {msg : Msg}

/-- Every request is resolved exactly when three passports have attested to it, and none
has attested twice. -/
def Sound (state : Validation Ledger) : Prop :=
  ∀ requestId, RequestSound state.registry requestId

/-- No attestation to a resolved request is recorded. -/
def Kept (chain : IdentityChain Ledger) (state : Validation Ledger)
    (call : Msg × ValidationCall Ledger) : Prop :=
  ∀ requestId, (state.registry.requests requestId).resolved = true →
    (state.step chain call).registry.attestations requestId =
      state.registry.attestations requestId

/-- An attestation that goes through is the first of its passport to the request, and a
new request does not take the id of one with three attestations. -/
def StepSafe (chain : IdentityChain Ledger) (state : Validation Ledger)
    (call : Msg × ValidationCall Ledger) : Prop :=
  match call.2 with
  | .submitAttestation requestId _ _ =>
      let validator := state.identity.registry.ownerToPassportId call.1.sender
      Attests state.registry requestId validator →
        validator ∉ state.registry.validators requestId
  | .requestValidation workHash _ _ =>
      let requester := state.identity.registry.ownerToPassportId call.1.sender
      Requests state.registry requester →
        (state.registry.attestations (requestKey chain.keccak256 workHash requester
          call.1.number state.registry.requestNonce)).length < 3
  | _ => True

/-- What a call does to the requests and the attestations. -/
inductive Effect (chain : IdentityChain Ledger) (msg : Msg) (state : Validation Ledger) :
    ValidationCall Ledger → Validation Ledger → Prop
  | quiet {call : ValidationCall Ledger} {after : Validation Ledger}
      (safe : StepSafe chain state (msg, call))
      (requests : after.registry.requests = state.registry.requests)
      (attestations : after.registry.attestations = state.registry.attestations) :
      Effect chain msg state call after
  | requested {workHash taskId : B256} {validatorType : ValidatorType} {requestId : B256}
      {request : ValidationRequest}
      (accepted : Requests state.registry
        (state.identity.registry.ownerToPassportId msg.sender))
      (isKey : requestId = requestKey chain.keccak256 workHash
        (state.identity.registry.ownerToPassportId msg.sender) msg.number
        state.registry.requestNonce)
      (unresolved : request.resolved = false) :
      Effect chain msg state (.requestValidation workHash taskId validatorType)
        { state with registry := state.registry.requested requestId request }
  | attested {requestId : B256} {approved : Bool} {evidenceHash : B256}
      {attestation : ValidationAttestation}
      (accepted : Attests state.registry requestId attestation.validatorPassportId)
      (isSender : attestation.validatorPassportId =
        state.identity.registry.ownerToPassportId msg.sender) :
      Effect chain msg state (.submitAttestation requestId approved evidenceHash)
        { state with registry := state.registry.attested requestId attestation }

theorem quiet_ok {call : Except Revert ValidationRegistry} :
    state.quiet call = .ok after ↔
      ∃ registry, call = .ok registry ∧ after = { state with registry } := by
  simp only [quiet, bind_ok_iff, pure_ok_iff, eq_comm (a := after)]

theorem effect_of_execute {call : ValidationCall Ledger}
    (executed : state.execute chain msg call = .ok after) :
    Effect chain msg state call after := by
  cases call with
  | passport call =>
      simp only [execute, bind_ok_iff, pure_ok_iff] at executed
      obtain ⟨identity, -, rfl⟩ := executed
      exact .quiet trivial rfl rfl
  | setAuthorizedSubmitter submitter allowed =>
      obtain ⟨registry, called, rfl⟩ := quiet_ok.mp executed
      simp only [ValidationRegistry.setAuthorizedSubmitter, bind_ok_iff, ensure_ok_iff,
        pure_ok_iff] at called
      obtain ⟨-, -, rfl⟩ := called
      exact .quiet trivial rfl rfl
  | submitWorkProof passportId jobHash merkleRoot gateResults clearingCert =>
      obtain ⟨registry, called, rfl⟩ := quiet_ok.mp executed
      simp only [ValidationRegistry.submitWorkProof, bind_ok_iff, ensure_ok_iff,
        pure_ok_iff] at called
      obtain ⟨-, -, -, -, -, -, stats, -, rfl⟩ := called
      exact .quiet trivial rfl rfl
  | requestValidation workHash taskId validatorType =>
      obtain ⟨registry, called, rfl⟩ := quiet_ok.mp executed
      cases going : state.registry.requestValidation chain.keccak256
          state.identity.registry msg workHash taskId validatorType with
      | error revert =>
          rw [going] at called
          cases called
      | ok pair =>
          rw [going] at called
          cases called
          obtain ⟨accepted, isKey, same⟩ := requestValidation_ok_iff.mp going
          rw [same]
          exact .requested accepted isKey rfl
  | submitAttestation requestId approved evidenceHash =>
      obtain ⟨registry, called, rfl⟩ := quiet_ok.mp executed
      obtain ⟨accepted, rfl⟩ := submitAttestation_ok_iff.mp called
      exact .attested accepted rfl

theorem stepSafe_of_error {call : ValidationCall Ledger} {revert : Revert}
    (failed : state.execute chain msg call = .error revert) :
    StepSafe chain state (msg, call) := by
  cases call with
  | submitAttestation requestId approved evidenceHash =>
      intro accepted
      have executed : state.execute chain msg
          (.submitAttestation requestId approved evidenceHash) = _ :=
        quiet_ok.mpr ⟨_, submitAttestation_ok_iff.mpr ⟨accepted, rfl⟩, rfl⟩
      cases failed.symm.trans executed
  | requestValidation workHash taskId validatorType =>
      intro accepted
      obtain ⟨pair, going⟩ := exists_requestValidation chain.keccak256 workHash taskId
        validatorType accepted
      have executed : state.execute chain msg
          (.requestValidation workHash taskId validatorType) =
            .ok { state with registry := pair.2 } :=
        quiet_ok.mpr ⟨pair.2, congrArg (Except.map Prod.snd) going, rfl⟩
      rw [failed] at executed
      cases executed
  | _ => trivial

theorem step_cases (chain : IdentityChain Ledger) (state : Validation Ledger)
    (call : Msg × ValidationCall Ledger) :
    Effect chain call.1 state call.2 (state.step chain call) := by
  unfold step
  cases executed : state.execute chain call.1 call.2 with
  | error revert => exact .quiet (stepSafe_of_error executed) rfl rfl
  | ok after => exact effect_of_execute executed

/-- The condition says exactly which calls keep the requests sound. -/
theorem stepSafe_iff (sound : state.Sound) (call : Msg × ValidationCall Ledger) :
    StepSafe chain state call ↔ (state.step chain call).Sound ∧ Kept chain state call := by
  have effect := step_cases chain state call
  unfold Kept
  obtain ⟨msg, call⟩ := call
  generalize state.step chain (msg, call) = after at effect ⊢
  cases effect with
  | quiet safe requests attestations =>
      refine iff_of_true safe ⟨fun requestId => ?_, fun requestId _ => ?_⟩
      · exact (sound requestId).of_same (by rw [requests]) (by rw [attestations])
      · rw [attestations]
  | @requested workHash taskId validatorType requestId request accepted isKey unresolved =>
      have here :
          ((state.registry.requested requestId request).requests requestId).resolved =
            false := by
        unfold ValidationRegistry.requested setRequest
        dsimp only
        rw [Function.update_self, unresolved]
      have exact := requested_sound_iff (sound requestId) here rfl
      constructor
      · intro safe
        refine ⟨fun other => ?_, fun other _ => rfl⟩
        by_cases isHere : other = requestId
        · rw [isHere]
          refine exact.mpr ?_
          rw [isKey]
          exact safe accepted
        · exact (sound other).of_same (Function.update_of_ne isHere _ _) rfl
      · rintro ⟨soundAfter, -⟩ -
        have few := exact.mp (soundAfter requestId)
        rw [isKey] at few
        exact few
  | @attested requestId approved evidenceHash attestation accepted isSender =>
      have exact := attested_sound_iff (sound requestId) attestation
      constructor
      · intro safe
        have new : attestation.validatorPassportId ∉
            state.registry.validators requestId := by
          rw [isSender] at accepted ⊢
          exact safe accepted
        refine ⟨fun other => ?_, fun other resolved => ?_⟩
        · by_cases isHere : other = requestId
          · rw [isHere]
            exact exact.mpr new
          · exact (sound other).of_same (Function.update_of_ne isHere _ _)
              (Function.update_of_ne isHere _ _)
        · refine Function.update_of_ne ?_ _ _
          rintro rfl
          rw [accepted.pending] at resolved
          cases resolved
      · rintro ⟨soundAfter, -⟩ - isIn
        rw [← isSender] at isIn
        exact exact.mp (soundAfter requestId) isIn

theorem sound_deployed (initialAdmin stakeToken identityDeployer initialOwner sender : Address)
    (ledger : Ledger) :
    Sound (deployed initialAdmin stakeToken identityDeployer initialOwner sender ledger) :=
  fun _ => ⟨iff_of_false Bool.false_ne_true
    (show ¬ 3 ≤ (List.toFinset ([] : List Nat)).card by decide), List.nodup_nil⟩

/-- The runs that meet the condition at each step are those in which every request is
resolved exactly by three different passports, and no resolved request is attested to. -/
theorem requests_sound_iff (chain : IdentityChain Ledger)
    (initialAdmin stakeToken identityDeployer initialOwner sender : Address)
    (ledger : Ledger) (calls : List (Msg × ValidationCall Ledger)) :
    let start :=
      deployed initialAdmin stakeToken identityDeployer initialOwner sender ledger
    ((∀ state ∈ GuardedRun.states (step chain) start calls, state.Sound) ∧
        GuardedRun.Guarded (step chain) (Kept chain) start calls) ↔
      GuardedRun.Guarded (step chain) (StepSafe chain) start calls := by
  intro start
  have initial := sound_deployed initialAdmin stakeToken identityDeployer initialOwner
    sender ledger
  exact (GuardedRun.guarded_iff_kept (step chain) (StepSafe chain) (Kept chain) Sound Sound
    (fun _ call sound => stepSafe_iff sound call)
    (fun _ call sound safe => ((stepSafe_iff sound call).mp safe).1) initial initial).symm

/-- One passport attests three times to its own request, and resolves it. -/
theorem resolved_alone :
    let chain : IdentityChain PlainLedger := ⟨PlainLedger.erc20, fun _ => 9, 1⟩
    let alice : Msg := ⟨3, 100, 7⟩
    let calls : List (Msg × ValidationCall PlainLedger) :=
      [(alice, .passport (.identity (.registerPassport 3 0 0 0 0))),
        (alice, .requestValidation 5 6 .reputationBased),
        (alice, .submitAttestation 9 true 0), (alice, .submitAttestation 9 true 0),
        (alice, .submitAttestation 9 true 0)]
    let start := deployed 2 0 2 2 2 ⟨fun _ _ => 0, fun _ _ _ => 0⟩
    ¬ ∀ state ∈ GuardedRun.states (step chain) start calls, state.Sound := by
  intro chain alice calls start sound
  have resolved := (sound _ (GuardedRun.foldl_mem_states start calls) 9).resolved
  have outcome : ((calls.foldl (step chain) start).registry.requests 9).resolved = true ∧
      (calls.foldl (step chain) start).registry.validators 9 = [1, 1, 1] := by
    decide
  rw [outcome.1, outcome.2] at resolved
  exact absurd (resolved.mp rfl) (by decide)

end Validation

end Roko
