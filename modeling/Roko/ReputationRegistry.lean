import Roko.IdentityRegistry
import Roko.LazyDecay

/-!
# The reputation registry

`ReputationRegistry.sol`: scores of passports per domain.  Feedback moves a score by
an adaptive average, and a score decays towards one half between updates.
-/

namespace Roko

open Contracts

structure FeedbackAuthorization where
  raterPassportId : Nat
  rateePassportId : Nat
  domain : Nat
  active : Bool
  deriving DecidableEq, Repr

structure DomainReputation where
  domain : Bytes
  score : Nat
  jobCount : Nat
  lastUpdate : Nat
  deriving DecidableEq, Repr

structure SlashRecord where
  blockNumber : Nat
  violationType : Nat
  amount : Nat
  reason : Bytes
  deriving DecidableEq, Repr

structure ReputationRegistry where
  owner : Address
  authorizations : B256 → FeedbackAuthorization
  authorizedFeedbackSources : Address → Bool
  reputations : Nat → B256 → DomainReputation
  domainKeys : Nat → List B256
  slashHistory : Nat → List SlashRecord

namespace ReputationRegistry

def scale : Nat := 10 ^ 18

def maxAlpha : Nat := 3 * 10 ^ 17

/-- 30 days. -/
def decayPeriod : Nat := 30 * 24 * 60 * 60

/-- `ReputationDomain.KnowledgeVerification`, the last domain. -/
def knowledgeVerification : Nat := 6

def noReputation : DomainReputation := ⟨[], 0, 0, 0⟩

/-- `constructor(identityRegistry_, initialOwner)`, called by `sender`. -/
def deployed (initialOwner sender : Address) : ReputationRegistry where
  owner := if initialOwner = 0 then sender else initialOwner
  authorizations _ := ⟨0, 0, 0, false⟩
  authorizedFeedbackSources _ := false
  reputations _ _ := noReputation
  domainKeys _ := []
  slashHistory _ := []

/-- `_decay`.  At most 64 halvings are made. -/
def decay (now score lastUpdate : Nat) : Nat :=
  if lastUpdate = 0 ∨ now ≤ lastUpdate then score
  else
    let halvings := (now - lastUpdate) / decayPeriod
    if halvings = 0 then score
    else (LazyDecay.halve (scale / 2))^[min halvings 64] score

/-- `_adaptiveAlpha`. -/
def adaptiveAlpha (jobCount : Nat) : Nat :=
  let adaptive := 2 * scale / (jobCount + 1)
  if adaptive < maxAlpha then adaptive else maxAlpha

/-- The ASCII bytes of a text. -/
def text (characters : String) : Bytes :=
  characters.toList.map fun character => UInt8.ofNat character.toNat

/-- `_domainName`. -/
def domainName (domain : Nat) : Bytes :=
  match domain with
  | 0 => text "OracleResolution"
  | 1 => text "RiskDetection"
  | 2 => text "AnomalyFlagging"
  | 3 => text "DataIntegrity"
  | 4 => text "CrossAppValidation"
  | 5 => text "SealedExecution"
  | _ => text "KnowledgeVerification"

/-- `_requirePassport`. -/
def requirePassport (identity : IdentityRegistry) (passportId : Nat) : Except Revert Unit :=
  match identity.ownerOf passportId with
  | .ok owner => ensure (owner ≠ 0) .unknownPassport
  | .error _ => .error .unknownPassport

variable (registry : ReputationRegistry)

def setReputation (passportId : Nat) (key : B256) (rep : DomainReputation) :
    ReputationRegistry :=
  { registry with
    reputations := Function.update registry.reputations passportId
      (Function.update (registry.reputations passportId) key rep) }

/-- The registry after `if (bytes(rep.domain).length == 0) …`. -/
def listDomain (passportId : Nat) (key : B256) (domain : Bytes) : ReputationRegistry :=
  let rep := registry.reputations passportId key
  if rep.domain.length = 0 then
    let registry := registry.setReputation passportId key
      { rep with domain, score := scale / 2 }
    { registry with
      domainKeys := Function.update registry.domainKeys passportId
        (registry.domainKeys passportId ++ [key]) }
  else registry

/-- `_recordFeedback`. -/
def recordFeedback (keccak256 : Bytes → B256) (now passportId : Nat) (domain : Bytes)
    (normalizedScore : Nat) : Except Revert ReputationRegistry := do
  let domainKey := keccak256 domain
  let registry := registry.listDomain passportId domainKey domain
  let rep := registry.reputations passportId domainKey
  let currentScore := decay now rep.score rep.lastUpdate
  let alpha := adaptiveAlpha rep.jobCount
  let new ← checkedMul 256 alpha normalizedScore
  let old ← checkedMul 256 (scale - alpha) currentScore
  let sum ← checkedAdd 256 new old
  let jobCount ← checkedAdd 64 rep.jobCount 1
  pure (registry.setReputation passportId domainKey
    { rep with score := sum / scale, jobCount, lastUpdate := toUint64 now })

/-- The key of an authorization: `keccak256(abi.encode(rater, ratee, domain))`. -/
def authorizationKey (keccak256 : Bytes → B256) (rater ratee domain : Nat) : B256 :=
  keccak256 ([rater, ratee, domain].flatMap (ByteEncoding.bigEndian 32))

def onlyOwner (msg : Msg) : Except Revert Unit :=
  ensure (msg.sender = registry.owner) .notOwner

def onlyFeedbackSource (msg : Msg) : Except Revert Unit :=
  ensure (¬ (!registry.authorizedFeedbackSources msg.sender ∧ msg.sender ≠ registry.owner))
    .notAuthorized

def setFeedbackSource (msg : Msg) (source : Address) (allowed : Bool) :
    Except Revert ReputationRegistry := do
  registry.onlyOwner msg
  pure { registry with
    authorizedFeedbackSources :=
      Function.update registry.authorizedFeedbackSources source allowed }

def addFeedbackSource (msg : Msg) (source : Address) : Except Revert ReputationRegistry :=
  registry.setFeedbackSource msg source true

section Passports

variable (keccak256 : Bytes → B256) (identity : IdentityRegistry) (msg : Msg)

def authorizeFeedback (raterPassportId rateePassportId domain : Nat) :
    Except Revert ReputationRegistry := do
  registry.onlyFeedbackSource msg
  ensure (domain ≤ knowledgeVerification) .invalidDomain
  requirePassport identity raterPassportId
  requirePassport identity rateePassportId
  pure { registry with
    authorizations := Function.update registry.authorizations
      (authorizationKey keccak256 raterPassportId rateePassportId domain)
      ⟨raterPassportId, rateePassportId, domain, true⟩ }

/-- `submitFeedback` of an authorized source. -/
def submitFeedback (passportId : Nat) (domain : Bytes) (score : Int) :
    Except Revert ReputationRegistry := do
  registry.onlyFeedbackSource msg
  ensure (¬ (score < -(scale : Int) ∨ (scale : Int) < score)) .invalidScore
  requirePassport identity passportId
  let normalizedScore := (score + scale).toNat / 2
  registry.recordFeedback keccak256 msg.timestamp passportId domain normalizedScore

/-- `submitFeedback` of an authorized peer. -/
def submitPeerFeedback (rateePassportId domain score : Nat) :
    Except Revert ReputationRegistry := do
  ensure (domain ≤ knowledgeVerification) .invalidDomain
  ensure (score ≤ 1000) .invalidScore
  let raterPassportId := identity.ownerToPassportId msg.sender
  ensure (raterPassportId ≠ 0) .unknownPassport
  requirePassport identity rateePassportId
  let key := authorizationKey keccak256 raterPassportId rateePassportId domain
  ensure (registry.authorizations key).active .unauthorizedRater
  registry.recordFeedback keccak256 msg.timestamp rateePassportId (domainName domain)
    (score * 10 ^ 15)

/-- One round of the loop of `applyDecayTick`. -/
def tickDomain (now passportId : Nat) (registry : ReputationRegistry) (key : B256) :
    ReputationRegistry :=
  let rep := registry.reputations passportId key
  let decayed := decay now rep.score rep.lastUpdate
  if decayed ≠ rep.score then
    registry.setReputation passportId key
      { rep with score := decayed, lastUpdate := toUint64 now }
  else registry

def applyDecayTick (passportId : Nat) : Except Revert ReputationRegistry := do
  requirePassport identity passportId
  pure ((registry.domainKeys passportId).foldl (tickDomain msg.timestamp passportId)
    registry)

def slash (passportId violationType amount : Nat) (reason : Bytes) :
    Except Revert ReputationRegistry := do
  registry.onlyFeedbackSource msg
  requirePassport identity passportId
  pure { registry with
    slashHistory := Function.update registry.slashHistory passportId
      (registry.slashHistory passportId ++
        [⟨toUint64 msg.number, violationType, amount, reason⟩]) }

/-- The score, job count and last update of a domain. -/
def getReputation (now passportId : Nat) (domain : Bytes) :
    Except Revert (Nat × Nat × Nat) := do
  requirePassport identity passportId
  let rep := registry.reputations passportId (keccak256 domain)
  if rep.domain.length = 0 then pure (scale / 2, 0, 0)
  else pure (decay now rep.score rep.lastUpdate, rep.jobCount, rep.lastUpdate)

def getAllReputations (now passportId : Nat) : Except Revert (List DomainReputation) := do
  requirePassport identity passportId
  pure ((registry.domainKeys passportId).map fun key =>
    let rep := registry.reputations passportId key
    { rep with score := decay now rep.score rep.lastUpdate })

end Passports

end ReputationRegistry

end Roko
