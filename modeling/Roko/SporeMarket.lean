import Roko.ChainTypes
import Mathlib.Data.Rat.Floor

/-!
# Choosing an agent for a job

The dispatch functions of `identity_economy_markets.rs` that the job marketplace calls.
Prices, reputations and payments are `f64`, read as exact rationals.
-/

namespace Roko

/-- What `f64` gives where the rationals have no answer: the logarithm, and a division by
zero. -/
structure FloatRules where
  ln : ℚ → ℚ
  byZero : ℚ → ℚ

def FloatRules.quotient (rules : FloatRules) (first second : ℚ) : ℚ :=
  if second = 0 then rules.byZero first else first / second

/-- `amount as u256`: rounded towards zero, and held between the bounds of the type. -/
def toU128 (amount : ℚ) : U128 :=
  BitVec.ofNat 128 (min amount.floor.toNat (2 ^ 128 - 1))

/-- A rounded amount stays within a bound that the amount stays below, and within the
largest number of the type. -/
theorem toNat_toU128_le_iff (amount : ℚ) (bound : U128) :
    (toU128 amount).toNat ≤ bound.toNat ↔
      bound = BitVec.allOnes 128 ∨ amount < bound.toNat + 1 := by
  have small : min amount.floor.toNat (2 ^ 128 - 1) < 2 ^ 128 := by omega
  have largest : bound = BitVec.allOnes 128 ↔ bound.toNat = 2 ^ 128 - 1 := by
    rw [← BitVec.toNat_inj, BitVec.toNat_allOnes]
  have below : amount < bound.toNat + 1 ↔ amount.floor < (bound.toNat : ℤ) + 1 := by
    rw [Rat.floor_lt_iff]
    simp
  rw [toU128, BitVec.toNat_ofNat, Nat.mod_eq_of_lt small, largest, below]
  have bounded := bound.isLt
  omega

/-- Byte `index` of an identifier. -/
def byteAt (id : B256) (index : Nat) : Nat :=
  id.toNat / 2 ^ (8 * (31 - index)) % 256

/-- The fields of `SparrowBid` that dispatch reads. -/
structure SparrowBid where
  bidderPassportId : U128
  priceUsdc : UInt64
  reputationSnapshot : ℚ
  deriving DecidableEq

def scoreBid (bid : SparrowBid) : ℚ :=
  bid.priceUsdc.toNat * (1 + (1 - bid.reputationSnapshot))

structure VickreyResult where
  winnerIndex : Nat
  payment : ℚ

/-- `select_winner`: the lowest score wins, and the second lowest sets the price. -/
def selectWinner (rules : FloatRules) (bids : List SparrowBid) : Option VickreyResult :=
  let scored := (bids.zipIdx.map fun entry => (entry.2, scoreBid entry.1)).mergeSort
    fun first second => first.2 ≤ second.2
  match scored with
  | [] => none
  | best :: others =>
      let secondScore := match others with
        | [] => best.2
        | second :: _ => second.2
      bids[best.1]?.map fun winner =>
        ⟨best.1, rules.quotient secondScore (1 + (1 - winner.reputationSnapshot))⟩

def antiCentralizationFee (rules : FloatRules) (baseFee : ℚ) (repeatCount : UInt32) : ℚ :=
  baseFee * (1 + rules.ln (1 + repeatCount.toNat))

/-- The winner and the payment of `DispatchDecision`. -/
structure DispatchDecision where
  winner : U128
  payment : ℚ

/-- `dispatch_random_vrf`: two candidates are drawn by the first bytes of the job's
identifier, and the one with the better reputation wins. -/
def dispatchRandomVrf (pool : List SparrowBid) (jobId : B256) (maxBudgetUsdc : UInt64) :
    Option DispatchDecision :=
  match pool with
  | [] => none
  | [only] => some ⟨only.bidderPassportId, maxBudgetUsdc.toNat⟩
  | _ =>
      let n := pool.length
      let i := byteAt jobId 0 % n
      let candidate := byteAt jobId 1 % n
      let j := if candidate = i then (candidate + 1) % n else candidate
      do
        let first ← pool[i]?
        let second ← pool[j]?
        let winner :=
          if second.reputationSnapshot ≤ first.reputationSnapshot then first else second
        return ⟨winner.bidderPassportId, maxBudgetUsdc.toNat⟩

def dispatchBlindAuction (rules : FloatRules) (bids : List SparrowBid) :
    Option DispatchDecision := do
  let result ← selectWinner rules bids
  let winner ← bids[result.winnerIndex]?
  return ⟨winner.bidderPassportId, result.payment⟩

def dispatchDirectHire (rules : FloatRules) (targetPassportId : U128) (baseFee : ℚ)
    (repeatCount : UInt32) : DispatchDecision :=
  ⟨targetPassportId, antiCentralizationFee rules baseFee repeatCount⟩

/-!
`marketplace.rs`: a job is posted with its budget in escrow, assigned by one of three
hiring models, worked on, and then settled, disputed or expired.
-/

/-- The `JobState` of `marketplace.rs`. -/
inductive SporeJobState
  | posted
  | assigned
  | inProgress
  | submitted
  | settled
  | disputed
  | expired
  deriving DecidableEq, Repr

/-- The text that `{:?}` formats. -/
def SporeJobState.debug : SporeJobState → String
  | posted => "Posted"
  | assigned => "Assigned"
  | inProgress => "InProgress"
  | submitted => "Submitted"
  | settled => "Settled"
  | disputed => "Disputed"
  | expired => "Expired"

inductive PassportTier
  | protocol
  | sovereign
  | worker
  | edge
  deriving DecidableEq, Repr

namespace PassportTier

def privilegeLevel : PassportTier → Nat
  | protocol => 3
  | sovereign => 2
  | worker => 1
  | edge => 0

def hasPrivilege (tier required : PassportTier) : Bool :=
  required.privilegeLevel ≤ tier.privilegeLevel

end PassportTier

inductive AuctionType
  | fpsb
  | vickrey
  | dutch (startPrice decrementPerBlock : U128)
  deriving DecidableEq, Repr

inductive HiringModel
  | randomVrf
  | blindAuction (auctionDurationBlocks : UInt64) (auctionType : AuctionType)
  | directHire (targetPassportId : U128)
  deriving DecidableEq, Repr

inductive DisputeOutcome
  | entryUpheld
  | entryRemoved
  | entryAmended (amendmentHash : B256)
  deriving DecidableEq, Repr

inductive DisputeLevel
  | bondEscalation (round : UInt8)
  | peerJury (votesFor votesAgainst : UInt32)
  | governanceVote (proposalId : B256)
  | resolved (winner : U128) (outcome : DisputeOutcome)
  deriving DecidableEq, Repr

/-- The bytes of an identifier, as `{:?}` formats them. -/
def debugBytes (id : B256) : String :=
  "[" ++ ", ".intercalate ((List.range 32).map fun index => toString (byteAt id index)) ++ "]"

/-- The text that `{:?}` formats. -/
def DisputeOutcome.debug : DisputeOutcome → String
  | entryUpheld => "EntryUpheld"
  | entryRemoved => "EntryRemoved"
  | entryAmended amendmentHash =>
      "EntryAmended \x7b amendment_hash: " ++ debugBytes amendmentHash ++ " \x7d"

/-- The text that `{:?}` formats. -/
def DisputeLevel.debug : DisputeLevel → String
  | bondEscalation round =>
      "BondEscalation \x7b round: " ++ toString round.toNat ++ " \x7d"
  | peerJury votesFor votesAgainst =>
      "PeerJury \x7b votes_for: " ++ toString votesFor.toNat ++ ", votes_against: " ++
        toString votesAgainst.toNat ++ " \x7d"
  | governanceVote proposalId =>
      "GovernanceVote \x7b proposal_id: " ++ debugBytes proposalId ++ " \x7d"
  | resolved winner outcome =>
      "Resolved \x7b winner: " ++ toString winner.toNat ++ ", outcome: " ++ outcome.debug ++
        " \x7d"

/-- The fields of a posting that the marketplace reads. -/
structure SporeJobPosting where
  jobId : B256
  budget : U128
  deadlineBlock : UInt64
  hiringModel : HiringModel
  posterPassportId : U128
  deriving DecidableEq, Repr

/-- `MarketplaceJob`, without the fields that are only stored. -/
structure MarketplaceJob where
  jobId : B256
  state : SporeJobState
  posterPassportId : U128
  assignedAgent : Option U128
  budget : U128
  deadlineBlock : UInt64
  hiringModel : HiringModel
  resultHash : Option B256
  qualityScore : Option ℚ
  payment : Option ℚ
  deriving DecidableEq

structure EscrowEntry where
  jobId : B256
  depositor : U128
  amount : U128
  recipient : Option U128
  released : Bool
  disputed : Bool
  deriving DecidableEq, Repr

structure DisputeResolution where
  entryHash : B256
  challenger : U128
  defender : U128
  currentLevel : DisputeLevel
  challengerBond : U128
  defenderBond : U128
  jury : Option (List U128)
  deadlineBlock : UInt64
  deriving DecidableEq, Repr

/-- The fields of the configuration that the calls read. -/
structure MarketplaceConfig where
  directHirePremium : ℚ := 3 / 2
  platformFeeFraction : ℚ := 1 / 50
  disputeChallengeWindow : UInt64 := 100
  deriving DecidableEq

inductive MarketplaceError
  | notFound
  | duplicateJob
  | invalidState (expected actual : String)
  | emptyPool
  | noAssignedAgent
  | deadlineNotReached (current deadline : UInt64)
  | insufficientTier (required actual : PassportTier)
  | noDispute
  deriving DecidableEq, Repr

structure AssignmentResult where
  agentPassportId : U128
  payment : ℚ
  hiringModel : HiringModel
  deriving DecidableEq

structure SettlementResult where
  agentPayment : U128
  platformFee : U128
  agentPassportId : U128
  qualityScore : ℚ
  deriving DecidableEq

structure ExpirationResult where
  refund : U128
  posterPassportId : U128
  deriving DecidableEq, Repr

structure DisputeSettlement where
  winner : U128
  outcome : DisputeOutcome
  escrowRecipient : U128
  amount : U128
  challengerBondReturned : U128
  defenderBondReturned : U128
  deriving DecidableEq, Repr

/-- The `Marketplace` of `marketplace.rs`. -/
structure SporeMarket where
  config : MarketplaceConfig
  jobs : Std.ExtTreeMap B256 MarketplaceJob := ∅
  escrow : Std.ExtTreeMap B256 EscrowEntry := ∅
  disputes : Std.ExtTreeMap B256 DisputeResolution := ∅
  currentBlock : UInt64 := 0
  bids : Std.ExtTreeMap B256 (List SparrowBid) := ∅

namespace SporeMarket

variable (market : SporeMarket)

/-- `Marketplace::new(config)`. -/
def new (config : MarketplaceConfig) : SporeMarket := { config }

def setBlock (block : UInt64) : SporeMarket :=
  { market with currentBlock := block }

def setJob (jobId : B256) (job : MarketplaceJob) : SporeMarket :=
  { market with jobs := market.jobs.insert jobId job }

/-- Change the escrow entry of a job, if it has one. -/
def updateEscrow (jobId : B256) (change : EscrowEntry → EscrowEntry) : SporeMarket :=
  { market with escrow := market.escrow.modify jobId change }

/-- The job, when it is in the state that a call expects. -/
def jobIn (jobId : B256) (expected : SporeJobState) :
    Except MarketplaceError MarketplaceJob :=
  match market.jobs[jobId]? with
  | none => .error .notFound
  | some job =>
      if job.state = expected then .ok job
      else .error (.invalidState expected.debug job.state.debug)

def newJob (posting : SporeJobPosting) : MarketplaceJob where
  jobId := posting.jobId
  state := .posted
  posterPassportId := posting.posterPassportId
  assignedAgent := none
  budget := posting.budget
  deadlineBlock := posting.deadlineBlock
  hiringModel := posting.hiringModel
  resultHash := none
  qualityScore := none
  payment := none

def newEscrow (posting : SporeJobPosting) : EscrowEntry where
  jobId := posting.jobId
  depositor := posting.posterPassportId
  amount := posting.budget
  recipient := none
  released := false
  disputed := false

def createJob (posting : SporeJobPosting) : Except MarketplaceError SporeMarket :=
  if posting.jobId ∈ market.jobs then .error .duplicateJob
  else .ok { market with
    jobs := market.jobs.insert posting.jobId (newJob posting)
    escrow := market.escrow.insert posting.jobId (newEscrow posting) }

def submitBid (jobId : B256) (bid : SparrowBid) : Except MarketplaceError SporeMarket := do
  let _ ← market.jobIn jobId .posted
  return { market with
    bids := market.bids.insert jobId ((market.bids[jobId]?).getD [] ++ [bid]) }

/-- `finalize_assignment`, with the job that it looks up. -/
def finalizeAssignment (jobId : B256) (job : MarketplaceJob) (winner : U128) (payment : ℚ) :
    AssignmentResult × SporeMarket :=
  (⟨winner, payment, job.hiringModel⟩,
    (market.setJob jobId
      { job with
        state := .assigned
        assignedAgent := some winner
        payment := some payment }).updateEscrow jobId
      fun entry => { entry with recipient := some winner })

/-- `assign_random_vrf`.  The budget is cut to 64 bits. -/
def assignRandomVrf (jobId : B256) (pool : List SparrowBid) :
    Except MarketplaceError (AssignmentResult × SporeMarket) := do
  let job ← market.jobIn jobId .posted
  match dispatchRandomVrf pool job.jobId (UInt64.ofNat job.budget.toNat) with
  | none => .error .emptyPool
  | some decision =>
      return market.finalizeAssignment jobId job decision.winner decision.payment

def assignBlindAuction (rules : FloatRules) (jobId : B256) :
    Except MarketplaceError (AssignmentResult × SporeMarket) := do
  let job ← market.jobIn jobId .posted
  match dispatchBlindAuction rules ((market.bids[jobId]?).getD []) with
  | none => .error .emptyPool
  | some decision =>
      return market.finalizeAssignment jobId job decision.winner decision.payment

def assignDirectHire (rules : FloatRules) (jobId : B256) (targetPassportId : U128)
    (agentTier : PassportTier) (repeatCount : UInt32) :
    Except MarketplaceError (AssignmentResult × SporeMarket) := do
  let job ← market.jobIn jobId .posted
  if agentTier.hasPrivilege .sovereign then
    let baseFee := job.budget.toNat * market.config.directHirePremium
    let decision := dispatchDirectHire rules targetPassportId baseFee repeatCount
    return market.finalizeAssignment jobId job decision.winner decision.payment
  else .error (.insufficientTier .sovereign agentTier)

def startWork (jobId : B256) : Except MarketplaceError SporeMarket := do
  let job ← market.jobIn jobId .assigned
  return market.setJob jobId { job with state := .inProgress }

def submitResult (jobId resultHash : B256) (qualityScore : ℚ) :
    Except MarketplaceError SporeMarket := do
  let job ← market.jobIn jobId .inProgress
  return market.setJob jobId
    { job with
      resultHash := some resultHash
      qualityScore := some qualityScore
      state := .submitted }

def settleJob (jobId : B256) :
    Except MarketplaceError (SettlementResult × SporeMarket) := do
  let job ← market.jobIn jobId .submitted
  match job.assignedAgent with
  | none => .error .noAssignedAgent
  | some agent =>
      let payment := job.payment.getD job.budget.toNat
      let platformFee := toU128 (payment * market.config.platformFeeFraction)
      let agentPayment := U128.saturatingSub (toU128 payment) platformFee
      return (⟨agentPayment, platformFee, agent, job.qualityScore.getD 0⟩,
        (market.updateEscrow jobId fun entry => { entry with released := true }).setJob jobId
          { job with state := .settled })

def expireJob (jobId : B256) : Except MarketplaceError (ExpirationResult × SporeMarket) :=
  match market.jobs[jobId]? with
  | none => .error .notFound
  | some job =>
      if market.currentBlock < job.deadlineBlock then
        .error (.deadlineNotReached market.currentBlock job.deadlineBlock)
      else if job.state = .settled ∨ job.state = .expired then
        .error (.invalidState "not Settled/Expired" job.state.debug)
      else
        .ok (⟨job.budget, job.posterPassportId⟩,
          (market.updateEscrow jobId fun entry => { entry with released := true }).setJob
            jobId { job with state := .expired })

/-- `open_dispute`.  The deadline wraps, as in a release build. -/
def openDispute (jobId : B256) (challenger challengerBond : U128) :
    Except MarketplaceError SporeMarket := do
  let job ← market.jobIn jobId .submitted
  match job.assignedAgent with
  | none => .error .noAssignedAgent
  | some defender =>
      let dispute : DisputeResolution :=
        { entryHash := job.resultHash.getD 0
          challenger
          defender
          currentLevel := .bondEscalation 1
          challengerBond
          defenderBond := 0
          jury := none
          deadlineBlock := market.currentBlock + market.config.disputeChallengeWindow }
      let locked :=
        (market.updateEscrow jobId fun entry => { entry with disputed := true }).setJob jobId
          { job with state := .disputed }
      return { locked with disputes := locked.disputes.insert jobId dispute }

/-- The level above, if there is one. -/
def nextLevel (jobId : B256) : DisputeLevel → Option DisputeLevel
  | .bondEscalation round =>
      if 3 ≤ round then some (.peerJury 0 0) else some (.bondEscalation (round + 1))
  | .peerJury _ _ => some (.governanceVote jobId)
  | _ => none

def escalateDispute (jobId : B256) :
    Except MarketplaceError (DisputeLevel × SporeMarket) :=
  match market.disputes[jobId]? with
  | none => .error .noDispute
  | some dispute =>
      match nextLevel jobId dispute.currentLevel with
      | none =>
          .error (.invalidState "escalatable dispute level" dispute.currentLevel.debug)
      | some level =>
          .ok (level,
            { market with
              disputes := market.disputes.insert jobId
                { dispute with
                  currentLevel := level
                  deadlineBlock :=
                    market.currentBlock + market.config.disputeChallengeWindow } })

/-- `resolve_dispute`.  The level of the dispute is set before the job is looked up. -/
def resolveDispute (jobId : B256) (winner : U128) (outcome : DisputeOutcome) :
    Except MarketplaceError DisputeSettlement × SporeMarket :=
  match market.disputes[jobId]? with
  | none => (.error .noDispute, market)
  | some dispute =>
      let resolved := { market with
        disputes := market.disputes.insert jobId
          { dispute with currentLevel := .resolved winner outcome } }
      match market.jobs[jobId]? with
      | none => (.error .notFound, resolved)
      | some job =>
          let escrowRecipient := match outcome with
            | .entryUpheld => job.assignedAgent.getD 0
            | .entryRemoved | .entryAmended _ => job.posterPassportId
          (.ok ⟨winner, outcome, escrowRecipient, job.budget, dispute.challengerBond,
              dispute.defenderBond⟩,
            resolved.updateEscrow jobId
              fun entry => { entry with released := true, disputed := false })

end SporeMarket

/-- The calls that change the marketplace. -/
inductive SporeCall
  | setBlock (block : UInt64)
  | createJob (posting : SporeJobPosting)
  | submitBid (jobId : B256) (bid : SparrowBid)
  | assignRandomVrf (jobId : B256) (pool : List SparrowBid)
  | assignBlindAuction (jobId : B256)
  | assignDirectHire (jobId : B256) (targetPassportId : U128) (agentTier : PassportTier)
      (repeatCount : UInt32)
  | startWork (jobId : B256)
  | submitResult (jobId resultHash : B256) (qualityScore : ℚ)
  | settleJob (jobId : B256)
  | expireJob (jobId : B256)
  | openDispute (jobId : B256) (challenger challengerBond : U128)
  | escalateDispute (jobId : B256)
  | resolveDispute (jobId : B256) (winner : U128) (outcome : DisputeOutcome)

/-- What a call that goes through returns. -/
inductive SporeReply
  | done
  | assigned (result : AssignmentResult)
  | escalated (level : DisputeLevel)
  | settled (result : SettlementResult)
  | expired (result : ExpirationResult)
  | resolved (result : DisputeSettlement)

namespace SporeMarket

/-- A call that fails leaves the marketplace as it is. -/
def replied {Result : Type} (market : SporeMarket) (reply : Result → SporeReply) :
    Except MarketplaceError (Result × SporeMarket) →
      Except MarketplaceError SporeReply × SporeMarket
  | .error error => (.error error, market)
  | .ok (result, after) => (.ok (reply result), after)

def execute (rules : FloatRules) (market : SporeMarket) :
    SporeCall → Except MarketplaceError SporeReply × SporeMarket
  | .setBlock block => (.ok .done, market.setBlock block)
  | .createJob posting => done (market.createJob posting)
  | .submitBid jobId bid => done (market.submitBid jobId bid)
  | .assignRandomVrf jobId pool => market.replied .assigned (market.assignRandomVrf jobId pool)
  | .assignBlindAuction jobId =>
      market.replied .assigned (market.assignBlindAuction rules jobId)
  | .assignDirectHire jobId targetPassportId agentTier repeatCount =>
      market.replied .assigned
        (market.assignDirectHire rules jobId targetPassportId agentTier repeatCount)
  | .startWork jobId => done (market.startWork jobId)
  | .submitResult jobId resultHash qualityScore =>
      done (market.submitResult jobId resultHash qualityScore)
  | .settleJob jobId => market.replied .settled (market.settleJob jobId)
  | .expireJob jobId => market.replied .expired (market.expireJob jobId)
  | .openDispute jobId challenger challengerBond =>
      done (market.openDispute jobId challenger challengerBond)
  | .escalateDispute jobId => market.replied .escalated (market.escalateDispute jobId)
  | .resolveDispute jobId winner outcome =>
      let (result, after) := market.resolveDispute jobId winner outcome
      (result.map .resolved, after)
where
  done (result : Except MarketplaceError SporeMarket) :=
    market.replied (fun _ : Unit => .done) (result.map fun after => ((), after))

end SporeMarket

end Roko
