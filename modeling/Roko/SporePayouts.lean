import Roko.SporeMarket
import Roko.FallibleSteps
import Roko.GuardedRuns
import Mathlib.Data.List.Nodup

/-!
# What the job marketplace pays out

A job's escrow is released by a settlement, an expiration or the resolution of a
dispute.  The expiration checks the state of the job, which a resolution does not change,
and the resolution checks nothing but that a dispute was opened.  A settlement releases
the agreed payment, whatever was escrowed.
-/

namespace Roko

namespace SporeJobState

/-- A job that a dispute was opened on is in one of these states. -/
def Contested (state : SporeJobState) : Prop := state = disputed ∨ state = expired

/-- A job whose escrow was released is in one of these states. -/
def Closed (state : SporeJobState) : Prop := state = settled ∨ Contested state

end SporeJobState

/-- A payout, with the escrowed amount of its job. -/
structure SporePayout where
  jobId : B256
  released : Nat
  escrowed : Nat
  deriving DecidableEq, Repr

namespace SporeMarket

variable {rules : FloatRules} {market after : SporeMarket} {jobId : B256}

/-- The amount that an escrow entry holds. -/
def escrowed (market : SporeMarket) (jobId : B256) : Nat :=
  (market.escrow[jobId]?.map fun entry => entry.amount.toNat).getD 0

/-- What a call pays out. -/
def payouts (market : SporeMarket) :
    SporeCall → Except MarketplaceError SporeReply → List SporePayout
  | .settleJob jobId, .ok (.settled result) =>
      [⟨jobId, result.agentPayment.toNat + result.platformFee.toNat, market.escrowed jobId⟩]
  | .expireJob jobId, .ok (.expired result) =>
      [⟨jobId, result.refund.toNat, market.escrowed jobId⟩]
  | .resolveDispute jobId _ _, .ok (.resolved result) =>
      [⟨jobId, result.amount.toNat, market.escrowed jobId⟩]
  | _, _ => []

/-- A call writes the record of one job, and the escrow of that job is released when the
call pays it out. -/
structure Wrote (market after : SporeMarket) (jobId : B256) (job new : MarketplaceJob)
    (paid : Bool) : Prop where
  found : market.jobs[jobId]? = some job
  jobs : ∀ other : B256, after.jobs[other]? =
    if jobId = other then some new else market.jobs[other]?
  entry : ∀ entry, market.escrow[jobId]? = some entry →
    ∃ changed, after.escrow[jobId]? = some changed ∧ changed.amount = entry.amount ∧
      changed.released = (entry.released || paid)
  entries : ∀ other : B256, jobId ≠ other → after.escrow[other]? = market.escrow[other]?
  budget : new.budget = job.budget
  disputes : ∀ other, other ∈ after.disputes →
    other ∈ market.disputes ∨ jobId = other ∧ new.state = .disputed

/-- The payment and the fee of a job stay within its budget. -/
def Covered (market : SporeMarket) (job : MarketplaceJob) : Prop :=
  let payment := job.payment.getD job.budget.toNat
  job.budget = BitVec.allOnes 128 ∨
    payment < job.budget.toNat + 1 ∧
      payment * market.config.platformFeeFraction < job.budget.toNat + 1

/-- What a settlement releases. -/
def settlement (market : SporeMarket) (job : MarketplaceJob) : Nat :=
  let payment := job.payment.getD job.budget.toNat
  max (toU128 payment).toNat (toU128 (payment * market.config.platformFeeFraction)).toNat

theorem settlement_le_iff (market : SporeMarket) (job : MarketplaceJob) :
    market.settlement job ≤ job.budget.toNat ↔ market.Covered job := by
  unfold settlement Covered
  rw [max_le_iff, toNat_toU128_le_iff, toNat_toU128_le_iff]
  tauto

/-- The checks of `settle_job`. -/
structure Settles (market : SporeMarket) (jobId : B256) (job : MarketplaceJob) : Prop where
  found : market.jobs[jobId]? = some job
  submitted : job.state = .submitted
  assigned : job.assignedAgent ≠ none

/-- The checks of `expire_job`. -/
structure Expires (market : SporeMarket) (jobId : B256) (job : MarketplaceJob) : Prop where
  found : market.jobs[jobId]? = some job
  due : job.deadlineBlock ≤ market.currentBlock
  notSettled : job.state ≠ .settled
  notExpired : job.state ≠ .expired

/-- What a call does to the jobs, the escrow and the disputes. -/
inductive Effect (market : SporeMarket) : SporeCall → List SporePayout → SporeMarket → Prop
  | quiet {call : SporeCall} {after : SporeMarket} (jobs : after.jobs = market.jobs)
      (escrow : after.escrow = market.escrow)
      (disputes : ∀ other, other ∈ after.disputes → other ∈ market.disputes) :
      Effect market call [] after
  | created {posting : SporeJobPosting} (fresh : posting.jobId ∉ market.jobs) :
      Effect market (.createJob posting) []
        { market with
          jobs := market.jobs.insert posting.jobId (newJob posting)
          escrow := market.escrow.insert posting.jobId (newEscrow posting) }
  | moved {call : SporeCall} {after : SporeMarket} {jobId : B256}
      {job new : MarketplaceJob} (wrote : Wrote market after jobId job new false)
      (isOpen : ¬ job.state.Closed) :
      Effect market call [] after
  | settled {after : SporeMarket} {jobId : B256} {job new : MarketplaceJob}
      (wrote : Wrote market after jobId job new true)
      (accepted : Settles market jobId job) (isNow : new.state = .settled) :
      Effect market (.settleJob jobId)
        [⟨jobId, market.settlement job, market.escrowed jobId⟩] after
  | expired {after : SporeMarket} {jobId : B256} {job new : MarketplaceJob}
      (wrote : Wrote market after jobId job new true)
      (accepted : Expires market jobId job) (isNow : new.state = .expired) :
      Effect market (.expireJob jobId)
        [⟨jobId, job.budget.toNat, market.escrowed jobId⟩] after
  | resolved {winner : U128} {outcome : DisputeOutcome} {after : SporeMarket}
      {jobId : B256} {job : MarketplaceJob} (wrote : Wrote market after jobId job job true)
      (isDisputed : jobId ∈ market.disputes) :
      Effect market (.resolveDispute jobId winner outcome)
        [⟨jobId, job.budget.toNat, market.escrowed jobId⟩] after

theorem jobIn_ok_iff {expected : SporeJobState} {job : MarketplaceJob} :
    market.jobIn jobId expected = .ok job ↔
      market.jobs[jobId]? = some job ∧ job.state = expected := by
  unfold jobIn
  split
  case h_1 => simp_all
  case h_2 found located =>
    rw [located]
    split
    case isTrue inState =>
      constructor
      · rintro ⟨⟩
        exact ⟨rfl, inState⟩
      · rintro ⟨⟨⟩, -⟩
        rfl
    case isFalse notInState =>
      refine iff_of_false nofun ?_
      rintro ⟨⟨⟩, inState⟩
      exact notInState inState

/-- A market that writes a job and changes its escrow entry, and opens no dispute. -/
theorem wrote_of_change {job new : MarketplaceJob} {change : EscrowEntry → EscrowEntry}
    {paid : Bool} (found : market.jobs[jobId]? = some job) (budget : new.budget = job.budget)
    (amount : ∀ entry, (change entry).amount = entry.amount)
    (released : ∀ entry, (change entry).released = (entry.released || paid))
    (jobs : after.jobs = market.jobs.insert jobId new)
    (escrow : after.escrow = market.escrow.modify jobId change)
    (disputes : ∀ other, other ∈ after.disputes →
      other ∈ market.disputes ∨ jobId = other ∧ new.state = .disputed) :
    Wrote market after jobId job new paid := by
  refine ⟨found, fun other => ?_, fun entry held => ?_, fun other apart => ?_, budget,
    disputes⟩
  · rw [jobs, Std.ExtTreeMap.getElem?_insert]
    simp only [Std.compare_eq_iff_eq]
  · refine ⟨change entry, ?_, amount entry, released entry⟩
    rw [escrow, Std.ExtTreeMap.getElem?_modify_self, held]
    rfl
  · rw [escrow, Std.ExtTreeMap.getElem?_modify]
    simp only [Std.compare_eq_iff_eq, if_neg apart]

theorem not_closed_of_eq {state expected : SporeJobState} (inState : state = expected)
    (early : expected = .posted ∨ expected = .assigned ∨ expected = .inProgress ∨
      expected = .submitted) : ¬ state.Closed := by
  subst inState
  rcases early with rfl | rfl | rfl | rfl <;>
    simp [SporeJobState.Closed, SporeJobState.Contested]

theorem effect_of_finalizeAssignment {call : SporeCall} {job : MarketplaceJob}
    (located : market.jobIn jobId .posted = .ok job) (winner : U128) (payment : ℚ) :
    Effect market call [] (market.finalizeAssignment jobId job winner payment).2 := by
  obtain ⟨found, isPosted⟩ := jobIn_ok_iff.mp located
  refine .moved (wrote_of_change found ?_ ?_ ?_ rfl rfl ?_)
    (not_closed_of_eq isPosted (by simp))
  · rfl
  · exact fun entry => rfl
  · exact fun entry => (Bool.or_false _).symm
  · exact fun other isDisputed => Or.inl isDisputed

/-- A call that changes the record of one job only. -/
theorem effect_of_setJob {call : SporeCall} {job new : MarketplaceJob}
    (found : market.jobs[jobId]? = some job) (isOpen : ¬ job.state.Closed)
    (budget : new.budget = job.budget) : Effect market call [] (market.setJob jobId new) := by
  refine .moved ⟨found, fun other => ?_, fun entry held => ?_, fun _ _ => rfl, budget,
    fun other isDisputed => Or.inl isDisputed⟩ isOpen
  · unfold setJob
    rw [Std.ExtTreeMap.getElem?_insert]
    simp only [Std.compare_eq_iff_eq]
  · exact ⟨entry, held, rfl, (Bool.or_false _).symm⟩

theorem effect_of_settleJob {result : SettlementResult}
    (settled : market.settleJob jobId = .ok (result, after)) :
    Effect market (.settleJob jobId) (market.payouts (.settleJob jobId) (.ok (.settled result)))
      after := by
  obtain ⟨job, located, settled⟩ := FallibleSteps.bind_ok settled
  obtain ⟨found, submitted⟩ := jobIn_ok_iff.mp located
  split at settled
  case h_1 => cases settled
  case h_2 agent assigned =>
    cases settled
    have released : ∀ payment fee : U128,
        (U128.saturatingSub payment fee).toNat + fee.toNat =
          max payment.toNat fee.toNat := by
      intro payment fee
      rw [U128.toNat_saturatingSub]
      omega
    simp only [payouts, released]
    refine .settled (wrote_of_change found ?_ ?_ ?_ rfl rfl ?_) ⟨found, submitted, ?_⟩ ?_
    · rfl
    · exact fun entry => rfl
    · exact fun entry => (Bool.or_true _).symm
    · exact fun other isDisputed => Or.inl isDisputed
    · rw [assigned]
      exact Option.some_ne_none agent
    · rfl

theorem effect_of_expireJob {result : ExpirationResult}
    (expired : market.expireJob jobId = .ok (result, after)) :
    Effect market (.expireJob jobId) (market.payouts (.expireJob jobId) (.ok (.expired result)))
      after := by
  unfold expireJob at expired
  split at expired
  case h_1 => cases expired
  case h_2 job found =>
    split at expired
    case isTrue => cases expired
    case isFalse due =>
      split at expired
      case isTrue => cases expired
      case isFalse unpaid =>
        cases expired
        obtain ⟨notSettled, notExpired⟩ := not_or.mp unpaid
        refine .expired (wrote_of_change found ?_ ?_ ?_ rfl rfl ?_)
          ⟨found, UInt64.not_lt.mp due, notSettled, notExpired⟩ ?_
        · rfl
        · exact fun entry => rfl
        · exact fun entry => (Bool.or_true _).symm
        · exact fun other isDisputed => Or.inl isDisputed
        · rfl

theorem effect_of_openDispute {call : SporeCall} {challenger challengerBond : U128}
    (opened : market.openDispute jobId challenger challengerBond = .ok after) :
    Effect market call [] after := by
  obtain ⟨job, located, opened⟩ := FallibleSteps.bind_ok opened
  obtain ⟨found, submitted⟩ := jobIn_ok_iff.mp located
  split at opened
  case h_1 => cases opened
  case h_2 defender assigned =>
    cases opened
    refine .moved (wrote_of_change found ?_ ?_ ?_ rfl rfl ?_)
      (not_closed_of_eq submitted (by simp))
    · rfl
    · exact fun entry => rfl
    · exact fun entry => (Bool.or_false _).symm
    · intro other isDisputed
      rcases Std.ExtTreeMap.mem_insert.mp isDisputed with isHere | earlier
      · exact Or.inr ⟨Std.compare_eq_iff_eq.mp isHere, rfl⟩
      · exact Or.inl earlier

theorem effect_of_escalateDispute {call : SporeCall} {level : DisputeLevel}
    (escalated : market.escalateDispute jobId = .ok (level, after)) :
    Effect market call [] after := by
  unfold escalateDispute at escalated
  split at escalated
  case h_1 => cases escalated
  case h_2 dispute found =>
    split at escalated
    case h_1 => cases escalated
    case h_2 level next =>
      cases escalated
      refine .quiet rfl rfl fun other isDisputed => ?_
      rcases Std.ExtTreeMap.mem_insert.mp isDisputed with isHere | earlier
      · rw [← Std.compare_eq_iff_eq.mp isHere]
        exact Std.ExtTreeMap.mem_iff_isSome_getElem?.mpr (by rw [found]; rfl)
      · exact earlier

theorem effect_of_resolveDispute (winner : U128) (outcome : DisputeOutcome) :
    Effect market (.resolveDispute jobId winner outcome)
      (market.payouts (.resolveDispute jobId winner outcome)
        ((market.resolveDispute jobId winner outcome).1.map .resolved))
      (market.resolveDispute jobId winner outcome).2 := by
  unfold resolveDispute
  split
  case h_1 => exact .quiet rfl rfl fun _ isDisputed => isDisputed
  case h_2 dispute found =>
    have isDisputed : jobId ∈ market.disputes :=
      Std.ExtTreeMap.mem_iff_isSome_getElem?.mpr (by rw [found]; rfl)
    have earlier : ∀ (changed : DisputeResolution) (other : B256),
        other ∈ market.disputes.insert jobId changed → other ∈ market.disputes := by
      intro changed other member
      rcases Std.ExtTreeMap.mem_insert.mp member with isHere | earlier
      · rw [← Std.compare_eq_iff_eq.mp isHere]
        exact isDisputed
      · exact earlier
    dsimp only
    split
    case h_1 => exact .quiet rfl rfl (earlier _)
    case h_2 job located =>
      refine .resolved (wrote_of_change located rfl ?_ ?_ ?_ rfl ?_) isDisputed
      · exact fun entry => rfl
      · exact fun entry => (Bool.or_true _).symm
      · refine Std.ExtTreeMap.ext_getElem? fun other => ?_
        change market.jobs[other]? = _
        rw [Std.ExtTreeMap.getElem?_insert]
        split
        case isTrue isHere =>
          rw [← Std.compare_eq_iff_eq.mp isHere]
          exact located
        case isFalse => rfl
      · exact fun other isDisputed => Or.inl (earlier _ other isDisputed)

/-- A call is refused and changes nothing, or goes through. -/
theorem replied_cases {Result : Type} (market : SporeMarket) (reply : Result → SporeReply)
    (outcome : Except MarketplaceError (Result × SporeMarket)) :
    (∃ error, market.replied reply outcome = (.error error, market)) ∨
      ∃ result after, outcome = .ok (result, after) ∧
        market.replied reply outcome = (.ok (reply result), after) := by
  cases outcome with
  | error error => exact Or.inl ⟨error, rfl⟩
  | ok pair => exact Or.inr ⟨pair.1, pair.2, rfl, rfl⟩

theorem effect_of_refused {call : SporeCall} (error : MarketplaceError) :
    Effect market call (market.payouts call (.error error)) market := by
  have nothing : market.payouts call (.error error) = [] := by
    cases call <;> rfl
  rw [nothing]
  exact .quiet rfl rfl fun _ isDisputed => isDisputed

/-- What an assignment does, when the assigned job was posted. -/
theorem effect_of_replied {Result : Type} {call : SporeCall} {reply : Result → SporeReply}
    {outcome : Except MarketplaceError (Result × SporeMarket)}
    (accepted : ∀ result after, outcome = .ok (result, after) →
      Effect market call (market.payouts call (.ok (reply result))) after) :
    Effect market call (market.payouts call (market.replied reply outcome).1)
      (market.replied reply outcome).2 := by
  rcases replied_cases market reply outcome with
    ⟨error, refused⟩ | ⟨result, after, accept, replied⟩
  · rw [refused]
    exact effect_of_refused error
  · rw [replied]
    exact accepted result after accept

theorem effect_of_done {call : SporeCall} {outcome : Except MarketplaceError SporeMarket}
    (unpaid : market.payouts call (.ok .done) = [])
    (accepted : ∀ after, outcome = .ok after → Effect market call [] after) :
    Effect market call (market.payouts call (execute.done market outcome).1)
      (execute.done market outcome).2 := by
  apply effect_of_replied
  intro result after mapped
  rw [unpaid]
  cases outcome with
  | error error => cases mapped
  | ok market =>
      cases mapped
      exact accepted _ rfl

theorem effect_of_execute (rules : FloatRules) (market : SporeMarket) (call : SporeCall) :
    Effect market call (market.payouts call (market.execute rules call).1)
      (market.execute rules call).2 := by
  cases call with
  | setBlock block => exact .quiet rfl rfl fun _ isDisputed => isDisputed
  | createJob posting =>
      refine effect_of_done rfl fun after created => ?_
      unfold createJob at created
      split at created
      case isTrue => cases created
      case isFalse fresh =>
        cases created
        exact .created fresh
  | submitBid jobId bid =>
      refine effect_of_done rfl fun after placed => ?_
      obtain ⟨job, -, placed⟩ := FallibleSteps.bind_ok placed
      cases placed
      exact .quiet rfl rfl fun _ isDisputed => isDisputed
  | assignRandomVrf jobId pool =>
      refine effect_of_replied fun result after assigned => ?_
      obtain ⟨job, located, assigned⟩ := FallibleSteps.bind_ok assigned
      split at assigned
      case h_1 => cases assigned
      case h_2 decision _ =>
        cases assigned
        exact effect_of_finalizeAssignment located _ _
  | assignBlindAuction jobId =>
      refine effect_of_replied fun result after assigned => ?_
      obtain ⟨job, located, assigned⟩ := FallibleSteps.bind_ok assigned
      split at assigned
      case h_1 => cases assigned
      case h_2 decision _ =>
        cases assigned
        exact effect_of_finalizeAssignment located _ _
  | assignDirectHire jobId targetPassportId agentTier repeatCount =>
      refine effect_of_replied fun result after assigned => ?_
      obtain ⟨job, located, assigned⟩ := FallibleSteps.bind_ok assigned
      split at assigned
      case isTrue =>
        cases assigned
        exact effect_of_finalizeAssignment located _ _
      case isFalse => cases assigned
  | startWork jobId =>
      refine effect_of_done rfl fun after started => ?_
      obtain ⟨job, located, started⟩ := FallibleSteps.bind_ok started
      obtain ⟨found, isAssigned⟩ := jobIn_ok_iff.mp located
      cases started
      exact effect_of_setJob found (not_closed_of_eq isAssigned (by simp)) rfl
  | submitResult jobId resultHash qualityScore =>
      refine effect_of_done rfl fun after delivered => ?_
      obtain ⟨job, located, delivered⟩ := FallibleSteps.bind_ok delivered
      obtain ⟨found, inProgress⟩ := jobIn_ok_iff.mp located
      cases delivered
      exact effect_of_setJob found (not_closed_of_eq inProgress (by simp)) rfl
  | settleJob jobId => exact effect_of_replied fun _ _ settled => effect_of_settleJob settled
  | expireJob jobId => exact effect_of_replied fun _ _ expired => effect_of_expireJob expired
  | openDispute jobId challenger challengerBond =>
      exact effect_of_done rfl fun _ opened => effect_of_openDispute opened
  | escalateDispute jobId =>
      exact effect_of_replied fun _ _ escalated => effect_of_escalateDispute escalated
  | resolveDispute jobId winner outcome => exact effect_of_resolveDispute winner outcome

end SporeMarket

/-- A marketplace and what was paid out in its run. -/
structure SporeHistory where
  market : SporeMarket
  payouts : List SporePayout := []

namespace SporeHistory

open SporeMarket

variable (rules : FloatRules) (history : SporeHistory)

/-- A call that fails pays nothing, but may have changed a dispute. -/
def step (history : SporeHistory) (call : SporeCall) : SporeHistory where
  market := (history.market.execute rules call).2
  payouts := history.payouts ++
    history.market.payouts call (history.market.execute rules call).1

/-- No job is paid out twice, and no payout releases more than was escrowed. -/
structure Sound (history : SporeHistory) : Prop where
  once : (history.payouts.map SporePayout.jobId).Nodup
  escrowed : ∀ payout ∈ history.payouts, payout.released ≤ payout.escrowed

/-- A settlement stays within the budget of its job, and an expiration or a resolution
that goes through finds an escrow that was not released. -/
def StepSafe (market : SporeMarket) : SporeCall → Prop
  | .settleJob jobId => ∀ job, Settles market jobId job → market.Covered job
  | .expireJob jobId => ∀ job, Expires market jobId job →
      ∀ entry, market.escrow[jobId]? = some entry → entry.released = false
  | .resolveDispute jobId _ _ => jobId ∈ market.disputes →
      ∀ entry, market.escrow[jobId]? = some entry → entry.released = false
  | _ => True

/-- Every job has its budget in escrow, and the escrows that were released are those of
the jobs that were paid out. -/
structure Tracked (history : SporeHistory) : Prop where
  escrowed : ∀ (jobId : B256) (job : MarketplaceJob),
    history.market.jobs[jobId]? = some job →
      ∃ entry, history.market.escrow[jobId]? = some entry ∧ entry.amount = job.budget ∧
        (entry.released = true → job.state.Closed)
  posted : ∀ jobId : B256, history.market.jobs[jobId]? = none →
    history.market.escrow[jobId]? = none
  contested : ∀ jobId, jobId ∈ history.market.disputes →
    ∃ job, history.market.jobs[jobId]? = some job ∧ job.state.Contested
  paid : ∀ jobId, jobId ∈ history.payouts.map SporePayout.jobId ↔
    ∃ entry, history.market.escrow[jobId]? = some entry ∧ entry.released = true

variable {rules history} {market : SporeMarket} {jobId : B256} {job new : MarketplaceJob}

theorem Tracked.unpaid_iff (tracked : history.Tracked) {entry : EscrowEntry}
    (held : history.market.escrow[jobId]? = some entry) :
    jobId ∉ history.payouts.map SporePayout.jobId ↔ entry.released = false := by
  rw [tracked.paid jobId, held]
  simp

theorem Tracked.quiet (tracked : history.Tracked) (jobs : market.jobs = history.market.jobs)
    (escrow : market.escrow = history.market.escrow)
    (disputes : ∀ other, other ∈ market.disputes → other ∈ history.market.disputes) :
    Tracked { history with market } := by
  constructor
  · intro jobId job
    dsimp only
    rw [jobs, escrow]
    exact tracked.escrowed jobId job
  · intro jobId
    dsimp only
    rw [jobs, escrow]
    exact tracked.posted jobId
  · intro jobId isDisputed
    dsimp only
    rw [jobs]
    exact tracked.contested jobId (disputes jobId isDisputed)
  · intro jobId
    dsimp only
    rw [escrow]
    exact tracked.paid jobId

theorem Tracked.created (tracked : history.Tracked) {posting : SporeJobPosting}
    (fresh : posting.jobId ∉ history.market.jobs) :
    Tracked { history with
      market := { history.market with
        jobs := history.market.jobs.insert posting.jobId (newJob posting)
        escrow := history.market.escrow.insert posting.jobId (newEscrow posting) } } := by
  have absent := Std.ExtTreeMap.getElem?_eq_none fresh
  have notHeld := tracked.posted posting.jobId absent
  refine ⟨fun other job => ?_, fun other => ?_, fun other isDisputed => ?_, fun other => ?_⟩
  · simp only [Std.ExtTreeMap.getElem?_insert, Std.compare_eq_iff_eq]
    split
    case isTrue =>
      rintro ⟨⟩
      exact ⟨_, rfl, rfl, nofun⟩
    case isFalse => exact tracked.escrowed other job
  · simp only [Std.ExtTreeMap.getElem?_insert, Std.compare_eq_iff_eq]
    split
    case isTrue => exact nofun
    case isFalse => exact tracked.posted other
  · obtain ⟨job, found, contested⟩ := tracked.contested other isDisputed
    refine ⟨job, ?_, contested⟩
    simp only [Std.ExtTreeMap.getElem?_insert, Std.compare_eq_iff_eq]
    split
    case isTrue isHere =>
      rw [← isHere, absent] at found
      cases found
    case isFalse => exact found
  · rw [tracked.paid other]
    simp only [Std.ExtTreeMap.getElem?_insert, Std.compare_eq_iff_eq]
    split
    case isTrue isHere =>
      rw [← isHere, notHeld]
      simp [newEscrow]
    case isFalse => rfl

/-- A write of one job, which is paid out or not. -/
theorem Tracked.wrote (tracked : history.Tracked) {paid : Bool} {payouts : List SporePayout}
    (wrote : Wrote history.market market jobId job new paid)
    (paysOut : payouts.map SporePayout.jobId = if paid then [jobId] else [])
    (closes : job.state.Closed ∨ paid = true → new.state.Closed)
    (contests : job.state.Contested → new.state.Contested) :
    Tracked { market, payouts := history.payouts ++ payouts } := by
  obtain ⟨entry, held, amount, closed⟩ := tracked.escrowed jobId job wrote.found
  obtain ⟨changed, heldAfter, sameAmount, released⟩ := wrote.entry entry held
  refine ⟨fun other otherJob => ?_, fun other => ?_, fun other isDisputed => ?_,
    fun other => ?_⟩
  · rw [wrote.jobs other]
    split
    case isTrue isHere =>
      subst isHere
      rintro ⟨⟩
      refine ⟨changed, heldAfter, ?_, fun wasReleased => closes ?_⟩
      · rw [sameAmount, amount, wrote.budget]
      · rw [released, Bool.or_eq_true] at wasReleased
        exact wasReleased.imp_left closed
    case isFalse apart =>
      rw [wrote.entries other apart]
      exact tracked.escrowed other otherJob
  · rw [wrote.jobs other]
    split
    case isTrue => exact nofun
    case isFalse apart =>
      rw [wrote.entries other apart]
      exact tracked.posted other
  · rw [wrote.jobs other]
    rcases wrote.disputes other isDisputed with earlier | ⟨isHere, nowDisputed⟩
    · obtain ⟨otherJob, found, contested⟩ := tracked.contested other earlier
      split
      case isTrue isHere =>
        subst isHere
        rw [wrote.found] at found
        cases found
        exact ⟨new, rfl, contests contested⟩
      case isFalse => exact ⟨otherJob, found, contested⟩
    · rw [if_pos isHere]
      exact ⟨new, rfl, Or.inl nowDisputed⟩
  · rw [List.map_append, List.mem_append, tracked.paid other, paysOut]
    by_cases isHere : jobId = other
    · subst isHere
      rw [held, heldAfter]
      cases paid <;> simp [released]
    · rw [wrote.entries other isHere]
      cases paid <;> simp [Ne.symm isHere]

/-- A payout keeps the history sound exactly when it is the first of its job and stays
within what was escrowed. -/
theorem sound_append_iff (sound : history.Sound) (payout : SporePayout) :
    Sound { market, payouts := history.payouts ++ [payout] } ↔
      payout.jobId ∉ history.payouts.map SporePayout.jobId ∧
        payout.released ≤ payout.escrowed := by
  constructor
  · intro after
    have once := after.once
    rw [List.map_append, List.nodup_append_comm] at once
    exact ⟨(List.nodup_cons.mp once).1, after.escrowed payout (by simp)⟩
  · rintro ⟨first, within⟩
    constructor
    · rw [List.map_append, List.nodup_append_comm]
      exact List.nodup_cons.mpr ⟨first, sound.once⟩
    · intro other member
      rcases List.mem_append.mp member with earlier | last
      · exact sound.escrowed other earlier
      · rw [List.mem_singleton.mp last]
        exact within

theorem settleJob_accepts (rules : FloatRules) (accepted : Settles market jobId job) :
    ∃ result, (market.execute rules (.settleJob jobId)).1 = .ok (.settled result) := by
  have located := jobIn_ok_iff.mpr ⟨accepted.found, accepted.submitted⟩
  obtain ⟨agent, assigned⟩ := Option.ne_none_iff_exists'.mp accepted.assigned
  apply Exists.intro
  simp only [execute, settleJob, located, bind, Except.bind, assigned]
  rfl

theorem expireJob_accepts (rules : FloatRules) (accepted : Expires market jobId job) :
    ∃ result, (market.execute rules (.expireJob jobId)).1 = .ok (.expired result) := by
  have due := UInt64.not_lt.mpr accepted.due
  have unpaid := not_or.mpr ⟨accepted.notSettled, accepted.notExpired⟩
  apply Exists.intro
  simp only [execute, expireJob, accepted.found, if_neg due, if_neg unpaid]
  rfl

theorem resolveDispute_accepts (rules : FloatRules) (winner : U128)
    (outcome : DisputeOutcome) (isDisputed : jobId ∈ market.disputes)
    (found : market.jobs[jobId]? = some job) :
    ∃ result, (market.execute rules (.resolveDispute jobId winner outcome)).1 =
      .ok (.resolved result) := by
  have disputed := Std.ExtTreeMap.getElem?_eq_some_getElem isDisputed
  apply Exists.intro
  simp only [execute, resolveDispute, disputed, found]
  rfl

theorem stepSafe_of_unpaid (rules : FloatRules) (tracked : history.Tracked)
    (call : SporeCall)
    (unpaid : history.market.payouts call (history.market.execute rules call).1 = []) :
    StepSafe history.market call := by
  cases call with
  | settleJob jobId =>
      intro job accepted
      obtain ⟨result, went⟩ := settleJob_accepts rules accepted
      rw [went] at unpaid
      cases unpaid
  | expireJob jobId =>
      intro job accepted
      obtain ⟨result, went⟩ := expireJob_accepts rules accepted
      rw [went] at unpaid
      cases unpaid
  | resolveDispute jobId winner outcome =>
      intro isDisputed
      obtain ⟨job, found, -⟩ := tracked.contested jobId isDisputed
      obtain ⟨result, went⟩ := resolveDispute_accepts rules winner outcome isDisputed found
      rw [went] at unpaid
      cases unpaid
  | _ => trivial

theorem not_contested_of_open (isOpen : ¬ job.state.Closed) : ¬ job.state.Contested :=
  fun contested => isOpen (Or.inr contested)

theorem tracked_step (rules : FloatRules) (tracked : history.Tracked) (call : SporeCall) :
    (history.step rules call).Tracked := by
  have effect := effect_of_execute rules history.market call
  unfold step
  generalize history.market.payouts call (history.market.execute rules call).1 = paysOut,
    (history.market.execute rules call).2 = after at effect ⊢
  cases effect with
  | quiet jobs escrow disputes =>
      rw [List.append_nil]
      exact tracked.quiet jobs escrow disputes
  | created fresh =>
      rw [List.append_nil]
      exact tracked.created fresh
  | moved wrote isOpen =>
      refine tracked.wrote wrote rfl ?_ fun contested => ?_
      · rintro (closed | paid)
        · exact absurd closed isOpen
        · cases paid
      · exact absurd contested (not_contested_of_open isOpen)
  | settled wrote accepted isNow =>
      refine tracked.wrote wrote rfl (fun _ => Or.inl isNow) fun contested => ?_
      exact absurd contested
        (not_contested_of_open (not_closed_of_eq accepted.submitted (by simp)))
  | expired wrote accepted isNow =>
      exact tracked.wrote wrote rfl (fun _ => Or.inr (Or.inr isNow)) fun _ => Or.inr isNow
  | @resolved winner outcome after jobId job wrote isDisputed =>
      obtain ⟨other, found, contested⟩ := tracked.contested jobId isDisputed
      rw [wrote.found] at found
      cases found
      exact tracked.wrote wrote rfl (fun _ => Or.inr contested) id

/-- What is escrowed for a job is its budget. -/
theorem Tracked.escrowed_eq (tracked : history.Tracked)
    (found : history.market.jobs[jobId]? = some job) :
    history.market.escrowed jobId = job.budget.toNat := by
  obtain ⟨entry, held, amount, -⟩ := tracked.escrowed jobId job found
  simp [SporeMarket.escrowed, held, amount]

/-- The condition says exactly which calls keep a sound history sound. -/
theorem stepSafe_iff (rules : FloatRules) (tracked : history.Tracked) (sound : history.Sound)
    (call : SporeCall) :
    StepSafe history.market call ↔ (history.step rules call).Sound := by
  have effect := effect_of_execute rules history.market call
  have unpaidSafe := stepSafe_of_unpaid rules tracked call
  unfold step
  generalize history.market.payouts call (history.market.execute rules call).1 = paysOut,
    (history.market.execute rules call).2 = after at effect unpaidSafe ⊢
  have kept : paysOut = [] →
      Sound { market := after, payouts := history.payouts ++ paysOut } := by
    rintro rfl
    rw [List.append_nil]
    exact ⟨sound.once, sound.escrowed⟩
  cases effect with
  | quiet jobs escrow disputes => exact iff_of_true (unpaidSafe rfl) (kept rfl)
  | created fresh => exact iff_of_true (unpaidSafe rfl) (kept rfl)
  | moved wrote isOpen => exact iff_of_true (unpaidSafe rfl) (kept rfl)
  | @settled after jobId job new wrote accepted isNow =>
      obtain ⟨entry, held, -, closed⟩ := tracked.escrowed jobId job accepted.found
      have notReleased : entry.released = false := by
        cases released : entry.released with
        | false => rfl
        | true =>
            refine absurd (closed released) (not_closed_of_eq accepted.submitted (by simp))
      have unpaid := (tracked.unpaid_iff held).mpr notReleased
      rw [sound_append_iff sound, tracked.escrowed_eq accepted.found, settlement_le_iff,
        and_iff_right unpaid]
      constructor
      · exact fun safe => safe job accepted
      · intro covered other otherAccepted
        have same := otherAccepted.found
        rw [accepted.found] at same
        cases same
        exact covered
  | @expired after jobId job new wrote accepted isNow =>
      obtain ⟨entry, held, -, -⟩ := tracked.escrowed jobId job accepted.found
      rw [sound_append_iff sound, tracked.escrowed_eq accepted.found, and_iff_left le_rfl,
        tracked.unpaid_iff held]
      constructor
      · exact fun safe => safe job accepted entry held
      · intro notReleased other _ otherEntry otherHeld
        rw [held] at otherHeld
        cases otherHeld
        exact notReleased
  | @resolved winner outcome after jobId job wrote isDisputed =>
      obtain ⟨entry, held, -, -⟩ := tracked.escrowed jobId job wrote.found
      rw [sound_append_iff sound, tracked.escrowed_eq wrote.found, and_iff_left le_rfl,
        tracked.unpaid_iff held]
      constructor
      · exact fun safe => safe isDisputed entry held
      · intro notReleased _ otherEntry otherHeld
        rw [held] at otherHeld
        cases otherHeld
        exact notReleased

def start (config : MarketplaceConfig) : SporeHistory :=
  { market := .new config }

theorem tracked_start (config : MarketplaceConfig) : (start config).Tracked := by
  refine ⟨fun jobId job found => ?_, fun jobId _ => Std.ExtTreeMap.getElem?_empty,
    fun jobId isDisputed => absurd isDisputed Std.ExtTreeMap.not_mem_empty,
    fun jobId => iff_of_false List.not_mem_nil ?_⟩
  · cases Std.ExtTreeMap.getElem?_empty.symm.trans found
  · rintro ⟨entry, held, -⟩
    cases Std.ExtTreeMap.getElem?_empty.symm.trans held

theorem sound_start (config : MarketplaceConfig) : (start config).Sound :=
  ⟨List.nodup_nil, nofun⟩

/-- The runs that meet the condition at each step are those that pay out every job at
most once, and never more than was escrowed for it. -/
theorem paid_out_once_iff (rules : FloatRules) (config : MarketplaceConfig)
    (calls : List SporeCall) :
    (∀ history ∈ GuardedRun.states (step rules) (start config) calls, history.Sound) ↔
      GuardedRun.Guarded (step rules) (fun history call => StepSafe history.market call)
        (start config) calls := by
  rw [GuardedRun.guarded_iff_kept (step rules)
    (fun history call => StepSafe history.market call) (fun _ _ => True)
    (fun history => history.Tracked ∧ history.Sound) Sound
    (fun history call inner => (stepSafe_iff rules inner.1 inner.2 call).trans
      (and_iff_left trivial).symm)
    (fun history call inner safe => ⟨tracked_step rules inner.1 call,
      (stepSafe_iff rules inner.1 inner.2 call).mp safe⟩)
    ⟨tracked_start config, sound_start config⟩ (sound_start config)]
  exact (and_iff_left fun _ _ => trivial).symm

def noLogarithm : FloatRules := ⟨fun _ => 0, fun _ => 0⟩

def tenThousand : SporeJobPosting := ⟨1, 10000, 500, .randomVrf, 100⟩

/-- A dispute is resolved twice, and the escrow is paid out each time. -/
theorem resolved_twice :
    let calls : List SporeCall :=
      [.createJob tenThousand, .assignRandomVrf 1 [⟨42, 100, 9 / 10⟩], .startWork 1,
        .submitResult 1 2 (17 / 20), .openDispute 1 99 500, .resolveDispute 1 42 .entryUpheld,
        .resolveDispute 1 99 .entryRemoved]
    ¬ ∀ history ∈ GuardedRun.states (step noLogarithm) (start {}) calls, history.Sound := by
  intro calls sound
  have once := (sound _ (GuardedRun.foldl_mem_states (start {}) calls)).once
  have paid : (calls.foldl (step noLogarithm) (start {})).payouts.map SporePayout.jobId =
      [1, 1] := by
    decide
  rw [paid] at once
  exact absurd once (by decide)

end SporeHistory

end Roko
