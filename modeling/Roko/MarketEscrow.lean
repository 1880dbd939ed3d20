import Roko.ConsortiumValidator
import Roko.MarketEffects
import Roko.Tallies

/-!
# The escrow of the market

The market always holds the bounties of its open jobs, jobs only move forward, and a
job that has ended was paid for once: to its worker when it was accepted, and else to
its poster.  The validator is one more caller of the market, so this also holds in
every history of the three contracts.
-/

namespace Roko

open Contracts

namespace JobState

/-- The bounty of a job in this state is in escrow. -/
def inEscrow : JobState → Bool
  | funded | assigned | submitted => true
  | none | opened | terminal => false

/-- The moves of a job: it is posted, assigned, submitted and ended, in this order. -/
inductive Moves : JobState → JobState → Prop
  | stays (state : JobState) : Moves state state
  | posted : Moves none funded
  | assigned : Moves funded assigned
  | submitted : Moves assigned submitted
  | ended : Moves submitted terminal

end JobState

namespace BountyMarket

/-- What the market has to hold for a job. -/
def outstanding (job : Job) : Nat :=
  if job.state.inEscrow then job.bounty else 0

/-- The sum of the bounties of the open jobs. -/
def escrowed (market : BountyMarket) : Nat :=
  ∑ id ∈ Finset.range market.nextJobId, outstanding (market.jobs id)

variable {market : BountyMarket}

theorem outstanding_update (jobs : Nat → Job) (id : Nat) (job : Job) :
    (fun other => outstanding (Function.update jobs id job other)) =
      Function.update (fun other => outstanding (jobs other)) id (outstanding job) := by
  funext other
  rw [Function.update_apply, Function.update_apply]
  split <;> rfl

theorem jobs_setJob (market : BountyMarket) (id : Nat) (job : Job) (other : Nat) :
    (market.setJob id job).jobs other = if other = id then job else market.jobs other :=
  Function.update_apply _ _ _ _

theorem escrowed_setJob {id : Nat} (given : id < market.nextJobId) (job : Job) :
    (market.setJob id job).escrowed + outstanding (market.jobs id) =
      market.escrowed + outstanding job := by
  unfold escrowed setJob
  dsimp only
  rw [outstanding_update]
  exact Tally.sum_update_add (Finset.mem_range.mpr given) _ _

/-- A new job adds its bounty. -/
theorem escrowed_post (job : Job) :
    ({ market.setJob market.nextJobId job with
      nextJobId := market.nextJobId + 1 } : BountyMarket).escrowed =
      market.escrowed + outstanding job := by
  unfold escrowed setJob
  dsimp only
  rw [outstanding_update, Finset.sum_range_succ, Function.update_self,
    Tally.sum_update_of_notMem (by simp)]

end BountyMarket

namespace MarketEvent

/-- The job that an event ends. -/
def resolvedJob? : MarketEvent → Option Nat
  | .jobResolved jobId _ _ => some jobId
  | _ => none

end MarketEvent

namespace Marketplace

open BountyMarket

variable {Ledger : Type} (chain : MarketChain Ledger)

/-- The jobs that were resolved, in this order. -/
def resolvedJobs (state : Marketplace Ledger) : List Nat :=
  state.events.filterMap MarketEvent.resolvedJob?

/-- The transfers that the market has made. -/
def payments (state : Marketplace Ledger) : List Transfer :=
  state.tokens.transfers.filter (·.sender = chain.marketAddress)

/-- The transfer that a job ends with. -/
def payout (state : Marketplace Ledger) (id : Nat) : Transfer :=
  let job := state.market.jobs id
  ⟨state.market.bountyToken, chain.marketAddress, payee job job.accepted, job.bounty⟩

/-- The tokens that the market holds. -/
def held (state : Marketplace Ledger) : Nat :=
  chain.erc20.balanceOf state.tokens.ledger state.market.bountyToken chain.marketAddress

/-- The market holds the open bounties, and it has paid each ended job once. -/
structure EscrowSound (state : Marketplace Ledger) : Prop where
  solvent : state.market.escrowed ≤ state.held chain
  paid : state.payments chain = state.resolvedJobs.map (state.payout chain)
  once : state.resolvedJobs.Nodup
  ended : ∀ id, id ∈ state.resolvedJobs ↔ (state.market.jobs id).state = .terminal

/-- What holds of the jobs and of the workers that they are assigned to. -/
structure JobsSound (state : Marketplace Ledger) : Prop where
  fresh : ∀ id, state.market.nextJobId ≤ id → state.market.jobs id = noJob
  started : ∀ id, id < state.market.nextJobId →
    (state.market.jobs id).state ≠ .none ∧ (state.market.jobs id).state ≠ .opened
  posters : ∀ id, id < state.market.nextJobId →
    chain.Outside (state.market.jobs id).poster
  workers : ∀ worker, (state.registry.workers worker).existing = true →
    chain.Outside worker
  assigned : ∀ id, (state.market.jobs id).state = .assigned ∨
      (state.market.jobs id).state = .submitted →
    (state.registry.workers (state.market.jobs id).worker).existing = true

/-- What a call can do to a job. -/
structure JobStep (before after : Job) : Prop where
  moves : JobState.Moves before.state after.state
  posted : before.state ≠ .none →
    after.poster = before.poster ∧ after.bounty = before.bounty
  ended : before.state = .terminal → after = before

variable {chain} {msg : Msg} {state after : Marketplace Ledger} {call : Call Ledger}

theorem JobStep.refl (job : Job) : JobStep job job :=
  ⟨.stays _, fun _ => ⟨rfl, rfl⟩, fun _ => rfl⟩

theorem JobsSound.given (sound : JobsSound chain state) {id : Nat}
    (some : (state.market.jobs id).state ≠ .none) : id < state.market.nextJobId := by
  by_contra unused
  exact some (by rw [sound.fresh id (by omega)]; rfl)

/-- A write of one job moves that job only. -/
theorem jobStep_setJob {id : Nat} {job : Job} (step : JobStep (state.market.jobs id) job)
    (other : Nat) :
    JobStep (state.market.jobs other) ((state.market.setJob id job).jobs other) := by
  unfold setJob
  dsimp only
  by_cases same : other = id
  · rw [same, Function.update_self]
    exact step
  · rw [Function.update_of_ne same]
    exact .refl _

theorem jobStep_of_effect (sound : JobsSound chain state)
    (effect : Effect chain msg state call after) (id : Nat) :
    JobStep (state.market.jobs id) (after.market.jobs id) := by
  cases effect with
  | postJob =>
      refine jobStep_setJob ?_ id
      rw [sound.fresh _ le_rfl]
      exact ⟨.posted, fun some => absurd rfl some, fun ends => by cases ends⟩
  | assign funded =>
      refine jobStep_setJob ?_ id
      refine ⟨?_, fun _ => ⟨rfl, rfl⟩, fun ends => ?_⟩
      · rw [funded]
        exact .assigned
      · rw [funded] at ends
        cases ends
  | submit assigned =>
      refine jobStep_setJob ?_ id
      refine ⟨?_, fun _ => ⟨rfl, rfl⟩, fun ends => ?_⟩
      · rw [assigned]
        exact .submitted
      · rw [assigned] at ends
        cases ends
  | resolve _ submitted =>
      refine jobStep_setJob ?_ id
      refine ⟨?_, fun _ => ⟨rfl, rfl⟩, fun ends => ?_⟩
      · rw [submitted]
        exact .ended
      · rw [submitted] at ends
        cases ends
  | setAuthorized => exact .refl _
  | register => exact .refl _
  | bond => exact .refl _
  | unbond => exact .refl _
  | record => exact .refl _
  | setResolver => exact .refl _
  | token => exact .refl _

theorem existing_setWorker {registry : WorkerRegistry} {worker : Address} {record : Worker}
    (existed : (registry.workers worker).existing = true)
    (existing : record.existing = true) (other : Address) :
    ((registry.setWorker worker record).workers other).existing =
      (registry.workers other).existing := by
  unfold WorkerRegistry.setWorker
  dsimp only
  by_cases same : other = worker
  · rw [same, Function.update_self, existed, existing]
  · rw [Function.update_of_ne same]

/-- A call registers nobody but its sender, and nobody leaves the registry. -/
theorem existing_effect (effect : Effect chain msg state call after) (worker : Address) :
    ((after.registry.workers worker).existing = true →
      (state.registry.workers worker).existing = true ∨ worker = msg.sender) ∧
    ((state.registry.workers worker).existing = true →
      (after.registry.workers worker).existing = true) := by
  have unchanged : (after.registry.workers worker).existing =
      (state.registry.workers worker).existing →
      ((after.registry.workers worker).existing = true →
        (state.registry.workers worker).existing = true ∨ worker = msg.sender) ∧
      ((state.registry.workers worker).existing = true →
        (after.registry.workers worker).existing = true) := by
    intro same
    rw [same]
    exact ⟨Or.inl, id⟩
  cases effect with
  | register new =>
      by_cases same : worker = msg.sender
      · exact ⟨fun _ => Or.inr same, fun existed => by rw [same, new] at existed; cases existed⟩
      · apply unchanged
        exact congrArg _ (Function.update_of_ne same _ _)
  | bond existed =>
      refine unchanged (existing_setWorker existed ?_ worker)
      exact existed
  | unbond existed =>
      refine unchanged (existing_setWorker existed ?_ worker)
      exact existed
  | record _ change => exact unchanged (existing_setWorker change.existed change.existing worker)
  | resolve _ _ _ change =>
      obtain ⟨record, change, rfl⟩ := change
      exact unchanged (existing_setWorker change.existed change.existing worker)
  | setAuthorized => exact unchanged rfl
  | setResolver => exact unchanged rfl
  | postJob => exact unchanged rfl
  | assign => exact unchanged rfl
  | submit => exact unchanged rfl
  | token => exact unchanged rfl

theorem existing_of_canAccept {registry : WorkerRegistry} {now : Nat} {worker : Address}
    {minTier : Tier} (accepts : registry.canAccept now worker minTier = true) :
    (registry.workers worker).existing = true := by
  by_contra absent
  simp [WorkerRegistry.canAccept, absent] at accepts

/-- A write of a job that was given out keeps the jobs sound. -/
theorem JobsSound.setJob (sound : JobsSound chain state) {id : Nat}
    (given : id < state.market.nextJobId) {job : Job}
    (market : after.market = state.market.setJob id job)
    (existing : ∀ worker, (state.registry.workers worker).existing = true →
      (after.registry.workers worker).existing = true)
    (outside : ∀ worker, (after.registry.workers worker).existing = true →
      chain.Outside worker)
    (started : job.state ≠ .none ∧ job.state ≠ .opened)
    (poster : job.poster = (state.market.jobs id).poster)
    (worker : job.state = .assigned ∨ job.state = .submitted →
      (state.registry.workers job.worker).existing = true) : JobsSound chain after := by
  have jobs (other : Nat) : after.market.jobs other =
      if other = id then job else state.market.jobs other := by
    rw [market, BountyMarket.jobs_setJob]
  have next : after.market.nextJobId = state.market.nextJobId := by
    rw [market, BountyMarket.setJob]
  constructor
  · intro other unused
    rw [next] at unused
    rw [jobs, if_neg (by omega)]
    exact sound.fresh other unused
  · intro other used
    rw [next] at used
    rw [jobs]
    split
    · exact started
    · exact sound.started other used
  · intro other used
    rw [next] at used
    rw [jobs]
    split
    · rw [poster]
      exact sound.posters id given
    · exact sound.posters other used
  · exact outside
  · intro other
    rw [jobs]
    split
    · exact fun active => existing _ (worker active)
    · exact fun active => existing _ (sound.assigned other active)

/-- A call that writes no job keeps the jobs sound. -/
theorem JobsSound.of_same (sound : JobsSound chain state)
    (jobs : after.market.jobs = state.market.jobs)
    (next : after.market.nextJobId = state.market.nextJobId)
    (existing : ∀ worker, (state.registry.workers worker).existing = true →
      (after.registry.workers worker).existing = true)
    (outside : ∀ worker, (after.registry.workers worker).existing = true →
      chain.Outside worker) : JobsSound chain after := by
  constructor
  · rw [jobs, next]
    exact sound.fresh
  · rw [jobs, next]
    exact sound.started
  · rw [jobs, next]
    exact sound.posters
  · exact outside
  · intro id active
    rw [jobs] at active ⊢
    exact existing _ (sound.assigned id active)

theorem JobsSound.effect (sound : JobsSound chain state) (external : chain.Outside msg.sender)
    (effect : Effect chain msg state call after) : JobsSound chain after := by
  have existing : ∀ worker, (state.registry.workers worker).existing = true →
      (after.registry.workers worker).existing = true :=
    fun worker => (existing_effect effect worker).2
  have outside : ∀ worker, (after.registry.workers worker).existing = true →
      chain.Outside worker := by
    intro worker known
    rcases (existing_effect effect worker).1 known with before | rfl
    · exact sound.workers worker before
    · exact external
  cases effect with
  | postJob =>
      have jobs : ∀ (job : Job) (other : Nat),
          Function.update state.market.jobs state.market.nextJobId job other =
            if other = state.market.nextJobId then job else state.market.jobs other :=
        fun job other => Function.update_apply _ _ _ _
      refine ⟨fun other unused => ?_, fun other used => ?_, fun other used => ?_, outside,
        fun other active => ?_⟩
      · dsimp only [BountyMarket.setJob] at unused ⊢
        rw [Function.update_of_ne (by omega)]
        exact sound.fresh other (by omega)
      · dsimp only [BountyMarket.setJob] at used ⊢
        rw [jobs]
        split
        · exact ⟨JobState.noConfusion, JobState.noConfusion⟩
        · exact sound.started other (by omega)
      · dsimp only [BountyMarket.setJob] at used ⊢
        rw [jobs]
        split
        · exact external
        · exact sound.posters other (by omega)
      · dsimp only [BountyMarket.setJob] at active ⊢
        rw [jobs] at active ⊢
        split at active
        case isTrue => rcases active with impossible | impossible <;> cases impossible
        case isFalse other => rw [if_neg other]; exact sound.assigned _ active
  | @assign id worker minTier funded tier accepts =>
      have given := sound.given (by rw [funded]; exact JobState.noConfusion)
      refine sound.setJob given rfl existing outside ?_ rfl ?_
      · exact ⟨JobState.noConfusion, JobState.noConfusion⟩
      · exact fun _ => existing_of_canAccept accepts
  | @submit id resultHash assigned byWorker =>
      have given := sound.given (by rw [assigned]; exact JobState.noConfusion)
      refine sound.setJob given rfl existing outside ?_ rfl ?_
      · exact ⟨JobState.noConfusion, JobState.noConfusion⟩
      · exact fun _ => sound.assigned _ (Or.inl assigned)
  | @resolve id accepted tokens registry byResolver submitted =>
      have given := sound.given (by rw [submitted]; exact JobState.noConfusion)
      refine sound.setJob given rfl existing outside ?_ rfl ?_
      · exact ⟨JobState.noConfusion, JobState.noConfusion⟩
      · rintro (impossible | impossible) <;> cases impossible
  | setAuthorized => exact sound.of_same rfl rfl existing outside
  | register => exact sound.of_same rfl rfl existing outside
  | bond => exact sound.of_same rfl rfl existing outside
  | unbond => exact sound.of_same rfl rfl existing outside
  | record => exact sound.of_same rfl rfl existing outside
  | setResolver => exact sound.of_same rfl rfl existing outside
  | token => exact sound.of_same rfl rfl existing outside

/-- A transfer between accounts other than the market leaves what it holds. -/
theorem balance_unmoved {sender receiver token : Address} {amount : Nat}
    {before after : Ledger} (notSender : chain.marketAddress ≠ sender)
    (notReceiver : chain.marketAddress ≠ receiver)
    (moved : Moved chain.erc20.balanceOf token sender receiver amount before after)
    (other : Address) :
    chain.erc20.balanceOf after other chain.marketAddress =
      chain.erc20.balanceOf before other chain.marketAddress := by
  have balance := moved other chain.marketAddress
  rwa [if_neg (fun both => notSender both.2), if_neg (fun both => notReceiver both.2)]
    at balance

theorem payments_append {tokens : Tokens Ledger} {transfer : Transfer}
    (logged : tokens.transfers = state.tokens.transfers ++ [transfer])
    (same : after.tokens = tokens) :
    after.payments chain = state.payments chain ++
      (if transfer.sender = chain.marketAddress then [transfer] else []) := by
  unfold payments
  rw [same, logged, List.filter_append]
  by_cases sent : transfer.sender = chain.marketAddress <;> simp [sent]

/-- A call that pays nothing out and writes no ended job keeps the escrow sound. -/
theorem EscrowSound.of_kept (sound : EscrowSound chain state)
    (solvent : after.market.escrowed ≤ after.held chain)
    (payments : after.payments chain = state.payments chain)
    (resolved : after.resolvedJobs = state.resolvedJobs)
    (token : after.market.bountyToken = state.market.bountyToken)
    (ended : ∀ id, (after.market.jobs id).state = .terminal ↔
      (state.market.jobs id).state = .terminal)
    (kept : ∀ id, (state.market.jobs id).state = .terminal →
      after.market.jobs id = state.market.jobs id) : EscrowSound chain after := by
  refine ⟨solvent, ?_, resolved ▸ sound.once, fun id => ?_⟩
  · rw [payments, resolved, sound.paid]
    refine List.map_congr_left fun id member => ?_
    unfold payout
    rw [token, kept id ((sound.ended id).mp member)]
  · rw [resolved, sound.ended, ended]

/-- A call that writes no job keeps the escrow sound. -/
theorem EscrowSound.of_same (sound : EscrowSound chain state)
    (jobs : after.market.jobs = state.market.jobs)
    (next : after.market.nextJobId = state.market.nextJobId)
    (token : after.market.bountyToken = state.market.bountyToken)
    (resolved : after.resolvedJobs = state.resolvedJobs)
    (payments : after.payments chain = state.payments chain)
    (held : state.held chain ≤ after.held chain) : EscrowSound chain after := by
  refine sound.of_kept ?_ payments resolved token (fun id => by rw [jobs])
    (fun id _ => by rw [jobs])
  have escrowed : after.market.escrowed = state.market.escrowed := by
    rw [BountyMarket.escrowed, BountyMarket.escrowed, jobs, next]
  rw [escrowed]
  exact sound.solvent.trans held

/-- A write of a job that stays in escrow with its bounty keeps the escrow sound. -/
theorem EscrowSound.of_setJob (sound : EscrowSound chain state) (known : JobsSound chain state)
    {id : Nat} {job : Job} (market : after.market = state.market.setJob id job)
    (tokens : after.tokens = state.tokens)
    (resolved : after.resolvedJobs = state.resolvedJobs)
    (bounty : job.bounty = (state.market.jobs id).bounty)
    (wasOpen : (state.market.jobs id).state.inEscrow = true)
    (stays : job.state.inEscrow = true) : EscrowSound chain after := by
  have given : id < state.market.nextJobId :=
    known.given fun none => by rw [none] at wasOpen; cases wasOpen
  have notEnded : ∀ {progress : JobState}, progress.inEscrow = true → progress ≠ .terminal := by
    rintro _ open' rfl
    cases open'
  have jobs (other : Nat) : after.market.jobs other =
      if other = id then job else state.market.jobs other := by
    rw [market, BountyMarket.jobs_setJob]
  have token : after.market.bountyToken = state.market.bountyToken := by
    rw [market, BountyMarket.setJob]
  refine sound.of_kept ?_ ?_ resolved token ?_ ?_
  · have escrowed := escrowed_setJob given job
    rw [BountyMarket.outstanding, BountyMarket.outstanding, stays, wasOpen, bounty] at escrowed
    have solvent := sound.solvent
    have held : after.held chain = state.held chain := by
      rw [Marketplace.held, Marketplace.held, token, tokens]
    rw [held, market]
    omega
  · rw [payments, payments, tokens]
  · intro other
    rw [jobs]
    split
    case isTrue same =>
      rw [same]
      exact iff_of_false (notEnded stays) (notEnded wasOpen)
    case isFalse => rfl
  · intro other ends
    rw [jobs, if_neg]
    rintro rfl
    exact notEnded wasOpen ends

/-- A posted job brings its bounty. -/
theorem EscrowSound.of_post (sound : EscrowSound chain state) (known : JobsSound chain state)
    {job : Job} {sender : Address} (funded : job.state = .funded)
    (notMarket : chain.marketAddress ≠ sender)
    (paid : state.tokens.After chain.erc20 after.tokens
      ⟨state.market.bountyToken, sender, chain.marketAddress, job.bounty⟩)
    (market : after.market = { state.market.setJob state.market.nextJobId job with
      nextJobId := state.market.nextJobId + 1 })
    (resolved : after.resolvedJobs = state.resolvedJobs) : EscrowSound chain after := by
  obtain ⟨moved, logged⟩ := paid
  have fresh := known.fresh state.market.nextJobId le_rfl
  have jobs : ∀ other, after.market.jobs other =
      if other = state.market.nextJobId then job else state.market.jobs other := by
    intro other
    rw [market]
    exact BountyMarket.jobs_setJob _ _ _ _
  have token : after.market.bountyToken = state.market.bountyToken := by
    rw [market, BountyMarket.setJob]
  refine sound.of_kept ?_ ?_ resolved token ?_ ?_
  · have balance := moved state.market.bountyToken chain.marketAddress
    rw [if_neg (fun both => notMarket both.2), if_pos ⟨rfl, rfl⟩] at balance
    have brought : BountyMarket.outstanding job = job.bounty := by
      rw [BountyMarket.outstanding, funded]
      rfl
    have solvent := sound.solvent
    rw [Marketplace.held] at solvent ⊢
    rw [token, market, escrowed_post, brought]
    dsimp only at balance
    omega
  · rw [payments_append logged rfl, if_neg (Ne.symm notMarket), List.append_nil]
  · intro other
    rw [jobs]
    split
    case isTrue same =>
      rw [same, fresh, funded]
      exact ⟨JobState.noConfusion, JobState.noConfusion⟩
    case isFalse => rfl
  · intro other ends
    rw [jobs, if_neg]
    rintro rfl
    rw [fresh] at ends
    cases ends

/-- The end of a job pays its bounty out. -/
theorem EscrowSound.of_resolve (sound : EscrowSound chain state)
    {id : Nat} (given : id < state.market.nextJobId) {accepted : Bool}
    (submitted : (state.market.jobs id).state = .submitted)
    (outside : chain.marketAddress ≠ payee (state.market.jobs id) accepted)
    (paid : state.tokens.After chain.erc20 after.tokens
      ⟨state.market.bountyToken, chain.marketAddress,
        payee (state.market.jobs id) accepted, (state.market.jobs id).bounty⟩)
    (market : after.market = state.market.setJob id
      { state.market.jobs id with state := .terminal, accepted })
    (events : after.events = state.events ++
      [.jobResolved id accepted (state.market.jobs id).worker]) :
    EscrowSound chain after := by
  obtain ⟨moved, logged⟩ := paid
  have jobs : ∀ other, after.market.jobs other =
      if other = id then { state.market.jobs id with state := .terminal, accepted }
      else state.market.jobs other := by
    intro other
    rw [market, BountyMarket.jobs_setJob]
  have token : after.market.bountyToken = state.market.bountyToken := by
    rw [market, BountyMarket.setJob]
  have resolved : after.resolvedJobs = state.resolvedJobs ++ [id] := by
    rw [resolvedJobs, events, List.filterMap_append]
    rfl
  have unresolved : id ∉ state.resolvedJobs := by
    rw [sound.ended, submitted]
    exact JobState.noConfusion
  constructor
  · have balance := moved state.market.bountyToken chain.marketAddress
    rw [if_pos ⟨rfl, rfl⟩, if_neg (fun both => outside both.2)] at balance
    have escrowed := escrowed_setJob given
      { state.market.jobs id with state := .terminal, accepted }
    have solvent := sound.solvent
    have left : BountyMarket.outstanding
        { state.market.jobs id with state := .terminal, accepted } = 0 := rfl
    have before : BountyMarket.outstanding (state.market.jobs id) =
        (state.market.jobs id).bounty := by
      rw [BountyMarket.outstanding, submitted]
      rfl
    have held : after.held chain = chain.erc20.balanceOf after.tokens.ledger
        state.market.bountyToken chain.marketAddress := by
      rw [Marketplace.held, token]
    rw [left, before] at escrowed
    rw [Marketplace.held] at solvent
    rw [held, market]
    dsimp only at balance
    omega
  · rw [payments_append logged rfl, if_pos rfl, resolved, List.map_append, sound.paid]
    congr 1
    · refine List.map_congr_left fun other member => ?_
      unfold payout
      rw [token, jobs, if_neg]
      rintro rfl
      exact unresolved member
    · rw [List.map_singleton, payout, token, jobs, if_pos rfl]
      rfl
  · rw [resolved, List.nodup_append]
    refine ⟨sound.once, List.nodup_singleton _, ?_⟩
    rintro other member _ last rfl
    rw [List.mem_singleton] at last
    exact unresolved (last ▸ member)
  · intro other
    rw [resolved, jobs, List.mem_append, List.mem_singleton, sound.ended]
    split
    case isTrue same => simp [same]
    case isFalse different => simp [different]

theorem EscrowSound.effect (sound : EscrowSound chain state) (jobs : JobsSound chain state)
    (external : chain.Outside msg.sender) (effect : Effect chain msg state call after) :
    EscrowSound chain after := by
  have notMarket : chain.marketAddress ≠ msg.sender := external.2.1.symm
  have unresolved : ∀ {events : List MarketEvent}, after.events = state.events ++ events →
      events.filterMap MarketEvent.resolvedJob? = [] →
      after.resolvedJobs = state.resolvedJobs := by
    intro events logged none
    rw [resolvedJobs, logged, List.filterMap_append, none]
    exact List.append_nil _
  have unpaid : ∀ {transfer : Transfer} {tokens : Tokens Ledger},
      transfer.sender ≠ chain.marketAddress →
      tokens.transfers = state.tokens.transfers ++ [transfer] → after.tokens = tokens →
      after.payments chain = state.payments chain := by
    intro transfer tokens notSender logged same
    rw [payments_append logged same, if_neg notSender, List.append_nil]
  cases effect with
  | setAuthorized => exact sound.of_same rfl rfl rfl rfl rfl le_rfl
  | register _ _ paid =>
      refine sound.of_same rfl rfl rfl rfl (unpaid external.2.1 paid.2 rfl) ?_
      exact (balance_unmoved notMarket chain.distinct paid.1 _).ge
  | bond _ paid =>
      refine sound.of_same rfl rfl rfl rfl (unpaid external.2.1 paid.2 rfl) ?_
      exact (balance_unmoved notMarket chain.distinct paid.1 _).ge
  | unbond _ _ paid =>
      refine sound.of_same rfl rfl rfl rfl (unpaid chain.distinct.symm paid.2 rfl) ?_
      exact (balance_unmoved chain.distinct notMarket paid.1 _).ge
  | record => exact sound.of_same rfl rfl rfl rfl rfl le_rfl
  | setResolver => exact sound.of_same rfl rfl rfl (unresolved rfl rfl) rfl le_rfl
  | postJob paid => exact sound.of_post jobs rfl notMarket paid rfl (unresolved rfl rfl)
  | @assign id worker minTier funded tier accepts =>
      exact sound.of_setJob jobs rfl rfl (unresolved rfl rfl) rfl (by rw [funded]; rfl) rfl
  | @submit id resultHash assigned byWorker =>
      exact sound.of_setJob jobs rfl rfl (unresolved rfl rfl) rfl (by rw [assigned]; rfl) rfl
  | @resolve id accepted tokens registry byResolver submitted paid =>
      have given := jobs.given (by rw [submitted]; exact JobState.noConfusion)
      have payeeOutside : chain.Outside (payee (state.market.jobs id.toNat) accepted) := by
        cases accepted with
        | true => exact jobs.workers _ (jobs.assigned _ (Or.inr submitted))
        | false => exact jobs.posters _ given
      exact sound.of_resolve given submitted payeeOutside.2.1.symm paid rfl rfl
  | token market =>
      exact sound.of_same rfl rfl rfl rfl rfl market

/-- Nobody but the resolver ends a job or changes the resolver. -/
theorem unresolved_effect (sound : JobsSound chain state)
    (notResolver : msg.sender ≠ state.market.resolver)
    (effect : Effect chain msg state call after) :
    after.market.resolver = state.market.resolver ∧
      ∀ id, (after.market.jobs id).state = .terminal ↔
        (state.market.jobs id).state = .terminal := by
  have moved : ∀ (id other : Nat) (job : Job), (state.market.jobs id).state ≠ .terminal →
      job.state ≠ .terminal →
      (((state.market.setJob id job).jobs other).state = .terminal ↔
        (state.market.jobs other).state = .terminal) := by
    intro id other job before after
    dsimp only [BountyMarket.setJob]
    rw [Function.update_apply]
    split
    case isTrue same =>
      rw [same]
      exact ⟨fun ends => absurd ends after, fun ends => absurd ends before⟩
    case isFalse => rfl
  cases effect with
  | setResolver byResolver => exact absurd byResolver notResolver
  | resolve byResolver => exact absurd byResolver notResolver
  | postJob =>
      refine ⟨rfl, fun other => moved _ other _ ?_ JobState.noConfusion⟩
      rw [sound.fresh _ le_rfl]
      exact JobState.noConfusion
  | assign funded =>
      refine ⟨rfl, fun other => moved _ other _ ?_ JobState.noConfusion⟩
      rw [funded]
      exact JobState.noConfusion
  | submit assigned =>
      refine ⟨rfl, fun other => moved _ other _ ?_ JobState.noConfusion⟩
      rw [assigned]
      exact JobState.noConfusion
  | setAuthorized => exact ⟨rfl, fun _ => Iff.rfl⟩
  | register => exact ⟨rfl, fun _ => Iff.rfl⟩
  | bond => exact ⟨rfl, fun _ => Iff.rfl⟩
  | unbond => exact ⟨rfl, fun _ => Iff.rfl⟩
  | record => exact ⟨rfl, fun _ => Iff.rfl⟩
  | token => exact ⟨rfl, fun _ => Iff.rfl⟩

/-- The jobs and the escrow are sound. -/
def Sound (chain : MarketChain Ledger) (state : Marketplace Ledger) : Prop :=
  JobsSound chain state ∧ EscrowSound chain state

theorem sound_step (sound : Sound chain state) (call : Msg × Call Ledger) :
    Sound chain (state.step chain call) ∧
      ∀ id, JobStep (state.market.jobs id) ((state.step chain call).market.jobs id) := by
  rcases step_cases chain state call with same | ⟨external, effect⟩
  · rw [same]
    exact ⟨sound, fun id => .refl _⟩
  · exact ⟨⟨sound.1.effect external effect, sound.2.effect sound.1 external effect⟩,
      jobStep_of_effect sound.1 effect⟩

theorem sound_deployed (chain : MarketChain Ledger)
    (bountyToken stakeToken resolver owner : Address) (ledger : Ledger) :
    Sound chain (deployed bountyToken stakeToken resolver owner ledger) := by
  refine ⟨⟨fun _ _ => rfl, fun id used => ?_, fun id used => ?_, fun worker known => ?_,
    fun id active => ?_⟩, ⟨?_, rfl, List.nodup_nil, fun id => ?_⟩⟩
  · exact absurd used (Nat.not_lt_zero id)
  · exact absurd used (Nat.not_lt_zero id)
  · cases known
  · rcases active with impossible | impossible <;> cases impossible
  · exact Nat.zero_le _
  · constructor <;> intro impossible <;> cases impossible

end Marketplace

namespace Consortium

variable {Ledger : Type} (chain : ConsortiumChain Ledger)

/-- Each call of the three contracts leaves the market as it is, or is one call of the
market: by the sender itself, or by the validator. -/
theorem place_step (state : Consortium Ledger) (call : Msg × Call Ledger) :
    (state.step chain call).place = state.place ∨
      ∃ inner, (state.step chain call).place =
        state.place.step chain.toMarketChain inner := by
  obtain ⟨msg, call⟩ := call
  unfold step
  split
  case isFalse => exact Or.inl rfl
  case isTrue external =>
    cases executed : state.execute chain msg call with
    | error revert => exact Or.inl rfl
    | ok after =>
        rw [settle_ok]
        cases call with
        | market call =>
            simp only [execute, bind_ok_iff, pure_ok_iff] at executed
            obtain ⟨place, called, rfl⟩ := executed
            refine Or.inr ⟨(msg, call), ?_⟩
            rw [Marketplace.step, if_pos external.1, called, settle_ok]
        | assembleCommittee jobId =>
            simp only [execute, assembleCommittee, bind_ok_iff, pure_ok_iff] at executed
            obtain ⟨-, -, -, -, -, -, -, -, rfl⟩ := executed
            exact Or.inl rfl
        | vote jobId approve =>
            simp only [execute, vote, bind_ok_iff] at executed
            obtain ⟨-, -, -, -, -, -, -, -, committee, -, executed⟩ := executed
            split at executed
            case isFalse =>
              rw [pure_ok_iff] at executed
              exact Or.inl (executed ▸ rfl)
            case isTrue =>
              simp only [bind_ok_iff, pure_ok_iff] at executed
              obtain ⟨place, called, rfl⟩ := executed
              refine Or.inr ⟨({ msg with sender := chain.validatorAddress },
                .resolve jobId (decide (2 ≤ committee.approves))), ?_⟩
              rw [Marketplace.step, if_pos chain.separate]
              exact (congrArg (settle state.place) called).symm

theorem sound_step {state : Consortium Ledger}
    (sound : Marketplace.Sound chain.toMarketChain state.place) (call : Msg × Call Ledger) :
    Marketplace.Sound chain.toMarketChain (state.step chain call).place ∧
      ∀ id, Marketplace.JobStep (state.place.market.jobs id)
        ((state.step chain call).place.market.jobs id) := by
  rcases place_step chain state call with same | ⟨inner, same⟩
  · rw [same]
    exact ⟨sound, fun id => .refl _⟩
  · rw [same]
    exact Marketplace.sound_step sound inner

/-- In every history of the three contracts the market holds the bounties of its open
jobs and has paid each ended job once, and jobs only move forward. -/
theorem escrow_sound (chain : ConsortiumChain Ledger)
    (bountyToken stakeToken resolver owner : Address) (ledger : Ledger)
    (calls : List (Msg × Call Ledger)) :
    let start := deployed (.deployed bountyToken stakeToken resolver owner ledger)
    (∀ state ∈ GuardedRun.states (step chain) start calls,
      Marketplace.EscrowSound chain.toMarketChain state.place) ∧
    ∀ taken ∈ GuardedRun.steps (step chain) start calls, ∀ id,
      Marketplace.JobStep (taken.1.place.market.jobs id)
        ((taken.1.step chain taken.2).place.market.jobs id) := by
  intro start
  have sound : ∀ state ∈ GuardedRun.states (step chain) start calls,
      Marketplace.Sound chain.toMarketChain state.place :=
    GuardedRun.invariant_of_preserved (step chain)
      (fun state => Marketplace.Sound chain.toMarketChain state.place)
      (fun state call holds => (sound_step chain holds call).1) calls
      (Marketplace.sound_deployed _ _ _ _ _ _)
  refine ⟨fun state member => (sound state member).2, fun taken member => ?_⟩
  exact (sound_step chain
    (sound _ (GuardedRun.mem_states_of_mem_steps member).1) taken.2).2

end Consortium

end Roko
