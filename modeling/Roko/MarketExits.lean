import Roko.MarketEscrow
import Mathlib.Algebra.Order.BigOperators.Group.Finset

/-!
# Ways out of the escrow

An open job can still be paid out whatever has happened before, provided its `minTier`
names a tier and the counters of its worker have room: a new worker registers, is
given a record of successes, takes the job and submits, and the resolver ends it.  A
funded job whose `minTier` is no tier stays funded whatever is called.
-/

namespace Roko

open Contracts

namespace WorkerRegistry

/-- The numbers of a record that every history keeps. -/
structure RecordBounded (worker : Worker) : Prop where
  reputation : worker.reputation ≤ scale
  bond : worker.bond < 2 ^ 256

theorem RecordBounded.step {before after : Worker} (bounded : RecordBounded before)
    (step : RecordStep before after) : RecordBounded after :=
  ⟨step.bounded bounded.reputation, lt_of_le_of_lt step.bond bounded.bond⟩

theorem applyDecay_of_fresh {now : Nat} {worker : Worker}
    (fresh : worker.lastUpdated = toUint64 now) : applyDecay now worker = worker := by
  unfold applyDecay
  dsimp only
  rw [if_pos (by omega)]

/-- A record after some successes in a row, all at one time. -/
def praised (worker : Worker) (successes : Nat) : Worker :=
  { worker with
    reputation := (averaged · true)^[successes] worker.reputation
    jobsCompleted := worker.jobsCompleted + successes }

theorem afterOutcome_praised {now : Nat} {worker : Worker}
    (fresh : worker.lastUpdated = toUint64 now) (successes : Nat) :
    afterOutcome now (praised worker successes) true = praised worker (successes + 1) := by
  have undecayed : applyDecay now (praised worker successes) = praised worker successes :=
    applyDecay_of_fresh fresh
  unfold afterOutcome
  rw [undecayed, ← fresh]
  simp only [praised, Function.iterate_succ_apply', Bool.toNat_true, Bool.not_true,
    Bool.toNat_false, Nat.add_assoc, Nat.add_zero]

theorem praised_reputation_le {worker : Worker} (bounded : worker.reputation ≤ scale)
    (successes : Nat) : (praised worker successes).reputation ≤ scale := by
  induction successes with
  | zero => exact bounded
  | succ successes ih =>
      simp only [praised, Function.iterate_succ_apply'] at ih ⊢
      exact averaged_le ih true

variable {registry : WorkerRegistry} {worker : Address}

theorem setWorker_setWorker (first second : Worker) :
    (registry.setWorker worker first).setWorker worker second =
      registry.setWorker worker second := by
  simp only [setWorker, Function.update_idem]

theorem setWorker_workers (record : Worker) :
    (registry.setWorker worker record).workers worker = record :=
  Function.update_self _ _ _

theorem slash_eq (registry : WorkerRegistry) (msg : Msg) (worker : Address)
    (bpsAmount : Nat) (authorized : registry.authorized msg.sender = true)
    (existing : (registry.workers worker).existing = true)
    (fits : (registry.workers worker).bond * bpsAmount < 2 ^ 256) :
    ∃ bond, registry.slash msg worker bpsAmount =
        .ok (registry.setWorker worker { registry.workers worker with bond }) ∧
      bond = (registry.workers worker).bond -
        min ((registry.workers worker).bond * bpsAmount / 10_000)
          (registry.workers worker).bond := by
  refine ⟨_, ?_, rfl⟩
  simp only [slash, bind_ok_iff, ensure_ok_iff, checkedMul_ok_iff, checkedSub_ok_iff,
    pure_ok_iff]
  exact ⟨(), authorized, (), existing, _, ⟨fits, rfl⟩, _, ⟨Nat.min_le_right _ _, rfl⟩, rfl⟩

end WorkerRegistry

namespace Marketplace

open WorkerRegistry BountyMarket

variable {Ledger : Type}

/-- What the tokens are relied on for: the market can pay what it holds, and the others
can bring an account to hold and approve the bond of a worker. -/
structure TokensServe (chain : MarketChain Ledger) (bountyToken stakeToken : Address) :
    Prop where
  pays : ∀ ledger receiver amount, receiver ≠ 0 →
    amount ≤ chain.erc20.balanceOf ledger bountyToken chain.marketAddress →
    ∃ after, chain.erc20.transfer ledger bountyToken chain.marketAddress receiver amount =
      some (true, after)
  funds : ∀ ledger worker, chain.Outside worker → ∃ funded after,
    chain.erc20.balanceOf ledger bountyToken chain.marketAddress ≤
        chain.erc20.balanceOf funded bountyToken chain.marketAddress ∧
      chain.erc20.balanceOf ledger stakeToken chain.registryAddress ≤
        chain.erc20.balanceOf funded stakeToken chain.registryAddress ∧
      chain.erc20.transferFrom funded stakeToken chain.registryAddress worker
        chain.registryAddress minBond = some (true, after)

/-- The resolver and the owner of the registry can call, and some account can still
become a worker. -/
structure Cooperative (chain : MarketChain Ledger) (state : Marketplace Ledger) : Prop where
  resolver : chain.Outside state.market.resolver
  owner : chain.Outside state.registry.owner
  newcomer : ∃ account, chain.Outside account ∧
    (state.registry.workers account).existing = false

/-- After some further calls, made in time from now on, the job has ended and its
bounty has been paid out. -/
def CanExit (chain : MarketChain Ledger) (now : Nat) (state : Marketplace Ledger)
    (id : Nat) : Prop :=
  ∃ further : List (Msg × Call Ledger),
    (now :: further.map (·.1.timestamp)).Pairwise (· ≤ ·) ∧
    ((further.foldl (step chain) state).market.jobs id).state = .terminal ∧
    (further.foldl (step chain) state).payout chain id ∈
      (further.foldl (step chain) state).payments chain

/-- The tier that a funded job asks for is a tier, and a counter of the worker that a
job is assigned to has room for one more outcome. -/
structure Exitable (state : Marketplace Ledger) (id : Nat) : Prop where
  tier : (state.market.jobs id).state = .funded → (state.market.jobs id).minTier ≤ 4
  countable : (state.market.jobs id).state = .assigned ∨
      (state.market.jobs id).state = .submitted →
    ∃ outcome, count (state.registry.workers (state.market.jobs id).worker) outcome + 1 <
      2 ^ 64

variable {chain : MarketChain Ledger} {msg : Msg} {state after : Marketplace Ledger}
  {call : Call Ledger} {bountyToken stakeToken : Address}

/-- The invariant of the contracts deployed with these tokens. -/
structure Intact (chain : MarketChain Ledger) (bountyToken stakeToken : Address)
    (state : Marketplace Ledger) : Prop where
  sound : Sound chain state
  records : ∀ worker, RecordBounded (state.registry.workers worker)
  bountyToken : state.market.bountyToken = bountyToken
  stakeToken : state.registry.stakeToken = stakeToken

theorem records_setWorker {registry : WorkerRegistry} {worker : Address} {record : Worker}
    (records : ∀ other, RecordBounded (registry.workers other))
    (bounded : RecordBounded record) (other : Address) :
    RecordBounded ((registry.setWorker worker record).workers other) := by
  unfold WorkerRegistry.setWorker
  dsimp only
  rw [Function.update_apply]
  split
  · exact bounded
  · exact records other

theorem records_effect (records : ∀ worker, RecordBounded (state.registry.workers worker))
    (effect : Effect chain msg state call after) :
    ∀ worker, RecordBounded (after.registry.workers worker) := by
  cases effect with
  | @register amount tokens new enough paid =>
      refine records_setWorker records ⟨?_, ?_⟩
      · exact Nat.div_le_self _ _
      · exact amount.isLt
  | bond existed paid fits =>
      refine records_setWorker records ⟨?_, ?_⟩
      · exact (records msg.sender).reputation
      · exact fits
  | unbond existed enough paid =>
      refine records_setWorker records ⟨?_, ?_⟩
      · exact (records msg.sender).reputation
      · exact lt_of_le_of_lt (Nat.sub_le _ _) (records msg.sender).bond
  | record kind change => exact records_setWorker records ((records _).step change)
  | resolve byResolver submitted paid change =>
      obtain ⟨record, change, rfl⟩ := change
      exact records_setWorker records ((records _).step change)
  | setAuthorized => exact records
  | setResolver => exact records
  | postJob => exact records
  | assign => exact records
  | submit => exact records
  | token => exact records

/-- No call changes which tokens the contracts use. -/
theorem tokens_effect (effect : Effect chain msg state call after) :
    after.market.bountyToken = state.market.bountyToken ∧
      after.registry.stakeToken = state.registry.stakeToken := by
  cases effect with
  | resolve byResolver submitted paid change =>
      obtain ⟨record, -, rfl⟩ := change
      exact ⟨rfl, rfl⟩
  | _ => exact ⟨rfl, rfl⟩

theorem Intact.step (intact : Intact chain bountyToken stakeToken state)
    (call : Msg × Call Ledger) :
    Intact chain bountyToken stakeToken (state.step chain call) := by
  have sound := (sound_step intact.sound call).1
  rcases step_cases chain state call with same | ⟨-, effect⟩
  · rw [same]
    exact intact
  · obtain ⟨bounty, stake⟩ := tokens_effect effect
    exact ⟨sound, records_effect intact.records effect, bounty.trans intact.bountyToken,
      stake.trans intact.stakeToken⟩

theorem Intact.run (intact : Intact chain bountyToken stakeToken state)
    (calls : List (Msg × Call Ledger)) :
    Intact chain bountyToken stakeToken (calls.foldl (Marketplace.step chain) state) := by
  induction calls generalizing state with
  | nil => exact intact
  | cons call calls ih => exact ih (intact.step call)

theorem intact_deployed (chain : MarketChain Ledger)
    (bountyToken stakeToken resolver owner : Address) (ledger : Ledger) :
    Intact chain bountyToken stakeToken
      (deployed bountyToken stakeToken resolver owner ledger) := by
  refine ⟨sound_deployed chain _ _ _ _ _, fun worker => ⟨?_, ?_⟩, rfl, rfl⟩
  · exact Nat.zero_le _
  · exact Nat.two_pow_pos 256

theorem counts_setWorker {registry : WorkerRegistry} {worker : Address} {record : Worker}
    {outcome : Bool}
    (kept : count (registry.workers worker) outcome ≤ count record outcome)
    (other : Address) : count (registry.workers other) outcome ≤
      count ((registry.setWorker worker record).workers other) outcome := by
  unfold WorkerRegistry.setWorker
  dsimp only
  rw [Function.update_apply]
  split
  case isTrue same => exact same ▸ kept
  case isFalse => exact le_rfl

/-- The counters of a registered worker never go down. -/
theorem counts_effect (effect : Effect chain msg state call after) {worker : Address}
    (existed : (state.registry.workers worker).existing = true) (outcome : Bool) :
    count (state.registry.workers worker) outcome ≤
      count (after.registry.workers worker) outcome := by
  cases effect with
  | register new =>
      have different : worker ≠ msg.sender := by
        rintro rfl
        rw [new] at existed
        cases existed
      refine le_of_eq (congrArg (count · outcome) ?_)
      exact (Function.update_of_ne different _ _).symm
  | bond =>
      apply counts_setWorker
      exact le_rfl
  | unbond =>
      apply counts_setWorker
      exact le_rfl
  | record kind change => exact counts_setWorker (change.counts outcome) worker
  | resolve byResolver submitted paid change =>
      obtain ⟨record, change, rfl⟩ := change
      exact counts_setWorker (change.counts outcome) worker
  | setAuthorized => exact le_rfl
  | setResolver => exact le_rfl
  | postJob => exact le_rfl
  | assign => exact le_rfl
  | submit => exact le_rfl
  | token => exact le_rfl

/-- A call that moves a job forward finds it exitable. -/
theorem job_effect (effect : Effect chain msg state call after) {id : Nat}
    (given : id < state.market.nextJobId) :
    after.market.jobs id = state.market.jobs id ∨
      ((state.market.jobs id).state = .funded ∧ (state.market.jobs id).minTier ≤ 4) ∨
      ((state.market.jobs id).state = .assigned ∧
        (after.market.jobs id).state = .submitted ∧
        (after.market.jobs id).worker = (state.market.jobs id).worker) ∨
      ((state.market.jobs id).state = .submitted ∧ ∃ outcome,
        count (state.registry.workers (state.market.jobs id).worker) outcome + 1 <
          2 ^ 64) := by
  have other : ∀ {written : Nat} (job : Job), id ≠ written →
      (state.market.setJob written job).jobs id = state.market.jobs id :=
    fun _ different => Function.update_of_ne different _ _
  cases effect with
  | postJob => exact Or.inl (other _ (by omega))
  | @assign written worker tier funded converted accepts =>
      by_cases same : id = written.toNat
      · subst same
        exact Or.inr (Or.inl ⟨funded, Tier.exists_ofByte_iff.mp ⟨tier, converted⟩⟩)
      · exact Or.inl (other _ same)
  | @submit written resultHash assigned byWorker =>
      by_cases same : id = written.toNat
      · subst same
        refine Or.inr (Or.inr (Or.inl ⟨assigned, ?_⟩))
        unfold BountyMarket.setJob
        dsimp only
        rw [Function.update_self]
        exact ⟨rfl, rfl⟩
      · exact Or.inl (other _ same)
  | @resolve written accepted tokens registry byResolver submitted paid change countable =>
      by_cases same : id = written.toNat
      · subst same
        exact Or.inr (Or.inr (Or.inr ⟨submitted, accepted, countable⟩))
      · exact Or.inl (other _ same)
  | setAuthorized => exact Or.inl rfl
  | register => exact Or.inl rfl
  | bond => exact Or.inl rfl
  | unbond => exact Or.inl rfl
  | record => exact Or.inl rfl
  | setResolver => exact Or.inl rfl
  | token => exact Or.inl rfl

/-- What is exitable after a call was exitable before it. -/
theorem exitable_of_effect (sound : JobsSound chain state)
    (effect : Effect chain msg state call after) {id : Nat}
    (given : id < state.market.nextJobId) (exitable : Exitable after id) :
    Exitable state id := by
  have earlier : ∀ worker, (state.registry.workers worker).existing = true →
      (∃ outcome, count (after.registry.workers worker) outcome + 1 < 2 ^ 64) →
      ∃ outcome, count (state.registry.workers worker) outcome + 1 < 2 ^ 64 := by
    rintro worker existed ⟨outcome, fits⟩
    have kept := counts_effect effect existed outcome
    exact ⟨outcome, by omega⟩
  rcases job_effect effect given with same | ⟨funded, tier⟩ |
    ⟨assigned, submitted, worker⟩ | ⟨submitted, countable⟩
  · refine ⟨fun funded => ?_, fun active => earlier _ (sound.assigned id active) ?_⟩
    · rw [← same] at funded ⊢
      exact exitable.tier funded
    · rw [← same] at active ⊢
      exact exitable.countable active
  · refine ⟨fun _ => tier, fun active => ?_⟩
    rw [funded] at active
    rcases active with impossible | impossible <;> cases impossible
  · refine ⟨fun funded => ?_, fun active => earlier _ (sound.assigned id active) ?_⟩
    · rw [assigned] at funded
      cases funded
    · rw [← worker]
      exact exitable.countable (Or.inr submitted)
  · refine ⟨fun funded => ?_, fun _ => countable⟩
    rw [submitted] at funded
    cases funded

theorem exitable_of_run (intact : Intact chain bountyToken stakeToken state) {id : Nat}
    (given : id < state.market.nextJobId) (calls : List (Msg × Call Ledger))
    (exitable : Exitable (calls.foldl (step chain) state) id) : Exitable state id := by
  induction calls generalizing state with
  | nil => exact exitable
  | cons call calls ih =>
      have next := (sound_step intact.sound call).2 id
      have givenAfter : id < (state.step chain call).market.nextJobId := by
        refine (intact.step call).sound.1.given ?_
        have started := (intact.sound.1.started id given).1
        intro unused
        have moves := next.moves
        rw [unused] at moves
        generalize (state.market.jobs id).state = before at moves started
        cases moves
        exact started rfl
      have after := ih (intact.step call) givenAfter exitable
      rcases step_cases chain state call with same | ⟨-, effect⟩
      · rw [same] at after
        exact after
      · exact exitable_of_effect intact.sound.1 effect given after

/-- A job with a way out is exitable. -/
theorem exitable_of_canExit (intact : Intact chain bountyToken stakeToken state) {id : Nat}
    (given : id < state.market.nextJobId) {now : Nat} (exits : CanExit chain now state id) :
    Exitable state id := by
  obtain ⟨further, -, ended, -⟩ := exits
  refine exitable_of_run intact given further ⟨fun funded => ?_, fun active => ?_⟩
  · rw [ended] at funded
    cases funded
  · rw [ended] at active
    rcases active with impossible | impossible <;> cases impossible

/-- Calls made now lead from one state to another. -/
def Leads (chain : MarketChain Ledger) (now : Nat) (state after : Marketplace Ledger) :
    Prop :=
  ∃ further : List (Msg × Call Ledger), (∀ call ∈ further, call.1.timestamp = now) ∧
    further.foldl (step chain) state = after

variable {now : Nat}

theorem Leads.refl : Leads chain now state state :=
  ⟨[], by simp, rfl⟩

theorem Leads.trans {middle : Marketplace Ledger} (first : Leads chain now state middle)
    (second : Leads chain now middle after) : Leads chain now state after := by
  obtain ⟨before, beforeNow, rfl⟩ := first
  obtain ⟨later, laterNow, rfl⟩ := second
  refine ⟨before ++ later, fun call member => ?_, List.foldl_append⟩
  rcases List.mem_append.mp member with early | late
  · exact beforeNow call early
  · exact laterNow call late

/-- An account makes one call. -/
theorem Leads.once {sender : Address} (call : Call Ledger) (outside : chain.Outside sender)
    (executed : state.execute chain ⟨sender, now, 0⟩ call = .ok after) :
    Leads chain now state after := by
  refine ⟨[(⟨sender, now, 0⟩, call)], by simp, ?_⟩
  rw [List.foldl_cons, List.foldl_nil, Marketplace.step, if_pos outside, executed, settle_ok]

theorem Leads.intact (leads : Leads chain now state after)
    (intact : Intact chain bountyToken stakeToken state) :
    Intact chain bountyToken stakeToken after := by
  obtain ⟨further, -, rfl⟩ := leads
  exact intact.run further

/-- A job that has ended has been paid for. -/
theorem canExit_of_leads (intact : Intact chain bountyToken stakeToken state) {id : Nat}
    (leads : Leads chain now state after) (ended : (after.market.jobs id).state = .terminal) :
    CanExit chain now state id := by
  have escrow := (leads.intact intact).sound.2
  obtain ⟨further, allNow, rfl⟩ := leads
  refine ⟨further, List.pairwise_of_forall_mem_list fun early first late second => ?_,
    ended, ?_⟩
  · have same : ∀ time ∈ now :: further.map (·.1.timestamp), time = now := by
      intro time member
      rcases List.mem_cons.mp member with rfl | later
      · rfl
      · obtain ⟨call, among, rfl⟩ := List.mem_map.mp later
        exact allNow call among
    rw [same early first, same late second]
  · rw [escrow.paid]
    exact List.mem_map_of_mem ((escrow.ended id).mpr ended)

/-- The registry with one more authorized caller. -/
def authorize (state : Marketplace Ledger) (caller : Address) : Marketplace Ledger :=
  { state with
    registry := { state.registry with
      authorized := Function.update state.registry.authorized caller true } }

/-- The registry with another record of a worker. -/
def rewrite (state : Marketplace Ledger) (worker : Address) (record : Worker) :
    Marketplace Ledger :=
  { state with registry := state.registry.setWorker worker record }

theorem rewrite_self (state : Marketplace Ledger) (worker : Address) :
    state.rewrite worker (state.registry.workers worker) = state := by
  simp only [rewrite, WorkerRegistry.setWorker, Function.update_eq_self]

theorem leads_authorize (state : Marketplace Ledger)
    (owner : chain.Outside state.registry.owner) (caller : Address) :
    Leads chain now state (state.authorize caller) := by
  refine .once (.setAuthorized caller true) owner (quiet_ok.mpr ⟨_, ?_, rfl⟩)
  simp only [WorkerRegistry.setAuthorized, bind_ok_iff, ensure_ok_iff, pure_ok_iff]
  exact ⟨(), trivial, trivial⟩

/-- The owner of the registry can report any number of successes that the counter has
room for. -/
theorem leads_praise (state : Marketplace Ledger)
    (owner : chain.Outside state.registry.owner)
    (authorized : state.registry.authorized state.registry.owner = true)
    {worker : Address} {record : Worker} (existing : record.existing = true)
    (bounded : record.reputation ≤ scale) (fresh : record.lastUpdated = toUint64 now)
    (successes : Nat) (fits : record.jobsCompleted + successes < 2 ^ 64) :
    Leads chain now (state.rewrite worker record)
      (state.rewrite worker (praised record successes)) := by
  induction successes with
  | zero => exact .refl
  | succ successes ih =>
      refine (ih (by omega)).trans (.once (.updateReputation worker true) owner
        (quiet_ok.mpr ⟨_, updateReputation_eq authorized ?_ ?_ ?_, ?_⟩))
      all_goals simp only [rewrite, setWorker_workers]
      · exact existing
      · exact praised_reputation_le bounded successes
      · exact fits
      · rw [afterOutcome_praised fresh, setWorker_setWorker]

/-- The owner of the registry can slash a bond down until a rejection can slash it. -/
theorem leads_slashed (now : Nat) (state : Marketplace Ledger)
    (owner : chain.Outside state.registry.owner)
    (authorized : state.registry.authorized state.registry.owner = true)
    {worker : Address} {record : Worker} (existing : record.existing = true)
    (bond : Nat) (fits : bond < 2 ^ 256) :
    ∃ low, low * 500 < 2 ^ 256 ∧ Leads chain now (state.rewrite worker { record with bond })
      (state.rewrite worker { record with bond := low }) := by
  induction bond using Nat.strong_induction_on with
  | _ bond ih =>
      by_cases low : bond * 500 < 2 ^ 256
      · exact ⟨bond, low, .refl⟩
      · -- one basis point less, and again
        let before := state.rewrite worker { record with bond }
        have held : before.registry.workers worker = { record with bond } :=
          setWorker_workers _
        obtain ⟨rest, slashing, smaller⟩ := slash_eq before.registry
          ⟨state.registry.owner, now, 0⟩ worker 1 authorized (by rw [held]; exact existing)
          (by rw [held]; dsimp only; omega)
        rw [held] at smaller slashing
        dsimp only at smaller
        obtain ⟨final, small, leads⟩ := ih rest (by omega) (by omega)
        refine ⟨final, small, Leads.trans (.once (.slash worker 0 1) owner
          (quiet_ok.mpr ⟨_, slashing, rfl⟩)) ?_⟩
        simp only [before, rewrite, setWorker_setWorker] at leads ⊢
        exact leads

/-- An account with the bond of a worker registers. -/
theorem leads_register (now : Nat) (serve : TokensServe chain bountyToken stakeToken)
    (intact : Intact chain bountyToken stakeToken state) {worker : Address}
    (outside : chain.Outside worker)
    (new : (state.registry.workers worker).existing = false) :
    ∃ tokens, Leads chain now state
      { state with
        registry := state.registry.registeredWith ⟨worker, now, 0⟩ minBond
        tokens } := by
  obtain ⟨funded, paid, market, registry, moves⟩ :=
    serve.funds state.tokens.ledger worker outside
  rw [← intact.bountyToken] at market
  rw [← intact.stakeToken] at registry moves
  refine ⟨⟨paid, state.tokens.transfers ++
    [⟨state.registry.stakeToken, worker, chain.registryAddress, minBond⟩]⟩, ?_⟩
  have arrives : Leads chain now state
      { state with tokens := { state.tokens with ledger := funded } } := by
    refine .once (.token funded) outside ?_
    simp only [execute, bind_ok_iff, ensure_ok_iff, pure_ok_iff]
    exact ⟨(), ⟨market, registry⟩, trivial⟩
  refine arrives.trans (.once (.register (BitVec.ofNat 256 minBond)) outside
    (withTokens_ok.mpr ⟨(_, _), ?_, rfl⟩))
  have amount : (BitVec.ofNat 256 minBond).toNat = minBond := by decide
  rw [amount]
  simp only [register, pull, bind_ok_iff, ensure_ok_iff, pure_ok_iff]
  exact ⟨(), by simp [new], (), le_rfl, _, Tokens.answered_ok_iff.mpr ⟨moves, rfl⟩, rfl⟩

/-- The record of a new worker. -/
def newcomer (now : Nat) : Worker :=
  ⟨minBond, scale / 2, 0, 0, toUint64 now, true⟩

/-- Five successes make a new worker an elite one. -/
theorem canAccept_praised {registry : WorkerRegistry} {worker : Address}
    (known : registry.workers worker = praised (newcomer now) 5) (minTier : Tier) :
    registry.canAccept now worker minTier = true := by
  have fresh : toUint64 now ≤ (praised (newcomer now) 5).lastUpdated := le_rfl
  have reputation : effectiveReputation now (praised (newcomer now) 5) =
      (averaged · true)^[5] 500_000 := by
    unfold effectiveReputation
    dsimp only
    rw [if_pos fresh]
    rfl
  have elite : tierOf ((averaged · true)^[5] 500_000) = .elite := by decide
  have existing : (praised (newcomer now) 5).existing = true := rfl
  simp only [canAccept, known, reputation, elite, existing]
  exact decide_eq_true minTier.toNat_le

/-- A worker that is new can be brought to take a funded job. -/
theorem leads_assigned (now : Nat) (serve : TokensServe chain bountyToken stakeToken)
    (intact : Intact chain bountyToken stakeToken state)
    (cooperative : Cooperative chain state) {id : U256}
    (funded : (state.market.jobs id.toNat).state = .funded)
    (tier : (state.market.jobs id.toNat).minTier ≤ 4) :
    ∃ after, Leads chain now state after ∧
      (after.market.jobs id.toNat).state = .assigned ∧
      after.market.resolver = state.market.resolver ∧
      after.registry.owner = state.registry.owner ∧
      count (after.registry.workers (after.market.jobs id.toNat).worker) true + 1 <
        2 ^ 64 := by
  obtain ⟨worker, outside, new⟩ := cooperative.newcomer
  obtain ⟨tokens, registers⟩ := leads_register now serve intact outside new
  obtain ⟨minTier, converted⟩ := Tier.exists_ofByte_iff.mpr tier
  let entered : Marketplace Ledger :=
    { state with
      registry := state.registry.registeredWith ⟨worker, now, 0⟩ minBond
      tokens }
  let owned := entered.authorize state.registry.owner
  let known := owned.rewrite worker (praised (newcomer now) 5)
  have authorizes : Leads chain now entered owned :=
    leads_authorize entered cooperative.owner _
  have authorized : owned.registry.authorized owned.registry.owner = true :=
    Function.update_self _ _ _
  have praises : Leads chain now (owned.rewrite worker (newcomer now)) known := by
    apply leads_praise owned cooperative.owner authorized
    · rfl
    · exact Nat.div_le_self _ _
    · rfl
    · simp [newcomer]
  have record : owned.registry.workers worker = newcomer now := Function.update_self _ _ _
  rw [← record, rewrite_self] at praises
  have accepts : known.registry.canAccept now worker minTier = true :=
    canAccept_praised (setWorker_workers _) minTier
  have assigns : known.execute chain ⟨worker, now, 0⟩ (.assign id worker) = .ok
      { known with
        market := known.market.setJob id.toNat
          { known.market.jobs id.toNat with worker, state := .assigned }
        events := known.events ++ [.jobAssigned id.toNat worker] } := by
    simp only [execute, assign, bind_ok_iff, ensure_ok_iff, pure_ok_iff]
    exact ⟨(), funded, minTier, converted, (), accepts, trivial⟩
  refine ⟨_, registers.trans (authorizes.trans (praises.trans
    (.once _ outside assigns))), ?_, rfl, rfl, ?_⟩
  · simp only [BountyMarket.setJob, Function.update_self]
  · simp only [BountyMarket.setJob, Function.update_self, known, rewrite, setWorker_workers]
    simp [count, praised, newcomer]

/-- The worker of a job submits it. -/
theorem leads_submitted (intact : Intact chain bountyToken stakeToken state) {id : U256}
    (assigned : (state.market.jobs id.toNat).state = .assigned) :
    Leads chain now state
      { state with
        market := state.market.setJob id.toNat
          { state.market.jobs id.toNat with resultHash := 0, state := .submitted }
        events := state.events ++ [.jobSubmitted id.toNat 0] } := by
  have outside := intact.sound.1.workers _ (intact.sound.1.assigned _ (Or.inl assigned))
  refine .once (.submit id 0) outside ?_
  simp only [execute, submit, bind_ok_iff, ensure_ok_iff, pure_ok_iff]
  exact ⟨(), assigned, (), trivial, trivial⟩

theorem bounty_le_held (intact : Intact chain bountyToken stakeToken state) {id : Nat}
    (submitted : (state.market.jobs id).state = .submitted) :
    (state.market.jobs id).bounty ≤ state.held chain := by
  have given := intact.sound.1.given (by rw [submitted]; exact JobState.noConfusion)
  have open_ : outstanding (state.market.jobs id) = (state.market.jobs id).bounty := by
    rw [outstanding, submitted]
    rfl
  have counted : outstanding (state.market.jobs id) ≤ state.market.escrowed :=
    Finset.single_le_sum (f := fun other => outstanding (state.market.jobs other))
      (fun _ _ => Nat.zero_le _) (Finset.mem_range.mpr given)
  rw [← open_]
  exact counted.trans intact.sound.2.solvent

theorem terminal_of_resolve {id : U256} {accepted : Bool}
    (executed : state.execute chain msg (.resolve id accepted) = .ok after) :
    (after.market.jobs id.toNat).state = .terminal := by
  cases effect_of_execute executed with
  | resolve => simp only [BountyMarket.setJob, Function.update_self]
  | record kind => rcases kind with ⟨_, same⟩ | ⟨_, _, same⟩ | same <;> cases same

/-- The resolver can end a submitted job either way, when the market is an authorized
caller, the counter has room and the bond can be slashed. -/
theorem exists_resolve (now : Nat) (outcome : Bool)
    (serve : TokensServe chain bountyToken stakeToken)
    (intact : Intact chain bountyToken stakeToken state) {id : U256}
    (submitted : (state.market.jobs id.toNat).state = .submitted)
    (authorized : state.registry.authorized chain.marketAddress = true)
    (fits : count (state.registry.workers (state.market.jobs id.toNat).worker) outcome + 1 <
      2 ^ 64)
    (low : (state.registry.workers (state.market.jobs id.toNat).worker).bond * 500 <
      2 ^ 256) :
    ∃ after, state.execute chain ⟨state.market.resolver, now, 0⟩ (.resolve id outcome) =
      .ok after := by
  have jobs := intact.sound.1
  have given := jobs.given (by rw [submitted]; exact JobState.noConfusion)
  have existing := jobs.assigned _ (Or.inr submitted)
  have payeeOutside : chain.Outside (payee (state.market.jobs id.toNat) outcome) := by
    cases outcome with
    | true => exact jobs.workers _ existing
    | false => exact jobs.posters _ given
  have enough := bounty_le_held intact submitted
  rw [held, intact.bountyToken] at enough
  obtain ⟨ledger, moves⟩ := serve.pays state.tokens.ledger _ _ payeeOutside.1 enough
  rw [← intact.bountyToken] at moves
  have pays : ∀ message, state.tokens.transfer chain.erc20 state.market.bountyToken
      chain.marketAddress (payee (state.market.jobs id.toNat) outcome)
      (state.market.jobs id.toNat).bounty message = .ok ⟨ledger, state.tokens.transfers ++
        [⟨state.market.bountyToken, chain.marketAddress,
          payee (state.market.jobs id.toNat) outcome,
          (state.market.jobs id.toNat).bounty⟩]⟩ :=
    fun message => Tokens.answered_ok_iff.mpr ⟨moves, rfl⟩
  have updates : state.registry.updateReputation ⟨chain.marketAddress, now, 0⟩ _ outcome = _ :=
    updateReputation_eq authorized existing (intact.records _).reputation fits
  cases outcome with
  | true =>
      apply Exists.intro
      simp only [execute, resolve, bind_ok_iff, ensure_ok_iff, if_true]
      exact ⟨(), trivial, (), submitted, _, pays _, _, updates, rfl⟩
  | false =>
      let record := afterOutcome now
        (state.registry.workers (state.market.jobs id.toNat).worker) false
      have bond : record.bond =
          (state.registry.workers (state.market.jobs id.toNat).worker).bond :=
        (applyDecay_counters now _).2.2
      have known : (state.registry.setWorker (state.market.jobs id.toNat).worker
          record).workers (state.market.jobs id.toNat).worker = record := setWorker_workers _
      obtain ⟨rest, slashes, -⟩ := slash_eq
        (state.registry.setWorker (state.market.jobs id.toNat).worker record)
        ⟨chain.marketAddress, now, 0⟩ (state.market.jobs id.toNat).worker 500 authorized
        (by rw [known]; exact (applyDecay_existing now _).trans existing)
        (by rw [known, bond]; exact low)
      apply Exists.intro
      simp only [execute, resolve, bind_ok_iff, ensure_ok_iff, Bool.false_eq_true, if_false]
      exact ⟨(), trivial, (), submitted, _, pays _, _, updates, _, slashes, rfl⟩

/-- A submitted job can be ended, when its worker has a counter with room. -/
theorem leads_ended (now : Nat) (serve : TokensServe chain bountyToken stakeToken)
    (intact : Intact chain bountyToken stakeToken state)
    (resolver : chain.Outside state.market.resolver)
    (owner : chain.Outside state.registry.owner) {id : U256}
    (submitted : (state.market.jobs id.toNat).state = .submitted) {outcome : Bool}
    (fits : count (state.registry.workers (state.market.jobs id.toNat).worker) outcome + 1 <
      2 ^ 64) :
    ∃ after, Leads chain now state after ∧
      (after.market.jobs id.toNat).state = .terminal := by
  let worker := (state.market.jobs id.toNat).worker
  let owned := state.authorize state.registry.owner
  let record := owned.registry.workers worker
  have existing : record.existing = true := intact.sound.1.assigned _ (Or.inr submitted)
  obtain ⟨low, small, slashes⟩ := leads_slashed now owned owner
    (Function.update_self _ _ _) existing record.bond (intact.records worker).bond
  let slashed := owned.rewrite worker { record with bond := low }
  let ready := slashed.authorize chain.marketAddress
  have owns : Leads chain now state owned := leads_authorize state owner _
  have allows : Leads chain now slashed ready := leads_authorize slashed owner _
  have same : owned.rewrite worker record = owned := rewrite_self owned worker
  have leads : Leads chain now state ready := by
    rw [same] at slashes
    exact owns.trans (slashes.trans allows)
  have known : ready.registry.workers worker = { record with bond := low } :=
    setWorker_workers _
  have worked : (ready.market.jobs id.toNat).worker = worker := rfl
  obtain ⟨after, resolves⟩ := exists_resolve now outcome serve (leads.intact intact)
    submitted (Function.update_self _ _ _) (by rw [worked, known]; exact fits)
    (by rw [worked, known]; exact small)
  exact ⟨after, leads.trans (.once _ resolver resolves), terminal_of_resolve resolves⟩

/-- In every state that calls lead to, an open job has a way out exactly when it is
exitable. -/
theorem exits_iff (chain : MarketChain Ledger) {bountyToken stakeToken : Address}
    (serve : TokensServe chain bountyToken stakeToken) (resolver owner : Address)
    (ledger : Ledger) (calls : List (Msg × Call Ledger)) (now : Nat) (id : U256) :
    let final := calls.foldl (step chain)
      (deployed bountyToken stakeToken resolver owner ledger)
    Cooperative chain final → id.toNat < final.market.nextJobId →
      (final.market.jobs id.toNat).state ≠ .terminal →
      (CanExit chain now final id.toNat ↔ Exitable final id.toNat) := by
  intro final cooperative given notEnded
  have intact : Intact chain bountyToken stakeToken final :=
    (intact_deployed chain _ _ _ _ _).run calls
  refine ⟨exitable_of_canExit intact given, fun exitable => ?_⟩
  have fromSubmitted : ∀ state : Marketplace Ledger, Leads chain now final state →
      chain.Outside state.market.resolver → chain.Outside state.registry.owner →
      (state.market.jobs id.toNat).state = .submitted →
      (∃ outcome, count (state.registry.workers (state.market.jobs id.toNat).worker)
        outcome + 1 < 2 ^ 64) → CanExit chain now final id.toNat := by
    rintro state leads resolver owner submitted ⟨outcome, fits⟩
    obtain ⟨after, ends, ended⟩ :=
      leads_ended now serve (leads.intact intact) resolver owner submitted fits
    exact canExit_of_leads intact (leads.trans ends) ended
  have fromAssigned : ∀ state : Marketplace Ledger, Leads chain now final state →
      chain.Outside state.market.resolver → chain.Outside state.registry.owner →
      (state.market.jobs id.toNat).state = .assigned →
      (∃ outcome, count (state.registry.workers (state.market.jobs id.toNat).worker)
        outcome + 1 < 2 ^ 64) → CanExit chain now final id.toNat := by
    intro state leads resolver owner assigned countable
    refine fromSubmitted _ (leads.trans (leads_submitted (leads.intact intact) assigned))
      resolver owner ?_ ?_
    · simp only [BountyMarket.setJob, Function.update_self]
    · simp only [BountyMarket.setJob, Function.update_self]
      exact countable
  have started := intact.sound.1.started id.toNat given
  cases phase : (final.market.jobs id.toNat).state with
  | none => exact absurd phase started.1
  | opened => exact absurd phase started.2
  | funded =>
      obtain ⟨state, leads, assigned, resolver, owner, fits⟩ :=
        leads_assigned now serve intact cooperative phase (exitable.tier phase)
      refine fromAssigned state leads ?_ ?_ assigned ⟨true, fits⟩
      · rw [resolver]
        exact cooperative.resolver
      · rw [owner]
        exact cooperative.owner
  | assigned =>
      exact fromAssigned final .refl cooperative.resolver cooperative.owner phase
        (exitable.countable (Or.inl phase))
  | submitted =>
      exact fromSubmitted final .refl cooperative.resolver cooperative.owner phase
        (exitable.countable (Or.inr phase))
  | terminal => exact absurd phase notEnded

/-- A chain whose tokens are plain ledgers. -/
def plainChain : MarketChain PlainLedger where
  erc20 := PlainLedger.erc20
  marketAddress := 1
  registryAddress := 2
  distinct := by decide

theorem plainChain_serves (bountyToken stakeToken : Address) :
    TokensServe plainChain bountyToken stakeToken where
  pays ledger receiver amount valid enough := ⟨_, if_pos ⟨valid, enough⟩⟩
  funds ledger worker outside := by
    obtain ⟨-, notMarket, notRegistry⟩ := outside
    let funded : PlainLedger :=
      { balances := Function.update ledger.balances stakeToken
          (Function.update (ledger.balances stakeToken) worker minBond)
        allowances := fun _ _ _ => minBond }
    have unmoved : ∀ token account, account ≠ worker →
        ledger.balances token account = funded.balances token account := by
      intro token account different
      dsimp only [funded]
      rw [Function.update_apply]
      split
      case isTrue same => rw [same, Function.update_of_ne different]
      case isFalse => rfl
    have held : funded.balances stakeToken worker = minBond := by
      simp only [funded, Function.update_self]
    obtain ⟨after, moves⟩ : ∃ after, funded.transferFrom stakeToken 2 worker 2 minBond =
        some (true, after) :=
      ⟨_, (if_pos le_rfl).trans (if_pos ⟨by decide, held.ge⟩)⟩
    exact ⟨funded, after, (unmoved _ _ notMarket.symm).le,
      (unmoved _ _ notRegistry.symm).le, moves⟩

/-- Everybody holds and has approved a million. -/
def plainLedger : PlainLedger :=
  ⟨fun _ _ => 10 ^ 6, fun _ _ _ => 10 ^ 6⟩

/-- The marketplace after one job was posted. -/
def withJob (minTier : UInt8) : Marketplace PlainLedger :=
  [(⟨10, 0, 0⟩, .postJob 0 5 100 minTier)].foldl (step plainChain)
    (deployed 3 4 11 12 plainLedger)

theorem withJob_cooperative (minTier : UInt8) : Cooperative plainChain (withJob minTier) where
  resolver := by
    have resolver : (withJob minTier).market.resolver = 11 := rfl
    rw [resolver]
    decide
  owner := by
    have owner : (withJob minTier).registry.owner = 12 := rfl
    rw [owner]
    decide
  newcomer := ⟨13, by decide, rfl⟩

/-- A job that asks for a tier can be paid out. -/
theorem exits_standard : CanExit plainChain 50 (withJob 2) 0 := by
  have funded : ((withJob 2).market.jobs 0).state = .funded := rfl
  refine (exits_iff plainChain (plainChain_serves 3 4) 11 12 plainLedger
    [(⟨10, 0, 0⟩, .postJob 0 5 100 2)] 50 0 (withJob_cooperative 2) ?_ ?_).mpr ⟨?_, ?_⟩
  · decide
  · exact funded ▸ JobState.noConfusion
  · intro _
    decide
  · intro active
    change ((withJob 2).market.jobs 0).state = _ ∨ ((withJob 2).market.jobs 0).state = _
      at active
    rw [funded] at active
    rcases active with impossible | impossible <;> cases impossible

/-- A job that asks for a tier that does not exist is stuck. -/
theorem no_exit_above_elite :
    Cooperative plainChain (withJob 5) ∧ ((withJob 5).market.jobs 0).state = .funded ∧
      ∀ now, ¬ CanExit plainChain now (withJob 5) 0 := by
  refine ⟨withJob_cooperative 5, rfl, fun now exits => ?_⟩
  have intact : Intact plainChain 3 4 (withJob 5) :=
    (intact_deployed plainChain 3 4 11 12 plainLedger).run
      [(⟨10, 0, 0⟩, .postJob 0 5 100 5)]
  have exitable := exitable_of_canExit intact (by decide) exits
  exact absurd (exitable.tier rfl) (by decide)

end Marketplace

end Roko
