import Roko.PassportTiers
import Roko.Tallies

/-!
# Stakes in domains

The records of a passport, the list of their keys and the total count the same stakes.
They agree, and every staked token can be withdrawn by somebody, as long as the empty
domain is staked in at most once and no passport is revoked while it has a stake.
-/

namespace Roko

open Contracts

namespace IdentityRegistry

/-- What the registry keeps about the stakes of one passport.  `used` holds the domains
of the history. -/
structure StakesAgree (used : Set Bytes) (keccak256 : Bytes → B256)
    (registry : IdentityRegistry) (passportId : Nat) : Prop where
  nodup : (registry.domainStakeKeys passportId).Nodup
  listed : ∀ key ∈ registry.domainStakeKeys passportId,
    (registry.domainStakes passportId key).domain ∈ used ∧
      keccak256 (registry.domainStakes passportId key).domain = key
  unlisted : ∀ key, key ∉ registry.domainStakeKeys passportId →
    registry.domainStakes passportId key = noStake
  total : ((registry.domainStakeKeys passportId).map fun key =>
      (registry.domainStakes passportId key).amount).sum =
    registry.totalStakeOf passportId

variable {used : Set Bytes} {keccak256 : Bytes → B256} {registry : IdentityRegistry}
  {passportId : Nat}

theorem StakesAgree.restaked_other
    (agree : StakesAgree used keccak256 registry passportId) {staked : Nat}
    (other : passportId ≠ staked) (key : B256) (stakeData : DomainStake)
    (keys : List B256) (total : Nat) :
    StakesAgree used keccak256 (registry.restaked staked key stakeData keys total)
      passportId := by
  have keysEq : (registry.restaked staked key stakeData keys total).domainStakeKeys
      passportId = registry.domainStakeKeys passportId := Function.update_of_ne other _ _
  have stakesEq : (registry.restaked staked key stakeData keys total).domainStakes
      passportId = registry.domainStakes passportId := Function.update_of_ne other _ _
  have totalEq : (registry.restaked staked key stakeData keys total).totalStakeOf
      passportId = registry.totalStakeOf passportId := Function.update_of_ne other _ _
  constructor
  · rw [keysEq]
    exact agree.nodup
  · rw [keysEq, stakesEq]
    exact agree.listed
  · rw [keysEq, stakesEq]
    exact agree.unlisted
  · rw [keysEq, stakesEq, totalEq]
    exact agree.total

/-- The amounts of the records after a write of one of them. -/
theorem amounts_update (stakes : B256 → DomainStake) (key : B256) (stakeData : DomainStake) :
    (fun other => (Function.update stakes key stakeData other).amount) =
      Function.update (fun other => (stakes other).amount) key stakeData.amount := by
  funext other
  rw [Function.update_apply, Function.update_apply]
  split <;> rfl

/-- A new amount in a listed record. -/
theorem StakesAgree.restaked_listed
    (agree : StakesAgree used keccak256 registry passportId) {key : B256}
    (member : key ∈ registry.domainStakeKeys passportId) {stakeData : DomainStake}
    (domain : stakeData.domain = (registry.domainStakes passportId key).domain)
    {total : Nat}
    (counted : total + (registry.domainStakes passportId key).amount =
      registry.totalStakeOf passportId + stakeData.amount) :
    StakesAgree used keccak256
      (registry.restaked passportId key stakeData
        (registry.domainStakeKeys passportId) total) passportId := by
  unfold restaked
  constructor <;> dsimp only <;> simp only [Function.update_self]
  · exact agree.nodup
  · intro other memberOther
    by_cases same : other = key
    · rw [same, Function.update_self, domain]
      exact agree.listed key member
    · rw [Function.update_of_ne same]
      exact agree.listed other memberOther
  · intro other absent
    have different : other ≠ key := fun same => absent (same ▸ member)
    rw [Function.update_of_ne different]
    exact agree.unlisted other absent
  · have tally := Tally.sum_map_update_add agree.nodup member
      (fun other => (registry.domainStakes passportId other).amount) stakeData.amount
    rw [agree.total] at tally
    rw [amounts_update]
    omega

/-- The first stake in a domain. -/
theorem StakesAgree.restaked_new
    (agree : StakesAgree used keccak256 registry passportId) {domain : Bytes}
    (member : domain ∈ used)
    (absent : keccak256 domain ∉ registry.domainStakeKeys passportId)
    (amount cooldownEndsAt : Nat) :
    StakesAgree used keccak256
      (registry.restaked passportId (keccak256 domain) ⟨domain, amount, cooldownEndsAt⟩
        (registry.domainStakeKeys passportId ++ [keccak256 domain])
        (registry.totalStakeOf passportId + amount)) passportId := by
  unfold restaked
  constructor <;> dsimp only <;> simp only [Function.update_self]
  · rw [List.nodup_append]
    refine ⟨agree.nodup, List.nodup_singleton _, ?_⟩
    rintro key memberKey _ last rfl
    rw [List.mem_singleton] at last
    exact absent (last ▸ memberKey)
  · intro key memberKey
    by_cases same : key = keccak256 domain
    · rw [same, Function.update_self]
      exact ⟨member, rfl⟩
    · rw [Function.update_of_ne same]
      refine agree.listed key ?_
      simpa [same] using memberKey
  · intro key absentKey
    simp only [List.mem_append, List.mem_singleton, not_or] at absentKey
    rw [Function.update_of_ne absentKey.2]
    exact agree.unlisted key absentKey.1
  · have tally := Tally.sum_map_update_of_notMem absent
      (fun other => (registry.domainStakes passportId other).amount) amount
    rw [agree.total] at tally
    rw [amounts_update, List.map_append, List.sum_append, tally, List.map_singleton,
      Function.update_self, List.sum_singleton]

/-- A record of a domain of the history is listed exactly when its key is. -/
theorem StakesAgree.domain_of_listed
    (agree : StakesAgree used keccak256 registry passportId)
    (injective : Set.InjOn keccak256 used) {domain : Bytes} (member : domain ∈ used)
    (listed : keccak256 domain ∈ registry.domainStakeKeys passportId) :
    (registry.domainStakes passportId (keccak256 domain)).domain = domain := by
  obtain ⟨known, key⟩ := agree.listed _ listed
  exact injective known member key

/-- A stake keeps the records in agreement unless it is a further one in the empty
domain. -/
theorem StakesAgree.staked (agree : StakesAgree used keccak256 registry passportId)
    (injective : Set.InjOn keccak256 used) {domain : Bytes} (member : domain ∈ used)
    (once : domain = [] → keccak256 domain ∉ registry.domainStakeKeys passportId)
    (amount cooldownEndsAt : Nat) :
    StakesAgree used keccak256
      (registry.restaked passportId (keccak256 domain)
        ⟨registry.domainAfterStake passportId (keccak256 domain) domain,
          (registry.domainStakes passportId (keccak256 domain)).amount + amount,
          cooldownEndsAt⟩
        (registry.keysAfterStake passportId (keccak256 domain))
        (registry.totalStakeOf passportId + amount)) passportId := by
  by_cases listed : keccak256 domain ∈ registry.domainStakeKeys passportId
  · have same := agree.domain_of_listed injective member listed
    have some : domain.length ≠ 0 := fun empty =>
      once (List.eq_nil_of_length_eq_zero empty) listed
    unfold domainAfterStake keysAfterStake
    simp only [same, some, if_false]
    refine agree.restaked_listed listed same.symm ?_
    dsimp only
    omega
  · unfold domainAfterStake keysAfterStake
    simp only [agree.unlisted _ listed, noStake, List.length_nil, if_true, Nat.zero_add]
    exact agree.restaked_new member listed amount cooldownEndsAt

theorem StakesAgree.withdrawn (agree : StakesAgree used keccak256 registry passportId)
    {key : B256} {amount : Nat} (positive : amount ≠ 0)
    (enough : amount ≤ (registry.domainStakes passportId key).amount)
    (bounded : amount ≤ registry.totalStakeOf passportId) :
    StakesAgree used keccak256
      (registry.restaked passportId key
        { registry.domainStakes passportId key with
          amount := (registry.domainStakes passportId key).amount - amount }
        (registry.domainStakeKeys passportId)
        (registry.totalStakeOf passportId - amount)) passportId := by
  have listed : key ∈ registry.domainStakeKeys passportId := by
    by_contra absent
    rw [agree.unlisted key absent] at enough
    simp only [noStake] at enough
    omega
  refine agree.restaked_listed listed ?_ ?_
  · rfl
  · dsimp only
    omega

/-- The stakes of the passports that have an owner. -/
def liveStake (registry : IdentityRegistry) : Nat :=
  ∑ passportId ∈ Finset.range registry.nextPassportId,
    if registry.owners passportId ≠ 0 then registry.totalStakeOf passportId else 0

theorem liveStake_minted (fresh : registry.Fresh) (owner : Address)
    (passport : PassportData) :
    (registry.minted owner passport).liveStake = registry.liveStake := by
  unfold liveStake minted
  dsimp only
  have newest : registry.totalStakeOf registry.nextPassportId = 0 := (fresh _ le_rfl).2
  rw [Finset.sum_range_succ, newest, ite_self, Nat.add_zero]
  refine Finset.sum_congr rfl fun other member => ?_
  simp only [Function.update_of_ne (Finset.mem_range.mp member).ne]

theorem liveStake_revoked (none : registry.totalStakeOf passportId = 0) :
    (registry.revoked passportId).liveStake = registry.liveStake := by
  unfold liveStake revoked
  refine Finset.sum_congr rfl fun other _ => ?_
  by_cases same : other = passportId
  · simp [same, none]
  · simp only [Function.update_of_ne same]

theorem liveStake_restaked (fresh : registry.Fresh)
    (live : registry.owners passportId ≠ 0) (key : B256) (stakeData : DomainStake)
    (keys : List B256) (total : Nat) :
    (registry.restaked passportId key stakeData keys total).liveStake +
        registry.totalStakeOf passportId =
      registry.liveStake + total := by
  have tally := Tally.sum_update_add (Finset.mem_range.mpr (fresh.lt_of_live live))
    (fun other => if registry.owners other ≠ 0 then registry.totalStakeOf other else 0) total
  have table : Function.update (fun other =>
      if registry.owners other ≠ 0 then registry.totalStakeOf other else 0)
      passportId total = fun other =>
        if registry.owners other ≠ 0 then
          Function.update registry.totalStakeOf passportId total other else 0 := by
    funext other
    by_cases same : other = passportId
    · simp only [same, Function.update_self, if_pos live]
    · simp only [Function.update_of_ne same]
  rw [table] at tally
  unfold liveStake restaked
  simpa only [if_pos live] using tally

end IdentityRegistry

namespace Identity

open IdentityRegistry

variable {Ledger : Type} (chain : IdentityChain Ledger)

/-- The tokens that were staked, and those that were withdrawn. -/
def staked (state : Identity Ledger) : Nat :=
  ((state.tokens.transfers.filter (·.receiver = chain.this)).map Transfer.amount).sum

def withdrawn (state : Identity Ledger) : Nat :=
  ((state.tokens.transfers.filter (·.sender = chain.this)).map Transfer.amount).sum

/-- The list of the stakes of a live passport sums up to its total and names each of
the given domains that holds a stake once; what live passports have staked is what was
staked and not withdrawn, and the registry holds it. -/
def StakesAccounted (used : Set Bytes) (state : Identity Ledger) : Prop :=
  (∀ passportId, state.registry.owners passportId ≠ 0 →
    ∃ stakes, state.registry.getDomainStakes passportId = .ok stakes ∧
      (stakes.map DomainStake.amount).sum = state.registry.totalStakeOf passportId ∧
      (stakes.map DomainStake.domain).Nodup ∧
      ∀ domain ∈ used,
        (state.registry.domainStakes passportId (chain.keccak256 domain)).amount ≠ 0 →
        (stakes.map DomainStake.domain).count domain = 1) ∧
    state.registry.liveStake + state.withdrawn chain = state.staked chain ∧
    state.registry.liveStake ≤
      chain.erc20.balanceOf state.tokens.ledger state.registry.stakeToken chain.this

/-- What a history keeps about all stakes. -/
structure StakeInvariant (used : Set Bytes) (state : Identity Ledger) : Prop where
  fresh : state.registry.Fresh
  agree : ∀ passportId, StakesAgree used chain.keccak256 state.registry passportId
  counted : state.registry.liveStake + state.withdrawn chain = state.staked chain
  held : state.registry.liveStake ≤
    chain.erc20.balanceOf state.tokens.ledger state.registry.stakeToken chain.this

/-- A live passport stakes in the empty domain only while that is not listed, and is
revoked only without a stake. -/
def StakesSafely (state : Identity Ledger) : Msg × IdentityCall Ledger → Prop
  | (_, .stakeIntoDomain passportId domain _) =>
      state.registry.owners passportId.toNat ≠ 0 → domain = [] →
        chain.keccak256 domain ∉ state.registry.domainStakeKeys passportId.toNat
  | (_, .revokePassport passportId) =>
      state.registry.owners passportId.toNat ≠ 0 →
        state.registry.totalStakeOf passportId.toNat = 0
  | _ => True

/-- The domains that the calls of a history stake in. -/
def domainsOf (calls : List (Msg × IdentityCall Ledger)) : Set Bytes :=
  { domain | ∃ msg passportId amount,
    (msg, IdentityCall.stakeIntoDomain passportId domain amount) ∈ calls }

variable {chain} {used : Set Bytes} {msg : Msg} {state after : Identity Ledger}
  {call : IdentityCall Ledger}

theorem StakeInvariant.accounted (invariant : StakeInvariant chain used state)
    (injective : Set.InjOn chain.keccak256 used) : StakesAccounted chain used state := by
  refine ⟨fun passportId live => ?_, invariant.counted, invariant.held⟩
  have agree := invariant.agree passportId
  have nodup : (((state.registry.domainStakeKeys passportId).map
      (state.registry.domainStakes passportId)).map DomainStake.domain).Nodup := by
    -- different keys have different domains, since each key is the hash of its domain
    refine List.Nodup.of_map chain.keccak256 ?_
    rw [List.map_map, List.map_map, List.map_congr_left (g := id)]
    · rw [List.map_id]
      exact agree.nodup
    · intro key member
      exact (agree.listed key member).2
  refine ⟨(state.registry.domainStakeKeys passportId).map
    (state.registry.domainStakes passportId), ?_, ?_, nodup, ?_⟩
  · simp only [getDomainStakes, bind_ok_iff, ownerOf_ok_iff, pure_ok_iff]
    exact ⟨_, ⟨live, rfl⟩, trivial⟩
  · rw [List.map_map]
    exact agree.total
  · intro domain member staked
    have listed : chain.keccak256 domain ∈ state.registry.domainStakeKeys passportId := by
      by_contra absent
      rw [agree.unlisted _ absent] at staked
      exact staked rfl
    refine List.count_eq_one_of_mem nodup ?_
    rw [List.map_map, List.mem_map]
    exact ⟨_, listed, agree.domain_of_listed injective member listed⟩

theorem staked_append {registry : IdentityRegistry} {tokens : Tokens Ledger}
    {transfer : Transfer}
    (logged : tokens.transfers = state.tokens.transfers ++ [transfer]) :
    staked chain ⟨registry, tokens⟩ = state.staked chain +
        (if transfer.receiver = chain.this then transfer.amount else 0) ∧
      withdrawn chain ⟨registry, tokens⟩ = state.withdrawn chain +
        (if transfer.sender = chain.this then transfer.amount else 0) := by
  unfold staked withdrawn
  rw [logged, List.filter_append, List.filter_append]
  constructor
  · by_cases received : transfer.receiver = chain.this <;> simp [received]
  · by_cases sent : transfer.sender = chain.this <;> simp [sent]

/-- Of the accounts other than the registry, nobody's payment lowers what it holds. -/
theorem balance_received {sender : Address} {amount : Nat} {ledger ledger' : Ledger}
    {token : Address} (outside : sender ≠ chain.this)
    (moved : Moved chain.erc20.balanceOf token sender chain.this amount ledger ledger') :
    chain.erc20.balanceOf ledger' token chain.this =
      chain.erc20.balanceOf ledger token chain.this + amount := by
  have balance := moved token chain.this
  rw [if_neg (fun both => outside both.2.symm), if_pos ⟨rfl, rfl⟩] at balance
  exact balance

theorem balance_sent {receiver : Address} {amount : Nat} {ledger ledger' : Ledger}
    {token : Address} (outside : receiver ≠ chain.this)
    (moved : Moved chain.erc20.balanceOf token chain.this receiver amount ledger ledger') :
    chain.erc20.balanceOf ledger' token chain.this + amount =
      chain.erc20.balanceOf ledger token chain.this := by
  have balance := moved token chain.this
  rw [if_pos ⟨rfl, rfl⟩, if_neg (fun both => outside both.2.symm)] at balance
  exact balance

/-- A call that touches no stake and no token keeps the invariant. -/
theorem StakeInvariant.of_same (invariant : StakeInvariant chain used state)
    (fresh : after.registry.Fresh)
    (stakes : after.registry.domainStakes = state.registry.domainStakes)
    (keys : after.registry.domainStakeKeys = state.registry.domainStakeKeys)
    (totals : after.registry.totalStakeOf = state.registry.totalStakeOf)
    (live : after.registry.liveStake = state.registry.liveStake)
    (token : after.registry.stakeToken = state.registry.stakeToken)
    (tokens : after.tokens = state.tokens) : StakeInvariant chain used after := by
  refine ⟨fresh, fun passportId => ?_, ?_, ?_⟩
  · have agree := invariant.agree passportId
    constructor
    · rw [keys]
      exact agree.nodup
    · rw [keys, stakes]
      exact agree.listed
    · rw [keys, stakes]
      exact agree.unlisted
    · rw [keys, stakes, totals]
      exact agree.total
  · rw [live, staked, withdrawn, tokens]
    exact invariant.counted
  · rw [live, tokens, token]
    exact invariant.held

/-- A call that moves tokens keeps the invariant when the live stakes move with them. -/
theorem StakeInvariant.of_moved (invariant : StakeInvariant chain used state)
    (fresh : after.registry.Fresh)
    (agree : ∀ passportId, StakesAgree used chain.keccak256 after.registry passportId)
    {received sent : Nat}
    (live : after.registry.liveStake + sent = state.registry.liveStake + received)
    (staked : after.staked chain = state.staked chain + received)
    (withdrawn : after.withdrawn chain = state.withdrawn chain + sent)
    (balance : chain.erc20.balanceOf after.tokens.ledger after.registry.stakeToken chain.this +
        sent =
      chain.erc20.balanceOf state.tokens.ledger state.registry.stakeToken chain.this +
        received) : StakeInvariant chain used after := by
  have counted := invariant.counted
  have held := invariant.held
  exact ⟨fresh, agree, by omega, by omega⟩

theorem StakeInvariant.effect (invariant : StakeInvariant chain used state)
    (injective : Set.InjOn chain.keccak256 used) (outside : msg.sender ≠ chain.this)
    (known : ∀ {passportId domain amount},
      call = .stakeIntoDomain passportId domain amount → domain ∈ used)
    (safe : StakesSafely chain state (msg, call))
    (effect : Effect chain msg state call after) : StakeInvariant chain used after := by
  have fresh := fresh_effect invariant.fresh effect
  cases effect with
  | setRegistrar => exact invariant.of_same fresh rfl rfl rfl rfl rfl rfl
  | registerPassport =>
      exact invariant.of_same fresh rfl rfl rfl
        (liveStake_minted invariant.fresh _ _) rfl rfl
  | register =>
      exact invariant.of_same fresh rfl rfl rfl
        (liveStake_minted invariant.fresh _ _) rfl rfl
  | revokePassport live =>
      exact invariant.of_same fresh rfl rfl rfl (liveStake_revoked (safe live)) rfl rfl
  | updatePassport => exact invariant.of_same fresh rfl rfl rfl rfl rfl rfl
  | schedule => exact invariant.of_same fresh rfl rfl rfl rfl rfl rfl
  | finalize => exact invariant.of_same fresh rfl rfl rfl rfl rfl rfl
  | @stakeIntoDomain passportId domain amount tokens cooldown live paid =>
      obtain ⟨moved, logged⟩ := paid
      have balance : chain.erc20.balanceOf tokens.ledger state.registry.stakeToken
          chain.this = chain.erc20.balanceOf state.tokens.ledger state.registry.stakeToken
            chain.this + amount.toNat := balance_received outside moved
      have tally := liveStake_restaked invariant.fresh live (chain.keccak256 domain)
        ⟨state.registry.domainAfterStake passportId.toNat (chain.keccak256 domain) domain,
          (state.registry.domainStakes passportId.toNat
            (chain.keccak256 domain)).amount + amount.toNat, cooldown⟩
        (state.registry.keysAfterStake passportId.toNat (chain.keccak256 domain))
        (state.registry.totalStakeOf passportId.toNat + amount.toNat)
      obtain ⟨received, sent⟩ := staked_append logged
      rw [if_pos rfl] at received
      rw [if_neg outside] at sent
      refine invariant.of_moved fresh (fun other => ?_) ?_ received sent balance
      · by_cases same : other = passportId.toNat
        · subst other
          exact (invariant.agree _).staked injective (known rfl) (safe live) _ _
        · exact (invariant.agree other).restaked_other same _ _ _ _
      · dsimp only at tally ⊢
        omega
  | @withdrawFromDomain passportId domain amount tokens live positive enough bounded paid =>
      obtain ⟨moved, logged⟩ := paid
      have balance : chain.erc20.balanceOf tokens.ledger state.registry.stakeToken
          chain.this + amount.toNat = chain.erc20.balanceOf state.tokens.ledger
            state.registry.stakeToken chain.this := balance_sent outside moved
      have tally := liveStake_restaked invariant.fresh live (chain.keccak256 domain)
        { state.registry.domainStakes passportId.toNat (chain.keccak256 domain) with
          amount := (state.registry.domainStakes passportId.toNat
            (chain.keccak256 domain)).amount - amount.toNat }
        (state.registry.domainStakeKeys passportId.toNat)
        (state.registry.totalStakeOf passportId.toNat - amount.toNat)
      obtain ⟨received, sent⟩ := staked_append logged
      rw [if_neg outside] at received
      rw [if_pos rfl] at sent
      refine invariant.of_moved fresh (fun other => ?_) ?_ received sent balance
      · by_cases same : other = passportId.toNat
        · subst other
          exact (invariant.agree _).withdrawn positive enough bounded
        · exact (invariant.agree other).restaked_other same _ _ _ _
      · dsimp only at tally ⊢
        omega
  | setTier => exact invariant.of_same fresh rfl rfl rfl rfl rfl rfl
  | token kept =>
      exact ⟨fresh, invariant.agree, invariant.counted, invariant.held.trans kept⟩

theorem StakeInvariant.step (invariant : StakeInvariant chain used state)
    (injective : Set.InjOn chain.keccak256 used) {call : Msg × IdentityCall Ledger}
    (known : ∀ {passportId domain amount},
      call.2 = .stakeIntoDomain passportId domain amount → domain ∈ used)
    (safe : StakesSafely chain state call) :
    StakeInvariant chain used (state.step chain call) := by
  rcases step_cases chain state call with same | ⟨outside, effect⟩
  · rwa [same]
  · exact invariant.effect injective outside known safe effect

end Identity

end Roko
