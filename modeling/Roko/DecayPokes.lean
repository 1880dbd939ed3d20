import Roko.ReputationRegistry
import Roko.WorkerRegistry

/-!
# Poking a decaying reputation

Anyone may apply the decay of a worker, or of the domains of a passport, at any time.
A poke starts the next period anew, so that the part of a period that has passed is
lost.  The values read later are unaffected exactly when no whole period is lost by
this, or the distance to one half has been halved away.
-/

namespace Roko

open Contracts

namespace WorkerRegistry

/-- The halvings made from one time to another. -/
def periods (since now : Nat) : Nat :=
  if toUint64 now ≤ since then 0 else min ((toUint64 now - since) / decayPeriod) 64

def stamped (worker : Worker) : LazyDecay.Stamped :=
  ⟨worker.reputation, worker.lastUpdated⟩

theorem effectiveReputation_eq_read (now : Nat) (worker : Worker) :
    effectiveReputation now worker =
      LazyDecay.read (scale / 2) periods now (stamped worker) := by
  unfold effectiveReputation LazyDecay.read periods stamped
  dsimp only
  split
  case isTrue => rfl
  case isFalse =>
    split
    case isTrue none => rw [none]; rfl
    case isFalse => rfl

theorem stamped_applyDecay (now : Nat) (worker : Worker) :
    stamped (applyDecay now worker) =
      LazyDecay.poke (scale / 2) periods now (toUint64 now) (stamped worker) := by
  unfold applyDecay LazyDecay.poke LazyDecay.read periods stamped
  dsimp only
  by_cases early : toUint64 now ≤ worker.lastUpdated
  · simp only [if_pos early]
    rfl
  · simp only [if_neg early]
    by_cases none : (toUint64 now - worker.lastUpdated) / decayPeriod = 0
    · simp only [none, Nat.zero_min, if_true]
    · have some : min ((toUint64 now - worker.lastUpdated) / decayPeriod) 64 ≠ 0 := by
        omega
      rw [if_neg none, if_neg some]

theorem applyDecay_existing (now : Nat) (worker : Worker) :
    (applyDecay now worker).existing = worker.existing := by
  unfold applyDecay
  dsimp only
  split
  · rfl
  · split <;> rfl

/-- Calls of `decay` for one worker by a list of senders, in one block. -/
def pokes (registry : WorkerRegistry) (worker : Address) (senders : List Address)
    (timestamp number : Nat) : WorkerRegistry :=
  senders.foldl
    (fun registry sender =>
      settle registry (registry.decay ⟨sender, timestamp, number⟩ worker))
    registry

theorem pokes_worker (registry : WorkerRegistry) (worker : Address)
    (senders : List Address) (timestamp number : Nat) :
    (registry.pokes worker senders timestamp number).workers worker =
      if (registry.workers worker).existing then
        (applyDecay timestamp)^[senders.length] (registry.workers worker)
      else registry.workers worker := by
  induction senders generalizing registry with
  | nil => simp [pokes]
  | cons sender senders ih =>
      rw [pokes, List.foldl_cons]
      by_cases present : (registry.workers worker).existing
      · have poked : registry.decay ⟨sender, timestamp, number⟩ worker =
            .ok (registry.setWorker worker
              (applyDecay timestamp (registry.workers worker))) := by
          simp [decay, ensure, present, bind, Except.bind, pure, Except.pure]
        have step := ih (registry.setWorker worker
          (applyDecay timestamp (registry.workers worker)))
        simp only [setWorker, Function.update_self, applyDecay_existing, present,
          if_true] at step
        rw [poked, settle_ok, if_pos present, List.length_cons,
          Function.iterate_succ_apply]
        exact step
      · have reverted : registry.decay ⟨sender, timestamp, number⟩ worker =
            .error .notRegistered := by
          simp [decay, ensure, present, bind, Except.bind]
        have step := ih registry
        rw [if_neg present] at step ⊢
        rw [reverted, settle_error]
        exact step

theorem stamped_iterate_applyDecay (now count : Nat) (worker : Worker) :
    stamped ((applyDecay now)^[count] worker) =
      (LazyDecay.poke (scale / 2) periods now (toUint64 now))^[count] (stamped worker) := by
  induction count with
  | zero => rfl
  | succ count ih =>
      rw [Function.iterate_succ_apply', Function.iterate_succ_apply', stamped_applyDecay, ih]

/-- The halvings counted with the pokes are those counted without them, or the
distance of the reputation to one half has been halved away. -/
def PokesHarmless (worker : Worker) (pokes poked later : Nat) : Prop :=
  let withPokes :=
    LazyDecay.pokedPeriods periods pokes worker.lastUpdated poked (toUint64 poked) later
  let without := periods worker.lastUpdated later
  worker.existing = false ∨ withPokes = without ∨
    Nat.dist worker.reputation (scale / 2) < 2 ^ min withPokes without

theorem reputationOf_pokes_iff (registry : WorkerRegistry) (worker : Address)
    (senders : List Address) (poked number later : Nat) :
    (registry.pokes worker senders poked number).reputationOf later worker =
        registry.reputationOf later worker ↔
      PokesHarmless (registry.workers worker) senders.length poked later := by
  unfold reputationOf PokesHarmless
  rw [pokes_worker]
  by_cases present : (registry.workers worker).existing
  · have kept : ((applyDecay poked)^[senders.length] (registry.workers worker)).existing :=
      by
        generalize senders.length = count
        induction count with
        | zero => exact present
        | succ count ih => rw [Function.iterate_succ_apply', applyDecay_existing, ih]
    rw [if_pos present]
    simp only [kept, present, Bool.not_true, Bool.false_eq_true, if_false,
      Bool.true_eq_false, false_or, effectiveReputation_eq_read,
      stamped_iterate_applyDecay, LazyDecay.read_iterate_poke_eq_iff]
    rfl
  · simp [present]

end WorkerRegistry

namespace ReputationRegistry

/-- The halvings made from one time to another. -/
def periods (since now : Nat) : Nat :=
  if since = 0 ∨ now ≤ since then 0 else min ((now - since) / decayPeriod) 64

def stamped (rep : DomainReputation) : LazyDecay.Stamped :=
  ⟨rep.score, rep.lastUpdate⟩

theorem decay_eq_read (now : Nat) (rep : DomainReputation) :
    decay now rep.score rep.lastUpdate =
      LazyDecay.read (scale / 2) periods now (stamped rep) := by
  unfold decay LazyDecay.read periods stamped
  dsimp only
  split
  case isTrue => rfl
  case isFalse =>
    split
    case isTrue none => rw [none]; rfl
    case isFalse => rfl

/-- A tick of the decay on one domain. -/
def tick (now : Nat) (rep : DomainReputation) : DomainReputation :=
  let decayed := decay now rep.score rep.lastUpdate
  if decayed ≠ rep.score then
    { rep with score := decayed, lastUpdate := toUint64 now }
  else rep

theorem stamped_tick (now : Nat) (rep : DomainReputation) :
    stamped (tick now rep) =
      LazyDecay.tick (scale / 2) periods now (toUint64 now) (stamped rep) := by
  unfold tick LazyDecay.tick
  rw [← decay_eq_read]
  by_cases same : decay now rep.score rep.lastUpdate = rep.score
  · simp [same, stamped]
  · simp [same, stamped]

theorem tick_domain (now : Nat) (rep : DomainReputation) :
    (tick now rep).domain = rep.domain := by
  unfold tick
  dsimp only
  split <;> rfl

theorem tickDomain_reputations (now passportId : Nat) (registry : ReputationRegistry)
    (key : B256) :
    (tickDomain now passportId registry key).reputations =
      Function.update registry.reputations passportId
        (Function.update (registry.reputations passportId) key
          (tick now (registry.reputations passportId key))) := by
  unfold tickDomain tick
  dsimp only
  split
  · rfl
  · simp

theorem tickDomain_domainKeys (now passportId : Nat) (registry : ReputationRegistry)
    (key : B256) :
    (tickDomain now passportId registry key).domainKeys = registry.domainKeys := by
  unfold tickDomain
  dsimp only
  split <;> rfl

/-- Each round of the loop ticks its own key. -/
theorem foldl_tickDomain (now passportId : Nat) (keys : List B256) (key : B256)
    (registry : ReputationRegistry) :
    (keys.foldl (tickDomain now passportId) registry).reputations passportId key =
      (tick now)^[keys.count key] (registry.reputations passportId key) := by
  induction keys generalizing registry with
  | nil => rfl
  | cons other keys ih =>
      rw [List.foldl_cons, ih, tickDomain_reputations, Function.update_self]
      by_cases same : other = key
      · rw [same, Function.update_self, List.count_cons_self, Function.iterate_succ_apply]
      · rw [Function.update_of_ne (Ne.symm same), List.count_cons_of_ne same]

theorem foldl_tickDomain_domainKeys (now passportId : Nat) (keys : List B256)
    (registry : ReputationRegistry) :
    (keys.foldl (tickDomain now passportId) registry).domainKeys =
      registry.domainKeys := by
  induction keys generalizing registry with
  | nil => rfl
  | cons other keys ih => rw [List.foldl_cons, ih, tickDomain_domainKeys]

/-- Calls of `applyDecayTick` for one passport by a list of senders, in one block. -/
def ticks (registry : ReputationRegistry) (identity : IdentityRegistry)
    (passportId : Nat) (senders : List Address) (timestamp number : Nat) :
    ReputationRegistry :=
  senders.foldl
    (fun registry sender =>
      settle registry
        (registry.applyDecayTick identity ⟨sender, timestamp, number⟩ passportId))
    registry

theorem ticks_reputations (registry : ReputationRegistry) {identity : IdentityRegistry}
    {passportId : Nat} (known : requirePassport identity passportId = .ok ())
    (senders : List Address) (timestamp number : Nat) (key : B256) :
    (registry.ticks identity passportId senders timestamp number).reputations
        passportId key =
      (tick timestamp)^[senders.length * (registry.domainKeys passportId).count key]
        (registry.reputations passportId key) := by
  induction senders generalizing registry with
  | nil => simp [ticks]
  | cons sender senders ih =>
      have called : registry.applyDecayTick identity ⟨sender, timestamp, number⟩
          passportId = .ok ((registry.domainKeys passportId).foldl
            (tickDomain timestamp passportId) registry) := by
        simp [applyDecayTick, known, bind, Except.bind, pure, Except.pure]
      have step := ih ((registry.domainKeys passportId).foldl
        (tickDomain timestamp passportId) registry)
      rw [foldl_tickDomain, foldl_tickDomain_domainKeys, ← Function.iterate_add_apply]
        at step
      rw [ticks, List.foldl_cons, called, settle_ok, List.length_cons, Nat.add_one_mul]
      exact step

theorem stamped_iterate_tick (now count : Nat) (rep : DomainReputation) :
    stamped ((tick now)^[count] rep) =
      (LazyDecay.tick (scale / 2) periods now (toUint64 now))^[count] (stamped rep) := by
  induction count with
  | zero => rfl
  | succ count ih =>
      rw [Function.iterate_succ_apply', Function.iterate_succ_apply', stamped_tick, ih]

theorem iterate_tick_domain (now count : Nat) (rep : DomainReputation) :
    ((tick now)^[count] rep).domain = rep.domain := by
  induction count with
  | zero => rfl
  | succ count ih => rw [Function.iterate_succ_apply', tick_domain, ih]

/-- The score that `getReputation` returns. -/
def scoreOf (registry : ReputationRegistry) (keccak256 : Bytes → B256)
    (identity : IdentityRegistry) (now passportId : Nat) (domain : Bytes) :
    Except Revert Nat :=
  (registry.getReputation keccak256 identity now passportId domain).map Prod.fst

/-- The halvings counted with the ticks are those counted without them, or the
distance of the score to one half has been halved away. -/
def TicksHarmless (rep : DomainReputation) (ticks poked later : Nat) : Prop :=
  let withTicks :=
    LazyDecay.pokedPeriods periods ticks rep.lastUpdate poked (toUint64 poked) later
  let without := periods rep.lastUpdate later
  rep.domain.length = 0 ∨ withTicks = without ∨
    Nat.dist rep.score (scale / 2) < 2 ^ min withTicks without

theorem scoreOf_ticks_iff (registry : ReputationRegistry) (keccak256 : Bytes → B256)
    (identity : IdentityRegistry) (passportId : Nat) (domain : Bytes)
    (senders : List Address) (poked number later : Nat) :
    (registry.ticks identity passportId senders poked number).scoreOf keccak256 identity
        later passportId domain =
        registry.scoreOf keccak256 identity later passportId domain ↔
      requirePassport identity passportId ≠ .ok () ∨
        TicksHarmless (registry.reputations passportId (keccak256 domain))
          (senders.length * (registry.domainKeys passportId).count (keccak256 domain))
          poked later := by
  unfold scoreOf getReputation TicksHarmless
  cases known : requirePassport identity passportId with
  | error revert => simp [bind, Except.bind]
  | ok =>
      rw [ticks_reputations registry known]
      by_cases empty :
          (registry.reputations passportId (keccak256 domain)).domain.length = 0
      · simp only [iterate_tick_domain, empty, if_true, true_or, or_true]
      · simp only [iterate_tick_domain, empty, if_false, false_or, decay_eq_read,
          stamped_iterate_tick, bind, Except.bind, pure, Except.pure, Except.map,
          LazyDecay.read_iterate_tick, Except.ok.injEq, ne_eq, not_true,
          LazyDecay.read_iterate_poke_eq_iff]
        rfl

end ReputationRegistry

/-- Pokes of a worker, and of a domain of a passport, are invisible later exactly when
they are harmless to the record that they are made on. -/
theorem pokes_invisible_iff (senders : List Address) (poked number later : Nat) :
    (∀ (registry : WorkerRegistry) (worker : Address),
      (registry.pokes worker senders poked number).reputationOf later worker =
          registry.reputationOf later worker ↔
        WorkerRegistry.PokesHarmless (registry.workers worker) senders.length poked
          later) ∧
    ∀ (registry : ReputationRegistry) (keccak256 : Bytes → B256)
      (identity : IdentityRegistry) (passportId : Nat) (domain : Bytes),
      (registry.ticks identity passportId senders poked number).scoreOf keccak256 identity
          later passportId domain =
          registry.scoreOf keccak256 identity later passportId domain ↔
        ReputationRegistry.requirePassport identity passportId ≠ .ok () ∨
          ReputationRegistry.TicksHarmless
            (registry.reputations passportId (keccak256 domain))
            (senders.length * (registry.domainKeys passportId).count (keccak256 domain))
            poked later := by
  constructor
  · intro registry worker
    exact registry.reputationOf_pokes_iff worker senders poked number later
  · intro registry keccak256 identity passportId domain
    exact registry.scoreOf_ticks_iff keccak256 identity passportId domain senders poked
      number later

/-- A worker with one success, poked in the middle of its second period.  Read at the
end of that period its reputation is 0.55 instead of 0.525, a tier higher. -/
theorem poked_reputation_differs :
    let day := 24 * 60 * 60
    let registry := (WorkerRegistry.deployed 1 2).setWorker 3
      ⟨WorkerRegistry.minBond, 600_000, 1, 0, 0, true⟩
    let rep : DomainReputation := ⟨[7], 3 * 10 ^ 17, 1, day⟩
    let reputations := { (ReputationRegistry.deployed 1 2).setReputation 1 0 rep with
      domainKeys := fun _ => [0] }
    let identity := { IdentityRegistry.deployed 1 2 3 with owners := fun _ => 4 }
    (registry.reputationOf (60 * day) 3 = 525_000 ∧
      (registry.pokes 3 [9] (45 * day) 0).reputationOf (60 * day) 3 = 550_000) ∧
    (reputations.scoreOf (fun _ => 0) identity (61 * day) 1 [7] =
        .ok (45 * 10 ^ 16) ∧
      (reputations.ticks identity 1 [9] (46 * day) 0).scoreOf (fun _ => 0) identity
        (61 * day) 1 [7] = .ok (4 * 10 ^ 17)) := by
  decide

end Roko
