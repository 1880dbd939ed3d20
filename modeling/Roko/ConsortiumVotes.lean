import Roko.MarketEscrow

/-!
# The votes of a committee

A committee has three different members, each of them votes at most once, and two equal
votes end the job.  While the validator is the resolver of the market, a job ends in no
other way, so that the outcome of a job is what two of the members voted for.
-/

namespace Roko

open Contracts

namespace Committee

/-- The committee with one more vote. -/
def after (committee : Committee) (validator : Address) (approve : Bool) :
    Committee :=
  { committee with
    voted := Function.update committee.voted validator true
    approves := committee.approves + approve.toNat
    rejects := committee.rejects + (!approve).toNat }

theorem counted_ok {committee after : Committee} {validator : Address} {approve : Bool}
    (called : committee.counted validator approve = .ok after) :
    after = committee.after validator approve := by
  cases approve with
  | true =>
      simp only [counted, if_true, bind_ok_iff, checkedAdd_ok_iff, pure_ok_iff]
        at called
      obtain ⟨approves, ⟨-, rfl⟩, rfl⟩ := called
      rfl
  | false =>
      simp only [counted, Bool.false_eq_true, if_false, bind_ok_iff,
        checkedAdd_ok_iff, pure_ok_iff] at called
      obtain ⟨rejects, ⟨-, rfl⟩, rfl⟩ := called
      rfl

/-- A committee in which a call of a member counts as a vote. -/
structure MayVote (committee : Committee) (sender : Address) : Prop where
  existing : committee.existing = true
  waiting : committee.tallied = false
  new : committee.voted sender = false
  member : sender ∈ committee.members

/-- Two votes for the same outcome. -/
def Decided (committee : Committee) : Prop :=
  2 ≤ committee.approves ∨ 2 ≤ committee.rejects

end Committee

namespace Consortium

open Committee (MayVote Decided)

/-- What the draw has chosen so far stays chosen, and it adds no member twice. -/
theorem draw_sound {picked : Nat → Address} {eligible : Address → Prop}
    (fromCandidates : ∀ round, picked round ≠ 0 → eligible (picked round))
    (rounds : List Nat) {chosen : List Address} (nodup : chosen.Nodup)
    (members : ∀ member ∈ chosen, eligible member) :
    (draw picked rounds chosen).Nodup ∧
      ∀ member ∈ draw picked rounds chosen, eligible member := by
  induction rounds generalizing chosen with
  | nil => exact ⟨nodup, members⟩
  | cons round rounds ih =>
      rw [draw]
      split
      case isTrue => exact ⟨nodup, members⟩
      case isFalse =>
        split
        case isTrue => exact ih nodup members
        case isFalse real =>
          split
          case isTrue => exact ih nodup members
          case isFalse new =>
            apply ih
            · rw [List.nodup_append]
              refine ⟨nodup, List.nodup_singleton _, ?_⟩
              rintro member known _ last rfl
              rw [List.mem_singleton] at last
              exact new (last ▸ known)
            · intro member known
              rw [List.mem_append, List.mem_singleton] at known
              rcases known with known | rfl
              · exact members member known
              · exact fromCandidates round real

theorem pick_eligible {registry : WorkerRegistry} {now : Nat} {keccak256 : Bytes → B256}
    {seed : B256} {jobId round : Nat}
    (real : pick keccak256 seed jobId (candidates registry now) round ≠ 0) :
    registry.canAccept now
      (pick keccak256 seed jobId (candidates registry now) round) .trusted = true := by
  unfold pick at real ⊢
  rw [List.getD_eq_getElem?_getD] at real ⊢
  cases found : (candidates registry now)[(keccak256 (u256Bytes seed ++
      ByteEncoding.bigEndian 32 round ++ ByteEncoding.bigEndian 32 jobId)).toNat %
        (candidates registry now).length]? with
  | none =>
      rw [found] at real
      exact absurd rfl real
  | some member =>
      rw [Option.getD_some]
      exact (List.mem_filter.mp (List.mem_of_getElem? found)).2

/-- What a call that does not revert does. -/
inductive Effect {Ledger : Type} (chain : ConsortiumChain Ledger) (msg : Msg)
    (state : Consortium Ledger) : Call Ledger → Consortium Ledger → Prop
  | market {call : Marketplace.Call Ledger} {place : Marketplace Ledger}
      (effect : Marketplace.Effect chain.toMarketChain msg state.place call place) :
      Effect chain msg state (.market call) { state with place }
  | assembleCommittee {jobId : U256} {members : List Address}
      (new : (state.committees jobId.toNat).existing = false)
      (complete : members.length = committeeSize) (nodup : members.Nodup)
      (trusted : ∀ member ∈ members,
        state.place.registry.canAccept msg.timestamp member .trusted = true) :
      Effect chain msg state (.assembleCommittee jobId)
        { state.setCommittee jobId.toNat
            { state.committees jobId.toNat with existing := true, members } with
          log := state.log ++ [.committeeAssembled jobId.toNat members] }
  | vote {jobId : U256} {approve : Bool}
      (permitted : MayVote (state.committees jobId.toNat) msg.sender)
      (undecided :
        ¬ Decided (Committee.after (state.committees jobId.toNat) msg.sender approve)) :
      Effect chain msg state (.vote jobId approve)
        { state.setCommittee jobId.toNat
            (Committee.after (state.committees jobId.toNat) msg.sender approve) with
          log := state.log ++ [.voteCast jobId.toNat msg.sender approve] }
  | tally {jobId : U256} {approve accepted : Bool} {place : Marketplace Ledger}
      (permitted : MayVote (state.committees jobId.toNat) msg.sender)
      (decided :
        Decided (Committee.after (state.committees jobId.toNat) msg.sender approve))
      (outcome : accepted = decide (2 ≤ (Committee.after
        (state.committees jobId.toNat) msg.sender approve).approves))
      (effect : Marketplace.Effect chain.toMarketChain
        { msg with sender := chain.validatorAddress } state.place
        (.resolve jobId accepted) place) :
      Effect chain msg state (.vote jobId approve)
        { state.setCommittee jobId.toNat
            { Committee.after (state.committees jobId.toNat) msg.sender approve with
              tallied := true } with
          place
          log := state.log ++ [.voteCast jobId.toNat msg.sender approve,
            .tallied jobId.toNat accepted] }

variable {Ledger : Type} {chain : ConsortiumChain Ledger} {msg : Msg}
  {state after : Consortium Ledger}

theorem effect_of_execute {call : Call Ledger}
    (executed : state.execute chain msg call = .ok after) :
    Effect chain msg state call after := by
  cases call with
  | market call =>
      simp only [execute, bind_ok_iff, pure_ok_iff] at executed
      obtain ⟨place, called, rfl⟩ := executed
      exact .market (Marketplace.effect_of_execute called)
  | assembleCommittee jobId =>
      simp only [execute, assembleCommittee, bind_ok_iff, ensure_ok_iff, pure_ok_iff,
        Bool.not_eq_true'] at executed
      obtain ⟨-, new, -, -, seed, -, -, complete, rfl⟩ := executed
      refine .assembleCommittee new complete ?_ ?_
      · exact (draw_sound (fun _ _ => trivial) _ List.nodup_nil fun _ _ => trivial).1
      · exact (draw_sound (fun _ => pick_eligible) _ List.nodup_nil
          fun _ known => by cases known).2
  | vote jobId approve =>
      simp only [execute, vote, bind_ok_iff, ensure_ok_iff, Bool.not_eq_true'] at executed
      obtain ⟨-, existing, -, waiting, -, new, -, member, committee, counting, executed⟩ :=
        executed
      have permitted : MayVote (state.committees jobId.toNat) msg.sender :=
        ⟨existing, waiting, new, member⟩
      obtain rfl := Committee.counted_ok counting
      split at executed
      case isTrue decided =>
        simp only [bind_ok_iff, pure_ok_iff] at executed
        obtain ⟨place, called, rfl⟩ := executed
        rw [List.append_assoc]
        exact .tally permitted decided rfl (Marketplace.effect_of_resolve called)
      case isFalse undecided =>
        rw [pure_ok_iff] at executed
        subst after
        exact .vote permitted undecided

theorem step_cases (chain : ConsortiumChain Ledger) (state : Consortium Ledger)
    (call : Msg × Call Ledger) :
    state.step chain call = state ∨
      chain.External call.1.sender ∧
        Effect chain call.1 state call.2 (state.step chain call) := by
  unfold step
  split
  case isTrue outside =>
    cases executed : state.execute chain call.1 call.2 with
    | error revert => exact Or.inl rfl
    | ok after => exact Or.inr ⟨outside, effect_of_execute executed⟩
  case isFalse => exact Or.inl rfl

/-- The vote that an event casts on a job. -/
def vote? (jobId : Nat) : ValidatorEvent → Option (Address × Bool)
  | .voteCast id validator approve => if id = jobId then some (validator, approve) else none
  | _ => none

/-- The votes on a job, in the order in which they were cast. -/
def votes (state : Consortium Ledger) (jobId : Nat) : List (Address × Bool) :=
  state.log.filterMap (vote? jobId)

/-- The members who voted for an outcome. -/
def votersFor (state : Consortium Ledger) (jobId : Nat) (approve : Bool) : List Address :=
  ((state.votes jobId).filter (·.2 = approve)).map Prod.fst

/-- What the validator keeps about the committee of a job, its votes and the job. -/
structure CommitteeSound (state : Consortium Ledger) (jobId : Nat) : Prop where
  unassembled : (state.committees jobId).existing = false →
    (state.committees jobId).tallied = false ∧ state.votes jobId = []
  complete : (state.committees jobId).existing = true →
    (state.committees jobId).members.length = committeeSize ∧
      (state.committees jobId).members.Nodup
  once : ((state.votes jobId).map Prod.fst).Nodup
  members : ∀ vote ∈ state.votes jobId, vote.1 ∈ (state.committees jobId).members
  voted : ∀ validator, (state.committees jobId).voted validator = true ↔
    validator ∈ (state.votes jobId).map Prod.fst
  approves : (state.committees jobId).approves = (state.votersFor jobId true).length
  rejects : (state.committees jobId).rejects = (state.votersFor jobId false).length
  tallied : (state.committees jobId).tallied = true ↔ Decided (state.committees jobId)
  ended : (state.place.market.jobs jobId).state = .terminal ↔
    (state.committees jobId).tallied = true
  accepted : (state.committees jobId).tallied = true →
    (state.place.market.jobs jobId).accepted =
      decide (2 ≤ (state.committees jobId).approves)

theorem votersFor_length (votes : List (Address × Bool)) :
    ((votes.filter (·.2 = true)).map Prod.fst).length +
        ((votes.filter (·.2 = false)).map Prod.fst).length = votes.length := by
  induction votes with
  | nil => rfl
  | cons vote votes ih =>
      obtain ⟨validator, approve⟩ := vote
      cases approve <;> simp at ih ⊢ <;> omega

/-- Not more votes are cast than there are members. -/
theorem CommitteeSound.votes_length_le {jobId : Nat} (sound : CommitteeSound state jobId) :
    (state.votersFor jobId true).length + (state.votersFor jobId false).length ≤
      committeeSize := by
  rw [votersFor, votersFor, votersFor_length]
  by_cases existing : (state.committees jobId).existing = true
  · obtain ⟨complete, -⟩ := sound.complete existing
    rw [← complete, ← List.length_map Prod.fst]
    refine (sound.once.subperm fun validator member => ?_).length_le
    obtain ⟨vote, cast, rfl⟩ := List.mem_map.mp member
    exact sound.members vote cast
  · rw [Bool.not_eq_true] at existing
    rw [(sound.unassembled existing).2]
    exact Nat.zero_le _

theorem mem_votersFor_iff {jobId : Nat} {approve : Bool} {validator : Address} :
    validator ∈ state.votersFor jobId approve ↔
      (validator, approve) ∈ state.votes jobId := by
  simp [votersFor]

theorem CommitteeSound.nodup_votersFor {jobId : Nat} (sound : CommitteeSound state jobId)
    (approve : Bool) : (state.votersFor jobId approve).Nodup :=
  sound.once.sublist (List.filter_sublist.map Prod.fst)

/-- Two different members voted for an outcome. -/
def TwoVoted (state : Consortium Ledger) (jobId : Nat) (approve : Bool) : Prop :=
  ∃ first second, first ≠ second ∧ (first, approve) ∈ state.votes jobId ∧
    (second, approve) ∈ state.votes jobId

theorem CommitteeSound.twoVoted_iff {jobId : Nat} (sound : CommitteeSound state jobId)
    (approve : Bool) :
    TwoVoted state jobId approve ↔ 2 ≤ (state.votersFor jobId approve).length := by
  have nodup := sound.nodup_votersFor approve
  constructor
  · rintro ⟨first, second, different, castFirst, castSecond⟩
    rw [← mem_votersFor_iff] at castFirst castSecond
    have pair : [first, second].Nodup := by simp [different]
    refine (pair.subperm fun voter member => ?_).length_le
    rcases List.mem_cons.mp member with rfl | member
    · exact castFirst
    · rw [List.mem_singleton.mp member]
      exact castSecond
  · intro two
    match voters : state.votersFor jobId approve with
    | [] => rw [voters] at two; simp at two
    | [_] => rw [voters] at two; simp at two
    | first :: second :: rest =>
        rw [voters] at nodup
        refine ⟨first, second, ?_, ?_, ?_⟩
        · rintro rfl
          simp at nodup
        · rw [← mem_votersFor_iff, voters]
          exact List.mem_cons_self
        · rw [← mem_votersFor_iff, voters]
          exact List.mem_cons_of_mem _ List.mem_cons_self

/-- A job has ended with an outcome exactly when two members voted for it. -/
theorem CommitteeSound.decided_iff {jobId : Nat} (sound : CommitteeSound state jobId)
    (approve : Bool) :
    ((state.place.market.jobs jobId).state = .terminal ∧
        (state.place.market.jobs jobId).accepted = approve) ↔
      TwoVoted state jobId approve := by
  have bounded := sound.votes_length_le
  have approves := sound.approves
  have rejects := sound.rejects
  have size : committeeSize = 3 := rfl
  rw [sound.ended, sound.twoVoted_iff]
  constructor
  · rintro ⟨tallied, outcome⟩
    rw [sound.accepted tallied] at outcome
    have decided := sound.tallied.mp tallied
    unfold Decided at decided
    cases approve with
    | true =>
        rw [decide_eq_true_iff] at outcome
        omega
    | false =>
        rw [decide_eq_false_iff_not] at outcome
        omega
  · intro two
    have tallied : (state.committees jobId).tallied = true := by
      rw [sound.tallied]
      unfold Decided
      cases approve <;> omega
    refine ⟨tallied, ?_⟩
    rw [sound.accepted tallied]
    cases approve with
    | true => exact decide_eq_true (by omega)
    | false => exact decide_eq_false (by omega)

theorem votes_append {events : List ValidatorEvent} {jobId : Nat}
    {cast : List (Address × Bool)} (logged : after.log = state.log ++ events)
    (read : events.filterMap (vote? jobId) = cast) :
    after.votes jobId = state.votes jobId ++ cast := by
  rw [votes, logged, List.filterMap_append, read, votes]

theorem votes_of_silent {events : List ValidatorEvent} {jobId : Nat}
    (logged : after.log = state.log ++ events)
    (silent : events.filterMap (vote? jobId) = []) :
    after.votes jobId = state.votes jobId := by
  rw [votes_append logged silent, List.append_nil]

/-- A call that neither writes the committee nor ends the job. -/
theorem CommitteeSound.of_same {jobId : Nat} (sound : CommitteeSound state jobId)
    (committee : after.committees jobId = state.committees jobId)
    (votes : after.votes jobId = state.votes jobId)
    (ended : (after.place.market.jobs jobId).state = .terminal ↔
      (state.place.market.jobs jobId).state = .terminal)
    (kept : (state.place.market.jobs jobId).state = .terminal →
      after.place.market.jobs jobId = state.place.market.jobs jobId) :
    CommitteeSound after jobId := by
  constructor
  · rw [committee, votes]
    exact sound.unassembled
  · rw [committee]
    exact sound.complete
  · rw [votes]
    exact sound.once
  · rw [committee, votes]
    exact sound.members
  · rw [committee, votes]
    exact sound.voted
  · rw [committee, votersFor, votes]
    exact sound.approves
  · rw [committee, votersFor, votes]
    exact sound.rejects
  · rw [committee]
    exact sound.tallied
  · rw [committee, ended]
    exact sound.ended
  · intro tallied
    rw [committee] at tallied ⊢
    rw [kept (sound.ended.mpr tallied)]
    exact sound.accepted tallied

/-- A new committee of three different members. -/
theorem CommitteeSound.assembled {jobId : Nat} (sound : CommitteeSound state jobId)
    (new : (state.committees jobId).existing = false) {members : List Address}
    (complete : members.length = committeeSize) (nodup : members.Nodup)
    (committee : after.committees jobId =
      { state.committees jobId with existing := true, members })
    (votes : after.votes jobId = state.votes jobId)
    (place : after.place = state.place) : CommitteeSound after jobId := by
  obtain ⟨waiting, none⟩ := sound.unassembled new
  constructor
  · rw [committee]
    exact fun impossible => by cases impossible
  · rw [committee]
    exact fun _ => ⟨complete, nodup⟩
  · rw [votes]
    exact sound.once
  · rw [votes, none]
    exact fun vote cast => by cases cast
  · rw [committee, votes]
    exact sound.voted
  · rw [committee, votersFor, votes]
    exact sound.approves
  · rw [committee, votersFor, votes]
    exact sound.rejects
  · rw [committee]
    exact sound.tallied
  · rw [committee, place]
    exact sound.ended
  · rw [committee, place]
    exact sound.accepted

/-- One more vote, which ends the job when it decides. -/
theorem CommitteeSound.voted_by {jobId : Nat} (sound : CommitteeSound state jobId)
    {sender : Address} {approve tallied : Bool}
    (permitted : MayVote (state.committees jobId) sender)
    (decides : tallied = true ↔
      Decided ((state.committees jobId).after sender approve))
    (committee : after.committees jobId =
      { (state.committees jobId).after sender approve with tallied })
    (votes : after.votes jobId = state.votes jobId ++ [(sender, approve)])
    (ended : (after.place.market.jobs jobId).state = .terminal ↔ tallied = true)
    (accepted : tallied = true → (after.place.market.jobs jobId).accepted =
      decide (2 ≤ ((state.committees jobId).after sender approve).approves)) :
    CommitteeSound after jobId := by
  have unvoted : sender ∉ (state.votes jobId).map Prod.fst := by
    rw [← sound.voted, permitted.new]
    exact Bool.noConfusion
  constructor
  · rw [committee]
    intro unassembled
    have existing := permitted.existing
    exact absurd (existing.symm.trans unassembled) Bool.noConfusion
  · rw [committee]
    exact sound.complete
  · rw [votes, List.map_append, List.nodup_append]
    refine ⟨sound.once, List.nodup_singleton _, ?_⟩
    rintro validator known _ last rfl
    rw [List.map_singleton, List.mem_singleton] at last
    dsimp only at last
    exact unvoted (last ▸ known)
  · rw [committee, votes]
    intro vote cast
    rw [List.mem_append, List.mem_singleton] at cast
    rcases cast with cast | rfl
    · exact sound.members vote cast
    · exact permitted.member
  · intro validator
    rw [committee, votes, List.map_append, List.mem_append, ← sound.voted]
    dsimp only [Committee.after]
    rw [Function.update_apply, List.map_singleton, List.mem_singleton]
    split
    case isTrue same => simp [same]
    case isFalse different => simp [different]
  · have approves := sound.approves
    rw [committee, votersFor, votes, List.filter_append]
    rw [votersFor] at approves
    cases approve <;> simp [Committee.after, approves]
  · have rejects := sound.rejects
    rw [committee, votersFor, votes, List.filter_append]
    rw [votersFor] at rejects
    cases approve <;> simp [Committee.after, rejects]
  · rw [committee]
    exact decides
  · rw [committee]
    exact ended
  · rw [committee]
    exact accepted

/-- A resolved job ends with the outcome, and the other jobs stay. -/
theorem resolved_effect {place next : Marketplace Ledger} {id : U256} {accepted : Bool}
    (effect : Marketplace.Effect chain.toMarketChain msg place (.resolve id accepted) next) :
    next.market.resolver = place.market.resolver ∧
      next.market.jobs id.toNat =
        { place.market.jobs id.toNat with state := .terminal, accepted } ∧
      ∀ other, other ≠ id.toNat → next.market.jobs other = place.market.jobs other := by
  cases effect with
  | resolve =>
      exact ⟨rfl, Function.update_self _ _ _, fun other same =>
        Function.update_of_ne same _ _⟩
  | record kind =>
      rcases kind with ⟨_, impossible⟩ | ⟨_, _, impossible⟩ | impossible <;> cases impossible

/-- The market is sound, the validator resolves it, and so is each committee. -/
structure Sound (chain : ConsortiumChain Ledger) (state : Consortium Ledger) : Prop where
  place : Marketplace.Sound chain.toMarketChain state.place
  resolver : state.place.market.resolver = chain.validatorAddress
  committees : ∀ jobId, CommitteeSound state jobId

theorem Sound.effect (sound : Sound chain state) {call : Call Ledger}
    (external : chain.External msg.sender) (effect : Effect chain msg state call after) :
    Sound chain after := by
  cases effect with
  | market effect =>
      have notResolver : msg.sender ≠ state.place.market.resolver := by
        rw [sound.resolver]
        exact external.2
      obtain ⟨resolver, ended⟩ :=
        Marketplace.unresolved_effect sound.place.1 notResolver effect
      have steps := Marketplace.jobStep_of_effect sound.place.1 effect
      refine ⟨⟨sound.place.1.effect external.1 effect,
        sound.place.2.effect sound.place.1 external.1 effect⟩,
        resolver.trans sound.resolver, fun jobId => ?_⟩
      exact (sound.committees jobId).of_same rfl rfl (ended jobId) (steps jobId).ended
  | @assembleCommittee jobId members new complete nodup trusted =>
      refine ⟨sound.place, sound.resolver, fun other => ?_⟩
      by_cases same : other = jobId.toNat
      · subst other
        exact (sound.committees _).assembled new complete nodup
          (Function.update_self _ _ _) (votes_of_silent rfl rfl) rfl
      · exact (sound.committees other).of_same (Function.update_of_ne same _ _)
          (votes_of_silent rfl rfl) Iff.rfl fun _ => rfl
  | @vote jobId approve permitted undecided =>
      refine ⟨sound.place, sound.resolver, fun other => ?_⟩
      have committee := sound.committees jobId.toNat
      by_cases same : other = jobId.toNat
      · subst other
        refine committee.voted_by permitted ?_ (Function.update_self _ _ _)
          (votes_append rfl ?_) ?_ ?_
        · have waiting := permitted.waiting
          exact ⟨fun tallied => absurd (waiting.symm.trans tallied) Bool.noConfusion,
            fun decided => absurd decided undecided⟩
        · simp [vote?]
        · exact committee.ended
        · intro tallied
          have waiting := permitted.waiting
          exact absurd (waiting.symm.trans tallied) Bool.noConfusion
      · refine (sound.committees other).of_same (Function.update_of_ne same _ _)
          (votes_of_silent rfl ?_) Iff.rfl fun _ => rfl
        simp [vote?, Ne.symm same]
  | @tally jobId approve accepted place permitted decided outcome effect =>
      have jobs := Marketplace.jobStep_of_effect sound.place.1 effect
      have placeSound : Marketplace.Sound chain.toMarketChain place :=
        ⟨sound.place.1.effect chain.separate effect,
          sound.place.2.effect sound.place.1 chain.separate effect⟩
      obtain ⟨resolver, here, elsewhere⟩ := resolved_effect effect
      refine ⟨placeSound, resolver.trans sound.resolver, fun other => ?_⟩
      by_cases same : other = jobId.toNat
      · subst other
        refine (sound.committees _).voted_by permitted ⟨fun _ => decided, fun _ => rfl⟩
          (Function.update_self _ _ _) (votes_append rfl ?_) ?_ ?_
        · simp [vote?]
        · rw [here]
          exact ⟨fun _ => rfl, fun _ => rfl⟩
        · rw [here]
          exact fun _ => outcome
      · refine (sound.committees other).of_same (Function.update_of_ne same _ _)
          (votes_of_silent rfl ?_) ?_ fun _ => ?_
        · simp [vote?, Ne.symm same]
        · rw [elsewhere other same]
        · rw [elsewhere other same]

theorem Sound.step (sound : Sound chain state) (call : Msg × Call Ledger) :
    Sound chain (state.step chain call) := by
  rcases step_cases chain state call with same | ⟨external, effect⟩
  · rwa [same]
  · exact sound.effect external effect

theorem sound_deployed (chain : ConsortiumChain Ledger)
    (bountyToken stakeToken owner : Address) (ledger : Ledger) :
    Sound chain
      (deployed (.deployed bountyToken stakeToken chain.validatorAddress owner ledger)) := by
  refine ⟨Marketplace.sound_deployed _ _ _ _ _ _, rfl, fun jobId => ?_⟩
  have undecided : ¬ Decided Committee.none := by
    rintro (two | two) <;> exact absurd two (by decide)
  refine ⟨fun _ => ⟨rfl, rfl⟩, ?_, List.nodup_nil, ?_, ?_, rfl, rfl, ?_, ?_, ?_⟩
  · exact fun impossible => Bool.noConfusion impossible
  · exact fun vote cast => nomatch cast
  · intro validator
    constructor
    · exact fun impossible => Bool.noConfusion impossible
    · exact fun cast => nomatch cast
  · exact ⟨fun impossible => Bool.noConfusion impossible,
      fun decided => absurd decided undecided⟩
  · exact ⟨fun impossible => JobState.noConfusion impossible,
      fun impossible => Bool.noConfusion impossible⟩
  · exact fun impossible => Bool.noConfusion impossible

/-- A committee is drawn from the workers that are trusted then, and stays. -/
def AssembledSoundly (chain : ConsortiumChain Ledger) (before : Consortium Ledger)
    (call : Msg × Call Ledger) : Prop :=
  ∀ jobId,
    ((before.committees jobId).existing = false →
      ((before.step chain call).committees jobId).existing = true →
      ∀ member ∈ ((before.step chain call).committees jobId).members,
        before.place.registry.canAccept call.1.timestamp member .trusted = true) ∧
    ((before.committees jobId).existing = true →
      ((before.step chain call).committees jobId).existing = true ∧
        ((before.step chain call).committees jobId).members =
          (before.committees jobId).members)

/-- What a call can do to the committee of a job. -/
theorem committee_effect {call : Call Ledger} (effect : Effect chain msg state call after)
    (jobId : Nat) :
    after.committees jobId = state.committees jobId ∨
      ((state.committees jobId).existing = false ∧
        ∀ member ∈ (after.committees jobId).members,
          state.place.registry.canAccept msg.timestamp member .trusted = true) ∨
      (state.committees jobId).existing = true ∧
        (after.committees jobId).existing = true ∧
        (after.committees jobId).members = (state.committees jobId).members := by
  cases effect with
  | market => exact Or.inl rfl
  | @assembleCommittee assembled members new complete nodup trusted =>
      by_cases same : jobId = assembled.toNat
      · subst jobId
        refine Or.inr (Or.inl ⟨new, ?_⟩)
        dsimp only [setCommittee]
        rw [Function.update_self]
        exact trusted
      · exact Or.inl (Function.update_of_ne same _ _)
  | @vote voted approve permitted =>
      by_cases same : jobId = voted.toNat
      · subst jobId
        refine Or.inr (Or.inr ⟨permitted.existing, ?_⟩)
        dsimp only [setCommittee]
        rw [Function.update_self]
        exact ⟨permitted.existing, rfl⟩
      · exact Or.inl (Function.update_of_ne same _ _)
  | @tally voted approve accepted place permitted =>
      by_cases same : jobId = voted.toNat
      · subst jobId
        refine Or.inr (Or.inr ⟨permitted.existing, ?_⟩)
        dsimp only [setCommittee]
        rw [Function.update_self]
        exact ⟨permitted.existing, rfl⟩
      · exact Or.inl (Function.update_of_ne same _ _)

theorem assembledSoundly (chain : ConsortiumChain Ledger) (before : Consortium Ledger)
    (call : Msg × Call Ledger) : AssembledSoundly chain before call := by
  intro jobId
  have kept : (before.step chain call).committees jobId = before.committees jobId →
      ((before.committees jobId).existing = false →
        ((before.step chain call).committees jobId).existing = true →
        ∀ member ∈ ((before.step chain call).committees jobId).members,
          before.place.registry.canAccept call.1.timestamp member .trusted = true) ∧
      ((before.committees jobId).existing = true →
        ((before.step chain call).committees jobId).existing = true ∧
          ((before.step chain call).committees jobId).members =
            (before.committees jobId).members) := by
    intro same
    rw [same]
    exact ⟨fun new existing => absurd (new.symm.trans existing) Bool.noConfusion,
      fun existing => ⟨existing, rfl⟩⟩
  rcases step_cases chain before call with same | ⟨-, effect⟩
  · exact kept (by rw [same])
  · rcases committee_effect effect jobId with
      same | ⟨new, trusted⟩ | ⟨existing, still, members⟩
    · exact kept same
    · exact ⟨fun _ _ => trusted,
        fun existing => absurd (new.symm.trans existing) Bool.noConfusion⟩
    · exact ⟨fun new => absurd (new.symm.trans existing) Bool.noConfusion,
        fun _ => ⟨still, members⟩⟩

/-- What holds of the committee of a job, its votes and the outcome of the job. -/
structure FairlyDecided (state : Consortium Ledger) (jobId : Nat) : Prop where
  members : (state.committees jobId).existing = true →
    (state.committees jobId).members.length = 3 ∧
      (state.committees jobId).members.Nodup
  voters : ∀ vote ∈ state.votes jobId, vote.1 ∈ (state.committees jobId).members
  once : ((state.votes jobId).map Prod.fst).Nodup
  counted : (state.committees jobId).approves = (state.votersFor jobId true).length ∧
    (state.committees jobId).rejects = (state.votersFor jobId false).length
  resolvedOnce : state.place.resolvedJobs.count jobId ≤ 1
  outcome : ∀ accepted,
    ((state.place.market.jobs jobId).state = .terminal ∧
        (state.place.market.jobs jobId).accepted = accepted) ↔
      TwoVoted state jobId accepted

end Consortium

end Roko
