import Roko.ChainTypes
import Roko.ContentHash
import Roko.FallibleSteps
import Roko.GuardedRuns
import Mathlib.Data.List.Nodup

/-!
# The knowledge futures market

`futures_market.rs`: a future offers a reward, a producer commits to it with a stake,
submits a result, and the future is fulfilled or expires.  The scores of quality are of
any type, and how they compare is not fixed.
-/

namespace Roko

/-- The comparisons of scores: whether one is positive, and whether one is below
another. -/
structure ScoreTests (Score : Type) where
  positive : Score → Bool
  below : Score → Score → Bool

/-- `FutureState`.  `opened` is `Open`. -/
inductive FutureState
  | opened
  | submitted
  | fulfilled
  | expired
  | withdrawn
  deriving DecidableEq, Repr

/-- The text that `{:?}` formats. -/
def FutureState.debug : FutureState → String
  | opened => "Open"
  | submitted => "Submitted"
  | fulfilled => "Fulfilled"
  | expired => "Expired"
  | withdrawn => "Withdrawn"

/-- The acceptance criteria of a specification are read by no call. -/
structure KnowledgeSpec (Score : Type) where
  domain : String
  topic : String
  minQuality : Score
  targetHdc : Option (List UInt64)
  deriving DecidableEq, Repr

structure KnowledgeFuture (Score : Type) where
  futureId : B256
  specification : KnowledgeSpec Score
  producerPassportId : U128
  stake : U128
  deadlineBlock : UInt64
  reward : U128
  state : FutureState
  deriving DecidableEq, Repr

structure FutureSubmission (Score : Type) where
  entryHash : B256
  qualityScore : Score
  hdcSimilarity : Option Score
  submittedAtBlock : UInt64
  deriving DecidableEq, Repr

inductive FuturesError (Score : Type)
  | notFound
  | invalidState (expected actual : String)
  | insufficientStake (provided required : U128)
  | noSubmission
  | qualityBelowThreshold (quality threshold : Score)
  | deadlineNotReached (current deadline : UInt64)
  deriving DecidableEq, Repr

structure FulfillmentResult (Score : Type) where
  stakeReturned : U128
  rewardReleased : U128
  qualityScore : Score
  deriving DecidableEq, Repr

/-- The `ExpirationResult` of `futures_market.rs`. -/
structure FutureExpiration where
  stakeSlashed : U128
  rewardReturned : U128
  deriving DecidableEq, Repr

/-- The fields of the configuration that the calls read. -/
structure FuturesMarketConfig (Score : Type) where
  minStake : U128
  minQuality : Score
  deriving DecidableEq, Repr

structure FuturesMarket (Score : Type) where
  config : FuturesMarketConfig Score
  futures : Std.ExtTreeMap B256 (KnowledgeFuture Score) := ∅
  submissions : Std.ExtTreeMap B256 (FutureSubmission Score) := ∅
  currentBlock : UInt64 := 0

/-- Fold the bytes of a text into 32 bytes: byte `i` goes into byte `i % 32`. -/
def xorFold (bytes : List UInt8) : B256 :=
  bytes.zipIdx.foldl
    (fun id entry => id ^^^ (BitVec.ofNat 256 entry.1.toNat <<< (8 * (31 - entry.2 % 32)))) 0

namespace FuturesMarket

variable {Score : Type} (tests : ScoreTests Score) (market : FuturesMarket Score)

/-- `FuturesMarket::new(config)`. -/
def new (config : FuturesMarketConfig Score) : FuturesMarket Score := { config }

def setBlock (block : UInt64) : FuturesMarket Score :=
  { market with currentBlock := block }

def setFuture (futureId : B256) (future : KnowledgeFuture Score) : FuturesMarket Score :=
  { market with futures := market.futures.insert futureId future }

/-- `derive_future_id`. -/
def deriveFutureId (spec : KnowledgeSpec Score) (deadline : UInt64) : B256 :=
  xorFold (textBytes (spec.domain ++ ":" ++ spec.topic ++ ":" ++ toString deadline.toNat))

/-- The record that `create_future` makes. -/
def newFuture (spec : KnowledgeSpec Score) (reward : U128) (deadlineBlock : UInt64) :
    KnowledgeFuture Score where
  futureId := deriveFutureId spec deadlineBlock
  specification := spec
  producerPassportId := 0
  stake := 0
  deadlineBlock
  reward
  state := .opened

def createFuture (spec : KnowledgeSpec Score) (reward : U128) (deadlineBlock : UInt64) :
    B256 × FuturesMarket Score :=
  let futureId := deriveFutureId spec deadlineBlock
  (futureId, market.setFuture futureId (newFuture spec reward deadlineBlock))

/-- `commit`.  The source uses `Submitted` for a committed future. -/
def commit (futureId : B256) (producerPassportId stake : U128) :
    Except (FuturesError Score) (FuturesMarket Score) :=
  match market.futures[futureId]? with
  | none => .error .notFound
  | some future =>
      if future.state ≠ .opened then .error (.invalidState "Open" future.state.debug)
      else if stake < market.config.minStake then
        .error (.insufficientStake stake market.config.minStake)
      else
        .ok (market.setFuture futureId
          { future with producerPassportId, stake, state := .submitted })

def submit (futureId entryHash : B256) (qualityScore : Score)
    (hdcSimilarity : Option Score) : Except (FuturesError Score) (FuturesMarket Score) :=
  match market.futures[futureId]? with
  | none => .error .notFound
  | some future =>
      if future.state ≠ .submitted then
        .error (.invalidState "Submitted (committed)" future.state.debug)
      else
        .ok { market with
          submissions := market.submissions.insert futureId
            ⟨entryHash, qualityScore, hdcSimilarity, market.currentBlock⟩ }

/-- The threshold of `fulfill`: that of the specification when it is positive. -/
def threshold (future : KnowledgeFuture Score) : Score :=
  if tests.positive future.specification.minQuality then future.specification.minQuality
  else market.config.minQuality

/-- The score of a submission that is below the threshold, if there is one. -/
def shortfall (submission : FutureSubmission Score) (future : KnowledgeFuture Score) :
    Option Score :=
  let minQuality := market.threshold tests future
  if tests.below submission.qualityScore minQuality then some submission.qualityScore
  else if future.specification.targetHdc.isSome then
    match submission.hdcSimilarity with
    | some similarity => if tests.below similarity minQuality then some similarity else none
    | none => none
  else none

def fulfill (futureId : B256) :
    Except (FuturesError Score) (FulfillmentResult Score × FuturesMarket Score) :=
  match market.submissions[futureId]? with
  | none => .error .noSubmission
  | some submission =>
      match market.futures[futureId]? with
      | none => .error .notFound
      | some future =>
          match market.shortfall tests submission future with
          | some quality =>
              .error (.qualityBelowThreshold quality (market.threshold tests future))
          | none =>
              .ok (⟨future.stake, future.reward, submission.qualityScore⟩,
                market.setFuture futureId { future with state := .fulfilled })

def expire (futureId : B256) :
    Except (FuturesError Score) (FutureExpiration × FuturesMarket Score) :=
  match market.futures[futureId]? with
  | none => .error .notFound
  | some future =>
      if market.currentBlock < future.deadlineBlock then
        .error (.deadlineNotReached market.currentBlock future.deadlineBlock)
      else if future.state = .fulfilled then
        .error (.invalidState "not Fulfilled" "Fulfilled")
      else
        .ok (⟨future.stake, future.reward⟩,
          market.setFuture futureId { future with state := .expired })

end FuturesMarket

/-- The calls that change the futures. -/
inductive FuturesCall (Score : Type)
  | setBlock (block : UInt64)
  | createFuture (spec : KnowledgeSpec Score) (reward : U128) (deadlineBlock : UInt64)
  | commit (futureId : B256) (producerPassportId stake : U128)
  | submit (futureId entryHash : B256) (qualityScore : Score)
      (hdcSimilarity : Option Score)
  | fulfill (futureId : B256)
  | expire (futureId : B256)

namespace FuturesMarket

variable {Score : Type} (tests : ScoreTests Score)

def execute (market : FuturesMarket Score) :
    FuturesCall Score → Except (FuturesError Score) (FuturesMarket Score)
  | .setBlock block => .ok (market.setBlock block)
  | .createFuture spec reward deadlineBlock =>
      .ok (market.createFuture spec reward deadlineBlock).2
  | .commit futureId producerPassportId stake =>
      market.commit futureId producerPassportId stake
  | .submit futureId entryHash qualityScore hdcSimilarity =>
      market.submit futureId entryHash qualityScore hdcSimilarity
  | .fulfill futureId => (market.fulfill tests futureId).map Prod.snd
  | .expire futureId => (market.expire futureId).map Prod.snd

end FuturesMarket

/-!
Fulfilling and expiring a future both hand out its reward and its stake, but each checks
only part of what the other has done, and creating a future writes over one with the
same id.  The runs that pay everything once are those that reach none of these gaps.
-/

namespace FuturesMarket

variable {Score : Type} {tests : ScoreTests Score} {market after : FuturesMarket Score}
  {futureId : B256}

/-- The future is fulfilled or expired. -/
def Ended (future : KnowledgeFuture Score) : Prop :=
  future.state = .fulfilled ∨ future.state = .expired

/-- The checks of `fulfill`. -/
def Fulfills (tests : ScoreTests Score) (market : FuturesMarket Score) (futureId : B256)
    (future : KnowledgeFuture Score) : Prop :=
  market.futures[futureId]? = some future ∧
    ∃ submission, market.submissions[futureId]? = some submission ∧
      market.shortfall tests submission future = none

/-- The checks of `expire`. -/
def Expires (market : FuturesMarket Score) (futureId : B256)
    (future : KnowledgeFuture Score) : Prop :=
  market.futures[futureId]? = some future ∧ future.deadlineBlock ≤ market.currentBlock ∧
    future.state ≠ .fulfilled

theorem fulfill_ok_iff :
    (market.fulfill tests futureId).map Prod.snd = .ok after ↔
      ∃ future, Fulfills tests market futureId future ∧
        after = market.setFuture futureId { future with state := .fulfilled } := by
  unfold fulfill Fulfills
  cases market.submissions[futureId]? with
  | none => simp [Except.map]
  | some submission =>
      cases market.futures[futureId]? with
      | none => simp [Except.map]
      | some future =>
          dsimp only
          cases short : market.shortfall tests submission future with
          | none => simp [Except.map, short, eq_comm]
          | some quality => simp [Except.map, short]

theorem expire_ok_iff :
    (market.expire futureId).map Prod.snd = .ok after ↔
      ∃ future, Expires market futureId future ∧
        after = market.setFuture futureId { future with state := .expired } := by
  unfold expire Expires
  cases market.futures[futureId]? with
  | none => simp [Except.map]
  | some future =>
      dsimp only
      split
      case isTrue early => simp [Except.map, UInt64.not_le.mpr early]
      case isFalse due =>
        split
        case isTrue paid => simp [Except.map, paid]
        case isFalse unpaid =>
          constructor
          · intro expired
            cases expired
            exact ⟨future, ⟨rfl, UInt64.not_lt.mp due, unpaid⟩, rfl⟩
          · rintro ⟨other, ⟨found, -⟩, rfl⟩
            cases found
            rfl

/-- What a call that does not return an error does. -/
inductive Effect (tests : ScoreTests Score) (market : FuturesMarket Score) :
    FuturesCall Score → FuturesMarket Score → Prop
  | setBlock (block : UInt64) :
      Effect tests market (.setBlock block) (market.setBlock block)
  | createFuture (spec : KnowledgeSpec Score) (reward : U128) (deadlineBlock : UInt64) :
      Effect tests market (.createFuture spec reward deadlineBlock)
        (market.setFuture (deriveFutureId spec deadlineBlock)
          (newFuture spec reward deadlineBlock))
  | commit {futureId : B256} {producerPassportId stake : U128}
      {future : KnowledgeFuture Score} (found : market.futures[futureId]? = some future)
      (isOpen : future.state = .opened) :
      Effect tests market (.commit futureId producerPassportId stake)
        (market.setFuture futureId
          { future with producerPassportId, stake, state := .submitted })
  | submit {futureId entryHash : B256} {qualityScore : Score}
      {hdcSimilarity : Option Score}
      (submissions : Std.ExtTreeMap B256 (FutureSubmission Score)) :
      Effect tests market (.submit futureId entryHash qualityScore hdcSimilarity)
        { market with submissions }
  | fulfill {futureId : B256} {future : KnowledgeFuture Score}
      (accepted : Fulfills tests market futureId future) :
      Effect tests market (.fulfill futureId)
        (market.setFuture futureId { future with state := .fulfilled })
  | expire {futureId : B256} {future : KnowledgeFuture Score}
      (accepted : Expires market futureId future) :
      Effect tests market (.expire futureId)
        (market.setFuture futureId { future with state := .expired })

theorem effect_of_execute {call : FuturesCall Score}
    (executed : market.execute tests call = .ok after) : Effect tests market call after := by
  cases call with
  | setBlock block =>
      cases executed
      exact .setBlock block
  | createFuture spec reward deadlineBlock =>
      cases executed
      exact .createFuture spec reward deadlineBlock
  | commit futureId producerPassportId stake =>
      unfold execute commit at executed
      dsimp only at executed
      split at executed
      case h_1 => cases executed
      case h_2 future found =>
        split at executed
        case isTrue => cases executed
        case isFalse isOpen =>
          split at executed
          case isTrue => cases executed
          case isFalse =>
            cases executed
            exact .commit found (not_not.mp isOpen)
  | submit futureId entryHash qualityScore hdcSimilarity =>
      unfold execute submit at executed
      dsimp only at executed
      split at executed
      case h_1 => cases executed
      case h_2 future found =>
        split at executed
        case isTrue => cases executed
        case isFalse =>
          cases executed
          exact .submit _
  | fulfill futureId =>
      obtain ⟨future, accepted, rfl⟩ := fulfill_ok_iff.mp executed
      exact .fulfill accepted
  | expire futureId =>
      obtain ⟨future, accepted, rfl⟩ := expire_ok_iff.mp executed
      exact .expire accepted

theorem getElem?_setFuture (market : FuturesMarket Score) (futureId other : B256)
    (future : KnowledgeFuture Score) :
    (market.setFuture futureId future).futures[other]? =
      if futureId = other then some future else market.futures[other]? := by
  unfold setFuture
  rw [Std.ExtTreeMap.getElem?_insert]
  simp only [Std.compare_eq_iff_eq]

end FuturesMarket

/-- A payout hands out the reward of a future, and returns or slashes the stake that it
holds, given by the number of its commitment. -/
structure FuturePayout where
  futureId : B256
  stake : Option Nat
  deriving DecidableEq, Repr

/-- A market and what was committed and paid in its run. -/
structure FuturesHistory (Score : Type) where
  market : FuturesMarket Score
  commits : List B256 := []
  stakeOf : B256 → Option Nat := fun _ => none
  payouts : List FuturePayout := []

namespace FuturesHistory

open FuturesMarket

variable {Score : Type} (tests : ScoreTests Score) (history : FuturesHistory Score)

/-- The history after a call that leads to a market. -/
def recorded (market : FuturesMarket Score) : FuturesCall Score → FuturesHistory Score
  | .createFuture spec _ deadlineBlock =>
      { history with
        market
        stakeOf := Function.update history.stakeOf (deriveFutureId spec deadlineBlock) none }
  | .commit futureId _ _ =>
      { history with
        market
        commits := history.commits ++ [futureId]
        stakeOf := Function.update history.stakeOf futureId (some history.commits.length) }
  | .fulfill futureId | .expire futureId =>
      { history with
        market
        payouts := history.payouts ++ [⟨futureId, history.stakeOf futureId⟩] }
  | _ => { history with market }

/-- A call that returns an error changes nothing. -/
def step (history : FuturesHistory Score) (call : FuturesCall Score) :
    FuturesHistory Score :=
  match history.market.execute tests call with
  | .error _ => history
  | .ok market => history.recorded market call

/-- No reward is handed out twice, and no stake is returned or slashed twice. -/
structure Sound (history : FuturesHistory Score) : Prop where
  rewardsOnce : (history.payouts.map FuturePayout.futureId).Nodup
  stakesOnce : (history.payouts.filterMap FuturePayout.stake).Nodup

/-- The call changes no future that has ended, and creates none over another. -/
structure Kept (history : FuturesHistory Score) (call : FuturesCall Score) : Prop where
  ended : ∀ (futureId : B256) (future : KnowledgeFuture Score),
    history.market.futures[futureId]? = some future → Ended future →
      (history.step tests call).market.futures[futureId]? = some future
  created : ∀ spec reward deadlineBlock, call = .createFuture spec reward deadlineBlock →
    ∀ (futureId : B256) (future : KnowledgeFuture Score),
      history.market.futures[futureId]? = some future →
        (history.step tests call).market.futures[futureId]? = some future

/-- A created future has an id that no other future has, and what is fulfilled or expired
has not been before. -/
def StepSafe (history : FuturesHistory Score) : FuturesCall Score → Prop
  | .createFuture spec reward deadlineBlock =>
      ∀ future, history.market.futures[deriveFutureId spec deadlineBlock]? = some future →
        future = newFuture spec reward deadlineBlock
  | .fulfill futureId =>
      ∀ future, Fulfills tests history.market futureId future → ¬ Ended future
  | .expire futureId =>
      ∀ future, Expires history.market futureId future → future.state ≠ .expired
  | _ => True

/-- The futures that have ended are those that were paid, and a stake is the one of a
commitment to its own future. -/
structure Tracked (history : FuturesHistory Score) : Prop where
  paid : ∀ futureId, futureId ∈ history.payouts.map FuturePayout.futureId ↔
    ∃ future, history.market.futures[futureId]? = some future ∧ Ended future
  staked : ∀ futureId number, history.stakeOf futureId = some number →
    history.commits[number]? = some futureId
  paidStake : ∀ payout ∈ history.payouts, ∀ number, payout.stake = some number →
    history.commits[number]? = some payout.futureId

variable {tests history}

theorem Tracked.stakesOnce (tracked : history.Tracked)
    (once : (history.payouts.map FuturePayout.futureId).Nodup) :
    (history.payouts.filterMap FuturePayout.stake).Nodup := by
  refine List.pairwise_filterMap.mpr ?_
  refine (List.pairwise_map.mp once).imp_of_mem ?_
  intro first second firstPaid secondPaid apart number firstStake other secondStake same
  subst same
  have firstOwner := tracked.paidStake first firstPaid number firstStake
  have secondOwner := tracked.paidStake second secondPaid number secondStake
  rw [firstOwner] at secondOwner
  exact apart (Option.some.inj secondOwner)

/-- A write of a future that has not ended, in place of one that has not. -/
theorem Tracked.rewritten (tracked : history.Tracked) {futureId : B256}
    {new : KnowledgeFuture Score} (notEnded : ¬ Ended new)
    (before : ∀ future, history.market.futures[futureId]? = some future → ¬ Ended future)
    {commits : List B256} {stakeOf : B256 → Option Nat}
    (grows : ∀ (number : Nat) (id : B256),
      history.commits[number]? = some id → commits[number]? = some id)
    (staked : ∀ futureId number, stakeOf futureId = some number →
      commits[number]? = some futureId) :
    Tracked { history with
      market := history.market.setFuture futureId new
      commits
      stakeOf } := by
  refine ⟨fun other => ?_, staked, fun payout paid number holds =>
    grows number _ (tracked.paidStake payout paid number holds)⟩
  rw [tracked.paid other]
  simp only [getElem?_setFuture]
  by_cases isHere : futureId = other
  · subst isHere
    simp only [if_pos]
    constructor
    · rintro ⟨future, found, ended⟩
      exact absurd ended (before future found)
    · rintro ⟨future, same, ended⟩
      cases same
      exact absurd ended notEnded
  · simp only [if_neg isHere]

theorem Tracked.pays (tracked : history.Tracked) {futureId : B256}
    {new : KnowledgeFuture Score} (ended : Ended new) :
    Tracked { history with
      market := history.market.setFuture futureId new
      payouts := history.payouts ++ [⟨futureId, history.stakeOf futureId⟩] } := by
  refine ⟨fun other => ?_, tracked.staked, ?_⟩
  · simp only [getElem?_setFuture, List.map_append, List.mem_append, tracked.paid other,
      List.map_cons, List.map_nil, List.mem_singleton]
    by_cases isHere : futureId = other
    · subst isHere
      simp [ended]
    · simp [isHere, Ne.symm isHere]
  · intro payout member number holds
    rcases List.mem_append.mp member with earlier | last
    · exact tracked.paidStake payout earlier number holds
    · rw [List.mem_singleton.mp last] at holds ⊢
      exact tracked.staked futureId number holds

/-- A payout keeps the history sound exactly when its future has not ended. -/
theorem sound_pays_iff (tracked : history.Tracked) (sound : history.Sound)
    {futureId : B256} {future new : KnowledgeFuture Score}
    (found : history.market.futures[futureId]? = some future) (ended : Ended new) :
    Sound { history with
        market := history.market.setFuture futureId new
        payouts := history.payouts ++ [⟨futureId, history.stakeOf futureId⟩] } ↔
      ¬ Ended future := by
  have unpaid : futureId ∉ history.payouts.map FuturePayout.futureId ↔ ¬ Ended future := by
    rw [tracked.paid futureId, found]
    simp
  rw [← unpaid]
  constructor
  · intro after
    have once := after.rewardsOnce
    rw [List.map_append, List.nodup_append_comm] at once
    exact (List.nodup_cons.mp once).1
  · intro unpaid
    have once : ((history.payouts ++ [FuturePayout.mk futureId
        (history.stakeOf futureId)]).map FuturePayout.futureId).Nodup := by
      rw [List.map_append, List.nodup_append_comm]
      exact List.nodup_cons.mpr ⟨unpaid, sound.rewardsOnce⟩
    exact ⟨once, (tracked.pays ended).stakesOnce once⟩

theorem step_cases (tests : ScoreTests Score) (history : FuturesHistory Score)
    (call : FuturesCall Score) :
    ((∃ error, history.market.execute tests call = .error error) ∧
        history.step tests call = history) ∨
      ∃ after, Effect tests history.market call after ∧
        history.step tests call = history.recorded after call := by
  unfold step
  cases executed : history.market.execute tests call with
  | error error => exact Or.inl ⟨⟨error, rfl⟩, rfl⟩
  | ok after => exact Or.inr ⟨after, effect_of_execute executed, rfl⟩

theorem not_ended_newFuture (spec : KnowledgeSpec Score) (reward : U128)
    (deadlineBlock : UInt64) : ¬ Ended (newFuture spec reward deadlineBlock) := by
  simp [Ended, newFuture]

theorem tracked_step (tracked : history.Tracked) {call : FuturesCall Score}
    (safe : StepSafe tests history call) : (history.step tests call).Tracked := by
  rcases step_cases tests history call with ⟨-, unchanged⟩ | ⟨after, effect, stepped⟩
  · rw [unchanged]
    exact tracked
  · rw [stepped]
    cases effect with
    | setBlock block => exact ⟨tracked.paid, tracked.staked, tracked.paidStake⟩
    | createFuture spec reward deadlineBlock =>
        refine tracked.rewritten (not_ended_newFuture spec reward deadlineBlock) ?_
          (fun _ _ same => same) ?_
        · intro future found
          rw [safe future found]
          exact not_ended_newFuture spec reward deadlineBlock
        · intro other number holds
          by_cases isHere : other = deriveFutureId spec deadlineBlock
          · rw [isHere, Function.update_self] at holds
            cases holds
          · rw [Function.update_of_ne isHere] at holds
            exact tracked.staked other number holds
    | @commit futureId producerPassportId stake future found isOpen =>
        have grows : ∀ (number : Nat) (id : B256), history.commits[number]? = some id →
            (history.commits ++ [futureId])[number]? = some id := by
          intro number id holds
          obtain ⟨bound, -⟩ := List.getElem?_eq_some_iff.mp holds
          rw [List.getElem?_append_left bound]
          exact holds
        refine tracked.rewritten (by simp [Ended]) ?_ grows ?_
        · exact (FallibleSteps.forall_found_iff found _).mpr (by simp [Ended, isOpen])
        · intro other number holds
          by_cases isHere : other = futureId
          · rw [isHere, Function.update_self] at holds
            cases holds
            rw [isHere, List.getElem?_append_right le_rfl, Nat.sub_self]
            rfl
          · rw [Function.update_of_ne isHere] at holds
            exact grows number other (tracked.staked other number holds)
    | submit submissions => exact ⟨tracked.paid, tracked.staked, tracked.paidStake⟩
    | fulfill accepted => exact tracked.pays (Or.inl rfl)
    | expire accepted => exact tracked.pays (Or.inr rfl)

theorem kept_of_same {call : FuturesCall Score}
    (same : (history.step tests call).market.futures = history.market.futures) :
    Kept tests history call := by
  constructor
  · intro futureId future found _
    rw [same]
    exact found
  · intro spec reward deadlineBlock _ futureId future found
    rw [same]
    exact found

/-- A call that writes one future and creates none keeps the others. -/
theorem kept_of_setFuture {call : FuturesCall Score} {futureId : B256}
    {old new : KnowledgeFuture Score}
    (found : history.market.futures[futureId]? = some old) (notEnded : ¬ Ended old)
    (wrote : (history.step tests call).market = history.market.setFuture futureId new)
    (creates : ∀ spec reward deadlineBlock, call ≠ .createFuture spec reward deadlineBlock) :
    Kept tests history call := by
  constructor
  · intro other future otherFound ended
    rw [wrote, getElem?_setFuture]
    split
    case isTrue isHere =>
      subst isHere
      rw [found] at otherFound
      cases otherFound
      exact absurd ended notEnded
    case isFalse => exact otherFound
  · exact fun spec reward deadlineBlock isCreate => absurd isCreate (creates _ _ _)

/-- Creating a future keeps all others exactly when it finds none but itself. -/
theorem stepSafe_createFuture_iff (tests : ScoreTests Score) (history : FuturesHistory Score)
    (spec : KnowledgeSpec Score) (reward : U128) (deadlineBlock : UInt64) :
    StepSafe tests history (.createFuture spec reward deadlineBlock) ↔
      Kept tests history (.createFuture spec reward deadlineBlock) := by
  have written := getElem?_setFuture history.market (deriveFutureId spec deadlineBlock)
  constructor
  · intro safe
    have same : ∀ (other : B256) (future : KnowledgeFuture Score),
        history.market.futures[other]? = some future →
          (history.step tests (.createFuture spec reward
            deadlineBlock)).market.futures[other]? = some future := by
      intro other future found
      refine (written other _).trans ?_
      split
      case isTrue isHere =>
        subst isHere
        rw [safe future found]
      case isFalse => exact found
    exact ⟨fun other future found _ => same other future found, fun _ _ _ _ => same⟩
  · intro kept future found
    have after := kept.created spec reward deadlineBlock rfl _ future found
    have here := (written (deriveFutureId spec deadlineBlock) _).symm.trans after
    rw [if_pos rfl] at here
    exact (Option.some.inj here).symm

/-- A payout of a future that has not ended keeps the history sound and its futures, and
no other payout does. -/
theorem pays_iff (tracked : history.Tracked) (sound : history.Sound)
    {call : FuturesCall Score} {futureId : B256} {future new : KnowledgeFuture Score}
    (found : history.market.futures[futureId]? = some future) (ended : Ended new)
    (stepped : history.step tests call = { history with
      market := history.market.setFuture futureId new
      payouts := history.payouts ++ [⟨futureId, history.stakeOf futureId⟩] })
    (creates : ∀ spec reward deadlineBlock, call ≠ .createFuture spec reward deadlineBlock) :
    Sound (history.step tests call) ∧ Kept tests history call ↔ ¬ Ended future := by
  have exact : Sound (history.step tests call) ↔ ¬ Ended future := by
    rw [stepped]
    exact sound_pays_iff tracked sound found ended
  rw [exact, and_iff_left_iff_imp]
  intro notEnded
  exact kept_of_setFuture found notEnded (congrArg FuturesHistory.market stepped) creates

theorem stepSafe_of_error {call : FuturesCall Score} {error : FuturesError Score}
    (failed : history.market.execute tests call = .error error) :
    StepSafe tests history call := by
  cases call with
  | createFuture spec reward deadlineBlock => cases failed
  | fulfill futureId =>
      intro future accepted
      have executed := fulfill_ok_iff.mpr ⟨future, accepted, rfl⟩
      cases failed.symm.trans executed
  | expire futureId =>
      intro future accepted
      have executed := expire_ok_iff.mpr ⟨future, accepted, rfl⟩
      cases failed.symm.trans executed
  | _ => trivial

/-- The condition says exactly which calls keep a sound history sound and its futures as
they are promised to stay. -/
theorem stepSafe_iff (tracked : history.Tracked) (sound : history.Sound)
    (call : FuturesCall Score) :
    StepSafe tests history call ↔
      Sound (history.step tests call) ∧ Kept tests history call := by
  rcases step_cases tests history call with
    ⟨⟨error, failed⟩, unchanged⟩ | ⟨after, effect, stepped⟩
  · refine iff_of_true (stepSafe_of_error failed) ⟨?_, kept_of_same ?_⟩
    · rw [unchanged]
      exact sound
    · rw [unchanged]
  · have market := congrArg FuturesHistory.market stepped
    have unpaid (same : (history.step tests call).payouts = history.payouts) :
        Sound (history.step tests call) := by
      constructor
      · rw [same]
        exact sound.rewardsOnce
      · rw [same]
        exact sound.stakesOnce
    have paid := congrArg FuturesHistory.payouts stepped
    cases effect with
    | setBlock block =>
        exact iff_of_true trivial ⟨unpaid paid, kept_of_same (by rw [market]; rfl)⟩
    | createFuture spec reward deadlineBlock =>
        rw [stepSafe_createFuture_iff]
        exact (and_iff_right (unpaid paid)).symm
    | commit found isOpen =>
        refine iff_of_true trivial ⟨unpaid paid, kept_of_setFuture found ?_ market (by simp)⟩
        simp [Ended, isOpen]
    | submit submissions =>
        exact iff_of_true trivial ⟨unpaid paid, kept_of_same (by rw [market]; rfl)⟩
    | @fulfill futureId future accepted =>
        rw [pays_iff tracked sound accepted.1 (Or.inl rfl) stepped (by simp)]
        constructor
        · exact fun safe => safe future accepted
        · intro notEnded other otherAccepted
          exact (FallibleSteps.forall_found_iff accepted.1 fun other => ¬ Ended other).mpr
            notEnded other otherAccepted.1
    | @expire futureId future accepted =>
        have ended : ¬ Ended future ↔ future.state ≠ .expired := by
          simp [Ended, accepted.2.2]
        rw [pays_iff tracked sound accepted.1 (Or.inr rfl) stepped (by simp), ended]
        constructor
        · exact fun safe => safe future accepted
        · intro notExpired other otherAccepted
          exact (FallibleSteps.forall_found_iff accepted.1
            fun other => other.state ≠ .expired).mpr notExpired other otherAccepted.1

def start (config : FuturesMarketConfig Score) : FuturesHistory Score :=
  { market := .new config }

theorem tracked_start (config : FuturesMarketConfig Score) : (start config).Tracked := by
  refine ⟨fun futureId => iff_of_false List.not_mem_nil ?_, fun _ _ holds => ?_,
    fun _ paid => absurd paid List.not_mem_nil⟩
  · rintro ⟨future, found, -⟩
    cases Std.ExtTreeMap.getElem?_empty.symm.trans found
  · cases holds

theorem sound_start (config : FuturesMarketConfig Score) : (start config).Sound :=
  ⟨List.nodup_nil, List.nodup_nil⟩

/-- Scores in tenths. -/
def tenths : ScoreTests Nat where
  positive score := 0 < score
  below first second := first < second

def asyncPatterns : KnowledgeSpec Nat := ⟨"rust", "async-patterns", 6, none⟩

end FuturesHistory

end Roko
