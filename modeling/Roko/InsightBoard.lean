import Roko.Contracts
import Roko.GuardedRuns
import Mathlib.Algebra.BigOperators.Group.Finset.Piecewise

/-!
# The insight board

`InsightBoard.sol`: agents post insights, others confirm them, and a confirmation credits
the poster with a reward that the poster claims in tokens.
-/

namespace Roko

open Contracts

structure Insight where
  poster : Address
  contentHash : B256
  uri : String
  postedAt : Nat
  pheromone : Nat
  deriving DecidableEq, Repr

inductive InsightEvent
  | insightPosted (id : Nat) (poster : Address) (contentHash : B256) (uri : String)
  | insightConfirmed (id : Nat) (confirmer : Address) (pheromone : Nat)
  | earningsClaimed (poster : Address) (amount : Nat)
  deriving DecidableEq, Repr

structure InsightBoard where
  rewardToken : Address
  nextInsightId : Nat
  insights : Nat → Insight
  confirmed : Nat → Address → Bool
  earningsOf : Address → Nat

namespace InsightBoard

/-- 1 ether. -/
def rewardPerConfirm : Nat := 10 ^ 18

/-- The record that the mapping holds for an insight that nobody posted. -/
def noInsight : Insight := ⟨0, 0, "", 0, 0⟩

/-- `constructor(rewardToken_)`. -/
def deployed (rewardToken : Address) : InsightBoard where
  rewardToken
  nextInsightId := 0
  insights _ := noInsight
  confirmed _ _ := false
  earningsOf _ := 0

section Calls

variable (board : InsightBoard)

def post (msg : Msg) (contentHash : B256) (uri : String) :
    Except Revert (InsightBoard × InsightEvent) := do
  let id := board.nextInsightId
  let nextInsightId ← checkedAdd 256 id 1
  pure
    ({ board with
        nextInsightId
        insights := Function.update board.insights id
          { poster := msg.sender
            contentHash
            uri
            postedAt := toUint64 msg.timestamp
            pheromone := 0 } },
      .insightPosted id msg.sender contentHash uri)

def confirm (msg : Msg) (id : Nat) : Except Revert (InsightBoard × InsightEvent) := do
  let insight := board.insights id
  ensure (insight.poster ≠ 0) .unknownInsight
  ensure (insight.poster ≠ msg.sender) .selfConfirm
  ensure (board.confirmed id msg.sender = false) .alreadyConfirmed
  let pheromone ← checkedAdd 64 insight.pheromone 1
  let earnings ← checkedAdd 256 (board.earningsOf insight.poster) rewardPerConfirm
  pure
    ({ board with
        confirmed := Function.update board.confirmed id
          (Function.update (board.confirmed id) msg.sender true)
        insights := Function.update board.insights id { insight with pheromone }
        earningsOf := Function.update board.earningsOf insight.poster earnings },
      .insightConfirmed id msg.sender pheromone)

def claim {Ledger : Type} (erc20 : Erc20 Ledger) (this : Address) (msg : Msg)
    (tokens : Tokens Ledger) :
    Except Revert (InsightBoard × Tokens Ledger × InsightEvent) := do
  let amount := board.earningsOf msg.sender
  ensure (amount ≠ 0) .nothingToClaim
  let tokens ← tokens.transfer erc20 board.rewardToken this msg.sender amount
    "transfer failed"
  pure
    ({ board with earningsOf := Function.update board.earningsOf msg.sender 0 }, tokens,
      .earningsClaimed msg.sender amount)

def getInsight (id : Nat) : Except Revert Insight := do
  ensure ((board.insights id).poster ≠ 0) .unknownInsight
  pure (board.insights id)

end Calls

/-- The calls that change a board, and what other transactions do to the tokens. -/
inductive BoardCall (Ledger : Type)
  | post (contentHash : B256) (uri : String)
  | confirm (id : U256)
  | claim
  | token (after : Ledger)

/-- A board, its tokens and the events it has emitted. -/
structure BoardHistory (Ledger : Type) where
  board : InsightBoard
  tokens : Tokens Ledger
  events : List InsightEvent := []

namespace BoardHistory

variable {Ledger : Type} (erc20 : Erc20 Ledger) (this : Address)
  (history : BoardHistory Ledger)

def execute (msg : Msg) : BoardCall Ledger → Except Revert (BoardHistory Ledger)
  | .post contentHash uri => do
      let (board, event) ← history.board.post msg contentHash uri
      pure { history with board, events := history.events ++ [event] }
  | .confirm id => do
      let (board, event) ← history.board.confirm msg id.toNat
      pure { history with board, events := history.events ++ [event] }
  | .claim => do
      let (board, tokens, event) ← history.board.claim erc20 this msg history.tokens
      pure { history with board, tokens, events := history.events ++ [event] }
  | .token ledger => pure { history with tokens := { history.tokens with ledger } }

def step (history : BoardHistory Ledger) (call : Msg × BoardCall Ledger) :
    BoardHistory Ledger :=
  settle history (history.execute erc20 this call.1 call.2)

/-- The accounts that have confirmed an insight, in the order of their confirmations. -/
def confirmers (events : List InsightEvent) (id : Nat) : List Address :=
  events.filterMap fun event =>
    match event with
    | .insightConfirmed confirmedId confirmer _ =>
        if confirmedId = id then some confirmer else none
    | _ => none

/-- What an account has claimed. -/
def claimed (events : List InsightEvent) (participant : Address) : Nat :=
  (events.map fun event =>
    match event with
    | .earningsClaimed poster amount => if poster = participant then amount else 0
    | _ => 0).sum

/-- The pheromone of an insight, for its poster. -/
def pheromoneFor (participant : Address) (insight : Insight) : Nat :=
  if insight.poster = participant then insight.pheromone else 0

/-- The pheromone of the insights of an account. -/
def earned (board : InsightBoard) (participant : Address) : Nat :=
  ∑ id ∈ Finset.range board.nextInsightId, pheromoneFor participant (board.insights id)

/-- Pheromone counts confirmers, and earnings and claims count pheromone. -/
structure Accounted : Prop where
  counted : ∀ id, (history.board.insights id).pheromone =
    (confirmers history.events id).toFinset.card
  recorded : ∀ id confirmer, confirmer ∈ confirmers history.events id ↔
    history.board.confirmed id confirmer = true
  notPoster : ∀ id,
    (history.board.insights id).poster ∉ confirmers history.events id
  balanced : ∀ participant,
    history.board.earningsOf participant + claimed history.events participant =
      rewardPerConfirm * earned history.board participant

/-- Nothing is known of the identifiers that are not in use. -/
structure Consistent : Prop extends Accounted history where
  unused : ∀ id, history.board.nextInsightId ≤ id →
    history.board.insights id = noInsight ∧ confirmers history.events id = []

variable {erc20 this history} {events : List InsightEvent} {event : InsightEvent}

theorem confirmers_append (id : Nat) :
    confirmers (events ++ [event]) id =
      confirmers events id ++ confirmers [event] id :=
  List.filterMap_append

theorem claimed_append (participant : Address) :
    claimed (events ++ [event]) participant =
      claimed events participant + claimed [event] participant := by
  simp [claimed]

/-- One more confirmation is counted for the poster of its insight. -/
theorem sum_pheromoneFor_confirmed (insights : Nat → Insight) {id count : Nat}
    (known : id < count) (participant : Address) :
    ∑ other ∈ Finset.range count, pheromoneFor participant
        (Function.update insights id
          { insights id with pheromone := (insights id).pheromone + 1 } other) =
      ∑ other ∈ Finset.range count, pheromoneFor participant (insights other) +
        if (insights id).poster = participant then 1 else 0 := by
  have term (other : Nat) : pheromoneFor participant
      (Function.update insights id
        { insights id with pheromone := (insights id).pheromone + 1 } other) =
        pheromoneFor participant (insights other) +
          if other = id then if (insights id).poster = participant then 1 else 0 else 0 := by
    by_cases same : other = id
    · rw [same, Function.update_self, if_pos rfl]
      unfold pheromoneFor
      split <;> rfl
    · rw [Function.update_of_ne same, if_neg same, Nat.add_zero]
  rw [Finset.sum_congr rfl fun other _ => term other, Finset.sum_add_distrib,
    Finset.sum_ite_eq', if_pos (Finset.mem_range.mpr known)]

theorem Consistent.posted (consistent : Consistent history) {msg : Msg} {contentHash : B256}
    {uri : String} {board : InsightBoard}
    (called : history.board.post msg contentHash uri = .ok (board, event)) :
    Consistent { history with board, events := history.events ++ [event] } := by
  simp only [post, bind_ok_iff, pure_ok_iff, checkedAdd_ok_iff, Prod.mk.injEq] at called
  obtain ⟨next, ⟨-, rfl⟩, rfl, rfl⟩ := called
  obtain ⟨-, none⟩ := consistent.unused history.board.nextInsightId le_rfl
  have sameConfirmers (id : Nat) : confirmers (history.events ++
      [.insightPosted history.board.nextInsightId msg.sender contentHash uri]) id =
        confirmers history.events id := by
    rw [confirmers_append]
    exact List.append_nil _
  have sameEarned (participant : Address) (insight : Insight) (new : insight.pheromone = 0) :
      ∑ id ∈ Finset.range (history.board.nextInsightId + 1), pheromoneFor participant
        (Function.update history.board.insights history.board.nextInsightId insight id) =
          earned history.board participant := by
    rw [Finset.sum_range_succ, Function.update_self]
    have nothing : pheromoneFor participant insight = 0 := by
      unfold pheromoneFor
      rw [new, ite_self]
    rw [nothing, Nat.add_zero]
    refine Finset.sum_congr rfl fun id member => ?_
    rw [Function.update_of_ne (Finset.mem_range.mp member).ne]
  constructor
  · constructor <;> dsimp only
    · intro id
      rw [sameConfirmers]
      by_cases same : id = history.board.nextInsightId
      · rw [same, Function.update_self, none]
        rfl
      · rw [Function.update_of_ne same]
        exact consistent.counted id
    · intro id
      rw [sameConfirmers]
      exact consistent.recorded id
    · intro id
      rw [sameConfirmers]
      by_cases same : id = history.board.nextInsightId
      · rw [same, none]
        exact List.not_mem_nil
      · rw [Function.update_of_ne same]
        exact consistent.notPoster id
    · intro participant
      rw [claimed_append]
      unfold earned
      dsimp only
      rw [sameEarned participant _ rfl]
      exact consistent.balanced participant
  · intro id later
    dsimp only at later ⊢
    rw [sameConfirmers, Function.update_of_ne (by omega)]
    exact consistent.unused id (by omega)

theorem Consistent.known (consistent : Consistent history) {id : Nat}
    (posted : (history.board.insights id).poster ≠ 0) : id < history.board.nextInsightId := by
  by_contra later
  rw [(consistent.unused id (Nat.not_lt.mp later)).1] at posted
  exact posted rfl

/-- A confirmation adds its sender to the confirmers of its insight. -/
theorem confirmers_confirmed (events : List InsightEvent) (id : Nat) (confirmer : Address)
    (pheromone : Nat) (other : Nat) :
    confirmers (events ++ [.insightConfirmed id confirmer pheromone]) other =
      if other = id then confirmers events other ++ [confirmer] else confirmers events other := by
  rw [confirmers_append]
  by_cases same : other = id
  · simp [confirmers, same]
  · simp [confirmers, same, Ne.symm same]

theorem Consistent.confirmed (consistent : Consistent history) {msg : Msg} {id : Nat}
    {board : InsightBoard} (called : history.board.confirm msg id = .ok (board, event)) :
    Consistent { history with board, events := history.events ++ [event] } := by
  simp only [confirm, bind_ok_iff, pure_ok_iff, ensure_ok_iff, checkedAdd_ok_iff,
    Prod.mk.injEq, exists_const] at called
  obtain ⟨posted, apart, fresh, pheromone, ⟨-, rfl⟩, earnings, ⟨-, rfl⟩, rfl, rfl⟩ := called
  have known := consistent.known posted
  have confirmersAfter := confirmers_confirmed history.events id msg.sender
    ((history.board.insights id).pheromone + 1)
  have new : msg.sender ∉ confirmers history.events id := by
    rw [consistent.recorded, fresh]
    exact Bool.false_ne_true
  constructor
  · constructor <;> dsimp only
    · intro other
      by_cases same : other = id
      · subst other
        rw [Function.update_self, confirmersAfter, if_pos rfl, consistent.counted,
          List.toFinset_append,
          List.toFinset_cons, List.toFinset_nil, Finset.card_union_of_disjoint]
        · simp
        · simpa using new
      · rw [Function.update_of_ne same, confirmersAfter, if_neg same]
        exact consistent.counted other
    · intro other confirmer
      by_cases same : other = id
      · subst other
        rw [confirmersAfter, if_pos rfl, Function.update_self, List.mem_append,
          List.mem_singleton, consistent.recorded, Function.update_apply]
        split <;> simp_all
      · rw [Function.update_of_ne same, confirmersAfter, if_neg same]
        exact consistent.recorded other confirmer
    · intro other
      by_cases same : other = id
      · subst other
        rw [Function.update_self, confirmersAfter, if_pos rfl, List.mem_append,
          List.mem_singleton, not_or]
        exact ⟨consistent.notPoster id, apart⟩
      · rw [Function.update_of_ne same, confirmersAfter, if_neg same]
        exact consistent.notPoster other
    · intro participant
      have balanced := consistent.balanced participant
      rw [claimed_append]
      change _ + (_ + 0) = _ * ∑ other ∈ Finset.range history.board.nextInsightId, _
      rw [sum_pheromoneFor_confirmed history.board.insights known participant, Nat.mul_add,
        Nat.add_zero]
      unfold earned at balanced
      rw [← balanced]
      by_cases own : (history.board.insights id).poster = participant
      · subst own
        rw [Function.update_self, if_pos rfl, Nat.mul_one]
        omega
      · rw [Function.update_of_ne (Ne.symm own), if_neg own, Nat.mul_zero, Nat.add_zero]
  · intro other later
    dsimp only at later ⊢
    rw [Function.update_of_ne (by omega), confirmersAfter, if_neg (by omega)]
    exact consistent.unused other later

theorem Consistent.claimed (consistent : Consistent history) {msg : Msg}
    {board : InsightBoard} {tokens : Tokens Ledger}
    (called : history.board.claim erc20 this msg history.tokens =
      .ok (board, tokens, event)) :
    Consistent { board, tokens, events := history.events ++ [event] } := by
  simp only [claim, bind_ok_iff, pure_ok_iff, ensure_ok_iff, Prod.mk.injEq, exists_const]
    at called
  obtain ⟨-, after, -, rfl, rfl, rfl⟩ := called
  have sameConfirmers (id : Nat) : confirmers (history.events ++
      [.earningsClaimed msg.sender (history.board.earningsOf msg.sender)]) id =
        confirmers history.events id := by
    rw [confirmers_append]
    exact List.append_nil _
  constructor
  · constructor <;> dsimp only
    · intro id
      rw [sameConfirmers]
      exact consistent.counted id
    · intro id
      rw [sameConfirmers]
      exact consistent.recorded id
    · intro id
      rw [sameConfirmers]
      exact consistent.notPoster id
    · intro participant
      have balanced := consistent.balanced participant
      rw [claimed_append]
      change _ = rewardPerConfirm * earned history.board participant
      rw [← balanced]
      by_cases own : participant = msg.sender
      · rw [own, Function.update_self]
        simp [InsightBoard.BoardHistory.claimed]
        omega
      · rw [Function.update_of_ne own]
        simp [InsightBoard.BoardHistory.claimed, Ne.symm own]
  · intro id later
    dsimp only
    rw [sameConfirmers]
    exact consistent.unused id later

theorem Consistent.step (consistent : Consistent history) (call : Msg × BoardCall Ledger) :
    Consistent (history.step erc20 this call) := by
  obtain ⟨msg, call⟩ := call
  apply settle_induction consistent
  intro after executed
  cases call with
  | post contentHash uri =>
      obtain ⟨⟨board, event⟩, called, result⟩ := bind_ok_iff.mp executed
      rw [← pure_ok_iff.mp result]
      exact consistent.posted called
  | confirm id =>
      obtain ⟨⟨board, event⟩, called, result⟩ := bind_ok_iff.mp executed
      rw [← pure_ok_iff.mp result]
      exact consistent.confirmed called
  | claim =>
      obtain ⟨⟨board, tokens, event⟩, called, result⟩ := bind_ok_iff.mp executed
      rw [← pure_ok_iff.mp result]
      exact consistent.claimed called
  | token ledger =>
      rw [← pure_ok_iff.mp executed]
      exact ⟨⟨consistent.counted, consistent.recorded, consistent.notPoster,
        consistent.balanced⟩, consistent.unused⟩

theorem consistent_deployed (rewardToken : Address) (tokens : Tokens Ledger) :
    Consistent { board := deployed rewardToken, tokens } where
  counted _ := rfl
  recorded _ _ := by simp [confirmers, deployed]
  notPoster _ := List.not_mem_nil
  balanced participant := by simp [deployed, earned, InsightBoard.BoardHistory.claimed]
  unused _ _ := ⟨rfl, rfl⟩

/-- The board at 3 holds three rewards. -/
def sampleTokens : Tokens PlainLedger where
  ledger :=
    { balances := fun _ => Function.update (fun _ => 0) 3 (3 * rewardPerConfirm)
      allowances := fun _ _ _ => 0 }
  transfers := []

/-- The account 4 posts and claims; its own confirmation and a repeated one revert. -/
def sampleCalls : List (Msg × BoardCall PlainLedger) :=
  [(⟨4, 10, 1⟩, .post 7 "note"), (⟨5, 11, 2⟩, .confirm 0), (⟨4, 12, 3⟩, .confirm 0),
    (⟨5, 13, 4⟩, .confirm 0), (⟨4, 14, 5⟩, .claim), (⟨6, 15, 6⟩, .confirm 0)]

def sampleHistory : BoardHistory PlainLedger :=
  sampleCalls.foldl (step PlainLedger.erc20 3) { board := deployed 1, tokens := sampleTokens }

example : sampleHistory.events =
    [.insightPosted 0 4 7 "note", .insightConfirmed 0 5 1,
      .earningsClaimed 4 rewardPerConfirm, .insightConfirmed 0 6 2] := by
  decide +kernel

end BoardHistory

end InsightBoard

end Roko
