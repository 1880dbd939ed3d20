import Roko.GuardedRuns
import Mathlib.Algebra.Order.BigOperators.Group.List
import Mathlib.Algebra.Order.Ring.Nat
import Mathlib.Data.UInt

/-!
# Reservations of the full resource budget

`reserve` takes an agent slot, and a worktree slot for a task that needs one.  The token
budget only caps what a reservation may spend: nothing is taken from it before usage is
recorded.  Amounts in seconds, dollars and calls are floating-point numbers, and nothing
below depends on how they are computed.
-/

namespace Roko

/-- The operations on floating-point amounts. -/
structure Amounts (Amount : Type) where
  one : Amount
  ofCapacity : UInt32 → Amount
  /-- The seconds of a duration in nanoseconds. -/
  asSecs : Nat → Amount
  add : Amount → Amount → Amount
  sub : Amount → Amount → Amount
  mul : Amount → Amount → Amount
  min : Amount → Amount → Amount
  le : Amount → Amount → Bool

structure ResourcePool where
  capacity : Nat
  inUse : Nat
  deriving DecidableEq

namespace ResourcePool

def new (capacity : Nat) : ResourcePool where
  capacity := capacity
  inUse := 0

def available (pool : ResourcePool) : Bool :=
  pool.inUse < pool.capacity

def acquire (pool : ResourcePool) : ResourcePool × Bool :=
  if pool.available then ({ pool with inUse := pool.inUse + 1 }, true)
  else (pool, false)

def release (pool : ResourcePool) : ResourcePool :=
  { pool with inUse := pool.inUse - 1 }

/-- So many units of the pool are in use, and they fit in. -/
structure Holds (pool : ResourcePool) (capacity held : Nat) : Prop where
  sized : pool.capacity = capacity
  counted : pool.inUse = held
  fits : pool.inUse ≤ pool.capacity

variable {pool : ResourcePool} {capacity held : Nat}

theorem new_holds (capacity : Nat) : (new capacity).Holds capacity 0 :=
  ⟨rfl, rfl, Nat.zero_le capacity⟩

theorem Holds.acquire (holds : pool.Holds capacity held) (available : pool.available = true) :
    pool.acquire.1.Holds capacity (held + 1) := by
  have room : pool.inUse < pool.capacity := by simpa [ResourcePool.available] using available
  simp only [ResourcePool.acquire, available, if_true]
  exact ⟨holds.sized, congrArg (· + 1) holds.counted, room⟩

/-- The slot that a call asks for, or none. -/
theorem Holds.acquire_if (holds : pool.Holds capacity held) {wanted : Bool}
    (available : wanted = true → pool.available = true) :
    (if wanted then pool.acquire.1 else pool).Holds capacity
      (held + if wanted then 1 else 0) := by
  cases wanted with
  | false => simpa using holds
  | true => simpa using holds.acquire (available rfl)

theorem Holds.release (holds : pool.Holds capacity (held + 1)) :
    pool.release.Holds capacity held := by
  refine ⟨holds.sized, ?_, (Nat.sub_le _ _).trans holds.fits⟩
  change pool.inUse - 1 = held
  rw [holds.counted, Nat.add_sub_cancel]

theorem Holds.release_if {taken : Bool}
    (holds : pool.Holds capacity (held + if taken then 1 else 0)) :
    (if taken then pool.release else pool).Holds capacity held := by
  cases taken with
  | false => simpa using holds
  | true => simpa using Holds.release (by simpa using holds)

end ResourcePool

structure RateLimitResource (Amount : Type) where
  capacity : UInt32
  refillRate : Amount
  currentTokens : Amount
  lastUpdate : Nat

namespace RateLimitResource

variable {Amount : Type} (amounts : Amounts Amount) (limit : RateLimitResource Amount)

def refill (now : Nat) : RateLimitResource Amount :=
  let elapsed := amounts.asSecs (now - limit.lastUpdate)
  { limit with
    currentTokens :=
      amounts.min (amounts.add limit.currentTokens (amounts.mul elapsed limit.refillRate))
        (amounts.ofCapacity limit.capacity)
    lastUpdate := now }

def tryConsume (now : Nat) : RateLimitResource Amount × Bool :=
  let limit := limit.refill amounts now
  if amounts.le amounts.one limit.currentTokens then
    ({ limit with currentTokens := amounts.sub limit.currentTokens amounts.one }, true)
  else (limit, false)

/-- `available`, asked of a clone. -/
def available (now : Nat) : Bool :=
  amounts.le amounts.one (limit.refill amounts now).currentTokens

end RateLimitResource

structure TokenBudget where
  total : Nat
  spent : Nat
  perTaskDefault : Nat
  perTaskMax : Nat

namespace TokenBudget

def remaining (budget : TokenBudget) : Nat :=
  budget.total - budget.spent

/-- `raw` is `per_task_default` times the multiplier of the task's complexity. -/
def allocationFor (budget : TokenBudget) (raw : Nat) : Nat :=
  min (min raw budget.perTaskMax) budget.remaining

def hasBudget (budget : TokenBudget) : Bool :=
  budget.perTaskDefault ≤ budget.remaining

/-- Spent tokens stop at the largest number of 64 bits. -/
def spend (budget : TokenBudget) (tokens : Nat) : TokenBudget :=
  { budget with spent := min (budget.spent + tokens) (2 ^ 64 - 1) }

end TokenBudget

structure CostBudget (Amount : Type) where
  totalUsd : Amount
  spentUsd : Amount
  stopThreshold : Amount

namespace CostBudget

variable {Amount : Type} (amounts : Amounts Amount) (budget : CostBudget Amount)

def isExhausted : Bool :=
  amounts.le (amounts.mul budget.totalUsd budget.stopThreshold) budget.spentUsd

def spend (usd : Amount) : CostBudget Amount :=
  { budget with spentUsd := amounts.add budget.spentUsd usd }

end CostBudget

inductive ResourceCheck where
  | available
  | blocked (reasons : List String)
  deriving DecidableEq

structure ResourceReservation where
  agentSlot : Bool
  worktreeSlot : Bool
  tokenAllocation : Nat
  complexity : String

structure TaskResourceRequest where
  complexity : String
  needsWorktree : Bool

structure FullResourceBudget (Amount : Type) where
  agentSlots : ResourcePool
  apiTokens : RateLimitResource Amount
  tokenBudget : TokenBudget
  worktreeSlots : ResourcePool
  costBudget : CostBudget Amount

namespace FullResourceBudget

variable {Amount : Type} (amounts : Amounts Amount) (budget : FullResourceBudget Amount)

def canSchedule (task : TaskResourceRequest) (now : Nat) : ResourceCheck :=
  let blocked :=
    (if !budget.agentSlots.available then ["agent_slots"] else []) ++
    (if !budget.apiTokens.available amounts now then ["api_tokens"] else []) ++
    (if !budget.tokenBudget.hasBudget then ["token_budget"] else []) ++
    (if task.needsWorktree && !budget.worktreeSlots.available then ["worktree_slots"]
      else []) ++
    (if budget.costBudget.isExhausted amounts then ["cost_budget"] else [])
  if blocked.isEmpty then .available else .blocked blocked

/-- The clock is read twice: for the check, and for the call that is consumed. -/
def reserve (task : TaskResourceRequest) (raw checkedAt consumedAt : Nat) :
    Except (List String) (ResourceReservation × FullResourceBudget Amount) :=
  match budget.canSchedule amounts task checkedAt with
  | .blocked reasons => .error reasons
  | .available =>
      let agentSlots := budget.agentSlots.acquire.1
      let apiTokens := (budget.apiTokens.tryConsume amounts consumedAt).1
      let tokenAllocation := budget.tokenBudget.allocationFor raw
      let (worktreeSlots, worktree) :=
        if task.needsWorktree then (budget.worktreeSlots.acquire.1, true)
        else (budget.worktreeSlots, false)
      .ok
        ({ agentSlot := true
           worktreeSlot := worktree
           tokenAllocation := tokenAllocation
           complexity := task.complexity },
          { budget with
            agentSlots := agentSlots
            apiTokens := apiTokens
            worktreeSlots := worktreeSlots })

def release (reservation : ResourceReservation) : FullResourceBudget Amount :=
  { budget with
    agentSlots :=
      if reservation.agentSlot then budget.agentSlots.release else budget.agentSlots
    worktreeSlots :=
      if reservation.worktreeSlot then budget.worktreeSlots.release
      else budget.worktreeSlots }

def recordUsage (tokensSpent : Nat) (costUsd : Amount) : FullResourceBudget Amount :=
  { budget with
    tokenBudget := budget.tokenBudget.spend tokensSpent
    costBudget := budget.costBudget.spend amounts costUsd }

end FullResourceBudget

/-- A reservation that is not released, and what remained of the tokens when it was made. -/
structure HeldReservation where
  reservation : ResourceReservation
  remaining : Nat

/-- A reservation holds an agent slot and was granted at most what remained. -/
structure HeldReservation.Granted (held : HeldReservation) (tokens : TokenBudget) : Prop where
  slotted : held.reservation.agentSlot = true
  granted : held.reservation.tokenAllocation ≤ min tokens.perTaskMax held.remaining
  remained : held.remaining ≤ tokens.total

/-- A budget and the reservations that its callers hold. -/
structure ReservationLedger (Amount : Type) where
  budget : FullResourceBudget Amount
  outstanding : List HeldReservation

inductive BudgetCall (Amount : Type) where
  | reserve (task : TaskResourceRequest) (raw checkedAt consumedAt : Nat)
  /-- The holder of an outstanding reservation gives it back. -/
  | release (index : Nat)
  | recordUsage (tokensSpent : Nat) (costUsd : Amount)

namespace ReservationLedger

variable {Amount : Type} (amounts : Amounts Amount)

/-- No slot is in use at the start. -/
def start (agents worktrees : Nat) (apiTokens : RateLimitResource Amount)
    (tokenBudget : TokenBudget) (costBudget : CostBudget Amount) :
    ReservationLedger Amount where
  budget :=
    { agentSlots := .new agents
      apiTokens := apiTokens
      tokenBudget := tokenBudget
      worktreeSlots := .new worktrees
      costBudget := costBudget }
  outstanding := []

def step (ledger : ReservationLedger Amount) : BudgetCall Amount → ReservationLedger Amount
  | .reserve task raw checkedAt consumedAt =>
      match ledger.budget.reserve amounts task raw checkedAt consumedAt with
      | .error _ => ledger
      | .ok (reservation, budget) =>
          { budget := budget
            outstanding :=
              ledger.outstanding ++ [⟨reservation, ledger.budget.tokenBudget.remaining⟩] }
  | .release index =>
      match ledger.outstanding[index]? with
      | none => ledger
      | some held =>
          { budget := ledger.budget.release held.reservation
            outstanding := ledger.outstanding.eraseIdx index }
  | .recordUsage tokensSpent costUsd =>
      { ledger with budget := ledger.budget.recordUsage amounts tokensSpent costUsd }

/-- The tokens that the outstanding reservations may spend. -/
def allocated (ledger : ReservationLedger Amount) : Nat :=
  (ledger.outstanding.map fun held => held.reservation.tokenAllocation).sum

/-- Slots in use are the slots of outstanding reservations, within the capacity. -/
structure SlotsAccounted (agents worktrees : Nat) (ledger : ReservationLedger Amount) :
    Prop where
  agents : ledger.budget.agentSlots.Holds agents
    (ledger.outstanding.countP fun held => held.reservation.agentSlot)
  worktrees : ledger.budget.worktreeSlots.Holds worktrees
    (ledger.outstanding.countP fun held => held.reservation.worktreeSlot)

/-- Slots are accounted for, every grant kept to the token budget of its time, and together
the grants are at most the largest possible one for every agent slot in use. -/
structure ReservationsLawful (agents worktrees : Nat) (ledger : ReservationLedger Amount) :
    Prop extends SlotsAccounted agents worktrees ledger where
  granted : ∀ held ∈ ledger.outstanding, held.Granted ledger.budget.tokenBudget
  allocated : ledger.allocated ≤
    ledger.budget.agentSlots.inUse *
      min ledger.budget.tokenBudget.perTaskMax ledger.budget.tokenBudget.total

/-- The outstanding reservations may spend no more than what remains. -/
def TokensCovered (ledger : ReservationLedger Amount) : Prop :=
  ledger.allocated ≤ ledger.budget.tokenBudget.remaining

instance (ledger : ReservationLedger Amount) : Decidable ledger.TokensCovered :=
  inferInstanceAs (Decidable (_ ≤ _))

end ReservationLedger

section Budget

variable {Amount : Type} {amounts : Amounts Amount} {budget after : FullResourceBudget Amount}
  {task : TaskResourceRequest} {raw checkedAt consumedAt : Nat}
  {reservation : ResourceReservation}

namespace TokenBudget

variable {tokens : TokenBudget}

theorem remaining_le_total (tokens : TokenBudget) : tokens.remaining ≤ tokens.total :=
  Nat.sub_le _ _

theorem allocationFor_le (tokens : TokenBudget) (raw : Nat) :
    tokens.allocationFor raw ≤ min tokens.perTaskMax tokens.remaining :=
  min_le_min_right _ (min_le_right _ _)

end TokenBudget

namespace FullResourceBudget

/-- A task can be scheduled exactly when no resource that it needs is short. -/
theorem canSchedule_available_iff {now : Nat} :
    budget.canSchedule amounts task now = .available ↔
      budget.agentSlots.available = true ∧
      budget.apiTokens.available amounts now = true ∧
      budget.tokenBudget.hasBudget = true ∧
      (task.needsWorktree = true → budget.worktreeSlots.available = true) ∧
      budget.costBudget.isExhausted amounts = false := by
  unfold canSchedule
  dsimp only
  rw [ite_eq_left_iff]
  simp [List.isEmpty_iff]

/-- What a reservation takes, and what it leaves as it is. -/
structure Reserves (budget after : FullResourceBudget Amount)
    (task : TaskResourceRequest) (raw : Nat) (reservation : ResourceReservation) : Prop where
  agentFree : budget.agentSlots.available = true
  worktreeFree : task.needsWorktree = true → budget.worktreeSlots.available = true
  agentSlot : reservation.agentSlot = true
  worktreeSlot : reservation.worktreeSlot = task.needsWorktree
  allocation : reservation.tokenAllocation = budget.tokenBudget.allocationFor raw
  agents : after.agentSlots = budget.agentSlots.acquire.1
  worktrees : after.worktreeSlots =
    if task.needsWorktree then budget.worktreeSlots.acquire.1 else budget.worktreeSlots
  tokens : after.tokenBudget = budget.tokenBudget

theorem reserves_of_reserve
    (reserved : budget.reserve amounts task raw checkedAt consumedAt =
      .ok (reservation, after)) :
    Reserves budget after task raw reservation := by
  cases checked : budget.canSchedule amounts task checkedAt with
  | blocked reasons => simp [reserve, checked] at reserved
  | available =>
      obtain ⟨agentFree, -, -, worktreeFree, -⟩ := canSchedule_available_iff.mp checked
      simp only [reserve, checked, Except.ok.injEq, Prod.mk.injEq] at reserved
      obtain ⟨rfl, rfl⟩ := reserved
      cases needed : task.needsWorktree <;>
        exact ⟨agentFree, worktreeFree, rfl, by simp [needed], rfl, rfl, by simp [needed], rfl⟩

end FullResourceBudget

end Budget

namespace ReservationLedger

variable {Amount : Type} {amounts : Amounts Amount} {ledger : ReservationLedger Amount}
  {agents worktrees : Nat}

theorem countP_held (outstanding : List HeldReservation) {index : Nat}
    {held : HeldReservation} (found : outstanding[index]? = some held)
    (holds : HeldReservation → Bool) :
    outstanding.countP holds =
      (outstanding.eraseIdx index).countP holds + if holds held then 1 else 0 := by
  obtain ⟨inside, rfl⟩ := List.getElem?_eq_some_iff.mp found
  rw [← (List.getElem_cons_eraseIdx_perm inside).countP_eq, List.countP_cons]

theorem slotsAccounted_start (agents worktrees : Nat)
    (apiTokens : RateLimitResource Amount) (tokenBudget : TokenBudget)
    (costBudget : CostBudget Amount) :
    SlotsAccounted agents worktrees
      (start agents worktrees apiTokens tokenBudget costBudget) :=
  ⟨ResourcePool.new_holds agents, ResourcePool.new_holds worktrees⟩

theorem slotsAccounted_step (accounted : SlotsAccounted agents worktrees ledger)
    (call : BudgetCall Amount) :
    SlotsAccounted agents worktrees (ledger.step amounts call) := by
  cases call with
  | reserve task raw checkedAt consumedAt =>
      cases reserved : ledger.budget.reserve amounts task raw checkedAt consumedAt with
      | error reasons => simpa [step, reserved] using accounted
      | ok made =>
          obtain ⟨reservation, after⟩ := made
          have taken := FullResourceBudget.reserves_of_reserve reserved
          simp only [step, reserved]
          constructor
          · have agent := accounted.agents.acquire taken.agentFree
            simpa [taken.agents, taken.agentSlot, List.countP_append] using agent
          · have worktree := accounted.worktrees.acquire_if taken.worktreeFree
            simpa [taken.worktrees, taken.worktreeSlot, List.countP_append,
              List.countP_cons] using worktree
  | release index =>
      cases found : ledger.outstanding[index]? with
      | none => simpa [step, found] using accounted
      | some held =>
          have agent := accounted.agents
          have worktree := accounted.worktrees
          rw [countP_held _ found] at agent worktree
          simp only [step, found]
          exact ⟨agent.release_if, worktree.release_if⟩
  | recordUsage tokensSpent costUsd => exact ⟨accounted.agents, accounted.worktrees⟩

theorem granted_step
    (granted : ∀ held ∈ ledger.outstanding, held.Granted ledger.budget.tokenBudget)
    (call : BudgetCall Amount) :
    ∀ held ∈ (ledger.step amounts call).outstanding,
      held.Granted (ledger.step amounts call).budget.tokenBudget := by
  cases call with
  | reserve task raw checkedAt consumedAt =>
      cases reserved : ledger.budget.reserve amounts task raw checkedAt consumedAt with
      | error reasons => simpa [step, reserved] using granted
      | ok made =>
          obtain ⟨reservation, after⟩ := made
          have taken := FullResourceBudget.reserves_of_reserve reserved
          simp only [step, reserved, taken.tokens]
          intro held member
          rcases List.mem_append.mp member with earlier | added
          · exact granted held earlier
          · rw [List.mem_singleton.mp added]
            exact {
              slotted := taken.agentSlot
              granted := taken.allocation.trans_le (TokenBudget.allocationFor_le _ raw)
              remained := TokenBudget.remaining_le_total _ }
  | release index =>
      cases found : ledger.outstanding[index]? with
      | none => simpa [step, found] using granted
      | some released =>
          simp only [step, found]
          exact fun held kept => granted held (List.mem_of_mem_eraseIdx kept)
  | recordUsage tokensSpent costUsd =>
      intro held member
      obtain ⟨slotted, bounded, remained⟩ := granted held member
      exact ⟨slotted, bounded, remained⟩

theorem allocated_le (accounted : SlotsAccounted agents worktrees ledger)
    (granted : ∀ held ∈ ledger.outstanding, held.Granted ledger.budget.tokenBudget) :
    ledger.allocated ≤
      ledger.budget.agentSlots.inUse *
        min ledger.budget.tokenBudget.perTaskMax ledger.budget.tokenBudget.total := by
  have slots : ledger.budget.agentSlots.inUse = ledger.outstanding.length :=
    accounted.agents.counted.trans
      (List.countP_eq_length.mpr fun held member => (granted held member).slotted)
  have each : ∀ held ∈ ledger.outstanding, held.reservation.tokenAllocation ≤
      min ledger.budget.tokenBudget.perTaskMax ledger.budget.tokenBudget.total :=
    fun held member => (granted held member).granted.trans
      (min_le_min_left _ (granted held member).remained)
  calc ledger.allocated
      ≤ (ledger.outstanding.map fun held => held.reservation.tokenAllocation).length •
          min ledger.budget.tokenBudget.perTaskMax ledger.budget.tokenBudget.total :=
        List.sum_le_card_nsmul _ _ (List.forall_mem_map.mpr each)
    _ = _ := by rw [List.length_map, ← slots, nsmul_eq_mul, Nat.cast_id]

/-- Whole amounts, as far as they are added and compared here. -/
def wholeAmounts : Amounts Nat where
  one := 1
  ofCapacity := UInt32.toNat
  asSecs := (· / 10 ^ 9)
  add := (· + ·)
  sub := (· - ·)
  mul := (· * ·)
  min := min
  le := (· ≤ ·)

def sampleStart : ReservationLedger Nat :=
  start 8 4 ⟨10, 1, 10, 0⟩ ⟨150000, 0, 100000, 500000⟩ ⟨100, 0, 1⟩

/-- Whatever is reserved, released and recorded, slots are accounted for and grants are
bounded. -/
theorem reservations_lawful (amounts : Amounts Amount) (agents worktrees : Nat)
    (apiTokens : RateLimitResource Amount) (tokenBudget : TokenBudget)
    (costBudget : CostBudget Amount) (calls : List (BudgetCall Amount)) :
    ∀ ledger ∈ GuardedRun.states (step amounts)
        (start agents worktrees apiTokens tokenBudget costBudget) calls,
      ledger.ReservationsLawful agents worktrees := by
  intro ledger reached
  have kept := GuardedRun.invariant_of_preserved (step amounts)
    (fun ledger => SlotsAccounted agents worktrees ledger ∧
      ∀ held ∈ ledger.outstanding, held.Granted ledger.budget.tokenBudget)
    (fun _ call kept => ⟨slotsAccounted_step kept.1 call, granted_step kept.2 call⟩) calls
    ⟨slotsAccounted_start agents worktrees apiTokens tokenBudget costBudget, by simp [start]⟩
    ledger reached
  exact ⟨kept.1, kept.2, allocated_le kept.1 kept.2⟩

theorem sampleCalls_lawful :
    let calls : List (BudgetCall Nat) :=
      [.reserve ⟨"standard", true⟩ 100000 0 0, .reserve ⟨"complex", false⟩ 200000 0 0,
        .release 0, .recordUsage 40000 1]
    let ledger := calls.foldl (step wholeAmounts) sampleStart
    ledger.allocated = 150000 ∧ ledger.ReservationsLawful 8 4 :=
  ⟨by decide, reservations_lawful wholeAmounts 8 4 _ _ _ _ _ (GuardedRun.foldl_mem_states _ _)⟩

/-- Two tasks of the default size are each granted it, from tokens for one and a half. -/
theorem not_tokensCovered :
    ¬ ∀ ledger ∈ GuardedRun.states (step wholeAmounts) sampleStart
        [.reserve ⟨"standard", false⟩ 100000 0 0, .reserve ⟨"standard", false⟩ 100000 0 0],
      ledger.TokensCovered := by
  decide

end ReservationLedger

end Roko
