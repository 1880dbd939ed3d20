import Mathlib.Data.List.Basic
import Mathlib.Data.List.TakeWhile
import Roko.GuardedRuns

/-!
# The rate limits of tools

The model of `roko-agent/src/safety/rate_limit.rs`: a queue of the admitted times for each
key.  Calls of any number of threads are interleaved: a call reads the clock, and later
takes the lock once.  Times are nanoseconds of the monotonic clock.
-/

namespace Roko

namespace RateLimit

structure RateLimitKey where
  role : String
  tool : String
  deriving DecidableEq, Repr

structure RateLimitPolicy where
  maxCallsPerWindow : Nat
  windowDuration : Nat
  deriving DecidableEq, Repr

structure RateLimiter where
  policy : RateLimitPolicy
  state : RateLimitKey → List Nat

/-- The entries at the front that are outside the window are removed. -/
def prune (deque : List Nat) (windowStart : Nat) : List Nat :=
  deque.dropWhile (· ≤ windowStart)

/-- `now.checked_sub(self.policy.window_duration).unwrap_or(now)`. -/
def RateLimitPolicy.windowStart (policy : RateLimitPolicy) (now : Nat) : Nat :=
  if policy.windowDuration ≤ now then now - policy.windowDuration else now

namespace RateLimiter

def new (policy : RateLimitPolicy) : RateLimiter :=
  ⟨policy, fun _ => []⟩

def rateLimitError (limiter : RateLimiter) (key : RateLimitKey) (current : Nat) : String :=
  let cap := limiter.policy.maxCallsPerWindow
  let windowMs := limiter.policy.windowDuration / 1000000
  s!"rate limit exceeded for role={key.role} tool={key.tool}: {current}/{cap} " ++
    s!"in {windowMs}ms window"

/-- The locked section of `check_and_record`, with the reading of the clock before it. -/
def checkAndRecord (limiter : RateLimiter) (key : RateLimitKey) (now : Nat) :
    RateLimiter × Except String Unit :=
  let deque := prune (limiter.state key) (limiter.policy.windowStart now)
  if deque.length < limiter.policy.maxCallsPerWindow then
    ({ limiter with state := Function.update limiter.state key (deque ++ [now]) }, .ok ())
  else
    ({ limiter with state := Function.update limiter.state key deque },
      .error (limiter.rateLimitError key deque.length))

end RateLimiter

/-- What a call returned, and when it read the clock. -/
structure CallEvent where
  key : RateLimitKey
  reading : Nat
  result : Except String Unit
  deriving DecidableEq

def CallEvent.admitted (event : CallEvent) : Bool :=
  event.result.isOk

/-- A limiter, the clock, the calls that have read it and wait for the lock, how many have
started, and what was returned. -/
structure Callers where
  limiter : RateLimiter
  clock : Nat := 0
  waiting : Nat → Option (RateLimitKey × Nat) := fun _ => none
  started : Nat := 0
  events : List CallEvent := []

inductive CallStep
  | tick (elapsed : Nat)
  | read (key : RateLimitKey)
  | lock (call : Nat)
  deriving DecidableEq, Repr

namespace Callers

def lock (callers : Callers) (call : Nat) : Callers :=
  match callers.waiting call with
  | none => callers
  | some (key, now) =>
      let (limiter, result) := callers.limiter.checkAndRecord key now
      { callers with
        limiter
        waiting := Function.update callers.waiting call none
        events := callers.events ++ [⟨key, now, result⟩] }

def step (callers : Callers) : CallStep → Callers
  | .tick elapsed => { callers with clock := callers.clock + elapsed }
  | .read key => { callers with
      waiting := Function.update callers.waiting callers.started (some (key, callers.clock))
      started := callers.started + 1 }
  | .lock call => callers.lock call

def start (policy : RateLimitPolicy) : Callers where
  limiter := .new policy

end Callers

/-- The times at which calls for a key were admitted, in the order of their locks. -/
def admittedTimes (key : RateLimitKey) (events : List CallEvent) : List Nat :=
  (events.filter fun event => event.key = key && event.admitted).map CallEvent.reading

/-- The limit is kept: no window holds more admitted calls than it may, and a call is denied
only if the window that ends at its own reading is full. -/
structure LimitLaw (policy : RateLimitPolicy) (events : List CallEvent) : Prop where
  limited : ∀ key first,
    ((admittedTimes key events).countP fun time =>
      first ≤ time && time < first + policy.windowDuration) ≤ policy.maxCallsPerWindow
  justified : ∀ before event after, events = before ++ event :: after →
    event.admitted = false → policy.maxCallsPerWindow ≤
      (admittedTimes event.key before).countP fun time =>
        event.reading < time + policy.windowDuration && time ≤ event.reading

/-- The lock is taken with a reading that is not older than those of earlier calls for the
key, and that is a whole window long unless none of these was admitted. -/
def InTime (callers : Callers) : CallStep → Prop
  | .lock call => ∀ key now, callers.waiting call = some (key, now) →
      (∀ event ∈ callers.events, event.key = key → event.reading ≤ now) ∧
      (callers.limiter.policy.windowDuration ≤ now ∨ admittedTimes key callers.events = [])
  | _ => True

/-- The queue of a key holds the admitted times but for those that have left every window
of a call to come. -/
structure QueueOf (policy : RateLimitPolicy) (events : List CallEvent) (key : RateLimitKey)
    (queue : List Nat) : Prop where
  sorted : (admittedTimes key events).Pairwise (· ≤ ·)
  recent : ∃ gone, admittedTimes key events = gone ++ queue ∧ ∀ time ∈ gone,
    ∃ event ∈ events, event.key = key ∧ time + policy.windowDuration ≤ event.reading

theorem prune_eq_filter {queue : List Nat} (sorted : queue.Pairwise (· ≤ ·)) (windowStart : Nat) :
    prune queue windowStart = queue.filter (windowStart < ·) := by
  unfold prune
  induction queue with
  | nil => rfl
  | cons time queue ih =>
      rw [List.pairwise_cons] at sorted
      by_cases old : time ≤ windowStart
      · rw [List.dropWhile_cons_of_pos (by simpa using old), ih sorted.2,
          List.filter_cons_of_neg (by simpa using old)]
      · rw [List.dropWhile_cons_of_neg (by simpa using old), eq_comm, List.filter_eq_self]
        intro other member
        rw [decide_eq_true_eq]
        rcases List.mem_cons.mp member with rfl | later
        · omega
        · exact Nat.lt_of_lt_of_le (Nat.lt_of_not_le old) (sorted.1 other later)

theorem admittedTimes_concat (key : RateLimitKey) (events : List CallEvent) (event : CallEvent) :
    admittedTimes key (events ++ [event]) = admittedTimes key events ++
      if event.key = key ∧ event.admitted = true then [event.reading] else [] := by
  rw [admittedTimes, List.filter_append, List.map_append, ← admittedTimes]
  by_cases same : event.key = key <;> cases admitted : event.admitted <;> simp [same, admitted]

theorem mem_admittedTimes {key : RateLimitKey} {events : List CallEvent} {time : Nat}
    (member : time ∈ admittedTimes key events) :
    ∃ event ∈ events, event.key = key ∧ event.reading = time := by
  obtain ⟨event, found, rfl⟩ := List.mem_map.mp member
  rw [List.mem_filter, Bool.and_eq_true, decide_eq_true_eq] at found
  exact ⟨event, found.1, found.2.1, rfl⟩

section Queues

variable {policy : RateLimitPolicy} {events : List CallEvent} {key : RateLimitKey}
  {queue : List Nat} {now : Nat}

theorem QueueOf.sorted_queue (queueOf : QueueOf policy events key queue) :
    queue.Pairwise (· ≤ ·) := by
  obtain ⟨gone, split, _⟩ := queueOf.recent
  have sorted := queueOf.sorted
  rw [split, List.pairwise_append] at sorted
  exact sorted.2.1

/-- Pruning leaves the admitted times in the window that ends at the reading. -/
theorem QueueOf.prune_eq (queueOf : QueueOf policy events key queue)
    (latest : ∀ event ∈ events, event.key = key → event.reading ≤ now)
    (ready : policy.windowDuration ≤ now ∨ admittedTimes key events = []) :
    prune queue (policy.windowStart now) =
      (admittedTimes key events).filter (now < · + policy.windowDuration) := by
  obtain ⟨gone, split, left⟩ := queueOf.recent
  rw [prune_eq_filter queueOf.sorted_queue]
  rcases ready with whole | none
  · have out : gone.filter (now < · + policy.windowDuration) = [] := by
      rw [List.filter_eq_nil_iff]
      intro time member
      obtain ⟨event, found, same, late⟩ := left time member
      have before := latest event found same
      simp only [decide_eq_true_eq]
      omega
    rw [split, List.filter_append, out, List.nil_append, RateLimitPolicy.windowStart,
      if_pos whole]
    apply List.filter_congr
    intro time _
    rw [decide_eq_decide]
    omega
  · rw [none] at split
    rw [none, (List.append_eq_nil_iff.mp split.symm).2]
    rfl

/-- The queue that is left holds what the windows of later calls can still reach. -/
theorem QueueOf.pruned (queueOf : QueueOf policy events key queue)
    (ready : policy.windowDuration ≤ now ∨ admittedTimes key events = [])
    (result : Except String Unit) :
    ∃ gone, admittedTimes key events = gone ++ prune queue (policy.windowStart now) ∧
      ∀ time ∈ gone, ∃ event ∈ events ++ [⟨key, now, result⟩], event.key = key ∧
        time + policy.windowDuration ≤ event.reading := by
  obtain ⟨gone, split, left⟩ := queueOf.recent
  refine ⟨gone ++ queue.takeWhile (· ≤ policy.windowStart now), ?_, ?_⟩
  · rw [prune, List.append_assoc, List.takeWhile_append_dropWhile, split]
  · intro time member
    rcases List.mem_append.mp member with before | pruned
    · obtain ⟨event, found, same, late⟩ := left time before
      exact ⟨event, List.mem_append_left _ found, same, late⟩
    · refine ⟨_, List.mem_append_right _ List.mem_cons_self, rfl, ?_⟩
      have old := List.mem_takeWhile_imp pruned
      rw [decide_eq_true_eq, RateLimitPolicy.windowStart] at old
      rcases ready with whole | none
      · rw [if_pos whole] at old
        change time + policy.windowDuration ≤ now
        omega
      · rw [none] at split
        rw [(List.append_eq_nil_iff.mp split.symm).2] at pruned
        cases pruned

/-- A queue after the locked section of a call for its key. -/
theorem QueueOf.lock (queueOf : QueueOf policy events key queue)
    (latest : ∀ event ∈ events, event.key = key → event.reading ≤ now)
    (ready : policy.windowDuration ≤ now ∨ admittedTimes key events = [])
    (result : Except String Unit) :
    QueueOf policy (events ++ [⟨key, now, result⟩]) key
      (prune queue (policy.windowStart now) ++ if result.isOk = true then [now] else []) := by
  have times := admittedTimes_concat key events ⟨key, now, result⟩
  simp only [CallEvent.admitted, true_and] at times
  constructor
  · rw [times, List.pairwise_append]
    refine ⟨queueOf.sorted, ?_, ?_⟩
    · split <;> simp
    · intro time member other added
      obtain ⟨event, found, same, rfl⟩ := mem_admittedTimes member
      split at added
      · rw [List.mem_singleton.mp added]
        exact latest event found same
      · cases added
  · obtain ⟨gone, split, left⟩ := queueOf.pruned ready result
    refine ⟨gone, ?_, left⟩
    rw [times, split, List.append_assoc]

theorem QueueOf.other (queueOf : QueueOf policy events key queue) {event : CallEvent}
    (apart : event.key ≠ key) : QueueOf policy (events ++ [event]) key queue := by
  have times := admittedTimes_concat key events event
  rw [if_neg (fun both => apart both.1), List.append_nil] at times
  obtain ⟨sorted, gone, split, left⟩ := queueOf
  refine ⟨times ▸ sorted, gone, times ▸ split, fun time member => ?_⟩
  obtain ⟨other, found, same, late⟩ := left time member
  exact ⟨other, List.mem_append_left _ found, same, late⟩

end Queues

/-- An event of a longer list is its last one, or was there before. -/
theorem concat_eq_append_cons {events before after : List CallEvent} {last event : CallEvent}
    (split : events ++ [last] = before ++ event :: after) :
    (events = before ∧ last = event) ∨ ∃ front, events = before ++ event :: front := by
  rcases List.eq_nil_or_concat' after with rfl | ⟨front, other, rfl⟩
  · obtain ⟨same, added⟩ := List.append_inj' split rfl
    exact Or.inl ⟨same, List.singleton_inj.mp added⟩
  · rw [← List.cons_append, ← List.append_assoc] at split
    exact Or.inr ⟨front, (List.append_inj' split rfl).1⟩

namespace LimitLaw

variable {policy : RateLimitPolicy} {events : List CallEvent} {key : RateLimitKey} {now : Nat}

/-- A call is admitted if the window that ends at its reading has room. -/
theorem admitted (law : LimitLaw policy events)
    (room : (admittedTimes key events).countP (now < · + policy.windowDuration) <
      policy.maxCallsPerWindow) :
    LimitLaw policy (events ++ [⟨key, now, .ok ()⟩]) where
  limited := by
    intro other first
    rw [admittedTimes_concat]
    by_cases here : key = other ∧ first ≤ now ∧ now < first + policy.windowDuration
    · obtain ⟨rfl, before, after⟩ := here
      have fewer : ((admittedTimes key events).countP fun time =>
          first ≤ time && time < first + policy.windowDuration) ≤
            (admittedTimes key events).countP (now < · + policy.windowDuration) := by
        refine List.countP_mono_left fun time _ inside => ?_
        rw [Bool.and_eq_true, decide_eq_true_eq, decide_eq_true_eq] at inside
        rw [decide_eq_true_eq]
        omega
      rw [if_pos ⟨rfl, rfl⟩, List.countP_append]
      simp only [List.countP_singleton, before, after, decide_true, Bool.and_self, if_true]
      omega
    · refine le_trans (le_of_eq ?_) (law.limited other first)
      rw [List.countP_append, Nat.add_eq_left]
      split
      · rename_i admitted
        rw [List.countP_singleton, if_neg]
        rw [Bool.and_eq_true, decide_eq_true_eq, decide_eq_true_eq]
        exact fun inside => here ⟨admitted.1, inside⟩
      · rfl
  justified := by
    intro before event after split denied
    rcases concat_eq_append_cons split with ⟨_, rfl⟩ | ⟨front, earlier⟩
    · cases denied
    · exact law.justified before event front earlier denied

/-- A call may be denied if that window is full. -/
theorem denied (law : LimitLaw policy events)
    (latest : ∀ event ∈ events, event.key = key → event.reading ≤ now)
    (full : policy.maxCallsPerWindow ≤
      (admittedTimes key events).countP (now < · + policy.windowDuration)) (message : String) :
    LimitLaw policy (events ++ [⟨key, now, .error message⟩]) where
  limited := by
    intro other first
    rw [admittedTimes_concat, if_neg (by rintro ⟨_, admitted⟩; cases admitted), List.append_nil]
    exact law.limited other first
  justified := by
    intro before event after split denied
    rcases concat_eq_append_cons split with ⟨rfl, rfl⟩ | ⟨front, earlier⟩
    · refine le_trans full (List.countP_mono_left fun time member late => ?_)
      obtain ⟨event, found, same, rfl⟩ := mem_admittedTimes member
      exact Bool.and_eq_true_iff.mpr ⟨late, decide_eq_true (latest event found same)⟩
    · exact law.justified before event front earlier denied

end LimitLaw

namespace Callers

/-- The law holds, and the queues are right. -/
structure Sound (callers : Callers) : Prop where
  law : LimitLaw callers.limiter.policy callers.events
  queues : ∀ key,
    QueueOf callers.limiter.policy callers.events key (callers.limiter.state key)

variable {callers : Callers}

theorem Sound.lock (sound : callers.Sound) {call : Nat}
    (inTime : InTime callers (.lock call)) : (callers.lock call).Sound := by
  unfold Callers.lock
  split
  case h_1 => exact sound
  case h_2 key now found =>
    obtain ⟨latest, ready⟩ := inTime key now found
    have queueOf := sound.queues key
    have window := queueOf.prune_eq latest ready
    have live : (prune (callers.limiter.state key)
        (callers.limiter.policy.windowStart now)).length =
          (admittedTimes key callers.events).countP
            (now < · + callers.limiter.policy.windowDuration) := by
      rw [window, List.countP_eq_length_filter]
    have locked := queueOf.lock latest ready
    have queues (queue : List Nat) (result : Except String Unit)
        (here : QueueOf callers.limiter.policy (callers.events ++ [⟨key, now, result⟩]) key queue)
        (other : RateLimitKey) :
        QueueOf callers.limiter.policy (callers.events ++ [⟨key, now, result⟩]) other
          (Function.update callers.limiter.state key queue other) := by
      by_cases same : other = key
      · subst same
        rw [Function.update_self]
        exact here
      · rw [Function.update_of_ne same]
        exact (sound.queues other).other (Ne.symm same)
    unfold RateLimiter.checkAndRecord
    dsimp only
    split
    case isTrue room =>
      exact ⟨sound.law.admitted (live ▸ room), queues _ _ (locked (.ok ()))⟩
    case isFalse full =>
      refine ⟨sound.law.denied latest (live ▸ Nat.le_of_not_lt full) _, queues _ _ ?_⟩
      have kept := locked (.error (callers.limiter.rateLimitError key
        (prune (callers.limiter.state key) (callers.limiter.policy.windowStart now)).length))
      rwa [if_neg nofun, List.append_nil] at kept

theorem Sound.step (sound : callers.Sound) {next : CallStep} (inTime : InTime callers next) :
    (callers.step next).Sound := by
  cases next with
  | tick elapsed => exact ⟨sound.law, sound.queues⟩
  | read key => exact ⟨sound.law, sound.queues⟩
  | lock call => exact sound.lock inTime

theorem sound_start (policy : RateLimitPolicy) : (start policy).Sound where
  law := {
    limited := fun _ _ => Nat.zero_le _
    justified := by
      intro before event after split
      exact absurd split.symm (by simp [start]) }
  queues := fun key => ⟨List.Pairwise.nil, [], rfl, fun _ member => nomatch member⟩

theorem policy_step (callers : Callers) (next : CallStep) :
    (callers.step next).limiter.policy = callers.limiter.policy := by
  cases next with
  | tick elapsed => rfl
  | read key => rfl
  | lock call =>
      simp only [Callers.step, Callers.lock]
      split
      · rfl
      · unfold RateLimiter.checkAndRecord
        dsimp only
        split <;> rfl

/-- The limit is kept in every run in which each lock is taken in time. -/
theorem limitLaw_of_inTime (policy : RateLimitPolicy) (steps : List CallStep)
    (inTime : GuardedRun.Guarded step InTime (start policy) steps) :
    ∀ callers ∈ GuardedRun.states step (start policy) steps, LimitLaw policy callers.events := by
  intro callers reached
  obtain ⟨sound, same⟩ := GuardedRun.invariant_of_guarded step InTime
    (fun callers => callers.Sound ∧ callers.limiter.policy = policy)
    (fun callers next both inTime =>
      ⟨both.1.step inTime, (policy_step callers next).trans both.2⟩)
    ⟨sound_start policy, rfl⟩ inTime callers reached
  exact same ▸ sound.law

def bash : RateLimitKey :=
  ⟨"implementer", "bash"⟩

/-- Two calls, the second one of which is denied. -/
theorem limitLaw_of_inTime_twice :
    LimitLaw ⟨1, 10⟩
      (([.tick 20, .read bash, .lock 0, .tick 5, .read bash, .lock 1] : List CallStep).foldl step
        (start ⟨1, 10⟩)).events := by
  refine limitLaw_of_inTime ⟨1, 10⟩ _ ?_ _ (GuardedRun.foldl_mem_states _ _)
  simp [GuardedRun.guarded_cons, GuardedRun.guarded_nil, InTime, step, start, lock,
    RateLimiter.checkAndRecord, RateLimiter.new, RateLimitPolicy.windowStart, prune,
    admittedTimes]

/-- A call that reads the clock and then waits is denied for a call after it, and while the
clock is younger than a window nothing is limited. -/
theorem late_lock_denied :
    ¬ LimitLaw ⟨1, 10⟩
        (([.tick 100, .read bash, .tick 20, .read bash, .lock 1, .lock 0] : List CallStep).foldl
          step (start ⟨1, 10⟩)).events ∧
      ¬ LimitLaw ⟨1, 10⟩
        (([.tick 1, .read bash, .lock 0, .tick 1, .read bash, .lock 1] : List CallStep).foldl
          step (start ⟨1, 10⟩)).events := by
  constructor
  · intro law
    have full := law.justified [⟨bash, 120, .ok ()⟩]
      ⟨bash, 100, .error ((start ⟨1, 10⟩).limiter.rateLimitError bash 1)⟩ [] rfl rfl
    exact absurd full (by decide)
  · intro law
    exact absurd (law.limited bash 1) (by decide)

end Callers

end RateLimit

end Roko
