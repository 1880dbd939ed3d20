import Roko.RateLimiter
import Roko.TokenMeters
import Mathlib.Tactic.Positivity

/-!
# What the rate limiter allows

Each bucket is a meter of the calls that it lets through.  A denied call leaves every
bucket with what refilling alone gives, and the delay it returns is long enough unless the
limit is zero.
-/

namespace Roko

namespace TokenBucket

/-- A bucket that was made with this capacity and period and refilled until now. -/
structure WellFormed (capacity : UInt32) (period clock : Nat) (bucket : TokenBucket) :
    Prop where
  capacity_eq : bucket.capacity = capacity.toNat
  period_eq : bucket.refillPeriod = period
  nonneg : 0 ≤ bucket.tokens
  capped : bucket.tokens ≤ capacity.toNat
  past : bucket.lastRefill ≤ clock

/-- What refilling alone gives.  A bucket that is made later is full. -/
def held (capacity : UInt32) (bucket : Option TokenBucket) (time : Nat) : ℚ :=
  match bucket with
  | none => capacity.toNat
  | some bucket => (bucket.refill time).tokens

/-- The tokens of a nanosecond. -/
def rate (capacity : UInt32) (period : Nat) : ℚ :=
  capacity.toNat / period

variable {capacity : UInt32} {period clock now : Nat} {bucket : TokenBucket}

theorem rate_nonneg (capacity : UInt32) (period : Nat) : 0 ≤ rate capacity period := by
  unfold rate
  positivity

theorem lastRefill_refill (bucket : TokenBucket) (now : Nat) :
    (bucket.refill now).lastRefill = max bucket.lastRefill now := by
  unfold refill
  dsimp only
  split
  · omega
  · split <;> (dsimp only; omega)

theorem capacity_refill (bucket : TokenBucket) (now : Nat) :
    (bucket.refill now).capacity = bucket.capacity := by
  unfold refill
  dsimp only
  split
  · rfl
  · split <;> rfl

theorem refillPeriod_refill (bucket : TokenBucket) (now : Nat) :
    (bucket.refill now).refillPeriod = bucket.refillPeriod := by
  unfold refill
  dsimp only
  split
  · rfl
  · split <;> rfl

theorem WellFormed.tokens_refill (wellFormed : WellFormed capacity period clock bucket)
    (positive : 0 < period) (now : Nat) :
    (bucket.refill now).tokens =
      min (bucket.tokens + rate capacity period * (now - bucket.lastRefill : Nat))
        capacity.toNat := by
  have seconds : ¬ asSecs bucket.refillPeriod ≤ 0 := by
    rw [wellFormed.period_eq]
    refine not_le_of_gt ?_
    unfold asSecs
    positivity
  unfold refill
  dsimp only
  rw [if_neg seconds]
  split
  case isTrue none =>
    rw [none, Nat.cast_zero, mul_zero, add_zero, min_eq_left wellFormed.capped]
  case isFalse =>
    dsimp only
    rw [wellFormed.capacity_eq, wellFormed.period_eq, asSecs, asSecs, rate]
    congr 2
    field_simp

theorem WellFormed.mono (wellFormed : WellFormed capacity period clock bucket) {later : Nat}
    (order : clock ≤ later) : WellFormed capacity period later bucket :=
  { wellFormed with past := wellFormed.past.trans order }

theorem WellFormed.refill (wellFormed : WellFormed capacity period clock bucket)
    (positive : 0 < period) (order : clock ≤ now) :
    WellFormed capacity period now (bucket.refill now) where
  capacity_eq := (capacity_refill bucket now).trans wellFormed.capacity_eq
  period_eq := (refillPeriod_refill bucket now).trans wellFormed.period_eq
  nonneg := by
    have given := mul_nonneg (rate_nonneg capacity period)
      (Nat.cast_nonneg (α := ℚ) (now - bucket.lastRefill))
    rw [wellFormed.tokens_refill positive]
    exact le_min (add_nonneg wellFormed.nonneg given) (Nat.cast_nonneg _)
  capped := by
    rw [wellFormed.tokens_refill positive]
    exact min_le_right _ _
  past := by
    have past := wellFormed.past
    rw [lastRefill_refill]
    omega

theorem wellFormed_new (capacity : UInt32) (period now : Nat) :
    WellFormed capacity period now (.new capacity period now) :=
  ⟨rfl, rfl, Nat.cast_nonneg _, le_rfl, le_rfl⟩

/-- Refilling a little longer gives no more than the rate. -/
theorem WellFormed.tokens_refill_le (wellFormed : WellFormed capacity period clock bucket)
    (positive : 0 < period) {earlier later : Nat} (past : bucket.lastRefill ≤ earlier)
    (order : earlier ≤ later) :
    (bucket.refill later).tokens ≤
      (bucket.refill earlier).tokens + rate capacity period * (later - earlier) := by
  have given : 0 ≤ rate capacity period * ((later : ℚ) - earlier) :=
    mul_nonneg (rate_nonneg _ _) (sub_nonneg.mpr (Nat.cast_le.mpr order))
  rw [wellFormed.tokens_refill positive, wellFormed.tokens_refill positive,
    Nat.cast_sub past, Nat.cast_sub (past.trans order), ← min_add_add_right]
  apply min_le_min
  · apply le_of_eq
    ring
  · linarith

/-- An existing bucket is well-formed. -/
def Kept (capacity : UInt32) (period clock : Nat) (bucket : Option TokenBucket) : Prop :=
  ∀ known, bucket = some known → WellFormed capacity period clock known

variable {before after : Option TokenBucket} {taken : ℚ}

theorem Kept.mono (kept : Kept capacity period clock before) {later : Nat}
    (order : clock ≤ later) : Kept capacity period later before :=
  fun known found => (kept known found).mono order

theorem Kept.held_nonneg (kept : Kept capacity period clock before) (positive : 0 < period)
    (time : Nat) : 0 ≤ held capacity before time := by
  cases before with
  | none => exact Nat.cast_nonneg _
  | some known =>
      have wellFormed := kept known rfl
      have given := mul_nonneg (rate_nonneg capacity period)
        (Nat.cast_nonneg (α := ℚ) (time - known.lastRefill))
      rw [held, wellFormed.tokens_refill positive]
      exact le_min (add_nonneg wellFormed.nonneg given) (Nat.cast_nonneg _)

theorem Kept.held_le (kept : Kept capacity period clock before) (positive : 0 < period)
    (time : Nat) : held capacity before time ≤ capacity.toNat := by
  cases before with
  | none => exact le_rfl
  | some known =>
      rw [held, (kept known rfl).tokens_refill positive]
      exact min_le_right _ _

theorem Kept.held_slow (kept : Kept capacity period clock before) (positive : 0 < period)
    {earlier later : Nat} (past : clock ≤ earlier) (order : earlier ≤ later) :
    held capacity before later ≤
      held capacity before earlier + rate capacity period * (later - earlier) := by
  cases before with
  | none =>
      have given : 0 ≤ rate capacity period * ((later : ℚ) - earlier) :=
        mul_nonneg (rate_nonneg _ _) (sub_nonneg.mpr (Nat.cast_le.mpr order))
      exact le_add_of_nonneg_right given
  | some known =>
      have wellFormed := kept known rfl
      exact wellFormed.tokens_refill_le positive (wellFormed.past.trans past) order

/-- A bucket that was refilled at a time and lost some tokens then, or was made later and
lost them. -/
structure Used (capacity : UInt32) (period now clock : Nat) (taken : ℚ)
    (before : Option TokenBucket) (bucket : TokenBucket) : Prop where
  wellFormed : WellFormed capacity period clock bucket
  late : now ≤ bucket.lastRefill
  fresh : before = none ∨ bucket.lastRefill = now
  tokens : bucket.tokens + taken = held capacity before now

/-- A call leaves a bucket alone or uses it. -/
def Touched (capacity : UInt32) (period now clock : Nat) (taken : ℚ)
    (before after : Option TokenBucket) : Prop :=
  after = before ∧ taken = 0 ∨
    ∃ bucket, after = some bucket ∧ Used capacity period now clock taken before bucket

theorem Touched.kept (touched : Touched capacity period now clock taken before after)
    {past : Nat} (kept : Kept capacity period past before) (order : past ≤ clock) :
    Kept capacity period clock after := by
  obtain ⟨rfl, -⟩ | ⟨bucket, rfl, used⟩ := touched
  · exact kept.mono order
  · rintro known found
    rw [← Option.some.inj found]
    exact used.wellFormed

theorem Touched.taken_le (touched : Touched capacity period now clock taken before after)
    {past : Nat} (kept : Kept capacity period past before) (positive : 0 < period) :
    taken ≤ held capacity before now := by
  obtain ⟨rfl, rfl⟩ | ⟨bucket, rfl, used⟩ := touched
  · exact kept.held_nonneg positive now
  · have nonneg := used.wellFormed.nonneg
    have tokens := used.tokens
    linarith

theorem Touched.held_le (touched : Touched capacity period now clock taken before after)
    {past : Nat} (kept : Kept capacity period past before) (positive : 0 < period)
    (order : past ≤ now) (passed : now ≤ clock) :
    held capacity after clock + taken ≤
      held capacity before now + rate capacity period * (clock - now) := by
  obtain ⟨rfl, rfl⟩ | ⟨bucket, rfl, used⟩ := touched
  · rw [add_zero]
    exact kept.held_slow positive order passed
  · have later : held capacity (some bucket) clock ≤
        bucket.tokens + rate capacity period * (clock - now) := by
      rw [held, used.wellFormed.tokens_refill positive]
      refine (min_le_left _ _).trans (add_le_add le_rfl ?_)
      rw [Nat.cast_sub used.wellFormed.past]
      have late : (now : ℚ) ≤ bucket.lastRefill := Nat.cast_le.mpr used.late
      exact mul_le_mul_of_nonneg_left (by linarith) (rate_nonneg _ _)
    have tokens := used.tokens
    linarith

theorem le_ceilToU64 {value : ℚ} (small : value ≤ 2 ^ 63) :
    value ≤ (ceilToU64 value).toNat := by
  have ceiling : ⌈value⌉.toNat ≤ 2 ^ 63 := by
    rw [Int.toNat_le, Int.ceil_le]
    exact_mod_cast small
  have fits : min ⌈value⌉.toNat (2 ^ 64 - 1) = ⌈value⌉.toNat := by omega
  rw [ceilToU64, fits, UInt64.toNat_ofNat', Nat.mod_eq_of_lt (by omega)]
  exact (Int.le_ceil value).trans (by exact_mod_cast Int.self_le_toNat _)

theorem toNat_le_toNat_max (first second : UInt64) :
    first.toNat ≤ (max first second).toNat := by
  have larger : max first second = if first ≤ second then second else first := rfl
  rw [larger]
  split
  case isTrue order => exact UInt64.le_iff_toNat_le.mp order
  case isFalse => exact le_rfl

theorem one_le_toNat (some : 0 < capacity) : (1 : ℚ) ≤ capacity.toNat := by
  have natural : 0 < capacity.toNat := UInt32.lt_iff_toNat_lt.mp some
  exact_mod_cast natural

/-- The delay is what is missing from a token, at the rate of the bucket. -/
theorem WellFormed.waitMs_eq (wellFormed : WellFormed capacity period clock bucket)
    (positive : 0 < period) (some : 0 < capacity) :
    bucket.waitMs =
      max (ceilToU64 ((1 - bucket.tokens) * (period / (capacity.toNat * 10 ^ 6)))) 1 := by
  have seconds : (0 : ℚ) < period := Nat.cast_pos.mpr positive
  have room : (0 : ℚ) < capacity.toNat := one_pos.trans_le (one_le_toNat some)
  have enabled : ¬ (asSecs bucket.refillPeriod ≤ 0 ∨ bucket.capacity ≤ 0) := by
    rw [wellFormed.period_eq, wellFormed.capacity_eq, asSecs, not_or]
    exact ⟨not_le_of_gt (by positivity), not_le_of_gt room⟩
  unfold waitMs
  dsimp only
  rw [if_neg enabled, wellFormed.period_eq, wellFormed.capacity_eq, asSecs]
  congr 2
  field_simp
  norm_num

/-- After its delay a bucket of some capacity has a token. -/
theorem WellFormed.refill_of_waitMs (wellFormed : WellFormed capacity period clock bucket)
    (positive : 0 < period) (short : period ≤ 3600 * 10 ^ 9) (some : 0 < capacity)
    {time : Nat} (waited : bucket.lastRefill + bucket.waitMs.toNat * 10 ^ 6 ≤ time) :
    1 ≤ (bucket.refill time).tokens := by
  have whole := one_le_toNat some
  have seconds : (0 : ℚ) < period := Nat.cast_pos.mpr positive
  rw [wellFormed.tokens_refill positive]
  refine le_min ?_ whole
  have room : (0 : ℚ) < capacity.toNat := one_pos.trans_le whole
  have missing : 1 - bucket.tokens ≤ 1 := by linarith [wellFormed.nonneg]
  have unit : (period : ℚ) / (capacity.toNat * 10 ^ 6) ≤ 3600 * 10 ^ 3 := by
    have bound : (period : ℚ) ≤ 3600 * 10 ^ 9 := by exact_mod_cast short
    rw [div_le_iff₀ (by positivity)]
    nlinarith
  have small : (1 - bucket.tokens) * (period / (capacity.toNat * 10 ^ 6)) ≤ 2 ^ 63 := by
    have part : 0 ≤ (period : ℚ) / (capacity.toNat * 10 ^ 6) := by positivity
    nlinarith
  have delay : (1 - bucket.tokens) * (period / (capacity.toNat * 10 ^ 6)) ≤
      bucket.waitMs.toNat := by
    refine (le_ceilToU64 small).trans ?_
    rw [wellFormed.waitMs_eq positive some]
    exact Nat.cast_le.mpr (toNat_le_toNat_max _ _)
  have elapsed : (bucket.waitMs.toNat : ℚ) * 10 ^ 6 ≤ (time - bucket.lastRefill : Nat) := by
    have natural : bucket.waitMs.toNat * 10 ^ 6 ≤ time - bucket.lastRefill := by omega
    exact_mod_cast natural
  have given : 1 - bucket.tokens ≤
      rate capacity period * (time - bucket.lastRefill : Nat) := by
    calc 1 - bucket.tokens =
        rate capacity period *
          ((1 - bucket.tokens) * (period / (capacity.toNat * 10 ^ 6)) * 10 ^ 6) := by
          unfold rate
          field_simp
      _ ≤ rate capacity period * (time - bucket.lastRefill : Nat) :=
          mul_le_mul_of_nonneg_left (by linarith) (rate_nonneg _ _)
  linarith

/-- A bucket that is there, or a new one, refilled for a call. -/
theorem used_refill (kept : Kept capacity period clock before) (positive : 0 < period)
    {created later : Nat} (order : clock ≤ now) (next : now ≤ created)
    (done : created ≤ later) :
    Used capacity period now later 0 before
      ((before.getD (.new capacity period created)).refill now) := by
  cases before with
  | none =>
      have wellFormed := wellFormed_new capacity period created
      have none : now - created = 0 := by omega
      have same : (TokenBucket.new capacity period created).refill now =
          .new capacity period created := by
        unfold refill
        exact if_pos none
      rw [Option.getD_none, same]
      exact ⟨wellFormed.mono done, next, Or.inl rfl, add_zero _⟩
  | some known =>
      have wellFormed := kept known rfl
      have last : ((Option.some known).getD (.new capacity period created)).refill now =
          known.refill now := rfl
      have reading : (known.refill now).lastRefill = now := by
        have past := wellFormed.past
        rw [lastRefill_refill]
        omega
      rw [last]
      exact ⟨(wellFormed.refill positive order).mono (next.trans done), reading.ge,
        Or.inr reading, add_zero _⟩

theorem Used.consume (used : Used capacity period now clock 0 before bucket)
    (enough : 1 ≤ bucket.tokens) :
    Used capacity period now clock 1 before { bucket with tokens := bucket.tokens - 1 } where
  wellFormed :=
    { used.wellFormed with
      nonneg := sub_nonneg.mpr enough
      capped := (sub_le_self _ zero_le_one).trans used.wellFormed.capped }
  late := used.late
  fresh := used.fresh
  tokens := by
    have tokens := used.tokens
    dsimp only
    linarith

theorem Used.held_lt (used : Used capacity period now clock 0 before bucket)
    (empty : bucket.tokens < 1) : held capacity before now < 1 := by
  have tokens := used.tokens
  linarith

/-- A bucket that was empty has a token after its delay. -/
theorem Used.one_le_held (used : Used capacity period now clock 0 before bucket)
    (empty : bucket.tokens < 1) (positive : 0 < period) (short : period ≤ 3600 * 10 ^ 9)
    (room : 0 < capacity) {time : Nat} (waited : now + bucket.waitMs.toNat * 10 ^ 6 ≤ time) :
    1 ≤ held capacity (some bucket) time := by
  obtain new | reading := used.fresh
  · -- a new bucket is full
    have whole := one_le_toNat room
    have tokens := used.tokens
    rw [new, held, add_zero] at tokens
    linarith
  · rw [← reading] at waited
    exact used.wellFormed.refill_of_waitMs positive short room waited

/-- A refund gives back what was taken, and no more. -/
theorem Used.refund (used : Used capacity period now clock 1 before bucket)
    (within : held capacity before now ≤ capacity.toNat) :
    Used capacity period now clock 0 before bucket.refund := by
  have tokens := used.tokens
  have same : bucket.refund.tokens = bucket.tokens + 1 := by
    rw [TokenBucket.refund, used.wellFormed.capacity_eq]
    exact min_eq_left (by linarith)
  refine ⟨?_, used.late, used.fresh, by rw [same]; linarith⟩
  refine ⟨used.wellFormed.capacity_eq, used.wellFormed.period_eq, ?_, ?_,
    used.wellFormed.past⟩
  · have nonneg := used.wellFormed.nonneg
    rw [same]
    linarith
  · rw [same]
    linarith

end TokenBucket

namespace RateLimiter

open TokenBucket

/-- The limit of a method. -/
def limitOf (limiter : RateLimiter) (method : String) : UInt32 :=
  limiter.methodLimitRps method (classifyMethod method)

/-- The buckets of a limiter are those of its configuration. -/
structure BucketsKept (limiter : RateLimiter) (clock : Nat) : Prop where
  methods : ∀ method : String,
    Kept (limiter.limitOf method) methodPeriod clock limiter.methodBuckets[method]?
  authors : ∀ author : String,
    Kept limiter.config.authorWritesPerHour authorPeriod clock limiter.authorBuckets[author]?

/-- What a call does to the method bucket it asks. -/
def MethodUsed (limiter : RateLimiter) (readings : ClockReadings) (method : String)
    (taken : ℚ) (bucket : TokenBucket) : Prop :=
  Used (limiter.limitOf method) methodPeriod readings.now readings.authorCreated taken
    limiter.methodBuckets[method]? bucket

def AuthorUsed (limiter : RateLimiter) (readings : ClockReadings) (author : String)
    (taken : ℚ) (bucket : TokenBucket) : Prop :=
  Used limiter.config.authorWritesPerHour authorPeriod readings.now readings.authorCreated
    taken limiter.authorBuckets[author]? bucket

/-- A bucket is written under its key. -/
def Stored (before after : Std.ExtTreeMap String TokenBucket) (key : String)
    (bucket : TokenBucket) : Prop :=
  ∀ other : String, after[other]? = if key = other then some bucket else before[other]?

theorem stored_insert (before : Std.ExtTreeMap String TokenBucket) (key : String)
    (bucket : TokenBucket) : Stored before (before.insert key bucket) key bucket := by
  intro other
  rw [Std.ExtTreeMap.getElem?_insert]
  simp only [Std.compare_eq_iff_eq]

/-- The ways a call can go. -/
inductive Checked (limiter : RateLimiter) (readings : ClockReadings) (method : String)
    (author : Option String) : Except RateLimitError Unit → RateLimiter → Prop
  | exempt {after : RateLimiter} (subscription : classifyMethod method = .subscription)
      (config : after.config = limiter.config)
      (methods : after.methodBuckets = limiter.methodBuckets)
      (authors : after.authorBuckets = limiter.authorBuckets) :
      Checked limiter readings method author (.ok ()) after
  | read {after : RateLimiter} {bucket : TokenBucket}
      (limited : classifyMethod method ≠ .subscription)
      (noQuota : classifyMethod method = .read ∨ author = none)
      (used : limiter.MethodUsed readings method 1 bucket)
      (config : after.config = limiter.config)
      (methods : Stored limiter.methodBuckets after.methodBuckets method bucket)
      (authors : after.authorBuckets = limiter.authorBuckets) :
      Checked limiter readings method author (.ok ()) after
  | write {after : RateLimiter} {bucket quota : TokenBucket} {authorId : String}
      (isWrite : classifyMethod method = .write) (named : author = some authorId)
      (used : limiter.MethodUsed readings method 1 bucket)
      (usedQuota : limiter.AuthorUsed readings authorId 1 quota)
      (config : after.config = limiter.config)
      (methods : Stored limiter.methodBuckets after.methodBuckets method bucket)
      (authors : Stored limiter.authorBuckets after.authorBuckets authorId quota) :
      Checked limiter readings method author (.ok ()) after
  | methodDenied {after : RateLimiter} {bucket : TokenBucket}
      (limited : classifyMethod method ≠ .subscription)
      (used : limiter.MethodUsed readings method 0 bucket) (empty : bucket.tokens < 1)
      (config : after.config = limiter.config)
      (methods : Stored limiter.methodBuckets after.methodBuckets method bucket)
      (authors : after.authorBuckets = limiter.authorBuckets) :
      Checked limiter readings method author
        (.error (.methodBudgetExceeded method (limiter.limitOf method) bucket.waitMs)) after
  | authorDenied {after : RateLimiter} {bucket quota : TokenBucket} {authorId : String}
      (isWrite : classifyMethod method = .write) (named : author = some authorId)
      (used : limiter.MethodUsed readings method 0 bucket)
      (usedQuota : limiter.AuthorUsed readings authorId 0 quota) (empty : quota.tokens < 1)
      (config : after.config = limiter.config)
      (methods : Stored limiter.methodBuckets after.methodBuckets method bucket)
      (authors : Stored limiter.authorBuckets after.authorBuckets authorId quota) :
      Checked limiter readings method author
        (.error (.authorQuotaExceeded authorId limiter.config.authorWritesPerHour
          quota.waitMs)) after

variable {limiter : RateLimiter} {readings : ClockReadings} {clock : Nat}

/-- The readings of a call follow the clock. -/
structure Follows (clock : Nat) (readings : ClockReadings) : Prop where
  now : clock ≤ readings.now
  methodCreated : readings.now ≤ readings.methodCreated
  authorCreated : readings.methodCreated ≤ readings.authorCreated

theorem withMethodBucket_tryConsume (kept : limiter.BucketsKept clock)
    (follows : Follows clock readings) (method : String) :
    ∃ bucket, limiter.MethodUsed readings method 0 bucket ∧
      limiter.withMethodBucket method (limiter.limitOf method) readings.methodCreated
        (·.tryConsume readings.now) =
        if 1 ≤ bucket.tokens then
          (.ok (), { limiter with methodBuckets :=
            limiter.methodBuckets.insert method { bucket with tokens := bucket.tokens - 1 } })
        else (.error bucket.waitMs,
          { limiter with methodBuckets := limiter.methodBuckets.insert method bucket }) := by
  refine ⟨_, used_refill (kept.methods method) (by decide : 0 < methodPeriod)
    follows.now follows.methodCreated follows.authorCreated, ?_⟩
  unfold withMethodBucket tryConsume
  dsimp only
  split <;> rfl

theorem withAuthorBucket_tryConsume (kept : limiter.BucketsKept clock)
    (follows : Follows clock readings) (author : String) :
    ∃ bucket, limiter.AuthorUsed readings author 0 bucket ∧
      limiter.withAuthorBucket author readings.authorCreated (·.tryConsume readings.now) =
        if 1 ≤ bucket.tokens then
          (.ok (), { limiter with authorBuckets :=
            limiter.authorBuckets.insert author { bucket with tokens := bucket.tokens - 1 } })
        else (.error bucket.waitMs,
          { limiter with authorBuckets := limiter.authorBuckets.insert author bucket }) := by
  refine ⟨_, used_refill (kept.authors author) (by decide : 0 < authorPeriod)
    follows.now (follows.methodCreated.trans follows.authorCreated) le_rfl, ?_⟩
  unfold withAuthorBucket tryConsume
  dsimp only
  split <;> rfl

/-- The author bucket is asked with the method bucket debited. -/
theorem withAuthorBucket_debited (methodBuckets : Std.ExtTreeMap String TokenBucket)
    (author : String) (created : Nat) (use : TokenBucket → Except UInt64 Unit × TokenBucket) :
    { limiter with methodBuckets }.withAuthorBucket author created use =
      ((limiter.withAuthorBucket author created use).1,
        { (limiter.withAuthorBucket author created use).2 with methodBuckets }) :=
  rfl

theorem checked_checkMethod (kept : limiter.BucketsKept clock)
    (follows : Follows clock readings) (method : String) (author : Option String) :
    Checked limiter readings method author
      (limiter.checkMethod readings method author).1
      (limiter.checkMethod readings method author).2 := by
  by_cases subscription : classifyMethod method = .subscription
  · unfold checkMethod
    rw [if_pos subscription]
    exact .exempt subscription rfl rfl rfl
  obtain ⟨bucket, used, asked⟩ := withMethodBucket_tryConsume kept follows method
  unfold limitOf at asked
  unfold checkMethod
  dsimp only
  rw [if_neg subscription, asked]
  by_cases enough : 1 ≤ bucket.tokens
  swap
  · rw [if_neg enough]
    exact .methodDenied subscription used (lt_of_not_ge enough) rfl (stored_insert _ _ _) rfl
  have consumed := used.consume enough
  rw [if_pos enough]
  dsimp only
  split
  case h_1 authorId isWrite =>
    obtain ⟨quota, usedQuota, askedQuota⟩ := withAuthorBucket_tryConsume kept follows authorId
    rw [withAuthorBucket_debited, askedQuota]
    by_cases enoughQuota : 1 ≤ quota.tokens
    · rw [if_pos enoughQuota]
      exact .write isWrite rfl consumed (usedQuota.consume enoughQuota) rfl
        (stored_insert _ _ _) (stored_insert _ _ _)
    · rw [if_neg enoughQuota]
      have refunded := consumed.refund
        ((kept.methods method).held_le (by decide : 0 < methodPeriod) readings.now)
      refine .authorDenied isWrite rfl refunded usedQuota (lt_of_not_ge enoughQuota) rfl ?_
        (stored_insert _ _ _)
      -- the refund is made to the bucket that was debited
      intro other
      simp only [denied, withMethodBucket, Std.ExtTreeMap.getElem?_insert_self,
        Option.getD_some, Std.ExtTreeMap.getElem?_insert, Std.compare_eq_iff_eq]
      split <;> rfl
  case h_2 given _ _ noWrite =>
    refine .read subscription ?_ consumed rfl (stored_insert _ _ _) rfl
    cases isClass : classifyMethod method with
    | subscription => exact absurd isClass subscription
    | read => exact Or.inl rfl
    | write =>
        cases given with
        | none => exact Or.inr rfl
        | some authorId => exact absurd rfl (noWrite authorId isClass)

theorem Stored.self {before after : Std.ExtTreeMap String TokenBucket} {key : String}
    {bucket : TokenBucket} (stored : Stored before after key bucket) :
    after[key]? = some bucket := by
  rw [stored key, if_pos rfl]

/-- The bucket that is written is used, and no other. -/
theorem Stored.touched {before after : Std.ExtTreeMap String TokenBucket} {key : String}
    {bucket : TokenBucket} (stored : Stored before after key bucket)
    (capacity : String → UInt32) {period now later : Nat} {taken : ℚ}
    (used : Used (capacity key) period now later taken before[key]? bucket) (other : String) :
    Touched (capacity other) period now later (if key = other then taken else 0)
      before[other]? after[other]? := by
  by_cases same : key = other
  · subst other
    rw [if_pos rfl]
    exact Or.inr ⟨bucket, stored.self, used⟩
  · rw [if_neg same]
    exact Or.inl ⟨by rw [stored other, if_neg same], rfl⟩

end RateLimiter

/-- A call of the limiter, with the times between the readings of the clock. -/
structure RateCall where
  method : String
  author : Option String
  wait : Nat
  methodLag : Nat := 0
  authorLag : Nat := 0
  deriving DecidableEq, Repr

/-- A limiter and the last reading of the clock, which never goes back. -/
structure RateRun where
  limiter : RateLimiter
  clock : Nat

namespace RateRun

open RateLimiter TokenBucket

def start (config : RateLimitConfig) (clock : Nat) : RateRun :=
  ⟨{ config }, clock⟩

def reading (run : RateRun) (call : RateCall) : Nat :=
  run.clock + call.wait

def readings (run : RateRun) (call : RateCall) : ClockReadings where
  now := run.reading call
  methodCreated := run.reading call + call.methodLag
  authorCreated := run.reading call + call.methodLag + call.authorLag

def result (run : RateRun) (call : RateCall) : Except RateLimitError Unit :=
  (run.limiter.checkMethod (run.readings call) call.method call.author).1

def step (run : RateRun) (call : RateCall) : RateRun where
  limiter := (run.limiter.checkMethod (run.readings call) call.method call.author).2
  clock := (run.readings call).authorCreated

/-- An allowed call of a method that is not exempt. -/
def allowsMethod (method : String) (run : RateRun) (call : RateCall) : Bool :=
  call.method = method && classifyMethod method ≠ .subscription && (run.result call).isOk

/-- An allowed write of an author. -/
def allowsAuthor (author : String) (run : RateRun) (call : RateCall) : Bool :=
  call.author = some author && classifyMethod call.method = .write && (run.result call).isOk

/-- Of a bucket nothing is left but what refilling alone gives. -/
def RefillOnly (capacity : UInt32) (now : Nat) (before after : Option TokenBucket) : Prop :=
  after = before ∨ ∃ bucket, after = some bucket ∧ bucket.tokens = held capacity before now

/-- Two denials for the same reason. -/
def SameReason : RateLimitError → RateLimitError → Prop
  | .methodBudgetExceeded .., .methodBudgetExceeded .. => True
  | .authorQuotaExceeded .., .authorQuotaExceeded .. => True
  | _, _ => False

def limit : RateLimitError → UInt32
  | .methodBudgetExceeded _ limitRps _ => limitRps
  | .authorQuotaExceeded _ limitPerHour _ => limitPerHour

def delay : RateLimitError → UInt64
  | .methodBudgetExceeded _ _ retryAfterMs => retryAfterMs
  | .authorQuotaExceeded _ _ resetAtMs => resetAtMs

/-- The same call, made as the next one after the delay, is not denied for the same
reason. -/
def RetryPasses (run : RateRun) (call : RateCall) (error : RateLimitError) : Prop :=
  ∀ again : RateCall, again.method = call.method → again.author = call.author →
    run.reading call + (delay error).toNat * 10 ^ 6 ≤ (run.step call).reading again →
    ∀ other, (run.step call).result again = .error other → ¬ SameReason error other

/-- What holds of all calls of a run. -/
structure Limited (config : RateLimitConfig) (clock : Nat) (calls : List RateCall) :
    Prop where
  methods : ∀ (method : String) (first last : Nat), first ≤ last →
    ((TokenMeter.takenWithin reading (allowsMethod method) first last
      (GuardedRun.steps step (start config clock) calls)).length : ℚ) ≤
        ((start config clock).limiter.limitOf method).toNat *
          (1 + (last - first) / 10 ^ 9)
  authors : ∀ (author : String) (first last : Nat), first ≤ last →
    ((TokenMeter.takenWithin reading (allowsAuthor author) first last
      (GuardedRun.steps step (start config clock) calls)).length : ℚ) ≤
        config.authorWritesPerHour.toNat * (1 + (last - first) / (3600 * 10 ^ 9))
  denied : ∀ taken ∈ GuardedRun.steps step (start config clock) calls,
    ∀ error, taken.1.result taken.2 = .error error →
      (∀ method : String, RefillOnly (taken.1.limiter.limitOf method)
        (taken.1.reading taken.2) taken.1.limiter.methodBuckets[method]?
        (taken.1.step taken.2).limiter.methodBuckets[method]?) ∧
      ∀ author : String, RefillOnly config.authorWritesPerHour (taken.1.reading taken.2)
        taken.1.limiter.authorBuckets[author]?
        (taken.1.step taken.2).limiter.authorBuckets[author]?
  retry : ∀ taken ∈ GuardedRun.steps step (start config clock) calls,
    ∀ error, taken.1.result taken.2 = .error error → 0 < limit error →
      RetryPasses taken.1 taken.2 error

variable {config : RateLimitConfig} {run : RateRun}

/-- The limiter of a configuration, with well-formed buckets. -/
structure Sound (config : RateLimitConfig) (run : RateRun) : Prop where
  same : run.limiter.config = config
  kept : run.limiter.BucketsKept run.clock

theorem follows (run : RateRun) (call : RateCall) : Follows run.clock (run.readings call) where
  now := Nat.le_add_right _ _
  methodCreated := Nat.le_add_right _ _
  authorCreated := Nat.le_add_right _ _

theorem Sound.checked (sound : Sound config run) (call : RateCall) :
    Checked run.limiter (run.readings call) call.method call.author (run.result call)
      (run.step call).limiter :=
  checked_checkMethod sound.kept (run.follows call) call.method call.author

/-- A call takes a token of a method bucket when it is an allowed one of the method. -/
theorem Sound.touched_method (sound : Sound config run) (call : RateCall) (method : String) :
    Touched (run.limiter.limitOf method) methodPeriod (run.reading call)
      (run.step call).clock ((allowsMethod method run call).toNat : ℚ)
      run.limiter.methodBuckets[method]? (run.step call).limiter.methodBuckets[method]? := by
  have checked := sound.checked call
  unfold allowsMethod
  generalize run.result call = result at checked ⊢
  change Touched _ _ (run.readings call).now (run.readings call).authorCreated _ _ _
  generalize (run.step call).limiter = after at checked ⊢
  cases checked with
  | exempt subscription config methods authors =>
      refine Or.inl ⟨by rw [methods], ?_⟩
      by_cases same : call.method = method
      · simp [← same, subscription]
      · simp [same]
  | read limited noQuota used config methods authors =>
      have touched := methods.touched run.limiter.limitOf used method
      by_cases same : call.method = method
      · simpa [← same, limited, Except.toBool] using touched
      · simpa [same] using touched
  | write isWrite named used usedQuota config methods authors =>
      have touched := methods.touched run.limiter.limitOf used method
      by_cases same : call.method = method
      · simpa [← same, isWrite, Except.toBool] using touched
      · simpa [same] using touched
  | methodDenied limited used empty config methods authors =>
      have touched := methods.touched run.limiter.limitOf used method
      simpa [Except.toBool] using touched
  | authorDenied isWrite named used usedQuota empty config methods authors =>
      have touched := methods.touched run.limiter.limitOf used method
      simpa [Except.toBool] using touched

/-- A call takes a token of an author bucket when it is an allowed write of the author. -/
theorem Sound.touched_author (sound : Sound config run) (call : RateCall) (author : String) :
    Touched config.authorWritesPerHour authorPeriod (run.reading call)
      (run.step call).clock ((allowsAuthor author run call).toNat : ℚ)
      run.limiter.authorBuckets[author]? (run.step call).limiter.authorBuckets[author]? := by
  have checked := sound.checked call
  rw [← sound.same]
  unfold allowsAuthor
  generalize run.result call = result at checked ⊢
  change Touched _ _ (run.readings call).now (run.readings call).authorCreated _ _ _
  generalize (run.step call).limiter = after at checked ⊢
  cases checked with
  | exempt subscription config methods authors =>
      exact Or.inl ⟨by rw [authors], by simp [subscription]⟩
  | read limited noQuota used config methods authors =>
      refine Or.inl ⟨by rw [authors], ?_⟩
      obtain isRead | unnamed := noQuota
      · simp [isRead]
      · simp [unnamed]
  | @write _ _ _ authorId isWrite named used usedQuota config methods authors =>
      have touched := authors.touched (fun _ => run.limiter.config.authorWritesPerHour)
        usedQuota author
      by_cases same : authorId = author
      · simpa [named, isWrite, same, Except.toBool] using touched
      · simpa [named, same] using touched
  | methodDenied limited used empty config methods authors =>
      exact Or.inl ⟨by rw [authors], by simp [Except.toBool]⟩
  | authorDenied isWrite named used usedQuota empty config methods authors =>
      have touched := authors.touched (fun _ => run.limiter.config.authorWritesPerHour)
        usedQuota author
      simpa [Except.toBool] using touched

theorem Sound.config_step (sound : Sound config run) (call : RateCall) :
    (run.step call).limiter.config = config := by
  have checked := sound.checked call
  rw [← sound.same]
  generalize run.result call = result at checked
  generalize (run.step call).limiter = after at checked ⊢
  cases checked with
  | exempt _ same _ _ => exact same
  | read _ _ _ same _ _ => exact same
  | write _ _ _ _ same _ _ => exact same
  | methodDenied _ _ _ same _ _ => exact same
  | authorDenied _ _ _ _ _ same _ _ => exact same

theorem Sound.limitOf_eq (sound : Sound config run) (method : String) :
    run.limiter.limitOf method = (start config 0).limiter.limitOf method := by
  unfold RateLimiter.limitOf RateLimiter.methodLimitRps
  rw [sound.same]
  rfl

theorem Sound.limitOf_step (sound : Sound config run) (call : RateCall) (method : String) :
    (run.step call).limiter.limitOf method = run.limiter.limitOf method := by
  unfold RateLimiter.limitOf RateLimiter.methodLimitRps
  rw [sound.config_step call, sound.same]

theorem clock_le_reading (run : RateRun) (call : RateCall) : run.clock ≤ run.reading call :=
  Nat.le_add_right _ _

theorem reading_le_clock (run : RateRun) (call : RateCall) :
    run.reading call ≤ (run.step call).clock :=
  (follows run call).methodCreated.trans (follows run call).authorCreated

theorem Sound.step (sound : Sound config run) (call : RateCall) :
    Sound config (run.step call) where
  same := sound.config_step call
  kept :=
    { methods := fun method => by
        rw [sound.limitOf_step]
        exact (sound.touched_method call method).kept (sound.kept.methods method)
          ((clock_le_reading run call).trans (reading_le_clock run call))
      authors := fun author => by
        have touched := sound.touched_author call author
        have kept := sound.kept.authors author
        rw [sound.same] at kept
        rw [sound.config_step]
        exact touched.kept kept
          ((clock_le_reading run call).trans (reading_le_clock run call)) }

theorem sound_start (config : RateLimitConfig) (clock : Nat) :
    Sound config (start config clock) := by
  have nothing : ∀ key : String, (∅ : Std.ExtTreeMap String TokenBucket)[key]? = none :=
    fun _ => Std.ExtTreeMap.getElem?_empty
  constructor
  · rfl
  · constructor
    · intro method known found
      rw [show (start config clock).limiter.methodBuckets[method]? = none from
        nothing method] at found
      cases found
    · intro author known found
      rw [show (start config clock).limiter.authorBuckets[author]? = none from
        nothing author] at found
      cases found

/-- A bucket that every call touches is a meter of the calls that take its token. -/
theorem meter_of_touched {period : Nat} (positive : 0 < period) (capacity : UInt32)
    (bucket : RateRun → Option TokenBucket) (takes : RateRun → RateCall → Bool)
    (kept : ∀ run, Sound config run → Kept capacity period run.clock (bucket run))
    (touched : ∀ run call, Sound config run →
      Touched capacity period (run.reading call) (run.step call).clock
        ((takes run call).toNat : ℚ) (bucket run) (bucket (run.step call))) :
    TokenMeter.Metered step (Sound config) clock reading takes
      (fun run time => held capacity (bucket run) time) capacity.toNat
      (rate capacity period) where
  kept _ call sound := sound.step call
  forward := clock_le_reading
  passes := reading_le_clock
  rate_nonneg := rate_nonneg _ _
  nonneg run time sound := (kept run sound).held_nonneg positive time
  capped run time sound := (kept run sound).held_le positive time
  slow run _ sound order := (kept run sound).held_slow positive le_rfl order
  enough run call sound := (touched run call sound).taken_le (kept run sound) positive
  spent run call sound := (touched run call sound).held_le (kept run sound) positive
    (clock_le_reading run call) (reading_le_clock run call)

theorem methodMeter (config : RateLimitConfig) (method : String) :
    TokenMeter.Metered step (Sound config) clock reading (allowsMethod method)
      (fun run time => held ((start config 0).limiter.limitOf method)
        run.limiter.methodBuckets[method]? time)
      ((start config 0).limiter.limitOf method).toNat
      (rate ((start config 0).limiter.limitOf method) methodPeriod) := by
  apply meter_of_touched (by decide)
  · intro run sound
    rw [← sound.limitOf_eq]
    exact sound.kept.methods method
  · intro run call sound
    rw [← sound.limitOf_eq]
    exact sound.touched_method call method

theorem authorMeter (config : RateLimitConfig) (author : String) :
    TokenMeter.Metered step (Sound config) clock reading (allowsAuthor author)
      (fun run time => held config.authorWritesPerHour run.limiter.authorBuckets[author]? time)
      config.authorWritesPerHour.toNat (rate config.authorWritesPerHour authorPeriod) := by
  apply meter_of_touched (by decide)
  · intro run sound
    rw [← sound.same]
    exact sound.kept.authors author
  · intro run call sound
    exact sound.touched_author call author

theorem refillOnly_of_touched {capacity : UInt32} {period now clock : Nat}
    {before after : Option TokenBucket} {taken : ℚ}
    (touched : Touched capacity period now clock taken before after) (none : taken = 0) :
    RefillOnly capacity now before after := by
  obtain ⟨same, -⟩ | ⟨bucket, found, used⟩ := touched
  · exact Or.inl same
  · have tokens := used.tokens
    rw [none, add_zero] at tokens
    exact Or.inr ⟨bucket, found, tokens⟩

/-- A call that the method bucket denies. -/
theorem Sound.method_denied (sound : Sound config run) {call : RateCall} {method : String}
    {limitRps : UInt32} {retryAfterMs : UInt64}
    (denied : run.result call =
      .error (.methodBudgetExceeded method limitRps retryAfterMs)) :
    ∃ bucket, run.limiter.MethodUsed (run.readings call) call.method 0 bucket ∧
      bucket.tokens < 1 ∧ limitRps = run.limiter.limitOf call.method ∧
      retryAfterMs = bucket.waitMs ∧
      (run.step call).limiter.methodBuckets[call.method]? = some bucket := by
  have checked := sound.checked call
  rw [denied] at checked
  generalize (run.step call).limiter = after at checked ⊢
  cases checked with
  | methodDenied limited used empty config methods authors =>
      exact ⟨_, used, empty, rfl, rfl, methods.self⟩

/-- A call that the author bucket denies. -/
theorem Sound.author_denied (sound : Sound config run) {call : RateCall} {author : String}
    {limitPerHour : UInt32} {resetAtMs : UInt64}
    (denied : run.result call =
      .error (.authorQuotaExceeded author limitPerHour resetAtMs)) :
    call.author = some author ∧
    ∃ quota, run.limiter.AuthorUsed (run.readings call) author 0 quota ∧
      quota.tokens < 1 ∧ limitPerHour = config.authorWritesPerHour ∧
      resetAtMs = quota.waitMs ∧
      (run.step call).limiter.authorBuckets[author]? = some quota := by
  have checked := sound.checked call
  rw [denied] at checked
  rw [← sound.same]
  generalize (run.step call).limiter = after at checked ⊢
  cases checked with
  | authorDenied isWrite named used usedQuota empty config methods authors =>
      exact ⟨named, _, usedQuota, empty, rfl, rfl, authors.self⟩

theorem Sound.retryPasses (sound : Sound config run) {call : RateCall}
    {error : RateLimitError} (denied : run.result call = .error error)
    (room : 0 < limit error) : RetryPasses run call error := by
  intro again sameMethod sameAuthor waited other refused reason
  have next := sound.step call
  cases error with
  | methodBudgetExceeded method limitRps retryAfterMs =>
      cases other with
      | authorQuotaExceeded => exact reason
      | methodBudgetExceeded _ _ _ =>
          obtain ⟨bucket, used, empty, rfl, rfl, found⟩ := sound.method_denied denied
          obtain ⟨later, usedLater, emptyLater, -⟩ := next.method_denied refused
          have full := used.one_le_held empty (by decide) (by decide) room waited
          have less := usedLater.held_lt emptyLater
          rw [sameMethod, found, sound.limitOf_step] at less
          exact absurd less (not_lt_of_ge full)
  | authorQuotaExceeded author limitPerHour resetAtMs =>
      cases other with
      | methodBudgetExceeded => exact reason
      | authorQuotaExceeded otherAuthor _ _ =>
          obtain ⟨named, quota, used, empty, rfl, rfl, found⟩ := sound.author_denied denied
          obtain ⟨namedLater, later, usedLater, emptyLater, -⟩ := next.author_denied refused
          rw [sameAuthor, named, Option.some_inj] at namedLater
          rw [← sound.same] at room
          have full := used.one_le_held empty (by decide) (by decide) room waited
          have less := usedLater.held_lt emptyLater
          rw [← namedLater, found, next.same, ← sound.same] at less
          exact absurd less (not_lt_of_ge full)

theorem calls_limited (config : RateLimitConfig) (clock : Nat) (calls : List RateCall) :
    Limited config clock calls := by
  have initial := sound_start config clock
  have sound : ∀ taken ∈ GuardedRun.steps step (start config clock) calls,
      Sound config taken.1 := fun taken member =>
    GuardedRun.invariant_of_preserved step (Sound config) (fun _ call sound => sound.step call)
      calls initial _ (GuardedRun.mem_states_of_mem_steps member).1
  refine ⟨?_, ?_, ?_, ?_⟩
  · intro method first last window
    have bound := TokenMeter.length_takenWithin_le (methodMeter config method) initial
      window calls
    refine bound.trans (le_of_eq ?_)
    rw [rate, methodPeriod, initial.limitOf_eq]
    push_cast
    ring
  · intro author first last window
    have bound := TokenMeter.length_takenWithin_le (authorMeter config author) initial
      window calls
    refine bound.trans (le_of_eq ?_)
    rw [rate, authorPeriod]
    push_cast
    ring
  · intro taken member error denied
    constructor
    · intro method
      refine refillOnly_of_touched ((sound taken member).touched_method taken.2 method) ?_
      rw [allowsMethod, denied]
      simp [Except.isOk, Except.toBool]
    · intro author
      refine refillOnly_of_touched ((sound taken member).touched_author taken.2 author) ?_
      rw [allowsAuthor, denied]
      simp [Except.isOk, Except.toBool]
  · intro taken member error denied room
    exact (sound taken member).retryPasses denied room

/-- With a limit of zero the delay is zero, and a call after it is denied again. -/
theorem zero_limit_denied_again :
    ¬ ∀ (config : RateLimitConfig) (clock : Nat) (calls : List RateCall),
      ∀ taken ∈ GuardedRun.steps step (start config clock) calls,
        ∀ error, taken.1.result taken.2 = .error error → RetryPasses taken.1 taken.2 error := by
  intro passes
  let config : RateLimitConfig := { readRps := 0 }
  let call : RateCall := { method := "chain_stats", author := none, wait := 0 }
  have first : (start config 0).result call =
      .error (.methodBudgetExceeded "chain_stats" 0 0) := by decide +kernel
  have again : ((start config 0).step call).result call =
      .error (.methodBudgetExceeded "chain_stats" 0 0) := by decide +kernel
  exact passes config 0 [call] (start config 0, call) (List.mem_singleton_self _) _ first
    call rfl rfl (Nat.le_refl 0) _ again trivial

end RateRun

end Roko
