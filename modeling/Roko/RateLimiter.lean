import Mathlib.Data.Rat.Floor
import Std.Data.ExtTreeMap

/-!
# The rate limiter

`mirage-rs/src/rate_limit.rs`: a bucket of tokens for each method and for each author.
Floating-point numbers are rational numbers here.  Times are nanoseconds of the monotonic
clock.
-/

namespace Roko

inductive MethodClass
  | read
  | write
  | subscription
  deriving DecidableEq, Repr

def classifyMethod (method : String) : MethodClass :=
  match method with
  | "chain_searchInsights" | "chain_queryPheromones" | "chain_getInsight" | "chain_stats"
  | "chain_version" | "chain_listKinds" | "chain_methodSchema" => .read
  | "chain_postInsight" | "chain_confirmInsight" | "chain_challengeInsight"
  | "chain_depositPheromone" | "chain_applyDecay" => .write
  | "chain_subscribePheromones" | "chain_subscribeInsights" | "chain_unsubscribe" =>
      .subscription
  | _ => .read

structure RateLimitConfig where
  readRps : UInt32 := 100
  writeRps : UInt32 := 10
  authorWritesPerHour : UInt32 := 3600
  perMethodOverrides : Std.ExtTreeMap String UInt32 := ∅

inductive RateLimitError
  | methodBudgetExceeded (method : String) (limitRps : UInt32) (retryAfterMs : UInt64)
  | authorQuotaExceeded (author : String) (limitPerHour : UInt32) (resetAtMs : UInt64)
  deriving DecidableEq, Repr

/-- A number of nanoseconds in seconds, as `as_secs_f64` gives it. -/
def asSecs (nanoseconds : Nat) : ℚ :=
  nanoseconds / 10 ^ 9

/-- `value.ceil() as u64`, which saturates. -/
def ceilToU64 (value : ℚ) : UInt64 :=
  UInt64.ofNat (min ⌈value⌉.toNat (2 ^ 64 - 1))

structure TokenBucket where
  capacity : ℚ
  refillPeriod : Nat
  tokens : ℚ
  lastRefill : Nat
  deriving DecidableEq

namespace TokenBucket

def new (capacity : UInt32) (refillPeriod now : Nat) : TokenBucket where
  capacity := capacity.toNat
  refillPeriod
  tokens := capacity.toNat
  lastRefill := now

def refill (bucket : TokenBucket) (now : Nat) : TokenBucket :=
  let elapsed := now - bucket.lastRefill
  if elapsed = 0 then bucket
  else
    let periodSecs := asSecs bucket.refillPeriod
    if periodSecs ≤ 0 then { bucket with tokens := bucket.capacity, lastRefill := now }
    else
      let refillRate := bucket.capacity / periodSecs
      let refill := asSecs elapsed * refillRate
      { bucket with
        tokens := min (bucket.tokens + refill) bucket.capacity
        lastRefill := now }

/-- The milliseconds until the next token, for a bucket without one. -/
def waitMs (bucket : TokenBucket) : UInt64 :=
  let periodSecs := asSecs bucket.refillPeriod
  if periodSecs ≤ 0 ∨ bucket.capacity ≤ 0 then 0
  else
    let refillRate := bucket.capacity / periodSecs
    let deficit := 1 - bucket.tokens
    let waitSecs := deficit / refillRate
    max (ceilToU64 (waitSecs * 1000)) 1

def tryConsume (bucket : TokenBucket) (now : Nat) : Except UInt64 Unit × TokenBucket :=
  let bucket := bucket.refill now
  if 1 ≤ bucket.tokens then (.ok (), { bucket with tokens := bucket.tokens - 1 })
  else (.error bucket.waitMs, bucket)

/-- `bucket.tokens = (bucket.tokens + 1.0).min(bucket.capacity)`. -/
def refund (bucket : TokenBucket) : TokenBucket :=
  { bucket with tokens := min (bucket.tokens + 1) bucket.capacity }

end TokenBucket

structure RateLimiter where
  config : RateLimitConfig
  methodBuckets : Std.ExtTreeMap String TokenBucket := ∅
  authorBuckets : Std.ExtTreeMap String TokenBucket := ∅
  totalAllowed : UInt64 := 0
  totalDenied : UInt64 := 0

/-- The readings of the clock in a call: at its beginning, and when a bucket is made. -/
structure ClockReadings where
  now : Nat
  methodCreated : Nat
  authorCreated : Nat
  deriving DecidableEq, Repr

namespace RateLimiter

variable {Result : Type} (limiter : RateLimiter)

/-- One second and one hour. -/
def methodPeriod : Nat := 10 ^ 9

def authorPeriod : Nat := 3600 * 10 ^ 9

def methodLimitRps (method : String) (methodClass : MethodClass) : UInt32 :=
  match limiter.config.perMethodOverrides[method]? with
  | some overrideRps => overrideRps
  | none =>
      match methodClass with
      | .read => limiter.config.readRps
      | .write => limiter.config.writeRps
      | .subscription => 0

def withMethodBucket (method : String) (capacity : UInt32) (created : Nat)
    (use : TokenBucket → Result × TokenBucket) : Result × RateLimiter :=
  let bucket := limiter.methodBuckets[method]?.getD (.new capacity methodPeriod created)
  let (result, bucket) := use bucket
  (result, { limiter with methodBuckets := limiter.methodBuckets.insert method bucket })

def withAuthorBucket (author : String) (created : Nat)
    (use : TokenBucket → Result × TokenBucket) : Result × RateLimiter :=
  let capacity := limiter.config.authorWritesPerHour
  let bucket := limiter.authorBuckets[author]?.getD (.new capacity authorPeriod created)
  let (result, bucket) := use bucket
  (result, { limiter with authorBuckets := limiter.authorBuckets.insert author bucket })

def allowed : Except RateLimitError Unit × RateLimiter :=
  (.ok (), { limiter with totalAllowed := limiter.totalAllowed + 1 })

def denied (error : RateLimitError) : Except RateLimitError Unit × RateLimiter :=
  (.error error, { limiter with totalDenied := limiter.totalDenied + 1 })

def checkMethod (readings : ClockReadings) (method : String) (author : Option String) :
    Except RateLimitError Unit × RateLimiter :=
  let methodClass := classifyMethod method
  if methodClass = .subscription then limiter.allowed
  else
    let limitRps := limiter.methodLimitRps method methodClass
    let now := readings.now
    match limiter.withMethodBucket method limitRps readings.methodCreated
        (·.tryConsume now) with
    | (.error retryAfterMs, limiter) =>
        limiter.denied (.methodBudgetExceeded method limitRps retryAfterMs)
    | (.ok (), limiter) =>
        match methodClass, author with
        | .write, some authorId =>
            match limiter.withAuthorBucket authorId readings.authorCreated
                (·.tryConsume now) with
            | (.error resetAtMs, limiter) =>
                let (_, limiter) := limiter.withMethodBucket method limitRps
                  readings.authorCreated fun bucket => ((), bucket.refund)
                limiter.denied (.authorQuotaExceeded authorId
                  limiter.config.authorWritesPerHour resetAtMs)
            | (.ok (), limiter) => limiter.allowed
        | _, _ => limiter.allowed

end RateLimiter

end Roko
