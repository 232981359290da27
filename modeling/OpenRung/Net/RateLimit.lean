import OpenRung.Broker.Lease
import OpenRung.Lib.KeyedBuckets
import Mathlib.Data.Rat.Floor

/-! The three token-bucket limiters: the broker's (`ipRateLimiter`), the sidecar's (`sourceRateLimiter`) and the punch
    hub's (`punchLimiter`). Token counts are exact rationals, times are nanoseconds. The broker's and the sidecar's
    table holds at most `maxKeys`, and a request that finds no room is let through unmetered. -/

namespace OpenRung

def Duration.seconds (d : Duration) : ℚ := d / 1000000000

structure TokenLimit where
  rate : ℚ
  burst : ℚ
  rate_nonneg : 0 ≤ rate
  burst_nonneg : 0 ≤ burst

structure TokenBucket where
  tokens : ℚ
  lastSeen : Time
  deriving DecidableEq

/-- The conversion of a number to `time.Duration`, towards zero. -/
def Duration.ofNanoseconds (x : ℚ) : Duration := x.num.tdiv x.den

namespace TokenBucket

def full (limit : TokenLimit) (now : Time) : TokenBucket := ⟨limit.burst, now⟩

def refill (limit : TokenLimit) (now : Time) (b : TokenBucket) : TokenBucket :=
  let elapsed := Duration.seconds (now - b.lastSeen)
  if elapsed > 0 then ⟨min limit.burst (b.tokens + elapsed * limit.rate), now⟩ else b

def spend (b : TokenBucket) : TokenBucket := { b with tokens := b.tokens - 1 }

/-- The test of both `sweepLocked`: by now the bucket has refilled completely. -/
def refilled (limit : TokenLimit) (now : Time) (b : TokenBucket) : Bool :=
  limit.burst - b.tokens ≤ Duration.seconds (now - b.lastSeen) * limit.rate

end TokenBucket

abbrev Buckets := KeyedMap String TokenBucket

/-! ### The broker -/

namespace IPRateLimiter

/-- `take` on the bucket of the key: whether it is allowed, and else how long until the next token. -/
def spend (limit : TokenLimit) (now : Time) (b : TokenBucket) : (Bool × Duration) × TokenBucket :=
  let b := b.refill limit now
  if b.tokens < 1 then ((false, Duration.ofNanoseconds ((1 - b.tokens) / limit.rate * 1000000000)), b)
  else ((true, 0), b.spend)

def sweepLocked (limit : TokenLimit) (now : Time) (buckets : Buckets) : Buckets :=
  buckets.filter fun _ b => !b.refilled limit now

def swept (limit : TokenLimit) (maxKeys : Int) (now : Time) (buckets : Buckets) : Buckets :=
  if maxKeys ≤ buckets.entries.length then sweepLocked limit now buckets else buckets

def failsOpen (limit : TokenLimit) (maxKeys : Int) (now : Time) (key : String) (buckets : Buckets) : Bool :=
  (buckets.lookup key).isNone && decide (maxKeys ≤ (swept limit maxKeys now buckets).entries.length)

def take (limit : TokenLimit) (maxKeys : Int) (now : Time) (key : String) (buckets : Buckets) :
    (Bool × Duration) × Buckets :=
  match buckets.lookup key with
  | some b => ((spend limit now b).1, buckets.insert key (spend limit now b).2)
  | none =>
    let buckets := swept limit maxKeys now buckets
    if maxKeys ≤ buckets.entries.length then ((true, 0), buckets)
    else ((spend limit now (.full limit now)).1, buckets.insert key (spend limit now (.full limit now)).2)

/-- The `Retry-After` header of `rateLimitedBy`, in seconds; `retryAfterSeconds` is the endpoint's floor. -/
def retryAfter (retryAfterSeconds : Int) (refill : Duration) : Int := max retryAfterSeconds ⌈Duration.seconds refill⌉

end IPRateLimiter

/-! ### The sidecar -/

def maxTokenRefillDelay : Duration := 100 * 365 * 24 * hour

/-- `sourceRateLimiter`; no `nextSweep` is the zero time. -/
structure SourceRateLimiter where
  buckets : Buckets
  nextSweep : Option Time
  deriving DecidableEq

namespace SourceRateLimiter

def new : SourceRateLimiter := ⟨∅, none⟩

def spend (limit : TokenLimit) (now : Time) (b : TokenBucket) : Bool × TokenBucket :=
  let b := b.refill limit now
  if b.tokens < 1 then (false, b) else (true, b.spend)

def noteRefillLocked (limit : TokenLimit) (b : TokenBucket) (nextSweep : Option Time) : Option Time :=
  let missing := limit.burst - b.tokens
  let delaySeconds := missing / limit.rate
  let delay := if maxTokenRefillDelay.seconds ≤ delaySeconds then maxTokenRefillDelay else ⌈delaySeconds * 1000000000⌉
  let ready := b.lastSeen + delay
  if nextSweep.all (ready < ·) then some ready else nextSweep

def sweepLocked (limit : TokenLimit) (now : Time) (l : SourceRateLimiter) : SourceRateLimiter :=
  let buckets := l.buckets.filter fun _ b => !b.refilled limit now
  ⟨buckets, buckets.values.foldl (fun nextSweep b => noteRefillLocked limit b nextSweep) none⟩

def swept (limit : TokenLimit) (maxKeys : Int) (now : Time) (l : SourceRateLimiter) : SourceRateLimiter :=
  if maxKeys ≤ l.buckets.entries.length ∧ l.nextSweep.all (· ≤ now) then sweepLocked limit now l else l

/-- The bucket is charged and stored, and its refill noted in a full table. -/
def charge (limit : TokenLimit) (maxKeys : Int) (now : Time) (key : String) (l : SourceRateLimiter) (b : TokenBucket) :
    (Bool × Bool) × SourceRateLimiter :=
  let (allowed, b) := spend limit now b
  let buckets := l.buckets.insert key b
  if allowed ∧ maxKeys ≤ buckets.entries.length then ((true, false), ⟨buckets, noteRefillLocked limit b l.nextSweep⟩)
  else ((allowed, false), ⟨buckets, l.nextSweep⟩)

/-- Whether the request is allowed, and whether only because the table is full. -/
def allow (limit : TokenLimit) (maxKeys : Int) (now : Time) (key : String) (l : SourceRateLimiter) :
    (Bool × Bool) × SourceRateLimiter :=
  match l.buckets.lookup key with
  | some b => charge limit maxKeys now key l b
  | none =>
    let l := swept limit maxKeys now l
    if maxKeys ≤ l.buckets.entries.length then ((true, true), l)
    else charge limit maxKeys now key l (.full limit now)

end SourceRateLimiter

/-! ### The punch hub -/

def limiterPruneInterval : Duration := minute

def limiterIdleTTL : Duration := 10 * minute

/-- `punchLimiter`; no `lastPrune` is the zero time. -/
structure PunchLimiter where
  buckets : Buckets
  lastPrune : Option Time
  deriving DecidableEq

namespace PunchLimiter

def new : PunchLimiter := ⟨∅, none⟩

def requestLimit : TokenLimit := ⟨5, 10, by decide, by decide⟩

def probeLimit : TokenLimit := ⟨2, 4, by decide, by decide⟩

/-- `allow` on the bucket of the key. A key without one is allowed whatever the burst is. -/
def use (limit : TokenLimit) (now : Time) : Option TokenBucket → Bool × TokenBucket
  | none => (true, ⟨limit.burst - 1, now⟩)
  | some b =>
    let tokens := b.tokens + Duration.seconds (now - b.lastSeen) * limit.rate
    let tokens := if tokens > limit.burst then limit.burst else tokens
    if tokens < 1 then (false, ⟨tokens, now⟩) else (true, ⟨tokens - 1, now⟩)

def pruneLocked (now : Time) (l : PunchLimiter) : PunchLimiter :=
  if l.lastPrune.any fun lastPrune => now - lastPrune < limiterPruneInterval then l
  else ⟨l.buckets.filter fun _ b => !decide (b.lastSeen < now - limiterIdleTTL), some now⟩

def allow (limit : TokenLimit) (now : Time) (key : String) (l : PunchLimiter) : Bool × PunchLimiter :=
  let l := pruneLocked now l
  let (allowed, b) := use limit now (l.buckets.lookup key)
  (allowed, { l with buckets := l.buckets.insert key b })

end PunchLimiter

end OpenRung
