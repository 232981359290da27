import Mathlib
import OpenRung.Net.RateLimit

/-! The limiters are token buckets that are kept for ever, as far as their answers tell: a bucket that is swept, or
    pruned after its time to live, would have been full at every later request, so it is as new (`Service.AsNew`). -/

namespace OpenRung

variable {limit : TokenLimit} {maxKeys : Int} {now t : Time} {b : TokenBucket}

theorem Duration.seconds_sub (t t' : Time) :
    Duration.seconds (t - t') = Duration.seconds t - Duration.seconds t' := by
  simp only [Duration.seconds, Int.cast_sub, sub_div]

theorem Duration.seconds_mono : Monotone Duration.seconds := by
  intro t t' le
  have hca : (t : ℚ) ≤ t' := Int.cast_le.mpr le
  exact div_le_div_of_nonneg_right hca (by norm_num)

theorem Duration.seconds_pos {d : Duration} : 0 < Duration.seconds d ↔ 0 < d := by
  rw [Duration.seconds, div_pos_iff_of_pos_right (by norm_num), Int.cast_pos]

theorem Duration.lt_ofNanoseconds_add_one {x : ℚ} (hn : 0 ≤ x) : x < Duration.ofNanoseconds x + 1 := by
  have hfl : Duration.ofNanoseconds x = ⌊x⌋ := by
    rw [Duration.ofNanoseconds, Int.tdiv_eq_ediv_of_nonneg (Rat.num_nonneg.mpr hn)]
    exact (Rat.floor_def x).symm
  rw [hfl]
  exact Int.lt_floor_add_one x

/-! ### Buckets -/

namespace TokenBucket

structure Fits (limit : TokenLimit) (now : Time) (b : TokenBucket) : Prop where
  nonneg : 0 ≤ b.tokens
  le : b.tokens ≤ limit.burst
  past : b.lastSeen ≤ now

def read (b : TokenBucket) : Bucket := ⟨b.tokens, Duration.seconds b.lastSeen⟩

theorem Fits.later (hf : Fits limit now b) (le : now ≤ t) : Fits limit t b := { hf with past := hf.past.trans le }

theorem Fits.full (limit : TokenLimit) (now : Time) : Fits limit now (full limit now) := ⟨limit.burst_nonneg, le_rfl, le_rfl⟩

theorem Fits.elapsed_nonneg (hf : Fits limit now b) : 0 ≤ Duration.seconds (now - b.lastSeen) * limit.rate := by
  refine mul_nonneg ?_ limit.rate_nonneg
  rw [Duration.seconds_sub]
  exact sub_nonneg.mpr (Duration.seconds_mono hf.past)

theorem refill_eq (hf : Fits limit now b) :
    b.refill limit now = ⟨min limit.burst (b.tokens + Duration.seconds (now - b.lastSeen) * limit.rate), now⟩ := by
  unfold refill
  dsimp only
  split
  next => rfl
  next hnw =>
    have hs : b.lastSeen = now := le_antisymm hf.past (by rw [gt_iff_lt, Duration.seconds_pos] at hnw; lia)
    obtain ⟨tokens, lastSeen⟩ := b
    subst hs
    simp [Duration.seconds, min_eq_right hf.le]

theorem read_refill (hf : Fits limit now b) :
    (b.refill limit now).read = b.read.refill limit.burst limit.rate (Duration.seconds now) := by
  rw [refill_eq hf, Duration.seconds_sub]
  rfl

theorem Fits.refill (hf : Fits limit now b) : Fits limit now (b.refill limit now) := by
  rw [refill_eq hf]
  exact ⟨le_min limit.burst_nonneg (add_nonneg hf.nonneg hf.elapsed_nonneg), min_le_left _ _, le_rfl⟩

theorem Fits.spend (hf : Fits limit now b) (one : 1 ≤ b.tokens) : Fits limit now b.spend :=
  ⟨sub_nonneg.mpr one, (sub_le_self _ zero_le_one).trans hf.le, hf.past⟩

theorem refill_eq_full (hf : Fits limit now b)
    (he : limit.burst ≤ b.tokens + Duration.seconds (now - b.lastSeen) * limit.rate) :
    b.refill limit now = full limit now := by
  rw [refill_eq hf, min_eq_left he]
  rfl

theorem refill_full (limit : TokenLimit) (now : Time) : (full limit now).refill limit now = full limit now :=
  refill_eq_full (.full limit now) (by simp [full, Duration.seconds])

theorem refilled_later {need : ℚ}
    (he : need ≤ b.tokens + Duration.seconds (now - b.lastSeen) * limit.rate) (le : now ≤ t) :
    need ≤ b.tokens + Duration.seconds (t - b.lastSeen) * limit.rate := by
  have hmo : Duration.seconds (now - b.lastSeen) ≤ Duration.seconds (t - b.lastSeen) :=
    Duration.seconds_mono (sub_le_sub_right le _)
  have := mul_le_mul_of_nonneg_right hmo limit.rate_nonneg
  linarith

theorem refilled_iff : b.refilled limit now = true ↔
    limit.burst ≤ b.tokens + Duration.seconds (now - b.lastSeen) * limit.rate := by
  rw [refilled, decide_eq_true_eq, sub_le_iff_le_add']

theorem read_found {record : Option TokenBucket} (fit : ∀ b, record = some b → b.Fits limit now) :
    ((record.getD (full limit now)).refill limit now).read =
      Bucket.found limit.burst limit.rate (Duration.seconds now) (record.map read) := by
  cases record with
  | none => exact read_refill (.full limit now)
  | some b => exact read_refill (fit b rfl)

end TokenBucket

theorem fits_getD {record : Option TokenBucket} (fit : ∀ b, record = some b → TokenBucket.Fits limit now b) :
    (record.getD (.full limit now)).Fits limit now := by
  cases record with
  | none => exact .full limit now
  | some b => exact fit b rfl

namespace SourceRateLimiter

theorem spend_fits (hf : b.Fits limit now) : (spend limit now b).2.Fits limit now := by
  unfold spend
  dsimp only
  split
  next => exact hf.refill
  next one => exact hf.refill.spend (not_lt.mp one)

theorem spend_of_refilled (hf : b.Fits limit now)
    (he : limit.burst ≤ b.tokens + Duration.seconds (now - b.lastSeen) * limit.rate) :
    spend limit now b = spend limit now (.full limit now) := by
  simp only [spend, TokenBucket.refill_eq_full hf he, TokenBucket.refill_full]

theorem read_spend {record : Option TokenBucket} (fit : ∀ b, record = some b → b.Fits limit now) :
    ((spend limit now (record.getD (.full limit now))).1, (spend limit now (record.getD (.full limit now))).2.read) =
      Bucket.request limit.burst limit.rate (Duration.seconds now) (record.map TokenBucket.read) := by
  simp only [spend, Bucket.request, ← TokenBucket.read_found fit]
  rw [show ∀ b : TokenBucket, b.read.tokens = b.tokens from fun _ => rfl]
  split <;> rfl

end SourceRateLimiter

/-! ### Tables -/

def Buckets.at (buckets : Buckets) (key : String) : Option TokenBucket := buckets.lookup key

theorem Buckets.at_insert (buckets : Buckets) (key : String) (b : TokenBucket) :
    Buckets.at (buckets.insert key b) = Function.update buckets.at key (some b) := by
  funext key'
  rw [Buckets.at, KeyedMap.lookup_insert_eq, Function.update_apply]
  rfl

theorem Buckets.forgotten_filter {ρ : Type} {service : Service Time TokenBucket ρ} {p : String → TokenBucket → Bool}
    {buckets : Buckets} (haN : ∀ key b, buckets.at key = some b → p key b = false → service.AsNew now b) :
    service.Forgotten now buckets.at (Buckets.at (buckets.filter p)) := by
  intro key
  unfold Buckets.at
  rw [KeyedMap.lookup_filter]
  cases hfo : buckets.lookup key with
  | none => exact .inl rfl
  | some b =>
    cases hke : p key b with
    | true => exact .inl (by simp [Option.filter, hke])
    | false => exact .inr ⟨by simp [Option.filter, hke], b, rfl, haN key b hfo hke⟩

theorem Buckets.keeps_insert {ρ : Type} {service : Service Time TokenBucket ρ} {buckets : Buckets}
    {served : Served String Time ρ} {record : Option TokenBucket} {left : TokenBucket}
    (hfo : buckets.at served.key = record) (hus : service.use served.time record = (served.answer, left)) :
    service.Keeps buckets.at served (Buckets.at (buckets.insert served.key left)) := by
  subst hfo
  rw [Buckets.at_insert]
  exact ⟨congrArg Prod.fst hus, by rw [hus]⟩

/-! ### The broker -/

namespace IPRateLimiter

theorem spend_eq (limit : TokenLimit) (now : Time) (b : TokenBucket) :
    ((spend limit now b).1.1, (spend limit now b).2) = SourceRateLimiter.spend limit now b := by
  simp only [spend, SourceRateLimiter.spend]
  split <;> rfl

def service (limit : TokenLimit) : Service Time TokenBucket (Bool × Duration) where
  use now record := spend limit now (record.getD (.full limit now))
  Fits now b := b.Fits limit now
  fits_later le fits := fits.later le
  use_fits fit := by
    have fits := SourceRateLimiter.spend_fits (fits_getD fit)
    rwa [← spend_eq] at fits

theorem asNew_of_refilled (hf : b.Fits limit now) (hr : b.refilled limit now = true) :
    (service limit).AsNew now b := by
  intro t le
  have hfu := TokenBucket.refill_eq_full (hf.later le) (TokenBucket.refilled_later (TokenBucket.refilled_iff.mp hr) le)
  simp only [service, spend, Option.getD_some, Option.getD_none, hfu, TokenBucket.refill_full]

theorem measures (limit : TokenLimit) :
    Bucket.Measures limit.burst limit.rate Duration.seconds Prod.fst TokenBucket.read (service limit) where
  clock_mono := Duration.seconds_mono
  past fits := Duration.seconds_mono fits.past
  request fit := by
    rw [← SourceRateLimiter.read_spend fit, ← spend_eq]
    rfl

def Takes (limit : TokenLimit) (maxKeys : Int) (buckets : Buckets) (served : Served String Time (Bool × Duration))
    (buckets' : Buckets) : Prop :=
  failsOpen limit maxKeys served.time served.key buckets = false ∧
    take limit maxKeys served.time served.key buckets = (served.answer, buckets')

theorem swept_forgotten (maxKeys : Int) {buckets : Buckets} (fit : ∀ key b, buckets.at key = some b → b.Fits limit now) :
    (service limit).Forgotten now buckets.at (Buckets.at (swept limit maxKeys now buckets)) := by
  unfold swept
  split
  next =>
    refine Buckets.forgotten_filter fun key b hfo hd => asNew_of_refilled (fit key b hfo) ?_
    simpa using hd
  next => exact .refl now _

theorem Takes.forgets {buckets buckets' : Buckets} {served : Served String Time (Bool × Duration)}
    (fit : ∀ key b, buckets.at key = some b → b.Fits limit served.time)
    (hta : Takes limit maxKeys buckets served buckets') :
    (service limit).Forgets buckets.at served buckets'.at := by
  obtain ⟨hro, hst⟩ := hta
  cases hfo : buckets.lookup served.key with
  | some b =>
    simp only [take, hfo, Prod.mk.injEq] at hst
    obtain ⟨ha, rfl⟩ := hst
    exact ⟨buckets.at, .refl _ _, Buckets.keeps_insert hfo (Prod.ext ha rfl)⟩
  | none =>
    simp only [failsOpen, hfo, Option.isNone_none, Bool.true_and, decide_eq_false_iff_not] at hro
    simp only [take, hfo, if_neg hro, Prod.mk.injEq] at hst
    obtain ⟨ha, rfl⟩ := hst
    have hfr := swept_forgotten maxKeys fit
    exact ⟨_, hfr, Buckets.keeps_insert (hfr.eq_none hfo) (Prod.ext ha rfl)⟩

theorem use_of_refused {record : Option TokenBucket} (fit : ∀ b, record = some b → b.Fits limit now)
    (hre : ((service limit).use now record).1.1 = false) :
    ∃ b : TokenBucket, ((service limit).use now record).2 = b ∧ b.tokens < 1 ∧ b.lastSeen = now ∧
      ((service limit).use now record).1.2 = Duration.ofNanoseconds ((1 - b.tokens) / limit.rate * 1000000000) := by
  simp only [service, spend] at hre ⊢
  split at hre
  next hem =>
    simp only [if_pos hem]
    exact ⟨_, rfl, hem, by rw [TokenBucket.refill_eq (fits_getD fit)], rfl⟩
  next => cases hre

theorem use_of_refilled (hf : b.Fits limit now) (one : 1 ≤ limit.burst)
    (hr : 1 ≤ b.tokens + Duration.seconds (now - b.lastSeen) * limit.rate) :
    ((service limit).use now (some b)).1.1 = true := by
  have he : ¬(b.refill limit now).tokens < 1 := by
    rw [TokenBucket.refill_eq hf]
    exact not_lt.mpr (le_min one hr)
  simp only [service, spend, Option.getD_some, if_neg he]

/-- A nanosecond longer than the header says is longer than the wait, of which less than that was cut off. -/
theorem lt_retryAfter (floor : Int) {wait : ℚ} (hn : 0 ≤ wait) :
    wait < Duration.seconds (retryAfter floor (Duration.ofNanoseconds (wait * 1000000000)) * second + 1) := by
  have cut := Duration.lt_ofNanoseconds_add_one (mul_nonneg hn (by norm_num : (0 : ℚ) ≤ 1000000000))
  have hh : Duration.seconds (Duration.ofNanoseconds (wait * 1000000000)) ≤
      (retryAfter floor (Duration.ofNanoseconds (wait * 1000000000)) : ℚ) :=
    (Int.le_ceil _).trans (Int.cast_le.mpr (le_max_right _ _))
  simp only [Duration.seconds, second, Int.cast_add, Int.cast_mul, Int.cast_ofNat, Int.cast_one] at hh ⊢
  linarith

theorem allowed_after_wait (hra : 0 < limit.rate) (one : 1 ≤ limit.burst)
    {calls : List (Served String Time (Bool × Duration))} {kept : String → Option TokenBucket}
    (ht : Trace (service limit).Keeps (fun _ => none) calls kept) (ho : calls.Pairwise fun c c' => c.time ≤ c'.time)
    {before between after : List (Served String Time (Bool × Duration))} {refused next : Served String Time (Bool × Duration)}
    (eq : calls = before ++ refused :: (between ++ next :: after)) (hem : refused.answer.1 = false)
    (hs : next.key = refused.key) (hot : ∀ c ∈ between, c.key ≠ refused.key) (floor : Int)
    (hw : refused.time + retryAfter floor refused.answer.2 * second + 1 ≤ next.time) : next.answer.1 = true := by
  subst eq
  obtain ⟨s₀, hfi, ht⟩ := ht.split
  obtain ⟨s₁, hrf, ht⟩ := ht.split_cons
  obtain ⟨s₂, hq, ht⟩ := ht.split
  obtain ⟨s₃, han, -⟩ := ht.split_cons
  obtain ⟨hea, hrs, hp⟩ := List.pairwise_append.mp ho
  have fit : ∀ b, s₀ refused.key = some b → (service limit).Fits refused.time b :=
    ((measures limit).trace limit.burst_nonneg limit.rate_nonneg hfi hea).1 refused.time
      (fun c mem => hp c mem refused List.mem_cons_self) refused.key
  obtain ⟨b, hl, hsh, hse, hto⟩ := use_of_refused fit (by rw [hrf.1, hem])
  rw [hrf.1] at hto
  have hth : s₂ next.key = some b := by
    rw [hs, Service.Keeps.trace_of_ne hq hot, hrf.2, Function.update_self, hl]
  have hla : refused.time ≤ next.time := (List.pairwise_cons.mp hrs).1 next (by simp)
  have hf : b.Fits limit next.time := (hl ▸ (service limit).use_fits fit : b.Fits limit refused.time).later hla
  -- What the bucket lacked has been refilled by the next request.
  have hlo := lt_retryAfter floor (div_nonneg (sub_nonneg.mpr hsh.le) limit.rate_nonneg)
  rw [← hto] at hlo
  have hel : Duration.seconds (retryAfter floor refused.answer.2 * second + 1) ≤
      Duration.seconds (next.time - b.lastSeen) := by
    rw [hse]
    exact Duration.seconds_mono (by lia)
  have hr := (div_lt_iff₀ hra).mp (hlo.trans_le hel)
  have hg := use_of_refilled hf one (by linarith)
  rwa [← hth, han.1] at hg

end IPRateLimiter

/-! ### The sidecar -/

namespace SourceRateLimiter

def service (limit : TokenLimit) : Service Time TokenBucket (Bool × Bool) where
  use now record :=
    let charged := spend limit now (record.getD (.full limit now))
    ((charged.1, false), charged.2)
  Fits now b := b.Fits limit now
  fits_later le fits := fits.later le
  use_fits fit := spend_fits (fits_getD fit)

theorem asNew_of_refilled (hf : b.Fits limit now) (hr : b.refilled limit now = true) :
    (service limit).AsNew now b := by
  intro t le
  have hfu := spend_of_refilled (hf.later le) (TokenBucket.refilled_later (TokenBucket.refilled_iff.mp hr) le)
  simp only [service, Option.getD_some, Option.getD_none, hfu]

theorem measures (limit : TokenLimit) :
    Bucket.Measures limit.burst limit.rate Duration.seconds Prod.fst TokenBucket.read (service limit) where
  clock_mono := Duration.seconds_mono
  past fits := Duration.seconds_mono fits.past
  request fit := read_spend fit

def Allows (limit : TokenLimit) (maxKeys : Int) (l : SourceRateLimiter) (served : Served String Time (Bool × Bool))
    (l' : SourceRateLimiter) : Prop :=
  served.answer.2 = false ∧ allow limit maxKeys served.time served.key l = (served.answer, l')

theorem charge_eq (key : String) (l : SourceRateLimiter) (b : TokenBucket) :
    (charge limit maxKeys now key l b).1 = ((spend limit now b).1, false) ∧
    (charge limit maxKeys now key l b).2.buckets = l.buckets.insert key (spend limit now b).2 := by
  unfold charge
  dsimp only
  split
  next hno => exact ⟨by rw [hno.1], rfl⟩
  next => exact ⟨rfl, rfl⟩

theorem swept_forgotten (maxKeys : Int) {l : SourceRateLimiter}
    (fit : ∀ key b, l.buckets.at key = some b → b.Fits limit now) :
    (service limit).Forgotten now l.buckets.at (swept limit maxKeys now l).buckets.at := by
  unfold swept
  split
  next =>
    refine Buckets.forgotten_filter fun key b hfo hd => asNew_of_refilled (fit key b hfo) ?_
    simpa using hd
  next => exact .refl now _

theorem Allows.forgets {l l' : SourceRateLimiter} {served : Served String Time (Bool × Bool)}
    (fit : ∀ key b, l.buckets.at key = some b → b.Fits limit served.time) (hal : Allows limit maxKeys l served l') :
    (service limit).Forgets l.buckets.at served l'.buckets.at := by
  obtain ⟨hc, hst⟩ := hal
  have ha := congrArg Prod.fst hst
  have hl := congrArg (fun result => result.2.buckets) hst
  cases hfo : l.buckets.lookup served.key with
  | some b =>
    simp only [allow, hfo, charge_eq] at ha hl
    rw [← hl]
    exact ⟨l.buckets.at, .refl _ _, Buckets.keeps_insert hfo (Prod.ext ha rfl)⟩
  | none =>
    simp only [allow, hfo] at ha hl
    split at ha
    next => rw [← ha] at hc; cases hc
    next hro =>
      simp only [if_neg hro, charge_eq] at ha hl
      rw [← hl]
      have hfr := swept_forgotten maxKeys fit
      exact ⟨_, hfr, Buckets.keeps_insert (hfr.eq_none hfo) (Prod.ext ha rfl)⟩

end SourceRateLimiter

/-! ### The punch hub -/

namespace PunchLimiter

theorem use_eq (one : 1 ≤ limit.burst) {record : Option TokenBucket} (fit : ∀ b, record = some b → b.Fits limit now) :
    use limit now record = SourceRateLimiter.spend limit now (record.getD (.full limit now)) := by
  cases record with
  | none =>
    have he : ¬(TokenBucket.full limit now).tokens < 1 := not_lt.mpr one
    rw [Option.getD_none, SourceRateLimiter.spend, TokenBucket.refill_full, if_neg he]
    rfl
  | some b =>
    have hcl : ∀ tokens : ℚ, (if tokens > limit.burst then limit.burst else tokens) = min limit.burst tokens := by
      intro tokens
      rcases lt_or_ge limit.burst tokens with hab | hbe
      · rw [if_pos hab, min_eq_left hab.le]
      · rw [if_neg (not_lt.mpr hbe), min_eq_right hbe]
    simp only [use, hcl, Option.getD_some, SourceRateLimiter.spend, TokenBucket.refill_eq (fit b rfl)]
    rfl

def service (limit : TokenLimit) (one : 1 ≤ limit.burst) : Service Time TokenBucket Bool where
  use := use limit
  Fits now b := b.Fits limit now
  fits_later le fits := fits.later le
  use_fits fit := by
    rw [use_eq one fit]
    exact SourceRateLimiter.spend_fits (fits_getD fit)

theorem asNew_of_idle (one : 1 ≤ limit.burst) (hi : limit.burst ≤ limiterIdleTTL.seconds * limit.rate)
    (hf : b.Fits limit now) (hid : b.lastSeen < now - limiterIdleTTL) : (service limit one).AsNew now b := by
  intro t le
  have hel : limiterIdleTTL.seconds ≤ Duration.seconds (t - b.lastSeen) := Duration.seconds_mono (by lia)
  have he : limit.burst ≤ b.tokens + Duration.seconds (t - b.lastSeen) * limit.rate := by
    have := mul_le_mul_of_nonneg_right hel limit.rate_nonneg
    linarith [hf.nonneg]
  have hkn : ∀ b', some b = some b' → b'.Fits limit t := fun b' hs => Option.some.inj hs ▸ hf.later le
  have hu : ∀ b', none = some b' → TokenBucket.Fits limit t b' := fun b' hae => by cases hae
  exact (use_eq one hkn).trans ((SourceRateLimiter.spend_of_refilled (hf.later le) he).trans (use_eq one hu).symm)

theorem measures (one : 1 ≤ limit.burst) :
    Bucket.Measures limit.burst limit.rate Duration.seconds id TokenBucket.read (service limit one) where
  clock_mono := Duration.seconds_mono
  past fits := Duration.seconds_mono fits.past
  request fit := by
    rw [← SourceRateLimiter.read_spend fit, ← use_eq one fit]
    rfl

def Allows (limit : TokenLimit) (l : PunchLimiter) (served : Served String Time Bool) (l' : PunchLimiter) : Prop :=
  allow limit served.time served.key l = (served.answer, l')

theorem Allows.forgets (one : 1 ≤ limit.burst) (hi : limit.burst ≤ limiterIdleTTL.seconds * limit.rate)
    {l l' : PunchLimiter} {served : Served String Time Bool}
    (fit : ∀ key b, l.buckets.at key = some b → b.Fits limit served.time) (hal : Allows limit l served l') :
    (service limit one).Forgets l.buckets.at served l'.buckets.at := by
  simp only [Allows, allow, Prod.mk.injEq] at hal
  obtain ⟨ha, rfl⟩ := hal
  refine ⟨(pruneLocked served.time l).buckets.at, ?_, Buckets.keeps_insert rfl (Prod.ext ha rfl)⟩
  unfold pruneLocked
  split
  next => exact .refl _ _
  next =>
    refine Buckets.forgotten_filter fun key b hfo hd => asNew_of_idle one hi (fit key b hfo) ?_
    simpa using hd

theorem hub_limits : ∀ limit ∈ [requestLimit, probeLimit],
    1 ≤ limit.burst ∧ limit.burst ≤ limiterIdleTTL.seconds * limit.rate := by
  simp only [List.forall_mem_cons, List.not_mem_nil, false_imp_iff, implies_true, and_true]
  decide +kernel

end PunchLimiter

/-! ### Runs -/

def InOrder {ρ : Type} (calls : List (Served String Time ρ)) : Prop := calls.Pairwise fun c c' => c.time ≤ c'.time

def allowedIn {ρ : Type} (allowed : ρ → Bool) (calls : List (Served String Time ρ)) (key : String) (t t' : ℚ) : Nat :=
  calls.countP fun c => decide (c.key = key ∧ allowed c.answer ∧ t ≤ Duration.seconds c.time ∧ Duration.seconds c.time ≤ t')

theorem allowedIn_le {ρ : Type} {allowed : ρ → Bool} {service : Service Time TokenBucket ρ}
    (hm : Bucket.Measures limit.burst limit.rate Duration.seconds allowed TokenBucket.read service)
    {calls : List (Served String Time ρ)} {kept : String → Option TokenBucket}
    (hk : Trace service.Keeps (fun _ => none) calls kept) (ho : InOrder calls) (key : String) (t : ℚ) {d : ℚ}
    (hn : 0 ≤ d) : (allowedIn allowed calls key t (t + d) : ℚ) ≤ limit.burst + limit.rate * d := by
  have hb := hm.bound limit.burst_nonneg limit.rate_nonneg hk ho key
    (le_add_of_nonneg_right hn : t ≤ t + d)
  rwa [add_sub_cancel_left] at hb

end OpenRung
