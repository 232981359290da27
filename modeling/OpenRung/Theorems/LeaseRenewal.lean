import OpenRung.Engine.LeaseRenewal

/-! What the renewal of a lease does in every run. Each action is judged by the log before it: the expiry that counts
    is read from the answers in the log (`expiry`), not from the goroutine's own variables. -/

namespace OpenRung.Engine.LeaseRenewal

theorem jitter_lt {base : Duration} (hp : 0 < base) (drawn : Nat) : jitter base drawn < 2 * base := by
  have hbe := Int.emod_lt_of_pos (drawn : Int) (show 0 < base / 2 + 1 by lia)
  simp only [jitter, if_neg (not_le.mpr hp)]
  lia

theorem jitter_half_lt {lifetime : Duration} (hp : 0 < lifetime) (drawn : Nat) :
    jitter (lifetime.tdiv 2) drawn < lifetime := by
  rw [Int.tdiv_eq_ediv_of_nonneg hp.le]
  rcases le_or_gt (lifetime / 2) 0 with hn | hso
  · rw [jitter, if_pos hn]
    lia
  · have := jitter_lt hso drawn
    lia

def expiry (relay : Relay) (granted : Time) (log : List Action) : Time :=
  log.foldl (fun expiresAt action =>
    match action with
    | .answered resp received => if resp.relays = [relay] then received + resp.lifetime else expiresAt
    | _ => expiresAt) granted

structure Allowed (relay : Relay) (granted : Time) (before : List Action) (action : Action) : Prop where
  unreported : ∀ outcome, .report outcome ∉ before
  request : action = .request →
    ∃ earlier now, before = earlier ++ [.clock now] ∧ now < expiry relay granted earlier
  expired : action = .report .expired →
    ∃ earlier now, before = earlier ++ [.clock now] ∧ expiry relay granted earlier ≤ now
  replaced : action = .report .replaced → ∃ earlier resp received answer, before = earlier ++ [.answered resp received] ∧
    resp.relays = [answer] ∧ answer.id = relay.id ∧ answer.clientID ≠ relay.clientID
  renewed : ∀ earlier resp received, before = earlier ++ [.answered resp received] → resp.relays = [relay] →
    ∃ renewAt, action = .schedule renewAt ∧ (0 < resp.lifetime → renewAt < received + resp.lifetime)

variable {relay : Relay} {granted expiresAt : Time} {log : List Action} {s : State}

@[simp] theorem expiry_clock (now : Time) : expiry relay granted (log ++ [.clock now]) = expiry relay granted log := by
  simp [expiry]

@[simp] theorem expiry_request : expiry relay granted (log ++ [.request]) = expiry relay granted log := by simp [expiry]

@[simp] theorem expiry_schedule (renewAt : Time) :
    expiry relay granted (log ++ [.schedule renewAt]) = expiry relay granted log := by
  simp [expiry]

theorem expiry_answered (resp : AccessResponse) (received : Time) :
    expiry relay granted (log ++ [.answered resp received]) =
      if resp.relays = [relay] then received + resp.lifetime else expiry relay granted log := by
  simp [expiry]

/-! ### What the log says between two actions -/

/-- The loop goes on, and it has taken account of the last answer. -/
structure Settled (relay : Relay) (granted : Time) (log : List Action) (expiresAt : Time) : Prop where
  lawful : Explained (Allowed relay granted) log
  unreported : ∀ outcome, .report outcome ∉ log
  expiry : expiresAt = expiry relay granted log
  settled : ∀ earlier resp received, log = earlier ++ [.answered resp received] → resp.relays ≠ [relay]

theorem Settled.allowed {action : Action} (hs : Settled relay granted log expiresAt) (hpl : action ≠ .request)
    (hsi : ∀ outcome, action ≠ .report outcome) : Allowed relay granted log action where
  unreported := hs.unreported
  request is := absurd is hpl
  expired is := absurd is (hsi _)
  replaced is := absurd is (hsi _)
  renewed earlier resp received eq renews := absurd renews (hs.settled earlier resp received eq)

theorem Settled.clock (settled : Settled relay granted log expiresAt) (now : Time) :
    Settled relay granted (log ++ [.clock now]) expiresAt where
  lawful := settled.lawful.snoc (settled.allowed (by simp) (by simp))
  unreported := by simpa using settled.unreported
  expiry := by rw [expiry_clock, settled.expiry]
  settled earlier resp received eq := by simpa using (List.append_inj' eq rfl).2

theorem Settled.schedule (settled : Settled relay granted log expiresAt) (renewAt : Time) :
    Settled relay granted (log ++ [.schedule renewAt]) expiresAt where
  lawful := settled.lawful.snoc (settled.allowed (by simp) (by simp))
  unreported := by simpa using settled.unreported
  expiry := by rw [expiry_schedule, settled.expiry]
  settled earlier resp received eq := by simpa using (List.append_inj' eq rfl).2

theorem Settled.request {now : Time} (settled : Settled relay granted log expiresAt) (before : now < expiresAt) :
    Settled relay granted (log ++ [.clock now] ++ [.request]) expiresAt where
  lawful := by
    have read := settled.clock now
    refine read.lawful.snoc ⟨read.unreported, fun _ => ⟨log, now, rfl, settled.expiry ▸ before⟩, by simp, by simp, ?_⟩
    exact fun earlier resp received eq renews => absurd renews (read.settled earlier resp received eq)
  unreported := by simpa using settled.unreported
  expiry := by rw [expiry_request, expiry_clock, settled.expiry]
  settled earlier resp received eq := by simpa using (List.append_inj' eq rfl).2

theorem Settled.report_expired {now : Time} (hs : Settled relay granted log expiresAt) (ha : expiresAt ≤ now) :
    Explained (Allowed relay granted) (log ++ [.clock now] ++ [.report .expired]) := by
  have hra := hs.clock now
  refine hra.lawful.snoc ⟨hra.unreported, by simp, fun _ => ⟨log, now, rfl, hs.expiry ▸ ha⟩, by simp, ?_⟩
  exact fun earlier resp received eq hr => absurd hr (hra.settled earlier resp received eq)

theorem Settled.report_disabled (hs : Settled relay granted log expiresAt) :
    Explained (Allowed relay granted) (log ++ [.report .disabled]) := by
  refine hs.lawful.snoc ⟨hs.unreported, by simp, by simp, by simp, ?_⟩
  exact fun earlier resp received eq hr => absurd hr (hs.settled earlier resp received eq)

/-- An answer has come that the loop has not looked at yet. -/
def Answered (relay : Relay) (granted : Time) (log : List Action) (expiresAt : Time) (resp : AccessResponse)
    (received : Time) : Prop :=
  ∃ earlier, log = earlier ++ [.answered resp received] ∧ Settled relay granted earlier expiresAt

namespace Answered
variable {resp : AccessResponse} {received : Time} (answered : Answered relay granted log expiresAt resp received)
include answered

theorem lawful : Explained (Allowed relay granted) log := by
  obtain ⟨earlier, rfl, hs⟩ := answered
  exact hs.lawful.snoc (hs.allowed (by simp) (by simp))

theorem unreported : ∀ outcome, .report outcome ∉ log := by
  obtain ⟨earlier, rfl, hs⟩ := answered
  simpa using hs.unreported

theorem last_eq {earlier : List Action} {resp' : AccessResponse} {received' : Time}
    (eq : log = earlier ++ [.answered resp' received']) : resp' = resp ∧ received' = received := by
  obtain ⟨_, rfl, -⟩ := answered
  have hsa := List.singleton_inj.mp (List.append_inj' eq rfl).2
  simp only [Action.answered.injEq] at hsa
  exact ⟨hsa.1.symm, hsa.2.symm⟩

theorem ignored (other : resp.relays ≠ [relay]) : Settled relay granted log expiresAt where
  lawful := answered.lawful
  unreported := answered.unreported
  expiry := by
    obtain ⟨earlier, rfl, settled⟩ := answered
    rw [expiry_answered, if_neg other, settled.expiry]
  settled earlier resp' received' eq := by
    obtain ⟨rfl, rfl⟩ := answered.last_eq eq
    exact other

theorem renewed (hr : resp.relays = [relay]) (drawn : Nat) :
    Settled relay granted (log ++ [.schedule (received + jitter (resp.lifetime.tdiv 2) drawn)])
      (received + resp.lifetime) where
  lawful := by
    refine answered.lawful.snoc ⟨answered.unreported, by simp, by simp, by simp, ?_⟩
    intro earlier resp' received' eq _
    obtain ⟨rfl, rfl⟩ := answered.last_eq eq
    exact ⟨_, rfl, fun hp => add_lt_add_right (jitter_half_lt hp drawn) _⟩
  unreported := by simpa using answered.unreported
  expiry := by
    obtain ⟨earlier, rfl, -⟩ := answered
    rw [expiry_schedule, expiry_answered, if_pos hr]
  settled earlier resp' received' eq := by simpa using (List.append_inj' eq rfl).2

theorem report_replaced {answer : Relay} (hon : resp.relays = [answer]) (hsa : answer.id = relay.id)
    (ho : answer.clientID ≠ relay.clientID) :
    Explained (Allowed relay granted) (log ++ [.report .replaced]) := by
  refine answered.lawful.snoc ⟨answered.unreported, by simp, by simp, fun _ => ?_, ?_⟩
  · obtain ⟨earlier, rfl, -⟩ := answered
    exact ⟨earlier, resp, received, answer, rfl, hon, hsa, ho⟩
  · intro earlier resp' received' eq hr
    obtain ⟨rfl, rfl⟩ := answered.last_eq eq
    rw [hon] at hr
    exact absurd (congrArg Relay.clientID (List.singleton_inj.mp hr)) ho

theorem report_relayGone (hn : resp.relays = []) :
    Explained (Allowed relay granted) (log ++ [.report .relayGone]) := by
  refine answered.lawful.snoc ⟨answered.unreported, by simp, by simp, by simp, ?_⟩
  intro earlier resp' received' eq hr
  obtain ⟨rfl, rfl⟩ := answered.last_eq eq
  rw [hn] at hr
  cases hr

end Answered

/-! ### Runs -/

def Holds (relay : Relay) (granted : Time) (s : State) : Prop :=
  match s.point with
  | .stopped => Explained (Allowed relay granted) s.log
  | .returned (.ok (resp, received)) => Answered relay granted s.log s.expiresAt resp received
  | _ => Settled relay granted s.log s.expiresAt

theorem Holds.lawful (hh : Holds relay granted s) : Explained (Allowed relay granted) s.log := by
  unfold Holds at hh
  split at hh
  next => exact hh
  next => exact Answered.lawful hh
  next => exact hh.lawful

theorem Holds.read (hs : Settled relay granted s.log s.expiresAt) (now : Time) :
    Holds relay granted (s.read now) := by
  unfold State.read
  dsimp only
  split
  next ha => exact hs.report_expired ha
  next =>
    split
    next => exact hs.clock now
    next => exact hs.clock now

theorem Holds.recheck (hs : Settled relay granted s.log s.expiresAt) (now : Time) :
    Holds relay granted (s.recheck now) := by
  unfold State.recheck
  dsimp only
  split
  next => exact hs.clock now
  next hb => exact hs.request (not_le.mp hb)

theorem Holds.refuse (hs : Settled relay granted s.log s.expiresAt) (stale token : String) (unapplied : Nat)
    (failure : RequestFailure) : Holds relay granted (s.refuse stale token unapplied failure) := by
  cases failure with
  | other => exact hs
  | status code retryAfter =>
    unfold State.refuse
    dsimp only
    repeat' split
    all_goals exact hs

theorem Holds.conclude (drawn : Nat) {resp : AccessResponse} {received : Time}
    (answered : Answered relay granted s.log s.expiresAt resp received) :
    Holds relay granted (s.conclude relay drawn (.ok (resp, received))) := by
  unfold State.conclude
  dsimp only
  split
  next none => exact answered.report_relayGone none
  next answer only =>
    split
    next same =>
      split
      next other => exact answered.report_replaced only same other
      next own =>
        have renews : resp.relays = [relay] := by
          rw [only]
          obtain ⟨id, clientID⟩ := answer
          obtain ⟨relayID, relayClientID⟩ := relay
          simp_all
        exact answered.renewed renews drawn
    next different => exact answered.ignored (by rintro renews; rw [only] at renews; simp_all)
  next _ none several => exact answered.ignored (fun renews => several _ renews)

theorem Holds.step {s' : State} {event : Event} (hh : Holds relay granted s) (hst : s.step relay event = some s') :
    Holds relay granted s' := by
  obtain ⟨point, expiresAt, lifetime, renewAt, failures, log⟩ := s
  cases event with
  | clock now =>
    cases point with
    | reading =>
      obtain rfl := Option.some.inj hst
      exact Holds.read hh now
    | rechecking =>
      obtain rfl := Option.some.inj hst
      exact Holds.recheck hh now
    | arriving resp =>
      obtain rfl := Option.some.inj hst
      exact ⟨_, rfl, Settled.clock hh now⟩
    | backingOff =>
      obtain rfl := Option.some.inj hst
      exact (Settled.clock hh now).schedule _
    | _ => cases hst
  | timer =>
    cases point with
    | sleeping wait =>
      obtain rfl := Option.some.inj hst
      exact hh
    | waitingOut wait stale unapplied =>
      obtain rfl := Option.some.inj hst
      exact hh
    | _ => cases hst
  | contextDone =>
    cases point with
    | sleeping wait =>
      obtain rfl := Option.some.inj hst
      exact Settled.lawful hh
    | resuming =>
      obtain rfl := Option.some.inj hst
      exact Settled.lawful hh
    | waitingOut wait stale unapplied =>
      obtain rfl := Option.some.inj hst
      exact hh
    | _ => cases hst
  | resumed =>
    cases point with
    | resuming =>
      obtain rfl := Option.some.inj hst
      exact hh
    | _ => cases hst
  | token result =>
    cases point with
    | authenticating stale unapplied =>
      cases result with
      | error err =>
        obtain rfl := Option.some.inj hst
        exact hh
      | ok token =>
        obtain rfl := Option.some.inj hst
        exact hh
    | _ => cases hst
  | answer result =>
    cases point with
    | requesting stale token unapplied =>
      cases result with
      | error failure =>
        obtain rfl := Option.some.inj hst
        exact Holds.refuse hh stale token unapplied failure
      | ok resp =>
        obtain rfl := Option.some.inj hst
        exact hh
    | _ => cases hst
  | checked ended drawn =>
    cases point with
    | returned result =>
      obtain rfl := Option.some.inj hst
      cases ended with
      | true => exact hh.lawful
      | false =>
        cases result with
        | ok answer => exact Holds.conclude drawn hh
        | error err =>
          cases err with
          | disabled => exact Settled.report_disabled hh
          | _ => exact hh
    | _ => cases hst

theorem Holds.stopped {outcome : Outcome} (hh : Holds relay granted s) (hre : .report outcome ∈ s.log)
    (event : Event) : s.step relay event = none := by
  obtain ⟨point, expiresAt, lifetime, renewAt, failures, log⟩ := s
  have stopped : point = .stopped := by
    cases point with
    | stopped => rfl
    | returned result =>
      cases result with
      | ok answer => exact absurd hre (Answered.unreported hh outcome)
      | error err => exact absurd hre (Settled.unreported hh outcome)
    | _ => exact absurd hre (Settled.unreported hh outcome)
  subst stopped
  cases event <;> rfl

theorem Holds.start (relay : Relay) (expiresAt : Time) (lifetime : Duration) (drawn : Nat) :
    Holds relay expiresAt (start expiresAt lifetime drawn) :=
  show Settled relay expiresAt [] expiresAt from ⟨.nil, by simp, rfl, by simp⟩

/-- One report at most, requests only before the expiry, a report only for what it says, and a renewed lease is
    scheduled for renewal before its new expiry. -/
theorem lease_renewal_laws (relay : Relay) (expiresAt : Time) (lifetime : Duration) (drawn : Nat) {events : List Event}
    {s : State} (run : Trace (fun s event s' => s.step relay event = some s') (start expiresAt lifetime drawn) events s) :
    (∀ (before : List Action) (outcome : Outcome) (after : List Action), s.log = before ++ Action.report outcome :: after →
      after = [] ∧ (∀ outcome', Action.report outcome' ∉ before) ∧ ∀ event, s.step relay event = none) ∧
    (∀ before after : List Action, s.log = before ++ Action.request :: after →
      ∃ earlier now, before = earlier ++ [Action.clock now] ∧ now < expiry relay expiresAt earlier) ∧
    (∀ before after : List Action, s.log = before ++ Action.report .expired :: after →
      ∃ earlier now, before = earlier ++ [Action.clock now] ∧ expiry relay expiresAt earlier ≤ now) ∧
    (∀ before after : List Action, s.log = before ++ Action.report .replaced :: after →
      ∃ earlier resp received answer, before = earlier ++ [Action.answered resp received] ∧ resp.relays = [answer] ∧
        answer.id = relay.id ∧ answer.clientID ≠ relay.clientID) ∧
    ∀ (before : List Action) (resp : AccessResponse) (received : Time) (action : Action) (after : List Action),
      s.log = before ++ Action.answered resp received :: action :: after → resp.relays = [relay] →
      ∃ renewAt, action = .schedule renewAt ∧ (0 < resp.lifetime → renewAt < received + resp.lifetime) := by
  have hh : Holds relay expiresAt s :=
    run.invariant (fun _ _ _ hh hst => hh.step hst) (.start relay expiresAt lifetime drawn)
  have hl := hh.lawful
  refine ⟨fun before outcome after eq => ⟨?_, (hl _ _ _ eq).unreported, ?_⟩,
    fun before after eq => (hl _ _ _ eq).request rfl, fun before after eq => (hl _ _ _ eq).expired rfl,
    fun before after eq => (hl _ _ _ eq).replaced rfl, fun before resp received action after eq hr => ?_⟩
  · cases after with
    | nil => rfl
    | cons action rest =>
      have hne := (hl (before ++ [.report outcome]) action rest (by simpa using eq)).unreported outcome
      simp at hne
  · have hre : .report outcome ∈ s.log := by simp [eq]
    exact hh.stopped hre
  · exact (hl (before ++ [.answered resp received]) action after (by simpa using eq)).renewed _ resp received rfl hr

theorem lease_renewal_laws_slept :
    let relay : Relay := ⟨"r", "c"⟩
    let resp : AccessResponse := ⟨[relay], 0, 100 * second⟩
    let events : List Event := [.clock (40 * second), .resumed, .clock (41 * second), .token (.ok "t"), .answer (.ok resp),
      .clock (42 * second), .checked false 0, .clock (200 * second)]
    ∃ s, Trace (fun s event s' => State.step relay s event = some s') (start (100 * second) (100 * second) 0) events s ∧
      (∃ earlier now, s.log.dropLast = earlier ++ [.clock now] ∧ expiry relay (100 * second) earlier ≤ now) ∧
      (∃ renewAt, s.log[5]? = some (.schedule renewAt) ∧ renewAt < 142 * second) ∧
      ∀ event, s.step relay event = none := by
  intro relay resp events
  have run := Trace.of_foldlM
    (rfl : events.foldlM (State.step relay) (start (100 * second) (100 * second) 0) = some _)
  obtain ⟨hoc, -, he, -, hrn⟩ := lease_renewal_laws relay (100 * second) (100 * second) 0 run
  refine ⟨_, run, he _ [] rfl, ?_, (hoc _ .expired [] rfl).2.2⟩
  obtain ⟨renewAt, hne, hb⟩ := hrn [_, _, _, _] resp (42 * second) _ _ rfl rfl
  exact ⟨renewAt, congrArg some hne, hb (by decide)⟩

end OpenRung.Engine.LeaseRenewal
