import OpenRung.Broker.Lease
import OpenRung.Lib.Trace

/-! The goroutine that keeps the lease of the connected relay alive (`renewLease` and `requestAccess` in
    `connectcore/access.go`). It runs from one interaction with the outside to the next; what these bring is an
    `Event`, of which nothing is assumed: the clock may jump either way. What it does is kept in a log that nothing in
    it reads. -/

namespace OpenRung.Engine.LeaseRenewal

def accessUnappliedRetries : Nat := 2
def accessUnappliedMaxWait : Duration := 5 * second
def accessUnappliedDefault : Duration := 2 * second
def leaseRenewalPoll : Duration := 30 * second
def leaseRenewalMaxBackoff : Duration := minute

def jitter (base : Duration) (drawn : Nat) : Duration :=
  if base ≤ 0 then base
  else
    let delta : Duration := (drawn : Int) % (base / 2 + 1) - base / 4
    base + delta

/-! ### Answers -/

structure Relay where
  id : String
  clientID : String
  deriving DecidableEq

structure AccessResponse where
  relays : List Relay
  serverTime : Time
  leaseExpiresAt : Time
  deriving DecidableEq

def AccessResponse.lifetime (resp : AccessResponse) : Duration := resp.leaseExpiresAt - resp.serverTime

inductive RequestFailure where
  | status (code : Int) (retryAfter : Duration)
  | other
  deriving DecidableEq

inductive AccessError where
  | disabled
  | enrollmentRefused
  | unsupported
  | status (code : Int) (retryAfter : Duration)
  | contextEnded
  | other
  deriving DecidableEq

/-- What the goroutine reports: `errLeaseExpired`, `errLeaseReplaced`, `ErrAccessDisabled` and `errLeaseRelayGone`. -/
inductive Outcome where
  | expired
  | replaced
  | disabled
  | relayGone
  deriving DecidableEq

inductive Point where
  | reading
  | sleeping (wait : Duration)
  | resuming
  | rechecking
  | authenticating (stale : String) (unapplied : Nat)
  | requesting (stale token : String) (unapplied : Nat)
  | arriving (resp : AccessResponse)
  | waitingOut (wait : Duration) (stale : String) (unapplied : Nat)
  | returned (result : Except AccessError (AccessResponse × Time))
  | backingOff
  | stopped

inductive Action where
  | clock (now : Time)
  | request
  | answered (resp : AccessResponse) (received : Time)
  | schedule (renewAt : Time)
  | report (outcome : Outcome)
  deriving DecidableEq

structure State where
  point : Point
  expiresAt : Time
  lifetime : Duration
  renewAt : Time
  failures : Nat
  log : List Action

inductive Event where
  | clock (now : Time)
  | timer
  | contextDone
  | resumed
  | token (result : Except AccessError String)
  | answer (result : Except RequestFailure AccessResponse)
  /-- Whether `ctx.Err()` is set, and the number drawn if the renewal is scheduled. -/
  | checked (ended : Bool) (drawn : Nat)

def start (expiresAt : Time) (lifetime : Duration) (drawn : Nat) : State where
  point := .reading
  expiresAt
  lifetime
  renewAt := expiresAt - lifetime + jitter (lifetime.tdiv 2) drawn
  failures := 0
  log := []

namespace State

def note (s : State) (action : Action) : State := { s with log := s.log ++ [action] }

def goes (s : State) (point : Point) : State := { s with point }

def report (s : State) (outcome : Outcome) : State := (s.note (.report outcome)).goes .stopped

def read (s : State) (now : Time) : State :=
  let s := s.note (.clock now)
  if s.expiresAt ≤ now then s.report .expired
  else if now < s.renewAt then s.goes (.sleeping (min (s.renewAt - now) leaseRenewalPoll))
  else s.goes .resuming

/-- A host that slept past the expiry while it was paused goes back to the top to report it. -/
def recheck (s : State) (now : Time) : State :=
  let s := s.note (.clock now)
  if s.expiresAt ≤ now then s.goes .reading else (s.note .request).goes (.authenticating "" 0)

def refuse (s : State) (stale token : String) (unapplied : Nat) : RequestFailure → State
  | .other => s.goes (.returned (.error .other))
  | .status code retryAfter =>
    if code = 401 then
      if stale ≠ "" then s.goes (.returned (.error (.status code retryAfter))) else s.goes (.authenticating token unapplied)
    else if code = 403 then s.goes (.returned (.error .disabled))
    else if code = 404 then s.goes (.returned (.error .unsupported))
    else if code = 503 then
      if accessUnappliedRetries ≤ unapplied then s.goes (.returned (.error (.status code retryAfter)))
      else
        let wait := if retryAfter ≤ 0 then accessUnappliedDefault else retryAfter
        s.goes (.waitingOut (min wait accessUnappliedMaxWait) stale (unapplied + 1))
    else s.goes (.returned (.error (.status code retryAfter)))

def receive (s : State) (resp : AccessResponse) (now : Time) : State :=
  ((s.note (.clock now)).note (.answered resp now)).goes (.returned (.ok (resp, now)))

def renew (s : State) (resp : AccessResponse) (received : Time) (drawn : Nat) : State :=
  let renewAt := received + jitter (resp.lifetime.tdiv 2) drawn
  { s.note (.schedule renewAt) with
    point := .reading, expiresAt := received + resp.lifetime, lifetime := resp.lifetime, renewAt, failures := 0 }

def fail (s : State) : State := { s with point := .backingOff, failures := s.failures + 1 }

def backOff (s : State) (now : Time) : State :=
  let delay := min (2 ^ min s.failures 6 * second) leaseRenewalMaxBackoff
  let s := s.note (.clock now)
  { s.note (.schedule (now + delay)) with point := .reading, renewAt := now + delay }

def conclude (relay : Relay) (s : State) (drawn : Nat) : Except AccessError (AccessResponse × Time) → State
  | .error .disabled => s.report .disabled
  | .error _ => s.fail
  | .ok (resp, received) =>
    match resp.relays with
    | [] => s.report .relayGone
    | [answer] =>
      if answer.id = relay.id then
        if answer.clientID ≠ relay.clientID then s.report .replaced else s.renew resp received drawn
      else s.fail
    | _ => s.fail

def step (relay : Relay) (s : State) : Event → Option State
  | .clock now =>
    match s.point with
    | .reading => some (s.read now)
    | .rechecking => some (s.recheck now)
    | .arriving resp => some (s.receive resp now)
    | .backingOff => some (s.backOff now)
    | _ => none
  | .timer =>
    match s.point with
    | .sleeping _ => some (s.goes .reading)
    | .waitingOut _ stale unapplied => some (s.goes (.authenticating stale unapplied))
    | _ => none
  | .contextDone =>
    match s.point with
    | .sleeping _ => some (s.goes .stopped)
    | .resuming => some (s.goes .stopped)
    | .waitingOut _ _ _ => some (s.goes (.returned (.error .contextEnded)))
    | _ => none
  | .resumed =>
    match s.point with
    | .resuming => some (s.goes .rechecking)
    | _ => none
  | .token result =>
    match s.point, result with
    | .authenticating _ _, .error err => some (s.goes (.returned (.error err)))
    | .authenticating stale unapplied, .ok token => some (s.goes (.requesting stale token unapplied))
    | _, _ => none
  | .answer result =>
    match s.point, result with
    | .requesting stale token unapplied, .error failure => some (s.refuse stale token unapplied failure)
    | .requesting _ _ _, .ok resp => some (s.goes (.arriving resp))
    | _, _ => none
  | .checked ended drawn =>
    match s.point with
    | .returned result => some (if ended then s.goes .stopped else s.conclude relay drawn result)
    | _ => none

end State

end OpenRung.Engine.LeaseRenewal
