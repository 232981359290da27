import OpenRung.Broker.Lease

/-! The circuit breaker of punch recovery (`connectcore/punchbreaker.go`), with any clock. The jitter source is what
    each loss picks between its two bounds. -/

namespace OpenRung.Engine

def punchStablePath : Duration := 5 * minute
def punchMaxRapidFailures : Int := 3
def punchInitialBackoff : Duration := 2 * second
def punchMaxBackoff : Duration := 30 * second
def punchJitterDivisor : Int := 5

structure PunchBreakerConfig where
  stablePath : Duration := 0
  maxRapid : Int := 0
  initialBackoff : Duration := 0
  maxBackoff : Duration := 0

namespace PunchBreakerConfig

def withDefaults (c : PunchBreakerConfig) : PunchBreakerConfig :=
  let initialBackoff := if c.initialBackoff ≤ 0 then punchInitialBackoff else c.initialBackoff
  { stablePath := if c.stablePath ≤ 0 then punchStablePath else c.stablePath
    maxRapid := if c.maxRapid ≤ 0 then punchMaxRapidFailures else c.maxRapid
    initialBackoff
    maxBackoff := if c.maxBackoff < initialBackoff then punchMaxBackoff else c.maxBackoff }

def escalate (c : PunchBreakerConfig) (nominal : Duration) : Duration :=
  if c.maxBackoff / 2 ≤ nominal then c.maxBackoff
  else if c.maxBackoff < nominal * 2 then c.maxBackoff
  else nominal * 2

def nominal (c : PunchBreakerConfig) (failureCount : Nat) : Duration := c.escalate^[failureCount - 1] c.initialBackoff

def backoffDelay (c : PunchBreakerConfig) (pickJitteredDelay : Duration → Duration → Duration) (failureCount : Nat) :
    Duration :=
  let nominal := c.nominal failureCount
  let jitter := nominal / punchJitterDivisor
  let low := if nominal - jitter < 1 then 1 else nominal - jitter
  let high := if c.maxBackoff < nominal + jitter then c.maxBackoff else nominal + jitter
  let delay := pickJitteredDelay low high
  let delay := if delay < low then low else delay
  if high < delay then high else delay

end PunchBreakerConfig

structure PunchRelayState where
  rapidFailures : Nat := 0
  connectedAt : Option Time := none
  isOpen : Bool := false
  deriving DecidableEq, Repr

structure PunchRecoveryDecision where
  useRelayHub : Bool := false
  delay : Duration := 0
  rapidFailures : Nat
  directUptime : Duration
  counted : Bool := false
  deriving DecidableEq, Repr

structure PunchBreaker where
  config : PunchBreakerConfig
  relays : KeyedMap String PunchRelayState := ∅

namespace PunchBreaker

def stateFor (b : PunchBreaker) (relayID : String) : PunchRelayState := (b.relays.lookup relayID).getD {}

def markDirectConnected (b : PunchBreaker) (relayID : String) (now : Time) : PunchBreaker :=
  if relayID = "" then b
  else { b with relays := b.relays.insert relayID { b.stateFor relayID with connectedAt := some now } }

def allowsDirectPunch (b : PunchBreaker) (relayID : String) : Bool :=
  match b.relays.lookup relayID with
  | none => true
  | some state => !state.isOpen

/-- How long the path was up; a clock that went back reads as zero. -/
def uptime (state : PunchRelayState) (now : Time) : Duration :=
  match state.connectedAt with
  | some connectedAt => if connectedAt < now then now - connectedAt else 0
  | none => 0

def onDirectPathLost (b : PunchBreaker) (relayID : String) (now : Time) (countTowardBreaker : Bool)
    (pickJitteredDelay : Duration → Duration → Duration) : PunchBreaker × PunchRecoveryDecision :=
  let config := b.config.withDefaults
  let state := b.stateFor relayID
  let uptime := uptime state now
  let state := { state with connectedAt := none }
  let state := if config.stablePath ≤ uptime then { state with rapidFailures := 0, isOpen := false } else state
  if !countTowardBreaker then
    ({ b with relays := b.relays.insert relayID state }, { rapidFailures := state.rapidFailures, directUptime := uptime })
  else
    let state := { state with rapidFailures := state.rapidFailures + 1 }
    let delay := config.backoffDelay pickJitteredDelay state.rapidFailures
    if config.maxRapid ≤ state.rapidFailures then
      let state := { state with isOpen := true }
      ({ b with relays := b.relays.insert relayID state },
        { useRelayHub := true, delay, rapidFailures := state.rapidFailures, directUptime := uptime, counted := true })
    else
      ({ b with relays := b.relays.insert relayID state },
        { delay, rapidFailures := state.rapidFailures, directUptime := uptime, counted := true })

inductive Call where
  | connected (relayID : String) (now : Time)
  | lost (relayID : String) (now : Time) (counts : Bool) (pickJitteredDelay : Duration → Duration → Duration)
  | allows (relayID : String)

def Call.relayID : Call → String
  | connected relayID _ => relayID
  | lost relayID _ _ _ => relayID
  | allows relayID => relayID

inductive Answer where
  | done
  | decision (d : PunchRecoveryDecision)
  | allowed (ok : Bool)
  deriving DecidableEq, Repr

def call (b : PunchBreaker) : Call → PunchBreaker × Answer
  | .connected relayID now => (b.markDirectConnected relayID now, .done)
  | .lost relayID now counts pick =>
    let lost := b.onDirectPathLost relayID now counts pick
    (lost.1, .decision lost.2)
  | .allows relayID => (b, .allowed (b.allowsDirectPunch relayID))

def run (config : PunchBreakerConfig) (calls : List Call) : PunchBreaker :=
  calls.foldl (fun b c => (b.call c).1) { config }

end PunchBreaker

end OpenRung.Engine
