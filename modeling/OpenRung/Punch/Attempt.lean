import OpenRung.Punch.Coordinator
import OpenRung.Punch.Probe

/-! The hole punch (`Attempt` in `punchcore/probe.go`) on any network: each turn of its loop has its own readings of
    the clock and of the context, and the datagram that the socket reads before its deadline, if any. -/

namespace OpenRung.Punch

def probeInterval : Duration := 50000000

/-- A turn: the clock in the condition of the loop, `ctx.Err()`, `now`, and the read. -/
structure Turn where
  clock : Time
  cancelled : Bool
  now : Time
  read : Option (Bytes × UDPAddr)

inductive AttemptError where
  | noCandidates
  | cancelled
  | timeout
  deriving DecidableEq, Repr

/-- The local variables of `Attempt`. `rounds` and `sent` are history: when probes were sent, and what was written to the
    socket. -/
structure Attempt where
  provisional : Option UDPAddr := none
  nextSend : Time
  rounds : List Time := []
  sent : List (Bytes × UDPAddr) := []

structure PunchSession where
  sessionID : Bytes
  token : Bytes
  deadline : Time
  targets : List UDPAddr

namespace PunchSession
variable (p : PunchSession)

def probe : Bytes := buildProbePacket probeMagic p.sessionID p.token
def ack : Bytes := buildProbePacket probeAckMagic p.sessionID p.token

def spray (a : Attempt) (now : Time) : Attempt :=
  if now ≥ a.nextSend then
    { a with
      nextSend := now + probeInterval
      rounds := a.rounds ++ [now]
      sent := a.sent ++ p.targets.map fun dst => (p.probe, dst) }
  else a

/-- A result ends the loop. No read of the parser is out of bounds. -/
def receive (a : Attempt) (data : Bytes) (src : UDPAddr) : Attempt × Option (Except AttemptError UDPAddr) :=
  match (parseProbePacket (data.take 1500) p.sessionID p.token).getD .none with
  | .none => (a, none)
  | .probe => ({ a with provisional := a.provisional.or src, sent := a.sent ++ [(p.ack, src)] }, none)
  | .ack => ({ a with sent := a.sent ++ List.replicate 3 (p.ack, src) }, some (.ok src))

def turn (a : Attempt) (t : Turn) : Attempt × Option (Except AttemptError UDPAddr) :=
  if ¬ t.clock < p.deadline then (a, some (a.provisional.elim (.error .timeout) .ok))
  else if t.cancelled then (a, some (.error .cancelled))
  else
    match t.read with
    | none => (p.spray a t.now, none)
    | some (data, src) => p.receive (p.spray a t.now) data src

def loop : List Turn → Attempt → Attempt × Option (Except AttemptError UDPAddr)
  | [], a => (a, none)
  | t :: rest, a =>
    match p.turn a t with
    | (a, none) => loop rest a
    | out => out

end PunchSession

/-- Without a result the turns are not over. -/
def Policy.attempt (p : Policy) (peers : List Endpoint) (sessionID token : Bytes) (deadline start : Time)
    (turns : List Turn) : Attempt × Option (Except AttemptError UDPAddr) :=
  let targets := p.attemptTargets peers
  if targets = [] then ({ nextSend := start }, some (.error .noCandidates))
  else PunchSession.loop { sessionID, token, deadline, targets } turns { nextSend := start }

end OpenRung.Punch
