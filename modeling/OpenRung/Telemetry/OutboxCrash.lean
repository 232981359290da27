import OpenRung.Lib.Syscalls
import OpenRung.Lib.Trace
import OpenRung.Telemetry.Outbox

/-! The system calls behind each call on an outbox, runs in which the process is killed between any two of them, and
    the capped queue that such a run implements. -/

namespace OpenRung.Telemetry
namespace OutboxHost
variable (codec : EventCodec)

/-! ### System calls -/

def rewriteCalls (events : List Event) : List (Syscall UInt8) := Syscall.replace (outboxLines codec events)

def loadCalls (h : OutboxHost) : List (Syscall UInt8) :=
  if h.outbox.loaded ∨ h.disk.content = [] then []
  else if (readOutbox codec h.disk.content).dirty then rewriteCalls codec (readOutbox codec h.disk.content).events
  else []

def appendCalls (events : List Event) (h : OutboxHost) : List (Syscall UInt8) :=
  let queued := newest (h.outbox.events ++ events)
  match events.mapM codec.marshal with
  | none => rewriteCalls codec queued
  | some lines =>
    Syscall.appendAll (lines.flatMap (· ++ [10])) ++
      if h.outbox.fileLines + events.length > outboxCompactThreshold then rewriteCalls codec queued else []

def enqueueCalls (events : List Event) (h : OutboxHost) : List (Syscall UInt8) :=
  if events = [] ∨ h.outbox.closed then []
  else h.loadCalls codec ++ appendCalls codec events (h.loadLocked codec {}).2

def removeCalls (sent : List Event) (h : OutboxHost) : List (Syscall UInt8) :=
  let isSent := fun e : Event => sent.any (·.eventID = e.eventID)
  if h.outbox.closed then []
  else if h.outbox.events.any isSent then rewriteCalls codec (h.outbox.events.filter fun e => !isSent e) else []

def patchCalls (sessionID : String) (attributes : KeyedMap String String) (h : OutboxHost) : List (Syscall UInt8) :=
  if sessionID = "" ∨ attributes.entries = [] ∨ h.outbox.closed then []
  else
    let events := (h.loadLocked codec {}).2.outbox.events
    let patched := events.map (patchEvent sessionID attributes)
    h.loadCalls codec ++ if patched ≠ events then rewriteCalls codec patched else []

def calls (h : OutboxHost) : Op → List (Syscall UInt8)
  | .enqueue event => h.enqueueCalls codec (validateOutboxEvent event).toList
  | .enqueueBatch events => h.enqueueCalls codec (events.filterMap validateOutboxEvent)
  | .removeSent sent => h.removeCalls codec sent
  | .applySessionAttributes sessionID attributes => h.patchCalls codec sessionID attributes
  | .touch => if h.outbox.closed then [] else h.loadCalls codec
  | .close => []

end OutboxHost

/-! ### Runs with kills -/

structure OutboxProcess where
  host : OutboxHost
  temp : Bytes := []

namespace OutboxProcess
variable (codec : EventCodec)

def files (p : OutboxProcess) : FilePair UInt8 := { file := p.host.disk.content, temp := p.temp }

inductive Label where
  | call (op : OutboxHost.Op)
  | killed (op : OutboxHost.Op)
  | reopened

/-- An upload takes its batch from a loaded queue, so what is removed was loaded. -/
def Started (op : OutboxHost.Op) (p : OutboxProcess) : Prop :=
  match op with
  | .removeSent _ => p.host.outbox.loaded = true
  | _ => True

inductive Step (p : OutboxProcess) : Label → OutboxProcess → Prop
  | call (op : OutboxHost.Op) (started : Started op p) :
    Step p (.call op) { host := p.host.apply codec {} op, temp := (p.files.runAll (p.host.calls codec op)).temp }
  | killed (op : OutboxHost.Op) (started : Started op p) (done : List (Syscall UInt8))
      (part : done <+: p.host.calls codec op) :
    Step p (.killed op)
      { host := { disk := .recover (p.files.runAll done).file }, temp := (p.files.runAll done).temp }
  | reopened : Step p .reopened { host := { disk := p.host.disk }, temp := p.temp }

def opened (raw temp : Bytes) : OutboxProcess := { host := { disk := .recover raw }, temp }

def reopen (p : OutboxProcess) : List Event := ((opened p.files.file p.temp).host.loadLocked codec {}).2.outbox.events

end OutboxProcess

/-! ### The capped queue -/

/-- What the outbox is for: a queue of at most `outboxMaxQueued` events that a closed outbox leaves alone. -/
structure CappedQueue where
  events : List Event
  closed : Bool := false

def OutboxHost.Op.appended : OutboxHost.Op → List Event
  | .enqueue event => (validateOutboxEvent event).toList
  | .enqueueBatch events => events.filterMap validateOutboxEvent
  | _ => []

def OutboxProcess.Label.appended : OutboxProcess.Label → List Event
  | .call op | .killed op => op.appended
  | .reopened => []

namespace CappedQueue
open OutboxHost (Op)

def apply (q : CappedQueue) (op : Op) : CappedQueue :=
  if q.closed then q
  else match op with
    | .enqueue _ | .enqueueBatch _ => { q with events := newest (q.events ++ op.appended) }
    | .removeSent sent => { q with events := q.events.filter fun e => !sent.any (·.eventID = e.eventID) }
    | .applySessionAttributes sessionID attributes =>
      { q with events := q.events.map (OutboxHost.patchEvent sessionID attributes) }
    | .touch => q
    | .close => { q with closed := true }

/-- What a kill leaves: the queue before the call or after it, or the queue and some of the events that were being
    appended. -/
inductive Left (q : CappedQueue) (op : Op) : List Event → Prop
  | before : Left q op q.events
  | after : Left q op (q.apply op).events
  | part (n : Nat) (opened : q.closed = false) : Left q op (newest (q.events ++ op.appended.take n))

inductive Step (q : CappedQueue) : OutboxProcess.Label → CappedQueue → Prop
  | call (op : Op) : Step q (.call op) (q.apply op)
  | killed (op : Op) {events : List Event} (left : q.Left op events) : Step q (.killed op) { events }
  | reopened : Step q .reopened { events := q.events }

end CappedQueue

end OpenRung.Telemetry
