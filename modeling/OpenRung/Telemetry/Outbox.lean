import OpenRung.Lib.Decimal
import OpenRung.Lib.Disk
import OpenRung.Broker.Lease

/-! The client's telemetry outbox (`connectcore/clienttelemetry/outbox.go`): a queue in memory and its file of one
    event a line. Every file operation has an outcome (`OutboxIO`). The JSON codec is a parameter (`EventCodec`). -/

namespace OpenRung.Telemetry

structure Event where
  schemaVersion : Int := 1
  eventID : String
  event : String
  occurredAt : Time := 0
  clientID : String
  sessionID : String
  relayID : String := ""
  application : String := ""
  applicationID : Int := 0
  attributes : KeyedMap String String := ∅
  measurements : KeyedMap String Int := ∅
  deriving DecidableEq

/-- What `outboxLineNeedsScrub` probes a stored line for: the number of attributes, and the removed fields. -/
structure Probe where
  attributes : Nat
  destinationIP : Bool
  destinationPort : Bool
  protocol : Bool

/-- `marshal` fails on what JSON cannot hold, such as a year beyond 9999; `elements` are the elements of an array up
    to the first that does not decode; `blank` is an empty `TrimSpace`. A marshalled event is one line, starts no
    array, and is read back. -/
structure EventCodec where
  marshal : Event → Option Bytes
  unmarshal : Bytes → Option Event
  probe : Bytes → Option Probe
  elements : Bytes → List Bytes
  blank : Bytes → Bool
  unmarshal_marshal : ∀ e line, marshal e = some line → unmarshal line = some e
  one_line : ∀ e line, marshal e = some line → 10 ∉ line
  not_blank : ∀ e line, marshal e = some line → blank line = false
  no_array : ∀ e line, marshal e = some line → line.head? ≠ some 91
  blank_nil : blank [] = true

def outboxMaxQueued : Nat := 500
def outboxCompactThreshold : Nat := 2 * outboxMaxQueued
def applicationConnectionEvent : String := "application_connection"

/-! ### Events -/

def sanitizeOutboxEvent (e : Event) : Event :=
  if e.event = applicationConnectionEvent ∧ e.attributes.entries ≠ [] then { e with attributes := ∅ } else e

def validateOutboxEvent (e : Event) : Option Event :=
  if e.eventID = "" ∨ e.event = "" ∨ e.clientID = "" ∨ e.sessionID = "" then none else some (sanitizeOutboxEvent e)

def decodeOutboxEvent (codec : EventCodec) (line : Bytes) : Option Event :=
  (codec.unmarshal line).bind validateOutboxEvent

def outboxLineNeedsScrub (codec : EventCodec) (line : Bytes) (e : Event) : Bool :=
  match codec.probe line with
  | none => false
  | some p => p.destinationIP || p.destinationPort || p.protocol || (e.event = applicationConnectionEvent && p.attributes > 0)

def newest (events : List Event) : List Event := events.drop (events.length - outboxMaxQueued)

/-! ### The file -/

structure OutboxContents where
  events : List Event
  dirty : Bool

def readOutbox (codec : EventCodec) (raw : Bytes) : OutboxContents :=
  if raw.head? = some 91 then
    let parsed := (codec.elements raw).filterMap (decodeOutboxEvent codec)
    { events := newest (parsed.map sanitizeOutboxEvent), dirty := true }
  else
    let lines := (raw.splitOn 10).filter fun line => !codec.blank line
    let parsed := lines.filterMap (decodeOutboxEvent codec)
    let scrub := lines.any fun line => (decodeOutboxEvent codec line).any (outboxLineNeedsScrub codec line)
    let events := newest (parsed.map sanitizeOutboxEvent)
    { events, dirty := raw.getLast? ≠ some 10 || scrub || lines.length ≠ events.length }

/-- An event that does not marshal is skipped. -/
def outboxLines (codec : EventCodec) (events : List Event) : Bytes :=
  (events.filterMap codec.marshal).flatMap (· ++ [10])

/-! ### Calls -/

structure Outbox where
  locked : Bool := false
  loaded : Bool := false
  events : List Event := []
  fileLines : Nat := 0
  closed : Bool := false

/-- `append` is `some k` if the append fails after `k` bytes, and `repair` is the rewrite at the end of a load. -/
structure OutboxIO where
  lock : Bool := true
  read : Bool := true
  repair : Bool := true
  append : Option Nat := none
  rewrite : Bool := true
  sync : Bool := true

/-- An outbox and the disk that holds its file. A file that does not exist is an empty one. -/
structure OutboxHost where
  outbox : Outbox := {}
  disk : Disk UInt8

namespace OutboxHost
variable (codec : EventCodec)

/-- The temporary file replaces the outbox file, or nothing changes. -/
def rewriteLocked (ok : Bool) (h : OutboxHost) : Bool × OutboxHost :=
  if ok then
    (true, { outbox := { h.outbox with fileLines := h.outbox.events.length }
             disk := h.disk.rename (outboxLines codec h.outbox.events) })
  else (false, h)

def loadLocked (io : OutboxIO) (h : OutboxHost) : Bool × OutboxHost :=
  if h.outbox.loaded then (true, h)
  else if !h.outbox.locked && !io.lock then (false, h)
  else
    let h := { h with outbox := { h.outbox with locked := true } }
    if !io.read then (false, h)
    else if h.disk.content = [] then
      (true, { h with outbox := { h.outbox with loaded := true, events := [], fileLines := 0 } })
    else
      let found := readOutbox codec h.disk.content
      let unloaded := { h with outbox := { h.outbox with loaded := false, events := [], fileLines := 0 } }
      let h := { h with outbox :=
        { h.outbox with loaded := true, events := found.events, fileLines := found.events.length } }
      if found.dirty then
        let (rewritten, h) := h.rewriteLocked codec io.repair
        if rewritten then (true, h) else (false, unloaded)
      else (true, h)

def appendLocked (io : OutboxIO) (events : List Event) (h : OutboxHost) : Bool × OutboxHost :=
  let h := { h with outbox := { h.outbox with events := newest (h.outbox.events ++ events) } }
  match events.mapM codec.marshal with
  | none => h.rewriteLocked codec io.rewrite
  | some lines =>
    let bytes := lines.flatMap (· ++ [10])
    let written := match io.append with
      | none => bytes
      | some k => bytes.take k
    let h : OutboxHost :=
      { outbox := { h.outbox with fileLines := h.outbox.fileLines + events.length }, disk := h.disk.append written }
    if io.append.isSome ∨ h.outbox.fileLines > outboxCompactThreshold then h.rewriteLocked codec io.rewrite
    else (true, h)

def enqueue (io : OutboxIO) (event : Event) (h : OutboxHost) : Bool × OutboxHost :=
  match validateOutboxEvent event with
  | none => (false, h)
  | some event =>
    if h.outbox.closed then (false, h)
    else
      let (loaded, h) := h.loadLocked codec io
      if loaded then (true, (h.appendLocked codec io [event]).2) else (false, h)

/-- The number of events accepted, 0 if there is none to accept, -1 if they are not durable. -/
def enqueueBatch (io : OutboxIO) (events : List Event) (h : OutboxHost) : Int × OutboxHost :=
  let valid := events.filterMap validateOutboxEvent
  if valid = [] then (0, h)
  else if h.outbox.closed then (-1, h)
  else
    let (loaded, h) := h.loadLocked codec io
    if !loaded then (-1, h)
    else
      let (appended, h) := h.appendLocked codec io valid
      if !appended then (-1, h)
      else if !io.sync then (-1, h)
      else (valid.length, { h with disk := h.disk.sync })

def removeSent (io : OutboxIO) (sent : List Event) (h : OutboxHost) : OutboxHost :=
  if h.outbox.closed then h
  else
    let isSent := fun e : Event => sent.any (·.eventID = e.eventID)
    let kept := { h with outbox := { h.outbox with events := h.outbox.events.filter fun e => !isSent e } }
    if h.outbox.events.any isSent then (kept.rewriteLocked codec io.rewrite).2 else kept

/-- The new values win. A missing attribute reads as "". -/
def patchEvent (sessionID : String) (attributes : KeyedMap String String) (e : Event) : Event :=
  if e.sessionID ≠ sessionID ∨ e.event = applicationConnectionEvent then e
  else
    let merged := attributes.entries.foldl (fun m kv => if (m.lookup kv.1).getD "" ≠ kv.2 then m.insert kv.1 kv.2 else m)
      e.attributes
    { e with attributes := merged }

def applySessionAttributes (io : OutboxIO) (sessionID : String) (attributes : KeyedMap String String) (h : OutboxHost) :
    Bool × OutboxHost :=
  if sessionID = "" ∨ attributes.entries = [] then (false, h)
  else if h.outbox.closed then (false, h)
  else
    let (loaded, h) := h.loadLocked codec io
    if !loaded then (false, h)
    else
      let patched := h.outbox.events.map (patchEvent sessionID attributes)
      let changed : Bool := patched ≠ h.outbox.events
      let h := { h with outbox := { h.outbox with events := patched } }
      if changed then (true, (h.rewriteLocked codec io.rewrite).2) else (false, h)

def touch (io : OutboxIO) (h : OutboxHost) : OutboxHost := if h.outbox.closed then h else (h.loadLocked codec io).2

def close (h : OutboxHost) : OutboxHost := { h with outbox := { h.outbox with closed := true, locked := false } }

/-- A call on the outbox. An upload is a `touch` and, when it ends, a `removeSent`. -/
inductive Op where
  | enqueue (event : Event)
  | enqueueBatch (events : List Event)
  | removeSent (sent : List Event)
  | applySessionAttributes (sessionID : String) (attributes : KeyedMap String String)
  | touch
  | close

def apply (h : OutboxHost) (io : OutboxIO) : Op → OutboxHost
  | .enqueue event => (h.enqueue codec io event).2
  | .enqueueBatch events => (h.enqueueBatch codec io events).2
  | .removeSent sent => h.removeSent codec io sent
  | .applySessionAttributes sessionID attributes => (h.applySessionAttributes codec io sessionID attributes).2
  | .touch => h.touch codec io
  | .close => h.close

inductive Reachable (start : Disk UInt8) : OutboxHost → Prop
  | opened : Reachable start { disk := start }
  | call {h : OutboxHost} (io : OutboxIO) (op : Op) : Reachable start h → Reachable start (h.apply codec io op)

end OutboxHost

end OpenRung.Telemetry
