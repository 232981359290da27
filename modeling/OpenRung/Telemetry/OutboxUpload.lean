import Mathlib.Logic.Relation
import OpenRung.Telemetry.OutboxCrash

/-! The uploads of an outbox. `FlushNextBatch` and `SendHeartbeat` choose a batch under the lock, discard what fits no
    request, post the batch without the lock, and remove it afterwards by its event ids. Each part that holds the lock
    is one step; the file operations succeed. -/

namespace OpenRung.Telemetry

def outboxBatchSize : Int := 200
def maxTelemetryBodyBytes : Int := 512 * 1024
def outboxBatchByteBudget : Int := maxTelemetryBodyBytes - 1024
def applicationCountKey : String := "connection_count"
def maxReportedFlows : Int := 100000

/-! ### The choice of a batch -/

def applicationConnectionCount (e : Event) : Int :=
  match e.measurements.lookup applicationCountKey with
  | none => 1
  | some count => if count < 1 ∨ count > maxReportedFlows then 1 else count

structure Selection where
  batch : List Event := []
  oversized : List Event := []
  representedByApplication : KeyedMap String Int := ∅
  deferredApplications : List String := []
  totalBytes : Int := 0

def selectEvents (codec : EventCodec) (first : Event) (limit byteBudget : Int) : List Event → Selection → Selection
  | [], s => s
  | event :: rest, s =>
    if event.clientID ≠ first.clientID ∨ event.sessionID ≠ first.sessionID then s
    else if s.batch.length ≥ limit then s
    else match codec.marshal event with
      | none => selectEvents codec first limit byteBudget rest { s with oversized := s.oversized ++ [event] }
      | some line =>
        let size : Int := line.length + 1
        if size > byteBudget then
          selectEvents codec first limit byteBudget rest { s with oversized := s.oversized ++ [event] }
        else if s.totalBytes + size > byteBudget then s
        else if event.event ≠ applicationConnectionEvent then
          selectEvents codec first limit byteBudget rest
            { s with batch := s.batch ++ [event], totalBytes := s.totalBytes + size }
        else if event.application ∈ s.deferredApplications then selectEvents codec first limit byteBudget rest s
        else
          let count := applicationConnectionCount event
          let used := (s.representedByApplication.lookup event.application).getD 0
          if count > maxReportedFlows - used then
            selectEvents codec first limit byteBudget rest
              { s with deferredApplications := event.application :: s.deferredApplications }
          else
            selectEvents codec first limit byteBudget rest { s with
              batch := s.batch ++ [event]
              representedByApplication := s.representedByApplication.insert event.application (used + count)
              totalBytes := s.totalBytes + size }

def outboxUploadBatch (codec : EventCodec) (events : List Event) (limit byteBudget : Int) : List Event × List Event :=
  match events with
  | [] => ([], [])
  | first :: _ =>
    if limit ≤ 0 then ([], [])
    else
      let s := selectEvents codec first limit byteBudget events {}
      (s.batch, s.oversized)

/-! ### Uploads -/

inductive UploadKind where
  | flush
  | heartbeat (event : Event)
  deriving DecidableEq

/-- `pending` is what it returns if the queue does not change. -/
inductive Upload where
  | discarding (kind : UploadKind) (batch oversized : List Event)
  | sending (kind : UploadKind) (batch : List Event) (pending : Nat)
  deriving DecidableEq

/-- What `post` returns: success, `ErrBatchRejected`, or another error. -/
inductive SendResult where
  | sent
  | rejected
  | failed

inductive UploadError where
  | closed
  | invalidEvent
  | rejected
  | failed

structure UploadAnswer where
  sent : Nat
  pending : Nat
  err : Option UploadError := none

/-- A heartbeat takes only what has its own identity, and it rides in the same request. -/
def UploadKind.choose (codec : EventCodec) (events : List Event) : UploadKind → List Event × List Event
  | .flush => outboxUploadBatch codec events outboxBatchSize outboxBatchByteBudget
  | .heartbeat beat =>
    match events with
    | [] => ([], [])
    | first :: _ =>
      if first.clientID = beat.clientID ∧ first.sessionID = beat.sessionID then
        let budget := match codec.marshal beat with
          | some line => outboxBatchByteBudget - (line.length + 1)
          | none => outboxBatchByteBudget
        outboxUploadBatch codec events (outboxBatchSize - 1) budget
      else ([], [])

structure Uploads where
  host : OutboxHost
  flights : List Upload := []
  answers : List UploadAnswer := []

namespace Uploads
variable (codec : EventCodec)

def answer (a : UploadAnswer) (w : Uploads) : Uploads := { w with answers := w.answers ++ [a] }

/-- A flush without a batch is over. -/
def proceed (kind : UploadKind) (batch : List Event) (pending : Nat) (w : Uploads) : Uploads :=
  match kind, batch with
  | .flush, [] => w.answer { sent := 0, pending }
  | _, _ => { w with flights := .sending kind batch pending :: w.flights }

def start (kind : UploadKind) (w : Uploads) : Uploads :=
  if w.host.outbox.closed then w.answer { sent := 0, pending := 0, err := some .closed }
  else
    let host := (w.host.loadLocked codec {}).2
    let (batch, oversized) := kind.choose codec host.outbox.events
    if oversized ≠ [] then { w with host, flights := .discarding kind batch oversized :: w.flights }
    else proceed kind batch host.outbox.events.length { w with host }

def flushNextBatch (w : Uploads) : Uploads := w.start codec .flush

def sendHeartbeat (heartbeat : Event) (w : Uploads) : Uploads :=
  match validateOutboxEvent heartbeat with
  | none =>
    let host := w.host.touch codec {}
    let pending := if w.host.outbox.closed then 0 else host.outbox.events.length
    answer { sent := 0, pending, err := some .invalidEvent } { w with host }
  | some heartbeat => w.start codec (.heartbeat heartbeat)

def discard (kind : UploadKind) (batch oversized : List Event) (w : Uploads) : Uploads :=
  let host := w.host.removeSent codec {} oversized
  proceed kind batch host.outbox.events.length { w with host }

/-- A heartbeat removes nothing unless the broker accepted it. -/
def finish (kind : UploadKind) (batch : List Event) (pending : Nat) (result : SendResult) (w : Uploads) : Uploads :=
  let host := w.host.removeSent codec {} batch
  match kind, result with
  | .flush, .sent => answer { sent := batch.length, pending := host.outbox.events.length } { w with host }
  | .flush, .rejected => answer { sent := 0, pending := host.outbox.events.length, err := some .rejected } { w with host }
  | .heartbeat _, .sent =>
    if batch = [] then w.answer { sent := 1, pending }
    else answer { sent := batch.length + 1, pending := host.outbox.events.length } { w with host }
  | .heartbeat _, .rejected => w.answer { sent := 0, pending, err := some .rejected }
  | _, .failed => w.answer { sent := 0, pending, err := some .failed }

inductive Label where
  | call (op : OutboxHost.Op)
  | flush
  | heartbeat (event : Event)
  | discard (oversized : List Event)
  | finish (kind : UploadKind) (batch : List Event) (result : SendResult)

inductive Step (w : Uploads) : Label → Uploads → Prop
  | call (op : OutboxHost.Op) (own : ∀ sent, op ≠ .removeSent sent) :
    Step w (.call op) { w with host := w.host.apply codec {} op }
  | flush : Step w .flush (w.flushNextBatch codec)
  | heartbeat (event : Event) : Step w (.heartbeat event) (w.sendHeartbeat codec event)
  | discard {before after : List Upload} {kind : UploadKind} {batch oversized : List Event}
      (flying : w.flights = before ++ .discarding kind batch oversized :: after) :
    Step w (.discard oversized) (discard codec kind batch oversized { w with flights := before ++ after })
  | finish {before after : List Upload} {kind : UploadKind} {batch : List Event} {pending : Nat}
      (flying : w.flights = before ++ .sending kind batch pending :: after) (result : SendResult) :
    Step w (.finish kind batch result) (finish codec kind batch pending result { w with flights := before ++ after })

def opened (raw : Bytes) : Uploads := { host := { disk := .recover raw } }

def runDiscard (w : Uploads) : Uploads :=
  match w.flights with
  | .discarding kind batch oversized :: flights => discard codec kind batch oversized { w with flights }
  | _ => w

def runSend (w : Uploads) : Uploads :=
  match w.flights with
  | .sending kind batch pending :: flights => finish codec kind batch pending .sent { w with flights }
  | _ => w

/-- A whole `FlushNextBatch` against a broker that accepts every batch, without another upload under way. -/
def flushAccepted (h : OutboxHost) : Uploads := (flushNextBatch codec { host := h }).runDiscard codec |>.runSend codec

/-- The loop of `Manager.Flush`, with a bound on the calls: it ends at an error or when nothing is pending. -/
def drain : Nat → OutboxHost → Option OutboxHost
  | 0, _ => none
  | calls + 1, h =>
    let w := flushAccepted codec h
    if w.answers.all fun a => a.err.isNone && a.pending ≠ 0 then drain calls w.host else some w.host

end Uploads

/-! ### What becomes of an event -/

/-- The queue of an outbox: what it holds in memory, or what it will load. -/
def OutboxHost.memory (codec : EventCodec) (h : OutboxHost) : CappedQueue where
  events := if h.outbox.loaded then h.outbox.events else (readOutbox codec h.disk.content).events
  closed := h.outbox.closed

/-- `Merged e e'`: `e'` is the event `e` after attribute merges for its own session. -/
def Merged : Event → Event → Prop :=
  Relation.ReflTransGen fun e e' => ∃ attributes, e' = OutboxHost.patchEvent e.sessionID attributes e

namespace Uploads
variable (codec : EventCodec)

def queue (w : Uploads) : List Event := (w.host.memory codec).events

def Label.appended : Label → List Event
  | .call op => op.appended
  | _ => []

def accepted (w : Uploads) : Label → List Event
  | .call (.enqueue event) => if (w.host.enqueue codec {} event).1 then (validateOutboxEvent event).toList else []
  | .call (.enqueueBatch events) =>
    if (w.host.enqueueBatch codec {} events).1 > 0 then events.filterMap validateOutboxEvent else []
  | _ => []

inductive Departs (w : Uploads) : Label → Event → Prop
  | sent {kind : UploadKind} {batch : List Event} {b e : Event}
      (chosen : ∃ events, (kind.choose codec events).1 = batch) (mem : b ∈ batch) (same : Merged b e) :
    Departs w (.finish kind batch .sent) e
  | rejected {batch : List Event} {b e : Event}
      (chosen : ∃ events, (UploadKind.flush.choose codec events).1 = batch) (mem : b ∈ batch) (same : Merged b e) :
    Departs w (.finish .flush batch .rejected) e
  | oversized {kind : UploadKind} {oversized : List Event} {b e : Event}
      (chosen : ∃ events, (kind.choose codec events).2 = oversized) (mem : b ∈ oversized) (same : Merged b e) :
    Departs w (.discard oversized) e
  | evicted {label : Label} {e : Event}
      (oldest : e ∈ (w.queue codec ++ label.appended).take ((w.queue codec ++ label.appended).length - outboxMaxQueued)) :
    Departs w label e

end Uploads

end OpenRung.Telemetry
