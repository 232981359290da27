import OpenRung.Lib.Budget
import OpenRung.Lib.Decimal
import OpenRung.Lib.Lines
import OpenRung.Broker.Lease

/-! The broker's JSONL telemetry sink (`internal/broker/telemetry.go`): records in memory under a byte budget, and a
    file that is appended to through a buffer and compacted by a rename. The outcomes of the file operations are
    inputs (`SinkIO`), and so is the JSON codec (`RecordCodec`). -/

namespace OpenRung.Broker

def zeroTime : Time := -62135596800 * second

structure TelemetryEvent where
  schemaVersion : Int := 1
  eventID : String
  event : String
  occurredAt : Time := zeroTime
  clientID : String
  sessionID : String
  relayID : String := ""
  application : String := ""
  applicationID : Int := 0
  destinationIP : String := ""
  destinationPort : Int := 0
  protocol : String := ""
  attributes : KeyedMap String String := ∅
  measurements : KeyedMap String Int := ∅
  deriving DecidableEq

structure TelemetryRecord where
  receivedAt : Time := zeroTime
  sourceIP : String := ""
  relayNodeClass : String := ""
  event : TelemetryEvent
  deriving DecidableEq

/-- An encoded record is one line without a carriage return, it is read back, and no proper part of its beginning is a
    record. -/
structure RecordCodec where
  marshal : TelemetryRecord → Option Bytes
  unmarshal : Bytes → Option TelemetryRecord
  unmarshal_marshal : ∀ r line, marshal r = some line → unmarshal line = some r
  one_line : ∀ r line, marshal r = some line → 10 ∉ line ∧ 13 ∉ line
  no_part : ∀ r line part, marshal r = some line → part <+: line → part ≠ line → unmarshal part = none

def maxTelemetryBodyBytes : Nat := 512 * 1024

/-- The size of the line buffer of the loader. It has to hold a line and its newline. -/
def maxTelemetryLine : Nat := maxTelemetryBodyBytes * 2

def telemetryRetention : Duration := 7 * 24 * hour
def telemetryAppConnectionEvent : String := "application_connection"

inductive SinkError where
  | closed
  | write
  | encode
  | compact
  | decode (line : Nat)
  | tooLong
  deriving DecidableEq, Repr

/-- The time that retention goes by: the receipt, and for a legacy record without one the event's own time. -/
def retentionTime (r : TelemetryRecord) : Time := if r.receivedAt ≠ zeroTime then r.receivedAt else r.event.occurredAt

/-! ### Records in memory -/

structure StoredRecord where
  record : TelemetryRecord
  bytes : Nat

structure Retained where
  records : List StoredRecord := []
  memoryBytes : Nat := 0
  memoryLimit : Nat

namespace Retained

def append (m : Retained) (record : TelemetryRecord) (size : Nat) : Retained :=
  { m with records := m.records ++ [{ record, bytes := size }], memoryBytes := m.memoryBytes + size }

def prune (m : Retained) (cutoff : Time) : Retained :=
  let expired := fun stored : StoredRecord => decide (retentionTime stored.record < cutoff)
  { m with
    records := m.records.filter fun stored => !expired stored
    memoryBytes := m.memoryBytes - ((m.records.filter expired).map StoredRecord.bytes).sum }

def dropOldest (limit : Nat) : Nat → List StoredRecord → Nat × List StoredRecord
  | memoryBytes, [] => (memoryBytes, [])
  | memoryBytes, stored :: records =>
    if memoryBytes > limit then dropOldest limit (memoryBytes - stored.bytes) records
    else (memoryBytes, stored :: records)

def dropOldestOverBudget (m : Retained) : Retained :=
  let kept := dropOldest m.memoryLimit m.memoryBytes m.records
  { m with memoryBytes := kept.1, records := kept.2 }

/-- The records that `dropOldestOverBudget` slides to the front, if it drops any. -/
def shifts (m : Retained) : Nat :=
  let kept := (dropOldest m.memoryLimit m.memoryBytes m.records).2
  if kept.length = m.records.length then 0 else kept.length

end Retained

/-! ### Loading -/

def dropCR (line : Bytes) : Bytes := if line.getLast? = some 13 then line.dropLast else line

/-- The loop of `loadRecent` from line number `n` on. The flag asks for a compaction, since the file holds rows that
    must not be kept. In the loop the memory is trimmed only when it is twice over its limit. -/
def loadLines (codec : RecordCodec) (cutoff : Time) :
    Nat → List Bytes → Retained × Bool → Except SinkError (Retained × Bool)
  | _, [], acc => .ok acc
  | n, raw :: lines, (m, privacy) =>
    if maxTelemetryLine ≤ raw.length then .error .tooLong
    else match codec.unmarshal (dropCR raw) with
      | none => .error (.decode n)
      | some record =>
        if record.event.event = telemetryAppConnectionEvent then loadLines codec cutoff (n + 1) lines (m, true)
        else if retentionTime record < cutoff then loadLines codec cutoff (n + 1) lines (m, privacy)
        else
          let m := m.append record ((dropCR raw).length + 1)
          let m := if m.memoryBytes > 2 * m.memoryLimit then m.dropOldestOverBudget else m
          loadLines codec cutoff (n + 1) lines (m, privacy)

def Retained.load (acc : Retained × Nat) (stored : StoredRecord) : Retained × Nat :=
  let m := acc.1.append stored.record stored.bytes
  if m.memoryBytes > 2 * m.memoryLimit then (m.dropOldestOverBudget, acc.2 + m.shifts) else (m, acc.2)

def eligible (codec : RecordCodec) (cutoff : Time) (lines : List Bytes) : List StoredRecord :=
  lines.filterMap fun raw => (codec.unmarshal (dropCR raw)).bind fun record =>
    if record.event.event = telemetryAppConnectionEvent ∨ retentionTime record < cutoff then none
    else some { record, bytes := (dropCR raw).length + 1 }

def loadRecent (codec : RecordCodec) (memoryLimit : Nat) (now : Time) (content : Bytes) :
    Except SinkError (Retained × Bool) :=
  match loadLines codec (now - telemetryRetention) 1 (Lines.lines 10 content) ({ memoryLimit }, false) with
  | .error e => .error e
  | .ok (m, privacy) => .ok (m.dropOldestOverBudget, privacy)

/-! ### The sink -/

/-- The first write that fails, the flush, the sync, everything up to and including the rename of a compaction, and
    the seek after it. -/
structure SinkIO where
  write : Option Nat := none
  flush : Bool := true
  sync : Bool := true
  rename : Bool := true
  seek : Bool := true

/-- With what the file held when it was opened or compacted, and the lines handed to the buffered writer since. -/
structure Sink where
  retained : Retained
  base : Bytes
  appended : List Bytes := []
  fileBytes : Nat
  fileLimit : Nat
  writeErr : Bool := false
  closed : Bool := false

def fileOf (codec : RecordCodec) (records : List TelemetryRecord) : Bytes :=
  (records.filterMap codec.marshal).flatMap (· ++ [10])

namespace Sink
variable (codec : RecordCodec)

def flushLocked (io : SinkIO) (syncDisk : Bool) (s : Sink) : Bool × Sink :=
  if s.writeErr then (false, s)
  else if !io.flush then (false, { s with writeErr := true })
  else if syncDisk && !io.sync then (false, { s with writeErr := true })
  else (true, s)

/-- `compactLocked`: the records in memory become the file. A failed seek comes after the rename. -/
def compactLocked (io : SinkIO) (s : Sink) : Bool × Sink :=
  let (flushed, s) := s.flushLocked io false
  if !flushed then (false, s)
  else match (s.retained.records.map StoredRecord.record).mapM codec.marshal with
    | none => (false, s)
    | some lines =>
      if !io.rename then (false, s)
      else
        let content := lines.flatMap (· ++ [10])
        if !io.seek then (false, { s with base := content, appended := [] })
        else (true, { s with base := content, appended := [], fileBytes := content.length })

def maybeCompactLocked (io : SinkIO) (s : Sink) : Bool × Sink :=
  if s.fileBytes ≤ s.fileLimit ∨ s.retained.memoryBytes ≥ s.fileBytes / 2 then (true, s) else s.compactLocked codec io

def openSink (io : SinkIO) (memoryLimit fileLimit : Nat) (now : Time) (content : Bytes) : Except SinkError Sink :=
  match loadRecent codec memoryLimit now content with
  | .error e => .error e
  | .ok (retained, privacy) =>
    let s : Sink := { retained, base := content, fileBytes := content.length, fileLimit }
    let (compacted, s) := if privacy then s.compactLocked codec io else s.maybeCompactLocked codec io
    if compacted then .ok s else .error .compact

/-- The loop of `WriteTelemetry`. Connection rows are counted elsewhere and never written. -/
def writeRecords : Option Nat → List TelemetryRecord → Sink → Except SinkError Unit × Sink
  | _, [], s => (.ok (), s)
  | fails, record :: records, s =>
    if record.event.event = telemetryAppConnectionEvent then writeRecords fails records s
    else match codec.marshal record with
      | none => (.error .encode, s)
      | some line =>
        let s := { s with appended := s.appended ++ [line] }
        if fails = some 0 then (.error .write, { s with writeErr := true })
        else
          let size := line.length + 1
          writeRecords (fails.map (· - 1)) records
            { s with retained := s.retained.append record size, fileBytes := s.fileBytes + size }

def writeTelemetry (io : SinkIO) (now : Time) (records : List TelemetryRecord) (s : Sink) :
    Except SinkError Unit × Sink :=
  if s.closed then (.error .closed, s)
  else if s.writeErr then (.error .write, s)
  else match writeRecords codec io.write records s with
    | (.error e, s) => (.error e, s)
    | (.ok (), s) =>
      let retained := (s.retained.prune (now - telemetryRetention)).dropOldestOverBudget
      let (compacted, s) := { s with retained }.maybeCompactLocked codec io
      if compacted then (.ok (), s) else (.error .compact, { s with writeErr := true })

def flush (io : SinkIO) (syncDisk : Bool) (s : Sink) : Sink := (s.flushLocked io syncDisk).2

def close (io : SinkIO) (s : Sink) : Sink := ({ s with closed := true }.flushLocked io true).2

/-- A kill loses any number of the last bytes handed to the writer since the file was opened or compacted. -/
def Killed (s : Sink) (content : Bytes) : Prop :=
  s.base <+: content ∧ content <+: s.base ++ s.appended.flatMap (· ++ [10])

/-! ### Runs -/

def handed : Option Nat → List TelemetryRecord → List TelemetryRecord
  | _, [] => []
  | fails, record :: records =>
    if record.event.event = telemetryAppConnectionEvent then handed fails records
    else match codec.marshal record with
      | none => []
      | some _ => if fails = some 0 then [record] else record :: handed (fails.map (· - 1)) records

def Fits (r : TelemetryRecord) : Prop := ∀ line, codec.marshal r = some line → line.length + 1 ≤ maxTelemetryLine

/-- With the log of all records handed to the writer since, after those that the file held, and the latest time read.
    -/
inductive Reachable (memoryLimit fileLimit : Nat) (start : List TelemetryRecord) :
    Sink → List TelemetryRecord → Time → Prop
  | opened {s : Sink} (io : SinkIO) (now : Time)
      (encoded : ∀ r ∈ start, (codec.marshal r).isSome ∧ Fits codec r)
      (opens : openSink codec io memoryLimit fileLimit now (fileOf codec start) = .ok s) :
      Reachable memoryLimit fileLimit start s
        (start.filter fun r => decide (r.event.event ≠ telemetryAppConnectionEvent)) now
  | write {s : Sink} {log : List TelemetryRecord} {latest : Time} (io : SinkIO) (now : Time)
      (records : List TelemetryRecord) (fits : ∀ r ∈ records, Fits codec r)
      (run : Reachable memoryLimit fileLimit start s log latest) :
      Reachable memoryLimit fileLimit start (s.writeTelemetry codec io now records).2
        (log ++ if s.closed || s.writeErr then [] else handed codec io.write records) (max latest now)
  | flush {s : Sink} {log : List TelemetryRecord} {latest : Time} (io : SinkIO) (syncDisk : Bool)
      (run : Reachable memoryLimit fileLimit start s log latest) :
      Reachable memoryLimit fileLimit start (s.flush io syncDisk) log latest
  | close {s : Sink} {log : List TelemetryRecord} {latest : Time} (io : SinkIO)
      (run : Reachable memoryLimit fileLimit start s log latest) :
      Reachable memoryLimit fileLimit start (s.close io) log latest

end Sink

end OpenRung.Broker
