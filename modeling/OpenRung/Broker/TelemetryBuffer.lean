import OpenRung.Lib.Table
import OpenRung.Lib.Trace
import OpenRung.Broker.TelemetrySink

/-! The write buffer of the Postgres telemetry sink (`internal/broker/postgres_telemetry.go`, `telemetryAppRollup` in
    `internal/broker/telemetry.go`). A flush takes the buffer, works without the lock and puts back what it could not
    write. Every section under the lock and every statement sent to Postgres is a step. Records and counts carry the
    number of their acceptance, which the code does not have. -/

namespace OpenRung.Broker

def maxTelemetryAppConnectionCount : Int := 100000
def maxTelemetryAppRollupEntries : Int := 10000
def postgresTelemetryInsertChunk : Nat := 500

/-! ### Application counts -/

structure Contribution where
  seq : Nat
  hour : Time
  application : String
  count : Int
  deriving DecidableEq, Repr

structure AppCount where
  total : Int
  parts : List Contribution
  sums : total = (parts.map Contribution.count).sum

namespace AppCount

def one (c : Contribution) : AppCount := ⟨c.count, [c], by simp⟩

instance : Add AppCount where
  add a b := ⟨a.total + b.total, a.parts ++ b.parts, by simp [a.sums, b.sums]⟩

end AppCount

/-- With the number of entries that the rollup had then. -/
structure Discard where
  key : Time × String
  value : AppCount
  entries : Int

/-- `telemetryAppRollup`. An hour has a bucket just while it has an application, so the buckets are one map. -/
structure AppRollup where
  counts : KeyedMap (Time × String) AppCount := ∅
  entries : Int := 0
  evictedEntries : Int := 0

namespace AppRollup

def oldestBefore (r : AppRollup) (hour : Time) : Option Time :=
  ((r.counts.keys.map Prod.fst).filter fun candidate => decide (candidate < hour)).min?

def bucket (r : AppRollup) (hour : Time) : List ((_ : Time × String) × AppCount) :=
  r.counts.entries.filter fun e => decide (e.1.1 = hour)

def evict (r : AppRollup) (oldest : Time) : AppRollup :=
  { counts := r.counts.filter fun key _ => decide (key.1 ≠ oldest)
    entries := r.entries - (r.bucket oldest).length
    evictedEntries := r.evictedEntries + (r.bucket oldest).length }

theorem mem_of_oldestBefore {r : AppRollup} {hour oldest : Time} (found : r.oldestBefore hour = some oldest) :
    (∃ e ∈ r.counts.entries, e.1.1 = oldest) ∧ oldest < hour := by
  obtain ⟨mem, -⟩ := List.min?_eq_some_iff.mp found
  obtain ⟨listed, before⟩ := List.mem_filter.mp mem
  obtain ⟨key, inKeys, first⟩ := List.mem_map.mp listed
  obtain ⟨e, inEntries, same⟩ := List.mem_map.mp (show key ∈ r.counts.entries.map Sigma.fst from inKeys)
  exact ⟨⟨e, inEntries, by rw [same, first]⟩, of_decide_eq_true before⟩

theorem evict_shorter {r : AppRollup} {hour oldest : Time} (found : r.oldestBefore hour = some oldest) :
    (r.evict oldest).counts.entries.length < r.counts.entries.length := by
  obtain ⟨⟨e, mem, same⟩, -⟩ := mem_of_oldestBefore found
  exact List.length_filter_lt_length_iff_exists.mpr ⟨e, mem, by simp [same]⟩

/-- The loop that makes room for an entry of the hour: what it evicts, and whether there is room then. -/
def makeRoom (r : AppRollup) (hour : Time) : AppRollup × List Discard × Bool :=
  if r.entries < maxTelemetryAppRollupEntries then (r, [], true)
  else match _found : r.oldestBefore hour with
    | none => (r, [], false)
    | some oldest =>
      let evicted := (r.bucket oldest).map fun e => { key := e.1, value := e.2, entries := r.entries : Discard }
      let room := makeRoom (r.evict oldest) hour
      (room.1, evicted ++ room.2.1, room.2.2)
termination_by r.counts.entries.length
decreasing_by exact evict_shorter _found

def add (r : AppRollup) (hour : Time) (application : String) (count : AppCount) : AppRollup × List Discard × Bool :=
  if application = "" ∨ count.total ≤ 0 then (r, [], true)
  else match r.counts.lookup (hour, application) with
    | some old => ({ r with counts := r.counts.insert (hour, application) (old + count) }, [], true)
    | none =>
      match r.makeRoom hour with
      | (r, evicted, true) =>
        ({ r with entries := r.entries + 1, counts := r.counts.insert (hour, application) count }, evicted, true)
      | (r, evicted, false) =>
        (r, evicted ++ [{ key := (hour, application), value := count, entries := r.entries }], false)

def rows (r : AppRollup) (order : List (Time × String)) : List ((Time × String) × AppCount) :=
  order.filterMap fun key => (r.counts.lookup key).map fun count => (key, count)

end AppRollup

def telemetryAppConnectionCount (e : TelemetryEvent) : Int :=
  match e.measurements.lookup "connection_count" with
  | none => 1
  | some count => if count ≤ 0 ∨ maxTelemetryAppConnectionCount < count then 1 else count

/-- An application has one budget in a batch. -/
def takeAppCount (used : KeyedMap String Int) (e : TelemetryEvent) : Int × KeyedMap String Int :=
  let before := (used.lookup e.application).getD 0
  let remaining := maxTelemetryAppConnectionCount - before
  if remaining ≤ 0 then (0, used)
  else
    let count := min (telemetryAppConnectionCount e) remaining
    (count, used.insert e.application (before + count))

def truncateHour (t : Time) : Time := t / hour * hour

namespace AppRollup

def prune (r : AppRollup) (cutoff : Time) : AppRollup :=
  let cutoffHour := truncateHour cutoff
  { r with counts := r.counts.filter fun key _ => decide (cutoffHour ≤ key.1)
           entries := r.entries - (r.counts.entries.filter fun e => decide (e.1.1 < cutoffHour)).length }

inductive Call where
  | add (hour : Time) (application : String) (count : Int)
  | prune (cutoff : Time)
  deriving DecidableEq

def call (r : AppRollup) (n : Nat) : Call → AppRollup × Bool
  | .add hour application count =>
    let added := r.add hour application (.one { seq := n, hour, application, count })
    (added.1, added.2.2)
  | .prune cutoff => (r.prune cutoff, true)

def after (calls : List Call) : AppRollup := calls.zipIdx.foldl (fun r next => (r.call next.2 next.1).1) {}

end AppRollup

def telemetryAppRollupHour (r : TelemetryRecord) (now : Time) : Time :=
  if retentionTime r ≠ zeroTime then truncateHour (retentionTime r) else truncateHour now

/-! ### The buffer -/

structure BufferedRecord where
  seq : Nat
  record : TelemetryRecord
  bytes : Int

def bufferedBytes (records : List BufferedRecord) : Int := (records.map BufferedRecord.bytes).sum

inductive FlushPhase where
  | idle
  | inserting (batch : List BufferedRecord) (batchBytes : Int) (left : List BufferedRecord) (counts : AppRollup)
  | restoring (batch : List BufferedRecord) (batchBytes : Int) (counts : AppRollup)
  | counting (counts : AppRollup)
  | upserting (counts : AppRollup) (left : List ((Time × String) × AppCount))
  | merging (counts : AppRollup)

structure Trim where
  buffer : List BufferedRecord
  count : Nat

structure TelemetryBuffer where
  pending : List BufferedRecord := []
  pendingBytes : Int := 0
  pendingLimit : Int
  pendingAppCounts : AppRollup := {}
  closed : Bool := false
  phase : FlushPhase := .idle
  rows : List BufferedRecord := []
  appCounts : KeyedMap (Time × String) AppCount := ∅
  accepted : List BufferedRecord := []
  counted : List Contribution := []
  trims : List Trim := []
  discards : List Discard := []

namespace TelemetryBuffer

def recordSize (codec : RecordCodec) (r : TelemetryRecord) : Int :=
  match codec.marshal r with
  | some line => line.length + 1
  | none => r.sourceIP.utf8ByteSize + r.event.eventID.utf8ByteSize

/-- Count an application event. An event without an application, or beyond the budget of its batch, counts nothing. -/
def countApp (s : TelemetryBuffer) (hour : Time) (application : String) (count : Int) : TelemetryBuffer :=
  let c : Contribution := { seq := s.counted.length, hour, application, count }
  let added := s.pendingAppCounts.add hour application (.one c)
  { s with
    pendingAppCounts := added.1
    discards := s.discards ++ added.2.1
    counted := if application = "" ∨ count ≤ 0 then s.counted else s.counted ++ [c] }

def writeRecord (codec : RecordCodec) (now : Time) (acc : TelemetryBuffer × KeyedMap String Int)
    (r : TelemetryRecord) : TelemetryBuffer × KeyedMap String Int :=
  let s := acc.1
  if r.event.event = telemetryAppConnectionEvent then
    let taken := takeAppCount acc.2 r.event
    (s.countApp (telemetryAppRollupHour r now) r.event.application taken.1, taken.2)
  else
    let stored : BufferedRecord := { seq := s.accepted.length, record := r, bytes := recordSize codec r }
    ({ s with pending := s.pending ++ [stored], pendingBytes := s.pendingBytes + stored.bytes
              accepted := s.accepted ++ [stored] }, acc.2)

/-- `WriteTelemetry` under the lock; a closed sink refuses. -/
def writeTelemetry (codec : RecordCodec) (s : TelemetryBuffer) (now : Time) (records : List TelemetryRecord) :
    TelemetryBuffer :=
  if s.closed then s else (records.foldl (writeRecord codec now) (s, ∅)).1

def steal (s : TelemetryBuffer) : TelemetryBuffer :=
  let batch := s.pending
  let counts := s.pendingAppCounts
  { s with
    pending := [], pendingBytes := 0, pendingAppCounts := {}
    phase :=
      if batch = [] ∧ counts.entries = 0 then .idle
      else if batch ≠ [] then .inserting batch s.pendingBytes batch counts
      else .counting counts }

def dropCount (limit : Int) : Int → List BufferedRecord → Nat
  | _, [] => 0
  | bytes, stored :: records => if bytes > limit then dropCount limit (bytes - stored.bytes) records + 1 else 0

/-- Put a batch back in front of what was written meanwhile, and drop the oldest over the cap. -/
def restore (s : TelemetryBuffer) (batch : List BufferedRecord) (batchBytes : Int) (counts : AppRollup) :
    TelemetryBuffer :=
  let buffer := batch ++ s.pending
  let bytes := s.pendingBytes + batchBytes
  let count := dropCount s.pendingLimit bytes buffer
  { s with
    pending := buffer.drop count
    pendingBytes := bytes - bufferedBytes (buffer.take count)
    trims := s.trims ++ [{ buffer, count }]
    phase := .counting counts }

def upsertRow (table : KeyedMap (Time × String) AppCount) (row : (Time × String) × AppCount) :
    KeyedMap (Time × String) AppCount := Table.upsert row.1 row.2 (· + row.2) table

def mergeRow (s : TelemetryBuffer) (row : (Time × String) × AppCount) : TelemetryBuffer :=
  let added := s.pendingAppCounts.add row.1.1 row.1.2 row.2
  { s with pendingAppCounts := added.1, discards := s.discards ++ added.2.1 }

/-- How a statement ends: done, failed, or done with an answer that got lost. -/
inductive Statement where
  | ok
  | failed
  | lost
  deriving DecidableEq, Repr

inductive Label where
  | write (now : Time) (records : List TelemetryRecord)
  | close
  | flush
  | insert (outcome : Statement)
  | restore
  | count (order : List (Time × String))
  | upsert (outcome : Statement)
  | merge (order : List (Time × String))

def Ranges (counts : AppRollup) (order : List (Time × String)) : Prop := order.Perm counts.counts.keys

instance (counts : AppRollup) (order : List (Time × String)) : Decidable (Ranges counts order) :=
  inferInstanceAs (Decidable (List.Perm _ _))

def step (codec : RecordCodec) (s : TelemetryBuffer) : Label → Option TelemetryBuffer
  | .write now records => some (s.writeTelemetry codec now records)
  | .close => some { s with closed := true }
  | .flush =>
    match s.phase with
    | .idle => some s.steal
    | _ => none
  | .insert outcome =>
    match s.phase with
    | .inserting batch batchBytes left counts =>
      let rows := if outcome = .failed then s.rows else s.rows ++ left.take postgresTelemetryInsertChunk
      let left := left.drop postgresTelemetryInsertChunk
      some { s with rows, phase :=
        if outcome ≠ .ok then .restoring batch batchBytes counts
        else if left = [] then .counting counts
        else .inserting batch batchBytes left counts }
    | _ => none
  | .restore =>
    match s.phase with
    | .restoring batch batchBytes counts => some (s.restore batch batchBytes counts)
    | _ => none
  | .count order =>
    match s.phase with
    | .counting counts =>
      if Ranges counts order then
        some { s with phase := if counts.entries > 0 then .upserting counts (counts.rows order) else .idle }
      else none
    | _ => none
  | .upsert outcome =>
    match s.phase with
    | .upserting counts left =>
      let appCounts :=
        if outcome = .failed then s.appCounts else (left.take postgresTelemetryInsertChunk).foldl upsertRow s.appCounts
      let left := left.drop postgresTelemetryInsertChunk
      some { s with appCounts, phase :=
        if outcome ≠ .ok then .merging counts else if left = [] then .idle else .upserting counts left }
    | _ => none
  | .merge order =>
    match s.phase with
    | .merging counts =>
      if Ranges counts order then some { (counts.rows order).foldl mergeRow s with phase := .idle } else none
    | _ => none

end TelemetryBuffer

end OpenRung.Broker
