import Mathlib.Logic.Function.Basic
import OpenRung.Broker.Enrollment
import OpenRung.Broker.TelemetrySink

/-! The backfill of the dashboard rollup (`internal/broker/postgres_telemetry.go`): brokers that share one database
    and one clock, started, crashed and started again between any two statements. A transaction shows nothing before
    its commit, and a statement that fails changes nothing. Rows of `telemetry_events` carry a number and their
    origin, which the table does not have. -/

namespace OpenRung.Broker

def instant (column : Int) : Time := column * 1000

def insertReceivedAt (r : TelemetryRecord) (now : Time) : Time :=
  if retentionTime r ≠ zeroTime then retentionTime r else now

def telemetryPartitionDay (t : Time) : Time := t / (24 * hour) * (24 * hour)

def telemetryRollupBackfillChunk : Int := timestamptz hour

/-- An older broker, before the first start of one with the rollup or after it, or one with the rollup, in the
    statement that also folds the row. -/
inductive RowOrigin where
  | early
  | late
  | live
  deriving DecidableEq, Repr

structure EventRow where
  seq : Nat
  receivedAt : Int
  record : TelemetryRecord
  origin : RowOrigin
  deriving DecidableEq

def EventRow.isAppConnection (e : EventRow) : Bool := e.record.event.event = telemetryAppConnectionEvent

structure Chunk where
  start : Int
  stop : Int
  rows : List EventRow

structure RollupState where
  backfillUntil : Int
  backfillDoneThrough : Int

inductive BackfillWorker where
  | waiting
  /-- In the transaction, with the watermark locked and the next range found. -/
  | locked (last start stop : Int)
  /-- The statement has folded the range; `advanced` once the watermark is updated too. -/
  | folded (last : Int) (chunk : Chunk) (advanced : Bool)
  | exited

inductive RollupBroker where
  | opening (days : List Time)
  /-- In `initRollupBackfill`, with the clock read. -/
  | initializing (now : Time)
  | listed (now oldest : Time)
  | recorded
  | serving (received : List TelemetryRecord) (worker : BackfillWorker)

structure RollupSystem where
  clock : Time
  events : List EventRow := []
  partitions : List Time := []
  state : Option RollupState := none
  /-- The broker whose transaction holds the row of the watermark. -/
  lockedBy : Option Nat := none
  brokers : Nat → Option RollupBroker := fun _ => none
  chunks : List Chunk := []
  started : Bool := false
  reported : Bool := false
  next : Nat := 0

namespace RollupSystem

def covers (day : Time) (receivedAt : Int) : Prop :=
  day ≤ instant receivedAt ∧ instant receivedAt < day + 24 * hour

instance (day : Time) (receivedAt : Int) : Decidable (covers day receivedAt) := inferInstanceAs (Decidable (_ ∧ _))

def covered (s : RollupSystem) (receivedAt : Int) : Prop := ∃ day ∈ s.partitions, covers day receivedAt

instance (s : RollupSystem) (receivedAt : Int) : Decidable (s.covered receivedAt) :=
  inferInstanceAs (Decidable (∃ day ∈ s.partitions, covers day receivedAt))

def addRow (s : RollupSystem) (origin : RowOrigin) (receivedAt : Int) (record : TelemetryRecord) : RollupSystem :=
  { s with events := s.events ++ [{ seq := s.next, receivedAt, record, origin }], next := s.next + 1 }

def createPartition (s : RollupSystem) (day : Time) : RollupSystem :=
  if day ∈ s.partitions then s else { s with partitions := s.partitions ++ [day] }

def setBroker (s : RollupSystem) (p : Nat) (b : RollupBroker) : RollupSystem :=
  { s with brokers := Function.update s.brokers p (some b) }

def oldestPartition (now : Time) (days : List Time) : Time :=
  days.foldl (fun oldest day => if day < oldest then day else oldest) now

def backfillRows (s : RollupSystem) (start stop : Int) : List EventRow :=
  s.events.filter fun e => decide (start ≤ e.receivedAt) && decide (e.receivedAt < stop) && !e.isAppConnection

def rollback (s : RollupSystem) (p : Nat) : RollupSystem :=
  { s with lockedBy := if s.lockedBy = some p then none else s.lockedBy }

inductive Label where
  | tick (d : Duration)
  | olderPartition (day : Time)
  | older (receivedAt : Int) (record : TelemetryRecord)
  | drop (day : Time)
  | start (p : Nat)
  | partition (p : Nat) (day : Time)
  | readClock (p : Nat)
  | list (p : Nat)
  | record (p : Nat)
  | read (p : Nat)
  | receive (p : Nat) (record : TelemetryRecord)
  /-- Any records that the broker has received, those of a flush that is tried again among them. -/
  | insert (p : Nat) (records : List TelemetryRecord)
  | lock (p : Nat)
  | fold (p : Nat)
  | advance (p : Nat)
  | commit (p : Nat) (answered : Bool)
  | fail (p : Nat)
  | crash (p : Nat)

def insertLive (s : RollupSystem) (r : TelemetryRecord) : RollupSystem :=
  s.addRow .live (timestamptz (insertReceivedAt r s.clock)) r

def step (s : RollupSystem) : Label → Option RollupSystem
  | .tick d => if 0 ≤ d then some { s with clock := s.clock + d } else none
  | .olderPartition day => some (s.createPartition day)
  | .older receivedAt record =>
    if receivedAt ≤ timestamptz s.clock ∧ s.covered receivedAt then
      some (s.addRow (if s.started then .late else .early) receivedAt record)
    else none
  | .drop day =>
    if day + 24 * hour ≤ s.clock - telemetryRetention then
      some { s with
        partitions := s.partitions.filter (· ≠ day)
        events := s.events.filter fun e => ¬covers day e.receivedAt }
    else none
  | .start p =>
    match s.brokers p with
    | none =>
      let today := s.clock
      some { s.setBroker p (.opening [telemetryPartitionDay today, telemetryPartitionDay (today + 24 * hour)]) with
             started := true }
    | some _ => none
  | .partition p day =>
    match s.brokers p with
    | some (.opening (next :: days)) =>
      if day = next then some ((s.createPartition day).setBroker p (.opening days)) else none
    | some (.serving received _) =>
      if ∃ r ∈ received, day = telemetryPartitionDay (insertReceivedAt r s.clock) then some (s.createPartition day)
      else none
    | _ => none
  | .readClock p =>
    match s.brokers p with
    | some (.opening []) => some (s.setBroker p (.initializing s.clock))
    | _ => none
  | .list p =>
    match s.brokers p with
    | some (.initializing now) => some (s.setBroker p (.listed now (oldestPartition now s.partitions)))
    | _ => none
  | .record p =>
    match s.brokers p with
    | some (.listed now oldest) =>
      -- Both rows are inserted by one statement, and both conflict with the rows of an earlier one.
      let state : RollupState :=
        s.state.getD { backfillUntil := timestamptz now, backfillDoneThrough := timestamptz oldest }
      some ({ s with state := some state }.setBroker p .recorded)
    | _ => none
  | .read p =>
    match s.brokers p, s.state with
    | some .recorded, some state =>
      if state.backfillDoneThrough < state.backfillUntil then some (s.setBroker p (.serving [] .waiting))
      else some { s.setBroker p (.serving [] .exited) with reported := true }
    | _, _ => none
  | .receive p record =>
    match s.brokers p with
    | some (.serving received worker) =>
      -- An application connection is counted, and never inserted.
      if record.event.event = telemetryAppConnectionEvent then some s
      else some (s.setBroker p (.serving (received ++ [{ record with receivedAt := s.clock }]) worker))
    | _ => none
  | .insert p records =>
    match s.brokers p with
    | some (.serving received _) =>
      if ∀ r ∈ records, r ∈ received ∧ s.covered (timestamptz (insertReceivedAt r s.clock)) then
        some (records.foldl insertLive s)
      else none
    | _ => none
  | .lock p =>
    match s.brokers p, s.state, s.lockedBy with
    | some (.serving received .waiting), some state, none =>
      if state.backfillDoneThrough < state.backfillUntil then
        let stop := state.backfillDoneThrough + telemetryRollupBackfillChunk
        let stop := if state.backfillUntil < stop then state.backfillUntil else stop
        some { s.setBroker p (.serving received (.locked state.backfillUntil state.backfillDoneThrough stop)) with
               lockedBy := some p }
      else some { s.setBroker p (.serving received .exited) with reported := true }
    | _, _, _ => none
  | .fold p =>
    match s.brokers p with
    | some (.serving received (.locked last start stop)) =>
      let chunk : Chunk := { start, stop, rows := s.backfillRows start stop }
      some (s.setBroker p (.serving received (.folded last chunk false)))
    | _ => none
  | .advance p =>
    match s.brokers p with
    | some (.serving received (.folded last chunk false)) =>
      some (s.setBroker p (.serving received (.folded last chunk true)))
    | _ => none
  | .commit p answered =>
    match s.brokers p with
    | some (.serving received (.folded last chunk true)) =>
      let done := answered && !decide (chunk.stop < last)
      some { s.setBroker p (.serving received (if done then .exited else .waiting)) with
             state := s.state.map fun state => { state with backfillDoneThrough := chunk.stop }
             chunks := s.chunks ++ [chunk]
             lockedBy := none
             reported := s.reported || done }
    | _ => none
  | .fail p =>
    match s.brokers p with
    | some (.serving received (.locked _ _ _)) => some ((s.rollback p).setBroker p (.serving received .waiting))
    | some (.serving received (.folded _ _ _)) => some ((s.rollback p).setBroker p (.serving received .waiting))
    | _ => none
  | .crash p =>
    match s.brokers p with
    | some _ => some { s.rollback p with brokers := Function.update s.brokers p none }
    | none => none

end RollupSystem

end OpenRung.Broker
