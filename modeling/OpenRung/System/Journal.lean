import OpenRung.Lib.Syscalls
import OpenRung.Lib.Trace
import OpenRung.System.Sidecar

/-! Runs of one replay store over its journal, as system calls: the store is opened, consumes tickets, is closed, or
    is killed between any two calls. -/

namespace OpenRung
open Wss

abbrev JournalRecord := Sigma fun _ : ReplayKey => Int

/-- `clock` is what `UnixNano` reads. `written` is history: the records that were completely appended. -/
structure JournalHost where
  clock : Int
  files : FilePair UInt8 := { file := [] }
  store : Option DurableReplayStore := none
  written : List JournalRecord := []

namespace JournalHost

def entryLimit (maxEntries : Int) : Int := if maxEntries ≤ 0 then defaultReplayEntries else maxEntries

/-- The compaction that `load` may end with, the entries being written in the order `order`. -/
def openCalls (compact : Bool) (order : List JournalRecord) : List (Syscall UInt8) :=
  if compact then Syscall.replace (compactedJournal order) else []

def openedStore (compact : Bool) (store : DurableReplayStore) : DurableReplayStore := if compact then store.recount else store

def consumeCalls (record : JournalRecord) (order : List JournalRecord) : Admission → List (Syscall UInt8)
  | .refused _ => []
  | .replayed => []
  | .compact => Syscall.replace (compactedJournal order) ++ Syscall.appendAll (encodeReplayRecord record.1 record.2)
  | .append => Syscall.appendAll (encodeReplayRecord record.1 record.2)

def consumedStore (record : JournalRecord) (store : DurableReplayStore) : Admission → DurableReplayStore
  | .refused _ => store
  | .replayed => store
  | .compact => store.recount.consumed record.1 record.2
  | .append => store.consumed record.1 record.2

def appended (record : JournalRecord) : Admission → List JournalRecord
  | .refused _ => []
  | .replayed => []
  | .compact => [record]
  | .append => [record]

inductive Label where
  | tick
  | opened
  | openKilled
  | consumed (jti : Bytes) (expiresAt : Time)
  | consumeKilled (jti : Bytes) (expiresAt : Time)
  | closed

def ticketRecord (crypto : Crypto) (jti : Bytes) (expiresAt : Time) : JournalRecord :=
  ⟨newReplayKey crypto jti, unixNano expiresAt⟩

inductive Step (crypto : Crypto) (maxEntries : Int) (j : JournalHost) : Label → JournalHost → Prop
  | tick (t : Int) (later : j.clock ≤ t) : Step crypto maxEntries j .tick { j with clock := t }
  | opened (store : DurableReplayStore) (compact : Bool) (order : List JournalRecord) (ended : j.store = none)
      (ok : openDurableReplayStore maxEntries j.clock j.files.file = .ok (store, compact))
      (all : order.Perm store.index.entries.entries) :
    Step crypto maxEntries j .opened
      { j with files := j.files.runAll (openCalls compact order), store := some (openedStore compact store) }
  | openKilled (store : DurableReplayStore) (compact : Bool) (order : List JournalRecord) (ended : j.store = none)
      (ok : openDurableReplayStore maxEntries j.clock j.files.file = .ok (store, compact))
      (all : order.Perm store.index.entries.entries) (done : List (Syscall UInt8)) (part : done <+: openCalls compact order) :
    Step crypto maxEntries j .openKilled { j with files := j.files.runAll done }
  | consumed (s s' : DurableReplayStore) (running : j.store = some s) (jti : Bytes) (expiresAt : Time)
      (admission : Admission) (admitted : s.startConsume crypto j.clock jti expiresAt = (admission, s'))
      (order : List JournalRecord) (all : order.Perm s'.index.entries.entries) :
    Step crypto maxEntries j (.consumed jti expiresAt)
      { j with
        files := j.files.runAll (consumeCalls (ticketRecord crypto jti expiresAt) order admission)
        store := some (consumedStore (ticketRecord crypto jti expiresAt) s' admission)
        written := appended (ticketRecord crypto jti expiresAt) admission ++ j.written }
  -- The record is completely written exactly if all system calls were made.
  | consumeKilled (s s' : DurableReplayStore) (running : j.store = some s) (jti : Bytes) (expiresAt : Time)
      (admission : Admission) (admitted : s.startConsume crypto j.clock jti expiresAt = (admission, s'))
      (order : List JournalRecord) (all : order.Perm s'.index.entries.entries) (done : List (Syscall UInt8))
      (part : done <+: consumeCalls (ticketRecord crypto jti expiresAt) order admission) :
    Step crypto maxEntries j (.consumeKilled jti expiresAt)
      { j with
        files := j.files.runAll done
        store := none
        written :=
          if done.length = (consumeCalls (ticketRecord crypto jti expiresAt) order admission).length then
            appended (ticketRecord crypto jti expiresAt) admission ++ j.written
          else j.written }
  | closed (s : DurableReplayStore) (running : j.store = some s) : Step crypto maxEntries j .closed { j with store := none }

/-- As the reader of a journal demands. On a clock that reads 1970 or later every ticket that has not expired is of
    this kind. -/
def Dated (j : JournalHost) : Label → Prop
  | .consumed _ expiresAt | .consumeKilled _ expiresAt => j.clock < unixNano expiresAt → 0 < unixNano expiresAt
  | _ => True

end JournalHost

end OpenRung
