import Mathlib.Logic.Relation
import OpenRung.Lib.Disk
import OpenRung.Wss.Replay

/-! The WSS sidecar over its replay journal. Handshakes verify tickets concurrently; `Consume` holds the store's lock,
    and each of its writes is a step that can fail, or be cut short by the end of the process or of the machine. The
    lock file keeps a second process out. -/

namespace OpenRung
open Wss

/-- A handshake that presented `token`, and the claims that `Verify` returned for it. -/
structure Handshake where
  token : Bytes
  claims : Claims
  deriving DecidableEq, Repr

structure ConsumeCall where
  handshake : Option Handshake
  key : ReplayKey
  expiresAt : Int

/-- `compacting` has not renamed the temporary file yet, `renamed` has; both belong to a call, or to the opening of
    the store. `appending` has `rest` left to write. -/
inductive StorePhase where
  | ready
  | compacting (call : Option ConsumeCall)
  | renamed (call : Option ConsumeCall)
  | appending (call : ConsumeCall) (rest : Bytes)

/-- With the handshakes that are verified and have not called `Consume` yet. -/
structure SidecarProcess where
  store : DurableReplayStore
  phase : StorePhase := .ready
  verified : List Handshake := []

def SidecarProcess.serving (p : SidecarProcess) : Bool :=
  match p.phase with
  | .compacting none => false
  | .renamed none => false
  | _ => true

def ConsumeCall.admitted (call : ConsumeCall) : Admission → StorePhase
  | .refused _ => .ready
  | .replayed => .ready
  | .compact => .compacting (some call)
  | .append => .appending call (encodeReplayRecord call.key call.expiresAt)

/-- `Consume` up to its first write, for a handshake or for another caller. -/
def SidecarProcess.consume (crypto : Crypto) (now : Time) (handshake : Option Handshake) (jti : Bytes)
    (expiresAt : Time) (p : SidecarProcess) : SidecarProcess :=
  let (admission, store) := p.store.startConsume crypto (unixNano now) jti expiresAt
  let call : ConsumeCall := { handshake, key := newReplayKey crypto jti, expiresAt := unixNano expiresAt }
  { p with store, phase := call.admitted admission }

def SidecarProcess.compactFailed (p : SidecarProcess) : Option ConsumeCall → Option SidecarProcess
  | some _ => some { p with phase := .ready }
  | none => none

/-- The call goes on to write its record, or the store is open. -/
def SidecarProcess.compacted (p : SidecarProcess) : Option ConsumeCall → SidecarProcess
  | some call => { p with phase := .appending call (encodeReplayRecord call.key call.expiresAt) }
  | none => { p with phase := .ready }

def Wss.DurableReplayStore.break (s : DurableReplayStore) : DurableReplayStore := { s with broken := true }

def Wss.DurableReplayStore.recount (s : DurableReplayStore) : DurableReplayStore :=
  { s with journalRecords := s.index.size }

/-- `sessions` is history: the handshakes that passed both `Verify` and `Consume`. -/
structure Sidecar where
  clock : Time
  disk : Disk UInt8
  process : Option SidecarProcess := none
  sessions : List Handshake := []

namespace Sidecar

inductive Step (crypto : Crypto) (v : TicketVerifier) (w : Sidecar) : Sidecar → Prop
  -- The clock reads instants that `UnixNano` can represent.
  | tick (t : Time) (later : w.clock ≤ t) (representable : t < 2 ^ 63) : Step crypto v w { w with clock := t }
  | reopen (maxEntries : Int) (store : DurableReplayStore) (compact : Bool) (ended : w.process = none)
      (opened : openDurableReplayStore maxEntries (unixNano w.clock) w.disk.content = .ok (store, compact)) :
      Step crypto v w { w with process := some { store, phase := if compact then .compacting none else .ready } }
  -- A handshake on the front `frontID` passes `Verify`.
  | verify (p : SidecarProcess) (running : w.process = some p) (serving : p.serving = true) (token frontID : Bytes)
      (claims : Claims) (valid : v.verify crypto w.clock token = .ok claims) (front : claims.frontID = frontID) :
      Step crypto v w { w with process := some { p with verified := ⟨token, claims⟩ :: p.verified } }
  -- The request of a verified handshake is cancelled.
  | cancel (p : SidecarProcess) (running : w.process = some p) (h : Handshake) :
      Step crypto v w { w with process := some { p with verified := p.verified.erase h } }
  | handshake (p : SidecarProcess) (running : w.process = some p) (ready : p.phase = .ready) (h : Handshake)
      (verified : h ∈ p.verified) :
      Step crypto v w
        { w with
          process := some <| SidecarProcess.consume crypto w.clock (some h) h.claims.jti (v.replayUntil h.claims)
            { p with verified := p.verified.erase h } }
  -- A call of `Consume` that is not a handshake's.
  | consume (p : SidecarProcess) (running : w.process = some p) (ready : p.phase = .ready) (jti : Bytes)
      (expiresAt : Time) : Step crypto v w { w with process := some (p.consume crypto w.clock none jti expiresAt) }
  -- A compaction fails before its rename, and its temporary file is removed.
  | compactFails (p : SidecarProcess) (running : w.process = some p) (call : Option ConsumeCall)
      (compacting : p.phase = .compacting call) : Step crypto v w { w with process := p.compactFailed call }
  -- The temporary file is written, synced and renamed to the journal's name.
  | rename (p : SidecarProcess) (running : w.process = some p) (call : Option ConsumeCall)
      (compacting : p.phase = .compacting call) (order : List (Sigma fun _ : ReplayKey => Int))
      (all : order.Perm p.store.index.entries.entries) :
      Step crypto v w
        { w with disk := w.disk.rename (compactedJournal order), process := some { p with phase := .renamed call } }
  -- The renamed journal cannot be opened.
  | openFails (p : SidecarProcess) (running : w.process = some p) (call : Option ConsumeCall)
      (renamed : p.phase = .renamed call) :
      Step crypto v w { w with process := { p with store := p.store.break }.compactFailed call }
  -- The journal that was replaced cannot be closed, or the directory cannot be synced.
  | settleFails (p : SidecarProcess) (running : w.process = some p) (call : Option ConsumeCall)
      (renamed : p.phase = .renamed call) :
      Step crypto v w { w with process := { p with store := p.store.recount.break }.compactFailed call }
  | settle (p : SidecarProcess) (running : w.process = some p) (call : Option ConsumeCall)
      (renamed : p.phase = .renamed call) :
      Step crypto v w
        { w with
          disk := w.disk.syncDirectory
          process := some ({ p with store := p.store.recount }.compacted call) }
  -- Some bytes of the record reach the journal.
  | write (p : SidecarProcess) (running : w.process = some p) (call : ConsumeCall) (chunk rest : Bytes)
      (appending : p.phase = .appending call (chunk ++ rest)) :
      Step crypto v w { w with disk := w.disk.append chunk, process := some { p with phase := .appending call rest } }
  -- The write of the record fails, or its sync.
  | appendFails (p : SidecarProcess) (running : w.process = some p) (call : ConsumeCall) (rest : Bytes)
      (appending : p.phase = .appending call rest) :
      Step crypto v w { w with process := some { p with store := p.store.break, phase := .ready } }
  -- The whole record is synced, and `Consume` returns true.
  | sync (p : SidecarProcess) (running : w.process = some p) (call : ConsumeCall)
      (appended : p.phase = .appending call []) :
      Step crypto v w
        { w with
          disk := w.disk.sync
          process := some { p with store := p.store.consumed call.key call.expiresAt, phase := .ready }
          sessions := call.handshake.toList ++ w.sessions }
  | close (p : SidecarProcess) (running : w.process = some p) (ready : p.phase = .ready) :
      Step crypto v w { w with disk := w.disk.sync, process := none }
  -- The process ends at any point, and the journal stays as it reads.
  | stop : Step crypto v w { w with process := none }
  -- The machine crashes at any point.
  | crash (content : Bytes) (image : w.disk.Image content) :
      Step crypto v w { w with disk := .recover content, process := none }

def Steps (crypto : Crypto) (v : TicketVerifier) : Sidecar → Sidecar → Prop := Relation.ReflTransGen (Step crypto v)

/-- With any journal and a clock that `UnixNano` can represent. -/
def start (clock : { t : Time // -2 ^ 63 ≤ t ∧ t < 2 ^ 63 }) (disk : Disk UInt8) : Sidecar where
  clock := clock.val
  disk := disk

end Sidecar

end OpenRung
