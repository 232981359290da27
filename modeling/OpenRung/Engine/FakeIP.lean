import OpenRung.Lib.Trace

/-! Runs on one fake-IP cache (`connectcore/fakeip_state.go`, `connectcore/engine.go`). The lock on the cache path
    lets one run at a time in; every file operation is a step that may fail, and a run may be killed between any two
    of them. A core whose engine was killed may live on with the cache file it has open. File operations are durable
    in order, and a record is readable once written. -/

namespace OpenRung.Engine

def fakeIPBlockCount : Nat := 2 ^ 4

/-- The block of the latest run, and whether it closed the cache cleanly. -/
structure FakeIPRunState where
  block : Nat
  clean : Bool := false
  deriving DecidableEq, Repr

/-- The file operations of `writeFakeIPRunState`; where the directory is not synced, the last one succeeds. -/
inductive WriteStage where
  | createTemp
  | write
  | sync
  | close
  | rename
  | syncDir
  deriving DecidableEq, Repr

def WriteStage.next : WriteStage → Option WriteStage
  | createTemp => some write
  | write => some sync
  | sync => some close
  | close => some rename
  | rename => some syncDir
  | syncDir => none

inductive FakeIPPhase where
  | idle
  | locked
  | picked (block : Nat)
  | writing (stage : WriteStage) (state : FakeIPRunState)
  | begun (block : Nat)
  | running (block : Nat)
  | apart
  deriving DecidableEq, Repr

inductive FakeIPEvent where
  | claim (run block : Nat)
  | closed (run block : Nat)
  | start (run block : Nat) (empty : Bool)
  deriving DecidableEq, Repr

structure FakeIP where
  record : Option FakeIPRunState := none
  /-- Block and hostname of each mapping. -/
  cache : Option (List (Nat × String)) := none
  phase : FakeIPPhase := .idle
  run : Nat := 0
  orphan : Bool := false
  events : List FakeIPEvent := []
  deriving DecidableEq, Repr

inductive FakeIPLabel where
  | acquire
  | skip
  /-- Read the record; `random` is the draw for a cache without one. -/
  | read (random : Nat)
  /-- `os.Remove`; a failed one may still have removed the file. -/
  | remove (ok gone : Bool)
  | write (ok : Bool)
  | start
  | abandon
  | change (cache : Option (List (Nat × String)))
  | exit (clean : Bool)
  | release
  | crash
  deriving DecidableEq, Repr

namespace FakeIP

def isEmpty (s : FakeIP) : Bool := (s.cache.getD []).isEmpty

/-- The start of `beginFakeIPRun`: after a clean close the block stays. -/
def read (s : FakeIP) (random : Nat) : FakeIPPhase :=
  match s.record with
  | some prev =>
    if prev.clean then .writing .createTemp { block := prev.block }
    else .picked ((prev.block + 1) % fakeIPBlockCount)
  | none => .picked (random % fakeIPBlockCount)

def written (state : FakeIPRunState) : FakeIPPhase := if state.clean then .apart else .begun state.block

def recorded (run : Nat) (state : FakeIPRunState) : FakeIPEvent :=
  if state.clean then .closed run state.block else .claim run state.block

/-- One operation of a write. An error leaves the cache alone: `launchTunnel` goes on without it, and
    `recordFakeIPClose` ignores it. -/
def write (s : FakeIP) (stage : WriteStage) (state : FakeIPRunState) (ok : Bool) : FakeIP :=
  if !ok then { s with phase := .apart }
  else
    let s := if stage = .rename then { s with record := some state, events := s.events ++ [recorded s.run state] } else s
    { s with phase := match stage.next with
        | some stage => .writing stage state
        | none => written state }

def step (s : FakeIP) : FakeIPLabel → Option FakeIP
  | .acquire => if s.phase = .idle then some { s with phase := .locked, run := s.run + 1 } else none
  | .skip => if s.phase = .locked then some { s with phase := .apart } else none
  | .read random => if s.phase = .locked then some { s with phase := s.read random } else none
  | .remove ok gone =>
    match s.phase with
    | .picked block =>
      if ok then some { s with cache := none, orphan := false, phase := .writing .createTemp { block } }
      else some { s with cache := if gone then none else s.cache, orphan := s.orphan && !gone, phase := .apart }
    | _ => none
  | .write ok =>
    match s.phase with
    | .writing stage state => some (s.write stage state ok)
    | _ => none
  | .start =>
    match s.phase with
    | .begun block => some { s with phase := .running block, events := s.events ++ [.start s.run block s.isEmpty] }
    | _ => none
  | .abandon =>
    match s.phase with
    | .begun _ => some { s with phase := .apart }
    | _ => none
  | .change cache =>
    match s.phase with
    | .running _ => some { s with cache }
    | _ => if s.orphan then some { s with cache } else none
  | .exit clean =>
    match s.phase with
    | .running block =>
      some { s with phase := if clean then .writing .createTemp { block, clean := true } else .apart }
    | _ => none
  | .release => if s.phase = .apart then some { s with phase := .idle } else none
  | .crash =>
    match s.phase with
    | .idle => none
    | .running _ => some { s with phase := .idle, orphan := true }
    | _ => some { s with phase := .idle }

end FakeIP

end OpenRung.Engine
