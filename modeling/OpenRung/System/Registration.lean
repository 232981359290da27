import OpenRung.Broker.RegistrationCap

/-! Registration requests that run at the same time (`registerHandler` in `server.go`). Each call of the ledger, of
    the cap and of the store is a step. -/

namespace OpenRung.Registration
open Broker

/-- A unit that a request reserved. `takenAt` is the time of the call, which the cap rounds. -/
structure Reservation where
  key : String
  stamp : Int
  takenAt : Time
  released : Bool := false
  deriving DecidableEq

inductive RequestPC where
  | start
  | reserving
  | storing
  | committing (id : String)
  | returning (keepReservation : Bool)
  | done (keepReservation : Bool)
  deriving DecidableEq

structure Request where
  source : String
  /-- The id that a valid identity proof derives; `none` without a valid proof. -/
  identity : Option String
  foundation : Bool
  now : Time
  pc : RequestPC := .start
  unit : Option Reservation := none
  deriving DecidableEq

def Request.held (r : Request) : Option Reservation := r.unit.filter fun u => !u.released

inductive LedgerEvent where
  | lookup (id : String) (now : Time)
  /-- `rememberIfNew`; `kept` says that a registration keeps its unit by this call. -/
  | remember (id : String) (now : Time) (kept : Bool)
  deriving DecidableEq

/-- `log`, `clock` and `cutoffs` are history: the calls of the ledger, the time of the last `reserve`, and for each
    key the cutoff of the last `reserve` that looked at its stamps. -/
structure System where
  cap : NewRelayCap
  ledger : RelayIDLedger
  requests : List Request := []
  log : List LedgerEvent := []
  clock : Option Time := none
  cutoffs : String → Option Int := fun _ => none

inductive Action where
  | request (source : String) (identity : Option String) (foundation : Bool) (now : Time)
  | lookup (request : Nat)
  | reserve (request : Nat)
  | store (request : Nat) (id : Option String)
  | commit (request : Nat)
  | finish (request : Nat)
  | heartbeat (id : String) (now : Time)
  | telemetry (id : String) (now : Time)
  deriving DecidableEq

namespace System

def set (s : System) (i : Nat) (r : Request) : System := { s with requests := s.requests.set i r }

def lookup (s : System) (i : Nat) (r : Request) : System :=
  let next (newIdentity : Bool) : RequestPC := if newIdentity && !r.foundation then .reserving else .storing
  match r.identity with
  | none => s.set i { r with pc := next true }
  | some id =>
    let (ledger, known) := s.ledger.lookup id r.now
    { s.set i { r with pc := next !known } with ledger, log := s.log ++ [.lookup id r.now] }

def reserve (s : System) (i : Nat) (r : Request) : System :=
  let (cap, verdict) := s.cap.reserve r.source r.now
  let cutoffs :=
    if s.cap.limit < 0 then s.cutoffs
    else match s.cap.key r.source with
      | none => s.cutoffs
      | some key => Function.update s.cutoffs key (some (NewRelayCap.cutoff r.now))
  let s := { s with cap, clock := some r.now, cutoffs }
  match verdict with
  | .refused => s.set i { r with pc := .done false }
  | .free => s.set i { r with pc := .storing }
  | .unit key stamp => s.set i { r with pc := .storing, unit := some { key, stamp, takenAt := r.now } }

def commit (s : System) (i : Nat) (r : Request) (id : String) : System :=
  let (ledger, keepReservation) := s.ledger.rememberIfNew id r.now
  { s.set i { r with pc := .returning keepReservation } with
    ledger, log := s.log ++ [.remember id r.now (keepReservation && r.unit.isSome)] }

def finish (s : System) (i : Nat) (r : Request) (keepReservation : Bool) : System :=
  match r.unit with
  | some u =>
    if keepReservation || u.released then s.set i { r with pc := .done keepReservation }
    else
      { s.set i { r with pc := .done keepReservation, unit := some { u with released := true } } with
        cap := s.cap.release u.key u.stamp }
  | none => s.set i { r with pc := .done keepReservation }

def step (s : System) : Action → Option System
  | .request source identity foundation now =>
    some { s with requests := s.requests ++ [{ source, identity, foundation, now }] }
  | .lookup i => do
    let r ← s.requests[i]?
    if r.pc = .start then some (s.lookup i r) else none
  | .reserve i => do
    let r ← s.requests[i]?
    if r.pc = .reserving then some (s.reserve i r) else none
  | .store i result => do
    let r ← s.requests[i]?
    if r.pc = .storing then
      match result with
      | none => some (s.set i { r with pc := .returning false })
      | some id => if r.identity.all (· = id) then some (s.set i { r with pc := .committing id }) else none
    else none
  | .commit i => do
    let r ← s.requests[i]?
    match r.pc with
    | .committing id => some (s.commit i r id)
    | _ => none
  | .finish i => do
    let r ← s.requests[i]?
    match r.pc with
    | .returning keepReservation => some (s.finish i r keepReservation)
    | _ => none
  | .heartbeat id now => some { s with ledger := s.ledger.remember id now, log := s.log ++ [.remember id now false] }
  | .telemetry id now => some { s with ledger := (s.ledger.lookup id now).1, log := s.log ++ [.lookup id now] }

end System

end OpenRung.Registration
