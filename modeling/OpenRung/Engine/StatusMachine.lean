import Mathlib.Algebra.Order.Ring.Int
import Mathlib.Data.List.Basic

/-! The status machine of the client engine (`connectcore/engine.go`, `monitor.go`, `lifecycle.go`). Calls of the
    engine and the goroutines of the connect flows interleave; one step is one section under `mu`, or one wait or
    outside call between two such sections. What a phase of a flow comes to is the outcome of its step. -/

namespace OpenRung.StatusMachine

inductive Status where
  | disconnected
  | preparing
  | connecting
  | connected
  | disconnecting
  | failed
  deriving DecidableEq

def Status.terminal : Status → Bool
  | .disconnected | .failed => true
  | _ => false

structure FlowError where
  text : String
  accessDisabled : Bool := false
  deriving DecidableEq

/-- What `connectFlow` returns: `none` at a clean end, else the stage and the error. -/
abbrev FlowEnd := Option (String × FlowError)

inductive LabelOp where
  | keep
  | clear
  | set (label : Option String)
  deriving DecidableEq

inductive ErrorOp where
  | keep
  | clear
  | set (text : String)
  deriving DecidableEq

structure Emission where
  status : Status
  label : LabelOp
  error : ErrorOp
  deriving DecidableEq

structure CoreState where
  status : Status := .disconnected
  relayLabel : Option String := none
  lastError : Option String := none
  deriving DecidableEq

def CoreState.emitStatusLocked (core : CoreState) (e : Emission) : CoreState where
  status := e.status
  relayLabel := match e.label with
    | .keep => core.relayLabel
    | .clear => none
    | .set label => label
  lastError := match e.error with
    | .keep => core.lastError
    | .clear => none
    | .set text => some text

inductive Signal where
  | published (e : Emission)
  | marked
  | claimed
  deriving DecidableEq

def Signal.terminal : Signal → Bool
  | .published e => e.status.terminal
  | _ => false

/-! ### The flow of a connection -/

structure Host where
  mobile : Bool := false
  tunMode : Bool := false

inductive FlowPC where
  | installed
  | validating
  | elevating
  | opening
  | reserving
  | fetching
  | selecting
  | rechecking
  | climbing
  | promoting (label : String)
  | supervising
  /-- `none` is a trigger to recover from. -/
  | triggered (fatal : FlowEnd)
  | resuming
  | reopening
  | recovering
  | returned (result : FlowEnd)
  | claiming (result : FlowEnd)
  | cleaning (result : FlowEnd)
  | sampling (result : FlowEnd)
  | landing (result : FlowEnd) (disconnecting : Bool)
  | clearing
  | cancelling
  | closing
  | closed
  deriving DecidableEq

/-- A `connection` and its `runConnect` goroutine; its `done` is closed at `closed`. -/
structure Flow where
  pc : FlowPC := .installed
  disconnecting : Bool := false
  finalized : Bool := false
  cancelled : Bool := false
  deriving DecidableEq

inductive Outcome where
  | ok
  | won (label : String)
  | refused
  | failed (stage : String) (err : FlowError)
  | trigger
  | retry
  | ended
  deriving DecidableEq

/-- `markConnectedLocked`; without a location the mobile label is empty. -/
def connectedEmission (host : Host) (label : String) : Emission where
  status := .connected
  label := .set (if host.mobile && label == "" then none else some label)
  error := .clear

def terminalEmission (result : FlowEnd) (disconnecting : Bool) : Emission :=
  match result with
  | some (_, err) => if disconnecting then ⟨.disconnected, .clear, .clear⟩ else ⟨.failed, .keep, .set err.text⟩
  | none => ⟨.disconnected, .clear, .clear⟩

namespace Flow

def goto (f : Flow) (pc : FlowPC) : Option (Flow × List Signal) := some ({ f with pc }, [])

/-- A phase that ends after its context was cancelled ends cleanly, whatever its error. -/
def unlessCancelled (f : Flow) (result : FlowEnd) : FlowPC := .returned (if f.cancelled then none else result)

def step (host : Host) (f : Flow) (outcome : Outcome) : Option (Flow × List Signal) :=
  match f.pc, outcome with
  | .validating, .ok => f.goto .elevating
  | .validating, .failed _ err => if host.mobile then f.goto (.returned (some ("mobile_config", err))) else none
  | .elevating, .ok => f.goto .opening
  | .elevating, .failed _ err => if host.tunMode then f.goto (.returned (some ("elevation", err))) else none
  | .elevating, .refused =>
    if host.tunMode then f.goto (.returned (some ("elevation", ⟨"TUN mode was not permitted", false⟩))) else none
  | .opening, _ => some ({ f with pc := .reserving }, [.published ⟨.connecting, .keep, .clear⟩])
  | .reserving, .ok => f.goto .fetching
  | .reserving, .failed _ err => if host.tunMode then none else f.goto (.returned (some ("proxy_port", err)))
  | .fetching, .ok => f.goto .selecting
  | .fetching, .failed _ err =>
    f.goto (f.unlessCancelled (some (if err.accessDisabled then "access_denied" else "broker_fetch", err)))
  | .selecting, .ok => f.goto .rechecking
  | .selecting, .failed stage err => f.goto (.returned (some (stage, err)))
  | .rechecking, .ok => f.goto (if f.cancelled then .returned none else .climbing)
  | .rechecking, .failed _ err => if host.tunMode then none else f.goto (f.unlessCancelled (some ("proxy_port", err)))
  | .climbing, .won label => f.goto (.promoting label)
  | .climbing, .failed _ err => f.goto (f.unlessCancelled (some ("relay_connect", err)))
  | .promoting label, _ =>
    if f.disconnecting || f.cancelled then f.goto (.returned none)
    else some ({ f with pc := .supervising }, [.published (connectedEmission host label)])
  | .supervising, .ended => if f.cancelled then f.goto (.returned none) else none
  | .supervising, .trigger => f.goto (.triggered none)
  | .supervising, .failed stage err => f.goto (.triggered (some (stage, err)))
  | .triggered fatal, _ =>
    if f.cancelled || f.disconnecting then f.goto (.returned none)
    else if fatal.isSome then f.goto (.returned fatal)
    else f.goto .resuming
  | .resuming, .ended => if f.cancelled then f.goto (.returned none) else none
  | .resuming, .ok => f.goto (if f.disconnecting then .returned none else .reopening)
  | .reopening, _ => some ({ f with pc := .recovering }, [.published ⟨.connecting, .keep, .clear⟩])
  | .recovering, .ended => if f.cancelled then f.goto (.returned none) else none
  | .recovering, .won label => f.goto (.promoting label)
  | .recovering, .retry => f.goto (if f.cancelled then .returned none else .recovering)
  | .recovering, .failed _ err =>
    f.goto (f.unlessCancelled (some (if err.accessDisabled then "access_denied" else "failover_exhausted", err)))
  | .returned result, _ => some ({ f with pc := .claiming result, cancelled := f.cancelled || host.mobile }, [])
  | .claiming result, _ => some ({ f with pc := .cleaning result, finalized := true }, [.claimed])
  | .cleaning result, _ => f.goto (.sampling result)
  -- the intent is read again after the teardown
  | .sampling result, _ => f.goto (.landing result f.disconnecting)
  | .landing result disconnecting, _ =>
    some ({ f with pc := .clearing }, [.published (terminalEmission result disconnecting)])
  | .clearing, _ => f.goto .cancelling
  | .cancelling, _ => some ({ f with pc := .closing, cancelled := true }, [])
  | .closing, _ => f.goto .closed
  | _, _ => none

end Flow

/-! ### Calls of the engine -/

inductive CallKind where
  | connectTarget
  | disconnect
  | shutdown
  deriving DecidableEq

/-- Where a call is. From `peeking` to `returning` it holds `connectMu`. -/
inductive CallPC where
  | waiting
  | peeking
  | tearing
  | marking
  | cancelling (conn : Nat)
  | joining (conn : Nat)
  | installing
  | announcing (conn : Nat)
  | starting (conn : Nat)
  | returning
  | returned
  deriving DecidableEq

structure Call where
  kind : CallKind
  pc : CallPC := .waiting
  deriving DecidableEq

structure EngineState where
  connectMu : Option Nat := none
  conn : Option Nat := none
  core : CoreState := {}
  flows : List Flow := []
  calls : List Call := []
  log : List (Nat × Signal) := []
  deriving DecidableEq

inductive Action where
  | call (kind : CallKind)
  | advance (k : Nat)
  | flow (i : Nat) (outcome : Outcome)
  deriving DecidableEq

namespace EngineState

def emit (core : CoreState) : Signal → CoreState
  | .published e => core.emitStatusLocked e
  | _ => core

def record (s : EngineState) (i : Nat) (f : Flow) (signals : List Signal) : EngineState :=
  { s with
    flows := s.flows.set i f
    core := signals.foldl emit s.core
    log := s.log ++ signals.map fun signal => (i, signal) }

def goto (s : EngineState) (k : Nat) (call : Call) (pc : CallPC) : EngineState :=
  { s with calls := s.calls.set k { call with pc } }

def firstPC : CallKind → CallPC
  | .connectTarget => .tearing
  | .disconnect => .marking
  | .shutdown => .peeking

def torndownPC : CallKind → CallPC
  | .connectTarget => .installing
  | _ => .returning

def stepCall (s : EngineState) (k : Nat) (call : Call) : Option EngineState :=
  match call.pc with
  | .waiting =>
    if s.connectMu = none then some { s.goto k call (firstPC call.kind) with connectMu := some k } else none
  | .peeking => some (s.goto k call (if s.conn = none then .returning else .tearing))
  | .tearing =>
    match s.conn with
    | none => some (s.goto k call (torndownPC call.kind))
    | some i => do
      let f ← s.flows[i]?
      some ((s.record i { f with disconnecting := true } [.marked]).goto k call (.cancelling i))
  | .marking =>
    match s.conn with
    | none => some (s.goto k call .returning)
    | some i => do
      let f ← s.flows[i]?
      -- the flow that claimed its terminal status is not overwritten
      let signals := if f.finalized then [.marked] else [.marked, .published ⟨.disconnecting, .keep, .keep⟩]
      some ((s.record i { f with disconnecting := true } signals).goto k call (.cancelling i))
  | .cancelling i => do
    let f ← s.flows[i]?
    let pc := if call.kind = .disconnect then .returning else .joining i
    some ((s.record i { f with cancelled := true } []).goto k call pc)
  | .joining i => do
    let f ← s.flows[i]?
    if f.pc = .closed then some (s.goto k call (torndownPC call.kind)) else none
  | .installing =>
    let i := s.flows.length
    some { s.goto k call (.announcing i) with flows := s.flows ++ [{}], conn := some i }
  | .announcing i => do
    let f ← s.flows[i]?
    some ((s.record i f [.published ⟨.preparing, .keep, .clear⟩]).goto k call (.starting i))
  | .starting i => do
    let f ← s.flows[i]?
    some ((s.record i { f with pc := .validating } []).goto k call .returning)
  | .returning => some { s.goto k call .returned with connectMu := none }
  | .returned => none

def clearConn (i : Nat) (f : Flow) (conn : Option Nat) : Option Nat :=
  if f.pc = .clearing ∧ conn = some i then none else conn

def step (host : Host) (s : EngineState) : Action → Option EngineState
  | .call kind => some { s with calls := s.calls ++ [{ kind }] }
  | .advance k => do
    let call ← s.calls[k]?
    s.stepCall k call
  | .flow i outcome => do
    let f ← s.flows[i]?
    let (f', signals) ← f.step host outcome
    some { s.record i f' signals with conn := clearConn i f s.conn }

def history (s : EngineState) (i : Nat) : List Signal := (s.log.filter fun entry => entry.1 = i).map Prod.snd

end EngineState

end OpenRung.StatusMachine
