import OpenRung.Lib.KeyedMap

/-! The tunnel registry of the hub (`punch.go` and `server.go` in `internal/tunnel`). A session is the goroutine of a
    control connection, with the heartbeat loop of its tunnel; every call of the broker and every section under
    `registryMu` is a step. What the broker answers is an argument of the step. -/

namespace OpenRung.Tunnel

/-- A relay id is derived from an identity key, or drawn at random for one registration. -/
inductive RelayID where
  | derived (identity : String)
  | random (n : Nat)
  deriving DecidableEq

/-! ### The registry -/

abbrev Registry := KeyedMap RelayID Nat

def addTunnel (registry : Registry) (id : RelayID) (t : Nat) : Registry := registry.insert id t

/-- Install only if the slot is free or already the tunnel's. -/
def claimTunnel (registry : Registry) (id : RelayID) (t : Nat) : Registry × Bool :=
  match registry.lookup id with
  | some current => if current ≠ t then (registry, false) else (registry.insert id t, true)
  | none => (registry.insert id t, true)

def removeTunnel (registry : Registry) (id : RelayID) (t : Nat) : Registry :=
  if registry.lookup id = some t then registry.erase id else registry

/-! ### Sessions -/

inductive SessionPC where
  | hello
  | acking
  | installing
  | running
  | stopping
  | removing
  | gone
  deriving DecidableEq

inductive BeatPC where
  | idle
  | beating (id : RelayID)
  | lost (id : RelayID)
  | registering
  | answered (id : RelayID)
  | rekeying (old id : RelayID)
  | claiming (id : RelayID)
  | ended
  deriving DecidableEq

structure Session where
  identity : Option String
  pc : SessionPC := .hello
  beat : BeatPC := .ended
  closed : Bool := false
  relayID : RelayID := .random 0
  deriving DecidableEq

inductive Answer where
  | ok
  | notFound
  | proofExpired
  | failed
  | ctxDone
  deriving DecidableEq

structure HubState where
  registry : Registry := ∅
  sessions : List Session := []
  registrations : List (Nat × RelayID) := []

inductive Action where
  | connect (identity : Option String)
  | register (i : Nat) (ok : Bool)
  | ack (i : Nat) (ok : Bool)
  | install (i : Nat)
  | beat (i : Nat) (answer : Answer)
  | hangup (i : Nat)
  | stop (i : Nat)
  | join (i : Nat)
  | remove (i : Nat)
  deriving DecidableEq

namespace HubState

def setSession (s : HubState) (i : Nat) (t : Session) : HubState := { s with sessions := s.sessions.set i t }

def nextID (s : HubState) (t : Session) : RelayID :=
  match t.identity with
  | some identity => .derived identity
  | none => .random s.registrations.length

def registered (s : HubState) (i : Nat) (id : RelayID) : HubState :=
  { s with registrations := s.registrations ++ [(i, id)] }

/-- A claim of the heartbeat loop; a tunnel that is refused retires. -/
def claim (s : HubState) (i : Nat) (t : Session) (id : RelayID) (next : BeatPC) : HubState :=
  match claimTunnel s.registry id i with
  | (registry, true) => { s.setSession i { t with beat := next } with registry }
  | (_, false) => s.setSession i { t with beat := .idle, closed := true }

def stepBeat (s : HubState) (i : Nat) (t : Session) (answer : Answer) : Option HubState :=
  match t.beat, answer with
  | .idle, .ctxDone => if t.closed then some (s.setSession i { t with beat := .ended }) else none
  | .idle, _ => some (s.setSession i { t with beat := .beating t.relayID })
  | .beating id, .notFound => some (s.setSession i { t with beat := .lost id })
  | .beating _, _ => some (s.setSession i { t with beat := .idle })
  | .lost id, _ => some (s.claim i t id .registering)
  | .registering, .ok =>
    let id := s.nextID t
    some ((s.registered i id).setSession i { t with beat := .answered id })
  -- only the relay can sign a new proof: the session is recycled
  | .registering, .proofExpired => some (s.setSession i { t with beat := .idle, closed := true })
  | .registering, _ => some (s.setSession i { t with beat := .idle })
  | .answered id, _ => some (s.setSession i { t with beat := .rekeying t.relayID id, relayID := id })
  | .rekeying old id, _ =>
    some { s.setSession i { t with beat := .claiming id } with
      registry := if old ≠ id then removeTunnel s.registry old i else s.registry }
  | .claiming id, _ => some (s.claim i t id .idle)
  | .ended, _ => none

def step (s : HubState) : Action → Option HubState
  | .connect identity => some { s with sessions := s.sessions ++ [{ identity }] }
  | .register i ok => do
    let t ← s.sessions[i]?
    if t.pc = .hello then
      let id := s.nextID t
      if ok then some ((s.registered i id).setSession i { t with pc := .acking, relayID := id })
      else some (s.setSession i { t with pc := .gone })
    else none
  | .ack i ok => do
    let t ← s.sessions[i]?
    if t.pc = .acking then some (s.setSession i { t with pc := if ok then .installing else .gone }) else none
  | .install i => do
    let t ← s.sessions[i]?
    if t.pc = .installing then
      some { s.setSession i { t with pc := .running, beat := .idle } with registry := addTunnel s.registry t.relayID i }
    else none
  | .beat i answer => do
    let t ← s.sessions[i]?
    s.stepBeat i t answer
  | .hangup i => do
    let t ← s.sessions[i]?
    if t.pc = .running then some (s.setSession i { t with closed := true }) else none
  | .stop i => do
    let t ← s.sessions[i]?
    if t.pc = .running then some (s.setSession i { t with pc := .stopping, closed := true }) else none
  | .join i => do
    let t ← s.sessions[i]?
    if t.pc = .stopping ∧ t.beat = .ended then some (s.setSession i { t with pc := .removing }) else none
  | .remove i => do
    let t ← s.sessions[i]?
    if t.pc = .removing then
      some { s.setSession i { t with pc := .gone } with registry := removeTunnel s.registry t.relayID i }
    else none

end HubState

end OpenRung.Tunnel
