import Mathlib.Algebra.Order.Ring.Int
import Mathlib.Data.List.Basic

/-! The client engine's handling of the OS proxy in proxy mode (`connectcore/engine.go`). The engine's own memory is
    lost in a crash; the OS setting and the persisted snapshot slot stay (`World`). A machine keeps the world after
    each hook call of its process, which are the points where a crash can come. -/

namespace OpenRung.Engine

variable {σ : Type}

structure World (σ : Type) where
  os : σ
  slot : Option σ := none
  deriving DecidableEq

/-- The proxy fields of a `connection`. `snapshot` is `none` until one is taken. -/
structure Conn (σ : Type) where
  snapshot : Option σ := none
  proxySet : Bool := false
  deriving DecidableEq

def Conn.snapshotTaken (c : Conn σ) : Bool := c.snapshot.isSome

structure Machine (σ : Type) where
  world : World σ
  conn : Conn σ := {}
  trace : List (World σ) := []
  deriving DecidableEq

/-- Which hooks the host gives the engine. Without persistence there is no slot; it is always given here. -/
structure Hooks where
  osProxy : Bool := true
  supported : Bool := true
  osDNS : Bool := false

/-- A `Set` that fails may leave any setting. -/
inductive SetOutcome (σ : Type) where
  | ok
  | failed (leaves : σ)

structure LeftoverIO where
  proxy : Bool := true
  dns : Bool := true

structure PromoteIO (σ : Type) where
  leftover : LeftoverIO := {}
  snapshot : Bool := true
  set : SetOutcome σ := .ok
  restore : Bool := true

namespace Machine

/-! ### Hook calls -/

def hook (m : Machine σ) (world : World σ) : Machine σ := { m with world, trace := m.trace ++ [world] }

def save (m : Machine σ) (snap : σ) : Machine σ := m.hook { m.world with slot := some snap }
def clear (m : Machine σ) : Machine σ := m.hook { m.world with slot := none }

def restore (m : Machine σ) (ok : Bool) (snap : σ) : Machine σ :=
  m.hook (if ok then { m.world with os := snap } else m.world)

def set (m : Machine σ) (tunnel : σ) : SetOutcome σ → Machine σ
  | .ok => m.hook { m.world with os := tunnel }
  | .failed leaves => m.hook { m.world with os := leaves }

/-! ### The engine -/

def restoreLeftoverSnapshot (hooks : Hooks) (io : LeftoverIO) (m : Machine σ) : Bool × Machine σ :=
  match m.world.slot with
  | none => (true, m)
  | some snap =>
    let m := if hooks.osProxy then m.restore io.proxy snap else m
    -- the DNS hook leaves the proxy setting alone
    let m := if hooks.osDNS then m.hook m.world else m
    let restored := (hooks.osProxy || hooks.osDNS) && (!hooks.osProxy || io.proxy) && (!hooks.osDNS || io.dns)
    if restored then (true, m.clear) else (false, m)

/-- The part of `applyProxy` from `Set` on, for a connection that holds the snapshot `snap`. -/
def pointProxy (io : PromoteIO σ) (tunnel snap : σ) (m : Machine σ) : Machine σ :=
  let m := { m with conn := { m.conn with proxySet := true } }
  match io.set with
  | .ok => (m.set tunnel .ok).save snap
  | .failed leaves =>
    let m := (m.set tunnel (.failed leaves)).restore io.restore snap
    if io.restore then ({ m with conn := { m.conn with proxySet := false } }).clear else m

def applyProxy (hooks : Hooks) (io : PromoteIO σ) (tunnel : σ) (m : Machine σ) : Machine σ :=
  if !hooks.osProxy || !hooks.supported then m
  else match m.conn.snapshot with
    | some snap => m.pointProxy io tunnel snap
    | none =>
      let (restored, m) := m.restoreLeftoverSnapshot hooks io.leftover
      if !restored then m
      else if !io.snapshot then m.hook m.world
      else
        let m := m.hook m.world
        let snap := m.world.os
        ({ m with conn := { m.conn with snapshot := some snap } }.save snap).pointProxy io tunnel snap

/-- `releaseProxy`. A connection whose proxy is set holds a snapshot. -/
def releaseProxy (hooks : Hooks) (ok : Bool) (m : Machine σ) : Bool × Machine σ :=
  match m.conn.proxySet, m.conn.snapshot with
  | true, some snap =>
    if !hooks.osProxy then (false, m)
    else
      let m := m.restore ok snap
      if ok then (true, { m with conn := { m.conn with proxySet := false } }) else (false, m)
  | _, _ => (true, m)

def cleanupConn (hooks : Hooks) (ok : Bool) (m : Machine σ) : Machine σ :=
  let (restored, m) := m.releaseProxy hooks ok
  let m := if restored && m.conn.snapshotTaken then m.clear else m
  { m with conn := {} }

/-! ### Runs -/

inductive Op (σ : Type) where
  | start (io : LeftoverIO)
  | promote (tunnel : σ) (io : PromoteIO σ)
  | release (ok : Bool)
  | cleanup (ok : Bool)

def apply (hooks : Hooks) (m : Machine σ) : Op σ → Machine σ
  | .start io => (m.restoreLeftoverSnapshot hooks io).2
  | .promote tunnel io => m.applyProxy hooks io tunnel
  | .release ok => (m.releaseProxy hooks ok).2
  | .cleanup ok => m.cleanupConn hooks ok

/-- A crash may come after any hook call; it leaves the world and a new process. -/
inductive Reachable (hooks : Hooks) (original : σ) (allowed : Machine σ → Op σ → Prop) : Machine σ → Prop
  | init : Reachable hooks original allowed { world := { os := original } }
  | op {m : Machine σ} (op : Op σ) (may : allowed m op) :
      Reachable hooks original allowed m → Reachable hooks original allowed (m.apply hooks op)
  | crash {m : Machine σ} {world : World σ} (after : world ∈ m.trace) :
      Reachable hooks original allowed m → Reachable hooks original allowed { world }

end Machine

end OpenRung.Engine
