import OpenRung.Lib.Trace
import Mathlib.Data.Finset.Basic

/-! The public ports of the hub (`internal/tunnel/allocator.go`) and the goroutines that hold them (`handleControl`
    and `tunnel.run` in `server.go`). Whether a port can be bound is an argument of every call. -/

namespace OpenRung.Tunnel

/-! ### The allocator -/

structure PortAllocator where
  start : Nat
  stop : Nat
  next : Nat
  inUse : Finset Nat := ∅
  range : 1 ≤ start ∧ start ≤ stop ∧ stop ≤ 65535
  cursor : start ≤ next ∧ next ≤ stop

def newPortAllocator (start stop : Int) : Except String PortAllocator :=
  if invalid : start < 1 ∨ stop > 65535 ∨ start > stop then .error s!"invalid port range {start}-{stop}"
  else .ok { start := start.toNat, stop := stop.toNat, next := start.toNat, range := by omega, cursor := by omega }

namespace PortAllocator

def advance (a : PortAllocator) : PortAllocator :=
  { a with
    next := if a.next + 1 > a.stop then a.start else a.next + 1
    cursor := by
      have := a.cursor
      have := a.range
      split <;> omega }

/-- The port, if one was found, the allocator, and the ports visited. -/
def allocateLoop (bindable : Nat → Bool) : Nat → PortAllocator → Option Nat × PortAllocator × List Nat
  | 0, a => (none, a, [])
  | n + 1, a =>
    let port := a.next
    let a := a.advance
    if port ∈ a.inUse ∨ !bindable port then
      let (found, a, visited) := allocateLoop bindable n a
      (found, a, port :: visited)
    else (some port, { a with inUse := insert port a.inUse }, [port])

def allocate (a : PortAllocator) (bindable : Nat → Bool) : Option Nat × PortAllocator × List Nat :=
  allocateLoop bindable (a.stop - a.start + 1) a

def release (a : PortAllocator) (port : Nat) : PortAllocator := { a with inUse := a.inUse.erase port }

end PortAllocator

/-! ### Connections -/

/-- It opens the public listener, registers with the broker, writes the acknowledgement and starts the session, and
    then the tunnel runs. -/
inductive Stage where
  | listen
  | register
  | ack
  | serve
  | running
  deriving DecidableEq, Repr

inductive HandlerPC where
  | hello
  | holding (stage : Stage) (port : Nat)
  | gone
  deriving DecidableEq, Repr

inductive PortEvent where
  | allocated (port : Nat)
  | released (port : Nat)
  deriving DecidableEq, Repr

structure PortHub where
  allocator : PortAllocator
  handlers : Nat → HandlerPC := fun _ => .hello
  log : List (Nat × PortEvent) := []

inductive PortLabel where
  | refuse
  | allocate (bindable : Nat → Bool)
  | succeed
  | fail
  | teardown

def Stage.following : Stage → Option Stage
  | .listen => some .register
  | .register => some .ack
  | .ack => some .serve
  | .serve => some .running
  | .running => none

namespace PortHub

def goTo (h : PortHub) (i : Nat) (pc : HandlerPC) : PortHub := { h with handlers := Function.update h.handlers i pc }

def drop (h : PortHub) (i port : Nat) : PortHub :=
  { h.goTo i .gone with allocator := h.allocator.release port, log := h.log ++ [(i, .released port)] }

def next (h : PortHub) (label : Nat × PortLabel) : Option PortHub :=
  let i := label.1
  match label.2, h.handlers i with
  | .refuse, .hello => some (h.goTo i .gone)
  | .allocate bindable, .hello =>
    match h.allocator.allocate bindable with
    | (none, allocator, _) => some { h.goTo i .gone with allocator }
    | (some port, allocator, _) =>
      some { h.goTo i (.holding .listen port) with allocator, log := h.log ++ [(i, .allocated port)] }
  | .succeed, .holding stage port => stage.following.map fun stage => h.goTo i (.holding stage port)
  | .fail, .holding stage port => if stage = .running then none else some (h.drop i port)
  | .teardown, .holding stage port => if stage = .running then some (h.drop i port) else none
  | _, _ => none

def Step (h : PortHub) (label : Nat × PortLabel) (h' : PortHub) : Prop := h.next label = some h'

end PortHub

end OpenRung.Tunnel
