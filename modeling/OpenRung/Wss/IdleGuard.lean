import OpenRung.Lib.Trace

/-! The idle guard of a session (`wsscore/lifecycle.go`). A timer's callback runs at any time after it was scheduled,
    also when the timer was stopped too late. `onExpire` is called after the lock is released, so the call is a step
    of its own. -/

namespace OpenRung.Wss

structure IdleGuard where
  active : Nat := 0
  expired : Bool := false
  closed : Bool := false
  disarmed : Bool := false
  generation : Nat := 0
  -- the generation of the timer's callback
  timer : Nat := 0
  onExpire : Bool
  outstanding : List Nat := []
  due : Nat := 0
  made : Nat := 0
  deriving DecidableEq, Repr

namespace IdleGuard

def scheduleLocked (g : IdleGuard) : IdleGuard :=
  let generation := g.generation + 1
  { g with generation, timer := generation, outstanding := g.outstanding ++ [generation] }

def newIdleGuard (onExpire : Bool) : IdleGuard := scheduleLocked { onExpire }

/-- `timer.Stop()`, which may come in time or too late. -/
def stop (g : IdleGuard) (inTime : Bool) : IdleGuard :=
  if inTime then { g with outstanding := g.outstanding.erase g.timer } else g

def start (g : IdleGuard) (inTime : Bool) : Bool × IdleGuard :=
  if g.closed || g.expired then (false, g)
  else
    let g := if g.active = 0 then stop { g with generation := g.generation + 1 } inTime else g
    (true, { g with active := g.active + 1 })

def done (g : IdleGuard) : IdleGuard :=
  if g.closed || g.active = 0 then g
  else
    let g := { g with active := g.active - 1 }
    if g.active = 0 && !g.disarmed then scheduleLocked g else g

def disarm (g : IdleGuard) (inTime : Bool) : IdleGuard :=
  if g.disarmed then g else stop { g with disarmed := true, generation := g.generation + 1 } inTime

def close (g : IdleGuard) (inTime : Bool) : IdleGuard :=
  stop { g with closed := true, generation := g.generation + 1 } inTime

def expire (g : IdleGuard) (generation : Nat) : IdleGuard :=
  if g.closed || g.expired || g.active ≠ 0 || generation ≠ g.generation then g
  else { g with expired := true, due := if g.onExpire then g.due + 1 else g.due }

end IdleGuard

inductive GuardLabel where
  | start (inTime : Bool)
  | done
  | disarm (inTime : Bool)
  | close (inTime : Bool)
  | callback (generation : Nat)
  | onExpire
  deriving DecidableEq, Repr

def IdleGuard.next (g : IdleGuard) : GuardLabel → Option IdleGuard
  | .start inTime => some (g.start inTime).2
  | .done => some g.done
  | .disarm inTime => some (g.disarm inTime)
  | .close inTime => some (g.close inTime)
  | .callback generation =>
    if generation ∈ g.outstanding then
      some (expire { g with outstanding := g.outstanding.erase generation } generation)
    else none
  | .onExpire => if 0 < g.due then some { g with due := g.due - 1, made := g.made + 1 } else none

def IdleGuard.Step (g : IdleGuard) (label : GuardLabel) (g' : IdleGuard) : Prop := g.next label = some g'

end OpenRung.Wss
