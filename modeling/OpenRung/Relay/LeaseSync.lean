import OpenRung.Broker.Lease

/-! The relay's lease worker (`internal/relayruntime/engine/leases.go`) over its Xray
    (`internal/relayruntime/xrayctl.go`). It polls the broker for the leases to accept, reconciles Xray's users to
    them and acknowledges the revision. Its mutex is held for one operation at a time, so the expiry sweep and a
    re-registration fall between any two of the steps. -/

namespace OpenRung.Relay

structure LeaseEntry where
  id : String
  credential : String
  expiresAt : Time
  deriving DecidableEq, Repr

structure LeaseSyncResponse where
  serverTime : Time
  revision : Nat
  leases : List LeaseEntry
  deriving DecidableEq, Repr

def leaseEmailPrefix : String := "lease-"

def leaseEmail (id : String) : String := leaseEmailPrefix ++ id

/-! ### Xray -/

abbrev Xray := KeyedMap String String

/-- `ambiguous` is an error after the call took effect, as when the `xray api` child timed out or was killed. -/
inductive Outcome where
  | ok
  | failed
  | ambiguous
  deriving DecidableEq, Repr

def Outcome.run (outcome : Outcome) (before after : Xray) : Xray × Bool :=
  match outcome with
  | .ok => (after, true)
  | .failed => (before, false)
  | .ambiguous => (after, false)

/-- Xray keeps a user that already has the label, and the call counts that as success. -/
def Xray.addUser (x : Xray) (credential email : String) (outcome : Outcome) : Xray × Bool :=
  if credential = "" then (x, false)
  else outcome.run x (if (x.lookup email).isSome then x else x.insert email credential)

/-- `RemoveUser`. An unknown label counts as success. -/
def Xray.removeUser (x : Xray) (email : String) (outcome : Outcome) : Xray × Bool :=
  outcome.run x (x.erase email)

/-! ### Installed leases -/

/-- With its expiry on the relay's clock. -/
structure InstalledLease where
  credential : String
  expiresAt : Time
  deriving DecidableEq, Repr

/-- The worker's belief beside what Xray accepts. `recorded` is history: the local expiry that each lease was last
    given. -/
structure Users where
  installed : KeyedMap String InstalledLease := ∅
  xray : Xray := ∅
  recorded : KeyedMap String Time := ∅

namespace Users

def addNew (u : Users) (entry : LeaseEntry) (localExpiry : Time) (outcome : Outcome) : Users × Bool :=
  let called := u.xray.addUser entry.credential (leaseEmail entry.id) outcome
  if called.2 then
    ({ installed := u.installed.insert entry.id { credential := entry.credential, expiresAt := localExpiry }
       xray := called.1
       recorded := u.recorded.insert entry.id localExpiry }, true)
  else ({ u with xray := called.1 }, false)

/-- Only moves the local expiry when the same credential is installed. A changed credential is a removal and an
    addition. -/
def install (u : Users) (entry : LeaseEntry) (localExpiry : Time) (removal addition : Outcome) : Users × Bool :=
  match u.installed.lookup entry.id with
  | none => u.addNew entry localExpiry addition
  | some current =>
    if current.credential = entry.credential then
      ({ u with
         installed := u.installed.insert entry.id { current with expiresAt := localExpiry }
         recorded := u.recorded.insert entry.id localExpiry }, true)
    else
      let called := u.xray.removeUser (leaseEmail entry.id) removal
      if called.2 then
        addNew { u with installed := u.installed.erase entry.id, xray := called.1 } entry localExpiry addition
      else ({ u with xray := called.1 }, false)

/-- A lease that is not installed is no error. -/
def remove (u : Users) (id : String) (outcome : Outcome) : Users × Bool :=
  match u.installed.lookup id with
  | none => (u, true)
  | some _ =>
    let called := u.xray.removeUser (leaseEmail id) outcome
    if called.2 then ({ u with installed := u.installed.erase id, xray := called.1 }, true)
    else ({ u with xray := called.1 }, false)

/-- Removed once its local expiry has passed, and kept for the next sweep on an error. -/
def expireOne (now : Time) (outcome : String → Outcome) (u : Users) (id : String) : Users :=
  match u.installed.lookup id with
  | none => u
  | some lease => if now < lease.expiresAt then u else (u.remove id (outcome id)).1

def expireLocal (u : Users) (now : Time) (outcome : String → Outcome) : Users :=
  u.installed.keys.foldl (expireOne now outcome) u

end Users

/-! ### The worker -/

structure LeaseSession where
  id : String := ""
  token : String := ""
  generation : Nat := 0
  deriving DecidableEq, Repr

def LeaseSession.set (s : LeaseSession) (id token : String) : LeaseSession :=
  if id = s.id ∧ token = s.token then s else { id, token, generation := s.generation + 1 }

structure LeaseSync where
  applied : Nat := 0
  pendingAck : Bool := false
  full : Bool := true
  generation : Nat := 0
  announced : Bool := false
  active : Bool := false
  deriving DecidableEq, Repr

namespace LeaseSync

def setActive (l : LeaseSync) (active : Bool) : LeaseSync :=
  if active then { l with active, full := true, pendingAck := false } else { l with active }

/-- A new session starts over with a full fetch and ack. -/
def beginCycle (l : LeaseSync) (generation : Nat) : LeaseSync :=
  if generation = l.generation then l else { l with generation, full := true, pendingAck := false }

/-- `full` is the flag the cycle started with. -/
def finishCycle (l : LeaseSync) (full : Bool) (revision : Nat) : LeaseSync :=
  { l with
    applied := revision
    pendingAck := full || revision != l.applied || l.pendingAck
    full := false }

def confirmAck (l : LeaseSync) (revision : Nat) : LeaseSync :=
  { l with pendingAck := if l.applied = revision then false else l.pendingAck, announced := true }

end LeaseSync

/-- A poll answer as the worker took it: with which session and flag, and when on the relay's clock. -/
structure Poll where
  id : String
  token : String
  full : Bool
  resp : LeaseSyncResponse
  receivedAt : Time
  deriving DecidableEq, Repr

namespace Poll

def remaining (p : Poll) (e : LeaseEntry) : Duration := e.expiresAt - p.resp.serverTime

def localExpiry (p : Poll) (e : LeaseEntry) : Time := p.receivedAt + p.remaining e

def unexpired (p : Poll) : List LeaseEntry := p.resp.leases.filter fun e => decide (0 < p.remaining e)

def desired (p : Poll) : List String := p.unexpired.map LeaseEntry.id

end Poll

/-- A reconcile goes through the entries of the answer and then through the installed leases that the answer lacks;
    `ok` is its result so far. -/
inductive Phase where
  | idle
  | draining (todo : List String)
  | opened (session : LeaseSession)
  | retrying (id token : String) (revision : Nat)
  | polling (id token : String) (full : Bool) (applied : Nat)
  | installing (poll : Poll) (todo : List LeaseEntry) (ok : Bool)
  | removing (poll : Poll) (todo : List String) (ok : Bool)
  | acking (id token : String) (revision : Nat)

/-- `appliedSet` is history: the answer of the last reconcile that succeeded. -/
structure Worker where
  clock : Time
  session : LeaseSession := {}
  users : Users := {}
  sync : LeaseSync := {}
  phase : Phase := .idle
  appliedSet : Option Poll := none

inductive Label where
  | silent
  | answered (poll : Poll)
  | acked (id token : String) (revision : Nat)

namespace Worker

def finish (w : Worker) (poll : Poll) : Worker :=
  let sync := w.sync.finishCycle poll.full poll.resp.revision
  { w with
    sync
    phase := if sync.pendingAck then .acking poll.id poll.token poll.resp.revision else .idle
    appliedSet := some poll }

/-- A call that finds the registration gone asks for a full fetch. -/
def brokerError (w : Worker) (notFound : Bool) : Worker :=
  { w with sync := { w.sync with full := notFound || w.sync.full }, phase := .idle }

inductive Step (may : Outcome → Prop) (w : Worker) : Label → Worker → Prop
  | tick (t : Time) (later : w.clock ≤ t) : Step may w .silent { w with clock := t }
  | sweep (outcome : String → Outcome) (possible : ∀ id, may (outcome id)) :
      Step may w .silent { w with users := w.users.expireLocal w.clock outcome }
  | newSession (id token : String) : Step may w .silent { w with session := w.session.set id token }
  | setActive (active : Bool) : Step may w .silent { w with sync := w.sync.setActive active }
  -- While inactive the loop drains.
  | drain (here : w.phase = .idle) (inactive : w.sync.active = false) :
      Step may w .silent { w with phase := .draining w.users.installed.keys }
  | drainOne {id : String} {todo : List String} (here : w.phase = .draining (id :: todo)) (outcome : Outcome)
      (possible : may outcome) :
      Step may w .silent { w with users := (w.users.remove id outcome).1, phase := .draining todo }
  | drained (here : w.phase = .draining []) : Step may w .silent { w with phase := .idle }
  -- While active it runs one cycle after another.
  | openSession (here : w.phase = .idle) (active : w.sync.active = true) (known : w.session.id ≠ "" ∧ w.session.token ≠ "") :
      Step may w .silent { w with phase := .opened w.session }
  | retry {session : LeaseSession} (here : w.phase = .opened session)
      (pending : (w.sync.beginCycle session.generation).pendingAck = true)
      (incremental : (w.sync.beginCycle session.generation).full = false) :
      Step may w (.acked session.id session.token (w.sync.beginCycle session.generation).applied)
        { w with
          sync := w.sync.beginCycle session.generation
          phase := .retrying session.id session.token (w.sync.beginCycle session.generation).applied }
  | poll {session : LeaseSession} (here : w.phase = .opened session)
      (nothingPending : (w.sync.beginCycle session.generation).pendingAck = true →
        (w.sync.beginCycle session.generation).full = true) :
      Step may w .silent
        { w with
          sync := w.sync.beginCycle session.generation
          phase := .polling session.id session.token (w.sync.beginCycle session.generation).full
            (w.sync.beginCycle session.generation).applied }
  | retryConfirmed {id token : String} {revision : Nat} (here : w.phase = .retrying id token revision) :
      Step may w .silent
        { w with sync := w.sync.confirmAck revision, phase := .polling id token false revision }
  | retryFailed {id token : String} {revision : Nat} (here : w.phase = .retrying id token revision) (notFound : Bool) :
      Step may w .silent (w.brokerError notFound)
  | answer {id token : String} {full : Bool} {applied : Nat} (here : w.phase = .polling id token full applied)
      (resp : LeaseSyncResponse) (distinct : (resp.leases.map LeaseEntry.id).Nodup) :
      Step may w (.answered { id, token, full, resp, receivedAt := w.clock })
        { w with phase := .installing { id, token, full, resp, receivedAt := w.clock } resp.leases true }
  | pollFailed {id token : String} {full : Bool} {applied : Nat} (here : w.phase = .polling id token full applied)
      (notFound : Bool) : Step may w .silent (w.brokerError notFound)
  | skip {poll : Poll} {entry : LeaseEntry} {todo : List LeaseEntry} {ok : Bool}
      (here : w.phase = .installing poll (entry :: todo) ok) (expired : poll.remaining entry ≤ 0) :
      Step may w .silent { w with phase := .installing poll todo ok }
  | install {poll : Poll} {entry : LeaseEntry} {todo : List LeaseEntry} {ok : Bool}
      (here : w.phase = .installing poll (entry :: todo) ok) (unexpired : 0 < poll.remaining entry)
      (removal addition : Outcome) (possible : may removal ∧ may addition) :
      Step may w .silent
        { w with
          users := (w.users.install entry (poll.localExpiry entry) removal addition).1
          phase := .installing poll todo (ok && (w.users.install entry (poll.localExpiry entry) removal addition).2) }
  | startRemoving {poll : Poll} {ok : Bool} (here : w.phase = .installing poll [] ok) :
      Step may w .silent
        { w with
          phase := .removing poll (w.users.installed.keys.filter fun id => decide (id ∉ poll.desired)) ok }
  | removeOne {poll : Poll} {id : String} {todo : List String} {ok : Bool}
      (here : w.phase = .removing poll (id :: todo) ok) (outcome : Outcome) (possible : may outcome) :
      Step may w .silent
        { w with
          users := (w.users.remove id outcome).1
          phase := .removing poll todo (ok && (w.users.remove id outcome).2) }
  | reconcileFailed {poll : Poll} (here : w.phase = .removing poll [] false) :
      Step may w .silent { w with sync := { w.sync with full := true }, phase := .idle }
  | finishAcking {poll : Poll} (here : w.phase = .removing poll [] true)
      (pending : (w.sync.finishCycle poll.full poll.resp.revision).pendingAck = true) :
      Step may w (.acked poll.id poll.token poll.resp.revision) (w.finish poll)
  | finishQuiet {poll : Poll} (here : w.phase = .removing poll [] true)
      (nothingPending : (w.sync.finishCycle poll.full poll.resp.revision).pendingAck = false) :
      Step may w .silent (w.finish poll)
  | ackConfirmed {id token : String} {revision : Nat} (here : w.phase = .acking id token revision) :
      Step may w .silent { w with sync := w.sync.confirmAck revision, phase := .idle }
  | ackFailed {id token : String} {revision : Nat} (here : w.phase = .acking id token revision) (notFound : Bool) :
      Step may w .silent (w.brokerError notFound)

end Worker

end OpenRung.Relay
