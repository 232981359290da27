import Mathlib.Logic.Relation
import OpenRung.Broker.Registry
import OpenRung.Relay.LeaseSync

/-! The broker's store together with one relay that runs the lease worker. The two share no clock. A poll is answered
    from one read of the store, and an acknowledgement may arrive late, more than once or never. -/

namespace OpenRung
open Broker Relay

def leaseSyncResponse (set : RelayLeaseSet) (now : Time) : LeaseSyncResponse where
  serverTime := now
  revision := set.revision
  leases := set.leases.map fun l => { id := l.id, credential := l.credential, expiresAt := l.expiresAt }

def Broker.Op.Outside (r : String) : Op → Prop
  | .register _ _ _ => False
  | .ackLeaseRevision relayID _ _ => relayID ≠ r
  | _ => True

def Relay.Worker.polling (w : Worker) : Bool :=
  match w.phase with
  | .polling _ _ _ _ => true
  | _ => false

/-- A worker of a session that starts: its Xray has no lease users. -/
def Relay.Worker.fresh (clock : Time) (session : LeaseSession) : Worker where
  clock := clock
  session := session
  sync := { active := true }

/-- `acks` are the acknowledgements sent, with their tokens. The last three fields are history: the lease tokens
    drawn, those drawn before the relay last lost its users, and every lease the store has ever held. -/
structure System where
  store : Store := {}
  clock : Time
  relay : Worker
  reply : Option LeaseSyncResponse := none
  acks : List (String × Nat) := []
  tokens : List String := []
  retired : List String := []
  seen : List Lease := []

namespace System

def start (clock relayClock : Time) : System where
  clock := clock
  relay := .fresh relayClock {}

def Used (sys : System) (id : String) : Prop := ∃ l ∈ sys.seen, l.id = id

def setStore (sys : System) (store : Store) : System := { sys with store, seen := store.leases.values ++ sys.seen }

/-- What the relay's step leaves of the messages. An answer goes to the poll that asked for it or is lost. -/
def setRelay (sys : System) (relay : Worker) (label : Label) : System :=
  { sys with
    relay
    reply := if relay.polling then sys.reply else none
    acks := match label with
      | .acked _ token revision => (token, revision) :: sys.acks
      | _ => sys.acks }

/-- A step with store operations that `admits` lets in. The relay `r` stays active, its Xray calls that fail have no
    effect, and its Xray loses its users only together with a registration. -/
inductive Step (checks : RegisterChecks) (r : String) (admits : System → Time → Op → Prop) (sys : System) : System → Prop
  | tick (t : Time) (later : sys.clock ≤ t) : Step checks r admits sys { sys with clock := t }
  | operate (t : Time) (op : Op) (outside : op.Outside r) (fresh : op.Fresh sys.Used) (admitted : admits sys t op) :
      Step checks r admits sys (sys.setStore (sys.store.apply checks t op).1)
  | register (t : Time) (req : RegisterRequest) (draws : Store.RegisterDraws) (ttl : Duration)
      (fresh : ∀ token, draws.leaseToken = some token → token ∉ sys.tokens) :
      Step checks r admits sys
        { sys with
          store := (sys.store.register checks req draws t ttl).1
          tokens := draws.leaseToken.toList ++ sys.tokens }
  | restart (t : Time) (req : RegisterRequest) (draws : Store.RegisterDraws) (ttl : Duration) (token : String)
      (drawn : draws.leaseToken = some token) (fresh : token ∉ sys.tokens)
      (registered : (sys.store.register checks req draws t ttl).1.leaseRelayAuthorized r token) :
      Step checks r admits sys
        { sys with
          store := (sys.store.register checks req draws t ttl).1
          relay := .fresh sys.relay.clock { id := r, token, generation := 1 }
          reply := none
          tokens := token :: sys.tokens
          retired := sys.tokens }
  -- One read of the poll handler, for the poll that the relay waits for.
  | serve (id token : String) (full : Bool) (applied : Nat) (asking : sys.relay.phase = .polling id token full applied)
      (t : Time) (past : t ≤ sys.clock) (set : RelayLeaseSet) (read : sys.store.relayLeaseSet id token t = .ok set) :
      Step checks r admits sys { sys with reply := some (leaseSyncResponse set t) }
  | deliver (token : String) (revision : Nat) (sent : (token, revision) ∈ sys.acks) :
      Step checks r admits sys { sys with store := (sys.store.ackLeaseRevision r token revision).1 }
  -- The relay learns a token from the answer to a registration.
  | learn (token : String) (given : token ∈ sys.tokens) :
      Step checks r admits sys { sys with relay := { sys.relay with session := sys.relay.session.set r token } }
  | relay (relay : Worker) (label : Label) (step : Worker.Step (· ≠ .ambiguous) sys.relay label relay)
      (session : relay.session = sys.relay.session) (active : relay.sync.active = true)
      (answered : ∀ poll, label = .answered poll → sys.reply = some poll.resp) :
      Step checks r admits sys (sys.setRelay relay label)

def Steps (checks : RegisterChecks) (r : String) : System → System → Prop :=
  Relation.ReflTransGen (Step checks r fun _ _ _ => True)

end System

end OpenRung
