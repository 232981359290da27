import OpenRung.Broker.Registry
import OpenRung.Relay.Identity

/-! The relay directory of the store: the calls that write descriptors, and the stores that runs of them reach. -/

namespace OpenRung.Broker

inductive DirectoryOp where
  | register (req : RegisterRequest) (draws : Store.RegisterDraws) (ttl : Duration)
  | heartbeat (id leaseToken maxClass clientID : String) (ttl : Duration)
  | updateGeo (id leaseToken : String) (geo : GeoLocation)
  | updateReachability (id leaseToken : String) (reachable : Bool) (checkedAt : Time)
  | updateAccessReachability (id leaseToken : String) (reachable : Bool) (checkedAt : Time)
  | prune

def DirectoryOp.presents : DirectoryOp → Option (String × String)
  | .register _ _ _ => none
  | .heartbeat id leaseToken _ _ _ => some (id, leaseToken)
  | .updateGeo id leaseToken _ => some (id, leaseToken)
  | .updateReachability id leaseToken _ _ => some (id, leaseToken)
  | .updateAccessReachability id leaseToken _ _ => some (id, leaseToken)
  | .prune => none

def outcome {α : Type} (result : Except StoreError α) : Except StoreError Unit := result.map fun _ => ()

def Store.direct (checks : RegisterChecks) (s : Store) (now : Time) : DirectoryOp → Store × Except StoreError Unit
  | .register req draws ttl =>
    let (s', result) := s.register checks req draws now ttl
    (s', outcome result)
  | .heartbeat id leaseToken maxClass clientID ttl =>
    let (s', result) := s.heartbeat id leaseToken maxClass clientID now ttl
    (s', outcome result)
  | .updateGeo id leaseToken geo =>
    let (s', result) := s.updateGeo id leaseToken geo
    (s', outcome result)
  | .updateReachability id leaseToken reachable checkedAt =>
    let (s', result) := s.updateReachability id leaseToken reachable checkedAt
    (s', outcome result)
  | .updateAccessReachability id leaseToken reachable checkedAt =>
    let (s', result) := s.updateAccessReachability id leaseToken reachable checkedAt
    (s', outcome result)
  | .prune => ((s.prune now).1, .ok ())

/-- A random id is neither stored nor derived from one of the `keys`, and a proved key is one of the `keys`. -/
def DirectoryOp.Fresh (crypto : IdentityCrypto) (keys : Set IdentityKey) (s : Store) (now : Time) : DirectoryOp → Prop
  | .register req draws _ =>
    (∀ key, crypto.verifyIdentity req now = .ok (some key) → key ∈ keys) ∧
    ∀ id, draws.relayID = some id → s.relays.lookup id = none ∧ ∀ key ∈ keys, crypto.deriveRelayID key ≠ id
  | _ => True

inductive DirectoryRun (crypto : IdentityCrypto) (keys : Set IdentityKey) : Store → Time → Prop
  | start (now : Time) : DirectoryRun crypto keys {} now
  | call {s : Store} {before now : Time} (op : DirectoryOp) : DirectoryRun crypto keys s before → before ≤ now →
    op.Fresh crypto keys s now → DirectoryRun crypto keys (s.direct crypto.checks now op).1 now

end OpenRung.Broker
