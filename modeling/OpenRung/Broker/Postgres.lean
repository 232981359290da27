import OpenRung.Lib.Table
import OpenRung.Broker.Directory

/-! The relay directory of `PostgresStore` (`internal/broker/postgres_store.go`). Each transaction runs alone, so a
    call is a function from tables to tables. Times are at the precision of `timestamptz`. -/

namespace OpenRung.Broker

/-- The counters of a `relay_lease_state` row. -/
structure LeaseStateColumns where
  revision : Nat := 0
  appliedRevision : Int := 0
  deriving DecidableEq, Repr

structure Postgres where
  descriptors : KeyedMap String Descriptor := ∅
  users : KeyedMap String User := ∅
  leases : KeyedMap String Lease := ∅
  leaseStates : KeyedMap String LeaseStateColumns := ∅

inductive PgError where
  | store (error : StoreError)
  | database
  deriving DecidableEq, Repr

/-! ### What a column holds -/

def storableText (text : String) : Bool := !text.toList.contains (Char.ofNat 0)

def int4 (n : Int) : Bool := -2 ^ 31 ≤ n && n < 2 ^ 31

def Descriptor.texts (d : Descriptor) : List String :=
  [d.id, d.publicHost, d.protocol, d.clientID, d.realityPublicKey, d.shortID, d.serverName, d.flow, d.exitMode,
    d.relayVersion, d.label, d.transport, d.punchEndpoint, d.exitHost, d.nodeClass, d.identityPublicKey, d.leaseToken,
    d.operatorContact, d.accessHost] ++ d.wssFronts.flatMap fun front => [front.id, front.url]

/-- The row fits the column types of `relay_descriptors` and its `CHECK`s. -/
def Descriptor.storable (d : Descriptor) : Bool :=
  d.texts.all storableText && int4 d.publicPort && int4 d.maxSessions && int4 d.maxMbps &&
    1 ≤ d.publicPort && d.publicPort ≤ 65535 && 0 < d.maxSessions && 0 < d.maxMbps

namespace Postgres

/-! ### Registration -/

def registrationRow (desc : Descriptor) (geo : GeoLocation) : Descriptor :=
  { desc with geoLocation := geo, reachable := false, reachabilityCheckedAt := none, accessReachable := false,
              accessReachabilityCheckedAt := none }

/-- `INSERT … ON CONFLICT (public_host, public_port) DO UPDATE … WHERE … RETURNING`: no row is returned when the
    `WHERE` suppresses the update. -/
def upsertDescriptor (t : KeyedMap String Descriptor) (desc : Descriptor) :
    Except PgError (Option Descriptor × KeyedMap String Descriptor) :=
  if !desc.storable then .error .database
  else match t.values.find? fun row => Store.sameEndpoint row desc with
    | none =>
      let row := registrationRow desc {}
      if (t.lookup desc.id).isSome then .error .database else .ok (some row, t.insert desc.id row)
    | some old =>
      if old.nodeClass ≠ nodeClassFoundation ∨ desc.nodeClass = nodeClassFoundation ∨
          old.expiresAt ≤ desc.registeredAt then
        let row := registrationRow desc (if old.exitHost = desc.exitHost then old.geoLocation else {})
        if desc.id ≠ old.id ∧ (t.lookup desc.id).isSome then .error .database
        else .ok (some row, (t.erase old.id).insert desc.id row)
      else .ok (none, t)

/-- An upsert that returns no row was refused, and without a row nothing is committed. -/
def finishRegister (pg : Postgres) (commit : Descriptor → KeyedMap String Descriptor → Postgres) :
    Except PgError (Option Descriptor × KeyedMap String Descriptor) → Postgres × Except PgError Descriptor
  | .error e => (pg, .error e)
  | .ok (none, _) => (pg, .error (.store .nodeClassForbidden))
  | .ok (some row, descriptors) => (commit row descriptors, .ok row)

def register (pg : Postgres) (checks : RegisterChecks) (req : RegisterRequest) (draws : Store.RegisterDraws) (now : Time)
    (ttl : Duration) : Postgres × Except PgError Descriptor :=
  match checks.verifyIdentity req now with
  | .error e => (pg, .error (.store e))
  | .ok identityKey =>
    match checks.verifyWSSCapability req now with
    | .error e => (pg, .error (.store e))
    | .ok () =>
      match identityKey with
      | none =>
        match draws.relayID with
        | none => (pg, .error (.store .mint))
        | some id =>
          pg.finishRegister (fun _ descriptors => { pg with descriptors })
            (upsertDescriptor pg.descriptors (Store.newDescriptor req id "" false now ttl))
      | some key =>
        match draws.leaseToken with
        | none => (pg, .error (.store .mint))
        | some token =>
          let desc := Store.newDescriptor req (checks.deriveRelayID key) token true now ttl
          -- a relay that moved gives up the row at its old endpoint
          let moved := fun row : Descriptor => decide (row.id = desc.id) &&
            (decide (row.publicHost ≠ desc.publicHost) || decide (row.publicPort ≠ desc.publicPort))
          -- a new lease token is a new session, which has applied nothing yet
          let commit := fun (row : Descriptor) descriptors =>
            { pg with
              descriptors
              leaseStates := Table.upsert row.id {} ({ · with appliedRevision := 0 }) pg.leaseStates }
          pg.finishRegister commit (upsertDescriptor (Table.deleteWhere moved pg.descriptors) desc)

/-! ### Updates of a row -/

/-- Why the guarded `UPDATE` of a heartbeat found no row. -/
def heartbeatMissError (pg : Postgres) (id maxClass : String) : StoreError :=
  let found := Table.selectWhere (fun d => decide (d.id = id)) pg.descriptors
  let foundation := Table.selectWhere (fun d => decide (d.id = id) && decide (d.nodeClass = nodeClassFoundation))
    pg.descriptors
  if found ≠ [] ∧ foundation ≠ [] ∧ maxClass ≠ nodeClassFoundation then .nodeClassForbidden else .relayNotFound

def mayRenew (leaseToken maxClass : String) (d : Descriptor) : Bool :=
  d.tokenMatches leaseToken && (decide (d.nodeClass ≠ nodeClassFoundation) || decide (maxClass = nodeClassFoundation))

def renewed (clientID : String) (now : Time) (ttl : Duration) (d : Descriptor) : Descriptor :=
  { d with
    lastHeartbeatAt := now
    expiresAt := now + ttl
    clientID := if clientID = "" ∨ d.identityPublicKey = "" then d.clientID else clientID }

def heartbeat (pg : Postgres) (id leaseToken maxClass clientID : String) (now : Time) (ttl : Duration) :
    Postgres × Except PgError Descriptor :=
  if !([id, leaseToken, clientID].all storableText) then (pg, .error .database)
  else
    let guard := fun d : Descriptor => decide (d.id = id) && mayRenew leaseToken maxClass d
    match Table.selectWhere guard pg.descriptors with
    | [] => (pg, .error (.store (pg.heartbeatMissError id maxClass)))
    | d :: _ =>
      ({ pg with descriptors := Table.updateWhere guard (renewed clientID now ttl) pg.descriptors },
        .ok (renewed clientID now ttl d))

/-- An `UPDATE` of the row of `id` for the holder of its lease token, with its `text` arguments. -/
def updateRelay (pg : Postgres) (texts : List String) (id leaseToken : String) (set : Descriptor → Descriptor) :
    Postgres × Except PgError Unit :=
  if !(id :: leaseToken :: texts).all storableText then (pg, .error .database)
  else
    let guard := fun d : Descriptor => decide (d.id = id) && d.tokenMatches leaseToken
    match Table.selectWhere guard pg.descriptors with
    | [] => (pg, .error (.store .relayNotFound))
    | _ :: _ => ({ pg with descriptors := Table.updateWhere guard set pg.descriptors }, .ok ())

def updateGeo (pg : Postgres) (id leaseToken : String) (geo : GeoLocation) : Postgres × Except PgError Unit :=
  pg.updateRelay [geo.city, geo.country, geo.countryCode] id leaseToken ({ · with geoLocation := geo })

def updateReachability (pg : Postgres) (id leaseToken : String) (reachable : Bool) (checkedAt : Time) :
    Postgres × Except PgError Unit :=
  pg.updateRelay [] id leaseToken ({ · with reachable := reachable, reachabilityCheckedAt := some checkedAt })

def updateAccessReachability (pg : Postgres) (id leaseToken : String) (reachable : Bool) (checkedAt : Time) :
    Postgres × Except PgError Unit :=
  pg.updateRelay [] id leaseToken ({ · with accessReachable := reachable, accessReachabilityCheckedAt := some checkedAt })

/-! ### Pruning and listing -/

/-- `Prune`: expired descriptors and leases past their retention go, and the revision rows stay. -/
def prune (pg : Postgres) (now : Time) : Postgres × List Descriptor :=
  let expired := fun d : Descriptor => decide (d.expiresAt ≤ now)
  ({ pg with
     descriptors := Table.deleteWhere expired pg.descriptors
     leases := Table.deleteWhere (fun l => decide (l.expiresAt ≤ now - leaseRetention)) pg.leases },
    Table.selectWhere expired pg.descriptors)

def active (pg : Postgres) (now : Time) : List Descriptor :=
  Table.selectWhere (fun d => decide (d.expiresAt > now)) pg.descriptors

def leaseState (pg : Postgres) (relayID : String) : LeaseStateColumns := (pg.leaseStates.lookup relayID).getD {}

def applied (pg : Postgres) (relayID : String) : Int := (pg.leaseState relayID).appliedRevision

def direct (checks : RegisterChecks) (pg : Postgres) (now : Time) : DirectoryOp → Postgres × Except PgError Unit
  | .register req draws ttl =>
    let (pg', result) := pg.register checks req draws now ttl
    (pg', result.map fun _ => ())
  | .heartbeat id leaseToken maxClass clientID ttl =>
    let (pg', result) := pg.heartbeat id leaseToken maxClass clientID now ttl
    (pg', result.map fun _ => ())
  | .updateGeo id leaseToken geo => pg.updateGeo id leaseToken geo
  | .updateReachability id leaseToken reachable checkedAt => pg.updateReachability id leaseToken reachable checkedAt
  | .updateAccessReachability id leaseToken reachable checkedAt =>
    pg.updateAccessReachability id leaseToken reachable checkedAt
  | .prune => ((pg.prune now).1, .ok ())

end Postgres

def Store.active (s : Store) (now : Time) : List Descriptor := s.relays.values.filter fun d => decide (now < d.expiresAt)

/-! ### Calls that both stores can take -/

/-- The arguments of a call fit the columns they are stored in or compared with. -/
def DirectoryOp.storable : DirectoryOp → Bool
  | .register req _ _ =>
    (Store.newDescriptor req "" "" true 0 0).storable
  | .heartbeat id leaseToken _ clientID _ => [id, leaseToken, clientID].all storableText
  | .updateGeo id leaseToken geo => [id, leaseToken, geo.city, geo.country, geo.countryCode].all storableText
  | .updateReachability id leaseToken _ _ => [id, leaseToken].all storableText
  | .updateAccessReachability id leaseToken _ _ => [id, leaseToken].all storableText
  | .prune => true

/-- A random id is not in use, a lease token is not empty, and both are plain texts. -/
def DirectoryOp.Minted (s : Store) : DirectoryOp → Prop
  | .register _ draws _ =>
    (∀ id, draws.relayID = some id → s.relays.lookup id = none ∧ storableText id = true) ∧
    ∀ token, draws.leaseToken = some token → token ≠ "" ∧ storableText token = true
  | _ => True

inductive BothDirectories (crypto : IdentityCrypto) : Store → Postgres → Prop
  | start : BothDirectories crypto {} {}
  | call {s : Store} {pg : Postgres} (now : Time) (op : DirectoryOp) : BothDirectories crypto s pg →
    op.storable = true → op.Minted s →
    BothDirectories crypto (s.direct crypto.checks now op).1 (pg.direct crypto.checks now op).1

end OpenRung.Broker
