import OpenRung.Broker.Store

/-! The relay half of the store, `Prune`, and the operations of the whole store as one type. -/

namespace OpenRung.Broker
namespace Store

/-! ### Registration -/

/-- The descriptor a request asks for. An access host and the lease capability are honoured only with an
    identity. -/
def newDescriptor (req : RegisterRequest) (id leaseToken : String) (hasIdentity : Bool) (now : Time) (ttl : Duration) :
    Descriptor where
  id := id
  identityPublicKey := req.identityPublicKey
  leaseToken := leaseToken
  leaseCapable := req.accessLeases && hasIdentity
  label := req.label
  operatorContact := req.operatorContact
  nodeClass := normalizeNodeClass req.nodeClass
  publicHost := req.publicHost
  publicPort := req.publicPort
  exitHost := req.exitHost
  protocol := req.protocol
  clientID := req.clientID
  realityPublicKey := req.realityPublicKey
  shortID := req.shortID
  serverName := req.serverName
  flow := req.flow
  exitMode := req.exitMode
  maxSessions := req.maxSessions
  maxMbps := req.maxMbps
  relayVersion := req.relayVersion
  transport := normalizeTransport req.transport
  punchCapable := req.punchCapable
  punchEndpoint := req.punchEndpoint
  wssFronts := req.wssFronts
  registeredAt := now
  lastHeartbeatAt := now
  expiresAt := now + ttl
  accessHost := if hasIdentity then req.accessHost else ""

def sameEndpoint (a b : Descriptor) : Bool := a.publicHost == b.publicHost && a.publicPort == b.publicPort

def newestRow (rows : List Descriptor) : Option Descriptor :=
  rows.foldl (fun best row => match best with
    | none => some row
    | some b => if b.registeredAt < row.registeredAt then some row else some b) none

/-- A row that is replaced hands on its location while the exit is unchanged. -/
def preserveGeo (replaced : List Descriptor) (desc : Descriptor) : Descriptor :=
  match newestRow (replaced.filter fun existing => existing.exitHost == desc.exitHost) with
  | none => desc
  | some kept => { desc with geoLocation := kept.geoLocation }

/-- A new lease token is a new relay session, which has applied nothing yet; the revision stays. -/
def replaceRow (s : Store) (desc : Descriptor) : Store :=
  let relays := (s.relays.filter fun _ existing => !sameEndpoint existing desc).insert desc.id desc
  if desc.leaseToken = "" then { s with relays }
  else { s with relays }.setLeaseState desc.id { s.leaseState desc.id with applied := 0 }

/-- The locked half of `Register`: each public host and port is one current descriptor, and an unexpired
    foundation row is not replaced by another class. -/
def installDescriptor (s : Store) (desc : Descriptor) (now : Time) : Store × Except StoreError Descriptor :=
  let replaced := s.relays.values.filter fun existing => sameEndpoint existing desc
  if replaced.any fun existing => desc.nodeClass != nodeClassFoundation &&
      existing.nodeClass == nodeClassFoundation && decide (now < existing.expiresAt) then
    (s, .error .nodeClassForbidden)
  else (s.replaceRow (preserveGeo replaced desc), .ok (preserveGeo replaced desc))

structure RegisterDraws where
  relayID : Option String
  leaseToken : Option String
  deriving Repr

def register (s : Store) (checks : RegisterChecks) (req : RegisterRequest) (draws : RegisterDraws) (now : Time)
    (ttl : Duration) : Store × Except StoreError Descriptor :=
  match checks.verifyIdentity req now with
  | .error e => (s, .error e)
  | .ok identityKey =>
    match checks.verifyWSSCapability req now with
    | .error e => (s, .error e)
    | .ok () =>
      match identityKey with
      | none =>
        match draws.relayID with
        | none => (s, .error .mint)
        | some id => s.installDescriptor (newDescriptor req id "" false now ttl) now
      | some key =>
        match draws.leaseToken with
        | none => (s, .error .mint)
        | some token => s.installDescriptor (newDescriptor req (checks.deriveRelayID key) token true now ttl) now

/-! ### Updates of a row -/

def updateRelay (s : Store) (id leaseToken : String) (update : Descriptor → Descriptor) :
    Store × Except StoreError Descriptor :=
  match s.relays.lookup id with
  | none => (s, .error .relayNotFound)
  | some desc =>
    if desc.tokenMatches leaseToken then
      ({ s with relays := s.relays.insert id (update desc) }, .ok (update desc))
    else (s, .error .relayNotFound)

/-- A foundation row needs a foundation credential, and only a row with an identity takes a new client id. -/
def heartbeat (s : Store) (id leaseToken maxClass clientID : String) (now : Time) (ttl : Duration) :
    Store × Except StoreError Descriptor :=
  match s.relays.lookup id with
  | none => (s, .error .relayNotFound)
  | some desc =>
    if desc.nodeClass = nodeClassFoundation ∧ maxClass ≠ nodeClassFoundation then (s, .error .nodeClassForbidden)
    else s.updateRelay id leaseToken fun desc =>
      { desc with
        lastHeartbeatAt := now
        expiresAt := now + ttl
        clientID := if clientID ≠ "" ∧ desc.identityPublicKey ≠ "" then clientID else desc.clientID }

def updateGeo (s : Store) (id leaseToken : String) (geo : GeoLocation) : Store × Except StoreError Descriptor :=
  s.updateRelay id leaseToken ({ · with geoLocation := geo })

def updateReachability (s : Store) (id leaseToken : String) (reachable : Bool) (checkedAt : Time) :
    Store × Except StoreError Descriptor :=
  s.updateRelay id leaseToken ({ · with reachable := reachable, reachabilityCheckedAt := some checkedAt })

def updateAccessReachability (s : Store) (id leaseToken : String) (reachable : Bool) (checkedAt : Time) :
    Store × Except StoreError Descriptor :=
  s.updateRelay id leaseToken ({ · with accessReachable := reachable, accessReachabilityCheckedAt := some checkedAt })

/-! ### Pruning -/

def pruneMetrics (s : Store) (cutoff : Time) : Store :=
  { s with
    observations := s.observations.filter fun o => decide (cutoff ≤ o.observedAt)
    sessions := s.sessions.filter fun _ session => match session.terminalAt with
      | none => true
      | some t => decide (cutoff ≤ t) }

def pruneEnrollment (s : Store) (now : Time) : Store :=
  let running := fun (counters : KeyedMap String EnrollmentCounter) =>
    counters.filter fun _ counter => decide (now < counter.windowStart + counter.window)
  { s with enrollment := (s.enrollment.keys.foldl (fun m source =>
      let counters := running ((s.enrollment.lookup source).getD ∅)
      if counters.entries.isEmpty then m.erase source else m.insert source counters) s.enrollment) }

def pruneLeases (s : Store) (now : Time) : Store :=
  { s with leases := s.leases.filter fun _ l => decide (now < l.expiresAt + leaseRetention) }

def prune (s : Store) (now : Time) : Store × List Descriptor :=
  let expired := s.relays.values.filter fun desc => !decide (now < desc.expiresAt)
  let s := { s with relays := s.relays.filter fun _ desc => decide (now < desc.expiresAt) }
  (((s.pruneMetrics (now - rankingWindow)).pruneEnrollment now).pruneLeases now, expired)

end Store

/-! ### Operations -/

inductive Op where
  | authenticateUser (canonicalPublicKey sourceKey : String) (windows : List EnrollmentWindow)
      (refuseNew : Option StoreError) (newUserID : Option String)
  | setUserStatus (id status reason : String)
  | issueLeases (req : LeaseIssueRequest) (mint : String → Option (String × String))
  | relayLeaseSet (relayID leaseToken : String)
  | ackLeaseRevision (relayID leaseToken : String) (revision : Int)
  | register (req : RegisterRequest) (draws : Store.RegisterDraws) (ttl : Duration)
  | heartbeat (id leaseToken maxClass clientID : String) (ttl : Duration)
  | updateGeo (id leaseToken : String) (geo : GeoLocation)
  | updateReachability (id leaseToken : String) (reachable : Bool)
  | updateAccessReachability (id leaseToken : String) (reachable : Bool)
  | prune

structure FreshMint (used : String → Prop) (mint : String → Option (String × String)) : Prop where
  unused : ∀ r id credential, mint r = some (id, credential) → ¬ used id
  distinct : ∀ r r' id c c', mint r = some (id, c) → mint r' = some (id, c') → r = r'

def Op.Fresh (used : String → Prop) : Op → Prop
  | .issueLeases _ mint => FreshMint used mint
  | _ => True

/-- The leases that an operation issued or extended, and the relays to wake. -/
structure Report where
  leases : List Lease := []
  changedRelayIDs : List String := []
  deriving DecidableEq, Repr

def Report.none : Report := {}

def Store.apply (checks : RegisterChecks) (s : Store) (now : Time) : Op → Store × Report
  | .authenticateUser key source windows refuseNew newUserID =>
    ((s.authenticateUser key source windows refuseNew newUserID now).1, .none)
  | .setUserStatus id status reason =>
    match s.setUserStatus id status reason now with
    | (s', .ok (_, changed)) => (s', { changedRelayIDs := changed })
    | (s', .error _) => (s', .none)
  | .issueLeases req mint =>
    match s.issueLeases req mint now with
    | (s', .ok result) => (s', { leases := result.leases, changedRelayIDs := result.changedRelayIDs })
    | (s', .error _) => (s', .none)
  | .relayLeaseSet _ _ => (s, .none)
  | .ackLeaseRevision relayID leaseToken revision => ((s.ackLeaseRevision relayID leaseToken revision).1, .none)
  | .register req draws ttl => ((s.register checks req draws now ttl).1, .none)
  | .heartbeat id leaseToken maxClass clientID ttl => ((s.heartbeat id leaseToken maxClass clientID now ttl).1, .none)
  | .updateGeo id leaseToken geo => ((s.updateGeo id leaseToken geo).1, .none)
  | .updateReachability id leaseToken reachable => ((s.updateReachability id leaseToken reachable now).1, .none)
  | .updateAccessReachability id leaseToken reachable =>
    ((s.updateAccessReachability id leaseToken reachable now).1, .none)
  | .prune => ((s.prune now).1, .none)

end OpenRung.Broker
