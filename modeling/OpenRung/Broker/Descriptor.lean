import OpenRung.Broker.Lease

/-! Relay registrations and the descriptors the broker keeps of them (`internal/relay/types.go`). -/

namespace OpenRung.Broker

def nodeClassFoundation : String := "foundation"
def nodeClassVolunteer : String := "volunteer"
def transportDirect : String := "direct"
def transportTunnel : String := "tunnel"

abbrev IdentityKey := List UInt8

structure WSSFrontDescriptor where
  id : String
  url : String
  protocolVersion : Int
  deriving DecidableEq, Repr

structure GeoLocation where
  city : String := ""
  country : String := ""
  countryCode : String := ""
  latitude : Float := 0
  longitude : Float := 0
  deriving Repr, Inhabited

structure RegisterRequest where
  publicHost : String := ""
  publicPort : Int := 0
  protocol : String := ""
  clientID : String := ""
  realityPublicKey : String := ""
  shortID : String := ""
  serverName : String := ""
  flow : String := ""
  exitMode : String := ""
  maxSessions : Int := 0
  maxMbps : Int := 0
  relayVersion : String := ""
  label : String := ""
  operatorContact : String := ""
  nodeClass : String := ""
  transport : String := ""
  punchCapable : Bool := false
  punchEndpoint : String := ""
  wssFronts : List WSSFrontDescriptor := []
  wssCapabilityProof : String := ""
  wssCapabilityExpiresAt : String := ""
  exitHost : String := ""
  identityPublicKey : String := ""
  identityProof : String := ""
  identityExpiresAt : String := ""
  accessLeases : Bool := false
  accessHost : String := ""
  deriving Repr

/-- The broker's record of one registration. The `checkedAt` times are `none` for the zero time. -/
structure Descriptor where
  id : String := ""
  label : String := ""
  publicHost : String := ""
  publicPort : Int := 0
  geoLocation : GeoLocation := {}
  exitHost : String := ""
  identityPublicKey : String := ""
  leaseToken : String := ""
  leaseCapable : Bool := false
  operatorContact : String := ""
  accessHost : String := ""
  reachable : Bool := false
  reachabilityCheckedAt : Option Time := none
  accessReachable : Bool := false
  accessReachabilityCheckedAt : Option Time := none
  nodeClass : String := ""
  protocol : String := ""
  clientID : String := ""
  realityPublicKey : String := ""
  shortID : String := ""
  serverName : String := ""
  flow : String := ""
  exitMode : String := ""
  maxSessions : Int := 0
  maxMbps : Int := 0
  relayVersion : String := ""
  transport : String := ""
  punchCapable : Bool := false
  punchEndpoint : String := ""
  wssFronts : List WSSFrontDescriptor := []
  registeredAt : Time := 0
  lastHeartbeatAt : Time := 0
  expiresAt : Time := 0
  deriving Repr, Inhabited

def normalizeTransport (transport : String) : String := if transport = "" then transportDirect else transport

def normalizeNodeClass (cls : String) : String := if cls = "" then nodeClassVolunteer else cls

/-- The proof checks of a registration: possession of the identity key, possession for the WSS fronts, and the id
    derived from a key. -/
structure RegisterChecks where
  verifyIdentity : RegisterRequest → Time → Except StoreError (Option IdentityKey)
  verifyWSSCapability : RegisterRequest → Time → Except StoreError Unit
  deriveRelayID : IdentityKey → String

/-- A stable identity needs the token of its current registration, and a legacy row needs none. -/
def Descriptor.tokenMatches (d : Descriptor) (leaseToken : String) : Bool :=
  d.identityPublicKey == "" || (d.leaseToken != "" && d.leaseToken == leaseToken)

end OpenRung.Broker
