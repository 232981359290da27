import OpenRung.Punch.Address
import OpenRung.Broker.Lease

/-! The punch rendezvous: the policy that clamps candidates (`punchcore/policy.go`), the hub's reflector
    (`punchcore/reflector.go`) and request handler (`internal/tunnel/punch.go`), and the candidates that a relay
    sprays for a directive (`internal/punch/session.go`, `punchcore/probe.go`). -/

namespace OpenRung.Punch

/-! ### Policies -/

/-- `Policy`, without the two flags that only discovery reads. -/
structure Policy where
  maxPeersPerKind : Nat
  requireGlobalSrflx : Bool := false
  singleSrflxIP : Bool := false
  deriving DecidableEq, Repr

def desktopPolicy : Policy := { maxPeersPerKind := 8 }
def mobilePolicy : Policy := { maxPeersPerKind := 4, requireGlobalSrflx := true, singleSrflxIP := true }

/-- With the candidates of each kind accepted so far and the address that server-reflexive ones are pinned to. -/
def Policy.sanitizeLoop (p : Policy) (hostN srflxN : Nat) (srflxIP : Option IP) : List Endpoint → List Endpoint
  | [] => []
  | e :: rest =>
    match parseIP e.ip with
    | none => p.sanitizeLoop hostN srflxN srflxIP rest
    | some ip =>
      if e.port < 1 ∨ e.port > 65535 ∨ ip.isMulticast ∨ ip.isUnspecified then p.sanitizeLoop hostN srflxN srflxIP rest
      else if e.kind = kindHost then
        if ip.isGloballyRoutable ∨ hostN ≥ p.maxPeersPerKind then p.sanitizeLoop hostN srflxN srflxIP rest
        else e :: p.sanitizeLoop (hostN + 1) srflxN srflxIP rest
      else if e.kind = kindSrflx then
        if (p.requireGlobalSrflx ∧ !ip.isGloballyRoutable) ∨ srflxN ≥ p.maxPeersPerKind then
          p.sanitizeLoop hostN srflxN srflxIP rest
        else if p.singleSrflxIP ∧ srflxIP.any (· ≠ ip) then p.sanitizeLoop hostN srflxN srflxIP rest
        else e :: p.sanitizeLoop hostN (srflxN + 1) (if p.singleSrflxIP then some ip else srflxIP) rest
      else p.sanitizeLoop hostN srflxN srflxIP rest

def Policy.sanitizePeers (p : Policy) (endpoints : List Endpoint) : List Endpoint :=
  p.sanitizeLoop 0 0 none (dedupeEndpoints endpoints)

/-! ### The reflector -/

inductive NATClass where
  | eim
  | symmetric
  | unknown
  deriving DecidableEq, Repr

structure ReflectObservation where
  endpoints : KeyedMap Bytes Endpoint := ∅
  seen : Time

structure Reflector where
  obs : KeyedMap Bytes ReflectObservation := ∅

structure MapOrder where
  order : List Endpoint → List Endpoint
  perm : ∀ values, (order values).Perm values

namespace Reflector

def record (r : Reflector) (now : Time) (nonce localIP : Bytes) (observed : Endpoint) : Reflector :=
  let endpoints := match r.obs.lookup nonce with
    | some entry => entry.endpoints
    | none => ∅
  { obs := r.obs.insert nonce { endpoints := endpoints.insert localIP observed, seen := now } }

/-- One round of `gcLoop`, which forgets what was last seen before `cutoff`. -/
def collect (r : Reflector) (cutoff : Time) : Reflector := { obs := r.obs.filter fun _ entry => decide (cutoff ≤ entry.seen) }

def classify (r : Reflector) (visit : MapOrder) (nonce : Bytes) : Option (NATClass × List Endpoint) :=
  match r.obs.lookup nonce with
  | none => none
  | some entry =>
    let values := visit.order entry.endpoints.values
    if values = [] then none
    else
      let class_ :=
        if values.length < 2 then NATClass.unknown
        else if (values.map (·.port)).dedup.length = 1 then .eim
        else .symmetric
      some (class_, dedupeEndpoints values)

end Reflector

def hexDecode : Bytes → Option Bytes
  | [] => some []
  | [_] => none
  | high :: low :: rest =>
    match hexValue high, hexValue low, hexDecode rest with
    | some h, some l, some bytes => some (UInt8.ofNat (16 * h + l) :: bytes)
    | _, _, _ => none

def nonceKey (hexNonce : Bytes) : Option Bytes := (hexDecode hexNonce).filter fun raw => raw.length = 16

/-! ### Messages -/

def alpn : Bytes := ascii "openrung-punch/1"
def protoVersion : Int := 1

structure PunchRequest where
  relayID : Bytes
  clientNonce : Bytes
  clientReflexive : List Endpoint := []
  clientLocal : List Endpoint := []
  clientClass : Bytes := []
  quicALPN : Bytes := []
  protoVersion : Int := 1
  deriving DecidableEq, Repr

structure PunchDirective where
  sessionID : Bytes
  relayID : Bytes
  clientReflexive : List Endpoint
  clientLocal : List Endpoint
  clientClass : NATClass
  punchToken : Bytes
  reflectorAddrs : List Bytes
  ttlMillis : Int
  quicALPN : Bytes
  protoVersion : Int
  deriving DecidableEq, Repr

/-! ### The hub -/

/-- `registry` says of each connected relay whether it negotiated stream typing. -/
structure Coordinator where
  registry : KeyedMap Bytes Bool := ∅
  reflector : Reflector := {}
  reflectorAddrs : List Bytes := []
  ttlMillis : Int := 6000
  secret : Bytes := []

/-- The rate limiter, the cap on sessions in flight, the random session identifier, the hex of `ComputeToken`, and the
    order of a map. -/
structure RequestEnv where
  allowed : Bool := true
  acquired : Bool := true
  sessionID : Option Bytes
  tokenHex : (secret sessionID relayID clientNonce : Bytes) → Bytes
  visit : MapOrder

structure PunchRefusal where
  status : Nat
  error : String
  deriving DecidableEq, Repr

/-- The class and the candidates that the hub forwards for a nonce: what its own reflector observed. -/
def Coordinator.observedPeers (c : Coordinator) (visit : MapOrder) (nonce : Bytes) : NATClass × List Endpoint :=
  match (nonceKey nonce).bind (c.reflector.classify visit) with
  | some (class_, reflexive) => (class_, desktopPolicy.sanitizePeers reflexive)
  | none => (.unknown, [])

/-- `handleRequest` up to the directive that it sends. The body is `none` if it does not decode. -/
def Coordinator.handleRequest (c : Coordinator) (env : RequestEnv) (body : Option PunchRequest) :
    Except PunchRefusal PunchDirective :=
  match body with
  | none => .error ⟨400, "invalid request"⟩
  | some req =>
    if req.relayID = [] ∨ req.clientNonce = [] then .error ⟨400, "relay_id and client_nonce required"⟩
    else if req.quicALPN ≠ [] ∧ req.quicALPN ≠ alpn then .error ⟨400, "unsupported alpn"⟩
    else if !env.allowed then .error ⟨429, "rate limited"⟩
    else if !env.acquired then .error ⟨429, "too many in-flight punch sessions"⟩
    else match c.registry.lookup req.relayID with
      | none => .error ⟨404, "relay not connected"⟩
      | some false => .error ⟨409, "relay not punch capable"⟩
      | some true => match env.sessionID with
        | none => .error ⟨500, "internal error"⟩
        | some sessionID =>
          let (clientClass, clientReflexive) := c.observedPeers env.visit req.clientNonce
          .ok {
            sessionID
            relayID := req.relayID
            clientReflexive
            clientLocal := desktopPolicy.sanitizePeers req.clientLocal
            clientClass
            punchToken := env.tokenHex c.secret sessionID req.relayID req.clientNonce
            reflectorAddrs := c.reflectorAddrs
            ttlMillis := c.ttlMillis
            quicALPN := alpn
            protoVersion := protoVersion }

/-! ### The relay -/

def PunchDirective.peers (dir : PunchDirective) : List Endpoint := dir.clientReflexive ++ dir.clientLocal

def Policy.attemptTargets (p : Policy) (peers : List Endpoint) : List UDPAddr :=
  (p.sanitizePeers peers).filterMap Endpoint.udpAddr

end OpenRung.Punch
