import OpenRung.Relay.Identity

/-! The HELLO of a tunnel relay (`internal/tunnel/protocol.go`) and the registration that the hub makes of it
    (`internal/tunnel/server.go`). The hub keeps the request, and sends it again when the broker has forgotten the relay. -/

namespace OpenRung.Tunnel
open Broker

def protocolVLESSRealityVision : String := "vless-reality-vision"

structure HelloFrame where
  protocolVersion : Int := 1
  token : String := ""
  realityPublicKey : String := ""
  shortID : String := ""
  serverName : String := ""
  clientID : String := ""
  flow : String := ""
  exitMode : String := ""
  maxSessions : Int := 0
  maxMbps : Int := 0
  label : String := ""
  relayVersion : String := ""
  streamTyping : Bool := false
  punchCapable : Bool := false
  identityPublicKey : String := ""
  identityProof : String := ""
  identityExpiresAt : String := ""
  deriving DecidableEq, Repr

def HelloFrame.statementRequest (hello : HelloFrame) : RegisterRequest :=
  { transport := transportTunnel, clientID := hello.clientID, realityPublicKey := hello.realityPublicKey
    shortID := hello.shortID, serverName := hello.serverName, flow := hello.flow, exitMode := hello.exitMode
    maxSessions := hello.maxSessions, maxMbps := hello.maxMbps, label := hello.label }

def signHello (crypto : IdentityCrypto) (priv : Bytes) (hello : HelloFrame) (expiresAt : Time) : HelloFrame :=
  let (publicKey, proof, expires) := crypto.signIdentity priv hello.statementRequest expiresAt
  { hello with identityPublicKey := publicKey, identityProof := proof, identityExpiresAt := expires }

structure HubConfig where
  publicHost : String
  punchEndpoint : String := ""
  reflectorAddrs : List String := []

def HubConfig.punchAvailable (h : HubConfig) : Bool := 0 < h.reflectorAddrs.length

def HubConfig.registerRequest (h : HubConfig) (hello : HelloFrame) (port : Int) (exitHost : String) : RegisterRequest :=
  let punchOn := h.punchAvailable && hello.streamTyping && hello.punchCapable
  let punchEndpoint := if punchOn then h.punchEndpoint else ""
  { publicHost := h.publicHost, publicPort := port, exitHost, protocol := protocolVLESSRealityVision
    clientID := hello.clientID, realityPublicKey := hello.realityPublicKey, shortID := hello.shortID
    serverName := hello.serverName, flow := hello.flow, exitMode := hello.exitMode, maxSessions := hello.maxSessions
    maxMbps := hello.maxMbps, relayVersion := hello.relayVersion, label := hello.label, transport := transportTunnel
    punchCapable := punchOn, punchEndpoint, identityPublicKey := hello.identityPublicKey
    identityProof := hello.identityProof, identityExpiresAt := hello.identityExpiresAt }

structure RelayRegistration where
  relayID : String
  leaseToken : String

structure HeldRegistration where
  registerReq : RegisterRequest
  relayID : String
  leaseToken : String

def HubConfig.held (h : HubConfig) (hello : HelloFrame) (port : Int) (exitHost : String) (first : RelayRegistration) :
    HeldRegistration :=
  { registerReq := h.registerRequest hello port exitHost, relayID := first.relayID, leaseToken := first.leaseToken }

/-- `reregister` sends the stored request; of what the broker answers, a failure changes nothing here. -/
def HeldRegistration.reregister (t : HeldRegistration) (answer : Option RelayRegistration) : HeldRegistration :=
  match answer with
  | none => t
  | some registration => { t with relayID := registration.relayID, leaseToken := registration.leaseToken }

end OpenRung.Tunnel
