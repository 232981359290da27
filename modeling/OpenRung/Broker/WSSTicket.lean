import OpenRung.Broker.Postgres
import OpenRung.Broker.Ranking
import OpenRung.Wss.TicketSigner

/-! The broker's issue of WSS bridge tickets (`internal/broker/wss_ticket.go`), over either store's `RelayByID`. -/

namespace OpenRung.Broker
open Joined

/-! ### Looking up a relay -/

inductive LookupError where
  | notFound
  | failed
  deriving DecidableEq

def Store.relayByID (s : Store) (id : String) (now : Time) : Except LookupError Descriptor :=
  match s.relays.lookup id with
  | some desc => if now < desc.expiresAt then .ok desc else .error .notFound
  | none => .error .notFound

def Postgres.relayByID (pg : Postgres) (id : String) (now : Time) : Except LookupError Descriptor :=
  match Table.selectWhere (fun d => decide (d.id = id) && decide (now < d.expiresAt)) pg.descriptors with
  | [] => .error .notFound
  | d :: _ => .ok d

/-- What `RelayByID` finds is a row of that id whose lease has not ended. -/
structure RelayLookup where
  rows : Descriptor → Prop
  byID : String → Time → Except LookupError Descriptor
  finds : ∀ {id now desc}, byID id now = .ok desc → rows desc ∧ desc.id = id ∧ now < desc.expiresAt

/-! ### The handler -/

structure WSSSessionTicketRequest where
  relayID : String
  frontID : String
  deriving DecidableEq

inductive TicketBody where
  | invalid
  | trailing
  | request (request : WSSSessionTicketRequest)
  deriving DecidableEq

inductive TicketReply where
  | error (status : Nat) (message : String)
  | created (ticket : Bytes) (expiresAt : Time) (url : String)
  deriving DecidableEq

structure WSSTicketIssuer where
  signer : Wss.TicketSigner
  ttl : Duration
  maxStreams : Int

def wellFormedRelayID (id : Bytes) : Bool :=
  id.length = 38 && (ascii "relay_").isPrefixOf id &&
    (id.drop 6).all fun c => (48 ≤ c && c ≤ 57) || (97 ≤ c && c ≤ 102)

def truncateToSecond (t : Time) : Time := t - t % second

def unixSeconds (t : Time) : Int := t / second

def findWSSFront (fronts : List WSSFrontDescriptor) (id : String) : Option WSSFrontDescriptor :=
  fronts.find? fun front => front.id = id && front.protocolVersion = wssProtocolVersion

def newWSSTicketID (random : Option Bytes) : Option Bytes := random.map Base64.encode

def ticketClaims (issuer : WSSTicketIssuer) (desc : Descriptor) (front : WSSFrontDescriptor) (jti : Bytes)
    (now expiresAt : Time) : Wss.Claims where
  version := Wss.ticketVersion
  audience := Wss.ticketAudience
  jti
  relayID := utf8 desc.id
  frontID := utf8 front.id
  issuedAt := unixSeconds now
  notBefore := unixSeconds now
  expiresAt := unixSeconds expiresAt
  maxStreams := issuer.maxStreams

def ticketExpiry (issuer : WSSTicketIssuer) (desc : Descriptor) (now : Time) : Time :=
  if desc.expiresAt < now + issuer.ttl then truncateToSecond desc.expiresAt else now + issuer.ttl

/-- The clock reads `clock` when the request is looked at and `signedAt` when the ticket is signed. -/
def wssTicketHandler (crypto : Wss.SigningCrypto) (store : RelayLookup) (issuer : WSSTicketIssuer) (clock signedAt : Time)
    (random : Option Bytes) : TicketBody → TicketReply
  | .invalid => .error 400 "invalid WSS ticket JSON"
  | .trailing => .error 400 "WSS ticket request must contain one JSON object"
  | .request request =>
    let relayID := trimSpace request.relayID
    let frontID := trimSpace request.frontID
    if relayID = "" ∨ frontID = "" then .error 400 "relay_id and front_id are required"
    else if !wellFormedRelayID (utf8 relayID) then .error 404 "relay or WSS front not found"
    else
      let now := truncateToSecond clock
      match store.byID relayID now with
      | .error .notFound => .error 404 "relay or WSS front not found"
      | .error .failed => .error 503 "could not resolve WSS relay"
      | .ok desc =>
        if !wssRelayEligible desc then .error 404 "relay or WSS front not found"
        else match findWSSFront desc.wssFronts frontID with
          | none => .error 404 "relay or WSS front not found"
          | some front =>
            let expiresAt := ticketExpiry issuer desc now
            if ¬ expiresAt > now + second then
              .error 409 "relay lease is too close to expiry; refresh the directory"
            else match newWSSTicketID random with
              | none => .error 500 "could not issue WSS ticket"
              | some jti =>
                match issuer.signer.sign crypto signedAt (ticketClaims issuer desc front jti now expiresAt) with
                | .error _ => .error 500 "could not issue WSS ticket"
                | .ok ticket => .created ticket expiresAt front.url

end OpenRung.Broker
