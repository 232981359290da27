import OpenRung.Lib.Joined
import OpenRung.Broker.Descriptor
import OpenRung.Wss.Ticket

/-! Relay identity proofs (`internal/relay/identity.go`) and the separate proof for the WSS fronts
    (`internal/relay/wss_capability.go`). Signatures, hashes, JSON, base64 and the parsers of the standard library are
    parameters (`IdentityCrypto`). -/

namespace OpenRung.Broker
open Joined

def identitySpecV1 : String := "openrung-relay-identity-v1"
def wssCapabilitySpecV1 : String := "openrung-relay-wss-capability-v1"
def maxIdentityProofWindow : Duration := 48 * hour
def maxWSSCapabilityProofWindow : Duration := maxIdentityProofWindow
def exitModeDirect : String := "direct"
def maxWSSFronts : Nat := 4
def wssProtocolVersion : Int := 1

structure WSSCapabilityPayload where
  identityStatementSHA256 : String
  fronts : List WSSFrontDescriptor
  deriving DecidableEq, Repr

/-- `normalizeFrontURL` is `wsscore.NormalizeFrontURL`, a chain of tests on the result of `url.Parse`. Marshalling a
    payload of texts and numbers cannot fail. -/
structure IdentityCrypto where
  publicKey : Bytes → IdentityKey
  sign : Bytes → Bytes → Bytes
  verify : IdentityKey → Bytes → Bytes → Bool
  sha256 : Bytes → Bytes
  encodeBase64 : Bytes → String
  decodeBase64 : String → Option Bytes
  encodeRawBase64 : Bytes → String
  formatRFC3339 : Time → String
  parseRFC3339 : String → Option Time
  marshalPayload : WSSCapabilityPayload → Bytes
  toLower : String → String
  normalizeFrontURL : String → Option String

/-! ### Texts -/

def isSpace (c : Char) : Bool :=
  let n := c.toNat
  (9 ≤ n && n ≤ 13) || n = 0x20 || n = 0x85 || n = 0xA0 || n = 0x1680 || (0x2000 ≤ n && n ≤ 0x200A) || n = 0x2028 ||
    n = 0x2029 || n = 0x202F || n = 0x205F || n = 0x3000

def trimSpace (text : String) : String :=
  String.ofList (((text.toList.dropWhile isSpace).reverse.dropWhile isSpace).reverse)

def containsAny (text : String) (chars : List Char) : Bool := text.toList.any fun c => c ∈ chars

def hex (bytes : Bytes) : String :=
  String.ofList (bytes.flatMap fun b => [Nat.digitChar (b.toNat / 16), Nat.digitChar (b.toNat % 16)])

/-! ### The identity statement -/

def effectiveTransport (req : RegisterRequest) : String :=
  if trimSpace req.transport = "" then transportDirect else req.transport

def effectiveNodeClass (req : RegisterRequest) : String :=
  if trimSpace req.nodeClass = "" then nodeClassVolunteer else req.nodeClass

/-- The lines of an identity statement. A tunnel relay does not know its endpoint when it signs. -/
def identityFields (req : RegisterRequest) (expiresAt : String) : List String :=
  let transport := effectiveTransport req
  let host := if transport = transportTunnel then "" else req.publicHost
  let port := if transport = transportTunnel then 0 else req.publicPort
  [identitySpecV1, expiresAt, transport, host, port.repr, req.clientID, req.realityPublicKey, req.shortID,
    req.serverName, req.flow, req.exitMode, req.maxSessions.repr, req.maxMbps.repr, req.label, effectiveNodeClass req]

def identityStatement (req : RegisterRequest) (expiresAt : String) : Bytes :=
  utf8 ("\n".intercalate (identityFields req expiresAt))

def boundTexts (req : RegisterRequest) : List (String × String) :=
  [("public_host", req.publicHost), ("client_id", req.clientID), ("reality_public_key", req.realityPublicKey),
    ("short_id", req.shortID), ("server_name", req.serverName), ("flow", req.flow), ("exit_mode", req.exitMode),
    ("label", req.label), ("node_class", req.nodeClass), ("transport", req.transport)]

/-- The source ranges over a map, so of several such fields it may name any. -/
def validateIdentityFields (req : RegisterRequest) : Except String Unit :=
  match (boundTexts req).find? fun field => containsAny field.2 ['\n', '\r'] with
  | some field => .error (field.1 ++ " may not contain newline characters")
  | none => .ok ()

namespace IdentityCrypto
variable (crypto : IdentityCrypto)

/-- `VerifyIdentity`: `none` is a legacy request without an identity. -/
def verifyIdentity (req : RegisterRequest) (now : Time) : Except StoreError (Option IdentityKey) :=
  if req.identityPublicKey = "" ∧ req.identityProof = "" ∧ req.identityExpiresAt = "" then .ok none
  else if req.identityPublicKey = "" ∨ req.identityProof = "" ∨ req.identityExpiresAt = "" then
    .error .identityIncomplete
  else match validateIdentityFields req with
    | .error _ => .error .identityProofInvalid
    | .ok () => match crypto.decodeBase64 req.identityPublicKey with
      | none => .error .identityProofInvalid
      | some publicKey =>
        if publicKey.length ≠ 32 then .error .identityProofInvalid
        else match crypto.decodeBase64 req.identityProof with
          | none => .error .identityProofInvalid
          | some signature =>
            if signature.length ≠ 64 then .error .identityProofInvalid
            else match crypto.parseRFC3339 req.identityExpiresAt with
              | none => .error .identityProofInvalid
              | some expires =>
                if ¬ expires > now then .error .identityProofExpired
                else if expires > now + maxIdentityProofWindow then .error .identityProofInvalid
                else if !crypto.verify publicKey (identityStatement req req.identityExpiresAt) signature then
                  .error .identityProofInvalid
                else .ok (some publicKey)

def deriveRelayID (key : IdentityKey) : String :=
  "relay_" ++ hex ((crypto.sha256 (utf8 (identitySpecV1 ++ ":id:") ++ key)).take 16)

/-! ### The WSS capability statement -/

def normalizeFrontID (value : String) : Option String :=
  if containsAny value ['\r', '\n', '\t'] then none
  else
    let normalized := crypto.toLower (trimSpace value)
    if Wss.validFrontID (utf8 normalized) then some normalized else none

def normalizeFront (front : WSSFrontDescriptor) : Option WSSFrontDescriptor :=
  (crypto.normalizeFrontID front.id).bind fun id =>
    if front.protocolVersion ≠ wssProtocolVersion then none
    else (crypto.normalizeFrontURL front.url).map fun url => { id, url, protocolVersion := wssProtocolVersion }

def normalizeWSSFronts (fronts : List WSSFrontDescriptor) : Except StoreError (List WSSFrontDescriptor) :=
  if fronts.length > maxWSSFronts then .error .wssFrontInvalid
  else match fronts.mapM crypto.normalizeFront with
    | none => .error .wssFrontInvalid
    | some normalized =>
      let sorted := normalized.insertionSort fun a b => a.id ≤ b.id
      if (sorted.map (·.id)).Nodup ∧ (sorted.map (·.url)).Nodup then .ok sorted else .error .wssFrontInvalid

def wssEligible (req : RegisterRequest) : Bool :=
  let lowered := crypto.toLower (trimSpace req.transport)
  let transport := if lowered = "" then transportDirect else lowered
  transport = transportDirect && req.nodeClass = nodeClassFoundation && req.exitMode = exitModeDirect &&
    req.publicPort = 443

def wssCapabilityStatement (req : RegisterRequest) (expires : String) : Except StoreError Bytes :=
  match crypto.normalizeWSSFronts req.wssFronts with
  | .error e => .error e
  | .ok fronts =>
    let identityDigest := crypto.sha256 (identityStatement req req.identityExpiresAt)
    let payload := crypto.marshalPayload { identityStatementSHA256 := crypto.encodeRawBase64 identityDigest, fronts }
    .ok (utf8 (wssCapabilitySpecV1 ++ "\n" ++ expires ++ "\n" ++ crypto.encodeRawBase64 payload))

def verifyWSSCapability (req : RegisterRequest) (now : Time) : Except StoreError Unit :=
  if req.wssFronts = [] ∧ req.wssCapabilityProof = "" ∧ req.wssCapabilityExpiresAt = "" then .ok ()
  else if req.wssFronts = [] ∨ req.wssCapabilityProof = "" ∨ req.wssCapabilityExpiresAt = "" then
    .error .wssCapabilityIncomplete
  else if req.wssFronts.length > maxWSSFronts ∨ !crypto.wssEligible req then .error .wssCapabilityInvalid
  else match crypto.normalizeWSSFronts req.wssFronts with
    | .error _ => .error .wssCapabilityInvalid
    | .ok normalized =>
      if normalized ≠ req.wssFronts then .error .wssCapabilityInvalid
      else match crypto.parseRFC3339 req.wssCapabilityExpiresAt with
        | none => .error .wssCapabilityInvalid
        | some expiresAt =>
          if ¬ expiresAt > now then .error .wssCapabilityExpired
          else if expiresAt > now + maxWSSCapabilityProofWindow then .error .wssCapabilityInvalid
          else if crypto.parseRFC3339 req.identityExpiresAt ≠ some expiresAt then .error .wssCapabilityInvalid
          else match crypto.verifyIdentity req now with
            | .error _ => .error .wssCapabilityInvalid
            | .ok none => .error .wssCapabilityInvalid
            | .ok (some identityKey) => match crypto.decodeBase64 req.wssCapabilityProof with
              | none => .error .wssCapabilityInvalid
              | some signature =>
                if signature.length ≠ 64 then .error .wssCapabilityInvalid
                else match crypto.wssCapabilityStatement req req.wssCapabilityExpiresAt with
                  | .error _ => .error .wssCapabilityInvalid
                  | .ok statement =>
                    if !crypto.verify identityKey statement signature then .error .wssCapabilityInvalid else .ok ()

def checks : RegisterChecks where
  verifyIdentity := crypto.verifyIdentity
  verifyWSSCapability := crypto.verifyWSSCapability
  deriveRelayID := crypto.deriveRelayID

/-! ### Signing -/

/-- It signs what it is given: the fields are not validated here. -/
def signIdentity (priv : Bytes) (req : RegisterRequest) (expiresAt : Time) : String × String × String :=
  let expires := crypto.formatRFC3339 expiresAt
  (crypto.encodeBase64 (crypto.publicKey priv), crypto.encodeBase64 (crypto.sign priv (identityStatement req expires)),
    expires)

inductive SignError where
  | privateKey
  | invalid (message : String)
  | statement (error : StoreError)
  deriving DecidableEq, Repr

def wssCapabilityToSign (priv : Bytes) (req : RegisterRequest) (expiresAt : Time) : Except SignError Bytes :=
  if priv.length ≠ 64 then .error .privateKey
  else if !crypto.wssEligible req then
    .error (.invalid "WSS requires a direct-transport, direct-exit Foundation relay on public port 443")
  else match crypto.normalizeWSSFronts req.wssFronts with
    | .error e => .error (.statement e)
    | .ok normalized =>
      if normalized = [] then .error (.invalid "at least one front is required")
      else if normalized ≠ req.wssFronts then
        .error (.invalid "fronts must be normalized and sorted before signing")
      else if req.identityPublicKey = "" ∨ req.identityProof = "" ∨ req.identityExpiresAt = "" then
        .error (.invalid "a signed stable identity is required before signing WSS capability")
      else if req.identityPublicKey ≠ crypto.encodeBase64 (crypto.publicKey priv) then
        .error (.invalid "capability signer does not match the relay identity")
      else if crypto.formatRFC3339 expiresAt ≠ req.identityExpiresAt then
        .error (.invalid "capability and identity expiries must match")
      else match crypto.wssCapabilityStatement req (crypto.formatRFC3339 expiresAt) with
        | .error e => .error (.statement e)
        | .ok statement => .ok statement

def signWSSCapability (priv : Bytes) (req : RegisterRequest) (expiresAt : Time) : Except SignError (String × String) :=
  match crypto.wssCapabilityToSign priv req expiresAt with
  | .error e => .error e
  | .ok statement => .ok (crypto.encodeBase64 (crypto.sign priv statement), crypto.formatRFC3339 expiresAt)

inductive SignCall where
  | identity (priv : Bytes) (req : RegisterRequest) (expiresAt : Time)
  | wssCapability (priv : Bytes) (req : RegisterRequest) (expiresAt : Time)

def SignCall.Signs : SignCall → IdentityKey → Bytes → Prop
  | .identity priv req expiresAt, key, message =>
    key = crypto.publicKey priv ∧ message = identityStatement req (crypto.formatRFC3339 expiresAt)
  | .wssCapability priv req expiresAt, key, message =>
    key = crypto.publicKey priv ∧ crypto.wssCapabilityToSign priv req expiresAt = .ok message

/-- Ed25519 is unforgeable: a signature verifies only for a message that the holder of the key signed in `calls`. -/
def Unforgeable (calls : List SignCall) : Prop :=
  ∀ key message signature, crypto.verify key message signature = true → ∃ call ∈ calls, call.Signs crypto key message

end IdentityCrypto

end OpenRung.Broker
