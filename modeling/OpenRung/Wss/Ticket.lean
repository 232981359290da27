import OpenRung.Lib.Base64
import OpenRung.Broker.Lease

/-! WSS bridge tickets (`internal/wssbridge/ticket.go`). A text is its bytes. Signatures, hashes and the JSON codec
    are parameters (`Crypto`). -/

namespace OpenRung.Wss

def ticketVersion : Int := 1
def ticketAudience : Bytes := ascii "openrung-wss-bridge"
def maxTicketBytes : Nat := 4096
def maxTicketLifetime : Duration := 5 * minute
def maxTicketClockSkew : Duration := 2 * minute
def maxTicketStreams : Int := 1024
def ticketPrefix : Bytes := ascii "v1"
def ticketSignatureSpec : Bytes := ascii "openrung-wss-bridge-ticket-v1\n"
def maxFrontIDBytes : Nat := 64

structure Claims where
  version : Int := 1
  audience : Bytes := ticketAudience
  jti : Bytes
  relayID : Bytes
  frontID : Bytes
  issuedAt : Int
  notBefore : Int
  expiresAt : Int
  maxStreams : Int
  deriving DecidableEq, Repr

/-- `time.Unix(sec, 0)`: a `time.Time` holds its seconds since year 1 in 64 bits. -/
def unixTime (sec : Int) : Time := (int64 (sec + 62135596800) - 62135596800) * second

def Claims.expiry (c : Claims) : Time := unixTime c.expiresAt

/-- `ErrInvalidTicket` with its message, or `ErrExpiredTicket`. -/
inductive TicketError where
  | invalid (message : String)
  | expired
  deriving DecidableEq, Repr

structure Crypto where
  sha256 : Bytes → Bytes
  sha256_length : ∀ text, (sha256 text).length = 32
  verify : Bytes → Bytes → Bytes → Bool
  decodeClaims : Bytes → Option Claims
  marshalClaims : Claims → Option Bytes

/-! ### Identifiers -/

def isLower (c : UInt8) : Bool := 97 ≤ c && c ≤ 122
def isUpper (c : UInt8) : Bool := 65 ≤ c && c ≤ 90
def isDigit (c : UInt8) : Bool := 48 ≤ c && c ≤ 57

/-- `validID`. The source ranges over code points, of which it accepts single-byte ones only. -/
def validID (value : Bytes) (minLen maxLen : Nat) : Bool :=
  minLen ≤ value.length && value.length ≤ maxLen &&
    value.all fun c => isLower c || isUpper c || isDigit c || c = 45 || c = 95 || c = 46 || c = 58

def validFrontID (value : Bytes) : Bool :=
  let isAlphaNumeric := fun c => isLower c || isDigit c
  match value.head?, value.getLast? with
  | some first, some last =>
    value.length ≤ maxFrontIDBytes && isAlphaNumeric first && isAlphaNumeric last &&
      value.all fun c => isAlphaNumeric c || c = 46 || c = 95 || c = 45
  | _, _ => false

/-- `ToLower(TrimSpace(value))` on single-byte characters; `validFrontID` rejects all others. -/
def lowerTrimmed (value : Bytes) : Bytes :=
  let isSpace := fun c : UInt8 => 9 ≤ c && c ≤ 13 || c = 32
  ((value.dropWhile isSpace).reverse.dropWhile isSpace).reverse.map fun c => if isUpper c then c + 32 else c

def normalizeFrontID (value : Bytes) : Option Bytes :=
  if value.any fun c => c = 13 || c = 10 || c = 9 then none
  else if validFrontID (lowerTrimmed value) then some (lowerTrimmed value)
  else none

def validateFrontID (value : Bytes) : Bool := normalizeFrontID value = some value

/-! ### Options and claims -/

/-- `TicketOptions`, without its clock: every reading of the clock is an argument. -/
structure TicketOptions where
  maxLifetime : Duration := 0
  clockSkew : Duration := 0
  deriving DecidableEq, Repr

def TicketOptions.Normal (o : TicketOptions) : Prop :=
  second ≤ o.maxLifetime ∧ o.maxLifetime ≤ maxTicketLifetime ∧ 0 ≤ o.clockSkew ∧ o.clockSkew ≤ maxTicketClockSkew

instance (o : TicketOptions) : Decidable o.Normal := inferInstanceAs (Decidable (_ ∧ _))

def TicketOptions.normalized (o : TicketOptions) : Except String { o : TicketOptions // o.Normal } :=
  let o := if o.maxLifetime = 0 then { o with maxLifetime := maxTicketLifetime } else o
  if lifetime : o.maxLifetime < second ∨ o.maxLifetime > maxTicketLifetime then
    .error "ticket max lifetime must be within [1s, 5m0s]"
  else if skew : o.clockSkew < 0 ∨ o.clockSkew > maxTicketClockSkew then
    .error "ticket clock skew must be within [0, 2m0s]"
  else
    have ⟨low, high⟩ := not_or.mp lifetime
    have ⟨least, most⟩ := not_or.mp skew
    .ok ⟨o, not_lt.mp low, not_lt.mp high, not_lt.mp least, not_lt.mp most⟩

def validateClaims (c : Claims) (now : Time) (opts : TicketOptions) (verifying : Bool) (localRelayID : Bytes) :
    Except TicketError Unit :=
  let lifetimeSeconds := c.expiresAt - c.issuedAt
  if c.version ≠ ticketVersion then .error (.invalid "unsupported version")
  else if c.audience ≠ ticketAudience then .error (.invalid "wrong audience")
  else if !validID c.jti 16 128 then .error (.invalid "invalid JTI")
  else if !validID c.relayID 1 128 || (verifying && c.relayID ≠ localRelayID) then .error (.invalid "wrong relay")
  else if !validateFrontID c.frontID then .error (.invalid "invalid front")
  else if c.maxStreams < 1 ∨ c.maxStreams > maxTicketStreams then .error (.invalid "max_streams outside bounds")
  else if c.issuedAt ≤ 0 ∨ c.notBefore ≤ 0 ∨ c.expiresAt ≤ 0 ∨ c.expiresAt ≤ c.issuedAt ∨ c.notBefore < c.issuedAt ∨
      c.notBefore ≥ c.expiresAt then .error (.invalid "invalid time ordering")
  else if lifetimeSeconds > opts.maxLifetime / second ∨ lifetimeSeconds > maxTicketLifetime / second then
    .error (.invalid "lifetime exceeds maximum")
  else if unixTime c.issuedAt > now + opts.clockSkew then .error (.invalid "issued in the future")
  else if !verifying then
    if ¬ unixTime c.expiresAt > now then .error (.invalid "claims are not currently signable") else .ok ()
  else if unixTime c.notBefore > now + opts.clockSkew then .error (.invalid "not yet valid")
  else if ¬ unixTime c.expiresAt > now - opts.clockSkew then .error .expired
  else .ok ()

/-! ### The verifier -/

/-- Its options are normal because `NewTicketVerifier` is the only way to build one. -/
structure TicketVerifier where
  keys : KeyedMap Bytes Bytes
  localRelayID : Bytes
  opts : TicketOptions
  normal : opts.Normal

def hexDigit (n : Nat) : UInt8 := if n < 10 then UInt8.ofNat (48 + n) else UInt8.ofNat (87 + n)

def ticketKeyID (crypto : Crypto) (key : Bytes) : Bytes :=
  ((crypto.sha256 key).take 8).flatMap fun b => [hexDigit (b.toNat / 16), hexDigit (b.toNat % 16)]

/-- The errors of `NewTicketVerifier`; the last two name the key and, for `keyID`, the derived identifier. -/
inductive VerifierError where
  | relayID
  | noKeys
  | options (message : String)
  | keyLength (id : Bytes)
  | keyID (id derived : Bytes)
  deriving DecidableEq, Repr

def newTicketVerifier (crypto : Crypto) (keys : KeyedMap Bytes Bytes) (localRelayID : Bytes) (opts : TicketOptions) :
    Except VerifierError TicketVerifier :=
  if !validID localRelayID 1 128 then .error .relayID
  else if keys.entries.isEmpty then .error .noKeys
  else match opts.normalized with
    | .error message => .error (.options message)
    | .ok normal =>
      let badKey := keys.entries.findSome? fun e =>
        if e.2.length ≠ 32 then some (.keyLength e.1)
        else if e.1 ≠ ticketKeyID crypto e.2 then some (.keyID e.1 (ticketKeyID crypto e.2))
        else none
      match badKey with
      | some error => .error error
      | none => .ok ⟨keys, localRelayID, normal.val, normal.property⟩

def ticketStatement (payload : Bytes) : Bytes := ticketSignatureSpec ++ payload

/-- The bytes of a base64 text, if it is the text that the encoder writes for them. -/
def decodeCanonical (text : Bytes) : Option Bytes :=
  (Base64.decode text).filter fun bytes => Base64.encode bytes = text

/-- The part of `Verify` that reads no clock: the claims of an authentic token. -/
def TicketVerifier.authenticate (v : TicketVerifier) (crypto : Crypto) (token : Bytes) : Except TicketError Claims :=
  if v.keys.entries.isEmpty then .error (.invalid "verifier is not initialized")
  else if token.length = 0 ∨ token.length > maxTicketBytes then .error (.invalid "ticket size is outside bounds")
  else match token.splitOn 46 with
    | [version, keyID, payloadText, signatureText] =>
      if version ≠ ticketPrefix then .error (.invalid "malformed compact encoding")
      else match v.keys.lookup keyID with
        | none => .error (.invalid "unknown signing key")
        | some key => match decodeCanonical payloadText with
          | none => .error (.invalid "malformed payload")
          | some payload =>
            if payload.length = 0 ∨ payload.length > maxTicketBytes then .error (.invalid "malformed payload")
            else match decodeCanonical signatureText with
              | none => .error (.invalid "malformed signature")
              | some signature =>
                if signature.length ≠ 64 then .error (.invalid "malformed signature")
                else if !crypto.verify key (ticketStatement payload) signature then
                  .error (.invalid "signature verification failed")
                else match crypto.decodeClaims payload with
                  | none => .error (.invalid "payload is not valid claims JSON")
                  | some claims =>
                    if crypto.marshalClaims claims ≠ some payload then
                      .error (.invalid "claims encoding is not canonical")
                    else .ok claims
    | _ => .error (.invalid "malformed compact encoding")

def TicketVerifier.verify (v : TicketVerifier) (crypto : Crypto) (now : Time) (token : Bytes) :
    Except TicketError Claims :=
  match v.authenticate crypto token with
  | .error e => .error e
  | .ok claims =>
    match validateClaims claims now v.opts true v.localRelayID with
    | .error e => .error e
    | .ok () => .ok claims

def TicketVerifier.replayUntil (v : TicketVerifier) (claims : Claims) : Time := claims.expiry + v.opts.clockSkew

end OpenRung.Wss
