import OpenRung.Broker.AccessToken
import OpenRung.Broker.ClientSeen
import OpenRung.Broker.Store
import OpenRung.Lib.Joined

/-! Authentication of client users (`brokerapi/users.go`, `internal/broker/users.go`). A request takes the lock of the
    challenge table and then that of the store, so the two sections of `authHandler` are two steps, between which
    other requests run. Of the calls of the store only `AuthenticateUser` and `SetUserStatus` touch users. -/

namespace OpenRung.Broker
open Joined Ingest Slice

def userAuthSpecV1 : Bytes := ascii "openrung-user-auth-v1"
def maxUserChallengeBytes : Nat := 128
def userSignatureBytes : Nat := 64
def userCoordinateBytes : Nat := 32
def userChallengeTTL : Duration := minute
def userChallengeMaxEntries : Nat := 100000
def userChallengeBytes : Nat := 32
def sourceUnclassifiedRetryAfter : Duration := 5 * minute

/-- `κ` are the keys on P-256, which `parsePKIX` tells from other keys. A text in base64 has no line break. -/
structure UserCrypto (κ : Type) where
  decodeBase64 : Bytes → Option Bytes
  encodeBase64 : Bytes → String
  parsePKIX : Bytes → Option (Option κ)
  point : κ → Bytes
  sha256 : Bytes → Bytes
  verify : κ → Bytes → Nat → Nat → Bool
  encodeBase64_plain : ∀ bytes, 10 ∉ utf8 (encodeBase64 bytes)

structure UserAuthRequest where
  publicKey : Bytes
  challenge : Bytes
  signature : Bytes

def validUserChallenge (challenge : Bytes) : Bool :=
  challenge ≠ [] && challenge.length ≤ maxUserChallengeBytes && challenge.all fun c => 32 < c && c ≤ 126

def userAuthStatement (challenge : Bytes) (canonicalPublicKey : String) : Bytes :=
  [10].intercalate [userAuthSpecV1, challenge, utf8 canonicalPublicKey]

namespace UserCrypto
variable {κ : Type} (crypto : UserCrypto κ)

def parseUserPublicKey (encoded : Bytes) : Except String κ :=
  match crypto.decodeBase64 (trimSpace encoded) with
  | none => .error "user public key must be standard base64"
  | some der =>
    match crypto.parsePKIX der with
    | none => .error "user public key must be a DER SubjectPublicKeyInfo"
    | some none => .error "user public key must be a P-256 ECDSA key"
    | some (some pub) => .ok pub

def canonicalUserPublicKey (pub : κ) : String := crypto.encodeBase64 (crypto.point pub)

def userAuthDigest (pub : κ) (challenge : Bytes) : Bytes :=
  crypto.sha256 (userAuthStatement challenge (crypto.canonicalUserPublicKey pub))

def verifyUserAuth (pub : κ) (challenge signature : Bytes) : Bool :=
  validUserChallenge challenge &&
    match crypto.decodeBase64 (trimSpace signature) with
    | none => false
    | some raw => raw.length = userSignatureBytes && crypto.verify pub (crypto.userAuthDigest pub challenge)
        (ofBigEndian (raw.take userCoordinateBytes)) (ofBigEndian (raw.drop userCoordinateBytes))

end UserCrypto

/-! ### Challenges -/

/-- `challengeTable`, with the time to live and the size that the service gives it. -/
abbrev ChallengeTable := KeyedMap Bytes Time

def ChallengeBytes : Type := { bytes : Bytes // bytes.length = userChallengeBytes }

namespace ChallengeTable

/-- A full table drops what has expired. -/
def swept (t : ChallengeTable) (now : Time) : ChallengeTable :=
  if t.entries.length ≥ userChallengeMaxEntries then t.filter fun _ expiry => expiry > now else t

/-- `raw` is what `rand.Read` gave, if it did not fail. -/
def issue (t : ChallengeTable) (raw : Option ChallengeBytes) (now : Time) : ChallengeTable × Option (Bytes × Time) :=
  match raw with
  | none => (t, none)
  | some raw =>
    let challenge := Base64.encode raw.val
    let expiresAt := now + userChallengeTTL
    if (t.swept now).entries.length ≥ userChallengeMaxEntries then (t.swept now, none)
    else ((t.swept now).insert challenge expiresAt, some (challenge, expiresAt))

def consume (t : ChallengeTable) (challenge : Bytes) (now : Time) : ChallengeTable × Bool :=
  match t.lookup challenge with
  | none => (t, false)
  | some expiry => (t.erase challenge, expiry > now)

end ChallengeTable

/-! ### The handler -/

/-- Not JSON of the known fields, such JSON with more behind it, or one object. -/
inductive UserAuthBody where
  | invalid
  | trailing
  | request (r : UserAuthRequest)

structure UserAuthRefusal where
  status : Nat
  error : String
  code : String := ""
  retryAfter : Option Int := none

inductive UserAuthAnswer where
  | refused (refusal : UserAuthRefusal)
  | disabled (user : User)
  | granted (userID : String) (accessToken : Bytes) (tokenExpiresAt : Time)

/-- A request whose signature has been verified, on its way to the store. -/
structure VerifiedUser (κ : Type) where
  challenge : Bytes
  pub : κ
  now : Time

def retryAfterSeconds (wait : Duration) : Int := max 1 ((wait + second - 1).tdiv second)

structure UserAuthService (κ : Type) where
  crypto : UserCrypto κ
  hmac : Hmac
  tokens : AccessTokenCodec
  windows : List EnrollmentWindow

namespace UserAuthService
variable {κ : Type} (svc : UserAuthService κ)

def parse : UserAuthBody → Except UserAuthRefusal (Bytes × κ × Bytes)
  | .invalid => .error { status := 400, error := "invalid user authentication JSON" }
  | .trailing => .error { status := 400, error := "user authentication request must contain one JSON object" }
  | .request r =>
    let challenge := trimSpace r.challenge
    if !validUserChallenge challenge then
      .error { status := 400, error := "challenge is required and must be printable text" }
    else
      match svc.crypto.parseUserPublicKey r.publicKey with
      | .error error => .error { status := 400, error }
      | .ok pub => .ok (challenge, pub, r.signature)

/-- The challenge is consumed before the signature is checked. -/
def attempt (t : ChallengeTable) (challenge : Bytes) (pub : κ) (signature : Bytes) (now : Time) :
    ChallengeTable × Except UserAuthRefusal (VerifiedUser κ) :=
  let out := ChallengeTable.consume t challenge now
  (out.1,
    if !out.2 then .error { status := 401, error := "challenge unknown or expired" }
    else if !svc.crypto.verifyUserAuth pub challenge signature then .error { status := 401, error := "invalid signature" }
    else .ok { challenge, pub, now })

def answer (now : Time) (nonce : Option Nonce) : Except StoreError (User × Bool) → UserAuthAnswer
  | .error .datacenterSource => .refused
      { status := 403, error := "enrollment is not available from this network", code := "datacenter_source" }
  | .error .sourceUnclassified => .refused
      { status := 503, error := "enrollment is temporarily unavailable, retry later", code := "source_unclassified",
        retryAfter := some (retryAfterSeconds sourceUnclassifiedRetryAfter) }
  | .error (.enrollmentLimited retryAfter) => .refused
      { status := 429, error := "too many new enrollments from this network, retry later",
        retryAfter := some (retryAfterSeconds retryAfter) }
  | .error _ => .refused { status := 503, error := "could not authenticate user" }
  | .ok (user, _) =>
    if user.status ≠ .enabled then .disabled user
    else
      match svc.tokens.issue svc.hmac (utf8 user.id) now nonce with
      | .error _ => .refused { status := 500, error := "could not issue access token" }
      | .ok (token, expiresAt) => .granted user.id token expiresAt

/-- `refuseNew` is what the class of the source refuses a new key with. -/
def authenticate (store : Store) (v : VerifiedUser κ) (sourceKey : String) (refuseNew : Option StoreError)
    (newUserID : Option String) (nonce : Option Nonce) : Store × UserAuthAnswer :=
  let out := store.authenticateUser (svc.crypto.canonicalUserPublicKey v.pub) sourceKey svc.windows refuseNew newUserID
    v.now
  (out.1, svc.answer v.now nonce out.2)

end UserAuthService

/-! ### Runs -/

structure UserGrant (κ : Type) where
  challenge : Bytes
  pub : κ
  userID : String
  accessToken : Bytes
  tokenExpiresAt : Time

/-- The last three fields are history: the challenges handed out, the attempts that used one up, with whether the
    signature was good, and the tokens. -/
structure UserAuthState (κ : Type) where
  challenges : ChallengeTable := ∅
  store : Store := {}
  verified : List (VerifiedUser κ) := []
  issued : List (Bytes × Time) := []
  tried : List (VerifiedUser κ × Bool) := []
  granted : List (UserGrant κ) := []

inductive UserAuthLabel where
  | challenge (raw : Option ChallengeBytes) (now : Time)
  | attempt (body : UserAuthBody) (now : Time)
  | authenticate (i : Nat) (sourceKey : String) (refuseNew : Option StoreError) (newUserID : Option String)
      (nonce : Option Nonce)
  | setUserStatus (id status reason : String) (now : Time)

namespace UserAuthState
variable {κ : Type} (svc : UserAuthService κ)

def tryChallenge (s : UserAuthState κ) (challenge : Bytes) (pub : κ) (signature : Bytes) (now : Time) :
    UserAuthState κ :=
  let out := svc.attempt s.challenges challenge pub signature now
  let known := (ChallengeTable.consume s.challenges challenge now).2
  { s with
    challenges := out.1
    verified := s.verified ++ out.2.toOption.toList
    tried := s.tried ++ if known then [({ challenge, pub, now }, out.2.toBool)] else [] }

def finish (s : UserAuthState κ) (i : Nat) (v : VerifiedUser κ) (store : Store) : UserAuthAnswer → UserAuthState κ
  | .granted userID accessToken tokenExpiresAt =>
    { s with
      store
      verified := s.verified.eraseIdx i
      granted := s.granted ++ [{ challenge := v.challenge, pub := v.pub, userID, accessToken, tokenExpiresAt }] }
  | _ => { s with store, verified := s.verified.eraseIdx i }

def step (s : UserAuthState κ) : UserAuthLabel → Option (UserAuthState κ)
  | .challenge raw now =>
    let out := ChallengeTable.issue s.challenges raw now
    some { s with challenges := out.1, issued := s.issued ++ out.2.toList }
  | .attempt body now =>
    match svc.parse body with
    | .error _ => some s
    | .ok (challenge, pub, signature) => some (s.tryChallenge svc challenge pub signature now)
  | .authenticate i sourceKey refuseNew newUserID nonce => do
    let v ← s.verified[i]?
    let out := svc.authenticate s.store v sourceKey refuseNew newUserID nonce
    return s.finish i v out.1 out.2
  | .setUserStatus id status reason now => some { s with store := (s.store.setUserStatus id status reason now).1 }

end UserAuthState

end OpenRung.Broker
