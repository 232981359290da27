import OpenRung.Lib.Slice
import OpenRung.Wss.Ticket

/-! Bearer access tokens (`accessTokenCodec` in `internal/broker/users.go`). A read out of bounds is `none`. -/

namespace OpenRung.Broker
open Slice

def accessTokenVersion : UInt8 := 1
def accessTokenNonceBytes : Nat := 12
def sha256Size : Nat := 32

/-- HMAC-SHA256: a key and a message give 32 bytes. -/
structure Hmac where
  sum : Bytes → Bytes → Bytes
  length_sum : ∀ key message, (sum key message).length = sha256Size

def Nonce : Type := { bytes : Bytes // bytes.length = accessTokenNonceBytes }

structure AccessTokenCodec where
  key : Bytes
  ttl : Duration

/-- The seconds since 1970 of a `time.Time`, which counts from year 1 in 64 bits and stops at the ends of that range. -/
def clampSeconds (sec : Int) : Int := max (-2 ^ 63 - 62135596800) (min (2 ^ 63 - 1 - 62135596800) sec)

/-- What is signed. The length is one byte, and the seconds are an unsigned number of 64 bits. -/
def accessTokenPayload (userID : Bytes) (seconds : Nat) (nonce : Bytes) : Bytes :=
  accessTokenVersion :: UInt8.ofNat userID.length :: (userID ++ (bigEndian 8 seconds ++ nonce))

/-- The nonce is what `rand.Read` gave, if it did not fail. -/
def AccessTokenCodec.issue (hmac : Hmac) (c : AccessTokenCodec) (userID : Bytes) (now : Time) (nonce : Option Nonce) :
    Except String (Bytes × Time) :=
  if userID.length = 0 ∨ userID.length > 255 then .error "access token user id must be 1..255 bytes"
  else
    -- `Truncate(time.Second)` rounds down
    let seconds := clampSeconds ((now + c.ttl) / second)
    match nonce with
    | none => .error "no random bytes"
    | some nonce =>
      let payload := accessTokenPayload userID (int64 seconds % 2 ^ 64).toNat nonce.val
      .ok (Base64.encode (payload ++ hmac.sum c.key payload), seconds * second)

def AccessTokenCodec.verify (hmac : Hmac) (c : AccessTokenCodec) (token : Bytes) (now : Time) : Option (Option Bytes) :=
  match Base64.decode token with
  | none => some none
  | some raw => do
    if raw.length < 2 + 8 + accessTokenNonceBytes + sha256Size then return none
    if (← raw[0]?) ≠ accessTokenVersion then return none
    let idLen := (← raw[1]?).toNat
    let body := raw.length - sha256Size
    if body ≠ 2 + idLen + 8 + accessTokenNonceBytes then return none
    if hmac.sum c.key (← slice raw 0 body) ≠ (← slice raw body raw.length) then return none
    let userID ← slice raw 2 (2 + idLen)
    let expiresAt := Wss.unixTime (int64 (ofBigEndian (← slice raw (2 + idLen) (2 + idLen + 8))))
    if ¬ expiresAt > now then return none
    return some userID

end OpenRung.Broker
