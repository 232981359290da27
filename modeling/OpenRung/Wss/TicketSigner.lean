import OpenRung.Wss.Ticket

/-! The signing side of WSS bridge tickets (`TicketSigner` in `internal/wssbridge/ticket.go`). -/

namespace OpenRung.Wss

structure SigningCrypto extends Crypto where
  publicKey : Bytes → Bytes
  sign : Bytes → Bytes → Bytes

/-- Its options are normal because `NewTicketSigner` is the only way to build one. -/
structure TicketSigner where
  key : Bytes
  opts : TicketOptions
  normal : opts.Normal

def newTicketSigner (key : Bytes) (opts : TicketOptions) : Except String TicketSigner :=
  if key.length ≠ 64 then .error "ticket signing key must be 64 bytes"
  else match opts.normalized with
    | .error message => .error message
    | .ok ⟨normal, isNormal⟩ => .ok ⟨key, normal, isNormal⟩

namespace TicketSigner

def keyID (s : TicketSigner) (crypto : SigningCrypto) : Bytes := ticketKeyID crypto.toCrypto (crypto.publicKey s.key)

inductive SignError where
  | claims (error : TicketError)
  | marshal
  | size
  deriving DecidableEq, Repr

def sign (s : TicketSigner) (crypto : SigningCrypto) (now : Time) (claims : Claims) : Except SignError Bytes :=
  match validateClaims claims now s.opts false [] with
  | .error e => .error (.claims e)
  | .ok () =>
    match crypto.marshalClaims claims with
    | none => .error .marshal
    | some payload =>
      let signature := crypto.sign s.key (ticketStatement payload)
      let token := [46].intercalate [ticketPrefix, s.keyID crypto, Base64.encode payload, Base64.encode signature]
      if token.length > maxTicketBytes then .error .size else .ok token

end TicketSigner

end OpenRung.Wss
