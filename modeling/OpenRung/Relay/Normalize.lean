import OpenRung.Net.Addr
import OpenRung.Relay.Identity

/-! The normalisation of a registration (`internal/relay/types.go`) and the order in which the broker's register
    handler (`internal/broker/server.go`) applies it. -/

namespace OpenRung.Relay
open Broker

def maxLabelLength : Nat := 63
def maxOperatorContactLength : Nat := 128

def labelChar (c : Char) : Bool := c.isAlphanum || c = '-' || c = '_' || c = '.'

def normalizeLabel (label : String) : Except String String :=
  let label := trimSpace label
  if label = "" then .ok ""
  else if label.length > maxLabelLength then .error "label must be at most 63 characters"
  else if !label.toList.all labelChar then
    .error "label may only contain letters, digits, hyphen (-), underscore (_), and period (.)"
  else .ok label

def emailShape (contact : List Char) : Bool :=
  let locals := contact.takeWhile (· ≠ '@')
  let domain := contact.drop (locals.length + 1)
  '@' ∈ contact && locals ≠ [] && '@' ∉ domain && '.' ∈ domain && domain.head? ≠ some '.' && domain.getLast? ≠ some '.'

def normalizeOperatorContact (contact : String) : Except String String :=
  let contact := trimSpace contact
  if contact = "" then .ok ""
  else if contact.utf8ByteSize > maxOperatorContactLength then .error "operator_contact must be at most 128 characters"
  else if !contact.toList.all fun c => '!' ≤ c && c ≤ '~' then
    .error "operator_contact must be an email address (printable ASCII, no spaces)"
  else if !emailShape contact.toList then .error "operator_contact must be an email address"
  else .ok contact

def sharedAddressSpace : Addr → Bool
  | .v4 value => Addr.inPrefix value 22 (0x6440 / 64)
  | .v6 _ _ => false

/-- `spell` is `Addr.String`. -/
def normalizeAccessHost (spell : Addr → String) (host : String) : Except String String :=
  let host := trimSpace host
  if host = "" then .ok ""
  else match Addr.parse host.toList with
    | none => .error "access_host must be an IPv4 or IPv6 address literal"
    | some addr =>
      if addr.is4In6 || addr.zone ≠ "" then .error "access_host must be an IPv4 or IPv6 address literal"
      else if !addr.isGlobalUnicast || addr.isPrivate || sharedAddressSpace addr then
        .error "access_host must be a global unicast address"
      else .ok (spell addr)

/-- The class of a registration. `toLower` is that of package `strings`. -/
def normalizeNodeClass (toLower : String → String) (cls : String) : Except String String :=
  let lowered := toLower (trimSpace cls)
  if lowered = "" ∨ lowered = nodeClassVolunteer then .ok nodeClassVolunteer
  else if lowered = nodeClassFoundation then .ok nodeClassFoundation
  else .error "node_class must be \"volunteer\" or \"foundation\""

structure Spelling where
  toLower : String → String
  addrString : Addr → String

def Spelling.normalize (spelling : Spelling) (req : RegisterRequest) : Except String RegisterRequest := do
  let label ← normalizeLabel req.label
  let contact ← normalizeOperatorContact req.operatorContact
  let accessHost ← normalizeAccessHost spelling.addrString req.accessHost
  let nodeClass ← normalizeNodeClass spelling.toLower req.nodeClass
  .ok { req with label, operatorContact := contact, accessHost, nodeClass }

inductive HandlerError where
  | badRequest (message : String)
  | identity (error : StoreError)
  deriving DecidableEq, Repr

def Spelling.registeredIdentity (spelling : Spelling) (crypto : IdentityCrypto) (req : RegisterRequest) (now : Time) :
    Except HandlerError (Option IdentityKey) :=
  match spelling.normalize req with
  | .error message => .error (.badRequest message)
  | .ok req => (crypto.verifyIdentity req now).mapError .identity

end OpenRung.Relay
