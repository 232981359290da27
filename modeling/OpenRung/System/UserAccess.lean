import OpenRung.Broker.Registry
import OpenRung.Broker.UserAuth

/-! Client users from their authentication to their leases: `authHandler` beside the access handler
    (`internal/broker/client_access.go`), over one store. A request for access checks its bearer token and the user, and
    issues leases in a later section of the store. The relays it asks for are any. -/

namespace OpenRung.Broker
open Joined

/-- `authorized` are the users of the requests that have passed their checks and have not issued their leases. -/
structure UserAccess (κ : Type) where
  auth : UserAuthState κ := {}
  authorized : List String := []

inductive UserAccessLabel where
  | auth (label : UserAuthLabel)
  | access (bearer : Bytes) (now : Time)
  | issue (i : Nat) (relayIDs : List String) (ttl : Duration) (maxPerUser maxPerRelay : Int)
      (mint : String → Option (String × String)) (now : Time)

namespace UserAccess
variable {κ : Type} (svc : UserAuthService κ)

/-- The user that a bearer token is good for: known, and enabled. -/
def authorize (store : Store) (bearer : Bytes) (now : Time) : Option String := do
  let id ← (← svc.tokens.verify svc.hmac bearer now)
  let userID ← store.users.keys.find? fun key => utf8 key = id
  let user ← store.users.lookup userID
  if user.status = .enabled then some userID else none

def step (s : UserAccess κ) : UserAccessLabel → Option (UserAccess κ)
  | .auth label => (s.auth.step svc label).map fun auth => { s with auth }
  | .access bearer now => some { s with authorized := s.authorized ++ (authorize svc s.auth.store bearer now).toList }
  | .issue i relayIDs ttl maxPerUser maxPerRelay mint now => do
    let userID ← s.authorized[i]?
    let out := s.auth.store.issueLeases { userID, relayIDs, ttl, maxPerUser, maxPerRelay } mint now
    return { auth := { s.auth with store := out.1 }, authorized := s.authorized.eraseIdx i }

end UserAccess

end OpenRung.Broker
