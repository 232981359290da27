import OpenRung.Broker.Lease

/-! The relay's rotating credentials (`internal/relayruntime`). A credential is derived for each bucket of the
    rotation period; the session keeps those of the current and the previous bucket, and the one that the broker last
    confirmed, accepted by Xray. Calls of Xray succeed, or fail without effect. -/

namespace OpenRung.Relay

/-! ### The schedule -/

def credentialKeyLabel : String := "openrung-cred-v1"

def credentialRotationPeriod : Duration := hour

def brokerSilenceGrace : Duration := hour

/-- The UUID text of an HMAC under the relay's key, and `time.Format` of a whole second, which renders different
    seconds differently. -/
structure CredentialDerivation where
  uuid : String → String
  format : Int → String
  format_injective : Function.Injective format

structure CredentialSchedule where
  derivation : CredentialDerivation
  period : Duration
  one_second : second ≤ period

/-- The rotation period is at least a second; zero means the default. -/
def newCredentialSchedule (derivation : CredentialDerivation) (keyLength : Nat) (period : Duration) :
    Except String CredentialSchedule :=
  if keyLength < 16 then .error "credential schedule: key must be at least 16 bytes"
  else
    let period := if period = 0 then credentialRotationPeriod else period
    if short : period < second then .error "credential schedule: period must be at least one second"
    else .ok { derivation, period, one_second := Int.not_lt.mp short }

structure Credential where
  id : String
  email : String
  bucket : Time
  deriving DecidableEq

/-- Whole seconds since 1970, of a time that counts from the zero time of year 1. -/
def unix (t : Time) : Int := t / second - 62135596800

namespace CredentialSchedule

/-- `Truncate` counts from the zero time. -/
def bucket (schedule : CredentialSchedule) (now : Time) : Time := now - now % schedule.period

def credential (schedule : CredentialSchedule) (bucket : Time) : Credential where
  id := schedule.derivation.uuid (credentialKeyLabel ++ "|" ++ toString (unix bucket))
  email := "cred-" ++ schedule.derivation.format (unix bucket)
  bucket := bucket

def current (schedule : CredentialSchedule) (now : Time) : Credential := schedule.credential (schedule.bucket now)

def previous (schedule : CredentialSchedule) (now : Time) : Credential :=
  schedule.credential (schedule.bucket now - schedule.period)

end CredentialSchedule

/-! ### The rotation -/

/-- A `credentialRotation` and the users that its Xray accepts. `lastContact` is `none` for the zero time. -/
structure CredentialRotation where
  registered : KeyedMap String Credential := ∅
  confirmed : String := ""
  lastContact : Option Time := none
  users : KeyedMap String Credential := ∅
  clock : Time := 0

namespace CredentialRotation
variable (schedule : CredentialSchedule)

/-- `added` is what `AddUser` comes to, if it is called. -/
def ensure (s : CredentialRotation) (credential : Credential) (added : Bool) : CredentialRotation × Bool :=
  if (s.registered.lookup credential.email).isSome then (s, true)
  else if added then
    ({ s with
        users := s.users.insert credential.email credential
        registered := s.registered.insert credential.email credential }, true)
  else (s, false)

def install (s : CredentialRotation) (now : Time) : List (Bool × Bool) → CredentialRotation × Bool
  | [] => (s, false)
  | (addedPrevious, addedCurrent) :: attempts =>
    match s.ensure (schedule.previous now) addedPrevious with
    | (s, true) =>
      match s.ensure (schedule.current now) addedCurrent with
      | (s, true) => (s, true)
      | (s, false) => s.install now attempts
    | (s, false) => s.install now attempts

def announce (s : CredentialRotation) (now : Time) (added : Bool) : CredentialRotation × String :=
  let s := (s.ensure (schedule.current now) added).1
  match s.registered.lookup (schedule.current now).email with
  | some registered => (s, registered.id)
  | none =>
    match s.registered.lookup (schedule.previous now).email with
    | some registered => (s, registered.id)
    | none => (s, "")

/-- An empty id is the answer of a broker that predates the field. -/
def confirm (s : CredentialRotation) (now : Time) (clientID : String) : CredentialRotation :=
  { s with
    lastContact := some now
    confirmed := if clientID ≠ "" then clientID else s.confirmed }

def keepConfirmed (s : CredentialRotation) (now : Time) : Bool :=
  match s.lastContact with
  | some t => decide (now - t ≤ brokerSilenceGrace)
  | none => false

def keeps (s : CredentialRotation) (now : Time) (email : String) (credential : Credential) : Bool :=
  email == (schedule.current now).email || email == (schedule.previous now).email ||
    (s.keepConfirmed now && credential.id == s.confirmed)

/-- `RemoveUser` fails for the labels in `fails`. -/
def retireOne (keeps : String → Credential → Bool) (fails : List String) (s : CredentialRotation)
    (entry : Sigma fun _ : String => Credential) : CredentialRotation :=
  if keeps entry.1 entry.2 then s
  else if entry.1 ∈ fails then s
  else { s with users := s.users.erase entry.1, registered := s.registered.erase entry.1 }

def retire (s : CredentialRotation) (now : Time) (fails : List String) : CredentialRotation :=
  s.registered.entries.foldl (retireOne (s.keeps schedule now) fails) s

/-! ### The session -/

inductive Step where
  | install (now : Time) (attempts : List (Bool × Bool))
  | announce (now : Time) (added : Bool)
  | confirm (now : Time) (clientID : String)
  | retire (now : Time) (fails : List String)
  | reRegister (now : Time) (clientID : Option String)
  deriving DecidableEq

def Step.now : Step → Time
  | .install now _ | .announce now _ | .confirm now _ | .retire now _ | .reRegister now _ => now

def effect (s : CredentialRotation) : Step → CredentialRotation
  | .install now attempts => (s.install schedule now attempts).1
  | .announce now added => (s.announce schedule now added).1
  | .confirm now clientID => s.confirm now clientID
  | .retire now fails => s.retire schedule now fails
  | .reRegister now (some clientID) => s.confirm now clientID
  | .reRegister _ none => s

def step (s : CredentialRotation) (action : Step) : Option CredentialRotation :=
  if s.clock ≤ action.now then some { s.effect schedule action with clock := action.now } else none

inductive HeartbeatAnswer where
  | ok (clientID : String)
  | notFound (reRegistered : Option String)
  | failed

/-- One heartbeat; retirement is deferred to every exit. -/
def sendHeartbeat (now : Time) (added : Bool) (answer : HeartbeatAnswer) (fails : List String) : List Step :=
  match answer with
  | .ok clientID => [.announce now added, .confirm now clientID, .retire now fails]
  | .notFound reRegistered => [.announce now added, .reRegister now reRegistered, .retire now fails]
  | .failed => [.announce now added, .retire now fails]

end CredentialRotation

end OpenRung.Relay
