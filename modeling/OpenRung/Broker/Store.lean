import OpenRung.Broker.Descriptor

/-! The in-memory broker store (`internal/broker/store.go`, `store_access.go`, `store_leases.go`). Each method runs
    under the store's mutex, so each is one step from a store to the next. -/

namespace OpenRung.Broker

def rankingWindow : Duration := 30 * minute

structure RelaySessionState where
  clientID : String := ""
  relayID : String := ""
  lastHeartbeatAt : Option Time := none
  terminalAt : Option Time := none
  lastMetricEventAt : Option Time := none
  deriving DecidableEq, Repr

structure RelayMetricObservation where
  observedAt : Time
  relayID : String
  success : Bool := false
  failure : Bool := false
  tcpMs : Int := 0
  internetProbeMs : Int := 0
  ttfbMs : Int := 0
  downloadMbpsMilli : Int := 0
  includesSpeedTest : Bool := false
  deriving DecidableEq, Repr

/-- `unset` is the empty text of a zero user; `setUserStatus` never stores it. -/
inductive UserStatus where
  | unset
  | enabled
  | disabled
  deriving DecidableEq, Repr, Inhabited

def UserStatus.parse (status : String) : Option UserStatus :=
  if status = "enabled" then some .enabled else if status = "disabled" then some .disabled else none

structure User where
  id : String := ""
  publicKey : String := ""
  status : UserStatus := .unset
  createdAt : Option Time := none
  lastAuthAt : Option Time := none
  disabledAt : Option Time := none
  disabledReason : String := ""
  deriving DecidableEq, Repr, Inhabited

structure EnrollmentWindow where
  name : String
  limit : Int
  window : Duration
  deriving DecidableEq, Repr

structure EnrollmentCounter where
  windowStart : Time
  window : Duration
  count : Int
  deriving DecidableEq, Repr

structure Store where
  relays : KeyedMap String Descriptor := ∅
  sessions : KeyedMap String RelaySessionState := ∅
  observations : List RelayMetricObservation := []
  users : KeyedMap String User := ∅
  userIDsByKey : KeyedMap String String := ∅
  enrollment : KeyedMap String (KeyedMap String EnrollmentCounter) := ∅
  leases : KeyedMap String Lease := ∅
  leaseStates : KeyedMap String LeaseStateRow := ∅

namespace Store

/-! ### Revision rows -/

def leaseState (s : Store) (relayID : String) : LeaseStateRow := (s.leaseStates.lookup relayID).getD {}

def revision (s : Store) (relayID : String) : Nat := (s.leaseState relayID).revision
def applied (s : Store) (relayID : String) : Nat := (s.leaseState relayID).applied

def setLeaseState (s : Store) (relayID : String) (row : LeaseStateRow) : Store :=
  { s with leaseStates := s.leaseStates.insert relayID row }

/-! ### Leases -/

def leaseAt (s : Store) (id : String) : Lease := (s.leases.lookup id).getD default

def putLease (s : Store) (l : Lease) : Store := { s with leases := s.leases.insert l.id l }

def liveLeasesForUser (s : Store) (userID : String) (now : Time) : List Lease :=
  (s.leases.values.filter fun l => decide (l.userID = userID) && l.live now).insertionSort fun a b => a.id ≤ b.id

def liveLeasesForRelay (s : Store) (relayID : String) (now : Time) : List Lease :=
  s.leases.values.filter fun l => decide (l.relayID = relayID) && l.live now

def liveLeaseCountForRelay (s : Store) (relayID : String) (now : Time) : Nat :=
  (s.liveLeasesForRelay relayID now).length

/-- One failed draw fails them all. -/
def mintLeases (mint : String → Option (String × String)) (req : LeaseIssueRequest) (now : Time)
    (create : List String) : Option (List Lease) :=
  create.mapM fun relayID => (mint relayID).map fun drawn =>
    { id := drawn.1, userID := req.userID, relayID, credential := drawn.2, createdAt := now, renewedAt := now,
      expiresAt := now + req.ttl }

/-- One relay's share of an issue: its victims are revoked, its live lease is extended, and a minted lease is
    added where the relay has room. The row advances once if any of these happened. -/
def issueOn (req : LeaseIssueRequest) (now : Time) (plan : LeaseIssuePlan) (minted : KeyedMap String Lease)
    (eligible : String → Bool) (acc : Store × LeaseIssueResult) (relayID : String) : Store × LeaseIssueResult :=
  let row := acc.1.leaseState relayID
  let s := acc.1.setLeaseState relayID row
  let revision := row.revision + 1
  let victims := plan.victims eligible relayID
  let s := victims.foldl (fun s victim => s.putLease ((s.leaseAt victim.id).revoke now revision)) s
  let extended := (plan.extend.lookup relayID).map fun extend => (s.leaseAt extend.id).renew now req.ttl revision
  let s := extended.toList.foldl putLease s
  let created := if eligible relayID then (minted.lookup relayID).map (Lease.stamp revision) else none
  let s := created.toList.foldl putLease s
  let leases := acc.2.leases ++ extended.toList ++ created.toList
  if victims = [] ∧ extended = none ∧ created = none then (s, { acc.2 with leases := leases })
  else (s.setLeaseState relayID { row with revision := revision },
    { leases := leases, changedRelayIDs := acc.2.changedRelayIDs ++ [relayID] })

def eligible (s : Store) (req : LeaseIssueRequest) (plan : LeaseIssuePlan) (now : Time) (relayID : String) : Bool :=
  decide (relayID ∈ plan.create) && decide ((s.liveLeaseCountForRelay relayID now : Int) < req.maxPerRelay)

/-- `mint` holds the random draws for the relays that get a new lease. -/
def issueLeases (s : Store) (request : LeaseIssueRequest) (mint : String → Option (String × String)) (now : Time) :
    Store × Except StoreError LeaseIssueResult :=
  let req := request.normalized
  match s.users.lookup req.userID with
  | none => (s, .error .userNotFound)
  | some user =>
    if user.status ≠ .enabled then (s, .error .userDisabled)
    else match planLeaseIssue req (s.liveLeasesForUser req.userID now) with
      | .error e => (s, .error e)
      | .ok plan =>
        -- Everything that can fail is drawn before the store is written.
        match mintLeases mint req now plan.create with
        | none => (s, .error .mint)
        | some drawn =>
          let minted := KeyedMap.putAll Lease.relayID drawn ∅
          let out := plan.affected.foldl (issueOn req now plan minted (s.eligible req plan now)) (s, {})
          (out.1, .ok out.2)

def revokeOn (live : List Lease) (now : Time) (s : Store) (relayID : String) : Store :=
  let row := { s.leaseState relayID with revision := s.revision relayID + 1 }
  (live.filter fun l => decide (l.relayID = relayID)).foldl (fun s lease => s.putLease (lease.revoke now row.revision))
    (s.setLeaseState relayID row)

/-- `revokeUserLeasesLocked`: the user's live leases are revoked, with one revision step for each relay. -/
def revokeUserLeases (s : Store) (userID : String) (now : Time) : Store × List String :=
  let live := s.liveLeasesForUser userID now
  let relayIDs := sortedUnique (live.map Lease.relayID)
  (relayIDs.foldl (revokeOn live now) s, relayIDs)

/-! ### The sync endpoints of a relay -/

def leaseRelayAuthorized (s : Store) (relayID leaseToken : String) : Bool :=
  match s.relays.lookup relayID with
  | none => false
  | some desc => desc.identityPublicKey != "" && desc.leaseToken != "" && desc.leaseToken == leaseToken

def relayLeaseSet (s : Store) (relayID leaseToken : String) (now : Time) : Except StoreError RelayLeaseSet :=
  if s.leaseRelayAuthorized relayID leaseToken then
    .ok {
      revision := s.revision relayID
      appliedRevision := s.applied relayID
      leases := (s.liveLeasesForRelay relayID now).insertionSort fun a b => a.id ≤ b.id
    }
  else .error .relayNotFound

def ackLeaseRevision (s : Store) (relayID leaseToken : String) (revision : Int) : Store × Except StoreError Unit :=
  if s.leaseRelayAuthorized relayID leaseToken then
    let row := s.leaseState relayID
    let row := if row.applied < revision then { row with applied := revision.toNat } else row
    (s.setLeaseState relayID row, .ok ())
  else (s, .error .relayNotFound)

def appliedLeaseRevisions (s : Store) (relayIDs : List String) : KeyedMap String Nat :=
  relayIDs.foldl (fun m relayID => m.insert relayID (s.applied relayID)) ∅

/-! ### Users -/

/-- The counter after the charge, and the shortest wait of the windows over their limit. -/
def chargeWindow (counters : KeyedMap String EnrollmentCounter) (now : Time)
    (acc : KeyedMap String EnrollmentCounter × Duration) (w : EnrollmentWindow) :
    KeyedMap String EnrollmentCounter × Duration :=
  let fresh : EnrollmentCounter := { windowStart := now, window := w.window, count := 0 }
  let counter := match counters.lookup w.name with
    | none => fresh
    | some counter => if now < counter.windowStart + counter.window then counter else fresh
  let counter := { counter with window := w.window, count := counter.count + 1 }
  let wait := counter.windowStart + counter.window - now
  let retryAfter := if w.limit < counter.count ∧ (acc.2 = 0 ∨ wait < acc.2) then wait else acc.2
  (acc.1.insert w.name counter, retryAfter)

/-- `newUserID` is the draw for a new identity; when it fails the windows stay charged. -/
def authenticateUser (s : Store) (canonicalPublicKey sourceKey : String) (windows : List EnrollmentWindow)
    (refuseNew : Option StoreError) (newUserID : Option String) (now : Time) : Store × Except StoreError (User × Bool) :=
  match s.userIDsByKey.lookup canonicalPublicKey with
  | some id =>
    let user := { (s.users.lookup id).getD default with lastAuthAt := some now }
    ({ s with users := s.users.insert id user }, .ok (user, false))
  | none =>
    match refuseNew with
    | some e => (s, .error e)
    | none =>
      let counters := (s.enrollment.lookup sourceKey).getD ∅
      let charged := windows.foldl (chargeWindow counters now) (∅, 0)
      if 0 < charged.2 then (s, .error (.enrollmentLimited charged.2))
      else
        let counters := charged.1.entries.foldl (fun m e => m.insert e.1 e.2) counters
        let s := if counters.entries.isEmpty then s else { s with enrollment := s.enrollment.insert sourceKey counters }
        match newUserID with
        | none => (s, .error .mint)
        | some id =>
          let user : User := { id, publicKey := canonicalPublicKey, status := .enabled, createdAt := some now,
                               lastAuthAt := some now }
          ({ s with users := s.users.insert id user, userIDsByKey := s.userIDsByKey.insert canonicalPublicKey id },
            .ok (user, true))

def userByID (s : Store) (id : String) : Except StoreError User :=
  match s.users.lookup id with
  | none => .error .userNotFound
  | some user => .ok user

def setUserStatus (s : Store) (id status reason : String) (now : Time) : Store × Except StoreError (User × List String) :=
  match UserStatus.parse status with
  | none => (s, .error .invalidUserStatus)
  | some status =>
    match s.users.lookup id with
    | none => (s, .error .userNotFound)
    | some user =>
      if status = .disabled then
        let user := { user with status, disabledAt := some now, disabledReason := reason }
        let out := s.revokeUserLeases id now
        ({ out.1 with users := out.1.users.insert id user }, .ok (user, out.2))
      else
        let user := { user with status, disabledAt := none, disabledReason := "" }
        ({ s with users := s.users.insert id user }, .ok (user, []))

end Store
end OpenRung.Broker
