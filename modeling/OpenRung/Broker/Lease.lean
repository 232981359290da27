import Mathlib.Data.List.Sort
import Mathlib.Data.String.Basic
import OpenRung.Lib.KeyedMap

/-! Access leases (`internal/broker/leases.go`) and the plan that an issue request follows (`planLeaseIssue` and
    `victims` in `internal/broker/store_leases.go`). -/

namespace OpenRung

/-- An instant in nanoseconds. -/
abbrev Time := Int

abbrev Duration := Int

def second : Duration := 1000000000
def minute : Duration := 60 * second
def hour : Duration := 60 * minute

namespace Broker

def defaultAccessLeaseTTL : Duration := hour
def defaultMaxLeasesPerUser : Int := 10
def defaultMaxLeasesPerRelay : Int := 2000

def leaseRetention : Duration := 7 * 24 * hour

/-- `revokedAt` is `none` for the zero time, which no clock reads. -/
structure Lease where
  id : String := ""
  userID : String := ""
  relayID : String := ""
  credential : String := ""
  createdAt : Time := 0
  renewedAt : Time := 0
  expiresAt : Time := 0
  revokedAt : Option Time := none
  revision : Nat := 0
  deriving DecidableEq, Repr, Inhabited

def Lease.live (l : Lease) (now : Time) : Bool := l.revokedAt.isNone && decide (now < l.expiresAt)

/-! The three ways a lease is written, each at its relay's next revision. -/

def Lease.revoke (now : Time) (revision : Nat) (l : Lease) : Lease :=
  { l with revokedAt := some now, revision := revision }

def Lease.renew (now : Time) (ttl : Duration) (revision : Nat) (l : Lease) : Lease :=
  { l with renewedAt := now, expiresAt := now + ttl, revision := revision }

def Lease.stamp (revision : Nat) (l : Lease) : Lease := { l with revision := revision }

structure RelayLeaseSet where
  revision : Nat := 0
  appliedRevision : Nat := 0
  leases : List Lease := []
  deriving DecidableEq, Repr

structure LeaseIssueRequest where
  userID : String
  relayIDs : List String
  ttl : Duration
  maxPerUser : Int
  maxPerRelay : Int
  deriving Repr

def sortedUnique (ids : List String) : List String := ids.dedup.insertionSort (· ≤ ·)

def orDefault (value default : Int) : Int := if value ≤ 0 then default else value

def LeaseIssueRequest.normalized (r : LeaseIssueRequest) : LeaseIssueRequest where
  userID := r.userID
  relayIDs := sortedUnique r.relayIDs
  ttl := orDefault r.ttl defaultAccessLeaseTTL
  maxPerUser := orDefault r.maxPerUser defaultMaxLeasesPerUser
  maxPerRelay := orDefault r.maxPerRelay defaultMaxLeasesPerRelay

structure LeaseIssueResult where
  leases : List Lease := []
  changedRelayIDs : List String := []
  deriving DecidableEq, Repr

/-- `mint` is a failed draw of random bytes. -/
inductive StoreError where
  | userNotFound
  | userDisabled
  | leaseCapExceeded
  | leaseNotFound
  | relayNotFound
  | nodeClassForbidden
  | invalidUserStatus
  | enrollmentLimited (retryAfter : Duration)
  | datacenterSource
  | sourceUnclassified
  | identityIncomplete
  | identityProofExpired
  | identityProofInvalid
  | wssCapabilityIncomplete
  | wssCapabilityExpired
  | wssCapabilityInvalid
  | wssFrontInvalid
  | mint
  deriving DecidableEq, Repr

structure LeaseStateRow where
  revision : Nat := 0
  applied : Nat := 0
  deriving DecidableEq, Repr, Inhabited

/-! ### The plan of an issue request -/

structure LeaseIssuePlan where
  extend : KeyedMap String Lease
  create : List String
  candidates : List Lease
  liveCount : Nat
  maxPerUser : Int
  affected : List String

def evictedBefore (a b : Lease) : Prop :=
  if a.renewedAt ≠ b.renewedAt then a.renewedAt < b.renewedAt else a.id ≤ b.id

instance : DecidableRel evictedBefore := fun a b =>
  inferInstanceAs (Decidable (if a.renewedAt ≠ b.renewedAt then a.renewedAt < b.renewedAt else a.id ≤ b.id))

def byRelay (live : List Lease) : KeyedMap String Lease := KeyedMap.putAll Lease.relayID live ∅

def planLeaseIssue (req : LeaseIssueRequest) (live : List Lease) : Except StoreError LeaseIssuePlan :=
  if req.maxPerUser < req.relayIDs.length then .error .leaseCapExceeded
  else
    let outside := live.filter fun l => decide (l.relayID ∉ req.relayIDs)
    .ok {
      extend := (byRelay live).filter fun relayID _ => decide (relayID ∈ req.relayIDs)
      create := req.relayIDs.filter fun relayID => ((byRelay live).lookup relayID).isNone
      candidates := outside.insertionSort evictedBefore
      liveCount := live.length
      maxPerUser := req.maxPerUser
      affected := sortedUnique (req.relayIDs ++ outside.map Lease.relayID)
    }

def LeaseIssuePlan.evicted (p : LeaseIssuePlan) (eligible : String → Bool) : List Lease :=
  let issuable := (p.create.filter eligible).length
  let above : Int := p.liveCount + issuable - p.maxPerUser
  if above ≤ 0 then []
  else if above > p.candidates.length then p.candidates
  else p.candidates.take above.toNat

def LeaseIssuePlan.victims (p : LeaseIssuePlan) (eligible : String → Bool) (relayID : String) : List Lease :=
  (p.evicted eligible).filter fun l => decide (l.relayID = relayID)

end Broker
end OpenRung
