import OpenRung.System.Sync

/-! One access request (`internal/broker/client_access.go`) beside the system. It issues leases, waits in rounds until
    their relays have applied them and answers with the credentials of those that have. -/

namespace OpenRung
open Broker

namespace Broker

def wantRevision (want : KeyedMap String Nat) (lease : Lease) : KeyedMap String Nat :=
  if (want.lookup lease.relayID).getD 0 < lease.revision then want.insert lease.relayID lease.revision else want

def wantedRevisions (leases : List Lease) : KeyedMap String Nat := leases.foldl wantRevision ∅

def pendingRelays (leases : List Lease) (applied : List String) : List String :=
  (wantedRevisions leases).keys.filter fun id => decide (id ∉ applied)

def reachedRelays (leases : List Lease) (applied : List String) (revisions : KeyedMap String Nat) : List String :=
  (pendingRelays leases applied).filter fun id =>
    decide (((wantedRevisions leases).lookup id).getD 0 ≤ (revisions.lookup id).getD 0)

def releasedLeases (leases : List Lease) (applied : List String) : KeyedMap String Lease :=
  byRelay (leases.filter fun lease => decide (lease.relayID ∈ applied))

/-- `final` says that the deadline has fired and one last read is due, `extended` that this is the second wait. -/
inductive Request where
  | arrived (req : LeaseIssueRequest)
  | waiting (leases : List Lease) (applied : List String) (final extended : Bool)
  | answered (released : KeyedMap String Lease)
  | refused

def Request.issued : Except StoreError LeaseIssueResult → Request
  | .error _ => .refused
  | .ok result => if result.leases = [] then .answered ∅ else .waiting result.leases [] false false

/-- A wait that has marked no relay is made once more when a relay has been `alive` lately. -/
def Request.settle (leases : List Lease) (applied : List String) (extended alive : Bool) : Request :=
  if applied ≠ [] then .answered (releasedLeases leases applied)
  else if !extended && alive then .waiting leases [] false true
  else .refused

def Request.round (s : Store) (leases : List Lease) (applied : List String) (final extended alive : Bool) : Request :=
  let pending := pendingRelays leases applied
  let reached := reachedRelays leases applied (s.appliedLeaseRevisions pending)
  if final || pending.all fun id => decide (id ∈ reached) then .settle leases (applied ++ reached) extended alive
  else .waiting leases (applied ++ reached) final extended

end Broker

/-- `marks` is history: for each relay marked applied, the system at the read that marked it. -/
structure Access where
  sys : System
  request : Request
  marks : List (String × System) := []

namespace Access

inductive Step (checks : RegisterChecks) (r : String) (allowed : Request → System → Time → Op → Prop) (a : Access) :
    Access → Prop
  | system (sys : System) (step : System.Step checks r (allowed a.request) a.sys sys) :
      Step checks r allowed a { a with sys }
  | issue (req : LeaseIssueRequest) (mint : String → Option (String × String)) (here : a.request = .arrived req)
      (fresh : (Op.issueLeases req mint).Fresh a.sys.Used) :
      Step checks r allowed a
        { a with
          sys := a.sys.setStore (a.sys.store.issueLeases req mint a.sys.clock).1
          request := .issued (a.sys.store.issueLeases req mint a.sys.clock).2 }
  | read (leases : List Lease) (applied : List String) (final extended alive : Bool)
      (here : a.request = .waiting leases applied final extended) :
      Step checks r allowed a
        { a with
          request := .round a.sys.store leases applied final extended alive
          marks := (reachedRelays leases applied (a.sys.store.appliedLeaseRevisions (pendingRelays leases applied))).map
            (·, a.sys) ++ a.marks }
  | deadline (leases : List Lease) (applied : List String) (final extended : Bool)
      (here : a.request = .waiting leases applied final extended) :
      Step checks r allowed a { a with request := .waiting leases applied true extended }
  | cancel (leases : List Lease) (applied : List String) (final extended : Bool)
      (here : a.request = .waiting leases applied final extended) : Step checks r allowed a { a with request := .refused }

def Steps (checks : RegisterChecks) (r : String) (allowed : Request → System → Time → Op → Prop) : Access → Access → Prop :=
  Relation.ReflTransGen (Step checks r allowed)

end Access

end OpenRung
