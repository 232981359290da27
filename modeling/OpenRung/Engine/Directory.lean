import OpenRung.Lib.Trace
import OpenRung.Broker.Lease

/-! The directory cache (`connectcore/directory.go`): calls of `fetch` take turns by `flightMu`, and a call asks the
    broker unless the list of the last good answer is fresh and young. -/

namespace OpenRung.Engine

def minDirectoryRefreshInterval : Duration := 30 * second
def directoryNotAfterSkewAllowance : Duration := 5 * minute

/-- A relay list; without `notAfter` where the broker sent the zero time. -/
structure RelayListResponse (α : Type) where
  notAfter : Option Time
  relays : List α

structure DirectoryCache (α : Type) where
  cached : Option (RelayListResponse α) := none
  cachedURL : String := ""
  fetchedAt : Option Time := none

def directorySnapshotFresh {α : Type} (response : Option (RelayListResponse α)) (now : Time) : Bool :=
  match response.bind (·.notAfter) with
  | none => false
  | some notAfter => !decide (notAfter < now - directoryNotAfterSkewAllowance)

namespace DirectoryCache
variable {α : Type}

/-- `now.Sub(d.fetchedAt) >= MinDirectoryRefreshInterval`; a list was never fetched at the zero time. -/
def old (d : DirectoryCache α) (now : Time) : Bool :=
  match d.fetchedAt with
  | none => true
  | some fetchedAt => decide (minDirectoryRefreshInterval ≤ now - fetchedAt)

def snapshotFor (d : DirectoryCache α) (brokerURL : String) (withinInterval : Bool) (now : Time) :
    Option (RelayListResponse α) :=
  if d.cachedURL ≠ brokerURL ∨ directorySnapshotFresh d.cached now = false then none
  else if withinInterval && d.old now then none
  else d.cached

end DirectoryCache

inductive FetchPhase (α : Type) where
  | free
  | entered
  | missed
  | requesting
  | failed
  | fetched (response : RelayListResponse α)

/-- With the calls for one broker URL, what they returned, the starts of their requests, and the last answer to one.
    -/
structure Directory (α : Type) where
  clock : Time
  cache : DirectoryCache α := {}
  phase : FetchPhase α := .free
  results : List (Option (RelayListResponse α)) := []
  starts : List Time := []
  answer : Option (RelayListResponse α) := none

namespace Directory
variable {α : Type}

inductive Label (α : Type) where
  | tick (d : Duration)
  | enter
  | check
  | request
  | answer (response : Option (RelayListResponse α))
  | store
  | fallback

def step (brokerURL : String) (s : Directory α) : Label α → Option (Directory α)
  | .tick d => if 0 ≤ d then some { s with clock := s.clock + d } else none
  | .enter =>
    match s.phase with
    | .free => some { s with phase := .entered }
    | _ => none
  | .check =>
    match s.phase with
    | .entered =>
      match s.cache.snapshotFor brokerURL true s.clock with
      | some cached => some { s with phase := .free, results := s.results ++ [some cached] }
      | none => some { s with phase := .missed }
    | _ => none
  | .request =>
    match s.phase with
    | .missed => some { s with phase := .requesting, starts := s.starts ++ [s.clock] }
    | _ => none
  | .answer response =>
    match s.phase, response with
    | .requesting, none => some { s with phase := .failed, answer := none }
    | .requesting, some response => some { s with phase := .fetched response, answer := some response }
    | _, _ => none
  | .store =>
    match s.phase with
    | .fetched response =>
      let cache : DirectoryCache α := { cached := some response, cachedURL := brokerURL, fetchedAt := some s.clock }
      some { s with phase := .free, cache, results := s.results ++ [some response] }
    | _ => none
  | .fallback =>
    match s.phase with
    | .failed =>
      let served := s.cache.snapshotFor brokerURL false s.clock
      some { s with phase := .free, results := s.results ++ [served] }
    | _ => none

end Directory

end OpenRung.Engine
