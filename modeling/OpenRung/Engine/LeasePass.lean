import OpenRung.Engine.Ladder

/-! The passes of a connection: `fetchCandidates` with its per-user access requests, the ladder, the public fallback,
    and `reladder` (`connectcore/access.go`, `family.go`, `ranker.go`, `monitor.go`). -/

namespace OpenRung.Ladder

/-! ### Answers and the lease -/

structure Fetch where
  brokerURL : String
  azureSNI : Bool := false
  relays : List RelayDescriptor

def RelayDescriptor.issued (source : CredentialSource) (relay : RelayDescriptor) : RelayDescriptor :=
  { relay with issuedBy := source }

/-- An access answer, with the local time it arrived. Accepted answers have a positive lifetime. -/
structure AccessAnswer where
  relays : List RelayDescriptor
  serverTime : Time
  leaseExpiresAt : Time
  received : Time
  lasting : serverTime < leaseExpiresAt

def AccessAnswer.lifetime (answer : AccessAnswer) : Duration := answer.leaseExpiresAt - answer.serverTime

inductive AccessReply where
  | answered (answer : AccessAnswer)
  | disabled
  | enrollmentRefused
  | unsupported
  | failed

/-- `accessLease`; an `expiresAt` of `none` is Go's zero time, which no clock reads. -/
structure AccessLease where
  expiresAt : Option Time := none
  lifetime : Duration := 0
  front : String := ""
  azureSNI : Bool := false

def AccessLease.valid (lease : AccessLease) : Bool := lease.expiresAt.isSome && decide (0 < lease.lifetime)

structure Grant where
  answer : AccessAnswer
  front : String

/-- `pass` and `granted` are history: how many passes there were, and what this one was granted. -/
structure Connection where
  lease : AccessLease := {}
  accessFront : String := ""
  accessAzureSNI : Bool := false
  accessUnsupported : Bool := false
  publicFallback : Option Fetch := none
  publicEndpoints : KeyedMap String RelayEndpoint := ∅
  pass : Nat := 0
  granted : Option Grant := none

/-! ### Selecting candidates -/

structure RelayTarget where
  relayID : String := ""
  label : String := ""
  country : String := ""

namespace RelayTarget

def identity (t : RelayTarget) : Bool := Broker.trimSpace t.relayID ≠ "" || Broker.trimSpace t.label ≠ ""

end RelayTarget

structure PassHost extends Host where
  installationKey : Bool := true
  endpointUnbound : String → Bool := fun _ => false
  isUsableRelay : RelayDescriptor → Bool := fun _ => true
  equalFold : String → String → Bool := fun a b => a = b
  target : RelayTarget := {}

section
variable (host : PassHost)

def filterCandidates (cands : List RelayDescriptor) : Option (List RelayDescriptor) :=
  if host.target.identity then
    let id := Broker.trimSpace host.target.relayID
    let label := Broker.trimSpace host.target.label
    let matched := cands.filter fun cand => (id ≠ "" && cand.id = id) || (label ≠ "" && cand.label = label)
    if matched = [] then none else some matched
  else
    let country := Broker.trimSpace host.target.country
    if country ≠ "" then
      let matched := cands.filter fun cand => host.equalFold (Broker.trimSpace cand.countryCode) country
      if matched = [] then none else some matched
    else some cands

def candidatesFor (relays : List RelayDescriptor) : Option (List RelayDescriptor) :=
  if relays = [] then none
  else
    let usable := relays.filter host.isUsableRelay
    if usable = [] then none else filterCandidates host usable

/-- `adaptToAddressFamily`; `unavailable` says that the device is known to have no IPv6. -/
def adaptToAddressFamily (conn : Connection) (unavailable : Bool) (cands : List RelayDescriptor) : List RelayDescriptor :=
  if cands.any (fun cand => host.isIPv6Host cand.publicHost) && unavailable then
    let adapted := cands.map fun cand =>
      match publicEndpointFor host.toHost conn.publicEndpoints cand with
      | some endpoint => (cand.at endpoint, false)
      | none => (cand, host.isIPv6Host cand.publicHost)
    (adapted.filter fun a => !a.2).map Prod.fst ++ (adapted.filter fun a => a.2).map Prod.fst
  else cands

def relayRankMaxProbes : Nat := 8
def relayRankBucketMS : Nat := 30

/-- `probe` is the measured latency of the candidate at a position, if its probe succeeded. -/
def rankByTCPLatency (probe : Nat → Option Nat) (cands : List RelayDescriptor) : List RelayDescriptor :=
  if cands.length < 2 then cands
  else
    let probed := (cands.take relayRankMaxProbes).zipIdx.map fun entry => (entry.1, probe entry.2)
    let reached := probed.filter fun entry => entry.2.isSome
    let failed := probed.filter fun entry => entry.2.isNone
    (reached.mergeSort fun a b => a.2.getD 0 / relayRankBucketMS ≤ b.2.getD 0 / relayRankBucketMS).map Prod.fst ++
      failed.map Prod.fst ++ cands.drop relayRankMaxProbes

def rankLadder (probe : Nat → Option Nat) (cands : List RelayDescriptor) : List RelayDescriptor :=
  if host.target.identity || decide (cands.length < 2) then cands else rankByTCPLatency probe cands

def demoteRelay (cands : List RelayDescriptor) (id : String) : List RelayDescriptor :=
  cands.filter (fun cand => cand.id ≠ id) ++ cands.filter (fun cand => cand.id = id)

/-! ### Endpoints learned from public lists -/

def rememberPublicEndpoints (conn : Connection) (relays : List RelayDescriptor) : Connection :=
  { conn with
    publicEndpoints := relays.foldl (fun known relay =>
      if relay.id = "" ∨ relay.publicHost = "" ∨ host.isIPv6Host relay.publicHost then known
      else known.insert relay.id { host := relay.publicHost, port := relay.publicPort }) conn.publicEndpoints }

def leasedEndpointRetries (conn : Connection) (tried : List RelayDescriptor) (before : KeyedMap String RelayEndpoint) :
    List RelayDescriptor :=
  tried.filterMap fun cand =>
    match conn.publicEndpoints.lookup cand.id with
    | none => none
    | some current =>
      let previous := before.lookup cand.id
      let triedEndpoint : RelayEndpoint := { host := cand.publicHost, port := cand.publicPort }
      if previous = some current then none
      else if !host.isIPv6Host cand.publicHost && decide (previous ≠ some triedEndpoint) then none
      else if triedEndpoint = current then none
      else some { cand.at current with wssFronts := [] }

/-! ### Fetching -/

def accessWanted (conn : Connection) : Bool :=
  host.installationKey && !conn.accessUnsupported &&
    (Broker.trimSpace host.target.relayID ≠ "" || Broker.trimSpace host.target.label = "")

inductive Accessed where
  | granted (fetch : Fetch)
  | declined
  | refused

def fetchAccess (ctx : Context) (conn : Connection) (front : String) (azureSNI : Bool) (reply : AccessReply) (now : Nat) :
    Accessed × Connection × Nat :=
  if host.endpointUnbound front && !azureSNI then (.declined, conn, now)
  else
    match reply with
    | .answered answer =>
      match filterCandidates host (answer.relays.filter host.isUsableRelay) with
      | none => (.declined, conn, now + 2)
      | some [] => (.declined, conn, now + 2)
      | some (_ :: _) =>
        let lease : AccessLease :=
          { expiresAt := some (answer.received + answer.lifetime), lifetime := answer.lifetime, front, azureSNI }
        let relays := answer.relays.map (RelayDescriptor.issued (.access conn.pass))
        (.granted { brokerURL := front, azureSNI, relays }, { conn with lease, granted := some { answer, front } }, now + 2)
    | .disabled => (.refused, conn, now + 2)
    | .enrollmentRefused => if ctx.err (now + 1) then (.refused, conn, now + 2) else (.declined, conn, now + 2)
    | .unsupported =>
      if ctx.err (now + 1) then (.refused, conn, now + 2)
      else (.declined, { conn with accessUnsupported := true }, now + 2)
    | .failed =>
      if ctx.err (now + 1) then (.refused, conn, now + 2) else (.declined, { conn with accessFront := "" }, now + 2)

/-- `discovery` is the public list of the race, `none` its failure. -/
structure FetchOps where
  pinned : AccessReply := .failed
  discovery : Option Fetch := none
  access : AccessReply := .failed

def Fetch.publicList (fetch : Fetch) : Fetch := { fetch with relays := fetch.relays.map (RelayDescriptor.issued .publicList) }

def fetchRaced (ctx : Context) (conn : Connection) (wantAccess : Bool) (triedFront : String) (ops : FetchOps) (now : Nat) :
    Option Fetch × Connection × Nat :=
  match ops.discovery with
  | none => (none, conn, now + 1)
  | some found =>
    let fetch := found.publicList
    let conn := rememberPublicEndpoints host conn fetch.relays
    if wantAccess && !conn.accessUnsupported && decide (fetch.brokerURL ≠ triedFront) then
      let conn := { conn with accessFront := fetch.brokerURL, accessAzureSNI := fetch.azureSNI }
      match fetchAccess host ctx conn fetch.brokerURL fetch.azureSNI ops.access (now + 1) with
      | (.refused, conn, now) => (none, conn, now)
      | (.granted access, conn, now) => (some access, { conn with publicFallback := some fetch }, now)
      | (.declined, conn, now) => (some fetch, conn, now)
    else (some fetch, conn, now + 1)

def fetchCandidates (ctx : Context) (conn : Connection) (ops : FetchOps) (now : Nat) : Option Fetch × Connection × Nat :=
  let conn := { conn with lease := {}, publicFallback := none, pass := conn.pass + 1, granted := none }
  let wantAccess := accessWanted host conn
  if wantAccess && decide (conn.accessFront ≠ "") then
    let triedFront := conn.accessFront
    match fetchAccess host ctx conn conn.accessFront conn.accessAzureSNI ops.pinned now with
    | (.refused, conn, now) => (none, conn, now)
    | (.granted fetch, conn, now) => (some fetch, conn, now)
    | (.declined, conn, now) => fetchRaced host ctx conn wantAccess triedFront ops now
  else fetchRaced host ctx conn wantAccess "" ops now

/-! ### A pass -/

structure PassOps where
  fetch : FetchOps := {}
  ipv6Unavailable : Bool := false
  probe : Nat → Option Nat := fun _ => none
  portAvailable : Bool := true
  ladder : Nat → CandidateOps
  publicFetch : Option Fetch := none
  retry : Nat → CandidateOps
  publicIPv6Unavailable : Bool := false
  publicProbe : Nat → Option Nat := fun _ => none
  publicLadder : Nat → CandidateOps

def runPublicLadder (ctx : Context) (conn : Connection) (fetch : Fetch) (tried : List RelayDescriptor)
    (failedRelayID : String) (ops : PassOps) (now : Nat) : Option Outcome × Connection × Nat :=
  match candidatesFor host fetch.relays with
  | none => (none, conn, now)
  | some cands =>
    let cands := adaptToAddressFamily host conn ops.publicIPv6Unavailable cands
    let remaining := cands.filter fun cand => decide (cand.id ∉ tried.map RelayDescriptor.id)
    if remaining = [] then (none, conn, now)
    else
      let ladder := demoteRelay (rankLadder host ops.publicProbe remaining) failedRelayID
      let (outcome, s) := runLadder ctx host.toHost conn.publicEndpoints ops.publicLadder ladder now
      (some outcome, conn, s.now)

/-- `runPublicFallback`; `none` leaves the caller's error as it was. -/
def runPublicFallback (ctx : Context) (conn : Connection) (tried : List RelayDescriptor) (failedRelayID : String)
    (ladderErr : CandidateError) (ops : PassOps) (now : Nat) : Option Outcome × Connection × Nat :=
  if !conn.lease.valid || ctx.err now then (none, conn, now + 1)
  else if ladderErr.localCandidateErrorStage.isSome then (none, conn, now + 1)
  else
    let lease := conn.lease
    let knownEndpoints := conn.publicEndpoints
    let found := match conn.publicFallback with
      | some fetch => some (fetch, { conn with lease := {}, publicFallback := none })
      | none => ops.publicFetch.map fun fetch =>
        (fetch.publicList, rememberPublicEndpoints host { conn with lease := {}, publicFallback := none } fetch.relays)
    match found with
    | none => (none, { conn with lease := {}, publicFallback := none }, now + 2)
    | some (fetch, conn) =>
      let retry := leasedEndpointRetries host conn tried knownEndpoints
      if retry = [] then runPublicLadder host ctx conn fetch tried failedRelayID ops (now + 2)
      else
        let conn := { conn with lease }
        let (outcome, s) := runLadder ctx host.toHost conn.publicEndpoints ops.retry (demoteRelay retry failedRelayID) (now + 2)
        match outcome with
        | .ok result => (some (.ok result), conn, s.now)
        | .error err =>
          if err.localCandidateErrorStage.isSome || ctx.err s.now then (some (.error err), conn, s.now + 1)
          else runPublicLadder host ctx { conn with lease := {} } fetch tried failedRelayID ops (s.now + 1)

def demoteFailed (failedRelayID : Option String) (cands : List RelayDescriptor) : List RelayDescriptor :=
  match failedRelayID with
  | none => cands
  | some id => demoteRelay cands id

/-- `failedRelayID` is `none` on a first connect. -/
def runPassLadder (ctx : Context) (conn : Connection) (fetch : Fetch) (failedRelayID : Option String) (ops : PassOps)
    (now : Nat) : Option CandidateResult × Connection × Nat :=
  match candidatesFor host fetch.relays with
  | none => (none, conn, now)
  | some cands =>
    let cands := adaptToAddressFamily host conn ops.ipv6Unavailable cands
    let ladder := demoteFailed failedRelayID (rankLadder host ops.probe cands)
    -- a first connect looks at its context here; a recovery leaves that to the ladder
    if (failedRelayID.isNone && ctx.err now) || !ops.portAvailable then (none, conn, now + 1)
    else
      let (outcome, s) := runLadder ctx host.toHost conn.publicEndpoints ops.ladder ladder (now + 1)
      match outcome with
      | .ok result => (some result, conn, s.now)
      | .error err =>
        match runPublicFallback host ctx conn ladder (failedRelayID.getD "") err ops s.now with
        | (some (.ok result), conn, now) => (some result, conn, now)
        | (_, conn, now) => (none, conn, now)

/-- A recovery whose fetch was rate limited fetches once again, which is answered by `again`. -/
inductive Pass where
  | connect (ops : PassOps)
  | recover (failedRelayID : String) (ops : PassOps) (again : Option FetchOps)

def runPass (ctx : Context) (conn : Connection) (now : Nat) : Pass → Option CandidateResult × Connection × Nat
  | .connect ops =>
    match fetchCandidates host ctx conn ops.fetch now with
    | (none, conn, now) => (none, conn, now)
    | (some fetch, conn, now) => runPassLadder host ctx conn fetch none ops now
  | .recover failedRelayID ops again =>
    match fetchCandidates host ctx conn ops.fetch now with
    | (some fetch, conn, now) => runPassLadder host ctx conn fetch (some failedRelayID) ops now
    | (none, conn, now) =>
      match again with
      | none => (none, conn, now)
      | some again =>
        match fetchCandidates host ctx conn again (now + 1) with
        | (none, conn, now) => (none, conn, now)
        | (some fetch, conn, now) => runPassLadder host ctx conn fetch (some failedRelayID) ops now

def runPasses (ctx : Context) : Connection → Nat → List Pass → List (Option CandidateResult × Connection)
  | _, _, [] => []
  | conn, now, pass :: rest =>
    let (result, conn, now) := runPass host ctx conn now pass
    (result, conn) :: runPasses ctx conn now rest

end

end OpenRung.Ladder
