import Mathlib.Algebra.Order.Field.Rat
import OpenRung.Net.Addr
import OpenRung.Relay.Identity

/-! The relay ranking (`internal/broker/ranking.go`) and the page of the relay list (`reserveWSSCandidate` of
    `internal/broker/wss_ticket.go`). Scores and weights are exact rationals. The sort keys have any linear order:
    `drawKey` makes one from a draw, and the key of a weight of zero is below all of them. -/

namespace OpenRung.Broker

def rankingReliabilityWeight : ℚ := 50 / 100
def rankingHeadroomWeight : ℚ := 20 / 100
def rankingLatencyWeight : ℚ := 20 / 100
def rankingSpeedWeight : ℚ := 10 / 100
def rankingMaxOverCapacityPenalty : ℚ := 4 / 100
def defaultRankingWeight : ℚ := 1
def rankingSelectionSharpness : Nat := 12
def rankingTCPFastMS : ℚ := 100
def rankingTCPSlowMS : ℚ := 1000
def rankingTunnelRoundTripFastMS : ℚ := 1000
def rankingTunnelRoundTripSlowMS : ℚ := 10000
def rankingDefaultLatencyScore : ℚ := 5 / 10

def clamp01 (value : ℚ) : ℚ :=
  if value < 0 then 0
  else if 1 < value then 1
  else value

/-- A median of 0 stands for no positive measurement of its kind. -/
structure RelayMetricsSnapshot where
  activeSessions : Nat := 0
  successes : Nat := 0
  failures : Nat := 0
  tcpMS : ℚ := 0
  internetProbeMS : ℚ := 0
  ttfbMS : ℚ := 0
  speedTests : Nat := 0
  downloadMbpsTotal : ℚ := 0
  deriving DecidableEq, Repr

/-! ### Scores -/

def overCapacityPenalty (desc : Descriptor) (snapshot : RelayMetricsSnapshot) : ℚ :=
  if desc.maxSessions ≤ 0 ∨ snapshot.activeSessions ≤ desc.maxSessions then 0
  else
    let overCapacityRatio : ℚ := ((snapshot.activeSessions - desc.maxSessions : Int) : ℚ) / desc.maxSessions
    rankingMaxOverCapacityPenalty * clamp01 overCapacityRatio

def measuredScores (snapshot : RelayMetricsSnapshot) : List ℚ :=
  let measurements : List (ℚ × ℚ × ℚ) := [
    (snapshot.tcpMS, rankingTCPFastMS, rankingTCPSlowMS),
    (snapshot.internetProbeMS, rankingTunnelRoundTripFastMS, rankingTunnelRoundTripSlowMS),
    (snapshot.ttfbMS, rankingTunnelRoundTripFastMS, rankingTunnelRoundTripSlowMS)]
  measurements.filterMap fun m =>
    if m.1 ≤ 0 then none
    else some (1 - clamp01 ((m.1 - m.2.1) / (m.2.2 - m.2.1)))

def measuredLatencyScore (snapshot : RelayMetricsSnapshot) : Option ℚ :=
  let scores := measuredScores snapshot
  if scores.length = 0 then none else some (scores.sum / scores.length)

def observedLatencyScore (snapshot : RelayMetricsSnapshot) (neutralLatency : ℚ) : ℚ :=
  match measuredLatencyScore snapshot with
  | some score => score
  | none => neutralLatency

def observedSpeedScore (desc : Descriptor) (snapshot : RelayMetricsSnapshot) : ℚ :=
  if snapshot.speedTests = 0 ∨ desc.maxMbps ≤ 0 then 5 / 10
  else
    let averageMbps := snapshot.downloadMbpsTotal / snapshot.speedTests
    clamp01 (averageMbps / desc.maxMbps)

structure RelayScoreParts where
  reliability : ℚ
  headroom : ℚ
  latency : ℚ
  speed : ℚ
  overCapacityPenalty : ℚ

def RelayScoreParts.score (p : RelayScoreParts) : ℚ :=
  let score := rankingReliabilityWeight * p.reliability + rankingHeadroomWeight * p.headroom +
    rankingLatencyWeight * p.latency + rankingSpeedWeight * p.speed
  clamp01 (score - p.overCapacityPenalty)

def relayScoreBreakdown (desc : Descriptor) (snapshot : RelayMetricsSnapshot) (neutralLatency : ℚ) : RelayScoreParts where
  reliability := ((snapshot.successes + 1 : Nat) : ℚ) / (snapshot.successes + snapshot.failures + 2 : Nat)
  headroom :=
    if 0 < desc.maxSessions then clamp01 (((desc.maxSessions - snapshot.activeSessions : Int) : ℚ) / desc.maxSessions)
    else 5 / 10
  latency := observedLatencyScore snapshot neutralLatency
  speed := observedSpeedScore desc snapshot
  overCapacityPenalty := overCapacityPenalty desc snapshot

def relayScore (desc : Descriptor) (snapshot : RelayMetricsSnapshot) (neutralLatency : ℚ) : ℚ :=
  (relayScoreBreakdown desc snapshot neutralLatency).score

def median (values : List ℚ) : ℚ :=
  if values.length = 0 then 0
  else
    let sorted := values.mergeSort fun a b => decide (a ≤ b)
    let mid := sorted.length / 2
    if sorted.length % 2 = 1 then sorted.getD mid 0
    else (sorted.getD (mid - 1) 0 + sorted.getD mid 0) / 2

def snapshotOf (snapshots : KeyedMap String RelayMetricsSnapshot) (relayID : String) : RelayMetricsSnapshot :=
  (snapshots.lookup relayID).getD {}

def neutralLatencyScore (relays : List Descriptor) (snapshots : KeyedMap String RelayMetricsSnapshot) : ℚ :=
  let scores := relays.filterMap fun desc => measuredLatencyScore (snapshotOf snapshots desc.id)
  if scores.length = 0 then rankingDefaultLatencyScore else median scores

/-! ### Selection weights -/

/-- A stored operator weight: any float, though the setter only stores numbers from 0 to 1. -/
inductive StoredWeight where
  | nan
  | negInf
  | posInf
  | number (w : ℚ)
  deriving DecidableEq, Repr

def rankingWeightFor (weights : KeyedMap String StoredWeight) (relayID : String) : ℚ :=
  match weights.lookup relayID with
  | none => defaultRankingWeight
  | some .nan => defaultRankingWeight
  | some .negInf => 0
  | some .posInf => 1
  | some (.number w) => clamp01 w

def relaySelectionWeight (score weight : ℚ) : ℚ := clamp01 score ^ rankingSelectionSharpness * clamp01 weight

/-! ### The order -/

section Order
variable {υ κ : Type} [LinearOrder κ]

def selectionWeightIn (relays : List Descriptor) (snapshots : KeyedMap String RelayMetricsSnapshot)
    (weights : KeyedMap String StoredWeight) (desc : Descriptor) : ℚ :=
  relaySelectionWeight (relayScore desc (snapshotOf snapshots desc.id) (neutralLatencyScore relays snapshots))
    (rankingWeightFor weights desc.id)

/-- The sort keys by id, and how many draws they took. -/
def rankingKeys (drawKey : υ → ℚ → κ) (weightOf : Descriptor → ℚ) (uniform : Nat → υ) (relays : List Descriptor) :
    KeyedMap String (WithBot κ) × Nat :=
  relays.foldl (fun acc desc =>
    let weight := weightOf desc
    if weight ≤ 0 then (acc.1.insert desc.id ⊥, acc.2)
    else (acc.1.insert desc.id (drawKey (uniform acc.2) weight), acc.2 + 1)) (∅, 0)

/-- `IsIPv6Host`: an address literal, bracketed or bare, that is neither IPv4 nor IPv4 in IPv6. -/
def isIPv6Host (host : String) : Bool :=
  let bracket := fun c : Char => c = '[' || c = ']'
  match Addr.parse ((host.toList.dropWhile bracket).reverse.dropWhile bracket).reverse with
  | none => false
  | some ip => ip.zone = "" && !ip.is4 && !ip.is4In6

def rankedBefore (keys : KeyedMap String (WithBot κ)) (left right : Descriptor) : Bool :=
  let leftKey := (keys.lookup left.id).getD ⊥
  let rightKey := (keys.lookup right.id).getD ⊥
  if leftKey ≠ rightKey then rightKey < leftKey
  else if left.lastHeartbeatAt ≠ right.lastHeartbeatAt then right.lastHeartbeatAt < left.lastHeartbeatAt
  else
    let leftIPv6 := isIPv6Host left.publicHost
    let rightIPv6 := isIPv6Host right.publicHost
    if leftIPv6 ≠ rightIPv6 then leftIPv6
    else left.id < right.id

def sortRelayCandidates (drawKey : υ → ℚ → κ) (relays : List Descriptor)
    (snapshots : KeyedMap String RelayMetricsSnapshot) (weights : KeyedMap String StoredWeight) (uniform : Nat → υ) :
    List Descriptor :=
  let keys := (rankingKeys drawKey (selectionWeightIn relays snapshots weights) uniform relays).1
  relays.mergeSort fun left right => !rankedBefore keys right left

end Order

/-! ### The page -/

def wssRelayEligible (desc : Descriptor) : Bool :=
  desc.nodeClass = nodeClassFoundation && desc.transport = transportDirect && desc.exitMode = exitModeDirect &&
    desc.publicPort = 443 && desc.identityPublicKey ≠ "" && 0 < desc.wssFronts.length

def relayUnreachable (desc : Descriptor) : Bool := desc.reachabilityCheckedAt.isSome && !desc.reachable

def withoutUnreachable (relays : List Descriptor) (probing : Bool) : List Descriptor :=
  if !probing then relays else relays.filter fun desc => !relayUnreachable desc

def reserveWSSCandidate (relays : List Descriptor) (limit : Int) (weights : KeyedMap String StoredWeight) :
    List Descriptor :=
  if relays.length = 0 then []
  else if limit ≤ 0 ∨ relays.length ≤ limit then relays
  else
    let page := relays.take limit.toNat
    if page.any wssRelayEligible then page
    else
      match (relays.drop limit.toNat).find? fun desc => wssRelayEligible desc && 0 < rankingWeightFor weights desc.id with
      | some desc => page.set (page.length - 1) desc
      | none => page

end OpenRung.Broker
