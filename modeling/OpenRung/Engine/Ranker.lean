import OpenRung.Engine.LeasePass

/-! The client's latency ranking (`connectcore/ranker.go`) with its concurrent probes. A probe is a goroutine of two
    steps, which first writes its own slot and, when the probe has returned, the latency into it; a schedule says
    whose step is next. -/

namespace OpenRung.Ladder

structure RankedRelay where
  relay : RelayDescriptor
  probeMS : Option Int := none
  deriving DecidableEq

def unranked (cands : List RelayDescriptor) : List RankedRelay := cands.map fun cand => { relay := cand }

namespace Ranker

inductive ProbePhase where
  | spawned
  | written
  | done
  deriving DecidableEq, Repr

structure Fanout where
  probed : List RankedRelay
  phases : List ProbePhase

def Fanout.start (head : List RelayDescriptor) : Fanout where
  probed := head.map fun _ => { relay := { id := "", publicPort := 0 } }
  phases := head.map fun _ => .spawned

/-- The next step of the goroutine at `i`; `outcome` says what its probe measures, if it succeeds. -/
def Fanout.step (head : List RelayDescriptor) (outcome : Nat → Option Int) (s : Fanout) (i : Nat) : Fanout :=
  match s.phases[i]?, head[i]? with
  | some .spawned, some cand => { probed := s.probed.set i { relay := cand }, phases := s.phases.set i .written }
  | some .written, _ =>
    { probed :=
        match outcome i with
        | none => s.probed
        | some ms => s.probed.modify i fun p => { p with probeMS := some ms }
      phases := s.phases.set i .done }
  | _, _ => s

def probeAll (head : List RelayDescriptor) (outcome : Nat → Option Int) (schedule : List Nat) :
    Option (List RankedRelay) :=
  let s := schedule.foldl (Fanout.step head outcome) (Fanout.start head)
  if s.phases.all (· = .done) then some s.probed else none

def latencyAt (probed : List RankedRelay) (i : Nat) : Option Int := probed[i]?.bind (·.probeMS)

def reachedBefore (probed : List RankedRelay) (bucketMS : Int) (lhs rhs : Nat) : Bool :=
  let lhsBucket := ((latencyAt probed lhs).getD 0).tdiv bucketMS
  let rhsBucket := ((latencyAt probed rhs).getD 0).tdiv bucketMS
  if lhsBucket ≠ rhsBucket then lhsBucket < rhsBucket else lhs < rhs

def rankByTCPLatency (cands : List RelayDescriptor) (maxProbes : Nat) (bucketMS : Int) (outcome : Nat → Option Int)
    (schedule : List Nat) : Option (List RankedRelay) :=
  if cands.length < 2 then some (unranked cands)
  else
    let bucketMS := if bucketMS < 1 then 1 else bucketMS
    let (head, tail) := if maxProbes < cands.length then (cands.take maxProbes, cands.drop maxProbes) else (cands, [])
    (probeAll head outcome schedule).map fun probed =>
      let order := (List.range probed.length).filter fun i => (latencyAt probed i).isSome
      let failed := probed.filter fun p => p.probeMS.isNone
      let order := order.mergeSort fun a b => !reachedBefore probed bucketMS b a
      order.filterMap (probed[·]?) ++ failed ++ unranked tail

/-- `identity` says that the target is a pinned relay. -/
def rankLadder (identity : Bool) (cands : List RelayDescriptor) (outcome : Nat → Option Int) (schedule : List Nat) :
    Option (List RankedRelay) :=
  if identity || decide (cands.length < 2) then some (unranked cands)
  else rankByTCPLatency cands relayRankMaxProbes relayRankBucketMS outcome schedule

def recoveryCandidates (identity : Bool) (cands : List RelayDescriptor) (outcome : Nat → Option Int) (schedule : List Nat)
    (failedRelayID : String) : Option (List RelayDescriptor) :=
  (rankLadder identity cands outcome schedule).map fun ranked => demoteRelay (ranked.map (·.relay)) failedRelayID

end Ranker

end OpenRung.Ladder
