import OpenRung.Broker.Lease

/-! The per-source budget of new relay identities (`registration_cap.go`) and the ledger of relay ids seen
    (`relayledger.go`). Each call runs under the mutex of its table. -/

namespace OpenRung.Broker

def millisecond : Duration := 1000000

/-- `Time.UnixMilli`, which rounds down. -/
def unixMilli (t : Time) : Int := t / millisecond

def defaultMaxNewRelayIDsPerDay : Int := 64
def newRelayCapWindow : Duration := 24 * hour

structure NewRelayCap where
  limit : Int
  maxKeys : Nat
  /-- The accounting bucket of a source, `none` if it is exempt. -/
  key : String → Option String
  sources : KeyedMap String (List Int) := ∅

def newNewRelayCap (limit : Int) (maxKeys : Nat) (key : String → Option String) : NewRelayCap :=
  { limit := if limit = 0 then defaultMaxNewRelayIDsPerDay else limit, maxKeys, key }

/-- What `reserve` returns: refused, allowed without a unit, or a unit with the key and the stamp that its release closes
    over. -/
inductive Verdict where
  | refused
  | free
  | unit (key : String) (stamp : Int)
  deriving DecidableEq

namespace NewRelayCap

def stamps (c : NewRelayCap) (key : String) : List Int := (c.sources.lookup key).getD []

def cutoff (now : Time) : Int := unixMilli now - unixMilli newRelayCapWindow

def kept (c : NewRelayCap) (key : String) (now : Time) : List Int :=
  (c.stamps key).filter fun at_ => decide (cutoff now < at_)

def put (c : NewRelayCap) (key : String) (stamps : List Int) : NewRelayCap :=
  { c with sources := c.sources.insert key stamps }

def sweepLocked (c : NewRelayCap) (cutoff : Int) : NewRelayCap :=
  { c with sources := c.sources.filter fun _ stamps => stamps.any fun stamp => decide (cutoff < stamp) }

def reserve (c : NewRelayCap) (source : String) (now : Time) : NewRelayCap × Verdict :=
  if c.limit < 0 then (c, .free)
  else
    match c.key source with
    | none => (c, .free)
    | some key =>
      let stamp := unixMilli now
      let kept := c.kept key now
      if c.limit ≤ kept.length then (c.put key kept, .refused)
      else if key ∉ c.sources ∧ c.maxKeys ≤ c.sources.entries.length then
        let c := c.sweepLocked (cutoff now)
        if c.maxKeys ≤ c.sources.entries.length then (c, .free)
        else (c.put key (kept ++ [stamp]), .unit key stamp)
      else (c.put key (kept ++ [stamp]), .unit key stamp)

/-- The release of a unit: the last equal stamp goes, if one is left. -/
def release (c : NewRelayCap) (key : String) (stamp : Int) : NewRelayCap :=
  if stamp ∈ c.stamps key then c.put key ((c.stamps key).reverse.erase stamp).reverse else c

end NewRelayCap

structure RelayIDLedger where
  ttl : Duration
  maxEntries : Nat
  seen : KeyedMap String Time := ∅

namespace RelayIDLedger

def sweepLocked (l : RelayIDLedger) (now : Time) : RelayIDLedger :=
  { l with seen := l.seen.filter fun _ seenAt => decide (now - seenAt ≤ l.ttl) }

def covered (l : RelayIDLedger) (id : String) (now : Time) : Bool :=
  (l.seen.lookup id).any fun seenAt => decide (now - seenAt ≤ l.ttl)

def rememberIfNew (l : RelayIDLedger) (id : String) (now : Time) : RelayIDLedger × Bool :=
  if id = "" then (l, false)
  else
    let covered := l.covered id now
    if id ∉ l.seen ∧ l.maxEntries ≤ l.seen.entries.length then
      let l := l.sweepLocked now
      if l.maxEntries ≤ l.seen.entries.length then (l, true)
      else ({ l with seen := l.seen.insert id now }, !covered)
    else ({ l with seen := l.seen.insert id now }, !covered)

def remember (l : RelayIDLedger) (id : String) (now : Time) : RelayIDLedger := (l.rememberIfNew id now).1

def lookup (l : RelayIDLedger) (id : String) (now : Time) : RelayIDLedger × Bool :=
  match l.seen.lookup id with
  | none => (l, false)
  | some seenAt => if l.ttl < now - seenAt then ({ l with seen := l.seen.erase id }, false) else (l, true)

end RelayIDLedger

end OpenRung.Broker
