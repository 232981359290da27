import OpenRung.Lib.Lines
import OpenRung.Wss.Ticket

/-! The durable replay store (`internal/wssbridge/replay.go`). The writes of `Consume` are steps of the sidecar
    (`System.Sidecar`), since each can fail on its own. -/

namespace OpenRung.Wss

def replayJournalHeader : Bytes := ascii "openrung-wss-replay-v1\n"
def replayRecordMaxBytes : Nat := 96
def defaultReplayEntries : Int := 100000
def minCompactStaleRecords : Int := 128
def maxReplayEntries : Int := 1000000

def ReplayKey : Type := { bytes : Bytes // bytes.length = 32 }

instance : DecidableEq ReplayKey := inferInstanceAs (DecidableEq { bytes : Bytes // bytes.length = 32 })

def newReplayKey (crypto : Crypto) (jti : Bytes) : ReplayKey := ⟨crypto.sha256 jti, crypto.sha256_length jti⟩

def unixNano (t : Time) : Int := int64 t

inductive ReplayError where
  | full
  | closed
  | expired
  | other (message : String)
  deriving DecidableEq, Repr

/-! ### The index -/

structure ReplayExpiry where
  key : ReplayKey
  expiresAt : Int
  deriving DecidableEq

/-- The heap of expirations is a list in the order in which the heap pops them. -/
structure ReplayIndex where
  entries : KeyedMap ReplayKey Int := ∅
  expiry : List ReplayExpiry := []

namespace ReplayIndex

def contains (i : ReplayIndex) (key : ReplayKey) (now : Int) : Bool :=
  match i.entries.lookup key with
  | some expiresAt => expiresAt > now
  | none => false

def insert (i : ReplayIndex) (key : ReplayKey) (expiresAt : Int) : ReplayIndex where
  entries := i.entries.insert key expiresAt
  expiry := i.expiry.orderedInsert (fun a b => a.expiresAt ≤ b.expiresAt) ⟨key, expiresAt⟩

/-- A popped expiration that is not its key's current one was replaced since. -/
def pruneLoop (now : Int) : List ReplayExpiry → KeyedMap ReplayKey Int → ReplayIndex
  | [], entries => ⟨entries, []⟩
  | candidate :: rest, entries =>
    if candidate.expiresAt ≤ now then
      if entries.lookup candidate.key = some candidate.expiresAt then pruneLoop now rest (entries.erase candidate.key)
      else pruneLoop now rest entries
    else ⟨entries, candidate :: rest⟩

def removedLoop (now : Int) : List ReplayExpiry → KeyedMap ReplayKey Int → Nat
  | [], _ => 0
  | candidate :: rest, entries =>
    if candidate.expiresAt ≤ now then
      if entries.lookup candidate.key = some candidate.expiresAt then
        removedLoop now rest (entries.erase candidate.key) + 1
      else removedLoop now rest entries
    else 0

def prune (i : ReplayIndex) (now : Int) : ReplayIndex := pruneLoop now i.expiry i.entries

def removed (i : ReplayIndex) (now : Int) : Nat := removedLoop now i.expiry i.entries

def size (i : ReplayIndex) : Int := i.entries.entries.length

end ReplayIndex

/-! ### Records -/

def replayRecordText (key : ReplayKey) (expiresAt : Int) : Bytes :=
  Base64.encode key.val ++ 32 :: Decimal.formatInt expiresAt

def encodeReplayRecord (key : ReplayKey) (expiresAt : Int) : Bytes := replayRecordText key expiresAt ++ [10]

def parseReplayRecord (line : Bytes) : Except ReplayError (ReplayKey × Int) :=
  match line.splitOn 32 with
  | [hash, expiration] =>
    match Base64.decode hash with
    | none => .error (.other "replay state contains a malformed identifier hash")
    | some raw =>
      if sized : raw.length = 32 then
        if Base64.encode raw ≠ hash then .error (.other "replay state contains a malformed identifier hash")
        else match Decimal.parseInt expiration with
          | none => .error (.other "replay state contains a malformed expiration")
          | some expiresAt =>
            if expiresAt ≤ 0 ∨ Decimal.formatInt expiresAt ≠ expiration then
              .error (.other "replay state contains a malformed expiration")
            else .ok (⟨raw, sized⟩, expiresAt)
      else .error (.other "replay state contains a malformed identifier hash")
  | _ => .error (.other "replay state contains a malformed record")

/-! ### The store -/

structure DurableReplayStore where
  index : ReplayIndex := {}
  maxEntries : Int
  journalRecords : Int := 0
  broken : Bool := false

def compactThreshold (maxEntries : Int) : Int := max (maxEntries / 2) minCompactStaleRecords

def maxReplayJournalBytes (maxEntries : Int) : Int :=
  replayJournalHeader.length + (maxEntries + compactThreshold maxEntries + 1) * replayRecordMaxBytes

def DurableReplayStore.shouldCompact (s : DurableReplayStore) : Bool :=
  s.journalRecords - s.index.size ≥ compactThreshold s.maxEntries

structure Loading where
  index : ReplayIndex := {}
  journalRecords : Int := 0
  needsCompact : Bool := false

/-- Expired records are dropped, and of two for one key the later one counts. -/
def Loading.record (now : Int) (l : Loading) (key : ReplayKey) (expiresAt : Int) : Loading :=
  let l := { l with journalRecords := l.journalRecords + 1 }
  if expiresAt ≤ now then { l with needsCompact := true }
  else match l.index.entries.lookup key with
    | some existing =>
      if existing ≥ expiresAt then { l with needsCompact := true }
      else { l with needsCompact := true, index := l.index.insert key expiresAt }
    | none => { l with index := l.index.insert key expiresAt }

/-- `bufio.ScanLines` drops a carriage return at the end of a line. -/
def dropCR (line : Bytes) : Bytes := if line.getLast? = some 13 then line.dropLast else line

/-- A line that does not fit the scanner's buffer with its newline ends it. -/
def loadRecords (now : Int) : List Bytes → Loading → Except ReplayError Loading
  | [], l => .ok l
  | line :: rest, l =>
    if replayRecordMaxBytes ≤ line.length then .error (.other "replay state contains an oversized record")
    else match parseReplayRecord (dropCR line) with
      | .error e => .error e
      | .ok (key, expiresAt) => loadRecords now rest (l.record now key expiresAt)

/-- An unterminated last record stands for no granted ticket and is cut off. -/
def readJournal (now : Int) (data : Bytes) : Except ReplayError Loading :=
  if data = [] then .ok { needsCompact := true }
  else if ¬ replayJournalHeader <+: data then .error (.other "replay state has an unsupported or corrupt header")
  else
    let records := data.drop replayJournalHeader.length
    let torn : Bool := records.getLast?.any (· ≠ 10)
    loadRecords now (Lines.lines 10 (if torn then Lines.complete 10 records else records)) { needsCompact := torn }

/-- The store, and whether the journal must be compacted before it is used. -/
def loadJournal (maxEntries : Int) (now : Int) (data : Bytes) : Except ReplayError (DurableReplayStore × Bool) :=
  if data.length > maxReplayJournalBytes maxEntries then .error (.other "replay state exceeds its bounded size")
  else match readJournal now data with
    | .error e => .error e
    | .ok l =>
      let store : DurableReplayStore := { index := l.index, maxEntries := maxEntries, journalRecords := l.journalRecords }
      if store.index.size > maxEntries then .error .full
      else .ok (store, l.needsCompact || store.shouldCompact)

def openDurableReplayStore (maxEntries : Int) (now : Int) (data : Bytes) :
    Except ReplayError (DurableReplayStore × Bool) :=
  let maxEntries := if maxEntries ≤ 0 then defaultReplayEntries else maxEntries
  if maxEntries > maxReplayEntries then .error (.other "replay entry limit must not exceed 1000000")
  else loadJournal maxEntries now data

/-- A Go map is read in any order. -/
def compactedJournal (entries : List (Sigma fun _ : ReplayKey => Int)) : Bytes :=
  replayJournalHeader ++ entries.flatMap fun e => encodeReplayRecord e.1 e.2

inductive Admission where
  | refused (error : ReplayError)
  | replayed
  | compact
  | append
  deriving DecidableEq, Repr

def zeroTime : Time := -62135596800 * second

def DurableReplayStore.startConsume (crypto : Crypto) (now : Int) (jti : Bytes) (expiresAt : Time) (s : DurableReplayStore) :
    Admission × DurableReplayStore :=
  if !validID jti 16 128 then (.refused (.other "replay JTI is invalid"), s)
  else if expiresAt = zeroTime then (.refused .expired, s)
  else if s.broken then (.refused .closed, s)
  else if unixNano expiresAt ≤ now then (.refused .expired, s)
  else
    let s := { s with index := s.index.prune now }
    if s.index.contains (newReplayKey crypto jti) now then (.replayed, s)
    else if s.index.size ≥ s.maxEntries then (.refused .full, s)
    else if s.shouldCompact then (.compact, s)
    else (.append, s)

def DurableReplayStore.consumed (key : ReplayKey) (expiresAt : Int) (s : DurableReplayStore) : DurableReplayStore :=
  { s with index := s.index.insert key expiresAt, journalRecords := s.journalRecords + 1 }

end OpenRung.Wss
