import OpenRung.Lib.Trim
import OpenRung.Broker.TelemetrySink

/-! The two ways into the telemetry store (`internal/broker/telemetry.go`): uploaded events with their checks, and the
    event that a request for the relay list leaves behind. A Go string is any sequence of bytes. -/

namespace OpenRung.Broker.Ingest

def maxTelemetryFutureSkew : Duration := hour
def maxTelemetryKeyBytes : Nat := 64
def maxTelemetryValueBytes : Nat := 256

/-! ### Text -/

def spaces : List Bytes :=
  [[9], [10], [11], [12], [13], [32], [0xC2, 0x85], [0xC2, 0xA0], [0xE1, 0x9A, 0x80],
    [0xE2, 0x80, 0xA8], [0xE2, 0x80, 0xA9], [0xE2, 0x80, 0xAF], [0xE2, 0x81, 0x9F], [0xE3, 0x80, 0x80]] ++
    (List.range 11).map fun i => [0xE2, 0x80, UInt8.ofNat (0x80 + i)]

def trimSpace (s : Bytes) : Bytes := Trim.trim spaces s

def isTail (b : UInt8) : Bool := 0x80 ≤ b && b ≤ 0xBF

/-- The second byte of a rune of three bytes: no overlong form and no surrogate. -/
def isSecondOfThree (a b : UInt8) : Bool :=
  if a = 0xE0 then 0xA0 ≤ b && b ≤ 0xBF else if a = 0xED then 0x80 ≤ b && b ≤ 0x9F else isTail b

/-- The second byte of a rune of four bytes: no overlong form and nothing above U+10FFFF. -/
def isSecondOfFour (a b : UInt8) : Bool :=
  if a = 0xF0 then 0x90 ≤ b && b ≤ 0xBF else if a = 0xF4 then 0x80 ≤ b && b ≤ 0x8F else isTail b

def validString : Bytes → Bool
  | [] => true
  | a :: s₁ =>
    if a < 0x80 then validString s₁
    else match s₁ with
      | [] => false
      | b :: s₂ =>
        if 0xC2 ≤ a ∧ a ≤ 0xDF then isTail b && validString s₂
        else match s₂ with
          | [] => false
          | c :: s₃ =>
            if 0xE0 ≤ a ∧ a ≤ 0xEF then isSecondOfThree a b && isTail c && validString s₃
            else match s₃ with
              | [] => false
              | d :: s₄ =>
                0xF0 ≤ a && a ≤ 0xF4 && isSecondOfFour a b && isTail c && isTail d && validString s₄

def storableText (s : Bytes) : Bool := validString s && !s.contains 0

def storableHeaderValue (s : Bytes) : Bytes := if !storableText s then [] else s

/-! ### Uploaded events -/

structure RawEvent where
  schemaVersion : Int
  eventID : Bytes
  event : Bytes
  occurredAt : Time
  clientID : Bytes
  sessionID : Bytes
  relayID : Bytes := []
  application : Bytes := []
  destinationIP : Bytes := []
  protocol : Bytes := []
  attributes : List (Bytes × Bytes) := []
  measurements : List (Bytes × Int) := []

structure RawRecord where
  receivedAt : Time
  sourceIP : Bytes
  event : RawEvent

def unstorable : String := "telemetry fields must be valid UTF-8 without NUL characters"

def validateAttribute (entry : Bytes × Bytes) : Except String Unit :=
  if entry.1.length > maxTelemetryKeyBytes ∨ entry.2.length > maxTelemetryValueBytes then
    .error "attribute keys are limited to 64 characters and values to 256"
  else if !storableText entry.1 ∨ !storableText entry.2 then .error unstorable
  else .ok ()

def validateMeasurement (entry : Bytes × Int) : Except String Unit :=
  if entry.1.length > maxTelemetryKeyBytes then .error "measurement keys are limited to 64 characters"
  else if !storableText entry.1 then .error unstorable
  else .ok ()

def validateTelemetryEvent (event : RawEvent) (now : Time) : Except String Unit :=
  if event.schemaVersion ≠ 1 then .error "schema_version must be 1"
  else if trimSpace event.eventID = [] ∨ event.eventID.length > 128 then
    .error "event_id is required and must be at most 128 characters"
  else if trimSpace event.event = [] ∨ event.event.length > 64 then
    .error "event is required and must be at most 64 characters"
  else if trimSpace event.clientID = [] ∨ event.clientID.length > 128 then
    .error "client_id is required and must be at most 128 characters"
  else if trimSpace event.sessionID = [] ∨ event.sessionID.length > 128 then
    .error "session_id is required and must be at most 128 characters"
  else if event.occurredAt = zeroTime then .error "occurred_at is required"
  else if event.occurredAt > now + maxTelemetryFutureSkew then .error "occurred_at must not be in the future"
  else if event.relayID.length > 128 then .error "relay_id must be at most 128 characters"
  else if event.application.length > maxTelemetryValueBytes then
    .error "application_package must be at most 256 characters"
  else if event.destinationIP.length > maxTelemetryKeyBytes then .error "destination_ip must be at most 64 characters"
  else if event.protocol.length > maxTelemetryKeyBytes then .error "protocol must be at most 64 characters"
  else if event.attributes.length > 32 ∨ event.measurements.length > 32 then
    .error "telemetry maps may contain at most 32 entries"
  else if !([event.eventID, event.event, event.clientID, event.sessionID, event.relayID, event.application,
      event.destinationIP, event.protocol].all storableText) then .error unstorable
  else do
    event.attributes.forM validateAttribute
    event.measurements.forM validateMeasurement

/-! ### Requests for the relay list -/

structure ClientSeenDeduper where
  window : Duration
  maxEntries : Int
  seen : KeyedMap Bytes Time := ∅

def ClientSeenDeduper.shouldRecord (d : ClientSeenDeduper) (clientID sessionID : Bytes) (now : Time) :
    Bool × ClientSeenDeduper :=
  let key := clientID ++ 0 :: sessionID
  if (d.seen.lookup key).any fun last => now - last < d.window then (false, d)
  else
    let d := if d.maxEntries ≤ d.seen.entries.length then
        { d with seen := d.seen.filter fun _ seenAt => now - seenAt < d.window } else d
    (true, if d.seen.entries.length < d.maxEntries then { d with seen := d.seen.insert key now } else d)

structure Request where
  header : String → Bytes
  clientIP : Bytes

def clientSeenEvent (r : Request) (now : Time) : RawEvent where
  schemaVersion := 1
  eventID := ascii "client-seen-" ++ trimSpace (r.header "X-OpenRung-Session-ID")
  event := ascii "client_seen"
  occurredAt := now
  clientID := trimSpace (r.header "X-OpenRung-Client-ID")
  sessionID := trimSpace (r.header "X-OpenRung-Session-ID")
  attributes := [(ascii "app_version", storableHeaderValue (r.header "X-OpenRung-App-Version")),
    (ascii "android_api", storableHeaderValue (r.header "X-OpenRung-Android-API"))]

def recordClientSeen (r : Request) (hasSink : Bool) (dedup : Option ClientSeenDeduper) (now : Time) :
    Option RawRecord × Option ClientSeenDeduper :=
  let clientID := trimSpace (r.header "X-OpenRung-Client-ID")
  let sessionID := trimSpace (r.header "X-OpenRung-Session-ID")
  if !hasSink ∨ clientID = [] ∨ sessionID = [] ∨ clientID.length > 128 ∨ sessionID.length > 128 then (none, dedup)
  else if !storableText clientID ∨ !storableText sessionID then (none, dedup)
  else
    let record : RawRecord := { receivedAt := now, sourceIP := r.clientIP, event := clientSeenEvent r now }
    match dedup with
    | none => (some record, none)
    | some d =>
      let (fresh, d) := d.shouldRecord clientID sessionID now
      (if fresh then some record else none, some d)

end OpenRung.Broker.Ingest
