import OpenRung.Broker.Ranking
import OpenRung.Broker.Registry
import OpenRung.Broker.TelemetrySink

/-! The ranking metrics of the in-memory store (`internal/broker/store.go`). Times that Go leaves zero are `none`; no
    clock reads the zero time. -/

namespace OpenRung.Broker

def activeSessionTimeout : Duration := 150 * second

inductive MetricEvent where
  | heartbeat
  | success
  | failure
  | speedTest
  | terminal
  | other
  deriving DecidableEq, Repr

def MetricEvent.of (event : String) : MetricEvent :=
  if event = "session_heartbeat" then heartbeat
  else if event = "connection_succeeded" ∨ event = "relay_failover" then success
  else if event = "relay_attempt_failed" then failure
  else if event = "speed_test_completed" then speedTest
  else if event = "connection_ended" ∨ event = "tunnel_stopped" ∨ event = "connection_failed" then terminal
  else other

def TelemetryRecord.observedAt (record : TelemetryRecord) (now : Time) : Time :=
  let observedAt := record.receivedAt
  let observedAt := if observedAt = zeroTime then record.event.occurredAt else observedAt
  if observedAt = zeroTime then now else observedAt

def TelemetryEvent.measurement (event : TelemetryEvent) (name : String) : Int := (event.measurements.lookup name).getD 0

def firstNonEmpty (a b : String) : String :=
  if trimSpace a ≠ "" then a
  else if trimSpace b ≠ "" then b
  else ""

/-! `recordRelayTelemetryLocked` is a switch over the event: the cases that write a session, and those that add an
    observation. -/

def TelemetryRecord.sessionOf (record : TelemetryRecord) : Option String :=
  let event := record.event
  match MetricEvent.of event.event with
  | .heartbeat => if event.sessionID = "" ∨ event.relayID = "" then none else some event.sessionID
  | .terminal => if event.sessionID = "" then none else some event.sessionID
  | _ => none

def TelemetryRecord.sessionAfter (record : TelemetryRecord) (now : Time) (existing : RelaySessionState) :
    RelaySessionState :=
  let event := record.event
  let observedAt := record.observedAt now
  match MetricEvent.of event.event with
  | .heartbeat =>
    let terminalAt := existing.terminalAt.filter fun terminalAt => !decide (terminalAt < observedAt)
    { clientID := event.clientID, relayID := event.relayID, lastHeartbeatAt := some observedAt, terminalAt
      lastMetricEventAt := some observedAt }
  | .terminal =>
    { existing with
      relayID := if existing.relayID = "" ∧ event.relayID ≠ "" then event.relayID else existing.relayID
      clientID := firstNonEmpty existing.clientID event.clientID
      terminalAt := some observedAt
      lastMetricEventAt := some observedAt }
  | _ => existing

def TelemetryRecord.observation (record : TelemetryRecord) (now : Time) : Option RelayMetricObservation :=
  let event := record.event
  let observedAt := record.observedAt now
  if event.relayID = "" then none
  else
    match MetricEvent.of event.event with
    | .success =>
      some { observedAt, relayID := event.relayID, success := true, tcpMs := event.measurement "relay_tcp_ms"
             internetProbeMs := event.measurement "internet_probe_ms" }
    | .failure => some { observedAt, relayID := event.relayID, failure := true }
    | .speedTest =>
      some { observedAt, relayID := event.relayID, ttfbMs := event.measurement "time_to_first_byte_ms"
             downloadMbpsMilli := event.measurement "download_mbps_milli", includesSpeedTest := true }
    | _ => none

structure Metrics where
  sessions : KeyedMap String RelaySessionState := ∅
  observations : List RelayMetricObservation := []

def Store.metrics (s : Store) : Metrics := ⟨s.sessions, s.observations⟩

namespace Metrics

def record (m : Metrics) (record : TelemetryRecord) (now : Time) : Metrics where
  sessions :=
    match record.sessionOf with
    | some id => m.sessions.insert id (record.sessionAfter now ((m.sessions.lookup id).getD {}))
    | none => m.sessions
  observations := m.observations ++ (record.observation now).toList

def prune (m : Metrics) (cutoff : Time) : Metrics where
  observations := m.observations.filter fun observation => !decide (observation.observedAt < cutoff)
  sessions := m.sessions.filter fun _ session => !session.terminalAt.any fun terminalAt => decide (terminalAt < cutoff)

def recordRelayTelemetry (m : Metrics) (records : List TelemetryRecord) (now : Time) : Metrics :=
  (records.foldl (fun m r => m.record r now) m).prune (now - rankingWindow)

/-! ### Calls -/

inductive Call where
  | record (records : List TelemetryRecord) (now : Time)
  | prune (now : Time)

def Call.now : Call → Time
  | record _ now => now
  | prune now => now

structure Event where
  record : TelemetryRecord
  now : Time
  deriving DecidableEq

def Event.observedAt (e : Event) : Time := e.record.observedAt e.now

def Call.events : Call → List Event
  | record records now => records.map fun record => { record, now }
  | prune _ => []

def call (m : Metrics) : Call → Metrics
  | .record records now => m.recordRelayTelemetry records now
  | .prune now => m.prune (now - rankingWindow)

def run (calls : List Call) : Metrics := calls.foldl call {}

/-! ### Snapshots -/

def activeAt (now : Time) (session : RelaySessionState) : Bool :=
  !(decide (session.relayID = "") || session.terminalAt.isSome ||
    !session.lastHeartbeatAt.any fun at_ => decide (now - activeSessionTimeout < at_))

def samples (kind : RelayMetricObservation → Int) (observations : List RelayMetricObservation) : List ℚ :=
  observations.filterMap fun o => if 0 < kind o then some (kind o : ℚ) else none

/-- What the loops of `metricSnapshotsLocked` over all sessions and observations add to the entry of a relay. -/
def snapshot (m : Metrics) (now : Time) (relayID : String) : RelayMetricsSnapshot :=
  let active := m.sessions.values.filter fun session => decide (session.relayID = relayID) && activeAt now session
  let inWindow := m.observations.filter fun o => !(decide (o.observedAt < now - rankingWindow) || decide (now < o.observedAt))
  let own := inWindow.filter fun o => decide (o.relayID = relayID)
  let speedTests := own.filter fun o => o.includesSpeedTest && decide (0 < o.downloadMbpsMilli)
  { activeSessions := active.length
    successes := (own.filter (·.success)).length
    failures := (own.filter (·.failure)).length
    tcpMS := median (samples (·.tcpMs) own)
    internetProbeMS := median (samples (·.internetProbeMs) own)
    ttfbMS := median (samples (·.ttfbMs) own)
    speedTests := speedTests.length
    downloadMbpsTotal := (speedTests.map fun o => (o.downloadMbpsMilli : ℚ) / 1000).sum }

end Metrics

end OpenRung.Broker
