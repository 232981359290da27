import OpenRung.Broker.Metrics

/-! The ranking metrics of the Postgres store (`recordRelayTelemetry` and `metricSnapshots` in
    `internal/broker/postgres_store.go`), by its statements on the tables `relay_sessions` and `relay_metrics`. -/

namespace OpenRung.Broker

structure SessionRow where
  clientID : String
  relayID : String
  lastHeartbeatAt : Time
  terminalAt : Option Time
  deriving DecidableEq, Repr

structure MetricRow where
  eventID : String
  relayID : String
  observedAt : Time
  successCount : Nat
  failureCount : Nat
  tcpMs : Option Int
  tunnelStartMs : Option Int
  internetProbeMs : Option Int
  ttfbMs : Option Int
  downloadMbpsMilli : Option Int
  speedTestCount : Nat
  deriving DecidableEq, Repr

def positiveInt64 (value : Int) : Option Int := if 0 < value then some value else none

def TelemetryEvent.metricRow (event : TelemetryEvent) (observedAt : Time) (success failure : Bool) : MetricRow where
  eventID := event.eventID
  relayID := event.relayID
  observedAt
  successCount := if success then 1 else 0
  failureCount := if failure then 1 else 0
  tcpMs := positiveInt64 (event.measurement "relay_tcp_ms")
  tunnelStartMs := positiveInt64 (event.measurement "tunnel_start_ms")
  internetProbeMs := positiveInt64 (event.measurement "internet_probe_ms")
  ttfbMs := positiveInt64 (event.measurement "time_to_first_byte_ms")
  downloadMbpsMilli := positiveInt64 (event.measurement "download_mbps_milli")
  speedTestCount := if 0 < event.measurement "download_mbps_milli" then 1 else 0

def TelemetryRecord.metricRow (record : TelemetryRecord) (now : Time) : Option MetricRow :=
  let event := record.event
  let observedAt := record.observedAt now
  if event.relayID = "" then none
  else
    match MetricEvent.of event.event with
    | .success => some (event.metricRow observedAt true false)
    | .failure => some (event.metricRow observedAt false true)
    | .speedTest => some (event.metricRow observedAt false false)
    | _ => none

def TelemetryRecord.sessionRow (record : TelemetryRecord) (now : Time) (existing : Option SessionRow) :
    Option SessionRow :=
  let event := record.event
  let observedAt := record.observedAt now
  let marked (terminalAt : Option Time) : Option Time :=
    match terminalAt with
    | none => some observedAt
    | some terminalAt => if terminalAt < observedAt then some observedAt else some terminalAt
  match MetricEvent.of event.event, existing with
  | .heartbeat, none => some ⟨event.clientID, event.relayID, observedAt, none⟩
  | .heartbeat, some row =>
    some { clientID := event.clientID, relayID := event.relayID, lastHeartbeatAt := max row.lastHeartbeatAt observedAt
           terminalAt := row.terminalAt.filter fun terminalAt => decide (observedAt ≤ terminalAt) }
  | .terminal, none =>
    if event.relayID = "" then none else some ⟨event.clientID, event.relayID, observedAt, some observedAt⟩
  | .terminal, some row =>
    if event.relayID = "" then some { row with terminalAt := marked row.terminalAt }
    else
      some { row with
        clientID := if event.clientID = "" then row.clientID else event.clientID
        relayID := if event.relayID = "" then row.relayID else event.relayID
        terminalAt := marked row.terminalAt }
  | _, existing => existing

structure PostgresMetrics where
  sessions : KeyedMap String SessionRow := ∅
  metrics : List MetricRow := []

namespace PostgresMetrics

/-- `ON CONFLICT (event_id) DO NOTHING`. -/
def insertMetric (metrics : List MetricRow) (row : MetricRow) : List MetricRow :=
  if metrics.any fun old => old.eventID = row.eventID then metrics else metrics ++ [row]

def recordOne (p : PostgresMetrics) (record : TelemetryRecord) (now : Time) : PostgresMetrics where
  sessions :=
    match record.sessionOf with
    | none => p.sessions
    | some id =>
      match record.sessionRow now (p.sessions.lookup id) with
      | none => p.sessions
      | some row => p.sessions.insert id row
  metrics :=
    match record.metricRow now with
    | none => p.metrics
    | some row => insertMetric p.metrics row

def recordRelayTelemetry (p : PostgresMetrics) (records : List TelemetryRecord) (now : Time) : PostgresMetrics :=
  records.foldl (fun p record => p.recordOne record now) p

def run (batches : List (List TelemetryRecord × Time)) : PostgresMetrics :=
  batches.foldl (fun p batch => p.recordRelayTelemetry batch.1 batch.2) {}

/-- `percentile_cont(0.5)`, which is null for no values, and then read as zero. -/
def percentileCont (values : List ℚ) : ℚ :=
  let sorted := values.mergeSort fun a b => decide (a ≤ b)
  let last := sorted.length - 1
  let lower := sorted.getD (last / 2) 0
  if last % 2 = 0 then lower else lower + 1 / 2 * (sorted.getD (last / 2 + 1) 0 - lower)

def snapshot (p : PostgresMetrics) (now : Time) (relayID : String) : RelayMetricsSnapshot :=
  let active := p.sessions.values.filter fun row =>
    decide (row.relayID = relayID) && (row.terminalAt.isNone && decide (now - activeSessionTimeout < row.lastHeartbeatAt))
  let inWindow := p.metrics.filter fun row =>
    decide (now - rankingWindow ≤ row.observedAt) && decide (row.observedAt ≤ now)
  let own := inWindow.filter fun row => decide (row.relayID = relayID)
  let percentile (column : MetricRow → Option Int) : ℚ :=
    percentileCont (((own.filterMap column).filter fun v => decide (0 < v)).map fun v : Int => (v : ℚ))
  { activeSessions := active.length
    successes := (own.map (·.successCount)).sum
    failures := (own.map (·.failureCount)).sum
    tcpMS := percentile (·.tcpMs)
    internetProbeMS := percentile (·.internetProbeMs)
    ttfbMS := percentile (·.ttfbMs)
    speedTests := (own.map (·.speedTestCount)).sum
    downloadMbpsTotal := (((own.filterMap (·.downloadMbpsMilli)).sum : Int) : ℚ) / 1000 }

end PostgresMetrics

end OpenRung.Broker
