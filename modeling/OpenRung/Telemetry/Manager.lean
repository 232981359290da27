import OpenRung.Telemetry.OutboxUpload

/-! The requests of the client's telemetry manager (`connectcore/clienttelemetry/manager.go`), and what
    `SendTelemetry` accepts. -/

namespace OpenRung.Telemetry

/-! ### The request (`brokerapi/telemetry.go`) -/

def maxTelemetryEvents : Nat := 200

inductive SendError where
  | tooManyEvents
  | mixedIdentities
  | encode
  | tooLarge
  deriving DecidableEq

def telemetryBody (codec : EventCodec) (events : List Event) : Option Bytes :=
  (events.mapM codec.marshal).map fun lines =>
    ascii "\x7b\"events\":[" ++ [(44 : UInt8)].intercalate lines ++ ascii "]\x7d"

def sendTelemetryCheck (codec : EventCodec) (events : List Event) : Except SendError Unit :=
  match events with
  | [] => .ok ()
  | first :: rest =>
    if events.length > maxTelemetryEvents then .error .tooManyEvents
    else if rest.any fun e => e.clientID ≠ first.clientID ∨ e.sessionID ≠ first.sessionID then .error .mixedIdentities
    else match telemetryBody codec events with
      | none => .error .encode
      | some body => if body.length > maxTelemetryBodyBytes then .error .tooLarge else .ok ()

/-! ### The manager -/

def uploadBatchSize : Nat := 200

structure Manager where
  hostIdentity : Bool := false
  outbox : List Event := []
  store : Option OutboxHost := none

namespace Manager
variable (codec : EventCodec)

def snapshotLocked (limit : Nat) (m : Manager) : List Event × Manager :=
  if m.hostIdentity then
    let (batch, oversized) := outboxUploadBatch codec m.outbox limit outboxBatchByteBudget
    (batch, { m with outbox := m.outbox.filter fun e => !oversized.any (·.eventID = e.eventID) })
  else (m.outbox.take limit, m)

end Manager

end OpenRung.Telemetry
