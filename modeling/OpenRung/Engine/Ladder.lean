import OpenRung.Relay.Identity

/-! The candidate ladder of the client engine (`runLadder`, `attemptCandidate` and `startCandidate` in `connectcore`).
    Calls that leave the engine are answered by a script; a clock that goes on with every call and every read of the
    context says when the context is cancelled. -/

namespace OpenRung.Ladder

/-! ### Errors and their markers -/

inductive Cause where
  | plain (text : String) (socketProtection : Bool := false)
  | canceled
  | remotePath (stage text : String)
  deriving DecidableEq

inductive CandidateError where
  | cause (cause : Cause)
  | localCandidate (stage : String) (err : CandidateError)
  | directPath (stage : String) (err : CandidateError)
  | wssTransport (stage frontID : String) (err : CandidateError)
  | relayFailureRecorded (err : CandidateError)
  | wrapped (text : String) (err : CandidateError)
  deriving DecidableEq

namespace CandidateError

def localCandidateErrorStage : CandidateError → Option String
  | .cause _ => none
  | .localCandidate stage _ => some stage
  | .directPath _ err | .wssTransport _ _ err | .relayFailureRecorded err | .wrapped _ err => err.localCandidateErrorStage

def directPathErrorStage : CandidateError → Option String
  | .cause _ => none
  | .directPath stage _ => some stage
  | .localCandidate _ err | .wssTransport _ _ err | .relayFailureRecorded err | .wrapped _ err => err.directPathErrorStage

def wssTransportStage : CandidateError → Option String
  | .cause _ => none
  | .wssTransport stage _ _ => some stage
  | .localCandidate _ err | .directPath _ err | .relayFailureRecorded err | .wrapped _ err => err.wssTransportStage

def relayFailureAlreadyRecorded : CandidateError → Bool
  | .cause _ => false
  | .relayFailureRecorded _ => true
  | .localCandidate _ err | .directPath _ err | .wssTransport _ _ err | .wrapped _ err => err.relayFailureAlreadyRecorded

def isSocketProtectionFailure : CandidateError → Bool
  | .cause (.plain _ socketProtection) => socketProtection
  | .cause _ => false
  | .localCandidate _ err | .directPath _ err | .wssTransport _ _ err | .relayFailureRecorded err | .wrapped _ err =>
    err.isSocketProtectionFailure

def remotePathStage : CandidateError → Option String
  | .cause (.remotePath stage _) => some stage
  | .cause _ => none
  | .localCandidate _ err | .directPath _ err | .wssTransport _ _ err | .relayFailureRecorded err | .wrapped _ err =>
    err.remotePathStage

end CandidateError

open CandidateError

def plainError (text : String) : CandidateError := .cause (.plain text)

def canceledError : CandidateError := .cause .canceled

def markLocalCandidateError (stage : String) (err : CandidateError) : CandidateError := .localCandidate stage err

def markDirectPathError (stage : String) (err : CandidateError) : CandidateError :=
  if err.isSocketProtectionFailure then markLocalCandidateError "socket_protection" err else .directPath stage err

def markWSSTransportError (stage frontID : String) (err : CandidateError) : CandidateError :=
  if err.isSocketProtectionFailure then markLocalCandidateError "socket_protection" err
  else .wssTransport stage frontID err

def markRelayFailureRecorded (err : CandidateError) : CandidateError := .relayFailureRecorded err

/-! ### The world of an attempt -/

structure Context where
  canceledAt : Option Nat := none

def Context.err (ctx : Context) (now : Nat) : Bool := ctx.canceledAt.any fun at_ => decide (at_ ≤ now)

structure WSSFront where
  id : String
  url : String
  deriving DecidableEq

/-- Where the credential of a descriptor came from: history that nothing in the program reads. -/
inductive CredentialSource where
  | publicList
  | access (pass : Nat)
  deriving DecidableEq

structure RelayDescriptor where
  id : String
  label : String := ""
  countryCode : String := ""
  publicHost : String := ""
  publicPort : Int := 443
  transport : String := ""
  nodeClass : String := ""
  exitMode : String := ""
  wssFronts : List WSSFront := []
  clientID : String := ""
  issuedBy : CredentialSource := .publicList
  deriving DecidableEq

structure RelayEndpoint where
  host : String
  port : Int
  deriving DecidableEq

structure Host where
  mobile : Bool := false
  tunMode : Bool := false
  fakeIPCachePath : Bool := false
  fakeIPAllowed : Bool := true
  isIPv6Host : String → Bool := fun _ => false
  toLower : String → String := id
  effectiveNodeClass : String → String := id
  normalizeFronts : List WSSFront → Option (List WSSFront) := some

def transportDirect : String := "direct"
def nodeClassFoundation : String := "foundation"
def exitModeDirect : String := "direct"

def supportedWSSFronts (host : Host) (cand : RelayDescriptor) : List WSSFront :=
  let lowered := host.toLower (Broker.trimSpace cand.transport)
  let transport := if lowered = "" then transportDirect else lowered
  if transport ≠ transportDirect ∨ host.effectiveNodeClass cand.nodeClass ≠ nodeClassFoundation ∨
      cand.exitMode ≠ exitModeDirect ∨ cand.publicPort ≠ 443 then []
  else if host.normalizeFronts cand.wssFronts = some cand.wssFronts then cand.wssFronts else []

inductive AccessTransport where
  | direct
  | punch
  | wss (frontID : String)
  deriving DecidableEq

structure CandidateResult where
  relay : RelayDescriptor
  accessTransport : AccessTransport
  attempt : Nat
  deriving DecidableEq

inductive ReadyEvent where
  | exited (err : Option Cause)
  | transport (stage : String) (err : Option Cause)
  | done
  | tick (ready late : Bool)

/-- What becomes ready while the engine waits for a mobile tunnel. `waited` is the return of `WaitReady`, with whether
    the readiness budget was over and how the run had stopped by then. -/
inductive MobileReadyEvent where
  | waited (late : Bool) (stopped : Option (Option Cause)) (err : Option Cause)
  | exited (err : Option Cause)
  | transport (stage : String) (err : Option Cause)
  | done

/-- `VerifyPath` of a mobile run. `remote` is an error with a `RemotePathError` in its chain; `attributable` says that it
    has an inner error, is no cancellation and no refused socket. -/
inductive PathReport where
  | evidence (complete : Bool)
  | remote (stage text : String) (attributable : Bool)
  | failed (err : Cause)

inductive ProbeEvent where
  | exited (err : Option Cause)
  | transport (stage : String) (err : Option Cause)
  | done

structure ProbeOps where
  early : List ProbeEvent := []
  failure : Option Cause := none
  report : PathReport := .evidence true
  stopped : Option (Option Cause) := none

structure LaunchOps where
  lock : Option Cause := none
  record : Option Cause := none
  build : Option Cause := none
  run : Option (Option String × Cause) := none
  ready : List ReadyEvent := [.tick true false]
  mobileReady : List MobileReadyEvent := [.waited false none none]

structure StartOps where
  launch : LaunchOps := {}
  stop : Option Cause := none
  relaunch : LaunchOps := {}
  probe : ProbeOps := {}

structure DirectOps where
  config : Option Cause := none
  dial : Option Cause := none
  redial : Option Cause := none
  reconfig : Option Cause := none
  punched : Bool := false
  start : StartOps := {}

inductive TicketReply where
  | failed (err : Cause)
  | granted (url : String) (expired : Bool)

structure WSSOps where
  config : Option Cause := none
  ticket : TicketReply
  dial : Option Cause := none
  loopback : Bool := true
  start : StartOps := {}

structure CandidateOps where
  direct : DirectOps := {}
  wss : Nat → WSSOps

/-! ### Starting a candidate -/

abbrev Timed (α : Type) := α × Nat

/-- The value on `transportErr`: a nil is replaced by the reader. -/
def transportError (frontID stage : String) (err : Option Cause) (missing : CandidateError) : CandidateError :=
  match err with
  | some err => markWSSTransportError stage frontID (.cause err)
  | none => missing

/-- A case on a nil channel, and one on the context while that is live, is never chosen. -/
def awaitTunnelReady (ctx : Context) (access : AccessTransport) (now : Nat) :
    List ReadyEvent → Timed (Option CandidateError)
  | [] => (some (plainError "tunnel did not become ready in time"), now + 1)
  | .exited err :: _ => (some ((err.map .cause).getD (plainError "sing-box exited")), now + 1)
  | .transport stage err :: rest =>
    match access with
    | .wss frontID =>
      (some (transportError frontID stage err (plainError "WSS access transport stopped")), now + 1)
    | _ => awaitTunnelReady ctx access (now + 1) rest
  | .done :: rest =>
    if ctx.err now then (some canceledError, now + 1) else awaitTunnelReady ctx access (now + 1) rest
  | .tick ready late :: rest =>
    if ready then (none, now + 1)
    else if late then (some (plainError "tunnel did not become ready in time"), now + 1)
    else awaitTunnelReady ctx access (now + 1) rest

def readyError (ctx : Context) (now : Nat) : CandidateError :=
  if ctx.err now then canceledError else plainError "tunnel did not become ready in time"

def awaitMobileReady (ctx : Context) (access : AccessTransport) (now : Nat) :
    List MobileReadyEvent → Timed (Option CandidateError)
  | [] => (some (readyError ctx now), now + 1)
  | .waited late stopped err :: _ =>
    if late || ctx.err now then (some (readyError ctx now), now + 1)
    else match stopped with
      | some stopped => (some ((stopped.map .cause).getD (plainError "engine stopped during readiness")), now + 1)
      | none => (err.map .cause, now + 1)
  | .exited err :: _ => (some ((err.map .cause).getD (plainError "engine stopped during readiness")), now + 1)
  | .transport stage err :: rest =>
    match access with
    | .wss frontID =>
      (some (transportError frontID stage err
        (markWSSTransportError "wss_session" frontID (plainError "WSS session stopped during readiness"))), now + 1)
    | _ => awaitMobileReady ctx access (now + 1) rest
  | .done :: rest => if ctx.err now then (some canceledError, now + 1) else awaitMobileReady ctx access (now + 1) rest

structure Launched where
  err : Option CandidateError
  fakeIPCache : Bool := false

/-- `cache` says that the input names a fake-IP cache, `locked` that the candidate holds its lock. -/
def launchTunnel (ctx : Context) (host : Host) (access : AccessTransport) (cache locked : Bool) (ops : LaunchOps)
    (now : Nat) : Timed Launched :=
  match if host.tunMode && cache && !locked then ops.lock else none with
  | some err => ({ err := some (markLocalCandidateError "tunnel_start" (.cause err)) }, now + 1)
  | none =>
    let usesFakeIP := host.tunMode && cache && host.fakeIPAllowed && ops.record.isNone
    match ops.build with
    | some err => ({ err := some (markLocalCandidateError "config" (.cause err)) }, now + 1)
    | none =>
      match ops.run with
      | some (some stage, err) => ({ err := some (markLocalCandidateError stage (.cause err)), fakeIPCache := usesFakeIP }, now + 1)
      | some (none, err) =>
        ({ err := some (markLocalCandidateError "tunnel_start" (.cause err)), fakeIPCache := usesFakeIP }, now + 1)
      | none =>
        if ctx.err (now + 1) then ({ err := some canceledError, fakeIPCache := usesFakeIP }, now + 2)
        else
          let (err, now) :=
            if host.mobile then awaitMobileReady ctx access (now + 2) ops.mobileReady
            else awaitTunnelReady ctx access (now + 2) ops.ready
          match err with
          | none => ({ err := none, fakeIPCache := usesFakeIP }, now)
          | some err =>
            if err.wssTransportStage.isSome then ({ err := some err, fakeIPCache := usesFakeIP }, now)
            else ({ err := some (markLocalCandidateError "tunnel_start" err), fakeIPCache := usesFakeIP }, now)

def verifyMobilePath (ctx : Context) (now : Nat) (report : PathReport) : Option CandidateError :=
  if ctx.err now then some canceledError
  else match report with
    | .remote stage text attributable =>
      if attributable && (stage = "dns_probe" || stage = "internet_probe") then some (.cause (.remotePath stage text))
      else some (markLocalCandidateError "tunnel_probe" (.cause (.remotePath stage text)))
    | .failed err => some (markLocalCandidateError "tunnel_probe" (.cause err))
    | .evidence complete =>
      if complete then none
      else some (markLocalCandidateError "tunnel_probe" (plainError "missing through-tunnel fresh DNS and pinned HTTPS evidence"))

def probed (ctx : Context) (host : Host) (ops : ProbeOps) (now : Nat) : Timed (Option CandidateError) :=
  if host.mobile then
    let verified := verifyMobilePath ctx now ops.report
    if ctx.err (now + 1) then (some canceledError, now + 2)
    else match ops.stopped with
      | some stopped =>
        (some (markLocalCandidateError "tunnel_probe_process"
          ((stopped.map .cause).getD (plainError "engine stopped during verification"))), now + 2)
      | none => (verified, now + 2)
  else (ops.failure.map .cause, now + 1)

def probeCandidate (ctx : Context) (host : Host) (access : AccessTransport) (ops : ProbeOps) (now : Nat) :
    List ProbeEvent → Timed (Option CandidateError)
  | [] => probed ctx host ops now
  | .exited err :: _ =>
    (some (markLocalCandidateError "tunnel_probe_process"
      ((err.map .cause).getD (plainError "sing-box exited during internet verification"))), now + 1)
  | .transport stage err :: rest =>
    match access with
    | .wss frontID =>
      (some (transportError frontID stage err
        (markWSSTransportError "wss_session" frontID (plainError "WSS access transport stopped"))), now + 1)
    | _ => probeCandidate ctx host access ops (now + 1) rest
  | .done :: rest =>
    if ctx.err now then (some canceledError, now + 1) else probeCandidate ctx host access ops (now + 1) rest

def launchCandidate (ctx : Context) (host : Host) (access : AccessTransport) (ops : StartOps) (now : Nat) :
    Timed (Option CandidateError) :=
  let (launched, now) := launchTunnel ctx host access host.fakeIPCachePath false ops.launch now
  match launched.err with
  | none => (none, now)
  | some err =>
    if launched.fakeIPCache && !ctx.err now && err.wssTransportStage.isNone then
      match ops.stop with
      | some stopErr => (some (markLocalCandidateError "tunnel_start" (.cause stopErr)), now + 1)
      | none =>
        let (relaunched, now) := launchTunnel ctx host access false true ops.relaunch (now + 1)
        (relaunched.err, now)
    else (some err, now)

def probeFailure (access : AccessTransport) (err : CandidateError) : CandidateError :=
  if err.localCandidateErrorStage.isSome then err
  else if err.wssTransportStage.isSome then err
  else match access with
    | .wss frontID => markWSSTransportError (err.remotePathStage.getD "wss_internet_probe") frontID err
    | _ => markDirectPathError (err.remotePathStage.getD "internet_probe") err

def startCandidate (ctx : Context) (host : Host) (access : AccessTransport) (ops : StartOps) (now : Nat) :
    Timed (Option CandidateError) :=
  let (err, now) := launchCandidate ctx host access ops now
  match err with
  | some err => (some err, now)
  | none =>
    let (err, now) := probeCandidate ctx host access ops.probe now ops.probe.early
    (err.map (probeFailure access), now)

/-! ### The attempts -/

abbrev Outcome := Except CandidateError CandidateResult

def publicEndpointFor (host : Host) (endpoints : KeyedMap String RelayEndpoint) (cand : RelayDescriptor) :
    Option RelayEndpoint :=
  if host.isIPv6Host cand.publicHost then
    match endpoints.lookup cand.id with
    | some endpoint => if endpoint.host = cand.publicHost then none else some endpoint
    | none => none
  else none

def RelayDescriptor.at (cand : RelayDescriptor) (endpoint : RelayEndpoint) : RelayDescriptor :=
  { cand with publicHost := endpoint.host, publicPort := endpoint.port }

def openCandidate (ctx : Context) (host : Host) (cand : RelayDescriptor) (ops : DirectOps) (attempt now : Nat) :
    Timed Outcome :=
  let access : AccessTransport := if ops.punched then .punch else .direct
  let (err, now) := startCandidate ctx host access ops.start (now + 1)
  match err with
  | some err => (.error err, now)
  | none => (.ok { relay := cand, accessTransport := access, attempt }, now)

def attemptDirectCandidate (ctx : Context) (host : Host) (endpoints : KeyedMap String RelayEndpoint)
    (cand : RelayDescriptor) (ops : DirectOps) (attempt now : Nat) : Timed Outcome :=
  match if host.mobile then ops.config else none with
  | some err => (.error (markLocalCandidateError "config" (.cause err)), now + 1)
  | none =>
    match ops.dial with
    | none => openCandidate ctx host cand ops attempt (now + 2)
    | some err =>
      if ctx.err (now + 2) || (CandidateError.cause err).isSocketProtectionFailure then
        (.error (markDirectPathError "tcp" (.cause err)), now + 3)
      else
        match publicEndpointFor host endpoints cand with
        | none => (.error (markDirectPathError "tcp" (.cause err)), now + 3)
        | some endpoint =>
          match ops.redial with
          | some err => (.error (markDirectPathError "tcp" (.cause err)), now + 4)
          | none =>
            match if host.mobile then ops.reconfig else none with
            | some err => (.error (markLocalCandidateError "config" (.cause err)), now + 4)
            | none => openCandidate ctx host (cand.at endpoint) ops attempt (now + 4)

def attemptWSSCandidate (ctx : Context) (host : Host) (cand : RelayDescriptor) (front : WSSFront) (ops : WSSOps)
    (attempt now : Nat) : Timed Outcome :=
  match if host.mobile then ops.config else none with
  | some err => (.error (markLocalCandidateError "config" (.cause err)), now + 1)
  | none =>
    match ops.ticket with
    | .failed err =>
      (.error (markWSSTransportError "ticket" front.id (.wrapped "request WSS ticket" (.cause err))), now + 2)
    | .granted url expired =>
      if url ≠ front.url then
        (.error (markWSSTransportError "ticket_binding" front.id
          (plainError "WSS ticket URL does not match the signed relay front")), now + 2)
      else if expired then
        (.error (markWSSTransportError "ticket_expired" front.id (plainError "WSS ticket is already expired")), now + 2)
      else
        match ops.dial with
        | some err =>
          (.error (markWSSTransportError "wss_handshake" front.id (.wrapped "connect WSS front" (.cause err))), now + 3)
        | none =>
          if !ops.loopback then
            (.error (markWSSTransportError "local_adapter" front.id
              (plainError "WSS adapter returned no safe loopback endpoint")), now + 3)
          else
            let (err, now) := startCandidate ctx host (.wss front.id) ops.start (now + 3)
            match err with
            | some err => (.error err, now)
            | none => (.ok { relay := cand, accessTransport := .wss front.id, attempt }, now)

/-! ### The ladder -/

/-- An attempt has the readings of the clock between which it ran. -/
inductive LadderEvent where
  | direct (index start stop : Nat) (outcome : Outcome)
  | wss (index front start stop : Nat) (outcome : Outcome)
  | relayAttemptFailed (relayID : String) (attempt : Nat) (err : CandidateError)
  | transportFallback (relayID : String) (err : CandidateError)
  | transportFailed (relayID : String) (err : CandidateError)

structure LadderState where
  now : Nat := 0
  log : List LadderEvent := []

def LadderState.record (s : LadderState) (event : LadderEvent) : LadderState := { s with log := s.log ++ [event] }

section
variable (ctx : Context) (host : Host)

def attemptFronts (cand : RelayDescriptor) (ops : Nat → WSSOps) (index : Nat) :
    Nat → List WSSFront → CandidateError → LadderState → Outcome × LadderState
  | _, [], lastErr, s =>
    (.error (markRelayFailureRecorded (.wrapped "direct path failed; WSS fallback failed" lastErr)), s)
  | front, next :: rest, _, s =>
    let (outcome, now) := attemptWSSCandidate ctx host cand next (ops front) (index + 1) s.now
    let s := { s.record (.wss index front s.now now outcome) with now := now + 1 }
    match outcome with
    | .ok result => (.ok result, s)
    | .error err =>
      if ctx.err now then (.error canceledError, s)
      else if err.localCandidateErrorStage.isSome then (.error err, s)
      else
        let s := if err.wssTransportStage.isSome then s.record (.transportFailed cand.id err) else s
        attemptFronts cand ops index (front + 1) rest err s

def attemptCandidate (endpoints : KeyedMap String RelayEndpoint) (cand : RelayDescriptor) (ops : CandidateOps)
    (index : Nat) (s : LadderState) : Outcome × LadderState :=
  let (outcome, now) := attemptDirectCandidate ctx host endpoints cand ops.direct (index + 1) s.now
  let s := { s.record (.direct index s.now now outcome) with now := now + 1 }
  match outcome with
  | .ok result => (.ok result, s)
  | .error directErr =>
    if ctx.err now then (.error canceledError, s)
    else if directErr.directPathErrorStage.isNone then (.error directErr, s)
    else
      let fronts := supportedWSSFronts host cand
      if fronts = [] then (.error directErr, s)
      else if host.tunMode && !host.mobile then (.error directErr, s)
      else
        let s := s.record (.relayAttemptFailed cand.id (index + 1) directErr)
        let s := s.record (.transportFallback cand.id directErr)
        attemptFronts ctx host cand ops.wss index 0 fronts directErr s

def runLadderFrom (endpoints : KeyedMap String RelayEndpoint) (ops : Nat → CandidateOps) :
    Nat → List RelayDescriptor → Option CandidateError → LadderState → Outcome × LadderState
  | _, [], lastErr, s =>
    (.error (.wrapped "All relay connection attempts failed. Last error" (lastErr.getD (plainError "<nil>"))), s)
  | index, cand :: rest, _, s =>
    if ctx.err s.now then (.error canceledError, s)
    else
      let (outcome, s) := attemptCandidate ctx host endpoints cand (ops index) index { s with now := s.now + 1 }
      match outcome with
      | .ok result => (.ok result, s)
      | .error err =>
        if ctx.err s.now then (.error canceledError, s)
        else if err.localCandidateErrorStage.isSome then (.error (.wrapped "local VPN setup failed" err), s)
        else
          let s := if err.relayFailureAlreadyRecorded then s
            else s.record (.relayAttemptFailed cand.id (index + 1) err)
          runLadderFrom endpoints ops (index + 1) rest (some err) { s with now := s.now + 1 }

def runLadder (endpoints : KeyedMap String RelayEndpoint) (ops : Nat → CandidateOps)
    (cands : List RelayDescriptor) (now : Nat) : Outcome × LadderState :=
  runLadderFrom ctx host endpoints ops 0 cands none { now }

end

end OpenRung.Ladder
