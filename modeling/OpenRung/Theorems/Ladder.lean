import OpenRung.Engine.Ladder
import OpenRung.Lib.Trace
import Mathlib.Tactic

/-! Attribution in the connect ladder: what is attempted after what, and which candidates are blamed. -/

namespace OpenRung.Ladder
open CandidateError

variable {ctx : Context} {host : Host} {endpoints : KeyedMap String RelayEndpoint} {cands : List RelayDescriptor}
  {access : AccessTransport} {now : Nat} {err : CandidateError}

/-! ### The context -/

theorem Context.err_mono {t t' : Nat} (hca : ctx.err t = true) (le : t ≤ t') : ctx.err t' = true := by
  unfold Context.err at *
  cases at_ : ctx.canceledAt with
  | none => simp [at_] at hca
  | some c =>
    simp only [at_, Option.any_some, decide_eq_true_eq] at hca ⊢
    exact hca.trans le

/-! ### What a direct attempt can fail with

A direct attempt marks its errors once: as local, as a failure of the direct path, or not at all. -/

inductive DirectShape : CandidateError → Prop
  | bare (cause : Cause) : DirectShape (.cause cause)
  | localCandidate (stage : String) (cause : Cause) : DirectShape (.localCandidate stage (.cause cause))
  | directPath (stage : String) (cause : Cause) : DirectShape (.directPath stage (.cause cause))

theorem DirectShape.exclusive (hs : DirectShape err) (ht : err.directPathErrorStage.isSome = true) :
    err.localCandidateErrorStage = none := by
  cases hs with
  | bare cause => rfl
  | localCandidate stage cause => simp [directPathErrorStage] at ht
  | directPath stage cause => rfl

def Direct (access : AccessTransport) : Prop := ∀ frontID, access ≠ .wss frontID

theorem awaitTunnelReady_bare (direct : Direct access) (events : List ReadyEvent) (now : Nat)
    (hf : (awaitTunnelReady ctx access now events).1 = some err) : ∃ cause, err = .cause cause := by
  induction events generalizing now with
  | nil => exact ⟨_, (Option.some.inj hf).symm⟩
  | cons event rest ih =>
    cases event with
    | exited e =>
      cases e with
      | none => exact ⟨_, (Option.some.inj hf).symm⟩
      | some cause => exact ⟨_, (Option.some.inj hf).symm⟩
    | transport stage e =>
      cases access with
      | wss frontID => exact absurd rfl (direct frontID)
      | direct => exact ih _ hf
      | punch => exact ih _ hf
    | done =>
      simp only [awaitTunnelReady] at hf
      split at hf
      · exact ⟨_, (Option.some.inj hf).symm⟩
      · exact ih _ hf
    | tick ready late =>
      simp only [awaitTunnelReady] at hf
      split at hf
      · cases hf
      · split at hf
        · exact ⟨_, (Option.some.inj hf).symm⟩
        · exact ih _ hf

theorem readyError_bare : ∃ cause, readyError ctx now = .cause cause := by
  unfold readyError
  split
  · exact ⟨_, rfl⟩
  · exact ⟨_, rfl⟩

theorem awaitMobileReady_bare (direct : Direct access) (events : List MobileReadyEvent) (now : Nat)
    (hf : (awaitMobileReady ctx access now events).1 = some err) : ∃ cause, err = .cause cause := by
  induction events generalizing now with
  | nil =>
    obtain rfl := Option.some.inj hf
    exact readyError_bare
  | cons event rest ih =>
    cases event with
    | waited late stopped e =>
      simp only [awaitMobileReady] at hf
      split at hf
      · obtain rfl := Option.some.inj hf
        exact readyError_bare
      · split at hf
        next stopped =>
          cases stopped with
          | none => exact ⟨_, (Option.some.inj hf).symm⟩
          | some cause => exact ⟨_, (Option.some.inj hf).symm⟩
        next =>
          obtain ⟨cause, -, rfl⟩ := Option.map_eq_some_iff.mp hf
          exact ⟨cause, rfl⟩
    | exited e =>
      cases e with
      | none => exact ⟨_, (Option.some.inj hf).symm⟩
      | some cause => exact ⟨_, (Option.some.inj hf).symm⟩
    | transport stage e =>
      cases access with
      | wss frontID => exact absurd rfl (direct frontID)
      | direct => exact ih _ hf
      | punch => exact ih _ hf
    | done =>
      simp only [awaitMobileReady] at hf
      split at hf
      · exact ⟨_, (Option.some.inj hf).symm⟩
      · exact ih _ hf

theorem launchTunnel_shape (hd : Direct access) {cache locked : Bool} {ops : LaunchOps}
    (hf : (launchTunnel ctx host access cache locked ops now).1.err = some err) : DirectShape err := by
  unfold launchTunnel at hf
  split at hf
  · obtain rfl := Option.some.inj hf
    exact .localCandidate _ _
  · dsimp only at hf
    split at hf
    · obtain rfl := Option.some.inj hf
      exact .localCandidate _ _
    · split at hf
      · obtain rfl := Option.some.inj hf
        exact .localCandidate _ _
      · obtain rfl := Option.some.inj hf
        exact .localCandidate _ _
      · split at hf
        · obtain rfl := Option.some.inj hf
          exact .bare _
        · split at hf
          next => cases hf
          next e hwi =>
            have hba : ∃ cause, e = .cause cause := by
              split at hwi
              · exact awaitMobileReady_bare hd _ _ hwi
              · exact awaitTunnelReady_bare hd _ _ hwi
            obtain ⟨cause, rfl⟩ := hba
            obtain rfl := Option.some.inj hf
            exact .localCandidate _ _

theorem launchCandidate_shape (hd : Direct access) {ops : StartOps}
    (hf : (launchCandidate ctx host access ops now).1 = some err) : DirectShape err := by
  unfold launchCandidate at hf
  dsimp only at hf
  split at hf
  next => cases hf
  next e hfi =>
    split at hf
    · split at hf
      · obtain rfl := Option.some.inj hf
        exact .localCandidate _ _
      · exact launchTunnel_shape hd hf
    · obtain rfl := Option.some.inj hf
      exact launchTunnel_shape hd hfi

inductive ProbeShape : CandidateError → Prop
  | bare (cause : Cause) : ProbeShape (.cause cause)
  | localCandidate (stage : String) (cause : Cause) : ProbeShape (.localCandidate stage (.cause cause))

theorem verifyMobilePath_shape {report : PathReport} (hf : verifyMobilePath ctx now report = some err) :
    ProbeShape err := by
  unfold verifyMobilePath at hf
  repeat' split at hf
  all_goals cases hf
  all_goals first
    | exact .bare _
    | exact .localCandidate _ _

theorem stopped_shape {stage text : String} (stopped : Option Cause) :
    ProbeShape (markLocalCandidateError stage ((stopped.map .cause).getD (plainError text))) := by
  cases stopped with
  | none => exact .localCandidate _ _
  | some cause => exact .localCandidate _ _

theorem probed_shape {ops : ProbeOps} (hf : (probed ctx host ops now).1 = some err) : ProbeShape err := by
  unfold probed at hf
  split at hf
  · dsimp only at hf
    split at hf
    · obtain rfl := Option.some.inj hf
      exact .bare _
    · split at hf
      · obtain rfl := Option.some.inj hf
        exact stopped_shape _
      · exact verifyMobilePath_shape hf
  · obtain ⟨cause, -, rfl⟩ := Option.map_eq_some_iff.mp hf
    exact .bare _

theorem probeCandidate_shape (direct : Direct access) {ops : ProbeOps} (events : List ProbeEvent) (now : Nat)
    (hf : (probeCandidate ctx host access ops now events).1 = some err) : ProbeShape err := by
  induction events generalizing now with
  | nil => exact probed_shape hf
  | cons event rest ih =>
    cases event with
    | exited e =>
      obtain rfl := Option.some.inj hf
      exact stopped_shape e
    | transport stage e =>
      cases access with
      | wss frontID => exact absurd rfl (direct frontID)
      | direct => exact ih _ hf
      | punch => exact ih _ hf
    | done =>
      simp only [probeCandidate] at hf
      split at hf
      · obtain rfl := Option.some.inj hf
        exact .bare _
      · exact ih _ hf

theorem markDirectPathError_shape (stage : String) (cause : Cause) :
    DirectShape (markDirectPathError stage (.cause cause)) := by
  unfold markDirectPathError
  split
  · exact .localCandidate _ _
  · exact .directPath _ _

theorem probeFailure_shape (direct : Direct access) (hs : ProbeShape err) : DirectShape (probeFailure access err) := by
  cases hs with
  | bare cause =>
    cases access with
    | wss frontID => exact absurd rfl (direct frontID)
    | direct => exact markDirectPathError_shape _ _
    | punch => exact markDirectPathError_shape _ _
  | localCandidate stage cause => exact .localCandidate _ _

theorem startCandidate_shape (hd : Direct access) {ops : StartOps}
    (hf : (startCandidate ctx host access ops now).1 = some err) : DirectShape err := by
  unfold startCandidate at hf
  dsimp only at hf
  split at hf
  next e hla =>
    obtain rfl := Option.some.inj hf
    exact launchCandidate_shape hd hla
  next =>
    obtain ⟨e, hp, rfl⟩ := Option.map_eq_some_iff.mp hf
    exact probeFailure_shape hd (probeCandidate_shape hd _ _ hp)

theorem openCandidate_shape {cand : RelayDescriptor} {ops : DirectOps} {attempt : Nat}
    (hf : (openCandidate ctx host cand ops attempt now).1 = .error err) : DirectShape err := by
  have hd : Direct (if ops.punched then .punch else .direct) := by
    intro frontID
    split <;> simp
  unfold openCandidate at hf
  dsimp only at hf
  split at hf
  next e hst =>
    obtain rfl := Except.error.inj hf
    exact startCandidate_shape hd hst
  next => cases hf

theorem attemptDirectCandidate_shape {cand : RelayDescriptor} {ops : DirectOps} {attempt : Nat}
    (hf : (attemptDirectCandidate ctx host endpoints cand ops attempt now).1 = .error err) : DirectShape err := by
  unfold attemptDirectCandidate at hf
  split at hf
  · obtain rfl := Except.error.inj hf
    exact .localCandidate _ _
  · split at hf
    · exact openCandidate_shape hf
    · split at hf
      · obtain rfl := Except.error.inj hf
        exact markDirectPathError_shape _ _
      · split at hf
        · obtain rfl := Except.error.inj hf
          exact markDirectPathError_shape _ _
        · split at hf
          · obtain rfl := Except.error.inj hf
            exact markDirectPathError_shape _ _
          · split at hf
            · obtain rfl := Except.error.inj hf
              exact .localCandidate _ _
            · exact openCandidate_shape hf

/-! ### The log -/

variable {log : List LadderEvent} {event : LadderEvent} {index : Nat}

def LadderEvent.outcome? : LadderEvent → Option Outcome
  | .direct _ _ _ outcome | .wss _ _ _ _ outcome => some outcome
  | .relayAttemptFailed _ _ _ | .transportFallback _ _ | .transportFailed _ _ => none

def Halts (ctx : Context) (stop : Nat) : Outcome → Prop
  | .ok _ => True
  | .error err => err.localCandidateErrorStage.isSome = true ∨ ctx.err stop = true

/-- A success, a local failure, or a failure with the context cancelled. -/
def LadderEvent.Stops (ctx : Context) : LadderEvent → Prop
  | .direct _ _ stop outcome | .wss _ _ _ stop outcome => Halts ctx stop outcome
  | .relayAttemptFailed _ _ _ | .transportFallback _ _ | .transportFailed _ _ => False

def Calm (ctx : Context) (log : List LadderEvent) : Prop := ∀ event ∈ log, ¬event.Stops ctx

def NoSuccess (log : List LadderEvent) : Prop := ∀ event ∈ log, ∀ result, event.outcome? ≠ some (.ok result)

def directIndices (log : List LadderEvent) : List Nat :=
  log.filterMap fun
    | .direct index _ _ _ => some index
    | _ => none

def frontIndices (index : Nat) (log : List LadderEvent) : List Nat :=
  log.filterMap fun
    | .wss i front _ _ _ => if i = index then some front else none
    | _ => none

def Blamable (ctx : Context) (log : List LadderEvent) (index : Nat) : Prop :=
  ∃ start stop err, LadderEvent.direct index start stop (.error err) ∈ log ∧ err.localCandidateErrorStage = none ∧
    ctx.err stop = false

def Allowed (ctx : Context) (host : Host) (cands : List RelayDescriptor) (before : List LadderEvent) :
    LadderEvent → Prop
  | .direct index _ _ _ => directIndices before = List.range index ∧ index < cands.length ∧ Calm ctx before
  | .wss index front _ _ _ => directIndices before = List.range (index + 1) ∧ frontIndices index before = List.range front ∧
      Calm ctx before ∧ (∃ cand, cands[index]? = some cand ∧ front < (supportedWSSFronts host cand).length) ∧
      ∃ start stop err, .direct index start stop (.error err) ∈ before ∧ err.directPathErrorStage.isSome = true
  | .relayAttemptFailed relayID attempt _ => ∃ index cand, attempt = index + 1 ∧ cands[index]? = some cand ∧
      relayID = cand.id ∧ Blamable ctx before index ∧
      ∀ relayID' err', .relayAttemptFailed relayID' attempt err' ∉ before
  | _ => True

theorem Calm.noSuccess (hc : Calm ctx log) : NoSuccess log := by
  intro event mem result eq
  refine hc event mem ?_
  cases event <;> simp_all [LadderEvent.outcome?, LadderEvent.Stops, Halts]

theorem Calm.snoc (hc : Calm ctx log) (hm : ¬event.Stops ctx) : Calm ctx (log ++ [event]) := by
  intro e mem
  rcases List.mem_append.mp mem with mem | mem
  · exact hc e mem
  · rw [List.mem_singleton.mp mem]
    exact hm

theorem NoSuccess.snoc (hn : NoSuccess log) (hm : ∀ result, event.outcome? ≠ some (.ok result)) :
    NoSuccess (log ++ [event]) := by
  intro e mem
  rcases List.mem_append.mp mem with mem | mem
  · exact hn e mem
  · rw [List.mem_singleton.mp mem]
    exact hm

@[simp] theorem directIndices_snoc_direct {start stop : Nat} {outcome : Outcome} :
    directIndices (log ++ [.direct index start stop outcome]) = directIndices log ++ [index] := by
  rw [directIndices, List.filterMap_append]
  rfl

theorem directIndices_snoc (ho : ∀ index start stop outcome, event ≠ .direct index start stop outcome) :
    directIndices (log ++ [event]) = directIndices log := by
  cases event with
  | direct index start stop outcome => exact absurd rfl (ho index start stop outcome)
  | _ => exact List.filterMap_append.trans (List.append_nil _)

@[simp] theorem frontIndices_snoc_wss {front start stop : Nat} {outcome : Outcome} :
    frontIndices index (log ++ [.wss index front start stop outcome]) = frontIndices index log ++ [front] := by
  rw [frontIndices, List.filterMap_append]
  simp [frontIndices]

theorem frontIndices_snoc (ho : ∀ front start stop outcome, event ≠ .wss index front start stop outcome) :
    frontIndices index (log ++ [event]) = frontIndices index log := by
  cases event with
  | wss i front start stop outcome =>
    have ne : i ≠ index := by
      rintro rfl
      exact ho front start stop outcome rfl
    rw [frontIndices, List.filterMap_append]
    simp [ne, frontIndices]
  | _ => exact List.filterMap_append.trans (List.append_nil _)

structure Walked (ctx : Context) (host : Host) (cands : List RelayDescriptor) (log : List LadderEvent) (n : Nat) :
    Prop where
  explained : Explained (Allowed ctx host cands) log
  directs : directIndices log = List.range n
  fronts : ∀ index, n ≤ index → frontIndices index log = []
  records : ∀ relayID attempt err, .relayAttemptFailed relayID attempt err ∈ log → attempt ≤ n

namespace Walked
variable {n : Nat} (walked : Walked ctx host cands log n)
include walked

theorem direct {start stop : Nat} {outcome : Outcome} (hc : Calm ctx log) (hi : n < cands.length) :
    Walked ctx host cands (log ++ [.direct n start stop outcome]) (n + 1) where
  explained := walked.explained.snoc ⟨walked.directs, hi, hc⟩
  directs := by rw [directIndices_snoc_direct, walked.directs, List.range_succ]
  fronts index le := by
    rw [frontIndices_snoc (by simp)]
    exact walked.fronts index (by omega)
  records relayID attempt err mem := by
    have mem : LadderEvent.relayAttemptFailed relayID attempt err ∈ log := by simpa using mem
    exact Nat.le_succ_of_le (walked.records relayID attempt err mem)

theorem note (ho : event.outcome? = none) (ha : Allowed ctx host cands log event)
    (hbo : ∀ relayID attempt err, event = .relayAttemptFailed relayID attempt err → attempt ≤ n) :
    Walked ctx host cands (log ++ [event]) n where
  explained := walked.explained.snoc ha
  directs := by
    rw [directIndices_snoc (by rintro index start stop outcome rfl; cases ho)]
    exact walked.directs
  fronts index le := by
    rw [frontIndices_snoc (by rintro front start stop outcome rfl; cases ho)]
    exact walked.fronts index le
  records relayID attempt err mem := by
    rcases List.mem_append.mp mem with mem | mem
    · exact walked.records relayID attempt err mem
    · exact hbo relayID attempt err (List.mem_singleton.mp mem).symm

theorem wss {start stop front i : Nat} {outcome : Outcome} (hls : n = i + 1)
    (ha : Allowed ctx host cands log (.wss i front start stop outcome)) :
    Walked ctx host cands (log ++ [.wss i front start stop outcome]) n where
  explained := walked.explained.snoc ha
  directs := by
    rw [directIndices_snoc (by simp)]
    exact walked.directs
  fronts index le := by
    rw [frontIndices_snoc (by simp; omega)]
    exact walked.fronts index le
  records relayID attempt err mem := walked.records relayID attempt err (by simpa using mem)

end Walked

/-! ### One candidate -/

def Finished (ctx : Context) (log : List LadderEvent) (result : CandidateResult) : Prop :=
  ∃ before last, log = before ++ [last] ∧ last.outcome? = some (.ok result) ∧ Calm ctx before

/-- Without a success, the ladder goes on only if the context is live and the error is not local; then either the
    failure has been recorded or it may be now. -/
def Attempted (ctx : Context) (index : Nat) (s : LadderState) : Outcome → Prop
  | .ok result => Finished ctx s.log result
  | .error err => NoSuccess s.log ∧
      (ctx.err s.now = true ∨ err.localCandidateErrorStage.isSome = true ∨
        (Calm ctx s.log ∧ (err.relayFailureAlreadyRecorded = true ∨
          (Blamable ctx s.log index ∧ ∀ relayID err', .relayAttemptFailed relayID (index + 1) err' ∉ s.log))))

theorem attemptFronts_attempted {cand : RelayDescriptor} (hna : cands[index]? = some cand) (ops : Nat → WSSOps)
    (fronts : List WSSFront) (front : Nat) (lastErr : CandidateError) (s : LadderState)
    (hwa : Walked ctx host cands s.log (index + 1)) (hc : Calm ctx s.log)
    (hti : frontIndices index s.log = List.range front)
    (hbo : front + fronts.length ≤ (supportedWSSFronts host cand).length)
    (ht : ∃ start stop err, .direct index start stop (.error err) ∈ s.log ∧ err.directPathErrorStage.isSome = true) :
    Walked ctx host cands (attemptFronts ctx host cand ops index front fronts lastErr s).2.log (index + 1) ∧
      Attempted ctx index (attemptFronts ctx host cand ops index front fronts lastErr s).2
        (attemptFronts ctx host cand ops index front fronts lastErr s).1 := by
  induction fronts generalizing front lastErr s with
  | nil => exact ⟨hwa, hc.noSuccess, .inr (.inr ⟨hc, .inl rfl⟩)⟩
  | cons next rest ih =>
    simp only [attemptFronts]
    obtain ⟨outcome, stop⟩ := attemptWSSCandidate ctx host cand next (ops front) (index + 1) s.now
    have hw : Walked ctx host cands (s.log ++ [.wss index front s.now stop outcome]) (index + 1) := by
      refine hwa.wss rfl ⟨hwa.directs, hti, hc, ⟨cand, hna, ?_⟩, ht⟩
      rw [List.length_cons] at hbo
      omega
    cases outcome with
    | ok result => exact ⟨hw, _, _, rfl, rfl, hc⟩
    | error err =>
      have hn : NoSuccess (s.log ++ [.wss index front s.now stop (.error err)]) :=
        hc.noSuccess.snoc (by simp [LadderEvent.outcome?])
      dsimp only [LadderState.record]
      split
      next hca => exact ⟨hw, hn, .inl (Context.err_mono hca (Nat.le_succ _))⟩
      next hl =>
        split
        next hha => exact ⟨hw, hn, .inr (.inl hha)⟩
        next hr =>
          have hcl : Calm ctx (s.log ++ [.wss index front s.now stop (.error err)]) :=
            hc.snoc (by simp only [LadderEvent.Stops, Halts, not_or]; exact ⟨hr, hl⟩)
          have htr : frontIndices index (s.log ++ [.wss index front s.now stop (.error err)]) =
              List.range (front + 1) := by
            rw [frontIndices_snoc_wss, hti, List.range_succ]
          have hbu : front + 1 + rest.length ≤ (supportedWSSFronts host cand).length := by
            rw [List.length_cons] at hbo
            omega
          obtain ⟨start, stop', err', mem, ht⟩ := ht
          split
          · refine ih (front + 1) err _ (hw.note rfl trivial fun _ _ _ hsa => by cases hsa) (hcl.snoc id) ?_ hbu ?_
            · exact (frontIndices_snoc (by simp)).trans htr
            · exact ⟨start, stop', err', by simp [mem], ht⟩
          · exact ih (front + 1) err _ hw hcl htr hbu ⟨start, stop', err', by simp [mem], ht⟩

theorem attemptCandidate_attempted {cand : RelayDescriptor} (hna : cands[index]? = some cand) (ops : CandidateOps)
    (s : LadderState) (hwa : Walked ctx host cands s.log index) (hc : Calm ctx s.log) :
    Walked ctx host cands (attemptCandidate ctx host endpoints cand ops index s).2.log (index + 1) ∧
      Attempted ctx index (attemptCandidate ctx host endpoints cand ops index s).2
        (attemptCandidate ctx host endpoints cand ops index s).1 := by
  have hi : index < cands.length := (List.getElem?_eq_some_iff.mp hna).1
  have hfr : ∀ relayID err', .relayAttemptFailed relayID (index + 1) err' ∉ s.log := by
    intro relayID err' mem
    have := hwa.records _ _ _ mem
    omega
  unfold attemptCandidate
  have hs := @attemptDirectCandidate_shape ctx host endpoints s.now
  revert hs
  dsimp only
  generalize hd : attemptDirectCandidate ctx host endpoints cand ops.direct (index + 1) s.now = tried
  obtain ⟨outcome, stop⟩ := tried
  intro hs
  have hw : Walked ctx host cands (s.log ++ [.direct index s.now stop outcome]) (index + 1) :=
    hwa.direct hc hi
  cases outcome with
  | ok result => exact ⟨hw, _, _, rfl, rfl, hc⟩
  | error err =>
    have hs : DirectShape err := hs (congrArg Prod.fst hd)
    have hn : NoSuccess (s.log ++ [.direct index s.now stop (.error err)]) :=
      hc.noSuccess.snoc (by simp [LadderEvent.outcome?])
    have hfe : ∀ relayID err', .relayAttemptFailed relayID (index + 1) err' ∉
        s.log ++ [.direct index s.now stop (.error err)] := by
      simpa using hfr
    -- a failure that is neither local nor under a cancelled context may be recorded
    have hg (hr : ¬err.localCandidateErrorStage.isSome = true) (hl : ¬ctx.err stop = true) :
        Calm ctx (s.log ++ [.direct index s.now stop (.error err)]) ∧
          Blamable ctx (s.log ++ [.direct index s.now stop (.error err)]) index := by
      refine ⟨hc.snoc (by simp only [LadderEvent.Stops, Halts, not_or]; exact ⟨hr, hl⟩), s.now, stop, err, ?_⟩
      exact ⟨by simp, by simpa using hr, by simpa using hl⟩
    have hfa (hl : ¬ctx.err stop = true) :
        Attempted ctx index { now := stop + 1, log := s.log ++ [.direct index s.now stop (.error err)] } (.error err) := by
      refine ⟨hn, .inr ?_⟩
      by_cases hr : err.localCandidateErrorStage.isSome = true
      · exact .inl hr
      · obtain ⟨hcl, hb⟩ := hg hr hl
        exact .inr ⟨hcl, .inr ⟨hb, hfe⟩⟩
    dsimp only [LadderState.record]
    split
    next hca => exact ⟨hw, hn, .inl (Context.err_mono hca (Nat.le_succ _))⟩
    next hl =>
      split
      next => exact ⟨hw, hfa hl⟩
      next ht =>
        have ht : err.directPathErrorStage.isSome = true := by
          simpa [Option.isNone_iff_eq_none, Option.isSome_iff_ne_none] using ht
        obtain ⟨hcl, hb⟩ := hg (by simp [hs.exclusive ht]) hl
        split
        next => exact ⟨hw, hfa hl⟩
        next =>
          split
          next => exact ⟨hw, hfa hl⟩
          next =>
            have ha : Allowed ctx host cands (s.log ++ [.direct index s.now stop (.error err)])
                (.relayAttemptFailed cand.id (index + 1) err) := ⟨index, cand, rfl, hna, rfl, hb, hfe⟩
            refine attemptFronts_attempted hna ops.wss _ 0 err _
              ((hw.note rfl ha (by simp)).note rfl trivial nofun) ((hcl.snoc id).snoc id) ?_ (by simp) ?_
            · rw [frontIndices_snoc (by simp), frontIndices_snoc (by simp), frontIndices_snoc (by simp)]
              exact hwa.fronts index le_rfl
            · exact ⟨s.now, stop, err, by simp, ht⟩

/-! ### The whole ladder -/

/-- What a ladder leaves: its log is explained, and its result is the success in it if there is one. -/
def Ended (ctx : Context) (host : Host) (cands : List RelayDescriptor) (s : LadderState) (outcome : Outcome) : Prop :=
  Explained (Allowed ctx host cands) s.log ∧
    match outcome with
    | .ok result => Finished ctx s.log result
    | .error _ => NoSuccess s.log

theorem runLadderFrom_ended (ops : Nat → CandidateOps) (rest : List RelayDescriptor) (index : Nat)
    (hlf : cands.drop index = rest) (lastErr : Option CandidateError) (s : LadderState)
    (hwa : Walked ctx host cands s.log index) (hc : Calm ctx s.log) :
    Ended ctx host cands (runLadderFrom ctx host endpoints ops index rest lastErr s).2
      (runLadderFrom ctx host endpoints ops index rest lastErr s).1 := by
  induction rest generalizing index lastErr s with
  | nil => exact ⟨hwa.explained, hc.noSuccess⟩
  | cons cand rest ih =>
    have hna : cands[index]? = some cand := by
      rw [← List.head?_drop, hlf]
      rfl
    have hle : cands.drop (index + 1) = rest := by
      rw [← List.tail_drop, hlf]
      rfl
    simp only [runLadderFrom]
    split
    next => exact ⟨hwa.explained, hc.noSuccess⟩
    next =>
      have hat := @attemptCandidate_attempted ctx host endpoints cands index cand hna (ops index)
        { s with now := s.now + 1 } hwa hc
      revert hat
      generalize attemptCandidate ctx host endpoints cand (ops index) index { s with now := s.now + 1 } = tried
      obtain ⟨outcome, s'⟩ := tried
      rintro ⟨hw, hat⟩
      cases outcome with
      | ok result => exact ⟨hw.explained, hat⟩
      | error err =>
        obtain ⟨hn, hcs⟩ := hat
        dsimp only
        split
        next => exact ⟨hw.explained, hn⟩
        next hl =>
          split
          next => exact ⟨hw.explained, hn⟩
          next hr =>
            obtain ⟨hcl, hbl⟩ := (hcs.resolve_left hl).resolve_left hr
            split
            next => exact ih (index + 1) hle _ _ hw hcl
            next hu =>
              obtain ⟨hb, hfr⟩ := hbl.resolve_left hu
              have ha : Allowed ctx host cands s'.log (.relayAttemptFailed cand.id (index + 1) err) :=
                ⟨index, cand, rfl, hna, rfl, hb, hfr⟩
              exact ih (index + 1) hle _ _ (hw.note rfl ha (by simp)) (hcl.snoc id)

theorem runLadder_ended (ops : Nat → CandidateOps) (cands : List RelayDescriptor) (now : Nat) :
    Ended ctx host cands (runLadder ctx host endpoints ops cands now).2 (runLadder ctx host endpoints ops cands now).1 :=
  runLadderFrom_ended ops cands 0 rfl none _ ⟨.nil, rfl, fun _ _ => rfl, by simp⟩ (by simp [Calm])

theorem direct_unique (he : Explained (Allowed ctx host cands) log) {start stop start' stop' : Nat}
    {outcome outcome' : Outcome} (mem : .direct index start stop outcome ∈ log)
    (hme : .direct index start' stop' outcome' ∈ log) :
    LadderEvent.direct index start stop outcome = .direct index start' stop' outcome' := by
  have hon {before : List LadderEvent} (hdi : directIndices before = List.range index) {start stop : Nat}
      {outcome : Outcome} : .direct index start stop outcome ∉ before := by
    intro mem
    have : index ∈ directIndices before := List.mem_filterMap.mpr ⟨_, mem, rfl⟩
    rw [hdi, List.mem_range] at this
    exact absurd this (lt_irrefl _)
  exact he.eq_of_mem mem hme (fun before ha => hon ha.1) fun before ha => hon ha.1

theorem nothing_after (he : Explained (Allowed ctx host cands) log) {before after : List LadderEvent}
    (eq : log = before ++ event :: after) (hso : event.Stops ctx) : ∀ later ∈ after, later.outcome? = none := by
  intro later mem
  obtain ⟨between, rest, rfl⟩ := List.append_of_mem mem
  have ha := he (before ++ event :: between) later rest (by simpa using eq)
  have hot : ¬Calm ctx (before ++ event :: between) := fun hc => hc event (by simp) hso
  cases later with
  | direct i start stop outcome => exact absurd ha.2.2 hot
  | wss i front start stop outcome => exact absurd ha.2.2.1 hot
  | _ => rfl

end OpenRung.Ladder
