import OpenRung.Telemetry.Manager
import OpenRung.Theorems.Sendable

/-! Which requests the client builds that it then refuses itself. What comes from the store always passes. The queue
    in memory is cut by number only, or leaves no room for the heartbeat, so there the sizes decide. -/

namespace OpenRung.Telemetry
variable {codec : EventCodec}

/-! ### The local checks -/

/-- The bytes around the events of a body, less the separator that the last event does not need. -/
def envelopeBytes : Int := 12

theorem intercalate_length (sep : UInt8) (line : Bytes) (lines : List Bytes) :
    ([sep].intercalate (line :: lines)).length = line.length + (lines.map fun l => l.length + 1).sum := by
  induction lines generalizing line with
  | nil => simp
  | cons next lines ih =>
    rw [List.intercalate_cons_cons, List.length_append, List.length_append, ih]
    simp only [List.length_singleton, List.map_cons, List.sum_cons]
    omega

theorem marshals_of_mapM {events : List Event} {lines : List Bytes} (all : events.mapM codec.marshal = some lines) :
    ∀ e ∈ events, (codec.marshal e).isSome := by
  induction events generalizing lines with
  | nil => simp
  | cons first rest ih =>
    rw [List.mapM_cons] at all
    obtain ⟨line, hh, hot⟩ := Option.bind_eq_some_iff.mp all
    obtain ⟨lines', ht, -⟩ := Option.bind_eq_some_iff.mp hot
    rintro e (_ | ⟨_, hla⟩)
    · rw [hh]
      rfl
    · exact ih ht e hla

theorem batchBytes_cons (codec : EventCodec) (e : Event) (events : List Event) :
    batchBytes codec (e :: events) = eventBytes codec e + batchBytes codec events := by
  simp [batchBytes]

theorem mapM_marshal {events : List Event} (hm : ∀ e ∈ events, (codec.marshal e).isSome) :
    ∃ lines, events.mapM codec.marshal = some lines ∧
      (((lines.map fun l => l.length + 1).sum : Nat) : Int) = batchBytes codec events := by
  induction events with
  | nil => exact ⟨[], rfl, rfl⟩
  | cons first rest ih =>
    obtain ⟨lines, all, hsi⟩ := ih fun e mem => hm e (List.mem_cons_of_mem _ mem)
    obtain ⟨line, hh⟩ := Option.isSome_iff_exists.mp (hm first List.mem_cons_self)
    refine ⟨line :: lines, ?_, ?_⟩
    · rw [List.mapM_cons, hh, all]
      rfl
    · rw [batchBytes_cons, eventBytes_of_marshal hh, ← hsi]
      simp

theorem telemetryBody_length {events : List Event} (hso : events ≠ []) (hm : ∀ e ∈ events, (codec.marshal e).isSome) :
    ∃ body, telemetryBody codec events = .some body ∧ (body.length : Int) = batchBytes codec events + envelopeBytes := by
  obtain ⟨lines, all, hsi⟩ := mapM_marshal hm
  obtain ⟨first, rest, rfl⟩ := List.exists_cons_of_ne_nil hso
  cases lines with
  | nil => exact absurd hsi (Int.ne_of_lt (batchBytes_pos codec hso))
  | cons line lines =>
    refine ⟨_, by rw [telemetryBody, all]; rfl, ?_⟩
    rw [List.length_append, List.length_append, intercalate_length, ← hsi]
    have ho : (ascii "\x7b\"events\":[").length = 11 := by decide
    have hcl : (ascii "]\x7d").length = 2 := by decide
    simp only [List.map_cons, List.sum_cons, ho, hcl, envelopeBytes]
    omega

theorem telemetryBody_marshals {events : List Event} {body : Bytes} (he : telemetryBody codec events = some body) :
    ∀ e ∈ events, (codec.marshal e).isSome := by
  obtain ⟨lines, all, -⟩ := Option.map_eq_some_iff.mp he
  exact marshals_of_mapM all

theorem check_iff {first : Event} {rest : List Event} : sendTelemetryCheck codec (first :: rest) = .ok () ↔
    (first :: rest).length ≤ maxTelemetryEvents ∧ (∀ e ∈ rest, SameIdentity e first) ∧
      (∀ e ∈ first :: rest, (codec.marshal e).isSome) ∧
      batchBytes codec (first :: rest) + envelopeBytes ≤ maxTelemetryBodyBytes := by
  have hmi : (rest.any fun e => e.clientID ≠ first.clientID ∨ e.sessionID ≠ first.sessionID) = true ↔
      ¬∀ e ∈ rest, SameIdentity e first := by
    simp only [List.any_eq_true, decide_eq_true_eq, SameIdentity, not_forall, not_and_or, exists_prop, ne_eq]
  simp only [sendTelemetryCheck, hmi]
  by_cases hc : (first :: rest).length ≤ maxTelemetryEvents
  · rw [if_neg (Nat.not_lt.mpr hc)]
    by_cases hsa : ∀ e ∈ rest, SameIdentity e first
    · rw [if_neg (not_not.mpr hsa)]
      by_cases hm : ∀ e ∈ first :: rest, (codec.marshal e).isSome
      · obtain ⟨body, he, hsi⟩ := telemetryBody_length (List.cons_ne_nil first rest) hm
        rw [he, ← hsi]
        by_cases hs : (body.length : Int) ≤ maxTelemetryBodyBytes
        · simp only [if_neg (Int.not_lt.mpr hs), true_iff]
          exact ⟨hc, hsa, hm, hs⟩
        · simp only [if_pos (Int.not_le.mp hs), reduceCtorEq, false_iff]
          exact fun hp => hs hp.2.2.2
      · cases he : telemetryBody codec (first :: rest) with
        | none =>
          simp only [reduceCtorEq, false_iff]
          exact fun hp => hm hp.2.2.1
        | some body => exact absurd (telemetryBody_marshals he) hm
    · rw [if_pos hsa]
      simp only [reduceCtorEq, false_iff]
      exact fun hp => hsa hp.2.1
  · rw [if_pos (Nat.not_le.mp hc)]
    simp only [reduceCtorEq, false_iff]
    exact fun hp => hc hp.1

theorem passes_iff {events : List Event} : sendTelemetryCheck codec events = .ok () ↔
    events.length ≤ maxTelemetryEvents ∧ (∀ e ∈ events, ∀ e' ∈ events, SameIdentity e e') ∧
      (∀ e ∈ events, (codec.marshal e).isSome) ∧ batchBytes codec events + envelopeBytes ≤ maxTelemetryBodyBytes := by
  cases events with
  | nil =>
    have hno : sendTelemetryCheck codec [] = .ok () := rfl
    have hs : batchBytes codec [] + envelopeBytes ≤ maxTelemetryBodyBytes :=
      show (0 : Int) + envelopeBytes ≤ maxTelemetryBodyBytes by decide
    simp [hno, hs]
  | cons first rest =>
    have hi : (∀ e ∈ rest, SameIdentity e first) ↔ ∀ e ∈ first :: rest, ∀ e' ∈ first :: rest, SameIdentity e e' := by
      constructor
      · intro hsa e mem e' hme
        have all : ∀ e ∈ first :: rest, SameIdentity e first := List.forall_mem_cons.mpr ⟨⟨rfl, rfl⟩, hsa⟩
        exact (all e mem).through (all e' hme)
      · exact fun hsa e mem => hsa e (List.mem_cons_of_mem _ mem) first List.mem_cons_self
    rw [check_iff, hi]

/-! ### Requests -/

theorem Selects.one {events batch oversized : List Event} {limit byteBudget : Int} {e e' : Event}
    (hse : Selects codec events limit byteBudget batch oversized) (mem : e ∈ batch) (hme : e' ∈ batch) :
    SameIdentity e e' := by
  have hl := hse.sublist.subset mem
  have hle := hse.sublist.subset hme
  cases events with
  | nil => cases hl
  | cons first rest => exact (sameIdentity_leadingRun hl).through (sameIdentity_leadingRun hle)

theorem Selects.passes {events batch oversized : List Event} {limit byteBudget : Int}
    (hse : Selects codec events limit byteBudget batch oversized) (hc : limit ≤ maxTelemetryEvents)
    (hsi : byteBudget + envelopeBytes ≤ maxTelemetryBodyBytes) : sendTelemetryCheck codec batch = .ok () := by
  by_cases hn : batch = []
  · rw [hn]
    rfl
  have few := hse.count.resolve_left hn
  have hs := hse.bytes.resolve_left hn
  exact passes_iff.mpr ⟨by omega, fun e mem e' hme => hse.one mem hme, hse.marshals, by omega⟩

theorem passes_beside_iff {batch : List Event} {beat : Event} (hf : sendTelemetryCheck codec [beat] = .ok ())
    (hm : ∀ e ∈ batch, (codec.marshal e).isSome) (hc : batch.length + 1 ≤ maxTelemetryEvents) :
    sendTelemetryCheck codec (batch ++ [beat]) = .ok () ↔ (∀ e ∈ batch, SameIdentity e beat) ∧
      batchBytes codec batch + eventBytes codec beat + envelopeBytes ≤ maxTelemetryBodyBytes := by
  rw [passes_iff, batchBytes_concat]
  have hen : ∀ e ∈ batch ++ [beat], (codec.marshal e).isSome := by
    intro e mem
    rcases List.mem_append.mp mem with hr | own
    · exact hm e hr
    · exact (passes_iff.mp hf).2.2.1 e own
  constructor
  · rintro ⟨-, hsa, -, hs⟩
    exact ⟨fun e mem => hsa e (List.mem_append_left _ mem) beat (List.mem_append_right _ (List.mem_singleton_self _)), hs⟩
  · rintro ⟨hsa, hs⟩
    have all : ∀ e ∈ batch ++ [beat], SameIdentity e beat := by
      intro e mem
      rcases List.mem_append.mp mem with hr | own
      · exact hsa e hr
      · rw [List.mem_singleton.mp own]
        exact ⟨rfl, rfl⟩
    exact ⟨by simpa using hc, fun e mem e' hme => (all e mem).through (all e' hme), hen, hs⟩

namespace Manager

inductive Hands (codec : EventCodec) (m : Manager) (beat : Event) : List Event → Prop
  | flush : Hands codec m beat (m.snapshotLocked codec uploadBatchSize).1
  | heartbeat : Hands codec m beat ((m.snapshotLocked codec (uploadBatchSize - 1)).1 ++ [beat])
  | flushNextBatch {h : OutboxHost} (store : m.store = some h) :
    Hands codec m beat (UploadKind.flush.choose codec h.outbox.events).1
  | sendHeartbeat {h : OutboxHost} {sent : Event} (store : m.store = some h) (valid : validateOutboxEvent beat = some sent) :
    Hands codec m beat (((UploadKind.heartbeat sent).choose codec h.outbox.events).1 ++ [sent])

def riding (codec : EventCodec) (m : Manager) : List Event :=
  if m.hostIdentity then (outboxUploadBatch codec m.outbox (uploadBatchSize - 1) outboxBatchByteBudget).1
  else m.outbox.take (uploadBatchSize - 1)

/-- A queue in memory whose leading events fit one request, alone and with the heartbeat of their session. -/
structure Room (codec : EventCodec) (m : Manager) (beat : Event) : Prop where
  flush : m.hostIdentity = false →
    batchBytes codec (m.outbox.take uploadBatchSize) + envelopeBytes ≤ maxTelemetryBodyBytes
  session : ∀ e ∈ m.riding codec, SameIdentity e beat
  beat : batchBytes codec (m.riding codec) + eventBytes codec beat + envelopeBytes ≤ maxTelemetryBodyBytes

variable {m : Manager} {beat : Event}

theorem store_passes (events : List Event) (hf : sendTelemetryCheck codec [beat] = .ok ()) :
    sendTelemetryCheck codec (UploadKind.flush.choose codec events).1 = .ok () ∧
      sendTelemetryCheck codec (((UploadKind.heartbeat beat).choose codec events).1 ++ [beat]) = .ok () := by
  constructor
  · exact (outboxUploadBatch_spec codec events outboxBatchSize outboxBatchByteBudget).passes (by decide) (by decide)
  · rcases UploadKind.choose_spec codec (.heartbeat beat) events with hn | ⟨hca, hsp⟩
    · rw [hn]
      exact hf
    generalize ((UploadKind.heartbeat beat).choose codec events).1 = batch at hsp
    by_cases hn : batch = []
    · rw [hn]
      exact hf
    have few := hsp.count.resolve_left hn
    have hs := hsp.bytes.resolve_left hn
    rw [UploadKind.budget_heartbeat ((passes_iff.mp hf).2.2.1 beat (List.mem_singleton_self _))] at hs
    have hsl : outboxBatchByteBudget + envelopeBytes ≤ maxTelemetryBodyBytes := by decide
    simp only [UploadKind.limit, outboxBatchSize] at few
    refine (passes_beside_iff hf hsp.marshals ?_).mpr ⟨fun e mem => hca e (hsp.sublist.subset mem), by omega⟩
    have hmo : maxTelemetryEvents = 200 := rfl
    omega

theorem snapshotLocked_riding (codec : EventCodec) (m : Manager) :
    (m.snapshotLocked codec (uploadBatchSize - 1)).1 = m.riding codec := by
  unfold snapshotLocked riding
  split <;> rfl

theorem riding_marshals (ha : ∀ e ∈ m.outbox, sendTelemetryCheck codec [e] = .ok ()) :
    ∀ e ∈ m.riding codec, (codec.marshal e).isSome := by
  unfold riding
  split
  · exact (outboxUploadBatch_spec codec m.outbox _ outboxBatchByteBudget).marshals
  · intro e mem
    exact (passes_iff.mp (ha e (List.mem_of_mem_take mem))).2.2.1 e (List.mem_singleton_self _)

theorem riding_count (codec : EventCodec) (m : Manager) : (m.riding codec).length + 1 ≤ maxTelemetryEvents := by
  have hmo : maxTelemetryEvents = 200 ∧ uploadBatchSize = 200 := ⟨rfl, rfl⟩
  unfold riding
  split
  · rcases (outboxUploadBatch_spec codec m.outbox (uploadBatchSize - 1) outboxBatchByteBudget).count with hn | few
    · rw [hn]
      decide
    · omega
  · rw [List.length_take]
    omega

theorem flush_passes_iff (one : ∀ e ∈ m.outbox, ∀ e' ∈ m.outbox, SameIdentity e e')
    (ha : ∀ e ∈ m.outbox, sendTelemetryCheck codec [e] = .ok ()) :
    sendTelemetryCheck codec (m.snapshotLocked codec uploadBatchSize).1 = .ok () ↔
      (m.hostIdentity = false →
        batchBytes codec (m.outbox.take uploadBatchSize) + envelopeBytes ≤ maxTelemetryBodyBytes) := by
  unfold snapshotLocked
  split
  next hho =>
    have hp := (outboxUploadBatch_spec codec m.outbox uploadBatchSize outboxBatchByteBudget).passes (by decide) (by decide)
    simp [hho, hp]
  next hho =>
    rw [passes_iff]
    constructor
    · exact fun hp _ => hp.2.2.2
    · intro hs
      refine ⟨?_, ?_, ?_, hs (Bool.eq_false_iff.mpr hho)⟩
      · exact List.length_take_le _ _
      · exact fun e mem e' hme => one e (List.mem_of_mem_take mem) e' (List.mem_of_mem_take hme)
      · exact fun e mem => (passes_iff.mp (ha e (List.mem_of_mem_take mem))).2.2.1 e (List.mem_singleton_self _)

theorem heartbeat_passes_iff (ha : ∀ e ∈ m.outbox, sendTelemetryCheck codec [e] = .ok ())
    (hf : sendTelemetryCheck codec [beat] = .ok ()) :
    sendTelemetryCheck codec ((m.snapshotLocked codec (uploadBatchSize - 1)).1 ++ [beat]) = .ok () ↔
      (∀ e ∈ m.riding codec, SameIdentity e beat) ∧
        batchBytes codec (m.riding codec) + eventBytes codec beat + envelopeBytes ≤ maxTelemetryBodyBytes := by
  rw [snapshotLocked_riding]
  exact passes_beside_iff hf (riding_marshals ha) (riding_count codec m)

end Manager

end OpenRung.Telemetry
