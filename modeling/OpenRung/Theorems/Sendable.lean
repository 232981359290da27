import OpenRung.Theorems.UploadBatch

/-! Which events an upload discards. A heartbeat takes its own size off the budget before it classifies the queue, and
    a discard removes by event id, so an event that a flush could send may go. -/

namespace OpenRung.Telemetry
variable {codec : EventCodec}

def Fits (codec : EventCodec) (byteBudget : Int) (e : Event) : Prop :=
  (codec.marshal e).isSome ∧ eventBytes codec e ≤ byteBudget

def Sendable (codec : EventCodec) (e : Event) : Prop := Fits codec outboxBatchByteBudget e

namespace UploadKind

def budget (codec : EventCodec) : UploadKind → Int
  | .flush => outboxBatchByteBudget
  | .heartbeat beat => match codec.marshal beat with
    | some line => outboxBatchByteBudget - (line.length + 1)
    | none => outboxBatchByteBudget

theorem budget_heartbeat {beat : Event} (hm : (codec.marshal beat).isSome) :
    (UploadKind.heartbeat beat).budget codec = outboxBatchByteBudget - eventBytes codec beat := by
  obtain ⟨line, hm⟩ := Option.isSome_iff_exists.mp hm
  rw [eventBytes_of_marshal hm, budget, hm]

def Carries : UploadKind → Event → Prop
  | .flush, _ => True
  | .heartbeat beat, e => SameIdentity e beat

def limit : UploadKind → Int
  | .flush => outboxBatchSize
  | .heartbeat _ => outboxBatchSize - 1

theorem choose_spec (codec : EventCodec) (kind : UploadKind) (events : List Event) : kind.choose codec events = ([], []) ∨
    (∀ e ∈ leadingRun events, kind.Carries e) ∧ Selects codec events kind.limit (kind.budget codec)
      (kind.choose codec events).1 (kind.choose codec events).2 := by
  cases kind with
  | flush => exact .inr ⟨fun _ _ => trivial, outboxUploadBatch_spec _ _ _ _⟩
  | heartbeat beat =>
    cases events with
    | nil => exact .inl rfl
    | cons first rest =>
      by_cases hsa : first.clientID = beat.clientID ∧ first.sessionID = beat.sessionID
      · have hc : (UploadKind.heartbeat beat).choose codec (first :: rest) =
            outboxUploadBatch codec (first :: rest) (outboxBatchSize - 1) ((UploadKind.heartbeat beat).budget codec) :=
          if_pos hsa
        refine .inr ⟨fun e hle => ?_, hc ▸ outboxUploadBatch_spec _ _ _ _⟩
        have hi := sameIdentity_leadingRun hle
        exact ⟨hi.1.trans hsa.1, hi.2.trans hsa.2⟩
      · exact .inl (if_neg hsa)

theorem choose_oversized {kind : UploadKind} {events : List Event} {o : Event} (mem : o ∈ (kind.choose codec events).2) :
    o ∈ leadingRun events ∧ kind.Carries o ∧ ¬Fits codec (kind.budget codec) o := by
  rcases choose_spec codec kind events with hn | ⟨hca, hsp⟩
  · rw [hn] at mem
    cases mem
  obtain ⟨decided, hp, -, ho, -⟩ := hsp.decisions
  have hle : o ∈ leadingRun events := hp.subset ((withVerdict_sublist _ _).subset (ho ▸ mem))
  refine ⟨hle, hca o hle, ?_⟩
  rintro ⟨hm, hsm⟩
  rcases hsp.alone o mem with hn | hl
  · rw [hn] at hm
    cases hm
  · exact absurd hsm (Int.not_le.mpr hl)

end UploadKind

namespace Uploads
variable {w w' : Uploads} {label : Label}

def Label.starts : Label → Option UploadKind
  | .flush => some .flush
  | .heartbeat event => (validateOutboxEvent event).map .heartbeat
  | _ => none

/-- A queued event that some request can carry shares its id, with itself or another, only with events that fit the
    budget of the upload. -/
def Roomy (codec : EventCodec) (w : Uploads) (kind : UploadKind) : Prop :=
  ∀ o ∈ leadingRun (w.queue codec), kind.Carries o → ∀ e ∈ w.queue codec, e.eventID = o.eventID → Sendable codec e →
    Fits codec (kind.budget codec) o

structure RoomyStep (codec : EventCodec) (w : Uploads) (label : Label) (w' : Uploads) : Prop where
  step : Step codec w label w'
  part : ∀ op, label ≠ .call op
  roomy : ∀ kind, label.starts = some kind → Roomy codec w kind

structure Sparing (codec : EventCodec) (w : Uploads) : Prop where
  underway : Underway codec w
  spared : ∀ kind batch oversized, .discarding kind batch oversized ∈ w.flights →
    ∀ o ∈ oversized, ∀ e ∈ w.queue codec, e.eventID = o.eventID → ¬Sendable codec e

theorem mem_start {kind kind' : UploadKind} {batch oversized : List Event}
    (mem : .discarding kind' batch oversized ∈ (w.start codec kind).flights) :
    .discarding kind' batch oversized ∈ w.flights ∨ kind' = kind ∧ kind.choose codec (w.queue codec) = (batch, oversized) := by
  unfold start at mem
  split at mem
  · exact .inl mem
  obtain ⟨h₁, hlo, -, hme, -⟩ := OutboxHost.load_memory codec w.host
  have hqu : w.queue codec = h₁.outbox.events := congrArg CappedQueue.events hme
  simp only [hlo] at mem
  split at mem
  · rcases List.mem_cons.mp mem with new | old
    · cases new
      exact .inr ⟨rfl, by rw [hqu]⟩
    · exact .inl old
  · rcases mem_proceed mem with new | old
    · cases new
    · exact .inl old

theorem mem_step {kind : UploadKind} {batch oversized : List Event} (hst : Step codec w label w')
    (mem : .discarding kind batch oversized ∈ w'.flights) : .discarding kind batch oversized ∈ w.flights ∨
      label.starts = some kind ∧ kind.choose codec (w.queue codec) = (batch, oversized) := by
  cases hst with
  | call op own => exact .inl mem
  | flush =>
    rcases mem_start mem with old | ⟨rfl, hc⟩
    · exact .inl old
    · exact .inr ⟨rfl, hc⟩
  | heartbeat event =>
    unfold sendHeartbeat at mem
    split at mem
    next => exact .inl mem
    next beat hv =>
      rcases mem_start mem with old | ⟨rfl, hc⟩
      · exact .inl old
      · exact .inr ⟨by rw [Label.starts, hv]; rfl, hc⟩
  | discard hf =>
    rcases mem_proceed mem with new | old
    · cases new
    · exact .inl ((mem_flying hf).2 _ old)
  | @finish before after kind' batch' pending hf result =>
    rw [finish_flights] at mem
    exact .inl ((mem_flying hf).2 _ mem)

theorem queue_shrinks (hu : Underway codec w) (hst : Step codec w label w') (hp : ∀ op, label ≠ .call op) :
    w'.queue codec ⊆ w.queue codec := by
  have hme : w'.queue codec = ((w.host.memory codec).apply label.op).events :=
    congrArg CappedQueue.events (upload_memory hu hst hp)
  have hr : label.op = .touch ∨ ∃ sent, label.op = .removeSent sent := by
    rcases label with op | _ | _ | oversized | ⟨kind, batch, result⟩
    · exact absurd rfl (hp op)
    · exact .inl rfl
    · exact .inl rfl
    · exact .inr ⟨_, rfl⟩
    · cases kind <;> cases result <;> simp [Label.op]
  rw [hme]
  rcases hr with ht | ⟨sent, hre⟩
  · rw [ht, apply_touch]
    exact List.Subset.refl _
  · rw [hre]
    unfold CappedQueue.apply
    split
    · exact List.Subset.refl _
    · exact List.filter_sublist.subset

theorem Sparing.step (hs : Sparing codec w) (hst : RoomyStep codec w label w') : Sparing codec w' := by
  refine ⟨(step_moved hs.underway hst.step).underway, ?_⟩
  intro kind batch oversized mem o ha e hq hsa hse
  have hb := queue_shrinks hs.underway hst.step hst.part hq
  rcases mem_step hst.step mem with old | ⟨hsr, hc⟩
  · exact hs.spared kind batch oversized old o ha e hb hsa hse
  · have has : o ∈ (kind.choose codec (w.queue codec)).2 := by
      rw [hc]
      exact ha
    obtain ⟨hle, hca, hl⟩ := UploadKind.choose_oversized has
    exact hl (hst.roomy kind hsr o hle hca e hb hsa hse)

/-- In a run of uploads that each start on a roomy queue, what a discard removes fits no request. -/
theorem discards_only_unsendable (codec : EventCodec) (h : OutboxHost) (labels : List Label) (oversized : List Event)
    (w w' : Uploads) (run : Trace (RoomyStep codec) { host := h } labels w) (step : Step codec w (.discard oversized) w') :
    ∀ e ∈ w.queue codec, e ∉ w'.queue codec → ¬Sendable codec e := by
  have hsta : Sparing codec { host := h } := ⟨⟨by simp, by simp⟩, by simp⟩
  have hs : Sparing codec w := run.invariant (fun _ _ _ hs step => hs.step step) hsta
  intro e hq hg
  have hme : w'.queue codec = ((w.host.memory codec).apply (.removeSent oversized)).events :=
    congrArg CappedQueue.events (upload_memory hs.underway step nofun)
  have id : ∃ o ∈ oversized, o.eventID = e.eventID := by
    by_contra hk
    refine hg ?_
    rw [hme]
    unfold CappedQueue.apply
    split
    · exact hq
    · refine List.mem_filter.mpr ⟨hq, ?_⟩
      simpa using hk
  obtain ⟨o, ha, hsa⟩ := id
  cases step with
  | discard hf => exact hs.spared _ _ _ (mem_flying hf).1 o ha e hq hsa.symm

def oneQueued (e : Event) : OutboxHost := { outbox := { locked := true, loaded := true, events := [e] }, disk := .recover [] }

open OutboxHost (twoEvents sessionStart) in
theorem discards_only_unsendable_unencodable : ∃ w w' : Uploads,
    Trace (RoomyStep twoEvents) { host := oneQueued (sessionStart "e3") } [.flush] w ∧
      Step twoEvents w (.discard [sessionStart "e3"]) w' ∧ sessionStart "e3" ∈ w.queue twoEvents ∧
      sessionStart "e3" ∉ w'.queue twoEvents ∧ ¬Sendable twoEvents (sessionStart "e3") := by
  let w := flushNextBatch twoEvents { host := oneQueued (sessionStart "e3") }
  have hro : Roomy twoEvents { host := oneQueued (sessionStart "e3") } .flush := by
    intro o _ _ e hq _ hse
    have hon : e = sessionStart "e3" := List.mem_singleton.mp hq
    subst hon
    exact absurd hse.1 (by decide +kernel)
  have run : Trace (RoomyStep twoEvents) { host := oneQueued (sessionStart "e3") } [.flush] w :=
    .single ⟨.flush, nofun, fun kind hsr => Option.some.inj hsr ▸ hro⟩
  have hf : w.flights = [] ++ Upload.discarding .flush [] [sessionStart "e3"] :: [] := by decide +kernel
  have hst : Step twoEvents w (.discard [sessionStart "e3"]) _ := .discard hf
  have hq : sessionStart "e3" ∈ w.queue twoEvents := by decide +kernel
  refine ⟨w, _, run, hst, hq, by decide +kernel, ?_⟩
  exact discards_only_unsendable twoEvents _ [.flush] _ w _ run hst _ hq (by decide +kernel)

end Uploads

/-! ### A heartbeat and an event that fit one request each -/

def paddedCodec (known : List Event) (base : Nat) : EventCodec where
  marshal e := if e ∈ known then some (.replicate (base + 1 + known.idxOf e) 65) else none
  unmarshal line := known[line.length - (base + 1)]?
  probe _ := none
  elements _ := []
  blank line := line = []
  unmarshal_marshal e line marshalled := by
    obtain ⟨mem, ⟨⟩⟩ := Option.ite_none_right_eq_some.mp marshalled
    simp [mem]
  one_line e line marshalled := by
    obtain ⟨-, ⟨⟩⟩ := Option.ite_none_right_eq_some.mp marshalled
    simp
  not_blank e line marshalled := by
    obtain ⟨-, ⟨⟩⟩ := Option.ite_none_right_eq_some.mp marshalled
    simp
  no_array e line marshalled := by
    obtain ⟨-, ⟨⟩⟩ := Option.ite_none_right_eq_some.mp marshalled
    simp [List.head?_replicate]
  blank_nil := rfl

theorem paddedCodec_bytes {known : List Event} {e : Event} (base : Nat) (mem : e ∈ known) :
    ((paddedCodec known base).marshal e).isSome ∧ eventBytes (paddedCodec known base) e = base + 2 + known.idxOf e := by
  have hm : (paddedCodec known base).marshal e = some (.replicate (base + 1 + known.idxOf e) 65) := if_pos mem
  refine ⟨by rw [hm]; rfl, ?_⟩
  rw [eventBytes_of_marshal hm, List.length_replicate]
  omega

theorem choose_beside {e beat : Event} (hsa : SameIdentity e beat)
    (hl : (UploadKind.heartbeat beat).budget codec < eventBytes codec e) :
    (UploadKind.heartbeat beat).choose codec [e] = ([], [e]) := by
  have hal (budget : Int) (hl : budget < eventBytes codec e) :
      outboxUploadBatch codec [e] (outboxBatchSize - 1) budget = ([], [e]) := by
    unfold eventBytes at hl
    cases hm : codec.marshal e with
    | none => simp [outboxUploadBatch, selectEvents, hm, outboxBatchSize]
    | some line =>
      rw [hm, Option.getD_some] at hl
      simp [outboxUploadBatch, selectEvents, hm, outboxBatchSize, hl]
  exact (if_pos hsa).trans (hal _ hl)

namespace Uploads

theorem discards_beside {e beat : Event} (hv : validateOutboxEvent beat = some beat) (hsa : SameIdentity e beat)
    (hl : (UploadKind.heartbeat beat).budget codec < eventBytes codec e) :
    ∃ w w' : Uploads, Trace (Step codec) { host := oneQueued e } [.heartbeat beat] w ∧ Step codec w (.discard [e]) w' ∧
      e ∈ w.queue codec ∧ e ∉ w'.queue codec := by
  have hsd : sendHeartbeat codec beat { host := oneQueued e } =
      { host := oneQueued e, flights := [.discarding (.heartbeat beat) [] [e]] } := by
    simp [sendHeartbeat, hv, start, oneQueued, OutboxHost.loadLocked, choose_beside hsa hl]
  have run : Trace (Step codec) { host := oneQueued e } [.heartbeat beat]
      { host := oneQueued e, flights := [.discarding (.heartbeat beat) [] [e]] } := .single (hsd ▸ .heartbeat beat)
  have hf : ({ host := oneQueued e, flights := [.discarding (.heartbeat beat) [] [e]] } : Uploads).flights =
      [] ++ .discarding (.heartbeat beat) [] [e] :: [] := rfl
  refine ⟨_, _, run, .discard hf, List.mem_singleton_self e, ?_⟩
  simp [queue, discard, proceed_host, oneQueued, OutboxHost.removeSent, OutboxHost.rewriteLocked, OutboxHost.memory]

def largeBeat : Event := { eventID := "h1", event := "session_heartbeat", clientID := "c", sessionID := "s" }

open OutboxHost (sessionStart) in
/-- Of an event and a heartbeat that fill more than half a request each, the event is discarded. -/
theorem heartbeat_discards_sendable :
    let codec := paddedCodec [sessionStart "e1", largeBeat] 300000
    ∃ w w' : Uploads, Trace (Step codec) { host := oneQueued (sessionStart "e1") } [.heartbeat largeBeat] w ∧
      Step codec w (.discard [sessionStart "e1"]) w' ∧ sessionStart "e1" ∈ w.queue codec ∧
      sessionStart "e1" ∉ w'.queue codec ∧ Sendable codec (sessionStart "e1") := by
  intro codec
  have he : (codec.marshal (sessionStart "e1")).isSome ∧ eventBytes codec (sessionStart "e1") = 300002 :=
    paddedCodec_bytes 300000 (by decide)
  have hbe : (codec.marshal largeBeat).isSome ∧ eventBytes codec largeBeat = 300003 := paddedCodec_bytes 300000 (by decide)
  have hbu := UploadKind.budget_heartbeat hbe.1
  have hl : (UploadKind.heartbeat largeBeat).budget codec < eventBytes codec (sessionStart "e1") := by
    rw [hbu, hbe.2, he.2]
    decide
  obtain ⟨w, w', run, hst, hq, hg⟩ := discards_beside (by decide) (by decide) hl
  exact ⟨w, w', run, hst, hq, hg, he.1, by rw [he.2]; decide⟩

end Uploads

end OpenRung.Telemetry
