import OpenRung.Telemetry.OutboxUpload
import OpenRung.Theorems.OutboxCrash

/-! Every event that leaves the queue of an outbox leaves it for a reason. In memory each step is one of the capped
    queue (`Uploads.step_memory`); an event that an upload under way holds is, as long as its id is queued, an earlier
    version of the queued event, since ids are distinct. -/

namespace OpenRung.Telemetry

variable {codec : EventCodec}

/-! ### The choice of a batch -/

def Selection.Within (events : List Event) (s : Selection) : Prop := ∀ e, e ∈ s.batch ∨ e ∈ s.oversized → e ∈ events

theorem Selection.Within.batch {all : List Event} {s : Selection} (hw : s.Within all) {event : Event}
    (mem : event ∈ all) {s' : Selection} (hba : s'.batch = s.batch ++ [event]) (hov : s'.oversized = s.oversized) :
    s'.Within all := by
  intro e hse
  rw [hba, hov, List.mem_append, List.mem_singleton] at hse
  rcases hse with (old | rfl) | old
  · exact hw e (.inl old)
  · exact mem
  · exact hw e (.inr old)

theorem Selection.Within.oversized {all : List Event} {s : Selection} (hw : s.Within all) {event : Event}
    (mem : event ∈ all) : Selection.Within all { s with oversized := s.oversized ++ [event] } := by
  intro e hse
  rw [List.mem_append, List.mem_singleton] at hse
  rcases hse with old | old | rfl
  · exact hw e (.inl old)
  · exact hw e (.inr old)
  · exact mem

theorem selectEvents_within (codec : EventCodec) (first : Event) (limit byteBudget : Int) {all events : List Event}
    {s : Selection} (hp : events ⊆ all) (hw : s.Within all) :
    (selectEvents codec first limit byteBudget events s).Within all := by
  fun_induction selectEvents codec first limit byteBudget events s with
  | case1 | case2 | case3 | case6 => exact hw
  | case4 s event rest _ _ _ ih | case5 s event rest _ _ _ _ _ _ ih =>
    rw [List.cons_subset] at hp
    exact ih hp.2 (hw.oversized hp.1)
  | case7 s event rest _ _ _ _ _ _ _ _ ih =>
    rw [List.cons_subset] at hp
    exact ih hp.2 (hw.batch hp.1 rfl rfl)
  | case8 s event rest _ _ _ _ _ _ _ _ _ ih => exact ih (List.subset_of_cons_subset hp) hw
  | case9 s event rest _ _ _ _ _ _ _ _ _ _ _ _ ih => exact ih (List.subset_of_cons_subset hp) hw
  | case10 s event rest _ _ _ _ _ _ _ _ _ _ _ _ ih =>
    rw [List.cons_subset] at hp
    exact ih hp.2 (hw.batch hp.1 rfl rfl)

theorem UploadKind.choose_mem (codec : EventCodec) (kind : UploadKind) (events : List Event) (e : Event)
    (mem : e ∈ (kind.choose codec events).1 ∨ e ∈ (kind.choose codec events).2) : e ∈ events := by
  have hba : ∀ limit budget, e ∈ (outboxUploadBatch codec events limit budget).1 ∨
      e ∈ (outboxUploadBatch codec events limit budget).2 → e ∈ events := by
    intro limit budget mem
    unfold outboxUploadBatch at mem
    split at mem
    · simp at mem
    · split at mem
      · simp at mem
      · exact selectEvents_within codec _ limit budget (List.Subset.refl _) (by simp [Selection.Within]) e mem
  unfold choose at mem
  split at mem
  · exact hba _ _ mem
  · split at mem
    · simp at mem
    · split at mem
      · exact hba _ _ mem
      · simp at mem

/-! ### The queue in memory -/

namespace OutboxHost
variable {h : OutboxHost}

theorem memory_loaded (hl : h.outbox.loaded = true) :
    h.memory codec = { events := h.outbox.events, closed := h.outbox.closed } := by
  simp [memory, hl]

theorem load_memory (codec : EventCodec) (h : OutboxHost) : ∃ h', h.loadLocked codec {} = (true, h') ∧
    h'.outbox.loaded = true ∧ h.memory codec = { events := h'.outbox.events, closed := h'.outbox.closed } ∧
      h'.outbox.closed = h.outbox.closed := by
  cases hl : h.outbox.loaded with
  | true => exact ⟨h, if_pos hl, hl, memory_loaded hl, rfl⟩
  | false => exact ⟨_, loadLocked_first codec hl, rfl, by simp [memory, hl], rfl⟩

theorem appendLocked_memory (codec : EventCodec) (events : List Event) (hl : h.outbox.loaded = true) :
    (h.appendLocked codec {} events).1 = true ∧ (h.appendLocked codec {} events).2.outbox.loaded = true ∧
      (h.appendLocked codec {} events).2.memory codec =
        { events := newest (h.outbox.events ++ events), closed := h.outbox.closed } := by
  unfold appendLocked
  generalize newest (h.outbox.events ++ events) = queued
  cases events.mapM codec.marshal with
  | none => simp [rewriteLocked, memory, hl]
  | some lines =>
    by_cases hfu : h.outbox.fileLines + events.length > outboxCompactThreshold
    · simp [hfu, rewriteLocked, memory, hl]
    · simp [hfu, memory, hl]

end OutboxHost

structure CappedQueue.Sound (q : CappedQueue) : Prop where
  accepted : Accepted q.events
  capped : newest q.events = q.events

namespace CappedQueue
open OutboxHost (Op)
variable {q : CappedQueue}

theorem accepted_appended (op : Op) : Accepted op.appended := by
  cases op with
  | enqueue event => exact fun e mem => validateOutboxEvent_idem (Option.mem_toList.mp mem)
  | enqueueBatch events => exact accepted_filterMap events
  | removeSent | applySessionAttributes | touch | close => simp [Op.appended, Accepted]

theorem Sound.apply (hs : q.Sound) (op : Op) : (q.apply op).Sound := by
  have ha : Sound { q with events := newest (q.events ++ op.appended) } := by
    have hac := (hs.accepted.append (accepted_appended op)).sublist (newest_sublist (q.events ++ op.appended))
    have hcp := newest_newest (q.events ++ op.appended)
    generalize newest (q.events ++ op.appended) = queued at hac hcp
    exact ⟨hac, hcp⟩
  unfold CappedQueue.apply
  split
  · exact hs
  split
  · exact ha
  · exact ha
  · exact ⟨hs.accepted.sublist List.filter_sublist, newest_of_sublist List.filter_sublist hs.capped⟩
  · exact ⟨OutboxHost.accepted_patched hs.accepted _ _, by rw [newest_map, hs.capped]⟩
  · exact ⟨hs.accepted, hs.capped⟩
  · exact ⟨hs.accepted, hs.capped⟩

theorem Sound.apply_none (hs : q.Sound) {op : Op} (hn : op.appended = [])
    (hap : q.closed = false → q.apply op = { q with events := newest (q.events ++ op.appended) }) : q.apply op = q := by
  cases hc : q.closed with
  | true => simp [CappedQueue.apply, hc]
  | false => rw [hap hc, hn, List.append_nil, hs.capped]

end CappedQueue

namespace OutboxHost
open CappedQueue (Sound)
variable {h : OutboxHost}

theorem memory_closed {op : Op} (hc : h.outbox.closed = true) (hsa : h.apply codec {} op = h) :
    (h.apply codec {} op).memory codec = (h.memory codec).apply op := by
  simp [hsa, CappedQueue.apply, memory, hc]

theorem memory_enqueue (hs : Sound (h.memory codec)) (event : Event) :
    (h.apply codec {} (.enqueue event)).memory codec = (h.memory codec).apply (.enqueue event) := by
  cases hv : validateOutboxEvent event with
  | none =>
    have hi : h.apply codec {} (.enqueue event) = h := by simp [OutboxHost.apply, OutboxHost.enqueue, hv]
    rw [hi, hs.apply_none (by simp [Op.appended, hv]) (fun ho => by simp [CappedQueue.apply, ho])]
  | some e =>
    cases hc : h.outbox.closed with
    | true => exact memory_closed hc (by simp [OutboxHost.apply, OutboxHost.enqueue, hv, hc])
    | false =>
      obtain ⟨h₁, hlo, hl, hm, ho⟩ := load_memory codec h
      obtain ⟨-, -, hme⟩ := appendLocked_memory codec [e] hl
      have hdo : h.apply codec {} (.enqueue event) = (h₁.appendLocked codec {} [e]).2 := by
        simp [OutboxHost.apply, OutboxHost.enqueue, hv, hc, hlo]
      rw [hdo, hme, hm]
      simp [CappedQueue.apply, ho, hc, Op.appended, hv]

theorem memory_enqueueBatch (hs : Sound (h.memory codec)) (events : List Event) :
    (h.apply codec {} (.enqueueBatch events)).memory codec = (h.memory codec).apply (.enqueueBatch events) := by
  by_cases hn : events.filterMap validateOutboxEvent = []
  · have hi : h.apply codec {} (.enqueueBatch events) = h := by
      simp only [OutboxHost.apply, OutboxHost.enqueueBatch, if_pos hn]
    have ha : (Op.enqueueBatch events).appended = [] := hn
    rw [hi, hs.apply_none ha (fun ho => by simp [CappedQueue.apply, ho])]
  cases hc : h.outbox.closed with
  | true =>
    refine memory_closed hc ?_
    simp only [OutboxHost.apply, OutboxHost.enqueueBatch, if_neg hn, hc, if_true]
  | false =>
    obtain ⟨h₁, hlo, hl, hm, ho⟩ := load_memory codec h
    obtain ⟨ha, -, hme⟩ := appendLocked_memory codec (events.filterMap validateOutboxEvent) hl
    have hdo : h.apply codec {} (.enqueueBatch events) =
        { (h₁.appendLocked codec {} (events.filterMap validateOutboxEvent)).2 with
          disk := (h₁.appendLocked codec {} (events.filterMap validateOutboxEvent)).2.disk.sync } := by
      simp [OutboxHost.apply, OutboxHost.enqueueBatch, hn, hc, hlo, ha]
    have hsy : ∀ g : OutboxHost, OutboxHost.memory codec { g with disk := g.disk.sync } = g.memory codec := fun _ => rfl
    rw [hdo, hsy, hme, hm]
    simp [CappedQueue.apply, ho, hc, Op.appended]

theorem memory_removeSent (hl : h.outbox.loaded = true) (sent : List Event) :
    (h.apply codec {} (.removeSent sent)).memory codec = (h.memory codec).apply (.removeSent sent) := by
  cases hc : h.outbox.closed with
  | true => exact memory_closed hc (by simp [OutboxHost.apply, OutboxHost.removeSent, hc])
  | false =>
    simp only [OutboxHost.apply, OutboxHost.removeSent, hc, Bool.false_eq_true, if_false]
    split <;> simp [rewriteLocked, memory, hl, CappedQueue.apply, hc]

theorem memory_applySessionAttributes (hs : Sound (h.memory codec)) (sessionID : String)
    (attributes : KeyedMap String String) : (h.apply codec {} (.applySessionAttributes sessionID attributes)).memory codec =
      (h.memory codec).apply (.applySessionAttributes sessionID attributes) := by
  by_cases hi : sessionID = "" ∨ attributes.entries = []
  · have hsa : h.apply codec {} (.applySessionAttributes sessionID attributes) = h := by
      simp [OutboxHost.apply, OutboxHost.applySessionAttributes, hi]
    rw [hsa]
    simp [CappedQueue.apply, patched_idle hs.accepted hi]
  cases hc : h.outbox.closed with
  | true =>
    exact memory_closed hc (by simp [OutboxHost.apply, OutboxHost.applySessionAttributes, hc])
  | false =>
    obtain ⟨h₁, hlo, hl, hm, ho⟩ := load_memory codec h
    rw [hm]
    by_cases hca : h₁.outbox.events.map (patchEvent sessionID attributes) = h₁.outbox.events
    · simp [OutboxHost.apply, OutboxHost.applySessionAttributes, hi, hc, hlo, hca, memory, hl,
        CappedQueue.apply, ho]
    · simp [OutboxHost.apply, OutboxHost.applySessionAttributes, hi, hc, hlo, hca, rewriteLocked, memory, hl,
        CappedQueue.apply, ho]

theorem memory_touch (codec : EventCodec) (h : OutboxHost) : (h.touch codec {}).memory codec = h.memory codec := by
  cases hc : h.outbox.closed with
  | true => simp [OutboxHost.touch, hc]
  | false =>
    obtain ⟨h₁, hlo, hl, hm, -⟩ := load_memory codec h
    simp [OutboxHost.touch, hc, hlo, hm, memory_loaded hl]

theorem memory_apply (hs : Sound (h.memory codec)) (op : Op)
    (hsr : ∀ sent, op = .removeSent sent → h.outbox.loaded = true) :
    (h.apply codec {} op).memory codec = (h.memory codec).apply op := by
  cases op with
  | enqueue event => exact memory_enqueue hs event
  | enqueueBatch events => exact memory_enqueueBatch hs events
  | removeSent sent => exact memory_removeSent (hsr sent rfl) sent
  | applySessionAttributes sessionID attributes => exact memory_applySessionAttributes hs sessionID attributes
  | touch =>
    refine (memory_touch codec h).trans ?_
    unfold CappedQueue.apply
    split <;> rfl
  | close =>
    cases hc : h.outbox.closed <;> cases hl : h.outbox.loaded <;>
      simp [OutboxHost.apply, OutboxHost.close, memory, CappedQueue.apply, hc, hl]

theorem removeSent_loaded (codec : EventCodec) (sent : List Event) (hl : h.outbox.loaded = true) :
    (h.removeSent codec {} sent).outbox.loaded = true := by
  unfold OutboxHost.removeSent
  split
  · exact hl
  · dsimp only
    split <;> exact hl

theorem apply_loaded (codec : EventCodec) (op : Op) (hl : h.outbox.loaded = true) :
    (h.apply codec {} op).outbox.loaded = true := by
  have hlo : h.loadLocked codec {} = (true, h) := if_pos hl
  cases op with
  | enqueue event =>
    simp only [OutboxHost.apply, OutboxHost.enqueue, hlo]
    split
    · exact hl
    split
    · exact hl
    · exact (appendLocked_memory codec _ hl).2.1
  | enqueueBatch events =>
    obtain ⟨ha, hsi, -⟩ := appendLocked_memory codec (events.filterMap validateOutboxEvent) hl
    simp only [OutboxHost.apply, OutboxHost.enqueueBatch, hlo, ha]
    split
    · exact hl
    split
    · exact hl
    · exact hsi
  | removeSent sent => exact removeSent_loaded codec sent hl
  | applySessionAttributes sessionID attributes =>
    simp only [OutboxHost.apply, OutboxHost.applySessionAttributes, hlo]
    split
    · exact hl
    split
    · exact hl
    · by_cases hca : h.outbox.events.map (patchEvent sessionID attributes) = h.outbox.events
      · simp [hca, hl]
      · simp [hca, rewriteLocked, hl]
  | touch =>
    simp only [OutboxHost.apply, OutboxHost.touch, hlo]
    split <;> exact hl
  | close => exact hl

end OutboxHost

/-! ### One call on the queue -/

namespace CappedQueue
open OutboxHost (Op patchEvent patchEvent_eventID)
variable {q : CappedQueue} {op : Op} {e : Event}

theorem apply_origin (mem : e ∈ (q.apply op).events) :
    (∃ e₀ ∈ q.events, e.eventID = e₀.eventID ∧ (e = e₀ ∨ ∃ attributes,
      op = .applySessionAttributes e₀.sessionID attributes ∧ e = patchEvent e₀.sessionID attributes e₀)) ∨
    e ∈ op.appended := by
  have hq : e ∈ q.events → ∃ e₀ ∈ q.events, e.eventID = e₀.eventID ∧ (e = e₀ ∨ ∃ attributes,
      op = .applySessionAttributes e₀.sessionID attributes ∧ e = patchEvent e₀.sessionID attributes e₀) :=
    fun mem => ⟨e, mem, rfl, .inl rfl⟩
  have ha : e ∈ newest (q.events ++ op.appended) → (∃ e₀ ∈ q.events, e.eventID = e₀.eventID ∧ (e = e₀ ∨
      ∃ attributes, op = .applySessionAttributes e₀.sessionID attributes ∧ e = patchEvent e₀.sessionID attributes e₀)) ∨
      e ∈ op.appended := by
    intro mem
    rcases List.mem_append.mp ((newest_sublist _).subset mem) with old | new
    · exact .inl (hq old)
    · exact .inr new
  unfold CappedQueue.apply at mem
  split at mem
  · exact .inl (hq mem)
  split at mem
  · dsimp only at mem
    exact ha mem
  · dsimp only at mem
    exact ha mem
  · exact .inl (hq (List.mem_filter.mp mem).1)
  · obtain ⟨e₀, old, rfl⟩ := List.mem_map.mp mem
    rename_i sessionID attributes
    refine .inl ⟨e₀, old, patchEvent_eventID .., ?_⟩
    by_cases own : e₀.sessionID = sessionID
    · subst own
      exact .inr ⟨attributes, rfl, rfl⟩
    · exact .inl (if_pos (.inl own))
  · exact .inl (hq mem)
  · exact .inl (hq mem)

theorem apply_distinct (hd : ((q.events ++ op.appended).map (·.eventID)).Nodup) :
    ((q.apply op).events.map (·.eventID)).Nodup := by
  have hq : (q.events.map (·.eventID)).Nodup := hd.sublist ((List.sublist_append_left ..).map _)
  have ha : ((newest (q.events ++ op.appended)).map (·.eventID)).Nodup :=
    hd.sublist ((newest_sublist _).map _)
  unfold CappedQueue.apply
  split
  · exact hq
  split
  · dsimp only
    exact ha
  · dsimp only
    exact ha
  · exact hq.sublist (List.filter_sublist.map _)
  · rename_i sessionID attributes
    have hsa : (fun e : Event => e.eventID) ∘ patchEvent sessionID attributes = fun e => e.eventID :=
      funext fun e => patchEvent_eventID sessionID attributes e
    rw [List.map_map, hsa]
    exact hq
  · exact hq
  · exact hq

theorem apply_fate (mem : e ∈ q.events ∨ e ∈ op.appended ∧ q.closed = false) :
    (∃ e' ∈ (q.apply op).events, e'.eventID = e.eventID) ∨
    (∃ sent, op = .removeSent sent ∧ ∃ b ∈ sent, b.eventID = e.eventID) ∨
    e ∈ (q.events ++ op.appended).take ((q.events ++ op.appended).length - outboxMaxQueued) := by
  cases hc : q.closed with
  | true =>
    have hsa : q.apply op = q := by simp [CappedQueue.apply, hc]
    have hq : e ∈ q.events := mem.resolve_right (by simp [hc])
    exact .inl ⟨e, by rwa [hsa], rfl⟩
  | false =>
    have hap : q.apply op = { q with events := newest (q.events ++ op.appended) } →
        (∃ e' ∈ (q.apply op).events, e'.eventID = e.eventID) ∨
        e ∈ (q.events ++ op.appended).take ((q.events ++ op.appended).length - outboxMaxQueued) := by
      intro eq
      have all : e ∈ q.events ++ op.appended := List.mem_append.mpr (mem.imp_right And.left)
      rw [← List.take_append_drop ((q.events ++ op.appended).length - outboxMaxQueued) (q.events ++ op.appended),
        List.mem_append] at all
      rcases all with hol | hke
      · exact .inr hol
      · refine .inl ⟨e, ?_, rfl⟩
        rw [eq]
        dsimp only
        rwa [newest]
    cases op with
    | enqueue event => exact (hap (by simp [CappedQueue.apply, hc])).imp_right .inr
    | enqueueBatch events => exact (hap (by simp [CappedQueue.apply, hc])).imp_right .inr
    | removeSent sent =>
      have hq : e ∈ q.events := by simpa [Op.appended] using mem
      by_cases hg : ∃ b ∈ sent, b.eventID = e.eventID
      · exact .inr (.inl ⟨sent, rfl, hg⟩)
      · refine .inl ⟨e, ?_, rfl⟩
        simpa [CappedQueue.apply, hc, hq] using hg
    | applySessionAttributes sessionID attributes =>
      have hq : e ∈ q.events := by simpa [Op.appended] using mem
      refine .inl ⟨patchEvent sessionID attributes e, ?_, patchEvent_eventID ..⟩
      simpa [CappedQueue.apply, hc] using ⟨e, hq, rfl⟩
    | touch | close =>
      have hq : e ∈ q.events := by simpa [Op.appended] using mem
      exact .inl ⟨e, by simpa [CappedQueue.apply, hc] using hq, rfl⟩

end CappedQueue

/-! ### Uploads under way -/

def Upload.events : Upload → List Event
  | .discarding _ batch oversized => batch ++ oversized
  | .sending _ batch _ => batch

def Upload.Chosen (codec : EventCodec) : Upload → Prop
  | .discarding kind batch oversized => ∃ events, kind.choose codec events = (batch, oversized)
  | .sending kind batch _ => ∃ events, (kind.choose codec events).1 = batch

namespace Uploads
open OutboxHost (Op)
variable {w w' : Uploads} {label : Label}

def Label.op : Label → Op
  | .call op => op
  | .flush | .heartbeat _ => .touch
  | .discard oversized => .removeSent oversized
  | .finish .flush batch .sent | .finish .flush batch .rejected | .finish (.heartbeat _) batch .sent => .removeSent batch
  | .finish _ _ _ => .touch

theorem Label.op_appended (label : Label) : label.op.appended = label.appended := by
  cases label with
  | call op => rfl
  | flush | heartbeat | discard => rfl
  | finish kind batch result => cases kind <;> cases result <;> rfl

theorem apply_touch (q : CappedQueue) : q.apply .touch = q := by
  unfold CappedQueue.apply
  split <;> rfl

theorem apply_removeSent_nil (q : CappedQueue) : q.apply (.removeSent []) = q := by
  unfold CappedQueue.apply
  split
  · rfl
  · simp

theorem mem_flying {flights before after : List Upload} {u : Upload} (hf : flights = before ++ u :: after) :
    u ∈ flights ∧ ∀ v ∈ before ++ after, v ∈ flights := by
  subst hf
  refine ⟨List.mem_append_right _ List.mem_cons_self, fun v mem => ?_⟩
  rcases List.mem_append.mp mem with hfi | hsc
  · exact List.mem_append_left _ hfi
  · exact List.mem_append_right _ (List.mem_cons_of_mem _ hsc)

theorem proceed_host (kind : UploadKind) (batch : List Event) (pending : Nat) (w : Uploads) :
    (proceed kind batch pending w).host = w.host := by
  unfold proceed
  split <;> rfl

theorem mem_proceed {kind : UploadKind} {batch : List Event} {pending : Nat} {u : Upload}
    (mem : u ∈ (proceed kind batch pending w).flights) : u = .sending kind batch pending ∨ u ∈ w.flights := by
  unfold proceed at mem
  split at mem
  · exact .inr mem
  · exact List.mem_cons.mp mem

theorem finish_flights (codec : EventCodec) (kind : UploadKind) (batch : List Event) (pending : Nat)
    (result : SendResult) (w : Uploads) :
    (finish codec kind batch pending result w).flights = w.flights := by
  unfold finish
  split <;> first | rfl | (split <;> rfl)

theorem start_memory (codec : EventCodec) (w : Uploads) (kind : UploadKind) :
    ((w.start codec kind).host.memory codec) = w.host.memory codec := by
  unfold start
  split
  · rfl
  · obtain ⟨h₁, hlo, hl, hmm, -⟩ := OutboxHost.load_memory codec w.host
    have hsa : h₁.memory codec = w.host.memory codec := (OutboxHost.memory_loaded hl).trans hmm.symm
    simp only [hlo]
    split
    · exact hsa
    · rw [proceed_host]
      exact hsa

/-- An event that an upload holds is an earlier version of the queued event with its id, if there is one. -/
structure Tracked (codec : EventCodec) (known : List String) (w : Uploads) : Prop where
  sound : (w.host.memory codec).Sound
  loaded : ∀ u ∈ w.flights, w.host.outbox.loaded = true
  chosen : ∀ u ∈ w.flights, u.Chosen codec
  distinct : ((w.queue codec).map (·.eventID)).Nodup
  queued : ∀ e ∈ w.queue codec, e.eventID ∈ known
  held : ∀ u ∈ w.flights, ∀ b ∈ u.events, b.eventID ∈ known
  version : ∀ u ∈ w.flights, ∀ b ∈ u.events, ∀ e ∈ w.queue codec, e.eventID = b.eventID → Merged b e

structure Moved (codec : EventCodec) (w w' : Uploads) : Prop where
  loaded : ∀ u ∈ w'.flights, w'.host.outbox.loaded = true
  chosen : ∀ u ∈ w'.flights, u.Chosen codec
  held : ∀ u ∈ w'.flights, ∀ b ∈ u.events, b ∈ w.queue codec ∨ ∃ u' ∈ w.flights, b ∈ u'.events

structure Underway (codec : EventCodec) (w : Uploads) : Prop where
  loaded : ∀ u ∈ w.flights, w.host.outbox.loaded = true
  chosen : ∀ u ∈ w.flights, u.Chosen codec

theorem Tracked.underway {known : List String} (ht : Tracked codec known w) : Underway codec w :=
  ⟨ht.loaded, ht.chosen⟩

theorem Moved.underway (hmo : Moved codec w w') : Underway codec w' := ⟨hmo.loaded, hmo.chosen⟩

section Upload
variable (underway : Underway codec w)
include underway

theorem upload_memory (hst : Step codec w label w') (hp : ∀ op, label ≠ .call op) :
    w'.host.memory codec = (w.host.memory codec).apply label.op := by
  have hre : ∀ u ∈ w.flights, ∀ sent, (w.host.removeSent codec {} sent).memory codec =
      (w.host.memory codec).apply (.removeSent sent) :=
    fun u hf sent => OutboxHost.memory_removeSent (underway.loaded u hf) sent
  cases hst with
  | call op own => exact absurd rfl (hp op)
  | flush => exact (start_memory codec w .flush).trans (apply_touch _).symm
  | heartbeat event =>
    refine Eq.trans ?_ (apply_touch _).symm
    unfold sendHeartbeat
    split
    · exact OutboxHost.memory_touch codec w.host
    · exact start_memory codec w _
  | discard hf =>
    rw [discard, proceed_host]
    exact hre _ (mem_flying hf).1 _
  | @finish _ _ kind batch pending hf result =>
    have sent := hre _ (mem_flying hf).1 batch
    cases kind <;> cases result
    · exact sent
    · exact sent
    · exact (apply_touch _).symm
    · by_cases hn : batch = []
      · subst hn
        exact (apply_removeSent_nil _).symm
      · simp only [finish, if_neg hn]
        exact sent
    · exact (apply_touch _).symm
    · exact (apply_touch _).symm

theorem start_moved (kind : UploadKind) : Moved codec w (w.start codec kind) := by
  have old : Moved codec w w := ⟨underway.loaded, underway.chosen, fun u mem b hh => .inr ⟨u, mem, hh⟩⟩
  unfold start
  split
  · exact ⟨old.loaded, old.chosen, old.held⟩
  obtain ⟨h₁, hlo, hl, hmm, -⟩ := OutboxHost.load_memory codec w.host
  have hqu : w.queue codec = h₁.outbox.events := congrArg CappedQueue.events hmm
  have hw : ∀ b, b ∈ (kind.choose codec h₁.outbox.events).1 ∨ b ∈ (kind.choose codec h₁.outbox.events).2 →
      b ∈ w.queue codec := by
    intro b mem
    rw [hqu]
    exact kind.choose_mem codec _ b mem
  simp only [hlo]
  split
  · refine ⟨fun _ _ => hl, fun u mem => ?_, fun u mem b hh => ?_⟩
    · rcases List.mem_cons.mp mem with rfl | hf
      · exact ⟨h₁.outbox.events, rfl⟩
      · exact old.chosen u hf
    · rcases List.mem_cons.mp mem with rfl | hf
      · exact .inl (hw b (List.mem_append.mp hh))
      · exact old.held u hf b hh
  · refine ⟨fun _ _ => by rw [proceed_host]; exact hl, fun u mem => ?_, fun u mem b hh => ?_⟩
    · rcases mem_proceed mem with rfl | hf
      · exact ⟨h₁.outbox.events, rfl⟩
      · exact old.chosen u hf
    · rcases mem_proceed mem with rfl | hf
      · exact .inl (hw b (.inl hh))
      · exact old.held u hf b hh

theorem step_moved (hst : Step codec w label w') : Moved codec w w' := by
  have old : Moved codec w w := ⟨underway.loaded, underway.chosen, fun u mem b hh => .inr ⟨u, mem, hh⟩⟩
  cases hst with
  | call op own =>
    exact ⟨fun u mem => OutboxHost.apply_loaded codec op (underway.loaded u mem), old.chosen, old.held⟩
  | flush => exact start_moved underway .flush
  | heartbeat event =>
    unfold sendHeartbeat
    split
    · exact ⟨fun u mem => OutboxHost.apply_loaded codec .touch (underway.loaded u mem), old.chosen, old.held⟩
    · exact start_moved underway _
  | @discard before after kind batch oversized hf =>
    obtain ⟨own, hot⟩ := mem_flying hf
    have hl := OutboxHost.removeSent_loaded codec oversized (underway.loaded _ own)
    refine ⟨fun _ _ => by rw [discard, proceed_host]; exact hl, fun u mem => ?_, fun u mem b hh => ?_⟩
    · rcases mem_proceed mem with rfl | hf
      · obtain ⟨events, hch⟩ := underway.chosen _ own
        exact ⟨events, by rw [hch]⟩
      · exact old.chosen u (hot u hf)
    · rcases mem_proceed mem with rfl | hf
      · exact .inr ⟨_, own, List.mem_append_left _ hh⟩
      · exact old.held u (hot u hf) b hh
  | @finish before after kind batch pending hf result =>
    obtain ⟨own, hot⟩ := mem_flying hf
    have hl := underway.loaded _ own
    have hre := OutboxHost.removeSent_loaded codec batch hl
    have flights : (finish codec kind batch pending result { w with flights := before ++ after }).flights =
        before ++ after := finish_flights codec kind batch pending result _
    have hsi : (finish codec kind batch pending result { w with flights := before ++ after }).host.outbox.loaded = true := by
      unfold finish
      split <;> first | exact hre | exact hl | (split <;> first | exact hre | exact hl)
    refine ⟨fun _ _ => hsi, fun u mem => ?_, fun u mem b hh => ?_⟩
    · exact old.chosen u (hot u (flights ▸ mem))
    · exact old.held u (hot u (flights ▸ mem)) b hh

end Upload

section Step
variable {known : List String} (tracked : Tracked codec known w)
include tracked

theorem step_memory (hst : Step codec w label w') :
    w'.host.memory codec = (w.host.memory codec).apply label.op := by
  by_cases call : ∃ op, label = .call op
  · obtain ⟨op, rfl⟩ := call
    cases hst with
    | call _ own => exact OutboxHost.memory_apply tracked.sound op fun sent hsa => absurd hsa (own sent)
  · exact upload_memory tracked.underway hst fun op hsa => call ⟨op, hsa⟩

variable (fresh : (known ++ label.appended.map (·.eventID)).Nodup)
include fresh

omit tracked in
theorem appended_new {e : Event} (mem : e ∈ label.appended) : e.eventID ∉ known := fun old =>
  (List.nodup_append.mp fresh).2.2 _ old _ (List.mem_map_of_mem mem) rfl

theorem distinct_appended : ((w.queue codec ++ label.appended).map (·.eventID)).Nodup := by
  rw [List.map_append, List.nodup_append]
  refine ⟨tracked.distinct, (List.nodup_append.mp fresh).2.1, ?_⟩
  intro id hq id' new hsa
  obtain ⟨e, mem, rfl⟩ := List.mem_map.mp hq
  exact (List.nodup_append.mp fresh).2.2 _ (tracked.queued e mem) _ new hsa

omit fresh in
theorem version_moved (hmo : Moved codec w w') {u : Upload} (hf : u ∈ w'.flights) {b : Event} (hh : b ∈ u.events) :
    b.eventID ∈ known ∧ ∀ e ∈ w.queue codec, e.eventID = b.eventID → Merged b e := by
  rcases hmo.held u hf b hh with hq | ⟨u', hfl, hhe⟩
  · refine ⟨tracked.queued b hq, fun e mem hsa => ?_⟩
    have one : e = b := List.inj_on_of_nodup_map tracked.distinct mem hq hsa
    rw [one]
    exact .refl
  · exact ⟨tracked.held u' hfl b hhe, tracked.version u' hfl b hhe⟩

theorem tracked_step (hst : Step codec w label w') : Tracked codec (known ++ label.appended.map (·.eventID)) w' := by
  have hmo := step_moved tracked.underway hst
  have hqu : w'.queue codec = ((w.host.memory codec).apply label.op).events :=
    congrArg CappedQueue.events (step_memory tracked hst)
  refine ⟨?_, hmo.loaded, hmo.chosen, ?_, ?_, ?_, ?_⟩
  · rw [step_memory tracked hst]
    exact tracked.sound.apply label.op
  · rw [hqu]
    refine CappedQueue.apply_distinct ?_
    rw [label.op_appended]
    exact distinct_appended tracked fresh
  · intro e mem
    rw [hqu] at mem
    rcases CappedQueue.apply_origin mem with ⟨e₀, old, hsa, -⟩ | new
    · exact List.mem_append_left _ (hsa ▸ tracked.queued e₀ old)
    · rw [label.op_appended] at new
      exact List.mem_append_right _ (List.mem_map_of_mem new)
  · intro u hf b hh
    exact List.mem_append_left _ (version_moved tracked hmo hf hh).1
  · intro u hf b hh e mem hsa
    obtain ⟨hsn, hve⟩ := version_moved tracked hmo hf hh
    rw [hqu] at mem
    rcases CappedQueue.apply_origin mem with ⟨e₀, old, hsm, hor⟩ | new
    · have hb : Merged b e₀ := hve e₀ old (hsm.symm.trans hsa)
      rcases hor with rfl | ⟨attributes, -, rfl⟩
      · exact hb
      · exact hb.tail ⟨attributes, rfl⟩
    · rw [label.op_appended] at new
      exact absurd (hsa ▸ hsn) (appended_new fresh new)

end Step

theorem tracked_opened (codec : EventCodec) (raw : Bytes)
    (distinct : ((readOutbox codec raw).events.map (·.eventID)).Nodup) :
    Tracked codec ((readOutbox codec raw).events.map (·.eventID)) (opened raw) where
  sound := ⟨accepted_readOutbox codec raw, newest_readOutbox codec raw⟩
  loaded := fun _ mem => absurd mem List.not_mem_nil
  chosen := fun _ mem => absurd mem List.not_mem_nil
  distinct := distinct
  queued := fun _ mem => List.mem_map_of_mem mem
  held := fun _ mem => absurd mem List.not_mem_nil
  version := fun _ mem => absurd mem List.not_mem_nil

def known (codec : EventCodec) (raw : Bytes) (labels : List Label) : List String :=
  ((readOutbox codec raw).events ++ labels.flatMap Label.appended).map (·.eventID)

theorem known_snoc (codec : EventCodec) (raw : Bytes) (labels : List Label) (label : Label) :
    known codec raw (labels ++ [label]) = known codec raw labels ++ label.appended.map (·.eventID) := by
  simp [known]

theorem tracked_trace {raw : Bytes} {labels : List Label} {w : Uploads} (run : Trace (Step codec) (opened raw) labels w)
    (hd : (known codec raw labels).Nodup) : Tracked codec (known codec raw labels) w := by
  induction run with
  | refl =>
    simp only [known, List.flatMap_nil, List.append_nil] at hd ⊢
    exact tracked_opened codec raw hd
  | snoc hb hla ih =>
    rw [known_snoc] at hd ⊢
    exact tracked_step (ih (List.nodup_append.mp hd).1) hd hla

theorem mem_accepted {w : Uploads} {label : Label} {e : Event} (mem : e ∈ w.accepted codec label) :
    e ∈ label.appended ∧ w.host.outbox.closed = false := by
  cases label with
  | flush | heartbeat | discard | finish => simp [accepted] at mem
  | call op =>
    cases op with
    | enqueue event =>
      simp only [accepted] at mem
      split at mem
      · rename_i han
        refine ⟨mem, ?_⟩
        by_contra hc
        rw [Bool.not_eq_false] at hc
        unfold OutboxHost.enqueue at han
        split at han
        · simp at han
        · simp [hc] at han
      · simp at mem
    | enqueueBatch events =>
      simp only [accepted] at mem
      split at mem
      · rename_i han
        refine ⟨mem, ?_⟩
        by_contra hc
        rw [Bool.not_eq_false] at hc
        simp only [OutboxHost.enqueueBatch, hc, if_true] at han
        split at han <;> simp at han
      · simp at mem
    | removeSent | applySessionAttributes | touch | close => simp [accepted] at mem

theorem Label.call_of_op {label : Label} {sessionID : String} {attributes : KeyedMap String String}
    (op : label.op = .applySessionAttributes sessionID attributes) :
    label = .call (.applySessionAttributes sessionID attributes) := by
  cases label with
  | call op' => exact congrArg Label.call op
  | flush | heartbeat | discard => cases op
  | finish kind batch result => cases kind <;> cases result <;> cases op

theorem departs_of_removed {known : List String} {w w' : Uploads} {label : Label} (ht : Tracked codec known w)
    (hst : Step codec w label w') {sent : List Event} (hr : label.op = .removeSent sent) {b e : Event}
    (mem : b ∈ sent) (hq : e ∈ w.queue codec) (hsa : b.eventID = e.eventID) : w.Departs codec label e := by
  cases hst with
  | call op own => exact absurd hr (own sent)
  | flush | heartbeat => cases hr
  | @discard before after kind batch oversized hf =>
    cases hr
    obtain ⟨own, -⟩ := mem_flying hf
    obtain ⟨events, hch⟩ := ht.chosen _ own
    exact .oversized ⟨events, by rw [hch]⟩ mem (ht.version _ own b (List.mem_append_right _ mem) e hq hsa.symm)
  | @finish before after kind batch pending hf result =>
    obtain ⟨own, -⟩ := mem_flying hf
    have hch := ht.chosen _ own
    cases kind <;> cases result <;> cases hr
    · exact .sent hch mem (ht.version _ own b mem e hq hsa.symm)
    · exact .rejected hch mem (ht.version _ own b mem e hq hsa.symm)
    · exact .sent hch mem (ht.version _ own b mem e hq hsa.symm)

end Uploads

/-- An event that is queued or accepted stays queued in the next step, unchanged but for a merge for its own session,
    or leaves for one of the reasons of `Departs`. -/
theorem outbox_accounts_for_events (codec : EventCodec) (raw : Bytes) (labels : List Uploads.Label) (label : Uploads.Label)
    (w w' : Uploads) (run : Trace (Uploads.Step codec) (.opened raw) labels w) (step : Uploads.Step codec w label w')
    (distinct : (((readOutbox codec raw).events ++ (labels ++ [label]).flatMap Uploads.Label.appended).map
      (·.eventID)).Nodup) :
    ∀ e ∈ w.queue codec ++ w.accepted codec label,
      ((∃ e' ∈ w'.queue codec, e'.eventID = e.eventID) ∨ w.Departs codec label e) ∧
      ∀ e' ∈ w'.queue codec, e'.eventID = e.eventID → e' = e ∨ ∃ attributes,
        label = .call (.applySessionAttributes e.sessionID attributes) ∧
        e' = OutboxHost.patchEvent e.sessionID attributes e := by
  have hk := Uploads.known_snoc codec raw labels label
  have hfr : (Uploads.known codec raw labels ++ label.appended.map (·.eventID)).Nodup := hk ▸ distinct
  have ht := Uploads.tracked_trace run (List.nodup_append.mp hfr).1
  have hqu : w'.queue codec = ((w.host.memory codec).apply label.op).events :=
    congrArg CappedQueue.events (Uploads.step_memory ht step)
  have all := Uploads.distinct_appended ht hfr
  intro e mem
  have hpr : e ∈ w.queue codec ∨ e ∈ label.appended ∧ w.host.outbox.closed = false :=
    (List.mem_append.mp mem).imp_right Uploads.mem_accepted
  have hin : e ∈ w.queue codec ++ label.appended := List.mem_append.mpr (hpr.imp_right And.left)
  refine ⟨?_, ?_⟩
  · rw [hqu]
    have hof : e ∈ (w.host.memory codec).events ∨ e ∈ label.op.appended ∧ (w.host.memory codec).closed = false := by
      rw [label.op_appended]
      exact hpr
    rcases CappedQueue.apply_fate hof with hss | ⟨sent, hr, b, hta, hsa⟩ | hol
    · exact .inl hss
    · have hq : e ∈ w.queue codec := by
        rcases hpr with hq | ⟨new, -⟩
        · exact hq
        · rw [← label.op_appended, hr] at new
          exact absurd new List.not_mem_nil
      exact .inr (Uploads.departs_of_removed ht step hr hta hq hsa)
    · rw [label.op_appended] at hol
      exact .inr (.evicted hol)
  · intro e' mem' hsa
    rw [hqu] at mem'
    rcases CappedQueue.apply_origin mem' with ⟨e₀, old, hsm, hor⟩ | new
    · have one : e₀ = e := List.inj_on_of_nodup_map all (List.mem_append_left _ old) hin (hsm.symm.trans hsa)
      subst one
      rcases hor with rfl | ⟨attributes, hmr, rfl⟩
      · exact .inl rfl
      · exact .inr ⟨attributes, Uploads.Label.call_of_op hmr, rfl⟩
    · rw [label.op_appended] at new
      exact .inl (List.inj_on_of_nodup_map all (List.mem_append_right _ new) hin hsa)

open OutboxHost (twoEvents sessionStart) in
theorem outbox_accounts_for_events_sent : ∃ w w' : Uploads,
    Trace (Uploads.Step twoEvents) (.opened []) [.call (.enqueue (sessionStart "e1")), .flush] w ∧
      Uploads.Step twoEvents w (.finish .flush [sessionStart "e1"] .sent) w' ∧ sessionStart "e1" ∈ w.queue twoEvents ∧
      w.Departs twoEvents (.finish .flush [sessionStart "e1"] .sent) (sessionStart "e1") := by
  let w := ({ host := (Uploads.opened []).host.apply twoEvents {} (.enqueue (sessionStart "e1")) } : Uploads).flushNextBatch
    twoEvents
  have run : Trace (Uploads.Step twoEvents) (.opened []) [.call (.enqueue (sessionStart "e1")), .flush] w :=
    .snoc (.single (.call (.enqueue (sessionStart "e1")) nofun)) .flush
  have hf : w.flights = [] ++ Upload.sending .flush [sessionStart "e1"] 1 :: [] := by decide +kernel
  have hq : sessionStart "e1" ∈ w.queue twoEvents := by decide +kernel
  have hst : Uploads.Step twoEvents w (.finish .flush [sessionStart "e1"] .sent) _ := .finish hf .sent
  refine ⟨w, _, run, hst, hq, ?_⟩
  have hfa := outbox_accounts_for_events twoEvents [] _ _ w _ run hst (by decide +kernel) (sessionStart "e1")
    (List.mem_append_left _ hq)
  refine hfa.1.resolve_left ?_
  decide +kernel

end OpenRung.Telemetry
