import Mathlib.Data.Countable.Basic
import Mathlib.Logic.Equiv.List
import OpenRung.Telemetry.OutboxCrash
import OpenRung.Theorems.Outbox

/-! The outbox file implements a capped queue, also when the process is killed. The queue that a file stands for is
    what a reader finds in it: the newest of its events, a torn last line being no event. A rewrite leaves the same
    queue, and a kill in the middle of an append leaves a part of what was appended. -/

namespace OpenRung.Telemetry

/-- The encoding takes every event that the outbox accepts, and one that is cut short does not decode. -/
structure EventCodec.Faithful (codec : EventCodec) : Prop where
  marshals : ∀ e, validateOutboxEvent e = some e → (codec.marshal e).isSome = true
  cut : ∀ e line tail, codec.marshal e = some line → tail <+: line → tail ≠ line → codec.unmarshal tail = none

variable {codec : EventCodec}

/-! ### The cap -/

theorem newest_map (f : Event → Event) (events : List Event) : newest (events.map f) = (newest events).map f := by
  rw [newest, newest, List.length_map, List.map_drop]

variable {events : List Event}

theorem newest_short (hsh : events.length ≤ outboxMaxQueued) : newest events = events := by
  rw [newest, Nat.sub_eq_zero_of_le hsh, List.drop_zero]

theorem newest_of_sublist {xs ys : List Event} (sub : xs.Sublist ys) (hcp : newest ys = ys) : newest xs = xs := by
  have hln : ys.length ≤ outboxMaxQueued := by
    have hsa := congrArg List.length hcp
    rw [newest, List.length_drop] at hsa
    have hpo : 0 < outboxMaxQueued := by decide
    omega
  exact newest_short (sub.length_le.trans hln)

theorem newest_newest_append (xs ys : List Event) : newest (newest xs ++ ys) = newest (xs ++ ys) := by
  have hke : newest xs ++ ys = (xs ++ ys).drop (xs.length - outboxMaxQueued) := by
    rw [newest, List.drop_append_of_le_length (Nat.sub_le _ _)]
  have cut : xs.length - outboxMaxQueued + ((xs ++ ys).length - (xs.length - outboxMaxQueued) - outboxMaxQueued) =
      (xs ++ ys).length - outboxMaxQueued := by
    rw [List.length_append]
    omega
  rw [hke, newest, newest, List.drop_drop, List.length_drop, cut]

/-! ### What a file stands for -/

def Accepted (events : List Event) : Prop := ∀ e ∈ events, validateOutboxEvent e = some e ∧ sanitizeOutboxEvent e = e

theorem Accepted.storable (ha : Accepted events) (hf : codec.Faithful) :
    Storable codec events :=
  ⟨ha, fun e mem => hf.marshals e (ha e mem).1⟩

theorem Accepted.sublist {xs ys : List Event} (ha : Accepted ys) (sub : xs.Sublist ys) : Accepted xs :=
  fun e mem => ha e (sub.subset mem)

theorem Accepted.append {xs ys : List Event} (hle : Accepted xs) (hri : Accepted ys) : Accepted (xs ++ ys) := by
  intro e mem
  rcases List.mem_append.mp mem with hfi | hsc
  · exact hle e hfi
  · exact hri e hsc

theorem accepted_filterMap (events : List Event) : Accepted (events.filterMap validateOutboxEvent) := by
  intro e mem
  obtain ⟨given, -, hv⟩ := List.mem_filterMap.mp mem
  exact validateOutboxEvent_idem hv

theorem accepted_decoded (codec : EventCodec) (lines : List Bytes) :
    Accepted ((lines.filterMap (decodeOutboxEvent codec)).map sanitizeOutboxEvent) := by
  intro e mem
  obtain ⟨e', hme, rfl⟩ := List.mem_map.mp mem
  obtain ⟨line, -, hde⟩ := List.mem_filterMap.mp hme
  obtain ⟨given, -, hv⟩ := Option.bind_eq_some_iff.mp hde
  obtain ⟨hag, hce⟩ := validateOutboxEvent_idem hv
  rw [hce]
  exact ⟨hag, hce⟩

theorem readOutbox_newest (codec : EventCodec) (raw : Bytes) :
    ∃ events, (readOutbox codec raw).events = newest events ∧ Accepted events := by
  by_cases har : raw.head? = some 91
  · refine ⟨_, ?_, accepted_decoded codec (codec.elements raw)⟩
    simp only [readOutbox, if_pos har]
  · exact ⟨_, readOutbox_events har, accepted_decoded codec _⟩

theorem accepted_readOutbox (codec : EventCodec) (raw : Bytes) : Accepted (readOutbox codec raw).events := by
  obtain ⟨events, eq, ha⟩ := readOutbox_newest codec raw
  rw [eq]
  exact ha.sublist (newest_sublist events)

theorem newest_readOutbox (codec : EventCodec) (raw : Bytes) :
    newest (readOutbox codec raw).events = (readOutbox codec raw).events := by
  obtain ⟨events, eq, -⟩ := readOutbox_newest codec raw
  rw [eq, newest_newest]

theorem storedEvents_append {a : Bytes} (hw : Lines.Whole 10 a) (b : Bytes) :
    storedEvents codec (a ++ b) = storedEvents codec a ++ storedEvents codec b := by
  obtain rfl | ⟨a, rfl⟩ := hw
  · simp [storedEvents, codec.blank_nil]
  · have hb : (a ++ [10]).splitOn 10 = a.splitOn 10 ++ [[]] := List.splitOn_append_cons_self ..
    rw [storedEvents, List.append_assoc, List.singleton_append, List.splitOn_append_cons_self]
    simp [storedEvents, hb, codec.blank_nil]

theorem Storable.storedEvents (storable : Storable codec events) :
    storedEvents codec (outboxLines codec events) = events := by
  have lines : (outboxLines codec events).splitOn 10 = events.filterMap codec.marshal ++ [[]] :=
    splitOn_lines fun _ mem => (mem_filterMap_marshal mem).1
  have kept : (events.filterMap codec.marshal).filter (fun line => !codec.blank line) = events.filterMap codec.marshal :=
    List.filter_eq_self.mpr fun _ mem => by simp [(mem_filterMap_marshal mem).2.1]
  simp only [Telemetry.storedEvents, lines, List.filter_append, List.filterMap_append, List.map_append, kept,
    storable.decoded]
  simp [codec.blank_nil]

theorem Storable.lines (hs : Storable codec events) :
    events.filterMap codec.marshal = events.map fun e => (codec.marshal e).getD [] := by
  rw [← List.filterMap_eq_map]
  refine List.filterMap_congr fun e mem => ?_
  obtain ⟨line, hm⟩ := Option.isSome_iff_exists.mp (hs.marshals e mem)
  simp [hm]

theorem Storable.mapM (hs : Storable codec events) :
    ∃ lines, events.mapM codec.marshal = some lines := by
  induction events with
  | nil => exact ⟨[], rfl⟩
  | cons e events ih =>
    obtain ⟨line, hm⟩ := Option.isSome_iff_exists.mp (hs.marshals e (by simp))
    obtain ⟨lines, all⟩ := ih (hs.sublist (List.sublist_cons_self e events))
    exact ⟨line :: lines, by rw [List.mapM_cons, hm, all]; rfl⟩

theorem Storable.line_at (hs : Storable codec events) {n : Nat} {line : Bytes}
    (hth : (events.filterMap codec.marshal)[n]? = some line) : ∃ e, events[n]? = some e ∧ codec.marshal e = some line := by
  rw [hs.lines, List.getElem?_map, Option.map_eq_some_iff] at hth
  obtain ⟨e, hat, rfl⟩ := hth
  obtain ⟨line, hm⟩ := Option.isSome_iff_exists.mp (hs.marshals e (List.mem_of_getElem? hat))
  exact ⟨e, hat, by rw [hm]; rfl⟩

/-- A line that is cut short is no event; one that only lacks its newline is. -/
theorem storedEvents_cut (hf : codec.Faithful) {e : Event} {line tail : Bytes}
    (ha : validateOutboxEvent e = some e ∧ sanitizeOutboxEvent e = e) (hm : codec.marshal e = some line)
    (hp : tail <+: line) : storedEvents codec tail = if tail = line then [e] else [] := by
  have hfr : 10 ∉ tail := fun hin => codec.one_line e line hm (hp.subset hin)
  have hsp : tail.splitOn 10 = [tail] := List.splitOn_eq_singleton hfr
  by_cases all : tail = line
  · subst all
    have hde : decodeOutboxEvent codec tail = some e := by
      rw [decodeOutboxEvent, codec.unmarshal_marshal e tail hm, Option.bind_some, ha.1]
    simp [storedEvents, hsp, codec.not_blank e tail hm, hde, ha.2]
  · have hun : decodeOutboxEvent codec tail = none := by
      rw [decodeOutboxEvent, hf.cut e line tail hm hp all, Option.bind_none]
    rw [if_neg all, storedEvents, hsp]
    cases codec.blank tail <;> simp [hun]

theorem readOutbox_rewritten (hs : Storable codec events) :
    (readOutbox codec (outboxLines codec events)).events = newest events := by
  rw [readOutbox_events (head_outboxLines codec events), hs.storedEvents]

theorem readOutbox_cut (hf : codec.Faithful) {base written : Bytes}
    (hw : Lines.Whole 10 base) (hpl : base.head? ≠ some 91) (ha : Accepted events)
    (hp : written <+: outboxLines codec events) :
    ∃ n, (readOutbox codec (base ++ written)).events = newest ((readOutbox codec base).events ++ events.take n) := by
  have hs := ha.storable hf
  obtain ⟨n, tail, rfl, htr⟩ := Lines.prefix_flatMap hp
  have hct : ((events.filterMap codec.marshal).take n).flatMap (· ++ [10]) = outboxLines codec (events.take n) := by
    rw [outboxLines, hs.lines, (hs.sublist (List.take_sublist n events)).lines, List.map_take]
  have hh : (base ++ (outboxLines codec (events.take n) ++ tail)).head? ≠ some 91 := by
    rw [← hct]
    obtain ⟨rest, all⟩ := hp
    have := OutboxHost.head_append hpl (OutboxHost.head_take (head_outboxLines codec events)
      (((events.filterMap codec.marshal).take n).flatMap (· ++ [10]) ++ tail).length)
    rwa [← all, List.take_left] at this
  rw [hct, readOutbox_events hh, readOutbox_events hpl, storedEvents_append hw,
    storedEvents_append (outboxLines_whole codec _), (hs.sublist (List.take_sublist n events)).storedEvents]
  simp only [newest_newest_append]
  rcases htr with rfl | ⟨line, hth, hin⟩
  · exact ⟨n, by simp [storedEvents, codec.blank_nil]⟩
  · obtain ⟨e, hat, hm⟩ := hs.line_at hth
    rw [storedEvents_cut hf (ha e (List.mem_of_getElem? hat)) hm hin]
    split
    · exact ⟨n + 1, by rw [List.take_add_one, hat]; rfl⟩
    · exact ⟨n, by rw [List.append_nil]⟩

theorem readOutbox_appended_all {base : Bytes} (hw : Lines.Whole 10 base)
    (hpl : base.head? ≠ some 91) (hs : Storable codec events) :
    (readOutbox codec (base ++ outboxLines codec events)).events = newest ((readOutbox codec base).events ++ events) := by
  rw [readOutbox_events (OutboxHost.head_append hpl (head_outboxLines codec events)), readOutbox_events hpl,
    storedEvents_append hw, hs.storedEvents, newest_newest_append]

/-! ### System calls and calls -/

namespace OutboxHost
variable {h : OutboxHost}

structure Consistent (codec : EventCodec) (h : OutboxHost) : Prop where
  events : h.outbox.loaded = true → h.outbox.events = (readOutbox codec h.disk.content).events
  whole : h.outbox.loaded = true → Lines.Whole 10 h.disk.content
  plain : h.outbox.loaded = true → h.disk.content.head? ≠ some 91

structure Loaded (codec : EventCodec) (h h' : OutboxHost) : Prop extends Consistent codec h' where
  loaded : h'.outbox.loaded = true
  closed : h'.outbox.closed = h.outbox.closed
  queue : (readOutbox codec h'.disk.content).events = (readOutbox codec h.disk.content).events
  calls : ∀ temp, (FilePair.runAll { file := h.disk.content, temp } (h.loadCalls codec)).file = h'.disk.content

theorem loadLocked_first (codec : EventCodec) (hu : h.outbox.loaded = false) :
    h.loadLocked codec {} = (true, {
      outbox := { h.outbox with
        locked := true
        loaded := true
        events := (readOutbox codec h.disk.content).events
        fileLines := (readOutbox codec h.disk.content).events.length }
      disk := if h.disk.content ≠ [] ∧ (readOutbox codec h.disk.content).dirty = true then
        h.disk.rename (outboxLines codec (readOutbox codec h.disk.content).events) else h.disk }) := by
  by_cases he : h.disk.content = []
  · simp [loadLocked, hu, he, readOutbox_nil]
  · by_cases hdi : (readOutbox codec h.disk.content).dirty = true
    · simp [loadLocked, hu, he, hdi, rewriteLocked]
    · simp [loadLocked, hu, he, hdi]

theorem loadLocked_done (hf : codec.Faithful) (hc : Consistent codec h) :
    ∃ h', h.loadLocked codec {} = (true, h') ∧ Loaded codec h h' := by
  by_cases hl : h.outbox.loaded = true
  · refine ⟨h, if_pos hl, ⟨hc, hl, rfl, rfl, fun temp => ?_⟩⟩
    simp [loadCalls, hl, FilePair.runAll]
  have hu : h.outbox.loaded = false := by simpa using hl
  have ha := accepted_readOutbox codec h.disk.content
  refine ⟨_, loadLocked_first codec hu, ?_⟩
  by_cases hr : h.disk.content ≠ [] ∧ (readOutbox codec h.disk.content).dirty = true
  · have hqu : (readOutbox codec (outboxLines codec (readOutbox codec h.disk.content).events)).events =
        (readOutbox codec h.disk.content).events := by
      rw [readOutbox_rewritten (ha.storable hf), newest_readOutbox]
    simp only [if_pos hr]
    refine ⟨⟨fun _ => hqu.symm, fun _ => outboxLines_whole codec _, fun _ => head_outboxLines codec _⟩, rfl, rfl, hqu,
      fun temp => ?_⟩
    simp only [loadCalls, hu, hr.1, hr.2, Bool.false_eq_true, or_self, if_false, if_true, rewriteCalls,
      FilePair.runAll_replace]
    rfl
  · have hb : Lines.Whole 10 h.disk.content ∧ h.disk.content.head? ≠ some 91 := by
      by_cases he : h.disk.content = []
      · exact ⟨Or.inl he, by simp [he]⟩
      · exact readOutbox_clean (by simpa [he] using hr)
    simp only [if_neg hr]
    refine ⟨⟨fun _ => rfl, fun _ => hb.1, fun _ => hb.2⟩, rfl, rfl, rfl, fun temp => ?_⟩
    by_cases he : h.disk.content = []
    · simp [loadCalls, he, FilePair.runAll]
    · have hce : (readOutbox codec h.disk.content).dirty = false := by simpa [he] using hr
      simp [loadCalls, hu, he, hce, FilePair.runAll]

theorem killed_load (hf : codec.Faithful) {done : List (Syscall UInt8)} (hp : done <+: h.loadCalls codec)
    (temp : Bytes) : (readOutbox codec (FilePair.runAll { file := h.disk.content, temp } done).file).events =
      (readOutbox codec h.disk.content).events := by
  have hsa : (FilePair.runAll { file := h.disk.content, temp } done).file = h.disk.content ∨
      (FilePair.runAll { file := h.disk.content, temp } done).file =
        outboxLines codec (readOutbox codec h.disk.content).events := by
    unfold loadCalls at hp
    split at hp
    · obtain rfl := List.prefix_nil.mp hp
      exact .inl rfl
    split at hp
    · exact FilePair.killed_replace _ hp
    · obtain rfl := List.prefix_nil.mp hp
      exact .inl rfl
  rcases hsa with old | new
  · rw [old]
  · rw [new, readOutbox_rewritten ((accepted_readOutbox codec _).storable hf), newest_readOutbox]

section Append
variable (faithful : codec.Faithful) {events : List Event} (consistent : Consistent codec h)
  (loaded : h.outbox.loaded = true) (accepted : Accepted events)
include faithful accepted

theorem appendCalls_eq (h : OutboxHost) : appendCalls codec events h =
    Syscall.appendAll (outboxLines codec events) ++
      if h.outbox.fileLines + events.length > outboxCompactThreshold then
        rewriteCalls codec (newest (h.outbox.events ++ events)) else [] := by
  obtain ⟨lines, all⟩ := (accepted.storable faithful).mapM
  simp only [appendCalls, all, outboxLines, (List.mapM_eq_some_iff.mp all).2]

theorem appendLocked_eq (h : OutboxHost) : h.appendLocked codec {} events =
    if h.outbox.fileLines + events.length > outboxCompactThreshold then
      (true, { outbox := { h.outbox with
                 events := newest (h.outbox.events ++ events)
                 fileLines := (newest (h.outbox.events ++ events)).length }
               disk := (h.disk.append (outboxLines codec events)).rename
                 (outboxLines codec (newest (h.outbox.events ++ events))) })
    else
      (true, { outbox := { h.outbox with
                 events := newest (h.outbox.events ++ events)
                 fileLines := h.outbox.fileLines + events.length }
               disk := h.disk.append (outboxLines codec events) }) := by
  obtain ⟨lines, all⟩ := (accepted.storable faithful).mapM
  have hby : lines.flatMap (· ++ [10]) = outboxLines codec events := by rw [outboxLines, (List.mapM_eq_some_iff.mp all).2]
  by_cases hfu : h.outbox.fileLines + events.length > outboxCompactThreshold
  · simp [appendLocked, all, hby, hfu, rewriteLocked]
  · simp [appendLocked, all, hby, hfu]

include consistent loaded

theorem readOutbox_compacted : (readOutbox codec (outboxLines codec (newest (h.outbox.events ++ events)))).events =
    newest ((readOutbox codec h.disk.content).events ++ events) := by
  have hq : Accepted (h.outbox.events ++ events) := by
    rw [consistent.events loaded]
    exact (accepted_readOutbox codec _).append accepted
  rw [readOutbox_rewritten ((hq.sublist (newest_sublist _)).storable faithful), newest_newest,
    consistent.events loaded]

theorem appendLocked_done :
    ∃ h', h.appendLocked codec {} events = (true, h') ∧ Consistent codec h' ∧ h'.outbox.closed = h.outbox.closed ∧
      (readOutbox codec h'.disk.content).events = newest ((readOutbox codec h.disk.content).events ++ events) ∧
      ∀ temp, (FilePair.runAll { file := h.disk.content, temp } (appendCalls codec events h)).file = h'.disk.content := by
  have hca := appendCalls_eq faithful accepted h
  have hcm := readOutbox_compacted faithful consistent loaded accepted
  have hap := readOutbox_appended_all (consistent.whole loaded) (consistent.plain loaded)
    (accepted.storable faithful)
  rw [appendLocked_eq faithful accepted h]
  rw [← consistent.events loaded] at hcm hap ⊢
  generalize newest (h.outbox.events ++ events) = queued at hca hcm hap ⊢
  by_cases hfu : h.outbox.fileLines + events.length > outboxCompactThreshold
  · rw [if_pos hfu]
    refine ⟨_, rfl, ⟨fun _ => hcm.symm, fun _ => outboxLines_whole codec queued,
      fun _ => head_outboxLines codec queued⟩, rfl, hcm, fun temp => ?_⟩
    rw [hca, if_pos hfu, FilePair.runAll_append, rewriteCalls, FilePair.runAll_replace]
    rfl
  · rw [if_neg hfu]
    refine ⟨_, rfl, ⟨fun _ => hap.symm, fun _ => (consistent.whole loaded).append (outboxLines_whole codec events),
      fun _ => head_append (consistent.plain loaded) (head_outboxLines codec events)⟩, rfl, hap, fun temp => ?_⟩
    rw [hca, if_neg hfu, List.append_nil, FilePair.runAll_appendAll]
    rfl

theorem killed_append {done : List (Syscall UInt8)} (hp : done <+: appendCalls codec events h) (temp : Bytes) :
    ∃ n, (readOutbox codec (FilePair.runAll { file := h.disk.content, temp } done).file).events =
      newest ((readOutbox codec h.disk.content).events ++ events.take n) := by
  have hw := consistent.whole loaded
  have hpl := consistent.plain loaded
  rw [appendCalls_eq faithful accepted h] at hp
  rcases FilePair.killed_between hp with han | ⟨rest, hre, rfl⟩
  · obtain ⟨written, hin, file⟩ := FilePair.killed_appendAll { file := h.disk.content, temp } han
    rw [file]
    exact readOutbox_cut faithful hw hpl accepted hin
  · -- all was appended, and the file may have been compacted since
    refine ⟨events.length, ?_⟩
    rw [List.take_length, FilePair.runAll_append, FilePair.runAll_appendAll]
    have hap := readOutbox_appended_all hw hpl (accepted.storable faithful)
    split at hre
    · rcases FilePair.killed_replace _ hre with old | new
      · rw [old]
        exact hap
      · rw [new]
        exact readOutbox_compacted faithful consistent loaded accepted
    · obtain rfl := List.prefix_nil.mp hre
      exact hap

end Append

/-! ### Each call -/

def queue (codec : EventCodec) (h : OutboxHost) : CappedQueue :=
  { events := (readOutbox codec h.disk.content).events, closed := h.outbox.closed }

/-- A call does to the queue what it should, and a kill between its system calls leaves one of the queues that it may
    leave. -/
structure Refines (codec : EventCodec) (h : OutboxHost) (op : Op) : Prop where
  consistent : Consistent codec (h.apply codec {} op)
  queue : (h.apply codec {} op).queue codec = (h.queue codec).apply op
  calls : ∀ temp, (FilePair.runAll { file := h.disk.content, temp } (h.calls codec op)).file =
    (h.apply codec {} op).disk.content
  left : ∀ temp done, done <+: h.calls codec op →
    (h.queue codec).Left op (readOutbox codec (FilePair.runAll { file := h.disk.content, temp } done).file).events

theorem Refines.idle {op : Op} (consistent : Consistent codec h) (hsa : h.apply codec {} op = h)
    (hn : h.calls codec op = []) (hke : (h.queue codec).apply op = h.queue codec) : Refines codec h op where
  consistent := by rwa [hsa]
  queue := by rw [hsa, hke]
  calls := by rw [hn, hsa]; exact fun _ => rfl
  left := by
    intro temp done hp
    rw [hn, List.prefix_nil] at hp
    rw [hp]
    exact .before

variable {events : List Event}

theorem enqueue_done (hf : codec.Faithful) (hc : Consistent codec h)
    (ha : Accepted events) (hso : events ≠ []) (ho : h.outbox.closed = false) :
    ∃ h₁ h₂, h.loadLocked codec {} = (true, h₁) ∧ h₁.appendLocked codec {} events = (true, h₂) ∧
      Consistent codec h₂ ∧ h₂.outbox.closed = false ∧
      (readOutbox codec h₂.disk.content).events = newest ((readOutbox codec h.disk.content).events ++ events) ∧
      (∀ temp, (FilePair.runAll { file := h.disk.content, temp } (h.enqueueCalls codec events)).file = h₂.disk.content) ∧
      ∀ temp done, done <+: h.enqueueCalls codec events →
        ∃ n, (readOutbox codec (FilePair.runAll { file := h.disk.content, temp } done).file).events =
          newest ((readOutbox codec h.disk.content).events ++ events.take n) := by
  obtain ⟨h₁, hlo, hl⟩ := loadLocked_done hf hc
  obtain ⟨h₂, hae, hcn, hcl, hqu, hca⟩ :=
    appendLocked_done hf hl.toConsistent hl.loaded ha
  have hbo : h.enqueueCalls codec events = h.loadCalls codec ++ appendCalls codec events h₁ := by
    simp [enqueueCalls, hso, ho, hlo]
  rw [hl.queue] at hqu
  refine ⟨h₁, h₂, hlo, hae, hcn, hcl.trans (hl.closed.trans ho), hqu, ?_, ?_⟩
  · intro temp
    rw [hbo, FilePair.runAll_append]
    have file := hl.calls temp
    rw [← hca (FilePair.runAll { file := h.disk.content, temp } (h.loadCalls codec)).temp, ← file]
  · intro temp done hp
    rw [hbo] at hp
    rcases FilePair.killed_between hp with hla | ⟨rest, han, rfl⟩
    · refine ⟨0, ?_⟩
      rw [killed_load hf hla temp, List.take_zero, List.append_nil, newest_readOutbox]
    · obtain ⟨n, hle⟩ := killed_append hf hl.toConsistent hl.loaded ha han
        (FilePair.runAll { file := h.disk.content, temp } (h.loadCalls codec)).temp
      rw [hl.queue, ← hl.calls temp] at hle
      exact ⟨n, by rw [FilePair.runAll_append]; exact hle⟩

theorem Refines.of_enqueue (hf : codec.Faithful) (hc : Consistent codec h) {op : Op}
    (ha : Accepted op.appended)
    (had : ∀ q : CappedQueue, q.closed = false → q.apply op = { q with events := newest (q.events ++ op.appended) })
    (hca : h.calls codec op = h.enqueueCalls codec op.appended)
    (hrf : op.appended = [] ∨ h.outbox.closed = true → h.apply codec {} op = h)
    (hd : ∀ h₁ h₂, op.appended ≠ [] → h.outbox.closed = false → h.loadLocked codec {} = (true, h₁) →
      h₁.appendLocked codec {} op.appended = (true, h₂) →
      (h.apply codec {} op).outbox = h₂.outbox ∧ (h.apply codec {} op).disk.content = h₂.disk.content) :
    Refines codec h op := by
  by_cases hi : op.appended = [] ∨ h.outbox.closed = true
  · refine .idle hc (hrf hi) (by rw [hca, enqueueCalls, if_pos hi]) ?_
    cases hcl : h.outbox.closed with
    | true => simp [CappedQueue.apply, OutboxHost.queue, hcl]
    | false =>
      have hn : op.appended = [] := by simpa [hcl] using hi
      rw [had _ hcl, hn, List.append_nil, OutboxHost.queue]
      simp only [newest_readOutbox]
  · rw [not_or, Bool.not_eq_true] at hi
    obtain ⟨h₁, h₂, hlo, hae, hcn, hcl, hqu, hfl, hle⟩ :=
      enqueue_done hf hc ha hi.1 hi.2
    obtain ⟨hou, hco⟩ := hd h₁ h₂ hi.1 hi.2 hlo hae
    refine ⟨⟨?_, ?_, ?_⟩, ?_, ?_, ?_⟩
    · rw [hou, hco]
      exact hcn.events
    · rw [hou, hco]
      exact hcn.whole
    · rw [hou, hco]
      exact hcn.plain
    · rw [had _ hi.2, OutboxHost.queue, hou, hco, hqu, hcl]
      simp only [OutboxHost.queue, hi.2]
    · intro temp
      rw [hca, hco]
      exact hfl temp
    · intro temp killed hp
      rw [hca] at hp
      obtain ⟨n, events⟩ := hle temp killed hp
      rw [events]
      exact .part n hi.2

theorem Refines.enqueue (hf : codec.Faithful) (hc : Consistent codec h) (event : Event) :
    Refines codec h (.enqueue event) := by
  have hap : (Op.enqueue event).appended = (validateOutboxEvent event).toList := rfl
  refine .of_enqueue hf hc ?_ (fun q ho => by simp [CappedQueue.apply, ho]) rfl ?_ ?_
  · intro e mem
    exact validateOutboxEvent_idem (Option.mem_toList.mp mem)
  · intro hi
    cases hv : validateOutboxEvent event with
    | none => simp [OutboxHost.apply, OutboxHost.enqueue, hv]
    | some e =>
      have hcl : h.outbox.closed = true := by simpa [hap, hv] using hi
      simp [OutboxHost.apply, OutboxHost.enqueue, hv, hcl]
  · intro h₁ h₂ hso ho hlo hae
    cases hv : validateOutboxEvent event with
    | none => simp [hap, hv] at hso
    | some e =>
      rw [hap, hv, Option.toList_some] at hae
      simp [OutboxHost.apply, OutboxHost.enqueue, hv, ho, hlo, hae]

theorem Refines.enqueueBatch (hf : codec.Faithful) (hc : Consistent codec h) (events : List Event) :
    Refines codec h (.enqueueBatch events) := by
  have hap : (Op.enqueueBatch events).appended = events.filterMap validateOutboxEvent := rfl
  refine .of_enqueue hf hc (accepted_filterMap events) (fun q ho => by simp [CappedQueue.apply, ho])
    rfl ?_ ?_
  · intro hi
    by_cases hn : events.filterMap validateOutboxEvent = []
    · simp only [OutboxHost.apply, OutboxHost.enqueueBatch, if_pos hn]
    · have hcl : h.outbox.closed = true := hi.resolve_left hn
      simp only [OutboxHost.apply, OutboxHost.enqueueBatch, if_neg hn, hcl, if_true]
  · intro h₁ h₂ hso ho hlo hae
    rw [hap] at hso hae
    simp [OutboxHost.apply, OutboxHost.enqueueBatch, hso, ho, hlo, hae]

theorem Refines.of_rewrite (hf : codec.Faithful) {op : Op} {h₁ : OutboxHost} (hl : Loaded codec h h₁)
    (ha : Accepted events) (hcp : newest events = events)
    (hqu : (h.queue codec).apply op = { events, closed := h.outbox.closed })
    (hou : (h.apply codec {} op).outbox.events = events) (closed : (h.apply codec {} op).outbox.closed = h.outbox.closed)
    (hca : h.calls codec op = h.loadCalls codec ∧ (h.apply codec {} op).disk.content = h₁.disk.content ∧
        (readOutbox codec h.disk.content).events = events ∨
      h.calls codec op = h.loadCalls codec ++ rewriteCalls codec events ∧
        (h.apply codec {} op).disk.content = outboxLines codec events) : Refines codec h op := by
  have hsn : (readOutbox codec (h.apply codec {} op).disk.content).events = events := by
    rcases hca with ⟨-, hco, hsa⟩ | ⟨-, hco⟩
    · rw [hco, hl.queue, hsa]
    · rw [hco, readOutbox_rewritten (ha.storable hf), hcp]
  have hb : Lines.Whole 10 (h.apply codec {} op).disk.content ∧
      (h.apply codec {} op).disk.content.head? ≠ some 91 := by
    rcases hca with ⟨-, hco, -⟩ | ⟨-, hco⟩
    · rw [hco]
      exact ⟨hl.whole hl.loaded, hl.plain hl.loaded⟩
    · rw [hco]
      exact ⟨outboxLines_whole codec events, head_outboxLines codec events⟩
  have haf : ((h.queue codec).apply op).events = events := by rw [hqu]
  refine ⟨⟨fun _ => by rw [hou, hsn], fun _ => hb.1, fun _ => hb.2⟩, ?_, ?_, ?_⟩
  · rw [hqu, OutboxHost.queue, hsn, closed]
  · intro temp
    rcases hca with ⟨hlo, hco, -⟩ | ⟨hbo, hco⟩
    · rw [hlo, hco, hl.calls]
    · rw [hbo, hco, FilePair.runAll_append, rewriteCalls, FilePair.runAll_replace]
  · intro temp done hp
    have hla : done <+: h.loadCalls codec →
        (h.queue codec).Left op (readOutbox codec (FilePair.runAll { file := h.disk.content, temp } done).file).events := by
      intro hp
      rw [killed_load hf hp]
      exact .before
    rcases hca with ⟨hlo, -, -⟩ | ⟨hbo, -⟩
    · exact hla (hlo ▸ hp)
    · rw [hbo] at hp
      rcases FilePair.killed_between hp with hea | ⟨rest, hre, rfl⟩
      · exact hla hea
      · rw [FilePair.runAll_append]
        rcases FilePair.killed_replace _ hre with old | new
        · rw [old, hl.calls, hl.queue]
          exact .before
        · rw [new, readOutbox_rewritten (ha.storable hf), hcp, ← haf]
          exact .after

theorem Refines.closed {op : Op} (hc : Consistent codec h) (hcl : h.outbox.closed = true)
    (hsa : h.apply codec {} op = h) (hn : h.calls codec op = []) : Refines codec h op :=
  .idle hc hsa hn (by simp [CappedQueue.apply, OutboxHost.queue, hcl])

theorem Refines.removeSent (hf : codec.Faithful) (hc : Consistent codec h)
    (hl : h.outbox.loaded = true) (sent : List Event) : Refines codec h (.removeSent sent) := by
  cases hcl : h.outbox.closed with
  | true =>
    refine .closed hc hcl ?_ ?_
    · simp [OutboxHost.apply, OutboxHost.removeSent, hcl]
    · simp [OutboxHost.calls, removeCalls, hcl]
  | false =>
    obtain ⟨h₁, hlo, hd⟩ := loadLocked_done hf hc
    obtain rfl : h = h₁ := by simpa [loadLocked, hl] using hlo
    have hi : h.loadCalls codec = [] := by simp [loadCalls, hl]
    have hke : (h.outbox.events.filter fun e => !sent.any (·.eventID = e.eventID)).Sublist
        (readOutbox codec h.disk.content).events := by
      rw [← hc.events hl]
      exact List.filter_sublist
    refine .of_rewrite hf hd ((accepted_readOutbox codec _).sublist hke)
      (newest_of_sublist hke (newest_readOutbox codec _)) ?_ ?_ ?_ ?_
    · simp [CappedQueue.apply, OutboxHost.queue, hcl, hc.events hl]
    · simp only [OutboxHost.apply, OutboxHost.removeSent, hcl, Bool.false_eq_true, if_false]
      split <;> rfl
    · simp only [OutboxHost.apply, OutboxHost.removeSent, hcl, Bool.false_eq_true, if_false]
      split <;> simp [rewriteLocked]
    · by_cases any : (h.outbox.events.any fun e => sent.any (·.eventID = e.eventID)) = true
      · right
        simp [OutboxHost.calls, removeCalls, hcl, any, hi, OutboxHost.apply, OutboxHost.removeSent, rewriteLocked]
      · left
        have all : h.outbox.events.filter (fun e => !sent.any (·.eventID = e.eventID)) = h.outbox.events := by
          simpa using any
        refine ⟨?_, ?_, ?_⟩
        · simp only [OutboxHost.calls, removeCalls, hcl, Bool.false_eq_true, if_false, if_neg any, hi]
        · simp only [OutboxHost.apply, OutboxHost.removeSent, hcl, Bool.false_eq_true, if_false, if_neg any]
        · rw [all, hc.events hl]

theorem accepted_patched (ha : Accepted events) (sessionID : String)
    (attributes : KeyedMap String String) : Accepted (events.map (patchEvent sessionID attributes)) := by
  intro e' mem
  obtain ⟨e, hq, rfl⟩ := List.mem_map.mp mem
  obtain ⟨hv, hce⟩ := ha e hq
  unfold patchEvent
  split
  · exact ⟨hv, hce⟩
  · rename_i own
    have hot : e.event ≠ applicationConnectionEvent := fun hsa => own (.inr hsa)
    simpa [validateOutboxEvent, sanitizeOutboxEvent, hot] using hv

theorem patched_idle (ha : Accepted events) {sessionID : String}
    {attributes : KeyedMap String String} (hi : sessionID = "" ∨ attributes.entries = []) :
    events.map (patchEvent sessionID attributes) = events := by
  have hsa : ∀ e ∈ events, patchEvent sessionID attributes e = e := by
    intro e mem
    rcases hi with rfl | hn
    · have hna : e.sessionID ≠ "" := by
        intro hbl
        simpa [validateOutboxEvent, hbl] using (ha e mem).1
      simp [patchEvent, hna]
    · simp [patchEvent, hn]
  exact (List.map_congr_left hsa).trans (List.map_id' events)

theorem Refines.applySessionAttributes (hf : codec.Faithful) (hc : Consistent codec h) (sessionID : String)
    (attributes : KeyedMap String String) : Refines codec h (.applySessionAttributes sessionID attributes) := by
  have ha := accepted_readOutbox codec h.disk.content
  by_cases hi : sessionID = "" ∨ attributes.entries = []
  · refine .idle hc ?_ ?_ ?_
    · simp [OutboxHost.apply, OutboxHost.applySessionAttributes, hi]
    · simp [OutboxHost.calls, patchCalls, or_assoc.symm, hi]
    · simp [CappedQueue.apply, OutboxHost.queue, patched_idle ha hi]
  cases hcl : h.outbox.closed with
  | true =>
    refine .closed hc hcl ?_ ?_
    · simp [OutboxHost.apply, OutboxHost.applySessionAttributes, hcl]
    · simp [OutboxHost.calls, patchCalls, hcl]
  | false =>
    obtain ⟨h₁, hlo, hd⟩ := loadLocked_done hf hc
    have events : h₁.outbox.events = (readOutbox codec h.disk.content).events := by
      rw [hd.events hd.loaded, hd.queue]
    have hcp : newest ((readOutbox codec h.disk.content).events.map (patchEvent sessionID attributes)) =
        (readOutbox codec h.disk.content).events.map (patchEvent sessionID attributes) := by
      rw [newest_map, newest_readOutbox]
    have hca : h.calls codec (.applySessionAttributes sessionID attributes) = h.loadCalls codec ++
        if h₁.outbox.events.map (patchEvent sessionID attributes) ≠ h₁.outbox.events then
          rewriteCalls codec (h₁.outbox.events.map (patchEvent sessionID attributes)) else [] := by
      simp [OutboxHost.calls, patchCalls, hi, hcl, hlo]
    have hpa : h.apply codec {} (.applySessionAttributes sessionID attributes) =
        if h₁.outbox.events.map (patchEvent sessionID attributes) ≠ h₁.outbox.events then
          (rewriteLocked codec true
            { h₁ with outbox := { h₁.outbox with events := h₁.outbox.events.map (patchEvent sessionID attributes) } }).2
        else h₁ := by
      by_cases hch : h₁.outbox.events.map (patchEvent sessionID attributes) = h₁.outbox.events
      · simp [OutboxHost.apply, OutboxHost.applySessionAttributes, hi, hcl, hlo, hch]
      · simp [OutboxHost.apply, OutboxHost.applySessionAttributes, hi, hcl, hlo, hch]
    refine .of_rewrite hf hd (accepted_patched ha sessionID attributes) hcp ?_ ?_ ?_ ?_
    · simp [CappedQueue.apply, OutboxHost.queue, hcl]
    · rw [hpa, ← events]
      split
      · rfl
      · rename_i hsa
        exact (not_not.mp hsa).symm
    · rw [hpa]
      split
      · exact hd.closed
      · exact hd.closed
    · rw [hca, hpa, ← events]
      by_cases hch : h₁.outbox.events.map (patchEvent sessionID attributes) = h₁.outbox.events
      · left
        rw [if_neg (not_not.mpr hch), if_neg (not_not.mpr hch), List.append_nil]
        exact ⟨rfl, rfl, hch.symm⟩
      · right
        rw [if_pos hch, if_pos hch]
        exact ⟨rfl, rfl⟩

theorem Refines.touch (hf : codec.Faithful) (hc : Consistent codec h) : Refines codec h .touch := by
  cases hcl : h.outbox.closed with
  | true =>
    refine .closed hc hcl ?_ ?_
    · simp [OutboxHost.apply, OutboxHost.touch, hcl]
    · simp [OutboxHost.calls, hcl]
  | false =>
    obtain ⟨h₁, hlo, hd⟩ := loadLocked_done hf hc
    have hto : h.apply codec {} .touch = h₁ := by simp [OutboxHost.apply, OutboxHost.touch, hcl, hlo]
    refine .of_rewrite hf hd (accepted_readOutbox codec h.disk.content) (newest_readOutbox codec _) ?_ ?_ ?_ ?_
    · simp [CappedQueue.apply, OutboxHost.queue, hcl]
    · rw [hto, hd.events hd.loaded, hd.queue]
    · rw [hto, hd.closed]
    · left
      rw [hto]
      simp [OutboxHost.calls, hcl]

theorem Refines.close (consistent : Consistent codec h) : Refines codec h .close where
  consistent := ⟨consistent.events, consistent.whole, consistent.plain⟩
  queue := by
    cases hcl : h.outbox.closed <;>
      simp [OutboxHost.apply, OutboxHost.close, OutboxHost.queue, CappedQueue.apply, hcl]
  calls := fun _ => rfl
  left := by
    intro temp done hp
    obtain rfl := List.prefix_nil.mp hp
    exact .before

end OutboxHost

/-! ### Runs -/

namespace OutboxProcess
open OutboxHost

theorem refines (hf : codec.Faithful) {p : OutboxProcess} (hc : Consistent codec p.host) {op : Op}
    (hst : Started op p) : Refines codec p.host op := by
  cases op with
  | enqueue event => exact .enqueue hf hc event
  | enqueueBatch events => exact .enqueueBatch hf hc events
  | removeSent sent => exact .removeSent hf hc hst sent
  | applySessionAttributes sessionID attributes => exact .applySessionAttributes hf hc sessionID attributes
  | touch => exact .touch hf hc
  | close => exact .close hc

structure Shows (codec : EventCodec) (p : OutboxProcess) (q : CappedQueue) : Prop where
  reopen : p.reopen codec = q.events
  loaded : p.host.outbox.loaded = true → p.host.outbox.events = q.events
  closed : p.host.outbox.closed = q.closed

theorem shows_queue {p : OutboxProcess} (hc : Consistent codec p.host) : p.Shows codec (p.host.queue codec) where
  reopen := by rw [reopen, loadLocked_first codec rfl]; rfl
  loaded := hc.events
  closed := rfl

theorem consistent_opened (codec : EventCodec) (disk : Disk UInt8) : Consistent codec { disk } :=
  ⟨nofun, nofun, nofun⟩

theorem step_refines (hf : codec.Faithful) {p p' : OutboxProcess} {label : Label} (hc : Consistent codec p.host)
    (hse : Step codec p label p') :
    Consistent codec p'.host ∧ (p.host.queue codec).Step label (p'.host.queue codec) := by
  cases hse with
  | call op hst =>
    have call := refines hf hc hst
    refine ⟨call.consistent, ?_⟩
    rw [call.queue]
    exact .call op
  | killed op hst done hp =>
    refine ⟨consistent_opened codec _, .killed op ?_⟩
    exact (refines hf hc hst).left p.temp done hp
  | reopened => exact ⟨consistent_opened codec _, .reopened⟩

theorem trace_refines (hf : codec.Faithful) {p p' : OutboxProcess} {labels : List Label}
    (hc : Consistent codec p.host) (run : Trace (Step codec) p labels p') :
    Consistent codec p'.host ∧ Trace CappedQueue.Step (p.host.queue codec) labels (p'.host.queue codec) := by
  have has : ∀ (a : OutboxProcess) (label : Label) (b : OutboxProcess) (q : CappedQueue),
      Consistent codec a.host ∧ q = a.host.queue codec → Step codec a label b →
        ∃ q', q.Step label q' ∧ Consistent codec b.host ∧ q' = b.host.queue codec := by
    rintro a label b q ⟨hc, rfl⟩ hse
    obtain ⟨haf, hq⟩ := step_refines hf hc hse
    exact ⟨_, hq, haf, rfl⟩
  obtain ⟨q, hq, hc, rfl⟩ := run.simulate has ⟨hc, rfl⟩
  exact ⟨hc, hq⟩

end OutboxProcess

/-! ### No event comes back -/

theorem OutboxHost.patchEvent_eventID (sessionID : String) (attributes : KeyedMap String String) (e : Event) :
    (patchEvent sessionID attributes e).eventID = e.eventID := by
  unfold patchEvent
  split <;> rfl

namespace CappedQueue
open OutboxHost (Op)

theorem mem_newest_append (events appended : List Event) {e : Event} (mem : e ∈ newest (events ++ appended)) :
    (∃ x ∈ events, x.eventID = e.eventID) ∨ ∃ x ∈ appended, x.eventID = e.eventID := by
  rcases List.mem_append.mp ((newest_sublist _).subset mem) with old | new
  · exact .inl ⟨e, old, rfl⟩
  · exact .inr ⟨e, new, rfl⟩

theorem mem_apply {q : CappedQueue} {op : Op} {e : Event} (mem : e ∈ (q.apply op).events) :
    (∃ x ∈ q.events, x.eventID = e.eventID) ∨ ∃ x ∈ op.appended, x.eventID = e.eventID := by
  unfold apply at mem
  split at mem
  · exact .inl ⟨e, mem, rfl⟩
  · split at mem
    · dsimp only at mem
      exact mem_newest_append q.events _ mem
    · dsimp only at mem
      exact mem_newest_append q.events _ mem
    · exact .inl ⟨e, (List.mem_filter.mp mem).1, rfl⟩
    · obtain ⟨x, hq, rfl⟩ := List.mem_map.mp mem
      exact .inl ⟨x, hq, (OutboxHost.patchEvent_eventID ..).symm⟩
    · exact .inl ⟨e, mem, rfl⟩
    · exact .inl ⟨e, mem, rfl⟩

theorem Step.mem {q q' : CappedQueue} {label : OutboxProcess.Label} (hse : q.Step label q') {e : Event}
    (mem : e ∈ q'.events) :
    (∃ x ∈ q.events, x.eventID = e.eventID) ∨ ∃ x ∈ label.appended, x.eventID = e.eventID := by
  cases hse with
  | call op => exact mem_apply mem
  | reopened => exact .inl ⟨e, mem, rfl⟩
  | killed op hle =>
    cases hle with
    | before => exact .inl ⟨e, mem, rfl⟩
    | after => exact mem_apply mem
    | part n ho =>
      dsimp only at mem
      rcases mem_newest_append q.events _ mem with old | ⟨x, new, hsa⟩
      · exact .inl old
      · exact .inr ⟨x, List.mem_of_mem_take new, hsa⟩

theorem Trace.mem {q q' : CappedQueue} {labels : List OutboxProcess.Label} (run : Trace Step q labels q') {e : Event}
    (mem : e ∈ q'.events) :
    (∃ x ∈ q.events, x.eventID = e.eventID) ∨ ∃ label ∈ labels, ∃ x ∈ label.appended, x.eventID = e.eventID := by
  induction run generalizing e with
  | refl => exact .inl ⟨e, mem, rfl⟩
  | snoc hbe hls ih =>
    rename_i label
    rcases hls.mem mem with ⟨x, hq, hsa⟩ | ⟨x, new, hsa⟩
    · rcases ih hq with ⟨y, old, hsm⟩ | ⟨label, her, y, new, hsm⟩
      · exact .inl ⟨y, old, hsm.trans hsa⟩
      · exact .inr ⟨label, by simp [her], y, new, hsm.trans hsa⟩
    · exact .inr ⟨label, by simp, x, new, hsa⟩

end CappedQueue

/-! ### An encoding -/

def tally (n : Nat) : Bytes := 123 :: (List.replicate n 49 ++ [125])

theorem tally_injective : Function.Injective tally := by
  intro m n hsa
  have := congrArg List.length hsa
  simpa [tally] using this

theorem tally_cut {n m : Nat} {tail : Bytes} (hp : tail <+: tally n) (hsh : tail ≠ tally n) : tail ≠ tally m := by
  have hls : tally n = (123 :: List.replicate n 49) ++ [125] := rfl
  rw [hls, List.prefix_concat_iff, ← hls] at hp
  have hea := hp.resolve_left hsh
  rintro rfl
  have : (125 : UInt8) ∈ 123 :: List.replicate n 49 := hea.subset (by simp [tally])
  simp at this

theorem countable_string : Countable String := by
  refine Function.Injective.countable (f := fun s : String => s.toList.map Char.toNat) fun s s' hsa => ?_
  have ht : Function.Injective Char.toNat := fun _ _ hsa => Char.toNat_inj.mp hsa
  exact String.toList_inj.mp (List.map_injective_iff.mpr ht hsa)

theorem countable_event : Countable Event := by
  have := countable_string
  refine Function.Injective.countable (f := fun e : Event => (e.schemaVersion, e.eventID, e.event, e.occurredAt, e.clientID,
    e.sessionID, e.relayID, e.application, e.applicationID, e.attributes.entries, e.measurements.entries)) ?_
  rintro ⟨⟩ ⟨⟩ hsa
  simpa [AList.ext_iff] using hsa

theorem exists_faithful : ∃ codec : EventCodec, codec.Faithful := by
  classical
  have := countable_event
  obtain ⟨number, hij⟩ := Countable.exists_injective_nat Event
  have hte : Function.Injective fun e => tally (number e) := tally_injective.comp hij
  refine ⟨{ marshal := fun e => some (tally (number e))
            unmarshal := fun line => if hk : ∃ e, tally (number e) = line then some hk.choose else none
            probe := fun _ => none
            elements := fun _ => []
            blank := fun line => line = []
            unmarshal_marshal := ?_, one_line := ?_, not_blank := ?_, no_array := ?_, blank_nil := by simp }, ?_, ?_⟩
  · rintro e line hm
    obtain rfl : tally (number e) = line := by simpa using hm
    have hk : ∃ e', tally (number e') = tally (number e) := ⟨e, rfl⟩
    rw [dif_pos hk, hte hk.choose_spec]
  · rintro e line hm
    obtain rfl : tally (number e) = line := by simpa using hm
    simp [tally]
  · rintro e line hm
    obtain rfl : tally (number e) = line := by simpa using hm
    simp [tally]
  · rintro e line hm
    obtain rfl : tally (number e) = line := by simpa using hm
    simp [tally]
  · exact fun _ _ => rfl
  · intro e line tail hm hp hsh
    obtain rfl : tally (number e) = line := by simpa using hm
    refine dif_neg ?_
    rintro ⟨e', hsa⟩
    exact tally_cut hp hsh hsa.symm

/-! ### The refinement -/

end OpenRung.Telemetry
