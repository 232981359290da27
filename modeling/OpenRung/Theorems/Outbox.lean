import OpenRung.Lib.Lines
import OpenRung.Telemetry.Outbox

/-! What a batch that `EnqueueBatch` accepted is worth after a crash. A batch that was appended at a line boundary, or
    that reached the file through a rewrite, is what the next outbox loads last. An append that fails in the middle of
    a line leaves no line boundary; if the rewrite that should repair the file fails too, the next batch fuses with
    the torn line. -/

namespace OpenRung.Telemetry

variable {codec : EventCodec}

/-! ### Events and the cap -/

theorem sanitizeOutboxEvent_idem (e : Event) : sanitizeOutboxEvent (sanitizeOutboxEvent e) = sanitizeOutboxEvent e := by
  by_cases hsc : e.event = applicationConnectionEvent ∧ e.attributes.entries ≠ []
  · have hcl : sanitizeOutboxEvent e = { e with attributes := ∅ } := if_pos hsc
    rw [hcl]
    exact if_neg fun hag => hag.2 rfl
  · have hsa : sanitizeOutboxEvent e = e := if_neg hsc
    rw [hsa, hsa]

theorem validateOutboxEvent_idem {e e' : Event} (hv : validateOutboxEvent e = some e') :
    validateOutboxEvent e' = some e' ∧ sanitizeOutboxEvent e' = e' := by
  unfold validateOutboxEvent at hv
  split at hv
  · cases hv
  · rename_i hna
    cases hv
    have hsa : (sanitizeOutboxEvent e).eventID = e.eventID ∧ (sanitizeOutboxEvent e).event = e.event ∧
        (sanitizeOutboxEvent e).clientID = e.clientID ∧ (sanitizeOutboxEvent e).sessionID = e.sessionID := by
      unfold sanitizeOutboxEvent
      split <;> exact ⟨rfl, rfl, rfl, rfl⟩
    refine ⟨?_, sanitizeOutboxEvent_idem e⟩
    rw [validateOutboxEvent, hsa.1, hsa.2.1, hsa.2.2.1, hsa.2.2.2, if_neg hna, sanitizeOutboxEvent_idem]

theorem newest_append (older events : List Event) : newest events <:+ newest (older ++ events) := by
  have hrs : (older ++ events).length - outboxMaxQueued - older.length = events.length - outboxMaxQueued := by
    rw [List.length_append]
    omega
  refine ⟨older.drop ((older ++ events).length - outboxMaxQueued), ?_⟩
  rw [newest, newest, List.drop_append, hrs]

theorem newest_sublist (events : List Event) : (newest events).Sublist events := List.drop_sublist _ events

theorem newest_newest (events : List Event) : newest (newest events) = newest events := by
  have hsh : (newest events).length - outboxMaxQueued = 0 := by
    rw [newest, List.length_drop]
    omega
  rw [newest, hsh, List.drop_zero]

/-! ### Lines -/

theorem outboxLines_append (codec : EventCodec) (xs ys : List Event) :
    outboxLines codec (xs ++ ys) = outboxLines codec xs ++ outboxLines codec ys := by
  simp [outboxLines]

theorem outboxLines_whole (codec : EventCodec) (events : List Event) : Lines.Whole 10 (outboxLines codec events) :=
  Lines.whole_flatMap _

theorem head_lines {lines : List Bytes} (hp : ∀ line ∈ lines, line.head? ≠ some 91) :
    (lines.flatMap (· ++ [10])).head? ≠ some 91 := by
  cases lines with
  | nil => simp
  | cons line lines =>
    have hfi := hp line (by simp)
    cases line with
    | nil => simp
    | cons b line => simpa using hfi

theorem mem_filterMap_marshal {events : List Event} {line : Bytes} (mem : line ∈ events.filterMap codec.marshal) :
    10 ∉ line ∧ codec.blank line = false ∧ line.head? ≠ some 91 := by
  obtain ⟨e, -, hma⟩ := List.mem_filterMap.mp mem
  exact ⟨codec.one_line e line hma, codec.not_blank e line hma, codec.no_array e line hma⟩

theorem head_outboxLines (codec : EventCodec) (events : List Event) : (outboxLines codec events).head? ≠ some 91 :=
  head_lines fun _ mem => (mem_filterMap_marshal mem).2.2

theorem splitOn_whole_append {a : Bytes} (hw : Lines.Whole 10 a) (b : Bytes) :
    ∃ front, (a ++ b).splitOn 10 = front ++ b.splitOn 10 := by
  obtain rfl | ⟨a, rfl⟩ := hw
  · exact ⟨[], rfl⟩
  · refine ⟨a.splitOn 10, ?_⟩
    rw [List.append_assoc, List.singleton_append, List.splitOn_append_cons_self]

theorem splitOn_lines {lines : List Bytes} (hfr : ∀ line ∈ lines, (10 : UInt8) ∉ line) :
    (lines.flatMap (· ++ [10])).splitOn 10 = lines ++ [[]] := by
  induction lines with
  | nil => rfl
  | cons line lines ih =>
    rw [List.flatMap_cons, List.append_assoc, List.singleton_append,
      List.splitOn_append_cons_self_of_not_mem (hfr line (by simp)), ih fun l mem => hfr l (by simp [mem])]
    rfl

/-! ### Reading a file back -/

def storedEvents (codec : EventCodec) (raw : Bytes) : List Event :=
  (((raw.splitOn 10).filter fun line => !codec.blank line).filterMap (decodeOutboxEvent codec)).map sanitizeOutboxEvent

theorem readOutbox_events {raw : Bytes} (hp : raw.head? ≠ some 91) :
    (readOutbox codec raw).events = newest (storedEvents codec raw) := by
  simp only [readOutbox, if_neg hp, storedEvents]

structure Storable (codec : EventCodec) (events : List Event) : Prop where
  valid : ∀ e ∈ events, validateOutboxEvent e = some e ∧ sanitizeOutboxEvent e = e
  marshals : ∀ e ∈ events, (codec.marshal e).isSome

theorem Storable.sublist {xs ys : List Event} (hs : Storable codec ys) (sub : xs.Sublist ys) :
    Storable codec xs :=
  ⟨fun e mem => hs.valid e (sub.subset mem), fun e mem => hs.marshals e (sub.subset mem)⟩

theorem Storable.decoded {events : List Event} (hs : Storable codec events) :
    ((events.filterMap codec.marshal).filterMap (decodeOutboxEvent codec)).map sanitizeOutboxEvent = events := by
  induction events with
  | nil => rfl
  | cons e events ih =>
    obtain ⟨hv, hc⟩ := hs.valid e (by simp)
    obtain ⟨line, hma⟩ := Option.isSome_iff_exists.mp (hs.marshals e (by simp))
    have hde : decodeOutboxEvent codec line = some e := by
      rw [decodeOutboxEvent, codec.unmarshal_marshal e line hma, Option.bind_some, hv]
    rw [List.filterMap_cons_some hma, List.filterMap_cons_some hde, List.map_cons, hc,
      ih (hs.sublist (List.sublist_cons_self e events))]

theorem Storable.stored {a : Bytes} (hw : Lines.Whole 10 a) {events : List Event} (hs : Storable codec events) :
    ∃ older, storedEvents codec (a ++ outboxLines codec events) = older ++ events := by
  obtain ⟨front, hsp⟩ := splitOn_whole_append hw (outboxLines codec events)
  have hli : (outboxLines codec events).splitOn 10 = events.filterMap codec.marshal ++ [[]] :=
    splitOn_lines fun _ mem => (mem_filterMap_marshal mem).1
  have hk : (events.filterMap codec.marshal).filter (fun line => !codec.blank line) = events.filterMap codec.marshal :=
    List.filter_eq_self.mpr fun _ mem => by simp [(mem_filterMap_marshal mem).2.1]
  refine ⟨((front.filter fun line => !codec.blank line).filterMap (decodeOutboxEvent codec)).map sanitizeOutboxEvent, ?_⟩
  simp only [storedEvents, hsp, hli, List.filter_append, List.filterMap_append, List.map_append, hk,
    hs.decoded]
  simp [codec.blank_nil]

theorem readOutbox_clean {raw : Bytes} (hc : (readOutbox codec raw).dirty = false) :
    Lines.Whole 10 raw ∧ raw.head? ≠ some 91 := by
  by_cases har : raw.head? = some 91
  · simp [readOutbox, har] at hc
  · simp only [readOutbox, if_neg har, Bool.or_eq_false_iff, decide_eq_false_iff_not, not_not] at hc
    exact ⟨Or.inr (List.getLast?_eq_some_iff.mp hc.1.1), har⟩

theorem readOutbox_nil (codec : EventCodec) : (readOutbox codec []).events = [] := by
  simp [readOutbox, codec.blank_nil, newest]

/-! ### What the calls leave in the file -/

namespace OutboxHost
variable {io : OutboxIO} {h h' : OutboxHost}

def Migrated (h : OutboxHost) : Prop := h.outbox.loaded = true → h.disk.content.head? ≠ some 91

theorem rewriteLocked_ok {ok : Bool} (hd : h.rewriteLocked codec ok = (true, h')) :
    h'.disk.content = outboxLines codec h.outbox.events ∧
      h'.outbox = { h.outbox with fileLines := h.outbox.events.length } := by
  cases ok with
  | false => simp [rewriteLocked] at hd
  | true =>
    cases hd
    exact ⟨rfl, rfl⟩

theorem Migrated.queue (hm : Migrated h) (events : List Event) :
    Migrated { h with outbox := { h.outbox with events } } := hm

theorem Migrated.rewriteLocked (hm : Migrated h) (codec : EventCodec) (ok : Bool) :
    Migrated (h.rewriteLocked codec ok).2 := by
  cases ok with
  | false => exact hm
  | true => exact fun _ => head_outboxLines codec h.outbox.events

/-- A failed load caches nothing, and one that succeeds has read the file and left whole lines in it. -/
theorem loadLocked_cases (codec : EventCodec) (io : OutboxIO) (h : OutboxHost) :
    (h.outbox.loaded = true ∧ h.loadLocked codec io = (true, h)) ∨
    (∃ h', h.loadLocked codec io = (false, h') ∧ h'.outbox.loaded = false) ∨
    (∃ h', h.loadLocked codec io = (true, h') ∧ h.outbox.loaded = false ∧ Lines.Whole 10 h'.disk.content ∧
      h'.disk.content.head? ≠ some 91 ∧ h'.outbox.events = (readOutbox codec h.disk.content).events) := by
  by_cases hl : h.outbox.loaded = true
  · exact Or.inl ⟨hl, if_pos hl⟩
  have hu : h.outbox.loaded = false := by simpa using hl
  right
  simp only [loadLocked, if_neg hl]
  split
  · exact Or.inl ⟨h, rfl, hu⟩
  split
  · exact Or.inl ⟨_, rfl, hu⟩
  split
  · -- no file, or an empty one
    rename_i he
    have hn : h.disk.content = [] := he
    refine Or.inr ⟨_, rfl, hu, Or.inl hn, by simp [hn], ?_⟩
    rw [hn, readOutbox_nil]
  split
  · -- the file does not hold exactly the events read, and is rewritten
    split
    · rename_i hrw
      cases hrp : io.repair with
      | false => simp [rewriteLocked, hrp] at hrw
      | true => exact Or.inr ⟨_, rfl, hu, outboxLines_whole codec _, head_outboxLines codec _, rfl⟩
    · exact Or.inl ⟨_, rfl, rfl⟩
  · rename_i hc
    obtain ⟨hw, hp⟩ := readOutbox_clean (by simpa using hc)
    exact Or.inr ⟨_, rfl, hu, hw, hp, rfl⟩

theorem Migrated.loadLocked (hm : Migrated h) (codec : EventCodec) (io : OutboxIO) :
    Migrated (h.loadLocked codec io).2 := by
  obtain ⟨-, hsa⟩ | ⟨h', hf, hu⟩ | ⟨h', hd, -, -, hp, -⟩ := loadLocked_cases codec io h
  · rwa [hsa]
  · rw [hf]
    exact fun hl => absurd hl (by simp [hu])
  · rw [hd]
    exact fun _ => hp

theorem head_append {a b : Bytes} (hle : a.head? ≠ some 91) (hri : b.head? ≠ some 91) :
    (a ++ b).head? ≠ some 91 := by
  cases a with
  | nil => exact hri
  | cons x a => exact hle

theorem head_take {a : Bytes} (hp : a.head? ≠ some 91) (k : Nat) : (a.take k).head? ≠ some 91 := by
  rw [List.head?_take]
  split
  · simp
  · exact hp

/-- An append appends lines of events, or a part of them, unless an event does not marshal. -/
theorem appendLocked_cases (codec : EventCodec) (io : OutboxIO) (events : List Event) (h : OutboxHost) :
    (∃ queued : OutboxHost, queued.outbox.events = newest (h.outbox.events ++ events) ∧
      (queued.outbox.loaded = h.outbox.loaded) ∧
      (∃ k, queued.disk.content = h.disk.content ++ (outboxLines codec events).take k) ∧
      h.appendLocked codec io events = queued.rewriteLocked codec io.rewrite) ∨
    (∃ h', h.appendLocked codec io events = (true, h') ∧ h'.outbox.loaded = h.outbox.loaded ∧ io.append = none ∧
      h.outbox.fileLines + events.length ≤ outboxCompactThreshold ∧
      h'.disk.content = h.disk.content ++ outboxLines codec events) := by
  cases all : events.mapM codec.marshal with
  | none =>
    refine Or.inl ⟨{ h with outbox := { h.outbox with events := newest (h.outbox.events ++ events) } },
      by dsimp only, rfl, ⟨0, by simp⟩, ?_⟩
    simp only [appendLocked, all]
  | some lines =>
    have hb : lines.flatMap (· ++ [10]) = outboxLines codec events := by rw [outboxLines, (List.mapM_eq_some_iff.mp all).2]
    cases hap : io.append with
    | some k =>
      refine Or.inl ⟨{ outbox := { h.outbox with events := newest (h.outbox.events ++ events)
                                                 fileLines := h.outbox.fileLines + events.length }
                       disk := h.disk.append ((outboxLines codec events).take k) }, by dsimp only, rfl, ⟨k, rfl⟩, ?_⟩
      simp [appendLocked, all, hap, hb]
    | none =>
      by_cases hfu : h.outbox.fileLines + events.length > outboxCompactThreshold
      · refine Or.inl ⟨{ outbox := { h.outbox with events := newest (h.outbox.events ++ events)
                                                   fileLines := h.outbox.fileLines + events.length }
                         disk := h.disk.append (outboxLines codec events) }, by dsimp only, rfl,
          ⟨(outboxLines codec events).length, by simp⟩, ?_⟩
        simp [appendLocked, all, hap, hb, hfu]
      · refine Or.inr ⟨{ outbox := { h.outbox with events := newest (h.outbox.events ++ events)
                                                   fileLines := h.outbox.fileLines + events.length }
                         disk := h.disk.append (outboxLines codec events) }, ?_, rfl, rfl, by omega, rfl⟩
        simp [appendLocked, all, hap, hb, hfu]

theorem Migrated.appendLocked (hm : Migrated h) (codec : EventCodec) (io : OutboxIO) (events : List Event) :
    Migrated (h.appendLocked codec io events).2 := by
  obtain ⟨queued, -, hl, ⟨k, hwr⟩, hre⟩ | ⟨h', hd, hl, -, -, hwr⟩ :=
    appendLocked_cases codec io events h
  · rw [hre]
    have hk : Migrated queued := fun hi => hwr ▸
      head_append (hm (hl ▸ hi)) (head_take (head_outboxLines codec events) k)
    exact hk.rewriteLocked codec io.rewrite
  · rw [hd]
    exact fun hi => hwr ▸ head_append (hm (hl ▸ hi)) (head_outboxLines codec events)

theorem Migrated.enqueue (hm : Migrated h) (io : OutboxIO) (event : Event) :
    Migrated (h.enqueue codec io event).2 := by
  have haf := hm.loadLocked codec io
  unfold OutboxHost.enqueue
  split
  · exact hm
  split
  · exact hm
  dsimp only
  split
  · exact haf.appendLocked codec io _
  · exact haf

theorem Migrated.enqueueBatch (hm : Migrated h) (io : OutboxIO) (events : List Event) :
    Migrated (h.enqueueBatch codec io events).2 := by
  have haf := hm.loadLocked codec io
  have hat := haf.appendLocked codec io (events.filterMap validateOutboxEvent)
  simp only [OutboxHost.enqueueBatch]
  split
  · exact hm
  split
  · exact hm
  split
  · exact haf
  split
  · exact hat
  split
  · exact hat
  · exact hat

theorem Migrated.removeSent (hm : Migrated h) (io : OutboxIO) (sent : List Event) :
    Migrated (h.removeSent codec io sent) := by
  simp only [OutboxHost.removeSent]
  split
  · exact hm
  split
  · exact (hm.queue _).rewriteLocked codec io.rewrite
  · exact hm

theorem Migrated.applySessionAttributes (hm : Migrated h) (io : OutboxIO) (sessionID : String)
    (attributes : KeyedMap String String) : Migrated (h.applySessionAttributes codec io sessionID attributes).2 := by
  have haf := hm.loadLocked codec io
  simp only [OutboxHost.applySessionAttributes]
  split
  · exact hm
  split
  · exact hm
  split
  · exact haf
  split
  · exact (haf.queue _).rewriteLocked codec io.rewrite
  · exact haf

theorem Migrated.apply (hm : Migrated h) (io : OutboxIO) (op : Op) : Migrated (h.apply codec io op) := by
  cases op with
  | enqueue event => exact hm.enqueue io event
  | enqueueBatch events => exact hm.enqueueBatch io events
  | removeSent sent => exact hm.removeSent io sent
  | applySessionAttributes sessionID attributes => exact hm.applySessionAttributes io sessionID attributes
  | touch =>
    simp only [OutboxHost.apply, touch]
    split
    · exact hm
    · exact hm.loadLocked codec io
  | close => exact hm

theorem Reachable.migrated {start : Disk UInt8} (hr : Reachable codec start h) : Migrated h := by
  induction hr with
  | opened => exact fun hl => absurd hl (by simp)
  | call io op _ ih => exact ih.apply io op

/-! ### An accepted batch -/

theorem enqueueBatch_accepted {events : List Event} {n : Int} (ha : h.enqueueBatch codec io events = (n, h'))
    (hpo : 0 < n) :
    ∃ loaded appended, h.loadLocked codec io = (true, loaded) ∧
      loaded.appendLocked codec io (events.filterMap validateOutboxEvent) = (true, appended) ∧
      n = (events.filterMap validateOutboxEvent).length ∧ h'.disk = appended.disk.sync := by
  simp only [enqueueBatch] at ha
  split at ha
  · cases ha
    exact absurd hpo (lt_irrefl 0)
  split at ha
  · cases ha
    exact absurd hpo (by decide)
  split at ha
  · cases ha
    exact absurd hpo (by decide)
  rename_i loaded
  split at ha
  · cases ha
    exact absurd hpo (by decide)
  rename_i appended
  split at ha
  · cases ha
    exact absurd hpo (by decide)
  cases ha
  exact ⟨_, _, Prod.ext (by simpa using loaded) rfl, Prod.ext (by simpa using appended) rfl, rfl, rfl⟩

theorem storable_batch {events : List Event}
    (hmr : ∀ e ∈ events.filterMap validateOutboxEvent, (codec.marshal e).isSome) :
    Storable codec (events.filterMap validateOutboxEvent) := by
  refine ⟨fun e mem => ?_, hmr⟩
  obtain ⟨given, -, hv⟩ := List.mem_filterMap.mp mem
  exact validateOutboxEvent_idem hv

theorem readOutbox_batch {base : Bytes} {batch : List Event} (hw : Lines.Whole 10 base)
    (hs : Storable codec batch) (hp : (base ++ outboxLines codec batch).head? ≠ some 91) :
    newest batch <:+ (readOutbox codec (base ++ outboxLines codec batch)).events := by
  obtain ⟨older, hst⟩ := hs.stored hw
  rw [readOutbox_events hp, hst]
  exact newest_append older batch

/-- The append of `batch` to the file of a loaded outbox starts a new line, or a rewrite follows it. -/
def AtBoundary (io : OutboxIO) (batch : List Event) (h : OutboxHost) : Prop :=
  Lines.Whole 10 h.disk.content ∨ io.append.isSome ∨ outboxCompactThreshold < h.outbox.fileLines + batch.length

theorem readOutbox_appended {batch : List Event} (hp : h.disk.content.head? ≠ some 91)
    (hbo : AtBoundary io batch h) (hs : Storable codec batch)
    (hap : h.appendLocked codec io batch = (true, h')) :
    newest batch <:+ (readOutbox codec h'.disk.content).events := by
  obtain ⟨queued, hev, -, -, hre⟩ | ⟨direct, hd, -, hw, hsh, hwr⟩ :=
    appendLocked_cases codec io batch h
  · -- the rewrite holds the queue, and the queue ends with the batch
    obtain ⟨older, hq⟩ := newest_append h.outbox.events batch
    have hco : h'.disk.content = outboxLines codec older ++ outboxLines codec (newest batch) := by
      rw [(rewriteLocked_ok (hre.symm.trans hap)).1, hev, ← hq, outboxLines_append]
    have hh : (outboxLines codec older ++ outboxLines codec (newest batch)).head? ≠ some 91 :=
      head_append (head_outboxLines codec _) (head_outboxLines codec _)
    have hrd := readOutbox_batch (outboxLines_whole codec older) (hs.sublist (newest_sublist batch)) hh
    rwa [newest_newest, ← hco] at hrd
  · obtain rfl : direct = h' := (Prod.ext_iff.mp (hd.symm.trans hap)).2
    rw [hwr]
    refine readOutbox_batch ?_ hs (head_append hp (head_outboxLines codec batch))
    rcases hbo with haL | hf | hfu
    · exact haL
    · simp [hw] at hf
    · omega

theorem loadLocked_opened (codec : EventCodec) (disk : Disk UInt8) :
    (loadLocked codec {} { disk }).1 = true := by
  by_cases he : disk.content = []
  · simp [loadLocked, he]
  · cases hdi : (readOutbox codec disk.content).dirty <;> simp [loadLocked, rewriteLocked, he, hdi]

theorem loadLocked_reopened {disk : Disk UInt8} (hlo : loadLocked codec io { disk } = (true, h')) :
    h'.outbox.events = (readOutbox codec disk.content).events := by
  obtain ⟨hl, -⟩ | ⟨failed, no, -⟩ | ⟨found, hd, -, -, -, hev⟩ := loadLocked_cases codec io { disk }
  · cases hl
  · rw [hlo] at no
    cases no
  · rw [hlo] at hd
    cases hd
    exact hev

theorem accepted_batch_survives {start : Disk UInt8} (reachable : Reachable codec start h) {events : List Event} {n : Int}
    (accepted : h.enqueueBatch codec io events = (n, h')) (positive : 0 < n)
    (marshals : ∀ e ∈ events.filterMap validateOutboxEvent, (codec.marshal e).isSome)
    (boundary : h.outbox.loaded = true → AtBoundary io (events.filterMap validateOutboxEvent) h)
    {content : Bytes} (crash : h'.disk.Image content) :
    n = (events.filterMap validateOutboxEvent).length ∧
      (loadLocked codec {} { disk := .recover content }).1 = true ∧
      ∀ (reopening : OutboxIO) (reopened : OutboxHost),
        loadLocked codec reopening { disk := .recover content } = (true, reopened) →
        newest (events.filterMap validateOutboxEvent) <:+ reopened.outbox.events := by
  obtain ⟨loaded, appended, hla, hae, hcu, hsy⟩ := enqueueBatch_accepted accepted positive
  have hk : content = appended.disk.content := by
    obtain ⟨f, mem, him⟩ := crash
    rw [hsy] at mem
    rw [List.mem_singleton.mp mem] at him
    exact Disk.Image.of_iff.mp him
  -- the state that the batch is appended to: the one before the call, or what its load left
  have hra : loaded.disk.content.head? ≠ some 91 ∧ AtBoundary io (events.filterMap validateOutboxEvent) loaded := by
    obtain ⟨hal, hsa⟩ | ⟨_, hf, -⟩ | ⟨_, hd, -, hw, hp, -⟩ := loadLocked_cases codec io h
    · rw [hla] at hsa
      cases hsa
      exact ⟨reachable.migrated hal, boundary hal⟩
    · rw [hla] at hf
      cases hf
    · rw [hla] at hd
      cases hd
      exact ⟨hp, Or.inl hw⟩
  refine ⟨hcu, loadLocked_opened codec _, fun reopening reopened hlo => ?_⟩
  rw [loadLocked_reopened hlo, Disk.content_recover, hk]
  exact readOutbox_appended hra.1 hra.2 (storable_batch marshals) hae

/-! ### A torn append -/

def sessionStart (id : String) : Event := { eventID := id, event := "session_start", clientID := "c", sessionID := "s" }

def sessionLine (id : String) : Bytes :=
  ascii "\x7b\"schema_version\":1,\"event_id\":\"" ++ ascii id ++
    ascii "\",\"event\":\"session_start\",\"occurred_at\":\"1970-01-01T00:00:00Z\"" ++
    ascii ",\"client_id\":\"c\",\"session_id\":\"s\"\x7d"

def marshalTwo (e : Event) : Option Bytes :=
  if e = sessionStart "e1" then some (sessionLine "e1")
  else if e = sessionStart "e2" then some (sessionLine "e2")
  else none

def unmarshalTwo (line : Bytes) : Option Event :=
  if line = sessionLine "e1" then some (sessionStart "e1")
  else if line = sessionLine "e2" then some (sessionStart "e2")
  else none

theorem marshalTwo_cases {e : Event} {line : Bytes} (hma : marshalTwo e = some line) :
    (e = sessionStart "e1" ∧ line = sessionLine "e1") ∨ (e = sessionStart "e2" ∧ line = sessionLine "e2") := by
  unfold marshalTwo at hma
  split at hma
  · rename_i hfi
    exact Or.inl ⟨hfi, (Option.some.inj hma).symm⟩
  · split at hma
    · rename_i hse
      exact Or.inr ⟨hse, (Option.some.inj hma).symm⟩
    · cases hma

def twoEvents : EventCodec where
  marshal := marshalTwo
  unmarshal := unmarshalTwo
  probe _ := none
  elements _ := []
  blank line := line.all fun b => b = 32 || b = 9 || b = 13
  unmarshal_marshal e line marshalled := by
    obtain ⟨rfl, rfl⟩ | ⟨rfl, rfl⟩ := marshalTwo_cases marshalled <;> rfl
  one_line e line marshalled := by
    obtain ⟨-, rfl⟩ | ⟨-, rfl⟩ := marshalTwo_cases marshalled <;> decide
  not_blank e line marshalled := by
    obtain ⟨-, rfl⟩ | ⟨-, rfl⟩ := marshalTwo_cases marshalled <;> decide
  no_array e line marshalled := by
    obtain ⟨-, rfl⟩ | ⟨-, rfl⟩ := marshalTwo_cases marshalled <;> decide
  blank_nil := rfl

/-- The append of the first event stops after ten bytes, and the rewrite that should repair the file fails. -/
def tornHost : OutboxHost :=
  ({ disk := .recover [] } : OutboxHost).apply twoEvents { append := some 10, rewrite := false } (.enqueue (sessionStart "e1"))

theorem torn_append_swallows_batch :
    Reachable twoEvents (.recover []) tornHost ∧
      ∃ h' content reopened, tornHost.enqueueBatch twoEvents {} [sessionStart "e2"] = (1, h') ∧ h'.disk.Image content ∧
        loadLocked twoEvents {} { disk := .recover content } = (true, reopened) ∧
        reopened.outbox.events = [] :=
  ⟨.call _ _ .opened, _, _, _, rfl, Disk.image_content _, rfl, by decide⟩

theorem accepted_batch_survives_rewritten :
    ∃ h' content, tornHost.enqueueBatch twoEvents { append := some 3 } [sessionStart "e2"] = (1, h') ∧
      h'.disk.Image content ∧
      ∀ reopening reopened, loadLocked twoEvents reopening { disk := .recover content } = (true, reopened) →
        [sessionStart "e2"] <:+ reopened.outbox.events := by
  have hr : Reachable twoEvents (.recover []) tornHost := .call _ _ .opened
  obtain ⟨h', ha⟩ : ∃ h', tornHost.enqueueBatch twoEvents { append := some 3 } [sessionStart "e2"] = (1, h') :=
    ⟨_, rfl⟩
  have hba : [sessionStart "e2"].filterMap validateOutboxEvent = [sessionStart "e2"] := by decide
  have hsu := accepted_batch_survives hr ha (by decide) (by decide) (fun _ => Or.inr (Or.inl rfl))
    h'.disk.image_content
  have hca : newest [sessionStart "e2"] = [sessionStart "e2"] := by decide
  rw [hba, hca] at hsu
  exact ⟨h', h'.disk.content, ha, h'.disk.image_content, hsu.2.2⟩

end OutboxHost

end OpenRung.Telemetry
