import OpenRung.Broker.TelemetrySink

/-! What a kill leaves of the telemetry file, and what a new sink makes of it. The file holds whole lines and perhaps
    a part of one more. The loader takes a last line without its newline, but refuses the whole file for a part of a
    record. So a new sink opens if and only if the kill cut no record (`Sink.reopens_iff_untorn`). -/

namespace OpenRung.Broker

variable {codec : RecordCodec}

/-! ### Records and their lines -/

def isConnection (r : TelemetryRecord) : Bool := r.event.event = telemetryAppConnectionEvent

def lineBytes (codec : RecordCodec) (r : TelemetryRecord) : Nat := ((codec.marshal r).getD []).length + 1

def inWindow (now : Time) (r : TelemetryRecord) : Bool := decide (now - telemetryRetention ≤ retentionTime r)

def Encoded (codec : RecordCodec) (r : TelemetryRecord) : Prop :=
  ∃ line, codec.marshal r = some line ∧ line.length < maxTelemetryLine

def Plain (codec : RecordCodec) (r : TelemetryRecord) : Prop := Encoded codec r ∧ isConnection r = false

theorem lineBytes_eq {r : TelemetryRecord} {line : Bytes} (hma : codec.marshal r = some line) :
    lineBytes codec r = line.length + 1 := by
  rw [lineBytes, hma, Option.getD_some]

theorem inWindow_mono {now later : Time} (le : now ≤ later) (r : TelemetryRecord) (hi : inWindow later r = true) :
    inWindow now r = true := by
  simp only [inWindow, decide_eq_true_eq] at hi ⊢
  lia

theorem dropCR_line {line : Bytes} (hfr : (13 : UInt8) ∉ line) : dropCR line = line := by
  refine if_neg fun hla => hfr ?_
  obtain ⟨front, rfl⟩ := List.getLast?_eq_some_iff.mp hla
  simp

variable {records : List TelemetryRecord}

theorem mem_fileOf_lines {line : Bytes}
    (mem : line ∈ records.filterMap codec.marshal) : (10 : UInt8) ∉ line := by
  obtain ⟨r, -, hma⟩ := List.mem_filterMap.mp mem
  exact (codec.one_line r line hma).1

theorem fileOf_append (codec : RecordCodec) (xs ys : List TelemetryRecord) :
    fileOf codec (xs ++ ys) = fileOf codec xs ++ fileOf codec ys := by
  simp [fileOf]

theorem unmarshal_lines (he : ∀ r ∈ records, Encoded codec r) :
    (records.filterMap codec.marshal).filterMap codec.unmarshal = records := by
  induction records with
  | nil => rfl
  | cons r records ih =>
    obtain ⟨line, hma, -⟩ := he r (by simp)
    rw [List.filterMap_cons_some hma, List.filterMap_cons_some (codec.unmarshal_marshal r line hma),
      ih fun x mem => he x (by simp [mem])]

/-! ### Records in memory -/

def Tallied (m : Retained) : Prop := m.memoryBytes = Budget.total StoredRecord.bytes m.records

theorem dropOldest_eq (limit : Nat) (records : List StoredRecord) :
    Retained.dropOldest limit (Budget.total StoredRecord.bytes records) records =
      (Budget.total StoredRecord.bytes (Budget.fit StoredRecord.bytes limit records),
        Budget.fit StoredRecord.bytes limit records) := by
  induction records with
  | nil => rfl
  | cons stored records ih =>
    rw [Retained.dropOldest, Budget.fit]
    by_cases hle : Budget.total StoredRecord.bytes (stored :: records) ≤ limit
    · rw [if_neg (Nat.not_lt.mpr hle), if_pos hle]
    · have hhr : Budget.total StoredRecord.bytes (stored :: records) - stored.bytes =
          Budget.total StoredRecord.bytes records := by
        simp
      rw [if_pos (Nat.lt_of_not_le hle), if_neg hle, hhr, ih]

namespace Tallied
variable {m : Retained}

theorem append (h : Tallied m) (record : TelemetryRecord) (size : Nat) : Tallied (m.append record size) := by
  rw [Tallied, Retained.append, h]
  simp

theorem prune (h : Tallied m) (cutoff : Time) : Tallied (m.prune cutoff) := by
  have hh := List.sum_map_filter_add_sum_map_filter_not (fun st => retentionTime st.record < cutoff) StoredRecord.bytes
    m.records
  have hm : m.memoryBytes = Budget.total StoredRecord.bytes m.records := h
  simp only [Tallied, Retained.prune, hm, Budget.total, ← decide_not]
  exact Nat.sub_eq_of_eq_add' hh.symm

theorem records_drop (h : Tallied m) :
    m.dropOldestOverBudget.records = Budget.fit StoredRecord.bytes m.memoryLimit m.records := by
  rw [Retained.dropOldestOverBudget, h, dropOldest_eq]

theorem drop (h : Tallied m) : Tallied m.dropOldestOverBudget := by
  rw [Tallied, h.records_drop, Retained.dropOldestOverBudget, h, dropOldest_eq]

theorem shifts (h : Tallied m) : m.shifts = Budget.moved StoredRecord.bytes m.memoryLimit m.records := by
  rw [Retained.shifts, h, dropOldest_eq, Budget.moved]

end Tallied

structure Sound (codec : RecordCodec) (m : Retained) (held : List TelemetryRecord) : Prop where
  records : m.records = held.map fun r => { record := r, bytes := lineBytes codec r }
  memory : m.memoryBytes = Budget.total (lineBytes codec) held
  plain : ∀ r ∈ held, Plain codec r

namespace Sound
variable {m : Retained} {held : List TelemetryRecord}

theorem map_record (hs : Sound codec m held) : m.records.map StoredRecord.record = held := by
  simp [hs.records, Function.comp_def]

theorem append (sound : Sound codec m held) {r : TelemetryRecord} (plain : Plain codec r) {line : Bytes}
    (marshalled : codec.marshal r = some line) : Sound codec (m.append r (line.length + 1)) (held ++ [r]) where
  records := by simp [Retained.append, sound.records, lineBytes_eq marshalled]
  memory := by simp [Retained.append, sound.memory, lineBytes_eq marshalled]
  plain x mem := by
    rcases List.mem_append.mp mem with old | new
    · exact sound.plain x old
    · exact List.mem_singleton.mp new ▸ plain

theorem total_map (held : List TelemetryRecord) : Budget.total StoredRecord.bytes
    (held.map fun r => { record := r, bytes := lineBytes codec r }) = Budget.total (lineBytes codec) held := by
  rw [Budget.total, Budget.total, List.map_map]
  rfl

theorem tallied (hs : Sound codec m held) : Tallied m := by
  rw [Tallied, hs.memory, hs.records, total_map]

theorem prune (hs : Sound codec m held) (cutoff : Time) :
    Sound codec (m.prune cutoff) (held.filter fun r => decide (cutoff ≤ retentionTime r)) := by
  have hr : (m.prune cutoff).records = (held.filter fun r => decide (cutoff ≤ retentionTime r)).map fun r =>
      { record := r, bytes := lineBytes codec r } := by
    simp only [Retained.prune, hs.records, List.filter_map, Function.comp_def, ← decide_not, not_lt]
  refine ⟨hr, ?_, fun x mem => hs.plain x (List.mem_filter.mp mem).1⟩
  rw [hs.tallied.prune cutoff, hr, total_map]

theorem dropOldestOverBudget (hs : Sound codec m held) :
    Sound codec m.dropOldestOverBudget (Budget.fit (lineBytes codec) m.memoryLimit held) := by
  have hr : m.dropOldestOverBudget.records =
      (Budget.fit (lineBytes codec) m.memoryLimit held).map fun r => { record := r, bytes := lineBytes codec r } := by
    rw [hs.tallied.records_drop, hs.records, Budget.fit_map]
    rfl
  refine ⟨hr, ?_, fun r mem => hs.plain r ((Budget.fit_suffix _ _).subset mem)⟩
  rw [hs.tallied.drop, hr, total_map]

end Sound

/-! ### Loading -/

theorem loadLines_append (codec : RecordCodec) (cutoff : Time) (n : Nat) (xs ys : List Bytes) (acc : Retained × Bool) :
    loadLines codec cutoff n (xs ++ ys) acc = match loadLines codec cutoff n xs acc with
      | .error e => .error e
      | .ok acc => loadLines codec cutoff (n + xs.length) ys acc := by
  induction xs generalizing n acc with
  | nil => rfl
  | cons raw xs ih =>
    have hcu : n + 1 + xs.length = n + (raw :: xs).length := by simp only [List.length_cons]; omega
    simp only [List.cons_append, loadLines, ih, hcu]
    split
    · rfl
    split
    · rfl
    split
    · rfl
    split <;> rfl

theorem loadLines_torn (cutoff : Time) (n : Nat) {part : Bytes} (acc : Retained × Bool)
    (hsh : part.length < maxTelemetryLine) (hfr : (13 : UInt8) ∉ part) (hto : codec.unmarshal part = none) :
    loadLines codec cutoff n [part] acc = .error (.decode n) := by
  rw [loadLines, if_neg (Nat.not_le.mpr hsh), dropCR_line hfr, hto]

theorem loadLines_encoded {cutoff : Time} {p : TelemetryRecord → Bool}
    (inside : ∀ r, p r = true → cutoff ≤ retentionTime r)
    (encoded : ∀ r ∈ records, Encoded codec r) (n : Nat) {m : Retained} (privacy : Bool) {full held : List TelemetryRecord}
    (sound : Sound codec m held) (covers : Budget.Covers (lineBytes codec) m.memoryLimit p full held) :
    ∃ m' held', loadLines codec cutoff n (records.filterMap codec.marshal) (m, privacy) =
        .ok (m', privacy || records.any isConnection) ∧
      Sound codec m' held' ∧ m'.memoryLimit = m.memoryLimit ∧
      Budget.Covers (lineBytes codec) m.memoryLimit p (full ++ records.filter fun r => !isConnection r) held' := by
  induction records generalizing n m privacy full held with
  | nil => exact ⟨m, held, by simp [loadLines], sound, rfl, by simpa using covers⟩
  | cons r records ih =>
    obtain ⟨line, marshalled, short⟩ := encoded r (by simp)
    have others : ∀ x ∈ records, Encoded codec x := fun x mem => encoded x (by simp [mem])
    rw [List.filterMap_cons_some marshalled]
    simp only [loadLines, if_neg (Nat.not_le.mpr short), dropCR_line (codec.one_line r line marshalled).2,
      codec.unmarshal_marshal r line marshalled]
    by_cases connection : r.event.event = telemetryAppConnectionEvent
    · have is : isConnection r = true := by simp [isConnection, connection]
      obtain ⟨m', held', load, sound', limit, covers'⟩ := ih others (n + 1) true sound covers
      refine ⟨m', held', ?_, sound', limit, by simpa [is] using covers'⟩
      rw [if_pos connection, load]
      simp [is]
    · have isNot : isConnection r = false := by simp [isConnection, connection]
      have split : full ++ (r :: records).filter (fun r => !isConnection r) =
          (full ++ [r]) ++ records.filter fun r => !isConnection r := by simp [isNot]
      rw [if_neg connection, split]
      simp only [List.any_cons, isNot, Bool.false_or]
      by_cases expired : retentionTime r < cutoff
      · have out : p r = false := by
          by_contra asked
          exact absurd (inside r (by simpa using asked)) (not_le.mpr expired)
        rw [if_pos expired]
        exact ih others (n + 1) privacy sound (covers.skip out)
      · have grown := sound.append ⟨⟨line, marshalled, short⟩, isNot⟩ marshalled
        have covers' := covers.append [r]
        rw [if_neg expired]
        split
        · exact ih others (n + 1) privacy grown.dropOldestOverBudget covers'.fit
        · exact ih others (n + 1) privacy grown covers'

theorem loadRecent_encoded (memoryLimit : Nat) (now : Time) {p : TelemetryRecord → Bool}
    (hi : ∀ r, p r = true → inWindow now r = true)
    (he : ∀ r ∈ records, Encoded codec r) {content : Bytes}
    (hl : Lines.lines 10 content = records.filterMap codec.marshal) :
    ∃ m held, loadRecent codec memoryLimit now content = .ok (m, records.any isConnection) ∧
      Sound codec m held ∧ m.memoryLimit = memoryLimit ∧
      Budget.Covers (lineBytes codec) memoryLimit p (records.filter fun r => !isConnection r) held := by
  have hem : Sound codec { memoryLimit } [] := ⟨rfl, rfl, fun r mem => absurd mem List.not_mem_nil⟩
  obtain ⟨m, held, load, hs, hli, hc⟩ := loadLines_encoded (fun r hak => of_decide_eq_true (hi r hak))
    he 1 false hem (Budget.Covers.refl _ p [])
  refine ⟨m.dropOldestOverBudget, _, ?_, hs.dropOldestOverBudget, hli, ?_⟩
  · rw [loadRecent, hl, load, Bool.false_or]
  · rw [hli]
    simpa using hc.fit

/-! ### The file of a running sink -/

namespace Sink
variable {s : Sink} {memoryLimit fileLimit : Nat} {log : List TelemetryRecord} {latest : Time}

/-- The file holds records that cover a first part of the log, and then the rest of the log; the memory covers the
    whole log, unless a write has failed. -/
structure Inv (codec : RecordCodec) (memoryLimit : Nat) (s : Sink) (log : List TelemetryRecord) (latest : Time) :
    Prop where
  file : ∃ settled kept pending, log = settled ++ pending ∧ s.base = fileOf codec kept ∧
    s.appended = pending.filterMap codec.marshal ∧ (∀ r ∈ kept ++ pending, Plain codec r) ∧
    Budget.Covers (lineBytes codec) memoryLimit (inWindow latest) settled kept
  memory : s.writeErr = false → ∃ held, Sound codec s.retained held ∧
    Budget.Covers (lineBytes codec) memoryLimit (inWindow latest) log held
  limit : s.retained.memoryLimit = memoryLimit

theorem Inv.failed (inv : Inv codec memoryLimit s log latest) : Inv codec memoryLimit { s with writeErr := true } log latest :=
  ⟨inv.file, fun ok => absurd ok (by simp), inv.limit⟩

theorem Inv.closed (inv : Inv codec memoryLimit s log latest) : Inv codec memoryLimit { s with closed := true } log latest :=
  ⟨inv.file, inv.memory, inv.limit⟩

theorem Inv.flushLocked (inv : Inv codec memoryLimit s log latest) (io : SinkIO) (syncDisk : Bool) :
    Inv codec memoryLimit (s.flushLocked io syncDisk).2 log latest := by
  unfold Sink.flushLocked
  split
  · exact inv
  split
  · exact inv.failed
  split
  · exact inv.failed
  · exact inv

theorem compactLocked_cases (codec : RecordCodec) (io : SinkIO) (s : Sink) :
    (∃ err, s.compactLocked codec io = (false, { s with writeErr := err }) ∧ (s.writeErr = true → err = true)) ∨
    (s.writeErr = false ∧ ∃ ok lines bytes,
      (s.retained.records.map StoredRecord.record).mapM codec.marshal = some lines ∧
      (ok = true → bytes = (lines.flatMap (· ++ [10])).length) ∧
        s.compactLocked codec io =
          (ok, { s with base := lines.flatMap (· ++ [10]), appended := [], fileBytes := bytes })) := by
  by_cases err : s.writeErr = true
  · have hre : s.flushLocked io false = (false, s) := if_pos err
    exact Or.inl ⟨s.writeErr, by simp [compactLocked, hre], id⟩
  have hn : s.writeErr = false := by simpa using err
  by_cases hfl : io.flush = true
  case neg => exact Or.inl ⟨true, by simp [compactLocked, flushLocked, hn, hfl], fun _ => rfl⟩
  have hfu : s.flushLocked io false = (true, s) := by simp [flushLocked, hn, hfl]
  simp only [compactLocked, hfu]
  cases he : (s.retained.records.map StoredRecord.record).mapM codec.marshal with
  | none => exact Or.inl ⟨s.writeErr, rfl, id⟩
  | some lines =>
    cases hrn : io.rename with
    | false => exact Or.inl ⟨s.writeErr, rfl, id⟩
    | true =>
      refine Or.inr ⟨hn, ?_⟩
      cases hse : io.seek with
      | false => exact ⟨false, lines, s.fileBytes, rfl, by simp, rfl⟩
      | true => exact ⟨true, lines, _, rfl, fun _ => rfl, rfl⟩

theorem Inv.compactLocked (inv : Inv codec memoryLimit s log latest) (io : SinkIO) :
    Inv codec memoryLimit (s.compactLocked codec io).2 log latest := by
  obtain ⟨err, hf, hst⟩ | ⟨hn, ok, lines, bytes, he, -, hd⟩ := compactLocked_cases codec io s
  · rw [hf]
    refine ⟨inv.file, fun hfn => inv.memory ?_, inv.limit⟩
    cases was : s.writeErr with
    | false => rfl
    | true => exact absurd (hst was) (by simpa using hfn)
  · obtain ⟨held, hs, hc⟩ := inv.memory hn
    rw [hs.map_record] at he
    have hct : lines.flatMap (· ++ [10]) = fileOf codec held := by rw [fileOf, (List.mapM_eq_some_iff.mp he).2]
    rw [hd]
    exact ⟨⟨log, held, [], by simp, hct, rfl, by simpa using hs.plain, hc⟩, inv.memory, inv.limit⟩

theorem Inv.maybeCompactLocked (inv : Inv codec memoryLimit s log latest) (io : SinkIO) :
    Inv codec memoryLimit (s.maybeCompactLocked codec io).2 log latest := by
  unfold Sink.maybeCompactLocked
  split
  · exact inv
  · exact inv.compactLocked io

variable {records : List TelemetryRecord}

theorem writeRecords_spec (fails : Option Nat) (hfi : ∀ r ∈ records, Fits codec r)
    (s : Sink) :
    let out := writeRecords codec fails records s
    out.2.base = s.base ∧ out.2.appended = s.appended ++ (handed codec fails records).filterMap codec.marshal ∧
      out.2.retained.memoryLimit = s.retained.memoryLimit ∧ (∀ r ∈ handed codec fails records, Plain codec r) ∧
      (out.2.writeErr = false → s.writeErr = false ∧ ∀ held, Sound codec s.retained held →
        Sound codec out.2.retained (held ++ handed codec fails records)) := by
  induction records generalizing fails s with
  | nil => exact ⟨rfl, by simp [writeRecords, handed], rfl, by simp [handed], fun ok => ⟨ok, fun held hs => by
      simpa [handed, writeRecords] using hs⟩⟩
  | cons r records ih =>
    have hot : ∀ x ∈ records, Fits codec x := fun x mem => hfi x (by simp [mem])
    by_cases hcn : r.event.event = telemetryAppConnectionEvent
    · simpa only [writeRecords, handed, if_pos hcn] using ih fails hot s
    · cases hma : codec.marshal r with
      | none =>
        simp only [writeRecords, handed, if_neg hcn, hma]
        exact ⟨trivial, by simp, trivial, by simp, fun ok => ⟨ok, fun held hs => by simpa using hs⟩⟩
      | some line =>
        have hp : Plain codec r := ⟨⟨line, hma, hfi r (by simp) line hma⟩, by
          simp [isConnection, hcn]⟩
        by_cases hfa : fails = some 0
        · simp only [writeRecords, handed, if_neg hcn, hma, if_pos hfa]
          refine ⟨trivial, ?_, trivial, by simpa using hp, fun ok => by simp at ok⟩
          simp [hma]
        · simp only [writeRecords, handed, if_neg hcn, hma, if_neg hfa]
          obtain ⟨hb, appended, hli, hpl, hme⟩ := ih (fails.map (· - 1)) hot
            { s with appended := s.appended ++ [line], retained := s.retained.append r (line.length + 1)
                     fileBytes := s.fileBytes + (line.length + 1) }
          refine ⟨hb, ?_, hli, ?_, fun ok => ?_⟩
          · rw [appended, List.filterMap_cons_some hma]
            simp
          · intro x mem
            rcases List.mem_cons.mp mem with rfl | mem
            · exact hp
            · exact hpl x mem
          · obtain ⟨hn, hg⟩ := hme ok
            refine ⟨hn, fun held hs => ?_⟩
            simpa using hg (held ++ [r]) (hs.append hp hma)

theorem Inv.writeRecords (inv : Inv codec memoryLimit s log latest) (fails : Option Nat)
    (hfi : ∀ r ∈ records, Fits codec r) :
    Inv codec memoryLimit (Sink.writeRecords codec fails records s).2 (log ++ handed codec fails records) latest := by
  obtain ⟨hb, ha, hli, hpl, hme⟩ := writeRecords_spec fails hfi s
  obtain ⟨settled, kept, pending, rfl, hfe, hl, hp, hc⟩ := inv.file
  refine ⟨⟨settled, kept, pending ++ handed codec fails records, by simp, hb.trans hfe, ?_, ?_, hc⟩, ?_,
    hli.trans inv.limit⟩
  · rw [ha, hl, List.filterMap_append]
  · intro r mem
    rw [← List.append_assoc] at mem
    rcases List.mem_append.mp mem with old | new
    · exact hp r old
    · exact hpl r new
  · intro ok
    obtain ⟨hn, hg⟩ := hme ok
    obtain ⟨held, hs, all⟩ := inv.memory hn
    exact ⟨_, hg held hs, all.append _⟩

theorem Inv.later (inv : Inv codec memoryLimit s log latest) {now : Time} (le : latest ≤ now) :
    Inv codec memoryLimit s log now := by
  obtain ⟨settled, kept, pending, rfl, hfe, hl, hp, hc⟩ := inv.file
  refine ⟨⟨settled, kept, pending, rfl, hfe, hl, hp, hc.mono (inWindow_mono le)⟩, fun ok => ?_, inv.limit⟩
  obtain ⟨held, hs, all⟩ := inv.memory ok
  exact ⟨held, hs, all.mono (inWindow_mono le)⟩

theorem Inv.trim (inv : Inv codec memoryLimit s log latest) {now : Time} (le : now ≤ latest) :
    Inv codec memoryLimit { s with retained := (s.retained.prune (now - telemetryRetention)).dropOldestOverBudget } log
      latest := by
  refine ⟨inv.file, fun ok => ?_, inv.limit⟩
  obtain ⟨held, hs, all⟩ := inv.memory ok
  have hpu := hs.prune (now - telemetryRetention)
  refine ⟨_, hpu.dropOldestOverBudget, ?_⟩
  have hli : (s.retained.prune (now - telemetryRetention)).memoryLimit = memoryLimit := inv.limit
  rw [hli]
  exact (all.filter (inWindow_mono le)).fit

theorem Inv.writeTelemetry (inv : Inv codec memoryLimit s log latest) (io : SinkIO) (now : Time)
    (hfi : ∀ r ∈ records, Fits codec r) :
    Inv codec memoryLimit (s.writeTelemetry codec io now records).2
      (log ++ if s.closed || s.writeErr then [] else handed codec io.write records) (max latest now) := by
  have inv := inv.later (le_max_left latest now)
  unfold Sink.writeTelemetry
  split
  · rename_i hcl
    simpa [hcl] using inv
  split
  · rename_i err
    simpa [err] using inv
  rename_i his hn
  have hac : (s.closed || s.writeErr) = false := by simp [his, hn]
  rw [hac]
  have hw := inv.writeRecords io.write hfi
  split
  · rename_i next hf
    rwa [hf] at hw
  · rename_i next hd
    rw [hd] at hw
    have hco := (hw.trim (le_max_right latest now)).maybeCompactLocked io
    dsimp only
    split
    · exact hco
    · exact hco.failed

/-! ### Opening -/

theorem openSink_loaded {now : Time} {content : Bytes} {m : Retained} {held : List TelemetryRecord}
    {privacy : Bool} (hs : Sound codec m held)
    (hlo : loadRecent codec memoryLimit now content = .ok (m, privacy)) (fileLimit : Nat) :
    ∃ s, openSink codec {} memoryLimit fileLimit now content = .ok s ∧ s.retained = m := by
  have hen : ∃ lines, held.mapM codec.marshal = some lines := by
    have hp := hs.plain
    clear hs hlo
    induction held with
    | nil => exact ⟨[], rfl⟩
    | cons r held ih =>
      obtain ⟨line, hma, -⟩ := (hp r (by simp)).1
      obtain ⟨lines, hrs⟩ := ih fun x mem => hp x (by simp [mem])
      exact ⟨line :: lines, by simp [hma, hrs]⟩
  obtain ⟨lines, he⟩ := hen
  have hcp : ∀ s : Sink, s.retained = m → s.writeErr = false →
      (s.compactLocked codec {}).1 = true ∧ (s.compactLocked codec {}).2.retained = m := by
    intro s retained hn
    simp [compactLocked, flushLocked, hn, retained, hs.map_record, he]
  simp only [openSink, hlo]
  cases privacy with
  | true =>
    have hco := hcp { retained := m, base := content, fileBytes := content.length, fileLimit } rfl rfl
    exact ⟨_, if_pos hco.1, hco.2⟩
  | false =>
    simp only [maybeCompactLocked, Bool.false_eq_true, if_false]
    split
    · exact ⟨_, rfl, rfl⟩
    · have hco := hcp { retained := m, base := content, fileBytes := content.length, fileLimit } rfl rfl
      exact ⟨_, if_pos hco.1, hco.2⟩

theorem Inv.opened {io : SinkIO} {now : Time} {start : List TelemetryRecord} (he : ∀ r ∈ start, Encoded codec r)
    (ho : openSink codec io memoryLimit fileLimit now (fileOf codec start) = .ok s) :
    Inv codec memoryLimit s (start.filter fun r => !isConnection r) now := by
  have lines : Lines.lines 10 (fileOf codec start) = start.filterMap codec.marshal := by
    simpa [fileOf] using Lines.lines_flatMap_append (fun line mem => mem_fileOf_lines mem) []
  obtain ⟨m, held, hlo, hs, hli, hc⟩ := loadRecent_encoded memoryLimit now (fun _ hak => hak) he lines
  simp only [openSink, hlo] at ho
  cases hlg : start.any isConnection with
  | false =>
    -- no row has to go: the file is as it was, or a compaction by size has come after the load
    have hp : ∀ r ∈ start, isConnection r = false := by simpa using hlg
    have all : start.filter (fun r => !isConnection r) = start := List.filter_eq_self.mpr fun r mem => by simp [hp r mem]
    have inv : Inv codec memoryLimit
        { retained := m, base := fileOf codec start, fileBytes := (fileOf codec start).length, fileLimit } start now :=
      ⟨⟨start, start, [], by simp, rfl, rfl, by simpa using fun r mem => ⟨he r mem, hp r mem⟩,
        Budget.Covers.refl _ _ _⟩, fun _ => ⟨held, hs, all ▸ hc⟩, hli⟩
    rw [all]
    simp only [hlg, Bool.false_eq_true, if_false] at ho
    have hco := inv.maybeCompactLocked io
    split at ho
    · cases ho
      exact hco
    · cases ho
  | true =>
    rw [hlg, if_pos rfl] at ho
    obtain ⟨err, hf, -⟩ | ⟨-, ok, lines, bytes, hma, -, hd⟩ := compactLocked_cases codec io
      { retained := m, base := fileOf codec start, fileBytes := (fileOf codec start).length, fileLimit }
    · rw [hf] at ho
      cases ho
    · rw [hs.map_record] at hma
      have hct : lines.flatMap (· ++ [10]) = fileOf codec held := by rw [fileOf, (List.mapM_eq_some_iff.mp hma).2]
      rw [hd] at ho
      split at ho
      · cases ho
        exact ⟨⟨_, held, [], by simp, hct, rfl, by simpa using hs.plain, hc⟩, fun _ => ⟨held, hs, hc⟩,
          hli⟩
      · cases ho

theorem Reachable.inv {start : List TelemetryRecord} (run : Reachable codec memoryLimit fileLimit start s log latest) :
    Inv codec memoryLimit s log latest := by
  induction run with
  | opened io now he ho =>
    have hl : ∀ r ∈ _, Encoded codec r := fun r mem => by
      obtain ⟨line, hma⟩ := Option.isSome_iff_exists.mp (he r mem).1
      exact ⟨line, hma, (he r mem).2 line hma⟩
    simpa only [isConnection, ← decide_not] using Inv.opened hl ho
  | write io now records hfi _ ih => exact ih.writeTelemetry io now hfi
  | flush io syncDisk _ ih => exact ih.flushLocked io syncDisk
  | close io _ ih =>
    exact ih.closed.flushLocked io true

/-! ### After a kill -/

/-- The kill has cut no record: nothing follows the last newline, or a record that lacks only its newline. -/
def Untorn (codec : RecordCodec) (content : Bytes) : Prop :=
  Lines.rest 10 content = [] ∨ ∃ r, codec.marshal r = some (Lines.rest 10 content)

/-- The records of the log up to the last compaction, and those whose line is in what the kill left of the bytes
    appended since. -/
def written (codec : RecordCodec) (s : Sink) (log : List TelemetryRecord) (content : Bytes) : List TelemetryRecord :=
  log.take (log.length - s.appended.length) ++
    (Lines.lines 10 (content.drop s.base.length)).filterMap codec.unmarshal

theorem filterMap_encoded (he : ∀ r ∈ records, Encoded codec r) :
    records.filterMap codec.marshal = records.map fun r => (codec.marshal r).getD [] := by
  induction records with
  | nil => rfl
  | cons r records ih =>
    obtain ⟨line, hma, -⟩ := he r (by simp)
    rw [List.filterMap_cons_some hma, ih fun x mem => he x (by simp [mem]), List.map_cons, hma,
      Option.getD_some]

theorem Inv.killed (inv : Inv codec memoryLimit s log latest) {content : Bytes} (hk : s.Killed content) :
    ∃ settled kept whole tail, content = fileOf codec (kept ++ whole) ++ tail ∧
      log.take (log.length - s.appended.length) = settled ∧ content.drop s.base.length = fileOf codec whole ++ tail ∧
      (∀ r ∈ kept ++ whole, Plain codec r) ∧
      Budget.Covers (lineBytes codec) memoryLimit (inWindow latest) settled kept ∧
      (tail = [] ∨ ∃ next line, Plain codec next ∧ codec.marshal next = some line ∧ tail <+: line) := by
  obtain ⟨settled, kept, pending, rfl, hb, ha, hp, hc⟩ := inv.file
  obtain ⟨⟨cut, rfl⟩, hhi⟩ := hk
  have he : ∀ r ∈ pending, Encoded codec r := fun r mem => (hp r (List.mem_append_right kept mem)).1
  have hl := filterMap_encoded he
  rw [List.prefix_append_right_inj, ha] at hhi
  obtain ⟨n, tail, rfl, hla⟩ := Lines.prefix_flatMap hhi
  have whole : ((pending.filterMap codec.marshal).take n).flatMap (· ++ [10]) = fileOf codec (pending.take n) := by
    rw [fileOf, filterMap_encoded fun r mem => he r (List.mem_of_mem_take mem), hl, List.map_take]
  refine ⟨settled, kept, pending.take n, tail, ?_, ?_, ?_, ?_, hc, ?_⟩
  · rw [whole, hb, fileOf_append, List.append_assoc]
  · rw [ha, hl]
    simp
  · rw [whole, List.drop_left]
  · intro r mem
    rcases List.mem_append.mp mem with old | new
    · exact hp r (List.mem_append_left pending old)
    · exact hp r (List.mem_append_right kept (List.mem_of_mem_take new))
  · refine hla.imp_right ?_
    rintro ⟨line, hat, hpa⟩
    rw [hl, List.getElem?_map, Option.map_eq_some_iff] at hat
    obtain ⟨next, hat, rfl⟩ := hat
    have mem : next ∈ pending := List.mem_of_getElem? hat
    obtain ⟨line, hma, -⟩ := he next mem
    exact ⟨next, line, hp next (List.mem_append_right kept mem), hma, by simpa [hma] using hpa⟩

theorem reopens_whole {settled kept whole : List TelemetryRecord} (hp : ∀ r ∈ kept ++ whole, Plain codec r)
    (hc : Budget.Covers (lineBytes codec) memoryLimit (inWindow latest) settled kept) {content : Bytes}
    (hl : Lines.lines 10 content = (kept ++ whole).filterMap codec.marshal) (fileLimit : Nat) (now : Time) :
    ∃ reopened, openSink codec {} memoryLimit fileLimit now content = .ok reopened ∧
      ∀ recent, recent <:+ settled ++ whole → Budget.total (lineBytes codec) recent ≤ memoryLimit →
        (recent.filter (inWindow (max latest now))).Sublist (reopened.retained.records.map StoredRecord.record) := by
  obtain ⟨m, held, hlo, hs, -, hld⟩ := loadRecent_encoded memoryLimit now
    (inWindow_mono (le_max_right latest now)) (fun r mem => (hp r mem).1) hl
  have all : (kept ++ whole).filter (fun r => !isConnection r) = kept ++ whole :=
    List.filter_eq_self.mpr fun r mem => by simp [(hp r mem).2]
  obtain ⟨reopened, ho, hrt⟩ := openSink_loaded hs hlo fileLimit
  refine ⟨reopened, ho, fun recent hnw hwi => ?_⟩
  rw [all] at hld
  have hwn := (hc.mono (inWindow_mono (le_max_left latest now))).append whole
  obtain ⟨first, hla, hhl, of⟩ := hwn recent hnw hwi
  obtain ⟨second, hin, hho, -⟩ := hld first hla ((Budget.total_le_of_sublist of).trans hwi)
  rw [hrt, hs.map_record]
  have ht : ((recent.filter (inWindow (max latest now))).filter (inWindow (max latest now))) =
      recent.filter (inWindow (max latest now)) := by simp
  exact ht ▸ ((hhl.filter _).trans hho).trans hin.sublist

theorem torn_refused (he : ∀ r ∈ records, Encoded codec r) {next : TelemetryRecord}
    {line tail content : Bytes} (hma : codec.marshal next = some line) (hsh : line.length < maxTelemetryLine)
    (hpa : tail <+: line) (hpr : tail ≠ line)
    (hl : Lines.lines 10 content = records.filterMap codec.marshal ++ [tail]) (io : SinkIO) (fileLimit : Nat)
    (now : Time) : ∃ e, openSink codec io memoryLimit fileLimit now content = .error e := by
  have hem : Sound codec { memoryLimit } [] := ⟨rfl, rfl, fun r mem => absurd mem List.not_mem_nil⟩
  obtain ⟨m, held, load, -, -, -⟩ := loadLines_encoded (fun r (hak : inWindow now r = true) => of_decide_eq_true hak)
    he 1 false hem (Budget.Covers.refl _ _ [])
  have hfr : (13 : UInt8) ∉ tail := fun mem => (codec.one_line next line hma).2 (hpa.subset mem)
  have hso := loadLines_torn (now - telemetryRetention) (1 + (records.filterMap codec.marshal).length)
    (m, false || records.any isConnection) (hpa.length_le.trans_lt hsh) hfr
    (codec.no_part next line tail hma hpa hpr)
  have hre : loadRecent codec memoryLimit now content =
      .error (.decode (1 + (records.filterMap codec.marshal).length)) := by
    rw [loadRecent, hl, loadLines_append, load]
    dsimp only
    rw [hso]
  exact ⟨_, by rw [openSink, hre]⟩

theorem reopens_iff_untorn {start : List TelemetryRecord}
    (run : Reachable codec memoryLimit fileLimit start s log latest) {content : Bytes} (killed : s.Killed content)
    (now : Time) :
    (∃ reopened, openSink codec {} memoryLimit fileLimit now content = .ok reopened ∧
      ∀ recent, recent <:+ written codec s log content → Budget.total (lineBytes codec) recent ≤ memoryLimit →
        (recent.filter (inWindow (max latest now))).Sublist (reopened.retained.records.map StoredRecord.record)) ↔
    Untorn codec content := by
  obtain ⟨settled, kept, whole, tail, rfl, hlq, ha, hp, hc, hla⟩ := run.inv.killed killed
  have he : ∀ r ∈ kept ++ whole, Encoded codec r := fun r mem => (hp r mem).1
  have hl : Lines.lines 10 (fileOf codec (kept ++ whole) ++ tail) =
      (kept ++ whole).filterMap codec.marshal ++ Lines.lines 10 tail :=
    Lines.lines_flatMap_append (fun line mem => mem_fileOf_lines mem) tail
  have hwr : written codec s log (fileOf codec (kept ++ whole) ++ tail) =
      settled ++ (whole ++ (Lines.lines 10 tail).filterMap codec.unmarshal) := by
    have hra : Lines.lines 10 (fileOf codec whole ++ tail) = whole.filterMap codec.marshal ++ Lines.lines 10 tail :=
      Lines.lines_flatMap_append (fun line mem => mem_fileOf_lines mem) tail
    rw [written, hlq, ha, hra, List.filterMap_append,
      unmarshal_lines fun r mem => he r (List.mem_append_right kept mem)]
  rw [hwr]
  rcases hla with rfl | ⟨next, line, hne, hma, hpa⟩
  · -- the kill came between two lines
    have hu : Untorn codec (fileOf codec (kept ++ whole) ++ []) :=
      Or.inl (Lines.rest_append_free (Lines.whole_flatMap _) List.not_mem_nil)
    refine iff_of_true ?_ hu
    simpa using reopens_whole hp hc (by simpa using hl) fileLimit now
  · have hfr : (10 : UInt8) ∉ tail := fun mem => (codec.one_line next line hma).1 (hpa.subset mem)
    have hrs : Lines.rest 10 (fileOf codec (kept ++ whole) ++ tail) = tail :=
      Lines.rest_append_free (Lines.whole_flatMap _) hfr
    rw [Untorn, hrs]
    by_cases hem : tail = []
    · subst hem
      refine iff_of_true ?_ (Or.inl rfl)
      simpa using reopens_whole hp hc (by simpa using hl) fileLimit now
    rw [Lines.lines_unterminated hfr hem] at hl ⊢
    by_cases hcm : tail = line
    · -- only the newline is missing, and the loader does without it
      subst hcm
      refine iff_of_true ?_ (Or.inr ⟨next, hma⟩)
      have hpi : ∀ r ∈ kept ++ (whole ++ [next]), Plain codec r := by
        intro r mem
        rw [← List.append_assoc] at mem
        rcases List.mem_append.mp mem with old | new
        · exact hp r old
        · exact List.mem_singleton.mp new ▸ hne
      have hls : Lines.lines 10 (fileOf codec (kept ++ whole) ++ tail) =
          (kept ++ (whole ++ [next])).filterMap codec.marshal := by simp [hl, hma]
      simpa [codec.unmarshal_marshal next tail hma] using reopens_whole hpi hc hls fileLimit now
    · refine iff_of_false ?_ ?_
      · rintro ⟨reopened, ho, -⟩
        obtain ⟨_, hmr, hsh⟩ := hne.1
        obtain rfl : _ = line := Option.some.inj (hmr.symm.trans hma)
        obtain ⟨e, hre⟩ := torn_refused he hma hsh hpa hcm hl {} fileLimit now
        rw [hre] at ho
        cases ho
      · rintro (hno | ⟨r, hwh⟩)
        · exact hem hno
        · have hra := codec.unmarshal_marshal r tail hwh
          rw [codec.no_part next line tail hma hpa hcm] at hra
          cases hra

/-! ### A kill inside a record -/

def connected : TelemetryRecord :=
  { receivedAt := 0, sourceIP := "::1", event := { eventID := "e", event := "connected", occurredAt := 0, clientID := "c",
                                                   sessionID := "s" } }

def connectedLine : Bytes :=
  ascii "\x7b\"received_at\":\"1970-01-01T00:00:00Z\",\"source_ip\":\"::1\",\"event\":\x7b\"schema_version\":1," ++
    ascii "\"event_id\":\"e\",\"event\":\"connected\",\"occurred_at\":\"1970-01-01T00:00:00Z\"," ++
    ascii "\"client_id\":\"c\",\"session_id\":\"s\"\x7d\x7d"

theorem connectedLine_bytes : 10 ∉ connectedLine ∧ 13 ∉ connectedLine ∧ connectedLine.length = 190 := by decide +kernel

def oneRecord : RecordCodec where
  marshal r := if r = connected then some connectedLine else none
  unmarshal line := if line = connectedLine then some connected else none
  unmarshal_marshal r line marshalled := by
    split at marshalled
    · rename_i known
      rw [if_pos (Option.some.inj marshalled).symm, known]
    · cases marshalled
  one_line r line marshalled := by
    split at marshalled
    · cases marshalled
      exact ⟨connectedLine_bytes.1, connectedLine_bytes.2.1⟩
    · cases marshalled
  no_part r line part marshalled _ proper := by
    split at marshalled
    · cases marshalled
      exact if_neg proper
    · cases marshalled

theorem marshal_connected : oneRecord.marshal connected = some connectedLine := by simp [oneRecord]

theorem connected_plain : Plain oneRecord connected := by
  refine ⟨⟨connectedLine, marshal_connected, ?_⟩, by decide⟩
  rw [connectedLine_bytes.2.2]
  decide

def afterBatch : Sink :=
  (Sink.writeTelemetry oneRecord {} 0 [connected, connected]
    { retained := { memoryLimit := 1000 }, base := [], fileBytes := 0, fileLimit := 1000 }).2

theorem afterBatch_reachable : Reachable oneRecord 1000 1000 [] afterBatch [connected, connected] 0 := by
  have hfi : ∀ r ∈ [connected, connected], Fits oneRecord r := by
    intro r mem line hma
    obtain rfl : r = connected := by simpa using mem
    obtain ⟨_, hsa, hsh⟩ := connected_plain.1
    cases hsa.symm.trans hma
    exact hsh
  have run := Reachable.write {} 0 [connected, connected] hfi
    (.opened {} 0 (fun r mem => absurd mem List.not_mem_nil) rfl :
      Reachable oneRecord 1000 1000 []
        { retained := { memoryLimit := 1000 }, base := [], fileBytes := 0, fileLimit := 1000 } [] 0)
  have log : handed oneRecord none [connected, connected] = [connected, connected] := by
    simp [handed, marshal_connected, show connected.event.event ≠ telemetryAppConnectionEvent by decide]
  exact log ▸ run

theorem afterBatch_file : afterBatch.base = [] ∧ afterBatch.appended = [connectedLine, connectedLine] := by
  simp [afterBatch, writeTelemetry, writeRecords, marshal_connected, connectedLine_bytes, maybeCompactLocked,
    show connected.event.event ≠ telemetryAppConnectionEvent by decide]

/-- The first record was written whole, but no sink opens on the file. -/
theorem kill_inside_record_refused :
    Reachable oneRecord 1000 1000 [] afterBatch [connected, connected] 0 ∧
      ∃ content, afterBatch.Killed content ∧ connected ∈ written oneRecord afterBatch [connected, connected] content ∧
        ∃ e, openSink oneRecord {} 1000 1000 0 content = .error e := by
  have hpa : connectedLine.take 20 <+: connectedLine := List.take_prefix _ _
  have hln : (connectedLine.take 20).length = 20 := by simp [connectedLine_bytes]
  have hpr : connectedLine.take 20 ≠ connectedLine := fun hsa => by
    rw [hsa, connectedLine_bytes.2.2] at hln
    cases hln
  have hfd : connectedLine.take 20 ≠ [] := fun hno => by simp [hno] at hln
  have hfr : 10 ∉ connectedLine.take 20 := fun mem => connectedLine_bytes.1 (hpa.subset mem)
  have hl : Lines.lines 10 (connectedLine ++ 10 :: connectedLine.take 20) =
      [connected].filterMap oneRecord.marshal ++ [connectedLine.take 20] := by
    rw [Lines.lines_line connectedLine_bytes.1, Lines.lines_unterminated hfr hfd]
    simp [marshal_connected]
  refine ⟨afterBatch_reachable, connectedLine ++ 10 :: connectedLine.take 20, ⟨?_, ?_⟩, ?_, ?_⟩
  · rw [afterBatch_file.1]
    exact List.nil_prefix
  · have hby : [connectedLine, connectedLine].flatMap (· ++ [10]) = connectedLine ++ 10 :: (connectedLine ++ [10]) := by
      simp
    rw [afterBatch_file.1, afterBatch_file.2, hby, List.nil_append, List.prefix_append_right_inj, List.cons_prefix_cons]
    exact ⟨rfl, hpa.trans (List.prefix_append _ _)⟩
  · simp [written, afterBatch_file, hl, marshal_connected, oneRecord.unmarshal_marshal _ _ marshal_connected]
  · exact torn_refused (by simpa using connected_plain.1) marshal_connected (by rw [connectedLine_bytes.2.2]; decide) hpa
      hpr hl {} 1000 0

/-- A kill just before a newline loses nothing. -/
theorem reopens_iff_untorn_unterminated :
    ∃ reopened, openSink oneRecord {} 1000 1000 0 connectedLine = .ok reopened ∧
      ∀ recent, recent <:+ written oneRecord afterBatch [connected, connected] connectedLine →
        Budget.total (lineBytes oneRecord) recent ≤ 1000 →
        (recent.filter (inWindow (max 0 0))).Sublist (reopened.retained.records.map StoredRecord.record) := by
  have hk : afterBatch.Killed connectedLine := by
    refine ⟨?_, ?_⟩
    · rw [afterBatch_file.1]
      exact List.nil_prefix
    · rw [afterBatch_file.1, afterBatch_file.2]
      simp
  have hrs : Lines.rest 10 connectedLine = connectedLine :=
    Lines.rest_append_free Lines.Whole.nil connectedLine_bytes.1
  have hu : Untorn oneRecord connectedLine := Or.inr ⟨connected, by rw [hrs, marshal_connected]⟩
  exact (reopens_iff_untorn afterBatch_reachable hk 0).mpr hu

end Sink

end OpenRung.Broker
