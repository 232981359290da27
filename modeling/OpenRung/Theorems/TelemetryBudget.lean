import OpenRung.Theorems.TelemetrySink

/-! The byte budgets of the telemetry sink. The loader trims its memory late, and still ends with the newest records that
    the budget holds, having moved every record at most twice. -/

namespace OpenRung.Broker
open Budget Sink

variable {codec : RecordCodec}

/-! ### Loading -/

/-- The lines before any that does not decode are read as the records they hold. -/
def Readable (codec : RecordCodec) (lines : List Bytes) : Prop :=
  ∀ raw ∈ lines, raw.length < maxTelemetryLine ∧ (codec.unmarshal (dropCR raw)).isSome

theorem loadLines_eq {lines : List Bytes} (hread : Readable codec lines) (cutoff : Time) (n shifts : Nat) (m : Retained)
    (privacy : Bool) :
    ∃ privacy', loadLines codec cutoff n lines (m, privacy) =
      .ok (((eligible codec cutoff lines).foldl Retained.load (m, shifts)).1, privacy') := by
  induction lines generalizing n shifts m privacy with
  | nil => exact ⟨privacy, rfl⟩
  | cons raw lines ih =>
    obtain ⟨hlen, hsome⟩ := hread raw (by simp)
    obtain ⟨record, hrecord⟩ := Option.isSome_iff_exists.mp hsome
    have hrest : Readable codec lines := fun raw hmem => hread raw (by simp [hmem])
    rw [loadLines, if_neg (Nat.not_le.mpr hlen), hrecord, eligible, List.filterMap_cons, hrecord, Option.bind_some,
      ← eligible]
    dsimp only
    by_cases happ : record.event.event = telemetryAppConnectionEvent
    · rw [if_pos happ, if_pos (.inl happ)]
      exact ih hrest (n + 1) shifts m true
    by_cases hold : retentionTime record < cutoff
    · rw [if_neg happ, if_pos hold, if_pos (.inr hold)]
      exact ih hrest (n + 1) shifts m privacy
    · rw [if_neg happ, if_neg hold, if_neg (not_or.mpr ⟨happ, hold⟩)]
      dsimp only
      rw [List.foldl_cons, Retained.load]
      dsimp only
      split
      · exact ih hrest (n + 1) _ _ privacy
      · exact ih hrest (n + 1) _ _ privacy

def scanned (memoryLimit : Nat) (records : List StoredRecord) : Retained × Nat :=
  records.foldl Retained.load ({ memoryLimit }, 0)

theorem scanned_eq (memoryLimit : Nat) (records : List StoredRecord) :
    Tallied (scanned memoryLimit records).1 ∧ (scanned memoryLimit records).1.memoryLimit = memoryLimit ∧
      ((scanned memoryLimit records).1.records, (scanned memoryLimit records).2) =
        records.foldl (addLate StoredRecord.bytes memoryLimit) ([], 0) := by
  induction records using List.reverseRecOn with
  | nil => exact ⟨rfl, rfl, rfl⟩
  | append_singleton records stored ih =>
    obtain ⟨htallied, hlimit, hqueue⟩ := ih
    rw [scanned, List.foldl_append, List.foldl_append, ← scanned, ← hqueue]
    have happend := htallied.append stored.record stored.bytes
    have hmemory : ((scanned memoryLimit records).1.append stored.record stored.bytes).memoryBytes =
        total StoredRecord.bytes ((scanned memoryLimit records).1.records ++ [stored]) := happend
    simp only [List.foldl_cons, List.foldl_nil, Retained.load, addLate, hmemory]
    have hlimit' : ((scanned memoryLimit records).1.append stored.record stored.bytes).memoryLimit = memoryLimit := hlimit
    rw [hlimit']
    split
    · refine ⟨happend.drop, hlimit, ?_⟩
      rw [happend.records_drop, happend.shifts, hlimit']
      rfl
    · exact ⟨happend, hlimit, rfl⟩

/-- The longest run of newest eligible records within the budget, with no more than twice the budget and a record in
    memory, and no more than two moves a record. -/
theorem load_keeps_newest (codec : RecordCodec) (memoryLimit : Nat) (now : Time) (content : Bytes)
    (readable : Readable codec (Lines.lines 10 content)) :
    let records := eligible codec (now - telemetryRetention) (Lines.lines 10 content)
    let last := scanned memoryLimit records
    let m := last.1.dropOldestOverBudget
    (∃ privacy, loadRecent codec memoryLimit now content = .ok (m, privacy)) ∧
      (m.records <:+ records ∧ m.memoryBytes = total StoredRecord.bytes m.records ∧ m.memoryBytes ≤ memoryLimit ∧
        ∀ newest, newest <:+ records → total StoredRecord.bytes newest ≤ memoryLimit → newest <:+ m.records) ∧
      (∀ before stored after, records = before ++ stored :: after →
        ((scanned memoryLimit before).1.append stored.record stored.bytes).memoryBytes ≤ 2 * memoryLimit + stored.bytes) ∧
      last.2 + last.1.shifts ≤ 2 * (Lines.lines 10 content).length := by
  intro records last m
  obtain ⟨htallied, hlimit, hqueue⟩ := scanned_eq memoryLimit records
  have hlate := hqueue ▸ late_foldl StoredRecord.bytes memoryLimit records
  have hrecords : m.records = fit StoredRecord.bytes memoryLimit last.1.records := hlimit ▸ htallied.records_drop
  have hbytes : m.memoryBytes = total StoredRecord.bytes m.records := htallied.drop
  refine ⟨?_, ⟨?_, hbytes, ?_, ?_⟩, ?_, ?_⟩
  · obtain ⟨privacy, hload⟩ := loadLines_eq readable (now - telemetryRetention) 1 0 { memoryLimit } false
    exact ⟨privacy, by rw [loadRecent, hload]; rfl⟩
  · rw [hrecords]
    exact (fit_suffix _ _).trans hlate.suffix
  · rw [hbytes, hrecords]
    exact total_fit_le _ _ _
  · intro newest hnewest hle
    rw [hrecords]
    exact suffix_fit (hlate.newest newest hnewest hle) hle
  · intro before stored after _
    obtain ⟨htallied, -, hqueue⟩ := scanned_eq memoryLimit before
    have hbound := (hqueue ▸ late_foldl StoredRecord.bytes memoryLimit before).bound
    rw [Retained.append, htallied]
    exact Nat.add_le_add_right hbound _
  · have hmoves := hlate.moves_le
    have hlength : records.length ≤ (Lines.lines 10 content).length := List.length_filterMap_le _ _
    have hshifts : last.1.shifts = moved StoredRecord.bytes memoryLimit last.1.records := hlimit ▸ htallied.shifts
    rw [hshifts]
    exact hmoves.trans (Nat.mul_le_mul_left 2 hlength)

theorem load_keeps_line :
    Readable oneRecord (Lines.lines 10 (fileOf oneRecord [connected, connected])) ∧
      ∃ privacy, loadRecent oneRecord 300 0 (fileOf oneRecord [connected, connected]) = .ok ((scanned 300 (eligible oneRecord
        (0 - telemetryRetention) (Lines.lines 10 (fileOf oneRecord [connected, connected])))).1.dropOldestOverBudget,
          privacy) := by
  have readable : Readable oneRecord (Lines.lines 10 (fileOf oneRecord [connected, connected])) := by
    have hlines : Lines.lines 10 (fileOf oneRecord [connected, connected]) = [connectedLine, connectedLine] := by
      have hfree : ∀ l ∈ [connectedLine, connectedLine], (10 : UInt8) ∉ l := by simp [connectedLine_bytes]
      simpa [fileOf, marshal_connected] using Lines.lines_flatMap_append hfree []
    rw [hlines]
    intro raw hraw
    obtain rfl : raw = connectedLine := by simpa using hraw
    rw [connectedLine_bytes.2.2, dropCR_line connectedLine_bytes.2.1, oneRecord.unmarshal_marshal _ _ marshal_connected]
    exact ⟨by decide, rfl⟩
  exact ⟨readable, (load_keeps_newest oneRecord 300 0 _ readable).1⟩

/-! ### Writing -/

def accepted (codec : RecordCodec) : Option Nat → List TelemetryRecord → List TelemetryRecord
  | _, [] => []
  | fails, record :: records =>
    if record.event.event = telemetryAppConnectionEvent then accepted codec fails records
    else match codec.marshal record with
      | none => []
      | some _ => if fails = some 0 then [] else record :: accepted codec (fails.map (· - 1)) records

def Sink.content (s : Sink) : Bytes := s.base ++ s.appended.flatMap (· ++ [10])

/-- The counters of the sink are the sums of what they count. A line has two bytes or more. -/
structure Booked (codec : RecordCodec) (s : Sink) : Prop where
  tallied : Tallied s.retained
  stored : ∀ st ∈ s.retained.records, ∃ line, codec.marshal st.record = some line ∧ st.bytes = line.length + 1
  file : s.writeErr = false → s.fileBytes = s.content.length ∧ (s.fileBytes = 0 ∨ 2 ≤ s.fileBytes)

namespace Booked
variable {s : Sink}

theorem failed (h : Booked codec s) : Booked codec { s with writeErr := true } := ⟨h.tallied, h.stored, by simp⟩

theorem flushLocked (h : Booked codec s) (io : SinkIO) (syncDisk : Bool) : Booked codec (s.flushLocked io syncDisk).2 := by
  unfold Sink.flushLocked
  split
  · exact h
  split
  · exact h.failed
  split
  · exact h.failed
  · exact h

theorem store (h : Booked codec s) {record : TelemetryRecord} {line : Bytes} (hline : codec.marshal record = some line)
    (hne : line ≠ []) :
    Booked codec { s with appended := s.appended ++ [line], retained := s.retained.append record (line.length + 1)
                          fileBytes := s.fileBytes + (line.length + 1) } where
  tallied := h.tallied.append _ _
  stored st hst := by
    rcases List.mem_append.mp hst with hst | hst
    · exact h.stored st hst
    · cases List.mem_singleton.mp hst
      exact ⟨line, hline, rfl⟩
  file herr := by
    have hfile := (h.file herr).1
    have hpos := List.length_pos_iff.mpr hne
    simp only [Sink.content, List.flatMap_append, List.length_append] at hfile ⊢
    simp only [List.flatMap_cons, List.flatMap_nil, List.length_append, List.length_cons, List.length_nil]
    omega

theorem trim (h : Booked codec s) (cutoff : Time) :
    Booked codec { s with retained := (s.retained.prune cutoff).dropOldestOverBudget } where
  tallied := (h.tallied.prune cutoff).drop
  stored st hst := by
    rw [(h.tallied.prune cutoff).records_drop] at hst
    exact h.stored st (List.mem_of_mem_filter ((fit_suffix _ _).subset hst))
  file := h.file

theorem length_lines {records : List StoredRecord} {lines : List Bytes}
    (hstored : ∀ st ∈ records, ∃ line, codec.marshal st.record = some line ∧ st.bytes = line.length + 1)
    (hlines : (records.map StoredRecord.record).mapM codec.marshal = some lines) :
    (lines.flatMap (· ++ [10])).length = total StoredRecord.bytes records := by
  rw [← (List.mapM_eq_some_iff.mp hlines).2]
  clear hlines
  induction records with
  | nil => rfl
  | cons st records ih =>
    obtain ⟨line, hline, hbytes⟩ := hstored st (by simp)
    have hrest := ih fun st hst => hstored st (by simp [hst])
    rw [List.map_cons, List.filterMap_cons_some hline, List.flatMap_cons, List.length_append, hrest, total_cons, hbytes,
      List.length_append, List.length_singleton]

theorem compactLocked (h : Booked codec s) (hne : ∀ r line, codec.marshal r = some line → line ≠ []) (io : SinkIO) :
    (s.compactLocked codec io).2.retained = s.retained ∧ ((s.compactLocked codec io).1 = true →
      Booked codec (s.compactLocked codec io).2 ∧ (s.compactLocked codec io).2.fileBytes = s.retained.memoryBytes ∧
        (s.compactLocked codec io).2.writeErr = false) := by
  obtain ⟨err, hfailed, -⟩ | ⟨herr, ok, lines, bytes, hlines, hbytes, hdone⟩ := compactLocked_cases codec io s
  · rw [hfailed]
    exact ⟨rfl, by simp⟩
  · rw [hdone]
    refine ⟨rfl, fun hok => ?_⟩
    have hlength := length_lines h.stored hlines
    have hfile : bytes = s.retained.memoryBytes := by rw [hbytes hok, hlength, h.tallied]
    refine ⟨⟨h.tallied, h.stored, fun _ => ⟨?_, ?_⟩⟩, hfile, herr⟩
    · rw [hbytes hok]
      simp [Sink.content]
    · -- a record in memory has a line of its own
      cases hrecords : s.retained.records with
      | nil =>
        left
        rw [hfile, h.tallied, hrecords]
        rfl
      | cons st records =>
        right
        obtain ⟨line, hline, hst⟩ := h.stored st (by simp [hrecords])
        have hpos := List.length_pos_iff.mpr (hne _ _ hline)
        show 2 ≤ bytes
        rw [hfile, h.tallied, hrecords, total_cons, hst]
        omega

theorem writeRecords (h : Booked codec s) (hne : ∀ r line, codec.marshal r = some line → line ≠ []) (fails : Option Nat)
    (records : List TelemetryRecord) :
    let out := Sink.writeRecords codec fails records s
    Booked codec out.2 ∧ out.2.retained.memoryLimit = s.retained.memoryLimit ∧ out.2.fileLimit = s.fileLimit ∧
      (out.1 = .ok () → out.2.writeErr = s.writeErr) ∧ out.2.retained.records.map StoredRecord.record =
        s.retained.records.map StoredRecord.record ++ accepted codec fails records := by
  induction records generalizing fails s with
  | nil => exact ⟨h, rfl, rfl, fun _ => rfl, by simp [Sink.writeRecords, accepted]⟩
  | cons record records ih =>
    by_cases happ : record.event.event = telemetryAppConnectionEvent
    · simpa only [Sink.writeRecords, accepted, if_pos happ] using ih h fails
    · cases hline : codec.marshal record with
      | none =>
        simp only [Sink.writeRecords, accepted, if_neg happ, hline]
        exact ⟨h, trivial, trivial, by simp, by simp⟩
      | some line =>
        by_cases hfails : fails = some 0
        · simp only [Sink.writeRecords, accepted, if_neg happ, hline, if_pos hfails]
          exact ⟨⟨h.tallied, h.stored, by simp⟩, trivial, trivial, by simp, by simp⟩
        · simp only [Sink.writeRecords, accepted, if_neg happ, hline, if_neg hfails]
          obtain ⟨hbooked, hmemory, hfile, herr, hrecords⟩ := ih (h.store hline (hne _ _ hline)) (fails.map (· - 1))
          refine ⟨hbooked, hmemory, hfile, herr, hrecords.trans ?_⟩
          simp [Retained.append]

end Booked

structure Budgeted (memoryLimit fileLimit : Nat) (s : Sink) : Prop where
  memory : s.retained.memoryBytes = total StoredRecord.bytes s.retained.records
  memoryLimit : s.retained.memoryBytes ≤ memoryLimit
  file : s.fileBytes = s.content.length
  fileLimit : s.fileBytes ≤ fileLimit

/-- A file over its limit is more than twice as large as what is left in memory, so it is compacted. -/
theorem Booked.maybeCompactLocked {s : Sink} (h : Booked codec s) (hne : ∀ r line, codec.marshal r = some line → line ≠ [])
    (io : SinkIO) (herr : s.writeErr = false) {memoryLimit fileLimit : Nat} (hquarter : 4 * memoryLimit ≤ fileLimit)
    (hmemory : s.retained.memoryBytes ≤ memoryLimit) (hlimit : s.fileLimit = fileLimit)
    (hok : (s.maybeCompactLocked codec io).1 = true) : Booked codec (s.maybeCompactLocked codec io).2 ∧
      Budgeted memoryLimit fileLimit (s.maybeCompactLocked codec io).2 := by
  unfold Sink.maybeCompactLocked at hok ⊢
  obtain ⟨hfile, hsize⟩ := h.file herr
  split at hok
  · rename_i hguard
    rw [if_pos hguard]
    refine ⟨h, h.tallied, hmemory, hfile, ?_⟩
    dsimp only
    omega
  · rename_i hguard
    rw [if_neg hguard]
    obtain ⟨hretained, hdone⟩ := h.compactLocked hne io
    obtain ⟨hbooked, hbytes, herr'⟩ := hdone hok
    refine ⟨hbooked, hbooked.tallied, hretained ▸ hmemory, (hbooked.file herr').1, ?_⟩
    rw [hbytes]
    omega

theorem maybeCompactLocked_frame (codec : RecordCodec) (io : SinkIO) (s : Sink) :
    (s.maybeCompactLocked codec io).2.retained = s.retained ∧ (s.maybeCompactLocked codec io).2.fileLimit = s.fileLimit := by
  unfold Sink.maybeCompactLocked
  split
  · exact ⟨rfl, rfl⟩
  · obtain ⟨err, hfailed, -⟩ | ⟨-, ok, lines, bytes, -, -, hdone⟩ := compactLocked_cases codec io s
    · rw [hfailed]
      exact ⟨rfl, rfl⟩
    · rw [hdone]
      exact ⟨rfl, rfl⟩

theorem Booked.finish {s : Sink} (h : Booked codec s) (hne : ∀ r line, codec.marshal r = some line → line ≠ [])
    (io : SinkIO) (herr : s.writeErr = false) {memoryLimit fileLimit : Nat} (hquarter : 4 * memoryLimit ≤ fileLimit)
    (hmemory : s.retained.memoryLimit = memoryLimit) (hlimit : s.fileLimit = fileLimit) (now : Time) :
    let retained := (s.retained.prune (now - telemetryRetention)).dropOldestOverBudget
    let out := { s with retained }.maybeCompactLocked codec io
    out.2.retained = retained ∧ out.2.fileLimit = fileLimit ∧
      (out.1 = true → Booked codec out.2 ∧ Budgeted memoryLimit fileLimit out.2) ∧
      Booked codec { out.2 with writeErr := true } := by
  intro retained out
  obtain ⟨hretained, hframe⟩ := maybeCompactLocked_frame codec io { s with retained }
  have htrim := h.trim (now - telemetryRetention)
  have hbound : retained.memoryBytes ≤ memoryLimit := by
    rw [htrim.tallied, (h.tallied.prune _).records_drop, ← hmemory]
    exact total_fit_le _ _ _
  refine ⟨hretained, hframe.trans hlimit, htrim.maybeCompactLocked hne io herr hquarter hbound hlimit, ?_, ?_, by simp⟩
  · exact hretained.symm ▸ htrim.tallied
  · exact hretained.symm ▸ htrim.stored

/-! ### Runs -/

inductive SinkCall where
  | write (io : SinkIO) (now : Time) (records : List TelemetryRecord)
  | flush (io : SinkIO) (syncDisk : Bool)
  | close (io : SinkIO)

/-- A sink with the records that it has accepted, and those of them that no prune since then has found expired. -/
structure Ledger where
  sink : Sink
  log : List TelemetryRecord := []
  kept : List TelemetryRecord := []

def Ledger.next (codec : RecordCodec) (l : Ledger) : SinkCall → Ledger
  | .write io now records =>
    let sink := (l.sink.writeTelemetry codec io now records).2
    if l.sink.closed || l.sink.writeErr then { l with sink }
    else
      let added := accepted codec io.write records
      -- the loop has to come to its end for the prune to run
      let pruned := (writeRecords codec io.write records l.sink).1.isOk
      { sink, log := l.log ++ added
        kept := if pruned then (l.kept ++ added).filter (inWindow now) else l.kept ++ added }
  | .flush io syncDisk => { l with sink := l.sink.flush io syncDisk }
  | .close io => { l with sink := l.sink.close io }

theorem Ledger.sink_write (codec : RecordCodec) (l : Ledger) (io : SinkIO) (now : Time) (records : List TelemetryRecord) :
    (l.next codec (.write io now records)).sink = (l.sink.writeTelemetry codec io now records).2 := by
  unfold Ledger.next
  dsimp only
  split <;> rfl

structure LedgerInv (codec : RecordCodec) (memoryLimit fileLimit : Nat) (l : Ledger) : Prop where
  booked : Booked codec l.sink
  memoryLimit : l.sink.retained.memoryLimit = memoryLimit
  fileLimit : l.sink.fileLimit = fileLimit
  suffix : l.sink.retained.records.map StoredRecord.record <:+ l.kept

theorem suffix_trim {m : Retained} (h : Tallied m) {kept : List TelemetryRecord}
    (hsuffix : m.records.map StoredRecord.record <:+ kept) (now : Time) :
    (m.prune (now - telemetryRetention)).dropOldestOverBudget.records.map StoredRecord.record <:+
      kept.filter (inWindow now) := by
  have hpruned : (m.prune (now - telemetryRetention)).records.map StoredRecord.record =
      (m.records.map StoredRecord.record).filter (inWindow now) := by
    simp only [Retained.prune, inWindow, List.filter_map, Function.comp_def, ← decide_not, not_lt]
  rw [(h.prune _).records_drop]
  exact ((fit_suffix _ _).map _).trans (hpruned ▸ hsuffix.filter _)

namespace LedgerInv
variable {memoryLimit fileLimit : Nat} {l : Ledger}

theorem write (inv : LedgerInv codec memoryLimit fileLimit l) (hne : ∀ r line, codec.marshal r = some line → line ≠ [])
    (hquarter : 4 * memoryLimit ≤ fileLimit) (io : SinkIO) (now : Time) (records : List TelemetryRecord) :
    LedgerInv codec memoryLimit fileLimit (l.next codec (.write io now records)) ∧
      ((l.sink.writeTelemetry codec io now records).1 = .ok () →
        Budgeted memoryLimit fileLimit (l.next codec (.write io now records)).sink ∧
          (l.next codec (.write io now records)).kept =
            (l.kept ++ accepted codec io.write records).filter (inWindow now) ∧
          (l.next codec (.write io now records)).log = l.log ++ accepted codec io.write records) := by
  obtain ⟨hbooked, hmemory, hfile, herr, hrecords⟩ := inv.booked.writeRecords hne io.write records
  have hsuffix : (writeRecords codec io.write records l.sink).2.retained.records.map StoredRecord.record <:+
      l.kept ++ accepted codec io.write records := hrecords ▸ List.suffix_append_self_iff.mpr inv.suffix
  unfold Ledger.next Sink.writeTelemetry
  by_cases hclosed : l.sink.closed = true
  · simp only [hclosed, Bool.true_or, if_true]
    exact ⟨inv, by simp⟩
  by_cases hfailed : l.sink.writeErr = true
  · simp only [hclosed, hfailed, Bool.or_true, if_true]
    exact ⟨inv, by simp⟩
  simp only [hclosed, hfailed, Bool.or_self, Bool.false_eq_true, if_false]
  cases hout : writeRecords codec io.write records l.sink with
  | mk result s =>
    rw [hout] at hbooked hmemory hfile herr hsuffix
    cases result with
    | error e => exact ⟨⟨hbooked, hmemory.trans inv.memoryLimit, hfile.trans inv.fileLimit, hsuffix⟩, by simp⟩
    | ok u =>
      have hopen : s.writeErr = false := by
        rw [herr rfl]
        simpa using hfailed
      obtain ⟨hretained, hlimit, hdone, hfailed⟩ := hbooked.finish hne io hopen hquarter
        (hmemory.trans inv.memoryLimit) (hfile.trans inv.fileLimit) now
      have hkept := suffix_trim hbooked.tallied hsuffix now
      dsimp only [Except.isOk]
      split
      · rename_i hok
        obtain ⟨hbooked', hbudgeted⟩ := hdone hok
        refine ⟨⟨hbooked', ?_, hlimit, ?_⟩, fun _ => ⟨hbudgeted, rfl, trivial⟩⟩
        · rw [hretained]
          exact hmemory.trans inv.memoryLimit
        · rw [hretained]
          exact hkept
      · refine ⟨⟨hfailed, ?_, hlimit, ?_⟩, by simp⟩
        · rw [hretained]
          exact hmemory.trans inv.memoryLimit
        · rw [hretained]
          exact hkept

theorem step (inv : LedgerInv codec memoryLimit fileLimit l) (hne : ∀ r line, codec.marshal r = some line → line ≠ [])
    (hquarter : 4 * memoryLimit ≤ fileLimit) (call : SinkCall) :
    LedgerInv codec memoryLimit fileLimit (l.next codec call) := by
  have hframe (s : Sink) (io : SinkIO) (syncDisk : Bool) : (s.flushLocked io syncDisk).2.retained = s.retained ∧
      (s.flushLocked io syncDisk).2.fileLimit = s.fileLimit := by
    unfold Sink.flushLocked
    split_ifs <;> exact ⟨rfl, rfl⟩
  cases call with
  | write io now records => exact (inv.write hne hquarter io now records).1
  | flush io syncDisk =>
    obtain ⟨hretained, hlimit⟩ := hframe l.sink io syncDisk
    exact ⟨inv.booked.flushLocked io syncDisk, hretained ▸ inv.memoryLimit, hlimit.trans inv.fileLimit,
      hretained.symm ▸ inv.suffix⟩
  | close io =>
    obtain ⟨hretained, hlimit⟩ := hframe { l.sink with closed := true } io true
    have hclosed : Booked codec { l.sink with closed := true } := ⟨inv.booked.tallied, inv.booked.stored, inv.booked.file⟩
    exact ⟨hclosed.flushLocked io true, hretained ▸ inv.memoryLimit, hlimit.trans inv.fileLimit,
      hretained.symm ▸ inv.suffix⟩

theorem run (inv : LedgerInv codec memoryLimit fileLimit l) (hne : ∀ r line, codec.marshal r = some line → line ≠ [])
    (hquarter : 4 * memoryLimit ≤ fileLimit) (calls : List SinkCall) :
    LedgerInv codec memoryLimit fileLimit (calls.foldl (Ledger.next codec) l) := by
  induction calls generalizing l with
  | nil => exact inv
  | cons call calls ih => exact ih (inv.step hne hquarter call)

end LedgerInv

theorem filter_kept {t : Time} (calls : List SinkCall) (hearlier : ∀ io now records, .write io now records ∈ calls → now ≤ t)
    {l : Ledger} (h : l.kept.filter (inWindow t) = l.log.filter (inWindow t)) :
    (calls.foldl (Ledger.next codec) l).kept.filter (inWindow t) =
      (calls.foldl (Ledger.next codec) l).log.filter (inWindow t) := by
  induction calls generalizing l with
  | nil => exact h
  | cons call calls ih =>
    refine ih (fun io now records hmem => hearlier io now records (by simp [hmem])) ?_
    cases call with
    | flush io syncDisk => exact h
    | close io => exact h
    | write io now records =>
      have hmono : ∀ r, inWindow t r = true → inWindow now r = true := inWindow_mono (hearlier io now records (by simp))
      have hinside : ∀ rs : List TelemetryRecord, (rs.filter (inWindow now)).filter (inWindow t) = rs.filter (inWindow t) := by
        intro rs
        rw [List.filter_filter]
        refine List.filter_congr fun r _ => ?_
        by_cases hr : inWindow t r = true
        · simp [hr, hmono r hr]
        · simp [hr]
      unfold Ledger.next
      dsimp only
      split
      · exact h
      · dsimp only
        split
        · rw [hinside, List.filter_append, List.filter_append, h]
        · rw [List.filter_append, List.filter_append, h]

/-- After every successful write the counters are the sums of what they count and within their limits, and the records
    are the newest of those accepted that no prune has found expired. -/
theorem sink_keeps_budgets {codec : RecordCodec} (hne : ∀ r line, codec.marshal r = some line → line ≠ [])
    {memoryLimit fileLimit : Nat} (quarter : 4 * memoryLimit ≤ fileLimit) {io₀ : SinkIO} {openedAt : Time} {s₀ : Sink}
    (opens : openSink codec io₀ memoryLimit fileLimit openedAt [] = .ok s₀) (calls : List SinkCall) (io : SinkIO)
    (now : Time) (records : List TelemetryRecord) {s : Sink}
    (written : (calls.foldl (Ledger.next codec) { sink := s₀ }).sink.writeTelemetry codec io now records = (.ok (), s)) :
    let l := (calls.foldl (Ledger.next codec) { sink := s₀ }).next codec (.write io now records)
    Budgeted memoryLimit fileLimit s ∧ s.retained.records.map StoredRecord.record <:+ l.kept ∧
      ((∀ io t records, .write io t records ∈ calls → t ≤ now) → l.kept = l.log.filter (inWindow now)) := by
  intro l
  have hopened : s₀ = { retained := { memoryLimit }, base := [], fileBytes := 0, fileLimit } := by
    cases opens
    rfl
  have hstart : LedgerInv codec memoryLimit fileLimit { sink := s₀ } := by
    subst hopened
    exact ⟨⟨rfl, by simp, fun _ => ⟨rfl, .inl rfl⟩⟩, rfl, rfl, List.nil_suffix⟩
  have hsink : l.sink = s := (Ledger.sink_write _ _ _ _ _).trans (congrArg Prod.snd written)
  obtain ⟨hinv, hok⟩ := (hstart.run hne quarter calls).write hne quarter io now records
  obtain ⟨hbudgeted, hkept, hlog⟩ := hok (by rw [written])
  refine ⟨hsink ▸ hbudgeted, hsink ▸ hinv.suffix, fun hearlier => ?_⟩
  show Ledger.kept _ = (Ledger.log _).filter _
  rw [hkept, hlog, List.filter_append, List.filter_append, filter_kept calls hearlier rfl]

theorem sink_keeps_budgets_of_batch :
    Budgeted 1000 4000 (writeTelemetry oneRecord {} 0 [connected, connected]
      { retained := { memoryLimit := 1000 }, base := [], fileBytes := 0, fileLimit := 4000 }).2 := by
  have hne : ∀ r line, oneRecord.marshal r = some line → line ≠ [] := by
    intro r line h hnil
    obtain ⟨-, ⟨⟩⟩ := Option.ite_none_right_eq_some.mp h
    exact absurd (congrArg List.length hnil) (by rw [connectedLine_bytes.2.2]; decide)
  have hok : (writeTelemetry oneRecord {} 0 [connected, connected]
      { retained := { memoryLimit := 1000 }, base := [], fileBytes := 0, fileLimit := 4000 }).1 = .ok () := by
    simp [writeTelemetry, writeRecords, marshal_connected, connectedLine_bytes, maybeCompactLocked,
      show connected.event.event ≠ telemetryAppConnectionEvent by decide]
  generalize hout : writeTelemetry oneRecord {} 0 [connected, connected] _ = out at hok ⊢
  obtain ⟨result, s⟩ := out
  cases hok
  have opens : openSink oneRecord {} 1000 4000 0 [] = .ok
      { retained := { memoryLimit := 1000 }, base := [], fileBytes := 0, fileLimit := 4000 } := rfl
  exact (sink_keeps_budgets hne (by decide) opens [] {} 0 [connected, connected] hout).1

end OpenRung.Broker
