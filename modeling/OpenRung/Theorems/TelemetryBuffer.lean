import OpenRung.Lib.Slots
import OpenRung.Broker.TelemetryBuffer

/-! The Postgres telemetry buffer loses nothing but what its caps let go. The accepted records are, in order, those
    that are done with, the batch of the running flush and the pending ones; a failed flush puts its batch back in
    front, and only then are the oldest dropped. -/

namespace OpenRung.Broker

/-! ### The rollup -/

def Holds (counts : KeyedMap (Time × String) AppCount) (c : Contribution) : Prop :=
  ∃ v, counts.lookup (c.hour, c.application) = some v ∧ c ∈ v.parts

def Discarded (discards : List Discard) (c : Contribution) : Prop := ∃ d ∈ discards, c ∈ d.value.parts

theorem Discarded.append_left {discards : List Discard} {c : Contribution} (hg : Discarded discards c)
    (more : List Discard) : Discarded (discards ++ more) c := by
  obtain ⟨d, mem, hp⟩ := hg
  exact ⟨d, List.mem_append_left _ mem, hp⟩

theorem Discarded.append_right {discards : List Discard} {c : Contribution} (hg : Discarded discards c)
    (before : List Discard) : Discarded (before ++ discards) c := by
  obtain ⟨d, mem, hp⟩ := hg
  exact ⟨d, List.mem_append_right _ mem, hp⟩

structure Countable (key : Time × String) (v : AppCount) : Prop where
  named : key.2 ≠ ""
  positive : 0 < v.total
  own : ∀ c ∈ v.parts, (c.hour, c.application) = key

theorem AppCount.add_parts (a b : AppCount) : (a + b).parts = a.parts ++ b.parts := rfl

theorem AppCount.add_total (a b : AppCount) : (a + b).total = a.total + b.total := rfl

theorem Countable.add {key : Time × String} {a b : AppCount} (hle : Countable key a) (hri : Countable key b) :
    Countable key (a + b) where
  named := hle.named
  positive := by
    rw [AppCount.add_total]
    exact Int.add_pos hle.positive hri.positive
  own := by
    intro c mem
    rw [AppCount.add_parts] at mem
    rcases List.mem_append.mp mem with mem | mem
    · exact hle.own c mem
    · exact hri.own c mem

namespace AppRollup

structure Sound (r : AppRollup) : Prop where
  entries : r.entries = r.counts.entries.length
  countable : ∀ key v, r.counts.lookup key = some v → Countable key v

theorem Sound.empty : Sound {} := ⟨rfl, fun _ _ hf => by cases hf⟩

variable {r : AppRollup}

theorem Sound.holds_none (hs : r.Sound) (hz : r.entries ≤ 0) (c : Contribution) :
    ¬Holds r.counts c := by
  rintro ⟨v, hf, -⟩
  have mem := KeyedMap.lookup_eq_some_iff.mp hf
  have hso := List.length_pos_of_mem mem
  have he := hs.entries
  omega

theorem lookup_evict (r : AppRollup) (oldest : Time) (key : Time × String) :
    (r.evict oldest).counts.lookup key = (r.counts.lookup key).filter fun _ => decide (key.1 ≠ oldest) :=
  KeyedMap.lookup_filter _ _ _

theorem Sound.evict (hs : r.Sound) (oldest : Time) : (r.evict oldest).Sound := by
  constructor
  · have hsp := r.counts.entries.length_eq_length_filter_add fun e => decide (e.1.1 = oldest)
    have hrs : (r.evict oldest).counts.entries = r.counts.entries.filter fun e => !decide (e.1.1 = oldest) := by
      simp only [AppRollup.evict, KeyedMap.filter, ne_eq, decide_not]
    have he : (r.evict oldest).entries = r.entries - (r.bucket oldest).length := rfl
    rw [hrs, he, hs.entries, hsp, bucket]
    push_cast
    omega
  · intro key v hf
    rw [lookup_evict, Option.filter_eq_some_iff] at hf
    exact hs.countable key v hf.1

variable {key : Time × String}

theorem Sound.insert_some (hr : Sound r) {old v : AppCount}
    (hho : r.counts.lookup key = some old) (hv : Countable key v) :
    Sound { r with counts := r.counts.insert key v } := by
  refine ⟨?_, fun key' v' hhf => ?_⟩
  · rw [KeyedMap.length_entries_insert_of_some hho]
    exact hr.entries
  · rw [KeyedMap.lookup_insert_eq] at hhf
    split at hhf
    · rename_i hhk
      cases hhf
      exact hhk ▸ hv
    · exact hr.countable key' v' hhf

theorem Sound.insert_none (hr : Sound r) {v : AppCount}
    (hhn : r.counts.lookup key = none) (hv : Countable key v) :
    Sound { r with entries := r.entries + 1, counts := r.counts.insert key v } := by
  refine ⟨?_, fun key' v' hhf => ?_⟩
  · rw [KeyedMap.length_entries_insert_of_none hhn, hr.entries]
    push_cast
    rfl
  · rw [KeyedMap.lookup_insert_eq] at hhf
    split at hhf
    · rename_i hhk
      cases hhf
      exact hhk ▸ hv
    · exact hr.countable key' v' hhf

structure Lets (r r' : AppRollup) (discards : List Discard) : Prop where
  sound : r'.Sound
  kept : ∀ c, Holds r.counts c → Holds r'.counts c ∨ Discarded discards c
  capped : ∀ d ∈ discards, maxTelemetryAppRollupEntries ≤ d.entries

theorem Lets.refl (hs : r.Sound) : Lets r r [] :=
  ⟨hs, fun _ hh => .inl hh, fun _ mem => by cases mem⟩

theorem Lets.trans {r r' r'' : AppRollup} {first second : List Discard} (one : Lets r r' first)
    (two : Lets r' r'' second) : Lets r r'' (first ++ second) where
  sound := two.sound
  kept := by
    intro c hh
    rcases one.kept c hh with hh | hg
    · exact (two.kept c hh).imp_right (·.append_right first)
    · exact .inr (hg.append_left second)
  capped := by
    intro d mem
    rcases List.mem_append.mp mem with mem | mem
    · exact one.capped d mem
    · exact two.capped d mem

theorem Sound.evict_lets (hs : r.Sound) (hfu : maxTelemetryAppRollupEntries ≤ r.entries)
    (oldest : Time) :
    Lets r (r.evict oldest)
      ((r.bucket oldest).map fun e => { key := e.1, value := e.2, entries := r.entries : Discard }) := by
  refine ⟨hs.evict oldest, fun c hh => ?_, fun d mem => ?_⟩
  · obtain ⟨v, hf, hp⟩ := hh
    by_cases old : c.hour = oldest
    · refine .inr ⟨_, List.mem_map_of_mem (List.mem_filter.mpr ⟨KeyedMap.lookup_eq_some_iff.mp hf, ?_⟩), hp⟩
      exact decide_eq_true old
    · refine .inl ⟨v, ?_, hp⟩
      rw [lookup_evict, hf, Option.filter_some, if_pos (decide_eq_true old)]
  · obtain ⟨e, -, rfl⟩ := List.mem_map.mp mem
    exact hfu

theorem makeRoom_spec (sound : r.Sound) (hour : Time) :
    Lets r (r.makeRoom hour).1 (r.makeRoom hour).2.1 ∧
      (∀ key, r.counts.lookup key = none → (r.makeRoom hour).1.counts.lookup key = none) ∧
      ((r.makeRoom hour).2.2 = false → maxTelemetryAppRollupEntries ≤ (r.makeRoom hour).1.entries) := by
  fun_induction makeRoom r hour with
  | case1 r room => exact ⟨.refl sound, fun _ absent => absent, fun no => by cases no⟩
  | case2 r full none => exact ⟨.refl sound, fun _ absent => absent, fun _ => not_lt.mp full⟩
  | case3 r full oldest found evicted room ih =>
    obtain ⟨lets, absent, last⟩ := ih (sound.evict oldest)
    refine ⟨(sound.evict_lets (not_lt.mp full) oldest).trans lets, fun key none => absent key ?_, last⟩
    rw [lookup_evict, none, Option.filter_none]

theorem add_spec (hs : r.Sound) {count : AppCount}
    (hc : Countable key count) :
    Lets r (r.add key.1 key.2 count).1 (r.add key.1 key.2 count).2.1 ∧
      ∀ c ∈ count.parts, Holds (r.add key.1 key.2 count).1.counts c ∨ Discarded (r.add key.1 key.2 count).2.1 c := by
  have hcu : ¬(key.2 = "" ∨ count.total ≤ 0) :=
    not_or.mpr ⟨hc.named, not_le.mpr hc.positive⟩
  have own {c : Contribution} (mem : c ∈ count.parts) {m : KeyedMap (Time × String) AppCount} {v : AppCount}
      (hf : m.lookup key = some v) (hp : c ∈ v.parts) : Holds m c :=
    ⟨v, by rw [hc.own c mem]; exact hf, hp⟩
  unfold add
  rw [if_neg hcu]
  cases hf : r.counts.lookup (key.1, key.2) with
  | some old =>
    have hbo := (hs.countable _ _ hf).add hc
    refine ⟨⟨hs.insert_some hf hbo, fun c hh => .inl ?_, fun d mem => by cases mem⟩, fun c mem => .inl ?_⟩
    · obtain ⟨v, hhe, hp⟩ := hh
      by_cases hsa : (c.hour, c.application) = (key.1, key.2)
      · rw [hsa, hf] at hhe
        cases hhe
        exact ⟨old + count, by rw [KeyedMap.lookup_insert_eq, if_pos hsa], List.mem_append_left _ hp⟩
      · exact ⟨v, by rw [KeyedMap.lookup_insert_eq, if_neg hsa, hhe], hp⟩
    · exact own mem (by rw [KeyedMap.lookup_insert_eq, if_pos rfl]) (List.mem_append_right _ mem)
  | none =>
    obtain ⟨hl, hab, hla⟩ := makeRoom_spec hs key.1
    rcases hro : r.makeRoom key.1 with ⟨r', evicted, ok⟩
    rw [hro] at hl hab hla
    cases ok with
    | true =>
      have hfr : r'.counts.lookup (key.1, key.2) = none := hab _ hf
      refine ⟨⟨hl.sound.insert_none hfr hc, fun c hh => ?_, hl.capped⟩, fun c mem => .inl ?_⟩
      · refine (hl.kept c hh).imp_left fun ⟨v, hhe, hp⟩ => ⟨v, ?_, hp⟩
        have ho : (c.hour, c.application) ≠ (key.1, key.2) := by
          intro hsa
          rw [hsa, hfr] at hhe
          cases hhe
        rw [KeyedMap.lookup_insert_eq, if_neg ho, hhe]
      · exact own mem (by rw [KeyedMap.lookup_insert_eq, if_pos rfl]) mem
    | false =>
      refine ⟨⟨hl.sound, fun c hh => ?_, fun d mem => ?_⟩, fun c mem => .inr ?_⟩
      · exact (hl.kept c hh).imp_right (·.append_left _)
      · rcases List.mem_append.mp mem with mem | mem
        · exact hl.capped d mem
        · rw [List.mem_singleton.mp mem]
          exact hla rfl
      · exact ⟨_, List.mem_append_right _ (List.mem_singleton_self _), mem⟩

theorem mem_rows {order : List (Time × String)} (hra : TelemetryBuffer.Ranges r order)
    {v : AppCount} : (key, v) ∈ r.rows order ↔ r.counts.lookup key = some v := by
  rw [rows, List.mem_filterMap]
  constructor
  · rintro ⟨key', -, eq⟩
    obtain ⟨v', hf, eq⟩ := Option.map_eq_some_iff.mp eq
    cases eq
    exact hf
  · intro hf
    have mem : key ∈ r.counts.keys := by
      rw [← AList.mem_keys, ← AList.lookup_isSome, hf]
      rfl
    exact ⟨key, hra.mem_iff.mpr mem, by rw [hf]; rfl⟩

end AppRollup

/-! ### The table of counts -/

theorem holds_upsertRow {table : KeyedMap (Time × String) AppCount} {row : (Time × String) × AppCount}
    {c : Contribution} (hh : Holds table c ∨ (c.hour, c.application) = row.1 ∧ c ∈ row.2.parts) :
    Holds (TelemetryBuffer.upsertRow table row) c := by
  unfold Holds TelemetryBuffer.upsertRow
  rw [Table.lookup_upsert]
  rcases hh with ⟨v, hf, hp⟩ | ⟨own, hp⟩
  · by_cases hsa : (c.hour, c.application) = row.1
    · rw [if_pos hsa, ← hsa, hf]
      exact ⟨_, rfl, List.mem_append_left _ hp⟩
    · rw [if_neg hsa]
      exact ⟨v, hf, hp⟩
  · rw [if_pos own]
    refine ⟨_, rfl, ?_⟩
    cases table.lookup row.1 with
    | none => exact hp
    | some old => exact List.mem_append_right _ hp

theorem holds_upsertRows {rows : List ((Time × String) × AppCount)} {table : KeyedMap (Time × String) AppCount}
    {c : Contribution}
    (hh : Holds table c ∨ ∃ row ∈ rows, (c.hour, c.application) = row.1 ∧ c ∈ row.2.parts) :
    Holds (rows.foldl TelemetryBuffer.upsertRow table) c := by
  induction rows generalizing table with
  | nil =>
    obtain hh | ⟨row, mem, -⟩ := hh
    · exact hh
    · cases mem
  | cons row rows ih =>
    rw [List.foldl_cons]
    apply ih
    rcases hh with hh | ⟨row', mem, own⟩
    · exact .inl (holds_upsertRow (.inl hh))
    · rcases List.mem_cons.mp mem with rfl | mem
      · exact .inl (holds_upsertRow (.inr own))
      · exact .inr ⟨row', mem, own⟩

/-! ### The buffer -/

theorem bufferedBytes_append (a b : List BufferedRecord) : bufferedBytes (a ++ b) = bufferedBytes a + bufferedBytes b := by
  simp [bufferedBytes]

namespace TelemetryBuffer

def inFlight (s : TelemetryBuffer) : List BufferedRecord :=
  match s.phase with
  | .inserting batch _ _ _ => batch
  | .restoring batch _ _ => batch
  | _ => []

def flightCounts (s : TelemetryBuffer) : AppRollup :=
  match s.phase with
  | .idle => {}
  | .inserting _ _ _ counts => counts
  | .restoring _ _ counts => counts
  | .counting counts => counts
  | .upserting counts _ => counts
  | .merging counts => counts

/-- The record was inserted, or was among the oldest of a buffer that a failed flush had put over the cap. -/
def Settled (s : TelemetryBuffer) (r : BufferedRecord) : Prop :=
  r ∈ s.rows ∨ ∃ t ∈ s.trims, r ∈ t.buffer.take t.count

def Accounted (s : TelemetryBuffer) (c : Contribution) : Prop :=
  Holds s.pendingAppCounts.counts c ∨ Holds s.flightCounts.counts c ∨ Holds s.appCounts c ∨ Discarded s.discards c

structure Conserved (s : TelemetryBuffer) : Prop where
  records : ∃ past, s.accepted = past ++ s.inFlight ++ s.pending ∧ ∀ r ∈ past, s.Settled r
  numbered : ∀ i (r : BufferedRecord), s.accepted[i]? = some r → r.seq = i
  bytes : s.pendingBytes = bufferedBytes s.pending
  trims : ∀ t ∈ s.trims, ∀ j < t.count, s.pendingLimit < bufferedBytes (t.buffer.drop j)
  counts : ∀ c ∈ s.counted, s.Accounted c
  /-- A count is discarded only by a rollup that is full. -/
  discards : ∀ d ∈ s.discards, maxTelemetryAppRollupEntries ≤ d.entries

def Flushing (s : TelemetryBuffer) : Prop :=
  match s.phase with
  | .inserting batch batchBytes left _ =>
    batchBytes = bufferedBytes batch ∧ ∃ done, batch = done ++ left ∧ ∀ r ∈ done, r ∈ s.rows
  | .restoring batch batchBytes _ => batchBytes = bufferedBytes batch
  | .upserting counts left =>
    (∀ row ∈ left, counts.counts.lookup row.1 = some row.2) ∧
      ∀ key v, counts.counts.lookup key = some v → (key, v) ∈ left ∨ ∀ c ∈ v.parts, Holds s.appCounts c
  | _ => True

structure Kept (s : TelemetryBuffer) : Prop extends Conserved s where
  pendingSound : s.pendingAppCounts.Sound
  flightSound : s.flightCounts.Sound
  flushing : s.Flushing

variable {s : TelemetryBuffer}

namespace Kept

/-! #### Writing -/

theorem appendRecord (hk : Kept s) (r : TelemetryRecord) (bytes : Int) :
    let stored : BufferedRecord := { seq := s.accepted.length, record := r, bytes }
    Kept { s with pending := s.pending ++ [stored], pendingBytes := s.pendingBytes + bytes
                  accepted := s.accepted ++ [stored] } := by
  intro stored
  obtain ⟨past, accepted, hse⟩ := hk.records
  refine { hk with records := ⟨past, ?_, hse⟩, numbered := ?_, bytes := ?_ }
  · simp only
    rw [accepted, List.append_assoc]
    rfl
  · intro i r' hf
    rcases List.getElem?_concat_cases hf with hf | ⟨rfl, rfl⟩
    · exact hk.numbered i r' hf
    · rfl
  · simp only [bufferedBytes_append, hk.bytes]
    simp [bufferedBytes, stored]

theorem addCount (hk : Kept s) {key : Time × String} {v : AppCount} (hc : Countable key v)
    (counted : List Contribution) (hm : ∀ c ∈ counted, c ∈ s.counted ∨ c ∈ v.parts) :
    let added := s.pendingAppCounts.add key.1 key.2 v
    Kept { s with pendingAppCounts := added.1, discards := s.discards ++ added.2.1, counted } := by
  intro added
  obtain ⟨hl, hpr⟩ := AppRollup.add_spec hk.pendingSound hc
  refine { hk with counts := ?_, discards := ?_, pendingSound := hl.sound }
  · intro c mem
    have hpl : Holds added.1.counts c ∨ Discarded (s.discards ++ added.2.1) c →
        Accounted { s with pendingAppCounts := added.1, discards := s.discards ++ added.2.1, counted } c :=
      fun hpl => hpl.elim .inl fun hg => .inr (.inr (.inr hg))
    rcases hm c mem with old | hp
    · rcases hk.counts c old with hh | hh | hh | hg
      · exact hpl ((hl.kept c hh).imp_right (·.append_right _))
      · exact .inr (.inl hh)
      · exact .inr (.inr (.inl hh))
      · exact hpl (.inr (hg.append_left _))
    · exact hpl ((hpr c hp).imp_right (·.append_right _))
  · intro d mem
    rcases List.mem_append.mp mem with mem | mem
    · exact hk.discards d mem
    · exact hl.capped d mem

theorem countApp (hk : Kept s) (hour : Time) (application : String) (count : Int) :
    Kept (s.countApp hour application count) := by
  unfold TelemetryBuffer.countApp
  by_cases hi : application = "" ∨ count ≤ 0
  · have hn (c : Contribution) (hsa : c.count = count) :
        s.pendingAppCounts.add hour application (.one c) = (s.pendingAppCounts, [], true) := by
      rw [AppRollup.add, if_pos (by rw [← hsa] at hi; exact hi)]
    simp only [if_pos hi]
    rw [hn _ rfl, List.append_nil]
    exact hk
  · simp only [if_neg hi]
    obtain ⟨hna, hpo⟩ := not_or.mp hi
    have hc (c : Contribution) (own : (c.hour, c.application) = (hour, application)) (hsa : c.count = count) :
        Countable (hour, application) (.one c) :=
      ⟨hna, by rw [← hsa] at hpo; exact not_le.mp hpo, fun c' mem => by rwa [List.mem_singleton.mp mem]⟩
    exact hk.addCount (hc { seq := s.counted.length, hour, application, count } rfl rfl) _
      fun c mem => List.mem_append.mp mem

theorem writeRecords (codec : RecordCodec) (hk : Kept s) (now : Time) (used : KeyedMap String Int)
    (records : List TelemetryRecord) : Kept (records.foldl (writeRecord codec now) (s, used)).1 := by
  induction records generalizing s used with
  | nil => exact hk
  | cons r records ih =>
    rw [List.foldl_cons]
    by_cases app : r.event.event = telemetryAppConnectionEvent
    · simp only [writeRecord, if_pos app]
      exact ih (hk.countApp _ _ _) _
    · simp only [writeRecord, if_neg app]
      exact ih (hk.appendRecord r _) _

theorem writeTelemetry (codec : RecordCodec) (hk : Kept s) (now : Time) (records : List TelemetryRecord) :
    Kept (s.writeTelemetry codec now records) := by
  unfold TelemetryBuffer.writeTelemetry
  split_ifs
  · exact hk
  · exact hk.writeRecords codec now ∅ records

/-! #### Flushing -/

theorem during (kept : Kept s) {phase : FlushPhase} (eq : s.phase = phase) : Kept { s with phase } := by
  subst eq
  exact kept

theorem steal (kept : Kept s) (idle : s.phase = .idle) : Kept s.steal := by
  obtain ⟨past, accepted, settled⟩ := kept.records
  rw [show s.inFlight = [] by rw [inFlight, idle], List.append_nil] at accepted
  -- With the flush idle no count is in flight.
  have counts (c : Contribution) (mem : c ∈ s.counted) :
      Holds s.pendingAppCounts.counts c ∨ Holds s.appCounts c ∨ Discarded s.discards c := by
    rcases kept.counts c mem with holds | ⟨v, found, -⟩ | place
    · exact .inl holds
    · rw [flightCounts, idle] at found
      cases found
    · exact .inr place
  simp only [TelemetryBuffer.steal]
  split_ifs with nothing some
  · refine { kept with records := ⟨past, ?_, settled⟩, bytes := rfl, counts := ?_, pendingSound := .empty
                       flightSound := .empty, flushing := trivial }
    · rw [accepted, nothing.1]
      exact (List.append_nil _).symm
    · intro c mem
      rcases counts c mem with holds | place
      · exact absurd holds (kept.pendingSound.holds_none (le_of_eq nothing.2) c)
      · exact .inr (.inr place)
  · refine { kept with records := ⟨past, ?_, settled⟩, bytes := rfl, pendingSound := .empty, counts := ?_
                       flightSound := kept.pendingSound, flushing := ⟨kept.bytes, [], rfl, ?_⟩ }
    · rw [accepted]
      exact (List.append_nil _).symm
    · exact fun c mem => (counts c mem).elim (fun holds => .inr (.inl holds)) fun place => .inr (.inr place)
    · exact fun r mem => absurd mem List.not_mem_nil
  · refine { kept with records := ⟨past, ?_, settled⟩, bytes := rfl, pendingSound := .empty, counts := ?_
                       flightSound := kept.pendingSound, flushing := trivial }
    · rw [accepted, not_not.mp some]
      exact (List.append_nil _).symm
    · exact fun c mem => (counts c mem).elim (fun holds => .inr (.inl holds)) fun place => .inr (.inr place)

theorem insert (kept : Kept s) {batch left : List BufferedRecord} {batchBytes : Int} {counts : AppRollup}
    (inserting : s.phase = .inserting batch batchBytes left counts) (outcome : Statement) :
    let rows := if outcome = .failed then s.rows else s.rows ++ left.take postgresTelemetryInsertChunk
    let left := left.drop postgresTelemetryInsertChunk
    Kept { s with rows, phase :=
      if outcome ≠ .ok then .restoring batch batchBytes counts
      else if left = [] then .counting counts
      else .inserting batch batchBytes left counts } := by
  intro rows left'
  have kept := kept.during inserting
  obtain ⟨past, accepted, settled⟩ := kept.records
  obtain ⟨bytes, done, split, stored⟩ := kept.flushing
  have more : ∀ r ∈ s.rows, r ∈ rows := by
    intro r mem
    unfold rows
    split_ifs
    · exact mem
    · exact List.mem_append_left _ mem
  have still : ∀ r ∈ past, r ∈ rows ∨ ∃ t ∈ s.trims, r ∈ t.buffer.take t.count :=
    fun r mem => (settled r mem).imp_left (more r)
  have chunk (ok : outcome = .ok) : ∀ r ∈ left.take postgresTelemetryInsertChunk, r ∈ rows := by
    intro r mem
    unfold rows
    rw [if_neg (by rw [ok]; simp)]
    exact List.mem_append_right _ mem
  split_ifs with answered last
  · -- An insert that is not answered leaves the batch in flight, whatever was stored.
    exact { kept with records := ⟨past, accepted, still⟩, flushing := bytes }
  · -- After the last chunk the whole batch is stored.
    have whole : ∀ r ∈ batch, r ∈ rows := by
      intro r mem
      rw [split] at mem
      rcases List.mem_append.mp mem with mem | mem
      · exact more r (stored r mem)
      · rw [← List.take_append_drop postgresTelemetryInsertChunk left] at mem
        rcases List.mem_append.mp mem with mem | mem
        · exact chunk (not_not.mp answered) r mem
        · exact absurd (last ▸ mem : r ∈ []) List.not_mem_nil
    refine { kept with records := ⟨past ++ batch, ?_, ?_⟩, flushing := trivial }
    · refine accepted.trans ?_
      simp [inFlight]
    · intro r mem
      rcases List.mem_append.mp mem with mem | mem
      · exact still r mem
      · exact .inl (whole r mem)
  · refine { kept with records := ⟨past, accepted, still⟩
                       flushing := ⟨bytes, done ++ left.take postgresTelemetryInsertChunk, ?_, ?_⟩ }
    · rw [split, List.append_assoc, List.take_append_drop]
    · intro r mem
      rcases List.mem_append.mp mem with mem | mem
      · exact more r (stored r mem)
      · exact chunk (not_not.mp answered) r mem

end Kept

theorem lt_of_dropCount {limit : Int} {records : List BufferedRecord} {j : Nat}
    (hd : j < dropCount limit (bufferedBytes records) records) : limit < bufferedBytes (records.drop j) := by
  induction records generalizing j with
  | nil => cases hd
  | cons stored records ih =>
    have hrs : bufferedBytes (stored :: records) - stored.bytes = bufferedBytes records := by
      simp [bufferedBytes]
    rw [dropCount, hrs] at hd
    split_ifs at hd with above
    · cases j with
      | zero => exact above
      | succ j => exact ih (Nat.succ_lt_succ_iff.mp hd)
    · cases hd

namespace Kept

theorem restore (kept : Kept s) {batch : List BufferedRecord} {batchBytes : Int} {counts : AppRollup}
    (restoring : s.phase = .restoring batch batchBytes counts) : Kept (s.restore batch batchBytes counts) := by
  have kept := kept.during restoring
  obtain ⟨past, accepted, settled⟩ := kept.records
  have flushing : batchBytes = bufferedBytes batch := kept.flushing
  have bytes : s.pendingBytes + batchBytes = bufferedBytes (batch ++ s.pending) := by
    rw [bufferedBytes_append, show s.pendingBytes = _ from kept.bytes, flushing, Int.add_comm]
  simp only [TelemetryBuffer.restore, bytes]
  generalize same : dropCount s.pendingLimit (bufferedBytes (batch ++ s.pending)) (batch ++ s.pending) = count
  refine { kept with records := ⟨past ++ (batch ++ s.pending).take count, ?_, ?_⟩, bytes := ?_, trims := ?_
                     flushing := trivial }
  · refine accepted.trans ?_
    simp [inFlight]
  · intro r mem
    rcases List.mem_append.mp mem with mem | mem
    · rcases settled r mem with stored | ⟨t, inTrims, dropped⟩
      · exact .inl stored
      · exact .inr ⟨t, List.mem_append_left _ inTrims, dropped⟩
    · exact .inr ⟨_, List.mem_append_right _ (List.mem_singleton_self _), mem⟩
  · have split := congrArg bufferedBytes (List.take_append_drop count (batch ++ s.pending))
    rw [bufferedBytes_append] at split
    simp only
    omega
  · intro t mem j dropped
    rcases List.mem_append.mp mem with mem | mem
    · exact kept.trims t mem j dropped
    · rw [List.mem_singleton.mp mem] at dropped ⊢
      rw [← same] at dropped
      exact lt_of_dropCount dropped

theorem count (kept : Kept s) {counts : AppRollup} (counting : s.phase = .counting counts)
    {order : List (Time × String)} (ranges : Ranges counts order) :
    Kept { s with phase := if counts.entries > 0 then .upserting counts (counts.rows order) else .idle } := by
  have kept := kept.during counting
  split_ifs with any
  · refine { kept with flushing := ⟨fun row mem => (AppRollup.mem_rows ranges).mp mem, fun key v found => .inl ?_⟩ }
    exact (AppRollup.mem_rows ranges).mpr found
  · refine { kept with counts := fun c mem => ?_, flightSound := .empty, flushing := trivial }
    rcases kept.counts c mem with holds | holds | place
    · exact .inl holds
    · exact absurd holds (kept.flightSound.holds_none (not_lt.mp any) c)
    · exact .inr (.inr place)

theorem upsert (kept : Kept s) {counts : AppRollup} {left : List ((Time × String) × AppCount)}
    (upserting : s.phase = .upserting counts left) (outcome : Statement) :
    let appCounts :=
      if outcome = .failed then s.appCounts else (left.take postgresTelemetryInsertChunk).foldl upsertRow s.appCounts
    let left := left.drop postgresTelemetryInsertChunk
    Kept { s with appCounts, phase :=
      if outcome ≠ .ok then .merging counts else if left = [] then .idle else .upserting counts left } := by
  intro appCounts left'
  have kept := kept.during upserting
  obtain ⟨listed, remaining⟩ := kept.flushing
  have more (c : Contribution) (holds : Holds s.appCounts c) : Holds appCounts c := by
    unfold appCounts
    split_ifs
    · exact holds
    · exact holds_upsertRows (.inl holds)
  have counted' {t : TelemetryBuffer} (pending : t.pendingAppCounts = s.pendingAppCounts)
      (flight : t.flightCounts = counts) (now : t.appCounts = appCounts) (gone : t.discards = s.discards) :
      ∀ c ∈ s.counted, t.Accounted c := by
    intro c mem
    rw [Accounted, pending, flight, now, gone]
    rcases kept.counts c mem with holds | holds | holds | gone
    · exact .inl holds
    · exact .inr (.inl holds)
    · exact .inr (.inr (.inl (more c holds)))
    · exact .inr (.inr (.inr gone))
  -- With an answer every row of the chunk is written.
  have written (ok : outcome = .ok) (row : (Time × String) × AppCount) (mem : row ∈ left.take postgresTelemetryInsertChunk)
      (c : Contribution) (part : c ∈ row.2.parts) : Holds appCounts c := by
    have own := (kept.flightSound.countable row.1 row.2 (listed row (List.mem_of_mem_take mem))).own c part
    unfold appCounts
    rw [if_neg (by rw [ok]; simp)]
    exact holds_upsertRows (.inr ⟨row, mem, own, part⟩)
  have remaining' (ok : outcome = .ok) (key : Time × String) (v : AppCount)
      (found : counts.counts.lookup key = some v) : (key, v) ∈ left' ∨ ∀ c ∈ v.parts, Holds appCounts c := by
    rcases remaining key v found with mem | stored
    · rw [← List.take_append_drop postgresTelemetryInsertChunk left] at mem
      rcases List.mem_append.mp mem with mem | mem
      · exact .inr (written ok (key, v) mem)
      · exact .inl mem
    · exact .inr fun c part => more c (stored c part)
  split_ifs with answered last
  · exact { kept with counts := counted' rfl rfl rfl rfl, flushing := trivial }
  · refine { kept with counts := fun c mem => ?_, flightSound := .empty, flushing := trivial }
    rcases kept.counts c mem with holds | ⟨v, found, part⟩ | holds | gone
    · exact .inl holds
    · rcases remaining' (not_not.mp answered) _ v found with mem | stored
      · rw [last] at mem
        cases mem
      · exact .inr (.inr (.inl (stored c part)))
    · exact .inr (.inr (.inl (more c holds)))
    · exact .inr (.inr (.inr gone))
  · refine { kept with counts := counted' rfl rfl rfl rfl
                       flushing := ⟨fun row mem => listed row (List.mem_of_mem_drop mem), ?_⟩ }
    exact remaining' (not_not.mp answered)

theorem mergeRows (hk : Kept s) {rows : List ((Time × String) × AppCount)}
    (hc : ∀ row ∈ rows, Countable row.1 row.2) :
    let t := rows.foldl mergeRow s
    Kept t ∧ t.phase = s.phase ∧
      ∀ c, (Holds s.pendingAppCounts.counts c ∨ Discarded s.discards c ∨ ∃ row ∈ rows, c ∈ row.2.parts) →
        Holds t.pendingAppCounts.counts c ∨ Discarded t.discards c := by
  induction rows generalizing s with
  | nil =>
    refine ⟨hk, rfl, fun c hpl => ?_⟩
    rcases hpl with hh | hg | ⟨row, mem, -⟩
    · exact .inl hh
    · exact .inr hg
    · cases mem
  | cons row rows ih =>
    have own := hc row List.mem_cons_self
    obtain ⟨hl, hpr⟩ := AppRollup.add_spec hk.pendingSound own
    obtain ⟨hke, hph, hpa⟩ :=
      ih (hk.addCount own s.counted fun c mem => .inl mem) fun row' mem => hc row' (List.mem_cons_of_mem _ mem)
    refine ⟨hke, hph, fun c hpl => hpa c ?_⟩
    rcases hpl with hh | hg | ⟨row', mem, hp⟩
    · exact (hl.kept c hh).imp_right fun hg => .inl (hg.append_right _)
    · exact .inr (.inl (hg.append_left _))
    · rcases List.mem_cons.mp mem with rfl | mem
      · exact (hpr c hp).imp_right fun hg => .inl (hg.append_right _)
      · exact .inr (.inr ⟨row', mem, hp⟩)

theorem merge (kept : Kept s) {counts : AppRollup} (merging : s.phase = .merging counts)
    {order : List (Time × String)} (ranges : Ranges counts order) :
    Kept { (counts.rows order).foldl mergeRow s with phase := .idle } := by
  obtain ⟨kept', phase, places⟩ := kept.mergeRows fun row mem =>
    (kept.during merging).flightSound.countable row.1 row.2 ((AppRollup.mem_rows ranges).mp mem)
  have kept := kept'.during (phase.trans merging)
  refine { kept with counts := fun c mem => ?_, flightSound := .empty, flushing := trivial }
  rcases kept.counts c mem with holds | ⟨v, found, part⟩ | place
  · exact .inl holds
  · rcases places c (.inr (.inr ⟨_, (AppRollup.mem_rows ranges).mpr found, part⟩)) with holds | gone
    · exact .inl holds
    · exact .inr (.inr (.inr gone))
  · exact .inr (.inr place)

/-! #### Every step -/

theorem step {codec : RecordCodec} {l : Label} {t : TelemetryBuffer} (kept : Kept s)
    (next : TelemetryBuffer.step codec s l = some t) : Kept t := by
  cases l with
  | write now records =>
    cases next
    exact kept.writeTelemetry codec now records
  | close =>
    cases next
    exact { kept with }
  | flush =>
    rw [TelemetryBuffer.step] at next
    split at next <;> cases next
    next idle => exact kept.steal idle
  | insert outcome =>
    rw [TelemetryBuffer.step] at next
    split at next <;> cases next
    next inserting => exact kept.insert inserting outcome
  | restore =>
    rw [TelemetryBuffer.step] at next
    split at next <;> cases next
    next restoring => exact kept.restore restoring
  | count order =>
    rw [TelemetryBuffer.step] at next
    split at next
    next counts counting =>
      obtain ⟨ranges, next⟩ := Option.ite_none_right_eq_some.mp next
      cases next
      exact kept.count counting ranges
    next => cases next
  | upsert outcome =>
    rw [TelemetryBuffer.step] at next
    split at next <;> cases next
    next upserting => exact kept.upsert upserting outcome
  | merge order =>
    rw [TelemetryBuffer.step] at next
    split at next
    next counts merging =>
      obtain ⟨ranges, next⟩ := Option.ite_none_right_eq_some.mp next
      cases next
      exact kept.merge merging ranges
    next => cases next

theorem initial (limit : Int) : Kept { pendingLimit := limit } where
  records := ⟨[], rfl, fun _ mem => absurd mem List.not_mem_nil⟩
  numbered := fun _ _ hf => by cases hf
  bytes := rfl
  trims := fun _ mem => absurd mem List.not_mem_nil
  counts := fun _ mem => absurd mem List.not_mem_nil
  discards := fun _ mem => absurd mem List.not_mem_nil
  pendingSound := .empty
  flightSound := .empty
  flushing := trivial

end Kept

def Trimmed (s : TelemetryBuffer) (r : BufferedRecord) : Prop :=
  ∃ t ∈ s.trims, ∃ j < t.count, t.buffer[j]? = some r ∧ s.pendingLimit < bufferedBytes (t.buffer.drop j)

theorem Conserved.place (hco : Conserved s) {r : BufferedRecord} (mem : r ∈ s.accepted) :
    r ∈ s.pending ∨ r ∈ s.inFlight ∨ r ∈ s.rows ∨ s.Trimmed r := by
  obtain ⟨past, ha, hse⟩ := hco.records
  rw [ha] at mem
  rcases List.mem_append.mp mem with mem | mem
  · rcases List.mem_append.mp mem with mem | mem
    · rcases hse r mem with hst | ⟨t, hin, hd⟩
      · exact .inr (.inr (.inl hst))
      · obtain ⟨j, hf⟩ := List.getElem?_of_mem hd
        rw [List.getElem?_take] at hf
        obtain ⟨hsh, hf⟩ := Option.ite_none_right_eq_some.mp hf
        exact .inr (.inr (.inr ⟨t, hin, j, hsh, hf, hco.trims t hin j hsh⟩))
    · exact .inr (.inl mem)
  · exact .inl mem

theorem telemetry_buffer_conserves (codec : RecordCodec) (limit : Int) {labels : List Label}
    (trace : Trace (fun s label t => TelemetryBuffer.step codec s label = some t) { pendingLimit := limit } labels s) :
    (∀ r ∈ s.accepted, r ∈ s.pending ∨ r ∈ s.inFlight ∨ r ∈ s.rows ∨ s.Trimmed r) ∧
      (∀ i (r : BufferedRecord), s.accepted[i]? = some r → r.seq = i) ∧ s.pending <:+ s.accepted ∧
      s.pendingBytes = bufferedBytes s.pending ∧
      ∀ c ∈ s.counted, Holds s.pendingAppCounts.counts c ∨ Holds s.flightCounts.counts c ∨ Holds s.appCounts c ∨
        ∃ d ∈ s.discards, c ∈ d.value.parts ∧ maxTelemetryAppRollupEntries ≤ d.entries := by
  have hk := trace.invariant (fun _ _ _ hk hne => Kept.step hk hne) (.initial limit)
  refine ⟨fun r mem => hk.toConserved.place mem, hk.numbered, ?_, hk.bytes, fun c mem => ?_⟩
  · obtain ⟨past, ha, -⟩ := hk.records
    exact ⟨_, ha.symm⟩
  · rcases hk.counts c mem with hh | hh | hh | ⟨d, hg, hp⟩
    · exact .inl hh
    · exact .inr (.inl hh)
    · exact .inr (.inr (.inl hh))
    · exact .inr (.inr (.inr ⟨d, hg, hp, hk.discards d hg⟩))

def noEncoding : RecordCodec where
  marshal := fun _ => none
  unmarshal := fun _ => none
  unmarshal_marshal := fun _ _ encoded => by cases encoded
  one_line := fun _ _ encoded => by cases encoded
  no_part := fun _ _ _ encoded => by cases encoded

def bufferedEvent (event eventID application : String) : TelemetryRecord :=
  { event := { eventID, event, application, clientID := "c", sessionID := "s" } }

def failedFlush : List Label :=
  [.write 0 [bufferedEvent "connection_attempted" "event1" "", bufferedEvent "connection_succeeded" "event2" "",
     bufferedEvent telemetryAppConnectionEvent "event3" "app"],
   .flush, .insert .failed, .restore, .count [(0, "app")], .upsert .lost, .merge [(0, "app")]]

/-- The first record goes over a cap of ten bytes; the second is pending again. -/
theorem telemetry_buffer_conserves_failed_flush :
    ((failedFlush.foldlM (step noEncoding) { pendingLimit := 10 }).map fun s =>
        (s.accepted.map (·.seq), s.pending.map (·.seq), s.counted.map (·.seq), s.trims.map (·.count))) =
      some ([0, 1], [1], [0], [1]) ∧
    ∃ s, failedFlush.foldlM (step noEncoding) { pendingLimit := 10 } = some s ∧
      (∀ r ∈ s.accepted, r ∈ s.pending ∨ r ∈ s.inFlight ∨ r ∈ s.rows ∨ s.Trimmed r) ∧
      s.pendingBytes = bufferedBytes s.pending := by
  have ran : ((failedFlush.foldlM (step noEncoding) { pendingLimit := 10 }).map fun s =>
      (s.accepted.map (·.seq), s.pending.map (·.seq), s.counted.map (·.seq), s.trims.map (·.count))) =
      some ([0, 1], [1], [0], [1]) := by decide +kernel
  refine ⟨ran, ?_⟩
  obtain ⟨s, hre, -⟩ := Option.map_eq_some_iff.mp ran
  obtain ⟨hpa, -, -, hb, -⟩ := telemetry_buffer_conserves noEncoding 10 (.of_foldlM hre)
  exact ⟨s, hre, hpa, hb⟩

end TelemetryBuffer

end OpenRung.Broker
