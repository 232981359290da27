import OpenRung.System.Journal
import OpenRung.Theorems.Sidecar

/-! A replay journal that the store itself wrote is always opened again. The records that have not expired have
    distinct keys and are as many as the limit allows, and the stale ones are fewer than the threshold at which the
    store compacts; so the file stays within the size that `load` accepts. -/

namespace OpenRung
open Wss

/-! ### The index -/

structure Indexes (now : Int) (records : List JournalRecord) (i : ReplayIndex) : Prop where
  live : ∀ key e, now < e → (i.entries.lookup key = some e ↔ ⟨key, e⟩ ∈ records)
  heap : ∀ key e, i.entries.lookup key = some e → ⟨key, e⟩ ∈ i.expiry
  sorted : i.expiry.Pairwise fun a b => a.expiresAt ≤ b.expiresAt

theorem pruneLoop_spec (now : Int) (queue : List ReplayExpiry) (entries : KeyedMap ReplayKey Int)
    (hh : ∀ key e, entries.lookup key = some e → ⟨key, e⟩ ∈ queue)
    (hso : queue.Pairwise fun a b => a.expiresAt ≤ b.expiresAt) :
    (∀ key e, (ReplayIndex.pruneLoop now queue entries).entries.lookup key = some e ↔
      entries.lookup key = some e ∧ now < e) ∧
    (∀ key e, (ReplayIndex.pruneLoop now queue entries).entries.lookup key = some e →
      ⟨key, e⟩ ∈ (ReplayIndex.pruneLoop now queue entries).expiry) ∧
    (ReplayIndex.pruneLoop now queue entries).expiry.Pairwise fun a b => a.expiresAt ≤ b.expiresAt := by
  induction queue generalizing entries with
  | nil =>
    refine ⟨fun key e => ⟨fun hf => ?_, And.left⟩, hh, hso⟩
    exact absurd (hh key e hf) List.not_mem_nil
  | cons candidate rest ih =>
    obtain ⟨hfr, hsr⟩ := List.pairwise_cons.mp hso
    unfold ReplayIndex.pruneLoop
    split
    · rename_i due
      split
      · rename_i hcu
        -- the candidate's entry goes, and it is the only one of its key
        have hke : ∀ key e, (entries.erase candidate.key).lookup key = some e →
            key ≠ candidate.key ∧ entries.lookup key = some e := by
          intro key e hf
          by_cases own : key = candidate.key
          · rw [own, AList.lookup_erase] at hf
            cases hf
          · rw [AList.lookup_erase_ne own] at hf
            exact ⟨own, hf⟩
        have hha : ∀ key e, (entries.erase candidate.key).lookup key = some e → ⟨key, e⟩ ∈ rest := by
          intro key e hf
          obtain ⟨hot, hf⟩ := hke key e hf
          rcases List.mem_cons.mp (hh key e hf) with hsa | mem
          · exact absurd (congrArg ReplayExpiry.key hsa) hot
          · exact mem
        obtain ⟨he, rest⟩ := ih _ hha hsr
        refine ⟨fun key e => (he key e).trans ⟨fun hbo => ⟨(hke key e hbo.1).2, hbo.2⟩, ?_⟩, rest⟩
        rintro ⟨hf, hlv⟩
        refine ⟨?_, hlv⟩
        have hot : key ≠ candidate.key := by
          rintro rfl
          rw [hf] at hcu
          cases hcu
          omega
        rw [AList.lookup_erase_ne hot, hf]
      · rename_i hrp
        have hha : ∀ key e, entries.lookup key = some e → ⟨key, e⟩ ∈ rest := by
          intro key e hf
          rcases List.mem_cons.mp (hh key e hf) with rfl | mem
          · exact absurd hf hrp
          · exact mem
        exact ih _ hha hsr
    · rename_i hea
      refine ⟨fun key e => ⟨fun hf => ⟨hf, ?_⟩, And.left⟩, hh, hso⟩
      rcases List.mem_cons.mp (hh key e hf) with hsa | mem
      · rw [← congrArg ReplayExpiry.expiresAt hsa] at hea
        exact not_le.mp hea
      · exact lt_of_lt_of_le (not_le.mp hea) (hfr _ mem)

/-- Every entry stands in the heap with its expiration, and the heap is in order. -/
structure Heaped (i : ReplayIndex) : Prop where
  heap : ∀ key e, i.entries.lookup key = some e → ⟨key, e⟩ ∈ i.expiry
  sorted : i.expiry.Pairwise fun a b => a.expiresAt ≤ b.expiresAt

namespace Heaped
variable {i : ReplayIndex}

theorem insert (h : Heaped i) (key : ReplayKey) (e : Int) : Heaped (i.insert key e) where
  heap := by
    intro k d
    rw [ReplayIndex.insert, KeyedMap.lookup_insert_eq, List.mem_orderedInsert]
    split
    · rintro ⟨⟩
      rename_i hk
      exact .inl (hk ▸ rfl)
    · exact fun hd => .inr (h.heap k d hd)
  sorted := by
    have htt : Std.Total fun a b : ReplayExpiry => a.expiresAt ≤ b.expiresAt := ⟨fun a b => le_total _ _⟩
    have htr : IsTrans ReplayExpiry fun a b => a.expiresAt ≤ b.expiresAt := ⟨fun a b c => le_trans⟩
    exact h.sorted.orderedInsert _ _

theorem prune (h : Heaped i) (now : Int) : Heaped (i.prune now) where
  heap := (pruneLoop_spec now i.expiry i.entries h.heap h.sorted).2.1
  sorted := (pruneLoop_spec now i.expiry i.entries h.heap h.sorted).2.2

end Heaped

namespace Indexes
variable {now : Int} {records : List JournalRecord} {i : ReplayIndex}

theorem later (hi : Indexes now records i) {t : Int} (le : now ≤ t) : Indexes t records i where
  live key e alive := hi.live key e (lt_of_le_of_lt le alive)
  heap := hi.heap
  sorted := hi.sorted

theorem prune (hi : Indexes now records i) :
    Indexes now records (i.prune now) ∧ ∀ key e, (i.prune now).entries.lookup key = some e → now < e := by
  obtain ⟨he, hh, hso⟩ := pruneLoop_spec now i.expiry i.entries hi.heap hi.sorted
  refine ⟨⟨fun key e ha => ?_, hh, hso⟩, fun key e hf => ((he key e).mp hf).2⟩
  rw [← hi.live key e ha]
  exact ⟨fun hf => ((he key e).mp hf).1, fun hf => (he key e).mpr ⟨hf, ha⟩⟩

theorem insert (hi : Indexes now records i) {key : ReplayKey} {e : Int} (hab : i.entries.lookup key = none) :
    Indexes now (records ++ [⟨key, e⟩]) (i.insert key e) where
  live := by
    intro k d ha
    by_cases own : k = key
    · subst own
      have hmi : (⟨k, d⟩ : JournalRecord) ∉ records := by
        rw [← hi.live k d ha, hab]
        simp
      simp [ReplayIndex.insert, hmi, eq_comm]
    · rw [ReplayIndex.insert, AList.lookup_insert_ne own, hi.live k d ha]
      simp [own]
  heap := (Heaped.insert ⟨hi.heap, hi.sorted⟩ key e).heap
  sorted := (Heaped.insert ⟨hi.heap, hi.sorted⟩ key e).sorted

theorem expired (hi : Indexes now records i) {key : ReplayKey} {e : Int} (hde : e ≤ now) :
    Indexes now (records ++ [⟨key, e⟩]) i where
  live := by
    intro k d ha
    rw [hi.live k d ha, List.mem_append, List.mem_singleton]
    refine ⟨.inl, fun mem => mem.resolve_right ?_⟩
    intro hsa
    cases hsa
    omega
  heap := hi.heap
  sorted := hi.sorted

end Indexes

/-! ### Records -/

def live (now : Int) (records : List JournalRecord) : List JournalRecord := records.filter fun r => now < r.2

theorem mem_live {now : Int} {records : List JournalRecord} {r : JournalRecord} :
    r ∈ live now records ↔ r ∈ records ∧ now < r.2 := by
  simp [live, List.mem_filter]

/-- The live ones of the records `written` are all there, have distinct keys and respect the limit, and there are not
    too many stale ones. -/
structure Kept (limit now : Int) (written records : List JournalRecord) : Prop where
  positive : ∀ r ∈ records, 0 < r.2
  fits : ∀ r ∈ records, r.2 < 2 ^ 63
  distinct : (live now records).NodupKeys
  few : (live now records).length ≤ limit
  count : records.length ≤ limit + compactThreshold limit
  complete : ∀ r ∈ written, now < r.2 → r ∈ records
  written : ∀ r ∈ records, r ∈ written

theorem entries_perm {now : Int} {records : List JournalRecord} {i : ReplayIndex} (hi : Indexes now records i)
    (hp : ∀ key e, i.entries.lookup key = some e → now < e) (hdi : (live now records).NodupKeys) :
    i.entries.entries.Perm (live now records) := by
  rw [List.perm_ext_iff_of_nodup i.entries.nodupKeys.nodup hdi.nodup]
  rintro ⟨key, e⟩
  rw [← KeyedMap.lookup_eq_some_iff, mem_live]
  refine ⟨fun hf => ?_, fun ⟨mem, ha⟩ => (hi.live key e ha).mpr mem⟩
  have ha := hp key e hf
  exact ⟨(hi.live key e ha).mp hf, ha⟩

namespace Kept
variable {limit now : Int} {written records : List JournalRecord}

theorem later (hke : Kept limit now written records) {t : Int} (le : now ≤ t) : Kept limit t written records := by
  have hfe : (live t records).Sublist (live now records) := by
    have hbo : live t records = (live now records).filter fun r => t < r.2 := by
      rw [live, live, List.filter_filter]
      refine List.filter_congr fun r _ => ?_
      by_cases ha : t < r.2
      · simp [ha, lt_of_le_of_lt le ha]
      · simp [ha]
    rw [hbo]
    exact List.filter_sublist
  have hle : ((live t records).length : Int) ≤ (live now records).length := by exact_mod_cast hfe.length_le
  exact ⟨hke.positive, hke.fits, hke.distinct.sublist hfe, hle.trans hke.few, hke.count,
    fun r mem ha => hke.complete r mem (lt_of_le_of_lt le ha), hke.written⟩

theorem none (limit now : Int) (positive : 0 ≤ limit) : Kept limit now [] [] where
  positive := nofun
  fits := nofun
  distinct := List.nodupKeys_nil
  few := positive
  count := by
    have ht : minCompactStaleRecords ≤ compactThreshold limit := le_max_right _ _
    simp only [minCompactStaleRecords] at ht
    simp only [List.length_nil, Nat.cast_zero]
    omega
  complete := nofun
  written := nofun

theorem compacted (hke : Kept limit now written records) {i : ReplayIndex} (hi : Indexes now records i)
    (hp : ∀ key e, i.entries.lookup key = some e → now < e) {order : List JournalRecord}
    (all : order.Perm i.entries.entries) :
    Kept limit now written order ∧ Indexes now order i ∧ (order.length : Int) = i.size := by
  have hpe := all.trans (entries_perm hi hp hke.distinct)
  have ha : live now order = order :=
    List.filter_eq_self.mpr fun r mem => by simpa using (mem_live.mp (hpe.subset mem)).2
  have hle : (order.length : Int) ≤ limit := by rw [hpe.length_eq]; exact hke.few
  refine ⟨⟨?_, ?_, ?_, ?_, ?_, ?_, ?_⟩, ⟨?_, hi.heap, hi.sorted⟩, by rw [all.length_eq, ReplayIndex.size]⟩
  · exact fun r mem => hke.positive r (mem_live.mp (hpe.subset mem)).1
  · exact fun r mem => hke.fits r (mem_live.mp (hpe.subset mem)).1
  · rw [ha]
    exact (List.perm_nodupKeys hpe).mpr hke.distinct
  · rw [ha]
    exact hle
  · have ht : minCompactStaleRecords ≤ compactThreshold limit := le_max_right _ _
    simp only [minCompactStaleRecords] at ht
    omega
  · exact fun r mem ha => hpe.symm.subset (mem_live.mpr ⟨hke.complete r mem ha, ha⟩)
  · exact fun r mem => hke.written r (mem_live.mp (hpe.subset mem)).1
  · intro key e _
    rw [KeyedMap.lookup_eq_some_iff]
    exact all.symm.mem_iff

theorem append (hke : Kept limit now written records) {r : JournalRecord} (hpo : 0 < r.2) (hft : r.2 < 2 ^ 63)
    (ha : now < r.2) (hab : ∀ e, now < e → (⟨r.1, e⟩ : JournalRecord) ∉ records)
    (hro : (live now records).length < limit) (hcn : records.length < limit + compactThreshold limit) :
    Kept limit now (r :: written) (records ++ [r]) := by
  have hg : live now (records ++ [r]) = live now records ++ [r] := by simp [live, ha]
  refine ⟨?_, ?_, ?_, ?_, ?_, ?_, ?_⟩
  · intro x mem
    rcases List.mem_append.mp mem with old | new
    · exact hke.positive x old
    · exact (List.mem_singleton.mp new) ▸ hpo
  · intro x mem
    rcases List.mem_append.mp mem with old | new
    · exact hke.fits x old
    · exact (List.mem_singleton.mp new) ▸ hft
  · rw [hg, List.perm_nodupKeys (List.perm_append_singleton r _), List.nodupKeys_cons]
    refine ⟨fun mem => ?_, hke.distinct⟩
    obtain ⟨e, mem⟩ := List.mem_keys.mp mem
    obtain ⟨mem, ha⟩ := mem_live.mp mem
    exact hab e ha mem
  · rw [hg, List.length_append, List.length_singleton]
    push_cast
    omega
  · rw [List.length_append, List.length_singleton]
    push_cast
    omega
  · intro x mem hal
    rcases List.mem_cons.mp mem with rfl | old
    · simp
    · exact List.mem_append_left _ (hke.complete x old hal)
  · intro x mem
    rcases List.mem_append.mp mem with old | new
    · exact List.mem_cons_of_mem _ (hke.written x old)
    · exact (List.mem_singleton.mp new) ▸ List.mem_cons_self

end Kept

/-! ### Reading the journal -/

def recordBytes (records : List JournalRecord) : Bytes := records.flatMap fun r => encodeReplayRecord r.1 r.2

structure Loaded (now : Int) (records : List JournalRecord) (index : ReplayIndex) (count : Int) : Prop where
  indexes : Indexes now records index
  pruned : ∀ key e, index.entries.lookup key = some e → now < e
  counted : count = records.length

theorem Loaded.record {now : Int} {records : List JournalRecord} {l : Loading}
    (hl : Loaded now records l.index l.journalRecords) {r : JournalRecord}
    (hdi : (live now (records ++ [r])).NodupKeys) :
    Loaded now (records ++ [r]) (l.record now r.1 r.2).index (l.record now r.1 r.2).journalRecords := by
  have hc : l.journalRecords + 1 = ((records ++ [r]).length : Int) := by
    rw [hl.counted, List.length_append, List.length_singleton]
    push_cast
    rfl
  unfold Loading.record
  by_cases hde : r.2 ≤ now
  · simp only [if_pos hde]
    exact ⟨hl.indexes.expired hde, hl.pruned, hc⟩
  · have ha := not_le.mp hde
    -- a live record of the same key would not be distinct from this one
    have hab : l.index.entries.lookup r.1 = none := by
      cases hf : l.index.entries.lookup r.1 with
      | none => rfl
      | some e =>
        exfalso
        have hb := hl.pruned r.1 e hf
        have hg : live now (records ++ [r]) = live now records ++ [r] := by simp [live, ha]
        rw [hg, List.perm_nodupKeys (List.perm_append_singleton r _), List.nodupKeys_cons] at hdi
        exact hdi.1 (List.mem_keys.mpr ⟨e, mem_live.mpr ⟨(hl.indexes.live r.1 e hb).mp hf, hb⟩⟩)
    simp only [if_neg hde, hab]
    refine ⟨hl.indexes.insert hab, fun key e hf => ?_, hc⟩
    by_cases own : key = r.1
    · rw [own, ReplayIndex.insert, AList.lookup_insert] at hf
      cases hf
      exact ha
    · rw [ReplayIndex.insert, AList.lookup_insert_ne own] at hf
      exact hl.pruned key e hf

theorem loadRecords_loaded {now : Int} {before records : List JournalRecord} {l : Loading}
    (hpo : ∀ r ∈ records, 0 < r.2) (hft : ∀ r ∈ records, r.2 < 2 ^ 63)
    (hdi : (live now (before ++ records)).NodupKeys) (hl : Loaded now before l.index l.journalRecords) :
    ∃ l', loadRecords now (records.map fun r => replayRecordText r.1 r.2) l = .ok l' ∧
      Loaded now (before ++ records) l'.index l'.journalRecords := by
  induction records generalizing before l with
  | nil => exact ⟨l, rfl, by rwa [List.append_nil]⟩
  | cons r records ih =>
    rw [List.append_cons] at hdi ⊢
    have hfr : (live now (before ++ [r])).NodupKeys :=
      hdi.sublist (List.Sublist.filter _ (List.sublist_append_left _ _))
    obtain ⟨l', hre, hdo⟩ := ih (fun x mem => hpo x (List.mem_cons_of_mem r mem))
      (fun x mem => hft x (List.mem_cons_of_mem r mem)) hdi (hl.record hfr)
    refine ⟨l', ?_, hdo⟩
    have hda := hpo r List.mem_cons_self
    have fit := hft r List.mem_cons_self
    have hsh : ¬ replayRecordMaxBytes ≤ (replayRecordText r.1 r.2).length := by
      have := length_recordText r.1 hda fit
      simp only [replayRecordMaxBytes]
      omega
    rw [List.map_cons, loadRecords, if_neg hsh, dropCR_recordText, parse_recordText_ok r.1 hda fit]
    exact hre

section Load
variable {limit now : Int} {written records : List JournalRecord} (kept : Kept limit now written records) {tail : Bytes}
  (free : 10 ∉ tail)
include kept

theorem length_recordBytes : (recordBytes records).length ≤ records.length * replayRecordMaxBytes := by
  refine length_records fun r mem => ?_
  have := length_recordText r.1 (kept.positive r mem) (kept.fits r mem)
  rw [encodeReplayRecord, List.length_append, List.length_singleton, replayRecordMaxBytes]
  omega

theorem length_journal (hsh : tail.length ≤ replayRecordMaxBytes) :
    ((replayJournalHeader ++ (recordBytes records ++ tail)).length : Int) ≤ maxReplayJournalBytes limit := by
  have hby := length_recordBytes kept
  have hcn := kept.count
  simp only [List.length_append, maxReplayJournalBytes, replayRecordMaxBytes] at *
  push_cast
  omega

include free

theorem readJournal_kept : ∃ l, readJournal now (replayJournalHeader ++ (recordBytes records ++ tail)) = .ok l ∧
    Loaded now records l.index l.journalRecords ∧ (l.needsCompact = false → tail = []) := by
  have hwh : Lines.Whole 10 (recordBytes records) := flatMap_records_whole records
  have hln : Lines.lines 10 (Lines.complete 10 (recordBytes records ++ tail)) =
      records.map fun r => replayRecordText r.1 r.2 := by
    rw [Lines.complete_append_free _ free, Lines.complete_of_whole hwh]
    exact lines_records records
  obtain ⟨l, hre, hl⟩ := @loadRecords_loaded now [] records
    { needsCompact := (recordBytes records ++ tail).getLast?.any (· ≠ 10) } kept.positive kept.fits kept.distinct
    ⟨⟨fun _ _ _ => by simp, fun _ _ hf => by simp at hf, List.Pairwise.nil⟩, fun _ _ hf => by simp at hf, rfl⟩
  have hfl : ¬ replayJournalHeader ++ (recordBytes records ++ tail) = [] := fun eq =>
    absurd (List.append_eq_nil_iff.mp eq).1 (by decide)
  have hhe : replayJournalHeader <+: replayJournalHeader ++ (recordBytes records ++ tail) := List.prefix_append _ _
  refine ⟨l, ?_, hl, fun hq => ?_⟩
  · rw [readJournal, if_neg hfl, if_neg (not_not.mpr hhe)]
    simp only [List.drop_left, untorn_eq_complete, hln]
    exact hre
  · rcases List.eq_nil_or_concat tail with hn | ⟨start, last, rfl⟩
    · exact hn
    · have hto : (recordBytes records ++ start.concat last).getLast?.any (· ≠ 10) = true := by
        have hot : last ≠ 10 := fun hsa => free (by simp [hsa])
        simpa [List.concat_eq_append, ← List.append_assoc] using hot
      rw [loadRecords_needsCompact hre hto] at hq
      cases hq

theorem loadJournal_kept (hsh : tail.length ≤ replayRecordMaxBytes) : ∃ store compact,
    loadJournal limit now (replayJournalHeader ++ (recordBytes records ++ tail)) = .ok (store, compact) ∧
      Loaded now records store.index store.journalRecords ∧ store.maxEntries = limit ∧ store.broken = false ∧
      (compact = false → tail = []) := by
  obtain ⟨l, hre, hl, hq⟩ := readJournal_kept kept free
  have hsi : l.index.size ≤ limit := by
    have hpe := entries_perm hl.indexes hl.pruned kept.distinct
    rw [ReplayIndex.size, hpe.length_eq]
    exact kept.few
  let store : DurableReplayStore := { index := l.index, maxEntries := limit, journalRecords := l.journalRecords }
  refine ⟨store, l.needsCompact || store.shouldCompact, ?_, hl, rfl, rfl, ?_⟩
  · rw [loadJournal, if_neg (not_lt.mpr (length_journal kept hsh)), hre]
    simp only [if_neg (not_lt.mpr hsi), store]
  · exact fun no => hq (Bool.or_eq_false_iff.mp no).1

end Load

/-! ### Steps -/

theorem startConsume_writes {crypto : Crypto} {now : Int} {jti : Bytes} {expiresAt : Time} {s s' : DurableReplayStore}
    {admission : Admission} (had : s.startConsume crypto now jti expiresAt = (admission, s'))
    (hwi : admission = .compact ∨ admission = .append) :
    s' = { s with index := s.index.prune now } ∧ now < unixNano expiresAt ∧
      s'.index.contains (newReplayKey crypto jti) now = false ∧ s'.index.size < s.maxEntries ∧
      (admission = .append → s'.shouldCompact = false) := by
  have hgo : (s.startConsume crypto now jti expiresAt).1 = .compact ∨ (s.startConsume crypto now jti expiresAt).1 = .append := by
    rw [had]
    exact hwi
  obtain ⟨hw, ha, hab⟩ := startConsume_goes_on hgo
  unfold DurableReplayStore.startConsume at had
  simp only [hw, Bool.false_eq_true, if_false, if_neg (not_le.mpr ha), hab] at had
  -- the checks that are left are the id's, the zero time's, the limit's and the threshold's
  split at had
  · cases had
    simp at hwi
  split at had
  · cases had
    simp at hwi
  split at had
  · cases had
    simp at hwi
  rename_i hro
  split at had
  · cases had
    exact ⟨by rw [hw], ha, hab, not_le.mp hro, nofun⟩
  · rename_i hq
    cases had
    exact ⟨by rw [hw], ha, hab, not_le.mp hro, fun _ => Bool.eq_false_iff.mpr hq⟩

namespace JournalHost
variable {limit : Int} {j : JournalHost}

structure Agrees (limit now : Int) (records : List JournalRecord) (s : DurableReplayStore) : Prop where
  limited : s.maxEntries = limit
  working : s.broken = false
  counted : s.journalRecords = records.length
  indexes : Indexes now records s.index

/-- The journal holds `records` and a torn tail; a store that has it open has no torn tail before it. -/
structure Journaled (limit : Int) (j : JournalHost) (records : List JournalRecord) (tail : Bytes) : Prop where
  file : j.files.file = replayJournalHeader ++ (recordBytes records ++ tail)
  free : 10 ∉ tail
  short : tail.length ≤ replayRecordMaxBytes
  kept : Kept limit j.clock j.written records
  whole : ∀ s, j.store = some s → tail = []
  agrees : ∀ s, j.store = some s → Agrees limit j.clock records s

def Sound (limit : Int) (j : JournalHost) : Prop :=
  (j.files.file = [] ∧ j.written = [] ∧ j.store = none) ∨ ∃ records tail, Journaled limit j records tail

theorem sound_tick (hs : Sound limit j) {t : Int} (hla : j.clock ≤ t) : Sound limit { j with clock := t } := by
  rcases hs with hfs | ⟨records, tail, hj⟩
  · exact .inl hfs
  · refine .inr ⟨records, tail, hj.file, hj.free, hj.short, hj.kept.later hla,
      hj.whole, fun s hr => ?_⟩
    obtain ⟨hli, hw, hc, hi⟩ := hj.agrees s hr
    exact ⟨hli, hw, hc, hi.later hla⟩

theorem sound_stopped (hs : Sound limit j) : Sound limit { j with store := none } := by
  rcases hs with ⟨hfi, hwr, -⟩ | ⟨records, tail, hj⟩
  · exact .inl ⟨hfi, hwr, rfl⟩
  · exact .inr ⟨records, tail, hj.file, hj.free, hj.short, hj.kept, nofun, nofun⟩

theorem sound_of_file (hs : Sound limit j) {files : FilePair UInt8} (hsa : files.file = j.files.file) :
    Sound limit { j with files } := by
  rcases hs with ⟨hfi, hrs⟩ | ⟨records, tail, hj⟩
  · exact .inl ⟨hsa.trans hfi, hrs⟩
  · exact .inr ⟨records, tail, hsa.trans hj.file, hj.free, hj.short, hj.kept, hj.whole,
      hj.agrees⟩

theorem journaled_whole {records : List JournalRecord} (file : j.files.file = compactedJournal records)
    (kept : Kept limit j.clock j.written records) (agrees : ∀ s, j.store = some s → Agrees limit j.clock records s) :
    Journaled limit j records [] where
  file := by rw [file, List.append_nil]; rfl
  free := List.not_mem_nil
  short := Nat.zero_le _
  kept := kept
  whole := fun _ _ => rfl
  agrees := agrees

section Open
variable {maxEntries : Int} (limited : maxEntries ≤ maxReplayEntries)

theorem entryLimit_positive (maxEntries : Int) : 0 < entryLimit maxEntries := by
  unfold entryLimit
  split
  · decide
  · omega

include limited

theorem open_eq (now : Int) (data : Bytes) :
    openDurableReplayStore maxEntries now data = loadJournal (entryLimit maxEntries) now data := by
  have hbu : ¬ entryLimit maxEntries > maxReplayEntries := by
    unfold entryLimit
    split
    · decide
    · exact not_lt.mpr limited
  exact if_neg hbu

theorem open_empty (now : Int) : openDurableReplayStore maxEntries now [] =
    .ok ({ maxEntries := entryLimit maxEntries }, true) := by
  have hpo := entryLimit_positive maxEntries
  have ht : minCompactStaleRecords ≤ compactThreshold (entryLimit maxEntries) := le_max_right _ _
  have hsm : ¬ (([] : Bytes).length : Int) > maxReplayJournalBytes (entryLimit maxEntries) := by
    simp only [maxReplayJournalBytes, replayRecordMaxBytes, minCompactStaleRecords, List.length_nil] at *
    push_cast
    omega
  have hn : ¬ ({} : ReplayIndex).size > entryLimit maxEntries := not_lt.mpr hpo.le
  rw [open_eq limited, loadJournal, if_neg hsm]
  simp only [readJournal, if_true, if_neg hn, Bool.true_or]

theorem open_agrees (hs : Sound (entryLimit maxEntries) j) {store : DurableReplayStore}
    {compact : Bool} {order : List JournalRecord}
    (ok : openDurableReplayStore maxEntries j.clock j.files.file = .ok (store, compact))
    (all : order.Perm store.index.entries.entries) :
    Kept (entryLimit maxEntries) j.clock j.written order ∧
      Agrees (entryLimit maxEntries) j.clock order store.recount ∧
      (compact = false → ∃ records, Journaled (entryLimit maxEntries) { j with store := some store } records []) := by
  rcases hs with ⟨hfi, hwr, -⟩ | ⟨records, tail, hj⟩
  · rw [hfi, open_empty limited] at ok
    cases ok
    obtain rfl : order = [] := all.eq_nil
    rw [hwr]
    refine ⟨.none _ _ (entryLimit_positive maxEntries).le, ⟨rfl, rfl, rfl, ?_⟩, nofun⟩
    exact ⟨fun _ _ _ => by simp [DurableReplayStore.recount], fun _ _ hf => by simp [DurableReplayStore.recount] at hf,
      List.Pairwise.nil⟩
  · obtain ⟨store', compact', hlo, hl, hm, hw, hq⟩ :=
      loadJournal_kept hj.kept hj.free hj.short
    rw [open_eq limited, hj.file, hlo] at ok
    cases ok
    obtain ⟨hke, hi, hsi⟩ := hj.kept.compacted hl.indexes hl.pruned all
    refine ⟨hke, ⟨hm, hw, hsi.symm, hi⟩, fun no => ⟨records, ?_⟩⟩
    have hn := hq no
    subst hn
    refine ⟨hj.file, hj.free, hj.short, hj.kept, fun _ _ => rfl, fun s hr => ?_⟩
    cases hr
    exact ⟨hm, hw, hl.counted, hl.indexes⟩

theorem sound_opened (hs : Sound (entryLimit maxEntries) j) {store : DurableReplayStore}
    {compact : Bool} {order : List JournalRecord}
    (ok : openDurableReplayStore maxEntries j.clock j.files.file = .ok (store, compact))
    (all : order.Perm store.index.entries.entries) :
    Sound (entryLimit maxEntries)
      { j with files := j.files.runAll (openCalls compact order), store := some (openedStore compact store) } := by
  obtain ⟨hke, hag, hq⟩ := open_agrees limited hs ok all
  cases compact with
  | false =>
    obtain ⟨records, hj⟩ := hq rfl
    exact .inr ⟨records, [], hj⟩
  | true =>
    refine .inr ⟨order, [], journaled_whole ?_ hke fun s hr => ?_⟩
    · simp only [openCalls, if_true, FilePair.runAll_replace]
    · cases hr
      exact hag

theorem sound_openKilled (hs : Sound (entryLimit maxEntries) j) (hen : j.store = none) {store : DurableReplayStore}
    {compact : Bool} {order : List JournalRecord}
    (ok : openDurableReplayStore maxEntries j.clock j.files.file = .ok (store, compact))
    (all : order.Perm store.index.entries.entries) {done : List (Syscall UInt8)} (hpa : done <+: openCalls compact order) :
    Sound (entryLimit maxEntries) { j with files := j.files.runAll done } := by
  obtain ⟨hke, -, -⟩ := open_agrees limited hs ok all
  cases compact with
  | false =>
    obtain rfl := List.prefix_nil.mp hpa
    exact hs
  | true =>
    rcases FilePair.killed_replace j.files hpa with old | new
    · exact sound_of_file hs old
    · refine .inr ⟨order, [], journaled_whole new hke fun s hr => ?_⟩
      rw [hen] at hr
      cases hr

end Open

section Consume
variable {crypto : Crypto} {jti : Bytes} {expiresAt : Time} {records : List JournalRecord} {s s' : DurableReplayStore}
  {admission : Admission}

theorem agrees_admitted (hag : Agrees limit j.clock records s)
    (had : s.startConsume crypto j.clock jti expiresAt = (admission, s')) : Agrees limit j.clock records s' := by
  have hst : s' = (s.startConsume crypto j.clock jti expiresAt).2 := by rw [had]
  rcases startConsume_store crypto j.clock jti expiresAt s with hsa | hp
  · rw [hst, hsa]
    exact hag
  · rw [hst, hp]
    exact ⟨hag.limited, hag.working, hag.counted, hag.indexes.prune.1⟩

structure Base (limit now : Int) (written : List JournalRecord) (r : JournalRecord) (base : List JournalRecord)
    (s : DurableReplayStore) : Prop where
  kept : Kept limit now written base
  agrees : Agrees limit now base s
  absent : s.index.entries.lookup r.1 = none
  missing : ∀ e, now < e → (⟨r.1, e⟩ : JournalRecord) ∉ base
  room : (live now base).length < limit
  count : base.length < limit + compactThreshold limit

theorem Base.of_pruned {now : Int} {written base : List JournalRecord} {r : JournalRecord}
    (hke : Kept limit now written base) (hag : Agrees limit now base s)
    (hp : ∀ key e, s.index.entries.lookup key = some e → now < e) (new : s.index.contains r.1 now = false)
    (hro : s.index.size < limit) (hcn : base.length < limit + compactThreshold limit) : Base limit now written r base s := by
  have hab : ∀ e, now < e → s.index.entries.lookup r.1 ≠ some e := by
    intro e ha hf
    simp [ReplayIndex.contains, hf, ha] at new
  refine ⟨hke, hag, ?_, fun e ha mem => hab e ha ((hag.indexes.live r.1 e ha).mpr mem), ?_, hcn⟩
  · cases hf : s.index.entries.lookup r.1 with
    | none => rfl
    | some e => exact absurd hf (hab e (hp r.1 e hf))
  · rw [← (entries_perm hag.indexes hp hke.distinct).length_eq]
    exact hro

theorem base_admitted (hke : Kept limit j.clock j.written records) (hag : Agrees limit j.clock records s)
    (had : s.startConsume crypto j.clock jti expiresAt = (admission, s')) {order : List JournalRecord}
    (all : order.Perm s'.index.entries.entries) :
    (admission = .append → Base limit j.clock j.written (ticketRecord crypto jti expiresAt) records s') ∧
    (admission = .compact → Base limit j.clock j.written (ticketRecord crypto jti expiresAt) order s'.recount) := by
  have har := agrees_admitted hag had
  have ht : minCompactStaleRecords ≤ compactThreshold limit := le_max_right _ _
  simp only [minCompactStaleRecords] at ht
  refine ⟨fun hap => ?_, fun hcp => ?_⟩
  · obtain ⟨hst, -, new, hro, hq⟩ := startConsume_writes had (.inr hap)
    have hp := hag.indexes.prune.2
    have hsl := hq hap
    rw [DurableReplayStore.shouldCompact, decide_eq_false_iff_not, not_le, har.limited, har.counted] at hsl
    rw [hag.limited] at hro
    refine .of_pruned hke har (by rw [hst]; exact hp) new hro ?_
    omega
  · obtain ⟨hst, -, new, hro, -⟩ := startConsume_writes had (.inl hcp)
    have hp : ∀ key e, s'.index.entries.lookup key = some e → j.clock < e := by
      rw [hst]
      exact hag.indexes.prune.2
    obtain ⟨hkp, hi, hsi⟩ := hke.compacted har.indexes hp all
    rw [hag.limited] at hro
    refine .of_pruned hkp ⟨har.limited, har.working, hsi.symm, hi⟩ hp new hro ?_
    omega

section Write
variable {r : JournalRecord} {base : List JournalRecord} {files : FilePair UInt8}
  (ready : Base limit j.clock j.written r base s) (file : files.file = compactedJournal base) (alive : j.clock < r.2)
  (positive : 0 < r.2) (fits : r.2 < 2 ^ 63)
include ready file alive positive fits

omit file in
theorem kept_written : Kept limit j.clock (r :: j.written) (base ++ [r]) :=
  ready.kept.append positive fits alive ready.missing ready.room ready.count

omit ready alive positive fits in
theorem file_written : (files.runAll (Syscall.appendAll (encodeReplayRecord r.1 r.2))).file = compactedJournal (base ++ [r]) := by
  rw [FilePair.runAll_appendAll, file]
  simp [compactedJournal]

theorem sound_written : Sound limit
    { j with
      files := files.runAll (Syscall.appendAll (encodeReplayRecord r.1 r.2))
      store := some (s.consumed r.1 r.2)
      written := r :: j.written } := by
  refine .inr ⟨base ++ [r], [], journaled_whole (file_written file) (kept_written ready alive positive fits) ?_⟩
  intro s₁ hr
  cases hr
  refine ⟨ready.agrees.limited, ready.agrees.working, ?_, ready.agrees.indexes.insert ready.absent⟩
  rw [DurableReplayStore.consumed, List.length_append, List.length_singleton, ready.agrees.counted]
  push_cast
  rfl

theorem sound_torn {done : List (Syscall UInt8)} (hpa : done <+: Syscall.appendAll (encodeReplayRecord r.1 r.2)) :
    Sound limit
      { j with
        files := files.runAll done
        store := none
        written := if done.length = (Syscall.appendAll (encodeReplayRecord r.1 r.2)).length then r :: j.written
          else j.written } := by
  by_cases all : done.length = (Syscall.appendAll (encodeReplayRecord r.1 r.2)).length
  · have hcm := hpa.eq_of_length all
    subst hcm
    rw [if_pos rfl]
    exact .inr ⟨base ++ [r], [], journaled_whole (file_written file) (kept_written ready alive positive fits)
      fun _ hr => by cases hr⟩
  · rw [if_neg all]
    obtain ⟨n, rfl⟩ : ∃ n, done = Syscall.appendAll ((encodeReplayRecord r.1 r.2).take n) :=
      ⟨done.length, by rw [Syscall.appendAll, List.map_take]; exact List.prefix_iff_eq_take.mp hpa⟩
    have hto : (encodeReplayRecord r.1 r.2).take n <+: replayRecordText r.1 r.2 := by
      refine (List.prefix_concat_iff.mp (List.take_prefix n _)).resolve_left fun hwh => all ?_
      simp only [Syscall.appendAll, List.length_map]
      exact congrArg List.length hwh
    have hsh := hto.length_le.trans (length_recordText r.1 positive fits)
    refine .inr ⟨base, (encodeReplayRecord r.1 r.2).take n, ?_, ?_, hsh.trans (by decide), ready.kept,
      fun _ hr => (by cases hr), fun _ hr => (by cases hr)⟩
    · rw [FilePair.runAll_appendAll, file]
      exact List.append_assoc _ _ _
    · exact fun hin => not_mem_recordText (by decide) (by decide) r.1 r.2 (hto.subset hin)

end Write

variable (sound : Sound limit j) (running : j.store = some s)
  (admitted : s.startConsume crypto j.clock jti expiresAt = (admission, s')) {order : List JournalRecord}
  (all : order.Perm s'.index.entries.entries) (dated : j.clock < unixNano expiresAt → 0 < unixNano expiresAt)
include sound running admitted all dated

omit admitted all dated in
theorem running_journaled : ∃ records, Journaled limit j records [] ∧ Agrees limit j.clock records s := by
  rcases sound with ⟨-, -, hn⟩ | ⟨records, tail, hj⟩
  · rw [running] at hn
    cases hn
  · obtain rfl := hj.whole s running
    exact ⟨records, hj, hj.agrees s running⟩

theorem sound_consumed : Sound limit
    { j with
      files := j.files.runAll (consumeCalls (ticketRecord crypto jti expiresAt) order admission)
      store := some (consumedStore (ticketRecord crypto jti expiresAt) s' admission)
      written := appended (ticketRecord crypto jti expiresAt) admission ++ j.written } := by
  obtain ⟨records, hj, hag⟩ := running_journaled sound running
  obtain ⟨append, compact⟩ := base_admitted hj.kept hag admitted all
  have hft : (ticketRecord crypto jti expiresAt).2 < 2 ^ 63 := (int64_range _).2
  have hq : Sound limit { j with store := some s' } := by
    refine .inr ⟨records, [], hj.file, hj.free, hj.short, hj.kept, fun _ _ => rfl, ?_⟩
    intro s₁ hsa
    cases hsa
    exact agrees_admitted hag admitted
  cases admission with
  | refused error => exact hq
  | replayed => exact hq
  | append =>
    obtain ⟨-, ha, -⟩ := startConsume_writes admitted (.inr rfl)
    have hfi : j.files.file = compactedJournal records := by rw [hj.file, List.append_nil]; rfl
    exact sound_written (append rfl) hfi ha (dated ha) hft
  | compact =>
    obtain ⟨-, ha, -⟩ := startConsume_writes admitted (.inl rfl)
    have hfi : (j.files.runAll (Syscall.replace (compactedJournal order))).file = compactedJournal order := by
      rw [FilePair.runAll_replace]
    simp only [consumeCalls, FilePair.runAll_append]
    exact sound_written (compact rfl) hfi ha (dated ha) hft

theorem sound_consumeKilled {done : List (Syscall UInt8)}
    (part : done <+: consumeCalls (ticketRecord crypto jti expiresAt) order admission) : Sound limit
    { j with
      files := j.files.runAll done
      store := none
      written :=
        if done.length = (consumeCalls (ticketRecord crypto jti expiresAt) order admission).length then
          appended (ticketRecord crypto jti expiresAt) admission ++ j.written
        else j.written } := by
  obtain ⟨records, journaled, agrees⟩ := running_journaled sound running
  obtain ⟨append, compact⟩ := base_admitted journaled.kept agrees admitted all
  have fits : (ticketRecord crypto jti expiresAt).2 < 2 ^ 63 := (int64_range _).2
  have stopped := sound_stopped sound
  cases admission with
  | refused error =>
    obtain rfl := List.prefix_nil.mp part
    exact stopped
  | replayed =>
    obtain rfl := List.prefix_nil.mp part
    exact stopped
  | append =>
    obtain ⟨-, alive, -⟩ := startConsume_writes admitted (.inr rfl)
    have file : j.files.file = compactedJournal records := by rw [journaled.file, List.append_nil]; rfl
    exact sound_torn (append rfl) file alive (dated alive) fits part
  | compact =>
    obtain ⟨-, alive, -⟩ := startConsume_writes admitted (.inl rfl)
    rcases FilePair.killed_between part with compacting | ⟨rest, appending, rfl⟩
    · -- the record has not been started
      have early : ¬ done.length = (consumeCalls (ticketRecord crypto jti expiresAt) order .compact).length := by
        have := compacting.length_le
        simp only [consumeCalls, List.length_append, Syscall.appendAll, List.length_map, encodeReplayRecord,
          List.length_singleton]
        omega
      rw [if_neg early]
      rcases FilePair.killed_replace j.files compacting with old | new
      · exact sound_of_file stopped old
      · exact .inr ⟨order, [], journaled_whole new (compact rfl).kept fun _ running => by cases running⟩
    · have file : (j.files.runAll (Syscall.replace (compactedJournal order))).file = compactedJournal order := by
        rw [FilePair.runAll_replace]
      simp only [consumeCalls, List.length_append, Nat.add_left_cancel_iff, FilePair.runAll_append]
      exact sound_torn (compact rfl) file alive (dated alive) fits appending

end Consume

theorem sound_step {crypto : Crypto} {maxEntries : Int} (hli : maxEntries ≤ maxReplayEntries) {label : Label}
    {j' : JournalHost} (hs : Sound (entryLimit maxEntries) j) (hse : Step crypto maxEntries j label j')
    (hda : Dated j label) : Sound (entryLimit maxEntries) j' := by
  cases hse with
  | tick t hla => exact sound_tick hs hla
  | opened store compact order hen ok all => exact sound_opened hli hs ok all
  | openKilled store compact order hen ok all done hpa => exact sound_openKilled hli hs hen ok all hpa
  | consumed s s' hr jti expiresAt admission had order all =>
    exact sound_consumed hs hr had all hda
  | consumeKilled s s' hr jti expiresAt admission had order all done hpa =>
    exact sound_consumeKilled hs hr had all hda hpa
  | closed s hr => exact sound_stopped hs

theorem sound_reopens {maxEntries : Int} (hli : maxEntries ≤ maxReplayEntries)
    (hs : Sound (entryLimit maxEntries) j) : ∃ store compact,
    openDurableReplayStore maxEntries j.clock j.files.file = .ok (store, compact) ∧
      j.files.file.length ≤ maxReplayJournalBytes (entryLimit maxEntries) ∧
      store.index.size ≤ entryLimit maxEntries ∧
      ∀ key, (store.index.entries.lookup key).isSome = true ↔ ∃ r ∈ j.written, r.1 = key ∧ j.clock < r.2 := by
  have hpo := entryLimit_positive maxEntries
  rcases hs with ⟨hfi, hwr, -⟩ | ⟨records, tail, hj⟩
  · have ho := open_empty hli j.clock
    refine ⟨{ maxEntries := entryLimit maxEntries }, true, by rw [hfi]; exact ho, ?_, hpo.le,
      fun key => by simp [hwr]⟩
    rw [open_eq hli] at ho
    rw [hfi]
    exact not_lt.mp (ite_error_eq_ok.mp ho).1
  · have hke := hj.kept
    obtain ⟨store, compact, hlo, hl, -, -, -⟩ := loadJournal_kept hke hj.free hj.short
    refine ⟨store, compact, by rw [open_eq hli, hj.file, hlo], ?_, ?_, fun key => ⟨fun hf => ?_, ?_⟩⟩
    · rw [hj.file]
      exact length_journal hke hj.short
    · rw [ReplayIndex.size, (entries_perm hl.indexes hl.pruned hke.distinct).length_eq]
      exact hke.few
    · obtain ⟨e, hf⟩ := Option.isSome_iff_exists.mp hf
      have ha := hl.pruned key e hf
      exact ⟨⟨key, e⟩, hke.written _ ((hl.indexes.live key e ha).mp hf), rfl, ha⟩
    · rintro ⟨⟨key, e⟩, mem, rfl, ha⟩
      rw [(hl.indexes.live key e ha).mpr (hke.complete _ mem ha)]
      rfl

end JournalHost

namespace JournalHost
open Sidecar (demoCrypto demoClaims demoKey)

theorem demo_consumed (clock : Int) {expiresAt : Time} (hz : expiresAt ≠ zeroTime) (ha : clock < unixNano expiresAt) :
    ∃ j₁ j₂, Step demoCrypto 10 { clock } .opened j₁ ∧ Step demoCrypto 10 j₁ (.consumed demoClaims.jti expiresAt) j₂ ∧
      j₁.clock = clock ∧ j₂.clock = clock ∧ j₂.files.file = compactedJournal [⟨demoKey, unixNano expiresAt⟩] ∧
      j₂.written = [⟨demoKey, unixNano expiresAt⟩] := by
  have ok : openDurableReplayStore 10 clock [] = .ok ({ maxEntries := 10 }, true) := open_empty (by decide) clock
  have had : (openedStore true { maxEntries := 10 }).startConsume demoCrypto clock demoClaims.jti expiresAt =
      (.append, { maxEntries := 10 }) := by
    have hv : ¬ (!validID demoClaims.jti 16 128) = true := by decide
    rw [DurableReplayStore.startConsume, if_neg hv, if_neg hz, if_neg (by decide), if_neg (not_le.mpr ha)]
    rfl
  refine ⟨_, _, .opened _ true [] rfl ok (List.Perm.refl _),
    .consumed _ _ rfl demoClaims.jti expiresAt .append had [] (List.Perm.refl _), rfl, rfl, ?_, rfl⟩
  simp only [openCalls, if_true, consumeCalls, FilePair.runAll_replace, FilePair.runAll_appendAll]
  simp [compactedJournal, ticketRecord, demoKey]

theorem parse_epoch (key : ReplayKey) : parseReplayRecord (replayRecordText key 0) =
    .error (.other "replay state contains a malformed expiration") := by
  have hsz : key.val.length = 32 := key.property
  rw [parseReplayRecord, splitOn_recordText]
  simp only [Base64.decode_encode, hsz, dif_pos, ne_eq, not_true_eq_false, if_false,
    Decimal.parseInt_formatInt (by decide : -2 ^ 63 ≤ (0 : Int)) (by decide), le_refl, true_or, if_true]

end JournalHost

end OpenRung
