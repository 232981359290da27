import Mathlib.Tactic.Ring
import OpenRung.Lib.Disk
import OpenRung.Wss.Replay

/-! The replay store forgets no record that is still in force: reading a journal (`loadJournal_covers`), compaction
    (`compactedJournal_holds`) and pruning (`ReplayIndex.Covers.prune`) keep it. -/

namespace OpenRung.Wss

/-! ### Tickets -/

theorem unixTime_le_add {a b : Int} (le : a ≤ b) : unixTime b ≤ unixTime a + (b - a) * second := by
  have hwr := int64_add_le (a + 62135596800) (Int.sub_nonneg.mpr le)
  have sum : a + 62135596800 + (b - a) = b + 62135596800 := by omega
  rw [sum] at hwr
  unfold unixTime second
  lia

theorem validateClaims_window {c : Claims} {now : Time} {opts : TicketOptions} {relay : Bytes}
    (hv : validateClaims c now opts true relay = .ok ()) :
    unixTime c.issuedAt ≤ now + opts.clockSkew ∧ c.issuedAt ≤ c.expiresAt ∧
      c.expiresAt - c.issuedAt ≤ maxTicketLifetime / second ∧ now - opts.clockSkew < unixTime c.expiresAt := by
  simp only [validateClaims, ite_error_eq_ok, Bool.not_true, Bool.false_eq_true, if_false] at hv
  obtain ⟨-, -, -, -, -, -, hor, hli, hi, -, hei, -⟩ := hv
  simp only [not_or, not_le] at hor hli
  exact ⟨not_lt.mp hi, hor.2.2.2.1.le, not_lt.mp hli.2, not_not.mp hei⟩

theorem TicketVerifier.verify_ok {v : TicketVerifier} {crypto : Crypto} {now : Time} {token : Bytes} {c : Claims}
    (ok : v.verify crypto now token = .ok c) :
    v.authenticate crypto token = .ok c ∧ validateClaims c now v.opts true v.localRelayID = .ok () := by
  unfold verify at ok
  split at ok
  · cases ok
  · rename_i claims hau
    split at ok
    · cases ok
    · rename_i hv
      cases ok
      exact ⟨hau, hv⟩

theorem TicketVerifier.verify_window {v : TicketVerifier} {crypto : Crypto} {now : Time} {token : Bytes} {c : Claims}
    (ok : v.verify crypto now token = .ok c) : now < v.replayUntil c ∧ v.replayUntil c < now + 10 * minute := by
  obtain ⟨hi, hod, hli, hei⟩ := validateClaims_window (verify_ok ok).2
  obtain ⟨-, -, -, hsk⟩ := v.normal
  have hra := unixTime_le_add hod
  simp only [maxTicketLifetime, maxTicketClockSkew, minute, second] at hli hsk hra
  simp only [replayUntil, Claims.expiry, minute, second]
  constructor <;> lia

/-! ### The index -/

/-- The index refuses `key` at every instant before `expiresAt`. -/
def ReplayIndex.Covers (i : ReplayIndex) (key : ReplayKey) (expiresAt : Int) : Prop :=
  ∃ e, i.entries.lookup key = some e ∧ expiresAt ≤ e

namespace ReplayIndex
variable {i : ReplayIndex} {key : ReplayKey} {expiresAt : Int}

theorem Covers.contains (hc : i.Covers key expiresAt) {now : Int} (hlv : now < expiresAt) :
    i.contains key now = true := by
  obtain ⟨e, hf, le⟩ := hc
  simp only [ReplayIndex.contains, hf, decide_eq_true_eq]
  omega

theorem covers_insert (i : ReplayIndex) (key : ReplayKey) (expiresAt : Int) :
    (i.insert key expiresAt).Covers key expiresAt :=
  ⟨expiresAt, AList.lookup_insert i.entries, le_refl _⟩

theorem Covers.insert (hc : i.Covers key expiresAt) {other : ReplayKey} {e : Int}
    (hlo : other = key → expiresAt ≤ e) : (i.insert other e).Covers key expiresAt := by
  by_cases hsa : key = other
  · subst hsa
    exact ⟨e, AList.lookup_insert i.entries, hlo rfl⟩
  · obtain ⟨current, hf, le⟩ := hc
    refine ⟨current, ?_, le⟩
    rw [ReplayIndex.insert, AList.lookup_insert_ne hsa, hf]

theorem pruneLoop_lookup {now e : Int} (hlv : now < e) (queue : List ReplayExpiry) (entries : KeyedMap ReplayKey Int)
    (hf : entries.lookup key = some e) : (pruneLoop now queue entries).entries.lookup key = some e := by
  induction queue generalizing entries with
  | nil => exact hf
  | cons candidate rest ih =>
    unfold pruneLoop
    split
    · rename_i due
      split
      · rename_i hcu
        -- the entry that is deleted has expired, so it is not the one of `key`
        have hot : key ≠ candidate.key := by
          rintro rfl
          rw [hf] at hcu
          cases hcu
          omega
        exact ih _ (by rw [AList.lookup_erase_ne hot, hf])
      · exact ih _ hf
    · exact hf

theorem Covers.prune (hc : i.Covers key expiresAt) {now : Int} (hlv : now < expiresAt) :
    (i.prune now).Covers key expiresAt := by
  obtain ⟨e, hf, le⟩ := hc
  exact ⟨e, pruneLoop_lookup (lt_of_lt_of_le hlv le) _ _ hf, le⟩

end ReplayIndex

/-! ### Records -/

theorem not_mem_recordText {b : UInt8} (ho : Base64.value b = none) (hsc : b ≠ 32) (key : ReplayKey)
    (expiresAt : Int) : b ∉ replayRecordText key expiresAt := by
  intro mem
  rcases List.mem_append.mp mem with mem | mem
  · exact Base64.not_mem_encode ho _ mem
  · rcases List.mem_cons.mp mem with rfl | mem
    · exact hsc rfl
    · rcases Decimal.mem_formatInt mem with rfl | ⟨low, hhi⟩
      · exact absurd ho (by decide)
      · simp only [Base64.value] at ho
        split at ho
        · cases ho
        · split at ho
          · cases ho
          · rw [if_pos ⟨low, hhi⟩] at ho
            cases ho

theorem dropCR_recordText (key : ReplayKey) (expiresAt : Int) :
    dropCR (replayRecordText key expiresAt) = replayRecordText key expiresAt := by
  have hla : ¬ (replayRecordText key expiresAt).getLast? = some 13 := fun eq =>
    not_mem_recordText (by decide) (by decide) key expiresAt (List.mem_of_getLast? eq)
  rw [dropCR, if_neg hla]

theorem splitOn_recordText (key : ReplayKey) (expiresAt : Int) :
    (replayRecordText key expiresAt).splitOn 32 = [Base64.encode key.val, Decimal.formatInt expiresAt] := by
  have hha : (32 : UInt8) ∉ Base64.encode key.val := Base64.not_mem_encode (by decide) _
  have hep : (32 : UInt8) ∉ Decimal.formatInt expiresAt := by
    intro mem
    rcases Decimal.mem_formatInt mem with eq | ⟨low, -⟩
    · exact absurd eq (by decide)
    · exact absurd low (by decide)
  rw [replayRecordText, List.splitOn_append_cons_self_of_not_mem hha, List.splitOn_eq_singleton hep]

theorem parse_recordText {key key' : ReplayKey} {expiresAt e : Int}
    (hp : parseReplayRecord (replayRecordText key expiresAt) = .ok (key', e)) : key' = key ∧ e = expiresAt := by
  rw [parseReplayRecord, splitOn_recordText] at hp
  simp only [Base64.decode_encode] at hp
  split at hp
  · split at hp
    · cases hp
    · split at hp
      · cases hp
      · split at hp
        · cases hp
        · rename_i hca
          cases hp
          rw [not_or, not_not] at hca
          exact ⟨rfl, Decimal.formatInt_injective hca.2⟩
  · cases hp

/-! ### Reading a journal -/

variable {now : Int} {key : ReplayKey} {expiresAt : Int}

theorem Loading.record_covers {l : Loading} (other : ReplayKey) (e : Int)
    (hc : l.index.Covers key expiresAt) : (l.record now other e).index.Covers key expiresAt := by
  unfold record
  simp only
  split
  · exact hc
  · split
    · rename_i existing hf
      split
      · exact hc
      · rename_i hso
        refine hc.insert ?_
        rintro rfl
        obtain ⟨current, hfo, le⟩ := hc
        rw [hf] at hfo
        cases hfo
        omega
    · rename_i ha
      refine hc.insert ?_
      rintro rfl
      obtain ⟨current, hf, -⟩ := hc
      rw [ha] at hf
      cases hf

theorem Loading.covers_record {now e : Int} (l : Loading) (key : ReplayKey) (hlv : now < e) :
    (l.record now key e).index.Covers key e := by
  unfold record
  simp only [if_neg (not_le.mpr hlv)]
  split
  · rename_i existing hf
    split
    · rename_i hlo
      exact ⟨existing, hf, hlo⟩
    · exact ReplayIndex.covers_insert _ _ _
  · exact ReplayIndex.covers_insert _ _ _

theorem loadRecords_covers {lines : List Bytes} {l l' : Loading}
    (hl : loadRecords now lines l = .ok l') (hc : l.index.Covers key expiresAt) :
    l'.index.Covers key expiresAt := by
  induction lines generalizing l with
  | nil =>
    cases hl
    exact hc
  | cons line rest ih =>
    unfold loadRecords at hl
    split at hl
    · cases hl
    · split at hl
      · cases hl
      · exact ih hl (Loading.record_covers _ _ hc)

theorem loadRecords_line {lines : List Bytes} {l l' : Loading}
    (hl : loadRecords now lines l = .ok l') (hln : replayRecordText key expiresAt ∈ lines)
    (hlv : now < expiresAt) : l'.index.Covers key expiresAt := by
  induction lines generalizing l with
  | nil => cases hln
  | cons first rest ih =>
    unfold loadRecords at hl
    split at hl
    · cases hl
    · split at hl
      · cases hl
      · rename_i key' e hp
        rcases List.mem_cons.mp hln with rfl | hln
        · rw [dropCR_recordText] at hp
          obtain ⟨rfl, rfl⟩ := parse_recordText hp
          exact loadRecords_covers hl (Loading.covers_record _ _ hlv)
        · exact ih hl hln

/-- A journal that holds, at a line boundary, a record of `key` that lasts until `expiresAt` or longer. -/
def JournalHolds (key : ReplayKey) (expiresAt : Int) (data : Bytes) : Prop :=
  ∃ e before after, expiresAt ≤ e ∧ Lines.Whole 10 before ∧
    data = replayJournalHeader ++ (before ++ (encodeReplayRecord key e ++ after))

def JournalWhole (data : Bytes) : Prop := ∃ records, Lines.Whole 10 records ∧ data = replayJournalHeader ++ records

theorem journalHolds_grows (key : ReplayKey) (expiresAt : Int) : Disk.Grows (JournalHolds key expiresAt) := by
  rintro xs ys ⟨e, before, after, le, hw, rfl⟩
  exact ⟨e, before, after ++ ys, le, hw, by simp⟩

theorem encodeReplayRecord_append (key : ReplayKey) (e : Int) (after : Bytes) :
    encodeReplayRecord key e ++ after = replayRecordText key e ++ 10 :: after := by
  simp [encodeReplayRecord]

theorem whole_of_not_torn {records : Bytes} (hen : records.getLast?.any (· ≠ 10) = false) :
    Lines.Whole 10 records := by
  rcases List.eq_nil_or_concat records with rfl | ⟨ys, last, rfl⟩
  · exact Lines.Whole.nil
  · have : last = 10 := by simpa using hen
    exact Or.inr ⟨ys, by rw [this, List.concat_eq_append]⟩

/-- The lines that `load` reads are those of the records up to the last newline, torn tail or not. -/
theorem untorn_eq_complete (records : Bytes) :
    (if records.getLast?.any (· ≠ 10) then Lines.complete 10 records else records) = Lines.complete 10 records := by
  cases hto : records.getLast?.any (· ≠ 10)
  · exact (Lines.complete_of_whole (whole_of_not_torn hto)).symm
  · rfl

theorem Loading.record_needsCompact {l : Loading} (key : ReplayKey) (e : Int)
    (hn : l.needsCompact = true) : (l.record now key e).needsCompact = true := by
  unfold record
  simp only
  split
  · rfl
  · split
    · split <;> rfl
    · exact hn

theorem loadRecords_needsCompact {lines : List Bytes} {l l' : Loading}
    (hl : loadRecords now lines l = .ok l') (hn : l.needsCompact = true) : l'.needsCompact = true := by
  induction lines generalizing l with
  | nil =>
    cases hl
    exact hn
  | cons line rest ih =>
    unfold loadRecords at hl
    split at hl
    · cases hl
    · split at hl
      · cases hl
      · exact ih hl (Loading.record_needsCompact _ _ hn)

variable {maxEntries now : Int}

theorem loadJournal_ok {data : Bytes} {store : DurableReplayStore} {compact : Bool}
    (loaded : loadJournal maxEntries now data = .ok (store, compact)) :
    ∃ l : Loading, store.index = l.index ∧ store.broken = false ∧ (compact = false → l.needsCompact = false) ∧
      ((data = [] ∧ l = { needsCompact := true }) ∨
        ∃ records, data = replayJournalHeader ++ records ∧
          loadRecords now (Lines.lines 10 (Lines.complete 10 records))
            { needsCompact := records.getLast?.any (· ≠ 10) } = .ok l) := by
  replace loaded := (ite_error_eq_ok.mp loaded).2
  split at loaded
  · cases loaded
  · rename_i l hr
    rw [ite_error_eq_ok] at loaded
    obtain ⟨-, eq⟩ := loaded
    cases eq
    refine ⟨l, rfl, rfl, fun no => (Bool.or_eq_false_iff.mp no).1, ?_⟩
    unfold readJournal at hr
    simp only [untorn_eq_complete] at hr
    split at hr
    · rename_i he
      cases hr
      exact Or.inl ⟨he, rfl⟩
    · rw [ite_error_eq_ok, not_not] at hr
      obtain ⟨⟨records, rfl⟩, hr⟩ := hr
      rw [List.drop_left] at hr
      exact Or.inr ⟨records, rfl, hr⟩

theorem loadJournal_covers {data : Bytes} {store : DurableReplayStore} {compact : Bool}
    (hl : loadJournal maxEntries now data = .ok (store, compact))
    (hho : JournalHolds key expiresAt data) (hlv : now < expiresAt) : store.index.Covers key expiresAt := by
  obtain ⟨e, before, after, le, hw, eq⟩ := hho
  obtain ⟨l, hin, -, -, ⟨he, -⟩ | ⟨records, hsp, hr⟩⟩ := loadJournal_ok hl
  · rw [eq] at he
    exact absurd (List.append_eq_nil_iff.mp he).1 (by decide)
  · obtain rfl := List.append_cancel_left (eq.symm.trans hsp)
    rw [encodeReplayRecord_append, Lines.complete_append_line hw,
      Lines.lines_append_line hw (not_mem_recordText (by decide) (by decide) key e)] at hr
    have hln : replayRecordText key e ∈
        Lines.lines 10 before ++ replayRecordText key e :: Lines.lines 10 (Lines.complete 10 after) := by simp
    obtain ⟨current, hf, hlo⟩ := loadRecords_line hr hln (lt_of_lt_of_le hlv le)
    exact ⟨current, hin ▸ hf, le.trans hlo⟩

theorem loadJournal_whole {data : Bytes} {store : DurableReplayStore}
    (hl : loadJournal maxEntries now data = .ok (store, false)) : JournalWhole data := by
  obtain ⟨l, -, -, hk, ⟨-, rfl⟩ | ⟨records, hsp, hr⟩⟩ := loadJournal_ok hl
  · exact absurd (hk rfl) (by decide)
  · refine ⟨records, whole_of_not_torn ?_, hsp⟩
    cases hto : records.getLast?.any (· ≠ 10)
    · rfl
    · rw [hto] at hr
      exact absurd (loadRecords_needsCompact hr rfl) (by simp [hk rfl])

theorem openDurableReplayStore_ok {data : Bytes} {result : DurableReplayStore × Bool}
    (hop : openDurableReplayStore maxEntries now data = .ok result) :
    ∃ limit, loadJournal limit now data = .ok result :=
  ⟨_, (ite_error_eq_ok.mp hop).2⟩

theorem openDurableReplayStore_eq {maxEntries : Int} (hsm : 0 < maxEntries) (hbo : maxEntries ≤ maxReplayEntries)
    (now : Int) (data : Bytes) : openDurableReplayStore maxEntries now data = loadJournal maxEntries now data := by
  rw [openDurableReplayStore]
  simp only [if_neg (not_le.mpr hsm), if_neg (not_lt.mpr hbo)]

/-! ### Compaction -/

theorem flatMap_records_whole (entries : List (Sigma fun _ : ReplayKey => Int)) :
    Lines.Whole 10 (entries.flatMap fun e => encodeReplayRecord e.1 e.2) := by
  induction entries with
  | nil => exact Lines.Whole.nil
  | cons e entries ih => exact (Lines.Whole.line _).append ih

theorem compactedJournal_whole (entries : List (Sigma fun _ : ReplayKey => Int)) :
    JournalWhole (compactedJournal entries) := ⟨_, flatMap_records_whole entries, rfl⟩

theorem compactedJournal_holds {i : ReplayIndex} (hc : i.Covers key expiresAt)
    {order : List (Sigma fun _ : ReplayKey => Int)} (all : order.Perm i.entries.entries) :
    JournalHolds key expiresAt (compactedJournal order) := by
  obtain ⟨e, hf, le⟩ := hc
  have mem : (⟨key, e⟩ : Sigma fun _ : ReplayKey => Int) ∈ order :=
    all.symm.subset (KeyedMap.lookup_eq_some_iff.mp hf)
  obtain ⟨left, right, rfl⟩ := List.append_of_mem mem
  refine ⟨e, _, right.flatMap fun e => encodeReplayRecord e.1 e.2, le, flatMap_records_whole left, ?_⟩
  simp [compactedJournal]

/-! ### Reopening a compacted journal -/

theorem parse_recordText_ok (key : ReplayKey) {e : Int} (hpo : 0 < e) (hfi : e < 2 ^ 63) :
    parseReplayRecord (replayRecordText key e) = .ok (key, e) := by
  have hsi : key.val.length = 32 := key.property
  rw [parseReplayRecord, splitOn_recordText]
  simp only [Base64.decode_encode, hsi, dif_pos, ne_eq, not_true_eq_false, if_false,
    Decimal.parseInt_formatInt (lt_trans (by decide) hpo).le hfi, not_le.mpr hpo, or_self]
  rfl

theorem length_recordText (key : ReplayKey) {e : Int} (hpo : 0 < e) (hfi : e < 2 ^ 63) :
    (replayRecordText key e).length ≤ 63 := by
  have hsi : key.val.length = 32 := key.property
  have hdi : (Decimal.digits e.natAbs).length ≤ 19 := Decimal.length_digits_le (by decide) (by omega)
  rw [replayRecordText, Decimal.formatInt, if_neg (not_lt.mpr hpo.le), List.length_append, Base64.length_encode,
    hsi, List.length_cons]
  omega

structure Fresh (now : Int) (entries : List (Sigma fun _ : ReplayKey => Int)) : Prop where
  keys : entries.NodupKeys
  live : ∀ e ∈ entries, now < e.2
  positive : ∀ e ∈ entries, 0 < e.2
  fits : ∀ e ∈ entries, e.2 < 2 ^ 63

theorem lines_records (entries : List (Sigma fun _ : ReplayKey => Int)) :
    Lines.lines 10 (entries.flatMap fun e => encodeReplayRecord e.1 e.2) =
      entries.map fun e => replayRecordText e.1 e.2 := by
  induction entries with
  | nil => rfl
  | cons e entries ih =>
    rw [List.flatMap_cons, encodeReplayRecord_append,
      Lines.lines_line (not_mem_recordText (by decide) (by decide) e.1 e.2), ih, List.map_cons]

variable {entries : List (Sigma fun _ : ReplayKey => Int)}

theorem loadRecords_fresh (hfr : Fresh now entries)
    (l : Loading) (ha : ∀ e ∈ entries, l.index.entries.lookup e.1 = none) :
    ∃ l', loadRecords now (entries.map fun e => replayRecordText e.1 e.2) l = .ok l' ∧
      l'.needsCompact = l.needsCompact ∧ l'.journalRecords = l.journalRecords + entries.length ∧
      l'.index.size = l.index.size + entries.length := by
  induction entries generalizing l with
  | nil => exact ⟨l, rfl, rfl, by simp, by simp⟩
  | cons e entries ih =>
    have hpo := hfr.positive e (by simp)
    have hfi := hfr.fits e (by simp)
    have hsh : ¬ replayRecordMaxBytes ≤ (replayRecordText e.1 e.2).length := by
      have := length_recordText e.1 hpo hfi
      simp only [replayRecordMaxBytes]
      omega
    have one : l.record now e.1 e.2 =
        { l with journalRecords := l.journalRecords + 1, index := l.index.insert e.1 e.2 } := by
      unfold Loading.record
      simp only [if_neg (not_le.mpr (hfr.live e (by simp))), ha e (by simp)]
    obtain ⟨hd, hke⟩ := List.nodupKeys_cons.mp hfr.keys
    have hrs : Fresh now entries := ⟨hke, fun x mem => hfr.live x (by simp [mem]),
      fun x mem => hfr.positive x (by simp [mem]), fun x mem => hfr.fits x (by simp [mem])⟩
    have hab : ∀ x ∈ entries, (l.index.insert e.1 e.2).entries.lookup x.1 = none := by
      intro x mem
      have hot : x.1 ≠ e.1 := fun hsa => hd (hsa ▸ List.mem_keys_of_mem mem)
      rw [ReplayIndex.insert, AList.lookup_insert_ne hot]
      exact ha x (by simp [mem])
    obtain ⟨l', hr, hn, hco, hs⟩ := ih hrs { l with
      journalRecords := l.journalRecords + 1, index := l.index.insert e.1 e.2 } hab
    refine ⟨l', ?_, hn, ?_, ?_⟩
    · rw [List.map_cons, loadRecords, if_neg hsh, dropCR_recordText, parse_recordText_ok e.1 hpo hfi]
      simp only [one]
      exact hr
    · rw [hco, List.length_cons]
      push_cast
      ring
    · have hgr : (l.index.insert e.1 e.2).size = l.index.size + 1 := by
        have hm : e.1 ∉ l.index.entries := AList.lookup_eq_none.mp (ha e (by simp))
        simp only [ReplayIndex.size, ReplayIndex.insert, AList.insert_of_notMem hm, List.length_cons]
        push_cast
        rfl
      rw [hs, hgr, List.length_cons]
      push_cast
      ring

theorem length_records
    (hsh : ∀ e ∈ entries, (encodeReplayRecord e.1 e.2).length ≤ replayRecordMaxBytes) :
    (entries.flatMap fun e => encodeReplayRecord e.1 e.2).length ≤ entries.length * replayRecordMaxBytes := by
  induction entries with
  | nil => simp
  | cons e entries ih =>
    have hfs := hsh e (by simp)
    have hrs := ih fun x mem => hsh x (by simp [mem])
    rw [List.flatMap_cons, List.length_append, List.length_cons, Nat.add_mul, Nat.one_mul]
    omega

theorem length_compactedJournal
    (hfr : Fresh now entries) (hbu : entries.length ≤ maxEntries) :
    (compactedJournal entries).length ≤ maxReplayJournalBytes maxEntries := by
  have hre := length_records fun e mem => by
    have := length_recordText e.1 (hfr.positive e mem) (hfr.fits e mem)
    rw [encodeReplayRecord, List.length_append, List.length_singleton, replayRecordMaxBytes]
    omega
  have ht : minCompactStaleRecords ≤ compactThreshold maxEntries := le_max_right _ _
  rw [compactedJournal, List.length_append]
  simp only [maxReplayJournalBytes, replayRecordMaxBytes, minCompactStaleRecords] at *
  push_cast
  omega

theorem readJournal_compacted (hfr : Fresh now entries) :
    ∃ l, readJournal now (compactedJournal entries) = .ok l ∧ l.needsCompact = false ∧
      l.journalRecords = entries.length ∧ l.index.size = entries.length := by
  have hto : (entries.flatMap fun e => encodeReplayRecord e.1 e.2).getLast?.any (· ≠ 10) = false := by
    rcases flatMap_records_whole entries with eq | ⟨ys, eq⟩ <;> simp [eq]
  obtain ⟨l, hr, hn, hco, hs⟩ := loadRecords_fresh hfr {} fun _ _ => rfl
  have he : ({} : Loading).index.size = 0 := rfl
  rw [he, zero_add] at hs
  rw [zero_add] at hco
  refine ⟨l, ?_, hn, hco, hs⟩
  have hfl : ¬ compactedJournal entries = [] := fun eq =>
    absurd (List.append_eq_nil_iff.mp eq).1 (by decide)
  have hh : replayJournalHeader <+: compactedJournal entries := List.prefix_append _ _
  have hre : (compactedJournal entries).drop replayJournalHeader.length =
      entries.flatMap fun e => encodeReplayRecord e.1 e.2 := List.drop_left
  rw [readJournal, if_neg hfl, if_neg (not_not.mpr hh)]
  simp only [hre, hto, Bool.false_eq_true, if_false, lines_records]
  exact hr

theorem loadJournal_compacted
    (hfr : Fresh now entries) (hbu : entries.length ≤ maxEntries) :
    ∃ store, loadJournal maxEntries now (compactedJournal entries) = .ok (store, false) := by
  obtain ⟨l, hr, hn, hco, hs⟩ := readJournal_compacted hfr
  have ht : minCompactStaleRecords ≤ compactThreshold maxEntries := le_max_right _ _
  have hfi : ¬ l.index.size > maxEntries := by rw [hs]; omega
  have hst : ¬ l.journalRecords - l.index.size ≥ compactThreshold maxEntries := by
    rw [hco, hs, minCompactStaleRecords] at *
    omega
  refine ⟨{ index := l.index, maxEntries, journalRecords := l.journalRecords }, ?_⟩
  rw [loadJournal, if_neg (not_lt.mpr (length_compactedJournal hfr hbu)), hr]
  simp only [if_neg hfi, hn, DurableReplayStore.shouldCompact, hst, decide_false, Bool.or_self]

/-! ### The decision of `Consume` -/

theorem startConsume_store (crypto : Crypto) (now : Int) (jti : Bytes) (expiresAt : Time) (s : DurableReplayStore) :
    (s.startConsume crypto now jti expiresAt).2 = s ∨
      (s.startConsume crypto now jti expiresAt).2 = { s with index := s.index.prune now } := by
  unfold DurableReplayStore.startConsume
  simp only
  repeat' split
  all_goals first
    | exact Or.inl rfl
    | exact Or.inr rfl

theorem startConsume_goes_on {crypto : Crypto} {jti : Bytes} {expiresAt : Time} {s : DurableReplayStore}
    (hg : (s.startConsume crypto now jti expiresAt).1 = .compact ∨ (s.startConsume crypto now jti expiresAt).1 = .append) :
    s.broken = false ∧ now < unixNano expiresAt ∧
      (s.index.prune now).contains (newReplayKey crypto jti) now = false := by
  unfold DurableReplayStore.startConsume at hg
  by_cases id : (!validID jti 16 128) = true
  · simp [id] at hg
  by_cases hz : expiresAt = zeroTime
  · simp [id, hz] at hg
  by_cases hb : s.broken = true
  · simp [id, hz, hb] at hg
  by_cases hex : unixNano expiresAt ≤ now
  · simp [id, hz, hb, hex] at hg
  by_cases hcn : (s.index.prune now).contains (newReplayKey crypto jti) now = true
  · simp [id, hz, hb, hex, hcn] at hg
  · exact ⟨Bool.eq_false_iff.mpr hb, not_le.mp hex, Bool.eq_false_iff.mpr hcn⟩

end OpenRung.Wss
