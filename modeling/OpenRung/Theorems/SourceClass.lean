import OpenRung.Broker.SourceClass

/-! The lookup of a source address. The loader sorts the listed ranges by their start and keeps nested ones, and the
    lookup asks one range only: so it misses those addresses that a range covers beyond the end of a range nested in
    it. -/

namespace OpenRung.Broker

def Announced (table list : Scan) (range : AddrRange) : Prop :=
  ∃ text ∈ table.lines, trimSpace text ≠ "" ∧ ∃ asn, parseRow text = .ok (range, asn) ∧
    ∃ entry ∈ list.lines, listedASN entry = some asn

/-! ### What the loader keeps -/

theorem readRows_mem {asns : List Nat} {line : Nat} {lines : List String} {rows : Nat} {ranges : List AddrRange}
    (hr : readRows asns line lines = .ok (rows, ranges)) (range : AddrRange) :
    range ∈ ranges ↔ ∃ text ∈ lines, trimSpace text ≠ "" ∧ ∃ asn, parseRow text = .ok (range, asn) ∧ asn ∈ asns := by
  induction lines generalizing line rows ranges with
  | nil =>
    cases hr
    simp
  | cons text lines ih =>
    rw [readRows] at hr
    simp only [List.mem_cons, or_and_right, exists_or, exists_eq_left]
    by_cases hbl : trimSpace text = ""
    · rw [if_pos hbl] at hr
      simp only [ih hr, hbl, ne_eq, not_true_eq_false, false_and, false_or]
    · rw [if_neg hbl] at hr
      cases hp : parseRow text with
      | error e => simp [hp] at hr
      | ok row =>
        obtain ⟨first, asn⟩ := row
        simp only [hp] at hr
        cases hre : readRows asns (line + 1) lines with
        | error e => simp [hre, Except.map] at hr
        | ok found =>
          obtain ⟨count, others⟩ := found
          simp only [hre, Except.map, Except.ok.injEq, Prod.mk.injEq] at hr
          obtain ⟨-, rfl⟩ := hr
          have hh : (∃ asn', parseRow text = .ok (range, asn') ∧ asn' ∈ asns) ↔ range = first ∧ asn ∈ asns := by
            simp only [hp, Except.ok.injEq, Prod.mk.injEq]
            constructor
            · rintro ⟨asn', ⟨rfl, rfl⟩, hl⟩
              exact ⟨rfl, hl⟩
            · rintro ⟨rfl, hl⟩
              exact ⟨asn, ⟨rfl, rfl⟩, hl⟩
          rw [← ih hre, ← hp, hh]
          by_cases hl : asn ∈ asns
          · simp only [hl, if_true, List.mem_cons, and_true, ne_eq, hbl, not_false_eq_true, true_and]
          · simp only [hl, if_false, and_false, false_or]

theorem loaded_ranges {sort : SortFunc} {table list : Scan} {data : SourceData}
    (hlo : loadSourceData sort (some table) (some list) = .ok data) :
    (∀ range, range ∈ data.ranges ↔ Announced table list range) ∧
      data.ranges.Pairwise fun a b => a.start ≤ b.start := by
  unfold loadSourceData at hlo
  cases hl : readDatacenterASNs (some list) with
  | error e => simp [hl] at hlo
  | ok asns =>
    have hen : ∀ asn, asn ∈ asns ↔ ∃ entry ∈ list.lines, listedASN entry = some asn := by
      unfold readDatacenterASNs at hl
      simp only at hl
      split_ifs at hl
      cases hl
      intro asn
      rw [List.mem_dedup, List.mem_filterMap]
    simp only [hl] at hlo
    unfold readDatacenterRanges at hlo
    cases hr : readRows asns 1 table.lines with
    | error e => simp [hr, Except.map] at hlo
    | ok found =>
      obtain ⟨rows, ranges⟩ := found
      simp only [hr] at hlo
      split_ifs at hlo <;> cases hlo
      refine ⟨fun range => ?_, sort.sorted ranges⟩
      rw [(sort.perm ranges).mem_iff, readRows_mem hr]
      simp only [Announced, hen]

/-! ### The lookup -/

namespace SourceData
variable {data : SourceData} {addr : Addr}

/-- No address that an earlier range covers lies past the end of a later one and before the start of the one after it. -/
def NoGap (ranges : List AddrRange) : Prop :=
  ∀ i j outer inner, i < j → ranges[i]? = some outer → ranges[j]? = some inner →
    ∀ addr, inner.end_ < addr → addr ≤ outer.end_ → ∃ next, ranges[j + 1]? = some next ∧ next.start ≤ addr

theorem start_le (hso : data.ranges.Pairwise fun a b => a.start ≤ b.start) {i j : Nat} {a b : AddrRange} (hb : i ≤ j)
    (hf : data.ranges[i]? = some a) (hse : data.ranges[j]? = some b) : a.start ≤ b.start := by
  rcases hb.lt_or_eq with hb | rfl
  · obtain ⟨hi, rfl⟩ := List.getElem?_eq_some_iff.mp hf
    obtain ⟨hin, rfl⟩ := List.getElem?_eq_some_iff.mp hse
    exact List.pairwise_iff_getElem.mp hso i j hi hin hb
  · rw [hf] at hse
    cases hse
    exact le_rfl

theorem exists_index (hso : data.ranges.Pairwise fun a b => a.start ≤ b.start) (addr : Addr) :
    ∃ i ≤ data.ranges.length, (∀ k r, data.ranges[k]? = some r → (r.start < addr ↔ k < i)) ∧
      (data.contains addr = true ↔ (∃ r, data.ranges[i]? = some r ∧ r.start = addr) ∨
        ∃ k r, i = k + 1 ∧ data.ranges[k]? = some r ∧ addr ≤ r.end_) := by
  have hsp : SortedSearch.Splits (fun r : AddrRange => decide (r.start < addr)) data.ranges := by
    refine hso.imp fun {a b} hb => ?_
    simp only [decide_eq_true_iff]
    exact fun hbe => hb.trans_lt hbe
  refine ⟨_, SortedSearch.search_le 0 _ (Nat.zero_le _),
    fun k r ht => by simpa using SortedSearch.search_spec hsp ht, ?_⟩
  unfold contains
  generalize SortedSearch.search (fun r => decide (r.start < addr)) data.ranges 0 data.ranges.length = i
  have ha {p : AddrRange → Prop} [DecidablePred p] (k : Nat) :
      (data.ranges[k]?.any fun r => decide (p r)) = true ↔ ∃ r, data.ranges[k]? = some r ∧ p r := by
    cases data.ranges[k]? <;> simp
  simp only
  rcases i with _ | k
  · by_cases hs : ∃ r, data.ranges[0]? = some r ∧ r.start = addr
    · rw [if_pos ((ha 0).mpr hs)]
      exact iff_of_true rfl (.inl hs)
    · rw [if_neg fun any => hs ((ha 0).mp any), if_pos rfl]
      refine iff_of_false Bool.false_ne_true ?_
      rintro (hst | ⟨k, r, hn, -⟩)
      · exact hs hst
      · cases hn
  · by_cases hs : ∃ r, data.ranges[k + 1]? = some r ∧ r.start = addr
    · rw [if_pos ((ha _).mpr hs)]
      exact iff_of_true rfl (.inl hs)
    · rw [if_neg fun any => hs ((ha _).mp any), if_neg k.succ_ne_zero, Nat.add_sub_cancel, ha]
      constructor
      · rintro ⟨r, ht, hi⟩
        exact .inr ⟨k, r, rfl, ht, hi⟩
      · rintro (hst | ⟨k', r, hn, ht, hi⟩)
        · exact absurd hst hs
        · cases hn
          exact ⟨r, ht, hi⟩

theorem contains_sound (hso : data.ranges.Pairwise fun a b => a.start ≤ b.start) (hfu : data.contains addr = true) :
    ∃ r ∈ data.ranges, r.Covers addr := by
  obtain ⟨i, -, hbe, haw⟩ := exists_index hso addr
  rcases haw.mp hfu with ⟨r, ht, rfl⟩ | ⟨k, r, rfl, ht, hi⟩
  · exact ⟨r, List.mem_of_getElem? ht, le_rfl, not_lt.mp r.ordered⟩
  · exact ⟨r, List.mem_of_getElem? ht, ((hbe k r ht).mpr k.lt_succ_self).le, hi⟩

theorem NoGap.contains (hso : data.ranges.Pairwise fun a b => a.start ≤ b.start) (hcl : NoGap data.ranges)
    {r : AddrRange} (mem : r ∈ data.ranges) (hc : r.Covers addr) : data.contains addr = true := by
  obtain ⟨i, hbo, hbe, haw⟩ := exists_index hso addr
  obtain ⟨k, ht⟩ := List.getElem?_of_mem mem
  -- a range that starts at the address, wherever it stands, makes the one at `i` start there
  have hs {k : Nat} {r : AddrRange} (ht : data.ranges[k]? = some r) (haf : i ≤ k) (he : r.start ≤ addr) :
      data.contains addr = true := by
    obtain ⟨hi, -⟩ := List.getElem?_eq_some_iff.mp ht
    have hf : data.ranges[i]? = some (data.ranges.get ⟨i, haf.trans_lt hi⟩) := List.getElem?_eq_getElem _
    refine haw.mpr (.inl ⟨_, hf, le_antisymm ?_ ?_⟩)
    · exact (start_le hso haf hf ht).trans he
    · exact not_lt.mp fun hle => lt_irrefl i ((hbe i _ hf).mp hle)
  by_cases haf : i ≤ k
  · exact hs ht haf hc.1
  · obtain ⟨j, rfl⟩ := Nat.exists_eq_add_one_of_ne_zero (show i ≠ 0 by omega)
    obtain ⟨inner, hla⟩ : ∃ inner, data.ranges[j]? = some inner := ⟨_, List.getElem?_eq_getElem hbo⟩
    by_cases hed : addr ≤ inner.end_
    · exact haw.mpr (.inr ⟨j, inner, rfl, hla, hed⟩)
    · have hb : k < j := by
        rcases (Nat.lt_succ_iff.mp (not_le.mp haf)).lt_or_eq with hb | rfl
        · exact hb
        · rw [ht] at hla
          cases hla
          exact absurd hc.2 hed
      obtain ⟨next, hfo, he⟩ := hcl k j r inner hb ht hla addr (not_le.mp hed) hc.2
      exact hs hfo le_rfl he

theorem contains_iff_noGap (sorted : data.ranges.Pairwise fun a b => a.start ≤ b.start) :
    (∀ addr, data.contains addr = true ↔ ∃ r ∈ data.ranges, r.Covers addr) ↔ NoGap data.ranges := by
  constructor
  · intro exact i j outer inner before first second addr past inside
    have early : inner.start < addr := (not_lt.mp inner.ordered).trans_lt past
    have covers : outer.Covers addr := ⟨(start_le sorted before.le first second).trans early.le, inside⟩
    obtain ⟨k, -, below, answer⟩ := exists_index sorted addr
    have follows {k : Nat} {r : AddrRange} (there : data.ranges[k]? = some r) (after : j + 1 ≤ k) (before : r.start ≤ addr) :
        ∃ next, data.ranges[j + 1]? = some next ∧ next.start ≤ addr := by
      obtain ⟨inside, -⟩ := List.getElem?_eq_some_iff.mp there
      have next := List.getElem?_eq_getElem (after.trans_lt inside)
      exact ⟨_, next, (start_le sorted after next there).trans before⟩
    rcases answer.mp ((exact addr).mpr ⟨outer, List.mem_of_getElem? first, covers⟩) with
      ⟨next, there, rfl⟩ | ⟨k, last, rfl, there, covered⟩
    · exact follows there ((below j inner second).mp early) le_rfl
    · rcases (Nat.lt_succ_iff.mp ((below j inner second).mp early)).lt_or_eq with earlier | rfl
      · exact follows there earlier ((below k last there).mpr k.lt_succ_self).le
      · rw [second] at there
        cases there
        exact absurd covered (not_le.mpr past)
  · intro closed addr
    exact ⟨contains_sound sorted, fun ⟨r, mem, covers⟩ => closed.contains sorted mem covers⟩

theorem NoGap.of_disjoint {ranges : List AddrRange} (hd : ranges.Pairwise fun a b => a.end_ < b.start) :
    NoGap ranges := by
  intro i j outer inner hb hf hse addr hpa hi
  obtain ⟨hh, rfl⟩ := List.getElem?_eq_some_iff.mp hf
  obtain ⟨ht, rfl⟩ := List.getElem?_eq_some_iff.mp hse
  have hap := List.pairwise_iff_getElem.mp hd i j hh ht hb
  exact absurd (hpa.trans_le hi) (not_lt.mpr (hap.le.trans (not_lt.mp (AddrRange.ordered _))))

end SourceData

/-! ### The loaded table -/

theorem contains_exact_iff {sort : SortFunc} {table list : Scan} {data : SourceData}
    (loaded : loadSourceData sort (some table) (some list) = .ok data) :
    (∀ addr, data.contains addr = true ↔ ∃ range, Announced table list range ∧ range.Covers addr) ↔
      SourceData.NoGap data.ranges := by
  obtain ⟨han, hso⟩ := loaded_ranges loaded
  simp only [← han]
  exact SourceData.contains_iff_noGap hso

def insertionSortFunc : SortFunc where
  run := List.insertionSort fun a b => a.start ≤ b.start
  perm := List.perm_insertionSort _
  sorted := by
    have : Std.Total fun a b : AddrRange => a.start ≤ b.start := ⟨fun a b => le_total _ _⟩
    have : IsTrans AddrRange fun a b => a.start ≤ b.start := ⟨fun _ _ _ => le_trans⟩
    exact List.pairwise_insertionSort _

def hostingList : Scan := { lines := ["# hosting", "AS64500 Example"] }

def tenNet : AddrRange := { start := .v4 0x0a000000, end_ := .v4 0x0affffff, ordered := by decide }
def tenOneNet : AddrRange := { start := .v4 0x0a010000, end_ := .v4 0x0a01ffff, ordered := by decide }
def sixNet : AddrRange where
  start := .v6 0x20010db8000000000000000000000000 ""
  end_ := .v6 0x20010db80000000000000000000000ff ""
  ordered := by decide

theorem contains_exact_apart :
    let table : Scan := { lines := ["2001:db8::\t2001:db8::ff\t64500\tZZ\texample", "", "10.0.0.0\t10.255.255.255\t64501",
      "10.1.0.0\t10.1.255.255\t64500"] }
    ∀ addr, SourceData.contains { ranges := [tenOneNet, sixNet], asnCount := 1 } addr = true ↔
      ∃ range, Announced table hostingList range ∧ range.Covers addr := by
  intro table
  have hlo : loadSourceData insertionSortFunc (some table) (some hostingList) =
      .ok { ranges := [tenOneNet, sixNet], asnCount := 1 } := by decide +kernel
  exact (contains_exact_iff hlo).mpr (.of_disjoint (by decide))

/-- `10.2.0.0` is in `10.0.0.0/8`, but the last range that starts before it is `10.1.0.0/16`. -/
theorem contains_misses_nested :
    let table : Scan := { lines := ["10.0.0.0\t10.255.255.255\t64500", "10.1.0.0\t10.1.255.255\t64500"] }
    let data : SourceData := { ranges := [tenNet, tenOneNet], asnCount := 1 }
    loadSourceData insertionSortFunc (some table) (some hostingList) = .ok data ∧
      data.contains (.v4 0x0a020000) = false ∧
      ∃ range, Announced table hostingList range ∧ range.Covers (.v4 0x0a020000) := by
  intro table data
  have han : Announced table hostingList tenNet :=
    ⟨_, .head _, by decide, 64500, by decide +kernel, _, .tail _ (.head _), by decide +kernel⟩
  exact ⟨by decide +kernel, by decide +kernel, tenNet, han, by decide, by decide⟩

end OpenRung.Broker
