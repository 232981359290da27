import OpenRung.Relay.Front
import OpenRung.Lib.Checks
import OpenRung.Lib.Sorting
import OpenRung.Theorems.Identity
import Mathlib.Data.List.TakeWhile
import Mathlib.Tactic

/-! The normal form of a front list. Each front is normalised on its own, to something that normalises to itself; and
    of a list with distinct ids there is only one order by id. -/

namespace OpenRung.Broker
open Joined

/-! ### Texts in normal form -/

def Visible (text : String) : Prop := ∀ c ∈ text.toList, 32 < c.toNat ∧ c.toNat < 127 ∧ ¬ (65 ≤ c.toNat ∧ c.toNat ≤ 90)

instance (text : String) : Decidable (Visible text) := List.decidableBAll _ text.toList

theorem Visible.append {a b : String} (ha : Visible a) (hb : Visible b) : Visible (a ++ b) := by
  intro c hc
  rw [String.toList_append] at hc
  rcases List.mem_append.mp hc with hc | hc
  · exact ha c hc
  · exact hb c hc

theorem Visible.isSpace {text : String} (h : Visible text) {c : Char} (hc : c ∈ text.toList) : isSpace c = false := by
  obtain ⟨hlo, hhi, -⟩ := h c hc
  unfold Broker.isSpace
  simp only [Bool.or_eq_false_iff, Bool.and_eq_false_iff, decide_eq_false_iff_not]
  omega

theorem Visible.trimSpace {text : String} (h : Visible text) : trimSpace text = text := by
  have hleft : text.toList.dropWhile Broker.isSpace = text.toList := by
    rw [List.dropWhile_eq_self_iff]
    intro hpos hspace
    rw [h.isSpace (List.getElem_mem _)] at hspace
    cases hspace
  have hright : text.toList.reverse.dropWhile Broker.isSpace = text.toList.reverse := by
    rw [List.dropWhile_eq_self_iff]
    intro hpos hspace
    rw [h.isSpace (List.mem_reverse.mp (List.getElem_mem _))] at hspace
    cases hspace
  rw [Broker.trimSpace, hleft, hright, List.reverse_reverse, String.ofList_toList]

theorem Visible.containsAny {text : String} (h : Visible text) : containsAny text ['\r', '\n', '\t'] = false := by
  unfold Broker.containsAny
  rw [List.any_eq_false]
  intro c hc hmem
  obtain ⟨hlo, -, -⟩ := h c hc
  simp only [List.mem_cons, List.not_mem_nil, or_false, decide_eq_true_eq] at hmem
  rcases hmem with rfl | rfl | rfl <;> exact absurd hlo (by decide)

def plainByte (b : UInt8) : Bool := Wss.isLower b || Wss.isDigit b || b = 46 || b = 95 || b = 45

theorem plainByte_bounds {b : UInt8} (h : plainByte b = true) :
    32 < b.toNat ∧ b.toNat < 127 ∧ ¬ (65 ≤ b.toNat ∧ b.toNat ≤ 90) := by
  unfold plainByte Wss.isLower Wss.isDigit at h
  simp only [Bool.or_eq_true, Bool.and_eq_true, decide_eq_true_eq, UInt8.le_iff_toNat_le, ← UInt8.toNat_inj] at h
  simp at h
  omega

theorem visible_of_bytes {text : String} (h : ∀ b ∈ utf8 text, plainByte b = true) : Visible text := by
  intro c hc
  have hascii : ∀ b ∈ utf8 text, b < 128 := by
    intro b hb
    have hb := (plainByte_bounds (h b hb)).2.1
    rw [UInt8.lt_iff_toNat_lt]
    exact lt_trans hb (by decide)
  obtain ⟨hsmall, hmem⟩ := ofNat_mem_utf8 hascii hc
  have hb := plainByte_bounds (h _ hmem)
  rwa [UInt8.toNat_ofNat_of_lt' (by simp only [UInt8.size]; omega)] at hb

theorem visible_of_validFrontID {id : String} (h : Wss.validFrontID (utf8 id) = true) : Visible id := by
  refine visible_of_bytes fun b hb => ?_
  unfold Wss.validFrontID at h
  dsimp only at h
  split at h
  · simp only [Bool.and_eq_true, List.all_eq_true] at h
    exact h.2 b hb
  · cases h

theorem visible_of_validFrontDNSName {host : String} (h : validFrontDNSName (utf8 host) = true) : Visible host := by
  refine visible_of_bytes fun b hb => ?_
  unfold validFrontDNSName at h
  simp only [Bool.and_eq_true, List.all_eq_true] at h
  obtain ⟨-, ⟨-, hlabels⟩, -⟩ := h
  rw [← @List.intercalate_splitOn _ (utf8 host) _ _ 46] at hb
  rcases mem_intercalate hb with rfl | ⟨label, hlabel, hb⟩
  · rfl
  · have hlabel := hlabels label hlabel
    unfold validFrontLabel at hlabel
    simp only [Bool.and_eq_true, List.all_eq_true] at hlabel
    have hbyte := hlabel.2 b hb
    simp only [plainByte, Bool.or_eq_true] at hbyte ⊢
    tauto

/-! ### What is taken from the standard library -/

def canonicalURL (host : String) : ParsedURL := { scheme := "wss", host, hostname := host, path := bridgePath }

/-- `ToLower` leaves lower-case ASCII as it is, and an accepted URL that is written out is parsed back. -/
structure URLRules.Lawful (urls : URLRules) : Prop where
  fold : urls.equalFold "wss" "wss" = true
  lower : ∀ text, Visible text → urls.toLower text = text
  roundTrip : ∀ host, validFrontDNSName (utf8 host) = true → urls.parse (canonicalURL host).string = some (canonicalURL host)

/-- What `sort.Slice` guarantees: the order of fronts with the same id is open. -/
def SortsByID (sort : List WSSFrontDescriptor → List WSSFrontDescriptor) : Prop :=
  ∀ fronts, (sort fronts).Perm fronts ∧ (sort fronts).Pairwise fun a b => a.id ≤ b.id

section
variable {crypto : IdentityCrypto} {urls : URLRules}

/-! ### The rules of one front -/

theorem normalizeFrontID_eq_some {value id : String} (h : crypto.normalizeFrontID value = some id) :
    Wss.validFrontID (utf8 id) = true := by
  unfold IdentityCrypto.normalizeFrontID at h
  obtain ⟨-, h⟩ := Option.ite_none_left_eq_some.mp h
  obtain ⟨hvalid, h⟩ := Option.ite_none_right_eq_some.mp h
  cases h
  exact hvalid

theorem normalizeFrontID_fixed (hlower : ∀ text, Visible text → crypto.toLower text = text) {value id : String}
    (h : crypto.normalizeFrontID value = some id) : crypto.normalizeFrontID id = some id := by
  have hvalid := normalizeFrontID_eq_some h
  have hvis := visible_of_validFrontID hvalid
  unfold IdentityCrypto.normalizeFrontID
  simp only [hvis.containsAny, hvis.trimSpace, hlower id hvis, hvalid, Bool.false_eq_true, if_false, if_true]

theorem normalizeFrontURL_eq_some {raw url : String} (h : urls.normalizeFrontURL raw = some url) :
    ∃ host, validFrontDNSName (utf8 host) = true ∧ urls.isIP host = false ∧ url = (canonicalURL host).string := by
  unfold URLRules.normalizeFrontURL at h
  obtain ⟨-, h⟩ := Option.ite_none_left_eq_some.mp h
  obtain ⟨-, h⟩ := Option.ite_none_left_eq_some.mp h
  split at h
  · cases h
  · rename_i parsed _
    obtain ⟨-, h⟩ := Option.ite_none_left_eq_some.mp h
    obtain ⟨-, h⟩ := Option.ite_none_left_eq_some.mp h
    obtain ⟨-, h⟩ := Option.ite_none_left_eq_some.mp h
    obtain ⟨-, h⟩ := Option.ite_none_left_eq_some.mp h
    obtain ⟨hhost, h⟩ := Option.ite_none_left_eq_some.mp h
    obtain ⟨hpath, h⟩ := Option.ite_none_left_eq_some.mp h
    simp only [not_or, Bool.not_eq_true', Bool.not_eq_false, Bool.not_eq_true, ne_eq, not_not] at hhost hpath
    refine ⟨urls.toLower parsed.hostname, hhost.1, hhost.2, ?_⟩
    rw [← Option.some.inj h, ParsedURL.string, hpath.1]
    rfl

theorem visible_string {host : String} (h : validFrontDNSName (utf8 host) = true) : Visible (canonicalURL host).string := by
  have hscheme : Visible "wss://" := by decide
  have hpath : Visible bridgePath := by decide
  exact (hscheme.append (visible_of_validFrontDNSName h)).append hpath

theorem length_string {host : String} (h : validFrontDNSName (utf8 host) = true) :
    (canonicalURL host).string ≠ "" ∧ (utf8 (canonicalURL host).string).length ≤ maxFrontURLBytes := by
  have hlength : (utf8 (canonicalURL host).string).length = 24 + (utf8 host).length := by
    have hsplit : utf8 (canonicalURL host).string = utf8 "wss://" ++ utf8 host ++ utf8 bridgePath := by
      simp only [utf8_eq_flatMap, ← List.flatMap_append, ← String.toList_append]
      rfl
    rw [hsplit, List.length_append, List.length_append, show (utf8 "wss://").length = 6 by decide,
      show (utf8 bridgePath).length = 18 by decide]
    omega
  have hbound : (utf8 host).length ≤ 253 := by
    unfold validFrontDNSName at h
    simp only [Bool.and_eq_true, decide_eq_true_eq] at h
    exact h.1.1.2
  refine ⟨?_, ?_⟩
  · intro hempty
    rw [hempty] at hlength
    exact absurd hlength (by rw [show (utf8 "").length = 0 by decide]; omega)
  · rw [hlength, maxFrontURLBytes]
    omega

theorem normalizeFrontURL_fixed (hlaws : urls.Lawful) {raw url : String} (h : urls.normalizeFrontURL raw = some url) :
    urls.normalizeFrontURL url = some url := by
  obtain ⟨host, hvalid, hip, rfl⟩ := normalizeFrontURL_eq_some h
  have hvis := visible_string hvalid
  have hne : host ≠ "" := by
    rintro rfl
    exact absurd hvalid (by decide)
  obtain ⟨hfull, hbound⟩ := length_string hvalid
  unfold URLRules.normalizeFrontURL
  simp only [hvis.containsAny, hvis.trimSpace, hlaws.roundTrip host hvalid]
  rw [if_neg Bool.false_ne_true, if_neg (by simp [hfull, hbound])]
  simp [canonicalURL, hlaws.fold, hlaws.lower host (visible_of_validFrontDNSName hvalid), hvalid, hip, hne]

theorem normalizeFront_eq_some {front out : WSSFrontDescriptor} (h : crypto.normalizeFront front = some out) :
    crypto.normalizeFrontID front.id = some out.id ∧ crypto.normalizeFrontURL front.url = some out.url ∧
      out.protocolVersion = wssProtocolVersion := by
  unfold IdentityCrypto.normalizeFront at h
  obtain ⟨id, hid, h⟩ := Option.bind_eq_some_iff.mp h
  obtain ⟨-, h⟩ := Option.ite_none_left_eq_some.mp h
  obtain ⟨url, hurl, rfl⟩ := Option.map_eq_some_iff.mp h
  exact ⟨hid, hurl, rfl⟩

theorem normalizeFront_fixed (hlaws : urls.Lawful) {front out : WSSFrontDescriptor}
    (h : (crypto.withURLs urls).normalizeFront front = some out) :
    (crypto.withURLs urls).normalizeFront out = some out := by
  obtain ⟨hid, hurl, hversion⟩ := normalizeFront_eq_some h
  unfold IdentityCrypto.normalizeFront
  rw [normalizeFrontID_fixed hlaws.lower hid, show (crypto.withURLs urls).normalizeFrontURL out.url = some out.url from
    normalizeFrontURL_fixed hlaws hurl]
  obtain ⟨id, url, version⟩ := out
  obtain rfl : version = wssProtocolVersion := hversion
  simp

/-! ### The order of a list -/

variable {fronts out : List WSSFrontDescriptor}

def DistinctFronts (fronts : List WSSFrontDescriptor) : Prop := (fronts.map (·.id)).Nodup ∧ (fronts.map (·.url)).Nodup

instance : Decidable (DistinctFronts fronts) := inferInstanceAs (Decidable (_ ∧ _))

/-- In a sorted list equal ids are neighbours, so that the loop need not look further back. -/
theorem distinctFronts_eq_true {previous : Option String} {seenURLs : List String} {sorted : List WSSFrontDescriptor}
    (hsorted : sorted.Pairwise fun a b => a.id ≤ b.id) (hprevious : ∀ id ∈ previous, ∀ front ∈ sorted, id ≤ front.id) :
    distinctFronts previous seenURLs sorted = true ↔
      DistinctFronts sorted ∧ (∀ front ∈ sorted, previous ≠ some front.id) ∧ ∀ front ∈ sorted, front.url ∉ seenURLs := by
  induction sorted generalizing previous seenURLs with
  | nil => simp [distinctFronts, DistinctFronts]
  | cons front rest ih =>
    rw [List.pairwise_cons] at hsorted
    have hrest := @ih (some front.id) (front.url :: seenURLs) hsorted.2 (by simpa using hsorted.1)
    have hskip : previous ≠ some front.id → ∀ later ∈ rest, previous ≠ some later.id := by
      rintro hne later hmem rfl
      have hle := hprevious _ rfl front List.mem_cons_self
      exact hne (congrArg some (le_antisymm hle (hsorted.1 later hmem)))
    simp only [distinctFronts, DistinctFronts, List.map_cons, List.nodup_cons, List.forall_mem_cons]
    split
    · simp_all
    · split
      · simp_all
      · rw [hrest]
        simp only [DistinctFronts, List.mem_cons, not_or, List.mem_map, not_exists, not_and, Option.some.injEq, ne_eq]
        grind

theorem checked_eq {sorted sorted' : List WSSFrontDescriptor} (hperm : sorted.Perm sorted')
    (hsorted : sorted.Pairwise fun a b => a.id ≤ b.id) (hsorted' : sorted'.Pairwise fun a b => a.id ≤ b.id) :
    (if DistinctFronts sorted then .ok sorted else .error StoreError.wssFrontInvalid) =
      if DistinctFronts sorted' then Except.ok sorted' else .error .wssFrontInvalid := by
  by_cases h : DistinctFronts sorted
  · rw [hperm.eq_of_pairwise_key (·.id) hsorted hsorted' h.1]
  · have h' : ¬ DistinctFronts sorted' := by
      rwa [DistinctFronts, ← (hperm.map _).nodup_iff, ← (hperm.map _).nodup_iff]
    rw [if_neg h, if_neg h']

theorem normalizeWSSFronts_eq {normalized sorted : List WSSFrontDescriptor} (hlength : fronts.length ≤ maxWSSFronts)
    (hmap : fronts.mapM crypto.normalizeFront = some normalized) (hperm : sorted.Perm normalized)
    (hsorted : sorted.Pairwise fun a b => a.id ≤ b.id) :
    crypto.normalizeWSSFronts fronts = if DistinctFronts sorted then .ok sorted else .error .wssFrontInvalid := by
  unfold IdentityCrypto.normalizeWSSFronts
  rw [if_neg (Nat.not_lt.mpr hlength), hmap]
  exact (checked_eq (hperm.trans (List.perm_insertionSort _ normalized).symm) hsorted (List.pairwise_insertionSort _ _)).symm

theorem normalizeFronts_eq {sort : List WSSFrontDescriptor → List WSSFrontDescriptor} (hsort : SortsByID sort)
    (fronts : List WSSFrontDescriptor) : crypto.normalizeFronts sort fronts = crypto.normalizeWSSFronts fronts := by
  unfold IdentityCrypto.normalizeFronts
  split
  · rename_i hnil
    rw [hnil]
    rfl
  · split
    · rename_i hlong
      rw [IdentityCrypto.normalizeWSSFronts, if_pos hlong]
    · rename_i hlong
      split
      · rename_i hnone
        rw [IdentityCrypto.normalizeWSSFronts, if_neg hlong, hnone]
      · rename_i normalized hmap
        obtain ⟨hperm, hsorted⟩ := hsort normalized
        rw [normalizeWSSFronts_eq (Nat.not_lt.mp hlong) hmap hperm hsorted]
        refine if_congr ?_ rfl rfl
        rw [distinctFronts_eq_true hsorted (by simp)]
        simp

theorem normalizeWSSFronts_eq_ok (h : crypto.normalizeWSSFronts fronts = .ok out) :
    ∃ normalized, fronts.length ≤ maxWSSFronts ∧ fronts.mapM crypto.normalizeFront = some normalized ∧
      out.Perm normalized ∧ (out.Pairwise fun a b => a.id ≤ b.id) ∧ DistinctFronts out := by
  unfold IdentityCrypto.normalizeWSSFronts at h
  obtain ⟨hlength, h⟩ := ite_error_eq_ok.mp h
  split at h
  · cases h
  · rename_i normalized hmap
    dsimp only at h
    split at h
    · rename_i hdistinct
      cases h
      exact ⟨normalized, Nat.not_lt.mp hlength, hmap, List.perm_insertionSort _ _, List.pairwise_insertionSort _ _, hdistinct⟩
    · cases h

theorem normalizeFront_of_mem (hlaws : urls.Lawful) (h : (crypto.withURLs urls).normalizeWSSFronts fronts = .ok out)
    {front : WSSFrontDescriptor} (hmem : front ∈ out) : (crypto.withURLs urls).normalizeFront front = some front := by
  obtain ⟨normalized, -, hmap, hperm, -⟩ := normalizeWSSFronts_eq_ok h
  obtain ⟨-, rfl⟩ := List.mapM_eq_some_iff.mp hmap
  obtain ⟨source, -, hsource⟩ := List.mem_filterMap.mp (hperm.subset hmem)
  exact normalizeFront_fixed hlaws hsource

theorem normalizeWSSFronts_fixed (hlaws : urls.Lawful) (h : (crypto.withURLs urls).normalizeWSSFronts fronts = .ok out) :
    (crypto.withURLs urls).normalizeWSSFronts out = .ok out := by
  have hmem : ∀ front ∈ out, (crypto.withURLs urls).normalizeFront front = some front :=
    fun front => normalizeFront_of_mem hlaws h
  obtain ⟨normalized, hlength, hmap, hperm, hsorted, hdistinct⟩ := normalizeWSSFronts_eq_ok h
  have hsame : out.mapM (crypto.withURLs urls).normalizeFront = some out := by
    refine List.mapM_eq_some_iff.mpr ⟨fun front hfront => by rw [hmem front hfront]; rfl, ?_⟩
    rw [List.filterMap_congr fun front hfront => hmem front hfront]
    exact List.filterMap_some
  have hshort : out.length ≤ maxWSSFronts := by
    obtain ⟨hall, rfl⟩ := List.mapM_eq_some_iff.mp hmap
    rw [hperm.length_eq]
    exact (List.length_filterMap_le _ _).trans hlength
  rw [normalizeWSSFronts_eq hshort hsame (.refl out) hsorted, if_pos hdistinct]

theorem normalizeWSSFronts_perm {fronts' : List WSSFrontDescriptor} (hperm : fronts.Perm fronts') :
    crypto.normalizeWSSFronts fronts' = crypto.normalizeWSSFronts fronts := by
  by_cases hlong : fronts.length ≤ maxWSSFronts
  · cases hmap : fronts.mapM crypto.normalizeFront with
    | none =>
      have hmap' : fronts'.mapM crypto.normalizeFront = none := by
        by_contra hsome
        obtain ⟨normalized, hsome⟩ := Option.ne_none_iff_exists'.mp hsome
        have hall := fun front hmem => (List.mapM_eq_some_iff.mp hsome).1 front (hperm.subset hmem)
        rw [List.mapM_eq_some_iff.mpr ⟨hall, rfl⟩] at hmap
        cases hmap
      simp only [IdentityCrypto.normalizeWSSFronts, hperm.length_eq, hmap, hmap']
    | some normalized =>
      obtain ⟨hall, rfl⟩ := List.mapM_eq_some_iff.mp hmap
      have hmap' : fronts'.mapM crypto.normalizeFront = some (fronts'.filterMap crypto.normalizeFront) :=
        List.mapM_eq_some_iff.mpr ⟨fun front hmem => hall front (hperm.symm.subset hmem), rfl⟩
      have hsorted := List.pairwise_insertionSort (fun a b : WSSFrontDescriptor => a.id ≤ b.id)
        (fronts.filterMap crypto.normalizeFront)
      have hsort := List.perm_insertionSort (fun a b : WSSFrontDescriptor => a.id ≤ b.id)
        (fronts.filterMap crypto.normalizeFront)
      rw [normalizeWSSFronts_eq hlong hmap hsort hsorted, normalizeWSSFronts_eq (hperm.length_eq ▸ hlong) hmap'
        (hsort.trans (hperm.filterMap _)) hsorted]
  · rw [IdentityCrypto.normalizeWSSFronts, IdentityCrypto.normalizeWSSFronts, ← hperm.length_eq, if_pos (by omega),
      if_pos (by omega)]

end

/-! ### Spellings of one list -/

section
variable {crypto : IdentityCrypto} {urls : URLRules}

def SameControl (a b : String) : Prop := containsAny a ['\r', '\n', '\t'] = containsAny b ['\r', '\n', '\t']

def SameID (urls : URLRules) (a b : String) : Prop :=
  SameControl a b ∧ urls.toLower (trimSpace a) = urls.toLower (trimSpace b)

structure SameParsed (urls : URLRules) (p q : ParsedURL) : Prop where
  rest : q = { p with scheme := q.scheme, host := q.host, hostname := q.hostname }
  scheme : urls.equalFold p.scheme "wss" = urls.equalFold q.scheme "wss"
  hostname : urls.toLower p.hostname = urls.toLower q.hostname
  host : p.host = p.hostname ↔ q.host = q.hostname
  hosts : (p.host = "" ↔ q.host = "") ∧ (p.hostname = "" ↔ q.hostname = "")

structure SameURL (urls : URLRules) (a b : String) : Prop where
  control : SameControl a b
  length : (utf8 (trimSpace a)).length = (utf8 (trimSpace b)).length
  parsed : Option.Rel (SameParsed urls) (urls.parse (trimSpace a)) (urls.parse (trimSpace b))

structure SameFront (urls : URLRules) (a b : WSSFrontDescriptor) : Prop where
  id : SameID urls a.id b.id
  url : SameURL urls a.url b.url
  protocolVersion : a.protocolVersion = b.protocolVersion

theorem normalizeFrontID_congr {a b : String} (h : SameID urls a b) :
    (crypto.withURLs urls).normalizeFrontID a = (crypto.withURLs urls).normalizeFrontID b := by
  unfold IdentityCrypto.normalizeFrontID
  rw [h.1, show (crypto.withURLs urls).toLower (trimSpace a) = (crypto.withURLs urls).toLower (trimSpace b) from h.2]

theorem eq_empty_iff (text : String) : text = "" ↔ (utf8 text).length = 0 := by
  rw [List.length_eq_zero_iff, show ([] : Bytes) = utf8 "" by decide]
  exact utf8_injective.eq_iff.symm

theorem normalizeFrontURL_congr {a b : String} (h : SameURL urls a b) :
    urls.normalizeFrontURL a = urls.normalizeFrontURL b := by
  unfold URLRules.normalizeFrontURL
  simp only [eq_empty_iff (trimSpace _), h.length, show _ = _ from h.control]
  have hparsed := h.parsed
  generalize urls.parse (trimSpace a) = parsed at hparsed ⊢
  generalize urls.parse (trimSpace b) = parsed' at hparsed ⊢
  cases hparsed with
  | none => rfl
  | some hsame =>
    rename_i p q
    have hfields : q.opaquePart = p.opaquePart ∧ q.userinfo = p.userinfo ∧ q.port = p.port ∧ q.path = p.path ∧
        q.rawPath = p.rawPath ∧ q.rawQuery = p.rawQuery ∧ q.forceQuery = p.forceQuery ∧ q.fragment = p.fragment := by
      rw [hsame.rest]
      simp
    obtain ⟨h1, h2, h3, h4, h5, h6, h7, h8⟩ := hfields
    simp only [h1, h2, h3, h4, h5, h6, h7, h8, ParsedURL.string, hsame.scheme, hsame.hostname, hsame.hosts.1,
      hsame.hosts.2, ne_eq, hsame.host]

theorem normalizeFront_congr {a b : WSSFrontDescriptor} (h : SameFront urls a b) :
    (crypto.withURLs urls).normalizeFront a = (crypto.withURLs urls).normalizeFront b := by
  unfold IdentityCrypto.normalizeFront
  rw [normalizeFrontID_congr h.id, h.protocolVersion, show (crypto.withURLs urls).normalizeFrontURL a.url =
    (crypto.withURLs urls).normalizeFrontURL b.url from normalizeFrontURL_congr h.url]

def SameFronts (urls : URLRules) (fronts fronts' : List WSSFrontDescriptor) : Prop :=
  ∃ ordered, fronts.Perm ordered ∧ List.Forall₂ (SameFront urls) ordered fronts'

theorem normalizeWSSFronts_congr {fronts fronts' : List WSSFrontDescriptor} (h : SameFronts urls fronts fronts') :
    (crypto.withURLs urls).normalizeWSSFronts fronts' = (crypto.withURLs urls).normalizeWSSFronts fronts := by
  obtain ⟨ordered, hperm, hsame⟩ := h
  have hmap : ordered.mapM (crypto.withURLs urls).normalizeFront = fronts'.mapM (crypto.withURLs urls).normalizeFront := by
    clear hperm
    induction hsame with
    | nil => rfl
    | cons hfront _ ih => rw [List.mapM_cons, List.mapM_cons, normalizeFront_congr hfront, ih]
  rw [← normalizeWSSFronts_perm hperm]
  simp only [IdentityCrypto.normalizeWSSFronts, hsame.length_eq, hmap]

/-! ### Surrounding blanks -/

def Blank (text : String) : Prop := ∀ c ∈ text.toList, isSpace c = true ∧ c ∉ ['\r', '\n', '\t']

theorem containsAny_append (a b : String) (chars : List Char) :
    containsAny (a ++ b) chars = (containsAny a chars || containsAny b chars) := by
  simp only [containsAny, String.toList_append, List.any_append]

theorem Blank.containsAny {text : String} (h : Blank text) : containsAny text ['\r', '\n', '\t'] = false := by
  unfold Broker.containsAny
  rw [List.any_eq_false]
  intro c hc hmem
  exact (h c hc).2 (of_decide_eq_true hmem)

theorem Blank.sameControl {left right : String} (hleft : Blank left) (hright : Blank right) (text : String) :
    SameControl text (left ++ text ++ right) := by
  rw [SameControl, containsAny_append, containsAny_append, hleft.containsAny, hright.containsAny, Bool.false_or,
    Bool.or_false]

theorem trimSpace_pad {left right : String} (hleft : Blank left) (hright : Blank right) (text : String) :
    trimSpace (left ++ text ++ right) = trimSpace text := by
  have hspace : ∀ c ∈ right.toList.reverse, isSpace c = true := fun c hc => (hright c (List.mem_reverse.mp hc)).1
  unfold trimSpace
  rw [String.toList_append, String.toList_append, List.append_assoc,
    List.dropWhile_append_of_pos fun c hc => (hleft c hc).1, List.dropWhile_append]
  split
  · rename_i hempty
    rw [List.isEmpty_iff.mp hempty, List.dropWhile_eq_nil_iff.mpr fun c hc => (hright c hc).1]
  · rw [List.reverse_append, List.dropWhile_append_of_pos hspace]

theorem sameFront_pad (front : WSSFrontDescriptor) {l r l' r' : String} (hl : Blank l) (hr : Blank r) (hl' : Blank l')
    (hr' : Blank r') :
    SameFront urls front { front with id := l ++ front.id ++ r, url := l' ++ front.url ++ r' } := by
  refine ⟨⟨hl.sameControl hr _, ?_⟩, ⟨hl'.sameControl hr' _, ?_, ?_⟩, rfl⟩
  · rw [trimSpace_pad hl hr]
  · rw [trimSpace_pad hl' hr']
  · rw [trimSpace_pad hl' hr']
    cases urls.parse (trimSpace front.url) with
    | none => exact .none
    | some p => exact .some ⟨rfl, rfl, rfl, Iff.rfl, Iff.rfl, Iff.rfl⟩

/-! ### The normal form -/

theorem wssCapabilityStatement_congr {req : RegisterRequest} {fronts : List WSSFrontDescriptor}
    (h : crypto.normalizeWSSFronts fronts = crypto.normalizeWSSFronts req.wssFronts) (expires : String) :
    crypto.wssCapabilityStatement { req with wssFronts := fronts } expires = crypto.wssCapabilityStatement req expires := by
  unfold IdentityCrypto.wssCapabilityStatement
  rw [h]
  rfl

/-- The normal form of a front list is its own normal form, and that of every other order, letter case and spacing of
    the list; a statement over it is the statement over the list. -/
theorem fronts_canonical (crypto : IdentityCrypto) {urls : URLRules} (hlaws : urls.Lawful)
    {sort : List WSSFrontDescriptor → List WSSFrontDescriptor} (hsort : SortsByID sort) :
    (∀ fronts out, (crypto.withURLs urls).normalizeFronts sort fronts = .ok out →
      (out.Pairwise fun a b => a.id < b.id) ∧ (out.map (·.url)).Nodup ∧
      (crypto.withURLs urls).normalizeFronts sort out = .ok out ∧
      ∀ req expires, req.wssFronts = fronts →
        (crypto.withURLs urls).wssCapabilityStatement { req with wssFronts := out } expires =
          (crypto.withURLs urls).wssCapabilityStatement req expires) ∧
    (∀ fronts fronts', SameFronts urls fronts fronts' → ∀ sort', SortsByID sort' →
      (crypto.withURLs urls).normalizeFronts sort' fronts' = (crypto.withURLs urls).normalizeFronts sort fronts) ∧
    ∀ front l r l' r', Blank l → Blank r → Blank l' → Blank r' →
      SameFront urls front { front with id := l ++ front.id ++ r, url := l' ++ front.url ++ r' } := by
  refine ⟨?_, ?_, fun front l r l' r' => sameFront_pad front⟩
  · intro fronts out h
    rw [normalizeFronts_eq hsort] at h ⊢
    have hfixed := normalizeWSSFronts_fixed hlaws h
    obtain ⟨normalized, -, -, -, hsorted, hids, hurls⟩ := normalizeWSSFronts_eq_ok h
    refine ⟨?_, hurls, hfixed, ?_⟩
    · refine (hsorted.and (List.pairwise_map.mp hids)).imp ?_
      rintro a b ⟨hle, hne⟩
      exact lt_of_le_of_ne hle hne
    · rintro req expires rfl
      exact wssCapabilityStatement_congr (hfixed.trans h.symm) expires
  · intro fronts fronts' hsame sort' hsort'
    rw [normalizeFronts_eq hsort, normalizeFronts_eq hsort', normalizeWSSFronts_congr hsame]

end

def simpleURLs : URLRules where
  parse text :=
    let chars := text.toList
    let host := String.ofList ((chars.drop 6).take (chars.length - 24))
    some { scheme := String.ofList ((chars.take 3).map Char.toLower), host, hostname := host,
           path := String.ofList (chars.drop (chars.length - 18)) }
  equalFold a b := a = b
  isIP _ := false
  toLower text := String.ofList (text.toList.map Char.toLower)

theorem toLower_of_visible {text : String} (h : Visible text) : text.toList.map Char.toLower = text.toList := by
  refine (List.map_congr_left fun c hc => ?_).trans (List.map_id' _)
  have hbig := (h c hc).2.2
  unfold Char.toLower
  rw [dif_neg]
  simp only [ge_iff_le, UInt32.le_iff_toNat_le]
  exact hbig

theorem simpleURLs_lawful : simpleURLs.Lawful where
  fold := rfl
  lower text h := by
    show String.ofList (text.toList.map Char.toLower) = text
    rw [toLower_of_visible h, String.ofList_toList]
  roundTrip host h := by
    have hchars : (canonicalURL host).string.toList = "wss://".toList ++ (host.toList ++ bridgePath.toList) := by
      rw [← String.toList_append, ← String.toList_append, ← String.append_assoc]
      rfl
    have hstart : "wss://".toList.length = 6 := by decide
    have hpath : bridgePath.toList.length = 18 := by decide
    have hscheme : String.ofList (("wss://".toList.take 3).map Char.toLower) = "wss" := by decide
    simp only [simpleURLs, hchars]
    rw [List.take_append_of_le_length (by rw [hstart]; omega), hscheme, List.drop_left' hstart, List.length_append,
      List.length_append, hstart, hpath, List.take_left' (by omega), ← List.append_assoc,
      List.drop_left' (by rw [List.length_append, hstart]; omega)]
    simp only [String.ofList_toList]
    rfl

def byID (fronts : List WSSFrontDescriptor) : List WSSFrontDescriptor := fronts.insertionSort fun a b => a.id ≤ b.id

theorem byID_sorts : SortsByID byID := fun _ => ⟨List.perm_insertionSort _ _, List.pairwise_insertionSort _ _⟩

def mixedFronts : List WSSFrontDescriptor :=
  [{ id := " Two ", url := "WSS://Two.Example.com/api/v1/wss-bridge ", protocolVersion := 1 },
   { id := "one", url := "wss://one.example.com/api/v1/wss-bridge", protocolVersion := 1 }]

def normalFronts : List WSSFrontDescriptor :=
  [{ id := "one", url := "wss://one.example.com/api/v1/wss-bridge", protocolVersion := 1 },
   { id := "two", url := "wss://two.example.com/api/v1/wss-bridge", protocolVersion := 1 }]

theorem mixedFronts_normalize :
    (IdentityCrypto.plainCrypto.withURLs simpleURLs).normalizeFronts byID mixedFronts = .ok normalFronts := by
  decide +kernel

theorem fronts_canonical_of_mixed :
    let crypto := IdentityCrypto.plainCrypto.withURLs simpleURLs
    crypto.normalizeFronts byID mixedFronts = .ok normalFronts ∧ crypto.normalizeFronts byID normalFronts = .ok normalFronts ∧
      ∀ req expires, req.wssFronts = mixedFronts →
        crypto.wssCapabilityStatement { req with wssFronts := normalFronts } expires =
          crypto.wssCapabilityStatement req expires := by
  have h := (fronts_canonical IdentityCrypto.plainCrypto simpleURLs_lawful byID_sorts).1 _ _ mixedFronts_normalize
  exact ⟨mixedFronts_normalize, h.2.2.1, h.2.2.2⟩

end OpenRung.Broker
