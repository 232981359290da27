import OpenRung.Theorems.TelemetryBuffer

/-! The hourly counts of applications over any calls of `add` and `prune`. A pair leaves the rollup only with its
    hour, so its total is made of the adds since the hour came. -/

namespace OpenRung.Broker
namespace AppRollup

variable {r : AppRollup} {hour : Time} {key : Time × String}

/-! ### Hours -/

def Held (r : AppRollup) (hour : Time) : Prop := ∃ application v, r.counts.lookup (hour, application) = some v

theorem held_of_mem (h : key ∈ r.counts.keys) : r.Held key.1 := by
  obtain ⟨v, hv⟩ := Option.isSome_iff_exists.mp (AList.lookup_isSome.mpr (AList.mem_keys.mpr h))
  exact ⟨key.2, v, hv⟩

theorem mem_hours : hour ∈ r.counts.keys.map Prod.fst ↔ r.Held hour := by
  rw [List.mem_map]
  constructor
  · rintro ⟨key, hkey, rfl⟩
    exact held_of_mem hkey
  · rintro ⟨application, v, hv⟩
    refine ⟨(hour, application), AList.mem_keys.mp (AList.lookup_isSome.mp ?_), rfl⟩
    rw [hv]
    rfl

theorem oldestBefore_eq_some {oldest : Time} (h : r.oldestBefore hour = some oldest) :
    r.Held oldest ∧ oldest < hour ∧ ∀ other, r.Held other → oldest ≤ other := by
  obtain ⟨hmem, hle⟩ := List.min?_eq_some_iff.mp h
  obtain ⟨hheld, hlt⟩ := List.mem_filter.mp hmem
  have hlt := of_decide_eq_true hlt
  refine ⟨mem_hours.mp hheld, hlt, fun other hother => ?_⟩
  by_cases hbefore : other < hour
  · exact hle other (List.mem_filter.mpr ⟨mem_hours.mpr hother, decide_eq_true hbefore⟩)
  · exact (hlt.trans_le (not_lt.mp hbefore)).le

theorem oldestBefore_eq_none (h : r.oldestBefore hour = none) {other : Time} (hother : r.Held other) : hour ≤ other := by
  have hnil := List.min?_eq_none_iff.mp h
  by_contra hlt
  have hmem : other ∈ (r.counts.keys.map Prod.fst).filter fun candidate => decide (candidate < hour) :=
    List.mem_filter.mpr ⟨mem_hours.mpr hother, decide_eq_true (not_le.mp hlt)⟩
  rw [hnil] at hmem
  cases hmem

/-! ### One call -/

theorem lookup_evict_eq (r : AppRollup) (oldest : Time) (key : Time × String) :
    (r.evict oldest).counts.lookup key = if key.1 = oldest then none else r.counts.lookup key := by
  rw [lookup_evict]
  cases r.counts.lookup key with
  | none => simp
  | some v => by_cases h : key.1 = oldest <;> simp [h]

structure Capped (r : AppRollup) : Prop extends Sound r where
  cap : r.entries ≤ maxTelemetryAppRollupEntries

/-- What an add of a new pair finds room in: the rollup itself, or one without its oldest hour. -/
inductive Room (r : AppRollup) (hour : Time) : AppRollup → Prop where
  | spare (h : r.entries < maxTelemetryAppRollupEntries) : Room r hour r
  | evicts {oldest : Time} (hfull : maxTelemetryAppRollupEntries ≤ r.entries) (h : r.oldestBefore hour = some oldest) :
    Room r hour (r.evict oldest)

theorem Capped.evict_lt {oldest : Time} (hr : Capped r) (h : r.oldestBefore hour = some oldest) :
    (r.evict oldest).entries < maxTelemetryAppRollupEntries := by
  have hshort := evict_shorter h
  have hbefore := hr.entries
  have hafter := (hr.toSound.evict oldest).entries
  have hcap := hr.cap
  omega

theorem Capped.makeRoom (hr : Capped r) (hour : Time) :
    (∃ base evicted, r.makeRoom hour = (base, evicted, true) ∧ Room r hour base) ∨
      (r.makeRoom hour = (r, [], false) ∧ maxTelemetryAppRollupEntries ≤ r.entries ∧ r.oldestBefore hour = none) := by
  rw [AppRollup.makeRoom]
  split
  · rename_i hspare
    exact .inl ⟨r, [], rfl, .spare hspare⟩
  · rename_i hfull
    split
    · rename_i hnone
      exact .inr ⟨rfl, not_lt.mp hfull, hnone⟩
    · rename_i oldest hfound
      rw [AppRollup.makeRoom, if_pos (hr.evict_lt hfound)]
      exact .inl ⟨_, _, rfl, .evicts (not_lt.mp hfull) hfound⟩

inductive Added (r : AppRollup) (key : Time × String) (v : AppCount) : AppRollup × Bool → Prop where
  | ignored (h : key.2 = "" ∨ v.total ≤ 0) : Added r key v (r, true)
  | counted (hkey : key.2 ≠ "") (hv : 0 < v.total) {old : AppCount} (h : r.counts.lookup key = some old) :
    Added r key v ({ r with counts := r.counts.insert key (old + v) }, true)
  | created (hkey : key.2 ≠ "") (hv : 0 < v.total) (h : r.counts.lookup key = none) {base : AppRollup}
      (hroom : Room r key.1 base) :
    Added r key v ({ base with entries := base.entries + 1, counts := base.counts.insert key v }, true)
  | refused (hkey : key.2 ≠ "") (hv : 0 < v.total) (hfull : maxTelemetryAppRollupEntries ≤ r.entries)
      (h : r.oldestBefore key.1 = none) : Added r key v (r, false)

theorem Capped.add (hr : Capped r) (key : Time × String) (v : AppCount) :
    Added r key v ((r.add key.1 key.2 v).1, (r.add key.1 key.2 v).2.2) := by
  unfold AppRollup.add
  split
  · rename_i hignored
    exact .ignored hignored
  · rename_i hcounted
    obtain ⟨hkey, hv⟩ := not_or.mp hcounted
    split
    · rename_i old hfound
      exact .counted hkey (not_le.mp hv) hfound
    · rename_i hnone
      rcases hr.makeRoom key.1 with ⟨base, evicted, heq, hroom⟩ | ⟨heq, hfull, hold⟩
      · rw [heq]
        exact .created hkey (not_le.mp hv) hnone hroom
      · rw [heq]
        exact .refused hkey (not_le.mp hv) hfull hold

/-! ### Counting entries -/

theorem Room.sound {base : AppRollup} (h : Room r hour base) (hr : Capped r) :
    Sound base ∧ base.entries < maxTelemetryAppRollupEntries := by
  cases h with
  | spare h => exact ⟨hr.toSound, h⟩
  | evicts _ h => exact ⟨hr.toSound.evict _, hr.evict_lt h⟩

theorem Room.lookup {base : AppRollup} (h : Room r hour base) (key : Time × String) :
    base.counts.lookup key = r.counts.lookup key ∨
      base.counts.lookup key = none ∧ r.oldestBefore hour = some key.1 ∧ ¬ base.Held key.1 := by
  cases h with
  | spare h => exact .inl rfl
  | @evicts oldest hfull h =>
    by_cases hkey : key.1 = oldest
    · subst hkey
      refine .inr ⟨by rw [lookup_evict_eq, if_pos rfl], h, ?_⟩
      rintro ⟨application, v, hv⟩
      rw [lookup_evict_eq, if_pos rfl] at hv
      cases hv
    · left
      rw [lookup_evict_eq, if_neg hkey]

theorem Capped.empty : Capped {} := ⟨.empty, by decide⟩

theorem lookup_prune (r : AppRollup) (cutoff : Time) (key : Time × String) :
    (r.prune cutoff).counts.lookup key = if truncateHour cutoff ≤ key.1 then r.counts.lookup key else none := by
  show (r.counts.filter _).lookup key = _
  rw [KeyedMap.lookup_filter]
  cases r.counts.lookup key with
  | none => simp
  | some v => by_cases h : truncateHour cutoff ≤ key.1 <;> simp [h]

theorem Capped.prune (hr : Capped r) (cutoff : Time) : Capped (r.prune cutoff) := by
  have hsplit := r.counts.entries.length_eq_length_filter_add fun e => decide (e.1.1 < truncateHour cutoff)
  have hrest : (r.prune cutoff).counts.entries = r.counts.entries.filter fun e => !decide (e.1.1 < truncateHour cutoff) := by
    simp only [AppRollup.prune, KeyedMap.filter, ← decide_not, not_lt]
  have hentries : (r.prune cutoff).entries =
      r.entries - (r.counts.entries.filter fun e => decide (e.1.1 < truncateHour cutoff)).length := rfl
  refine ⟨⟨?_, fun key v hfound => ?_⟩, ?_⟩
  · rw [hrest, hentries, hr.entries, hsplit]
    push_cast
    omega
  · rw [lookup_prune] at hfound
    exact hr.countable key v (Option.ite_none_right_eq_some.mp hfound).2
  · have hcap := hr.cap
    omega

theorem Capped.call (hr : Capped r) (n : Nat) (c : Call) : Capped (r.call n c).1 := by
  cases c with
  | prune cutoff => exact hr.prune cutoff
  | add hour application count =>
    have hadded := hr.add (hour, application) (.one { seq := n, hour, application, count })
    have hcountable (hkey : application ≠ "") (hv : 0 < count) :
        Countable (hour, application) (.one { seq := n, hour, application, count }) :=
      ⟨hkey, hv, fun c hc => by rw [List.mem_singleton.mp hc]⟩
    change Added r _ _ (r.call n (.add hour application count)) at hadded
    generalize r.call n (.add hour application count) = next at hadded
    cases hadded with
    | ignored h => exact hr
    | counted hkey hv h =>
      exact ⟨hr.toSound.insert_some h ((hr.countable _ _ h).add (hcountable hkey hv)), hr.cap⟩
    | created hkey hv h hroom =>
      obtain ⟨hsound, hlt⟩ := hroom.sound hr
      refine ⟨hsound.insert_none ?_ (hcountable hkey hv), Int.add_one_le_of_lt hlt⟩
      rcases hroom.lookup (hour, application) with heq | ⟨heq, -⟩
      · exact heq.trans h
      · exact heq
    | refused hkey hv hfull h => exact hr

/-! ### Totals -/

def partsOf (r : AppRollup) (key : Time × String) : List Contribution := (r.counts.lookup key).elim [] AppCount.parts

def acceptedBy (r : AppRollup) (n : Nat) (key : Time × String) : Call → List Contribution
  | .add hour application count =>
    if (hour, application) = key ∧ application ≠ "" ∧ 0 < count ∧ (r.call n (.add hour application count)).2 = true then
      [{ seq := n, hour, application, count }]
    else []
  | .prune _ => []

theorem Capped.partsOf_call (hr : Capped r) (n : Nat) (c : Call) (hheld : (r.call n c).1.Held key.1) :
    (r.call n c).1.partsOf key = r.partsOf key ++ r.acceptedBy n key c := by
  cases c with
  | prune cutoff =>
    obtain ⟨application, v, hv⟩ := hheld
    change (r.prune cutoff).counts.lookup (key.1, application) = some v at hv
    rw [lookup_prune] at hv
    have hkey := (Option.ite_none_right_eq_some.mp hv).1
    show (r.prune cutoff).partsOf key = _
    rw [acceptedBy, List.append_nil, partsOf, lookup_prune, if_pos hkey, partsOf]
  | add hour application count =>
    have hadded := hr.add (hour, application) (.one { seq := n, hour, application, count })
    change Added r _ _ (r.call n (.add hour application count)) at hadded
    simp only [acceptedBy]
    generalize r.call n (.add hour application count) = next at hadded hheld
    cases hadded with
    | ignored h =>
      rw [if_neg, List.append_nil]
      rintro ⟨-, hkey, hcount, -⟩
      exact h.elim hkey (not_le.mpr hcount)
    | refused hkey hv hfull h =>
      rw [if_neg (by simp), List.append_nil]
    | @counted hkey hv old h =>
      by_cases hsame : (hour, application) = key
      · rw [if_pos ⟨hsame, hkey, hv, rfl⟩, partsOf, partsOf, KeyedMap.lookup_insert_eq, if_pos hsame.symm, ← hsame, h]
        rfl
      · rw [if_neg (fun h => hsame h.1), List.append_nil, partsOf, partsOf, KeyedMap.lookup_insert_eq,
          if_neg (Ne.symm hsame)]
    | @created hkey hv h base hroom =>
      by_cases hsame : (hour, application) = key
      · rw [if_pos ⟨hsame, hkey, hv, rfl⟩, partsOf, partsOf, KeyedMap.lookup_insert_eq, if_pos hsame.symm, ← hsame, h]
        rfl
      · rw [if_neg (fun h => hsame h.1), List.append_nil, partsOf, partsOf, KeyedMap.lookup_insert_eq,
          if_neg (Ne.symm hsame)]
        rcases hroom.lookup key with heq | ⟨-, hold, hgone⟩
        · rw [heq]
        · -- the evicted hour is older than the hour of the add, so it is not there afterwards
          obtain ⟨application', v', hv'⟩ := hheld
          have hother : (key.1, application') ≠ (hour, application) := by
            intro heq
            have hlt := (oldestBefore_eq_some hold).2.1
            exact absurd hlt (by rw [(Prod.mk.inj heq).1]; exact lt_irrefl _)
          rw [KeyedMap.lookup_insert_eq, if_neg hother] at hv'
          exact absurd ⟨application', v', hv'⟩ hgone

/-! ### Runs -/

theorem after_snoc (calls : List Call) (c : Call) : after (calls ++ [c]) = ((after calls).call calls.length c).1 := by
  simp [after, List.zipIdx_append]

theorem capped_after (calls : List Call) : Capped (after calls) := by
  induction calls using List.reverseRecOn with
  | nil => exact .empty
  | append_singleton calls c ih =>
    rw [after_snoc]
    exact ih.call _ c

def acceptedSince (calls : List Call) (start : Nat) (key : Time × String) : List Contribution :=
  calls.zipIdx.flatMap fun next =>
    if start ≤ next.2 then (after (calls.take next.2)).acceptedBy next.2 key next.1 else []

theorem acceptedSince_snoc {calls : List Call} {start : Nat} (h : start ≤ calls.length) (c : Call) (key : Time × String) :
    acceptedSince (calls ++ [c]) start key =
      acceptedSince calls start key ++ (after calls).acceptedBy calls.length key c := by
  have hpast : ∀ next ∈ calls.zipIdx, (calls ++ [c]).take next.2 = calls.take next.2 := by
    intro next hnext
    exact List.take_append_of_le_length (List.snd_lt_of_mem_zipIdx hnext).le
  unfold acceptedSince
  rw [List.zipIdx_append, List.flatMap_append]
  congr 1
  · exact List.flatMap_congr fun next hnext => by rw [hpast next hnext]
  · simp [h]

theorem acceptedSince_length (calls : List Call) (key : Time × String) : acceptedSince calls calls.length key = [] := by
  rw [acceptedSince, List.flatMap_eq_nil_iff]
  intro next hnext
  have hlt := List.snd_lt_of_mem_zipIdx hnext
  rw [if_neg (by simpa using hlt)]

structure Created (calls : List Call) (hour : Time) (start : Nat) : Prop where
  inside : start < calls.length
  absent : ¬ (after (calls.take start)).Held hour
  held : ∀ n, start < n → n ≤ calls.length → (after (calls.take n)).Held hour

theorem Created.snoc {calls : List Call} {start : Nat} (h : Created calls hour start) {c : Call}
    (hheld : (after (calls ++ [c])).Held hour) : Created (calls ++ [c]) hour start := by
  have hin := h.inside
  refine ⟨by simp; omega, ?_, fun n hlt hle => ?_⟩
  · rw [List.take_append_of_le_length hin.le]
    exact h.absent
  · by_cases hn : n ≤ calls.length
    · rw [List.take_append_of_le_length hn]
      exact h.held n hlt hn
    · rw [List.take_of_length_le (by simpa using by omega)]
      exact hheld

theorem created_last {calls : List Call} {c : Call} (habsent : ¬ (after calls).Held hour)
    (hheld : (after (calls ++ [c])).Held hour) : Created (calls ++ [c]) hour calls.length := by
  refine ⟨by simp, by simpa using habsent, fun n hlt hle => ?_⟩
  rw [List.take_of_length_le (by simp; omega)]
  exact hheld

theorem totals_after (calls : List Call) (hheld : (after calls).Held hour) :
    ∃ start, Created calls hour start ∧
      ∀ application, (after calls).partsOf (hour, application) = acceptedSince calls start (hour, application) := by
  induction calls using List.reverseRecOn with
  | nil =>
    obtain ⟨application, v, hv⟩ := hheld
    cases hv
  | append_singleton calls c ih =>
    have hcall (application : String) := by
      have hheld' := hheld
      rw [after_snoc] at hheld'
      exact @Capped.partsOf_call _ (hour, application) (capped_after calls) _ c hheld'
    by_cases hbefore : (after calls).Held hour
    · obtain ⟨start, hcreated, hparts⟩ := ih hbefore
      refine ⟨start, hcreated.snoc hheld, fun application => ?_⟩
      rw [after_snoc, hcall, hparts, acceptedSince_snoc hcreated.inside.le]
    · refine ⟨calls.length, created_last hbefore hheld, fun application => ?_⟩
      have hnone : (after calls).counts.lookup (hour, application) = none := by
        by_contra hsome
        obtain ⟨v, hv⟩ := Option.ne_none_iff_exists'.mp hsome
        exact hbefore ⟨application, v, hv⟩
      rw [after_snoc, hcall, acceptedSince_snoc le_rfl, acceptedSince_length, partsOf, hnone]
      rfl

/-- `apps[application] += count` for each add, in 64 bits. -/
def int64Total (parts : List Contribution) : Int := parts.foldl (fun total c => (total + c.count).bmod (2 ^ 64)) 0

theorem int64Total_eq (parts : List Contribution) :
    int64Total parts = ((parts.map Contribution.count).sum).bmod (2 ^ 64) := by
  induction parts using List.reverseRecOn with
  | nil => rfl
  | append_singleton parts c ih =>
    rw [int64Total, List.foldl_append, List.foldl_cons, List.foldl_nil, ← int64Total, ih, Int.bmod_add_bmod]
    simp

/-- The entries are counted and within the cap; an add evicts at most the oldest hour, and only for a newer one at the
    cap; and the total of a pair is the sum of its accepted adds since its hour was last created. -/
theorem rollup_exact (calls : List Call) :
    let r := after calls
    (r.entries = r.counts.entries.length ∧ r.entries ≤ maxTelemetryAppRollupEntries) ∧
    (∀ hour application count,
      let added := r.call calls.length (.add hour application count)
      ((application = "" ∨ count ≤ 0) → added = (r, true)) ∧
      (added.2 = false → added.1 = r ∧ ∀ other, r.Held other → hour ≤ other) ∧
      ((∀ key, key ≠ (hour, application) → added.1.counts.lookup key = r.counts.lookup key) ∨
        ∃ oldest, r.Held oldest ∧ (∀ other, r.Held other → oldest ≤ other) ∧ oldest < hour ∧
          r.entries = maxTelemetryAppRollupEntries ∧
          ∀ key, key ≠ (hour, application) →
            added.1.counts.lookup key = if key.1 = oldest then none else r.counts.lookup key)) ∧
    ∀ key v, r.counts.lookup key = some v → ∃ start, Created calls key.1 start ∧
      v.total = ((acceptedSince calls start key).map Contribution.count).sum ∧
      int64Total (acceptedSince calls start key) = v.total.bmod (2 ^ 64) := by
  intro r
  have hr : Capped r := capped_after calls
  refine ⟨⟨hr.entries, hr.cap⟩, ?_, ?_⟩
  · intro hour application count added
    have hadded := hr.add (hour, application) (.one { seq := calls.length, hour, application, count })
    change Added r _ _ added at hadded
    generalize added = next at hadded
    cases hadded with
    | ignored h => exact ⟨fun _ => rfl, (fun h => by cases h), .inl fun key _ => rfl⟩
    | @counted hkey hv old h =>
      refine ⟨fun hnot => absurd hnot (not_or.mpr ⟨hkey, not_le.mpr hv⟩), (fun h => by cases h), .inl fun key hne => ?_⟩
      rw [KeyedMap.lookup_insert_eq, if_neg hne]
    | @created hkey hv h base hroom =>
      refine ⟨fun hnot => absurd hnot (not_or.mpr ⟨hkey, not_le.mpr hv⟩), (fun h => by cases h), ?_⟩
      cases hroom with
      | spare hspare =>
        refine .inl fun key hne => ?_
        rw [KeyedMap.lookup_insert_eq, if_neg hne]
      | @evicts oldest hfull hold =>
        obtain ⟨hheld, hlt, hle⟩ := oldestBefore_eq_some hold
        refine .inr ⟨oldest, hheld, hle, hlt, le_antisymm hr.cap hfull, fun key hne => ?_⟩
        rw [KeyedMap.lookup_insert_eq, if_neg hne, lookup_evict_eq]
    | refused hkey hv hfull h =>
      exact ⟨fun hnot => absurd hnot (not_or.mpr ⟨hkey, not_le.mpr hv⟩), fun _ => ⟨rfl, fun other => oldestBefore_eq_none h⟩,
        .inl fun key _ => rfl⟩
  · intro key v hv
    obtain ⟨start, hcreated, hparts⟩ := totals_after calls (show (after calls).Held key.1 from ⟨key.2, v, hv⟩)
    have hown : v.parts = acceptedSince calls start key := by
      rw [← hparts key.2, partsOf, show (after calls).counts.lookup (key.1, key.2) = some v from hv]
      rfl
    refine ⟨start, hcreated, ?_, ?_⟩
    · rw [v.sums, hown]
    · rw [int64Total_eq, ← hown, v.sums]

end AppRollup
end OpenRung.Broker
