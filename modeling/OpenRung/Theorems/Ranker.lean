import OpenRung.Lib.Slots
import OpenRung.Lib.Sorting
import OpenRung.Engine.Ranker

/-! The latency ranking as an order of positions. Whatever the order in which the probes write, each slot ends as its own
    candidate with what its own probe measured; the sorted ladder is then the list of positions in the order of `place`. -/

namespace OpenRung.Ladder.Ranker
variable {head cands : List RelayDescriptor} {outcome : Nat → Option Int} {schedule : List Nat}

/-! ### The probes -/

def phaseAfter : Nat → ProbePhase
  | 0 => .spawned
  | 1 => .written
  | _ + 2 => .done

def slotAfter (cand : RelayDescriptor) (measured : Option Int) : Nat → RankedRelay
  | 0 => { relay := { id := "", publicPort := 0 } }
  | 1 => { relay := cand }
  | _ + 2 => { relay := cand, probeMS := measured }

structure Fanout.After (head : List RelayDescriptor) (outcome : Nat → Option Int) (schedule : List Nat) (s : Fanout) :
    Prop where
  phases : ∀ i, s.phases[i]? = head[i]?.map fun _ => phaseAfter (schedule.count i)
  probed : ∀ i, s.probed[i]? = head[i]?.map fun cand => slotAfter cand (outcome i) (schedule.count i)

theorem Fanout.After.start : Fanout.After head outcome [] (.start head) where
  phases i := by rw [Fanout.start, List.getElem?_map, List.count_nil, phaseAfter]
  probed i := by simp only [Fanout.start, List.getElem?_map, List.count_nil, slotAfter]

theorem Fanout.step_eq {s : Fanout} {i n : Nat} {cand : RelayDescriptor} (hl : head[i]? = some cand)
    (hph : s.phases[i]? = some (phaseAfter n)) (hs : s.probed[i]? = some (slotAfter cand (outcome i) n)) :
    s.step head outcome i =
      { probed := s.probed.set i (slotAfter cand (outcome i) (n + 1)), phases := s.phases.set i (phaseAfter (n + 1)) } := by
  match n with
  | 0 => simp only [step, hph, hl, phaseAfter, slotAfter]
  | 1 =>
    simp only [step, hph, phaseAfter, slotAfter] at hs ⊢
    cases hme : outcome i with
    | none => rw [List.set_eq_self hs]
    | some ms =>
      simp only [List.modify_eq_set_getElem?, hs]
      rfl
  | n + 2 =>
    -- The goroutine has returned.
    rw [phaseAfter] at hph
    rw [slotAfter] at hs
    rw [phaseAfter, slotAfter, List.set_eq_self hs, List.set_eq_self hph]
    simp only [step, hph]

theorem getElem?_set_entry {α β : Type} {l : List α} {keys : List β} {value : Nat → β → α} {i : Nat} {key : β}
    (hb : ∀ k, l[k]? = keys[k]?.map (value k)) (hl : keys[i]? = some key) (value' : Nat → β → α)
    (hot : ∀ k, k ≠ i → value' k = value k) (k : Nat) :
    (l.set i (value' i key))[k]? = keys[k]?.map (value' k) := by
  have hth : i < l.length := by
    have hf := hb i
    rw [hl] at hf
    exact (List.getElem?_eq_some_iff.mp hf).1
  by_cases hh : k = i
  · rw [hh, List.getElem?_set_self hth, hl, Option.map_some]
  · rw [List.getElem?_set_ne (Ne.symm hh), hb k, hot k hh]

theorem Fanout.After.step {s : Fanout} (ha : Fanout.After head outcome schedule s) (i : Nat) :
    Fanout.After head outcome (schedule ++ [i]) (s.step head outcome i) := by
  have own : (schedule ++ [i]).count i = schedule.count i + 1 := by simp
  have ho : ∀ k, k ≠ i → (schedule ++ [i]).count k = schedule.count k := by
    intro k hap
    simp [List.count_append, Ne.symm hap]
  have hph := ha.phases i
  have hs := ha.probed i
  cases hl : head[i]? with
  | none =>
    -- There is no such goroutine.
    have hid : s.step head outcome i = s := by
      rw [hl, Option.map_none] at hph
      simp only [Fanout.step, hph]
    rw [hid]
    have hsa : ∀ k, head[k]? ≠ none → (schedule ++ [i]).count k = schedule.count k := by
      intro k hf
      exact ho k fun hh => hf (hh ▸ hl)
    refine ⟨fun k => ?_, fun k => ?_⟩
    · rw [ha.phases k]
      cases hf : head[k]? with
      | none => rfl
      | some cand => rw [hsa k (by simp [hf])]
    · rw [ha.probed k]
      cases hf : head[k]? with
      | none => rfl
      | some cand => rw [hsa k (by simp [hf])]
  | some cand =>
    rw [hl, Option.map_some] at hph hs
    rw [Fanout.step_eq hl hph hs, ← own]
    constructor
    · refine getElem?_set_entry ha.phases hl (fun k _ => phaseAfter ((schedule ++ [i]).count k)) fun k hap => ?_
      simp only [ho k hap]
    · refine getElem?_set_entry ha.probed hl
        (fun k cand => slotAfter cand (outcome k) ((schedule ++ [i]).count k)) fun k hap => ?_
      simp only [ho k hap]

theorem Fanout.After.run (head : List RelayDescriptor) (outcome : Nat → Option Int) (schedule : List Nat) :
    Fanout.After head outcome schedule (schedule.foldl (Fanout.step head outcome) (.start head)) := by
  induction schedule using List.reverseRecOn with
  | nil => exact .start
  | append_singleton schedule i ih =>
    rw [List.foldl_append]
    exact ih.step i

def measuredHead (head : List RelayDescriptor) (outcome : Nat → Option Int) : List RankedRelay :=
  head.zipIdx.map fun entry => { relay := entry.1, probeMS := outcome entry.2 }

theorem probeAll_eq (hfr : ∀ i < head.length, 2 ≤ schedule.count i) :
    probeAll head outcome schedule = some (measuredHead head outcome) := by
  have ha := Fanout.After.run head outcome schedule
  generalize eq : schedule.foldl (Fanout.step head outcome) (.start head) = s at ha
  have ht : ∀ i cand, head[i]? = some cand → ∃ n, schedule.count i = n + 2 := by
    intro i cand hl
    exact Nat.exists_eq_add_of_le' (hfr i (List.getElem?_eq_some_iff.mp hl).1)
  have hfi : s.phases.all (· = .done) = true := by
    rw [List.all_eq_true]
    intro phase mem
    obtain ⟨i, hf⟩ := List.getElem?_of_mem mem
    rw [ha.phases i, Option.map_eq_some_iff] at hf
    obtain ⟨cand, hl, rfl⟩ := hf
    obtain ⟨n, hst⟩ := ht i cand hl
    rw [hst, phaseAfter, decide_eq_true_eq]
  have hsl : s.probed = measuredHead head outcome := by
    refine List.ext_getElem? fun i => ?_
    rw [ha.probed i, measuredHead, List.getElem?_map, List.getElem?_zipIdx]
    cases hl : head[i]? with
    | none => rfl
    | some cand =>
      obtain ⟨n, hst⟩ := ht i cand hl
      simp [hst, slotAfter]
  simp only [probeAll, eq, hfi, if_true, hsl]

/-! ### The order of positions -/

/-- Where the candidate at a position belongs: the reached ones by bucket and position, then the failed ones, then those that
    were not probed. -/
def place (maxProbes : Nat) (bucketMS : Int) (outcome : Nat → Option Int) (i : Nat) : Nat ×ₗ Int ×ₗ Nat :=
  if maxProbes ≤ i then toLex (2, toLex (0, i))
  else
    match outcome i with
    | some ms => toLex (0, toLex (ms.tdiv bucketMS, i))
    | none => toLex (1, toLex (0, i))

def entryAt (cands : List RelayDescriptor) (maxProbes : Nat) (outcome : Nat → Option Int) (i : Nat) : Option RankedRelay :=
  cands[i]?.map fun cand => { relay := cand, probeMS := if i < maxProbes then outcome i else none }

theorem latencyAt_measuredHead {i : Nat} (hp : i < head.length) :
    latencyAt (measuredHead head outcome) i = outcome i := by
  simp [latencyAt, measuredHead, hp]

def bucketAndPosition (probed : List RankedRelay) (bucketMS : Int) (i : Nat) : Int ×ₗ Nat :=
  toLex (((latencyAt probed i).getD 0).tdiv bucketMS, i)

theorem reachedBefore_iff {probed : List RankedRelay} {bucketMS : Int} (a b : Nat) :
    reachedBefore probed bucketMS a b = true ↔
      bucketAndPosition probed bucketMS a < bucketAndPosition probed bucketMS b := by
  simp only [reachedBefore, bucketAndPosition, Prod.Lex.toLex_lt_toLex]
  split
  next hap => simp [hap]
  next hsa => simp [not_not.mp hsa]

theorem bucketAndPosition_injective (probed : List RankedRelay) (bucketMS : Int) (a b : Nat)
    (hsa : bucketAndPosition probed bucketMS a = bucketAndPosition probed bucketMS b) : a = b :=
  congrArg (fun pair => (ofLex pair).2) hsa

def ladderPositions (cands : List RelayDescriptor) (maxProbes : Nat) (bucketMS : Int) (outcome : Nat → Option Int) :
    List Nat :=
  let n := min maxProbes cands.length
  (((List.range n).filter fun i => (outcome i).isSome).mergeSort fun a b =>
      !reachedBefore (measuredHead (cands.take maxProbes) outcome) bucketMS b a) ++
    ((List.range n).filter fun i => (outcome i).isNone) ++ (List.range cands.length).drop maxProbes

theorem ladderPositions_perm (cands : List RelayDescriptor) (maxProbes : Nat) (bucketMS : Int)
    (outcome : Nat → Option Int) :
    (ladderPositions cands maxProbes bucketMS outcome).Perm (List.range cands.length) := by
  have hsp := List.filter_append_perm (fun i => (outcome i).isSome) (List.range (min maxProbes cands.length))
  have hw := List.take_append_drop maxProbes (List.range cands.length)
  rw [List.take_range] at hw
  simp only [Option.not_isSome] at hsp
  rw [ladderPositions]
  conv_rhs => rw [← hw]
  exact (((List.mergeSort_perm _ _).append_right _).trans hsp).append_right _

theorem ladderPositions_sorted (cands : List RelayDescriptor) (maxProbes : Nat) (bucketMS : Int)
    (outcome : Nat → Option Int) : (ladderPositions cands maxProbes bucketMS outcome).Pairwise
      fun i j => place maxProbes bucketMS outcome i < place maxProbes bucketMS outcome j := by
  have hr : ∀ i ∈ (List.range (min maxProbes cands.length)).filter fun i => (outcome i).isSome,
      place maxProbes bucketMS outcome i =
        toLex (0, bucketAndPosition (measuredHead (cands.take maxProbes) outcome) bucketMS i) := by
    intro i mem
    obtain ⟨hp, hsm⟩ := List.mem_filter.mp mem
    rw [List.mem_range] at hp
    obtain ⟨ms, hme⟩ := Option.isSome_iff_exists.mp hsm
    rw [place, if_neg (by lia), hme, bucketAndPosition, latencyAt_measuredHead (by simp; lia), hme,
      Option.getD_some]
  have hfa : ∀ i ∈ (List.range (min maxProbes cands.length)).filter fun i => (outcome i).isNone,
      place maxProbes bucketMS outcome i = toLex (1, toLex (0, i)) := by
    intro i mem
    obtain ⟨hp, hn⟩ := List.mem_filter.mp mem
    rw [List.mem_range] at hp
    rw [place, if_neg (by lia), Option.isNone_iff_eq_none.mp hn]
  have hu : ∀ i ∈ (List.range cands.length).drop maxProbes,
      place maxProbes bucketMS outcome i = toLex (2, toLex (0, i)) := by
    intro i mem
    obtain ⟨k, hf⟩ := List.getElem?_of_mem mem
    rw [List.getElem?_drop] at hf
    obtain ⟨-, rfl⟩ := List.getElem?_eq_some_iff.mp hf
    rw [List.getElem_range, place, if_pos (by lia)]
  have hi : ∀ {n : Nat} {l : List Nat}, l.Sublist (List.range n) → l.Pairwise (· < ·) :=
    fun sub => List.pairwise_lt_range.sublist sub
  have hd : ((List.range (min maxProbes cands.length)).filter fun i => (outcome i).isSome).Nodup :=
    List.nodup_range.filter _
  have hso := List.pairwise_lt_mergeSort_key (bucketAndPosition (measuredHead (cands.take maxProbes) outcome) bucketMS)
    reachedBefore_iff (bucketAndPosition_injective _ _) hd
  rw [ladderPositions, List.pairwise_append, List.pairwise_append]
  refine ⟨⟨?_, ?_, ?_⟩, ?_, ?_⟩
  · refine hso.imp_of_mem fun {i j} mem hm hle => ?_
    rw [hr i (List.mem_mergeSort.mp mem), hr j (List.mem_mergeSort.mp hm), Prod.Lex.toLex_lt_toLex]
    exact .inr ⟨rfl, hle⟩
  · refine (hi List.filter_sublist).imp_of_mem fun {i j} mem hm hle => ?_
    rw [hfa i mem, hfa j hm]
    simpa [Prod.Lex.toLex_lt_toLex] using hle
  · intro i mem j hm
    rw [hr i (List.mem_mergeSort.mp mem), hfa j hm, Prod.Lex.toLex_lt_toLex]
    exact .inl Nat.zero_lt_one
  · refine (hi (List.drop_sublist _ _)).imp_of_mem fun {i j} mem hm hle => ?_
    rw [hu i mem, hu j hm]
    simpa [Prod.Lex.toLex_lt_toLex] using hle
  · intro i mem j hm
    rw [hu j hm]
    rcases List.mem_append.mp mem with mem | mem
    · rw [hr i (List.mem_mergeSort.mp mem), Prod.Lex.toLex_lt_toLex]
      exact .inl Nat.zero_lt_two
    · rw [hfa i mem, Prod.Lex.toLex_lt_toLex]
      exact .inl Nat.one_lt_two

/-! ### The ranked ladder -/

theorem entryAt_probed {maxProbes i : Nat} (outcome : Nat → Option Int) (hp : i ∈ List.range (min maxProbes cands.length)) :
    ∃ cand, entryAt cands maxProbes outcome i = some { relay := cand, probeMS := outcome i } ∧
      (measuredHead (cands.take maxProbes) outcome)[i]? = some { relay := cand, probeMS := outcome i } := by
  rw [List.mem_range] at hp
  have hl : i < cands.length := by lia
  have hea : i < maxProbes := by lia
  exact ⟨cands[i], by simp [entryAt, hl, hea], by simp [measuredHead, hl, hea]⟩

theorem map_some_measuredHead (cands : List RelayDescriptor) (maxProbes : Nat) (outcome : Nat → Option Int) :
    (measuredHead (cands.take maxProbes) outcome).map some =
      (List.range (min maxProbes cands.length)).map (entryAt cands maxProbes outcome) := by
  refine List.ext_getElem? fun i => ?_
  by_cases hp : i < min maxProbes cands.length
  · obtain ⟨cand, hen, hs⟩ := entryAt_probed outcome (List.mem_range.mpr hp)
    rw [List.getElem?_map, List.getElem?_map, hs, List.getElem?_range hp, Option.map_some, Option.map_some, hen]
  · rw [List.getElem?_eq_none (by simp [measuredHead]; lia), List.getElem?_eq_none (by simp; lia)]

theorem map_some_unranked_drop (cands : List RelayDescriptor) (maxProbes : Nat) (outcome : Nat → Option Int) :
    (unranked (cands.drop maxProbes)).map some =
      ((List.range cands.length).drop maxProbes).map (entryAt cands maxProbes outcome) := by
  refine List.ext_getElem? fun i => ?_
  by_cases hl : maxProbes + i < cands.length
  · simp [unranked, entryAt, hl]
  · rw [List.getElem?_eq_none (by simp [unranked]; lia), List.getElem?_eq_none (by simp; lia)]

theorem map_some_filterMap {α : Type} {f g : Nat → Option α} {l : List Nat} (found : ∀ i ∈ l, f i = g i ∧ (g i).isSome) :
    (l.filterMap f).map some = l.map g := by
  induction l with
  | nil => rfl
  | cons i l ih =>
    obtain ⟨same, some⟩ := found i List.mem_cons_self
    obtain ⟨x, eq⟩ := Option.isSome_iff_exists.mp some
    rw [List.filterMap_cons, same, eq]
    simp [eq, ih fun j mem => found j (List.mem_cons_of_mem _ mem)]

theorem map_some_filter {α : Type} (p : α → Bool) (l : List α) :
    (l.filter p).map some = (l.map some).filter fun x => x.all p := by
  rw [List.filter_map]
  rfl

def bucketSize (bucketMS : Int) : Int := if bucketMS < 1 then 1 else bucketMS

def Completes (maxProbes : Nat) (cands : List RelayDescriptor) (schedule : List Nat) : Prop :=
  ∀ i < min maxProbes cands.length, 2 ≤ schedule.count i

instance (maxProbes : Nat) (cands : List RelayDescriptor) (schedule : List Nat) :
    Decidable (Completes maxProbes cands schedule) := inferInstanceAs (Decidable (∀ i < _, _))

theorem rankByTCPLatency_positions {maxProbes : Nat} (outcome : Nat → Option Int) (bucketMS : Int) (several : 2 ≤ cands.length)
    (completes : Completes maxProbes cands schedule) :
    ∃ out, rankByTCPLatency cands maxProbes bucketMS outcome schedule = some out ∧
      out.map some = (ladderPositions cands maxProbes (bucketSize bucketMS) outcome).map
        (entryAt cands maxProbes outcome) := by
  have slots : probeAll (cands.take maxProbes) outcome schedule = some (measuredHead (cands.take maxProbes) outcome) :=
    probeAll_eq (by simpa [Completes] using completes)
  have split : (if maxProbes < cands.length then (cands.take maxProbes, cands.drop maxProbes) else (cands, [])) =
      (cands.take maxProbes, cands.drop maxProbes) := by
    split
    · rfl
    · rw [List.take_of_length_le (by lia), List.drop_eq_nil_of_le (by lia)]
  have probedAt : ∀ i ∈ List.range (min maxProbes cands.length), i < (cands.take maxProbes).length := by simp
  have order : ((List.range (measuredHead (cands.take maxProbes) outcome).length).filter fun i =>
      (latencyAt (measuredHead (cands.take maxProbes) outcome) i).isSome) =
        (List.range (min maxProbes cands.length)).filter fun i => (outcome i).isSome := by
    have length : (measuredHead (cands.take maxProbes) outcome).length = min maxProbes cands.length := by
      simp [measuredHead]
    rw [length]
    exact List.filter_congr fun i mem => by rw [latencyAt_measuredHead (probedAt i mem)]
  simp only [rankByTCPLatency, if_neg (not_lt.mpr several), split, slots, Option.map_some, order, ladderPositions,
    List.map_append, bucketSize]
  refine ⟨_, rfl, ?_⟩
  rw [List.map_append, List.map_append, map_some_unranked_drop cands maxProbes outcome]
  congr 1
  congr 1
  · refine map_some_filterMap fun i mem => ?_
    obtain ⟨cand, entry, slot⟩ := entryAt_probed outcome (List.mem_of_mem_filter (List.mem_mergeSort.mp mem))
    exact ⟨slot.trans entry.symm, by rw [entry, Option.isSome_some]⟩
  · rw [map_some_filter, map_some_measuredHead, List.filter_map]
    refine congrArg (List.map _) (List.filter_congr fun i mem => ?_)
    obtain ⟨cand, entry, -⟩ := entryAt_probed outcome mem
    rw [Function.comp_apply, entry, Option.all_some]

theorem ladderPositions_few {maxProbes : Nat} {bucketMS : Int} (few : cands.length < 2) :
    ladderPositions cands maxProbes bucketMS outcome = List.range cands.length := by
  have hpe := ladderPositions_perm cands maxProbes bucketMS outcome
  have hln : cands.length = 0 ∨ cands.length = 1 := by lia
  rcases hln with hn | one
  · rw [hn] at hpe ⊢
    exact List.perm_nil.mp hpe
  · rw [one] at hpe ⊢
    exact List.perm_singleton.mp hpe

theorem map_getElem?_range {α : Type} (l : List α) : (List.range l.length).map (l[·]?) = l.map some := by
  refine List.ext_getElem? fun i => ?_
  by_cases hl : i < l.length
  · simp [hl]
  · rw [List.getElem?_eq_none (by simp; lia), List.getElem?_eq_none (by simp; lia)]

theorem rankByTCPLatency_relays {maxProbes : Nat} (outcome : Nat → Option Int) (bucketMS : Int)
    (hc : Completes maxProbes cands schedule) :
    ∃ out, rankByTCPLatency cands maxProbes bucketMS outcome schedule = some out ∧
      (out.map fun r => some r.relay) =
        (ladderPositions cands maxProbes (bucketSize bucketMS) outcome).map (cands[·]?) := by
  by_cases hse : 2 ≤ cands.length
  · obtain ⟨out, eq, he⟩ := rankByTCPLatency_positions outcome bucketMS hse hc
    refine ⟨out, eq, ?_⟩
    have hrl := congrArg (List.map (Option.map RankedRelay.relay)) he
    rw [List.map_map, List.map_map] at hrl
    refine hrl.trans (List.map_congr_left fun i _ => ?_)
    rw [Function.comp_apply, entryAt, Option.map_map]
    exact Option.map_id'
  · have few : cands.length < 2 := by lia
    refine ⟨unranked cands, by rw [rankByTCPLatency, if_pos few], ?_⟩
    rw [ladderPositions_few few, map_getElem?_range, unranked, List.map_map]
    rfl

theorem perm_of_positions {α β : Type} {l : List α} {out : List β} {f : β → α} {positions : List Nat}
    (hpe : positions.Perm (List.range l.length)) (hre : (out.map fun r => some (f r)) = positions.map (l[·]?)) :
    (out.map f).Perm l := by
  have all := (hpe.map (l[·]?)).trans (.of_eq (map_getElem?_range l))
  rw [← hre, ← Function.comp_def, ← List.map_map] at all
  exact (List.map_perm_map_iff (Option.some_injective α)).mp all

/-! ### Demotion -/

theorem demoteRelay_perm (cands : List RelayDescriptor) (id : String) : (demoteRelay cands id).Perm cands := by
  have hsp := List.filter_append_perm (fun cand : RelayDescriptor => decide (cand.id ≠ id)) cands
  simpa [demoteRelay] using hsp

theorem demoteRelay_others (cands : List RelayDescriptor) (id : String) :
    (demoteRelay cands id).filter (fun cand => cand.id ≠ id) = cands.filter fun cand => cand.id ≠ id := by
  simp [demoteRelay, List.filter_filter]

theorem relay_unranked (cands : List RelayDescriptor) : (unranked cands).map (·.relay) = cands := by
  rw [unranked, List.map_map]
  exact List.map_id' cands

theorem rankLadder_perm (identity : Bool)
    (hc : Completes relayRankMaxProbes cands schedule) :
    ∃ ladder, rankLadder identity cands outcome schedule = some ladder ∧ (ladder.map (·.relay)).Perm cands := by
  rw [rankLadder]
  split
  · exact ⟨unranked cands, rfl, by rw [relay_unranked]⟩
  · obtain ⟨out, eq, hre⟩ := rankByTCPLatency_relays outcome relayRankBucketMS hc
    exact ⟨out, eq, perm_of_positions (ladderPositions_perm _ _ _ _) hre⟩

/-! ### The ranking as the passes use it -/

section Agrees
variable (cands : List RelayDescriptor) (probe : Nat → Option Nat)

def passOutcome (i : Nat) : Option Int := (probe i).map Int.ofNat

def bucketOf (e : RelayDescriptor × Nat) : Nat := (probe e.2).getD 0 / relayRankBucketMS

theorem read_head {entries : List (RelayDescriptor × Nat)} (hwi : entries ⊆ (cands.take relayRankMaxProbes).zipIdx) :
    (entries.map Prod.snd).map (cands[·]?) = (entries.map Prod.fst).map some := by
  rw [List.map_map, List.map_map]
  refine List.map_congr_left fun e mem => ?_
  have hl := List.mem_zipIdx_iff_getElem?.mp (hwi mem)
  rw [List.getElem?_take] at hl
  exact (Option.ite_none_right_eq_some.mp hl).2

theorem snd_head : (cands.take relayRankMaxProbes).zipIdx.map Prod.snd =
    List.range (min relayRankMaxProbes cands.length) := by
  rw [List.zipIdx_map_snd, List.length_take, List.range_eq_range']

theorem bucketAndPosition_head {e : RelayDescriptor × Nat} (mem : e ∈ (cands.take relayRankMaxProbes).zipIdx) :
    bucketAndPosition (measuredHead (cands.take relayRankMaxProbes) (passOutcome probe)) relayRankBucketMS e.2 =
      toLex ((bucketOf probe e : Int), e.2) := by
  have hl := List.mem_zipIdx_iff_getElem?.mp mem
  rw [bucketAndPosition, latencyAt_measuredHead (List.getElem?_eq_some_iff.mp hl).1, passOutcome, bucketOf]
  cases probe e.2 with
  | none => rfl
  | some ms => rfl

theorem reached_agrees {entries : List (RelayDescriptor × Nat)}
    (sub : entries.Sublist (cands.take relayRankMaxProbes).zipIdx) :
    (entries.map Prod.snd).mergeSort (fun a b =>
        !reachedBefore (measuredHead (cands.take relayRankMaxProbes) (passOutcome probe)) relayRankBucketMS b a) =
      (entries.mergeSort fun a b => decide (bucketOf probe a ≤ bucketOf probe b)).map Prod.snd := by
  have hi : (entries.map Prod.snd).Pairwise (· < ·) := by
    refine List.Pairwise.sublist (sub.map Prod.snd) ?_
    rw [snd_head]
    exact List.pairwise_lt_range
  have hp := List.mergeSort_perm (entries.map Prod.snd) fun a b =>
    !reachedBefore (measuredHead (cands.take relayRankMaxProbes) (passOutcome probe)) relayRankBucketMS b a
  refine List.Perm.eq_of_pairwise_key _ (hp.trans ((List.mergeSort_perm _ _).map _).symm)
    (List.pairwise_mergeSort_key _ reachedBefore_iff _) (List.pairwise_map.mpr ?_) ?_
  · refine (List.pairwise_mergeSort_stable (bucketOf probe) (fun a b => decide_eq_true_iff) Prod.snd
      ((List.pairwise_map.mp hi).imp le_of_lt)).imp_of_mem fun mem hm hle => ?_
    rw [bucketAndPosition_head cands probe (sub.subset (List.mem_mergeSort.mp mem)),
      bucketAndPosition_head cands probe (sub.subset (List.mem_mergeSort.mp hm))]
    simpa [Prod.Lex.toLex_le_toLex] using hle
  · exact (hp.nodup_iff.mpr (hi.imp ne_of_lt)).map fun a b => bucketAndPosition_injective _ _ a b

/-- The concurrent ranking, however its probes are scheduled, is the one that the model of a pass takes. -/
theorem rankByTCPLatency_agrees (hc : Completes relayRankMaxProbes cands schedule) :
    (rankByTCPLatency cands relayRankMaxProbes relayRankBucketMS (passOutcome probe) schedule).map
      (fun out => out.map (·.relay)) = some (Ladder.rankByTCPLatency probe cands) := by
  obtain ⟨out, eq, hre⟩ := rankByTCPLatency_relays (passOutcome probe) relayRankBucketMS hc
  rw [eq, Option.map_some]
  congr 1
  apply List.map_injective_iff.mpr (Option.some_injective RelayDescriptor)
  rw [List.map_map]
  refine Eq.trans hre ?_
  rw [Ladder.rankByTCPLatency]
  split
  next few => rw [ladderPositions_few few, map_getElem?_range]
  next =>
    have hsi : bucketSize relayRankBucketMS = relayRankBucketMS := rfl
    have hr : ((List.range (min relayRankMaxProbes cands.length)).filter fun i => (passOutcome probe i).isSome) =
        ((cands.take relayRankMaxProbes).zipIdx.filter fun e => (probe e.2).isSome).map Prod.snd := by
      rw [← snd_head, List.filter_map]
      simp only [passOutcome, Function.comp_def, Option.isSome_map]
    have hfa : ((List.range (min relayRankMaxProbes cands.length)).filter fun i => (passOutcome probe i).isNone) =
        ((cands.take relayRankMaxProbes).zipIdx.filter fun e => (probe e.2).isNone).map Prod.snd := by
      rw [← snd_head, List.filter_map]
      simp only [passOutcome, Function.comp_def, Option.isNone_map]
    have hor := List.map_mergeSort
      (r := fun a b : RelayDescriptor × Nat => decide (bucketOf probe a ≤ bucketOf probe b))
      (s := fun a b => decide (a.2.getD 0 / relayRankBucketMS ≤ b.2.getD 0 / relayRankBucketMS))
      (f := fun e : RelayDescriptor × Nat => (e.1, probe e.2))
      (l := (cands.take relayRankMaxProbes).zipIdx.filter fun e => (probe e.2).isSome) fun a _ b _ => rfl
    simp only [ladderPositions, hsi, hr, hfa, List.map_append, List.filter_map, Function.comp_def]
    rw [reached_agrees cands probe List.filter_sublist, ← hor,
      read_head cands fun e mem => List.mem_of_mem_filter (List.mem_mergeSort.mp mem),
      read_head cands List.filter_sublist.subset, List.map_drop, map_getElem?_range]
    simp only [List.map_map, List.map_drop, Function.comp_def]

end Agrees

theorem rankByTCPLatency_agrees_three :
    let cands : List RelayDescriptor := [{ id := "a" }, { id := "b" }, { id := "c" }]
    let probe : Nat → Option Nat := fun i => if i = 0 then none else some (90 / i)
    (rankByTCPLatency cands relayRankMaxProbes relayRankBucketMS (passOutcome probe) [0, 1, 2, 2, 0, 1]).map
      (fun out => out.map (·.relay)) = some (Ladder.rankByTCPLatency probe cands) :=
  rankByTCPLatency_agrees _ _ (by decide)

/-- The latency ranking, for any outcomes and any schedule in which the probes return, and the demotion after it. -/
theorem client_latency_ranking (cands : List RelayDescriptor) (maxProbes : Nat) (bucketMS : Int)
    (outcome : Nat → Option Int) (schedule : List Nat) (completes : Completes maxProbes cands schedule) :
    (∃ (out : List RankedRelay) (positions : List Nat),
      rankByTCPLatency cands maxProbes bucketMS outcome schedule = some out ∧
      positions.Perm (List.range cands.length) ∧ (out.map fun r => some r.relay) = positions.map (cands[·]?) ∧
      (positions.Pairwise fun i j =>
        place maxProbes (bucketSize bucketMS) outcome i < place maxProbes (bucketSize bucketMS) outcome j) ∧
      (out.map (·.relay)).Perm cands) ∧
    ∀ identity schedule' failedRelayID, Completes relayRankMaxProbes cands schedule' →
      ∃ (ladder : List RankedRelay) (walked : List RelayDescriptor),
        rankLadder identity cands outcome schedule' = some ladder ∧
        recoveryCandidates identity cands outcome schedule' failedRelayID = some walked ∧ walked.Perm cands ∧
        walked.filter (·.id ≠ failedRelayID) = (ladder.map (·.relay)).filter (·.id ≠ failedRelayID) ∧
        walked = walked.filter (·.id ≠ failedRelayID) ++ walked.filter (·.id = failedRelayID) := by
  constructor
  · obtain ⟨out, eq, hre⟩ := rankByTCPLatency_relays outcome bucketMS completes
    exact ⟨out, _, eq, ladderPositions_perm _ _ _ _, hre, ladderPositions_sorted _ _ _ _,
      perm_of_positions (ladderPositions_perm _ _ _ _) hre⟩
  · intro identity schedule' failedRelayID hco
    obtain ⟨ladder, eq, hpe⟩ := rankLadder_perm identity hco
    refine ⟨ladder, _, eq, by rw [recoveryCandidates, eq, Option.map_some], (demoteRelay_perm _ _).trans hpe,
      demoteRelay_others _ _, ?_⟩
    simp [demoteRelay, List.filter_filter]

/-- The second probe returns first: the faster candidate leads, the failed one follows, and the one that was not
    probed comes last. -/
theorem client_latency_ranking_three :
    let cands : List RelayDescriptor := [{ id := "a" }, { id := "b" }, { id := "c" }]
    let outcome : Nat → Option Int := fun i => if i = 1 then some 40 else none
    (∃ out, rankByTCPLatency cands 2 30 outcome [0, 1, 1, 0] = some out ∧ (out.map (·.relay)).Perm cands) ∧
      place 2 30 outcome 1 < place 2 30 outcome 0 ∧ place 2 30 outcome 0 < place 2 30 outcome 2 := by
  intro cands outcome
  obtain ⟨⟨out, _, eq, -, -, -, hpe⟩, -⟩ := client_latency_ranking cands 2 30 outcome [0, 1, 1, 0] (by decide)
  exact ⟨⟨out, eq, hpe⟩, by decide, by decide⟩

end OpenRung.Ladder.Ranker
