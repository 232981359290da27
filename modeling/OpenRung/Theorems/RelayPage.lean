import Mathlib.Analysis.SpecialFunctions.Log.Basic
import OpenRung.Lib.Sorting
import OpenRung.Broker.Ranking

/-! The page of the relay list. The sort puts the relays in a linear order in which those with a selection weight of zero
    come last; the reservation replaces at most the last slot of the ranked prefix. -/

namespace OpenRung.Broker

/-! ### The sort keys -/

section Keys
variable {υ κ : Type} {drawKey : υ → ℚ → κ} {weightOf : Descriptor → ℚ} {uniform : Nat → υ} {relays : List Descriptor}

def keyFor (keys : KeyedMap String (WithBot κ)) (desc : Descriptor) : WithBot κ := (keys.lookup desc.id).getD ⊥

theorem rankingKeys_snoc (drawKey : υ → ℚ → κ) (weightOf : Descriptor → ℚ) (uniform : Nat → υ)
    (relays : List Descriptor) (desc : Descriptor) :
    ∃ key : WithBot κ, (rankingKeys drawKey weightOf uniform (relays ++ [desc])).1 =
      (rankingKeys drawKey weightOf uniform relays).1.insert desc.id key ∧ (key = ⊥ ↔ weightOf desc ≤ 0) := by
  simp only [rankingKeys, List.foldl_append, List.foldl_cons, List.foldl_nil]
  split
  next hz => exact ⟨⊥, rfl, by simp [hz]⟩
  next hpo => exact ⟨_, rfl, by simp [hpo]⟩

theorem keyFor_eq_bot_iff (hd : (relays.map (·.id)).Nodup) {desc : Descriptor} (mem : desc ∈ relays) :
    keyFor (rankingKeys drawKey weightOf uniform relays).1 desc = ⊥ ↔ weightOf desc ≤ 0 := by
  induction relays using List.reverseRecOn with
  | nil => cases mem
  | append_singleton relays last ih =>
    obtain ⟨key, hke, hb⟩ := rankingKeys_snoc drawKey weightOf uniform relays last
    rw [List.map_append, List.nodup_append] at hd
    obtain ⟨hd, -, hap⟩ := hd
    rw [keyFor, hke, KeyedMap.lookup_insert_eq]
    rcases List.mem_append.mp mem with mem | mem
    · have hot : desc.id ≠ last.id := hap _ (List.mem_map_of_mem mem) _ (by simp)
      rw [if_neg hot]
      exact ih hd mem
    · rw [List.mem_singleton.mp mem, if_pos rfl]
      exact hb

end Keys

/-! ### The order of the sort -/

section Order
variable {κ : Type} [LinearOrder κ] {keys : KeyedMap String (WithBot κ)}

def rank (keys : KeyedMap String (WithBot κ)) (desc : Descriptor) : (WithBot κ)ᵒᵈ ×ₗ Timeᵒᵈ ×ₗ Bool ×ₗ String :=
  toLex (OrderDual.toDual (keyFor keys desc), toLex (OrderDual.toDual desc.lastHeartbeatAt,
    toLex (!isIPv6Host desc.publicHost, desc.id)))

theorem rankedBefore_iff (left right : Descriptor) :
    rankedBefore keys left right = true ↔ rank keys left < rank keys right := by
  simp only [rank, Prod.Lex.toLex_lt_toLex, OrderDual.toDual_lt_toDual, OrderDual.toDual_inj, rankedBefore, keyFor]
  by_cases hsa : (keys.lookup left.id).getD ⊥ = (keys.lookup right.id).getD ⊥
  · by_cases hsm : left.lastHeartbeatAt = right.lastHeartbeatAt
    · cases isIPv6Host left.publicHost <;> cases isIPv6Host right.publicHost <;> simp [hsa, hsm]
    · simp [hsa, hsm]
  · simp [hsa]

end Order

/-! ### What a list in order keeps in front -/

theorem mem_take_of_pairwise {α : Type} {R : α → α → Prop} {l : List α} (hs : l.Pairwise R) {n : Nat} {x y : α}
    (hfr : x ∈ l.take n) (mem : y ∈ l) (hn : ¬R x y) : y ∈ l.take n := by
  rw [← List.take_append_drop n l] at hs mem
  rcases List.mem_append.mp mem with mem | mem
  · exact mem
  · exact absurd ((List.pairwise_append.mp hs).2.2 x hfr y mem) hn

/-! ### The reservation -/

def Promotable (weights : KeyedMap String StoredWeight) (desc : Descriptor) : Prop :=
  wssRelayEligible desc = true ∧ 0 < rankingWeightFor weights desc.id

/-- How the page comes from the ranked relays: their front, or their front with its last slot given away. -/
inductive Composed (ranked : List Descriptor) (limit : Nat) (weights : KeyedMap String StoredWeight) :
    List Descriptor → Prop
  | front (served : (∃ desc ∈ ranked.take limit, wssRelayEligible desc = true) ∨
      ∀ desc ∈ ranked.drop limit, ¬Promotable weights desc) : Composed ranked limit weights (ranked.take limit)
  | promoted {above below : List Descriptor} {desc : Descriptor} (rest : ranked.drop limit = above ++ desc :: below)
    (first : ∀ other ∈ above, ¬Promotable weights other) (promotable : Promotable weights desc)
    (none : ∀ other ∈ ranked.take limit, wssRelayEligible other = false) :
    Composed ranked limit weights (ranked.take (limit - 1) ++ [desc])

theorem promotable_iff {weights : KeyedMap String StoredWeight} {desc : Descriptor} :
    (wssRelayEligible desc && decide (0 < rankingWeightFor weights desc.id)) = true ↔ Promotable weights desc := by
  rw [Bool.and_eq_true, decide_eq_true_eq, Promotable]

theorem take_set_last {α : Type} {l : List α} {n : Nat} (hpo : 0 < n) (cut : n < l.length) (x : α) :
    (l.take n).set ((l.take n).length - 1) x = l.take (n - 1) ++ [x] := by
  have hl : (l.take n).length = n := List.length_take_of_le cut.le
  rw [hl, List.set_eq_take_append_cons_drop, if_pos (by lia), List.take_take, List.drop_eq_nil_of_le (by lia)]
  congr 2
  lia

theorem reserveWSSCandidate_composed (ranked : List Descriptor) {limit : Int} (weights : KeyedMap String StoredWeight)
    (hpo : 0 < limit) : Composed ranked limit.toNat weights (reserveWSSCandidate ranked limit weights) := by
  have hwh : ranked.length ≤ limit.toNat → Composed ranked limit.toNat weights ranked := by
    intro hsh
    have hfr : Composed ranked limit.toNat weights (ranked.take limit.toNat) :=
      .front (.inr (by simp [List.drop_eq_nil_of_le hsh]))
    rwa [List.take_of_length_le hsh] at hfr
  unfold reserveWSSCandidate
  split
  next hem =>
    obtain rfl := List.length_eq_zero_iff.mp hem
    exact hwh (Nat.zero_le _)
  next =>
    split
    next hsh => exact hwh (by lia)
    next hlo =>
      have cut : limit.toNat < ranked.length := by lia
      simp only
      split
      next hse =>
        exact .front (.inl (List.any_eq_true.mp hse))
      next hu =>
        rw [List.any_eq_true, not_exists] at hu
        split
        next desc hfo =>
          obtain ⟨hp, above, below, hr, hf⟩ := List.find?_eq_some_iff_append.mp hfo
          rw [take_set_last (by lia) cut]
          refine .promoted hr (fun other mem => ?_) (promotable_iff.mp hp) fun other mem => ?_
          · intro hp
            have hpa := hf other mem
            rw [promotable_iff.mpr hp] at hpa
            cases hpa
          · exact Bool.eq_false_iff.mpr fun he => hu other ⟨mem, he⟩
        next hno =>
          refine .front (.inr fun desc mem hp => ?_)
          exact List.find?_eq_none.mp hno desc mem (promotable_iff.mpr hp)

namespace Composed
variable {ranked page : List Descriptor} {limit : Nat} {weights : KeyedMap String StoredWeight}

theorem length_eq (hc : Composed ranked limit weights page) (hpo : 0 < limit) :
    page.length = min limit ranked.length := by
  cases hc with
  | front => exact List.length_take
  | promoted hr =>
    have cut := congrArg List.length hr
    simp only [List.length_drop, List.length_append, List.length_cons] at cut
    simp only [List.length_append, List.length_take, List.length_singleton]
    lia

theorem getElem?_eq (hc : Composed ranked limit weights page) {i : Nat} (hbe : i + 1 ≠ page.length) :
    page[i]? = (ranked.take limit)[i]? := by
  cases hc with
  | front => rfl
  | promoted hr =>
    have cut := congrArg List.length hr
    simp only [List.length_drop, List.length_append, List.length_cons] at cut
    simp only [List.length_append, List.length_take, List.length_singleton] at hbe
    by_cases hk : i < limit - 1
    · rw [List.getElem?_append_left (by simp; lia), List.getElem?_take_of_lt hk, List.getElem?_take_of_lt (by lia)]
    · rw [List.getElem?_eq_none (by simp; lia), List.getElem?_eq_none (by simp; lia)]

theorem sublist (hc : Composed ranked limit weights page) : page.Sublist ranked := by
  cases hc with
  | front => exact List.take_sublist _ _
  | @promoted above below desc hr =>
    have hbh : [desc].Sublist (ranked.drop limit) := by
      rw [hr, List.singleton_sublist]
      simp
    have cut : (ranked.take (limit - 1) ++ ranked.drop limit).Sublist ranked := by
      conv_rhs => rw [← List.take_append_drop limit ranked]
      exact (List.take_prefix_take_left (Nat.sub_le _ _)).sublist.append_right _
    exact ((List.Sublist.refl _).append hbh).trans cut

theorem eligible_iff (hc : Composed ranked limit weights page) :
    (∃ desc ∈ page, wssRelayEligible desc = true) ↔ (∃ desc ∈ ranked.take limit, wssRelayEligible desc = true) ∨
      ∃ desc ∈ ranked.drop limit, Promotable weights desc := by
  cases hc with
  | front hse =>
    refine ⟨.inl, fun hre => ?_⟩
    rcases hre with hre | ⟨desc, mem, hp⟩
    · exact hre
    · rcases hse with hse | hno
      · exact hse
      · exact absurd hp (hno desc mem)
  | @promoted above below desc hr hf hp hno =>
    refine iff_of_true ⟨desc, by simp, hp.1⟩ (.inr ⟨desc, ?_, hp⟩)
    rw [hr]
    simp

theorem best (hc : Composed ranked limit weights page)
    (hno : ∀ desc ∈ ranked.take limit, wssRelayEligible desc = false) {desc : Descriptor} (mem : desc ∈ page)
    (he : wssRelayEligible desc = true) : Promotable weights desc ∧ ∃ above below,
      ranked.drop limit = above ++ desc :: below ∧ ∀ other ∈ above, ¬Promotable weights other := by
  cases hc with
  | front => exact absurd he (by simp [hno desc mem])
  | @promoted above below desc' hr hf hp =>
    rcases List.mem_append.mp mem with mem | mem
    · have hk := List.take_subset_take_left ranked (Nat.sub_le limit 1) mem
      exact absurd he (by simp [hno desc hk])
    · rw [List.mem_singleton.mp mem]
      exact ⟨hp, above, below, hr, hf⟩

theorem before_drained (hc : Composed ranked limit weights page) {R : Descriptor → Descriptor → Prop}
    (hs : ranked.Pairwise R) {drained desc : Descriptor} (ho : drained ∈ page)
    (hz : rankingWeightFor weights drained.id = 0) (mem : desc ∈ ranked) (hn : ¬R drained desc) : desc ∈ page := by
  cases hc with
  | front => exact mem_take_of_pairwise hs ho mem hn
  | promoted hr hf hp =>
    rcases List.mem_append.mp ho with front | hla
    · exact List.mem_append_left _ (mem_take_of_pairwise hs front mem hn)
    · -- The promoted relay is not drained.
      rw [List.mem_singleton.mp hla] at hz
      exact absurd hp.2 (by simp [hz])

end Composed

/-! ### The ranked relays -/

section Ranked
variable {υ κ : Type} [LinearOrder κ] {drawKey : υ → ℚ → κ} {uniform : Nat → υ} {relays : List Descriptor}
  {snapshots : KeyedMap String RelayMetricsSnapshot} {weights : KeyedMap String StoredWeight}

theorem withoutUnreachable_sublist (relays : List Descriptor) (probing : Bool) :
    (withoutUnreachable relays probing).Sublist relays := by
  unfold withoutUnreachable
  split
  · exact .refl _
  · exact List.filter_sublist

theorem withoutUnreachable_perm {relays relays' : List Descriptor} (hpe : relays.Perm relays') (probing : Bool) :
    (withoutUnreachable relays probing).Perm (withoutUnreachable relays' probing) := by
  unfold withoutUnreachable
  split
  · exact hpe
  · exact hpe.filter _

theorem selectionWeightIn_drained {desc : Descriptor} (hz : rankingWeightFor weights desc.id = 0) :
    selectionWeightIn relays snapshots weights desc = 0 := by
  have hcl : clamp01 0 = 0 := rfl
  rw [selectionWeightIn, hz, relaySelectionWeight, hcl, mul_zero]

theorem rank_lt_drained (hd : (relays.map (·.id)).Nodup) {drained desc : Descriptor} (mem : drained ∈ relays)
    (hz : rankingWeightFor weights drained.id = 0) (hm : desc ∈ relays)
    (hpo : 0 < selectionWeightIn relays snapshots weights desc) :
    let keys := (rankingKeys drawKey (selectionWeightIn relays snapshots weights) uniform relays).1
    rank keys desc < rank keys drained := by
  intro keys
  have hb : keyFor keys drained = ⊥ := (keyFor_eq_bot_iff hd mem).mpr (selectionWeightIn_drained hz).le
  have hab : keyFor keys desc ≠ ⊥ := mt (keyFor_eq_bot_iff hd hm).mp (not_le.mpr hpo)
  rw [rank, rank, Prod.Lex.toLex_lt_toLex, OrderDual.toDual_lt_toDual, hb]
  exact .inl (bot_lt_iff_ne_bot.mpr hab)

end Ranked

noncomputable def realKey (u : Set.Ico (0 : ℝ) 1) (weight : ℚ) : ℝ := Real.log (1 - u) / weight

/-- The page holds as many relays as the limit allows, is the ranked front but for its last slot, holds an eligible
    relay whenever it may, and lists no drained relay before one with a selection weight. -/
theorem relay_page_composition (relays : List Descriptor) (snapshots : KeyedMap String RelayMetricsSnapshot)
    (weights : KeyedMap String StoredWeight) (uniform : Nat → Set.Ico (0 : ℝ) 1) (probing : Bool) (limit : Int)
    (distinct : (relays.map (·.id)).Nodup) (positive : 0 < limit) :
    let listed := withoutUnreachable relays probing
    let ranked := withoutUnreachable (sortRelayCandidates realKey relays snapshots weights uniform) probing
    let page := reserveWSSCandidate ranked limit weights
    ranked.Perm listed ∧ (page.length : Int) = min limit listed.length ∧ (page.map (·.id)).Nodup ∧ page ⊆ listed ∧
    (∀ i, i + 1 ≠ page.length → page[i]? = (ranked.take limit.toNat)[i]?) ∧
    ((∃ desc ∈ page, wssRelayEligible desc = true) ↔
      (∃ desc ∈ ranked.take limit.toNat, wssRelayEligible desc = true) ∨
        ∃ desc ∈ ranked.drop limit.toNat, Promotable weights desc) ∧
    ((∀ desc ∈ ranked.take limit.toNat, wssRelayEligible desc = false) → ∀ desc ∈ page, wssRelayEligible desc = true →
      Promotable weights desc ∧ ∃ above below, ranked.drop limit.toNat = above ++ desc :: below ∧
        ∀ other ∈ above, ¬Promotable weights other) ∧
    ((∃ desc ∈ page, rankingWeightFor weights desc.id = 0) →
      ∀ desc ∈ listed, 0 < selectionWeightIn relays snapshots weights desc → desc ∈ page) := by
  intro listed ranked page
  have hpe : ranked.Perm listed := withoutUnreachable_perm (List.mergeSort_perm _ _) probing
  have hc : Composed ranked limit.toNat weights page := reserveWSSCandidate_composed ranked weights positive
  have hw : page ⊆ listed := fun desc mem => hpe.subset (hc.sublist.subset mem)
  have ha : listed ⊆ relays := (withoutUnreachable_sublist relays probing).subset
  refine ⟨hpe, ?_, ?_, hw, fun i => hc.getElem?_eq, hc.eligible_iff,
    fun hno desc => hc.best hno, ?_⟩
  · rw [hc.length_eq (by lia), hpe.length_eq]
    lia
  · have hdi := (((withoutUnreachable_sublist relays probing).map _).nodup distinct)
    exact (hc.sublist.map _).nodup ((hpe.map _).nodup_iff.mpr hdi)
  · rintro ⟨drained, ho, hz⟩ desc mem hsl
    let keys := (rankingKeys realKey (selectionWeightIn relays snapshots weights) uniform relays).1
    have hs := (List.pairwise_mergeSort_key (rank keys) rankedBefore_iff relays).sublist
      (withoutUnreachable_sublist _ probing)
    refine hc.before_drained hs ho hz (hpe.symm.subset mem) (not_le.mpr ?_)
    exact rank_lt_drained distinct (ha (hw ho)) hz (ha mem) hsl

theorem relay_page_composition_drained : ∃ drained other : Descriptor, ∃ weights : KeyedMap String StoredWeight,
    rankingWeightFor weights drained.id = 0 ∧ ∀ uniform : Nat → Set.Ico (0 : ℝ) 1,
      let page := reserveWSSCandidate
        (withoutUnreachable (sortRelayCandidates realKey [drained, other] ∅ weights uniform) false) 1 weights
      page.length = 1 ∧ drained ∉ page := by
  let drained : Descriptor := { id := "drained" }
  let other : Descriptor := { id := "other" }
  let weights : KeyedMap String StoredWeight := (∅ : KeyedMap String StoredWeight).insert "drained" (.number 0)
  have hz : rankingWeightFor weights drained.id = 0 := rfl
  refine ⟨drained, other, weights, hz, fun uniform => ?_⟩
  obtain ⟨-, hl, -, -, -, -, -, hdr⟩ := relay_page_composition [drained, other] ∅ weights uniform false 1
    (by decide) one_pos
  have hsi := Int.ofNat_inj.mp (hl.trans (rfl : min (1 : Int) (2 : Nat) = (1 : Nat)))
  refine ⟨hsi, fun ho => ?_⟩
  have hsl : 0 < selectionWeightIn [drained, other] ∅ weights other := by decide +kernel
  have hbo := hdr ⟨drained, ho, hz⟩ other (by simp [withoutUnreachable]) hsl
  obtain ⟨only, page⟩ := List.length_eq_one_iff.mp hsi
  rw [page, List.mem_singleton] at ho hbo
  have same : drained.id = other.id := congrArg _ (ho.trans hbo.symm)
  exact absurd same (by decide)

end OpenRung.Broker
