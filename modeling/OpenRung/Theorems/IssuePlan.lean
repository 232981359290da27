import OpenRung.Broker.Store

/-! What `planLeaseIssue` decides: each requested relay extends the user's live lease there or is to get a new one,
    and the other live leases are the candidates for eviction. -/

namespace OpenRung.Broker

/-! ### Sorted lists of ids -/

@[simp] theorem mem_sortedUnique {ids : List String} {id : String} : id ∈ sortedUnique ids ↔ id ∈ ids := by
  simp [sortedUnique]

theorem nodup_sortedUnique (ids : List String) : (sortedUnique ids).Nodup :=
  (List.perm_insertionSort _ _).nodup_iff.mpr (List.nodup_dedup ids)

theorem pairwise_sortedUnique (ids : List String) : (sortedUnique ids).Pairwise (· < ·) := by
  have hs := List.pairwise_insertionSort (fun a b : String => a ≤ b) ids.dedup
  exact hs.imp₂ (fun _ _ le ne => lt_of_le_of_ne le ne) (nodup_sortedUnique ids)

/-! ### The live lease of each relay -/

theorem byRelay_lookup {live : List Lease} {relayID : String} {l : Lease}
    (h : (byRelay live).lookup relayID = some l) : l ∈ live ∧ l.relayID = relayID := by
  rw [byRelay, KeyedMap.lookup_putAll_eq_find, AList.lookup_empty, Option.or_none] at h
  exact ⟨List.mem_reverse.mp (List.mem_of_find?_eq_some h), by simpa using List.find?_some h⟩

theorem byRelay_lookup_eq_none {live : List Lease} {relayID : String} :
    (byRelay live).lookup relayID = none ↔ ∀ l ∈ live, l.relayID ≠ relayID := by
  rw [byRelay, KeyedMap.lookup_putAll_eq_find, AList.lookup_empty, Option.or_none, List.find?_eq_none]
  simp

theorem byRelay_lookup_greatest {live : List Lease} (hs : live.Pairwise fun a b => a.id ≤ b.id)
    {relayID : String} {l : Lease} (h : (byRelay live).lookup relayID = some l) :
    ∀ l' ∈ live, l'.relayID = relayID → l'.id ≤ l.id := by
  rw [byRelay, KeyedMap.lookup_putAll_eq_find, AList.lookup_empty, Option.or_none,
    List.find?_eq_some_iff_append] at h
  obtain ⟨-, later, earlier, hsp, hn⟩ := h
  intro l' hm on
  have hre : live.reverse.Pairwise fun a b => b.id ≤ a.id := List.pairwise_reverse.mpr hs
  rw [hsp, List.pairwise_append, List.pairwise_cons] at hre
  have hme : l' ∈ later ++ l :: earlier := hsp ▸ List.mem_reverse.mpr hm
  rcases List.mem_append.mp hme with hin | hi
  · simpa [on] using hn l' hin
  · rcases List.mem_cons.mp hi with rfl | hi
    · exact le_refl _
    · exact hre.2.1.1 l' hi

/-! ### The order of eviction -/

theorem evictedBefore_total (a b : Lease) : evictedBefore a b ∨ evictedBefore b a := by
  unfold evictedBefore
  by_cases hsa : a.renewedAt = b.renewedAt
  · simp [hsa, le_total]
  · simp [hsa, Ne.symm hsa]

theorem evictedBefore_trans {a b c : Lease} (h : evictedBefore a b) (h' : evictedBefore b c) : evictedBefore a c := by
  unfold evictedBefore at *
  split at h <;> split at h' <;> split
  all_goals grind

instance : Std.Total evictedBefore := ⟨evictedBefore_total⟩
instance : IsTrans Lease evictedBefore := ⟨fun _ _ _ => evictedBefore_trans⟩

/-! ### The plan -/

structure PlanOf (req : LeaseIssueRequest) (live : List Lease) (plan : LeaseIssuePlan) : Prop where
  fits : (req.relayIDs.length : Int) ≤ req.maxPerUser
  extend : ∀ {relayID l}, plan.extend.lookup relayID = some l ↔
    (byRelay live).lookup relayID = some l ∧ relayID ∈ req.relayIDs
  create : plan.create = req.relayIDs.filter fun relayID => ((byRelay live).lookup relayID).isNone
  candidates : plan.candidates.Perm (live.filter fun l => decide (l.relayID ∉ req.relayIDs))
  order : plan.candidates.Pairwise evictedBefore
  liveCount : plan.liveCount = live.length
  maxPerUser : plan.maxPerUser = req.maxPerUser
  affected : plan.affected = sortedUnique
    (req.relayIDs ++ (live.filter fun l => decide (l.relayID ∉ req.relayIDs)).map Lease.relayID)

theorem planLeaseIssue_ok {req : LeaseIssueRequest} {live : List Lease} {plan : LeaseIssuePlan}
    (h : planLeaseIssue req live = .ok plan) : PlanOf req live plan := by
  unfold planLeaseIssue at h
  split at h
  · cases h
  · next fits =>
    obtain rfl := Except.ok.inj h
    exact {
      fits := not_lt.mp fits
      extend := by simp [KeyedMap.lookup_filter_eq_some]
      create := rfl
      candidates := List.perm_insertionSort _ _
      order := List.pairwise_insertionSort _ _
      liveCount := rfl
      maxPerUser := rfl
      affected := rfl
    }

namespace PlanOf
variable {req : LeaseIssueRequest} {live : List Lease} {plan : LeaseIssuePlan} (p : PlanOf req live plan)
include p

theorem extend_mem {relayID : String} {l : Lease} (h : plan.extend.lookup relayID = some l) :
    l ∈ live ∧ l.relayID = relayID ∧ relayID ∈ req.relayIDs :=
  let ⟨hf, hr⟩ := p.extend.mp h
  ⟨(byRelay_lookup hf).1, (byRelay_lookup hf).2, hr⟩

theorem mem_create {relayID : String} :
    relayID ∈ plan.create ↔ relayID ∈ req.relayIDs ∧ ∀ l ∈ live, l.relayID ≠ relayID := by
  rw [p.create, List.mem_filter, Option.isNone_iff_eq_none, byRelay_lookup_eq_none]

theorem mem_candidates {l : Lease} : l ∈ plan.candidates ↔ l ∈ live ∧ l.relayID ∉ req.relayIDs := by
  rw [p.candidates.mem_iff, List.mem_filter, decide_eq_true_eq]

theorem mem_affected {relayID : String} :
    relayID ∈ plan.affected ↔ relayID ∈ req.relayIDs ∨ ∃ l ∈ plan.candidates, l.relayID = relayID := by
  rw [p.affected]
  simp only [mem_sortedUnique, List.mem_append, List.mem_map, p.candidates.mem_iff]

theorem inside_le_requested (hr : req.relayIDs.Nodup) (hsi : (live.map Lease.relayID).Nodup)
    (eligible : String → Bool) :
    live.length + (plan.create.filter eligible).length ≤ plan.candidates.length + req.relayIDs.length := by
  let inside := live.filter fun l => decide (l.relayID ∈ req.relayIDs)
  have hsp : live.length = inside.length + plan.candidates.length := by
    have hb := (List.filter_append_perm (fun l : Lease => decide (l.relayID ∈ req.relayIDs)) live).length_eq
    simp only [List.length_append, ← decide_not] at hb
    rw [p.candidates.length_eq]
    exact hb.symm
  have hrl : (inside.map Lease.relayID ++ plan.create).Nodup := by
    rw [List.nodup_append]
    refine ⟨hsi.sublist (List.filter_sublist.map _), p.create ▸ hr.filter _, ?_⟩
    rintro r hm r' hme rfl
    obtain ⟨l, hmm, on⟩ := List.mem_map.mp hm
    exact (p.mem_create.mp hme).2 l (List.mem_filter.mp hmm).1 on
  have hsu : inside.map Lease.relayID ++ plan.create ⊆ req.relayIDs := by
    intro r hm
    rcases List.mem_append.mp hm with hm | hm
    · obtain ⟨l, hmm, rfl⟩ := List.mem_map.mp hm
      simpa using (List.mem_filter.mp hmm).2
    · exact (p.mem_create.mp hm).1
  have he := (List.subperm_of_subset hrl hsu).length_le
  have hso := (List.filter_sublist (p := eligible) (l := plan.create)).length_le
  simp only [List.length_append, List.length_map] at he
  omega

end PlanOf

theorem LeaseIssuePlan.evicted_eq_take (plan : LeaseIssuePlan) (eligible : String → Bool) :
    plan.evicted eligible =
      plan.candidates.take (plan.liveCount + (plan.create.filter eligible).length - plan.maxPerUser : Int).toNat := by
  unfold LeaseIssuePlan.evicted
  simp only
  split
  · next hno => rw [Int.toNat_of_nonpos hno, List.take_zero]
  · split
    · next ha => rw [List.take_of_length_le (by omega)]
    · rfl

theorem LeaseIssuePlan.mem_of_mem_evicted {plan : LeaseIssuePlan} {eligible : String → Bool} {l : Lease}
    (h : l ∈ plan.evicted eligible) : l ∈ plan.candidates := by
  rw [evicted_eq_take] at h
  exact List.mem_of_mem_take h

theorem LeaseIssuePlan.mem_victims {plan : LeaseIssuePlan} {eligible : String → Bool} {relayID : String} {l : Lease} :
    l ∈ plan.victims eligible relayID ↔ l ∈ plan.evicted eligible ∧ l.relayID = relayID := by
  rw [victims, List.mem_filter, decide_eq_true_eq]

end OpenRung.Broker
