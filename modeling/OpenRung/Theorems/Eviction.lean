import OpenRung.Theorems.IssuePlan

/-! Which leases an issue request evicts: as many as the cap asks for and no more, the least recently renewed ones outside the
    request first, and none for the sake of a relay that cannot take a lease. -/

namespace OpenRung.Broker

def issuableRelays (req : LeaseIssueRequest) (live : List Lease) (eligible : String → Bool) : List String :=
  req.relayIDs.filter fun relayID => eligible relayID || ((byRelay live).lookup relayID).isSome

theorem planLeaseIssue_eq_ok (req : LeaseIssueRequest) (live : List Lease)
    (hfi : (req.relayIDs.length : Int) ≤ req.maxPerUser) : ∃ plan, planLeaseIssue req live = .ok plan := by
  rw [planLeaseIssue, if_neg (not_lt.mpr hfi)]
  exact ⟨_, rfl⟩

theorem nodup_normalized (req : LeaseIssueRequest) : req.normalized.relayIDs.Nodup := nodup_sortedUnique _

theorem planLeaseIssue_candidates {req : LeaseIssueRequest} {live : List Lease} {plan : LeaseIssuePlan}
    (hp : planLeaseIssue req live = .ok plan) :
    plan.candidates = (live.filter fun l => decide (l.relayID ∉ req.relayIDs)).insertionSort evictedBefore := by
  unfold planLeaseIssue at hp
  split at hp
  · cases hp
  · obtain rfl := Except.ok.inj hp
    rfl

theorem evicted_without_full {req : LeaseIssueRequest} {live : List Lease} {plan plan' : LeaseIssuePlan}
    (eligible : String → Bool) (hp : planLeaseIssue req live = .ok plan)
    (hpl : planLeaseIssue { req with relayIDs := issuableRelays req live eligible } live = .ok plan') :
    plan'.evicted eligible = plan.evicted eligible := by
  have p := planLeaseIssue_ok hp
  have p' := planLeaseIssue_ok hpl
  have hce : plan'.create.filter eligible = plan.create.filter eligible := by
    rw [p.create, p'.create]
    simp only [issuableRelays, List.filter_filter]
    refine List.filter_congr fun relayID _ => ?_
    cases eligible relayID <;> simp
  have hc : plan'.candidates = plan.candidates := by
    rw [planLeaseIssue_candidates hp, planLeaseIssue_candidates hpl]
    refine congrArg _ (List.filter_congr fun l live => ?_)
    -- A relay with a live lease of the user is not dropped from the request.
    have hh : (byRelay _).lookup l.relayID ≠ none := fun none => byRelay_lookup_eq_none.mp none l live rfl
    simp [issuableRelays, Option.isSome_iff_ne_none.mpr hh]
  rw [LeaseIssuePlan.evicted_eq_take, LeaseIssuePlan.evicted_eq_take, hce, hc, p.liveCount, p'.liveCount,
    p.maxPerUser, p'.maxPerUser]

theorem lease_eviction_minimal (req : LeaseIssueRequest) (live : List Lease) (eligible : String → Bool)
    (fits : (req.normalized.relayIDs.length : Int) ≤ req.normalized.maxPerUser)
    (single : (live.map Lease.relayID).Nodup) (capped : (live.length : Int) ≤ req.normalized.maxPerUser) :
    ∃ plan, planLeaseIssue req.normalized live = .ok plan ∧
      let issuable := (plan.create.filter eligible).length
      let evicted := plan.evicted eligible
      (plan.create.Nodup ∧ ∀ relayID, relayID ∈ plan.create ↔
        relayID ∈ req.relayIDs ∧ ∀ l ∈ live, l.relayID ≠ relayID) ∧
      (evicted.length : Int) = max 0 (live.length + issuable - req.normalized.maxPerUser) ∧
      (live.length + issuable - req.normalized.maxPerUser : Int) ≤ plan.candidates.length ∧
      (∃ kept, plan.candidates = evicted ++ kept) ∧ plan.candidates.Pairwise evictedBefore ∧
      plan.candidates.Perm (live.filter fun l => decide (l.relayID ∉ req.relayIDs)) ∧
      (∀ l ∈ evicted, l.relayID ∉ req.relayIDs) ∧
      ((∀ relayID ∈ plan.create, eligible relayID = false) → evicted = []) ∧
      (∃ plan', planLeaseIssue { req.normalized with relayIDs := issuableRelays req.normalized live eligible } live =
        .ok plan' ∧ plan'.evicted eligible = evicted) ∧
      (∀ relayID l, l ∈ plan.victims eligible relayID ↔ l ∈ evicted ∧ l.relayID = relayID) ∧
      plan.affected.Pairwise (· < ·) ∧ (∀ relayID ∈ plan.extend.keys, relayID ∈ plan.affected) ∧
      (∀ relayID ∈ plan.create, relayID ∈ plan.affected) ∧ ∀ l ∈ evicted, l.relayID ∈ plan.affected := by
  obtain ⟨plan, hp⟩ := planLeaseIssue_eq_ok req.normalized live fits
  have p := planLeaseIssue_ok hp
  have hr : ∀ relayID, relayID ∈ req.normalized.relayIDs ↔ relayID ∈ req.relayIDs := fun _ => mem_sortedUnique
  have hen := p.inside_le_requested (nodup_normalized req) single eligible
  have ht := plan.evicted_eq_take eligible
  rw [p.liveCount, p.maxPerUser] at ht
  have ho : ∀ l ∈ plan.evicted eligible, l.relayID ∉ req.normalized.relayIDs := fun l evicted =>
    (p.mem_candidates.mp (LeaseIssuePlan.mem_of_mem_evicted evicted)).2
  have hs : ((issuableRelays req.normalized live eligible).length : Int) ≤ req.normalized.maxPerUser := by
    have hfe : (issuableRelays req.normalized live eligible).length ≤ _ := List.filter_sublist.length_le
    lia
  obtain ⟨plan', hpl⟩ := planLeaseIssue_eq_ok { req.normalized with relayIDs := _ } live hs
  refine ⟨plan, hp, ⟨p.create ▸ (nodup_normalized req).filter _, fun relayID => ?_⟩, ?_, ?_, ?_, p.order, ?_, ?_, ?_,
    ⟨plan', hpl, evicted_without_full eligible hp hpl⟩, fun relayID l => LeaseIssuePlan.mem_victims,
    ?_, ?_, ?_, ?_⟩
  · rw [p.mem_create, hr]
  · rw [ht, List.length_take]
    lia
  · lia
  · exact ⟨_, (ht ▸ (List.take_append_drop _ plan.candidates).symm)⟩
  · refine p.candidates.trans (.of_eq (List.filter_congr fun l _ => ?_))
    simp only [hr]
  · simpa only [hr] using ho
  · intro hfu
    have hn : plan.create.filter eligible = [] := List.filter_eq_nil_iff.mpr fun relayID mem => by simp [hfu relayID mem]
    rw [ht, hn, List.length_nil, Int.toNat_of_nonpos (by lia), List.take_zero]
  · rw [p.affected]
    exact pairwise_sortedUnique _
  · intro relayID he
    obtain ⟨l, hf⟩ := Option.isSome_iff_exists.mp (AList.lookup_isSome.mpr he)
    exact p.mem_affected.mpr (.inl (p.extend_mem hf).2.2)
  · intro relayID hcr
    exact p.mem_affected.mpr (.inl (p.mem_create.mp hcr).1)
  · intro l evicted
    exact p.mem_affected.mpr (.inr ⟨l, LeaseIssuePlan.mem_of_mem_evicted evicted, rfl⟩)

theorem lease_eviction_minimal_third :
    let old : Lease := { id := "1", relayID := "a", renewedAt := 10 }
    let new : Lease := { id := "2", relayID := "b", renewedAt := 20 }
    let req : LeaseIssueRequest := { userID := "u", relayIDs := ["c"], ttl := 0, maxPerUser := 2, maxPerRelay := 0 }
    ∃ plan, planLeaseIssue req.normalized [new, old] = .ok plan ∧ (plan.evicted fun _ => true).length = 1 ∧
      plan.evicted (fun _ => true) = [old] := by
  intro old new req
  obtain ⟨plan, hp, -, hco, -⟩ := lease_eviction_minimal req [new, old] (fun _ => true) (by decide) (by decide)
    (by decide)
  have hpa : plan = _ := (Except.ok.inj hp).symm
  subst hpa
  exact ⟨_, hp, Int.ofNat_inj.mp (hco.trans (by decide)), by decide⟩

end OpenRung.Broker
