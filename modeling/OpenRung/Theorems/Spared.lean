import OpenRung.Theorems.Effect

/-! Which operations leave a lease unrevoked. Disabling its user revokes it, and an issue for its user may evict it
    to make room on other relays; nothing else does. -/

namespace OpenRung.Broker

/-! ### Spared leases -/

theorem countP_lt_of_mem_take {α : Type*} {r : α → α → Prop} [DecidableRel r] (hre : ∀ x, r x x) {xs : List α} {k : Nat}
    {x : α} (hso : xs.Pairwise r) (hm : x ∈ xs.take k) : xs.countP (fun y => decide (¬ r x y)) < k := by
  induction xs generalizing k with
  | nil => simp at hm
  | cons y ys ih =>
    obtain ⟨hfi, hso⟩ := List.pairwise_cons.mp hso
    cases k with
    | zero => simp at hm
    | succ k =>
      rcases List.mem_cons.mp (List.take_succ_cons ▸ hm) with rfl | hl
      · have hn : (x :: ys).countP (fun y => decide (¬ r x y)) = 0 := by
          refine List.countP_eq_zero.mpr fun y hm => ?_
          rcases List.mem_cons.mp hm with rfl | hm
          · simpa using hre y
          · simpa using hfi y hm
        omega
      · have := ih hso hl
        rw [List.countP_cons]
        split <;> omega

/-- It names the relay of `l`, or the user's live leases and the new ones that their relays have room for exceed the
    cap by no more than there are live leases on other relays to evict before `l`. -/
def Store.Spares (s : Store) (req : LeaseIssueRequest) (now : Time) (l : Lease) : Prop :=
  let live := s.liveLeasesForUser req.userID now
  l.relayID ∈ req.relayIDs ∨
  (live.length + (req.relayIDs.filter fun r => live.all (fun c => decide (c.relayID ≠ r)) &&
      decide ((s.liveLeaseCountForRelay r now : Int) < req.maxPerRelay)).length : Int) ≤
    req.maxPerUser + live.countP fun c => decide (c.relayID ∉ req.relayIDs) && decide (¬ evictedBefore l c)

def Op.Spares (s : Store) (now : Time) (l : Lease) : Op → Prop
  | .setUserStatus id status _ => id = l.userID → UserStatus.parse status ≠ some .disabled
  | .issueLeases req _ => req.userID = l.userID → s.Spares req.normalized now l
  | _ => True

theorem Issuing.spared {s : Store} {req : LeaseIssueRequest} {mint : String → Option (String × String)} {now : Time}
    {plan : LeaseIssuePlan} {drawn : List Lease} (h : Issuing s req mint now plan drawn) {l : Lease}
    (hsp : s.Spares req now l) :
    l ∉ plan.evicted (s.eligible req plan now) := by
  intro he
  have hca := LeaseIssuePlan.mem_of_mem_evicted he
  rcases hsp with hr | hro
  · exact (h.planned.mem_candidates.mp hca).2 hr
  · rw [LeaseIssuePlan.evicted_eq_take] at he
    have hb := countP_lt_of_mem_take (fun x => (evictedBefore_total x x).elim id id) h.planned.order he
    have hco : plan.candidates.countP (fun c => decide (¬ evictedBefore l c)) =
        (s.liveLeasesForUser req.userID now).countP fun c =>
          decide (c.relayID ∉ req.relayIDs) && decide (¬ evictedBefore l c) := by
      rw [h.planned.candidates.countP_eq, List.countP_filter]
      exact List.countP_congr fun c _ => by simp [and_comm]
    have hcr : plan.create.filter (s.eligible req plan now) =
        req.relayIDs.filter fun r => (s.liveLeasesForUser req.userID now).all (fun c => decide (c.relayID ≠ r)) &&
          decide ((s.liveLeaseCountForRelay r now : Int) < req.maxPerRelay) := by
      rw [h.planned.create, List.filter_filter]
      refine List.filter_congr fun r hr => Bool.eq_iff_iff.mpr ?_
      simp only [Store.eligible, h.planned.mem_create, hr, Bool.and_eq_true, decide_eq_true_eq, List.all_eq_true,
        Option.isNone_iff_eq_none, byRelay_lookup_eq_none, true_and]
      tauto
    rw [hco, hcr, h.planned.liveCount, h.planned.maxPerUser] at hb
    omega

namespace Store
variable {s : Store} (keyed : s.leases.Keyed Lease.id) {now : Time} {l l' : Lease} (stored : s.leases.lookup l.id = some l)
include keyed stored

theorem setUserStatus_spared {id status reason : String} (hu : l.revokedAt = none)
    (hsp : (Op.setUserStatus id status reason).Spares s now l)
    (hs : (s.setUserStatus id status reason now).1.leases.lookup l.id = some l') : l'.revokedAt = none := by
  rcases s.setUserStatus_cases id status reason now with ⟨user, eq, -, hd⟩ | ⟨user, eq, -⟩ | ⟨e, eq⟩
  · rw [eq] at hs
    have hef : Effect s { (s.revokeUserLeases id now).1 with users := s.users.insert id user } (fun _ => True) now _ _ :=
      revoke_effect keyed id now rfl rfl
    rcases hef.lookup.mp hs with ⟨hm, hsa⟩ | ⟨hb, -⟩
    · -- Only the leases of the disabled user are revoked.
      obtain ⟨victim, hli, rfl⟩ := mem_revokeWrites.mp hm
      obtain ⟨hf, ho, -⟩ := (mem_liveLeasesForUser keyed).mp hli
      obtain rfl : victim = l := Option.some.inj (hf.symm.trans (hsa ▸ stored))
      exact absurd hd (hsp ho.symm)
    · exact Option.some.inj (stored.symm.trans hb) ▸ hu
  · rw [eq] at hs
    exact Option.some.inj (stored.symm.trans hs) ▸ hu
  · rw [eq] at hs
    exact Option.some.inj (stored.symm.trans hs) ▸ hu

theorem issueLeases_spared {req : LeaseIssueRequest} {mint : String → Option (String × String)} {used : String → Prop}
    (hc : ∀ id, s.leases.lookup id ≠ none → used id) (hfr : FreshMint used mint) (hu : l.revokedAt = none)
    (hsp : (Op.issueLeases req mint).Spares s now l)
    (hs : (s.issueLeases req mint now).1.leases.lookup l.id = some l') : l'.revokedAt = none := by
  rcases s.issueLeases_cases req mint now with ⟨e, eq⟩ | ⟨plan, drawn, hi, eq⟩
  · rw [eq] at hs
    exact Option.some.inj (stored.symm.trans hs) ▸ hu
  · rw [eq] at hs
    have hdr := FreshMint.draws hi hc hfr
    rcases (issue_effect keyed hi hdr).lookup.mp hs with ⟨hm, hsa⟩ | ⟨hb, -⟩
    · rcases hi.mem_writes.mp hm with ⟨victim, he, rfl⟩ | ⟨old, hf, rfl⟩ | ⟨new, hde, -, rfl⟩
      · obtain ⟨hf, ho, -⟩ := hi.evicted_stored keyed he
        obtain rfl : victim = l := Option.some.inj (hf.symm.trans (hsa ▸ stored))
        exact absurd he (hi.spared (hsp ho.symm))
      · exact (Lease.live_iff.mp (hi.extend_stored keyed hf).2.2.1).1
      · cases (hdr.unused new hde).symm.trans (hsa ▸ stored)
    · exact Option.some.inj (stored.symm.trans hb) ▸ hu

theorem apply_spared (checks : RegisterChecks) {used : String → Prop} {op : Op}
    (hc : ∀ id, s.leases.lookup id ≠ none → used id) (hfr : op.Fresh used) (hu : l.revokedAt = none)
    (hsp : op.Spares s now l) (hs : (s.apply checks now op).1.leases.lookup l.id = some l') :
    l'.revokedAt = none := by
  have hk : s.leases.lookup l.id = some l' → l'.revokedAt = none := fun hb =>
    Option.some.inj (stored.symm.trans hb) ▸ hu
  cases op with
  | setUserStatus id status reason =>
    exact setUserStatus_spared keyed stored hu hsp (s.apply_setUserStatus checks now id status reason ▸ hs)
  | issueLeases req mint =>
    exact issueLeases_spared keyed stored hc hfr hu hsp (s.apply_issueLeases checks now req mint ▸ hs)
  | prune => exact hk (lookup_of_prune hs)
  | authenticateUser key source windows refuseNew newUserID =>
    exact hk ((s.authenticateUser_frame key source windows refuseNew newUserID now).1 ▸ hs)
  | relayLeaseSet relayID token => exact hk hs
  | ackLeaseRevision relayID token revision => exact hk ((s.ackLeaseRevision_frame relayID token revision).1 ▸ hs)
  | register req draws ttl => exact hk ((s.register_frame checks req draws now ttl).1 ▸ hs)
  | heartbeat id token maxClass clientID ttl =>
    exact hk ((s.heartbeat_frame id token maxClass clientID now ttl).1 ▸ hs)
  | updateGeo id token geo => exact hk ((s.updateRelay_frame id token _).1 ▸ hs)
  | updateReachability id token reachable => exact hk ((s.updateRelay_frame id token _).1 ▸ hs)
  | updateAccessReachability id token reachable => exact hk ((s.updateRelay_frame id token _).1 ▸ hs)

end Store

end OpenRung.Broker
