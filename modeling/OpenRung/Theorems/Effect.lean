import OpenRung.Theorems.Issue

/-! What one operation does to the lease table. Apart from `prune` an operation advances the table by a batch of
    writes, and each write revokes or extends a lease that was live at the operation's time or adds one under a new
    id. -/

namespace OpenRung.Broker

/-! ### Live leases -/

theorem Lease.live_iff {l : Lease} {t : Time} : l.live t = true ↔ l.revokedAt = none ∧ t < l.expiresAt := by
  simp [Lease.live]

theorem Lease.live_antitone {l : Lease} {t t' : Time} (le : t ≤ t') (hli : l.live t') : l.live t := by
  rw [live_iff] at hli ⊢
  exact ⟨hli.1, lt_of_le_of_lt le hli.2⟩

theorem Lease.revoke_not_live (l : Lease) (now : Time) (revision : Nat) (t : Time) :
    (l.revoke now revision).live t = false := by simp [Lease.live, Lease.revoke]

/-! ### Writes -/

/-- Where a write at `now` comes from; the ids of new leases are outside `used`. -/
inductive Written (s : Store) (used : String → Prop) (now : Time) : Lease → Prop
  | revoked (l : Lease) (stored : s.leases.lookup l.id = some l) (live : l.live now) :
      Written s used now (l.revoke now (s.revision l.relayID + 1))
  | renewed (l : Lease) (ttl : Duration) (pos : 0 < ttl) (stored : s.leases.lookup l.id = some l) (live : l.live now) :
      Written s used now (l.renew now ttl (s.revision l.relayID + 1))
  | created (l : Lease) (new : ¬ used l.id) (unused : s.leases.lookup l.id = none) (unrevoked : l.revokedAt = none)
      (unexpired : now < l.expiresAt) :
      Written s used now (l.stamp (s.revision l.relayID + 1))

/-- The report has the leases issued or extended, and the relays that advanced in order. -/
structure Effect (s s' : Store) (used : String → Prop) (now : Time) (ws : List Lease) (report : Report) : Prop
    extends Advance s s' ws where
  nodup : (ws.map Lease.id).Nodup
  written : ∀ w ∈ ws, Written s used now w
  reported : ∀ w, w ∈ report.leases ↔ w ∈ ws ∧ w.revokedAt = none
  sorted : report.changedRelayIDs.Pairwise (· < ·)
  changed : ∀ r, r ∈ report.changedRelayIDs ↔ r ∈ ws.map Lease.relayID

namespace Effect
variable {s s' : Store} {used : String → Prop} {now : Time} {ws : List Lease} {report : Report}
  (h : Effect s s' used now ws report)
include h

theorem lookup {id : String} {l : Lease} :
    s'.leases.lookup id = some l ↔ (l ∈ ws ∧ l.id = id) ∨ (s.leases.lookup id = some l ∧ ∀ w ∈ ws, w.id ≠ id) := by
  rw [h.leases]
  exact KeyedMap.lookup_putAll h.nodup s.leases

theorem keyed (hk : s.leases.Keyed Lease.id) : s'.leases.Keyed Lease.id := h.leases ▸ hk.putAll

theorem revision_le (r : String) : s.revision r ≤ s'.revision r := by
  rw [h.revision]
  split <;> omega

theorem relay_of_id {w l : Lease} (hm : w ∈ ws)
    (hst : s.leases.lookup w.id = some l) : w.relayID = l.relayID := by
  cases h.written w hm with
  | revoked l' hso _ =>
    obtain rfl : l' = l := Option.some.inj (hso.symm.trans hst)
    rfl
  | renewed l' ttl _ hso _ =>
    obtain rfl : l' = l := Option.some.inj (hso.symm.trans hst)
    rfl
  | created l' _ hun _ _ => cases hun.symm.trans hst

end Effect

variable {used : String → Prop}

theorem Effect.quiet {s s' : Store} {now : Time} (leases : s'.leases = s.leases)
    (revision : ∀ r, s'.revision r = s.revision r) : Effect s s' used now [] .none where
  leases := leases
  stamped := by simp
  revision := by simpa using revision
  nodup := by simp
  written := by simp
  reported := by simp [Report.none]
  sorted := by simp [Report.none]
  changed := by simp [Report.none]

theorem FreshMint.draws {s : Store} {req : LeaseIssueRequest}
    {mint : String → Option (String × String)} {now : Time} {plan : LeaseIssuePlan} {drawn : List Lease}
    (h : Issuing s req mint now plan drawn) (covers : ∀ id, s.leases.lookup id ≠ none → used id)
    (hf : FreshMint used mint) : FreshDraws s used drawn where
  covers := covers
  distinct := by
    have hre : (drawn.map Lease.relayID).Nodup := h.drawn_relays ▸ h.create_nodup
    refine List.Nodup.map_on (fun l hm l' hme hsa => ?_) (List.Nodup.of_map _ hre)
    obtain ⟨id, c, hd, eq⟩ := h.drawn_each l hm
    obtain ⟨id', c', hdr, eq'⟩ := h.drawn_each l' hme
    rw [eq, eq'] at hsa
    obtain rfl : id = id' := hsa
    exact List.inj_on_of_nodup_map hre hm hme (hf.distinct _ _ _ _ _ hd hdr)
  new := by
    intro l hm
    obtain ⟨id, c, hd, eq⟩ := h.drawn_each l hm
    rw [eq]
    exact hf.unused _ _ _ hd

/-! ### The two operations that write leases -/

theorem Issuing.issuedOn_unrevoked {s : Store} (hk : s.leases.Keyed Lease.id) {req : LeaseIssueRequest}
    {mint : String → Option (String × String)} {now : Time} {plan : LeaseIssuePlan} {drawn : List Lease}
    (h : Issuing s req mint now plan drawn) {rev : String → Nat} {r : String} {w : Lease}
    (hm : w ∈ issuedOn req now plan (KeyedMap.putAll Lease.relayID drawn ∅) (s.eligible req plan now) rev r) :
    w.revokedAt = none := by
  simp only [issuedOn, List.mem_append, Option.mem_toList] at hm
  rcases hm with hm | hm
  · obtain ⟨l, hfo, rfl⟩ := Option.map_eq_some_iff.mp hm
    exact (Lease.live_iff.mp (h.extend_stored hk hfo).2.2.1).1
  · split at hm
    · obtain ⟨l, hfo, rfl⟩ := Option.map_eq_some_iff.mp hm
      obtain ⟨id, c, -, eq⟩ := h.drawn_each l (h.minted_lookup.mp hfo).1
      rw [eq]
      rfl
    · cases hm

theorem issue_effect {s : Store} (hk : s.leases.Keyed Lease.id) {req : LeaseIssueRequest}
    {mint : String → Option (String × String)} {now : Time} {plan : LeaseIssuePlan} {drawn : List Lease}
    (h : Issuing s req mint now plan drawn) (hf : FreshDraws s used drawn) :
    Effect s (issueLoop s req now plan drawn).1 used now (issueWrites s req now plan drawn)
      { leases := (issueLoop s req now plan drawn).2.leases
        changedRelayIDs := (issueLoop s req now plan drawn).2.changedRelayIDs } := by
  obtain ⟨hc, leases, changed⟩ := h.commit hk hf
  refine { hc.toAdvance with
    nodup := h.writes_nodup hk hf, written := ?_, reported := ?_, sorted := ?_, changed := ?_ }
  · intro w hm
    rcases h.mem_writes.mp hm with ⟨l, he, rfl⟩ | ⟨l, hfo, rfl⟩ | ⟨l, hd, -, rfl⟩
    · obtain ⟨hst, -, hli, -⟩ := h.evicted_stored hk he
      exact .revoked l hst hli
    · obtain ⟨hst, -, hli, -, -⟩ := h.extend_stored hk hfo
      exact .renewed l req.ttl h.ttl hst hli
    · obtain ⟨id, c, -, eq⟩ := h.drawn_each l hd
      refine .created l (hf.new l hd) (hf.unused l hd) (by rw [eq]) ?_
      rw [eq]
      exact Int.lt_add_of_pos_right now h.ttl
  · intro w
    simp only [leases, issueWrites, List.mem_flatMap]
    constructor
    · rintro ⟨r, ha, hm⟩
      exact ⟨⟨r, ha, List.mem_append_right _ hm⟩, h.issuedOn_unrevoked hk hm⟩
    · rintro ⟨⟨r, ha, hm⟩, hu⟩
      rcases List.mem_append.mp hm with hrv | his
      · obtain ⟨l, -, rfl⟩ := List.mem_map.mp hrv
        cases hu
      · exact ⟨r, ha, his⟩
  · have ha : plan.affected.Pairwise (· < ·) := h.planned.affected ▸ pairwise_sortedUnique _
    simp only [changed]
    exact ha.sublist List.filter_sublist
  · intro r
    simp only [changed, issueWrites, List.map_flatMap, List.mem_filter, List.mem_flatMap, decide_eq_true_eq]
    constructor
    · rintro ⟨ha, written⟩
      obtain ⟨w, hm⟩ := List.exists_mem_of_ne_nil _ written
      exact ⟨r, ha, List.mem_map.mpr ⟨w, hm, ((h.ready hk r).onRelay req now w hm).1⟩⟩
    · rintro ⟨r', ha, hm⟩
      obtain ⟨w, hmm, rfl⟩ := List.mem_map.mp hm
      obtain rfl := ((h.ready hk r').onRelay req now w hmm).1
      exact ⟨ha, List.ne_nil_of_mem hmm⟩

theorem revoke_effect {s s' : Store} (hk : s.leases.Keyed Lease.id) (userID : String) (now : Time)
    (leases : s'.leases = (s.revokeUserLeases userID now).1.leases)
    (hs : s'.leaseStates = (s.revokeUserLeases userID now).1.leaseStates) :
    Effect s s' used now (revokeWrites s userID now) { changedRelayIDs := (s.revokeUserLeases userID now).2 } where
  leases := leases.trans (s.revokeUserLeases_commit userID now).leases
  stamped := (s.revokeUserLeases_commit userID now).stamped
  revision := by
    intro r
    rw [← (s.revokeUserLeases_commit userID now).revision]
    unfold Store.revision Store.leaseState
    rw [hs]
  nodup := revokeWrites_nodup hk userID now
  written := by
    intro w hm
    obtain ⟨l, hli, rfl⟩ := mem_revokeWrites.mp hm
    obtain ⟨hst, -, hal⟩ := (Store.mem_liveLeasesForUser hk).mp hli
    exact .revoked l hst hal
  reported := by
    intro w
    refine ⟨fun hm => absurd hm List.not_mem_nil, fun ⟨hm, hu⟩ => ?_⟩
    obtain ⟨l, -, rfl⟩ := mem_revokeWrites.mp hm
    cases hu
  sorted := pairwise_sortedUnique _
  changed := by
    intro r
    show r ∈ sortedUnique _ ↔ _
    simp only [mem_sortedUnique, List.mem_map]
    constructor
    · rintro ⟨l, hli, rfl⟩
      exact ⟨_, mem_revokeWrites.mpr ⟨l, hli, rfl⟩, rfl⟩
    · rintro ⟨w, hm, rfl⟩
      obtain ⟨l, hli, rfl⟩ := mem_revokeWrites.mp hm
      exact ⟨l, hli, rfl⟩

/-! ### The other operations -/

namespace Store
variable (s : Store)

theorem authenticateUser_frame (key source : String) (windows : List EnrollmentWindow) (refuseNew : Option StoreError)
    (newUserID : Option String) (now : Time) :
    (s.authenticateUser key source windows refuseNew newUserID now).1.leases = s.leases ∧
      (s.authenticateUser key source windows refuseNew newUserID now).1.leaseStates = s.leaseStates ∧
      (s.authenticateUser key source windows refuseNew newUserID now).1.relays = s.relays := by
  unfold authenticateUser
  simp only
  repeat' split
  all_goals exact ⟨rfl, rfl, rfl⟩

theorem updateRelay_frame (id token : String) (update : Descriptor → Descriptor) :
    (s.updateRelay id token update).1.leases = s.leases ∧
      (s.updateRelay id token update).1.leaseStates = s.leaseStates ∧
      (s.updateRelay id token update).1.users = s.users := by
  unfold updateRelay
  repeat' split
  all_goals exact ⟨rfl, rfl, rfl⟩

theorem heartbeat_frame (id token maxClass clientID : String) (now : Time) (ttl : Duration) :
    (s.heartbeat id token maxClass clientID now ttl).1.leases = s.leases ∧
      (s.heartbeat id token maxClass clientID now ttl).1.leaseStates = s.leaseStates ∧
      (s.heartbeat id token maxClass clientID now ttl).1.users = s.users := by
  unfold heartbeat
  split
  · exact ⟨rfl, rfl, rfl⟩
  · split
    · exact ⟨rfl, rfl, rfl⟩
    · exact s.updateRelay_frame _ _ _

theorem revision_setLeaseState {r : String} {row : LeaseStateRow} (hsa : row.revision = s.revision r) (r' : String) :
    (s.setLeaseState r row).revision r' = s.revision r' := by
  unfold revision
  rw [leaseState_setLeaseState]
  split
  · next hh => rw [hh]; exact hsa
  · rfl

theorem ackLeaseRevision_frame (relayID token : String) (revision : Int) :
    (s.ackLeaseRevision relayID token revision).1.leases = s.leases ∧
      (∀ r, (s.ackLeaseRevision relayID token revision).1.revision r = s.revision r) ∧
      (s.ackLeaseRevision relayID token revision).1.users = s.users ∧
      (s.ackLeaseRevision relayID token revision).1.relays = s.relays := by
  unfold ackLeaseRevision
  split
  · refine ⟨rfl, fun r => s.revision_setLeaseState ?_ r, rfl, rfl⟩
    split <;> rfl
  · exact ⟨rfl, fun _ => rfl, rfl, rfl⟩

theorem replaceRow_frame (desc : Descriptor) :
    (s.replaceRow desc).leases = s.leases ∧ (∀ r, (s.replaceRow desc).revision r = s.revision r) ∧
      (s.replaceRow desc).users = s.users := by
  unfold replaceRow
  simp only
  split
  · exact ⟨rfl, fun _ => rfl, rfl⟩
  · refine ⟨rfl, fun r => ?_, rfl⟩
    rw [revision_setLeaseState _ (by rfl)]
    rfl

theorem installDescriptor_frame (desc : Descriptor) (now : Time) :
    (s.installDescriptor desc now).1.leases = s.leases ∧
      (∀ r, (s.installDescriptor desc now).1.revision r = s.revision r) ∧
      (s.installDescriptor desc now).1.users = s.users := by
  unfold installDescriptor
  simp only
  split
  · exact ⟨rfl, fun _ => rfl, rfl⟩
  · exact s.replaceRow_frame _

theorem register_frame (checks : RegisterChecks) (req : RegisterRequest) (draws : RegisterDraws) (now : Time)
    (ttl : Duration) :
    (s.register checks req draws now ttl).1.leases = s.leases ∧
      (∀ r, (s.register checks req draws now ttl).1.revision r = s.revision r) ∧
      (s.register checks req draws now ttl).1.users = s.users := by
  unfold register
  repeat' split
  all_goals first | exact ⟨rfl, fun _ => rfl, rfl⟩ | exact s.installDescriptor_frame _ _

theorem lookup_of_prune {s : Store} {now : Time} {id : String} {l : Lease}
    (hst : (s.prune now).1.leases.lookup id = some l) : s.leases.lookup id = some l :=
  (KeyedMap.lookup_filter_eq_some.mp hst).1

theorem revision_congr {s s' : Store} (hs : s'.leaseStates = s.leaseStates) (r : String) :
    s'.revision r = s.revision r := by
  unfold revision leaseState
  rw [hs]

theorem setUserStatus_cases (id status reason : String) (now : Time) :
    (∃ user, s.setUserStatus id status reason now =
      ({ (s.revokeUserLeases id now).1 with users := s.users.insert id user },
        .ok (user, (s.revokeUserLeases id now).2)) ∧ user.status = .disabled ∧ UserStatus.parse status = some .disabled) ∨
    (∃ user, s.setUserStatus id status reason now =
      ({ s with users := s.users.insert id user }, .ok (user, [])) ∧ user.status = .enabled) ∨
    ∃ e, s.setUserStatus id status reason now = (s, .error e) := by
  unfold setUserStatus
  have hkn : ∀ st, UserStatus.parse status = some st → st = .enabled ∨ st = .disabled := by
    intro st
    unfold UserStatus.parse
    split
    · rintro ⟨⟩; exact .inl rfl
    · split
      · rintro ⟨⟩; exact .inr rfl
      · rintro ⟨⟩
  cases hp : UserStatus.parse status with
  | none => exact .inr (.inr ⟨_, rfl⟩)
  | some st =>
    cases hfo : s.users.lookup id with
    | none => exact .inr (.inr ⟨.userNotFound, by simp only⟩)
    | some user =>
      simp only
      rcases hkn st hp with rfl | rfl
      · exact .inr (.inl ⟨_, rfl, rfl⟩)
      · have users := (s.revokeUserLeases_commit id now).users
        exact .inl ⟨_, by rw [if_pos rfl, users], rfl, rfl⟩

end Store

theorem Store.apply_setUserStatus (checks : RegisterChecks) (s : Store) (now : Time) (id status reason : String) :
    (s.apply checks now (.setUserStatus id status reason)).1 = (s.setUserStatus id status reason now).1 := by
  simp only [Store.apply]
  split <;> simp_all

theorem Store.apply_issueLeases (checks : RegisterChecks) (s : Store) (now : Time) (req : LeaseIssueRequest)
    (mint : String → Option (String × String)) :
    (s.apply checks now (.issueLeases req mint)).1 = (s.issueLeases req mint now).1 := by
  simp only [Store.apply]
  split <;> simp_all

theorem Store.apply_effect (checks : RegisterChecks) (s : Store) (now : Time) (op : Op)
    (hk : s.leases.Keyed Lease.id) (hco : ∀ id, s.leases.lookup id ≠ none → used id) (hf : op.Fresh used) :
    op = .prune ∨ ∃ ws, Effect s (s.apply checks now op).1 used now ws (s.apply checks now op).2 := by
  cases op with
  | authenticateUser key source windows refuseNew newUserID =>
    obtain ⟨hl, hs, -⟩ := s.authenticateUser_frame key source windows refuseNew newUserID now
    exact .inr ⟨[], .quiet hl (revision_congr hs)⟩
  | setUserStatus id status reason =>
    rcases s.setUserStatus_cases id status reason now with ⟨user, eq, -⟩ | ⟨user, eq, -⟩ | ⟨e, eq⟩
    · simp only [Store.apply, eq]
      exact .inr ⟨_, revoke_effect hk id now rfl rfl⟩
    · simp only [Store.apply, eq]
      exact .inr ⟨[], .quiet rfl fun _ => rfl⟩
    · simp only [Store.apply, eq]
      exact .inr ⟨[], .quiet rfl fun _ => rfl⟩
  | issueLeases req mint =>
    rcases s.issueLeases_cases req mint now with ⟨e, eq⟩ | ⟨plan, drawn, hi, eq⟩
    · simp only [Store.apply, eq]
      exact .inr ⟨[], .quiet rfl fun _ => rfl⟩
    · simp only [Store.apply, eq]
      exact .inr ⟨_, issue_effect hk hi (FreshMint.draws hi hco hf)⟩
  | relayLeaseSet relayID token => exact .inr ⟨[], .quiet rfl fun _ => rfl⟩
  | ackLeaseRevision relayID token revision =>
    obtain ⟨hl, hr, -⟩ := s.ackLeaseRevision_frame relayID token revision
    exact .inr ⟨[], .quiet hl hr⟩
  | register req draws ttl =>
    obtain ⟨hl, hr, -⟩ := s.register_frame checks req draws now ttl
    exact .inr ⟨[], .quiet hl hr⟩
  | heartbeat id token maxClass clientID ttl =>
    obtain ⟨hl, hs, -⟩ := s.heartbeat_frame id token maxClass clientID now ttl
    exact .inr ⟨[], .quiet hl (revision_congr hs)⟩
  | updateGeo id token geo =>
    obtain ⟨hl, hs, -⟩ := s.updateRelay_frame id token ({ · with geoLocation := geo })
    exact .inr ⟨[], .quiet hl (revision_congr hs)⟩
  | updateReachability id token reachable =>
    obtain ⟨hl, hs, -⟩ := s.updateRelay_frame id token
      ({ · with reachable := reachable, reachabilityCheckedAt := some now })
    exact .inr ⟨[], .quiet hl (revision_congr hs)⟩
  | updateAccessReachability id token reachable =>
    obtain ⟨hl, hs, -⟩ := s.updateRelay_frame id token
      ({ · with accessReachable := reachable, accessReachabilityCheckedAt := some now })
    exact .inr ⟨[], .quiet hl (revision_congr hs)⟩
  | prune => exact .inl rfl

end OpenRung.Broker
