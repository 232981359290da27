import OpenRung.Theorems.Commit

/-! What `issueLeases` does in one call: which leases it revokes, extends and creates, and that these are one commit.
    -/

namespace OpenRung.Broker
namespace Store

/-! ### Reading the live leases -/

variable {s : Store}

theorem mem_liveLeasesForUser (hk : s.leases.Keyed Lease.id) {userID : String} {now : Time} {l : Lease} :
    l ∈ s.liveLeasesForUser userID now ↔ s.leases.lookup l.id = some l ∧ l.userID = userID ∧ l.live now := by
  simp [liveLeasesForUser, hk.mem_values]

theorem mem_liveLeasesForRelay (hk : s.leases.Keyed Lease.id) {relayID : String} {now : Time} {l : Lease} :
    l ∈ s.liveLeasesForRelay relayID now ↔ s.leases.lookup l.id = some l ∧ l.relayID = relayID ∧ l.live now := by
  simp [liveLeasesForRelay, hk.mem_values]

theorem nodup_liveLeasesForUser (hk : s.leases.Keyed Lease.id) (userID : String) (now : Time) :
    ((s.liveLeasesForUser userID now).map Lease.id).Nodup :=
  ((List.perm_insertionSort _ _).map _).nodup_iff.mpr (hk.nodup_map.sublist (List.filter_sublist.map _))

theorem nodup_liveLeasesForRelay (hk : s.leases.Keyed Lease.id) (relayID : String) (now : Time) :
    ((s.liveLeasesForRelay relayID now).map Lease.id).Nodup :=
  hk.nodup_map.sublist (List.filter_sublist.map _)

theorem pairwise_liveLeasesForUser (s : Store) (userID : String) (now : Time) :
    (s.liveLeasesForUser userID now).Pairwise fun a b => a.id ≤ b.id := by
  have : Std.Total fun a b : Lease => a.id ≤ b.id := ⟨fun a b => le_total a.id b.id⟩
  have : IsTrans Lease fun a b => a.id ≤ b.id := ⟨fun _ _ _ => le_trans⟩
  exact List.pairwise_insertionSort _ _

/-! ### The drawn leases -/

def Drawn (mint : String → Option (String × String)) (req : LeaseIssueRequest) (now : Time) (l : Lease) : Prop :=
  ∃ id credential, mint l.relayID = some (id, credential) ∧
    l = { id, userID := req.userID, relayID := l.relayID, credential, createdAt := now, renewedAt := now,
          expiresAt := now + req.ttl }

theorem mintLeases_spec {mint : String → Option (String × String)} {req : LeaseIssueRequest} {now : Time}
    {create : List String} {drawn : List Lease} (h : mintLeases mint req now create = some drawn) :
    drawn.map Lease.relayID = create ∧ ∀ l ∈ drawn, Drawn mint req now l := by
  induction create generalizing drawn with
  | nil => obtain rfl : [] = drawn := by simpa [mintLeases] using h
           simp
  | cons r rs ih =>
    rw [mintLeases, List.mapM_cons] at h
    simp only [Option.pure_def, Option.bind_eq_bind, Option.bind_eq_some_iff, Option.map_eq_some_iff,
      Option.some.injEq] at h
    obtain ⟨l, ⟨pair, hdw, rfl⟩, ls, hda, rfl⟩ := h
    obtain ⟨hrl, hea⟩ := ih hda
    refine ⟨by rw [List.map_cons, hrl], fun l' hm => ?_⟩
    rcases List.mem_cons.mp hm with rfl | hm
    · exact ⟨pair.1, pair.2, hdw, rfl⟩
    · exact hea l' hm

end Store

/-! ### A successful issue -/

structure Issuing (s : Store) (req : LeaseIssueRequest) (mint : String → Option (String × String)) (now : Time)
    (plan : LeaseIssuePlan) (drawn : List Lease) : Prop where
  enabled : ∃ user, s.users.lookup req.userID = some user ∧ user.status = .enabled
  planned : PlanOf req (s.liveLeasesForUser req.userID now) plan
  drew : Store.mintLeases mint req now plan.create = some drawn
  ttl : 0 < req.ttl
  relayIDs : req.relayIDs.Nodup

def issueWrites (s : Store) (req : LeaseIssueRequest) (now : Time) (plan : LeaseIssuePlan) (drawn : List Lease) :
    List Lease :=
  plan.affected.flatMap (writesOn req now plan (KeyedMap.putAll Lease.relayID drawn ∅) (s.eligible req plan now)
    fun r => s.revision r + 1)

def issueLoop (s : Store) (req : LeaseIssueRequest) (now : Time) (plan : LeaseIssuePlan) (drawn : List Lease) :
    Store × LeaseIssueResult :=
  plan.affected.foldl (Store.issueOn req now plan (KeyedMap.putAll Lease.relayID drawn ∅) (s.eligible req plan now)) (s, {})

theorem orDefault_pos {default : Int} (pos : 0 < default) (value : Int) : 0 < orDefault value default := by
  unfold orDefault
  split <;> omega

theorem LeaseIssueRequest.normalized_ttl_pos (req : LeaseIssueRequest) : 0 < req.normalized.ttl :=
  orDefault_pos (by decide) req.ttl

theorem Store.issueLeases_cases (s : Store) (req : LeaseIssueRequest) (mint : String → Option (String × String))
    (now : Time) :
    (∃ e, s.issueLeases req mint now = (s, .error e)) ∨
    ∃ plan drawn, Issuing s req.normalized mint now plan drawn ∧
      s.issueLeases req mint now =
        ((issueLoop s req.normalized now plan drawn).1, .ok (issueLoop s req.normalized now plan drawn).2) := by
  unfold Store.issueLeases
  simp only
  cases hf : s.users.lookup req.normalized.userID with
  | none => exact .inl ⟨_, rfl⟩
  | some user =>
    by_cases hen : user.status = .enabled
    · cases hp : planLeaseIssue req.normalized (s.liveLeasesForUser req.normalized.userID now) with
      | error e => exact .inl ⟨e, by simp [hen]⟩
      | ok plan =>
        cases hdr : Store.mintLeases mint req.normalized now plan.create with
        | none => exact .inl ⟨.mint, by simp [hen, hdr]⟩
        | some drawn =>
          refine .inr ⟨plan, drawn, ⟨⟨user, hf, hen⟩, planLeaseIssue_ok hp, hdr,
            req.normalized_ttl_pos, nodup_sortedUnique _⟩, ?_⟩
          simp [hen, hdr, issueLoop]
    · exact .inl ⟨.userDisabled, by simp [hen]⟩

structure FreshDraws (s : Store) (used : String → Prop) (drawn : List Lease) : Prop where
  covers : ∀ id, s.leases.lookup id ≠ none → used id
  distinct : (drawn.map Lease.id).Nodup
  new : ∀ l ∈ drawn, ¬ used l.id

theorem FreshDraws.unused {s : Store} {used : String → Prop} {drawn : List Lease} (h : FreshDraws s used drawn) :
    ∀ l ∈ drawn, s.leases.lookup l.id = none :=
  fun l hm => not_not.mp fun hs => h.new l hm (h.covers l.id hs)

namespace Issuing
variable {s : Store} {req : LeaseIssueRequest} {mint : String → Option (String × String)} {now : Time}
  {plan : LeaseIssuePlan} {drawn : List Lease} (h : Issuing s req mint now plan drawn)
include h

theorem drawn_relays : drawn.map Lease.relayID = plan.create := (Store.mintLeases_spec h.drew).1

theorem drawn_each : ∀ l ∈ drawn, Store.Drawn mint req now l := (Store.mintLeases_spec h.drew).2

theorem create_nodup : plan.create.Nodup := h.planned.create ▸ h.relayIDs.filter _

theorem minted_lookup {r : String} {l : Lease} :
    AList.lookup r (KeyedMap.putAll Lease.relayID drawn ∅) = some l ↔ l ∈ drawn ∧ l.relayID = r := by
  rw [KeyedMap.lookup_putAll (h.drawn_relays ▸ h.create_nodup)]
  simp

theorem drawn_create {l : Lease} (hm : l ∈ drawn) : l.relayID ∈ plan.create :=
  h.drawn_relays ▸ List.mem_map_of_mem hm

/-- The writes of an issue: evicted leases revoked, the live leases on requested relays extended, and the draws
    for relays with room. -/
theorem mem_writes {w : Lease} :
    w ∈ issueWrites s req now plan drawn ↔
      (∃ l ∈ plan.evicted (s.eligible req plan now), w = l.revoke now (s.revision l.relayID + 1)) ∨
      (∃ l, plan.extend.lookup l.relayID = some l ∧ w = l.renew now req.ttl (s.revision l.relayID + 1)) ∨
      ∃ l ∈ drawn, s.eligible req plan now l.relayID ∧ w = l.stamp (s.revision l.relayID + 1) := by
  simp only [issueWrites, writesOn, issuedOn, List.mem_flatMap, List.mem_append, List.mem_map, Option.mem_toList,
    LeaseIssuePlan.mem_victims]
  constructor
  · rintro ⟨r, -, ⟨l, ⟨he, rfl⟩, rfl⟩ | hm | hm⟩
    · exact .inl ⟨l, he, rfl⟩
    · obtain ⟨l, hf, rfl⟩ := Option.map_eq_some_iff.mp hm
      obtain ⟨-, rfl, -⟩ := h.planned.extend_mem hf
      exact .inr (.inl ⟨l, hf, rfl⟩)
    · split at hm
      · next hro =>
        obtain ⟨l, hf, rfl⟩ := Option.map_eq_some_iff.mp hm
        obtain ⟨hdr, rfl⟩ := h.minted_lookup.mp hf
        exact .inr (.inr ⟨l, hdr, hro, rfl⟩)
      · cases hm
  · rintro (⟨l, he, rfl⟩ | ⟨l, hf, rfl⟩ | ⟨l, hdr, hro, rfl⟩)
    · refine ⟨l.relayID, ?_, .inl ⟨l, ⟨he, rfl⟩, rfl⟩⟩
      exact h.planned.mem_affected.mpr (.inr ⟨l, LeaseIssuePlan.mem_of_mem_evicted he, rfl⟩)
    · refine ⟨l.relayID, ?_, .inr (.inl (by rw [hf]; rfl))⟩
      exact h.planned.mem_affected.mpr (.inl (h.planned.extend_mem hf).2.2)
    · refine ⟨l.relayID, ?_, .inr (.inr (by rw [if_pos hro, h.minted_lookup.mpr ⟨hdr, rfl⟩]; rfl))⟩
      exact h.planned.mem_affected.mpr (.inl (h.planned.mem_create.mp (h.drawn_create hdr)).1)

variable (keyed : s.leases.Keyed Lease.id)
include keyed

theorem evicted_stored {l : Lease} (he : l ∈ plan.evicted (s.eligible req plan now)) :
    s.leases.lookup l.id = some l ∧ l.userID = req.userID ∧ l.live now ∧ l.relayID ∉ req.relayIDs := by
  obtain ⟨hl, ho⟩ := h.planned.mem_candidates.mp (LeaseIssuePlan.mem_of_mem_evicted he)
  obtain ⟨hs, hu, hal⟩ := (Store.mem_liveLeasesForUser keyed).mp hl
  exact ⟨hs, hu, hal, ho⟩

theorem extend_stored {r : String} {l : Lease} (hf : plan.extend.lookup r = some l) :
    s.leases.lookup l.id = some l ∧ l.userID = req.userID ∧ l.live now ∧ l.relayID = r ∧ r ∈ req.relayIDs := by
  obtain ⟨hl, on, hr⟩ := h.planned.extend_mem hf
  obtain ⟨hs, hu, hal⟩ := (Store.mem_liveLeasesForUser keyed).mp hl
  exact ⟨hs, hu, hal, on, hr⟩

theorem ready (r : String) : Ready plan (KeyedMap.putAll Lease.relayID drawn ∅) (s.eligible req plan now)
    (fun r => s.revision r + 1) s r where
  revision := rfl
  victims := by
    intro l hm
    obtain ⟨he, on⟩ := LeaseIssuePlan.mem_victims.mp hm
    exact ⟨(h.evicted_stored keyed he).1, on⟩
  extend := fun l hf => ⟨(h.extend_stored keyed hf).1, (h.extend_stored keyed hf).2.2.2.1⟩
  minted := fun l hf => (h.minted_lookup.mp hf).2

theorem write_id {r : String} {w : Lease} (hm : w ∈ writesOn req now plan (KeyedMap.putAll Lease.relayID drawn ∅)
      (s.eligible req plan now) (fun r => s.revision r + 1) r) :
    (∃ l, s.leases.lookup w.id = some l ∧ l.relayID = r) ∨ ∃ l ∈ drawn, l.id = w.id ∧ l.relayID = r := by
  simp only [writesOn, issuedOn, List.mem_append, List.mem_map, Option.mem_toList, LeaseIssuePlan.mem_victims] at hm
  rcases hm with ⟨l, ⟨he, on⟩, rfl⟩ | hm | hm
  · exact .inl ⟨l, (h.evicted_stored keyed he).1, on⟩
  · obtain ⟨l, hf, rfl⟩ := Option.map_eq_some_iff.mp hm
    obtain ⟨hs, -, -, on, -⟩ := h.extend_stored keyed hf
    exact .inl ⟨l, hs, on⟩
  · split at hm
    · obtain ⟨l, hf, rfl⟩ := Option.map_eq_some_iff.mp hm
      obtain ⟨hdr, on⟩ := h.minted_lookup.mp hf
      exact .inr ⟨l, hdr, rfl, on⟩
    · cases hm

theorem evicted_nodup : ((plan.evicted (s.eligible req plan now)).map Lease.id).Nodup := by
  rw [LeaseIssuePlan.evicted_eq_take]
  have hc : (plan.candidates.map Lease.id).Nodup := (h.planned.candidates.map _).nodup_iff.mpr
    ((Store.nodup_liveLeasesForUser keyed req.userID now).sublist (List.filter_sublist.map _))
  exact hc.sublist ((List.take_sublist _ _).map _)

theorem writesOn_nodup (r : String) : ((writesOn req now plan (KeyedMap.putAll Lease.relayID drawn ∅)
    (s.eligible req plan now) (fun r => s.revision r + 1) r).map Lease.id).Nodup := by
  by_cases hr : r ∈ req.relayIDs
  · -- A requested relay has no victim, and either its live lease is extended or a new one is drawn.
    have hno : plan.victims (s.eligible req plan now) r = [] := by
      refine List.eq_nil_iff_forall_not_mem.mpr fun l hm => ?_
      obtain ⟨he, on⟩ := LeaseIssuePlan.mem_victims.mp hm
      exact (h.evicted_stored keyed he).2.2.2 (on ▸ hr)
    cases hf : plan.extend.lookup r with
    | none =>
      simp only [writesOn, hno, issuedOn, hf]
      cases (if s.eligible req plan now r then _ else none : Option Lease) <;> simp
    | some l =>
      have hn : s.eligible req plan now r = false := by
        obtain ⟨hl, on, -⟩ := h.planned.extend_mem hf
        have : r ∉ plan.create := fun hm => (h.planned.mem_create.mp hm).2 l hl on
        simp [Store.eligible, this]
      simp [writesOn, hno, issuedOn, hf, hn]
  · have hnt : issuedOn req now plan (KeyedMap.putAll Lease.relayID drawn ∅) (s.eligible req plan now)
        (fun r => s.revision r + 1) r = [] := by
      have hnE : plan.extend.lookup r = none :=
        Option.eq_none_iff_forall_ne_some.mpr fun l hf => hr (h.planned.extend_mem hf).2.2
      have hn : s.eligible req plan now r = false := by
        have : r ∉ plan.create := fun hm => hr (h.planned.mem_create.mp hm).1
        simp [Store.eligible, this]
      simp [issuedOn, hnE, hn]
    rw [writesOn, hnt, List.append_nil, List.map_map]
    exact (h.evicted_nodup keyed).sublist (List.filter_sublist.map _)

variable {used : String → Prop} (fresh : FreshDraws s used drawn)
include fresh

theorem writes_nodup : ((issueWrites s req now plan drawn).map Lease.id).Nodup := by
  rw [issueWrites, List.map_flatMap, List.nodup_flatMap]
  refine ⟨fun r _ => h.writesOn_nodup keyed r, ?_⟩
  have ha : plan.affected.Nodup := h.planned.affected ▸ nodup_sortedUnique _
  refine ha.imp fun {r r'} hd id hfi hse => ?_
  obtain ⟨w, hm, rfl⟩ := List.mem_map.mp hfi
  obtain ⟨w', hme, hsm⟩ := List.mem_map.mp hse
  rcases h.write_id keyed hm with ⟨l, hs, on⟩ | ⟨l, hdr, hsI, on⟩
  · rcases h.write_id keyed hme with ⟨l', hst, on'⟩ | ⟨l', hde, hsa, on'⟩
    · obtain rfl : l = l' := Option.some.inj (hs.symm.trans (hsm ▸ hst))
      exact hd (on.symm.trans on')
    · have := fresh.unused l' hde
      rw [hsa, hsm, hs] at this
      cases this
  · rcases h.write_id keyed hme with ⟨l', hst, on'⟩ | ⟨l', hde, hsa, on'⟩
    · have := fresh.unused l hdr
      rw [hsI, ← hsm, hst] at this
      cases this
    · obtain rfl : l = l' := List.inj_on_of_nodup_map fresh.distinct hdr hde (by rw [hsI, hsa, hsm])
      exact hd (on.symm.trans on')

theorem commit :
    Commit s (issueLoop s req now plan drawn).1 (issueWrites s req now plan drawn) ∧
      (issueLoop s req now plan drawn).2.leases = plan.affected.flatMap (issuedOn req now plan
        (KeyedMap.putAll Lease.relayID drawn ∅) (s.eligible req plan now) fun r => s.revision r + 1) ∧
      (issueLoop s req now plan drawn).2.changedRelayIDs = plan.affected.filter fun r => decide (writesOn req now plan
        (KeyedMap.putAll Lease.relayID drawn ∅) (s.eligible req plan now) (fun r => s.revision r + 1) r ≠ []) := by
  have ha : plan.affected.Nodup := h.planned.affected ▸ nodup_sortedUnique _
  exact issueLoop_commit plan.affected s {} ha (h.writes_nodup keyed fresh) fun r _ => h.ready keyed r

end Issuing

/-! ### Revoking a user's leases -/

def revokesOn (live : List Lease) (now : Time) (rev : String → Nat) (r : String) : List Lease :=
  (live.filter fun l => decide (l.relayID = r)).map (Lease.revoke now (rev r))

theorem mem_revokesOn {live : List Lease} {now : Time} {rev : String → Nat} {r : String} {w : Lease} :
    w ∈ revokesOn live now rev r ↔ ∃ l ∈ live, l.relayID = r ∧ w = l.revoke now (rev r) := by
  simp only [revokesOn, List.mem_map, List.mem_filter, decide_eq_true_eq]
  grind

theorem revokeOn_eq {live : List Lease} (now : Time) (rev : String → Nat) {s : Store} {r : String}
    (revision : rev r = s.revision r + 1) :
    s.revokeOn live now r = { s with
      leases := KeyedMap.putAll Lease.id (revokesOn live now rev r) s.leases
      leaseStates := s.leaseStates.insert r { s.leaseState r with revision := rev r } } := by
  unfold Store.revokeOn
  simp only
  rw [← List.foldl_map (f := Lease.revoke now (s.revision r + 1)) (g := Store.putLease), Store.foldl_putLease,
    revokesOn, revision]
  rfl

theorem revokeOn_commit {live : List Lease} (now : Time) {rev : String → Nat} {s : Store} {r : String}
    (hre : rev r = s.revision r + 1) (hso : ∃ l ∈ live, l.relayID = r) :
    Commit s (s.revokeOn live now r) (revokesOn live now rev r) := by
  have hw : revokesOn live now rev r ≠ [] := by
    obtain ⟨l, hm, on⟩ := hso
    exact List.ne_nil_of_mem (mem_revokesOn.mpr ⟨l, hm, on, rfl⟩)
  rw [revokeOn_eq now rev hre]
  refine Commit.of_row r ?_ ?_ rfl (fun r' => ?_) rfl
  · rintro w hm
    obtain ⟨l, -, on, rfl⟩ := mem_revokesOn.mp hm
    exact on
  · rintro w hm
    obtain ⟨l, -, -, rfl⟩ := mem_revokesOn.mp hm
    exact hre
  · refine (Store.leaseState_setLeaseState s r r' _).trans ?_
    rw [if_neg hw, hre]
    split
    · next hh => rw [hh]
    · rfl

theorem revokeLoop_commit {live : List Lease} {now : Time} {rev : String → Nat} (rs : List String) (s : Store)
    (hdi : rs.Nodup) (hre : ∀ r ∈ rs, rev r = s.revision r + 1)
    (hso : ∀ r ∈ rs, ∃ l ∈ live, l.relayID = r) :
    Commit s (rs.foldl (Store.revokeOn live now) s) (rs.flatMap (revokesOn live now rev)) := by
  induction rs generalizing s with
  | nil => exact Commit.refl s
  | cons r rs ih =>
    rw [List.nodup_cons] at hdi
    have hco := revokeOn_commit now (hre r List.mem_cons_self) (hso r List.mem_cons_self)
    have on : ∀ r', ∀ w ∈ revokesOn live now rev r', w.relayID = r' := by
      intro r' w hm
      obtain ⟨l, -, on, rfl⟩ := mem_revokesOn.mp hm
      exact on
    have hrv : ∀ r' ∈ rs, rev r' = (s.revokeOn live now r).revision r' + 1 := by
      intro r' hm
      rw [hco.revision, if_neg, hre r' (List.mem_cons_of_mem _ hm)]
      intro hw
      obtain ⟨w, hmb, rfl⟩ := List.mem_map.mp hw
      exact hdi.1 (on r w hmb ▸ hm)
    refine hco.trans (ih _ hdi.2 hrv fun r' hm => hso r' (List.mem_cons_of_mem _ hm)) ?_
    intro w hm w' hme hsm
    obtain ⟨r', hmr, hme⟩ := List.mem_flatMap.mp hme
    exact hdi.1 (((on r w hm).symm.trans (hsm.trans (on r' w' hme))) ▸ hmr)

def revokeWrites (s : Store) (userID : String) (now : Time) : List Lease :=
  (sortedUnique ((s.liveLeasesForUser userID now).map Lease.relayID)).flatMap
    (revokesOn (s.liveLeasesForUser userID now) now fun r => s.revision r + 1)

theorem mem_revokeWrites {s : Store} {userID : String} {now : Time} {w : Lease} :
    w ∈ revokeWrites s userID now ↔
      ∃ l ∈ s.liveLeasesForUser userID now, w = l.revoke now (s.revision l.relayID + 1) := by
  simp only [revokeWrites, List.mem_flatMap, mem_sortedUnique, mem_revokesOn, List.mem_map]
  grind

theorem Store.revokeUserLeases_commit (s : Store) (userID : String) (now : Time) :
    Commit s (s.revokeUserLeases userID now).1 (revokeWrites s userID now) := by
  refine revokeLoop_commit _ s (nodup_sortedUnique _) (fun _ _ => rfl) fun r hm => ?_
  simpa using hm

theorem revokeWrites_nodup {s : Store} (hk : s.leases.Keyed Lease.id) (userID : String) (now : Time) :
    ((revokeWrites s userID now).map Lease.id).Nodup := by
  have hl := Store.nodup_liveLeasesForUser hk userID now
  rw [revokeWrites, List.map_flatMap, List.nodup_flatMap]
  constructor
  · intro r _
    rw [revokesOn, List.map_map]
    exact hl.sublist (List.filter_sublist.map _)
  · refine (nodup_sortedUnique _).imp fun {r r'} hd id hfi hse => ?_
    obtain ⟨w, hm, rfl⟩ := List.mem_map.mp hfi
    obtain ⟨w', hme, hsm⟩ := List.mem_map.mp hse
    obtain ⟨l, hmL, rfl, rfl⟩ := mem_revokesOn.mp hm
    obtain ⟨l', hmm, rfl, rfl⟩ := mem_revokesOn.mp hme
    exact hd (congrArg Lease.relayID (List.inj_on_of_nodup_map hl hmL hmm hsm.symm))

end OpenRung.Broker
