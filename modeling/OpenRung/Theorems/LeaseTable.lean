import Mathlib.Logic.Relation
import OpenRung.Theorems.Revision

/-! The invariant of the lease table. Each user holds at most one live lease on a relay and at most the cap of them,
    each relay carries at most its cap, a disabled user holds none, and a lease that was revoked or has expired does
    not come back. -/

namespace OpenRung.Broker

structure Caps where
  maxPerUser : Int
  maxPerRelay : Int

def Caps.perUser (caps : Caps) : Int := orDefault caps.maxPerUser defaultMaxLeasesPerUser
def Caps.perRelay (caps : Caps) : Int := orDefault caps.maxPerRelay defaultMaxLeasesPerRelay

structure TableAt (caps : Caps) (s : Store) (now : Time) : Prop where
  pair : ∀ l l', s.leases.lookup l.id = some l → s.leases.lookup l'.id = some l' → l.userID = l'.userID →
    l.relayID = l'.relayID → l.live now → l'.live now → l = l'
  perUser : ∀ u, ((s.liveLeasesForUser u now).length : Int) ≤ caps.perUser
  perRelay : ∀ r, (s.liveLeaseCountForRelay r now : Int) ≤ caps.perRelay
  disabled : ∀ u user, s.users.lookup u = some user → user.status = .disabled →
    ∀ l, s.leases.lookup l.id = some l → l.userID = u → l.live now = false

/-! ### Counting -/

theorem length_le_of_ids {ls : List Lease} (ids : List String) (hn : (ls.map Lease.id).Nodup)
    (sub : ∀ l ∈ ls, l.id ∈ ids) : ls.length ≤ ids.length := by
  have hsb : ls.map Lease.id ⊆ ids := by
    intro id hm
    obtain ⟨l, hme, rfl⟩ := List.mem_map.mp hm
    exact sub l hme
  simpa using (List.subperm_of_subset hn hsb).length_le

section Fewer
variable {s s' : Store} {now now' : Time} (keyed : s.leases.Keyed Lease.id) (keyed' : s'.leases.Keyed Lease.id)
include keyed keyed'

theorem perUser_le_of_fewer {u : String}
    (hfe : ∀ l, s'.leases.lookup l.id = some l → l.userID = u → l.live now' → s.leases.lookup l.id = some l ∧ l.live now) :
    (s'.liveLeasesForUser u now').length ≤ (s.liveLeasesForUser u now).length := by
  refine le_of_le_of_eq (length_le_of_ids _ (Store.nodup_liveLeasesForUser keyed' u now') fun l hm => ?_)
    (List.length_map Lease.id)
  obtain ⟨hs, hu, hl⟩ := (Store.mem_liveLeasesForUser keyed').mp hm
  obtain ⟨hs, hl⟩ := hfe l hs hu hl
  exact List.mem_map_of_mem ((Store.mem_liveLeasesForUser keyed).mpr ⟨hs, hu, hl⟩)

theorem perRelay_le_of_fewer {r : String}
    (hfe : ∀ l, s'.leases.lookup l.id = some l → l.relayID = r → l.live now' → s.leases.lookup l.id = some l ∧ l.live now) :
    s'.liveLeaseCountForRelay r now' ≤ s.liveLeaseCountForRelay r now := by
  unfold Store.liveLeaseCountForRelay
  refine le_of_le_of_eq (length_le_of_ids _ (Store.nodup_liveLeasesForRelay keyed' r now') fun l hm => ?_)
    (List.length_map Lease.id)
  obtain ⟨hs, on, hl⟩ := (Store.mem_liveLeasesForRelay keyed').mp hm
  obtain ⟨hs, hl⟩ := hfe l hs on hl
  exact List.mem_map_of_mem ((Store.mem_liveLeasesForRelay keyed).mpr ⟨hs, on, hl⟩)

theorem TableAt.of_fewer {caps : Caps} (ht : TableAt caps s now)
    (hfe : ∀ l, s'.leases.lookup l.id = some l → l.live now' → s.leases.lookup l.id = some l ∧ l.live now)
    (disabled : ∀ u user, s'.users.lookup u = some user → user.status = .disabled →
      (∃ user, s.users.lookup u = some user ∧ user.status = .disabled) ∨
        ∀ l, s'.leases.lookup l.id = some l → l.userID = u → l.live now' = false) : TableAt caps s' now' where
  pair := fun l l' hs hst user on hl hli =>
    ht.pair l l' (hfe l hs hl).1 (hfe l' hst hli).1 user on (hfe l hs hl).2
      (hfe l' hst hli).2
  perUser := fun u => le_trans (Int.ofNat_le.mpr (perUser_le_of_fewer keyed keyed' fun l hs _ hl =>
    hfe l hs hl)) (ht.perUser u)
  perRelay := fun r => le_trans (Int.ofNat_le.mpr (perRelay_le_of_fewer keyed keyed' fun l hs _ hl =>
    hfe l hs hl)) (ht.perRelay r)
  disabled := by
    intro u user hf hsu l hs ho
    rcases disabled u user hf hsu with ⟨user', hfo, hss⟩ | hno
    · by_contra hl
      obtain ⟨hb, ha⟩ := hfe l hs (by simpa using hl)
      rw [ht.disabled u user' hfo hss l hb ho] at ha
      cases ha
    · exact hno l hs ho

end Fewer

theorem TableAt.later {caps : Caps} {s : Store} {now now' : Time} (hke : s.leases.Keyed Lease.id)
    (ht : TableAt caps s now) (le : now ≤ now') : TableAt caps s now' :=
  ht.of_fewer hke hke (fun _ hs hl => ⟨hs, Lease.live_antitone le hl⟩)
    fun _ user hf hsu => .inl ⟨user, hf, hsu⟩

/-! ### An issue keeps the table -/

namespace Issuing
variable {caps : Caps} {s : Store} {req : LeaseIssueRequest} {mint : String → Option (String × String)} {now : Time}
  {plan : LeaseIssuePlan} {drawn : List Lease} (h : Issuing s req mint now plan drawn)
  (keyed : s.leases.Keyed Lease.id) {used : String → Prop} (fresh : FreshDraws s used drawn) (table : TableAt caps s now)
include h

theorem drawn_fields {l : Lease} (hm : l ∈ drawn) : l.userID = req.userID ∧ l.revokedAt = none := by
  obtain ⟨id, c, -, eq⟩ := h.drawn_each l hm
  rw [eq]
  exact ⟨rfl, rfl⟩

include keyed fresh

/-- A lease that is live after an issue: it was live before and not evicted, or it was drawn for a relay with room. -/
theorem live_after {l : Lease} (hs : (issueLoop s req now plan drawn).1.leases.lookup l.id = some l)
    (hl : l.live now) :
    (∃ old, s.leases.lookup l.id = some old ∧ old.live now ∧ old.userID = l.userID ∧ old.relayID = l.relayID ∧
      (old = l ∨ plan.extend.lookup l.relayID = some old ∧ l.expiresAt = now + req.ttl) ∧
      ∀ v ∈ plan.evicted (s.eligible req plan now), v.id ≠ l.id) ∨
    ∃ d ∈ drawn, d.id = l.id ∧ s.eligible req plan now d.relayID ∧ l.relayID = d.relayID ∧ l.userID = req.userID := by
  have he := issue_effect keyed h fresh
  have hei : ∀ v ∈ plan.evicted (s.eligible req plan now),
      v.revoke now (s.revision v.relayID + 1) ∈ issueWrites s req now plan drawn :=
    fun v hev => h.mem_writes.mpr (.inl ⟨v, hev, rfl⟩)
  rcases (KeyedMap.lookup_putAll he.nodup s.leases).mp (he.leases ▸ hs) with ⟨hm, -⟩ | ⟨old, hun⟩
  · rcases h.mem_writes.mp hm with ⟨v, -, rfl⟩ | ⟨old, hf, rfl⟩ | ⟨d, hdr, hr, rfl⟩
    · rw [Lease.revoke_not_live] at hl
      cases hl
    · obtain ⟨hs, -, ha, -, hre⟩ := h.extend_stored keyed hf
      refine .inl ⟨old, hs, ha, rfl, rfl, .inr ⟨hf, rfl⟩, fun v hev hsa => ?_⟩
      obtain ⟨hsr, -, -, hou⟩ := h.evicted_stored keyed hev
      obtain rfl : v = old := Option.some.inj (hsr.symm.trans (hsa ▸ hs))
      exact hou hre
    · exact .inr ⟨d, hdr, rfl, hr, rfl, (h.drawn_fields hdr).1⟩
  · refine .inl ⟨l, old, hl, rfl, rfl, .inl rfl, fun v hev hsa => ?_⟩
    exact hun _ (hei v hev) hsa

theorem keyed_after : (issueLoop s req now plan drawn).1.leases.Keyed Lease.id :=
  (issue_effect keyed h fresh).leases ▸ keyed.putAll

theorem perUser_length :
    ((issueLoop s req now plan drawn).1.liveLeasesForUser req.userID now).length +
        (plan.evicted (s.eligible req plan now)).length ≤
      (s.liveLeasesForUser req.userID now).length + (plan.create.filter (s.eligible req plan now)).length := by
  have hk := h.keyed_after keyed fresh
  have hcr : (drawn.filter fun d => s.eligible req plan now d.relayID).length =
      (plan.create.filter (s.eligible req plan now)).length := by
    rw [← h.drawn_relays, List.filter_map, List.length_map]
    rfl
  rw [← hcr, ← List.length_append, ← List.length_append]
  refine le_of_le_of_eq (length_le_of_ids _ ?_ fun l hm => ?_) (List.length_map Lease.id)
  · rw [List.map_append, List.nodup_append]
    refine ⟨Store.nodup_liveLeasesForUser hk _ _, h.evicted_nodup keyed, ?_⟩
    -- An evicted lease is not live afterwards, and no draw has its id.
    rintro id hm id' hmm rfl
    obtain ⟨l, hme, rfl⟩ := List.mem_map.mp hm
    obtain ⟨v, hev, hsa⟩ := List.mem_map.mp hmm
    obtain ⟨hs, -, hl⟩ := (Store.mem_liveLeasesForUser hk).mp hme
    rcases h.live_after keyed fresh hs hl with ⟨-, -, -, -, -, -, hkp⟩ | ⟨d, hdr, hse, -⟩
    · exact hkp v hev hsa
    · have := fresh.unused d hdr
      rw [hse, ← hsa, (h.evicted_stored keyed hev).1] at this
      cases this
  · rw [List.map_append, List.mem_append]
    rcases List.mem_append.mp hm with hme | hev
    · obtain ⟨hs, hu, hl⟩ := (Store.mem_liveLeasesForUser hk).mp hme
      rcases h.live_after keyed fresh hs hl with ⟨old, hb, ha, ho, -⟩ | ⟨d, hdr, hsa, hr, -⟩
      · have hsa := keyed _ _ hb
        refine .inl (hsa ▸ List.mem_map_of_mem ((Store.mem_liveLeasesForUser keyed).mpr ⟨?_, ho.trans hu, ha⟩))
        rw [hsa]
        exact hb
      · exact .inr (hsa ▸ List.mem_map_of_mem (List.mem_filter.mpr ⟨hdr, hr⟩))
    · obtain ⟨hs, hu, hl, -⟩ := h.evicted_stored keyed hev
      exact .inl (List.mem_map_of_mem ((Store.mem_liveLeasesForUser keyed).mpr ⟨hs, hu, hl⟩))

omit fresh in
theorem inside_le_requested (hp : ∀ l l', s.leases.lookup l.id = some l → s.leases.lookup l'.id = some l' →
      l.userID = l'.userID → l.relayID = l'.relayID → l.live now → l'.live now → l = l') :
    (s.liveLeasesForUser req.userID now).length + (plan.create.filter (s.eligible req plan now)).length ≤
      plan.candidates.length + req.relayIDs.length := by
  have hd := List.Nodup.of_map _ (Store.nodup_liveLeasesForUser keyed req.userID now)
  refine h.planned.inside_le_requested h.relayIDs (List.Nodup.map_on (fun l hm l' hmm same => ?_) hd) _
  obtain ⟨hs, hu, ha⟩ := (Store.mem_liveLeasesForUser keyed).mp hm
  obtain ⟨hst, hus, hal⟩ := (Store.mem_liveLeasesForUser keyed).mp hmm
  exact hp l l' hs hst (hu.trans hus.symm) same ha hal

include table

theorem perUser_after (cap : req.maxPerUser = caps.perUser) (u : String) :
    (((issueLoop s req now plan drawn).1.liveLeasesForUser u now).length : Int) ≤ caps.perUser := by
  by_cases hmi : u = req.userID
  · subst hmi
    have hc := h.perUser_length keyed fresh
    have heo := h.inside_le_requested keyed table.pair
    have hft := h.planned.fits
    rw [LeaseIssuePlan.evicted_eq_take, List.length_take, h.planned.liveCount, h.planned.maxPerUser] at hc
    rw [cap] at hft hc
    omega
  · -- Nothing of another user is written.
    refine le_trans (Int.ofNat_le.mpr (perUser_le_of_fewer keyed (h.keyed_after keyed fresh) ?_)) (table.perUser u)
    intro l hs ho hl
    rcases h.live_after keyed fresh hs hl with ⟨old, hb, -, hon, -, same | ⟨hf, -⟩, -⟩ | ⟨-, -, -, -, -, hu⟩
    · exact ⟨same ▸ hb, hl⟩
    · exact absurd (ho.symm.trans (hon.symm.trans (h.extend_stored keyed hf).2.1)) hmi
    · exact absurd (ho.symm.trans hu) hmi

theorem perRelay_after (cap : req.maxPerRelay = caps.perRelay) (r : String) :
    ((issueLoop s req now plan drawn).1.liveLeaseCountForRelay r now : Int) ≤ caps.perRelay := by
  have hk := h.keyed_after keyed fresh
  have hb : ∀ l, l ∈ (issueLoop s req now plan drawn).1.liveLeasesForRelay r now →
      l.id ∈ (s.liveLeasesForRelay r now).map Lease.id ∨
        ∃ d ∈ drawn, d.id = l.id ∧ d.relayID = r ∧ s.eligible req plan now r := by
    intro l hm
    obtain ⟨hs, on, hl⟩ := (Store.mem_liveLeasesForRelay hk).mp hm
    rcases h.live_after keyed fresh hs hl with ⟨old, hb, ha, -, on', -⟩ | ⟨d, hdr, hsa, hr, on', -⟩
    · have hsa := keyed _ _ hb
      refine .inl (hsa ▸ List.mem_map_of_mem ((Store.mem_liveLeasesForRelay keyed).mpr ⟨?_, on'.trans on, ha⟩))
      rw [hsa]
      exact hb
    · have onD : d.relayID = r := on'.symm.trans on
      exact .inr ⟨d, hdr, hsa, onD, onD ▸ hr⟩
  have hn := Store.nodup_liveLeasesForRelay hk r now
  by_cases new : ∃ d ∈ drawn, d.relayID = r ∧ s.eligible req plan now r
  · -- One lease is added, to a relay that had room.
    obtain ⟨d, hdr, onD, hr⟩ := new
    have hd : (drawn.map Lease.relayID).Nodup := h.drawn_relays ▸ h.create_nodup
    have hc := length_le_of_ids (d.id :: (s.liveLeasesForRelay r now).map Lease.id) hn fun l hm => by
      rcases hb l hm with old | ⟨d', hdw, hsa, hoD, -⟩
      · exact List.mem_cons_of_mem _ old
      · obtain rfl := List.inj_on_of_nodup_map hd hdr hdw (onD.trans hoD.symm)
        exact hsa ▸ List.mem_cons_self
    have hls : (s.liveLeaseCountForRelay r now : Int) < caps.perRelay := by
      simp only [Store.eligible, Bool.and_eq_true, decide_eq_true_eq] at hr
      exact cap ▸ hr.2
    simp only [List.length_cons, List.length_map] at hc
    unfold Store.liveLeaseCountForRelay at hls ⊢
    omega
  · have hc := length_le_of_ids ((s.liveLeasesForRelay r now).map Lease.id) hn fun l hm => by
      rcases hb l hm with old | ⟨d, hdr, -, onD, hr⟩
      · exact old
      · exact absurd ⟨d, hdr, onD, hr⟩ new
    have hbo := table.perRelay r
    simp only [List.length_map] at hc
    unfold Store.liveLeaseCountForRelay at hbo ⊢
    omega

omit table in
theorem unique_after {l l' : Lease} (hs : (issueLoop s req now plan drawn).1.leases.lookup l.id = some l)
    (hst : (issueLoop s req now plan drawn).1.leases.lookup l'.id = some l') (hu : l.userID = l'.userID)
    (on : l.relayID = l'.relayID) (hl : l.live now) (hli : l'.live now)
    (hb : ∀ old old', s.leases.lookup old.id = some old → s.leases.lookup old'.id = some old' →
      old.live now → old'.live now → old.userID = old'.userID → old.relayID = old'.relayID →
      (old = l ∨ plan.extend.lookup l.relayID = some old ∧ l.expiresAt = now + req.ttl) →
      (old' = l' ∨ plan.extend.lookup l'.relayID = some old' ∧ l'.expiresAt = now + req.ttl) → old = old') : l = l' := by
  have hsL : l.id = l'.id → l = l' := fun same => Option.some.inj (hs.symm.trans (same ▸ hst))
  refine hsL ?_
  rcases h.live_after keyed fresh hs hl with ⟨old, hf, ha, ho, hol, how, -⟩ | ⟨d, hdr, hsa, -, onD, ho⟩
  · rcases h.live_after keyed fresh hst hli with
      ⟨old', hfo, hal, hon, hoO, hho, -⟩ | ⟨d', hdw, -, -, hoD, hon⟩
    · have id := keyed _ _ hf
      have id' := keyed _ _ hfo
      rw [← id, ← id', hb old old' (id ▸ hf) (id' ▸ hfo) ha hal (ho.trans (hu.trans hon.symm))
        (hol.trans (on.trans hoO.symm)) how hho]
    · -- A relay with a live lease of the user gets no draw.
      refine absurd (hol.trans (on.trans hoD)) ((h.planned.mem_create.mp (h.drawn_create hdw)).2 old ?_)
      exact (Store.mem_liveLeasesForUser keyed).mpr
        ⟨(keyed _ _ hf).symm ▸ hf, ho.trans (hu.trans hon), ha⟩
  · rcases h.live_after keyed fresh hst hli with
      ⟨old', hfo, hal, hoe, hoO, -⟩ | ⟨d', hdw, hse, -, hoD, -⟩
    · refine absurd (hoO.trans (on.symm.trans onD)) ((h.planned.mem_create.mp (h.drawn_create hdr)).2 old' ?_)
      exact (Store.mem_liveLeasesForUser keyed).mpr
        ⟨(keyed _ _ hfo).symm ▸ hfo, hoe.trans (hu.symm.trans ho), hal⟩
    · have hd : (drawn.map Lease.relayID).Nodup := h.drawn_relays ▸ h.create_nodup
      rw [← hsa, ← hse, List.inj_on_of_nodup_map hd hdr hdw (onD.symm.trans (on.trans hoD))]

theorem table_after (hcU : req.maxPerUser = caps.perUser) (hcp : req.maxPerRelay = caps.perRelay) :
    TableAt caps (issueLoop s req now plan drawn).1 now where
  pair := fun l l' hs hst user on hl hli =>
    h.unique_after keyed fresh hs hst user on hl hli fun old old' hf hfo ha hal ho hol _ _ =>
      table.pair old old' hf hfo ho hol ha hal
  perUser := h.perUser_after keyed fresh table hcU
  perRelay := h.perRelay_after keyed fresh table hcp
  disabled := by
    -- The user of the request is enabled, and nothing of another user is written.
    intro u user hf hsu l hs ho
    rw [(h.commit keyed fresh).1.users] at hf
    obtain ⟨me, hfn, hen⟩ := h.enabled
    have hot : u ≠ req.userID := by
      rintro rfl
      obtain rfl : me = user := Option.some.inj (hfn.symm.trans hf)
      rw [hen] at hsu
      cases hsu
    by_contra ha
    have hl : l.live now = true := by simpa using ha
    rcases h.live_after keyed fresh hs hl with ⟨old, hb, -, hon, -, same | ⟨hfu, -⟩, -⟩ | ⟨-, -, -, -, -, hmi⟩
    · rw [table.disabled u user hf hsu l (same ▸ hb) ho] at hl
      cases hl
    · exact hot (ho.symm.trans (hon.symm.trans (h.extend_stored keyed hfu).2.1))
    · exact hot (ho.symm.trans hmi)

end Issuing

/-! ### Users -/

theorem Store.authenticateUser_disabled (s : Store) (key source : String) (windows : List EnrollmentWindow)
    (refuseNew : Option StoreError) (newUserID : Option String) (now : Time) {u : String} {user : User}
    (hf : (s.authenticateUser key source windows refuseNew newUserID now).1.users.lookup u = some user)
    (hsu : user.status = .disabled) : ∃ user, s.users.lookup u = some user ∧ user.status = .disabled := by
  unfold Store.authenticateUser at hf
  simp only at hf
  repeat' split at hf
  · simp only [KeyedMap.lookup_insert_eq] at hf
    split at hf
    · next hh =>
      subst hh
      obtain rfl := Option.some.inj hf
      cases hb : s.users.lookup u with
      | none =>
        rw [hb] at hsu
        cases hsu
      | some old => exact ⟨old, rfl, by rwa [hb] at hsu⟩
    · exact ⟨user, hf, hsu⟩
  · exact ⟨user, hf, hsu⟩
  · exact ⟨user, hf, hsu⟩
  · exact ⟨user, hf, hsu⟩
  · exact ⟨user, hf, hsu⟩
  all_goals
    simp only [KeyedMap.lookup_insert_eq] at hf
    split at hf
    · obtain rfl := Option.some.inj hf
      cases hsu
    · exact ⟨user, hf, hsu⟩

/-! ### Runs -/

structure World where
  store : Store := {}
  now : Time
  ids : List String := []

def Op.Capped (caps : Caps) : Op → Prop
  | .issueLeases req _ => req.maxPerUser = caps.maxPerUser ∧ req.maxPerRelay = caps.maxPerRelay
  | _ => True

inductive World.Step (checks : RegisterChecks) (caps : Caps) (w : World) : World → Prop
  | tick (t : Time) (later : w.now ≤ t) : Step checks caps w { w with now := t }
  | call (t : Time) (op : Op) (later : w.now ≤ t) (capped : op.Capped caps) (fresh : op.Fresh (· ∈ w.ids)) :
      Step checks caps w
        { store := (w.store.apply checks t op).1, now := t
          ids := w.ids ++ (w.store.apply checks t op).2.leases.map Lease.id }

def World.Steps (checks : RegisterChecks) (caps : Caps) : World → World → Prop :=
  Relation.ReflTransGen (World.Step checks caps)

def World.start (t : Time) : World := { now := t }

structure World.Inv (caps : Caps) (w : World) : Prop where
  keyed : w.store.leases.Keyed Lease.id
  known : ∀ id, w.store.leases.lookup id ≠ none → id ∈ w.ids
  table : TableAt caps w.store w.now

theorem World.Inv.start (caps : Caps) (t : Time) : (World.start t).Inv caps where
  keyed := fun _ _ h => by simp [World.start] at h
  known := fun _ h => by simp [World.start] at h
  table := {
    pair := fun _ _ h => by simp [World.start] at h
    perUser := fun u => le_of_lt (orDefault_pos (by decide) caps.maxPerUser)
    perRelay := fun r => le_of_lt (orDefault_pos (by decide) caps.maxPerRelay)
    disabled := fun _ _ h => by simp [World.start] at h
  }

theorem Effect.live_before {s s' : Store} {used : String → Prop} {now : Time} {ws : List Lease} {report : Report}
    (h : Effect s s' used now ws report) {id : String} {l old : Lease} (hs : s'.leases.lookup id = some l)
    (hb : s.leases.lookup id = some old) {t : Time} (le : now ≤ t) (hl : l.live t) : old.live now := by
  rcases h.lookup.mp hs with ⟨hm, rfl⟩ | ⟨same, -⟩
  · cases h.written l hm with
    | revoked l' hst ha =>
      rw [Lease.revoke_not_live] at hl
      cases hl
    | renewed l' ttl _ hst ha =>
      obtain rfl : l' = old := Option.some.inj (hst.symm.trans hb)
      exact ha
    | created l' _ huu _ _ => cases huu.symm.trans hb
  · obtain rfl : l = old := Option.some.inj (same.symm.trans hb)
    exact Lease.live_antitone le hl

theorem Store.apply_known (checks : RegisterChecks) {s : Store} (hke : s.leases.Keyed Lease.id) {ids : List String}
    (hkn : ∀ id, s.leases.lookup id ≠ none → id ∈ ids) {t : Time} {op : Op} (hfr : op.Fresh (· ∈ ids)) (id : String)
    (hs : (s.apply checks t op).1.leases.lookup id ≠ none) :
    id ∈ ids ++ (s.apply checks t op).2.leases.map Lease.id := by
  obtain ⟨l, hs⟩ := Option.ne_none_iff_exists'.mp hs
  rw [List.mem_append]
  rcases s.apply_effect checks t op hke hkn hfr with rfl | ⟨ws, he⟩
  · have old := Store.lookup_of_prune hs
    exact .inl (hkn id (by simp [old]))
  · rcases he.lookup.mp hs with ⟨hm, rfl⟩ | ⟨old, -⟩
    · cases he.written l hm with
      | revoked l' hst _ => exact .inl (hkn l'.id (by simp [hst]))
      | renewed l' ttl _ hst _ => exact .inl (hkn l'.id (by simp [hst]))
      | created l' _ _ hur _ => exact .inr (List.mem_map_of_mem ((he.reported _).mpr ⟨hm, hur⟩))
    · exact .inl (hkn id (by simp [old]))

theorem Store.apply_keyed (checks : RegisterChecks) {s : Store} (hke : s.leases.Keyed Lease.id) {ids : List String}
    (hkn : ∀ id, s.leases.lookup id ≠ none → id ∈ ids) {t : Time} {op : Op} (hfr : op.Fresh (· ∈ ids)) :
    (s.apply checks t op).1.leases.Keyed Lease.id := by
  rcases s.apply_effect checks t op hke hkn hfr with rfl | ⟨ws, he⟩
  · exact hke.filter _
  · exact he.keyed hke

namespace World.Inv
variable {checks : RegisterChecks} {caps : Caps} {w : World}

theorem table_after (inv : w.Inv caps) {t : Time} {op : Op} (hla : w.now ≤ t) (hca : op.Capped caps)
    (hfr : op.Fresh (· ∈ w.ids)) : TableAt caps (w.store.apply checks t op).1 t := by
  have ht : TableAt caps w.store t := inv.table.later inv.keyed hla
  -- An operation that leaves the leases alone, and disables nobody, keeps the table.
  have hq : ∀ s' : Store, s'.leases = w.store.leases →
      (∀ u user, s'.users.lookup u = some user → user.status = .disabled →
        ∃ user, w.store.users.lookup u = some user ∧ user.status = .disabled) → TableAt caps s' t := by
    intro s' hle users
    refine ht.of_fewer inv.keyed (hle ▸ inv.keyed) (fun l hs hl => ⟨hle ▸ hs, hl⟩) ?_
    exact fun u user hf status => .inl (users u user hf status)
  have hsm : ∀ s' : Store, s'.users = w.store.users → ∀ u user, s'.users.lookup u = some user →
      user.status = .disabled → ∃ user, w.store.users.lookup u = some user ∧ user.status = .disabled :=
    fun s' users u user hf status => ⟨user, users ▸ hf, status⟩
  cases op with
  | authenticateUser key source windows refuseNew newUserID =>
    refine hq _ (w.store.authenticateUser_frame key source windows refuseNew newUserID t).1 ?_
    exact fun u user hf status => w.store.authenticateUser_disabled key source windows refuseNew newUserID t hf status
  | setUserStatus id status reason =>
    rcases w.store.setUserStatus_cases id status reason t with ⟨user, eq, off⟩ | ⟨user, eq, on⟩ | ⟨e, eq⟩
    · simp only [Store.apply, eq]
      have he : Effect w.store { (w.store.revokeUserLeases id t).1 with users := w.store.users.insert id user } (· ∈ w.ids) t
          _ _ := revoke_effect inv.keyed id t rfl rfl
      have hfe : ∀ l, (w.store.revokeUserLeases id t).1.leases.lookup l.id = some l → l.live t →
          w.store.leases.lookup l.id = some l ∧ l.userID ≠ id := by
        intro l hs hl
        rcases he.lookup.mp hs with ⟨hm, -⟩ | ⟨old, hun⟩
        · obtain ⟨l', -, rfl⟩ := mem_revokeWrites.mp hm
          rw [Lease.revoke_not_live] at hl
          cases hl
        · refine ⟨old, fun ho => ?_⟩
          have hmi := (Store.mem_liveLeasesForUser inv.keyed).mpr ⟨old, ho, hl⟩
          exact hun _ (mem_revokeWrites.mpr ⟨l, hmi, rfl⟩) rfl
      refine ht.of_fewer inv.keyed (he.keyed inv.keyed) (fun l hs hl => ⟨(hfe l hs hl).1, hl⟩) ?_
      intro u user' hf hdi
      rw [KeyedMap.lookup_insert_eq] at hf
      split at hf
      · next hh =>
        refine .inr fun l hs ho => ?_
        by_contra hl
        exact (hfe l hs (by simpa using hl)).2 (ho.trans hh)
      · exact .inl ⟨user', hf, hdi⟩
    · simp only [Store.apply, eq]
      refine hq _ rfl fun u user' hf hdi => ?_
      rw [KeyedMap.lookup_insert_eq] at hf
      split at hf
      · obtain rfl := Option.some.inj hf
        rw [on] at hdi
        cases hdi
      · exact ⟨user', hf, hdi⟩
    · simp only [Store.apply, eq]
      exact ht
  | issueLeases req mint =>
    rcases w.store.issueLeases_cases req mint t with ⟨e, eq⟩ | ⟨plan, drawn, hi, eq⟩
    · simp only [Store.apply, eq]
      exact ht
    · simp only [Store.apply, eq]
      have draws := FreshMint.draws hi inv.known hfr
      refine hi.table_after inv.keyed draws ht ?_ ?_
      · exact congrArg (orDefault · defaultMaxLeasesPerUser) hca.1
      · exact congrArg (orDefault · defaultMaxLeasesPerRelay) hca.2
  | relayLeaseSet relayID token => exact ht
  | ackLeaseRevision relayID token revision =>
    obtain ⟨hle, -, users, -⟩ := w.store.ackLeaseRevision_frame relayID token revision
    exact hq _ hle (hsm _ users)
  | register req draws ttl =>
    obtain ⟨hle, -, users⟩ := w.store.register_frame checks req draws t ttl
    exact hq _ hle (hsm _ users)
  | heartbeat id token maxClass clientID ttl =>
    obtain ⟨hle, -, users⟩ := w.store.heartbeat_frame id token maxClass clientID t ttl
    exact hq _ hle (hsm _ users)
  | updateGeo id token geo =>
    obtain ⟨hle, -, users⟩ := w.store.updateRelay_frame id token ({ · with geoLocation := geo })
    exact hq _ hle (hsm _ users)
  | updateReachability id token reachable =>
    obtain ⟨hle, -, users⟩ := w.store.updateRelay_frame id token
      ({ · with reachable := reachable, reachabilityCheckedAt := some t })
    exact hq _ hle (hsm _ users)
  | updateAccessReachability id token reachable =>
    obtain ⟨hle, -, users⟩ := w.store.updateRelay_frame id token
      ({ · with accessReachable := reachable, accessReachabilityCheckedAt := some t })
    exact hq _ hle (hsm _ users)
  | prune =>
    refine ht.of_fewer inv.keyed (inv.keyed.filter _) ?_ fun u user hf status => .inl ⟨user, hf, status⟩
    exact fun l hs hl => ⟨Store.lookup_of_prune hs, hl⟩

theorem step {w' : World} (inv : w.Inv caps) (hsp : World.Step checks caps w w') : w'.Inv caps := by
  cases hsp with
  | tick t hla => exact ⟨inv.keyed, inv.known, inv.table.later inv.keyed hla⟩
  | call t op hla hca hfr =>
    exact ⟨Store.apply_keyed checks inv.keyed inv.known hfr, Store.apply_known checks inv.keyed inv.known hfr,
      inv.table_after hla hca hfr⟩

theorem steps {w' : World} (inv : w.Inv caps) (run : World.Steps checks caps w w') : w'.Inv caps := by
  induction run with
  | refl => exact inv
  | tail _ hsp ih => exact ih.step hsp

end World.Inv

/-- The lease under `id` is revoked, expired or gone for good. -/
def World.Dead (w : World) (id : String) : Prop :=
  id ∈ w.ids ∧ ∀ l, w.store.leases.lookup id = some l → l.live w.now = false

theorem World.Dead.step {checks : RegisterChecks} {caps : Caps} {w w' : World} {id : String} (hde : w.Dead id)
    (inv : w.Inv caps) (hsp : World.Step checks caps w w') : w'.Dead id := by
  cases hsp with
  | tick t hla =>
    refine ⟨hde.1, fun l hs => ?_⟩
    by_contra hl
    have hb := Lease.live_antitone hla (by simpa using hl)
    rw [hde.2 l hs] at hb
    cases hb
  | call t op hla hca hfr =>
    refine ⟨List.mem_append_left _ hde.1, fun l hs => ?_⟩
    by_contra ha
    have hl : l.live t = true := by simpa using ha
    rcases w.store.apply_effect checks t op inv.keyed inv.known hfr with rfl | ⟨ws, he⟩
    · have hb := Lease.live_antitone hla hl
      rw [hde.2 l (Store.lookup_of_prune hs)] at hb
      cases hb
    · cases hb : w.store.leases.lookup id with
      | none =>
        -- An id that has been used is not drawn again.
        rcases he.lookup.mp hs with ⟨hm, rfl⟩ | ⟨old, -⟩
        · cases he.written l hm with
          | revoked l' hst _ => cases hb.symm.trans hst
          | renewed l' ttl _ hst _ => cases hb.symm.trans hst
          | created l' new _ _ _ => exact new hde.1
        · cases hb.symm.trans old
      | some old =>
        have was := Lease.live_antitone hla (he.live_before hs hb (le_refl t) hl)
        rw [hde.2 old hb] at was
        cases was

theorem World.Dead.steps {checks : RegisterChecks} {caps : Caps} {w w' : World} {id : String} (hde : w.Dead id)
    (inv : w.Inv caps) (run : World.Steps checks caps w w') : w'.Dead id := by
  induction run with
  | refl => exact hde
  | tail run hsp ih => exact ih.step (inv.steps run) hsp

theorem lease_table_invariant (checks : RegisterChecks) (caps : Caps) {start : Time} {w : World}
    (run : World.Steps checks caps (World.start start) w) :
    (∀ t, w.now ≤ t → TableAt caps w.store t) ∧
    ∀ id l, w.store.leases.lookup id = some l → l.live w.now = false →
      ∀ w', World.Steps checks caps w w' → ∀ l', w'.store.leases.lookup id = some l' →
        ∀ t, w'.now ≤ t → l'.live t = false := by
  have inv := (World.Inv.start caps start).steps run
  refine ⟨fun t hla => inv.table.later inv.keyed hla, fun id l hs hde w' hru l' hst t hla => ?_⟩
  have hg : w.Dead id := by
    refine ⟨inv.known id (by simp [hs]), fun l'' hso => ?_⟩
    obtain rfl : l = l'' := Option.some.inj (hs.symm.trans hso)
    exact hde
  by_contra ha
  have hl := Lease.live_antitone hla (by simpa using ha)
  rw [(hg.steps inv hru).2 l' hst] at hl
  cases hl

def firstLease : World := { store := leased, now := 3, ids := ["lease_1"] }

theorem firstLease_run : World.Steps oneRelayChecks ⟨2, 2⟩ (World.start 0) firstLease := by
  let register : Op := .register { identityPublicKey := "key" } ⟨none, some "token"⟩ 1000
  let authenticate : Op := .authenticateUser "public key" "source" [] none (some "user_1")
  let registered : World := { store := (({} : Store).apply oneRelayChecks 1 register).1, now := 1 }
  have hfi : World.Step oneRelayChecks ⟨2, 2⟩ (World.start 0) registered :=
    .call 1 register (by decide) trivial trivial
  have hsc : World.Step oneRelayChecks ⟨2, 2⟩ registered { store := enrolled, now := 2 } :=
    .call 2 authenticate (by decide) trivial trivial
  have hth : World.Step oneRelayChecks ⟨2, 2⟩ { store := enrolled, now := 2 } firstLease :=
    .call 3 (issueOnRelay "lease_1") (by decide) ⟨rfl, rfl⟩ (issueOnRelay_fresh (by decide))
  exact ((Relation.ReflTransGen.single hfi).tail hsc).tail hth

theorem lease_table_invariant_firstLease :
    TableAt ⟨2, 2⟩ leased 3 ∧
    ∀ l', (leased.apply oneRelayChecks 100 (issueOnRelay "lease_2")).1.leases.lookup "lease_1" = some l' →
      l'.live 100 = false := by
  obtain ⟨ht, -⟩ := lease_table_invariant oneRelayChecks ⟨2, 2⟩ firstLease_run
  refine ⟨ht 3 (le_refl _), fun l' hs => ?_⟩
  have hex : World.Steps oneRelayChecks ⟨2, 2⟩ (World.start 0) { firstLease with now := 100 } :=
    firstLease_run.tail (.tick 100 (by decide))
  obtain ⟨-, hde⟩ := lease_table_invariant oneRelayChecks ⟨2, 2⟩ hex
  have his : World.Step oneRelayChecks ⟨2, 2⟩ { firstLease with now := 100 } _ :=
    .call 100 (issueOnRelay "lease_2") (le_refl _) ⟨rfl, rfl⟩ (issueOnRelay_fresh (by decide))
  exact hde "lease_1" _ rfl rfl _ (.single his) l' hs 100 (le_refl _)

end OpenRung.Broker
