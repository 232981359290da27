import OpenRung.System.Access
import OpenRung.Theorems.Spared
import OpenRung.Theorems.Sync

/-! What an access request hands out. It waits for the revision at which its lease was issued, and a relay that has
    applied this revision or a later one has had the lease in its set, unless the lease was revoked in between. -/

namespace OpenRung
open Broker Relay

namespace System
variable {checks : RegisterChecks} {r : String} {sys sys' : System} {l : Lease}

/-! ### The latest record of a lease -/

def last (sys : System) (id : String) : Option Lease := sys.seen.find? fun l => decide (l.id = id)

def Expired (sys : System) (id : String) : Prop := ∃ l, sys.last id = some l ∧ l.expiresAt ≤ sys.clock

def Latest (sys : System) : Prop := ∀ id l, sys.store.leases.lookup id = some l → sys.last id = some l

theorem last_setStore (sys : System) {store : Store} (hk : store.leases.Keyed Lease.id) (id : String) :
    (sys.setStore store).last id = (store.leases.lookup id).or (sys.last id) := by
  unfold last setStore
  rw [List.find?_append, hk.find?_values]

theorem Latest.setStore {store : Store} (hk : store.leases.Keyed Lease.id) : (sys.setStore store).Latest := by
  intro id l hs
  rw [sys.last_setStore hk]
  exact (congrArg (Option.or · _) hs).trans rfl

theorem Latest.quiet (h : sys.Latest) (hle : sys'.store.leases = sys.store.leases) (hsn : sys'.seen = sys.seen) :
    sys'.Latest := by
  intro id l hs
  unfold last
  rw [hsn]
  exact h id l (hle ▸ hs)

theorem Latest.start (clock relayClock : Time) : (start clock relayClock).Latest :=
  fun _ _ stored => by simp [System.start] at stored

theorem Expired.quiet {id : String} (h : sys.Expired id) (hc : sys.clock ≤ sys'.clock) (hsn : sys'.seen = sys.seen) :
    sys'.Expired id := by
  obtain ⟨l, hfo, hpa⟩ := h
  exact ⟨l, by rw [last, hsn]; exact hfo, le_trans hpa hc⟩

theorem Expired.operate {id : String} (h : sys.Expired id) (hh : sys.History) (hl : sys.Latest) {op : Op}
    (hf : op.Fresh sys.Used) : (sys.setStore (sys.store.apply checks sys.clock op).1).Expired id := by
  have hk := (hh.stamped_apply checks sys.clock hf).keyed
  obtain ⟨l, hfo, hpa⟩ := h
  refine ⟨l, ?_, hpa⟩
  rw [sys.last_setStore hk]
  cases hs : (sys.store.apply checks sys.clock op).1.leases.lookup id with
  | none => exact hfo
  | some l' =>
    obtain rfl : l'.id = id := hk id l' hs
    rcases hh.stored_cases checks sys.clock hf hs with hb | ⟨old, hb, hlv, -⟩ | new
    · exact (hl _ l' hb).symm.trans hfo
    · obtain rfl := Option.some.inj ((hl _ old hb).symm.trans hfo)
      exact absurd (Lease.live_iff.mp hlv).2 (not_lt.mpr hpa)
    · refine absurd ⟨l, List.mem_of_find?_eq_some hfo, ?_⟩ new
      simpa using List.find?_some hfo

/-! ### A lease that is waited for -/

def Lists (resp : LeaseSyncResponse) (l : Lease) : Prop := ∃ e ∈ resp.leases, e.id = l.id ∧ e.credential = l.credential

/-- The lease is unrevoked in the store and in the set that the relay has applied last. -/
def Usable (sys : System) (l : Lease) : Prop :=
  (∃ l', sys.store.leases.lookup l.id = some l' ∧ l'.revokedAt = none) ∧
    ∃ p, sys.relay.appliedSet = some p ∧ Lists p.resp l

/-- Since its issue `l` has not been revoked, and each answer of its revision or a later one has it or came after its
    expiry. -/
structure Tracks (r : String) (l : Lease) (sys : System) : Prop where
  seen : l ∈ sys.seen
  relay : l.relayID = r
  pos : 1 ≤ l.revision
  unrevoked : ∀ l', sys.store.leases.lookup l.id = some l' → l'.revokedAt = none
  stored : sys.store.leases.lookup l.id ≠ none ∨ sys.Expired l.id
  answers : ∀ resp, sys.Answer resp → l.revision ≤ resp.revision → Lists resp l ∨ sys.Expired l.id
  sets : ∀ p, sys.relay.appliedSet = some p → l.revision ≤ p.resp.revision → Lists p.resp l ∨ sys.Expired l.id

namespace Tracks

theorem quiet (h : Tracks r l sys) (hc : sys.clock ≤ sys'.clock) (hle : sys'.store.leases = sys.store.leases)
    (seen : sys'.seen = sys.seen)
    (answers : ∀ resp, sys'.Answer resp → sys.Answer resp ∨ Lists resp l ∨ sys.Expired l.id)
    (sets : ∀ p, sys'.relay.appliedSet = some p → sys.relay.appliedSet = some p ∨ sys.Answer p.resp) :
    Tracks r l sys' where
  seen := seen ▸ h.seen
  relay := h.relay
  pos := h.pos
  unrevoked := hle ▸ h.unrevoked
  stored := h.stored.imp (fun ht => hle ▸ ht) fun he => he.quiet hc seen
  answers := by
    intro resp ha hr
    have hli : Lists resp l ∨ sys.Expired l.id := by
      rcases answers resp ha with old | new
      · exact h.answers resp old hr
      · exact new
    exact hli.imp_right fun he => he.quiet hc seen
  sets := by
    intro p hal hr
    have hli : Lists p.resp l ∨ sys.Expired l.id := by
      rcases sets p hal with old | ha
      · exact h.sets p old hr
      · exact h.answers p.resp ha hr
    exact hli.imp_right fun he => he.quiet hc seen

theorem operate (h : Tracks r l sys) (hh : sys.History) (hl : sys.Latest) {op : Op} (hf : op.Fresh sys.Used)
    (hsp : ∀ l', sys.store.leases.lookup l.id = some l' → op.Spares sys.store sys.clock l') :
    Tracks r l (sys.setStore (sys.store.apply checks sys.clock op).1) where
  seen := List.mem_append_right _ h.seen
  relay := h.relay
  pos := h.pos
  unrevoked := by
    intro l' stored
    obtain hsa : l'.id = l.id := (hh.stamped_apply checks sys.clock hf).keyed _ l' stored
    rcases hh.stored_cases checks sys.clock hf (hsa ▸ stored) with hb | ⟨old, hb, -, -⟩ | new
    · exact h.unrevoked l' (hsa ▸ hb)
    · rw [hsa] at hb
      obtain hsm : old.id = l.id := hh.stamped.keyed _ old hb
      exact Store.apply_spared hh.stamped.keyed (hsm ▸ hb) checks (fun _ => hh.used) hf
        (h.unrevoked old hb) (hsp old hb) (hsm ▸ stored)
    · exact absurd ⟨l, h.seen, hsa.symm⟩ new
  stored := by
    rcases h.stored with ht | he
    · obtain ⟨old, hb⟩ := Option.ne_none_iff_exists'.mp ht
      by_cases hke : (sys.store.apply checks sys.clock op).1.leases.lookup l.id = none
      · -- Only pruning drops a lease, long after its expiry.
        right
        refine Expired.operate ⟨old, hl _ old hb, ?_⟩ hh hl hf
        rcases sys.store.apply_effect checks sys.clock op hh.stamped.keyed (fun _ => hh.used) hf with
          rfl | ⟨ws, hef⟩
        · by_contra hun
          have hkp : sys.clock < old.expiresAt + leaseRetention := by
            have := leaseRetention_nonneg
            lia
          cases hke.symm.trans (KeyedMap.lookup_filter_eq_some.mpr ⟨hb, decide_eq_true hkp⟩)
        · by_cases hw : ∃ w ∈ ws, w.id = l.id
          · obtain ⟨w, hm, hsa⟩ := hw
            cases hke.symm.trans (hef.lookup.mpr (.inl ⟨hm, hsa⟩))
          · cases hke.symm.trans (hef.lookup.mpr (.inr ⟨hb, fun w hm same => hw ⟨w, hm, same⟩⟩))
      · exact .inl hke
    · exact .inr (he.operate hh hl hf)
  answers := fun resp ha hr =>
    (h.answers resp ha hr).imp_right fun he => he.operate hh hl hf
  sets := fun p hal hr =>
    (h.sets p hal hr).imp_right fun he => he.operate hh hl hf

theorem serve (h : Tracks r l sys) (hh : sys.History) (hl : sys.Latest) {token : String} {t : Time}
    (hps : t ≤ sys.clock) {set : RelayLeaseSet} (hra : sys.store.relayLeaseSet r token t = .ok set) :
    Lists (leaseSyncResponse set t) l ∨ sys.Expired l.id := by
  rcases h.stored with ht | he
  · obtain ⟨now, hs⟩ := Option.ne_none_iff_exists'.mp ht
    obtain hsa : now.id = l.id := hh.stamped.keyed _ now hs
    have same := hh.same now (hh.stored _ now hs) l h.seen hsa
    by_cases hlv : t < now.expiresAt
    · left
      refine ⟨_, List.mem_map_of_mem ((Store.mem_relayLeaseSet hh.stamped.keyed hra).mpr ?_), hsa, same.credential⟩
      exact ⟨hsa ▸ hs, same.relayID.trans h.relay, Lease.live_iff.mpr ⟨h.unrevoked now hs, hlv⟩⟩
    · exact .inr ⟨now, hl _ now hs, le_trans (not_lt.mp hlv) hps⟩
  · exact .inr he

theorem step (h : Tracks r l sys) (inv : sys.Inv r) (hl : sys.Latest) {admits : System → Time → Op → Prop}
    (hst : Step checks r admits sys sys')
    (hpr : ∀ t op, admits sys t op → t = sys.clock ∧
      ∀ l', sys.store.leases.lookup l.id = some l' → op.Spares sys.store t l') : Tracks r l sys' := by
  cases hst with
  | tick t hla => exact h.quiet hla rfl rfl (fun _ ha => .inl ha) fun _ applied => .inl applied
  | operate t op hou hf ham =>
    obtain ⟨rfl, hsp⟩ := hpr t op ham
    exact h.operate inv.history hl hf hsp
  | register t req draws ttl hf =>
    have hle := (sys.store.register_frame checks req draws t ttl).1
    exact h.quiet (le_refl _) hle rfl (fun _ ha => .inl ha) fun _ applied => .inl applied
  | restart t req draws ttl token hd hf hre =>
    have hle := (sys.store.register_frame checks req draws t ttl).1
    refine h.quiet (le_refl _) hle rfl (fun resp ha => ?_) fun p applied => by cases applied
    rcases ha with hrp | ⟨p, hp, -⟩
    · cases hrp
    · cases hp
  | serve id token full applied hak t hps set hra =>
    have hph := inv.named.phase
    rw [hak] at hph
    obtain rfl : id = r := hph.1
    refine h.quiet (le_refl _) rfl rfl (fun resp ha => ?_) fun _ applied => .inl applied
    rcases ha with hrp | hp
    · obtain rfl := Option.some.inj hrp
      exact .inr (h.serve inv.history hl hps hra)
    · exact .inl (.inr hp)
  | deliver token revision sent =>
    have hle := (sys.store.ackLeaseRevision_frame r token revision).1
    exact h.quiet (le_refl _) hle rfl (fun _ ha => .inl ha) fun _ applied => .inl applied
  | learn token hg => exact h.quiet (le_refl _) rfl rfl (fun _ ha => .inl ha) fun _ applied => .inl applied
  | relay relay label hst hss hac han =>
    refine h.quiet (le_refl _) rfl rfl (fun resp ha => .inl (answer_of_setRelay hst han resp ha).1) ?_
    intro p applied
    exact (hst.appliedSet_cases applied).imp_right fun hp => .inr ⟨p, hp, rfl⟩

theorem usable (h : Tracks r l sys) (inv : sys.Inv r) (hap : sys.relay.AppliedIs)
    (hal : l.revision ≤ sys.store.applied r) : sys.Usable l ∨ sys.Expired l.id := by
  have hr := le_trans hal inv.applied
  have pos := h.pos
  unfold Worker.AppliedIs at hap
  split at hap
  · omega
  · next p set =>
    rcases h.sets p set (hap ▸ hr) with hli | he
    · rcases h.stored with ht | he
      · obtain ⟨now, hs⟩ := Option.ne_none_iff_exists'.mp ht
        exact .inl ⟨⟨now, hs, h.unrevoked now hs⟩, p, set, hli⟩
      · exact .inr he
    · exact .inr he

end Tracks

theorem Inv.tracks_issued (inv : sys.Inv r) (hap : sys.relay.AppliedIs) {req : LeaseIssueRequest}
    {mint : String → Option (String × String)} (hf : (Op.issueLeases req mint).Fresh sys.Used)
    {result : LeaseIssueResult} (ok : (sys.store.issueLeases req mint sys.clock).2 = .ok result) {l : Lease}
    (his : l ∈ result.leases) (on : l.relayID = r) :
    Tracks r l (sys.setStore (sys.store.issueLeases req mint sys.clock).1) := by
  rcases sys.store.issueLeases_cases req mint sys.clock with ⟨e, eq⟩ | ⟨plan, drawn, hi, eq⟩
  · rw [eq] at ok
    cases ok
  · rw [eq] at ok ⊢
    obtain rfl := Except.ok.inj ok
    have hef := issue_effect inv.history.stamped.keyed hi (FreshMint.draws hi (fun _ => inv.history.used) hf)
    obtain ⟨hw, unrevoked⟩ := (hef.reported l).mp his
    have stored := hef.lookup.mpr (.inl ⟨hw, rfl⟩)
    have hrv := hef.stamped l hw
    rw [on] at hrv
    exact {
      seen := List.mem_append_left _ (KeyedMap.mem_values_iff.mpr ⟨_, stored⟩)
      relay := on
      pos := by omega
      unrevoked := fun l' hso => Option.some.inj (stored.symm.trans hso) ▸ unrevoked
      stored := .inl (by rw [System.setStore, stored]; simp)
      answers := by
        intro resp ha hr
        have := (inv.fair resp ha).revision
        omega
      sets := by
        intro p hal hr
        have same : p.resp.revision = sys.relay.sync.applied := by
          unfold Worker.AppliedIs at hap
          rw [show sys.relay.appliedSet = some p from hal] at hap
          exact hap
        have := inv.reached
        omega }

end System

/-! ### Rounds -/

namespace Broker

theorem le_wantRevision (want : KeyedMap String Nat) (lease : Lease) (r : String) :
    (want.lookup r).getD 0 ≤ ((wantRevision want lease).lookup r).getD 0 := by
  unfold wantRevision
  split
  · next hls =>
    rw [KeyedMap.lookup_insert_eq]
    split
    · next hhe => rw [hhe]; exact le_of_lt hls
    · exact le_refl _
  · exact le_refl _

theorem revision_le_wantRevision (want : KeyedMap String Nat) (lease : Lease) :
    lease.revision ≤ ((wantRevision want lease).lookup lease.relayID).getD 0 := by
  unfold wantRevision
  split
  · rw [AList.lookup_insert]
    exact le_refl _
  · next hr => exact not_lt.mp hr

theorem le_foldl_wantRevision (leases : List Lease) (want : KeyedMap String Nat) (r : String) :
    (want.lookup r).getD 0 ≤ ((leases.foldl wantRevision want).lookup r).getD 0 := by
  induction leases generalizing want with
  | nil => exact le_refl _
  | cons lease leases ih => exact le_trans (le_wantRevision want lease r) (ih _)

theorem le_wantedRevisions {leases : List Lease} {l : Lease} (hm : l ∈ leases) :
    l.revision ≤ ((wantedRevisions leases).lookup l.relayID).getD 0 := by
  unfold wantedRevisions
  generalize (∅ : KeyedMap String Nat) = want
  induction leases generalizing want with
  | nil => cases hm
  | cons lease leases ih =>
    rcases List.mem_cons.mp hm with rfl | hla
    · exact le_trans (revision_le_wantRevision want l) (le_foldl_wantRevision leases _ l.relayID)
    · exact ih hla _

theorem Store.appliedLeaseRevisions_le (s : Store) (ids : List String) (r : String) :
    ((s.appliedLeaseRevisions ids).lookup r).getD 0 ≤ s.applied r := by
  have hbo : ∀ (ids : List String) (read : KeyedMap String Nat), (read.lookup r).getD 0 ≤ s.applied r →
      ((ids.foldl (fun m relayID => m.insert relayID (s.applied relayID)) read).lookup r).getD 0 ≤ s.applied r := by
    intro ids
    induction ids with
    | nil => exact fun _ h => h
    | cons id ids ih =>
      intro read h
      refine ih _ ?_
      rw [KeyedMap.lookup_insert_eq]
      split
      · next hhe => rw [hhe]; exact le_refl _
      · exact h
  exact hbo ids ∅ (Nat.zero_le _)

theorem mem_reachedRelays {s : Store} {leases : List Lease} {applied ids : List String} {r : String}
    (hr : r ∈ reachedRelays leases applied (s.appliedLeaseRevisions ids)) :
    r ∉ applied ∧ ∀ l ∈ leases, l.relayID = r → l.revision ≤ s.applied r := by
  obtain ⟨hp, hen⟩ := List.mem_filter.mp hr
  refine ⟨by simpa using (List.mem_filter.mp hp).2, fun l hm on => ?_⟩
  have hwn := le_wantedRevisions hm
  rw [on] at hwn
  exact le_trans hwn (le_trans (of_decide_eq_true hen) (s.appliedLeaseRevisions_le ids r))

theorem releasedLeases_lookup {leases : List Lease} {applied : List String} {r : String} {l : Lease}
    (hfo : (releasedLeases leases applied).lookup r = some l) : l ∈ leases ∧ l.relayID = r ∧ r ∈ applied := by
  obtain ⟨hm, on⟩ := byRelay_lookup hfo
  obtain ⟨hm, hma⟩ := List.mem_filter.mp hm
  exact ⟨hm, on, on ▸ of_decide_eq_true hma⟩

end Broker

/-! ### Runs -/

namespace Access
variable {checks : RegisterChecks} {r : String} {a a' : Access}

def Prompt (_ : Request) (sys : System) (t : Time) (_ : Op) : Prop := t = sys.clock

/-- Until the request has marked relay `r`, no operation revokes the lease it waits for there. -/
def Undisturbed (r : String) (request : Request) (sys : System) (t : Time) (op : Op) : Prop :=
  t = sys.clock ∧
  match request with
  | .waiting leases applied _ _ => r ∉ applied → ∀ l ∈ leases, l.relayID = r →
      ∀ l', sys.store.leases.lookup l.id = some l' → op.Spares sys.store t l'
  | _ => True

def Sound (r : String) (marks : List (String × System)) (l : Lease) : Prop :=
  ∀ sys, (r, sys) ∈ marks → sys.Usable l ∨ sys.Expired l.id

structure Waits (r : String) (sys : System) (marks : List (String × System)) (leases : List Lease) (applied : List String) :
    Prop where
  marked : r ∈ applied ↔ ∃ sys, (r, sys) ∈ marks
  tracks : ∀ l ∈ leases, l.relayID = r → r ∉ applied → System.Tracks r l sys
  sound : ∀ l ∈ leases, l.relayID = r → Sound r marks l

def RequestInv (r : String) (sys : System) (marks : List (String × System)) : Request → Prop
  | .arrived _ => marks = []
  | .waiting leases applied _ _ => Waits r sys marks leases applied
  | .answered released => ∀ l, released.lookup r = some l → (∃ sys, (r, sys) ∈ marks) ∧ Sound r marks l
  | .refused => True

structure Inv (r : String) (a : Access) : Prop where
  sys : a.sys.Inv r
  latest : a.sys.Latest
  appliedIs : a.sys.relay.AppliedIs
  request : RequestInv r a.sys a.marks a.request

theorem Inv.start (clock relayClock : Time) (req : LeaseIssueRequest) :
    Inv r { sys := System.start clock relayClock, request := .arrived req } where
  sys := .start clock relayClock
  latest := .start clock relayClock
  appliedIs := rfl
  request := rfl

theorem Waits.read {sys : System} {marks : List (String × System)} {leases : List Lease} {applied : List String}
    (h : Waits r sys marks leases applied) (inv : sys.Inv r) (hap : sys.relay.AppliedIs) :
    let reached := reachedRelays leases applied (sys.store.appliedLeaseRevisions (pendingRelays leases applied))
    Waits r sys (reached.map (·, sys) ++ marks) leases (applied ++ reached) := by
  intro reached
  have hma : ∀ sys', (r, sys') ∈ reached.map (·, sys) ++ marks ↔ (r ∈ reached ∧ sys' = sys) ∨ (r, sys') ∈ marks := by
    intro sys'
    rw [List.mem_append, List.mem_map]
    refine or_congr_left ⟨?_, ?_⟩
    · rintro ⟨id, hm, eq⟩
      obtain ⟨rfl, rfl⟩ := Prod.mk.inj eq
      exact ⟨hm, rfl⟩
    · rintro ⟨hm, rfl⟩
      exact ⟨r, hm, rfl⟩
  refine ⟨?_, fun l hm on new => ?_, fun l hm on sys' hmr => ?_⟩
  · rw [List.mem_append, h.marked]
    constructor
    · rintro (⟨sys', hmr⟩ | now)
      · exact ⟨sys', (hma sys').mpr (.inr hmr)⟩
      · exact ⟨sys, (hma sys).mpr (.inl ⟨now, rfl⟩)⟩
    · rintro ⟨sys', hmr⟩
      rcases (hma sys').mp hmr with ⟨now, -⟩ | old
      · exact .inr now
      · exact .inl ⟨sys', old⟩
  · exact h.tracks l hm on fun old => new (List.mem_append_left _ old)
  · rcases (hma sys').mp hmr with ⟨now, rfl⟩ | old
    · obtain ⟨hu, hen⟩ := mem_reachedRelays now
      exact (h.tracks l hm on hu).usable inv hap (hen l hm on)
    · exact h.sound l hm on sys' old

theorem Waits.settle {sys : System} {marks : List (String × System)} {leases : List Lease} {applied : List String}
    (h : Waits r sys marks leases applied) (extended alive : Bool) :
    RequestInv r sys marks (.settle leases applied extended alive) := by
  unfold Request.settle
  by_cases some : applied ≠ []
  · rw [if_pos some]
    intro l hfo
    obtain ⟨hm, on, hma⟩ := releasedLeases_lookup hfo
    exact ⟨h.marked.mp hma, h.sound l hm on⟩
  · obtain rfl := not_not.mp some
    rw [if_neg some]
    split
    · exact h
    · trivial

theorem Waits.round {sys : System} {marks : List (String × System)} {leases : List Lease} {applied : List String}
    (h : Waits r sys marks leases applied) (inv : sys.Inv r) (hap : sys.relay.AppliedIs)
    (final extended alive : Bool) :
    RequestInv r sys
      ((reachedRelays leases applied (sys.store.appliedLeaseRevisions (pendingRelays leases applied))).map (·, sys) ++ marks)
      (.round sys.store leases applied final extended alive) := by
  have haf := h.read inv hap
  unfold Request.round
  simp only
  split
  · exact haf.settle extended alive
  · exact haf

namespace Inv
variable (inv : a.Inv r)
include inv

theorem system {sys : System} (hst : System.Step checks r (Undisturbed r a.request) a.sys sys) :
    Inv r { a with sys } where
  sys := inv.sys.step hst
  latest := by
    cases hst with
    | operate t op hou hf ham => exact .setStore (inv.sys.history.stamped_apply checks t hf).keyed
    | register t req draws ttl hf => exact inv.latest.quiet (a.sys.store.register_frame checks req draws t ttl).1 rfl
    | restart t req draws ttl token hd hf hre =>
      exact inv.latest.quiet (a.sys.store.register_frame checks req draws t ttl).1 rfl
    | deliver token revision sent => exact inv.latest.quiet (a.sys.store.ackLeaseRevision_frame r token revision).1 rfl
    | _ => exact inv.latest.quiet rfl rfl
  appliedIs := by
    cases hst with
    | restart t req draws ttl token hd hf hre => rfl
    | relay relay label hst hss hac answered => exact inv.appliedIs.step hst
    | _ => exact inv.appliedIs
  request := by
    have hb := inv.request
    show RequestInv r sys a.marks a.request
    cases hhe : a.request with
    | arrived req => rwa [hhe] at hb
    | answered released => rwa [hhe] at hb
    | refused => trivial
    | waiting leases applied final extended =>
      rw [hhe] at hb hst
      refine ⟨hb.marked, fun l hm on hu => ?_, hb.sound⟩
      refine (hb.tracks l hm on hu).step inv.sys inv.latest hst fun t op hao => ?_
      exact ⟨hao.1, hao.2 hu l hm on⟩

theorem issue (checks : RegisterChecks) {req : LeaseIssueRequest} {mint : String → Option (String × String)}
    (hhe : a.request = .arrived req) (hf : (Op.issueLeases req mint).Fresh a.sys.Used) :
    Inv r { a with
      sys := a.sys.setStore (a.sys.store.issueLeases req mint a.sys.clock).1
      request := .issued (a.sys.store.issueLeases req mint a.sys.clock).2 } where
  sys := by
    have hst : System.Step checks r (fun _ _ _ => True) a.sys _ :=
      .operate a.sys.clock (.issueLeases req mint) trivial hf trivial
    have ho := inv.sys.step hst
    rwa [Store.apply_issueLeases] at ho
  latest := by
    have hse := inv.sys.history.stamped_apply checks a.sys.clock hf
    rw [Store.apply_issueLeases] at hse
    exact .setStore hse.keyed
  appliedIs := inv.appliedIs
  request := by
    have hem := inv.request
    rw [hhe] at hem
    have hu : ∀ sys, (r, sys) ∉ a.marks := fun sys hmr => by simp [show a.marks = [] from hem] at hmr
    show RequestInv r _ a.marks (.issued (a.sys.store.issueLeases req mint a.sys.clock).2)
    cases hrs : (a.sys.store.issueLeases req mint a.sys.clock).2 with
    | error e => trivial
    | ok issued =>
      unfold Request.issued
      simp only
      split
      · exact fun l hfo => by cases hfo
      · refine ⟨⟨fun hma => (by cases hma), fun ⟨sys, hmr⟩ => absurd hmr (hu sys)⟩, fun l hm on _ => ?_,
          fun l _ _ sys hmr => absurd hmr (hu sys)⟩
        exact inv.sys.tracks_issued inv.appliedIs hf hrs hm on

theorem step (hst : Step checks r (Undisturbed r) a a') : a'.Inv r := by
  cases hst with
  | system sys hst => exact inv.system hst
  | issue req mint hhe hf => exact inv.issue checks hhe hf
  | read leases applied final extended alive hhe =>
    have hwa := inv.request
    rw [hhe] at hwa
    exact ⟨inv.sys, inv.latest, inv.appliedIs, Waits.round hwa inv.sys inv.appliedIs final extended alive⟩
  | deadline leases applied final extended hhe =>
    have hwa := inv.request
    rw [hhe] at hwa
    exact ⟨inv.sys, inv.latest, inv.appliedIs, hwa⟩
  | cancel leases applied final extended hhe => exact ⟨inv.sys, inv.latest, inv.appliedIs, trivial⟩

theorem steps (run : Steps checks r (Undisturbed r) a a') : a'.Inv r := by
  induction run with
  | refl => exact inv
  | tail _ hst ih => exact ih.step hst

end Inv

/-- If no operation revokes a lease before its relay is marked, then at the read that marked the relay the lease was
    usable or had expired. -/
theorem released_leases_usable {clock relayClock : Time} {req : LeaseIssueRequest} {released : KeyedMap String Lease}
    (run : Steps checks r (Undisturbed r) { sys := System.start clock relayClock, request := .arrived req } a)
    (answered : a.request = .answered released) {l : Lease} (found : released.lookup r = some l) :
    (∃ sys, (r, sys) ∈ a.marks) ∧ ∀ sys, (r, sys) ∈ a.marks → sys.Usable l ∨ sys.Expired l.id := by
  have request := ((Inv.start clock relayClock req).steps run).request
  rw [answered] at request
  exact request l found

/-! ### A lease that is revoked meanwhile -/

def leaseIssued : Access where
  sys :=
    { store := System.leasedStore
      clock := 70
      relay := .fresh 0 { id := "relay_a", token := "token", generation := 1 }
      tokens := ["token"]
      seen := System.leasedStore.leases.values }
  request := .waiting [System.leasedStore.leaseAt "lease_1"] [] false false

theorem leaseIssued_run {allowed : Request → System → Time → Op → Prop}
    (hpr : ∀ sys op, allowed (.arrived oneRelayRequest) sys sys.clock op) :
    Steps oneRelayChecks "relay_a" allowed
      { sys := System.start 0 0, request := .arrived oneRelayRequest } leaseIssued := by
  have run : Steps oneRelayChecks "relay_a" allowed
    { sys := System.start 0 0, request := .arrived oneRelayRequest } _ := .refl
  have run := run.tail (.system _ (.restart 1 { identityPublicKey := "key" } ⟨none, some "token"⟩ 1000 "token" rfl (by decide)
    (by decide)))
  have run := run.tail (.system _ (.tick 2 (by decide)))
  have run := run.tail (.system _ (.operate 2 (.authenticateUser "public key" "source" [] none (some "user_1")) trivial
    trivial (hpr _ _)))
  have run := run.tail (.system _ (.tick 70 (by decide)))
  have run := run.tail (.issue oneRelayRequest (mintOnRelay "lease_1") rfl
    (issueOnRelay_fresh (by rintro ⟨l, hm, -⟩; cases hm)))
  exact run

def polledAt70 (n : Nat) (leases : List LeaseEntry) : Poll where
  id := "relay_a"
  token := "token"
  full := true
  receivedAt := 70
  resp := { serverTime := 70, revision := n, leases }

/-- The user is disabled before the relay polls, and revision 2 is applied without a lease. -/
def disabledMeanwhile : System where
  store := (((System.leasedStore.setUserStatus "user_1" "disabled" "" 70).1).ackLeaseRevision "relay_a" "token" 2).1
  clock := 70
  relay :=
    { clock := 70
      session := { id := "relay_a", token := "token", generation := 1 }
      sync := { applied := 2, pendingAck := true, full := false, generation := 1, active := true }
      phase := .acking "relay_a" "token" 2
      appliedSet := some (polledAt70 2 []) }
  acks := [("token", 2)]
  tokens := ["token"]
  seen := (System.leasedStore.setUserStatus "user_1" "disabled" "" 70).1.leases.values ++ System.leasedStore.leases.values

theorem disabledMeanwhile_run :
    Steps oneRelayChecks "relay_a" Prompt { sys := System.start 0 0, request := .arrived oneRelayRequest }
      { leaseIssued with sys := disabledMeanwhile } := by
  have run := @leaseIssued_run Prompt fun _ _ => rfl
  have run := run.tail (.system _ (.operate 70 (.setUserStatus "user_1" "disabled" "") trivial trivial rfl))
  have run := run.tail (.system _ (.relay _ _ (.tick 70 (by decide)) rfl rfl (by simp)))
  have run := run.tail (.system _ (.relay _ _ (.openSession rfl rfl (by decide)) rfl rfl (by simp)))
  have run := run.tail (.system _ (.relay _ _ (.poll rfl (by decide)) rfl rfl (by simp)))
  have run := run.tail (.system _ (.serve "relay_a" "token" true 0 rfl 70 (by decide) _ rfl))
  have run := run.tail (.system _ (.relay _ _ (.answer rfl (polledAt70 2 []).resp (by decide)) rfl rfl
    (by rintro poll ⟨⟩; decide)))
  have run := run.tail (.system _ (.relay _ _ (.startRemoving rfl) rfl rfl (by simp)))
  have run := run.tail (.system _ (.relay _ _ (.finishAcking rfl rfl) rfl rfl (by simp)))
  have run := run.tail (.system _ (.deliver "token" 2 (by decide)))
  exact run

/-- The request answers with a lease that was revoked and is in no set the relay has applied. -/
theorem revoked_lease_released :
    ∃ a, Steps oneRelayChecks "relay_a" Prompt { sys := System.start 0 0, request := .arrived oneRelayRequest } a ∧
      ∃ released l, a.request = .answered released ∧ released.lookup "relay_a" = some l ∧
        a.marks = [("relay_a", disabledMeanwhile)] ∧
        (∃ l', disabledMeanwhile.store.leases.lookup l.id = some l' ∧ l'.revokedAt = some 70) ∧
        disabledMeanwhile.relay.appliedSet = some (polledAt70 2 []) ∧ disabledMeanwhile.clock < l.expiresAt := by
  refine ⟨_, disabledMeanwhile_run.tail (.read _ [] false false false rfl), _, System.leasedStore.leaseAt "lease_1",
    rfl, ?_, rfl, ⟨disabledMeanwhile.store.leaseAt "lease_1", ?_, ?_⟩, rfl, ?_⟩
  all_goals decide

def appliedInTime : System where
  store := (System.leasedStore.ackLeaseRevision "relay_a" "token" 1).1
  clock := 70
  relay :=
    { clock := 70
      session := { id := "relay_a", token := "token", generation := 1 }
      users :=
        { installed := AList.insert "lease_1" ⟨"credential of lease_1", 160⟩ ∅
          xray := AList.insert (leaseEmail "lease_1") "credential of lease_1" ∅
          recorded := AList.insert "lease_1" 160 ∅ }
      sync := { applied := 1, pendingAck := true, full := false, generation := 1, active := true }
      phase := .acking "relay_a" "token" 1
      appliedSet := some (polledAt70 1 [⟨"lease_1", "credential of lease_1", 160⟩]) }
  acks := [("token", 1)]
  tokens := ["token"]
  seen := System.leasedStore.leases.values

theorem appliedInTime_run :
    Steps oneRelayChecks "relay_a" (Undisturbed "relay_a")
      { sys := System.start 0 0, request := .arrived oneRelayRequest } { leaseIssued with sys := appliedInTime } := by
  have run := @leaseIssued_run (Undisturbed "relay_a") fun _ _ => ⟨rfl, trivial⟩
  have run := run.tail (.system _ (.relay _ _ (.tick 70 (by decide)) rfl rfl (by simp)))
  have run := run.tail (.system _ (.relay _ _ (.openSession rfl rfl (by decide)) rfl rfl (by simp)))
  have run := run.tail (.system _ (.relay _ _ (.poll rfl (by decide)) rfl rfl (by simp)))
  have run := run.tail (.system _ (.serve "relay_a" "token" true 0 rfl 70 (by decide) _ rfl))
  have run := run.tail (.system _ (.relay _ _ (.answer rfl (polledAt70 1 [⟨"lease_1", "credential of lease_1", 160⟩]).resp
    (by decide)) rfl rfl (by rintro poll ⟨⟩; decide)))
  have run := run.tail (.system _ (.relay _ _ (.install rfl (by decide) .ok .ok (by decide)) rfl rfl (by simp)))
  have run := run.tail (.system _ (.relay _ _ (.startRemoving rfl) rfl rfl (by simp)))
  have run := run.tail (.system _ (.relay _ _ (.finishAcking rfl rfl) rfl rfl (by simp)))
  have run := run.tail (.system _ (.deliver "token" 1 (by decide)))
  exact run

theorem released_leases_usable_inTime : appliedInTime.Usable (System.leasedStore.leaseAt "lease_1") := by
  have run := appliedInTime_run.tail (.read _ [] false false false rfl)
  have hsu := (released_leases_usable run rfl (l := System.leasedStore.leaseAt "lease_1") (by decide)).2 appliedInTime
    List.mem_cons_self
  refine hsu.resolve_right ?_
  rintro ⟨l, hfo, hpa⟩
  obtain rfl := Option.some.inj hfo
  exact absurd hpa (by decide)

end Access

end OpenRung
