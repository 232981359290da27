import OpenRung.Theorems.Effect

/-! The revision of a relay counts the operations that changed its leases. No change escapes the counter and the
    counter moves only with a change, so two polls at one revision see the same leases up to expiry. -/

namespace OpenRung.Broker

/-- Operations one after another, at whatever times they are called, each drawing lease ids that are not in use. -/
inductive Runs (checks : RegisterChecks) : Store → List (Time × Op) → Store → Prop
  | nil (s : Store) : Runs checks s [] s
  | cons {s s' : Store} {now : Time} {op : Op} {events : List (Time × Op)}
      (fresh : op.Fresh fun id => s.leases.lookup id ≠ none) (rest : Runs checks (s.apply checks now op).1 events s') :
      Runs checks s ((now, op) :: events) s'

/-- An operation touched `l`: it issued it, extended it, or revoked it. -/
def Touched (s s' : Store) (report : Report) (l : Lease) : Prop :=
  s'.leases.lookup l.id = some l ∧
    (s.leases.lookup l.id = none ∨ l ∈ report.leases ∨
      l.revokedAt ≠ none ∧ ∃ old, s.leases.lookup l.id = some old ∧ old.revokedAt = none)

/-- The table is keyed by id, and each lease carries a revision its relay has reached. -/
structure Stamped (s : Store) : Prop where
  keyed : s.leases.Keyed Lease.id
  revision : ∀ id l, s.leases.lookup id = some l → 1 ≤ l.revision ∧ l.revision ≤ s.revision l.relayID

/-! ### One operation -/

namespace Effect
variable {s s' : Store} {used : String → Prop} {now : Time} {ws : List Lease} {report : Report}
  (h : Effect s s' used now ws report)
include h

theorem stamped_new {w : Lease} (hm : w ∈ ws) : w.revision = s'.revision w.relayID := by
  rw [h.revision, if_pos (List.mem_map_of_mem hm), h.stamped w hm]

theorem touched_iff {l : Lease} : Touched s s' report l ↔ l ∈ ws := by
  constructor
  · rintro ⟨hs, hc⟩
    rcases h.lookup.mp hs with ⟨hm, -⟩ | ⟨old, -⟩
    · exact hm
    · rcases hc with ha | hr | ⟨revoked, before, hfo, hu⟩
      · cases ha.symm.trans old
      · exact ((h.reported l).mp hr).1
      · obtain rfl : before = l := Option.some.inj (hfo.symm.trans old)
        exact absurd hu revoked
  · intro hm
    refine ⟨h.lookup.mpr (.inl ⟨hm, rfl⟩), ?_⟩
    cases h.written l hm with
    | revoked old hs hl =>
      exact .inr (.inr ⟨Option.some_ne_none _, old, hs, (Lease.live_iff.mp hl).1⟩)
    | renewed old ttl _ _ hl => exact .inr (.inl ((h.reported _).mpr ⟨hm, (Lease.live_iff.mp hl).1⟩))
    | created new _ huu _ _ => exact .inl huu

theorem stamped_next (inv : Stamped s) : Stamped s' where
  keyed := h.keyed inv.keyed
  revision := by
    intro id l hs
    rcases h.lookup.mp hs with ⟨hm, -⟩ | ⟨old, -⟩
    · have := h.stamped_new hm
      have := h.stamped l hm
      omega
    · have := inv.revision id l old
      have := h.revision_le l.relayID
      omega

theorem lookup_of_same_revision {l : Lease}
    (hsa : s'.revision l.relayID = s.revision l.relayID) :
    s'.leases.lookup l.id = some l ↔ s.leases.lookup l.id = some l := by
  have hun : ∀ w ∈ ws, w.relayID ≠ l.relayID := by
    intro w hm on
    rw [h.revision, if_pos (on ▸ List.mem_map_of_mem hm)] at hsa
    omega
  rw [h.lookup]
  constructor
  · rintro (⟨hm, -⟩ | ⟨old, -⟩)
    · exact absurd rfl (hun l hm)
    · exact old
  · exact fun old => .inr ⟨old, fun w hm hsm =>
      hun w hm (h.relay_of_id hm (hsm ▸ old))⟩

end Effect

theorem Stamped.pruned {s : Store} (inv : Stamped s) (now : Time) : Stamped (s.prune now).1 where
  keyed := inv.keyed.filter _
  revision := fun id l hs => inv.revision id l (Store.lookup_of_prune hs)

theorem Stamped.apply {s : Store} (inv : Stamped s) (checks : RegisterChecks) (now : Time) {op : Op}
    (hf : op.Fresh fun id => s.leases.lookup id ≠ none) : Stamped (s.apply checks now op).1 := by
  rcases s.apply_effect checks now op inv.keyed (fun _ => id) hf with rfl | ⟨ws, he⟩
  · exact inv.pruned now
  · exact he.stamped_next inv

theorem Stamped.empty : Stamped {} :=
  ⟨fun _ _ h => by simp at h, fun _ _ h => by simp at h⟩

/-! ### Runs -/

namespace Runs
variable {checks : RegisterChecks} {s s' : Store} {events : List (Time × Op)}

theorem stamped (run : Runs checks s events s') (inv : Stamped s) : Stamped s' := by
  induction run with
  | nil => exact inv
  | cons hf _ ih => exact ih (inv.apply checks _ hf)

theorem revision_le (run : Runs checks s events s') (inv : Stamped s) (r : String) : s.revision r ≤ s'.revision r := by
  induction run with
  | nil => exact le_refl _
  | @cons s _ now op _ hf _ ih =>
    refine le_trans ?_ (ih (inv.apply checks now hf))
    rcases s.apply_effect checks now op inv.keyed (fun _ => id) hf with rfl | ⟨ws, he⟩
    · exact le_refl _
    · exact he.revision_le r

theorem lookup_of_same_revision (run : Runs checks s events s') (inv : Stamped s) {l : Lease}
    (hsa : s'.revision l.relayID = s.revision l.relayID) :
    (s'.leases.lookup l.id = some l → s.leases.lookup l.id = some l) ∧
      (s.leases.lookup l.id = some l → (∀ e ∈ events, e.1 < l.expiresAt + leaseRetention) →
        s'.leases.lookup l.id = some l) := by
  induction run with
  | nil => exact ⟨id, fun h _ => h⟩
  | @cons s s' now op events hf hrs ih =>
    have hi := inv.apply checks now hf
    have hup := hrs.revision_le hi l.relayID
    obtain ⟨hbc, hft⟩ : ((s.apply checks now op).1.leases.lookup l.id = some l → s.leases.lookup l.id = some l) ∧
        (s.leases.lookup l.id = some l → now < l.expiresAt + leaseRetention →
          (s.apply checks now op).1.leases.lookup l.id = some l) ∧
        s.revision l.relayID ≤ (s.apply checks now op).1.revision l.relayID := by
      rcases s.apply_effect checks now op inv.keyed (fun _ => id) hf with rfl | ⟨ws, he⟩
      · refine ⟨Store.lookup_of_prune, fun h hk => ?_, le_refl _⟩
        exact KeyedMap.lookup_filter_eq_some.mpr ⟨h, decide_eq_true hk⟩
      · have hlo := he.revision_le l.relayID
        have hst := he.lookup_of_same_revision (l := l) (by omega)
        exact ⟨hst.mp, fun h _ => hst.mpr h, hlo⟩
    obtain ⟨hba, hfr⟩ := ih hi (by omega)
    refine ⟨fun h => hbc (hba h), fun h hk => ?_⟩
    exact hfr (hft.1 h (hk _ List.mem_cons_self)) fun e hm => hk e (List.mem_cons_of_mem _ hm)

end Runs

/-! ### Polls -/

theorem Store.mem_relayLeaseSet {s : Store} (hke : s.leases.Keyed Lease.id) {r token : String} {now : Time}
    {set : RelayLeaseSet} (hp : s.relayLeaseSet r token now = .ok set) {l : Lease} :
    l ∈ set.leases ↔ s.leases.lookup l.id = some l ∧ l.relayID = r ∧ l.live now := by
  unfold Store.relayLeaseSet at hp
  split at hp
  · obtain rfl := Except.ok.inj hp
    rw [List.mem_insertionSort, Store.mem_liveLeasesForRelay hke]
  · cases hp

theorem Store.relayLeaseSet_revision {s : Store} {r token : String} {now : Time} {set : RelayLeaseSet}
    (hp : s.relayLeaseSet r token now = .ok set) : set.revision = s.revision r := by
  unfold Store.relayLeaseSet at hp
  split at hp
  · obtain rfl := Except.ok.inj hp
    rfl
  · cases hp

theorem leaseRetention_nonneg : 0 ≤ leaseRetention := by decide

theorem Runs.polls_agree {checks : RegisterChecks} {s s' : Store} {later : List (Time × Op)}
    (run : Runs checks s later s') (inv : Stamped s) {r token token' : String} {t t' : Time} {set set' : RelayLeaseSet}
    (hp : s.relayLeaseSet r token t = .ok set) (hpo : s'.relayLeaseSet r token' t' = .ok set') (le : t ≤ t')
    (hti : ∀ e ∈ later, e.1 ≤ t') (hsa : set'.revision = set.revision) (l : Lease) :
    l ∈ set'.leases ↔ l ∈ set.leases ∧ t' < l.expiresAt := by
  rw [Store.relayLeaseSet_revision hp, Store.relayLeaseSet_revision hpo] at hsa
  rw [Store.mem_relayLeaseSet (run.stamped inv).keyed hpo, Store.mem_relayLeaseSet inv.keyed hp]
  constructor
  · rintro ⟨hs, rfl, hl⟩
    have hb := (run.lookup_of_same_revision inv hsa).1 hs
    exact ⟨⟨hb, rfl, Lease.live_antitone le hl⟩, (Lease.live_iff.mp hl).2⟩
  · rintro ⟨⟨hs, rfl, hl⟩, hue⟩
    refine ⟨(run.lookup_of_same_revision inv hsa).2 hs fun e hm => ?_, rfl, ?_⟩
    · have := hti e hm
      have := leaseRetention_nonneg
      lia
    · exact Lease.live_iff.mpr ⟨(Lease.live_iff.mp hl).1, hue⟩

/-! ### The bookkeeping of every run -/

structure Bookkeeping (s s' : Store) (report : Report) : Prop where
  rises : ∀ r, (∃ l, Touched s s' report l ∧ l.relayID = r) → s'.revision r = s.revision r + 1
  unmoved : ∀ r, (∀ l, Touched s s' report l → l.relayID ≠ r) → s'.revision r = s.revision r
  stamps : ∀ l, Touched s s' report l → l.revision = s'.revision l.relayID
  noticed : ∀ id l, s'.leases.lookup id = some l → s.leases.lookup id ≠ some l → Touched s s' report l
  sorted : report.changedRelayIDs.Pairwise (· < ·)
  changed : ∀ r, r ∈ report.changedRelayIDs ↔ s.revision r < s'.revision r

theorem Effect.bookkeeping {s s' : Store} {used : String → Prop} {now : Time} {ws : List Lease} {report : Report}
    (h : Effect s s' used now ws report) : Bookkeeping s s' report where
  rises := by
    rintro r ⟨l, ht, rfl⟩
    rw [h.revision, if_pos (List.mem_map_of_mem (h.touched_iff.mp ht))]
  unmoved := by
    intro r off
    rw [h.revision, if_neg]
    intro on
    obtain ⟨w, hm, rfl⟩ := List.mem_map.mp on
    exact off w (h.touched_iff.mpr hm) rfl
  stamps := fun l ht => h.stamped_new (h.touched_iff.mp ht)
  noticed := by
    intro id l hs new
    rcases h.lookup.mp hs with ⟨hm, -⟩ | ⟨old, -⟩
    · exact h.touched_iff.mpr hm
    · exact absurd old new
  sorted := h.sorted
  changed := by
    intro r
    rw [h.changed, h.revision]
    split <;> simp_all

theorem prune_bookkeeping (s : Store) (now : Time) : Bookkeeping s (s.prune now).1 .none := by
  have hut : ∀ l, ¬ Touched s (s.prune now).1 .none l := by
    rintro l ⟨hs, ha | hr | ⟨hre, old, hfo, hu⟩⟩
    · cases ha.symm.trans (Store.lookup_of_prune hs)
    · cases hr
    · obtain rfl : old = l := Option.some.inj (hfo.symm.trans (Store.lookup_of_prune hs))
      exact hre hu
  exact {
    rises := fun r ⟨l, ht, _⟩ => absurd ht (hut l)
    unmoved := fun _ _ => rfl
    stamps := fun l ht => absurd ht (hut l)
    noticed := fun id l hs new => absurd (Store.lookup_of_prune hs) new
    sorted := List.Pairwise.nil
    changed := fun r => ⟨fun hm => absurd hm List.not_mem_nil, fun hle => absurd hle (lt_irrefl _)⟩
  }

/-- Each operation advances exactly the relays it touched a lease of, by one, stamps those leases with the new
    revision and reports those relays in order; two polls at one revision agree. -/
theorem revision_bookkeeping_exact (checks : RegisterChecks) {events : List (Time × Op)} {s : Store}
    (run : Runs checks {} events s) :
    (∀ id l, s.leases.lookup id = some l → 1 ≤ l.revision ∧ l.revision ≤ s.revision l.relayID) ∧
    (∀ now op, op.Fresh (fun id => s.leases.lookup id ≠ none) →
      Bookkeeping s (s.apply checks now op).1 (s.apply checks now op).2) ∧
    (∀ later s', Runs checks s later s' → ∀ r token token' t t' set set',
      s.relayLeaseSet r token t = .ok set → s'.relayLeaseSet r token' t' = .ok set' →
      t ≤ t' → (∀ e ∈ later, e.1 ≤ t') → set'.revision = set.revision →
      ∀ l, l ∈ set'.leases ↔ l ∈ set.leases ∧ t' < l.expiresAt) := by
  have inv := run.stamped Stamped.empty
  refine ⟨inv.revision, fun now op hf => ?_, ?_⟩
  · rcases s.apply_effect checks now op inv.keyed (fun _ => id) hf with rfl | ⟨ws, he⟩
    · exact prune_bookkeeping s now
    · exact he.bookkeeping
  · intro later s' hru r token token' t t' set set' hp hpo le hti hsa l
    exact hru.polls_agree inv hp hpo le hti hsa l

/-! A relay registers, a user enrolls and gets a lease on it until 93. -/

def oneRelayChecks : RegisterChecks where
  verifyIdentity _ _ := .ok (some [])
  verifyWSSCapability _ _ := .ok ()
  deriveRelayID _ := "relay_a"

def oneRelayRequest : LeaseIssueRequest :=
  { userID := "user_1", relayIDs := ["relay_a"], ttl := 90, maxPerUser := 2, maxPerRelay := 2 }

def mintOnRelay (id r : String) : Option (String × String) :=
  if r = "relay_a" then some (id, "credential of " ++ id) else none

def issueOnRelay (id : String) : Op := .issueLeases oneRelayRequest (mintOnRelay id)

def enrolled : Store :=
  let s : Store := {}
  let s := (s.apply oneRelayChecks 1 (.register { identityPublicKey := "key" } ⟨none, some "token"⟩ 1000)).1
  (s.apply oneRelayChecks 2 (.authenticateUser "public key" "source" [] none (some "user_1"))).1

def leased : Store := (enrolled.apply oneRelayChecks 3 (issueOnRelay "lease_1")).1

theorem issueOnRelay_fresh {used : String → Prop} {id : String} (unused : ¬ used id) : (issueOnRelay id).Fresh used where
  unused := by
    intro r id' c hd
    simp only [mintOnRelay, Option.ite_none_right_eq_some, Option.some.injEq, Prod.mk.injEq] at hd
    obtain ⟨-, rfl, -⟩ := hd
    exact unused
  distinct := by
    intro r r' id' c c' hd hdr
    simp only [mintOnRelay, Option.ite_none_right_eq_some] at hd hdr
    exact hd.1.trans hdr.1.symm

theorem leased_run : Runs oneRelayChecks {}
    [(1, .register { identityPublicKey := "key" } ⟨none, some "token"⟩ 1000),
      (2, .authenticateUser "public key" "source" [] none (some "user_1")), (3, issueOnRelay "lease_1")] leased :=
  .cons trivial (.cons trivial (.cons (issueOnRelay_fresh (by decide)) (.nil _)))

theorem revision_bookkeeping_exact_leased :
    leased.revision "relay_a" = 1 ∧
    Bookkeeping leased (leased.apply oneRelayChecks 4 (issueOnRelay "lease_2")).1
      (leased.apply oneRelayChecks 4 (issueOnRelay "lease_2")).2 ∧
    ∃ set set', leased.relayLeaseSet "relay_a" "token" 10 = .ok set ∧
      (leased.apply oneRelayChecks 50 .prune).1.relayLeaseSet "relay_a" "token" 100 = .ok set' ∧
      ∀ l, l ∈ set'.leases ↔ l ∈ set.leases ∧ 100 < l.expiresAt := by
  obtain ⟨-, hbo, hpl⟩ := revision_bookkeeping_exact oneRelayChecks leased_run
  refine ⟨by decide, hbo 4 _ (issueOnRelay_fresh (by decide)), _, _, rfl, rfl, ?_⟩
  exact hpl [(50, .prune)] _ (.cons trivial (.nil _)) "relay_a" "token" "token" 10 100 _ _ rfl rfl (by decide)
    (by decide) rfl

end OpenRung.Broker
