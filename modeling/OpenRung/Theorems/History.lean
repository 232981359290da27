import OpenRung.System.Sync
import OpenRung.Theorems.Revision

/-! The leases that the store has held over a run. A lease keeps its relay and its credential, a revocation is
    final, and what an operation writes carries a revision its relay had not reached before. -/

namespace OpenRung
open Broker

namespace Broker

structure Lease.SameAs (l l' : Lease) : Prop where
  credential : l.credential = l'.credential
  relayID : l.relayID = l'.relayID
  userID : l.userID = l'.userID

theorem Lease.SameAs.refl (l : Lease) : l.SameAs l := ⟨rfl, rfl, rfl⟩

theorem Lease.SameAs.symm {l l' : Lease} (h : l.SameAs l') : l'.SameAs l :=
  ⟨h.credential.symm, h.relayID.symm, h.userID.symm⟩

theorem Lease.SameAs.trans {l l' l'' : Lease} (h : l.SameAs l') (h' : l'.SameAs l'') : l.SameAs l'' :=
  ⟨h.credential.trans h'.credential, h.relayID.trans h'.relayID, h.userID.trans h'.userID⟩

theorem Written.origin {s : Store} {used : String → Prop} {now : Time} {w : Lease} (h : Written s used now w) :
    (∃ l, s.leases.lookup l.id = some l ∧ l.live now ∧ w.id = l.id ∧ w.SameAs l) ∨ ¬ used w.id := by
  cases h with
  | revoked l hs hli => exact .inl ⟨l, hs, hli, rfl, ⟨rfl, rfl, rfl⟩⟩
  | renewed l ttl pos hs hli => exact .inl ⟨l, hs, hli, rfl, ⟨rfl, rfl, rfl⟩⟩
  | created l new => exact .inr new

theorem Store.apply_old (checks : RegisterChecks) {s : Store} {used : String → Prop} (now : Time) {op : Op}
    (hk : s.leases.Keyed Lease.id) (hc : ∀ id, s.leases.lookup id ≠ none → used id) (hf : op.Fresh used)
    {id : String} {l : Lease} (hs : (s.apply checks now op).1.leases.lookup id = some l)
    (old : l.revision ≤ s.revision l.relayID) : s.leases.lookup id = some l := by
  rcases s.apply_effect checks now op hk hc hf with rfl | ⟨ws, he⟩
  · exact Store.lookup_of_prune hs
  · rcases he.lookup.mp hs with ⟨hm, -⟩ | ⟨hb, -⟩
    · have := he.stamped l hm
      omega
    · exact hb

theorem Store.apply_revision_le (checks : RegisterChecks) {s : Store} {used : String → Prop} (now : Time) {op : Op}
    (hk : s.leases.Keyed Lease.id) (hc : ∀ id, s.leases.lookup id ≠ none → used id) (hf : op.Fresh used)
    (r : String) : s.revision r ≤ (s.apply checks now op).1.revision r := by
  rcases s.apply_effect checks now op hk hc hf with rfl | ⟨ws, he⟩
  · exact le_refl _
  · exact he.revision_le r

end Broker

namespace System

structure History (sys : System) : Prop where
  stamped : Stamped sys.store
  stored : ∀ id l, sys.store.leases.lookup id = some l → l ∈ sys.seen
  same : ∀ l ∈ sys.seen, ∀ l' ∈ sys.seen, l.id = l'.id → l.SameAs l'
  final : ∀ l ∈ sys.seen, l.revokedAt ≠ none → ∀ l', sys.store.leases.lookup l.id = some l' → l'.revokedAt ≠ none

namespace History
variable {sys : System} (h : sys.History)
include h

theorem used {id : String} (hfo : sys.store.leases.lookup id ≠ none) : sys.Used id := by
  obtain ⟨l, hs⟩ := Option.ne_none_iff_exists'.mp hfo
  exact ⟨l, h.stored id l hs, h.stamped.keyed id l hs⟩

theorem stamped_apply (checks : RegisterChecks) (t : Time) {op : Op} (hf : op.Fresh sys.Used) :
    Stamped (sys.store.apply checks t op).1 := by
  rcases sys.store.apply_effect checks t op h.stamped.keyed (fun _ => h.used) hf with rfl | ⟨ws, he⟩
  · exact h.stamped.pruned t
  · exact he.stamped_next h.stamped

theorem seen_cases (checks : RegisterChecks) (t : Time) {op : Op} (hf : op.Fresh sys.Used) {l : Lease}
    (hm : l ∈ (sys.setStore (sys.store.apply checks t op).1).seen) :
    l ∈ sys.seen ∨ (sys.store.apply checks t op).1.leases.lookup l.id = some l := by
  rcases List.mem_append.mp hm with new | old
  · exact .inr ((h.stamped_apply checks t hf).keyed.mem_values.mp new)
  · exact .inl old

theorem seen_old (checks : RegisterChecks) (t : Time) {op : Op} (hf : op.Fresh sys.Used) {l : Lease}
    (hm : l ∈ (sys.setStore (sys.store.apply checks t op).1).seen) (old : l.revision ≤ sys.store.revision l.relayID) :
    l ∈ sys.seen := by
  rcases h.seen_cases checks t hf hm with hb | hs
  · exact hb
  · exact h.stored _ l (Store.apply_old checks t h.stamped.keyed (fun _ => h.used) hf hs old)

theorem stored_cases (checks : RegisterChecks) (t : Time) {op : Op} (hf : op.Fresh sys.Used) {l : Lease}
    (hs : (sys.store.apply checks t op).1.leases.lookup l.id = some l) :
    sys.store.leases.lookup l.id = some l ∨
    (∃ old, sys.store.leases.lookup l.id = some old ∧ old.live t ∧ l.SameAs old) ∨ ¬ sys.Used l.id := by
  rcases sys.store.apply_effect checks t op h.stamped.keyed (fun _ => h.used) hf with rfl | ⟨ws, he⟩
  · exact .inl (Store.lookup_of_prune hs)
  · rcases he.lookup.mp hs with ⟨hm, -⟩ | ⟨hb, -⟩
    · rcases (he.written l hm).origin with ⟨old, hfo, hli, id, hsa⟩ | new
      · exact .inr (.inl ⟨old, id ▸ hfo, hli, hsa⟩)
      · exact .inr (.inr new)
    · exact .inl hb

theorem stored_same (checks : RegisterChecks) (t : Time) {op : Op} (hf : op.Fresh sys.Used) {l l' : Lease}
    (hs : (sys.store.apply checks t op).1.leases.lookup l.id = some l) (hse : l' ∈ sys.seen) (id : l'.id = l.id) :
    l'.SameAs l := by
  rcases h.stored_cases checks t hf hs with hb | ⟨old, hb, -, hsa⟩ | new
  · exact h.same l' hse l (h.stored _ l hb) id
  · exact (h.same l' hse old (h.stored _ old hb) (id.trans (h.stamped.keyed _ old hb).symm)).trans hsa.symm
  · exact absurd ⟨l', hse, id⟩ new

theorem operate (checks : RegisterChecks) (t : Time) {op : Op} (hf : op.Fresh sys.Used) :
    (sys.setStore (sys.store.apply checks t op).1).History where
  stamped := h.stamped_apply checks t hf
  stored := fun id l stored => List.mem_append_left _ (KeyedMap.mem_values_iff.mpr ⟨id, stored⟩)
  same := by
    intro l hm l' hme id
    rcases h.seen_cases checks t hf hm with hb | stored
    · rcases h.seen_cases checks t hf hme with hbe | hst
      · exact h.same l hb l' hbe id
      · exact h.stored_same checks t hf hst hb id
    · rcases h.seen_cases checks t hf hme with hbe | hst
      · exact (h.stored_same checks t hf stored hbe id.symm).symm
      · obtain rfl : l = l' := Option.some.inj (stored.symm.trans (id ▸ hst))
        exact .refl l
  final := by
    intro l hm hr l' stored
    have hk := h.stamped_apply checks t hf
    obtain id : l'.id = l.id := hk.keyed _ l' stored
    rcases h.seen_cases checks t hf hm with hb | hst
    · rcases h.stored_cases checks t hf (id ▸ stored) with same | ⟨old, hfo, hli, -⟩ | new
      · exact h.final l hb hr l' (id ▸ same)
      · exact absurd (Lease.live_iff.mp hli).1 (h.final l hb hr old (id ▸ hfo))
      · exact absurd ⟨l, hb, id.symm⟩ new
    · obtain rfl : l = l' := Option.some.inj (hst.symm.trans stored)
      exact hr

theorem quiet {sys' : System} (hl : sys'.store.leases = sys.store.leases)
    (hre : ∀ r, sys'.store.revision r = sys.store.revision r) (hse : sys'.seen = sys.seen) : sys'.History where
  stamped := ⟨hl ▸ h.stamped.keyed, fun id l stored => by
    rw [hre]
    exact h.stamped.revision id l (hl ▸ stored)⟩
  stored := fun id l stored => hse ▸ h.stored id l (hl ▸ stored)
  same := fun l hm l' hme => h.same l (hse ▸ hm) l' (hse ▸ hme)
  final := fun l hm hr l' stored => h.final l (hse ▸ hm) hr l' (hl ▸ stored)

end History

theorem History.start (clock relayClock : Time) : (start clock relayClock).History where
  stamped := Stamped.empty
  stored := fun _ _ stored => by simp [System.start] at stored
  same := fun l member => by simp [System.start] at member
  final := fun l member => by simp [System.start] at member

end System

end OpenRung
