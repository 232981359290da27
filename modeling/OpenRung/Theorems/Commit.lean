import OpenRung.Broker.Registry
import OpenRung.Theorems.IssuePlan

/-! Every change of the lease table is a commit: a batch of leases written under their ids, each stamped with its
    relay's next revision, and the relays of the batch advanced by one. `Commit.trans` puts the shares of different
    relays together. -/

namespace OpenRung.Broker

namespace Store

/-! ### Rows and lookups -/

theorem leaseState_setLeaseState (s : Store) (relayID relayID' : String) (row : LeaseStateRow) :
    (s.setLeaseState relayID row).leaseState relayID' = if relayID' = relayID then row else s.leaseState relayID' := by
  unfold leaseState setLeaseState
  simp only [KeyedMap.lookup_insert_eq]
  split <;> rfl

theorem leaseAt_eq {s : Store} {id : String} {l : Lease} (h : s.leases.lookup id = some l) : s.leaseAt id = l := by
  rw [leaseAt, h, Option.getD_some]

theorem foldl_putLease (ws : List Lease) (s : Store) :
    ws.foldl putLease s = { s with leases := KeyedMap.putAll Lease.id ws s.leases } := by
  induction ws generalizing s with
  | nil => rfl
  | cons w ws ih => exact ih (s.putLease w)

theorem foldl_rewrite {f : Lease → Lease} (hsI : ∀ l, (f l).id = l.id) (ls : List Lease) (s : Store)
    (hst : ∀ l ∈ ls, s.leases.lookup l.id = some l) (hn : (ls.map Lease.id).Nodup) :
    ls.foldl (fun s l => s.putLease (f (s.leaseAt l.id))) s =
      { s with leases := KeyedMap.putAll Lease.id (ls.map f) s.leases } := by
  induction ls generalizing s with
  | nil => rfl
  | cons l ls ih =>
    rw [List.map_cons, List.nodup_cons] at hn
    rw [List.foldl_cons, leaseAt_eq (hst l List.mem_cons_self)]
    have hot : ∀ l' ∈ ls, (s.putLease (f l)).leases.lookup l'.id = some l' := by
      intro l' hm
      show AList.lookup l'.id (s.leases.insert (f l).id (f l)) = some l'
      rw [KeyedMap.lookup_insert_eq, hsI, if_neg, hst l' (List.mem_cons_of_mem _ hm)]
      exact fun hs => hn.1 (hs ▸ List.mem_map_of_mem hm)
    exact ih _ hot hn.2

end Store

/-! ### Commits -/

/-- `ws` were written to `s`, and the relays of `ws` advanced by one. -/
structure Advance (s s' : Store) (ws : List Lease) : Prop where
  leases : s'.leases = KeyedMap.putAll Lease.id ws s.leases
  stamped : ∀ w ∈ ws, w.revision = s.revision w.relayID + 1
  revision : ∀ r, s'.revision r = if r ∈ ws.map Lease.relayID then s.revision r + 1 else s.revision r

/-- An advance that leaves all else in the store as it was. -/
structure Commit (s s' : Store) (ws : List Lease) : Prop extends Advance s s' ws where
  applied : ∀ r, s'.applied r = s.applied r
  frame : s' = { s with leases := s'.leases, leaseStates := s'.leaseStates }

namespace Commit
variable {s s' s'' : Store} {ws ws' : List Lease}

theorem refl (s : Store) : Commit s s [] :=
  ⟨⟨rfl, by simp, by simp⟩, fun _ => rfl, rfl⟩

theorem trans (h : Commit s s' ws) (h' : Commit s' s'' ws')
    (hdi : ∀ w ∈ ws, ∀ w' ∈ ws', w.relayID ≠ w'.relayID) : Commit s s'' (ws ++ ws') where
  leases := by rw [h'.leases, h.leases, KeyedMap.putAll_append]
  stamped := by
    intro w hm
    rcases List.mem_append.mp hm with old | new
    · exact h.stamped w old
    · rw [h'.stamped w new, h.revision, if_neg]
      rintro ho
      obtain ⟨v, hmb, hs⟩ := List.mem_map.mp ho
      exact hdi v hmb w new hs
  revision := by
    intro r
    simp only [h'.revision, h.revision, List.map_append, List.mem_append]
    by_cases hfi : r ∈ ws.map Lease.relayID
    · have hse : r ∉ ws'.map Lease.relayID := by
        intro hse
        obtain ⟨v, hmb, rfl⟩ := List.mem_map.mp hfi
        obtain ⟨w, hme, hs⟩ := List.mem_map.mp hse
        exact hdi v hmb w hme hs.symm
      simp [hfi, hse]
    · simp [hfi]
  applied := fun r => (h'.applied r).trans (h.applied r)
  frame := by rw [h'.frame, h.frame]

theorem relays (h : Commit s s' ws) : s'.relays = s.relays := by rw [h.frame]

theorem users (h : Commit s s' ws) : s'.users = s.users := by rw [h.frame]

theorem of_row (relayID : String) (ho : ∀ w ∈ ws, w.relayID = relayID)
    (stamped : ∀ w ∈ ws, w.revision = s.revision relayID + 1)
    (leases : s'.leases = KeyedMap.putAll Lease.id ws s.leases)
    (hsa : ∀ r, s'.leaseState r =
      if r = relayID then { s.leaseState r with revision := s.revision r + if ws = [] then 0 else 1 }
      else s.leaseState r)
    (frame : s' = { s with leases := s'.leases, leaseStates := s'.leaseStates }) : Commit s s' ws where
  leases := leases
  stamped := fun w hm => ho w hm ▸ stamped w hm
  revision := by
    intro r
    unfold Store.revision
    rw [hsa r]
    by_cases hh : r = relayID
    · subst hh
      cases ws with
      | nil => simp [Store.revision]
      | cons w ws => simp [Store.revision, ho w List.mem_cons_self]
    · have off : r ∉ ws.map Lease.relayID := by
        rintro hm
        obtain ⟨w, hme, rfl⟩ := List.mem_map.mp hm
        exact hh (ho w hme)
      rw [if_neg hh, if_neg off]
  applied := by
    intro r
    unfold Store.applied
    rw [hsa r]
    split <;> rfl
  frame := frame

end Commit

/-! ### Issuing -/

section Issue
variable (req : LeaseIssueRequest) (now : Time) (plan : LeaseIssuePlan) (minted : KeyedMap String Lease)
  (eligible : String → Bool) (rev : String → Nat)

def issuedOn (r : String) : List Lease :=
  ((plan.extend.lookup r).map (Lease.renew now req.ttl (rev r))).toList ++
    (if eligible r then (minted.lookup r).map (Lease.stamp (rev r)) else none).toList

def writesOn (r : String) : List Lease :=
  (plan.victims eligible r).map (Lease.revoke now (rev r)) ++ issuedOn req now plan minted eligible rev r

/-- The leases of `r` that the plan speaks of are in the store as the plan read them. -/
structure Ready (s : Store) (r : String) : Prop where
  revision : rev r = s.revision r + 1
  victims : ∀ l ∈ plan.victims eligible r, s.leases.lookup l.id = some l ∧ l.relayID = r
  extend : ∀ l, plan.extend.lookup r = some l → s.leases.lookup l.id = some l ∧ l.relayID = r
  minted : ∀ l, minted.lookup r = some l → l.relayID = r

variable {plan minted eligible rev} {s : Store} {r : String}

theorem Ready.onRelay (hr : Ready plan minted eligible rev s r) :
    ∀ w ∈ writesOn req now plan minted eligible rev r, w.relayID = r ∧ w.revision = rev r := by
  intro w hm
  simp only [writesOn, issuedOn, List.mem_append, List.mem_map, Option.mem_toList] at hm
  rcases hm with ⟨l, hmr, rfl⟩ | hm | hm
  · exact ⟨(hr.victims l hmr).2, rfl⟩
  · obtain ⟨l, hf, rfl⟩ := Option.map_eq_some_iff.mp hm
    exact ⟨(hr.extend l hf).2, rfl⟩
  · split at hm
    · obtain ⟨l, hf, rfl⟩ := Option.map_eq_some_iff.mp hm
      exact ⟨hr.minted l hf, rfl⟩
    · cases hm

variable {req now}

theorem issueOn_eq (result : LeaseIssueResult) (hr : Ready plan minted eligible rev s r)
    (hn : ((writesOn req now plan minted eligible rev r).map Lease.id).Nodup) :
    Store.issueOn req now plan minted eligible (s, result) r =
      let written := { s with
        leases := KeyedMap.putAll Lease.id (writesOn req now plan minted eligible rev r) s.leases
        leaseStates := s.leaseStates.insert r (s.leaseState r) }
      if writesOn req now plan minted eligible rev r = [] then
        (written, { result with leases := result.leases ++ issuedOn req now plan minted eligible rev r })
      else (written.setLeaseState r { s.leaseState r with revision := rev r },
        { leases := result.leases ++ issuedOn req now plan minted eligible rev r
          changedRelayIDs := result.changedRelayIDs ++ [r] }) := by
  have row : (s.leaseState r).revision + 1 = rev r := hr.revision.symm
  rw [writesOn, List.map_append, List.nodup_append] at hn
  obtain ⟨hv, -, ha⟩ := hn
  have hvi : ((plan.victims eligible r).map (Lease.revoke now (rev r))).map Lease.id =
      (plan.victims eligible r).map Lease.id := by simp [Lease.revoke]
  rw [hvi] at hv
  -- The store after the revocations; the extended lease is not among the revoked ones.
  let revoked : Store := { s.setLeaseState r (s.leaseState r) with
    leases := KeyedMap.putAll Lease.id ((plan.victims eligible r).map (Lease.revoke now (rev r))) s.leases }
  have hev : (plan.victims eligible r).foldl
      (fun s victim => s.putLease ((s.leaseAt victim.id).revoke now (rev r))) (s.setLeaseState r (s.leaseState r)) =
        revoked :=
    Store.foldl_rewrite (f := Lease.revoke now (rev r)) (fun _ => rfl) _ (s.setLeaseState r (s.leaseState r))
      (fun l hm => (hr.victims l hm).1) hv
  have he : (plan.extend.lookup r).map (fun extend => (revoked.leaseAt extend.id).renew now req.ttl (rev r)) =
      (plan.extend.lookup r).map (Lease.renew now req.ttl (rev r)) := by
    cases hf : plan.extend.lookup r with
    | none => rfl
    | some l =>
      have hk : revoked.leases.lookup l.id = some l := by
        refine (KeyedMap.lookup_putAll_of_not_mem ?_ s.leases).trans (hr.extend l hf).1
        intro w hm hs
        refine ha w.id (List.mem_map_of_mem hm) l.id ?_ hs
        simp [issuedOn, hf, Lease.renew]
      rw [Option.map_some, Option.map_some, Store.leaseAt_eq hk]
  have hu : (plan.victims eligible r = [] ∧ (plan.extend.lookup r).map (Lease.renew now req.ttl (rev r)) = none ∧
      (if eligible r then (minted.lookup r).map (Lease.stamp (rev r)) else none) = none) ↔
        writesOn req now plan minted eligible rev r = [] := by
    simp [writesOn, issuedOn]
  unfold Store.issueOn
  simp only [row, hev, he, hu, Store.foldl_putLease, ← KeyedMap.putAll_append]
  simp only [writesOn, issuedOn, List.append_assoc, KeyedMap.putAll_append, revoked]
  rfl

theorem issueOn_commit (result : LeaseIssueResult) (hr : Ready plan minted eligible rev s r)
    (hn : ((writesOn req now plan minted eligible rev r).map Lease.id).Nodup) :
    let out := Store.issueOn req now plan minted eligible (s, result) r
    Commit s out.1 (writesOn req now plan minted eligible rev r) ∧
      out.2.leases = result.leases ++ issuedOn req now plan minted eligible rev r ∧
      out.2.changedRelayIDs = result.changedRelayIDs ++
        [r].filter fun r => decide (writesOn req now plan minted eligible rev r ≠ []) := by
  simp only [issueOn_eq result hr hn]
  have ho := hr.onRelay req now
  have hsm : ∀ w ∈ writesOn req now plan minted eligible rev r, w.revision = s.revision r + 1 :=
    fun w hm => (ho w hm).2.trans hr.revision
  by_cases hem : writesOn req now plan minted eligible rev r = []
  · simp only [hem, if_true]
    refine ⟨Commit.of_row r (by simp) (by simp) rfl (fun r' => ?_) rfl, trivial, by simp [hem]⟩
    refine (Store.leaseState_setLeaseState s r r' (s.leaseState r)).trans ?_
    split
    · next hh => rw [hh, if_pos rfl]; rfl
    · rfl
  · simp only [hem, if_false]
    refine ⟨Commit.of_row r (fun w hm => (ho w hm).1) hsm rfl (fun r' => ?_) rfl, trivial, by simp [hem]⟩
    refine (Store.leaseState_setLeaseState _ r r' _).trans ?_
    split
    · next hh => simp only [hh, hr.revision]
    · next off =>
      exact (Store.leaseState_setLeaseState s r r' (s.leaseState r)).trans (if_neg off)

theorem Ready.after (req : LeaseIssueRequest) (now : Time) {s' : Store} {ws : List Lease} {r' : String}
    (hr : Ready plan minted eligible rev s r')
    (hc : Commit s s' ws) (off : ∀ w ∈ ws, w.relayID ≠ r')
    (ha : ∀ w ∈ ws, ∀ w' ∈ writesOn req now plan minted eligible rev r', w.id ≠ w'.id) :
    Ready plan minted eligible rev s' r' where
  revision := by
    rw [hc.revision, if_neg, hr.revision]
    intro hm
    obtain ⟨w, hme, hs⟩ := List.mem_map.mp hm
    exact off w hme hs
  victims := by
    intro l hm
    refine ⟨?_, (hr.victims l hm).2⟩
    rw [hc.leases, KeyedMap.lookup_putAll_of_not_mem, (hr.victims l hm).1]
    intro w hme
    exact ha w hme (l.revoke now (rev r')) (List.mem_append_left _ (List.mem_map_of_mem hm))
  extend := by
    intro l hf
    refine ⟨?_, (hr.extend l hf).2⟩
    rw [hc.leases, KeyedMap.lookup_putAll_of_not_mem, (hr.extend l hf).1]
    intro w hme
    refine ha w hme (l.renew now req.ttl (rev r')) (List.mem_append_right _ ?_)
    simp [issuedOn, hf]
  minted := hr.minted

theorem Ready.rest {rs : List String} (result : LeaseIssueResult) (hd : (r :: rs).Nodup)
    (hn : (((r :: rs).flatMap (writesOn req now plan minted eligible rev)).map Lease.id).Nodup)
    (hr : ∀ r' ∈ r :: rs, Ready plan minted eligible rev s r') :
    ∀ r' ∈ rs, Ready plan minted eligible rev (Store.issueOn req now plan minted eligible (s, result) r).1 r' := by
  rw [List.flatMap_cons, List.map_append, List.nodup_append] at hn
  obtain ⟨hno, -, ha⟩ := hn
  have hre := hr r List.mem_cons_self
  have ho := hre.onRelay req now
  intro r' hm
  refine (hr r' (List.mem_cons_of_mem _ hm)).after req now (issueOn_commit result hre hno).1 ?_ ?_
  · exact fun w hme hs => (List.nodup_cons.mp hd).1 (((ho w hme).1.symm.trans hs) ▸ hm)
  · exact fun w hme w' hmm => ha w.id (List.mem_map_of_mem hme) w'.id
      (List.mem_map_of_mem (List.mem_flatMap.mpr ⟨r', hm, hmm⟩))

theorem issueLoop_commit (rs : List String) (s : Store) (result : LeaseIssueResult) (hd : rs.Nodup)
    (hn : ((rs.flatMap (writesOn req now plan minted eligible rev)).map Lease.id).Nodup)
    (hr : ∀ r ∈ rs, Ready plan minted eligible rev s r) :
    let out := rs.foldl (Store.issueOn req now plan minted eligible) (s, result)
    Commit s out.1 (rs.flatMap (writesOn req now plan minted eligible rev)) ∧
      out.2.leases = result.leases ++ rs.flatMap (issuedOn req now plan minted eligible rev) ∧
      out.2.changedRelayIDs = result.changedRelayIDs ++
        rs.filter fun r => decide (writesOn req now plan minted eligible rev r ≠ []) := by
  induction rs generalizing s result with
  | nil => exact ⟨Commit.refl s, (List.append_nil _).symm, (List.append_nil _).symm⟩
  | cons r rs ih =>
    have hra := Ready.rest result hd hn hr
    rw [List.nodup_cons] at hd
    rw [List.flatMap_cons, List.map_append, List.nodup_append] at hn
    obtain ⟨hno, hnd, -⟩ := hn
    have hre := hr r List.mem_cons_self
    obtain ⟨hc, hle, hca⟩ := issueOn_commit result hre hno
    have ho := hre.onRelay req now
    obtain ⟨hco, hl, hch⟩ := ih (Store.issueOn req now plan minted eligible (s, result) r).1
      (Store.issueOn req now plan minted eligible (s, result) r).2 hd.2 hnd hra
    refine ⟨?_, ?_, ?_⟩
    · refine hc.trans hco fun w hme w' hmm hs => ?_
      obtain ⟨r', hm, hmm⟩ := List.mem_flatMap.mp hmm
      have on' := (hr r' (List.mem_cons_of_mem _ hm)).onRelay req now w' hmm
      exact hd.1 (((ho w hme).1.symm.trans (hs.trans on'.1)) ▸ hm)
    · rw [List.foldl_cons, hl, hle, List.flatMap_cons, List.append_assoc]
    · rw [List.foldl_cons, hch, hca, List.append_assoc, ← List.filter_append, List.singleton_append]

end Issue

end OpenRung.Broker
