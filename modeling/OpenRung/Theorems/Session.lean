import OpenRung.System.Sync
import OpenRung.Theorems.Effect

/-! The session of a relay at the broker: its lease token and the revision applied under it. Only a registration
    gives a relay another token, and the new session has applied nothing. -/

namespace OpenRung.Broker
namespace Store

def token (s : Store) (r : String) : String :=
  match s.relays.lookup r with
  | none => ""
  | some desc => desc.leaseToken

theorem token_of_authorized {s : Store} {r t : String} (ha : s.leaseRelayAuthorized r t) :
    s.token r = t ∧ t ≠ "" := by
  unfold leaseRelayAuthorized at ha
  unfold token
  cases hf : s.relays.lookup r with
  | none =>
    rw [hf] at ha
    cases ha
  | some desc =>
    rw [hf] at ha
    simp only [Bool.and_eq_true, bne_iff_ne, beq_iff_eq] at ha
    exact ⟨ha.2, ha.2 ▸ ha.1.2⟩

structure KeepsSession (s s' : Store) (r : String) : Prop where
  token : s'.token r = s.token r ∨ s'.token r = ""
  applied : s'.applied r = s.applied r

theorem applied_congr {s s' : Store} (hs : s'.leaseStates = s.leaseStates) (r : String) :
    s'.applied r = s.applied r := by
  unfold applied leaseState
  rw [hs]

theorem KeepsSession.of_relays {s s' : Store} {r : String} (hr : s'.relays = s.relays)
    (applied : s'.applied r = s.applied r) : KeepsSession s s' r where
  token := .inl (by rw [Store.token, hr]; rfl)
  applied := applied

theorem KeepsSession.of_filter {s s' : Store} {r : String} {keep : String → Descriptor → Bool}
    (hr : s'.relays.lookup r = (s.relays.filter keep).lookup r) (applied : s'.applied r = s.applied r) :
    KeepsSession s s' r where
  token := by
    unfold Store.token
    rw [hr]
    cases hf : (s.relays.filter keep).lookup r with
    | none => exact .inr rfl
    | some desc => exact .inl (by rw [(KeyedMap.lookup_filter_eq_some.mp hf).1])
  applied := applied

variable (s : Store) (r : String)

theorem updateRelay_session {id t : String} {update : Descriptor → Descriptor}
    (hsa : ∀ desc, (update desc).leaseToken = desc.leaseToken) : KeepsSession s (s.updateRelay id t update).1 r := by
  refine ⟨.inl ?_, applied_congr (s.updateRelay_frame id t update).2.1 r⟩
  unfold updateRelay
  split
  · rfl
  · next desc hf =>
    split
    · unfold token
      by_cases hh : r = id
      · subst hh
        simp only [AList.lookup_insert, hf, hsa]
      · simp only [AList.lookup_insert_ne hh]
    · rfl

theorem heartbeat_session (id t maxClass clientID : String) (now : Time) (ttl : Duration) :
    KeepsSession s (s.heartbeat id t maxClass clientID now ttl).1 r := by
  unfold heartbeat
  split
  · exact .of_relays rfl rfl
  · split
    · exact .of_relays rfl rfl
    · exact s.updateRelay_session r fun _ => rfl

theorem ackLeaseRevision_session {relayID : String} (hot : relayID ≠ r) (t : String) (revision : Int) :
    KeepsSession s (s.ackLeaseRevision relayID t revision).1 r := by
  refine .of_relays (s.ackLeaseRevision_frame relayID t revision).2.2.2 ?_
  unfold ackLeaseRevision
  split
  · simp only [applied, leaseState_setLeaseState, if_neg hot.symm]
  · rfl

theorem apply_session (checks : RegisterChecks) {used : String → Prop} (now : Time) {op : Op} (ho : op.Outside r)
    (hk : s.leases.Keyed Lease.id) (hco : ∀ id, s.leases.lookup id ≠ none → used id) (hfr : op.Fresh used) :
    KeepsSession s (s.apply checks now op).1 r := by
  cases op with
  | authenticateUser key source windows refuseNew newUserID =>
    obtain ⟨-, hs, hr⟩ := s.authenticateUser_frame key source windows refuseNew newUserID now
    exact .of_relays hr (applied_congr hs r)
  | setUserStatus id status reason =>
    rcases s.setUserStatus_cases id status reason now with ⟨user, eq, -⟩ | ⟨user, eq, -⟩ | ⟨e, eq⟩
    · have hc := s.revokeUserLeases_commit id now
      simp only [Store.apply, eq]
      exact .of_relays hc.relays (hc.applied r)
    · simp only [Store.apply, eq]
      exact .of_relays rfl rfl
    · simp only [Store.apply, eq]
      exact .of_relays rfl rfl
  | issueLeases req mint =>
    rcases s.issueLeases_cases req mint now with ⟨e, eq⟩ | ⟨plan, drawn, hi, eq⟩
    · simp only [Store.apply, eq]
      exact .of_relays rfl rfl
    · obtain ⟨hc, -, -⟩ := hi.commit hk (FreshMint.draws hi hco hfr)
      simp only [Store.apply, eq]
      exact .of_relays hc.relays (hc.applied r)
  | relayLeaseSet relayID t => exact .of_relays rfl rfl
  | ackLeaseRevision relayID t revision => exact s.ackLeaseRevision_session r ho t revision
  | register req draws ttl => exact absurd ho id
  | heartbeat id t maxClass clientID ttl => exact s.heartbeat_session r id t maxClass clientID now ttl
  | updateGeo id t geo => exact s.updateRelay_session r fun _ => rfl
  | updateReachability id t reachable => exact s.updateRelay_session r fun _ => rfl
  | updateAccessReachability id t reachable => exact s.updateRelay_session r fun _ => rfl
  | prune => exact .of_filter rfl rfl

theorem replaceRow_session (desc : Descriptor) :
    KeepsSession s (s.replaceRow desc) r ∨
      (desc.leaseToken ≠ "" ∧ (s.replaceRow desc).token r = desc.leaseToken ∧ (s.replaceRow desc).applied r = 0) := by
  unfold replaceRow
  simp only
  by_cases hh : r = desc.id
  · subst hh
    split
    · next hl =>
      refine .inl ⟨.inr ?_, rfl⟩
      simp only [token, AList.lookup_insert, hl]
    · next hst =>
      refine .inr ⟨hst, ?_, ?_⟩
      · simp only [token, setLeaseState, AList.lookup_insert]
      · simp only [applied, leaseState_setLeaseState, if_true]
  · left
    split
    · exact .of_filter (AList.lookup_insert_ne hh) rfl
    · refine .of_filter (AList.lookup_insert_ne hh) ?_
      simp only [applied, leaseState_setLeaseState, if_neg hh]
      rfl

theorem register_session (checks : RegisterChecks) (req : RegisterRequest) (draws : RegisterDraws) (now : Time)
    (ttl : Duration) :
    KeepsSession s (s.register checks req draws now ttl).1 r ∨
      (draws.leaseToken = some ((s.register checks req draws now ttl).1.token r) ∧
        (s.register checks req draws now ttl).1.applied r = 0) := by
  have hin : ∀ desc, KeepsSession s (s.installDescriptor desc now).1 r ∨
      (desc.leaseToken ≠ "" ∧ (s.installDescriptor desc now).1.token r = desc.leaseToken ∧
        (s.installDescriptor desc now).1.applied r = 0) := by
    intro desc
    unfold installDescriptor
    simp only
    split
    · exact .inl (.of_relays rfl rfl)
    · have hsa : ∀ rows, (preserveGeo rows desc).leaseToken = desc.leaseToken := by
        intro rows
        unfold preserveGeo
        split <;> rfl
      rw [← hsa]
      exact s.replaceRow_session r _
  unfold register
  split
  · exact .inl (.of_relays rfl rfl)
  · split
    · exact .inl (.of_relays rfl rfl)
    · split
      · split
        · exact .inl (.of_relays rfl rfl)
        · next id hd =>
          exact .inl ((hin (newDescriptor req id "" false now ttl)).resolve_right fun new => new.1 rfl)
      · split
        · exact .inl (.of_relays rfl rfl)
        · next key _ _ t hd =>
          rcases hin (newDescriptor req (checks.deriveRelayID key) t true now ttl) with hke | ⟨-, ht, hap⟩
          · exact .inl hke
          · exact .inr ⟨by rw [hd, ht]; rfl, hap⟩

end Store
end OpenRung.Broker
