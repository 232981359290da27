import OpenRung.Engine.LeasePass
import Mathlib.Tactic

/-! The lease of a connection belongs to the credential that is returned for promotion, whatever the passes before did. -/

namespace OpenRung.Ladder

variable {ctx : Context} {host : PassHost} {conn conn' : Connection} {now now' : Nat}

/-! ### Descriptors on their way to the ladder

Selecting, rewriting to an endpoint, ranking and demoting keep the identity and the credential of a descriptor. -/

structure Keeps (out into : RelayDescriptor) : Prop where
  id : out.id = into.id
  clientID : out.clientID = into.clientID
  issuedBy : out.issuedBy = into.issuedBy

theorem Keeps.refl (relay : RelayDescriptor) : Keeps relay relay := ⟨rfl, rfl, rfl⟩

theorem Keeps.trans {a b c : RelayDescriptor} (hfi : Keeps a b) (hse : Keeps b c) : Keeps a c :=
  ⟨hfi.id.trans hse.id, hfi.clientID.trans hse.clientID, hfi.issuedBy.trans hse.issuedBy⟩

theorem keeps_at (relay : RelayDescriptor) (endpoint : RelayEndpoint) : Keeps (relay.at endpoint) relay := ⟨rfl, rfl, rfl⟩

def Within (out into : List RelayDescriptor) : Prop := ∀ relay ∈ out, ∃ source ∈ into, Keeps relay source

theorem Within.trans {a b c : List RelayDescriptor} (hfi : Within a b) (hse : Within b c) : Within a c := by
  intro relay mem
  obtain ⟨middle, mem, hk⟩ := hfi relay mem
  obtain ⟨source, mem, hke⟩ := hse middle mem
  exact ⟨source, mem, hk.trans hke⟩

theorem Within.of_subset {out into : List RelayDescriptor} (sub : out ⊆ into) : Within out into :=
  fun relay mem => ⟨relay, sub mem, .refl relay⟩

theorem filterCandidates_subset {cands out : List RelayDescriptor} (ok : filterCandidates host cands = some out) :
    out ⊆ cands := by
  unfold filterCandidates at ok
  dsimp only at ok
  repeat' split at ok
  all_goals cases ok
  all_goals first
    | exact List.filter_subset_self _
    | exact List.Subset.refl _

theorem candidatesFor_within {relays out : List RelayDescriptor} (ok : candidatesFor host relays = some out) :
    Within out relays := by
  unfold candidatesFor at ok
  dsimp only at ok
  split at ok
  · cases ok
  · split at ok
    · cases ok
    · exact .of_subset (List.Subset.trans (filterCandidates_subset ok) (List.filter_subset_self _))

theorem keeps_adapted {cand relay : RelayDescriptor} {flag : Bool}
    (eq : (match publicEndpointFor host.toHost conn.publicEndpoints cand with
      | some endpoint => (cand.at endpoint, false)
      | none => (cand, host.isIPv6Host cand.publicHost)) = (relay, flag)) : Keeps relay cand := by
  split at eq
  next endpoint _ =>
    obtain ⟨rfl, -⟩ := Prod.mk.inj eq
    exact keeps_at cand endpoint
  next =>
    obtain ⟨rfl, -⟩ := Prod.mk.inj eq
    exact .refl cand

theorem adaptToAddressFamily_within (unavailable : Bool) (cands : List RelayDescriptor) :
    Within (adaptToAddressFamily host conn unavailable cands) cands := by
  unfold adaptToAddressFamily
  split
  · intro relay mem
    simp only [List.mem_append, List.mem_map, List.mem_filter] at mem
    rcases mem with ⟨⟨r, flag⟩, ⟨⟨cand, mem, eq⟩, -⟩, rfl⟩ | ⟨⟨r, flag⟩, ⟨⟨cand, mem, eq⟩, -⟩, rfl⟩
    · exact ⟨cand, mem, keeps_adapted eq⟩
    · exact ⟨cand, mem, keeps_adapted eq⟩
  · exact .of_subset (List.Subset.refl _)

theorem rankByTCPLatency_subset (probe : Nat → Option Nat) (cands : List RelayDescriptor) :
    rankByTCPLatency probe cands ⊆ cands := by
  unfold rankByTCPLatency
  split
  · exact List.Subset.refl _
  · intro relay mem
    have hh : ∀ entry ∈ (cands.take relayRankMaxProbes).zipIdx.map fun entry => (entry.1, probe entry.2),
        entry.1 ∈ cands := by
      intro entry mem
      obtain ⟨⟨relay, index⟩, hli, rfl⟩ := List.mem_map.mp mem
      exact List.mem_of_mem_take (List.fst_mem_of_mem_zipIdx hli)
    simp only [List.mem_append, List.mem_map, List.mem_mergeSort, List.mem_filter] at mem
    rcases mem with (⟨entry, ⟨mem, -⟩, rfl⟩ | ⟨entry, ⟨mem, -⟩, rfl⟩) | mem
    · exact hh entry (List.mem_map.mpr mem)
    · exact hh entry (List.mem_map.mpr mem)
    · exact List.mem_of_mem_drop mem

theorem rankLadder_within (probe : Nat → Option Nat) (cands : List RelayDescriptor) :
    Within (rankLadder host probe cands) cands := by
  unfold rankLadder
  split
  · exact .of_subset (List.Subset.refl _)
  · exact .of_subset (rankByTCPLatency_subset probe cands)

theorem demoteRelay_within (cands : List RelayDescriptor) (id : String) : Within (demoteRelay cands id) cands := by
  refine .of_subset fun relay mem => ?_
  rcases List.mem_append.mp mem with mem | mem
  · exact List.mem_of_mem_filter mem
  · exact List.mem_of_mem_filter mem

theorem demoteFailed_within (failed : Option String) (cands : List RelayDescriptor) :
    Within (demoteFailed failed cands) cands := by
  cases failed with
  | none => exact .of_subset (List.Subset.refl _)
  | some id => exact demoteRelay_within cands id

theorem leasedEndpointRetries_within (tried : List RelayDescriptor) (before : KeyedMap String RelayEndpoint) :
    Within (leasedEndpointRetries host conn tried before) tried := by
  intro relay mem
  obtain ⟨cand, mem, eq⟩ := List.mem_filterMap.mp mem
  refine ⟨cand, mem, ?_⟩
  dsimp only at eq
  repeat' split at eq
  all_goals cases eq
  exact ⟨rfl, rfl, rfl⟩

/-! ### The winner of a ladder -/

section
variable {endpoints : KeyedMap String RelayEndpoint} {cand : RelayDescriptor} {result : CandidateResult} {attempt index : Nat}

variable {host : Host}

theorem openCandidate_relay {ops : DirectOps}
    (ok : (openCandidate ctx host cand ops attempt now).1 = .ok result) : result.relay = cand := by
  unfold openCandidate at ok
  dsimp only at ok
  split at ok
  · cases ok
  · cases ok
    rfl

theorem attemptDirectCandidate_keeps {ops : DirectOps}
    (ok : (attemptDirectCandidate ctx host endpoints cand ops attempt now).1 = .ok result) : Keeps result.relay cand := by
  unfold attemptDirectCandidate at ok
  repeat' split at ok
  all_goals first
    | cases ok
    | rw [openCandidate_relay ok]; exact .refl _
    | rw [openCandidate_relay ok]; exact keeps_at _ _

theorem attemptWSSCandidate_keeps {front : WSSFront} {ops : WSSOps}
    (ok : (attemptWSSCandidate ctx host cand front ops attempt now).1 = .ok result) : Keeps result.relay cand := by
  unfold attemptWSSCandidate at ok
  dsimp only at ok
  repeat' split at ok
  all_goals cases ok
  exact .refl _

theorem attemptFronts_keeps (ops : Nat → WSSOps) (fronts : List WSSFront) (front : Nat)
    (lastErr : CandidateError) (s : LadderState)
    (ok : (attemptFronts ctx host cand ops index front fronts lastErr s).1 = .ok result) : Keeps result.relay cand := by
  induction fronts generalizing front lastErr s with
  | nil => cases ok
  | cons next rest ih =>
    simp only [attemptFronts] at ok
    split at ok
    next won =>
      cases ok
      exact attemptWSSCandidate_keeps won
    next =>
      split at ok
      · cases ok
      · split at ok
        · cases ok
        · exact ih _ _ _ ok

theorem attemptCandidate_keeps {ops : CandidateOps} {s : LadderState}
    (ok : (attemptCandidate ctx host endpoints cand ops index s).1 = .ok result) : Keeps result.relay cand := by
  unfold attemptCandidate at ok
  dsimp only at ok
  split at ok
  next won =>
    cases ok
    exact attemptDirectCandidate_keeps won
  next =>
    repeat' split at ok
    all_goals first
      | cases ok
      | exact attemptFronts_keeps _ _ _ _ _ ok

theorem runLadderFrom_within (ops : Nat → CandidateOps) (cands : List RelayDescriptor) (index : Nat)
    (lastErr : Option CandidateError) (s : LadderState)
    (ok : (runLadderFrom ctx host endpoints ops index cands lastErr s).1 = .ok result) :
    ∃ cand ∈ cands, Keeps result.relay cand := by
  induction cands generalizing index lastErr s with
  | nil => cases ok
  | cons cand rest ih =>
    simp only [runLadderFrom] at ok
    split at ok
    · cases ok
    · split at ok
      next won =>
        cases ok
        exact ⟨cand, List.mem_cons_self, attemptCandidate_keeps won⟩
      next =>
        split at ok
        · cases ok
        · split at ok
          · cases ok
          · obtain ⟨cand, mem, hk⟩ := ih _ _ _ ok
            exact ⟨cand, List.mem_cons_of_mem _ mem, hk⟩

theorem runLadder_within {ops : Nat → CandidateOps} {cands into : List RelayDescriptor}
    (hw : Within cands into) (ok : (runLadder ctx host endpoints ops cands now).1 = .ok result) :
    ∃ source ∈ into, Keeps result.relay source := by
  obtain ⟨cand, mem, hk⟩ := runLadderFrom_within ops cands 0 none _ ok
  obtain ⟨source, mem, hke⟩ := hw cand mem
  exact ⟨source, mem, hk.trans hke⟩

end

/-! ### The lease along a pass -/

structure Granted (conn : Connection) (relays : List RelayDescriptor) : Prop where
  issued : ∀ relay ∈ relays, relay.issuedBy = .access conn.pass
  grant : ∃ grant, conn.granted = some grant ∧
    conn.lease.expiresAt = some (grant.answer.received + grant.answer.lifetime) ∧
    conn.lease.lifetime = grant.answer.lifetime ∧ conn.lease.front = grant.front ∧
    ∀ relay ∈ relays, ∃ source ∈ grant.answer.relays, source.id = relay.id ∧ source.clientID = relay.clientID

structure Shared (conn : Connection) (relays : List RelayDescriptor) : Prop where
  issued : ∀ relay ∈ relays, relay.issuedBy = .publicList
  invalid : conn.lease = {}

def Belongs (conn : Connection) (result : CandidateResult) : Prop :=
  (conn.lease.valid = true ↔ result.relay.issuedBy = .access conn.pass) ∧
    (conn.lease.valid = true → ∃ grant, conn.granted = some grant ∧
      conn.lease.expiresAt = some (grant.answer.received + grant.answer.lifetime) ∧
      conn.lease.lifetime = grant.answer.lifetime ∧ conn.lease.front = grant.front ∧
      ∃ source ∈ grant.answer.relays, source.id = result.relay.id ∧ source.clientID = result.relay.clientID)

theorem Granted.valid {relays : List RelayDescriptor} (hg : Granted conn relays) : conn.lease.valid = true := by
  obtain ⟨grant, -, he, hl, -⟩ := hg.grant
  have hls := grant.answer.lasting
  simp only [AccessLease.valid, he, hl, AccessAnswer.lifetime, Option.isSome_some, Bool.true_and,
    decide_eq_true_eq]
  exact sub_pos.mpr hls

theorem Granted.within {relays out : List RelayDescriptor} (hg : Granted conn relays) (hw : Within out relays) :
    Granted conn out := by
  refine ⟨fun relay mem => ?_, ?_⟩
  · obtain ⟨source, mem, hk⟩ := hw relay mem
    exact hk.issuedBy.trans (hg.issued source mem)
  · obtain ⟨grant, eq, he, hl, hfr, hsu⟩ := hg.grant
    refine ⟨grant, eq, he, hl, hfr, fun relay mem => ?_⟩
    obtain ⟨middle, mem, hk⟩ := hw relay mem
    obtain ⟨source, mem, id, hc⟩ := hsu middle mem
    exact ⟨source, mem, id.trans hk.id.symm, hc.trans hk.clientID.symm⟩

variable {result : CandidateResult}

theorem Granted.belongs {relays : List RelayDescriptor} (hg : Granted conn relays)
    (won : ∃ cand ∈ relays, Keeps result.relay cand) : Belongs conn result := by
  have hw : Within [result.relay] relays := by simpa [Within] using won
  have hg := hg.within hw
  refine ⟨iff_of_true hg.valid (hg.issued _ (List.mem_singleton_self _)), fun _ => ?_⟩
  obtain ⟨grant, eq, he, hl, hfr, hsu⟩ := hg.grant
  exact ⟨grant, eq, he, hl, hfr, hsu _ (List.mem_singleton_self _)⟩

theorem Shared.belongs {relays : List RelayDescriptor} (hs : Shared conn relays)
    (won : ∃ cand ∈ relays, Keeps result.relay cand) : Belongs conn result := by
  obtain ⟨cand, mem, hk⟩ := won
  have hin : ¬conn.lease.valid = true := by simp [hs.invalid, AccessLease.valid]
  refine ⟨iff_of_false hin ?_, fun hv => absurd hv hin⟩
  rw [hk.issuedBy, hs.issued cand mem]
  exact CredentialSource.noConfusion

/-- A lease with the relays of its answer, or no lease and a public list. -/
structure Fetched (conn : Connection) (relays : List RelayDescriptor) : Prop where
  source : Granted conn relays ∨ Shared conn relays
  fallback : ∀ fetch, conn.publicFallback = some fetch → ∀ relay ∈ fetch.relays, relay.issuedBy = .publicList

theorem publicList_issued (fetch : Fetch) : ∀ relay ∈ fetch.publicList.relays, relay.issuedBy = .publicList := by
  intro relay mem
  obtain ⟨source, -, rfl⟩ := List.mem_map.mp mem
  rfl

theorem fetchAccess_cases {front : String} {azureSNI : Bool} {reply : AccessReply} {accessed : Accessed}
    (eq : fetchAccess host ctx conn front azureSNI reply now = (accessed, conn', now')) :
    (∃ fetch grant, accessed = .granted fetch ∧ fetch.relays = grant.answer.relays.map (.issued (.access conn.pass)) ∧
      grant.front = front ∧
      conn' = { conn with
        lease :=
          { expiresAt := some (grant.answer.received + grant.answer.lifetime), lifetime := grant.answer.lifetime,
            front, azureSNI }
        granted := some grant }) ∨
    ((accessed = .declined ∨ accessed = .refused) ∧ conn'.lease = conn.lease ∧ conn'.pass = conn.pass ∧
      conn'.publicFallback = conn.publicFallback) := by
  unfold fetchAccess at eq
  dsimp only at eq
  split at eq
  · cases eq
    exact .inr ⟨.inl rfl, rfl, rfl, rfl⟩
  · split at eq
    next answer =>
      split at eq
      · cases eq
        exact .inr ⟨.inl rfl, rfl, rfl, rfl⟩
      · cases eq
        exact .inr ⟨.inl rfl, rfl, rfl, rfl⟩
      · cases eq
        exact .inl ⟨_, ⟨answer, front⟩, rfl, rfl, rfl, rfl⟩
    all_goals
      first | split at eq | skip
      all_goals
        cases eq
        refine .inr ⟨?_, rfl, rfl, rfl⟩
        simp

theorem fetchAccess_granted {front : String} {azureSNI : Bool} {reply : AccessReply} {fetch : Fetch}
    (eq : fetchAccess host ctx conn front azureSNI reply now = (.granted fetch, conn', now')) :
    Granted conn' fetch.relays ∧ conn'.publicFallback = conn.publicFallback := by
  obtain ⟨_, grant, hsa, hr, rfl, rfl⟩ | ⟨hd | hrf, -⟩ := fetchAccess_cases eq
  · cases hsa
    refine ⟨⟨fun relay mem => ?_, grant, rfl, rfl, rfl, rfl, fun relay mem => ?_⟩, rfl⟩
    · rw [hr] at mem
      obtain ⟨source, -, rfl⟩ := List.mem_map.mp mem
      rfl
    · rw [hr] at mem
      obtain ⟨source, hli, rfl⟩ := List.mem_map.mp mem
      exact ⟨source, hli, rfl, rfl⟩
  · cases hd
  · cases hrf

theorem fetchAccess_declined {front : String} {azureSNI : Bool} {reply : AccessReply}
    (eq : fetchAccess host ctx conn front azureSNI reply now = (.declined, conn', now')) :
    conn'.lease = conn.lease ∧ conn'.publicFallback = conn.publicFallback := by
  obtain ⟨_, _, hsa, -⟩ | ⟨-, hle, -, hf⟩ := fetchAccess_cases eq
  · cases hsa
  · exact ⟨hle, hf⟩

theorem fetchRaced_fetched {wantAccess : Bool} {tried : String} {ops : FetchOps} {fetch : Fetch}
    (hn : conn.lease = {}) (hno : conn.publicFallback = none)
    (eq : fetchRaced host ctx conn wantAccess tried ops now = (some fetch, conn', now')) : Fetched conn' fetch.relays := by
  unfold fetchRaced at eq
  dsimp only at eq
  split at eq
  · cases eq
  · split at eq
    · split at eq
      next => cases eq
      next hg =>
        cases eq
        obtain ⟨⟨hi, hgr⟩, -⟩ := fetchAccess_granted hg
        refine ⟨.inl ⟨hi, hgr⟩, fun fetch hsa => ?_⟩
        cases hsa
        exact publicList_issued _
      next hd =>
        cases eq
        obtain ⟨hle, hf⟩ := fetchAccess_declined hd
        refine ⟨.inr ⟨publicList_issued _, hle.trans hn⟩, fun fetch hsa => ?_⟩
        cases (hf.trans hno).symm.trans hsa
    · cases eq
      refine ⟨.inr ⟨publicList_issued _, hn⟩, fun fetch hsa => ?_⟩
      cases hno.symm.trans hsa

/-- Every pass begins by forgetting the lease of the pass before. -/
theorem fetchCandidates_fetched {ops : FetchOps} {fetch : Fetch}
    (eq : fetchCandidates host ctx conn ops now = (some fetch, conn', now')) : Fetched conn' fetch.relays := by
  unfold fetchCandidates at eq
  dsimp only at eq
  split at eq
  · split at eq
    next => cases eq
    next hg =>
      cases eq
      obtain ⟨hg, hf⟩ := fetchAccess_granted hg
      refine ⟨.inl hg, fun fetch hsa => ?_⟩
      cases hf.symm.trans hsa
    next hd =>
      obtain ⟨hle, hf⟩ := fetchAccess_declined hd
      exact fetchRaced_fetched hle hf eq
  · exact fetchRaced_fetched rfl rfl eq

/-! ### The public fallback -/

theorem runPublicLadder_belongs {fetch : Fetch} {tried : List RelayDescriptor} {failed : String} {ops : PassOps}
    (hs : Shared conn fetch.relays)
    (eq : runPublicLadder host ctx conn fetch tried failed ops now = (some (.ok result), conn', now')) :
    Belongs conn' result := by
  unfold runPublicLadder at eq
  dsimp only at eq
  split at eq
  · cases eq
  next cands hsl =>
    split at eq
    · cases eq
    · injection eq with outcome rest
      injection rest with same
      subst same
      exact hs.belongs <| runLadder_within ((demoteRelay_within _ failed).trans <| (rankLadder_within _ _).trans <|
        (Within.of_subset (List.filter_subset_self _)).trans <|
          (adaptToAddressFamily_within _ _).trans (candidatesFor_within hsl)) (Option.some.inj outcome)

/-- The fallback keeps the lease for the retries of leased candidates, and drops it for the public ones. -/
theorem runPublicFallback_belongs {relays tried : List RelayDescriptor} {failed : String} {err : CandidateError}
    {ops : PassOps} (hfe : Fetched conn relays) (hw : Within tried relays)
    (eq : runPublicFallback host ctx conn tried failed err ops now = (some (.ok result), conn', now')) :
    Belongs conn' result := by
  unfold runPublicFallback at eq
  dsimp only at eq
  split at eq
  · cases eq
  next hu =>
    split at eq
    · cases eq
    · -- a valid lease was granted
      have hg : Granted conn relays := by
        rcases hfe.source with hg | hs
        · exact hg
        · simp [hs.invalid, AccessLease.valid] at hu
      split at eq
      · cases eq
      next fetch found hso =>
        have hfo : (∀ relay ∈ fetch.relays, relay.issuedBy = .publicList) ∧ found.lease = {} ∧
            found.pass = conn.pass ∧ found.granted = conn.granted := by
          split at hso
          next hkp =>
            cases hso
            exact ⟨hfe.fallback _ hkp, rfl, rfl, rfl⟩
          next =>
            obtain ⟨fresh, -, hsa⟩ := Option.map_eq_some_iff.mp hso
            cases hsa
            exact ⟨publicList_issued _, rfl, rfl, rfl⟩
        obtain ⟨hi, hn, hsP, hsm⟩ := hfo
        split at eq
        · exact runPublicLadder_belongs ⟨hi, hn⟩ eq
        · split at eq
          next won =>
            cases eq
            have hld : Granted { found with lease := conn.lease } relays :=
              ⟨by rw [hsP]; exact hg.issued, by rw [hsm]; exact hg.grant⟩
            exact hld.belongs <| runLadder_within
              ((demoteRelay_within _ failed).trans ((leasedEndpointRetries_within tried _).trans hw)) won
          next =>
            split at eq
            · cases eq
            · exact runPublicLadder_belongs ⟨hi, rfl⟩ eq

/-! ### Passes -/

theorem runPassLadder_belongs {fetch : Fetch} {failed : Option String} {ops : PassOps}
    (hfe : Fetched conn fetch.relays)
    (eq : runPassLadder host ctx conn fetch failed ops now = (some result, conn', now')) : Belongs conn' result := by
  unfold runPassLadder at eq
  dsimp only at eq
  split at eq
  · cases eq
  next cands hsl =>
    have hla : Within (demoteFailed failed
        (rankLadder host ops.probe (adaptToAddressFamily host conn ops.ipv6Unavailable cands))) fetch.relays :=
      (demoteFailed_within failed _).trans <| (rankLadder_within _ _).trans <|
        (adaptToAddressFamily_within _ _).trans (candidatesFor_within hsl)
    split at eq
    · cases eq
    · split at eq
      next won =>
        cases eq
        rcases hfe.source with hg | hs
        · exact hg.belongs (runLadder_within hla won)
        · exact hs.belongs (runLadder_within hla won)
      next =>
        split at eq
        next hf =>
          cases eq
          exact runPublicFallback_belongs hfe hla hf
        next => cases eq

theorem runPass_belongs {pass : Pass}
    (eq : runPass host ctx conn now pass = (some result, conn', now')) : Belongs conn' result := by
  cases pass with
  | connect ops =>
    simp only [runPass] at eq
    split at eq
    next => cases eq
    next hfe => exact runPassLadder_belongs (fetchCandidates_fetched hfe) eq
  | recover failedRelayID ops again =>
    simp only [runPass] at eq
    split at eq
    next hfe => exact runPassLadder_belongs (fetchCandidates_fetched hfe) eq
    next =>
      split at eq
      next => cases eq
      next =>
        split at eq
        next => cases eq
        next hfe => exact runPassLadder_belongs (fetchCandidates_fetched hfe) eq

/-- Whenever a pass returns a candidate, the lease is valid exactly when the candidate's credential is the access
    answer's of this very pass, and then the lease is that of the answer. -/
theorem lease_belongs_to_credential (host : PassHost) (ctx : Context) (conn : Connection) (now : Nat) (passes : List Pass) :
    ∀ result conn', (some result, conn') ∈ runPasses host ctx conn now passes → Belongs conn' result := by
  induction passes generalizing conn now with
  | nil => simp [runPasses]
  | cons pass rest ih =>
    intro result conn' mem
    simp only [runPasses, List.mem_cons, Prod.mk.injEq] at mem
    rcases mem with ⟨hre, rfl⟩ | mem
    · exact runPass_belongs (Prod.ext hre.symm (Prod.ext rfl rfl))
    · exact ih _ _ result conn' mem

def leasedPass : Pass :=
  .connect
    { fetch :=
        { discovery := some { brokerURL := "front", relays := [{ id := "relay_a", clientID := "shared" }] }
          access := .answered
            { relays := [{ id := "relay_a", clientID := "own" }], serverTime := 0, leaseExpiresAt := 60, received := 5,
              lasting := by decide } }
      ladder := fun _ => { wss := fun _ => { ticket := .failed .canceled } }
      retry := fun _ => { wss := fun _ => { ticket := .failed .canceled } }
      publicLadder := fun _ => { wss := fun _ => { ticket := .failed .canceled } } }

theorem lease_belongs_to_credential_granted :
    ∃ result conn, (some result, conn) ∈ runPasses {} {} {} 0 [leasedPass] ∧ conn.lease.valid = true ∧
      conn.lease.expiresAt = some 65 ∧ result.relay.clientID = "own" ∧ Belongs conn result :=
  ⟨_, _, List.mem_cons_self, by decide, by decide, by decide,
    lease_belongs_to_credential {} {} {} 0 [leasedPass] _ _ List.mem_cons_self⟩

end OpenRung.Ladder
