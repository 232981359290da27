import OpenRung.Broker.Directory
import OpenRung.Theorems.Identity

/-! Who can change a row of the relay directory. A registration removes every row at its endpoint and writes the row
    of its id. In every run a row is stored under its own id, no two rows share an endpoint, and the id of a row with
    an identity is the one derived from its key. -/

namespace OpenRung.Broker
open Store

/-! ### The three ways to write rows -/

def Descriptor.registration (d : Descriptor) : Descriptor :=
  { d with geoLocation := {}, reachable := false, reachabilityCheckedAt := none, accessReachable := false,
           accessReachabilityCheckedAt := none }

/-- It keeps the registration or renews it, which a foundation row grants to a foundation credential only. -/
structure Updates (op : DirectoryOp) (id leaseToken : String) (d d' : Descriptor) : Prop where
  presents : op.presents = some (id, leaseToken)
  renewal : d'.registration = d.registration ∨ ∃ maxClass clientID ttl,
    op = .heartbeat id leaseToken maxClass clientID ttl ∧
      (d.nodeClass = nodeClassFoundation → maxClass = nodeClassFoundation)
  id : d'.id = d.id
  identityPublicKey : d'.identityPublicKey = d.identityPublicKey
  publicHost : d'.publicHost = d.publicHost
  publicPort : d'.publicPort = d.publicPort

structure Installs (checks : RegisterChecks) (req : RegisterRequest) (draws : RegisterDraws) (now : Time)
    (d : Descriptor) : Prop where
  owner : (checks.verifyIdentity req now = .ok none ∧ draws.relayID = some d.id) ∨
    ∃ key, checks.verifyIdentity req now = .ok (some key) ∧ d.id = checks.deriveRelayID key
  identityPublicKey : d.identityPublicKey = req.identityPublicKey
  nodeClass : d.nodeClass = normalizeNodeClass req.nodeClass
  publicHost : d.publicHost = req.publicHost
  publicPort : d.publicPort = req.publicPort

inductive RowStep (checks : RegisterChecks) (s : Store) (now : Time) (op : DirectoryOp) (rows : KeyedMap String Descriptor) :
    Prop
  | same (kept : rows = s.relays)
  | update (id leaseToken : String) (d d' : Descriptor) (updates : Updates op id leaseToken d d')
      (found : s.relays.lookup id = some d) (holds : d.tokenMatches leaseToken = true)
      (written : rows = s.relays.insert id d')
  | prune (pruned : op = .prune) (kept : rows = s.relays.filter fun _ d => decide (now < d.expiresAt))
  | install (req : RegisterRequest) (draws : RegisterDraws) (ttl : Duration) (d : Descriptor)
      (registers : op = .register req draws ttl) (installs : Installs checks req draws now d)
      (allowed : ∀ e ∈ s.relays.values, sameEndpoint e d = true →
        d.nodeClass = nodeClassFoundation ∨ e.nodeClass ≠ nodeClassFoundation ∨ ¬ now < e.expiresAt)
      (written : rows = (s.relays.filter fun _ e => !sameEndpoint e d).insert d.id d)

theorem updateRelay_rows {checks : RegisterChecks} {s : Store} {now : Time} {op : DirectoryOp} {id leaseToken : String}
    {update : Descriptor → Descriptor}
    (hu : ∀ d, s.relays.lookup id = some d → Updates op id leaseToken d (update d)) :
    RowStep checks s now op (s.updateRelay id leaseToken update).1.relays := by
  unfold updateRelay
  cases hf : s.relays.lookup id with
  | none => exact .same rfl
  | some d =>
    by_cases hh : d.tokenMatches leaseToken = true
    · simp only [if_pos hh]
      exact .update id leaseToken d (update d) (hu d hf) hf hh rfl
    · simp only [if_neg hh]
      exact .same rfl

theorem heartbeat_rows {checks : RegisterChecks} (s : Store) (id leaseToken maxClass clientID : String) (now : Time)
    (ttl : Duration) : RowStep checks s now (.heartbeat id leaseToken maxClass clientID ttl)
      (s.heartbeat id leaseToken maxClass clientID now ttl).1.relays := by
  unfold heartbeat
  cases hf : s.relays.lookup id with
  | none => exact .same rfl
  | some d =>
    by_cases hre : d.nodeClass = nodeClassFoundation ∧ maxClass ≠ nodeClassFoundation
    · simp only [if_pos hre]
      exact .same rfl
    · simp only [if_neg hre]
      refine updateRelay_rows fun d' hfo => ?_
      obtain rfl : d = d' := Option.some.inj (hf.symm.trans hfo)
      have hcr : d.nodeClass = nodeClassFoundation → maxClass = nodeClassFoundation := by
        intro hfu
        by_contra hot
        exact hre ⟨hfu, hot⟩
      exact ⟨rfl, .inr ⟨maxClass, clientID, ttl, rfl, hcr⟩, rfl, rfl, rfl, rfl⟩

theorem installDescriptor_rows {checks : RegisterChecks} {s : Store} {now : Time} {req : RegisterRequest}
    {draws : RegisterDraws} {ttl : Duration} {desc : Descriptor} (hi : Installs checks req draws now desc) :
    RowStep checks s now (.register req draws ttl) (s.installDescriptor desc now).1.relays := by
  unfold installDescriptor
  simp only
  split
  · exact .same rfl
  · next ha =>
    let replaced := s.relays.values.filter fun existing => sameEndpoint existing desc
    have geo : ∃ geo, preserveGeo replaced desc = { desc with geoLocation := geo } := by
      unfold preserveGeo
      split
      · exact ⟨desc.geoLocation, rfl⟩
      · next kept _ => exact ⟨kept.geoLocation, rfl⟩
    obtain ⟨geo, row⟩ := geo
    rw [row]
    refine .install req draws ttl { desc with geoLocation := geo } rfl
      ⟨hi.owner, hi.identityPublicKey, hi.nodeClass, hi.publicHost, hi.publicPort⟩ ?_ ?_
    · intro e mem ht
      by_contra hb
      rw [not_or, not_or, not_not, not_not] at hb
      refine ha (List.any_eq_true.mpr ⟨e, List.mem_filter.mpr ⟨mem, ht⟩, ?_⟩)
      simp [hb.1, hb.2.1, hb.2.2]
    · unfold replaceRow
      simp only
      split <;> rfl

theorem direct_register (checks : RegisterChecks) (s : Store) (now : Time) (req : RegisterRequest)
    (draws : RegisterDraws) (ttl : Duration) :
    (s.direct checks now (.register req draws ttl)).1 = (s.register checks req draws now ttl).1 := rfl

theorem direct_rows (checks : RegisterChecks) (s : Store) (now : Time) (op : DirectoryOp) :
    RowStep checks s now op (s.direct checks now op).1.relays := by
  cases op with
  | register req draws ttl =>
    rw [direct_register]
    rcases s.register_cases checks req draws now ttl with ⟨e, hfa⟩ | ⟨-, ⟨id, hid, hdr, eq⟩ | ⟨key, token, hid, -, eq⟩⟩
    · rw [hfa]
      exact .same rfl
    · rw [eq]
      exact installDescriptor_rows ⟨.inl ⟨hid, hdr⟩, rfl, rfl, rfl, rfl⟩
    · rw [eq]
      exact installDescriptor_rows ⟨.inr ⟨key, hid, rfl⟩, rfl, rfl, rfl, rfl⟩
  | heartbeat id leaseToken maxClass clientID ttl => exact heartbeat_rows s id leaseToken maxClass clientID now ttl
  | updateGeo => exact updateRelay_rows fun d _ => ⟨rfl, .inl rfl, rfl, rfl, rfl, rfl⟩
  | updateReachability => exact updateRelay_rows fun d _ => ⟨rfl, .inl rfl, rfl, rfl, rfl, rfl⟩
  | updateAccessReachability => exact updateRelay_rows fun d _ => ⟨rfl, .inl rfl, rfl, rfl, rfl, rfl⟩
  | prune => exact .prune rfl rfl

/-! ### The rows of a run -/

/-- Rows under their own ids, at distinct endpoints. -/
structure Placed (rows : KeyedMap String Descriptor) : Prop where
  keyed : rows.Keyed Descriptor.id
  endpoints : ∀ id id' d d', rows.lookup id = some d → rows.lookup id' = some d' → d.publicHost = d'.publicHost →
    d.publicPort = d'.publicPort → id = id'

/-- A row with an identity has the id of its key, and the random id of any other row is derived from no key. -/
structure Owned (crypto : IdentityCrypto) (keys : Set IdentityKey) (rows : KeyedMap String Descriptor) : Prop extends
    Placed rows where
  owner : ∀ id d, rows.lookup id = some d →
    (d.identityPublicKey = "" ∧ ∀ key ∈ keys, crypto.deriveRelayID key ≠ id) ∨
    (d.identityPublicKey ≠ "" ∧ ∃ key ∈ keys, crypto.decodeBase64 d.identityPublicKey = some key ∧
      crypto.deriveRelayID key = id)

section Rows
variable {s : Store} {rows : KeyedMap String Descriptor}

theorem Placed.empty : Placed ∅ where
  keyed := fun _ _ hf => by simp at hf
  endpoints := fun _ _ _ _ hf => by simp at hf

theorem Placed.filter (hp : Placed rows) (p : String → Descriptor → Bool) : Placed (rows.filter p) where
  keyed := hp.keyed.filter p
  endpoints := by
    intro id id' d d' hf hfo
    exact hp.endpoints id id' d d' (KeyedMap.lookup_filter_eq_some.mp hf).1
      (KeyedMap.lookup_filter_eq_some.mp hfo).1

theorem Placed.insert (hp : Placed rows) {d : Descriptor}
    (hap : ∀ id e, rows.lookup id = some e → id ≠ d.id → e.publicHost = d.publicHost → e.publicPort ≠ d.publicPort) :
    Placed (rows.insert d.id d) where
  keyed := by
    intro id e hf
    rw [KeyedMap.lookup_insert_eq] at hf
    split at hf
    · next hsa => rw [← Option.some.inj hf, hsa]
    · exact hp.keyed id e hf
  endpoints := by
    intro id id' e e' hf hfo hho hpo
    rw [KeyedMap.lookup_insert_eq] at hf hfo
    split at hf <;> split at hfo
    · next hl hri => rw [hl, hri]
    · next hl hri =>
      cases hf
      exact absurd hpo.symm (hap id' e' hfo hri hho.symm)
    · next hl hri =>
      cases hfo
      exact absurd hpo (hap id e hf hl hho)
    · exact hp.endpoints id id' e e' hf hfo hho hpo

theorem Placed.step {checks : RegisterChecks} {now : Time} {op : DirectoryOp} (hp : Placed s.relays)
    (hs : RowStep checks s now op rows) : Placed rows := by
  cases hs with
  | same hk => rwa [hk]
  | update id leaseToken d d' hu hf hh hw =>
    have own := hp.keyed id d hf
    have hud : rows = s.relays.insert d'.id d' := by rw [hw, hu.id, own]
    rw [hud]
    refine hp.insert ?_
    intro id' e hfo hot hho hpo
    rw [hu.id, own] at hot
    exact hot (hp.endpoints id' id e d hfo hf (hho.trans hu.publicHost) (hpo.trans hu.publicPort))
  | prune hpu hk =>
    rw [hk]
    exact hp.filter _
  | install req draws ttl d hr hi ha hw =>
    rw [hw]
    refine (hp.filter _).insert ?_
    intro id e hf _ hho hpo
    have he := (KeyedMap.lookup_filter_eq_some.mp hf).2
    simp [sameEndpoint, hho, hpo] at he

end Rows

section Runs
variable {crypto : IdentityCrypto} {keys : Set IdentityKey} {s : Store} {now : Time} {op : DirectoryOp}
  {rows : KeyedMap String Descriptor}

theorem Owned.step (ho : Owned crypto keys s.relays) (hfr : op.Fresh crypto keys s now)
    (hs : RowStep crypto.checks s now op rows) : Owned crypto keys rows := by
  refine ⟨ho.toPlaced.step hs, fun id e hf => ?_⟩
  cases hs with
  | same hk => exact ho.owner id e (hk ▸ hf)
  | update id' leaseToken d d' hu hfo hh hw =>
    rw [hw, KeyedMap.lookup_insert_eq] at hf
    split at hf
    · next same =>
      cases hf
      rw [hu.identityPublicKey, same]
      exact ho.owner id' d hfo
    · exact ho.owner id e hf
  | prune hpu hk =>
    rw [hk] at hf
    exact ho.owner id e (KeyedMap.lookup_filter_eq_some.mp hf).1
  | install req draws ttl d hr hi ha hw =>
    rw [hw, KeyedMap.lookup_insert_eq] at hf
    split at hf
    · next same =>
      cases hf
      subst hr same
      rcases hi.owner with ⟨hle, hdr⟩ | ⟨key, hpr, hde⟩
      · exact .inl ⟨hi.identityPublicKey.trans (IdentityCrypto.verifyIdentity_none hle),
          (hfr.2 e.id hdr).2⟩
      · have hpf := IdentityCrypto.verifyIdentity_some hpr
        rw [hi.identityPublicKey]
        exact .inr ⟨hpf.present, key, hfr.1 key hpr, hpf.decoded, hde.symm⟩
    · exact ho.owner id e (KeyedMap.lookup_filter_eq_some.mp hf).1

theorem DirectoryRun.owned (run : DirectoryRun crypto keys s now) : Owned crypto keys s.relays := by
  induction run with
  | start now => exact ⟨.empty, fun _ _ hf => by simp at hf⟩
  | call op _ _ hfr ih => exact ih.step hfr (direct_rows _ _ _ _)

/-! ### Who changes a row -/

/-- The call is a registration proved with the key of `d`: the holder signed its statement. -/
def ProvedByOwner (crypto : IdentityCrypto) (calls : List IdentityCrypto.SignCall) (d : Descriptor) (now : Time)
    (op : DirectoryOp) : Prop :=
  ∃ req draws ttl key, op = .register req draws ttl ∧ crypto.decodeBase64 d.identityPublicKey = some key ∧
    crypto.verifyIdentity req now = .ok (some key) ∧
    ∃ call ∈ calls, call.Signs crypto key (identityStatement req req.identityExpiresAt)

inductive ChangesIdentity (crypto : IdentityCrypto) (calls : List IdentityCrypto.SignCall) (d : Descriptor) (now : Time)
    (op : DirectoryOp) : Prop
  | owner (proved : ProvedByOwner crypto calls d now op)
  | token (presents : op.presents = some (d.id, d.leaseToken)) (minted : d.leaseToken ≠ "")
  | takeover (req : RegisterRequest) (draws : RegisterDraws) (ttl : Duration) (registers : op = .register req draws ttl)
      (host : req.publicHost = d.publicHost) (port : req.publicPort = d.publicPort)
  | expiry (prunes : op = .prune) (expired : d.expiresAt ≤ now)

/-- What may replace, delete or renew the unexpired foundation row `d`. -/
inductive RenewsFoundation (crypto : IdentityCrypto) (calls : List IdentityCrypto.SignCall) (d : Descriptor) (now : Time)
    (op : DirectoryOp) : Prop
  | foundation (req : RegisterRequest) (draws : RegisterDraws) (ttl : Duration)
      (registers : op = .register req draws ttl) (cls : normalizeNodeClass req.nodeClass = nodeClassFoundation)
  | owner (identity : d.identityPublicKey ≠ "") (proved : ProvedByOwner crypto calls d now op)
  | heartbeat (leaseToken clientID : String) (ttl : Duration)
      (renews : op = .heartbeat d.id leaseToken nodeClassFoundation clientID ttl)

variable {calls : List IdentityCrypto.SignCall} {id : String} {d : Descriptor}

theorem Owned.provedByOwner (ho : Owned crypto keys s.relays) (hd : Set.InjOn crypto.deriveRelayID keys)
    (hun : crypto.Unforgeable calls) {req : RegisterRequest} {draws : RegisterDraws} {ttl : Duration}
    {e : Descriptor} (hfr : DirectoryOp.Fresh crypto keys s now (.register req draws ttl))
    (hi : Installs crypto.checks req draws now e) (hf : s.relays.lookup id = some d) (hsa : e.id = id) :
    d.identityPublicKey ≠ "" ∧ ProvedByOwner crypto calls d now (.register req draws ttl) := by
  rcases hi.owner with ⟨-, hdr⟩ | ⟨key, hpr, hde⟩
  · rw [hsa] at hdr
    exact absurd ((hfr.2 id hdr).1.symm.trans hf) (by simp)
  · have hus := hfr.1 key hpr
    rcases ho.owner id d hf with ⟨-, hra⟩ | ⟨hid, own, hon, hdc, how⟩
    · exact absurd (hde.symm.trans hsa) (hra key hus)
    · obtain rfl : own = key := hd hon hus (how.trans (hsa.symm.trans hde))
      obtain ⟨signature, hv⟩ := (IdentityCrypto.verifyIdentity_some hpr).signature
      exact ⟨hid, req, draws, ttl, own, rfl, hdc, hpr, hun _ _ _ hv⟩

theorem Owned.changesIdentity (ho : Owned crypto keys s.relays) (hd : Set.InjOn crypto.deriveRelayID keys)
    (hun : crypto.Unforgeable calls) (hfr : op.Fresh crypto keys s now)
    (hs : RowStep crypto.checks s now op rows) (hf : s.relays.lookup id = some d)
    (hid : d.identityPublicKey ≠ "") (hc : rows.lookup id ≠ some d) :
    ChangesIdentity crypto calls d now op := by
  have own := ho.keyed id d hf
  cases hs with
  | same hk => exact absurd (hk ▸ hf) hc
  | update id' leaseToken e e' hu hfo hh hw =>
    by_cases same : id = id'
    · subst same
      obtain rfl : d = e := Option.some.inj (hf.symm.trans hfo)
      simp only [Descriptor.tokenMatches, Bool.or_eq_true, beq_iff_eq, Bool.and_eq_true, bne_iff_ne, ne_eq] at hh
      obtain ⟨hm, rfl⟩ := hh.resolve_left hid
      exact .token (by rw [own]; exact hu.presents) hm
    · rw [hw, KeyedMap.lookup_insert_eq, if_neg same] at hc
      exact absurd hf hc
  | prune hpu hk =>
    refine .expiry hpu (not_lt.mp fun hal => hc ?_)
    rw [hk]
    exact KeyedMap.lookup_filter_eq_some.mpr ⟨hf, decide_eq_true hal⟩
  | install req draws ttl e hr hi ha hw =>
    subst hr
    by_cases same : e.id = id
    · exact .owner (ho.provedByOwner hd hun hfr hi hf same).2
    · rw [hw, KeyedMap.lookup_insert_eq, if_neg (Ne.symm same)] at hc
      by_cases ht : sameEndpoint d e = true
      · simp only [sameEndpoint, Bool.and_eq_true, beq_iff_eq] at ht
        exact .takeover req draws ttl rfl (hi.publicHost.symm.trans ht.1.symm)
          (hi.publicPort.symm.trans ht.2.symm)
      · exact absurd (KeyedMap.lookup_filter_eq_some.mpr ⟨hf, by simp [ht]⟩) hc

theorem Owned.renewsFoundation (ho : Owned crypto keys s.relays) (hd : Set.InjOn crypto.deriveRelayID keys)
    (hun : crypto.Unforgeable calls) (hfr : op.Fresh crypto keys s now)
    (hs : RowStep crypto.checks s now op rows) (hf : s.relays.lookup id = some d)
    (hfu : d.nodeClass = nodeClassFoundation) (hue : now < d.expiresAt)
    (hc : ¬ ∃ d', rows.lookup id = some d' ∧ d'.registration = d.registration) :
    RenewsFoundation crypto calls d now op := by
  have own := ho.keyed id d hf
  have hk : rows.lookup id ≠ some d := fun ht => hc ⟨d, ht, rfl⟩
  cases hs with
  | same same => exact absurd (same ▸ hf) hk
  | update id' leaseToken e e' hu hfo hh hw =>
    by_cases same : id = id'
    · subst same
      obtain rfl : d = e := Option.some.inj (hf.symm.trans hfo)
      rcases hu.renewal with hur | ⟨maxClass, clientID, ttl, rfl, hcr⟩
      · exact absurd ⟨e', by rw [hw, KeyedMap.lookup_insert_eq, if_pos rfl], hur⟩ hc
      · rw [hcr hfu, ← own]
        exact .heartbeat leaseToken clientID ttl rfl
    · rw [hw, KeyedMap.lookup_insert_eq, if_neg same] at hk
      exact absurd hf hk
  | prune hpu hpn =>
    rw [hpn] at hk
    exact absurd (KeyedMap.lookup_filter_eq_some.mpr ⟨hf, decide_eq_true hue⟩) hk
  | install req draws ttl e hr hi ha hw =>
    subst hr
    by_cases ht : sameEndpoint d e = true
    · have cls := ha d (KeyedMap.mem_values_iff.mpr ⟨id, hf⟩) ht
      rcases cls with cls | hot | hex
      · exact .foundation req draws ttl rfl (hi.nodeClass.symm.trans cls)
      · exact absurd hfu hot
      · exact absurd hue hex
    · by_cases same : e.id = id
      · obtain ⟨hid, hpr⟩ := ho.provedByOwner hd hun hfr hi hf same
        exact .owner hid hpr
      · rw [hw, KeyedMap.lookup_insert_eq, if_neg (Ne.symm same)] at hk
        exact absurd (KeyedMap.lookup_filter_eq_some.mpr ⟨hf, by simp [ht]⟩) hk

/-- A row of an identity changes only by its owner, a holder of its lease token, a registration at its endpoint or its
    expiry, and an unexpired foundation row only by what is entitled to renew it. -/
theorem directory_owned (distinct : Set.InjOn crypto.deriveRelayID keys) (unforgeable : crypto.Unforgeable calls)
    (run : DirectoryRun crypto keys s now) :
    (∀ id d, s.relays.lookup id = some d → d.id = id) ∧
    (∀ id id' d d', s.relays.lookup id = some d → s.relays.lookup id' = some d' → d.publicHost = d'.publicHost →
      d.publicPort = d'.publicPort → id = id') ∧
    ∀ op later, now ≤ later → op.Fresh crypto keys s later → ∀ id d, s.relays.lookup id = some d →
      (d.identityPublicKey ≠ "" → (s.direct crypto.checks later op).1.relays.lookup id ≠ some d →
        ChangesIdentity crypto calls d later op) ∧
      (d.nodeClass = nodeClassFoundation → later < d.expiresAt →
        (¬ ∃ d', (s.direct crypto.checks later op).1.relays.lookup id = some d' ∧ d'.registration = d.registration) →
        RenewsFoundation crypto calls d later op) := by
  have ho := run.owned
  refine ⟨ho.keyed, ho.endpoints, fun op later _ hfr id d hf => ?_⟩
  have hs := direct_rows crypto.checks s later op
  exact ⟨ho.changesIdentity distinct unforgeable hfr hs hf,
    ho.renewsFoundation distinct unforgeable hfr hs hf⟩

end Runs

/-! ### The directory with one registered relay -/

section Fronted
open IdentityCrypto

def frontedRow : Descriptor :=
  newDescriptor frontedRequest (signedCrypto.checks.deriveRelayID (List.replicate 32 0)) "token" true 0 minute

theorem installDescriptor_empty (d : Descriptor) (now : Time) :
    (({} : Store).installDescriptor d now).1.relays = AList.insert d.id d ∅ := by
  show (({} : Store).replaceRow d).relays = _
  unfold replaceRow
  split <;> rfl

theorem fronted_run : ∃ s, DirectoryRun signedCrypto {List.replicate 32 0} s 0 ∧
    s.relays = AList.insert frontedRow.id frontedRow ∅ := by
  refine ⟨_, .call (.register frontedRequest ⟨none, some "token"⟩ minute) (.start 0) le_rfl ⟨fun key hpr => ?_, nofun⟩, ?_⟩
  · rw [fronted_identity] at hpr
    simpa using hpr.symm
  · rw [direct_register, register_proved (by rw [checks_verifyIdentity, fronted_identity])
      (by rw [checks_verifyWSSCapability, fronted_capability]) rfl, installDescriptor_empty, frontedRow]

theorem directory_owned_fronted : ∃ s, DirectoryRun signedCrypto {List.replicate 32 0} s 0 ∧
    s.relays.lookup frontedRow.id = some frontedRow ∧
    ∀ op later, 0 ≤ later → op.Fresh signedCrypto {List.replicate 32 0} s later →
      (s.direct signedCrypto.checks later op).1.relays.lookup frontedRow.id ≠ some frontedRow →
      ChangesIdentity signedCrypto frontedCalls frontedRow later op := by
  obtain ⟨s, run, hro⟩ := fronted_run
  have hf : s.relays.lookup frontedRow.id = some frontedRow := by
    rw [hro, KeyedMap.lookup_insert_eq, if_pos rfl]
  refine ⟨s, run, hf, fun op later hor hfr => ?_⟩
  exact ((directory_owned (Set.injOn_singleton _ _) signedCrypto_unforgeable run).2.2 op later hor hfr _ _ hf).1
    (by decide)

end Fronted

end OpenRung.Broker
