import OpenRung.Broker.Postgres
import OpenRung.Theorems.Commit
import OpenRung.Theorems.Directory

/-! The in-memory store and `PostgresStore` keep the same relay directory as long as the arguments of the calls fit
    the columns. What the in-memory store does in one pass over its rows, Postgres does with a `DELETE` of the moved
    row and an upsert on the endpoint, of which there is at most one row (`Placed`). -/

namespace OpenRung.Broker
open Store

/-! ### Rows at an endpoint -/

theorem eq_singleton_of_nodup {α : Type} {l : List α} {a : α} (hn : l.Nodup) (mem : a ∈ l) (hon : ∀ b ∈ l, b = a) :
    l = [a] := by
  cases l with
  | nil => cases mem
  | cons b l =>
    obtain rfl := hon b List.mem_cons_self
    cases l with
    | nil => rfl
    | cons c l =>
      have hsa := hon c (by simp)
      simp [hsa] at hn

section Endpoint
variable {rows t : KeyedMap String Descriptor} {desc old : Descriptor}

theorem sameEndpoint_iff {a b : Descriptor} :
    sameEndpoint a b = true ↔ a.publicHost = b.publicHost ∧ a.publicPort = b.publicPort := by
  simp [sameEndpoint]

theorem Placed.endpoint_unique (hp : Placed rows) {id id' : String} {d d' : Descriptor}
    (hf : rows.lookup id = some d) (hfo : rows.lookup id' = some d') (ht : sameEndpoint d desc = true)
    (hth : sameEndpoint d' desc = true) : id = id' ∧ d = d' := by
  rw [sameEndpoint_iff] at ht hth
  have hsa := hp.endpoints id id' d d' hf hfo (ht.1.trans hth.1.symm) (ht.2.trans hth.2.symm)
  subst hsa
  exact ⟨rfl, Option.some.inj (hf.symm.trans hfo)⟩

theorem Placed.filter_endpoint (hp : Placed rows) {id : String} (hf : rows.lookup id = some old)
    (ht : sameEndpoint old desc = true) : (rows.values.filter fun d => sameEndpoint d desc) = [old] := by
  refine eq_singleton_of_nodup (hp.keyed.nodup_map.of_map.filter _) ?_ ?_
  · exact List.mem_filter.mpr ⟨KeyedMap.mem_values_iff.mpr ⟨id, hf⟩, ht⟩
  · intro d mem
    obtain ⟨hin, hhe⟩ := List.mem_filter.mp mem
    obtain ⟨id', hfo⟩ := KeyedMap.mem_values_iff.mp hin
    exact (hp.endpoint_unique hfo hf hhe ht).2

theorem find?_endpoint (hp : Placed rows) (hpt : ∀ k d, t.lookup k = some d → rows.lookup k = some d) {id : String}
    (hf : t.lookup id = some old) (ht : sameEndpoint old desc = true) :
    (t.values.find? fun d => sameEndpoint d desc) = some old := by
  cases hs : t.values.find? fun d => sameEndpoint d desc with
  | none =>
    rw [List.find?_eq_none] at hs
    exact absurd ht (hs old (KeyedMap.mem_values_iff.mpr ⟨id, hf⟩))
  | some d =>
    obtain ⟨id', hfo⟩ := KeyedMap.mem_values_iff.mp (List.mem_of_find?_eq_some hs)
    have hhe := List.find?_some hs
    rw [(hp.endpoint_unique (hpt _ _ hfo) (hpt _ _ hf) hhe ht).2]

end Endpoint

/-! ### The upsert -/

/-- The table that the upsert of `desc` finds: a row under its id stands at its endpoint. -/
structure Evicted (rows t : KeyedMap String Descriptor) (desc : Descriptor) : Prop where
  others : ∀ k, k ≠ desc.id → t.lookup k = rows.lookup k
  own : ∀ d, t.lookup desc.id = some d ↔ rows.lookup desc.id = some d ∧ sameEndpoint d desc = true

theorem Evicted.part {rows t : KeyedMap String Descriptor} {desc : Descriptor} (he : Evicted rows t desc) :
    ∀ k d, t.lookup k = some d → rows.lookup k = some d := by
  intro k d hf
  by_cases own : k = desc.id
  · subst own
    exact ((he.own d).mp hf).1
  · rwa [← he.others k own]

theorem Evicted.kept {rows t : KeyedMap String Descriptor} {desc : Descriptor} (he : Evicted rows t desc)
    {k : String} {d : Descriptor} (hf : rows.lookup k = some d) (ht : sameEndpoint d desc = true) :
    t.lookup k = some d := by
  by_cases own : k = desc.id
  · subst own
    exact (he.own d).mpr ⟨hf, ht⟩
  · rwa [he.others k own]

theorem lookup_erase_eq {α : Type} (m : KeyedMap String α) (k k' : String) :
    (m.erase k').lookup k = if k = k' then none else m.lookup k := by
  by_cases hsa : k = k'
  · subst hsa
    rw [if_pos rfl, AList.lookup_erase]
  · rw [if_neg hsa, AList.lookup_erase_ne hsa]

theorem replaceRow_relays (s : Store) (row : Descriptor) : (s.replaceRow row).relays =
    (s.relays.filter fun _ e => !sameEndpoint e row).insert row.id row := by
  unfold replaceRow
  simp only
  split <;> rfl

theorem sameEndpoint_registrationRow (d desc : Descriptor) (geo : GeoLocation) :
    sameEndpoint d (Postgres.registrationRow desc geo) = sameEndpoint d desc := rfl

section Upsert
variable {s : Store} {t : KeyedMap String Descriptor} {desc old : Descriptor} {now : Time} {id : String}

theorem guard_iff (hr : desc.registeredAt = now) :
    ([old].any fun existing => desc.nodeClass != nodeClassFoundation && existing.nodeClass == nodeClassFoundation &&
      decide (now < existing.expiresAt)) = true ↔
    ¬ (old.nodeClass ≠ nodeClassFoundation ∨ desc.nodeClass = nodeClassFoundation ∨
      old.expiresAt ≤ desc.registeredAt) := by
  rw [hr, not_or, not_or, not_not, not_le]
  simp only [List.any_cons, List.any_nil, Bool.or_false, Bool.and_eq_true, bne_iff_ne, beq_iff_eq, decide_eq_true_eq]
  tauto

theorem preserveGeo_old (hpl : desc = Postgres.registrationRow desc {}) :
    preserveGeo [old] desc =
      Postgres.registrationRow desc (if old.exitHost = desc.exitHost then old.geoLocation else {}) := by
  rw [hpl]
  by_cases hei : old.exitHost = desc.exitHost <;> simp [preserveGeo, newestRow, hei, Postgres.registrationRow]

theorem upsert_inserts (now : Time) (he : Evicted s.relays t desc) (hfi : desc.storable = true)
    (hpl : desc = Postgres.registrationRow desc {})
    (hfr : ∀ k d, s.relays.lookup k = some d → sameEndpoint d desc ≠ true) :
    Postgres.upsertDescriptor t desc = .ok (some desc, t.insert desc.id desc) ∧
      s.installDescriptor desc now = (s.replaceRow desc, .ok desc) ∧
      ∀ k, (t.insert desc.id desc).lookup k = (s.replaceRow desc).relays.lookup k := by
  have hs : (t.values.find? fun row => sameEndpoint row desc) = none := by
    rw [List.find?_eq_none]
    intro d mem
    obtain ⟨k, hf⟩ := KeyedMap.mem_values_iff.mp mem
    exact hfr k d (he.part k d hf)
  have hro : (s.relays.values.filter fun d => sameEndpoint d desc) = [] := by
    rw [List.filter_eq_nil_iff]
    intro d mem
    obtain ⟨k, hf⟩ := KeyedMap.mem_values_iff.mp mem
    exact hfr k d hf
  have hab : t.lookup desc.id = none := by
    cases hf : t.lookup desc.id with
    | none => rfl
    | some d => exact absurd ((he.own d).mp hf).2 (hfr _ d ((he.own d).mp hf).1)
  refine ⟨?_, ?_, fun k => ?_⟩
  · simp only [Postgres.upsertDescriptor, hfi, hs, hab, Bool.not_true, Bool.false_eq_true, if_false,
      Option.isSome_none, ← hpl]
  · simp only [installDescriptor, hro, List.any_nil, Bool.false_eq_true, if_false]
    rfl
  · rw [replaceRow_relays, KeyedMap.lookup_insert_eq, KeyedMap.lookup_insert_eq]
    split
    · rfl
    · next ho =>
      rw [KeyedMap.lookup_filter, he.others k ho]
      cases hf : s.relays.lookup k with
      | none => rfl
      | some d => simp [Option.filter, hfr k d hf]

theorem upsert_replaces (hp : Placed s.relays) (he : Evicted s.relays t desc) (hfi : desc.storable = true)
    (hpl : desc = Postgres.registrationRow desc {}) (hr : desc.registeredAt = now)
    (hf : s.relays.lookup id = some old) (ht : sameEndpoint old desc = true)
    (ha : old.nodeClass ≠ nodeClassFoundation ∨ desc.nodeClass = nodeClassFoundation ∨
      old.expiresAt ≤ desc.registeredAt) :
    ∃ row t', Postgres.upsertDescriptor t desc = .ok (some row, t') ∧
      s.installDescriptor desc now = (s.replaceRow row, .ok row) ∧ row.id = desc.id ∧
      row.leaseToken = desc.leaseToken ∧ ∀ k, t'.lookup k = (s.replaceRow row).relays.lookup k := by
  have own := hp.keyed id old hf
  have hs := find?_endpoint hp he.part (he.kept hf ht) ht
  -- a row under the id stands at the endpoint, so it is the old row
  have hui : ¬ (desc.id ≠ old.id ∧ (t.lookup desc.id).isSome = true) := by
    rintro ⟨ho, hpr⟩
    obtain ⟨d, hfd⟩ := Option.isSome_iff_exists.mp hpr
    obtain ⟨hfS, hte⟩ := (he.own d).mp hfd
    exact ho ((hp.endpoint_unique hfS hf hte ht).1.trans own.symm)
  have hfr := mt (guard_iff hr).mp (not_not.mpr ha)
  refine ⟨preserveGeo [old] desc, (t.erase old.id).insert desc.id (preserveGeo [old] desc), ?_, ?_,
    preserveGeo_id _ _, ?_, fun k => ?_⟩
  · simp only [Postgres.upsertDescriptor, hfi, hs, if_pos ha, if_neg hui, Bool.not_true,
      Bool.false_eq_true, if_false, preserveGeo_old hpl]
  · simp only [installDescriptor, hp.filter_endpoint hf ht, if_neg hfr]
  · rw [preserveGeo_old hpl]
    rfl
  · rw [replaceRow_relays, preserveGeo_id, KeyedMap.lookup_insert_eq, KeyedMap.lookup_insert_eq]
    split
    · rfl
    · next ho =>
      rw [lookup_erase_eq, KeyedMap.lookup_filter, he.others k ho, preserveGeo_old hpl]
      cases hfu : s.relays.lookup k with
      | none => simp
      | some d =>
        by_cases hsa : k = old.id
        · rw [hsa, own, hf] at hfu
          simp [hsa, Option.filter, sameEndpoint_registrationRow, ← Option.some.inj hfu, ht]
        · have hap : sameEndpoint d desc ≠ true := fun hhe =>
            hsa ((hp.endpoint_unique hfu hf hhe ht).1.trans own.symm)
          simp [hsa, Option.filter, sameEndpoint_registrationRow, hap]

theorem upsert_installs (hp : Placed s.relays) (he : Evicted s.relays t desc) (hfi : desc.storable = true)
    (hpl : desc = Postgres.registrationRow desc {}) (hr : desc.registeredAt = now) :
    (Postgres.upsertDescriptor t desc = .ok (none, t) ∧
      s.installDescriptor desc now = (s, .error .nodeClassForbidden)) ∨
    ∃ row t', Postgres.upsertDescriptor t desc = .ok (some row, t') ∧
      s.installDescriptor desc now = (s.replaceRow row, .ok row) ∧ row.id = desc.id ∧
      row.leaseToken = desc.leaseToken ∧ ∀ k, t'.lookup k = (s.replaceRow row).relays.lookup k := by
  by_cases hta : ∃ id old, s.relays.lookup id = some old ∧ sameEndpoint old desc = true
  · obtain ⟨id, old, hf, ht⟩ := hta
    by_cases ha : old.nodeClass ≠ nodeClassFoundation ∨ desc.nodeClass = nodeClassFoundation ∨
        old.expiresAt ≤ desc.registeredAt
    · exact .inr (upsert_replaces hp he hfi hpl hr hf ht ha)
    · have hs := find?_endpoint hp he.part (he.kept hf ht) ht
      have hre := (guard_iff hr).mpr ha
      refine .inl ⟨?_, ?_⟩
      · simp only [Postgres.upsertDescriptor, hfi, hs, if_neg ha, Bool.not_true, Bool.false_eq_true, if_false]
      · simp only [installDescriptor, hp.filter_endpoint hf ht, if_pos hre]
  · have hfr : ∀ k d, s.relays.lookup k = some d → sameEndpoint d desc ≠ true := fun k d hf ht =>
      hta ⟨k, d, hf, ht⟩
    obtain ⟨hu, hi, hl⟩ := upsert_inserts now he hfi hpl hfr
    exact .inr ⟨desc, _, hu, hi, rfl, rfl, hl⟩

end Upsert

/-! ### The same directory -/

def LeaseStateRow.columns (row : LeaseStateRow) : LeaseStateColumns := { revision := row.revision, appliedRevision := row.applied }

/-- The stores hold the same rows and the same counters of each relay. -/
structure Mirrors (s : Store) (pg : Postgres) : Prop where
  placed : Placed s.relays
  rows : ∀ id, pg.descriptors.lookup id = s.relays.lookup id
  states : ∀ r, pg.leaseState r = (s.leaseState r).columns

section Calls
variable {crypto : IdentityCrypto} {s : Store} {pg : Postgres}

theorem Mirrors.keyed (hm : Mirrors s pg) : pg.descriptors.Keyed Descriptor.id := fun id d hf =>
  hm.placed.keyed id d (by rw [← hm.rows, hf])

theorem Mirrors.selectWhere_id (hm : Mirrors s pg) (id : String) (guard : Descriptor → Bool) :
    Table.selectWhere (fun d => decide (d.id = id) && guard d) pg.descriptors =
      ((s.relays.lookup id).filter guard).toList := by
  have hon : ∀ d, d ∈ Table.selectWhere (fun d => decide (d.id = id) && guard d) pg.descriptors ↔
      s.relays.lookup id = some d ∧ guard d = true := by
    intro d
    rw [Table.mem_selectWhere, Bool.and_eq_true, decide_eq_true_eq]
    constructor
    · rintro ⟨⟨k, hf⟩, rfl, hpa⟩
      rw [hm.keyed k d hf, ← hm.rows]
      exact ⟨hf, hpa⟩
    · rintro ⟨hf, hpa⟩
      exact ⟨⟨id, by rw [hm.rows, hf]⟩, hm.placed.keyed id d hf, hpa⟩
  cases hf : (s.relays.lookup id).filter guard with
  | none =>
    rw [Option.toList_none, List.eq_nil_iff_forall_not_mem]
    intro d mem
    rw [hon, ← Option.filter_eq_some_iff, hf] at mem
    cases mem
  | some d =>
    have hhe := Option.filter_eq_some_iff.mp hf
    refine eq_singleton_of_nodup (hm.keyed.nodup_map.of_map.filter _) ((hon d).mpr hhe) fun e mem => ?_
    exact Option.some.inj (((hon e).mp mem).1.symm.trans hhe.1)

theorem Mirrors.updateWhere_id (hm : Mirrors s pg) {id : String} {d : Descriptor} {guard : Descriptor → Bool}
    (set : Descriptor → Descriptor) (hf : s.relays.lookup id = some d) (hpa : guard d = true) (k : String) :
    (Table.updateWhere (fun d => decide (d.id = id) && guard d) set pg.descriptors).lookup k =
      (s.relays.insert id (set d)).lookup k := by
  rw [Table.lookup_updateWhere, hm.rows, KeyedMap.lookup_insert_eq]
  by_cases hsa : k = id
  · subst hsa
    rw [if_pos rfl, hf]
    simp [hm.placed.keyed k d hf, hpa]
  · rw [if_neg hsa]
    cases ho : s.relays.lookup k with
    | none => rfl
    | some e => simp [hm.placed.keyed k e ho, hsa]

def Agree (s : Store) (pg : Postgres) (mem : Store × Except StoreError Unit) (sql : Postgres × Except PgError Unit) :
    Prop :=
  sql.2 = mem.2.mapError .store ∧ (∀ id, sql.1.descriptors.lookup id = mem.1.relays.lookup id) ∧
    (∀ r, sql.1.leaseState r = (mem.1.leaseState r).columns) ∧
    ((∃ e, mem.2 = .error e) → mem.1 = s ∧ sql.1 = pg)

theorem Mirrors.agree_refused (hm : Mirrors s pg) (e : StoreError) :
    Agree s pg (s, .error e) (pg, .error (.store e)) :=
  ⟨rfl, hm.rows, hm.states, fun _ => ⟨rfl, rfl⟩⟩

theorem Mirrors.updateRelay (hm : Mirrors s pg) {texts : List String} {id leaseToken : String}
    (set : Descriptor → Descriptor) (hfi : (id :: leaseToken :: texts).all storableText = true) :
    Agree s pg ((s.updateRelay id leaseToken set).1, outcome (s.updateRelay id leaseToken set).2)
      (pg.updateRelay texts id leaseToken set) := by
  unfold Store.updateRelay Postgres.updateRelay
  simp only [hfi, Bool.not_true, Bool.false_eq_true, if_false, hm.selectWhere_id]
  cases hf : s.relays.lookup id with
  | none => exact hm.agree_refused .relayNotFound
  | some d =>
    by_cases hh : d.tokenMatches leaseToken = true
    · simp only [Option.filter, hh, if_true, Option.toList_some]
      exact ⟨rfl, hm.updateWhere_id set hf hh, hm.states, fun ⟨e, hfa⟩ => by cases hfa⟩
    · simp only [Option.filter, hh, if_false, Option.toList_none, Bool.false_eq_true]
      exact hm.agree_refused .relayNotFound

theorem Mirrors.heartbeatMissError (hm : Mirrors s pg) (id maxClass : String) :
    pg.heartbeatMissError id maxClass = match s.relays.lookup id with
      | none => .relayNotFound
      | some d => if d.nodeClass = nodeClassFoundation ∧ maxClass ≠ nodeClassFoundation then .nodeClassForbidden
        else .relayNotFound := by
  have any := hm.selectWhere_id id fun _ => true
  simp only [Bool.and_true] at any
  unfold Postgres.heartbeatMissError
  simp only [any, hm.selectWhere_id]
  cases hf : s.relays.lookup id with
  | none => simp
  | some d =>
    by_cases hfn : d.nodeClass = nodeClassFoundation <;> simp [Option.filter, hfn]

theorem renewed_eq (clientID : String) (now : Time) (ttl : Duration) (d : Descriptor) :
    Postgres.renewed clientID now ttl d =
      { d with
        lastHeartbeatAt := now
        expiresAt := now + ttl
        clientID := if clientID ≠ "" ∧ d.identityPublicKey ≠ "" then clientID else d.clientID } := by
  unfold Postgres.renewed
  by_cases hk : clientID = "" ∨ d.identityPublicKey = ""
  · rw [if_pos hk, if_neg (by tauto)]
  · rw [if_neg hk, if_pos (by tauto)]

theorem Mirrors.heartbeat (hm : Mirrors s pg) {id leaseToken clientID : String} (maxClass : String) (now : Time)
    (ttl : Duration) (hfi : [id, leaseToken, clientID].all storableText = true) :
    Agree s pg (s.direct crypto.checks now (.heartbeat id leaseToken maxClass clientID ttl))
      (pg.direct crypto.checks now (.heartbeat id leaseToken maxClass clientID ttl)) := by
  simp only [Store.direct, Postgres.direct, Store.heartbeat, Postgres.heartbeat, hfi, Bool.not_true, Bool.false_eq_true,
    if_false, hm.selectWhere_id, hm.heartbeatMissError]
  cases hf : s.relays.lookup id with
  | none => exact hm.agree_refused .relayNotFound
  | some d =>
    have cls : (decide (d.nodeClass ≠ nodeClassFoundation) || decide (maxClass = nodeClassFoundation)) =
        decide (¬ (d.nodeClass = nodeClassFoundation ∧ maxClass ≠ nodeClassFoundation)) := by
      rw [Bool.eq_iff_iff]
      simp only [Bool.or_eq_true, decide_eq_true_eq]
      tauto
    have hg : Postgres.mayRenew leaseToken maxClass d = (d.tokenMatches leaseToken &&
        decide (¬ (d.nodeClass = nodeClassFoundation ∧ maxClass ≠ nodeClassFoundation))) := by
      rw [Postgres.mayRenew, cls]
    by_cases hre : d.nodeClass = nodeClassFoundation ∧ maxClass ≠ nodeClassFoundation
    · have hc : ¬ Postgres.mayRenew leaseToken maxClass d = true := by simp [hg, hre]
      simp only [if_pos hre, Option.filter, if_neg hc, Option.toList_none]
      exact hm.agree_refused .nodeClassForbidden
    · simp only [if_neg hre, Store.updateRelay, hf]
      by_cases hh : d.tokenMatches leaseToken = true
      · have hpa : Postgres.mayRenew leaseToken maxClass d = true := by simp [hg, hh, hre]
        simp only [Option.filter, if_pos hpa, if_pos hh, Option.toList_some]
        refine ⟨rfl, fun k => ?_, hm.states, by rintro ⟨e, hfa⟩; cases hfa⟩
        rw [hm.updateWhere_id _ hf hpa, renewed_eq]
      · have hc : ¬ Postgres.mayRenew leaseToken maxClass d = true := by simp [hg, hh]
        simp only [Option.filter, if_neg hc, if_neg hh, Option.toList_none]
        exact hm.agree_refused .relayNotFound

/-- With a lease token it starts a new relay session, which has applied nothing yet. -/
def Postgres.withRow (pg : Postgres) (row : Descriptor) (descriptors : KeyedMap String Descriptor) : Postgres :=
  if row.leaseToken = "" then { pg with descriptors }
  else { pg with
    descriptors
    leaseStates := Table.upsert row.id {} ({ · with appliedRevision := 0 }) pg.leaseStates }

/-- Both stores refuse a registration with the same error, or both write the same row. -/
def SameRegistration (s : Store) (pg : Postgres) (mem : Store × Except StoreError Descriptor)
    (sql : Postgres × Except PgError Descriptor) : Prop :=
  (∃ e, mem = (s, .error e) ∧ sql = (pg, .error (.store e))) ∨
  ∃ row descriptors, mem = (s.replaceRow row, .ok row) ∧ sql = (pg.withRow row descriptors, .ok row) ∧
    ∀ k, descriptors.lookup k = (s.replaceRow row).relays.lookup k

theorem SameRegistration.refused (s : Store) (pg : Postgres) (e : StoreError) :
    SameRegistration s pg (s, .error e) (pg, .error (.store e)) := .inl ⟨e, rfl, rfl⟩

theorem Mirrors.install (hm : Mirrors s pg) {t : KeyedMap String Descriptor} {desc : Descriptor} {now : Time}
    {commit : Descriptor → KeyedMap String Descriptor → Postgres} (he : Evicted s.relays t desc)
    (hfi : desc.storable = true) (hpl : desc = Postgres.registrationRow desc {}) (hr : desc.registeredAt = now)
    (hco : ∀ row t', row.leaseToken = desc.leaseToken → commit row t' = pg.withRow row t') :
    SameRegistration s pg (s.installDescriptor desc now)
      (pg.finishRegister commit (Postgres.upsertDescriptor t desc)) := by
  rcases upsert_installs hm.placed he hfi hpl hr with
    ⟨hu, hi⟩ | ⟨row, t', hu, hi, -, htk, hl⟩
  · rw [hu, hi]
    exact .refused s pg .nodeClassForbidden
  · rw [hu, hi]
    exact .inr ⟨row, t', rfl, by rw [← hco row t' htk]; rfl, hl⟩

variable {req : RegisterRequest}

theorem storable_newDescriptor {id token : String}
    (hfi : (newDescriptor req "" "" true 0 0).storable = true) (hid : storableText id = true)
    (hto : storableText token = true) (identity : Bool) (now : Time) (ttl : Duration) :
    (newDescriptor req id token identity now ttl).storable = true := by
  have hac : storableText req.accessHost = true →
      storableText (newDescriptor req id token identity now ttl).accessHost = true := by
    intro hpl
    cases identity
    · exact (by decide : storableText "" = true)
    · exact hpl
  simp only [Descriptor.storable, Descriptor.texts, Bool.and_eq_true, List.all_append, List.all_cons, List.all_nil] at hfi ⊢
  obtain ⟨⟨⟨⟨⟨⟨⟨htx, hpo⟩, hse⟩, hmb⟩, low⟩, hhi⟩, hso⟩, hsm⟩ := hfi
  refine ⟨⟨⟨⟨⟨⟨⟨?_, hpo⟩, hse⟩, hmb⟩, low⟩, hhi⟩, hso⟩, hsm⟩
  obtain ⟨⟨-, a, b, c, d, e, f, g, h, i, j, k, l, m, n, o, -, p, q, hrt⟩, hft⟩ := htx
  exact ⟨⟨hid, a, b, c, d, e, f, g, h, i, j, k, l, m, n, o, hto, p, hac q, hrt⟩, hft⟩

theorem storable_deriveRelayID (key : IdentityKey) : storableText (crypto.deriveRelayID key) = true := by
  have hdi : ∀ n : Fin 16, Char.ofNat 0 ≠ Nat.digitChar n := by decide
  have hsl : ∀ b : UInt8, b.toNat / 16 < 16 := fun b => by have := b.toNat_lt; omega
  simp only [storableText, IdentityCrypto.deriveRelayID, hex, String.toList_append, String.toList_ofList, Bool.not_eq_true',
    List.contains_eq_mem, decide_eq_false_iff_not, List.mem_append, List.mem_flatMap, List.mem_cons, List.not_mem_nil,
    or_false, not_or, not_exists, not_and]
  refine ⟨by decide, fun b _ => ?_⟩
  exact ⟨hdi ⟨b.toNat / 16, hsl b⟩, hdi ⟨b.toNat % 16, Nat.mod_lt _ (by decide)⟩⟩

theorem Mirrors.registerLegacy (hm : Mirrors s pg) {id : String} {now : Time} {ttl : Duration}
    (hfi : (newDescriptor req "" "" true 0 0).storable = true) (hun : s.relays.lookup id = none)
    (hid : storableText id = true) :
    SameRegistration s pg (s.installDescriptor (newDescriptor req id "" false now ttl) now)
      (pg.finishRegister (fun _ descriptors => { pg with descriptors })
        (Postgres.upsertDescriptor pg.descriptors (newDescriptor req id "" false now ttl))) := by
  refine hm.install ⟨fun k _ => hm.rows k, fun d => ?_⟩ (storable_newDescriptor hfi hid (by decide) _ _ _)
    rfl rfl fun row t' htk => (if_pos htk).symm
  show pg.descriptors.lookup id = some d ↔ s.relays.lookup id = some d ∧ _
  rw [hm.rows, hun]
  simp

theorem Mirrors.registerStable (hm : Mirrors s pg) {id token : String} {now : Time}
    {ttl : Duration} (hfi : (newDescriptor req "" "" true 0 0).storable = true) (hid : storableText id = true)
    (hmi : token ≠ "") (hto : storableText token = true) {moved : Descriptor → Bool}
    (hmo : ∀ d, moved d = (decide (d.id = id) && (decide (d.publicHost ≠ req.publicHost) ||
      decide (d.publicPort ≠ req.publicPort)))) :
    SameRegistration s pg (s.installDescriptor (newDescriptor req id token true now ttl) now)
      (pg.finishRegister (fun row descriptors => { pg with
          descriptors
          leaseStates := Table.upsert row.id {} ({ · with appliedRevision := 0 }) pg.leaseStates })
        (Postgres.upsertDescriptor (Table.deleteWhere moved pg.descriptors) (newDescriptor req id token true now ttl))) := by
  refine hm.install ⟨?_, ?_⟩ (storable_newDescriptor hfi hid hto _ _ _) rfl rfl fun row t' hke =>
    (if_neg fun none => hmi (hke.symm.trans none)).symm
  · intro k ho
    rw [Table.lookup_deleteWhere, hm.rows]
    cases hf : s.relays.lookup k with
    | none => rfl
    | some d =>
      have hap : d.id ≠ id := fun hsa => ho ((hm.placed.keyed k d hf).symm.trans hsa)
      simp [Option.filter, hmo, hap]
  · intro d
    show (Table.deleteWhere moved pg.descriptors).lookup id = some d ↔ s.relays.lookup id = some d ∧ _
    rw [Table.lookup_deleteWhere, hm.rows, Option.filter_eq_some_iff, sameEndpoint_iff]
    refine and_congr_right fun hf => ?_
    rw [hmo, hm.placed.keyed id d hf]
    simp [newDescriptor]

theorem Mirrors.sameRegistration (hm : Mirrors s pg) {draws : RegisterDraws} (now : Time)
    (ttl : Duration) (hfi : (newDescriptor req "" "" true 0 0).storable = true)
    (hmi : (DirectoryOp.register req draws ttl).Minted s) :
    SameRegistration s pg (s.register crypto.checks req draws now ttl) (pg.register crypto.checks req draws now ttl) := by
  unfold Store.register Postgres.register
  cases hie : crypto.checks.verifyIdentity req now with
  | error e => exact .refused s pg e
  | ok identityKey =>
    cases hca : crypto.checks.verifyWSSCapability req now with
    | error e => exact .refused s pg e
    | ok _ =>
      cases identityKey with
      | none =>
        cases hd : draws.relayID with
        | none => exact .refused s pg .mint
        | some id =>
          obtain ⟨hun, hid⟩ := hmi.1 id hd
          exact hm.registerLegacy hfi hun hid
      | some key =>
        cases hd : draws.leaseToken with
        | none => exact .refused s pg .mint
        | some token =>
          obtain ⟨hfl, hto⟩ := hmi.2 token hd
          exact hm.registerStable hfi (storable_deriveRelayID key) hfl hto fun _ => rfl

theorem Mirrors.withRow_states (hm : Mirrors s pg) (row : Descriptor) (descriptors : KeyedMap String Descriptor)
    (r : String) : (pg.withRow row descriptors).leaseState r = ((s.replaceRow row).leaseState r).columns := by
  unfold Postgres.withRow replaceRow
  by_cases hle : row.leaseToken = ""
  · simp only [if_pos hle]
    exact hm.states r
  · simp only [if_neg hle, leaseState_setLeaseState]
    have hrs := hm.states row.id
    unfold Postgres.leaseState at hrs ⊢
    simp only [Table.lookup_upsert]
    split
    · cases hf : pg.leaseStates.lookup row.id with
      | none =>
        rw [hf] at hrs
        exact congrArg (fun columns : LeaseStateColumns => { columns with appliedRevision := 0 }) hrs
      | some old =>
        rw [hf] at hrs
        exact congrArg (fun columns : LeaseStateColumns => { columns with appliedRevision := 0 }) hrs
    · exact hm.states r

theorem Mirrors.register (hm : Mirrors s pg) {draws : RegisterDraws} (now : Time)
    (ttl : Duration) (hfi : (newDescriptor req "" "" true 0 0).storable = true)
    (hmi : (DirectoryOp.register req draws ttl).Minted s) :
    Agree s pg (s.direct crypto.checks now (.register req draws ttl))
      (pg.direct crypto.checks now (.register req draws ttl)) := by
  have hr : SameRegistration s pg (s.register crypto.checks req draws now ttl)
      (pg.register crypto.checks req draws now ttl) := hm.sameRegistration now ttl hfi hmi
  simp only [Store.direct, Postgres.direct]
  rcases hr with ⟨e, mem, sql⟩ | ⟨row, descriptors, mem, sql, hro⟩
  · rw [mem, sql]
    exact hm.agree_refused e
  · rw [mem, sql]
    refine ⟨rfl, fun k => ?_, hm.withRow_states row descriptors, by rintro ⟨e, hfa⟩; cases hfa⟩
    rw [← hro k]
    unfold Postgres.withRow
    split <;> rfl

theorem Mirrors.prune (hm : Mirrors s pg) (now : Time) :
    Agree s pg (s.direct crypto.checks now .prune) (pg.direct crypto.checks now .prune) := by
  refine ⟨rfl, fun k => ?_, hm.states, fun ⟨e, hfa⟩ => by cases hfa⟩
  show (Table.deleteWhere _ pg.descriptors).lookup k = (s.relays.filter _).lookup k
  rw [Table.lookup_deleteWhere, KeyedMap.lookup_filter, hm.rows]
  congr 1
  funext d
  rw [← decide_not]
  exact decide_eq_decide.mpr not_le

theorem Mirrors.agree (hm : Mirrors s pg) (now : Time) {op : DirectoryOp} (hfi : op.storable = true)
    (hmi : op.Minted s) : Agree s pg (s.direct crypto.checks now op) (pg.direct crypto.checks now op) := by
  cases op with
  | register req draws ttl => exact hm.register now ttl hfi hmi
  | heartbeat id leaseToken maxClass clientID ttl => exact hm.heartbeat maxClass now ttl hfi
  | updateGeo id leaseToken geo => exact hm.updateRelay _ hfi
  | updateReachability id leaseToken reachable checkedAt => exact hm.updateRelay _ hfi
  | updateAccessReachability id leaseToken reachable checkedAt => exact hm.updateRelay _ hfi
  | prune => exact hm.prune now

theorem BothDirectories.mirrors (hb : BothDirectories crypto s pg) : Mirrors s pg := by
  induction hb with
  | start => exact ⟨.empty, fun _ => rfl, fun _ => rfl⟩
  | call now op _ hfi hmi ih =>
    obtain ⟨-, hro, hst, -⟩ := ih.agree now hfi hmi
    exact ⟨ih.placed.step (direct_rows _ _ _ _), hro, hst⟩

/-- Both stores answer every call whose arguments fit the columns with the same success or error, a failed call
    changes neither, and they list the same active descriptors and applied revisions. -/
theorem directories_agree (both : BothDirectories crypto s pg) :
    (∀ now op, op.storable = true → op.Minted s →
      (pg.direct crypto.checks now op).2 = (s.direct crypto.checks now op).2.mapError .store ∧
      ((∃ e, (s.direct crypto.checks now op).2 = .error e) →
        (s.direct crypto.checks now op).1 = s ∧ (pg.direct crypto.checks now op).1 = pg)) ∧
    (∀ now d, d ∈ pg.active now ↔ d ∈ s.active now) ∧
    ∀ r, pg.applied r = s.applied r := by
  have hm := both.mirrors
  refine ⟨fun now op hfi hmi => ?_, fun now d => ?_, fun r => ?_⟩
  · obtain ⟨han, -, -, huc⟩ := hm.agree now hfi hmi
    exact ⟨han, huc⟩
  · simp only [Postgres.active, Store.active, Table.mem_selectWhere, hm.rows, List.mem_filter,
      KeyedMap.mem_values_iff, gt_iff_lt]
  · rw [Postgres.applied, hm.states]
    rfl

end Calls

/-! ### A registration that fits and one that does not -/

def volunteerRegistration (maxSessions : Int) : DirectoryOp :=
  .register
    { publicHost := "192.0.2.7", publicPort := 443, protocol := "vless-reality-vision", clientID := "client",
      realityPublicKey := "key", shortID := "01", serverName := "www.example.com", flow := "xtls-rprx-vision",
      exitMode := "direct", maxSessions, maxMbps := 100 }
    ⟨some "relay_00112233445566778899aabbccddeeff", none⟩ minute

theorem directories_agree_volunteer :
    let s := (({} : Store).direct IdentityCrypto.plainCrypto.checks 0 (volunteerRegistration 10)).1
    let pg := (({} : Postgres).direct IdentityCrypto.plainCrypto.checks 0 (volunteerRegistration 10)).1
    (s.active 0).length = 1 ∧ ∀ now d, d ∈ pg.active now ↔ d ∈ s.active now := by
  refine ⟨by decide +kernel, (directories_agree (.call 0 (volunteerRegistration 10) .start (by decide +kernel) ?_)).2.1⟩
  refine ⟨fun id hd => ?_, nofun⟩
  cases hd
  exact ⟨rfl, by decide +kernel⟩

/-- A registration whose `max_sessions` overflows its column is accepted by the in-memory store only. -/
theorem oversized_registration_diverges :
    (({} : Store).direct IdentityCrypto.plainCrypto.checks 0 (volunteerRegistration 2147483648)).2 = .ok () ∧
    (({} : Postgres).direct IdentityCrypto.plainCrypto.checks 0 (volunteerRegistration 2147483648)).2 =
      .error .database ∧
    ((({} : Store).direct IdentityCrypto.plainCrypto.checks 0 (volunteerRegistration 2147483648)).1.active 0).length = 1 ∧
    (({} : Postgres).direct IdentityCrypto.plainCrypto.checks 0 (volunteerRegistration 2147483648)).1.active 0 = [] := by
  refine ⟨rfl, rfl, ?_, ?_⟩
  · decide +kernel
  · rfl

end OpenRung.Broker
