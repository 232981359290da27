import OpenRung.Theorems.LeaseTable

/-! Racing requests. A request reads the clock before the store serialises its call. A call that extends a lease which
    a later read has already found expired brings it back, next to the lease that replaced it; when no call does, each
    user has one live lease on a relay and expired leases stay expired. -/

namespace OpenRung.Broker

/-- With the calls that have read the clock and are on their way, and the reads of those that have arrived. -/
structure Race where
  store : Store := {}
  clock : Time
  pending : List (Time × Op) := []
  processed : List Time := []
  ids : List String := []

inductive Race.Step (checks : RegisterChecks) (allowed : Race → Time → Op → Prop) (w : Race) : Race → Prop
  | tick (t : Time) (later : w.clock ≤ t) : Step checks allowed w { w with clock := t }
  | read (op : Op) : Step checks allowed w { w with pending := w.pending ++ [(w.clock, op)] }
  | arrive (now : Time) (op : Op) (before after : List (Time × Op)) (pending : w.pending = before ++ (now, op) :: after)
      (ok : allowed w now op) (fresh : op.Fresh (· ∈ w.ids)) :
      Step checks allowed w
        { store := (w.store.apply checks now op).1
          clock := w.clock
          pending := before ++ after
          processed := now :: w.processed
          ids := w.ids ++ (w.store.apply checks now op).2.leases.map Lease.id }

def Race.Steps (checks : RegisterChecks) (allowed : Race → Time → Op → Prop) : Race → Race → Prop :=
  Relation.ReflTransGen (Race.Step checks allowed)

def Race.start (t : Time) : Race := { clock := t }

def anyOrder (_ : Race) (_ : Time) (_ : Op) : Prop := True

def Race.reads (w : Race) : List Time := w.processed ++ w.pending.map Prod.fst

/-- No processed read has found the lease revoked or expired. -/
def Lease.CurrentFor (processed : List Time) (l : Lease) : Prop :=
  l.revokedAt = none ∧ ∀ p ∈ processed, p < l.expiresAt

/-- The call extends no lease that a processed read has found expired, or not beyond a processed read. -/
def Orderly (w : Race) (now : Time) : Op → Prop
  | .issueLeases req _ => ∀ e, w.store.leases.lookup e.id = some e → e.userID = req.userID → e.relayID ∈ req.relayIDs →
      e.live now → (∀ e', w.store.leases.lookup e'.id = some e' → e'.userID = req.userID → e'.relayID = e.relayID →
        e'.live now → e'.id ≤ e.id) →
      e.CurrentFor w.processed ∨ ∃ p ∈ w.processed, now + req.normalized.ttl ≤ p
  | _ => True

/-! ### Leases no processed read has found dead -/

theorem Lease.CurrentFor.live {l : Lease} {now : Time} {processed : List Time} (h : l.CurrentFor (now :: processed)) :
    l.live now := Lease.live_iff.mpr ⟨h.1, h.2 now List.mem_cons_self⟩

theorem Lease.CurrentFor.tail {l : Lease} {now : Time} {processed : List Time} (h : l.CurrentFor (now :: processed)) :
    l.CurrentFor processed := ⟨h.1, fun p hm => h.2 p (List.mem_cons_of_mem _ hm)⟩

def UniqueFor (s : Store) (processed : List Time) : Prop :=
  ∀ l l', s.leases.lookup l.id = some l → s.leases.lookup l'.id = some l' → l.userID = l'.userID →
    l.relayID = l'.relayID → l.CurrentFor processed → l'.CurrentFor processed → l = l'

structure Race.Inv (w : Race) : Prop where
  keyed : w.store.leases.Keyed Lease.id
  known : ∀ id, w.store.leases.lookup id ≠ none → id ∈ w.ids
  unique : UniqueFor w.store w.processed

theorem Race.Inv.start (t : Time) : (Race.start t).Inv where
  keyed := fun _ _ h => by simp [Race.start] at h
  known := fun _ h => by simp [Race.start] at h
  unique := fun _ _ h => by simp [Race.start] at h

theorem Orderly.current_before {w : Race} (hk : w.store.leases.Keyed Lease.id) {req : LeaseIssueRequest}
    {mint : String → Option (String × String)} {now : Time} {plan : LeaseIssuePlan} {drawn : List Lease}
    (ho : Orderly w now (.issueLeases req mint)) (h : Issuing w.store req.normalized mint now plan drawn)
    {r : String} {l old : Lease} (hc : l.CurrentFor (now :: w.processed))
    (how : old = l ∨ plan.extend.lookup r = some old ∧ l.expiresAt = now + req.normalized.ttl) :
    old.CurrentFor w.processed := by
  rcases how with rfl | ⟨hfo, he⟩
  · exact hc.tail
  · obtain ⟨hs, hon, hli, on, hrq⟩ := h.extend_stored hk hfo
    have hg : ∀ e', w.store.leases.lookup e'.id = some e' → e'.userID = req.userID → e'.relayID = old.relayID →
        e'.live now → e'.id ≤ old.id := by
      intro e' hst hoe on' hlv
      refine byRelay_lookup_greatest (w.store.pairwise_liveLeasesForUser _ _) (h.planned.extend.mp hfo).1 e' ?_ (on'.trans on)
      exact (Store.mem_liveLeasesForUser hk).mpr ⟨hst, hoe, hlv⟩
    rcases ho old hs hon (on ▸ mem_sortedUnique.mp hrq) hli hg with hcu | ⟨p, hm, le⟩
    · exact hcu
    · have := hc.2 p (List.mem_cons_of_mem _ hm)
      rw [he] at this
      exact absurd this (not_lt.mpr le)

theorem Effect.revoked_of_silent {s s' : Store} {used : String → Prop} {now : Time} {ws : List Lease} {report : Report}
    (h : Effect s s' used now ws report) (hsi : report.leases = []) {w : Lease} (hm : w ∈ ws) :
    w.revokedAt ≠ none := by
  intro hu
  have hr := (h.reported w).mpr ⟨hm, hu⟩
  rw [hsi] at hr
  cases hr

theorem Store.apply_silent (checks : RegisterChecks) (s : Store) (now : Time) (op : Op)
    (hn : ∀ req mint, op ≠ .issueLeases req mint) : (s.apply checks now op).2.leases = [] := by
  cases op with
  | issueLeases req mint => exact absurd rfl (hn req mint)
  | setUserStatus id status reason =>
    simp only [Store.apply]
    split <;> rfl
  | _ => rfl

theorem Store.apply_current (checks : RegisterChecks) {w : Race} (inv : w.Inv) {now : Time} {op : Op}
    (hf : op.Fresh (· ∈ w.ids)) (hn : ∀ req mint, op ≠ .issueLeases req mint) {l : Lease}
    (hs : (w.store.apply checks now op).1.leases.lookup l.id = some l) (hu : l.revokedAt = none) :
    w.store.leases.lookup l.id = some l := by
  rcases w.store.apply_effect checks now op inv.keyed inv.known hf with rfl | ⟨ws, hef⟩
  · exact Store.lookup_of_prune hs
  · rcases hef.lookup.mp hs with ⟨hm, -⟩ | ⟨old, -⟩
    · exact absurd hu (hef.revoked_of_silent (w.store.apply_silent checks now op hn) hm)
    · exact old

namespace Race.Inv
variable {checks : RegisterChecks} {w w' : Race}

theorem unique_after (inv : w.Inv) {now : Time} {op : Op} (ho : Orderly w now op) (hf : op.Fresh (· ∈ w.ids)) :
    UniqueFor (w.store.apply checks now op).1 (now :: w.processed) := by
  intro l l' hs hst hus on hc hcu
  by_cases his : ∃ req mint, op = .issueLeases req mint
  · obtain ⟨req, mint, rfl⟩ := his
    rcases w.store.issueLeases_cases req mint now with ⟨e, eq⟩ | ⟨plan, drawn, hi, eq⟩
    · simp only [Store.apply, eq] at hs hst
      exact inv.unique l l' hs hst hus on hc.tail hcu.tail
    · simp only [Store.apply, eq] at hs hst
      refine hi.unique_after inv.keyed (FreshMint.draws hi inv.known hf) hs hst hus on
        hc.live hcu.live fun old old' hfo hfu _ _ hon hoO how hh => ?_
      exact inv.unique old old' hfo hfu hon hoO (ho.current_before inv.keyed hi hc how)
        (ho.current_before inv.keyed hi hcu hh)
  · have hn : ∀ req mint, op ≠ .issueLeases req mint := fun req mint eq => his ⟨req, mint, eq⟩
    exact inv.unique l l' (Store.apply_current checks inv hf hn hs hc.1)
      (Store.apply_current checks inv hf hn hst hcu.1) hus on hc.tail hcu.tail

theorem step (inv : w.Inv) (hse : Race.Step checks Orderly w w') : w'.Inv := by
  cases hse with
  | tick t hl => exact ⟨inv.keyed, inv.known, inv.unique⟩
  | read op => exact ⟨inv.keyed, inv.known, inv.unique⟩
  | arrive now op before after hp ho hf =>
    exact ⟨Store.apply_keyed checks inv.keyed inv.known hf, Store.apply_known checks inv.keyed inv.known hf,
      inv.unique_after ho hf⟩

theorem steps (inv : w.Inv) (run : Race.Steps checks Orderly w w') : w'.Inv := by
  induction run with
  | refl => exact inv
  | tail _ hse ih => exact ih.step hse

end Race.Inv

/-- The id has been used, and what is stored under it a processed read has found revoked or expired. -/
def Race.Dead (w : Race) (id : String) : Prop :=
  id ∈ w.ids ∧ ∀ l, w.store.leases.lookup id = some l → ¬ l.CurrentFor w.processed

theorem Race.Dead.step {checks : RegisterChecks} {w w' : Race} {id : String} (hd : w.Dead id) (inv : w.Inv)
    (hse : Race.Step checks Orderly w w') : w'.Dead id := by
  cases hse with
  | tick t hl => exact hd
  | read op => exact hd
  | arrive now op before after hp ho hf =>
    refine ⟨List.mem_append_left _ hd.1, fun l hs hc => ?_⟩
    have hke := Store.apply_keyed checks (t := now) inv.keyed inv.known hf
    obtain rfl : l.id = id := hke id l hs
    by_cases his : ∃ req mint, op = .issueLeases req mint
    · obtain ⟨req, mint, rfl⟩ := his
      rcases w.store.issueLeases_cases req mint now with ⟨e, eq⟩ | ⟨plan, drawn, hi, eq⟩
      · simp only [Store.apply, eq] at hs
        exact hd.2 l hs hc.tail
      · simp only [Store.apply, eq] at hs
        have hdr := FreshMint.draws hi inv.known hf
        rcases hi.live_after inv.keyed hdr hs hc.live with
          ⟨old, hfo, -, -, -, how, -⟩ | ⟨d, hde, hsa, -⟩
        · exact hd.2 old hfo (ho.current_before inv.keyed hi hc how)
        · exact hdr.new d hde (hsa ▸ hd.1)
    · have hn : ∀ req mint, op ≠ .issueLeases req mint := fun req mint eq => his ⟨req, mint, eq⟩
      exact hd.2 l (Store.apply_current checks inv hf hn hs hc.1) hc.tail

theorem Race.Dead.steps {checks : RegisterChecks} {w w' : Race} {id : String} (hd : w.Dead id) (inv : w.Inv)
    (run : Race.Steps checks Orderly w w') : w'.Dead id := by
  induction run with
  | refl => exact hd
  | tail run hse ih => exact ih.step (inv.steps run) hse

theorem Lease.current_of_live {w : Race} {l : Lease} {t : Time} (ha : ∀ p ∈ w.reads, p ≤ t) (hli : l.live t) :
    l.CurrentFor w.processed := by
  obtain ⟨hu, hun⟩ := Lease.live_iff.mp hli
  exact ⟨hu, fun p hm => lt_of_le_of_lt (ha p (List.mem_append_left _ hm)) hun⟩

theorem orderly_races_keep_one_lease (checks : RegisterChecks) {start : Time} {w : Race}
    (run : Race.Steps checks Orderly (Race.start start) w) :
    (∀ t, (∀ p ∈ w.reads, p ≤ t) → ∀ l l', w.store.leases.lookup l.id = some l → w.store.leases.lookup l'.id = some l' →
      l.userID = l'.userID → l.relayID = l'.relayID → l.live t → l'.live t → l = l') ∧
    ∀ id l p, w.store.leases.lookup id = some l → p ∈ w.processed → l.expiresAt ≤ p →
      ∀ w', Race.Steps checks Orderly w w' → ∀ l', w'.store.leases.lookup id = some l' →
        ∀ t, (∀ p ∈ w'.reads, p ≤ t) → l'.live t = false := by
  have inv := (Race.Inv.start start).steps run
  constructor
  · intro t ha l l' hs hst hus on hli hlv
    exact inv.unique l l' hs hst hus on (Lease.current_of_live ha hli) (Lease.current_of_live ha hlv)
  · intro id l p hs hpr hex w' hru l' hst t ha
    have hd : w.Dead id := by
      refine ⟨inv.known id (by simp [hs]), fun l'' hso hc => ?_⟩
      obtain rfl : l = l'' := Option.some.inj (hs.symm.trans hso)
      exact absurd (hc.2 p hpr) (not_lt.mpr hex)
    by_contra hal
    exact (hd.steps inv hru).2 l' hst (Lease.current_of_live ha (by simpa using hal))

/-! ### A call that is overtaken -/

theorem Orderly.of_in_order {w : Race} {now : Time} (ha : ∀ p ∈ w.processed, p ≤ now) (op : Op) : Orderly w now op := by
  cases op with
  | issueLeases req mint =>
    intro e _ _ _ hli _
    obtain ⟨hu, hun⟩ := Lease.live_iff.mp hli
    exact .inl ⟨hu, fun p hm => lt_of_le_of_lt (ha p hm) hun⟩
  | _ => trivial

theorem Race.Steps.mono {checks : RegisterChecks} {w w' : Race} (run : Race.Steps checks Orderly w w') :
    Race.Steps checks anyOrder w w' := by
  refine Relation.ReflTransGen.mono (fun a b hse => ?_) _ _ run
  cases hse with
  | tick t hl => exact .tick t hl
  | read op => exact .read op
  | arrive now op before after hp _ hf => exact .arrive now op before after hp trivial hf

def lateRead : Race where
  store := (enrolled.apply oneRelayChecks 5 (issueOnRelay "lease_b")).1
  clock := 100
  pending := [(20, issueOnRelay "lease_c"), (100, issueOnRelay "lease_a")]
  processed := [5, 2, 1]
  ids := ["lease_b"]

def overtaken : Race where
  store := (lateRead.store.apply oneRelayChecks 100 (issueOnRelay "lease_a")).1
  clock := 100
  pending := [(20, issueOnRelay "lease_c")]
  processed := [100, 5, 2, 1]
  ids := ["lease_b", "lease_a"]

def resurrected : Race where
  store := (overtaken.store.apply oneRelayChecks 20 (issueOnRelay "lease_c")).1
  clock := 100
  pending := []
  processed := [20, 100, 5, 2, 1]
  ids := ["lease_b", "lease_a", "lease_b"]

theorem Race.prompt {w : Race} (t : Time) (op : Op) (hem : w.pending = []) (hl : w.clock ≤ t)
    (ha : ∀ p ∈ w.processed, p ≤ t) (hf : op.Fresh (· ∈ w.ids)) :
    Race.Steps oneRelayChecks Orderly w
      { store := (w.store.apply oneRelayChecks t op).1, clock := t, processed := t :: w.processed
        ids := w.ids ++ (w.store.apply oneRelayChecks t op).2.leases.map Lease.id } := by
  have ht : Race.Step oneRelayChecks Orderly w { w with clock := t } := .tick t hl
  have hrd : Race.Step oneRelayChecks Orderly { w with clock := t }
    { w with clock := t, pending := w.pending ++ [(t, op)] } := .read op
  refine ((Relation.ReflTransGen.single ht).tail hrd).tail ?_
  exact .arrive t op [] [] (by simp [hem]) (.of_in_order ha op) hf

theorem lateRead_run : Race.Steps oneRelayChecks Orderly (Race.start 0) lateRead := by
  let register : Op := .register { identityPublicKey := "key" } ⟨none, some "token"⟩ 1000
  let authenticate : Op := .authenticateUser "public key" "source" [] none (some "user_1")
  let w₁ : Race := { store := (({} : Store).apply oneRelayChecks 1 register).1, clock := 1, processed := [1] }
  let w₂ : Race := { store := enrolled, clock := 2, processed := [2, 1] }
  let w₃ : Race := { lateRead with clock := 5, pending := [] }
  have hre : Race.Steps oneRelayChecks Orderly (Race.start 0) w₁ :=
    Race.prompt 1 register rfl (by decide) (by decide) trivial
  have hau : Race.Steps oneRelayChecks Orderly w₁ w₂ :=
    Race.prompt 2 authenticate rfl (by decide) (by decide) trivial
  have hiu : Race.Steps oneRelayChecks Orderly w₂ w₃ :=
    Race.prompt 5 (issueOnRelay "lease_b") rfl (by decide) (by decide) (issueOnRelay_fresh (by decide))
  have hra : Race.Steps oneRelayChecks Orderly w₃ lateRead :=
    (((Relation.ReflTransGen.single (.tick 20 (by decide))).tail (.read (issueOnRelay "lease_c"))).tail
      (.tick 100 (by decide))).tail (.read (issueOnRelay "lease_a"))
  exact ((hre.trans hau).trans hiu).trans hra

theorem overtaken_run : Race.Steps oneRelayChecks Orderly (Race.start 0) overtaken :=
  lateRead_run.tail (.arrive 100 (issueOnRelay "lease_a") [(20, issueOnRelay "lease_c")] [] rfl
    (.of_in_order (by decide) _) (issueOnRelay_fresh (by decide)))

/-- At 100 the user has two live leases on the relay, and one of them the request that had read 100 found expired. -/
theorem overtaken_call_resurrects_lease :
    Race.Steps oneRelayChecks anyOrder (Race.start 0) overtaken ∧
    Race.Steps oneRelayChecks anyOrder overtaken resurrected ∧
    (∃ l, overtaken.store.leases.lookup "lease_b" = some l ∧ 100 ∈ overtaken.processed ∧ l.expiresAt ≤ 100) ∧
    (∀ p ∈ resurrected.reads, p ≤ 100) ∧
    ∃ l l', resurrected.store.leases.lookup l.id = some l ∧ resurrected.store.leases.lookup l'.id = some l' ∧
      l.id = "lease_b" ∧ l.userID = l'.userID ∧ l.relayID = l'.relayID ∧ l.live 100 ∧ l'.live 100 ∧ l ≠ l' := by
  refine ⟨overtaken_run.mono, .single ?_, ⟨_, rfl, by decide, by decide⟩, by decide, ?_⟩
  · exact .arrive 20 (issueOnRelay "lease_c") [] [] rfl trivial (issueOnRelay_fresh (by decide))
  · exact ⟨resurrected.store.leaseAt "lease_b", resurrected.store.leaseAt "lease_a", by decide, by decide, by decide,
      by decide, by decide, by decide, by decide, by decide⟩

theorem orderly_races_keep_one_lease_overtaken :
    (overtaken.store.leaseAt "lease_a").live 100 ∧
      ∀ l l', overtaken.store.leases.lookup l.id = some l → overtaken.store.leases.lookup l'.id = some l' →
        l.userID = l'.userID → l.relayID = l'.relayID → l.live 100 → l'.live 100 → l = l' :=
  ⟨by decide, (orderly_races_keep_one_lease oneRelayChecks overtaken_run).1 100 (by decide)⟩

end OpenRung.Broker
