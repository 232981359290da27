import OpenRung.Theorems.Reconcile

/-! A relay whose Xray calls that fail had no effect. Its belief mirrors Xray, and a lease leaves Xray by a removal or
    after its recorded local expiry. -/

namespace OpenRung.Relay

/-! ### Calls without an ambiguous end -/

namespace Xray
variable (x : Xray) (email credential : String) {outcome : Outcome} (clear : outcome ≠ .ambiguous)
include clear

theorem removeUser_cases :
    x.removeUser email outcome = (x.erase email, true) ∨ x.removeUser email outcome = (x, false) := by
  cases outcome with
  | ok => exact .inl rfl
  | failed => exact .inr rfl
  | ambiguous => exact absurd rfl clear

theorem addUser_cases :
    (x.addUser credential email outcome).2 = true ∨ x.addUser credential email outcome = (x, false) := by
  unfold addUser
  split
  · exact .inr rfl
  · cases outcome with
    | ok => exact .inl rfl
    | failed => exact .inr rfl
    | ambiguous => exact absurd rfl clear

end Xray

namespace Users
variable {u : Users}

theorem remove_cases (u : Users) (id : String) {outcome : Outcome} (hc : outcome ≠ .ambiguous) :
    (u.remove id outcome).2 = true ∨ (u.remove id outcome).1 = u := by
  unfold remove
  split
  · exact .inr rfl
  · rcases u.xray.removeUser_cases (leaseEmail id) hc with eq | eq
    · simp [eq]
    · simp [eq]

theorem addNew_cases (u : Users) (entry : LeaseEntry) (t : Time) {outcome : Outcome} (hc : outcome ≠ .ambiguous) :
    (u.addNew entry t outcome).2 = true ∨ (u.addNew entry t outcome).1 = u := by
  unfold addNew
  rcases u.xray.addUser_cases (leaseEmail entry.id) entry.credential hc with ok | eq
  · simp [ok]
  · simp [eq]

/-! ### The mirror -/

structure Mirrors (u : Users) : Prop where
  xray : ∀ id, u.xray.lookup (leaseEmail id) = (u.installed.lookup id).map InstalledLease.credential
  recorded : ∀ id lease, u.installed.lookup id = some lease → u.recorded.lookup id = some lease.expiresAt

namespace Mirrors

theorem empty : Mirrors {} := ⟨fun _ => rfl, fun _ _ hf => by cases hf⟩

theorem change (h : u.Mirrors) {u' : Users} (id : String) (ho : ∀ id', id' ≠ id → u.SameAt u' id')
    (xray : u'.xray.lookup (leaseEmail id) = (u'.installed.lookup id).map InstalledLease.credential)
    (recorded : ∀ lease, u'.installed.lookup id = some lease → u'.recorded.lookup id = some lease.expiresAt) :
    u'.Mirrors where
  xray := by
    intro id'
    by_cases hh : id' = id
    · subst hh
      exact xray
    · rw [(ho id' hh).xray, (ho id' hh).installed]
      exact h.xray id'
  recorded := by
    intro id' lease hf
    by_cases hh : id' = id
    · subst hh
      exact recorded lease hf
    · rw [(ho id' hh).recorded]
      exact h.recorded id' lease ((ho id' hh).installed ▸ hf)

theorem agrees (h : u.Mirrors) (entry : LeaseEntry) : u.Agrees entry := by
  have hmi := h.xray entry.id
  unfold Agrees
  split
  · next current hf =>
    rw [hf] at hmi
    intro hs
    rw [hmi, Option.map_some, hs]
  · next ha =>
    rw [ha] at hmi
    intro c ht
    rw [hmi] at ht
    cases ht

theorem remove_ok (h : u.Mirrors) {id : String} {outcome : Outcome} (ok : (u.remove id outcome).2 = true) :
    (u.remove id outcome).1.installed.lookup id = none ∧
      (u.remove id outcome).1.xray.lookup (leaseEmail id) = none := by
  obtain ⟨ha, hg⟩ := Users.remove_ok ok
  refine ⟨ha, ?_⟩
  cases hf : u.installed.lookup id with
  | some lease => exact hg (by rw [hf]; rfl)
  | none =>
    have hu : (u.remove id outcome).1 = u := by rw [Users.remove, hf]
    rw [hu, h.xray id, hf]
    rfl

theorem remove (h : u.Mirrors) (id : String) {outcome : Outcome} (hc : outcome ≠ .ambiguous) :
    (u.remove id outcome).1.Mirrors := by
  rcases u.remove_cases id hc with ok | hs
  · obtain ⟨ha, hg⟩ := h.remove_ok ok
    refine h.change id (fun id' ne => remove_ne ne) ?_ fun lease hf => ?_
    · rw [ha, hg]
      rfl
    · rw [ha] at hf
      cases hf
  · rwa [hs]

theorem addNew (h : u.Mirrors) {entry : LeaseEntry} (t : Time) {outcome : Outcome} (hc : outcome ≠ .ambiguous)
    (ha : u.installed.lookup entry.id = none) : (u.addNew entry t outcome).1.Mirrors := by
  rcases u.addNew_cases entry t hc with ok | hs
  · have hn : u.xray.lookup (leaseEmail entry.id) = none := by rw [h.xray, ha]; rfl
    obtain ⟨hi, ht, hr⟩ := addNew_ok ok fun c hf => by cases hn.symm.trans hf
    refine h.change entry.id (fun id' ne => addNew_ne ne) ?_ fun lease hf => ?_
    · rw [hi, ht]
      rfl
    · obtain rfl := Option.some.inj (hi.symm.trans hf)
      exact hr
  · rwa [hs]

theorem install (h : u.Mirrors) (entry : LeaseEntry) (t : Time) {removal addition : Outcome}
    (hc : removal ≠ .ambiguous ∧ addition ≠ .ambiguous) : (u.install entry t removal addition).1.Mirrors := by
  by_cases ok : (u.install entry t removal addition).2 = true
  · obtain ⟨hi, ht, hr⟩ := install_ok (h.agrees entry) ok
    refine h.change entry.id (fun id' ne => install_ne ne) ?_ fun lease hf => ?_
    · rw [hi, ht]
      rfl
    · obtain rfl := Option.some.inj (hi.symm.trans hf)
      exact hr
  · -- A failed install has called nothing but perhaps the removal of the old credential.
    unfold Users.install at ok ⊢
    cases hf : u.installed.lookup entry.id with
    | none => exact h.addNew t hc.2 hf
    | some current =>
      simp only [hf] at ok ⊢
      split
      · next hs => simp [hs] at ok
      · have hre := h.remove entry.id hc.1
        unfold Users.remove at hre
        simp only [hf] at hre
        rcases u.xray.removeUser_cases (leaseEmail entry.id) hc.1 with eq | eq
        · simp only [eq, if_true] at hre ⊢
          exact hre.addNew t hc.2 (AList.lookup_erase entry.id u.installed)
        · simp only [eq]
          exact h

theorem trusted {w : Worker} (h : w.users.Mirrors) : Trusted w := by
  unfold Trusted
  split
  · exact fun _ => h.agrees _
  · intro id c hf
    rw [h.xray id, Option.map_eq_some_iff] at hf
    obtain ⟨lease, hi, -⟩ := hf
    exact .inl (by rw [hi]; rfl)
  · trivial

end Mirrors

/-! ### Leases that stay -/

/-- The lease is installed with this credential, or its recorded local expiry has passed. -/
def Holds (u : Users) (clock : Time) (id credential : String) : Prop :=
  (∃ lease, u.installed.lookup id = some lease ∧ lease.credential = credential) ∨
    ∃ t, u.recorded.lookup id = some t ∧ t ≤ clock

theorem Holds.later {clock t : Time} {id c : String} (h : u.Holds clock id c) (le : clock ≤ t) : u.Holds t id c := by
  rcases h with hi | ⟨expiry, hr, hp⟩
  · exact .inl hi
  · exact .inr ⟨expiry, hr, le_trans hp le⟩

theorem Holds.same {u' : Users} {clock : Time} {id c : String} (h : u.Holds clock id c) (hs : u.SameAt u' id) :
    u'.Holds clock id c := by
  unfold Holds
  rw [hs.installed, hs.recorded]
  exact h

theorem install_cases (u : Users) {entry : LeaseEntry} (t : Time) {removal addition : Outcome}
    (hc : removal ≠ .ambiguous ∧ addition ≠ .ambiguous)
    (hs : ∀ lease, u.installed.lookup entry.id = some lease → lease.credential = entry.credential) :
    (u.install entry t removal addition).2 = true ∨ (u.install entry t removal addition).1 = u := by
  unfold install
  cases hf : u.installed.lookup entry.id with
  | none => exact u.addNew_cases entry t hc.2
  | some current =>
    simp only [hs current hf, if_true]
    exact .inl trivial

theorem Mirrors.install_holds (hm : u.Mirrors) {entry : LeaseEntry} {t clock : Time} {removal addition : Outcome}
    (hc : removal ≠ .ambiguous ∧ addition ≠ .ambiguous)
    (hs : ∀ lease, u.installed.lookup entry.id = some lease → lease.credential = entry.credential) {id c : String}
    (hhe : u.Holds clock id c) (hmn : id = entry.id → c = entry.credential) :
    (u.install entry t removal addition).1.Holds clock id c := by
  rcases u.install_cases t hc hs with ok | eq
  · by_cases hh : id = entry.id
    · obtain ⟨hi, -, -⟩ := install_ok (hm.agrees entry) ok
      exact .inl ⟨_, hh ▸ hi, (hmn hh).symm⟩
    · exact hhe.same (install_ne hh)
  · rwa [eq]

theorem Mirrors.expireOne (hm : u.Mirrors) (now : Time) {outcome : String → Outcome}
    (hc : ∀ id, outcome id ≠ .ambiguous) (id : String) :
    (u.expireOne now outcome id).Mirrors ∧ (∀ id' c, u.Holds now id' c → (u.expireOne now outcome id).Holds now id' c) ∧
      ∀ id', (u.expireOne now outcome id).installed.lookup id' = u.installed.lookup id' ∨
        (u.expireOne now outcome id).installed.lookup id' = none := by
  rcases u.expireOne_cases now outcome id with eq | ⟨lease, hf, he, eq⟩
  · rw [eq]
    exact ⟨hm, fun _ _ hhe => hhe, fun _ => .inl rfl⟩
  · rw [eq]
    refine ⟨hm.remove id (hc id), fun id' c hhe => ?_, fun id' => ?_⟩
    · by_cases hh : id' = id
      · subst hh
        refine .inr ⟨lease.expiresAt, ?_, he⟩
        rw [remove_recorded]
        exact hm.recorded id' lease hf
      · exact hhe.same (remove_ne hh)
    · by_cases hh : id' = id
      · subst hh
        rcases u.remove_cases id' (hc id') with ok | hs
        · exact .inr (hm.remove_ok ok).1
        · exact .inl (by rw [hs])
      · exact .inl (remove_ne hh).installed

theorem Mirrors.expireLocal (hm : u.Mirrors) (now : Time) {outcome : String → Outcome}
    (hc : ∀ id, outcome id ≠ .ambiguous) :
    (u.expireLocal now outcome).Mirrors ∧ (∀ id c, u.Holds now id c → (u.expireLocal now outcome).Holds now id c) ∧
      ∀ id, (u.expireLocal now outcome).installed.lookup id = u.installed.lookup id ∨
        (u.expireLocal now outcome).installed.lookup id = none := by
  unfold Users.expireLocal
  generalize u.installed.keys = ids
  induction ids generalizing u with
  | nil => exact ⟨hm, fun _ _ hhe => hhe, fun _ => .inl rfl⟩
  | cons id ids ih =>
    obtain ⟨hmr, hhl, hsu⟩ := hm.expireOne now hc id
    obtain ⟨haf, hhe, sub⟩ := ih hmr
    refine ⟨haf, fun id' c h => hhe id' c (hhl id' c h), fun id' => ?_⟩
    rcases sub id' with hs | hg
    · rw [List.foldl_cons, hs]
      exact hsu id'
    · exact .inr hg

end Users

end OpenRung.Relay
