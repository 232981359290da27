import Mathlib.Logic.Relation
import OpenRung.Relay.LeaseSync

/-! What a relay has installed when it acknowledges a revision. A management call that fails after it took effect
    makes belief and Xray differ, and a later reconcile that meets such a lease trusts the belief. Where no reconcile
    does, each acknowledged set is exactly what Xray accepts. -/

namespace OpenRung.Relay

theorem leaseEmail_inj {a b : String} : leaseEmail a = leaseEmail b ↔ a = b := by
  unfold leaseEmail
  constructor
  · intro hsa
    have := congrArg String.toList hsa
    simp only [String.toList_append, List.append_cancel_left_eq] at this
    exact String.toList_inj.mp this
  · rintro rfl
    rfl

/-! ### Xray calls -/

namespace Xray
variable {x : Xray} {email credential : String} {outcome : Outcome}

theorem removeUser_ne {email' : String} (ne : email' ≠ email) :
    (x.removeUser email outcome).1.lookup email' = x.lookup email' := by
  cases outcome with
  | ok => exact AList.lookup_erase_ne ne
  | failed => rfl
  | ambiguous => exact AList.lookup_erase_ne ne

theorem removeUser_ok (ok : (x.removeUser email outcome).2 = true) :
    (x.removeUser email outcome).1.lookup email = none := by
  cases outcome with
  | ok => exact AList.lookup_erase email x
  | failed => cases ok
  | ambiguous => cases ok

theorem removeUser_sub {c : String} (hf : (x.removeUser email outcome).1.lookup email = some c) :
    x.lookup email = some c := by
  cases outcome with
  | ok => exact absurd (hf.symm.trans (AList.lookup_erase email x)) (by simp)
  | failed => exact hf
  | ambiguous => exact absurd (hf.symm.trans (AList.lookup_erase email x)) (by simp)

theorem addUser_ne {email' : String} (ne : email' ≠ email) :
    (x.addUser credential email outcome).1.lookup email' = x.lookup email' := by
  have his : (if (x.lookup email).isSome then x else x.insert email credential).lookup email' = x.lookup email' := by
    split
    · rfl
    · exact AList.lookup_insert_ne ne
  unfold addUser
  split
  · rfl
  · cases outcome with
    | ok => exact his
    | failed => rfl
    | ambiguous => exact his

theorem addUser_ok (ok : (x.addUser credential email outcome).2 = true)
    (hsa : ∀ c, x.lookup email = some c → c = credential) :
    (x.addUser credential email outcome).1.lookup email = some credential := by
  unfold addUser at ok ⊢
  split at ok
  · cases ok
  · next hno =>
    rw [if_neg hno]
    cases outcome with
    | ok =>
      show AList.lookup email (if (x.lookup email).isSome then x else x.insert email credential) = some credential
      cases hf : x.lookup email with
      | none => exact AList.lookup_insert x
      | some c => rw [Option.isSome_some, if_pos rfl, hf, hsa c hf]
    | failed => cases ok
    | ambiguous => cases ok

end Xray

/-! ### Locked operations -/

structure Users.SameAt (u u' : Users) (id : String) : Prop where
  installed : u'.installed.lookup id = u.installed.lookup id
  xray : u'.xray.lookup (leaseEmail id) = u.xray.lookup (leaseEmail id)
  recorded : u'.recorded.lookup id = u.recorded.lookup id

namespace Users
variable {u : Users} {id : String} {outcome : Outcome}

theorem SameAt.trans {u' u'' : Users} (h : u.SameAt u' id) (h' : u'.SameAt u'' id) : u.SameAt u'' id :=
  ⟨h'.installed.trans h.installed, h'.xray.trans h.xray, h'.recorded.trans h.recorded⟩

theorem remove_ne {id' : String} (ne : id' ≠ id) : u.SameAt (u.remove id outcome).1 id' := by
  have hl : leaseEmail id' ≠ leaseEmail id := fun hsa => ne (leaseEmail_inj.mp hsa)
  unfold remove
  split
  · exact ⟨rfl, rfl, rfl⟩
  · simp only
    split
    · exact ⟨AList.lookup_erase_ne ne, Xray.removeUser_ne hl, rfl⟩
    · exact ⟨rfl, Xray.removeUser_ne hl, rfl⟩

theorem remove_recorded : (u.remove id outcome).1.recorded = u.recorded := by
  unfold remove
  split
  · rfl
  · simp only
    split <;> rfl

theorem remove_sub {c : String} (hf : (u.remove id outcome).1.xray.lookup (leaseEmail id) = some c) :
    u.xray.lookup (leaseEmail id) = some c := by
  unfold remove at hf
  split at hf
  · exact hf
  · simp only at hf
    split at hf <;> exact Xray.removeUser_sub hf

theorem remove_ok (ok : (u.remove id outcome).2 = true) :
    (u.remove id outcome).1.installed.lookup id = none ∧
      ((u.installed.lookup id).isSome → (u.remove id outcome).1.xray.lookup (leaseEmail id) = none) := by
  unfold remove at ok ⊢
  cases hf : u.installed.lookup id with
  | none => exact ⟨hf, fun some => by cases some⟩
  | some lease =>
    simp only [hf] at ok ⊢
    split at ok
    · next hc =>
      rw [if_pos hc]
      exact ⟨AList.lookup_erase id u.installed, fun _ => Xray.removeUser_ok hc⟩
    · cases ok

theorem remove_believed {c : String} (hf : (u.remove id outcome).1.xray.lookup (leaseEmail id) = some c)
    (hb : (u.installed.lookup id).isSome) : ((u.remove id outcome).1.installed.lookup id).isSome := by
  unfold remove at hf ⊢
  obtain ⟨lease, ht⟩ := Option.isSome_iff_exists.mp hb
  simp only [ht] at hf ⊢
  split at hf
  · next hc =>
    rw [Xray.removeUser_ok hc] at hf
    cases hf
  · next hc => simp only [hc, Bool.false_eq_true, if_false, ht, Option.isSome_some]

theorem expireOne_cases (u : Users) (now : Time) (outcome : String → Outcome) (id : String) :
    u.expireOne now outcome id = u ∨
    ∃ lease, u.installed.lookup id = some lease ∧ lease.expiresAt ≤ now ∧
      u.expireOne now outcome id = (u.remove id (outcome id)).1 := by
  unfold expireOne
  cases hf : u.installed.lookup id with
  | none => exact .inl rfl
  | some lease =>
    by_cases hlv : now < lease.expiresAt
    · exact .inl (if_pos hlv)
    · exact .inr ⟨lease, rfl, not_lt.mp hlv, if_neg hlv⟩

theorem addNew_ne {entry : LeaseEntry} {t : Time} {id' : String} (ne : id' ≠ entry.id) :
    u.SameAt (u.addNew entry t outcome).1 id' := by
  have hl : leaseEmail id' ≠ leaseEmail entry.id := fun hsa => ne (leaseEmail_inj.mp hsa)
  unfold addNew
  simp only
  split
  · exact ⟨AList.lookup_insert_ne ne, Xray.addUser_ne hl, AList.lookup_insert_ne ne⟩
  · exact ⟨rfl, Xray.addUser_ne hl, rfl⟩

theorem addNew_ok {entry : LeaseEntry} {t : Time} (ok : (u.addNew entry t outcome).2 = true)
    (hsa : ∀ c, u.xray.lookup (leaseEmail entry.id) = some c → c = entry.credential) :
    (u.addNew entry t outcome).1.installed.lookup entry.id = some ⟨entry.credential, t⟩ ∧
      (u.addNew entry t outcome).1.xray.lookup (leaseEmail entry.id) = some entry.credential ∧
      (u.addNew entry t outcome).1.recorded.lookup entry.id = some t := by
  unfold addNew at ok ⊢
  simp only at ok ⊢
  split at ok
  · next hc =>
    rw [if_pos hc]
    exact ⟨AList.lookup_insert _, Xray.addUser_ok hc hsa, AList.lookup_insert _⟩
  · cases ok

theorem install_ne {entry : LeaseEntry} {t : Time} {removal addition : Outcome} {id' : String} (ne : id' ≠ entry.id) :
    u.SameAt (u.install entry t removal addition).1 id' := by
  have hl : leaseEmail id' ≠ leaseEmail entry.id := fun hsa => ne (leaseEmail_inj.mp hsa)
  unfold install
  split
  · exact addNew_ne ne
  · split
    · exact ⟨AList.lookup_insert_ne ne, rfl, AList.lookup_insert_ne ne⟩
    · simp only
      split
      · refine SameAt.trans ?_ (addNew_ne ne)
        exact ⟨AList.lookup_erase_ne ne, Xray.removeUser_ne hl, rfl⟩
      · exact ⟨rfl, Xray.removeUser_ne hl, rfl⟩

/-- A lease believed installed under this credential is, and one not believed installed has no other credential in
    Xray. -/
def Agrees (u : Users) (entry : LeaseEntry) : Prop :=
  match u.installed.lookup entry.id with
  | some current => current.credential = entry.credential → u.xray.lookup (leaseEmail entry.id) = some entry.credential
  | none => ∀ c, u.xray.lookup (leaseEmail entry.id) = some c → c = entry.credential

theorem install_ok {entry : LeaseEntry} {t : Time} {removal addition : Outcome} (ha : u.Agrees entry)
    (ok : (u.install entry t removal addition).2 = true) :
    (u.install entry t removal addition).1.installed.lookup entry.id = some ⟨entry.credential, t⟩ ∧
      (u.install entry t removal addition).1.xray.lookup (leaseEmail entry.id) = some entry.credential ∧
      (u.install entry t removal addition).1.recorded.lookup entry.id = some t := by
  unfold install Agrees at *
  cases hf : u.installed.lookup entry.id with
  | none =>
    simp only [hf] at ha ok ⊢
    exact addNew_ok ok ha
  | some current =>
    simp only [hf] at ha ok ⊢
    by_cases hsa : current.credential = entry.credential
    · simp only [hsa, if_true]
      exact ⟨AList.lookup_insert _, ha hsa, AList.lookup_insert _⟩
    · simp only [hsa, if_false] at ok ⊢
      split at ok
      · next hc =>
        rw [if_pos hc]
        refine addNew_ok ok fun c ht => ?_
        rw [Xray.removeUser_ok hc] at ht
        cases ht
      · cases ok

end Users

/-! ### Settled leases -/

def Settled (u : Users) (clock : Time) (p : Poll) (e : LeaseEntry) : Prop :=
  u.recorded.lookup e.id = some (p.localExpiry e) ∧
  ((u.xray.lookup (leaseEmail e.id) = some e.credential ∧
      u.installed.lookup e.id = some ⟨e.credential, p.localExpiry e⟩) ∨
    (p.localExpiry e ≤ clock ∧ ∀ c, u.xray.lookup (leaseEmail e.id) = some c → c = e.credential))

theorem Settled.later {u : Users} {clock t : Time} {p : Poll} {e : LeaseEntry} (h : Settled u clock p e)
    (le : clock ≤ t) : Settled u t p e := by
  obtain ⟨hr, ht | ⟨he, hsa⟩⟩ := h
  · exact ⟨hr, .inl ht⟩
  · exact ⟨hr, .inr ⟨le_trans he le, hsa⟩⟩

theorem Settled.frame {u u' : Users} {clock : Time} {p : Poll} {e : LeaseEntry} (h : Settled u clock p e)
    (hsa : u.SameAt u' e.id) : Settled u' clock p e := by
  unfold Settled
  rw [hsa.installed, hsa.xray, hsa.recorded]
  exact h

theorem Settled.expireOne {u : Users} {clock : Time} {p : Poll} {e : LeaseEntry} (h : Settled u clock p e)
    (outcome : String → Outcome) (id : String) : Settled (u.expireOne clock outcome id) clock p e := by
  rcases u.expireOne_cases clock outcome id with eq | ⟨lease, hf, he, eq⟩
  · rwa [eq]
  · rw [eq]
    by_cases hh : e.id = id
    · subst hh
      have sub : ∀ c, (u.remove e.id (outcome e.id)).1.xray.lookup (leaseEmail e.id) = some c → c = e.credential := by
        intro c ht
        have hbe := Users.remove_sub ht
        rcases h.2 with ⟨hk, -⟩ | ⟨-, hsa⟩
        · exact Option.some.inj (hbe.symm.trans hk)
        · exact hsa c hbe
      refine ⟨Users.remove_recorded.symm ▸ h.1, .inr ⟨?_, sub⟩⟩
      rcases h.2 with ⟨-, hin⟩ | ⟨hpa, -⟩
      · obtain rfl := Option.some.inj (hf.symm.trans hin)
        exact he
      · exact hpa
    · exact h.frame (Users.remove_ne hh)

/-- What time and sweeps do to the users: settled leases stay settled, Xray gains none, and what it still has and
    was believed is still believed. -/
structure Fades (u u' : Users) (clock clock' : Time) : Prop where
  settled : ∀ p e, Settled u clock p e → Settled u' clock' p e
  sub : ∀ id c, u'.xray.lookup (leaseEmail id) = some c → u.xray.lookup (leaseEmail id) = some c
  believed : ∀ id c, u'.xray.lookup (leaseEmail id) = some c → (u.installed.lookup id).isSome →
    (u'.installed.lookup id).isSome

theorem Fades.trans {u u' u'' : Users} {t t' t'' : Time} (h : Fades u u' t t') (h' : Fades u' u'' t' t'') :
    Fades u u'' t t'' where
  settled := fun p e hbe => h'.settled p e (h.settled p e hbe)
  sub := fun id c hf => h.sub id c (h'.sub id c hf)
  believed := fun id c hf hbe => h'.believed id c hf (h.believed id c (h'.sub id c hf) hbe)

theorem Fades.tick (u : Users) {t t' : Time} (le : t ≤ t') : Fades u u t t' :=
  ⟨fun _ _ h => h.later le, fun _ _ h => h, fun _ _ _ h => h⟩

theorem Users.expireOne_fades (u : Users) (now : Time) (outcome : String → Outcome) (id : String) :
    Fades u (u.expireOne now outcome id) now now where
  settled := fun p e h => h.expireOne outcome id
  sub := by
    intro id' c hf
    rcases u.expireOne_cases now outcome id with eq | ⟨lease, -, -, eq⟩
    · rwa [eq] at hf
    · rw [eq] at hf
      by_cases hh : id' = id
      · subst hh
        exact Users.remove_sub hf
      · rwa [(Users.remove_ne hh).xray] at hf
  believed := by
    intro id' c hf believed
    rcases u.expireOne_cases now outcome id with eq | ⟨lease, -, -, eq⟩
    · rwa [eq]
    · rw [eq] at hf ⊢
      by_cases hh : id' = id
      · subst hh
        exact Users.remove_believed hf believed
      · rwa [(Users.remove_ne hh).installed]

theorem Users.expireLocal_fades (u : Users) (now : Time) (outcome : String → Outcome) :
    Fades u (u.expireLocal now outcome) now now := by
  unfold Users.expireLocal
  generalize u.installed.keys = ids
  induction ids generalizing u with
  | nil => exact .tick u (le_refl now)
  | cons id ids ih => exact (u.expireOne_fades now outcome id).trans (ih _)

/-! ### Exact sets -/

/-- Xray accepts exactly the unexpired leases of the answer, apart from those whose local expiry has passed
    since. -/
def Exact (u : Users) (clock : Time) (p : Poll) : Prop :=
  (∀ e ∈ p.unexpired, u.xray.lookup (leaseEmail e.id) = some e.credential ∨ p.localExpiry e ≤ clock) ∧
  ∀ id c, u.xray.lookup (leaseEmail id) = some c → ∃ e ∈ p.unexpired, e.id = id ∧ e.credential = c

structure SettledSet (u : Users) (clock : Time) (p : Poll) : Prop where
  settled : ∀ e ∈ p.unexpired, Settled u clock p e
  noOther : ∀ id c, u.xray.lookup (leaseEmail id) = some c → id ∈ p.desired

namespace SettledSet
variable {u : Users} {clock : Time} {p : Poll}

theorem exact (h : SettledSet u clock p) : Exact u clock p := by
  constructor
  · intro e member
    rcases (h.settled e member).2 with ⟨there, -⟩ | ⟨expired, -⟩
    · exact .inl there
    · exact .inr expired
  · intro id c found
    obtain ⟨e, member, rfl⟩ := List.mem_map.mp (h.noOther id c found)
    refine ⟨e, member, rfl, ?_⟩
    rcases (h.settled e member).2 with ⟨there, -⟩ | ⟨-, same⟩
    · exact Option.some.inj (there.symm.trans found)
    · exact (same c found).symm

theorem fade {u' : Users} {clock' : Time} (h : SettledSet u clock p) (hfa : Fades u u' clock clock') :
    SettledSet u' clock' p where
  settled := fun e hm => hfa.settled p e (h.settled e hm)
  noOther := fun id c hf => h.noOther id c (hfa.sub id c hf)

end SettledSet

/-! ### The invariant of a worker -/

/-- An install meets a lease on which belief and Xray agree, and when the removals are listed each lease user of Xray
    is believed installed or in the answer. -/
def Trusted (w : Worker) : Prop :=
  match w.phase with
  | .installing p (e :: _) _ => 0 < p.remaining e → w.users.Agrees e
  | .installing p [] _ => ∀ id c, w.users.xray.lookup (leaseEmail id) = some c →
      (w.users.installed.lookup id).isSome ∨ id ∈ p.desired
  | _ => True

def AppliedExactly (u : Users) (clock : Time) (set : Option Poll) (revision : Nat) : Prop :=
  ∃ p, set = some p ∧ p.resp.revision = revision ∧ SettledSet u clock p

/-- What holds in each phase. A set that is still to be acknowledged is settled, a reconcile has settled the entries
    it is done with, and while draining an acknowledgement waits for a full fetch. -/
def Worker.InvAt (phase : Phase) (sync : LeaseSync) (u : Users) (clock : Time) (set : Option Poll) : Prop :=
  match phase with
  | .idle => sync.active = true → sync.pendingAck = true → sync.full = false → AppliedExactly u clock set sync.applied
  | .draining _ => sync.active = true → sync.full = true
  | .opened _ => sync.pendingAck = true → sync.full = false → AppliedExactly u clock set sync.applied
  | .retrying _ _ revision => AppliedExactly u clock set revision ∧ sync.applied = revision
  | .polling _ _ _ _ => sync.pendingAck = true → sync.full = true
  | .installing p todo ok => (sync.pendingAck = true → sync.full = true) ∧ (p.resp.leases.map LeaseEntry.id).Nodup ∧
      ∃ done, p.resp.leases = done ++ todo ∧ (ok = true → ∀ e ∈ done, 0 < p.remaining e → Settled u clock p e)
  | .removing p todo ok => (sync.pendingAck = true → sync.full = true) ∧ (∀ id ∈ todo, id ∉ p.desired) ∧
      (ok = true → (∀ e ∈ p.unexpired, Settled u clock p e) ∧
        ∀ id c, u.xray.lookup (leaseEmail id) = some c →
          id ∈ p.desired ∨ (id ∈ todo ∧ (u.installed.lookup id).isSome))
  | .acking _ _ revision => AppliedExactly u clock set revision ∧ sync.applied = revision

def Worker.Inv (w : Worker) : Prop := Worker.InvAt w.phase w.sync w.users w.clock w.appliedSet

theorem AppliedExactly.fade {u u' : Users} {clock clock' : Time} {set : Option Poll} {revision : Nat}
    (h : AppliedExactly u clock set revision) (hfa : Fades u u' clock clock') :
    AppliedExactly u' clock' set revision := by
  obtain ⟨p, eq, hsa, hs⟩ := h
  exact ⟨p, eq, hsa, hs.fade hfa⟩

theorem Worker.InvAt.fade {phase : Phase} {sync : LeaseSync} {u u' : Users} {clock clock' : Time} {set : Option Poll}
    (h : Worker.InvAt phase sync u clock set) (hfa : Fades u u' clock clock') :
    Worker.InvAt phase sync u' clock' set := by
  cases phase with
  | idle => exact fun hac hp hi => (h hac hp hi).fade hfa
  | draining todo => exact h
  | opened session => exact fun hp hi => (h hp hi).fade hfa
  | retrying id token revision => exact ⟨h.1.fade hfa, h.2⟩
  | polling id token full applied => exact h
  | installing p todo ok =>
    obtain ⟨hfl, hd, done, hsp, hs⟩ := h
    exact ⟨hfl, hd, done, hsp, fun hg e hm hle => hfa.settled p e (hs hg e hm hle)⟩
  | removing p todo ok =>
    obtain ⟨hfl, ho, hre⟩ := h
    refine ⟨hfl, ho, fun hg => ⟨fun e hm => hfa.settled p e ((hre hg).1 e hm), ?_⟩⟩
    intro id c hf
    rcases (hre hg).2 id c (hfa.sub id c hf) with hw | ⟨hli, hb⟩
    · exact .inl hw
    · exact .inr ⟨hli, hfa.believed id c hf hb⟩
  | acking id token revision => exact ⟨h.1.fade hfa, h.2⟩

theorem Worker.InvAt.setActive {phase : Phase} {sync : LeaseSync} {u : Users} {clock : Time} {set : Option Poll}
    (h : Worker.InvAt phase sync u clock set) (active : Bool) : Worker.InvAt phase (sync.setActive active) u clock set := by
  cases active with
  | true =>
    cases phase with
    | installing p todo ok => exact ⟨fun _ => rfl, h.2⟩
    | removing p todo ok => exact ⟨fun _ => rfl, h.2⟩
    | retrying id token revision => exact h
    | acking id token revision => exact h
    | idle => exact fun _ hp => by cases hp
    | opened session => exact fun hp => by cases hp
    | draining todo => exact fun _ => rfl
    | polling id token full applied => exact fun _ => rfl
  | false =>
    cases phase with
    | idle => exact fun on => by cases on
    | draining todo => exact fun on => by cases on
    | _ => exact h

theorem LeaseSync.beginCycle_cases (l : LeaseSync) (generation : Nat) :
    l.beginCycle generation = l ∨
      ((l.beginCycle generation).full = true ∧ (l.beginCycle generation).pendingAck = false) := by
  unfold LeaseSync.beginCycle
  split
  · exact .inl rfl
  · exact .inr ⟨rfl, rfl⟩

theorem LeaseSync.beginCycle_applied (l : LeaseSync) (generation : Nat) :
    (l.beginCycle generation).applied = l.applied := by
  unfold LeaseSync.beginCycle
  split <;> rfl

theorem Worker.install_settles {u : Users} {clock : Time} {p : Poll} {done todo : List LeaseEntry} {e : LeaseEntry}
    {removal addition : Outcome} (hd : (p.resp.leases.map LeaseEntry.id).Nodup)
    (hsp : p.resp.leases = done ++ e :: todo)
    (hs : ∀ e' ∈ done, 0 < p.remaining e' → Settled u clock p e') (ha : u.Agrees e)
    (ok : (u.install e (p.localExpiry e) removal addition).2 = true) :
    ∀ e' ∈ done ++ [e], 0 < p.remaining e' →
      Settled (u.install e (p.localExpiry e) removal addition).1 clock p e' := by
  intro e' hm hle
  rcases List.mem_append.mp hm with hbe | hla
  · have ne : e'.id ≠ e.id := by
      rw [hsp, List.map_append, List.nodup_append] at hd
      exact hd.2.2 e'.id (List.mem_map_of_mem hbe) e.id (by simp)
    exact (hs e' hbe hle).frame (Users.install_ne ne)
  · obtain rfl := List.mem_singleton.mp hla
    obtain ⟨hin, ht, hr⟩ := Users.install_ok ha ok
    exact ⟨hr, .inl ⟨ht, hin⟩⟩

theorem Worker.Inv.settledSet {w : Worker} {p : Poll} (inv : w.Inv) (hh : w.phase = .removing p [] true) :
    SettledSet w.users w.clock p := by
  rw [Worker.Inv, hh] at inv
  obtain ⟨hs, hx⟩ := inv.2.2 rfl
  exact ⟨hs, fun id c hf => (hx id c hf).resolve_right fun hli => absurd hli.1 List.not_mem_nil⟩

theorem Worker.Inv.step {may : Outcome → Prop} {w w' : Worker} {label : Label} (inv : w.Inv) (htr : Trusted w)
    (hst : Worker.Step may w label w') : w'.Inv := by
  unfold Worker.Inv at inv ⊢
  cases hst with
  | tick t hlt => exact inv.fade (.tick _ hlt)
  | sweep outcome hpo => exact inv.fade (w.users.expireLocal_fades w.clock outcome)
  | newSession id token => exact inv
  | setActive active => exact inv.setActive active
  | drain hh hia =>
    show w.sync.active = true → w.sync.full = true
    intro active
    rw [hia] at active
    cases active
  | drainOne hh outcome hpo =>
    rw [hh] at inv
    exact inv
  | drained hh =>
    rw [hh] at inv
    intro active _ hi
    rw [inv active] at hi
    cases hi
  | openSession hh active hk =>
    rw [hh] at inv
    exact fun hp hi => inv active hp hi
  | retry hh hp hi =>
    rw [hh] at inv
    refine ⟨?_, rfl⟩
    rcases w.sync.beginCycle_cases _ with hsa | ⟨hfu, -⟩
    · rw [hsa] at hp hi ⊢
      exact inv hp hi
    · rw [hfu] at hi
      cases hi
  | poll hh hn => exact hn
  | retryConfirmed hh =>
    rw [hh] at inv
    show (w.sync.confirmAck _).pendingAck = true → _
    rw [LeaseSync.confirmAck, if_pos inv.2]
    intro hp
    cases hp
  | retryFailed hh notFound =>
    rw [hh] at inv
    intro _ _ _
    show AppliedExactly w.users w.clock w.appliedSet w.sync.applied
    rw [inv.2]
    exact inv.1
  | answer hh resp hd =>
    rw [hh] at inv
    exact ⟨inv, hd, [], rfl, fun _ _ hm => absurd hm List.not_mem_nil⟩
  | pollFailed hh notFound =>
    rw [hh] at inv
    intro _ hp hi
    have hfu := inv hp
    simp [Worker.brokerError, hfu] at hi
  | @skip poll entry todo ok hh he =>
    rw [hh] at inv
    obtain ⟨hfl, hd, done, hsp, hs⟩ := inv
    refine ⟨hfl, hd, done ++ [entry], by rw [hsp, List.append_assoc]; rfl, fun hg e hm hle => ?_⟩
    rcases List.mem_append.mp hm with hbe | hla
    · exact hs hg e hbe hle
    · obtain rfl := List.mem_singleton.mp hla
      exact absurd hle (not_lt.mpr he)
  | @install poll entry todo ok hh hu removal addition hpo =>
    rw [Trusted, hh] at htr
    rw [hh] at inv
    obtain ⟨hfl, hd, done, hsp, hs⟩ := inv
    refine ⟨hfl, hd, done ++ [entry], by rw [hsp, List.append_assoc]; rfl, fun hg => ?_⟩
    obtain ⟨hg, hc⟩ := Bool.and_eq_true_iff.mp hg
    exact Worker.install_settles hd hsp (hs hg) (htr hu) hc
  | @startRemoving poll ok hh =>
    rw [Trusted, hh] at htr
    rw [hh] at inv
    obtain ⟨hfl, hd, done, hsp, hs⟩ := inv
    rw [List.append_nil] at hsp
    refine ⟨hfl, fun id hm => by simpa using (List.mem_filter.mp hm).2, fun hg => ⟨fun e hm => ?_, ?_⟩⟩
    · obtain ⟨hm, hle⟩ := List.mem_filter.mp hm
      exact hs hg e (hsp ▸ hm) (by simpa using hle)
    · intro id c hf
      by_cases hw : id ∈ poll.desired
      · exact .inl hw
      · have hb := (htr id c hf).resolve_right hw
        refine .inr ⟨List.mem_filter.mpr ⟨?_, by simpa using hw⟩, hb⟩
        exact AList.mem_keys.mpr (AList.lookup_isSome.mp hb)
  | @removeOne poll id todo ok hh outcome hpo =>
    rw [hh] at inv
    obtain ⟨hfl, ho, hre⟩ := inv
    refine ⟨hfl, fun id' hm => ho id' (List.mem_cons_of_mem _ hm), fun hg => ?_⟩
    obtain ⟨hg, hc⟩ := Bool.and_eq_true_iff.mp hg
    obtain ⟨hs, hx⟩ := hre hg
    constructor
    · intro e hm
      have ne : e.id ≠ id := fun hsa => ho id List.mem_cons_self (hsa ▸ List.mem_map_of_mem hm)
      exact (hs e hm).frame (Users.remove_ne ne)
    · intro id' c hf
      by_cases hsa : id' = id
      · -- The removal succeeded, so a lease that was believed is gone.
        subst hsa
        rcases hx id' c (Users.remove_sub hf) with hw | ⟨-, hb⟩
        · exact .inl hw
        · rw [(Users.remove_ok hc).2 hb] at hf
          cases hf
      · rw [(Users.remove_ne hsa).xray] at hf
        rw [(Users.remove_ne hsa).installed]
        rcases hx id' c hf with hw | ⟨hli, hb⟩
        · exact .inl hw
        · exact .inr ⟨(List.mem_cons.mp hli).resolve_left hsa, hb⟩
  | reconcileFailed hh =>
    intro _ _ hi
    cases hi
  | @finishAcking poll hh hp =>
    show Worker.InvAt (if _ then _ else _) _ _ _ _
    rw [if_pos hp]
    exact ⟨⟨poll, rfl, rfl, Worker.Inv.settledSet (w := w) inv hh⟩, rfl⟩
  | @finishQuiet poll hh hn =>
    show Worker.InvAt (if _ then _ else _) _ _ _ _
    rw [if_neg (by simpa using hn)]
    intro _ hp _
    rw [show (w.finish poll).sync = w.sync.finishCycle poll.full poll.resp.revision from rfl, hn] at hp
    cases hp
  | ackConfirmed hh =>
    rw [hh] at inv
    intro _ hp _
    simp [LeaseSync.confirmAck, inv.2] at hp
  | ackFailed hh notFound =>
    rw [hh] at inv
    intro _ _ _
    show AppliedExactly w.users w.clock w.appliedSet w.sync.applied
    rw [inv.2]
    exact inv.1

/-! ### Runs -/

/-- Xray calls may end in any way; the states meet `condition` before each step. -/
def Worker.Runs (condition : Worker → Prop) : Worker → Worker → Prop :=
  Relation.ReflTransGen fun w w' => condition w ∧ ∃ label, Worker.Step (fun _ => True) w label w'

theorem Worker.Inv.run {w w' : Worker} (inv : w.Inv) (run : Worker.Runs Trusted w w') : w'.Inv := by
  induction run with
  | refl => exact inv
  | tail _ hst ih => exact ih.step hst.1 hst.2.choose_spec

theorem Worker.Inv.start (clock : Time) : Worker.Inv { clock } :=
  fun hac => by cases hac

theorem acked_set_is_exact {start : Time} {w w' : Worker} {id token : String} {revision : Nat}
    (run : Worker.Runs Trusted { clock := start } w)
    (ack : Worker.Step (fun _ => True) w (.acked id token revision) w') :
    ∃ p, w'.appliedSet = some p ∧ p.resp.revision = revision ∧ Exact w'.users w'.clock p := by
  have inv := (Worker.Inv.start start).run run
  have htr : Trusted w := by
    cases ack with
    | retry hh => rw [Trusted, hh]; trivial
    | finishAcking hh => rw [Trusted, hh]; trivial
  have haf := inv.step htr ack
  have hap : AppliedExactly w'.users w'.clock w'.appliedSet revision := by
    cases ack with
    | retry hh hp hi => exact haf.1
    | @finishAcking poll hh hp =>
      rw [Worker.Inv, show (w.finish poll).phase = .acking poll.id poll.token poll.resp.revision from if_pos hp] at haf
      exact haf.1
  obtain ⟨p, eq, hsa, hs⟩ := hap
  exact ⟨p, eq, hsa, hs.exact⟩

/-! ### A belief that is wrong -/

def firstPoll : Worker where
  clock := 0
  session := { id := "relay_a", token := "token_1", generation := 1 }
  sync := { generation := 1, active := true }
  phase := .polling "relay_a" "token_1" true 0

theorem firstPoll_run : Worker.Runs Trusted { clock := 0 } firstPoll := by
  have run : Worker.Runs Trusted { clock := 0 } { clock := 0 } := .refl
  have run := run.tail ⟨trivial, _, .newSession "relay_a" "token_1"⟩
  have run := run.tail ⟨trivial, _, .setActive true⟩
  have run := run.tail ⟨trivial, _, .openSession rfl rfl (by decide)⟩
  have run := run.tail ⟨trivial, _, .poll rfl (by decide)⟩
  exact run

theorem Worker.Runs.mono {w w' : Worker} (run : Worker.Runs Trusted w w') : Worker.Runs (fun _ => True) w w' :=
  Relation.ReflTransGen.mono (fun _ _ hst => ⟨trivial, hst.2⟩) _ _ run

def answerAt (serverTime : Time) (full : Bool) (revision : Nat) (leases : List LeaseEntry) : Poll where
  id := "relay_a"
  token := "token_1"
  full := full
  resp := { serverTime, revision, leases }
  receivedAt := serverTime

def leaseUntil (expiresAt : Time) : LeaseEntry := { id := "lease_1", credential := "credential", expiresAt }

/-- A sweep has removed the expired lease and reported an error. The broker has extended the lease, and the reconcile
    has only moved its local expiry. -/
def missingLease : Worker where
  clock := 100
  session := firstPoll.session
  users := { installed := AList.insert "lease_1" ⟨"credential", 200⟩ ∅, recorded := AList.insert "lease_1" 200 ∅ }
  sync := { firstPoll.sync with applied := 1, full := false, announced := true }
  phase := .removing (answerAt 100 false 2 [leaseUntil 200]) [] true
  appliedSet := some (answerAt 0 true 1 [leaseUntil 100])

theorem missingLease_run : Worker.Runs (fun _ => True) { clock := 0 } missingLease := by
  have run := firstPoll_run.mono
  have run := run.tail ⟨trivial, _, .answer rfl { serverTime := 0, revision := 1, leases := [leaseUntil 100] } (by decide)⟩
  have run := run.tail ⟨trivial, _, .install rfl (by decide) .ok .ok (by simp)⟩
  have run := run.tail ⟨trivial, _, .startRemoving rfl⟩
  have run := run.tail ⟨trivial, _, .finishAcking rfl rfl⟩
  have run := run.tail ⟨trivial, _, .ackConfirmed rfl⟩
  have run := run.tail ⟨trivial, _, .tick 100 (by decide)⟩
  have run := run.tail ⟨trivial, _, .sweep (fun _ => .ambiguous) (by simp)⟩
  have run := run.tail ⟨trivial, _, .openSession rfl rfl (by decide)⟩
  have run := run.tail ⟨trivial, _, .poll rfl (by decide)⟩
  have run := run.tail ⟨trivial, _, .answer rfl { serverTime := 100, revision := 2, leases := [leaseUntil 200] } (by decide)⟩
  have run := run.tail ⟨trivial, _, .install rfl (by decide) .ok .ok (by simp)⟩
  exact run.tail ⟨trivial, _, .startRemoving rfl⟩

/-- An addition has reported an error after Xray took the user. The broker has revoked the lease, and the reconcile
    has found nothing to remove. -/
def surplusLease : Worker where
  clock := 0
  session := firstPoll.session
  users := { xray := AList.insert (leaseEmail "lease_1") "credential" ∅ }
  sync := firstPoll.sync
  phase := .removing (answerAt 0 true 2 []) [] true

theorem surplusLease_run : Worker.Runs (fun _ => True) { clock := 0 } surplusLease := by
  have run := firstPoll_run.mono
  have run := run.tail ⟨trivial, _, .answer rfl { serverTime := 0, revision := 1, leases := [leaseUntil 100] } (by decide)⟩
  have run := run.tail ⟨trivial, _, .install rfl (by decide) .ok .ambiguous (by simp)⟩
  have run := run.tail ⟨trivial, _, .startRemoving rfl⟩
  have run := run.tail ⟨trivial, _, .reconcileFailed rfl⟩
  have run := run.tail ⟨trivial, _, .openSession rfl rfl (by decide)⟩
  have run := run.tail ⟨trivial, _, .poll rfl (by decide)⟩
  have run := run.tail ⟨trivial, _, .answer rfl { serverTime := 0, revision := 2, leases := [] } (by decide)⟩
  exact run.tail ⟨trivial, _, .startRemoving rfl⟩

/-- One worker acknowledges a lease that Xray lacks before its local expiry, the other has a lease that is not in the
    set. -/
theorem ambiguous_call_breaks_exactness :
    (∃ w', Worker.Runs (fun _ => True) { clock := 0 } missingLease ∧
      Worker.Step (fun _ => True) missingLease (.acked "relay_a" "token_1" 2) w' ∧
      w'.appliedSet = some (answerAt 100 false 2 [leaseUntil 200]) ∧
      w'.clock < (answerAt 100 false 2 [leaseUntil 200]).localExpiry (leaseUntil 200) ∧
      w'.users.xray.lookup (leaseEmail "lease_1") = none) ∧
    ∃ w', Worker.Runs (fun _ => True) { clock := 0 } surplusLease ∧
      Worker.Step (fun _ => True) surplusLease (.acked "relay_a" "token_1" 2) w' ∧
      w'.appliedSet = some (answerAt 0 true 2 []) ∧
      w'.users.xray.lookup (leaseEmail "lease_1") = some "credential" := by
  constructor
  · refine ⟨missingLease.finish (answerAt 100 false 2 [leaseUntil 200]), missingLease_run, ?_, ?_, ?_, ?_⟩
    · exact @Worker.Step.finishAcking _ missingLease (answerAt 100 false 2 [leaseUntil 200]) rfl rfl
    all_goals decide
  · refine ⟨surplusLease.finish (answerAt 0 true 2 []), surplusLease_run, ?_, ?_, ?_⟩
    · exact @Worker.Step.finishAcking _ surplusLease (answerAt 0 true 2 []) rfl rfl
    all_goals decide

def retriedLease : Worker where
  clock := 0
  session := firstPoll.session
  users :=
    { installed := AList.insert "lease_1" ⟨"credential", 100⟩ ∅
      xray := AList.insert (leaseEmail "lease_1") "credential" ∅
      recorded := AList.insert "lease_1" 100 ∅ }
  sync := firstPoll.sync
  phase := .removing (answerAt 0 true 1 [leaseUntil 100]) [] true

theorem retriedLease_run : Worker.Runs Trusted { clock := 0 } retriedLease := by
  have hon : ∀ id c, ((∅ : Xray).insert (leaseEmail "lease_1") "credential").lookup (leaseEmail id) = some c →
      id = "lease_1" := by
    intro id c hf
    by_contra hot
    rw [AList.lookup_insert_ne fun hsa => hot (leaseEmail_inj.mp hsa)] at hf
    cases hf
  have run := firstPoll_run
  have run := run.tail ⟨trivial, _, .answer rfl { serverTime := 0, revision := 1, leases := [leaseUntil 100] } (by decide)⟩
  have run := run.tail ⟨fun _ _ hf => (by cases hf), _, .install rfl (by decide) .ok .ambiguous (by simp)⟩
  have run := run.tail ⟨fun id c hf => .inr (List.mem_singleton.mpr (hon id c hf)), _, .startRemoving rfl⟩
  have run := run.tail ⟨trivial, _, .reconcileFailed rfl⟩
  have run := run.tail ⟨trivial, _, .openSession rfl rfl (by decide)⟩
  have run := run.tail ⟨trivial, _, .poll rfl (by decide)⟩
  have run := run.tail ⟨trivial, _, .answer rfl { serverTime := 0, revision := 1, leases := [leaseUntil 100] } (by decide)⟩
  have run := run.tail ⟨fun _ _ hf => (Option.some.inj hf).symm, _, .install rfl (by decide) .ok .ok (by simp)⟩
  exact run.tail ⟨fun id c hf => .inr (List.mem_singleton.mpr (hon id c hf)), _, .startRemoving rfl⟩

theorem acked_set_is_exact_retried :
    ∃ p, (retriedLease.finish (answerAt 0 true 1 [leaseUntil 100])).appliedSet = some p ∧ p.resp.revision = 1 ∧
      Exact retriedLease.users 0 p :=
  acked_set_is_exact retriedLease_run
    (@Worker.Step.finishAcking _ retriedLease (answerAt 0 true 1 [leaseUntil 100]) rfl rfl)

end OpenRung.Relay
