import OpenRung.Theorems.History
import OpenRung.Theorems.Mirror
import OpenRung.Theorems.Session

/-! Lease synchronisation end to end: what the broker counts as applied is what the relay's Xray accepts. The relay
    covers the revision of the last set it has applied, and nothing the broker may still hear of is beyond that
    revision. -/

namespace OpenRung
open Broker Relay

namespace Relay

/-! ### What a step of the worker changes -/

def Worker.pending (w : Worker) : Option Poll :=
  match w.phase with
  | .installing p _ _ => some p
  | .removing p _ _ => some p
  | _ => none

theorem Poll.expired_of_remaining {p : Poll} {e : LeaseEntry} (hlt : p.remaining e ≤ 0) :
    e.expiresAt ≤ p.resp.serverTime := by
  unfold Poll.remaining at hlt
  lia

namespace Worker
variable {may : Outcome → Prop} {w w' : Worker} {label : Label}

theorem Step.users_cases (hst : Step may w label w') :
    (w'.users = w.users ∧ w.clock ≤ w'.clock) ∨
    w'.clock = w.clock ∧
      ((∃ outcome, (∀ id, may (outcome id)) ∧ w'.users = w.users.expireLocal w.clock outcome) ∨
      (∃ p e todo ok removal addition, w.phase = .installing p (e :: todo) ok ∧ may removal ∧ may addition ∧
        w'.users = (w.users.install e (p.localExpiry e) removal addition).1) ∨
      (∃ p id todo ok outcome, w.phase = .removing p (id :: todo) ok ∧ may outcome ∧
        w'.users = (w.users.remove id outcome).1) ∨
      ∃ todo, w.phase = .draining todo) := by
  cases hst with
  | tick t hla => exact .inl ⟨rfl, hla⟩
  | sweep outcome hpo => exact .inr ⟨rfl, .inl ⟨outcome, hpo, rfl⟩⟩
  | install hh hue removal addition hpo =>
    exact .inr ⟨rfl, .inr (.inl ⟨_, _, _, _, removal, addition, hh, hpo.1, hpo.2, rfl⟩)⟩
  | removeOne hh outcome hpo => exact .inr ⟨rfl, .inr (.inr (.inl ⟨_, _, _, _, outcome, hh, hpo, rfl⟩))⟩
  | drainOne hh => exact .inr ⟨rfl, .inr (.inr (.inr ⟨_, hh⟩))⟩
  | _ => exact .inl ⟨rfl, le_refl _⟩

theorem finish_cases (w : Worker) (p : Poll) :
    (w.finish p).phase = .idle ∨ (w.finish p).phase = .acking p.id p.token p.resp.revision := by
  unfold finish
  simp only
  split
  · exact .inr rfl
  · exact .inl rfl

theorem finish_pending (w : Worker) (p : Poll) : (w.finish p).pending = none ∧ (w.finish p).polling = false := by
  unfold pending polling
  rcases w.finish_cases p with eq | eq <;> rw [eq] <;> exact ⟨rfl, rfl⟩

theorem Step.applied_cases (hst : Step may w label w') :
    w'.sync.applied = w.sync.applied ∨
    ∃ p, w.phase = .removing p [] true ∧ w'.sync.applied = p.resp.revision ∧ w'.users = w.users ∧ w'.clock = w.clock ∧
      w'.pending = none ∧ w'.polling = false := by
  cases hst with
  | setActive active => cases active <;> exact .inl rfl
  | retry hh => exact .inl (w.sync.beginCycle_applied _)
  | poll hh => exact .inl (w.sync.beginCycle_applied _)
  | finishAcking hh => exact .inr ⟨_, hh, rfl, rfl, rfl, w.finish_pending _⟩
  | finishQuiet hh => exact .inr ⟨_, hh, rfl, rfl, rfl, w.finish_pending _⟩
  | _ => exact .inl rfl

theorem Step.appliedSet_cases (hst : Step may w label w') {p : Poll} (hap : w'.appliedSet = some p) :
    w.appliedSet = some p ∨ w.pending = some p := by
  cases hst with
  | finishAcking hh => exact .inr (by rw [← hap, pending, hh]; rfl)
  | finishQuiet hh => exact .inr (by rw [← hap, pending, hh]; rfl)
  | _ => exact .inl hap

def AppliedIs (w : Worker) : Prop :=
  match w.appliedSet with
  | none => w.sync.applied = 0
  | some p => p.resp.revision = w.sync.applied

theorem AppliedIs.step (h : w.AppliedIs) (hst : Step may w label w') : w'.AppliedIs := by
  unfold AppliedIs at *
  cases hst with
  | setActive active => cases active <;> exact h
  | retry hh =>
    simp only [LeaseSync.beginCycle_applied]
    exact h
  | poll hh =>
    simp only [LeaseSync.beginCycle_applied]
    exact h
  | finishAcking hh => rfl
  | finishQuiet hh => rfl
  | _ => exact h

theorem Step.pending_cases (hst : Step may w label w') {p : Poll} (hp : w'.pending = some p) :
    w.pending = some p ∨ label = .answered p := by
  cases hst with
  | answer hh => exact .inr (congrArg Label.answered (Option.some.inj hp))
  | skip hh => exact .inl (by rw [← hp, Worker.pending, hh]; rfl)
  | install hh => exact .inl (by rw [← hp, Worker.pending, hh]; rfl)
  | startRemoving hh => exact .inl (by rw [← hp, Worker.pending, hh]; rfl)
  | removeOne hh => exact .inl (by rw [← hp, Worker.pending, hh]; rfl)
  | finishAcking hh => cases (w.finish_pending _).1.symm.trans hp
  | finishQuiet hh => cases (w.finish_pending _).1.symm.trans hp
  | tick => exact .inl hp
  | sweep => exact .inl hp
  | newSession => exact .inl hp
  | setActive => exact .inl hp
  | _ => cases hp

theorem Step.acked (hst : Step may w label w') {id token : String} {revision : Nat}
    (ack : label = .acked id token revision) : revision = w'.sync.applied := by
  cases hst with
  | retry hh => exact (Label.acked.inj ack).2.2.symm
  | finishAcking hh => exact (Label.acked.inj ack).2.2.symm
  | _ => cases ack

end Worker

/-! ### Names -/

def Phase.Named (r : String) (given : String → Prop) : Phase → Prop
  | .idle => True
  | .draining _ => False
  | .opened session => session.id = r ∧ given session.token
  | .retrying id token _ => id = r ∧ given token
  | .polling id token _ _ => id = r ∧ given token
  | .installing p _ _ => p.id = r ∧ given p.token
  | .removing p _ _ => p.id = r ∧ given p.token
  | .acking id token _ => id = r ∧ given token

structure Worker.Named (r : String) (given : String → Prop) (w : Worker) : Prop where
  session : w.session.id ≠ "" → w.session.id = r ∧ given w.session.token
  phase : w.phase.Named r given
  active : w.sync.active = true

namespace Worker.Named
variable {r : String} {given given' : String → Prop} {w w' : Worker}

theorem mono (h : w.Named r given) (sub : ∀ token, given token → given' token) : w.Named r given' where
  session := fun hk => ⟨(h.session hk).1, sub _ (h.session hk).2⟩
  phase := by
    have phase := h.phase
    cases hh : w.phase with
    | idle => trivial
    | draining todo => rwa [hh] at phase
    | _ =>
      rw [hh] at phase
      exact ⟨phase.1, sub _ phase.2⟩
  active := h.active

theorem learn (h : w.Named r given) {token : String} (hk : given token) :
    Worker.Named r given { w with session := w.session.set r token } where
  session := by
    intro hn
    unfold LeaseSession.set at hn ⊢
    split
    · next hsa => exact ⟨hsa.1.symm, hsa.2 ▸ hk⟩
    · exact ⟨rfl, hk⟩
  phase := h.phase
  active := h.active

theorem step {may : Outcome → Prop} {label : Label} (h : w.Named r given) (hst : Worker.Step may w label w')
    (hss : w'.session = w.session) (hac : w'.sync.active = true) :
    w'.Named r given ∧ ∀ id token revision, label = .acked id token revision → given token := by
  suffices hph : w'.phase.Named r given ∧ ∀ id token revision, label = .acked id token revision → given token from
    ⟨⟨hss ▸ h.session, hph.1, hac⟩, hph.2⟩
  have hb := h.phase
  cases hst with
  | drain hh hin => cases h.active.symm.trans hin
  | drainOne hh => rw [hh] at hb; exact absurd hb id
  | drained hh => rw [hh] at hb; exact absurd hb id
  | openSession hh hac hk => exact ⟨h.session hk.1, fun _ _ _ ack => by cases ack⟩
  | retry hh =>
    rw [hh] at hb
    exact ⟨hb, fun _ _ _ ack => (Label.acked.inj ack).2.1 ▸ hb.2⟩
  | @finishAcking p hh =>
    rw [hh] at hb
    refine ⟨?_, fun _ _ _ ack => (Label.acked.inj ack).2.1 ▸ hb.2⟩
    rcases w.finish_cases p with eq | eq <;> rw [eq]
    · trivial
    · exact hb
  | @finishQuiet p hh =>
    rw [hh] at hb
    refine ⟨?_, fun _ _ _ ack => by cases ack⟩
    rcases w.finish_cases p with eq | eq <;> rw [eq]
    · trivial
    · exact hb
  | tick => exact ⟨hb, fun _ _ _ ack => by cases ack⟩
  | sweep => exact ⟨hb, fun _ _ _ ack => by cases ack⟩
  | newSession => exact ⟨hb, fun _ _ _ ack => by cases ack⟩
  | setActive => exact ⟨hb, fun _ _ _ ack => by cases ack⟩
  | retryFailed => exact ⟨trivial, fun _ _ _ ack => by cases ack⟩
  | pollFailed => exact ⟨trivial, fun _ _ _ ack => by cases ack⟩
  | reconcileFailed => exact ⟨trivial, fun _ _ _ ack => by cases ack⟩
  | ackConfirmed => exact ⟨trivial, fun _ _ _ ack => by cases ack⟩
  | ackFailed => exact ⟨trivial, fun _ _ _ ack => by cases ack⟩
  | _ hh =>
    rw [hh] at hb
    exact ⟨hb, fun _ _ _ ack => by cases ack⟩

end Worker.Named

end Relay

namespace System
variable {checks : RegisterChecks} {r : String} {sys sys' : System}

/-! ### Answers -/

/-- It lists the leases of its revision with their credentials, and none that was revoked up to some later time. -/
structure Fair (r : String) (sys : System) (resp : LeaseSyncResponse) : Prop where
  past : resp.serverTime ≤ sys.clock
  revision : resp.revision ≤ sys.store.revision r
  lists : ∀ l, sys.store.leases.lookup l.id = some l → l.relayID = r → l.revokedAt = none → l.revision ≤ resp.revision →
    (∃ e ∈ resp.leases, e.id = l.id ∧ e.credential = l.credential ∧ e.expiresAt = l.expiresAt) ∨
      l.expiresAt ≤ resp.serverTime
  known : ∀ e ∈ resp.leases, ∃ l ∈ sys.seen, l.id = e.id ∧ l.credential = e.credential ∧ l.relayID = r
  unrevoked : ∀ e ∈ resp.leases, ∀ l ∈ sys.seen, l.id = e.id → l.revokedAt ≠ none → resp.revision < l.revision

namespace Fair
variable {resp : LeaseSyncResponse}

theorem serve (hhi : sys.History) {token : String} {t : Time} (past : t ≤ sys.clock) {set : RelayLeaseSet}
    (hra : sys.store.relayLeaseSet r token t = .ok set) : Fair r sys (leaseSyncResponse set t) where
  past := past
  revision := le_of_eq (Store.relayLeaseSet_revision hra)
  lists := by
    intro l hs on unrevoked _
    by_cases hlv : t < l.expiresAt
    · refine .inl ⟨_, List.mem_map_of_mem ?_, rfl, rfl, rfl⟩
      exact (Store.mem_relayLeaseSet hhi.stamped.keyed hra).mpr ⟨hs, on, Lease.live_iff.mpr ⟨unrevoked, hlv⟩⟩
    · exact .inr (not_lt.mp hlv)
  known := by
    intro e hm
    obtain ⟨l, hli, rfl⟩ := List.mem_map.mp hm
    obtain ⟨hs, on, -⟩ := (Store.mem_relayLeaseSet hhi.stamped.keyed hra).mp hli
    exact ⟨l, hhi.stored _ l hs, rfl, rfl, on⟩
  unrevoked := by
    intro e hm l hse id hr
    obtain ⟨l', hli, rfl⟩ := List.mem_map.mp hm
    obtain ⟨hs, -, hlv⟩ := (Store.mem_relayLeaseSet hhi.stamped.keyed hra).mp hli
    exact absurd (Lease.live_iff.mp hlv).1 (hhi.final l hse hr l' (id ▸ hs))

theorem operate (hfa : Fair r sys resp) (hhi : sys.History) (t : Time) {op : Op} (hf : op.Fresh sys.Used) :
    Fair r (sys.setStore (sys.store.apply checks t op).1) resp where
  past := hfa.past
  revision := le_trans hfa.revision (Store.apply_revision_le checks t hhi.stamped.keyed (fun _ => hhi.used) hf r)
  lists := by
    intro l hs on unrevoked old
    have hb := Store.apply_old checks t hhi.stamped.keyed (fun _ => hhi.used) hf hs
      (on ▸ le_trans old hfa.revision)
    exact hfa.lists l hb on unrevoked old
  known := by
    intro e hm
    obtain ⟨l, hse, hrs⟩ := hfa.known e hm
    exact ⟨l, List.mem_append_right _ hse, hrs⟩
  unrevoked := by
    intro e hm l hse id hr
    by_contra old
    obtain ⟨l₀, hsee, id₀, -, on⟩ := hfa.known e hm
    have hrel := ((hhi.operate checks t hf).same l hse l₀ (List.mem_append_right _ hsee) (id.trans id₀.symm)).relayID
    have hb := hhi.seen_old checks t hf hse (by
      rw [hrel, on]
      exact le_trans (not_lt.mp old) hfa.revision)
    exact old (hfa.unrevoked e hm l hb id hr)

theorem quiet (hfa : Fair r sys resp) (hcl : sys.clock ≤ sys'.clock) (hl : sys'.store.leases = sys.store.leases)
    (revision : ∀ r, sys'.store.revision r = sys.store.revision r) (hse : sys'.seen = sys.seen) : Fair r sys' resp where
  past := le_trans hfa.past hcl
  revision := by
    rw [revision]
    exact hfa.revision
  lists := fun l hs => hfa.lists l (hl ▸ hs)
  known := fun e hm => hse ▸ hfa.known e hm
  unrevoked := fun e hm l hme => hfa.unrevoked e hm l (hse ▸ hme)

end Fair

/-! ### Covered revisions -/

/-- The relay's users are what the leases up to revision `n` ask for. -/
structure Covers (r : String) (sys : System) (n : Nat) : Prop where
  held : ∀ l, sys.store.leases.lookup l.id = some l → l.relayID = r → l.revokedAt = none → l.revision ≤ n →
    sys.relay.users.Holds sys.relay.clock l.id l.credential ∨ l.expiresAt ≤ sys.clock
  dropped : ∀ l ∈ sys.seen, l.relayID = r → l.revokedAt ≠ none → l.revision ≤ n →
    sys.relay.users.installed.lookup l.id = none

namespace Covers
variable {n : Nat}

theorem zero (hhi : sys.History) (hf : ∀ id, sys.relay.users.installed.lookup id = none) : Covers r sys 0 where
  held := by
    intro l hs _ _ old
    have := (hhi.stamped.revision l.id l hs).1
    omega
  dropped := fun l _ _ _ _ => hf l.id

theorem operate (hco : Covers r sys n) (hhi : sys.History) (hrc : n ≤ sys.store.revision r) (t : Time) {op : Op}
    (hf : op.Fresh sys.Used) : Covers r (sys.setStore (sys.store.apply checks t op).1) n where
  held := by
    intro l hs on hu old
    have hb := Store.apply_old checks t hhi.stamped.keyed (fun _ => hhi.used) hf hs
      (on ▸ le_trans old hrc)
    exact hco.held l hb on hu old
  dropped := by
    intro l hse on hr old
    exact hco.dropped l (hhi.seen_old checks t hf hse (on ▸ le_trans old hrc)) on hr old

theorem quiet (hco : Covers r sys n) (hcl : sys.clock ≤ sys'.clock) (hl : sys'.store.leases = sys.store.leases)
    (hus : sys'.relay.users = sys.relay.users) (hrl : sys.relay.clock ≤ sys'.relay.clock)
    (hse : sys'.seen = sys.seen) : Covers r sys' n where
  held := by
    intro l hs on hu old
    rcases hco.held l (hl ▸ hs) on hu old with held | he
    · exact .inl (hus ▸ held.later hrl)
    · exact .inr (le_trans he hcl)
  dropped := by
    intro l hm on hr old
    rw [hus]
    exact hco.dropped l (hse ▸ hm) on hr old

end Covers

/-! ### The invariant -/

def Answer (sys : System) (resp : LeaseSyncResponse) : Prop :=
  sys.reply = some resp ∨ ∃ p, sys.relay.pending = some p ∧ p.resp = resp

theorem answer_of_setRelay {may : Outcome → Prop} {relay : Worker} {label : Label}
    (hst : Worker.Step may sys.relay label relay) (han : ∀ poll, label = .answered poll → sys.reply = some poll.resp)
    (resp : LeaseSyncResponse) (ha : (sys.setRelay relay label).Answer resp) :
    sys.Answer resp ∧ (relay.polling = true ∨ relay.pending ≠ none) := by
  rcases ha with hrp | ⟨p, hp, rfl⟩
  · simp only [System.setRelay, Option.ite_none_right_eq_some] at hrp
    exact ⟨.inl hrp.2, .inl hrp.1⟩
  · refine ⟨?_, .inr (by rw [show relay.pending = some p from hp]; simp)⟩
    rcases hst.pending_cases hp with hb | new
    · exact .inr ⟨p, hb, rfl⟩
    · exact .inl (han p new)

structure Inv (r : String) (sys : System) : Prop where
  history : sys.History
  worker : sys.relay.Inv
  named : sys.relay.Named r (· ∈ sys.tokens)
  mirrors : sys.relay.users.Mirrors
  credentials : ∀ id lease, sys.relay.users.installed.lookup id = some lease →
    ∃ l ∈ sys.seen, l.id = id ∧ l.credential = lease.credential
  waiting : sys.reply ≠ none → sys.relay.polling = true
  fair : ∀ resp, sys.Answer resp → Fair r sys resp
  ahead : ∀ resp, sys.Answer resp → sys.relay.sync.applied ≤ resp.revision
  reached : sys.relay.sync.applied ≤ sys.store.revision r
  covers : Covers r sys sys.relay.sync.applied
  applied : sys.store.applied r ≤ sys.relay.sync.applied
  acks : ∀ ack ∈ sys.acks, ack.1 ∈ sys.tokens ∧ (ack.1 ∉ sys.retired → ack.2 ≤ sys.relay.sync.applied)
  current : sys.store.token r = "" ∨ sys.store.token r ∈ sys.tokens ∧ sys.store.token r ∉ sys.retired
  older : ∀ token ∈ sys.retired, token ∈ sys.tokens

theorem Inv.start (clock relayClock : Time) : (start clock relayClock).Inv r where
  history := .start clock relayClock
  worker := fun _ pending => by cases pending
  named := ⟨fun known => absurd rfl known, trivial, rfl⟩
  mirrors := .empty
  credentials := fun _ _ found => by cases found
  waiting := fun some => absurd rfl some
  fair := by
    rintro resp (some | ⟨p, pending, -⟩)
    · cases some
    · cases pending
  ahead := fun _ _ => Nat.zero_le _
  reached := Nat.zero_le _
  covers := .zero (.start clock relayClock) fun _ => rfl
  applied := le_refl 0
  acks := fun _ member => absurd member List.not_mem_nil
  current := .inl rfl
  older := fun _ member => absurd member List.not_mem_nil

namespace Inv
variable (inv : sys.Inv r)
include inv

/-! #### Steps of the broker -/

theorem tick (t : Time) (hla : sys.clock ≤ t) : ({ sys with clock := t } : System).Inv r :=
  { inv with
    history := inv.history.quiet rfl (fun _ => rfl) rfl
    fair := fun resp ha => (inv.fair resp ha).quiet hla rfl (fun _ => rfl) rfl
    covers := inv.covers.quiet hla rfl rfl (le_refl _) rfl }

theorem operate (t : Time) {op : Op} (ho : op.Outside r) (hf : op.Fresh sys.Used) :
    (sys.setStore (sys.store.apply checks t op).1).Inv r := by
  have hss := sys.store.apply_session r checks t ho inv.history.stamped.keyed (fun _ => inv.history.used) hf
  exact { inv with
    history := inv.history.operate checks t hf
    credentials := by
      intro id lease hfo
      obtain ⟨l, hse, hrs⟩ := inv.credentials id lease hfo
      exact ⟨l, List.mem_append_right _ hse, hrs⟩
    fair := fun resp ha => (inv.fair resp ha).operate inv.history t hf
    reached := le_trans inv.reached
      (Store.apply_revision_le checks t inv.history.stamped.keyed (fun _ => inv.history.used) hf r)
    covers := inv.covers.operate inv.history inv.reached t hf
    applied := hss.applied ▸ inv.applied
    current := by
      rcases hss.token with hsa | hg
      · exact hsa ▸ inv.current
      · exact .inl hg }

theorem deliver {token : String} {revision : Nat} (sent : (token, revision) ∈ sys.acks) :
    ({ sys with store := (sys.store.ackLeaseRevision r token revision).1 } : System).Inv r := by
  obtain ⟨hl, hre, -, hry⟩ := sys.store.ackLeaseRevision_frame r token revision
  have ht : (sys.store.ackLeaseRevision r token revision).1.token r = sys.store.token r := by
    unfold Store.token
    rw [hry]
  exact { inv with
    history := inv.history.quiet hl hre rfl
    fair := fun resp ha => (inv.fair resp ha).quiet (le_refl _) hl hre rfl
    reached := le_of_le_of_eq inv.reached (hre r).symm
    covers := inv.covers.quiet (le_refl _) hl rfl (le_refl _) rfl
    applied := by
      show (sys.store.ackLeaseRevision r token revision).1.applied r ≤ _
      unfold Store.ackLeaseRevision
      split
      · next hau =>
        -- Only the current token is let in, and it is not from before a restart.
        obtain ⟨hsa, hn⟩ := Store.token_of_authorized hau
        have hbo := (inv.acks _ sent).2 fun old => by
          rcases inv.current with hg | ⟨-, current⟩
          · exact hn (hsa ▸ hg)
          · exact current (hsa ▸ old)
        simp only [Store.applied, Store.leaseState_setLeaseState, if_true]
        split
        · simpa using hbo
        · exact inv.applied
      · exact inv.applied
    current := ht ▸ inv.current }

theorem register (t : Time) (req : RegisterRequest) (draws : Store.RegisterDraws) (ttl : Duration)
    (hf : ∀ token, draws.leaseToken = some token → token ∉ sys.tokens) :
    ({ sys with
        store := (sys.store.register checks req draws t ttl).1
        tokens := draws.leaseToken.toList ++ sys.tokens } : System).Inv r := by
  obtain ⟨hl, hre, -⟩ := sys.store.register_frame checks req draws t ttl
  have hss := sys.store.register_session r checks req draws t ttl
  exact { inv with
    history := inv.history.quiet hl hre rfl
    named := inv.named.mono fun _ hm => List.mem_append_right _ hm
    fair := fun resp ha => (inv.fair resp ha).quiet (le_refl _) hl hre rfl
    reached := le_of_le_of_eq inv.reached (hre r).symm
    covers := inv.covers.quiet (le_refl _) hl rfl (le_refl _) rfl
    applied := by
      rcases hss with hke | ⟨-, hz⟩
      · exact le_of_eq_of_le hke.applied inv.applied
      · exact le_of_eq_of_le hz (Nat.zero_le _)
    acks := fun ack hm => ⟨List.mem_append_right _ (inv.acks ack hm).1, (inv.acks ack hm).2⟩
    current := by
      rcases hss with ⟨hsa | hg, -⟩ | ⟨hd, -⟩
      · rcases inv.current with hg | ⟨hk, current⟩
        · exact .inl (hsa.trans hg)
        · exact .inr (hsa ▸ ⟨List.mem_append_right _ hk, current⟩)
      · exact .inl hg
      · refine .inr ⟨?_, fun old => hf _ hd (inv.older _ old)⟩
        rw [hd]
        exact List.mem_append_left _ (List.mem_singleton_self _)
    older := fun token hm => List.mem_append_right _ (inv.older token hm) }

theorem restart (t : Time) (req : RegisterRequest) (draws : Store.RegisterDraws) (ttl : Duration) {token : String}
    (fresh : token ∉ sys.tokens)
    (registered : (sys.store.register checks req draws t ttl).1.leaseRelayAuthorized r token) :
    ({ sys with
        store := (sys.store.register checks req draws t ttl).1
        relay := .fresh sys.relay.clock { id := r, token, generation := 1 }
        reply := none
        tokens := token :: sys.tokens
        retired := sys.tokens } : System).Inv r := by
  obtain ⟨leases, revisions, -⟩ := sys.store.register_frame checks req draws t ttl
  obtain ⟨current, named⟩ := Store.token_of_authorized registered
  have zero : (sys.store.register checks req draws t ttl).1.applied r = 0 := by
    rcases sys.store.register_session r checks req draws t ttl with ⟨same | gone, -⟩ | ⟨-, zero⟩
    · rcases inv.current with gone | ⟨known, -⟩
      · exact absurd (current.symm.trans (same.trans gone)) named
      · exact absurd (current ▸ same ▸ known) fresh
    · exact absurd (current.symm.trans gone) named
    · exact zero
  have noAnswer : ∀ resp, ¬ ((none : Option LeaseSyncResponse) = some resp ∨
      ∃ p, (none : Option Poll) = some p ∧ p.resp = resp) := by
    rintro resp (some | ⟨p, some, -⟩) <;> cases some
  have history : ({ sys with store := (sys.store.register checks req draws t ttl).1 } : System).History :=
    inv.history.quiet leases revisions rfl
  exact {
    history := history.quiet rfl (fun _ => rfl) rfl
    worker := fun _ pending => by cases pending
    named := ⟨fun _ => ⟨rfl, List.mem_cons_self⟩, trivial, rfl⟩
    mirrors := .empty
    credentials := fun _ _ found => by cases found
    waiting := fun some => absurd rfl some
    fair := fun resp answer => absurd answer (noAnswer resp)
    ahead := fun _ _ => Nat.zero_le _
    reached := Nat.zero_le _
    covers := .zero (history.quiet rfl (fun _ => rfl) rfl) fun _ => rfl
    applied := le_of_eq zero
    acks := fun ack member => ⟨List.mem_cons_of_mem _ (inv.acks ack member).1, fun old => absurd (inv.acks ack member).1 old⟩
    current := .inr (current.symm ▸ ⟨List.mem_cons_self, fresh⟩)
    older := fun _ member => List.mem_cons_of_mem _ member }

theorem serve {id token : String} {full : Bool} {applied : Nat} (hak : sys.relay.phase = .polling id token full applied)
    {t : Time} (hps : t ≤ sys.clock) {set : RelayLeaseSet} (hra : sys.store.relayLeaseSet id token t = .ok set) :
    ({ sys with reply := some (leaseSyncResponse set t) } : System).Inv r := by
  have hph := inv.named.phase
  rw [hak] at hph
  obtain rfl : id = r := hph.1
  have haw : ∀ resp, ({ sys with reply := some (leaseSyncResponse set t) } : System).Answer resp →
      resp = leaseSyncResponse set t ∨ sys.Answer resp := by
    rintro resp (new | hp)
    · exact .inl (Option.some.inj new).symm
    · exact .inr (.inr hp)
  exact { inv with
    history := inv.history.quiet rfl (fun _ => rfl) rfl
    waiting := fun _ => by
      show Worker.polling sys.relay = true
      unfold Worker.polling
      rw [hak]
    fair := by
      intro resp ha
      rcases haw resp ha with rfl | old
      · exact (Fair.serve inv.history hps hra).quiet (le_refl _) rfl (fun _ => rfl) rfl
      · exact (inv.fair resp old).quiet (le_refl _) rfl (fun _ => rfl) rfl
    ahead := by
      intro resp ha
      rcases haw resp ha with rfl | old
      · exact le_of_le_of_eq inv.reached (Store.relayLeaseSet_revision hra).symm
      · exact inv.ahead resp old
    covers := inv.covers.quiet (le_refl _) rfl rfl (le_refl _) rfl }

theorem learn {token : String} (hgi : token ∈ sys.tokens) :
    ({ sys with relay := { sys.relay with session := sys.relay.session.set r token } } : System).Inv r :=
  { inv with
    history := inv.history.quiet rfl (fun _ => rfl) rfl
    named := inv.named.learn hgi
    fair := fun resp ha => (inv.fair resp ha).quiet (le_refl _) rfl (fun _ => rfl) rfl
    covers := inv.covers.quiet (le_refl _) rfl rfl (le_refl _) rfl }

/-! #### Steps of the relay -/

theorem installing {p : Poll} {e : LeaseEntry} {todo : List LeaseEntry} {ok : Bool}
    (hh : sys.relay.phase = .installing p (e :: todo) ok) :
    e ∈ p.resp.leases ∧ Fair r sys p.resp ∧
      ∀ lease, sys.relay.users.installed.lookup e.id = some lease → lease.credential = e.credential := by
  have hm : e ∈ p.resp.leases := by
    have hw := inv.worker
    rw [Worker.Inv, hh] at hw
    obtain ⟨-, -, done, hsp, -⟩ := hw
    rw [hsp]
    exact List.mem_append_right _ List.mem_cons_self
  have hfa := inv.fair p.resp (.inr ⟨p, by rw [Worker.pending, hh], rfl⟩)
  refine ⟨hm, hfa, fun lease hfo => ?_⟩
  obtain ⟨l, hse, id, hce⟩ := inv.credentials e.id lease hfo
  obtain ⟨l', hsn, id', hcr, -⟩ := hfa.known e hm
  have hsa := (inv.history.same l hse l' hsn (id.trans id'.symm)).credential
  exact hce.symm.trans (hsa.trans hcr)

theorem users_after {relay : Worker} {label : Label} (hst : Worker.Step (· ≠ .ambiguous) sys.relay label relay) :
    relay.users.Mirrors ∧
    ∀ id lease, relay.users.installed.lookup id = some lease →
      ∃ l ∈ sys.seen, l.id = id ∧ l.credential = lease.credential := by
  rcases hst.users_cases with ⟨eq, -⟩ | ⟨-, ⟨outcome, hc, eq⟩ | ⟨p, e, todo, ok, removal, addition, hh, hc, hca, eq⟩ |
    ⟨p, id, todo, ok, outcome, hh, hc, eq⟩ | ⟨todo, hh⟩⟩
  · rw [eq]
    exact ⟨inv.mirrors, inv.credentials⟩
  · rw [eq]
    obtain ⟨hmr, -, sub⟩ := inv.mirrors.expireLocal sys.relay.clock hc
    refine ⟨hmr, fun id lease hfo => ?_⟩
    rcases sub id with hsa | hg
    · exact inv.credentials id lease (hsa ▸ hfo)
    · cases hg.symm.trans hfo
  · rw [eq]
    obtain ⟨hm, hfa, hsa⟩ := inv.installing hh
    refine ⟨inv.mirrors.install e _ ⟨hc, hca⟩, fun id lease hfo => ?_⟩
    rcases sys.relay.users.install_cases (p.localExpiry e) ⟨hc, hca⟩ hsa with ok | hun
    · by_cases hmi : id = e.id
      · obtain ⟨hi, -, -⟩ := Users.install_ok (inv.mirrors.agrees e) ok
        obtain ⟨l, hse, id', hce, -⟩ := hfa.known e hm
        obtain rfl := Option.some.inj (hi.symm.trans (hmi ▸ hfo))
        exact ⟨l, hse, id'.trans hmi.symm, hce⟩
      · exact inv.credentials id lease ((Users.install_ne hmi).installed ▸ hfo)
    · exact inv.credentials id lease (hun ▸ hfo)
  · rw [eq]
    refine ⟨inv.mirrors.remove id hc, fun id' lease hfo => ?_⟩
    rcases sys.relay.users.remove_cases id hc with ok | hun
    · by_cases hmi : id' = id
      · subst hmi
        cases (inv.mirrors.remove_ok ok).1.symm.trans hfo
      · exact inv.credentials id' lease ((Users.remove_ne hmi).installed ▸ hfo)
    · exact inv.credentials id' lease (hun ▸ hfo)
  · have hph := inv.named.phase
    rw [hh] at hph
    exact absurd hph id

theorem covers_after {relay : Worker} {label : Label} (hst : Worker.Step (· ≠ .ambiguous) sys.relay label relay) :
    Covers r (sys.setRelay relay label) sys.relay.sync.applied := by
  rcases hst.users_cases with ⟨eq, hla⟩ | ⟨hcl, ⟨outcome, hc, eq⟩ |
    ⟨p, e, todo, ok, removal, addition, hh, hc, hca, eq⟩ | ⟨p, id, todo, ok, outcome, hh, hc, eq⟩ | ⟨todo, hh⟩⟩
  · exact inv.covers.quiet (le_refl _) rfl eq hla rfl
  · obtain ⟨-, hhe, sub⟩ := inv.mirrors.expireLocal sys.relay.clock hc
    constructor
    · intro l hs on hu old
      refine (inv.covers.held l hs on hu old).imp_left fun h => ?_
      show relay.users.Holds relay.clock l.id l.credential
      rw [eq, hcl]
      exact hhe _ _ h
    · intro l hse on hr old
      show relay.users.installed.lookup l.id = none
      rw [eq]
      rcases sub l.id with hsa | hg
      · rw [hsa]
        exact inv.covers.dropped l hse on hr old
      · exact hg
  · obtain ⟨hm, hfa, hsa⟩ := inv.installing hh
    have hah := inv.ahead p.resp (.inr ⟨p, by rw [Worker.pending, hh], rfl⟩)
    constructor
    · intro l hs on hu old
      refine (inv.covers.held l hs on hu old).imp_left fun h => ?_
      show relay.users.Holds relay.clock l.id l.credential
      rw [eq, hcl]
      refine inv.mirrors.install_holds ⟨hc, hca⟩ hsa h fun hmi => ?_
      obtain ⟨l', hsn, id', hcr, -⟩ := hfa.known e hm
      exact (inv.history.same l (inv.history.stored _ l hs) l' hsn (hmi.trans id'.symm)).credential.trans hcr
    · intro l hse on hr old
      show relay.users.installed.lookup l.id = none
      have hot : l.id ≠ e.id := fun hmi =>
        absurd (hfa.unrevoked e hm l hse hmi hr) (not_lt.mpr (le_trans old hah))
      rw [eq, (Users.install_ne hot).installed]
      exact inv.covers.dropped l hse on hr old
  · have hw := inv.worker
    rw [Worker.Inv, hh] at hw
    have hul : id ∉ p.desired := hw.2.1 id List.mem_cons_self
    have hp : sys.Answer p.resp := .inr ⟨p, by rw [Worker.pending, hh], rfl⟩
    constructor
    · intro l hs on hu old
      show relay.users.Holds relay.clock l.id l.credential ∨ _
      rw [eq, hcl]
      by_cases hmi : l.id = id
      · -- A lease that the answer leaves out had expired at the broker when it was read.
        right
        rcases (inv.fair _ hp).lists l hs on hu (le_trans old (inv.ahead _ hp)) with
          ⟨e, hm, hsm, -, hex⟩ | he
        · have hlt : p.remaining e ≤ 0 := by
            by_contra hle
            refine hul (hmi ▸ hsm ▸ List.mem_map_of_mem (List.mem_filter.mpr ⟨hm, ?_⟩))
            simpa using hle
          exact le_trans (hex ▸ Poll.expired_of_remaining hlt) (inv.fair _ hp).past
        · exact le_trans he (inv.fair _ hp).past
      · exact (inv.covers.held l hs on hu old).imp_left fun h => h.same (Users.remove_ne hmi)
    · intro l hse on hr old
      show relay.users.installed.lookup l.id = none
      have hb := inv.covers.dropped l hse on hr old
      rw [eq]
      rcases sys.relay.users.remove_cases id hc with ok | hun
      · by_cases hmi : l.id = id
        · exact hmi ▸ (inv.mirrors.remove_ok ok).1
        · rw [(Users.remove_ne hmi).installed]
          exact hb
      · rw [hun]
        exact hb
  · have hph := inv.named.phase
    rw [hh] at hph
    exact absurd hph id

theorem covers_finished {p : Poll} (here : sys.relay.phase = .removing p [] true) : Covers r sys p.resp.revision := by
  have settled := inv.worker.settledSet here
  have fair := inv.fair p.resp (.inr ⟨p, by rw [Worker.pending, here], rfl⟩)
  constructor
  · intro l stored on unrevoked old
    rcases fair.lists l stored on unrevoked old with ⟨e, member, id, credential, expiry⟩ | expired
    · by_cases left : 0 < p.remaining e
      · left
        have unexpired : e ∈ p.unexpired := List.mem_filter.mpr ⟨member, by simpa using left⟩
        rw [← id, ← credential]
        obtain ⟨recorded, ⟨-, installed⟩ | ⟨passed, -⟩⟩ := settled.settled e unexpired
        · exact .inl ⟨_, installed, rfl⟩
        · exact .inr ⟨_, recorded, passed⟩
      · exact .inr (le_trans (expiry ▸ Poll.expired_of_remaining (not_lt.mp left)) fair.past)
    · exact .inr (le_trans expired fair.past)
  · intro l seen on revoked old
    cases found : sys.relay.users.installed.lookup l.id with
    | none => rfl
    | some lease =>
      have there : sys.relay.users.xray.lookup (leaseEmail l.id) = some lease.credential := by
        rw [inv.mirrors.xray, found]
        rfl
      obtain ⟨e, member, id⟩ := List.mem_map.mp (settled.noOther l.id _ there)
      have listed := (List.mem_filter.mp member).1
      exact absurd (fair.unrevoked e listed l seen id.symm revoked) (not_lt.mpr old)

theorem relay {relay : Worker} {label : Label} (step : Worker.Step (· ≠ .ambiguous) sys.relay label relay)
    (session : relay.session = sys.relay.session) (active : relay.sync.active = true)
    (answered : ∀ poll, label = .answered poll → sys.reply = some poll.resp) : (sys.setRelay relay label).Inv r := by
  have answers := answer_of_setRelay step answered
  obtain ⟨named, given⟩ := inv.named.step step session active
  obtain ⟨mirrors, credentials⟩ := inv.users_after step
  -- The applied revision stays, or becomes that of an answer that is covered now.
  obtain ⟨grows, reached, covers, ahead⟩ : sys.relay.sync.applied ≤ relay.sync.applied ∧
      relay.sync.applied ≤ sys.store.revision r ∧ Covers r (sys.setRelay relay label) relay.sync.applied ∧
      ∀ resp, (sys.setRelay relay label).Answer resp → relay.sync.applied ≤ resp.revision := by
    rcases step.applied_cases with same | ⟨p, here, eq, users, clock, idle, notPolling⟩
    · rw [same]
      exact ⟨le_refl _, inv.reached, inv.covers_after step, fun resp answer => inv.ahead resp (answers resp answer).1⟩
    · have pending : sys.Answer p.resp := .inr ⟨p, by rw [Worker.pending, here], rfl⟩
      rw [eq]
      refine ⟨inv.ahead _ pending, (inv.fair _ pending).revision, ?_, fun resp answer => ?_⟩
      · exact (inv.covers_finished here).quiet (le_refl _) rfl users (le_of_eq clock.symm) rfl
      · rcases (answers resp answer).2 with polling | busy
        · cases notPolling.symm.trans polling
        · exact absurd idle busy
  exact {
    history := inv.history.quiet rfl (fun _ => rfl) rfl
    worker := inv.worker.step inv.mirrors.trusted step
    named, mirrors, credentials, covers, ahead, reached
    waiting := by
      intro some
      by_contra idle
      exact some (if_neg idle)
    fair := fun resp answer => (inv.fair resp (answers resp answer).1).quiet (le_refl _) rfl (fun _ => rfl) rfl
    applied := le_trans inv.applied grows
    acks := by
      intro ack member
      have old : ∀ ack ∈ sys.acks, ack.1 ∈ sys.tokens ∧ (ack.1 ∉ sys.retired → ack.2 ≤ relay.sync.applied) :=
        fun ack member => ⟨(inv.acks ack member).1, fun live => le_trans ((inv.acks ack member).2 live) grows⟩
      cases label with
      | silent => exact old ack member
      | answered poll => exact old ack member
      | acked id token revision =>
        rcases List.mem_cons.mp member with rfl | before
        · exact ⟨given id token revision rfl, fun _ => le_of_eq (step.acked rfl)⟩
        · exact old ack before
    current := inv.current
    older := inv.older }

theorem step {admits : System → Time → Op → Prop} (hst : Step checks r admits sys sys') : sys'.Inv r := by
  cases hst with
  | tick t hla => exact inv.tick t hla
  | operate t op ho hf _ => exact inv.operate t ho hf
  | register t req draws ttl hf => exact inv.register t req draws ttl hf
  | restart t req draws ttl token hd hf hrg => exact inv.restart t req draws ttl hf hrg
  | serve id token full applied hak t hps set hra => exact inv.serve hak hps hra
  | deliver token revision sent => exact inv.deliver sent
  | learn token hgi => exact inv.learn hgi
  | relay relay label hst hss hac han => exact inv.relay hst hss hac han

theorem steps (run : Steps checks r sys sys') : sys'.Inv r := by
  induction run with
  | refl => exact inv
  | tail _ hst ih => exact ih.step hst

end Inv

theorem lease_sync_sound {clock relayClock : Time} (run : Steps checks r (start clock relayClock) sys) :
    sys.store.applied r ≤ sys.store.revision r ∧
    (∀ l, sys.store.leases.lookup l.id = some l → l.relayID = r → l.revokedAt = none →
      l.revision ≤ sys.store.applied r →
      sys.relay.users.xray.lookup (leaseEmail l.id) = some l.credential ∨
      (∃ t, sys.relay.users.recorded.lookup l.id = some t ∧ t ≤ sys.relay.clock) ∨ l.expiresAt ≤ sys.clock) ∧
    ∀ l ∈ sys.seen, l.relayID = r → l.revokedAt ≠ none → l.revision ≤ sys.store.applied r →
      sys.relay.users.xray.lookup (leaseEmail l.id) = none := by
  have inv : sys.Inv r := (Inv.start clock relayClock).steps run
  refine ⟨le_trans inv.applied inv.reached, fun l hs on hu old => ?_, fun l hse on hr old => ?_⟩
  · rcases inv.covers.held l hs on hu (le_trans old inv.applied) with (⟨lease, hi, hsa⟩ | hpa) | he
    · left
      rw [inv.mirrors.xray, hi, Option.map_some, hsa]
    · exact .inr (.inl hpa)
    · exact .inr (.inr he)
  · rw [inv.mirrors.xray, inv.covers.dropped l hse on hr (le_trans old inv.applied)]
    rfl

/-! ### A lease that expires at the broker first -/

def leasedStore : Store := (enrolled.apply oneRelayChecks 70 (issueOnRelay "lease_1")).1

def leasedAt70 : System where
  store := leasedStore
  clock := 100
  relay := .fresh 100 { id := "relay_a", token := "token", generation := 1 }
  tokens := ["token"]
  seen := leasedStore.leases.values

theorem leasedAt70_run : Steps oneRelayChecks "relay_a" (start 0 0) leasedAt70 := by
  have run : Steps oneRelayChecks "relay_a" (start 0 0) (start 0 0) := .refl
  have run := run.tail (.restart 1 { identityPublicKey := "key" } ⟨none, some "token"⟩ 1000 "token" rfl (by decide)
    (by decide))
  have run := run.tail (.operate 2 (.authenticateUser "public key" "source" [] none (some "user_1")) trivial trivial trivial)
  have run := run.tail (.operate 70 (issueOnRelay "lease_1") trivial
    (issueOnRelay_fresh (by rintro ⟨l, hm, -⟩; cases hm)) trivial)
  have run := run.tail (.tick 100 (by decide))
  have run := run.tail (.relay _ _ (.tick 100 (by decide)) rfl rfl (by simp))
  exact run

/-- Served at 100, the answer reaches the relay at 110, so the local expiry is 170. The relay acknowledges revision 1.
    -/
def syncedAt110 : System where
  store := (leasedStore.ackLeaseRevision "relay_a" "token" 1).1
  clock := 110
  relay :=
    { clock := 110
      session := { id := "relay_a", token := "token", generation := 1 }
      users :=
        { installed := AList.insert "lease_1" ⟨"credential of lease_1", 170⟩ ∅
          xray := AList.insert (leaseEmail "lease_1") "credential of lease_1" ∅
          recorded := AList.insert "lease_1" 170 ∅ }
      sync := { applied := 1, full := false, generation := 1, announced := true, active := true }
      appliedSet := some
        { id := "relay_a", token := "token", full := true, receivedAt := 110
          resp := { serverTime := 100, revision := 1, leases := [⟨"lease_1", "credential of lease_1", 160⟩] } } }
  acks := [("token", 1)]
  tokens := ["token"]
  seen := leasedStore.leases.values

theorem syncedAt110_run : Steps oneRelayChecks "relay_a" (start 0 0) syncedAt110 := by
  have run := leasedAt70_run
  have run := run.tail (.relay _ _ (.openSession rfl rfl (by decide)) rfl rfl (by simp))
  have run := run.tail (.relay _ _ (.poll rfl (by decide)) rfl rfl (by simp))
  have run := run.tail (.serve "relay_a" "token" true 0 rfl 100 (by decide) _ rfl)
  have run := run.tail (.tick 110 (by decide))
  have run := run.tail (.relay _ _ (.tick 110 (by decide)) rfl rfl (by simp))
  have run := run.tail (.relay _ _ (.answer rfl
    { serverTime := 100, revision := 1, leases := [⟨"lease_1", "credential of lease_1", 160⟩] } (by decide)) rfl rfl
    (by rintro poll ⟨⟩; decide))
  have run := run.tail (.relay _ _ (.install rfl (by decide) .ok .ok (by decide)) rfl rfl (by simp))
  have run := run.tail (.relay _ _ (.startRemoving rfl) rfl rfl (by simp))
  have run := run.tail (.relay _ _ (.finishAcking rfl rfl) rfl rfl (by simp))
  have run := run.tail (.deliver "token" 1 (by decide))
  have run := run.tail (.relay _ _ (.ackConfirmed rfl) rfl rfl (by simp))
  exact run

/-- At 165 the lease has expired at the broker, the next answer leaves it out, and the relay removes it. -/
def droppedAt165 : System where
  store := syncedAt110.store
  clock := 165
  relay :=
    { syncedAt110.relay with
      clock := 165
      users := { recorded := AList.insert "lease_1" 170 ∅ }
      phase := .removing
        { id := "relay_a", token := "token", full := false, receivedAt := 165
          resp := { serverTime := 165, revision := 1, leases := [] } } [] true }
  acks := [("token", 1)]
  tokens := ["token"]
  seen := leasedStore.leases.values

theorem droppedAt165_run : Steps oneRelayChecks "relay_a" (start 0 0) droppedAt165 := by
  have run := syncedAt110_run
  have run := run.tail (.tick 165 (by decide))
  have run := run.tail (.relay _ _ (.tick 165 (by decide)) rfl rfl (by simp))
  have run := run.tail (.relay _ _ (.openSession rfl rfl (by decide)) rfl rfl (by simp))
  have run := run.tail (.relay _ _ (.poll rfl (by decide)) rfl rfl (by simp))
  have run := run.tail (.serve "relay_a" "token" false 1 rfl 165 (by decide) _ rfl)
  have run := run.tail (.relay _ _ (.answer rfl { serverTime := 165, revision := 1, leases := [] } (by decide)) rfl rfl
    (by rintro poll ⟨⟩; decide))
  have run := run.tail (.relay _ _ (.startRemoving rfl) rfl rfl (by simp))
  have run := run.tail (.relay _ _ (.removeOne rfl .ok (by decide)) rfl rfl (by simp))
  exact run

/-- Before its local expiry an unrevoked lease at an applied revision is gone from Xray, since it has expired at the
    broker. -/
theorem expired_lease_dropped_early :
    Steps oneRelayChecks "relay_a" (start 0 0) droppedAt165 ∧
    ∃ l, droppedAt165.store.leases.lookup l.id = some l ∧ l.relayID = "relay_a" ∧ l.revokedAt = none ∧
      l.revision ≤ droppedAt165.store.applied "relay_a" ∧
      droppedAt165.relay.users.xray.lookup (leaseEmail l.id) = none ∧
      ∃ t, droppedAt165.relay.users.recorded.lookup l.id = some t ∧ droppedAt165.relay.clock < t :=
  ⟨droppedAt165_run, droppedAt165.store.leaseAt "lease_1", by decide, by decide, by decide, by decide, by decide, 170,
    by decide, by decide⟩

theorem lease_sync_sound_at110 :
    syncedAt110.store.applied "relay_a" = 1 ∧
    syncedAt110.relay.users.xray.lookup (leaseEmail "lease_1") = some "credential of lease_1" := by
  refine ⟨by decide, ?_⟩
  have hhe := (lease_sync_sound syncedAt110_run).2.1 (syncedAt110.store.leaseAt "lease_1") (by decide) (by decide)
    (by decide) (by decide)
  rcases hhe with hae | ⟨t, hro, hpa⟩ | he
  · exact hae
  · obtain rfl : 170 = t := Option.some.inj hro
    exact absurd hpa (by decide)
  · exact absurd he (by decide)

end System

end OpenRung
