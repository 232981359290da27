import OpenRung.Lib.Decimal
import OpenRung.Lib.Trace
import OpenRung.Relay.Credentials
import Mathlib.Tactic

/-! Which credentials Xray accepts. Every credential that is registered is that of a bucket (`Derived`), so that the
    label of the current or the previous bucket names its credential and no other. -/

namespace OpenRung.Relay

/-! ### Buckets -/

namespace CredentialSchedule
variable {schedule : CredentialSchedule}

def Derived (schedule : CredentialSchedule) (c : Credential) : Prop := ∃ n : Int, c = schedule.credential (n * schedule.period)

theorem derived_current (schedule : CredentialSchedule) (now : Time) : schedule.Derived (schedule.current now) := by
  refine ⟨now / schedule.period, ?_⟩
  rw [current, bucket]
  congr 1
  have := Int.emod_add_mul_ediv now schedule.period
  linarith

theorem derived_previous (schedule : CredentialSchedule) (now : Time) : schedule.Derived (schedule.previous now) := by
  refine ⟨now / schedule.period - 1, ?_⟩
  rw [previous, bucket]
  congr 1
  have := Int.emod_add_mul_ediv now schedule.period
  linarith

theorem unix_lt {m n : Int} (lt : m < n) : unix (m * schedule.period) < unix (n * schedule.period) := by
  have pos : (0 : Int) < second := by decide
  have hap : m * schedule.period + second ≤ n * schedule.period := by
    have := mul_le_mul_of_nonneg_right (Int.add_one_le_iff.mpr lt) (pos.le.trans schedule.one_second)
    linarith [schedule.one_second]
  have hwh : (m * schedule.period + second) / second = m * schedule.period / second + 1 :=
    Int.add_ediv_of_dvd_right (dvd_refl second) |>.trans (by rw [Int.ediv_self pos.ne'])
  have := Int.ediv_le_ediv pos hap
  unfold unix
  omega

theorem Derived.eq_of_email {c c' : Credential} (hd : schedule.Derived c) (hde : schedule.Derived c')
    (he : c.email = c'.email) : c = c' := by
  obtain ⟨m, rfl⟩ := hd
  obtain ⟨n, rfl⟩ := hde
  have hla : schedule.derivation.format (unix (m * schedule.period)) =
      schedule.derivation.format (unix (n * schedule.period)) := String.append_right_inj _ |>.mp he
  have hsa := schedule.derivation.format_injective hla
  rcases lt_trichotomy m n with lt | rfl | gt
  · exact absurd hsa (unix_lt lt).ne
  · rfl
  · exact absurd hsa (unix_lt gt).ne'

end CredentialSchedule

namespace CredentialRotation
variable {schedule : CredentialSchedule} {s s' : CredentialRotation} {c credential : Credential} {email : String}

structure Accepts (schedule : CredentialSchedule) (s : CredentialRotation) : Prop where
  users : s.users = s.registered
  derived : ∀ email c, s.registered.lookup email = some c → schedule.Derived c ∧ c.email = email
  contact : s.confirmed ≠ "" → ∃ t, s.lastContact = some t

/-! ### Adding -/

structure Grows (s s' : CredentialRotation) : Prop where
  kept : ∀ email c, s.registered.lookup email = some c → s'.registered.lookup email = some c
  confirmed : s'.confirmed = s.confirmed
  lastContact : s'.lastContact = s.lastContact

theorem Grows.refl (s : CredentialRotation) : Grows s s := ⟨fun _ _ ht => ht, rfl, rfl⟩

theorem Grows.trans {s₁ s₂ s₃ : CredentialRotation} (hf : Grows s₁ s₂) (hse : Grows s₂ s₃) : Grows s₁ s₃ :=
  ⟨fun email c ht => hse.kept email c (hf.kept email c ht), hse.confirmed.trans hf.confirmed,
    hse.lastContact.trans hf.lastContact⟩

theorem ensure_grows (ha : Accepts schedule s) (hd : schedule.Derived credential) (added : Bool) :
    Grows s (s.ensure credential added).1 ∧ Accepts schedule (s.ensure credential added).1 := by
  unfold ensure
  split
  next => exact ⟨.refl s, ha⟩
  next hab =>
    have hab : s.registered.lookup credential.email = none := by simpa using hab
    split
    next =>
      refine ⟨⟨fun email c ht => ?_, rfl, rfl⟩, ⟨by rw [ha.users], fun email c ht => ?_, ha.contact⟩⟩
      · rw [KeyedMap.lookup_insert_eq, if_neg]
        · exact ht
        · rintro rfl
          rw [hab] at ht
          cases ht
      · rw [KeyedMap.lookup_insert_eq] at ht
        split at ht
        next hsa =>
          cases ht
          exact ⟨hd, hsa.symm⟩
        next => exact ha.derived email c ht
    next => exact ⟨.refl s, ha⟩

theorem install_grows (now : Time) (attempts : List (Bool × Bool)) : ∀ {s : CredentialRotation}, Accepts schedule s →
    Grows s (s.install schedule now attempts).1 ∧ Accepts schedule (s.install schedule now attempts).1 := by
  induction attempts with
  | nil => exact fun ha => ⟨.refl _, ha⟩
  | cons attempt attempts ih =>
    intro s ha
    obtain ⟨addedPrevious, addedCurrent⟩ := attempt
    have hf := ensure_grows ha (schedule.derived_previous now) addedPrevious
    unfold install
    split
    next s₁ eq =>
      rw [eq] at hf
      have hse := ensure_grows hf.2 (schedule.derived_current now) addedCurrent
      split
      next s₂ eq =>
        rw [eq] at hse
        exact ⟨hf.1.trans hse.1, hse.2⟩
      next s₂ eq =>
        rw [eq] at hse
        exact ⟨hf.1.trans (hse.1.trans (ih hse.2).1), (ih hse.2).2⟩
    next s₁ eq =>
      rw [eq] at hf
      exact ⟨hf.1.trans (ih hf.2).1, (ih hf.2).2⟩

theorem announce_fst (s : CredentialRotation) (now : Time) (added : Bool) :
    (s.announce schedule now added).1 = (s.ensure (schedule.current now) added).1 := by
  unfold announce
  dsimp only
  split
  · rfl
  · split <;> rfl

theorem announce_accepted (ha : Accepts schedule s) (now : Time) (added : Bool) :
    (s.announce schedule now added).2 = "" ∨ ∃ email c, (s.announce schedule now added).1.users.lookup email = some c ∧
      c.id = (s.announce schedule now added).2 := by
  have hus := (ensure_grows ha (schedule.derived_current now) added).2.users
  unfold announce
  dsimp only
  rw [← hus]
  split
  next c ht => exact .inr ⟨_, c, ht, rfl⟩
  next =>
    split
    next c ht => exact .inr ⟨_, c, ht, rfl⟩
    next => exact .inl rfl

/-! ### Retiring -/

theorem lookup_retireOne (keeps : String → Credential → Bool) (fails : List String) (s : CredentialRotation)
    (entry : Sigma fun _ : String => Credential) :
    (retireOne keeps fails s entry).registered.lookup email = some c ↔
      s.registered.lookup email = some c ∧ (entry.1 = email → keeps entry.1 entry.2 = true ∨ entry.1 ∈ fails) := by
  unfold retireOne
  split
  next hk => exact ⟨fun ht => ⟨ht, fun _ => .inl hk⟩, And.left⟩
  next hdr =>
    split
    next hfa => exact ⟨fun ht => ⟨ht, fun _ => .inr hfa⟩, And.left⟩
    next hre =>
      by_cases hh : entry.1 = email
      · rw [hh, AList.lookup_erase]
        simp_all
      · rw [AList.lookup_erase_ne (Ne.symm hh)]
        exact ⟨fun ht => ⟨ht, fun hsa => absurd hsa hh⟩, And.left⟩

theorem lookup_retireEach (keeps : String → Credential → Bool) (fails : List String)
    (entries : List (Sigma fun _ : String => Credential)) : ∀ s : CredentialRotation,
    (entries.foldl (retireOne keeps fails) s).registered.lookup email = some c ↔
      s.registered.lookup email = some c ∧
        ∀ entry ∈ entries, entry.1 = email → keeps entry.1 entry.2 = true ∨ entry.1 ∈ fails := by
  induction entries with
  | nil => simp
  | cons entry entries ih =>
    intro s
    rw [List.foldl_cons, ih, lookup_retireOne, List.forall_mem_cons, and_assoc]

theorem lookup_retire (schedule : CredentialSchedule) (s : CredentialRotation) (now : Time) (fails : List String) :
    (s.retire schedule now fails).registered.lookup email = some c ↔
      s.registered.lookup email = some c ∧ (s.keeps schedule now email c = true ∨ email ∈ fails) := by
  rw [retire, lookup_retireEach]
  refine and_congr_right fun ht => ⟨fun all => ?_, fun hk entry mem hsa => ?_⟩
  · exact all ⟨email, c⟩ (KeyedMap.lookup_eq_some_iff.mp ht) rfl
  · obtain ⟨key, d⟩ := entry
    obtain rfl : key = email := hsa
    obtain rfl := Option.some.inj ((KeyedMap.lookup_eq_some_iff.mpr mem).symm.trans ht)
    exact hk

theorem retireEach_frame (keeps : String → Credential → Bool) (fails : List String)
    (entries : List (Sigma fun _ : String => Credential)) : ∀ s : CredentialRotation, s.users = s.registered →
    let t := entries.foldl (retireOne keeps fails) s
    t.users = t.registered ∧ t.confirmed = s.confirmed ∧ t.lastContact = s.lastContact := by
  induction entries with
  | nil => exact fun s hsa => ⟨hsa, rfl, rfl⟩
  | cons entry entries ih =>
    intro s hsa
    have one : (retireOne keeps fails s entry).users = (retireOne keeps fails s entry).registered ∧
        (retireOne keeps fails s entry).confirmed = s.confirmed ∧
        (retireOne keeps fails s entry).lastContact = s.lastContact := by
      unfold retireOne
      split
      · exact ⟨hsa, rfl, rfl⟩
      · split
        · exact ⟨hsa, rfl, rfl⟩
        · exact ⟨by simp only [hsa], rfl, rfl⟩
    obtain ⟨hus, hc, hl⟩ := ih _ one.1
    exact ⟨hus, hc.trans one.2.1, hl.trans one.2.2⟩

theorem Accepts.retire (ha : Accepts schedule s) (now : Time) (fails : List String) :
    Accepts schedule (s.retire schedule now fails) := by
  obtain ⟨hus, hc, hl⟩ := retireEach_frame (s.keeps schedule now) fails s.registered.entries s ha.users
  refine ⟨hus, fun email c ht => ?_, fun hn => ?_⟩
  · exact ha.derived email c ((lookup_retire schedule s now fails).mp ht).1
  · rw [CredentialRotation.retire, hl]
    exact ha.contact (hc ▸ hn)

/-! ### Steps and runs -/

theorem Accepts.confirm (ha : Accepts schedule s) (now : Time) (clientID : String) :
    Accepts schedule (s.confirm now clientID) := ⟨ha.users, ha.derived, fun _ => ⟨now, rfl⟩⟩

theorem Accepts.effect (ha : Accepts schedule s) (action : Step) : Accepts schedule (s.effect schedule action) := by
  match action with
  | .install now attempts => exact (install_grows now attempts ha).2
  | .announce now added =>
    rw [CredentialRotation.effect, announce_fst]
    exact (ensure_grows ha (schedule.derived_current now) added).2
  | .confirm now clientID => exact ha.confirm now clientID
  | .retire now fails => exact ha.retire now fails
  | .reRegister now (some clientID) => exact ha.confirm now clientID
  | .reRegister now none => exact ha

theorem accepts_start (schedule : CredentialSchedule) (start : Time) : Accepts schedule { clock := start } := by
  refine ⟨rfl, fun email c ht => ?_, fun hn => absurd rfl hn⟩
  cases ht

theorem step_eq {action : Step} (eq : s.step schedule action = some s') :
    s.clock ≤ action.now ∧ s' = { s.effect schedule action with clock := action.now } := by
  unfold step at eq
  split at eq
  next le => exact ⟨le, (Option.some.inj eq).symm⟩
  next => cases eq

theorem Accepts.step {action : Step} (ha : Accepts schedule s) (eq : s.step schedule action = some s') :
    Accepts schedule s' := by
  obtain ⟨-, rfl⟩ := step_eq eq
  have haf := ha.effect action
  exact ⟨haf.users, haf.derived, haf.contact⟩

/-- The step confirms no other credential, and comes within the grace of the last contact. -/
def Undisturbed (s : CredentialRotation) (id : String) (action : Step) : Prop :=
  (∀ now clientID, action = .confirm now clientID ∨ action = .reRegister now (some clientID) → clientID = "" ∨ clientID = id) ∧
    ∀ t, s.lastContact = some t → action.now - t ≤ brokerSilenceGrace

structure Serves (s : CredentialRotation) (email : String) (c : Credential) : Prop where
  registered : s.registered.lookup email = some c
  confirmed : s.confirmed = c.id
  contact : ∃ t, s.lastContact = some t

theorem Serves.confirm (hs : Serves s email c) (now : Time) {clientID : String}
    (hsa : clientID = "" ∨ clientID = c.id) : Serves (s.confirm now clientID) email c := by
  refine ⟨hs.registered, ?_, now, rfl⟩
  show (if clientID ≠ "" then clientID else s.confirmed) = c.id
  split
  next hn => exact hsa.resolve_left hn
  next => exact hs.confirmed

theorem Serves.grows (hs : Serves s email c) (hg : Grows s s') : Serves s' email c :=
  ⟨hg.kept email c hs.registered, hg.confirmed.trans hs.confirmed, hg.lastContact ▸ hs.contact⟩

theorem Serves.retire (hs : Serves s email c) (ha : Accepts schedule s) {now : Time} (fails : List String)
    (hw : ∀ t, s.lastContact = some t → now - t ≤ brokerSilenceGrace) :
    Serves (s.retire schedule now fails) email c := by
  obtain ⟨-, hc, hl⟩ := retireEach_frame (s.keeps schedule now) fails s.registered.entries s ha.users
  obtain ⟨t, hco⟩ := hs.contact
  have hk : s.keeps schedule now email c = true := by
    have hr : s.keepConfirmed now = true := by
      rw [keepConfirmed, hco]
      exact decide_eq_true (hw t hco)
    simp [keeps, hr, hs.confirmed]
  refine ⟨(lookup_retire schedule s now fails).mpr ⟨hs.registered, .inl hk⟩, hc.trans hs.confirmed, t, ?_⟩
  exact hl.trans hco

theorem Serves.step {action : Step} (hs : Serves s email c) (ha : Accepts schedule s)
    (eq : s.step schedule action = some s') (hu : s.Undisturbed c.id action) : Serves s' email c := by
  obtain ⟨-, rfl⟩ := step_eq eq
  suffices haf : Serves (s.effect schedule action) email c from ⟨haf.registered, haf.confirmed, haf.contact⟩
  match action with
  | .install now attempts => exact hs.grows (install_grows now attempts ha).1
  | .announce now added =>
    rw [CredentialRotation.effect, announce_fst]
    exact hs.grows (ensure_grows ha (schedule.derived_current now) added).1
  | .confirm now clientID => exact hs.confirm now (hu.1 now clientID (.inl rfl))
  | .retire now fails => exact hs.retire ha fails hu.2
  | .reRegister now (some clientID) => exact hs.confirm now (hu.1 now clientID (.inr rfl))
  | .reRegister now none => exact hs

theorem Accepts.keeps (ha : Accepts schedule s) {now : Time} (ht : s.registered.lookup email = some c)
    (hk : s.keeps schedule now email c = true) : c = schedule.current now ∨ c = schedule.previous now ∨
      (c.id = s.confirmed ∧ ∃ t, s.lastContact = some t ∧ now - t ≤ brokerSilenceGrace) := by
  obtain ⟨hd, hla⟩ := ha.derived email c ht
  simp only [CredentialRotation.keeps, Bool.or_eq_true, Bool.and_eq_true, beq_iff_eq] at hk
  rcases hk with (hcu | hp) | ⟨hr, hc⟩
  · exact .inl (hd.eq_of_email (schedule.derived_current now) (hla.trans hcu))
  · exact .inr (.inl (hd.eq_of_email (schedule.derived_previous now) (hla.trans hp)))
  · refine .inr (.inr ⟨hc, ?_⟩)
    unfold keepConfirmed at hr
    split at hr
    next t hco => exact ⟨t, hco, of_decide_eq_true hr⟩
    next => cases hr

/-- What `announce` returns is accepted, a confirmed credential stays accepted within the grace, and `retire` leaves
    the two buckets, the confirmed one, and those whose removal failed. -/
theorem rotating_credentials (schedule : CredentialSchedule) (start : Time) (steps : List Step) (s : CredentialRotation)
    (run : Trace (fun s action s' => s.step schedule action = some s') { clock := start } steps s) :
    (∀ now added, (s.announce schedule now added).2 = "" ∨ ∃ email c,
      (s.announce schedule now added).1.users.lookup email = some c ∧ c.id = (s.announce schedule now added).2) ∧
    (∀ email c, s.users.lookup email = some c → s.confirmed = c.id → c.id ≠ "" → ∀ later s',
      Trace (fun s action s' => s.step schedule action = some s' ∧ s.Undisturbed c.id action) s later s' →
        s'.users.lookup email = some c) ∧
    ∀ now fails s', s.step schedule (.retire now fails) = some s' → ∀ email c, s'.users.lookup email = some c →
      c = schedule.current now ∨ c = schedule.previous now ∨
        (c.id = s.confirmed ∧ ∃ t, s.lastContact = some t ∧ now - t ≤ brokerSilenceGrace) ∨ email ∈ fails := by
  have ha : Accepts schedule s :=
    run.invariant (P := Accepts schedule) (fun _ _ _ ha hst => ha.step hst) (accepts_start schedule start)
  refine ⟨announce_accepted ha, fun email c ht hc hn later s' hrs => ?_,
    fun now fails s' eq email c ht => ?_⟩
  · have hs : Serves s email c := ⟨ha.users ▸ ht, hc, ha.contact (hc ▸ hn)⟩
    obtain ⟨hac, hsr⟩ := hrs.invariant (P := fun s => Accepts schedule s ∧ Serves s email c)
      (fun _ _ _ inv hst => ⟨inv.1.step hst.1, inv.2.step inv.1 hst.1 hst.2⟩) ⟨ha, hs⟩
    rw [hac.users]
    exact hsr.registered
  · have hus := (ha.step eq).users
    obtain ⟨-, rfl⟩ := step_eq eq
    rw [hus] at ht
    obtain ⟨hb, hk | hfa⟩ := (lookup_retire schedule s now fails).mp ht
    · rcases ha.keeps hb hk with hcu | hp | hc
      · exact .inl hcu
      · exact .inr (.inl hp)
      · exact .inr (.inr (.inl hc))
    · exact .inr (.inr (.inr hfa))

def plainSecond (n : Int) : String := String.ofList ((Decimal.formatInt n).map Char.ofUInt8)

theorem plainSecond_injective : Function.Injective plainSecond := by
  have hch : Function.Injective Char.ofUInt8 := fun a b hsa => UInt8.toUInt32_inj.mp (congrArg Char.val hsa)
  exact fun m n hsa => Decimal.formatInt_injective (hch.list_map (String.ofList_inj.mp hsa))

def plainSchedule : CredentialSchedule where
  derivation := { uuid := fun message => message, format := plainSecond, format_injective := plainSecond_injective }
  period := minute
  one_second := by decide

/-- The first minute, and a heartbeat two minutes later whose broker still serves the first credential. -/
def laggingBroker : List Step :=
  .install minute [(false, false), (true, true)] :: sendHeartbeat (3 * minute) true (.ok (plainSchedule.current minute).id) []

theorem rotating_credentials_laggingBroker : ∃ s, laggingBroker.foldlM (step plainSchedule) {} = some s ∧
    s.users.lookup (plainSchedule.current minute).email = some (plainSchedule.current minute) ∧
    ∀ now fails s', s.step plainSchedule (.retire now fails) = some s' → ∀ email c, s'.users.lookup email = some c →
      c = plainSchedule.current now ∨ c = plainSchedule.previous now ∨
        (c.id = s.confirmed ∧ ∃ t, s.lastContact = some t ∧ now - t ≤ brokerSilenceGrace) ∨ email ∈ fails := by
  have run : ∃ s, laggingBroker.foldlM (step plainSchedule) {} = some s ∧
      s.users.lookup (plainSchedule.current minute).email = some (plainSchedule.current minute) := ⟨_, rfl, by decide +kernel⟩
  obtain ⟨s, eq, ht⟩ := run
  exact ⟨s, eq, ht, (rotating_credentials plainSchedule 0 laggingBroker s (Trace.of_foldlM eq)).2.2⟩

end CredentialRotation

end OpenRung.Relay
