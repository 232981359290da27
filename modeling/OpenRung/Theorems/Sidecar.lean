import OpenRung.System.Sidecar
import OpenRung.Theorems.Replay

/-! A WSS ticket admits at most one session. Every session whose ticket could still be presented has a record that a
    crash cannot take away, and a running store covers it; once the record may be dropped, `Verify` refuses the
    ticket. -/

namespace OpenRung
open Wss

variable {crypto : Crypto} {v : TicketVerifier}

def Handshake.key (crypto : Crypto) (h : Handshake) : ReplayKey := newReplayKey crypto h.claims.jti

/-- The journal records the ticket of `h` for as long as it can be presented. -/
def Handshake.Recorded (crypto : Crypto) (v : TicketVerifier) (h : Handshake) : Bytes → Prop :=
  JournalHolds (h.key crypto) (v.replayUntil h.claims)

def Handshake.Covered (crypto : Crypto) (v : TicketVerifier) (h : Handshake) (i : ReplayIndex) : Prop :=
  i.Covers (h.key crypto) (v.replayUntil h.claims)

theorem SidecarProcess.consume_of_covers {p : SidecarProcess} {jti : Bytes} {e : Int} {now : Time}
    (hco : p.store.index.Covers (newReplayKey crypto jti) e) (hl : unixNano now < e) (handshake : Option Handshake)
    (expiresAt : Time) : (p.consume crypto now handshake jti expiresAt).phase = .ready := by
  have hcn := (hco.prune hl).contains hl
  have hst : ∀ {a}, (p.store.startConsume crypto (unixNano now) jti expiresAt).1 = a → ¬ (a = .compact ∨ a = .append) := by
    rintro a rfl hg
    exact absurd (hcn.symm.trans (startConsume_goes_on hg).2.2) (by decide)
  simp only [SidecarProcess.consume]
  cases had : (p.store.startConsume crypto (unixNano now) jti expiresAt).1 with
  | refused e => rfl
  | replayed => rfl
  | compact => exact absurd (Or.inl rfl) (hst had)
  | append => exact absurd (Or.inr rfl) (hst had)

namespace Sidecar

def Live (v : TicketVerifier) (w : Sidecar) (h : Handshake) : Prop := h ∈ w.sessions ∧ w.clock < v.replayUntil h.claims

/-- A handshake whose `Consume` will write the right record, and whose ticket has admitted no session. -/
structure CallInv (crypto : Crypto) (v : TicketVerifier) (w : Sidecar) (call : ConsumeCall) (h : Handshake) : Prop where
  authentic : v.authenticate crypto h.token = .ok h.claims
  key : call.key = h.key crypto
  expiresAt : call.expiresAt = v.replayUntil h.claims
  first : ∀ s ∈ w.sessions, s.claims ≠ h.claims

/-- A call that will write its record: no live session has its key, so the record shortens no entry. -/
structure CallOk (crypto : Crypto) (v : TicketVerifier) (w : Sidecar) (call : ConsumeCall) : Prop where
  fresh : ∀ s, w.Live v s → s.key crypto ≠ call.key
  waits : ∀ h ∈ call.handshake, CallInv crypto v w call h

/-- While the store is opened nothing is known of the journal before the rename. -/
def PhaseInv (crypto : Crypto) (v : TicketVerifier) (w : Sidecar) (broken : Bool) : StorePhase → Prop
  | .ready => broken = false → JournalWhole w.disk.content
  | .compacting call => ∀ c ∈ call, JournalWhole w.disk.content ∧ CallOk crypto v w c
  | .renamed call => JournalWhole w.disk.content ∧ ∀ c ∈ call, CallOk crypto v w c
  | .appending call rest => CallOk crypto v w call ∧
      ∃ before done, Lines.Whole 10 before ∧ w.disk.content = replayJournalHeader ++ (before ++ done) ∧
        done ++ rest = encodeReplayRecord call.key call.expiresAt

/-- A verified handshake: its ticket is authentic, and is remembered for less than half the range of `UnixNano`. -/
structure Verified (crypto : Crypto) (v : TicketVerifier) (w : Sidecar) (h : Handshake) : Prop where
  authentic : v.authenticate crypto h.token = .ok h.claims
  low : -2 ^ 63 < v.replayUntil h.claims
  near : v.replayUntil h.claims < w.clock + 2 ^ 63

structure ProcessInv (crypto : Crypto) (v : TicketVerifier) (w : Sidecar) (p : SidecarProcess) : Prop where
  covered : ∀ h, w.Live v h → h.Covered crypto v p.store.index
  verified : ∀ h ∈ p.verified, Verified crypto v w h
  phase : PhaseInv crypto v w p.store.broken p.phase

structure Inv (crypto : Crypto) (v : TicketVerifier) (w : Sidecar) : Prop where
  low : -2 ^ 63 ≤ w.clock
  high : w.clock < 2 ^ 63
  authentic : ∀ h ∈ w.sessions, v.authenticate crypto h.token = .ok h.claims
  distinct : (w.sessions.map (·.claims)).Nodup
  recorded : ∀ h, w.Live v h → w.disk.Survives (h.Recorded crypto v)
  process : ∀ p, w.process = some p → ProcessInv crypto v w p

/-! ### Steps that leave the sessions alone -/

variable {w : Sidecar}

theorem Live.of_later {t : Time} (hla : w.clock ≤ t) {h : Handshake}
    (hl : Live v { w with clock := t } h) : w.Live v h := ⟨hl.1, lt_of_le_of_lt hla hl.2⟩

theorem CallOk.later {w w' : Sidecar} {call : ConsumeCall} (ok : CallOk crypto v w call) (hla : w.clock ≤ w'.clock)
    (hs : w'.sessions = w.sessions) : CallOk crypto v w' call where
  fresh s live := ok.fresh s ⟨hs ▸ live.1, lt_of_le_of_lt hla live.2⟩
  waits h mem :=
    have hwa := ok.waits h mem
    ⟨hwa.authentic, hwa.key, hwa.expiresAt, hs ▸ hwa.first⟩

theorem PhaseInv.later {w w' : Sidecar} {broken : Bool} {phase : StorePhase} (inv : PhaseInv crypto v w broken phase)
    (hla : w.clock ≤ w'.clock) (hdi : w'.disk.content = w.disk.content) (hs : w'.sessions = w.sessions) :
    PhaseInv crypto v w' broken phase := by
  cases phase with
  | ready => exact fun hw => hdi ▸ inv hw
  | compacting call => exact fun c mem => ⟨hdi ▸ (inv c mem).1, (inv c mem).2.later hla hs⟩
  | renamed call => exact ⟨hdi ▸ inv.1, fun c mem => (inv.2 c mem).later hla hs⟩
  | appending call rest =>
    obtain ⟨ok, before, done, hw, eq, hrc⟩ := inv
    exact ⟨ok.later hla hs, before, done, hw, hdi ▸ eq, hrc⟩

variable {p : SidecarProcess}

theorem ProcessInv.of_process (hp : ProcessInv crypto v w p)
    (process : Option SidecarProcess) : ProcessInv crypto v { w with process } p :=
  ⟨hp.covered, fun h mem => ⟨(hp.verified h mem).authentic, (hp.verified h mem).low, (hp.verified h mem).near⟩,
    hp.phase.later (le_refl _) rfl rfl⟩

theorem Inv.set_disk (inv : Inv crypto v w) {disk : Disk UInt8} {process : Option SidecarProcess}
    (recorded : ∀ h, w.Live v h → disk.Survives (h.Recorded crypto v))
    (hne : ∀ p, process = some p → ProcessInv crypto v { w with disk } p) : Inv crypto v { w with disk, process } where
  low := inv.low
  high := inv.high
  authentic := inv.authentic
  distinct := inv.distinct
  recorded := recorded
  process p running := (hne p running).of_process process

theorem Inv.set_process (inv : Inv crypto v w) {process : Option SidecarProcess}
    (hne : ∀ p, process = some p → ProcessInv crypto v w p) : Inv crypto v { w with process } :=
  inv.set_disk inv.recorded hne

theorem Inv.ended (inv : Inv crypto v w) : Inv crypto v { w with process := none } :=
  inv.set_process fun _ hr => by cases hr

theorem Inv.tick (inv : Inv crypto v w) {t : Time} (hla : w.clock ≤ t) (high : t < 2 ^ 63) :
    Inv crypto v { w with clock := t } where
  low := inv.low.trans hla
  high := high
  authentic := inv.authentic
  distinct := inv.distinct
  recorded h live := inv.recorded h (live.of_later hla)
  process p running :=
    have hp := inv.process p running
    { covered := fun h live => hp.covered h (live.of_later hla)
      verified := fun h mem =>
        have hk := hp.verified h mem
        ⟨hk.authentic, hk.low, lt_of_lt_of_le hk.near (Int.add_le_add_right hla _)⟩
      phase := hp.phase.later hla rfl rfl }

theorem Inv.unixNano_clock (inv : Inv crypto v w) : unixNano w.clock = w.clock :=
  int64_eq_self inv.low inv.high

theorem Inv.reopen (inv : Inv crypto v w) {maxEntries : Int} {store : DurableReplayStore} {compact : Bool}
    (ho : openDurableReplayStore maxEntries (unixNano w.clock) w.disk.content = .ok (store, compact)) :
    Inv crypto v { w with process := some { store, phase := if compact then .compacting none else .ready } } := by
  obtain ⟨limit, hlo⟩ := openDurableReplayStore_ok ho
  refine inv.set_process ?_
  rintro p ⟨⟩
  refine ⟨fun h hl => ?_, fun h mem => (by cases mem), ?_⟩
  · refine loadJournal_covers hlo (inv.recorded h hl).content ?_
    rw [inv.unixNano_clock]
    exact hl.2
  · cases compact with
    | true => exact fun c mem => by cases mem
    | false => exact fun _ => loadJournal_whole hlo

/-! ### Handshakes -/

theorem Inv.verify (inv : Inv crypto v w) (hr : w.process = some p)
    {token : Bytes} {claims : Claims} (hva : v.verify crypto w.clock token = .ok claims) :
    Inv crypto v { w with process := some { p with verified := ⟨token, claims⟩ :: p.verified } } := by
  have hp := inv.process p hr
  refine inv.set_process ?_
  rintro p' ⟨⟩
  refine ⟨hp.covered, fun h mem => ?_, hp.phase⟩
  rcases List.mem_cons.mp mem with rfl | mem
  · obtain ⟨haf, hbe⟩ := TicketVerifier.verify_window hva
    refine ⟨(TicketVerifier.verify_ok hva).1, lt_of_le_of_lt inv.low haf, hbe.trans ?_⟩
    exact Int.add_lt_add_left (by decide) _
  · exact hp.verified h mem

theorem ProcessInv.cancel (hp : ProcessInv crypto v w p) (h : Handshake) :
    ProcessInv crypto v w { p with verified := p.verified.erase h } :=
  ⟨hp.covered, fun h' mem => hp.verified h' (List.mem_of_mem_erase mem), hp.phase⟩

theorem ProcessInv.consume (inv : Inv crypto v w) (hp : ProcessInv crypto v w p)
    (hra : p.phase = .ready) (handshake : Option Handshake) (jti : Bytes) (expiresAt : Time)
    (hg : p.store.broken = false → unixNano w.clock < unixNano expiresAt →
      (p.store.index.prune (unixNano w.clock)).contains (newReplayKey crypto jti) (unixNano w.clock) = false →
      ∀ h ∈ handshake, CallInv crypto v w
        { handshake, key := newReplayKey crypto jti, expiresAt := unixNano expiresAt } h) :
    ProcessInv crypto v w (p.consume crypto w.clock handshake jti expiresAt) := by
  have hw := hp.phase
  rw [hra] at hw
  have hso := startConsume_store crypto (unixNano w.clock) jti expiresAt p.store
  refine ⟨fun h hl => ?_, hp.verified, ?_⟩
  · show h.Covered crypto v (p.store.startConsume crypto (unixNano w.clock) jti expiresAt).2.index
    rcases hso with eq | eq
    · rw [eq]
      exact hp.covered h hl
    · rw [eq]
      refine (hp.covered h hl).prune ?_
      rw [inv.unixNano_clock]
      exact hl.2
  · have hb : (p.store.startConsume crypto (unixNano w.clock) jti expiresAt).2.broken = p.store.broken := by
      rcases hso with eq | eq <;> rw [eq]
    have hfr : (p.store.index.prune (unixNano w.clock)).contains (newReplayKey crypto jti) (unixNano w.clock) = false →
        ∀ s, w.Live v s → s.key crypto ≠ newReplayKey crypto jti := fun ha s hl hs => by
      rw [inv.unixNano_clock, ← hs] at ha
      exact absurd (((hp.covered s hl).prune hl.2).contains hl.2 |>.symm.trans ha) (by decide)
    simp only [SidecarProcess.consume, hb]
    -- only a call that goes on leaves the phase `ready`
    cases had : (p.store.startConsume crypto (unixNano w.clock) jti expiresAt).1 with
    | refused e => exact hw
    | replayed => exact hw
    | compact =>
      obtain ⟨hu, hla, ha⟩ := startConsume_goes_on (Or.inl had)
      rintro c ⟨⟩
      exact ⟨hw hu, hfr ha, hg hu hla ha⟩
    | append =>
      obtain ⟨hu, hla, ha⟩ := startConsume_goes_on (Or.inr had)
      obtain ⟨records, hli, eq⟩ := hw hu
      exact ⟨⟨hfr ha, hg hu hla ha⟩, records, [], hli, by rw [List.append_nil, eq], rfl⟩

theorem ProcessInv.callInv (inv : Inv crypto v w) (hp : ProcessInv crypto v w p)
    {h : Handshake} (hk : Verified crypto v w h)
    (hla : unixNano w.clock < unixNano (v.replayUntil h.claims))
    (ha : (p.store.index.prune (unixNano w.clock)).contains (h.key crypto) (unixNano w.clock) = false) :
    CallInv crypto v w
      { handshake := some h, key := h.key crypto, expiresAt := unixNano (v.replayUntil h.claims) } h := by
  rw [inv.unixNano_clock] at hla ha
  obtain ⟨hfi, haf⟩ := int64_above inv.low inv.high hk.low hk.near hla
  refine ⟨hk.authentic, rfl, hfi, fun s mem hs => ?_⟩
  -- an earlier session of the ticket would be live, and its record would refuse the call
  have hl : w.Live v s := ⟨mem, by rw [hs]; exact haf⟩
  have hsa : s.key crypto = h.key crypto := by rw [Handshake.key, Handshake.key, hs]
  rw [← hsa] at ha
  exact absurd (((hp.covered s hl).prune hl.2).contains hl.2 |>.symm.trans ha) (by decide)

/-! ### Compaction -/

variable {call : Option ConsumeCall}

theorem ProcessInv.compactFailed (hp : ProcessInv crypto v w p)
    (hw : ∀ c ∈ call, p.store.broken = false → JournalWhole w.disk.content) :
    ∀ q, p.compactFailed call = some q → ProcessInv crypto v w q := by
  cases call with
  | none =>
    intro q hf
    cases hf
  | some c =>
    rintro q ⟨⟩
    exact ⟨hp.covered, hp.verified, hw c rfl⟩

theorem ProcessInv.covered_of_index (hp : ProcessInv crypto v w p)
    {store : DurableReplayStore} (hi : store.index = p.store.index) :
    ∀ h, w.Live v h → h.Covered crypto v store.index := fun h hl => hi ▸ hp.covered h hl

theorem ProcessInv.broken (hp : ProcessInv crypto v w p)
    {store : DurableReplayStore} (hi : store.index = p.store.index)
    (hb : store.broken = true) :
    ∀ q, SidecarProcess.compactFailed { p with store } call = some q → ProcessInv crypto v w q := by
  cases call with
  | none =>
    intro q hf
    cases hf
  | some c =>
    rintro q ⟨⟩
    refine ⟨hp.covered_of_index hi, hp.verified, fun hu => ?_⟩
    exact absurd (hb.symm.trans hu) (by decide)

theorem Inv.rename (inv : Inv crypto v w) (hr : w.process = some p)
    (hc : p.phase = .compacting call) {order : List (Sigma fun _ : ReplayKey => Int)}
    (all : order.Perm p.store.index.entries.entries) :
    Inv crypto v
      { w with disk := w.disk.rename (compactedJournal order), process := some { p with phase := .renamed call } } := by
  have hp := inv.process p hr
  have phase := hp.phase
  rw [hc] at phase
  refine inv.set_disk (fun h hl => (inv.recorded h hl).rename (compactedJournal_holds (hp.covered h hl) all)) ?_
  rintro q ⟨⟩
  refine ⟨hp.covered, fun h mem => ?_, compactedJournal_whole order, fun c mem => ?_⟩
  · obtain ⟨hau, low, hn⟩ := hp.verified h mem
    exact ⟨hau, low, hn⟩
  · exact (phase c mem).2.later (le_refl _) rfl

theorem Inv.settle (inv : Inv crypto v w) (hr : w.process = some p)
    (hre : p.phase = .renamed call) :
    Inv crypto v
      { w with
        disk := w.disk.syncDirectory
        process := some (SidecarProcess.compacted { p with store := p.store.recount } call) } := by
  have hp := inv.process p hr
  have hph := hp.phase
  rw [hre] at hph
  obtain ⟨⟨records, hli, eq⟩, hca⟩ := hph
  refine inv.set_disk (fun h hl => (inv.recorded h hl).syncDirectory) ?_
  have hv : ∀ h ∈ p.verified, Verified crypto v { w with disk := w.disk.syncDirectory } h := by
    intro h mem
    obtain ⟨hau, low, hn⟩ := hp.verified h mem
    exact ⟨hau, low, hn⟩
  cases call with
  | none =>
    rintro q ⟨⟩
    exact ⟨hp.covered, hv, fun _ => ⟨records, hli, eq⟩⟩
  | some c =>
    rintro q ⟨⟩
    exact ⟨hp.covered, hv, (hca c rfl).later (le_refl _) rfl, records, [], hli, by simp [eq], rfl⟩

/-! ### The record -/

theorem Inv.write (inv : Inv crypto v w) (hr : w.process = some p)
    {call : ConsumeCall} {chunk rest : Bytes} (hap : p.phase = .appending call (chunk ++ rest)) :
    Inv crypto v
      { w with disk := w.disk.append chunk, process := some { p with phase := .appending call rest } } := by
  have hp := inv.process p hr
  have phase := hp.phase
  rw [hap] at phase
  obtain ⟨ok, before, done, hw, eq, hrc⟩ := phase
  refine inv.set_disk (fun h hl => (inv.recorded h hl).append (journalHolds_grows _ _) chunk) ?_
  rintro q ⟨⟩
  refine ⟨hp.covered, fun h mem => ?_, ok.later (le_refl _) rfl, before, done ++ chunk, hw, ?_, ?_⟩
  · obtain ⟨hau, low, hn⟩ := hp.verified h mem
    exact ⟨hau, low, hn⟩
  · simp [eq]
  · rw [List.append_assoc, hrc]

theorem Inv.sync (inv : Inv crypto v w) (running : w.process = some p)
    {call : ConsumeCall} (appended : p.phase = .appending call []) :
    Inv crypto v
      { w with
        disk := w.disk.sync
        process := some { p with store := p.store.consumed call.key call.expiresAt, phase := .ready }
        sessions := call.handshake.toList ++ w.sessions } := by
  have pinv := inv.process p running
  have phase := pinv.phase
  rw [appended] at phase
  obtain ⟨ok, before, done, whole, eq, record⟩ := phase
  rw [List.append_nil] at record
  have holds : JournalHolds call.key call.expiresAt w.disk.content :=
    ⟨call.expiresAt, before, [], le_refl _, whole, by rw [eq, record, List.append_nil]⟩
  -- a session afterwards is the new one or one of before
  have cases : ∀ h ∈ call.handshake.toList ++ w.sessions, CallInv crypto v w call h ∨ h ∈ w.sessions := by
    intro h mem
    rcases List.mem_append.mp mem with mem | mem
    · exact Or.inl (ok.waits h (Option.mem_toList.mp mem))
    · exact Or.inr mem
  refine ⟨inv.low, inv.high, fun h mem => ?_, ?_, ?_, ?_⟩
  · rcases cases h mem with waiting | mem
    · exact waiting.authentic
    · exact inv.authentic h mem
  · cases waits : call.handshake with
    | none => exact inv.distinct
    | some h =>
      refine List.nodup_cons.mpr ⟨fun inside => ?_, inv.distinct⟩
      obtain ⟨s, mem, same⟩ := List.mem_map.mp inside
      exact (ok.waits h waits).first s mem same
  · rintro h ⟨mem, live⟩
    refine Disk.survives_sync ?_
    rcases cases h mem with waiting | mem
    · rw [Handshake.Recorded, ← waiting.key, ← waiting.expiresAt]
      exact holds
    · exact (inv.recorded h ⟨mem, live⟩).content
  · rintro q ⟨⟩
    refine ⟨?_, fun h mem => ?_, fun _ => ?_⟩
    · rintro h ⟨mem, live⟩
      rcases cases h mem with waiting | mem
      · rw [Handshake.Covered, ← waiting.key, ← waiting.expiresAt]
        exact ReplayIndex.covers_insert _ _ _
      · exact (pinv.covered h ⟨mem, live⟩).insert fun same => absurd same.symm (ok.fresh h ⟨mem, live⟩)
    · obtain ⟨authentic, low, near⟩ := pinv.verified h mem
      exact ⟨authentic, low, near⟩
    · refine ⟨before ++ encodeReplayRecord call.key call.expiresAt, whole.append (Lines.Whole.line _), ?_⟩
      rw [← record]
      exact eq

/-! ### Runs -/

theorem Inv.step {w w' : Sidecar} (inv : Inv crypto v w) (hsp : Step crypto v w w') : Inv crypto v w' := by
  cases hsp with
  | tick t hla hrp => exact inv.tick hla hrp
  | reopen maxEntries store compact he ho => exact inv.reopen ho
  | verify p hr hsr token frontID claims hva hfo => exact inv.verify hr hva
  | cancel p hr h =>
    refine inv.set_process ?_
    rintro q ⟨⟩
    exact (inv.process p hr).cancel h
  | handshake p hr hra h hv =>
    have hp := inv.process p hr
    refine inv.set_process ?_
    rintro q ⟨⟩
    exact (hp.cancel h).consume inv hra (some h) _ _ fun _ hla ha h' hwi => by
      cases hwi
      exact hp.callInv inv (hp.verified h hv) hla ha
  | consume p hr hra jti expiresAt =>
    refine inv.set_process ?_
    rintro q ⟨⟩
    exact (inv.process p hr).consume inv hra none jti expiresAt fun _ _ _ h hwi => by cases hwi
  | compactFails p hr call hc =>
    have hp := inv.process p hr
    have hph := hp.phase
    rw [hc] at hph
    exact inv.set_process (hp.compactFailed fun c mem _ => (hph c mem).1)
  | rename p hr call hc order all => exact inv.rename hr hc all
  | openFails p hr call hre => exact inv.set_process ((inv.process p hr).broken rfl rfl)
  | settleFails p hr call hre => exact inv.set_process ((inv.process p hr).broken rfl rfl)
  | settle p hr call hre => exact inv.settle hr hre
  | write p hr call chunk rest hap => exact inv.write hr hap
  | appendFails p hr call rest hap =>
    have hp := inv.process p hr
    refine inv.set_process ?_
    rintro q ⟨⟩
    exact ⟨hp.covered, hp.verified, fun hu => by cases hu⟩
  | sync p hr call hae => exact inv.sync hr hae
  | close p hr hra =>
    exact inv.set_disk (fun h hl => Disk.survives_sync (inv.recorded h hl).content) fun _ he => by cases he
  | stop => exact inv.ended
  | crash content him =>
    exact inv.set_disk (fun h hl => (inv.recorded h hl).recover him) fun _ he => by cases he

theorem Inv.steps {w w' : Sidecar} (inv : Inv crypto v w) (run : Steps crypto v w w') : Inv crypto v w' := by
  induction run with
  | refl => exact inv
  | tail _ hsp ih => exact ih.step hsp

theorem inv_start (clock : { t : Time // -2 ^ 63 ≤ t ∧ t < 2 ^ 63 }) (disk : Disk UInt8) :
    Inv crypto v (start clock disk) where
  low := clock.property.1
  high := clock.property.2
  authentic _ mem := by cases mem
  distinct := List.nodup_nil
  recorded _ live := by cases live.1
  process _ running := by cases running

/-! ### A run -/

def demoClaims : Claims where
  jti := ascii "ticket-0000000001"
  relayID := ascii "relay"
  frontID := ascii "front"
  issuedAt := 990
  notBefore := 990
  expiresAt := 1100
  maxStreams := 1

def demoCrypto : Crypto where
  sha256 text := (text ++ List.replicate 32 0).take 32
  sha256_length text := by simp
  verify _ _ _ := true
  decodeClaims payload := if payload = [1] then some demoClaims else none
  marshalClaims _ := some [1]

def demoVerifier : TicketVerifier where
  keys := (∅ : KeyedMap Bytes Bytes).insert [107] [7]
  localRelayID := ascii "relay"
  opts := { maxLifetime := maxTicketLifetime, clockSkew := 30 * second }
  normal := by decide

def demoToken : Bytes := ascii "v1" ++ 46 :: 107 :: 46 :: (Base64.encode [1] ++ 46 :: Base64.encode (List.replicate 64 0))
def demoHandshake : Handshake := ⟨demoToken, demoClaims⟩

def demoUntil : Time := 1130 * second
def demoKey : ReplayKey := newReplayKey demoCrypto demoClaims.jti
def demoCall : ConsumeCall := { handshake := some demoHandshake, key := demoKey, expiresAt := demoUntil }
def demoStart : Sidecar := start ⟨1000 * second, by decide⟩ { file := .of [] }

theorem demo_verify : demoVerifier.verify demoCrypto (1000 * second) demoToken = .ok demoClaims := by rfl

theorem demo_session : ∃ w, Steps demoCrypto demoVerifier demoStart w ∧ w.clock = 1000 * second ∧
    w.sessions = [demoHandshake] ∧ w.disk.content = compactedJournal [⟨demoKey, demoUntil⟩] := by
  have ho : openDurableReplayStore 10 (unixNano (1000 * second)) [] = .ok ({ maxEntries := 10 }, true) := by
    rw [openDurableReplayStore_eq (by decide) (by decide), loadJournal, if_neg (by decide)]
    rfl
  have run : Steps demoCrypto demoVerifier demoStart _ := .single (.reopen 10 _ true rfl ho)
  have run := run.tail (.rename _ rfl none rfl [] (List.Perm.refl _))
  have run := run.tail (.settle _ rfl none rfl)
  have run := run.tail (.verify _ rfl rfl demoToken (ascii "front") demoClaims demo_verify rfl)
  have run := run.tail (.handshake _ rfl rfl demoHandshake (by simp [demoHandshake]))
  have run := run.tail (.write _ rfl demoCall (encodeReplayRecord demoKey demoUntil) [] rfl)
  have run := run.tail (.sync _ rfl demoCall rfl)
  exact ⟨_, run, rfl, rfl, rfl⟩

theorem ticket_admits_once (crypto : Crypto) (v : TicketVerifier) (clock : { t : Time // -2 ^ 63 ≤ t ∧ t < 2 ^ 63 })
    (disk : Disk UInt8) {w : Sidecar} (run : Steps crypto v (start clock disk) w) :
    (w.sessions.map (·.token)).Nodup ∧ (w.sessions.map (·.claims)).Nodup := by
  have inv : Inv crypto v w := (inv_start clock disk).steps run
  refine ⟨?_, inv.distinct⟩
  -- a token determines its claims
  have hcl := inv.distinct
  rw [List.Nodup, List.pairwise_map] at hcl ⊢
  refine hcl.imp_of_mem fun {a b} hm hme hd hs => hd ?_
  have ht := inv.authentic a hm
  rw [hs, inv.authentic b hme] at ht
  exact (Except.ok.inj ht).symm

theorem ticket_admits_once_demo : ∃ w p, Steps demoCrypto demoVerifier demoStart w ∧ w.sessions = [demoHandshake] ∧
    w.process = some p ∧ p.phase = .ready ∧ p.verified = [] ∧
    (w.sessions.map (·.token)).Nodup ∧ (w.sessions.map (·.claims)).Nodup := by
  obtain ⟨w, run, hcc, hse, hct⟩ := demo_session
  have hfr : Fresh (unixNano (1000 * second)) [⟨demoKey, demoUntil⟩] :=
    ⟨List.nodupKeys_singleton _, by decide, by decide, by decide⟩
  obtain ⟨store, hlo⟩ := @loadJournal_compacted 10 _ _ hfr (by decide)
  have him : w.disk.Image w.disk.content := ⟨w.disk.file, by simp, w.disk.file.durable, List.prefix_refl _⟩
  have run := run.tail (.crash _ him)
  have ho : openDurableReplayStore 10 (unixNano w.clock) w.disk.content = .ok (store, false) := by
    rw [openDurableReplayStore_eq (by decide) (by decide), hcc, hct, hlo]
  have run := run.tail (.reopen 10 store false rfl ho)
  have hva : demoVerifier.verify demoCrypto w.clock demoToken = .ok demoClaims := by rw [hcc]; exact demo_verify
  have run := run.tail (.verify _ rfl rfl demoToken (ascii "front") demoClaims hva rfl)
  have run := run.tail (.handshake _ rfl rfl demoHandshake (by simp [demoHandshake]))
  refine ⟨_, _, run, hse, rfl, ?_, ?_, ticket_admits_once demoCrypto demoVerifier _ _ run⟩
  · have hl : unixNano (1000 * second) < demoUntil := by decide
    have hco : store.index.Covers demoKey demoUntil :=
      loadJournal_covers hlo ⟨demoUntil, [], [], le_refl _, .nil, rfl⟩ hl
    exact SidecarProcess.consume_of_covers hco (hcc ▸ hl) _ _
  · simp [SidecarProcess.consume, demoHandshake]

end Sidecar

end OpenRung
