import OpenRung.Theorems.Sidecar
import OpenRung.Theorems.Ticket

/-! Tickets from the broker that issues them to the sessions that a relay's sidecar admits by them, when anyone may present
    any token. Every session goes back to a ticket of its own, issued before for this relay and within its lease. -/

namespace OpenRung
open Wss Broker Joined

/-! ### Where a handshake comes from -/

def StorePhase.handshake : StorePhase → Option Handshake
  | .ready => none
  | .compacting call => call.bind (·.handshake)
  | .renamed call => call.bind (·.handshake)
  | .appending call _ => call.handshake

def SidecarProcess.Holds (p : SidecarProcess) (h : Handshake) : Prop := h ∈ p.verified ∨ h ∈ p.phase.handshake

/-- The handshake has passed `Verify`: it has a session, or may get one from the running process. -/
def Sidecar.Knows (w : Sidecar) (h : Handshake) : Prop := h ∈ w.sessions ∨ ∃ p ∈ w.process, p.Holds h

namespace SidecarProcess
variable {crypto : Crypto} {p q : SidecarProcess} {h : Handshake}

theorem holds_of_consume {now expiresAt : Time} {handshake : Option Handshake} {jti : Bytes}
    (hh : (p.consume crypto now handshake jti expiresAt).Holds h) : h ∈ p.verified ∨ h ∈ handshake := by
  refine hh.imp_right fun hc => ?_
  simp only [consume] at hc
  cases hd : (p.store.startConsume crypto (unixNano now) jti expiresAt).1 <;>
    simp only [hd, ConsumeCall.admitted, StorePhase.handshake] at hc
  · cases hc
  · cases hc
  · exact hc
  · exact hc

theorem holds_of_compactFailed {store : DurableReplayStore} {call : Option ConsumeCall}
    (hq : q ∈ { p with store }.compactFailed call) (hh : q.Holds h) : h ∈ p.verified := by
  cases call with
  | none => cases hq
  | some call =>
    cases hq
    exact hh.resolve_right (by rintro ⟨⟩)

theorem holds_of_compacted {store : DurableReplayStore} {call : Option ConsumeCall}
    (hh : ({ p with store }.compacted call).Holds h) : h ∈ p.verified ∨ h ∈ call.bind (·.handshake) := by
  cases call with
  | none => exact hh
  | some call => exact hh

end SidecarProcess

namespace Sidecar
variable {crypto : Crypto} {v : TicketVerifier} {w w' : Sidecar} {h : Handshake}

theorem Knows.of_process {clock : Time} {disk : Disk UInt8} {process : Option SidecarProcess}
    (hk : Knows { clock, disk, process, sessions := w.sessions } h)
    (hp : ∀ q ∈ process, q.Holds h → ∃ p ∈ w.process, p.Holds h) : w.Knows h := by
  rcases hk with hs | ⟨q, hq, hh⟩
  · exact .inl hs
  · exact .inr (hp q hq hh)

/-- A handshake that is new to the sidecar has just passed `Verify`. -/
theorem knows_of_step (hsp : Step crypto v w w') (hk : w'.Knows h) :
    w.Knows h ∨ v.verify crypto w.clock h.token = .ok h.claims ∧ ∃ p ∈ w'.process, h ∈ p.verified := by
  cases hsp with
  | tick t hla hrp => exact .inl hk
  | reopen maxEntries store compact he ho =>
    refine .inl (hk.of_process fun q hq hh => ?_)
    cases hq
    rcases hh with hin | hin
    · cases hin
    · cases compact <;> cases hin
  | verify p hr hsr token frontID claims hva hfo =>
    rcases hk with hs | ⟨q, hq, hv | hc⟩
    · exact .inl (.inl hs)
    · cases hq
      rcases List.mem_cons.mp hv with rfl | hold
      · exact .inr ⟨hva, _, rfl, hv⟩
      · exact .inl (.inr ⟨p, hr, .inl hold⟩)
    · cases hq
      exact .inl (.inr ⟨p, hr, .inr hc⟩)
  | cancel p hr gone =>
    refine .inl (hk.of_process fun q hq hh => ⟨p, hr, ?_⟩)
    cases hq
    exact hh.imp_left List.mem_of_mem_erase
  | handshake p hr hra caller hv =>
    refine .inl (hk.of_process fun q hq hh => ⟨p, hr, .inl ?_⟩)
    cases hq
    rcases SidecarProcess.holds_of_consume hh with hold | hc
    · exact List.mem_of_mem_erase hold
    · cases hc
      exact hv
  | consume p hr hra jti expiresAt =>
    refine .inl (hk.of_process fun q hq hh => ⟨p, hr, .inl ?_⟩)
    cases hq
    exact (SidecarProcess.holds_of_consume hh).resolve_right (by rintro ⟨⟩)
  | compactFails p hr call hc =>
    exact .inl (hk.of_process fun q hq hh => ⟨p, hr, .inl (SidecarProcess.holds_of_compactFailed hq hh)⟩)
  | rename p hr call hc order all =>
    refine .inl (hk.of_process fun q hq hh => ⟨p, hr, ?_⟩)
    cases hq
    rwa [SidecarProcess.Holds, hc]
  | openFails p hr call hre =>
    exact .inl (hk.of_process fun q hq hh => ⟨p, hr, .inl (SidecarProcess.holds_of_compactFailed hq hh)⟩)
  | settleFails p hr call hre =>
    exact .inl (hk.of_process fun q hq hh => ⟨p, hr, .inl (SidecarProcess.holds_of_compactFailed hq hh)⟩)
  | settle p hr call hre =>
    refine .inl (hk.of_process fun q hq hh => ⟨p, hr, ?_⟩)
    cases hq
    rw [SidecarProcess.Holds, hre]
    exact SidecarProcess.holds_of_compacted hh
  | write p hr call chunk rest hap =>
    refine .inl (hk.of_process fun q hq hh => ⟨p, hr, ?_⟩)
    cases hq
    rwa [SidecarProcess.Holds, hap]
  | appendFails p hr call rest hap =>
    refine .inl (hk.of_process fun q hq hh => ⟨p, hr, .inl ?_⟩)
    cases hq
    exact hh.resolve_right (by rintro ⟨⟩)
  | sync p hr call hae =>
    rcases hk with hs | ⟨q, hq, hh⟩
    · rcases List.mem_append.mp hs with hnew | hold
      · refine .inl (.inr ⟨p, hr, .inr ?_⟩)
        rw [hae]
        exact Option.mem_toList.mp hnew
      · exact .inl (.inl hold)
    · cases hq
      exact .inl (.inr ⟨p, hr, .inl (hh.resolve_right (by rintro ⟨⟩))⟩)
  | close p hr hra => exact .inl (hk.of_process fun q hq => by cases hq)
  | stop => exact .inl (hk.of_process fun q hq => by cases hq)
  | crash content him => exact .inl (hk.of_process fun q hq => by cases hq)

end Sidecar

/-! ### The broker and the sidecar -/

/-- A ticket that the handler issued, and what it read. -/
structure IssuedTicket (crypto : SigningCrypto) (issuer : WSSTicketIssuer) where
  directory : RelayLookup
  clock : Time
  signedAt : Time
  random : Option Bytes
  body : TicketBody
  ticket : Bytes
  expiresAt : Time
  url : String
  created : wssTicketHandler crypto directory issuer clock signedAt random body = .created ticket expiresAt url

structure Bridge (crypto : SigningCrypto) (issuer : WSSTicketIssuer) where
  directory : RelayLookup
  sidecar : Sidecar
  issued : List (IssuedTicket crypto issuer) := []

namespace Bridge
variable {crypto : SigningCrypto} {issuer : WSSTicketIssuer} {v : TicketVerifier}

def Signs (t : IssuedTicket crypto issuer) (c : Claims) : Prop := issuer.signer.sign crypto t.signedAt c = .ok t.ticket

/-- Nobody but the broker signs: a signature of the token that verifies is on a payload that was issued before. -/
def Genuine (v : TicketVerifier) (b : Bridge crypto issuer) (token : Bytes) : Prop :=
  ∀ keyID payload signature key, tokenParts token = some (keyID, payload, signature) → v.keys.lookup keyID = some key →
    crypto.verify key (ticketStatement payload) signature = true →
    ∃ t ∈ b.issued, ∃ c, Signs t c ∧ crypto.marshalClaims c = some payload

inductive Step (v : TicketVerifier) (b : Bridge crypto issuer) : Bridge crypto issuer → Prop
  | directory (directory : RelayLookup) : Step v b { b with directory }
  | issue (t : IssuedTicket crypto issuer) (current : t.directory = b.directory) :
      Step v b { b with issued := t :: b.issued }
  | sidecar (w : Sidecar) (step : Sidecar.Step crypto.toCrypto v b.sidecar w)
      (presented : ∀ p ∈ w.process, ∀ h ∈ p.verified, b.Genuine v h.token) : Step v b { b with sidecar := w }

def Steps (v : TicketVerifier) : Bridge crypto issuer → Bridge crypto issuer → Prop := Relation.ReflTransGen (Step v)

def start (directory : RelayLookup) (clock : { t : Time // -2 ^ 63 ≤ t ∧ t < 2 ^ 63 }) (disk : Disk UInt8) :
    Bridge crypto issuer := { directory, sidecar := .start clock disk }

theorem signs_payload (lawful : crypto.Lawful) {t : IssuedTicket crypto issuer} {c : Claims} (hs : Signs t c) :
    ∃ payload, crypto.decodeClaims payload = some c ∧ crypto.marshalClaims c = some payload ∧
      t.ticket = spell (issuer.signer.keyID crypto) payload (crypto.sign issuer.signer.key (ticketStatement payload)) := by
  obtain ⟨hva, -, payload, hm, ht⟩ := TicketSigner.sign_ok hs
  exact ⟨payload, (lawful.roundTrip (validateClaims_signing.mp hva).1 hm).2, hm, ht⟩

/-- A ticket is for one set of claims. -/
theorem signs_unique (lawful : crypto.Lawful) {t : IssuedTicket crypto issuer} {c c' : Claims} (hs : Signs t c)
    (hs' : Signs t c') : c = c' := by
  obtain ⟨payload, hd, -, ht⟩ := signs_payload lawful hs
  obtain ⟨payload', hd', -, ht'⟩ := signs_payload lawful hs'
  have hdot : (46 : UInt8) ∉ issuer.signer.keyID crypto := dot_not_mem_ticketKeyID _ _
  have hparts := congrArg (List.splitOn 46) (ht.symm.trans ht')
  rw [splitOn_spell hdot, splitOn_spell hdot] at hparts
  simp only [List.cons.injEq, and_true, true_and] at hparts
  have hp := congrArg Base64.decode hparts.1
  rw [Base64.decode_encode, Base64.decode_encode] at hp
  rw [Option.some.inj hp, hd'] at hd
  exact (Option.some.inj hd).symm

def Ticketed (v : TicketVerifier) (b : Bridge crypto issuer) (h : Handshake) : Prop :=
  h.claims.relayID = v.localRelayID ∧ ∃ t ∈ b.issued, Signs t h.claims

theorem Genuine.ticketed (lawful : crypto.Lawful) {b : Bridge crypto issuer} {now : Time} {h : Handshake}
    (hg : b.Genuine v h.token) (hv : v.verify crypto.toCrypto now h.token = .ok h.claims) : b.Ticketed v h := by
  obtain ⟨hau, hva⟩ := TicketVerifier.verify_ok hv
  obtain ⟨keyID, payload, signature, ha⟩ := TicketVerifier.authenticate_ok hau
  obtain ⟨key, hl, hsig⟩ := ha.known
  obtain ⟨t, ht, c, hs, hm⟩ := hg keyID payload signature key ha.tokenParts_eq hl hsig
  obtain ⟨payload', hd, hm', -⟩ := signs_payload lawful hs
  obtain rfl := Option.some.inj (hm.symm.trans hm')
  rw [ha.decoded] at hd
  refine ⟨(validateClaims_verifying.mp hva).2.1, t, ht, ?_⟩
  rwa [Option.some.inj hd]

structure Inv (v : TicketVerifier) (b : Bridge crypto issuer) : Prop where
  sidecar : Sidecar.Inv crypto.toCrypto v b.sidecar
  ticketed : ∀ h, b.sidecar.Knows h → b.Ticketed v h

theorem Inv.step (lawful : crypto.Lawful) {b b' : Bridge crypto issuer} (inv : Inv v b) (hsp : Step v b b') :
    Inv v b' := by
  cases hsp with
  | directory directory => exact ⟨inv.sidecar, inv.ticketed⟩
  | issue t current =>
    refine ⟨inv.sidecar, fun h hk => ?_⟩
    obtain ⟨hrelay, t', ht', hs⟩ := inv.ticketed h hk
    exact ⟨hrelay, t', List.mem_cons_of_mem _ ht', hs⟩
  | sidecar w step presented =>
    refine ⟨inv.sidecar.step step, fun h hk => ?_⟩
    rcases Sidecar.knows_of_step step hk with hold | ⟨hv, p, hp, hin⟩
    · exact inv.ticketed h hold
    · exact Genuine.ticketed lawful (presented p hp h hin) hv

theorem Inv.steps (lawful : crypto.Lawful) {b b' : Bridge crypto issuer} (inv : Inv v b) (run : Steps v b b') :
    Inv v b' := by
  induction run with
  | refl => exact inv
  | tail _ hsp ih => exact ih.step lawful hsp

theorem inv_start (directory : RelayLookup) (clock : { t : Time // -2 ^ 63 ≤ t ∧ t < 2 ^ 63 }) (disk : Disk UInt8) :
    Inv v (start directory clock disk : Bridge crypto issuer) where
  sidecar := Sidecar.inv_start clock disk
  ticketed h hk := by
    rcases hk with hs | ⟨p, hp, -⟩
    · cases hs
    · cases hp

theorem Inv.length_le (lawful : crypto.Lawful) {b : Bridge crypto issuer} (inv : Inv v b) :
    b.sidecar.sessions.length ≤ b.issued.length := by
  have hticket : ∀ h : { h // h ∈ b.sidecar.sessions }, ∃ t ∈ b.issued, Signs t h.val.claims :=
    fun h => (inv.ticketed h.val (.inl h.property)).2
  choose ticketOf hissued hsigns using hticket
  have hd := inv.sidecar.distinct
  have hn : (b.sidecar.sessions.attach.map ticketOf).Nodup := by
    refine List.Nodup.map_on (fun h _ h' _ hsame => ?_) hd.of_map.attach
    have hs := hsigns h'
    rw [← hsame] at hs
    exact Subtype.ext (List.inj_on_of_nodup_map hd h.property h'.property (signs_unique lawful (hsigns h) hs))
  have hsub : b.sidecar.sessions.attach.map ticketOf ⊆ b.issued := by
    intro t ht
    obtain ⟨h, -, rfl⟩ := List.mem_map.mp ht
    exact hissued h
  simpa using (hn.subperm hsub).length_le

/-- Whatever is presented to the sidecar, and however it crashes: every session has a ticket that the broker issued before,
    when its directory held this relay, with a lease that outlasts the ticket and the ticket's front; and there are
    no more sessions than tickets. -/
theorem bridge_sessions_issued (lawful : crypto.Lawful) (directory : RelayLookup)
    (clock : { t : Time // -2 ^ 63 ≤ t ∧ t < 2 ^ 63 }) (disk : Disk UInt8) {b : Bridge crypto issuer}
    (run : Steps v (start directory clock disk) b) :
    (∀ h ∈ b.sidecar.sessions, ∃ t ∈ b.issued, Signs t h.claims ∧ ∃ desc, t.directory.rows desc ∧
      utf8 desc.id = v.localRelayID ∧ t.clock < desc.expiresAt ∧ h.claims.expiry ≤ desc.expiresAt ∧
      ∃ front ∈ desc.wssFronts, utf8 front.id = h.claims.frontID) ∧
    b.sidecar.sessions.length ≤ b.issued.length := by
  have inv := (inv_start directory clock disk).steps lawful run
  refine ⟨fun h hh => ?_, inv.length_le lawful⟩
  obtain ⟨hrelay, t, ht, hs⟩ := inv.ticketed h (.inl hh)
  obtain ⟨request, desc, c, -, hrow, -, hlive, hs', hid, ⟨front, hfront, -, hfid⟩, hexp⟩ := ticket_of_created t.created
  obtain rfl := signs_unique lawful hs hs'
  exact ⟨t, ht, hs, desc, hrow, hid.symm.trans hrelay, hlive, hexp, front, hfront, hfid.symm⟩

def sampleRow : Descriptor where
  id := "relay_00000000000000000000000000000000"
  publicPort := 443
  identityPublicKey := "key"
  nodeClass := nodeClassFoundation
  transport := transportDirect
  exitMode := exitModeDirect
  wssFronts := [{ id := "front", url := "", protocolVersion := wssProtocolVersion }]
  expiresAt := 2000 * second

def sampleIssuer : WSSTicketIssuer := { signer := soleSigner, ttl := 100 * second, maxStreams := 1 }

def sampleClaims : Claims :=
  { soleClaims with jti := List.replicate 16 65, relayID := utf8 sampleRow.id, issuedAt := 1000, notBefore := 1000 }

def sampleCrypto : SigningCrypto :=
  { soleCrypto with
    decodeClaims := fun payload => if payload = [1] then some sampleClaims else none
    marshalClaims := fun c => if c = sampleClaims then some [1] else none }

theorem sampleCrypto_lawful : sampleCrypto.Lawful where
  verify_sign := soleCrypto_lawful.verify_sign
  sign_length := soleCrypto_lawful.sign_length
  roundTrip {c _ payload} _ marshalled := by
    obtain ⟨rfl, hsa⟩ := Option.ite_none_right_eq_some.mp marshalled
    obtain rfl := Option.some.inj hsa
    exact ⟨by simp, rfl⟩

def sampleVerifier : TicketVerifier := { soleVerifier with localRelayID := utf8 sampleRow.id }

def sampleDirectory : RelayLookup := Postgres.relayLookup { descriptors := (∅ : KeyedMap _ _).insert sampleRow.id sampleRow }

def sampleToken : Bytes := spell (soleSigner.keyID sampleCrypto) [1] (List.replicate 64 0)

theorem sample_created : wssTicketHandler sampleCrypto sampleDirectory sampleIssuer (1000 * second) (1000 * second)
    (some (List.replicate 12 0)) (.request ⟨sampleRow.id, "front"⟩) = .created sampleToken (1100 * second) "" := by
  decide +kernel

def sampleTicket : IssuedTicket sampleCrypto sampleIssuer := ⟨_, _, _, _, _, _, _, _, sample_created⟩

def sampleHandshake : Handshake := ⟨sampleToken, sampleClaims⟩
def sampleCall : ConsumeCall where
  handshake := some sampleHandshake
  key := newReplayKey sampleCrypto.toCrypto sampleClaims.jti
  expiresAt := 1130 * second

theorem sample_verify : sampleVerifier.verify sampleCrypto.toCrypto (1000 * second) sampleToken = .ok sampleClaims := by
  rfl

theorem sample_genuine {b : Bridge sampleCrypto sampleIssuer} (hissued : sampleTicket ∈ b.issued) :
    b.Genuine sampleVerifier sampleToken := by
  intro keyID payload signature key hparts
  have hsample : tokenParts sampleToken = some (soleSigner.keyID sampleCrypto, [1], List.replicate 64 0) := by
    decide +kernel
  cases hparts.symm.trans hsample
  exact fun _ _ => ⟨sampleTicket, hissued, sampleClaims, by rfl, by rfl⟩

theorem bridge_sessions_issued_one : ∃ b : Bridge sampleCrypto sampleIssuer,
    Steps sampleVerifier (start sampleDirectory ⟨1000 * second, by decide⟩ { file := .of [] }) b ∧
    b.sidecar.sessions = [sampleHandshake] ∧ b.sidecar.sessions.length ≤ b.issued.length := by
  have ho : openDurableReplayStore 10 (unixNano (1000 * second)) [] = .ok ({ maxEntries := 10 }, true) := by
    rw [openDurableReplayStore_eq (by decide) (by decide), loadJournal, if_neg (by decide)]
    rfl
  have hnone : ∀ {b : Bridge sampleCrypto sampleIssuer}, ∀ h ∈ [sampleHandshake].erase sampleHandshake,
      b.Genuine sampleVerifier h.token := by
    intro b h hh
    rw [List.erase_cons_head] at hh
    cases hh
  have run : Steps sampleVerifier (start sampleDirectory ⟨1000 * second, by decide⟩ { file := .of [] }) _ :=
    .single (.issue sampleTicket rfl)
  have run := run.tail (.sidecar _ (.reopen 10 _ true rfl ho) (by rintro p ⟨⟩ h ⟨⟩))
  have run := run.tail (.sidecar _ (.rename _ rfl none rfl [] (List.Perm.refl _)) (by rintro p ⟨⟩ h ⟨⟩))
  have run := run.tail (.sidecar _ (.settle _ rfl none rfl) (by rintro p ⟨⟩ h ⟨⟩))
  have run := run.tail (.sidecar _ (.verify _ rfl rfl sampleToken (ascii "front") sampleClaims sample_verify rfl) (by
    rintro p ⟨⟩ h hh
    obtain rfl := List.mem_singleton.mp hh
    exact sample_genuine (List.mem_singleton_self _)))
  have run := run.tail (.sidecar _ (.handshake _ rfl rfl sampleHandshake (List.mem_singleton_self _)) (by
    rintro p ⟨⟩
    exact hnone))
  have run := run.tail (.sidecar _ (.write _ rfl sampleCall
    (encodeReplayRecord sampleCall.key sampleCall.expiresAt) [] rfl) (by
    rintro p ⟨⟩
    exact hnone))
  have run := run.tail (.sidecar _ (.sync _ rfl sampleCall rfl) (by
    rintro p ⟨⟩
    exact hnone))
  exact ⟨_, run, rfl, (bridge_sessions_issued sampleCrypto_lawful _ _ _ run).2⟩

end Bridge

end OpenRung
