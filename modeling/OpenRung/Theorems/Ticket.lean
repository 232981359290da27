import OpenRung.Broker.WSSTicket
import OpenRung.Lib.Trace
import OpenRung.Theorems.Directory
import OpenRung.Theorems.Replay

/-! Tickets from their issue to their verification. What `Sign` writes, `Verify` reads back within the claims' window
    at the relay they name; and the broker issues tickets for live relays and their own fronts only, within the
    relay's lease. -/

namespace OpenRung.Wss

/-! ### Claims -/

@[mk_iff]
structure Claims.Sound (c : Claims) (maxLifetime : Duration) : Prop where
  version : c.version = ticketVersion
  audience : c.audience = ticketAudience
  jti : validID c.jti 16 128 = true
  relayID : validID c.relayID 1 128 = true
  frontID : validateFrontID c.frontID = true
  maxStreams : 1 ≤ c.maxStreams ∧ c.maxStreams ≤ maxTicketStreams
  positive : 0 < c.issuedAt
  issued : c.issuedAt ≤ c.notBefore
  begins : c.notBefore < c.expiresAt
  lifetime : c.expiresAt - c.issuedAt ≤ maxLifetime / second ∧ c.expiresAt - c.issuedAt ≤ maxTicketLifetime / second

variable {c : Claims} {now : Time} {opts : TicketOptions} {relay : Bytes}

theorem validateClaims_signing : validateClaims c now opts false relay = .ok () ↔
    c.Sound opts.maxLifetime ∧ unixTime c.issuedAt ≤ now + opts.clockSkew ∧ now < unixTime c.expiresAt := by
  rw [Claims.sound_iff]
  simp only [validateClaims, ite_error_eq_ok, Bool.not_false, if_true, Bool.false_and, Bool.or_false, Bool.not_eq_true',
    not_or, not_not, not_lt, gt_iff_lt, Bool.not_eq_false, and_true, ne_eq, and_assoc]
  grind

theorem validateClaims_verifying : validateClaims c now opts true relay = .ok () ↔
    c.Sound opts.maxLifetime ∧ c.relayID = relay ∧ unixTime c.issuedAt ≤ now + opts.clockSkew ∧
      unixTime c.notBefore ≤ now + opts.clockSkew ∧ now - opts.clockSkew < unixTime c.expiresAt := by
  rw [Claims.sound_iff]
  simp only [validateClaims, ite_error_eq_ok, Bool.not_true, if_false, Bool.true_and, Bool.false_eq_true, Bool.or_eq_true,
    decide_eq_true_eq, Bool.not_eq_true', not_or, not_not, not_lt, gt_iff_lt, Bool.not_eq_false, and_true, ne_eq, and_assoc]
  grind

/-- Claims that were signed within minutes of their times do not straddle the end of `time.Time`. -/
theorem Claims.Sound.unixTime_issued_le {maxLifetime : Duration} (hso : c.Sound maxLifetime) (hn : opts.Normal)
    (hi : unixTime c.issuedAt ≤ now + opts.clockSkew) (he : now < unixTime c.expiresAt) :
    unixTime c.issuedAt ≤ unixTime c.notBefore := by
  obtain ⟨-, -, -, hsk⟩ := hn
  have hl := hso.lifetime.2
  have hfi := hso.issued
  have hls := hso.begins
  simp only [maxTicketLifetime, maxTicketClockSkew, minute, second] at hl hsk
  simp only [unixTime, int64, second] at hi he ⊢
  lia

/-! ### Tokens -/

theorem hexDigit_ne_dot {n : Nat} (hsm : n < 16) : hexDigit n ≠ 46 := by
  have all : ∀ n : Fin 16, hexDigit n ≠ 46 := by decide
  exact all ⟨n, hsm⟩

theorem dot_not_mem_ticketKeyID (crypto : Crypto) (key : Bytes) : (46 : UInt8) ∉ ticketKeyID crypto key := by
  intro mem
  obtain ⟨b, -, hdi⟩ := List.mem_flatMap.mp mem
  have := b.toNat_lt
  rcases List.mem_pair.mp hdi with eq | eq
  · exact hexDigit_ne_dot (by omega) eq.symm
  · exact hexDigit_ne_dot (by omega) eq.symm

theorem decodeCanonical_eq_some {text bytes : Bytes} : decodeCanonical text = some bytes ↔ text = Base64.encode bytes := by
  rw [decodeCanonical, Option.filter_eq_some_iff, decide_eq_true_eq]
  constructor
  · exact fun hd => hd.2.symm
  · rintro rfl
    exact ⟨Base64.decode_encode bytes, rfl⟩

def spell (keyID payload signature : Bytes) : Bytes :=
  [46].intercalate [ticketPrefix, keyID, Base64.encode payload, Base64.encode signature]

theorem splitOn_spell {keyID : Bytes} (hfe : (46 : UInt8) ∉ keyID) (payload signature : Bytes) :
    (spell keyID payload signature).splitOn 46 =
      [ticketPrefix, keyID, Base64.encode payload, Base64.encode signature] := by
  refine List.splitOn_intercalate 46 ?_ (by simp)
  simp only [List.mem_cons, List.not_mem_nil, or_false, forall_eq_or_imp, forall_eq]
  exact ⟨by decide, hfe, Base64.not_mem_encode (by decide) _, Base64.not_mem_encode (by decide) _⟩

structure Authentic (v : TicketVerifier) (crypto : Crypto) (token : Bytes) (c : Claims) (keyID payload signature : Bytes) :
    Prop where
  spelled : token = spell keyID payload signature
  parts : token.splitOn 46 = [ticketPrefix, keyID, Base64.encode payload, Base64.encode signature]
  size : token.length ≤ maxTicketBytes
  known : ∃ key, v.keys.lookup keyID = some key ∧ crypto.verify key (ticketStatement payload) signature = true
  payloadSize : payload ≠ [] ∧ payload.length ≤ maxTicketBytes
  signatureSize : signature.length = 64
  decoded : crypto.decodeClaims payload = some c
  canonical : crypto.marshalClaims c = some payload

theorem TicketVerifier.authenticate_ok {v : TicketVerifier} {crypto : Crypto} {token : Bytes}
    (ok : v.authenticate crypto token = .ok c) :
    ∃ keyID payload signature, Authentic v crypto token c keyID payload signature := by
  simp only [authenticate, ite_error_eq_ok] at ok
  obtain ⟨-, hsz, ok⟩ := ok
  split at ok
  next version keyID payloadText signatureText hpa =>
    obtain ⟨version, ok⟩ := ite_error_eq_ok.mp ok
    split at ok
    next => cases ok
    next key hk =>
      split at ok
      next => cases ok
      next payload payloadText =>
        obtain ⟨hp, ok⟩ := ite_error_eq_ok.mp ok
        split at ok
        next => cases ok
        next signature signatureText =>
          obtain ⟨hsi, ok⟩ := ite_error_eq_ok.mp ok
          obtain ⟨hv, ok⟩ := ite_error_eq_ok.mp ok
          split at ok
          next => cases ok
          next claims hd =>
            obtain ⟨hca, hsa⟩ := ite_error_eq_ok.mp ok
            cases hsa
            rw [decodeCanonical_eq_some] at payloadText signatureText
            rw [not_not] at version
            subst version payloadText signatureText
            have hsp : [46].intercalate (token.splitOn 46) = token := List.intercalate_splitOn 46
            rw [hpa] at hsp
            simp only [not_or, not_lt, gt_iff_lt] at hp
            refine ⟨keyID, payload, signature, hsp.symm, hpa, by lia, ⟨key, hk, by simpa using hv⟩, ?_, ?_,
              hd, not_not.mp hca⟩
            · exact ⟨by simpa using hp.1, hp.2⟩
            · exact not_not.mp hsi
  next => cases ok

theorem Authentic.authenticate {v : TicketVerifier} {crypto : Crypto} {token keyID payload signature : Bytes}
    (ha : Authentic v crypto token c keyID payload signature) : v.authenticate crypto token = .ok c := by
  obtain ⟨key, hk, hv⟩ := ha.known
  have hse : ¬v.keys.entries.isEmpty = true := by
    intro hem
    have mem := KeyedMap.lookup_eq_some_iff.mp hk
    rw [List.isEmpty_iff.mp hem] at mem
    cases mem
  have hno : ¬(token.length = 0 ∨ token.length > maxTicketBytes) := by
    rintro (hem | hlr)
    · have hpa := ha.parts
      rw [List.length_eq_zero_iff.mp hem] at hpa
      simp at hpa
    · exact absurd ha.size (not_le.mpr hlr)
  have hca : ∀ bytes, decodeCanonical (Base64.encode bytes) = .some bytes := fun bytes =>
    decodeCanonical_eq_some.mpr rfl
  have hp : ¬(payload.length = 0 ∨ payload.length > maxTicketBytes) := by
    simp only [not_or, List.length_eq_zero_iff, not_lt, gt_iff_lt]
    exact ha.payloadSize
  simp only [TicketVerifier.authenticate, if_neg hse, if_neg hno, ha.parts, ne_eq, not_true_eq_false, if_false,
    hk, hca, if_neg hp, ha.signatureSize, hv, ha.decoded, ha.canonical,
    Bool.not_true, Bool.false_eq_true]

theorem TicketVerifier.verify_iff {v : TicketVerifier} {crypto : Crypto} {token : Bytes} :
    v.verify crypto now token = .ok c ↔
      v.authenticate crypto token = .ok c ∧ validateClaims c now v.opts true v.localRelayID = .ok () := by
  constructor
  · exact verify_ok
  · rintro ⟨ha, hva⟩
    simp only [verify, ha, hva]

/-! ### Signing -/

structure SigningCrypto.Lawful (crypto : SigningCrypto) : Prop where
  verify_sign : ∀ key message, crypto.verify (crypto.publicKey key) message (crypto.sign key message) = true
  sign_length : ∀ key message, (crypto.sign key message).length = 64
  roundTrip : ∀ {c maxLifetime payload}, Claims.Sound c maxLifetime → crypto.marshalClaims c = some payload →
    payload ≠ [] ∧ crypto.decodeClaims payload = some c

variable {crypto : SigningCrypto} {signer : TicketSigner} {token : Bytes} {v : TicketVerifier}

theorem TicketSigner.sign_ok (hs : signer.sign crypto now c = .ok token) :
    validateClaims c now signer.opts false [] = .ok () ∧ token.length ≤ maxTicketBytes ∧
      ∃ payload, crypto.marshalClaims c = some payload ∧
        token = spell (signer.keyID crypto) payload (crypto.sign signer.key (ticketStatement payload)) := by
  unfold sign at hs
  split at hs
  next => cases hs
  next hva =>
    split at hs
    next => cases hs
    next payload hm =>
      obtain ⟨hsz, hsa⟩ := ite_error_eq_ok.mp hs
      cases hsa
      exact ⟨hva, not_lt.mp hsz, payload, hm, rfl⟩

theorem length_payload_le (keyID payload signature : Bytes) : payload.length ≤ (spell keyID payload signature).length := by
  have ht := Base64.length_encode payload
  simp only [spell, List.intercalate, List.intersperse, List.flatten_cons, List.length_append]
  omega

theorem TicketSigner.authentic (lawful : crypto.Lawful) (signed : signer.sign crypto now c = .ok token)
    (holds : v.keys.lookup (signer.keyID crypto) = some (crypto.publicKey signer.key)) :
    v.authenticate crypto.toCrypto token = .ok c := by
  obtain ⟨valid, size, payload, marshalled, rfl⟩ := sign_ok signed
  obtain ⟨some, decoded⟩ := lawful.roundTrip (validateClaims_signing.mp valid).1 marshalled
  have whole := length_payload_le (signer.keyID crypto) payload (crypto.sign signer.key (ticketStatement payload))
  have authentic : Authentic v crypto.toCrypto _ c _ _ _ :=
    { spelled := rfl
      parts := splitOn_spell (dot_not_mem_ticketKeyID _ _) _ _
      size
      known := ⟨_, holds, lawful.verify_sign _ _⟩
      payloadSize := ⟨some, whole.trans size⟩
      signatureSize := lawful.sign_length _ _
      decoded
      canonical := marshalled }
  exact authentic.authenticate

theorem TicketSigner.accepted {signedAt : Time} (hva : validateClaims c signedAt signer.opts false [] = .ok ())
    (hl : v.opts.maxLifetime = signer.opts.maxLifetime) (hhe : v.localRelayID = c.relayID)
    (hbe : unixTime c.notBefore ≤ now) (hli : now < c.expiry) :
    validateClaims c now v.opts true v.localRelayID = .ok () := by
  obtain ⟨hso, hi, he⟩ := validateClaims_signing.mp hva
  have hor := hso.unixTime_issued_le signer.normal hi he
  obtain ⟨-, -, hsk, -⟩ := v.normal
  have hlv : now < unixTime c.expiresAt := hli
  exact validateClaims_verifying.mpr ⟨hl ▸ hso, hhe.symm, by lia, by lia, by lia⟩

/-! ### Spelling -/

theorem newTicketVerifier_keyID {crypto : Crypto} {keys : KeyedMap Bytes Bytes} {relayID : Bytes}
    (hb : newTicketVerifier crypto keys relayID opts = .ok v) {id key : Bytes} (hk : v.keys.lookup id = some key) :
    id = ticketKeyID crypto key := by
  simp only [newTicketVerifier, ite_error_eq_ok] at hb
  obtain ⟨-, -, hb⟩ := hb
  split at hb
  next => cases hb
  next hn =>
    split at hb
    next => cases hb
    next hnn =>
      cases hb
      have hch := List.findSome?_eq_none_iff.mp hnn _ (KeyedMap.lookup_eq_some_iff.mp hk)
      dsimp only at hch
      split at hch
      next => cases hch
      next =>
        split at hch
        next => cases hch
        next hsa => exact not_not.mp hsa

def tokenParts (token : Bytes) : Option (Bytes × Bytes × Bytes) :=
  match token.splitOn 46 with
  | [_, keyID, payloadText, signatureText] => do
    let payload ← Base64.decode payloadText
    let signature ← Base64.decode signatureText
    some (keyID, payload, signature)
  | _ => none

theorem Authentic.tokenParts_eq {crypto : Crypto} {keyID payload signature : Bytes}
    (ha : Authentic v crypto token c keyID payload signature) :
    tokenParts token = some (keyID, payload, signature) := by
  simp only [tokenParts, ha.parts, Base64.decode_encode]
  rfl

/-- Two tokens that verify under one key and carry the same payload and signature are one. -/
theorem token_unique {crypto : Crypto} {keys keys' : KeyedMap Bytes Bytes} {relayID relayID' : Bytes}
    {opts opts' : TicketOptions} {v v' : TicketVerifier} (hb : newTicketVerifier crypto keys relayID opts = .ok v)
    (hbu : newTicketVerifier crypto keys' relayID' opts' = .ok v') {now now' : Time} {token token' : Bytes} {c c' : Claims}
    (ok : v.verify crypto now token = .ok c) (ok' : v'.verify crypto now' token' = .ok c')
    {keyID keyID' payload signature key : Bytes} (hpa : tokenParts token = some (keyID, payload, signature))
    (hpr : tokenParts token' = some (keyID', payload, signature)) (hk : v.keys.lookup keyID = some key)
    (hkn : v'.keys.lookup keyID' = some key) : token = token' := by
  obtain ⟨_, _, _, ha⟩ := TicketVerifier.authenticate_ok (TicketVerifier.verify_ok ok).1
  obtain ⟨_, _, _, hau⟩ := TicketVerifier.authenticate_ok (TicketVerifier.verify_ok ok').1
  rw [ha.tokenParts_eq] at hpa
  rw [hau.tokenParts_eq] at hpr
  simp only [Option.some.injEq, Prod.mk.injEq] at hpa hpr
  obtain ⟨rfl, rfl, rfl⟩ := hpa
  obtain ⟨rfl, rfl, rfl⟩ := hpr
  rw [ha.spelled, hau.spelled, newTicketVerifier_keyID hb hk, newTicketVerifier_keyID hbu hkn]

end OpenRung.Wss

namespace OpenRung.Broker
open Joined

/-! ### Issue -/

theorem truncateToSecond_le (t : Time) : truncateToSecond t ≤ t ∧ t < truncateToSecond t + second := by
  have low := Int.emod_nonneg t (by decide : second ≠ 0)
  have hhi := Int.emod_lt_of_pos t (by decide : 0 < second)
  unfold truncateToSecond
  lia

theorem ticketExpiry_le (issuer : WSSTicketIssuer) (desc : Descriptor) (now : Time) :
    ticketExpiry issuer desc now ≤ desc.expiresAt := by
  unfold ticketExpiry
  split
  next => exact (truncateToSecond_le desc.expiresAt).1
  next hlt => exact not_lt.mp hlt

theorem expiry_unixSeconds_le {c : Wss.Claims} {t : Time} (hpo : 0 < c.expiresAt) (hen : c.expiresAt = unixSeconds t) :
    c.expiry ≤ t := by
  simp only [Wss.Claims.expiry, Wss.unixTime, int64, unixSeconds, second] at *
  lia

theorem wssTicketHandler_created {crypto : Wss.SigningCrypto} {store : RelayLookup} {issuer : WSSTicketIssuer}
    {clock signedAt expiresAt : Time} {random : Option Bytes} {body : TicketBody} {ticket : Bytes} {url : String}
    (hc : wssTicketHandler crypto store issuer clock signedAt random body = .created ticket expiresAt url) :
    ∃ request desc front jti, body = .request request ∧
      store.byID (trimSpace request.relayID) (truncateToSecond clock) = .ok desc ∧
      findWSSFront desc.wssFronts (trimSpace request.frontID) = some front ∧
      truncateToSecond clock + second < ticketExpiry issuer desc (truncateToSecond clock) ∧
      issuer.signer.sign crypto signedAt (ticketClaims issuer desc front jti (truncateToSecond clock)
        (ticketExpiry issuer desc (truncateToSecond clock))) = .ok ticket := by
  cases body with
  | invalid => cases hc
  | trailing => cases hc
  | request request =>
    simp only [wssTicketHandler] at hc
    split at hc
    next => cases hc
    next =>
      split at hc
      next => cases hc
      next =>
        split at hc
        next => cases hc
        next => cases hc
        next desc hfo =>
          split at hc
          next => cases hc
          next =>
            split at hc
            next => cases hc
            next front hf =>
              split at hc
              next => cases hc
              next hla =>
                split at hc
                next => cases hc
                next jti _ =>
                  split at hc
                  next => cases hc
                  next hs =>
                    cases hc
                    exact ⟨request, desc, front, jti, rfl, hfo, hf, not_not.mp hla, hs⟩

def Store.relayLookup (s : Store) (placed : Placed s.relays) : RelayLookup where
  rows desc := s.relays.lookup desc.id = some desc
  byID := s.relayByID
  finds {id now desc} found := by
    unfold Store.relayByID at found
    split at found
    next row stored =>
      split at found
      next live =>
        cases found
        have own := placed.keyed id desc stored
        exact ⟨own ▸ stored, own, live⟩
      next => cases found
    next => cases found

def Postgres.relayLookup (pg : Postgres) : RelayLookup where
  rows desc := ∃ id, pg.descriptors.lookup id = some desc
  byID := pg.relayByID
  finds {id now desc} found := by
    unfold Postgres.relayByID at found
    split at found
    next => cases found
    next row rest selected =>
      cases found
      obtain ⟨stored, passes⟩ := Table.mem_selectWhere.mp (selected ▸ List.mem_cons_self)
      simp only [Bool.and_eq_true, decide_eq_true_eq] at passes
      exact ⟨stored, passes⟩

theorem placed_run {checks : RegisterChecks} {calls : List (Time × DirectoryOp)} {s : Store}
    (run : Trace (fun s call s' => (s.direct checks call.1 call.2).1 = s') ({} : Store) calls s) : Placed s.relays := by
  refine run.invariant (P := fun s => Placed s.relays) (fun s call s' hpl step => ?_) Placed.empty
  rw [← step]
  exact hpl.step (direct_rows checks s call.1 call.2)

theorem ticket_of_created {crypto : Wss.SigningCrypto} {store : RelayLookup} {issuer : WSSTicketIssuer}
    {clock signedAt expiresAt : Time} {random : Option Bytes} {body : TicketBody} {ticket : Bytes} {url : String}
    (hc : wssTicketHandler crypto store issuer clock signedAt random body = .created ticket expiresAt url) :
    ∃ request desc claims, body = .request request ∧ store.rows desc ∧ desc.id = trimSpace request.relayID ∧
      clock < desc.expiresAt ∧ issuer.signer.sign crypto signedAt claims = .ok ticket ∧
      claims.relayID = utf8 desc.id ∧
      (∃ front ∈ desc.wssFronts, front.id = trimSpace request.frontID ∧ claims.frontID = utf8 front.id) ∧
      claims.expiry ≤ desc.expiresAt := by
  obtain ⟨request, desc, front, jti, hsa, hfo, hf, hla, hs⟩ := wssTicketHandler_created hc
  obtain ⟨hst, own, -⟩ := store.finds hfo
  have hw := ticketExpiry_le issuer desc (truncateToSecond clock)
  have hsn := (truncateToSecond_le clock).2
  have hso := (Wss.validateClaims_signing.mp (Wss.TicketSigner.sign_ok hs).1).1
  have hpo := hso.positive.trans_le (hso.issued.trans hso.begins.le)
  have hfr := List.find?_some hf
  simp only [Bool.and_eq_true, decide_eq_true_eq] at hfr
  exact ⟨request, desc, _, hsa, hst, own, by lia, hs, rfl,
    ⟨front, List.mem_of_find?_eq_some hf, hfr.1, rfl⟩, (expiry_unixSeconds_le hpo rfl).trans hw⟩

/-! ### The result -/

theorem wss_ticket_round_trip (crypto : Wss.SigningCrypto) (lawful : crypto.Lawful) :
    (∀ (signer : Wss.TicketSigner) (signedAt : Time) (claims : Wss.Claims) (token : Bytes),
      signer.sign crypto signedAt claims = .ok token → ∀ v : Wss.TicketVerifier,
      v.keys.lookup (signer.keyID crypto) = some (crypto.publicKey signer.key) →
      v.opts.maxLifetime = signer.opts.maxLifetime →
      (v.localRelayID = claims.relayID → ∀ now, Wss.unixTime claims.notBefore ≤ now → now < claims.expiry →
        v.verify crypto.toCrypto now token = .ok claims) ∧
      (v.localRelayID ≠ claims.relayID → ∀ now c, v.verify crypto.toCrypto now token ≠ .ok c) ∧
      ∀ now, claims.expiry + v.opts.clockSkew ≤ now → ∀ c, v.verify crypto.toCrypto now token ≠ .ok c) ∧
    (∀ (keys keys' : KeyedMap Bytes Bytes) (relayID relayID' : Bytes) (opts opts' : Wss.TicketOptions)
      (v v' : Wss.TicketVerifier), Wss.newTicketVerifier crypto.toCrypto keys relayID opts = .ok v →
      Wss.newTicketVerifier crypto.toCrypto keys' relayID' opts' = .ok v' →
      ∀ (now now' : Time) (token token' : Bytes) (c c' : Wss.Claims), v.verify crypto.toCrypto now token = .ok c →
      v'.verify crypto.toCrypto now' token' = .ok c' → token ≠ token' →
      ∀ (key keyID keyID' payload payload' signature signature' : Bytes),
      Wss.tokenParts token = some (keyID, payload, signature) → v.keys.lookup keyID = some key →
      Wss.tokenParts token' = some (keyID', payload', signature') → v'.keys.lookup keyID' = some key →
      payload ≠ payload' ∨ signature ≠ signature') ∧
    (∀ (store : RelayLookup) (issuer : WSSTicketIssuer) (clock signedAt : Time) (random : Option Bytes) (body : TicketBody)
      (ticket : Bytes) (expiresAt : Time) (url : String),
      wssTicketHandler crypto store issuer clock signedAt random body = .created ticket expiresAt url →
      ∃ request desc claims, body = .request request ∧ store.rows desc ∧ desc.id = trimSpace request.relayID ∧
        clock < desc.expiresAt ∧ issuer.signer.sign crypto signedAt claims = .ok ticket ∧
        claims.relayID = utf8 desc.id ∧
        (∃ front ∈ desc.wssFronts, front.id = trimSpace request.frontID ∧ claims.frontID = utf8 front.id) ∧
        claims.expiry ≤ desc.expiresAt) ∧
    (∀ (checks : RegisterChecks) (calls : List (Time × DirectoryOp)) (s : Store),
      Trace (fun s call s' => (s.direct checks call.1 call.2).1 = s') ({} : Store) calls s →
      ∃ store : RelayLookup, store.byID = s.relayByID ∧ store.rows = fun desc => s.relays.lookup desc.id = some desc) ∧
    ∀ pg : Postgres, ∃ store : RelayLookup, store.byID = pg.relayByID ∧
      store.rows = fun desc => ∃ id, pg.descriptors.lookup id = some desc := by
  refine ⟨fun signer signedAt claims token hs v hho hl => ?_, ?_, fun _ _ _ _ _ _ _ _ _ => ticket_of_created,
    fun checks calls s run => ⟨s.relayLookup (placed_run run), rfl, rfl⟩, fun pg => ⟨pg.relayLookup, rfl, rfl⟩⟩
  · have ha := Wss.TicketSigner.authentic lawful hs hho
    have hva := (Wss.TicketSigner.sign_ok hs).1
    -- What a verifier accepts under this token are the signed claims, which then hold there.
    have hh : ∀ {now c}, v.verify crypto.toCrypto now token = .ok c →
        Wss.validateClaims claims now v.opts true v.localRelayID = .ok () := by
      intro now c ok
      obtain ⟨hr, hch⟩ := Wss.TicketVerifier.verify_ok ok
      rw [ha] at hr
      cases hr
      exact hch
    refine ⟨fun hhe now hbe hli => ?_, fun ho now c ok => ?_, fun now hle c ok => ?_⟩
    · exact Wss.TicketVerifier.verify_iff.mpr ⟨ha, Wss.TicketSigner.accepted hva hl hhe hbe hli⟩
    · exact ho (Wss.validateClaims_verifying.mp (hh ok)).2.1.symm
    · have hli := (Wss.validateClaims_verifying.mp (hh ok)).2.2.2.2
      simp only [Wss.Claims.expiry] at hle
      lia
  · intro keys keys' relayID relayID' opts opts' v v' hb hbu now now' token token' c c' ok ok' ne key keyID keyID'
      payload payload' signature signature' hpa hk hpr hkn
    by_contra hsa
    simp only [not_or, not_not] at hsa
    obtain ⟨rfl, rfl⟩ := hsa
    exact ne (Wss.token_unique hb hbu ok ok' hpa hpr hk hkn)

section Sole
open Wss

def soleClaims : Claims where
  jti := ascii "ticket-0000000001"
  relayID := ascii "relay"
  frontID := ascii "front"
  issuedAt := 990
  notBefore := 990
  expiresAt := 1100
  maxStreams := 1

theorem length_padded (text : Bytes) : ((text ++ List.replicate 32 0).take 32).length = 32 := by
  simp

def soleCrypto : SigningCrypto where
  sha256 text := (text ++ List.replicate 32 0).take 32
  sha256_length := length_padded
  verify key _ signature := decide (key = [7] ∧ signature = List.replicate 64 0)
  decodeClaims payload := if payload = [1] then some soleClaims else none
  marshalClaims c := if c = soleClaims then some [1] else none
  publicKey _ := [7]
  sign _ _ := List.replicate 64 0

theorem soleCrypto_lawful : soleCrypto.Lawful where
  verify_sign _ _ := rfl
  sign_length _ _ := rfl
  roundTrip {c _ payload} _ marshalled := by
    obtain ⟨rfl, hsa⟩ := Option.ite_none_right_eq_some.mp marshalled
    obtain rfl := Option.some.inj hsa
    exact ⟨by simp, rfl⟩

def soleSigner : TicketSigner where
  key := []
  opts := { maxLifetime := maxTicketLifetime }
  normal := by decide

theorem soleOptions_normal : TicketOptions.Normal { maxLifetime := maxTicketLifetime, clockSkew := 30 * second } := by
  decide

def soleVerifier : TicketVerifier where
  keys := (∅ : KeyedMap Bytes Bytes).insert (soleSigner.keyID soleCrypto) [7]
  localRelayID := ascii "relay"
  opts := { maxLifetime := maxTicketLifetime, clockSkew := 30 * second }
  normal := soleOptions_normal

theorem wss_ticket_round_trip_sole : ∃ token, soleSigner.sign soleCrypto (1000 * second) soleClaims = .ok token ∧
    soleVerifier.verify soleCrypto.toCrypto (1050 * second) token = .ok soleClaims := by
  obtain ⟨token, hs⟩ : ∃ token, soleSigner.sign soleCrypto (1000 * second) soleClaims = .ok token := ⟨_, rfl⟩
  have hv := (wss_ticket_round_trip soleCrypto soleCrypto_lawful).1 soleSigner (1000 * second) soleClaims token hs
    soleVerifier (AList.lookup_insert _) rfl
  exact ⟨token, hs, hv.1 rfl (1050 * second) (by decide) (by decide)⟩

end Sole

end OpenRung.Broker
