import OpenRung.Relay.Normalize
import OpenRung.Tunnel.Hello

/-! The identity proof of a tunnel relay at the broker. The relay signs a request without an endpoint, the hub submits
    one with its own, and the broker normalises that one: the three agree on every field that the statement binds. -/

namespace OpenRung.Tunnel
open Broker Relay

structure Signer (crypto : IdentityCrypto) (priv : Bytes) (expiresAt : Time) : Prop where
  base64 : ∀ bytes, crypto.decodeBase64 (crypto.encodeBase64 bytes) = some bytes
  base64_empty : crypto.decodeBase64 "" = some []
  publicKey_size : (crypto.publicKey priv).length = 32
  sign_size : ∀ message, (crypto.sign priv message).length = 64
  verifies : ∀ message, crypto.verify (crypto.publicKey priv) message (crypto.sign priv message) = true
  rfc3339 : crypto.parseRFC3339 (crypto.formatRFC3339 expiresAt) = some (expiresAt / second * second)
  rfc3339_empty : crypto.parseRFC3339 "" = none

def breaks (text : String) : Bool := containsAny text ['\n', '\r']

structure HelloFrame.Plain (hello : HelloFrame) : Prop where
  clientID : breaks hello.clientID = false
  realityPublicKey : breaks hello.realityPublicKey = false
  shortID : breaks hello.shortID = false
  serverName : breaks hello.serverName = false
  flow : breaks hello.flow = false
  exitMode : breaks hello.exitMode = false
  label : breaks hello.label = false

theorem validateIdentityFields_ok_iff (req : RegisterRequest) :
    validateIdentityFields req = .ok () ↔ ∀ field ∈ boundTexts req, breaks field.2 = false := by
  unfold validateIdentityFields
  cases hf : (boundTexts req).find? fun field => containsAny field.2 ['\n', '\r'] with
  | none =>
    simp only [true_iff]
    intro field mem
    exact Bool.eq_false_iff.mpr (List.find?_eq_none.mp hf field mem)
  | some field =>
    simp only [reduceCtorEq, false_iff, not_forall]
    exact ⟨field, List.mem_of_find?_eq_some hf, by simpa [breaks] using List.find?_some hf⟩

/-! ### What reaches the broker -/

theorem HeldRegistration.reregister_registerReq (t : HeldRegistration) (answers : List (Option RelayRegistration)) :
    (answers.foldl HeldRegistration.reregister t).registerReq = t.registerReq := by
  induction answers generalizing t with
  | nil => rfl
  | cons answer answers ih =>
    rw [List.foldl_cons, ih]
    cases answer <;> rfl

theorem normalize_registerRequest {spelling : Spelling} (hl : spelling.toLower "" = "") {hello : HelloFrame}
    (hno : normalizeLabel hello.label = .ok hello.label) (h : HubConfig) (port : Int) (exitHost : String) :
    spelling.normalize (h.registerRequest hello port exitHost) =
      .ok { h.registerRequest hello port exitHost with nodeClass := nodeClassVolunteer } := by
  have hb : trimSpace "" = "" := rfl
  have hc : normalizeOperatorContact "" = .ok "" := rfl
  have ha : normalizeAccessHost spelling.addrString "" = .ok "" := rfl
  have cls : Relay.normalizeNodeClass spelling.toLower "" = .ok nodeClassVolunteer := by
    rw [Relay.normalizeNodeClass, hb, hl, if_pos (.inl rfl)]
  simp only [Spelling.normalize, HubConfig.registerRequest, hno, hc, ha, cls]
  rfl

theorem identityStatement_registerRequest (h : HubConfig) (hello : HelloFrame) (port : Int) (exitHost expires : String) :
    identityStatement { h.registerRequest hello port exitHost with nodeClass := nodeClassVolunteer } expires =
      identityStatement hello.statementRequest expires := by
  have ht : trimSpace transportTunnel ≠ "" := by decide
  have cls : trimSpace nodeClassVolunteer ≠ "" := by decide
  have hb : trimSpace "" = "" := rfl
  simp only [identityStatement, identityFields, effectiveTransport, effectiveNodeClass, HubConfig.registerRequest,
    HelloFrame.statementRequest, ht, cls, hb, if_true, if_false]

theorem validateIdentityFields_registerRequest {hello : HelloFrame} (hp : hello.Plain) (h : HubConfig) (port : Int)
    (exitHost : String) :
    validateIdentityFields { h.registerRequest hello port exitHost with nodeClass := nodeClassVolunteer } = .ok () ↔
      breaks h.publicHost = false := by
  have cls : breaks nodeClassVolunteer = false := by decide
  have ht : breaks transportTunnel = false := by decide
  rw [validateIdentityFields_ok_iff]
  simp only [boundTexts, HubConfig.registerRequest, List.forall_mem_cons, hp.clientID, hp.realityPublicKey,
    hp.shortID, hp.serverName, hp.flow, hp.exitMode, hp.label, cls, ht, List.not_mem_nil, false_imp_iff,
    implies_true, and_true]

/-! ### The proof at the broker -/

theorem Signer.encode_ne {crypto : IdentityCrypto} {priv : Bytes} {expiresAt : Time} (hs : Signer crypto priv expiresAt)
    {bytes : Bytes} (hsm : bytes.length ≠ 0) : crypto.encodeBase64 bytes ≠ "" := by
  intro hem
  have hba := hs.base64 bytes
  rw [hem, hs.base64_empty] at hba
  cases hba
  exact hsm rfl

theorem Signer.verifyIdentity_iff {crypto : IdentityCrypto} {priv : Bytes} {expiresAt : Time}
    (hs : Signer crypto priv expiresAt) {req signed : RegisterRequest} (now : Time)
    (hfi : (req.identityPublicKey, req.identityProof, req.identityExpiresAt) = crypto.signIdentity priv signed expiresAt)
    (hsa : identityStatement req req.identityExpiresAt = identityStatement signed req.identityExpiresAt) :
    crypto.verifyIdentity req now = .ok (some (crypto.publicKey priv)) ↔
      validateIdentityFields req = .ok () ∧ now < expiresAt / second * second ∧
        expiresAt / second * second ≤ now + maxIdentityProofWindow := by
  obtain ⟨key, hpf, hex⟩ : req.identityPublicKey = crypto.encodeBase64 (crypto.publicKey priv) ∧
      req.identityProof =
        crypto.encodeBase64 (crypto.sign priv (identityStatement signed (crypto.formatRFC3339 expiresAt))) ∧
      req.identityExpiresAt = crypto.formatRFC3339 expiresAt := by
    simpa only [IdentityCrypto.signIdentity, Prod.mk.injEq] using hfi
  have hk : req.identityPublicKey ≠ "" := by
    rw [key]
    exact hs.encode_ne (by rw [hs.publicKey_size]; decide)
  have hpr : req.identityProof ≠ "" := by
    rw [hpf]
    exact hs.encode_ne (by rw [hs.sign_size]; decide)
  have he : req.identityExpiresAt ≠ "" := by
    intro hem
    have hpa := hs.rfc3339
    rw [← hex, hem, hs.rfc3339_empty] at hpa
    cases hpa
  have hv : crypto.verify (crypto.publicKey priv) (identityStatement req req.identityExpiresAt)
      (crypto.sign priv (identityStatement signed (crypto.formatRFC3339 expiresAt))) = true := by
    rw [hsa, hex]
    exact hs.verifies _
  have hke : crypto.decodeBase64 req.identityPublicKey = some (crypto.publicKey priv) := by
    rw [key]
    exact hs.base64 _
  have hpo : crypto.decodeBase64 req.identityProof =
      some (crypto.sign priv (identityStatement signed (crypto.formatRFC3339 expiresAt))) := by
    rw [hpf]
    exact hs.base64 _
  have hpa : crypto.parseRFC3339 req.identityExpiresAt = some (expiresAt / second * second) := by
    rw [hex]
    exact hs.rfc3339
  simp only [IdentityCrypto.verifyIdentity, hk, hpr, he, false_and, or_false, if_false]
  cases hva : validateIdentityFields req with
  | error e => simp
  | ok _ =>
    simp only [hke, hpo, hpa, hs.publicKey_size, hs.sign_size, hv, ne_eq, not_true_eq_false,
      if_false, Bool.not_true, Bool.false_eq_true, gt_iff_lt, true_and]
    by_cases hfr : now < expiresAt / second * second
    · by_cases hn : expiresAt / second * second ≤ now + maxIdentityProofWindow
      · simp only [hfr, hn, not_lt.mpr hn, not_true_eq_false, if_false, and_self]
      · simp only [hfr, hn, not_le.mp hn, not_true_eq_false, if_false, if_true, reduceCtorEq, and_false]
    · simp only [hfr, not_false_eq_true, if_true, reduceCtorEq, false_and]

/-- The broker finds the relay's key in what the hub submits just when the hub's public host has no line break and the
    signed second is ahead, by no more than the window. -/
theorem tunnel_identity_verifies_iff {crypto : IdentityCrypto} {priv : Bytes} {expiresAt : Time}
    (signer : Signer crypto priv expiresAt) {spelling : Spelling} (lower : spelling.toLower "" = "") {hello : HelloFrame}
    (plain : hello.Plain) (normal : normalizeLabel hello.label = .ok hello.label) (h : HubConfig) (port : Int)
    (exitHost : String) (first : RelayRegistration) (answers : List (Option RelayRegistration)) (now : Time) :
    let held := answers.foldl HeldRegistration.reregister
      (h.held (signHello crypto priv hello expiresAt) port exitHost first)
    spelling.registeredIdentity crypto held.registerReq now = .ok (some (crypto.publicKey priv)) ↔
      breaks h.publicHost = false ∧ now < expiresAt / second * second ∧
        expiresAt / second * second ≤ now + maxIdentityProofWindow := by
  intro held
  let signed := signHello crypto priv hello expiresAt
  let req : RegisterRequest := { h.registerRequest signed port exitHost with nodeClass := nodeClassVolunteer }
  have hso : held.registerReq = h.registerRequest signed port exitHost :=
    HeldRegistration.reregister_registerReq _ answers
  -- the proof fields are all that `signHello` changes
  have hsi : normalizeLabel signed.label = .ok signed.label := normal
  have hsg : signed.Plain := { plain with }
  have hst : identityStatement req req.identityExpiresAt =
      identityStatement hello.statementRequest req.identityExpiresAt :=
    identityStatement_registerRequest h signed port exitHost _
  have hv := signer.verifyIdentity_iff now
    (show (req.identityPublicKey, req.identityProof, req.identityExpiresAt) = _ from rfl) hst
  have hva : validateIdentityFields req = .ok () ↔ breaks h.publicHost = false :=
    validateIdentityFields_registerRequest hsg h port exitHost
  have hh : spelling.registeredIdentity crypto held.registerReq now =
      (crypto.verifyIdentity req now).mapError .identity := by
    rw [Spelling.registeredIdentity, hso, normalize_registerRequest lower hsi h port exitHost]
  rw [← hva, ← hv, hh]
  cases crypto.verifyIdentity req now with
  | error e => simp [Except.mapError]
  | ok key => simp [Except.mapError]

def acceptingCrypto : IdentityCrypto where
  publicKey := fun _ => List.replicate 32 7
  sign := fun _ _ => List.replicate 64 0
  verify := fun _ _ signature => signature.length = 64
  sha256 := id
  encodeBase64 := fun bytes => String.ofList (bytes.map fun b => Char.ofNat b.toNat)
  decodeBase64 := fun text => some (text.toList.map fun c => UInt8.ofNat c.toNat)
  encodeRawBase64 := hex
  formatRFC3339 := fun _ => "1970-01-01T01:00:00Z"
  parseRFC3339 := fun text => if text = "1970-01-01T01:00:00Z" then some hour else none
  marshalPayload := fun _ => []
  toLower := id
  normalizeFrontURL := some

theorem acceptingCrypto_signer {expiresAt : Time} (hw : expiresAt / second * second = hour) :
    Signer acceptingCrypto [] expiresAt where
  base64 := by
    intro bytes
    have hba (b : UInt8) : UInt8.ofNat (Char.ofNat b.toNat).toNat = b := by
      have hva : b.toNat.isValidChar := .inl (by have := b.toNat_lt; omega)
      rw [Char.ofNat, dif_pos hva]
      exact UInt8.ofNat_toNat
    simp only [acceptingCrypto, String.toList_ofList, List.map_map, Function.comp_def, hba, List.map_id']
  base64_empty := rfl
  publicKey_size := rfl
  sign_size := fun _ => rfl
  verifies := fun _ => rfl
  rfc3339 := by rw [hw]; rfl
  rfc3339_empty := rfl

def tunnelHello : HelloFrame where
  clientID := "client"
  serverName := "relay.example"
  exitMode := exitModeDirect
  maxSessions := 8
  label := "home-1"

theorem tunnelHello_plain : tunnelHello.Plain := by constructor <;> decide

def identitySpelling : Spelling := { toLower := id, addrString := fun _ => "" }

theorem tunnel_identity_half_past :
    let held := [none, some ⟨"relay_2", "token"⟩].foldl HeldRegistration.reregister
      (HubConfig.held { publicHost := "192.0.2.1" } (signHello acceptingCrypto [] tunnelHello hour) 20001 "198.51.100.7"
        ⟨"relay_1", "token"⟩)
    identitySpelling.registeredIdentity acceptingCrypto held.registerReq (30 * minute) = .ok (some (List.replicate 32 7)) :=
  (tunnel_identity_verifies_iff (acceptingCrypto_signer (by decide)) rfl tunnelHello_plain (by decide)
    { publicHost := "192.0.2.1" } 20001 "198.51.100.7" ⟨"relay_1", "token"⟩ _ (30 * minute)).mpr (by decide)

/-- A proof up to half a second past one o'clock has expired at one o'clock; and no proof passes through a hub whose public
    host ends in a line break. -/
theorem tunnel_identity_refused :
    let signed := signHello acceptingCrypto [] tunnelHello (hour + second / 2)
    let hub : HubConfig := { publicHost := "192.0.2.1" }
    let broken : HubConfig := { publicHost := "192.0.2.1\n" }
    identitySpelling.registeredIdentity acceptingCrypto (hub.registerRequest signed 20001 "") hour =
        .error (.identity .identityProofExpired) ∧
      identitySpelling.registeredIdentity acceptingCrypto (broken.registerRequest signed 20001 "") 0 =
        .error (.identity .identityProofInvalid) := by
  decide +kernel

end OpenRung.Tunnel
