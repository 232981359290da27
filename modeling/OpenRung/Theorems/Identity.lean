import OpenRung.Broker.Registry
import OpenRung.Relay.Identity

/-! What an identity proof binds. No bound field contains a line break, so a statement determines its lines; the WSS
    capability statement holds a digest of the identity statement and the fronts. A registration that `Register`
    accepts is therefore one that the key holder signed. -/

namespace OpenRung.Broker
open Joined

/-! ### What a registration installs -/

theorem Store.register_cases (s : Store) (checks : RegisterChecks) (req : RegisterRequest) (draws : RegisterDraws)
    (now : Time) (ttl : Duration) :
    (∃ e, s.register checks req draws now ttl = (s, .error e)) ∨
    (checks.verifyWSSCapability req now = .ok () ∧
      ((∃ id, checks.verifyIdentity req now = .ok none ∧ draws.relayID = some id ∧
          s.register checks req draws now ttl = s.installDescriptor (newDescriptor req id "" false now ttl) now) ∨
        ∃ key token, checks.verifyIdentity req now = .ok (some key) ∧ draws.leaseToken = some token ∧
          s.register checks req draws now ttl =
            s.installDescriptor (newDescriptor req (checks.deriveRelayID key) token true now ttl) now)) := by
  unfold Store.register
  cases hi : checks.verifyIdentity req now with
  | error e => exact .inl ⟨e, rfl⟩
  | ok identityKey =>
    cases hcp : checks.verifyWSSCapability req now with
    | error e => exact .inl ⟨e, rfl⟩
    | ok _ =>
      cases identityKey with
      | none =>
        cases hdr : draws.relayID with
        | none => exact .inl ⟨_, rfl⟩
        | some id => exact .inr ⟨rfl, .inl ⟨id, rfl, rfl, rfl⟩⟩
      | some key =>
        cases hdr : draws.leaseToken with
        | none => exact .inl ⟨_, rfl⟩
        | some token => exact .inr ⟨rfl, .inr ⟨key, token, rfl, rfl, rfl⟩⟩

theorem Store.register_proved {s : Store} {checks : RegisterChecks} {req : RegisterRequest} {draws : RegisterDraws}
    {now : Time} {ttl : Duration} {key : IdentityKey} {token : String}
    (hi : checks.verifyIdentity req now = .ok (some key))
    (hcp : checks.verifyWSSCapability req now = .ok ()) (hdr : draws.leaseToken = some token) :
    s.register checks req draws now ttl =
      s.installDescriptor (newDescriptor req (checks.deriveRelayID key) token true now ttl) now := by
  simp only [Store.register, hi, hcp, hdr]

theorem Store.preserveGeo_id (rows : List Descriptor) (desc : Descriptor) : (preserveGeo rows desc).id = desc.id := by
  unfold preserveGeo
  split <;> rfl

theorem Store.installDescriptor_ok_id {s : Store} {desc row : Descriptor} {now : Time}
    (ha : (s.installDescriptor desc now).2 = .ok row) : row.id = desc.id := by
  unfold Store.installDescriptor at ha
  simp only at ha
  split at ha
  · cases ha
  · cases ha
    exact preserveGeo_id _ _

/-! ### The lines of a statement -/

structure SameBound (r r' : RegisterRequest) (expiresAt expiresAt' : String) : Prop where
  expiresAt : expiresAt = expiresAt'
  transport : effectiveTransport r = effectiveTransport r'
  clientID : r.clientID = r'.clientID
  realityPublicKey : r.realityPublicKey = r'.realityPublicKey
  shortID : r.shortID = r'.shortID
  serverName : r.serverName = r'.serverName
  flow : r.flow = r'.flow
  exitMode : r.exitMode = r'.exitMode
  maxSessions : r.maxSessions = r'.maxSessions
  maxMbps : r.maxMbps = r'.maxMbps
  label : r.label = r'.label
  nodeClass : effectiveNodeClass r = effectiveNodeClass r'
  endpoint : effectiveTransport r ≠ transportTunnel → r.publicHost = r'.publicHost ∧ r.publicPort = r'.publicPort

theorem SameBound.of_fields {r r' : RegisterRequest} {e e' : String} (hs : identityFields r e = identityFields r' e') :
    SameBound r r' e e' := by
  simp only [identityFields, List.cons.injEq, and_true, true_and] at hs
  obtain ⟨hep, htr, hho, hpt, hcl, hr, hsh, hse, hfo, hei, hm,
    hma, hla, hnd⟩ := hs
  refine ⟨hep, htr, hcl, hr, hsh, hse, hfo, hei,
    intRepr_injective hm, intRepr_injective hma, hla, hnd, fun hdi => ?_⟩
  rw [← htr, if_neg hdi, if_neg hdi] at hho hpt
  exact ⟨hho, intRepr_injective hpt⟩

theorem newline_not_mem_bound {req : RegisterRequest} (hva : validateIdentityFields req = .ok ())
    {field : String × String} (mem : field ∈ boundTexts req) : '\n' ∉ field.2.toList := by
  unfold validateIdentityFields at hva
  split at hva
  · cases hva
  · next hno =>
    intro his
    rw [List.find?_eq_none] at hno
    exact hno field mem (List.any_eq_true.mpr ⟨'\n', his, by decide⟩)

theorem newline_not_mem_fields {req : RegisterRequest} {expiresAt : String}
    (valid : validateIdentityFields req = .ok ()) (plain : '\n' ∉ expiresAt.toList) :
    ∀ f ∈ identityFields req expiresAt, '\n' ∉ f.toList := by
  have bound : ∀ name text, (name, text) ∈ boundTexts req → '\n' ∉ text.toList := fun name text mem =>
    newline_not_mem_bound valid mem
  have transport : '\n' ∉ (effectiveTransport req).toList := by
    unfold effectiveTransport
    split
    · decide
    · exact bound "transport" _ (by simp [boundTexts])
  have nodeClass : '\n' ∉ (effectiveNodeClass req).toList := by
    unfold effectiveNodeClass
    split
    · decide
    · exact bound "node_class" _ (by simp [boundTexts])
  have host : '\n' ∉ (if effectiveTransport req = transportTunnel then "" else req.publicHost).toList := by
    split
    · decide
    · exact bound "public_host" _ (by simp [boundTexts])
  simp only [identityFields, List.forall_mem_cons]
  exact ⟨by decide, plain, transport, host, newline_not_mem_intRepr _, bound "client_id" _ (by simp [boundTexts]),
    bound "reality_public_key" _ (by simp [boundTexts]), bound "short_id" _ (by simp [boundTexts]),
    bound "server_name" _ (by simp [boundTexts]), bound "flow" _ (by simp [boundTexts]),
    bound "exit_mode" _ (by simp [boundTexts]), newline_not_mem_intRepr _, newline_not_mem_intRepr _,
    bound "label" _ (by simp [boundTexts]), nodeClass, by simp⟩

/-- A statement of newline-free fields is the statement of no other request, valid or not. -/
theorem SameBound.of_statement {r r' : RegisterRequest} {e e' : String} (hva : validateIdentityFields r = .ok ())
    (hpl : '\n' ∉ e.toList) (hs : identityStatement r e = identityStatement r' e') : SameBound r r' e e' := by
  have hte : "\n".intercalate (identityFields r e) = "\n".intercalate (identityFields r' e') := utf8_injective hs
  have hle : (identityFields r e).length = (identityFields r' e').length := by simp [identityFields]
  exact .of_fields (join_injective hle (newline_not_mem_fields hva hpl) hte)

/-! ### The WSS capability -/

namespace IdentityCrypto
variable {crypto : IdentityCrypto}

/-- What the proof needs of the standard library: injective encodings, no collision of SHA-256, and line breaks neither
    in base64 nor in a time that parses. -/
structure Lawful (crypto : IdentityCrypto) : Prop where
  sha256_injective : Function.Injective crypto.sha256
  encodeRawBase64_injective : Function.Injective crypto.encodeRawBase64
  encodeRawBase64_plain : ∀ bytes, '\n' ∉ (crypto.encodeRawBase64 bytes).toList
  marshalPayload_injective : Function.Injective crypto.marshalPayload
  parseRFC3339_plain : ∀ text t, crypto.parseRFC3339 text = some t → '\n' ∉ text.toList

def capabilityFields (crypto : IdentityCrypto) (req : RegisterRequest) (expires : String)
    (fronts : List WSSFrontDescriptor) : List String :=
  [wssCapabilitySpecV1, expires, crypto.encodeRawBase64 (crypto.marshalPayload {
    identityStatementSHA256 := crypto.encodeRawBase64 (crypto.sha256 (identityStatement req req.identityExpiresAt))
    fronts })]

variable {req : RegisterRequest} {statement : Bytes}

theorem wssCapabilityStatement_ok {expires : String}
    (ok : crypto.wssCapabilityStatement req expires = .ok statement) :
    ∃ fronts, crypto.normalizeWSSFronts req.wssFronts = .ok fronts ∧
      statement = utf8 ("\n".intercalate (crypto.capabilityFields req expires fronts)) := by
  unfold wssCapabilityStatement at ok
  split at ok
  · cases ok
  · next fronts hn =>
    cases ok
    exact ⟨fronts, hn, by simp [capabilityFields, String.append_assoc]⟩

theorem wssCapabilityStatement_of {expires : String}
    {fronts : List WSSFrontDescriptor} (hn : crypto.normalizeWSSFronts req.wssFronts = .ok fronts) :
    crypto.wssCapabilityStatement req expires =
      .ok (utf8 ("\n".intercalate (crypto.capabilityFields req expires fronts))) := by
  simp [wssCapabilityStatement, hn, capabilityFields, String.append_assoc]

theorem wssCapabilityStatement_binds (hl : crypto.Lawful) {r r' : RegisterRequest} {e e' : String}
    (hpl : '\n' ∉ e.toList) (hlf : crypto.wssCapabilityStatement r e = .ok statement)
    (hri : crypto.wssCapabilityStatement r' e' = .ok statement) :
    identityStatement r r.identityExpiresAt = identityStatement r' r'.identityExpiresAt ∧
      crypto.normalizeWSSFronts r.wssFronts = crypto.normalizeWSSFronts r'.wssFronts ∧ e = e' := by
  obtain ⟨fronts, hn, eq⟩ := wssCapabilityStatement_ok hlf
  obtain ⟨fronts', hnr, eq'⟩ := wssCapabilityStatement_ok hri
  have hfe : ∀ f ∈ crypto.capabilityFields r e fronts, '\n' ∉ f.toList := by
    simp only [capabilityFields, List.forall_mem_cons]
    exact ⟨by decide, hpl, hl.encodeRawBase64_plain _, by simp⟩
  have hle : (crypto.capabilityFields r e fronts).length = (crypto.capabilityFields r' e' fronts').length := by
    simp [capabilityFields]
  have hte := utf8_injective (eq.symm.trans eq')
  have hfi := join_injective hle hfe hte
  simp only [capabilityFields, List.cons.injEq, and_true, true_and] at hfi
  have hpy := hl.marshalPayload_injective (hl.encodeRawBase64_injective hfi.2)
  rw [WSSCapabilityPayload.mk.injEq] at hpy
  exact ⟨hl.sha256_injective (hl.encodeRawBase64_injective hpy.1), by rw [hn, hnr, hpy.2],
    hfi.1⟩

theorem identityStatement_ne_wssCapabilityStatement {req req' : RegisterRequest} {expiresAt expires : String}
    (ok : crypto.wssCapabilityStatement req expires = .ok statement) :
    identityStatement req' expiresAt ≠ statement := by
  obtain ⟨fronts, -, rfl⟩ := wssCapabilityStatement_ok ok
  intro hs
  have hfs := head_eq_of_join (by simp) (by simp) (by decide) (by decide) (utf8_injective hs)
  exact absurd hfs (by decide)

/-! ### What the checks accept -/

theorem checks_verifyIdentity (crypto : IdentityCrypto) : crypto.checks.verifyIdentity = crypto.verifyIdentity := rfl

theorem checks_verifyWSSCapability (crypto : IdentityCrypto) :
    crypto.checks.verifyWSSCapability = crypto.verifyWSSCapability := rfl

structure Proved (crypto : IdentityCrypto) (req : RegisterRequest) (key : IdentityKey) : Prop where
  decoded : crypto.decodeBase64 req.identityPublicKey = some key
  present : req.identityPublicKey ≠ ""
  valid : validateIdentityFields req = .ok ()
  expires : (crypto.parseRFC3339 req.identityExpiresAt).isSome
  signature : ∃ signature, crypto.verify key (identityStatement req req.identityExpiresAt) signature = true

theorem verifyIdentity_none {now : Time} (ok : crypto.verifyIdentity req now = .ok none) :
    req.identityPublicKey = "" := by
  unfold verifyIdentity at ok
  split at ok
  · next hlg => exact hlg.1
  · repeat' split at ok
    all_goals cases ok

variable {key : IdentityKey}

theorem verifyIdentity_some {now : Time}
    (ok : crypto.verifyIdentity req now = .ok (some key)) : crypto.Proved req key := by
  unfold verifyIdentity at ok
  split at ok
  · cases ok
  split at ok
  · cases ok
  next hco =>
  rw [not_or, not_or] at hco
  split at ok
  · cases ok
  next hva =>
  split at ok
  · cases ok
  next publicKey hd =>
  split at ok
  · cases ok
  split at ok
  · cases ok
  next signature _ =>
  split at ok
  · cases ok
  split at ok
  · cases ok
  next expires hp =>
  split at ok
  · cases ok
  split at ok
  · cases ok
  split at ok
  · cases ok
  next hv =>
  cases ok
  exact ⟨hd, hco.1, hva, by rw [hp]; rfl, signature, by simpa using hv⟩

theorem verifyIdentity_accepts {now expires : Time}
    {signature : Bytes} (hpr : ¬ (req.identityPublicKey = "" ∨ req.identityProof = "" ∨ req.identityExpiresAt = ""))
    (hva : validateIdentityFields req = .ok ()) (hd : crypto.decodeBase64 req.identityPublicKey = some key)
    (hk : key.length = 32) (hpf : crypto.decodeBase64 req.identityProof = some signature)
    (hsz : signature.length = 64) (hp : crypto.parseRFC3339 req.identityExpiresAt = some expires)
    (hfr : now < expires) (hne : expires ≤ now + maxIdentityProofWindow)
    (hv : crypto.verify key (identityStatement req req.identityExpiresAt) signature = true) :
    crypto.verifyIdentity req now = .ok (some key) := by
  have hi : ¬ (req.identityPublicKey = "" ∧ req.identityProof = "" ∧ req.identityExpiresAt = "") :=
    fun hno => hpr (.inl hno.1)
  simp only [verifyIdentity, if_neg hi, if_neg hpr, hva, hd, hk, hpf, hsz, hp, hv,
    not_lt.mpr hne, hfr, ne_eq, not_true_eq_false, if_false, Bool.not_true, Bool.false_eq_true]

structure Capable (crypto : IdentityCrypto) (req : RegisterRequest) (now : Time) (key : IdentityKey) : Prop where
  identity : crypto.verifyIdentity req now = .ok (some key)
  fronts : crypto.normalizeWSSFronts req.wssFronts = .ok req.wssFronts
  expires : (crypto.parseRFC3339 req.wssCapabilityExpiresAt).isSome
  signature : ∃ statement signature, crypto.wssCapabilityStatement req req.wssCapabilityExpiresAt = .ok statement ∧
    crypto.verify key statement signature = true

theorem verifyWSSCapability_ok {now : Time} (ok : crypto.verifyWSSCapability req now = .ok ())
    (hf : req.wssFronts ≠ []) : ∃ key, crypto.Capable req now key := by
  unfold verifyWSSCapability at ok
  split at ok
  · next hno => exact absurd hno.1 hf
  split at ok
  · cases ok
  split at ok
  · cases ok
  split at ok
  · cases ok
  next normalized hc =>
  split at ok
  · cases ok
  next hs =>
  split at ok
  · cases ok
  next expires hp =>
  split at ok
  · cases ok
  split at ok
  · cases ok
  split at ok
  · cases ok
  split at ok
  · cases ok
  · cases ok
  next key hi =>
  split at ok
  · cases ok
  next signature _ =>
  split at ok
  · cases ok
  split at ok
  · cases ok
  next statement hst =>
  split at ok
  · cases ok
  next hv =>
  rw [not_ne_iff] at hs
  exact ⟨key, hi, by rw [hc, hs], by rw [hp]; rfl, statement, signature, hst, by simpa using hv⟩

theorem verifyWSSCapability_accepts {now expires : Time}
    {signature statement : Bytes}
    (hpr : ¬ (req.wssFronts = [] ∨ req.wssCapabilityProof = "" ∨ req.wssCapabilityExpiresAt = ""))
    (hel : crypto.wssEligible req = true) (few : req.wssFronts.length ≤ maxWSSFronts)
    (hc : crypto.normalizeWSSFronts req.wssFronts = .ok req.wssFronts)
    (hp : crypto.parseRFC3339 req.wssCapabilityExpiresAt = some expires)
    (hid : crypto.parseRFC3339 req.identityExpiresAt = some expires)
    (hi : crypto.verifyIdentity req now = .ok (some key))
    (hpf : crypto.decodeBase64 req.wssCapabilityProof = some signature) (hsz : signature.length = 64)
    (hfr : now < expires) (hne : expires ≤ now + maxWSSCapabilityProofWindow)
    (hst : crypto.wssCapabilityStatement req req.wssCapabilityExpiresAt = .ok statement)
    (hv : crypto.verify key statement signature = true) : crypto.verifyWSSCapability req now = .ok () := by
  have hf : ¬ (req.wssFronts = [] ∧ req.wssCapabilityProof = "" ∧ req.wssCapabilityExpiresAt = "") :=
    fun hno => hpr (.inl hno.1)
  simp only [verifyWSSCapability, if_neg hf, if_neg hpr, not_lt.mpr few, hel, hc, hp,
    hid, hi, hpf, hsz, hst, hv, not_lt.mpr hne, hfr, ne_eq, not_true_eq_false, if_false,
    Bool.not_true, Bool.false_eq_true, or_self]

/-! ### What the signers sign -/

theorem wssCapabilityToSign_ok {priv : Bytes} {expiresAt : Time}
    (ok : crypto.wssCapabilityToSign priv req expiresAt = .ok statement) :
    crypto.normalizeWSSFronts req.wssFronts = .ok req.wssFronts ∧
      crypto.wssCapabilityStatement req (crypto.formatRFC3339 expiresAt) = .ok statement := by
  unfold wssCapabilityToSign at ok
  split at ok
  · cases ok
  split at ok
  · cases ok
  split at ok
  · cases ok
  next normalized hc =>
  split at ok
  · cases ok
  split at ok
  · cases ok
  next hs =>
  repeat' split at ok
  all_goals cases ok
  next hst =>
  rw [not_ne_iff] at hs
  exact ⟨by rw [hc, hs], hst⟩

theorem wssCapabilityToSign_signs {priv : Bytes} {expiresAt : Time}
    (hsz : priv.length = 64) (hel : crypto.wssEligible req = true)
    (hc : crypto.normalizeWSSFronts req.wssFronts = .ok req.wssFronts) (hf : req.wssFronts ≠ [])
    (hi : ¬ (req.identityPublicKey = "" ∨ req.identityProof = "" ∨ req.identityExpiresAt = ""))
    (own : req.identityPublicKey = crypto.encodeBase64 (crypto.publicKey priv))
    (he : crypto.formatRFC3339 expiresAt = req.identityExpiresAt)
    (hst : crypto.wssCapabilityStatement req (crypto.formatRFC3339 expiresAt) = .ok statement) :
    crypto.wssCapabilityToSign priv req expiresAt = .ok statement := by
  rw [he] at hst
  simp only [wssCapabilityToSign, hsz, hel, hc, hf, if_neg hi, ← own, he, hst, ne_eq,
    not_true_eq_false, if_false, Bool.not_true, Bool.false_eq_true]

variable {calls : List SignCall}

theorem Proved.signed (hl : crypto.Lawful) (hu : crypto.Unforgeable calls)
    (hpo : crypto.Proved req key) :
    ∃ priv signed expiresAt, .identity priv signed expiresAt ∈ calls ∧ key = crypto.publicKey priv ∧
      SameBound req signed req.identityExpiresAt (crypto.formatRFC3339 expiresAt) := by
  obtain ⟨signature, hv⟩ := hpo.signature
  obtain ⟨expires, hp⟩ := Option.isSome_iff_exists.mp hpo.expires
  obtain ⟨call, mem, hsi⟩ := hu _ _ _ hv
  cases call with
  | identity priv signed expiresAt =>
    exact ⟨priv, signed, expiresAt, mem, hsi.1,
      .of_statement hpo.valid (hl.parseRFC3339_plain _ _ hp) hsi.2⟩
  | wssCapability priv signed expiresAt =>
    exact absurd rfl (identityStatement_ne_wssCapabilityStatement (wssCapabilityToSign_ok hsi.2).2)

theorem Capable.signed (hl : crypto.Lawful) (hu : crypto.Unforgeable calls)
    {now : Time} (hca : crypto.Capable req now key) :
    ∃ priv signed expiresAt, .wssCapability priv signed expiresAt ∈ calls ∧ key = crypto.publicKey priv ∧
      SameBound req signed req.identityExpiresAt signed.identityExpiresAt ∧ req.wssFronts = signed.wssFronts ∧
      req.wssCapabilityExpiresAt = crypto.formatRFC3339 expiresAt := by
  have hpo := verifyIdentity_some hca.identity
  obtain ⟨statement, signature, hst, hv⟩ := hca.signature
  obtain ⟨identityExpires, hid⟩ := Option.isSome_iff_exists.mp hpo.expires
  obtain ⟨expires, hp⟩ := Option.isSome_iff_exists.mp hca.expires
  obtain ⟨call, mem, hsi⟩ := hu _ _ _ hv
  cases call with
  | identity priv signed expiresAt =>
    exact absurd hsi.2.symm (identityStatement_ne_wssCapabilityStatement hst)
  | wssCapability priv signed expiresAt =>
    obtain ⟨hc, hto⟩ := wssCapabilityToSign_ok hsi.2
    obtain ⟨identity, hf, he⟩ :=
      wssCapabilityStatement_binds hl (hl.parseRFC3339_plain _ _ hp) hst hto
    rw [hca.fronts, hc] at hf
    exact ⟨priv, signed, expiresAt, mem, hsi.1,
      .of_statement hpo.valid (hl.parseRFC3339_plain _ _ hid) identity, Except.ok.inj hf, he⟩

/-! ### Statements bind their requests -/

theorem statements_bind (lawful : crypto.Lawful) :
    (∀ r r' e e', validateIdentityFields r = .ok () → validateIdentityFields r' = .ok () →
      (crypto.parseRFC3339 e).isSome → (crypto.parseRFC3339 e').isSome →
      identityStatement r e = identityStatement r' e' → SameBound r r' e e') ∧
    (∀ r r' e e' statement, validateIdentityFields r = .ok () → validateIdentityFields r' = .ok () →
      (crypto.parseRFC3339 r.identityExpiresAt).isSome → (crypto.parseRFC3339 r'.identityExpiresAt).isSome →
      (crypto.parseRFC3339 e).isSome → (crypto.parseRFC3339 e').isSome →
      crypto.wssCapabilityStatement r e = .ok statement → crypto.wssCapabilityStatement r' e' = .ok statement →
      SameBound r r' r.identityExpiresAt r'.identityExpiresAt ∧
        crypto.normalizeWSSFronts r.wssFronts = crypto.normalizeWSSFronts r'.wssFronts ∧ e = e') ∧
    (∀ calls, crypto.Unforgeable calls → ∀ (s : Store) req draws now ttl desc,
      (s.register crypto.checks req draws now ttl).2 = .ok desc →
      (req.identityPublicKey ≠ "" → ∃ priv signed expiresAt, .identity priv signed expiresAt ∈ calls ∧
        desc.id = crypto.deriveRelayID (crypto.publicKey priv) ∧
        SameBound req signed req.identityExpiresAt (crypto.formatRFC3339 expiresAt)) ∧
      (req.wssFronts ≠ [] → ∃ priv signed expiresAt, .wssCapability priv signed expiresAt ∈ calls ∧
        desc.id = crypto.deriveRelayID (crypto.publicKey priv) ∧
        SameBound req signed req.identityExpiresAt signed.identityExpiresAt ∧ req.wssFronts = signed.wssFronts ∧
        req.wssCapabilityExpiresAt = crypto.formatRFC3339 expiresAt)) := by
  have hpl : ∀ {text}, (crypto.parseRFC3339 text).isSome → '\n' ∉ text.toList := by
    intro text hpa
    obtain ⟨t, hp⟩ := Option.isSome_iff_exists.mp hpa
    exact lawful.parseRFC3339_plain _ _ hp
  refine ⟨?_, ?_, ?_⟩
  · intro r r' e e' hva _ hpa _ hs
    exact .of_statement hva (hpl hpa) hs
  · intro r r' e e' statement hva _ hie _ hpa _ hlf hri
    obtain ⟨hi, hf, he⟩ := wssCapabilityStatement_binds lawful (hpl hpa) hlf hri
    exact ⟨.of_statement hva (hpl hie) hi, hf, he⟩
  · intro calls hu s req draws now ttl desc ha
    rcases s.register_cases crypto.checks req draws now ttl with ⟨e, hfa⟩ | ⟨hcp, hlg | hsa⟩
    · rw [hfa] at ha
      cases ha
    · obtain ⟨id, hun, -, -⟩ := hlg
      refine ⟨fun hpr => absurd (verifyIdentity_none hun) hpr, fun hf => ?_⟩
      -- fronts need a proved identity
      obtain ⟨key, hca⟩ := verifyWSSCapability_ok hcp hf
      exact absurd (hun.symm.trans hca.identity) (by simp)
    · obtain ⟨key, token, hi, -, hin⟩ := hsa
      rw [hin] at ha
      have row : desc.id = crypto.deriveRelayID key := Store.installDescriptor_ok_id ha
      constructor
      · intro _
        obtain ⟨priv, signed, expiresAt, mem, rfl, hb⟩ := (verifyIdentity_some hi).signed lawful hu
        exact ⟨priv, signed, expiresAt, mem, row, hb⟩
      · intro hf
        obtain ⟨key', hca⟩ := verifyWSSCapability_ok hcp hf
        have hs : key' = key := by simpa using hca.identity.symm.trans hi
        obtain ⟨priv, signed, expiresAt, mem, ho, hb⟩ := hca.signed lawful hu
        exact ⟨priv, signed, expiresAt, mem, by rw [row, ← hs, ho], hb⟩

/-! ### A signed registration -/

theorem hex_injective : Function.Injective hex := by
  have hdg : ∀ a b : UInt8, Nat.digitChar (a.toNat / 16) = Nat.digitChar (b.toNat / 16) →
      Nat.digitChar (a.toNat % 16) = Nat.digitChar (b.toNat % 16) → a = b := by
    have hsm : ∀ m n : Fin 16, Nat.digitChar m = Nat.digitChar n → m = n := by decide
    intro a b hh low
    have hh := hsm ⟨a.toNat / 16, by have := a.toNat_lt; omega⟩ ⟨b.toNat / 16, by have := b.toNat_lt; omega⟩ hh
    have low := hsm ⟨a.toNat % 16, by omega⟩ ⟨b.toNat % 16, by omega⟩ low
    simp only [Fin.mk.injEq] at hh low
    exact UInt8.toNat_inj.mp (by omega)
  intro a b hs
  rw [hex, hex, String.ofList_inj] at hs
  induction a generalizing b with
  | nil =>
    cases b with
    | nil => rfl
    | cons y b => simp at hs
  | cons x a ih =>
    cases b with
    | nil => simp at hs
    | cons y b =>
      simp only [List.flatMap_cons, List.cons_append, List.nil_append, List.cons.injEq] at hs
      rw [hdg x y hs.1 hs.2.1, ih hs.2.2]

theorem newline_not_mem_hex (bytes : Bytes) : '\n' ∉ (hex bytes).toList := by
  have hsm : ∀ n : Fin 16, Nat.digitChar n ≠ '\n' := by decide
  simp only [hex, String.toList_ofList, List.mem_flatMap, List.mem_cons, List.not_mem_nil, or_false, not_exists, not_and,
    not_or]
  intro b _
  exact ⟨(hsm ⟨b.toNat / 16, by have := b.toNat_lt; omega⟩).symm, (hsm ⟨b.toNat % 16, by omega⟩).symm⟩


def payloadLines (payload : WSSCapabilityPayload) : List String :=
  (payload.identityStatementSHA256 :: payload.fronts.flatMap fun front =>
    [front.id, front.url, front.protocolVersion.repr]).map fun text => hex (utf8 text)

theorem payloadLines_injective : Function.Injective payloadLines := by
  rintro ⟨digest, fronts⟩ ⟨digest', fronts'⟩ hs
  have ht := (List.map_injective_iff.mpr fun _ _ eq => utf8_injective (hex_injective eq)) hs
  rw [List.cons.injEq] at ht
  obtain ⟨rfl, ht⟩ := ht
  clear hs
  congr 1
  induction fronts generalizing fronts' with
  | nil =>
    cases fronts' with
    | nil => rfl
    | cons front' fronts' => simp at ht
  | cons front fronts ih =>
    cases fronts' with
    | nil => simp at ht
    | cons front' fronts' =>
      simp only [List.flatMap_cons, List.cons_append, List.nil_append, List.cons.injEq] at ht
      obtain ⟨id, url, hve, hre⟩ := ht
      rw [ih _ hre]
      cases front
      cases front'
      simp only at id url hve
      rw [id, url, intRepr_injective hve]

def plainCrypto : IdentityCrypto where
  publicKey := List.take 32
  sign := fun _ _ => List.replicate 64 0
  verify := fun _ _ _ => false
  sha256 := id
  encodeBase64 := fun bytes => if bytes.length = 64 then "proof" else "key"
  decodeBase64 := fun text => some (List.replicate (if text = "proof" then 64 else 32) 0)
  encodeRawBase64 := hex
  formatRFC3339 := fun _ => "2030-01-01T00:00:00Z"
  parseRFC3339 := fun text => if text = "2030-01-01T00:00:00Z" then some hour else none
  marshalPayload := fun payload => utf8 ("\n".intercalate (payloadLines payload))
  toLower := id
  normalizeFrontURL := some

def frontedRequest : RegisterRequest where
  publicHost := "192.0.2.1"
  publicPort := 443
  nodeClass := nodeClassFoundation
  exitMode := exitModeDirect
  maxSessions := 10
  maxMbps := 100
  wssFronts := [{ id := "cdn", url := "wss://cdn.example/", protocolVersion := 1 }]
  wssCapabilityProof := "proof"
  wssCapabilityExpiresAt := "2030-01-01T00:00:00Z"
  identityPublicKey := "key"
  identityProof := "proof"
  identityExpiresAt := "2030-01-01T00:00:00Z"

def frontedCalls : List SignCall :=
  [.identity (List.replicate 64 0) frontedRequest 0, .wssCapability (List.replicate 64 0) frontedRequest 0]

def signedCrypto : IdentityCrypto :=
  { plainCrypto with
    verify := fun key message _ => key = List.replicate 32 0 &&
      (message = identityStatement frontedRequest "2030-01-01T00:00:00Z" ||
        message = utf8 ("\n".intercalate
          (plainCrypto.capabilityFields frontedRequest "2030-01-01T00:00:00Z" frontedRequest.wssFronts))) }

theorem signedCrypto_lawful : signedCrypto.Lawful where
  sha256_injective := Function.injective_id
  encodeRawBase64_injective := hex_injective
  encodeRawBase64_plain := newline_not_mem_hex
  marshalPayload_injective := by
    intro payload payload' hs
    have hfe : ∀ (p : WSSCapabilityPayload), ∀ f ∈ payloadLines p, '\n' ∉ f.toList := by
      intro p f mem
      obtain ⟨text, -, rfl⟩ := List.mem_map.mp mem
      exact newline_not_mem_hex _
    have hfl : ∀ p, payloadLines p ≠ [] := fun p => List.cons_ne_nil _ _
    have text : "\n".intercalate (payloadLines payload) = "\n".intercalate (payloadLines payload') :=
      utf8_injective hs
    have hsp := congrArg (fun text => text.toList.splitOn '\n') text
    simp only [splitOn_join (hfl _) (hfe _)] at hsp
    exact payloadLines_injective ((List.map_injective_iff.mpr fun _ _ => String.toList_inj.mp) hsp)
  parseRFC3339_plain := by
    intro text t hp
    have hfx : text = "2030-01-01T00:00:00Z" := by
      by_contra hot
      simp [signedCrypto, plainCrypto, hot] at hp
    rw [hfx]
    decide

theorem fronted_canonical : signedCrypto.normalizeWSSFronts frontedRequest.wssFronts = .ok frontedRequest.wssFronts := rfl

theorem signedCrypto_fields : signedCrypto.capabilityFields = plainCrypto.capabilityFields := rfl

theorem fronted_statement : signedCrypto.wssCapabilityStatement frontedRequest "2030-01-01T00:00:00Z" =
    .ok (utf8 ("\n".intercalate
      (plainCrypto.capabilityFields frontedRequest "2030-01-01T00:00:00Z" frontedRequest.wssFronts))) := by
  rw [← signedCrypto_fields]
  exact wssCapabilityStatement_of fronted_canonical

theorem signedCrypto_unforgeable : signedCrypto.Unforgeable frontedCalls := by
  intro key message signature hv
  simp only [signedCrypto, Bool.and_eq_true, Bool.or_eq_true, decide_eq_true_eq] at hv
  obtain ⟨rfl, rfl | rfl⟩ := hv
  · exact ⟨_, List.mem_cons_self, rfl, rfl⟩
  · refine ⟨_, List.mem_cons_of_mem _ List.mem_cons_self, rfl, ?_⟩
    exact wssCapabilityToSign_signs (by decide) (by decide +kernel) fronted_canonical (by decide) (by decide) rfl rfl
      fronted_statement

theorem fronted_identity : signedCrypto.verifyIdentity frontedRequest 0 = .ok (some (List.replicate 32 0)) := by
  refine verifyIdentity_accepts (by decide) (by decide +kernel) rfl (by decide) rfl (by decide) rfl (by decide)
    (by decide) ?_
  simp [signedCrypto, frontedRequest]

theorem fronted_capability : signedCrypto.verifyWSSCapability frontedRequest 0 = .ok () := by
  refine verifyWSSCapability_accepts (by decide) (by decide +kernel) (by decide) rfl rfl rfl fronted_identity rfl (by decide)
    (by decide) (by decide) fronted_statement ?_
  simp [signedCrypto]

theorem statements_bind_signed : signedCrypto.Lawful ∧ signedCrypto.Unforgeable frontedCalls ∧
    ∃ desc, (({} : Store).register signedCrypto.checks frontedRequest ⟨none, some "token"⟩ 0 minute).2 = .ok desc ∧
      ∃ priv signed expiresAt, .wssCapability priv signed expiresAt ∈ frontedCalls ∧
        desc.id = signedCrypto.deriveRelayID (signedCrypto.publicKey priv) ∧
        SameBound frontedRequest signed frontedRequest.identityExpiresAt signed.identityExpiresAt ∧
        frontedRequest.wssFronts = signed.wssFronts ∧
        frontedRequest.wssCapabilityExpiresAt = signedCrypto.formatRFC3339 expiresAt := by
  have ha : ∃ desc,
      (({} : Store).register signedCrypto.checks frontedRequest ⟨none, some "token"⟩ 0 minute).2 = .ok desc := by
    rw [Store.register_proved (by rw [checks_verifyIdentity, fronted_identity])
      (by rw [checks_verifyWSSCapability, fronted_capability]) rfl]
    exact ⟨_, rfl⟩
  obtain ⟨desc, ha⟩ := ha
  exact ⟨signedCrypto_lawful, signedCrypto_unforgeable, desc, ha,
    ((statements_bind signedCrypto_lawful).2.2 frontedCalls signedCrypto_unforgeable _ _ _ _ _ _ ha).2 (by decide)⟩

end IdentityCrypto

end OpenRung.Broker
