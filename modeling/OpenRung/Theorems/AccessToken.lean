import OpenRung.Lib.Checks
import OpenRung.Broker.AccessToken

/-! Access tokens. The checks of a token's lengths determine how its bytes are split, so `verify` reads in bounds and
    accepts one layout only. -/

namespace OpenRung.Broker
open Slice Wss

variable {hmac : Hmac} {c : AccessTokenCodec} {token raw id expiry nonce mac : Bytes} {now : Time} {v n : UInt8}

structure Signed (hmac : Hmac) (c : AccessTokenCodec) (token id : Bytes) (seconds : Nat) (nonce : Bytes) : Prop where
  length : id.length ≤ 255
  range : seconds < 2 ^ 64
  drawn : nonce.length = accessTokenNonceBytes
  decode : Base64.decode token = some (accessTokenPayload id seconds nonce ++
    hmac.sum c.key (accessTokenPayload id seconds nonce))

theorem verify_layout (hid : id.length = n.toNat) (hexpiry : expiry.length = 8)
    (hnonce : nonce.length = accessTokenNonceBytes) (hmac' : mac.length = sha256Size)
    (hdecode : Base64.decode token = some (v :: n :: (id ++ (expiry ++ (nonce ++ mac))))) :
    c.verify hmac token now = some (if v = accessTokenVersion ∧
      hmac.sum c.key (v :: n :: (id ++ (expiry ++ nonce))) = mac ∧ now < unixTime (int64 (ofBigEndian expiry))
      then some id else none) := by
  have hlen : (v :: n :: (id ++ (expiry ++ (nonce ++ mac)))).length = 2 + n.toNat + 8 + accessTokenNonceBytes +
      sha256Size := by
    simp only [List.length_cons, List.length_append, hid, hexpiry, hnonce, hmac']
    omega
  have hbody : slice (v :: n :: (id ++ (expiry ++ (nonce ++ mac)))) 0 (2 + n.toNat + 8 + accessTokenNonceBytes) =
      some (v :: n :: (id ++ (expiry ++ nonce))) := by
    refine slice_part (a := []) (b := mac) (by simp) rfl ?_
    simp only [List.length_cons, List.length_append, hid, hexpiry, hnonce]
    omega
  have hsum : slice (v :: n :: (id ++ (expiry ++ (nonce ++ mac)))) (2 + n.toNat + 8 + accessTokenNonceBytes)
      (2 + n.toNat + 8 + accessTokenNonceBytes + sha256Size) = some mac := by
    refine slice_part (a := v :: n :: (id ++ (expiry ++ nonce))) (b := []) (by simp) ?_ (by rw [hmac'])
    simp only [List.length_cons, List.length_append, hid, hexpiry, hnonce]
    omega
  have huser : slice (v :: n :: (id ++ (expiry ++ (nonce ++ mac)))) 2 (2 + n.toNat) = some id :=
    slice_part (a := [v, n]) rfl rfl (by rw [hid])
  have hexp : slice (v :: n :: (id ++ (expiry ++ (nonce ++ mac)))) (2 + n.toNat) (2 + n.toNat + 8) = some expiry := by
    refine slice_part (a := v :: n :: id) rfl ?_ (by rw [hexpiry])
    rw [List.length_cons, List.length_cons, hid]
    omega
  have hv : (v :: n :: (id ++ (expiry ++ (nonce ++ mac))))[0]? = some v := rfl
  have hn : (v :: n :: (id ++ (expiry ++ (nonce ++ mac))))[1]? = some n := rfl
  unfold AccessTokenCodec.verify
  rw [hdecode]
  generalize v :: n :: (id ++ (expiry ++ (nonce ++ mac))) = raw at *
  have hlong : ¬ raw.length < 2 + 8 + accessTokenNonceBytes + sha256Size := by omega
  have hsub : raw.length - sha256Size = 2 + n.toNat + 8 + accessTokenNonceBytes := by omega
  rw [← hlen] at hsum
  by_cases hversion : v = accessTokenVersion
  · by_cases hok : hmac.sum c.key (v :: n :: (id ++ (expiry ++ nonce))) = mac
    · by_cases hlive : now < unixTime (int64 (ofBigEndian expiry)) <;>
      simp [hlong, hv, hn, hsub, hbody, hsum, huser, hexp, ← hversion, hok, hlive]
    · simp [hlong, hv, hn, hsub, hbody, hsum, ← hversion, hok]
  · simp [hlong, hv, hversion]

theorem verify_total (hmac : Hmac) (c : AccessTokenCodec) (token : Bytes) (now : Time) :
    ∃ answer, c.verify hmac token now = some answer ∧ ∀ id, answer = some id →
      ∃ seconds nonce, Signed hmac c token id seconds nonce ∧ now < unixTime (int64 seconds) := by
  cases hdecode : Base64.decode token with
  | none => exact ⟨none, by simp [AccessTokenCodec.verify, hdecode], by simp⟩
  | some raw =>
    by_cases hlayout : ∃ v n id expiry nonce mac, raw = v :: n :: (id ++ (expiry ++ (nonce ++ mac))) ∧
        id.length = n.toNat ∧ expiry.length = 8 ∧ nonce.length = accessTokenNonceBytes ∧ mac.length = sha256Size
    · obtain ⟨v, n, id, expiry, nonce, mac, rfl, hid, hexpiry, hnonce, hmac'⟩ := hlayout
      refine ⟨_, verify_layout hid hexpiry hnonce hmac' hdecode, fun id' h => ?_⟩
      rw [Option.ite_none_right_eq_some] at h
      obtain ⟨⟨rfl, rfl, hlive⟩, hid'⟩ := h
      cases hid'
      have hpayload : accessTokenPayload id (ofBigEndian expiry) nonce =
          accessTokenVersion :: n :: (id ++ (expiry ++ nonce)) := by
        rw [accessTokenPayload, hid, UInt8.ofNat_toNat, ← hexpiry, bigEndian_ofBigEndian]
      refine ⟨ofBigEndian expiry, nonce, ⟨?_, ?_, hnonce, ?_⟩, hlive⟩
      · have := n.toNat_lt
        omega
      · have := ofBigEndian_lt expiry
        rwa [hexpiry] at this
      · rw [hpayload, hdecode]
        simp
    · refine ⟨none, ?_, by simp⟩
      unfold AccessTokenCodec.verify
      rw [hdecode]
      by_cases hshort : raw.length < 2 + 8 + accessTokenNonceBytes + sha256Size
      · simp [hshort]
      obtain ⟨front, d, hraw, hfront⟩ := split_at (show 2 ≤ raw.length by omega)
      obtain ⟨v, n, rfl⟩ := List.length_eq_two.mp hfront
      have hv : raw[0]? = some v := by simp [hraw]
      have hn : raw[1]? = some n := by simp [hraw]
      have hbody : raw.length - sha256Size ≠ 2 + n.toNat + 8 + accessTokenNonceBytes := by
        intro h
        rw [hraw, List.length_append, hfront] at h hshort
        obtain ⟨id, d, rfl, hid⟩ := split_at (show n.toNat ≤ d.length by omega)
        rw [List.length_append] at h hshort
        obtain ⟨expiry, d, rfl, hexpiry⟩ := split_at (show 8 ≤ d.length by omega)
        rw [List.length_append] at h hshort
        obtain ⟨nonce, mac, rfl, hnonce⟩ := split_at (show accessTokenNonceBytes ≤ d.length by omega)
        rw [List.length_append] at h hshort
        exact hlayout ⟨v, n, id, expiry, nonce, mac, hraw, hid, hexpiry, hnonce, by omega⟩
      by_cases hversion : v = accessTokenVersion
      · simp [hshort, hv, hn, hversion, hbody]
      · simp [hshort, hv, hversion]

theorem verify_signed {seconds : Nat} (h : Signed hmac c token id seconds nonce) (now : Time) :
    c.verify hmac token now = some (if now < unixTime (int64 seconds) then some id else none) := by
  have hlen : id.length = (UInt8.ofNat id.length).toNat := by
    have := h.length
    simp
    omega
  have hdecode : Base64.decode token = some (accessTokenVersion :: UInt8.ofNat id.length ::
      (id ++ (bigEndian 8 seconds ++ (nonce ++ hmac.sum c.key (accessTokenPayload id seconds nonce))))) := by
    rw [h.decode]
    simp [accessTokenPayload]
  rw [verify_layout hlen (length_bigEndian 8 seconds) h.drawn (hmac.length_sum _ _) hdecode, ofBigEndian_bigEndian h.range]
  simp [accessTokenPayload]

theorem payload_injective {id' nonce' : Bytes} {seconds seconds' : Nat} (hid : id.length ≤ 255) (hid' : id'.length ≤ 255)
    (hs : seconds < 2 ^ 64) (hs' : seconds' < 2 ^ 64)
    (h : accessTokenPayload id seconds nonce = accessTokenPayload id' seconds' nonce') : id = id' ∧ seconds = seconds' := by
  simp only [accessTokenPayload, List.cons.injEq, true_and] at h
  obtain ⟨hlen, h⟩ := h
  have hlen : id.length = id'.length := by
    have := congrArg UInt8.toNat hlen
    simp only [UInt8.toNat_ofNat'] at this
    omega
  obtain ⟨heq, hrest⟩ := List.append_inj h hlen
  obtain ⟨hseconds, -⟩ := List.append_inj hrest (by simp)
  exact ⟨heq, by rw [← ofBigEndian_bigEndian (w := 8) hs, hseconds, ofBigEndian_bigEndian hs']⟩

/-! ### Issued tokens -/

theorem unixTime_clampSeconds (sec : Int) :
    unixTime (int64 ((int64 (clampSeconds sec) % 2 ^ 64).toNat : Int)) = clampSeconds sec * second := by
  have hlow : -2 ^ 63 - 62135596800 ≤ clampSeconds sec := le_max_left _ _
  have hhigh : clampSeconds sec ≤ 2 ^ 63 - 1 - 62135596800 := max_le (by decide) (min_le_left _ _)
  generalize clampSeconds sec = s at *
  have hseconds : int64 (int64 ((int64 s % 2 ^ 64).toNat : Int) + 62135596800) = s + 62135596800 := by
    unfold int64
    omega
  rw [unixTime, hseconds, Int.add_sub_cancel]

structure IssueCall where
  userID : Bytes
  now : Time
  nonce : Nonce

def AccessTokenCodec.run (hmac : Hmac) (c : AccessTokenCodec) (call : IssueCall) : Except String (Bytes × Time) :=
  c.issue hmac call.userID call.now (some call.nonce)

theorem run_eq_ok {call : IssueCall} {expiresAt : Time} (h : c.run hmac call = .ok (token, expiresAt)) :
    ∃ seconds, Signed hmac c token call.userID seconds call.nonce.val ∧ unixTime (int64 seconds) = expiresAt := by
  obtain ⟨hlen, h⟩ := ite_error_eq_ok.mp h
  push Not at hlen
  cases h
  refine ⟨_, ⟨hlen.2, ?_, call.nonce.property, Base64.decode_encode _⟩, unixTime_clampSeconds _⟩
  omega

theorem run_of_length (hmac : Hmac) (c : AccessTokenCodec) (call : IssueCall) (hne : call.userID.length ≠ 0)
    (hle : call.userID.length ≤ 255) :
    ∃ token expiresAt, c.run hmac call = .ok (token, expiresAt) :=
  ⟨_, _, ite_error_eq_ok.mpr ⟨by simp [hne, hle], rfl⟩⟩

/-- The HMAC is not forged: a message that comes with its HMAC is that of an issued token. -/
def Unforged (hmac : Hmac) (c : AccessTokenCodec) (issued : List IssueCall) (token : Bytes) : Prop :=
  ∀ message, Base64.decode token = some (message ++ hmac.sum c.key message) →
    ∃ call ∈ issued, ∃ token' expiresAt, c.run hmac call = .ok (token', expiresAt) ∧
      Base64.decode token' = some (message ++ hmac.sum c.key message)

theorem access_token_codec (hmac : Hmac) (c : AccessTokenCodec) :
    (∀ (id : Bytes) (now : Time) (nonce : Nonce), id.length ≠ 0 → id.length ≤ 255 →
      ∃ token expiresAt, c.issue hmac id now (some nonce) = .ok (token, expiresAt) ∧
        ∀ t, c.verify hmac token t = some (if t < expiresAt then some id else none)) ∧
      (∀ token now, (c.verify hmac token now).isSome) ∧
      (∀ token now id, c.verify hmac token now = some (some id) →
        ∃ seconds nonce, Signed hmac c token id seconds nonce ∧ now < unixTime (int64 seconds)) ∧
      ∀ issued token now id, Unforged hmac c issued token → c.verify hmac token now = some (some id) →
        ∃ call ∈ issued, ∃ token' expiresAt, c.run hmac call = .ok (token', expiresAt) ∧ id = call.userID ∧
          ∀ t, c.verify hmac token t = some (if t < expiresAt then some id else none) := by
  have haccepted : ∀ token now id, c.verify hmac token now = some (some id) →
      ∃ seconds nonce, Signed hmac c token id seconds nonce ∧ now < unixTime (int64 seconds) := by
    intro token now id h
    obtain ⟨answer, hanswer, hsigned⟩ := verify_total hmac c token now
    exact hsigned id (Option.some.inj (hanswer.symm.trans h))
  refine ⟨fun id now nonce hne hle => ?_, fun token now => ?_, haccepted, fun issued token now id hunforged h => ?_⟩
  · obtain ⟨token, expiresAt, hrun⟩ := run_of_length hmac c ⟨id, now, nonce⟩ hne hle
    obtain ⟨seconds, hsigned, rfl⟩ := run_eq_ok hrun
    exact ⟨token, _, hrun, verify_signed hsigned⟩
  · obtain ⟨answer, hanswer, -⟩ := verify_total hmac c token now
    simp [hanswer]
  · obtain ⟨seconds, nonce, hsigned, -⟩ := haccepted token now id h
    obtain ⟨call, hmem, token', expiresAt, hrun, hdecode⟩ := hunforged _ hsigned.decode
    obtain ⟨seconds', hsigned', rfl⟩ := run_eq_ok hrun
    have hmessage := Option.some.inj (hdecode.symm.trans hsigned'.decode)
    obtain ⟨hpayload, -⟩ := List.append_inj' hmessage (by rw [hmac.length_sum, hmac.length_sum])
    obtain ⟨rfl, rfl⟩ := payload_injective hsigned.length hsigned'.length hsigned.range hsigned'.range hpayload
    exact ⟨call, hmem, token', _, hrun, rfl, verify_signed hsigned⟩

end OpenRung.Broker
