import OpenRung.Broker.UserAuth
import OpenRung.Lib.Trace
import OpenRung.Theorems.AccessToken
import OpenRung.Theorems.Issue

/-! What a bearer token is worth. A challenge is in the table from its issue to the first attempt to use it, and an
    attempt removes it before anything is verified; a request between its two sections holds a challenge that no other
    request holds. A key keeps the user that was created for it. -/

namespace OpenRung.Broker
open Joined

variable {κ : Type} {svc : UserAuthService κ} {signed : List (κ × Bytes)}

/-! ### Signatures -/

/-- What verifies under a key is the digest of a statement that its holder signed for one of the challenges `signed`, and
    no two statements have one digest. -/
structure UserCrypto.Unforgeable (crypto : UserCrypto κ) (signed : List (κ × Bytes)) : Prop where
  signs : ∀ pub digest r s, crypto.verify pub digest r s = true →
    ∃ challenge, (pub, challenge) ∈ signed ∧ digest = crypto.userAuthDigest pub challenge
  apart : ∀ c c' k k', crypto.sha256 (userAuthStatement c k) = crypto.sha256 (userAuthStatement c' k') →
    userAuthStatement c k = userAuthStatement c' k'

theorem newline_not_mem_of_valid {challenge : Bytes} (hv : validUserChallenge challenge = true) : 10 ∉ challenge := by
  intro mem
  simp only [validUserChallenge, Bool.and_eq_true, List.all_eq_true] at hv
  exact absurd (hv.2 10 mem) (by decide)

theorem UserCrypto.Unforgeable.signed_of_verify {crypto : UserCrypto κ} (hu : crypto.Unforgeable signed) {pub : κ}
    {challenge signature : Bytes} (hv : crypto.verifyUserAuth pub challenge signature = true) :
    (pub, challenge) ∈ signed := by
  rw [verifyUserAuth, Bool.and_eq_true] at hv
  obtain ⟨hva, hv⟩ := hv
  cases hraw : crypto.decodeBase64 (Ingest.trimSpace signature) with
  | none => simp [hraw] at hv
  | some raw =>
    simp only [hraw, Bool.and_eq_true] at hv
    obtain ⟨challenge', mem, hdigest⟩ := hu.signs _ _ _ _ hv.2
    have hplain : ∀ line ∈ [userAuthSpecV1, challenge, utf8 (crypto.canonicalUserPublicKey pub)], 10 ∉ line := by
      intro line hl
      simp only [List.mem_cons, List.not_mem_nil, or_false] at hl
      rcases hl with rfl | rfl | rfl
      · decide
      · exact newline_not_mem_of_valid hva
      · exact crypto.encodeBase64_plain _
    have hsame : [10].intercalate [userAuthSpecV1, challenge, utf8 (crypto.canonicalUserPublicKey pub)] =
        [10].intercalate [userAuthSpecV1, challenge', utf8 (crypto.canonicalUserPublicKey pub)] :=
      hu.apart challenge challenge' _ _ hdigest
    obtain rfl : challenge = challenge' := by
      simpa using intercalate_injective (by rfl) hplain hsame
    exact mem

/-! ### Challenges -/

namespace ChallengeTable
variable {t : ChallengeTable} {c : Bytes} {e now : Time}

theorem lookup_of_swept (h : (swept t now).lookup c = some e) : t.lookup c = some e := by
  unfold swept at h
  split at h
  · exact (KeyedMap.lookup_filter_eq_some.mp h).1
  · exact h

theorem lookup_issue {raw : Option ChallengeBytes} (h : (issue t raw now).1.lookup c = some e) :
    t.lookup c = some e ∨ (issue t raw now).2 = some (c, e) ∧ ∃ raw', raw = some raw' ∧ c = Base64.encode raw'.val := by
  cases raw with
  | none => exact .inl h
  | some raw =>
    simp only [issue] at h ⊢
    split at h
    · exact .inl (lookup_of_swept h)
    · next hroom =>
      rw [if_neg hroom]
      simp only [KeyedMap.lookup_insert_eq] at h
      split at h
      · next hc =>
        cases h
        exact .inr ⟨by rw [hc], raw, rfl, hc⟩
      · exact .inl (lookup_of_swept h)

theorem length_issue_le (raw : Option ChallengeBytes) (hle : t.entries.length ≤ userChallengeMaxEntries) :
    (issue t raw now).1.entries.length ≤ userChallengeMaxEntries := by
  cases raw with
  | none => exact hle
  | some raw =>
    simp only [issue]
    split
    · have hsub : (swept t now).entries.length ≤ t.entries.length := by
        unfold swept
        split
        · exact List.length_filter_le _ _
        · exact le_rfl
      exact hsub.trans hle
    · have hroom : ¬ userChallengeMaxEntries ≤ (swept t now).entries.length := ‹_›
      cases hk : (swept t now).lookup (Base64.encode raw.val) with
      | none =>
        rw [KeyedMap.length_entries_insert_of_none hk]
        omega
      | some old =>
        rw [KeyedMap.length_entries_insert_of_some hk]
        omega

end ChallengeTable

/-! ### Users -/

/-- The user of a key is stored under its own id, with the key. -/
def UsersOwned (users : KeyedMap String User) (userIDsByKey : KeyedMap String String) : Prop :=
  ∀ key id, userIDsByKey.lookup key = some id → ∃ user, users.lookup id = some user ∧ user.id = id ∧ user.publicKey = key

namespace UsersOwned
variable {s : Store} {users : KeyedMap String User} {userIDsByKey : KeyedMap String String}

theorem key_unique (ho : UsersOwned users userIDsByKey) {key key' id : String} (h : userIDsByKey.lookup key = some id)
    (h' : userIDsByKey.lookup key' = some id) : key = key' := by
  obtain ⟨user, hu, -, rfl⟩ := ho _ _ h
  obtain ⟨user', hu', -, rfl⟩ := ho _ _ h'
  rw [hu] at hu'
  rw [Option.some.inj hu']

theorem rewrite (ho : UsersOwned users userIDsByKey) {id : String} {old user : User} (hold : users.lookup id = some old)
    (hid : user.id = old.id) (hkey : user.publicKey = old.publicKey) : UsersOwned (users.insert id user) userIDsByKey := by
  intro key id' h
  obtain ⟨owner, hu, hown, hk⟩ := ho key id' h
  rw [KeyedMap.lookup_insert_eq]
  split
  · next heq =>
    rw [heq, hold] at hu
    cases hu
    exact ⟨user, rfl, hid.trans hown, hkey.trans hk⟩
  · exact ⟨owner, hu, hown, hk⟩

theorem enroll (ho : UsersOwned users userIDsByKey) {id key : String} {user : User} (hfresh : users.lookup id = none)
    (hid : user.id = id) (hkey : user.publicKey = key) :
    UsersOwned (users.insert id user) (userIDsByKey.insert key id) := by
  intro key' id' h
  rw [KeyedMap.lookup_insert_eq] at h
  rw [KeyedMap.lookup_insert_eq]
  split at h
  · next heq =>
    cases h
    exact ⟨user, if_pos rfl, hid, hkey.trans heq.symm⟩
  · obtain ⟨owner, hu, hown⟩ := ho key' id' h
    have hne : id' ≠ id := by
      rintro rfl
      rw [hfresh] at hu
      cases hu
    exact ⟨owner, by rw [if_neg hne, hu], hown⟩

theorem setUserStatus (ho : UsersOwned s.users s.userIDsByKey) (id status reason : String) (now : Time) :
    let out := s.setUserStatus id status reason now
    UsersOwned out.1.users out.1.userIDsByKey ∧ out.1.userIDsByKey = s.userIDsByKey := by
  have hcommit := s.revokeUserLeases_commit id now
  have hids : (s.revokeUserLeases id now).1.userIDsByKey = s.userIDsByKey := by rw [hcommit.frame]
  unfold Store.setUserStatus
  cases UserStatus.parse status with
  | none => exact ⟨ho, rfl⟩
  | some status =>
    cases hl : s.users.lookup id with
    | none =>
      simp only
      exact ⟨ho, trivial⟩
    | some user =>
      simp only
      split
      · rw [hcommit.users, hids]
        exact ⟨ho.rewrite hl rfl rfl, rfl⟩
      · exact ⟨ho.rewrite hl rfl rfl, rfl⟩

/-- A key keeps its user; only a key without one gets a new user, under an id that is not in use. -/
theorem authenticateUser (ho : UsersOwned s.users s.userIDsByKey) (key source : String)
    (windows : List EnrollmentWindow) (refuseNew : Option StoreError) (newUserID : Option String) (now : Time)
    (hfresh : ∀ id, newUserID = some id → s.users.lookup id = none) :
    let out := s.authenticateUser key source windows refuseNew newUserID now
    UsersOwned out.1.users out.1.userIDsByKey ∧
      (∀ key' id, s.userIDsByKey.lookup key' = some id → out.1.userIDsByKey.lookup key' = some id) ∧
      ∀ user created, out.2 = .ok (user, created) → out.1.userIDsByKey.lookup key = some user.id := by
  have hcharged : ∀ (b : Bool) enrollment, (if b then s else { s with enrollment }).users = s.users ∧
      (if b then s else { s with enrollment }).userIDsByKey = s.userIDsByKey := by
    intro b enrollment
    cases b <;> exact ⟨rfl, rfl⟩
  unfold Store.authenticateUser
  cases hk : s.userIDsByKey.lookup key with
  | some id =>
    obtain ⟨user, hu, hid, hkey⟩ := ho key id hk
    simp only [hu, Option.getD_some]
    refine ⟨ho.rewrite hu rfl rfl, fun _ _ h => h, ?_⟩
    rintro _ _ ⟨⟩
    rw [hk, hid]
  | none =>
    cases refuseNew with
    | some e => exact ⟨ho, fun _ _ h => h, by rintro _ _ ⟨⟩⟩
    | none =>
      simp only
      split
      · exact ⟨ho, fun _ _ h => h, by rintro _ _ ⟨⟩⟩
      · cases newUserID with
        | none =>
          simp only [hcharged]
          exact ⟨ho, fun _ _ h => h, by rintro _ _ ⟨⟩⟩
        | some id =>
          simp only [hcharged]
          refine ⟨ho.enroll (hfresh id rfl) rfl rfl, fun key' id' h => ?_, ?_⟩
          · have hne : key' ≠ key := by
              rintro rfl
              rw [hk] at h
              cases h
            rw [KeyedMap.lookup_insert_eq, if_neg hne, h]
          · rintro _ _ ⟨⟩
            rw [KeyedMap.lookup_insert_eq, if_pos rfl]

end UsersOwned

/-! ### Runs -/

namespace UserAuthState
variable {s s' : UserAuthState κ}

/-- The random draws of a step repeat no challenge and no user id. -/
def Fresh (s : UserAuthState κ) : UserAuthLabel → Prop
  | .challenge raw _ => ∀ raw' e, raw = some raw' → (Base64.encode raw'.val, e) ∉ s.issued
  | .authenticate _ _ _ newUserID _ => ∀ id, newUserID = some id → s.store.users.lookup id = none
  | _ => True

def Runs (svc : UserAuthService κ) : List UserAuthLabel → UserAuthState κ → Prop :=
  Trace (fun s label s' => s.Fresh label ∧ s.step svc label = some s') {}

def spent (s : UserAuthState κ) : List Bytes := s.tried.map (·.1.challenge)

/-- The attempt used a challenge of the broker in time, and if it was good the holder of the key had signed it. -/
def Backed (signed : List (κ × Bytes)) (s : UserAuthState κ) (attempt : VerifiedUser κ × Bool) : Prop :=
  (∃ e, (attempt.1.challenge, e) ∈ s.issued ∧ attempt.1.now < e) ∧
    (attempt.2 = true → (attempt.1.pub, attempt.1.challenge) ∈ signed)

/-- A token answers a good attempt, and says the id of the user of the key until it expires. -/
def Earned (svc : UserAuthService κ) (s : UserAuthState κ) (g : UserGrant κ) : Prop :=
  (∃ now, (⟨g.challenge, g.pub, now⟩, true) ∈ s.tried) ∧
    s.store.userIDsByKey.lookup (svc.crypto.canonicalUserPublicKey g.pub) = some g.userID ∧
    ∀ t, svc.tokens.verify svc.hmac g.accessToken t = some (if t < g.tokenExpiresAt then some (utf8 g.userID) else none)

structure Sound (svc : UserAuthService κ) (signed : List (κ × Bytes)) (s : UserAuthState κ) : Prop where
  size : s.challenges.entries.length ≤ userChallengeMaxEntries
  outstanding : ∀ c e, s.challenges.lookup c = some e → (c, e) ∈ s.issued ∧ c ∉ s.spent
  backed : ∀ attempt ∈ s.tried, Backed signed s attempt
  once : s.spent.Nodup
  verified : ∀ v ∈ s.verified, (v, true) ∈ s.tried
  -- a good attempt is on its way to the store or has its token, once
  apart : (s.verified.map (·.challenge) ++ s.granted.map (·.challenge)).Nodup
  users : UsersOwned s.store.users s.store.userIDsByKey
  earned : ∀ g ∈ s.granted, Earned svc s g

theorem Sound.initial : Sound svc signed {} where
  size := Nat.zero_le _
  outstanding c e h := by cases h
  backed attempt h := by cases h
  once := List.nodup_nil
  verified v h := by cases h
  apart := List.nodup_nil
  users key id h := by cases h
  earned g h := by cases h

theorem Sound.challenge (hs : Sound svc signed s) {raw : Option ChallengeBytes} {now : Time}
    (hf : s.Fresh (.challenge raw now)) (h : s.step svc (.challenge raw now) = some s') : Sound svc signed s' := by
  cases h
  refine { hs with size := ChallengeTable.length_issue_le raw hs.size, outstanding := fun c e hl => ?_, backed := ?_ }
  · rcases ChallengeTable.lookup_issue hl with hold | ⟨hnew, raw', hraw, hc⟩
    · obtain ⟨hi, hspent⟩ := hs.outstanding c e hold
      exact ⟨List.mem_append_left _ hi, hspent⟩
    · refine ⟨List.mem_append_right _ (by simp [hnew]), fun hspent => ?_⟩
      -- a challenge that was used up was issued, so the draw would repeat it
      obtain ⟨attempt, ha, rfl⟩ := List.mem_map.mp hspent
      obtain ⟨⟨e', hi, -⟩, -⟩ := hs.backed attempt ha
      exact hf raw' e' hraw (hc ▸ hi)
  · intro attempt ha
    obtain ⟨⟨e, hi, hlt⟩, hsig⟩ := hs.backed attempt ha
    exact ⟨⟨e, List.mem_append_left _ hi, hlt⟩, hsig⟩

theorem Sound.mem_spent (hs : Sound svc signed s) {c : Bytes}
    (h : c ∈ s.verified.map (·.challenge) ++ s.granted.map (·.challenge)) : c ∈ s.spent := by
  rcases List.mem_append.mp h with h | h
  · obtain ⟨v, hv, rfl⟩ := List.mem_map.mp h
    exact List.mem_map.mpr ⟨_, hs.verified v hv, rfl⟩
  · obtain ⟨g, hg, rfl⟩ := List.mem_map.mp h
    obtain ⟨⟨now, ht⟩, -⟩ := hs.earned g hg
    exact List.mem_map.mpr ⟨_, ht, rfl⟩

theorem Sound.erase (hs : Sound svc signed s) (c : Bytes) :
    Sound svc signed { s with challenges := s.challenges.erase c } := by
  refine { hs with size := ?_, outstanding := ?_ }
  · exact (List.kerase_sublist c _).length_le.trans hs.size
  · intro c' e h
    by_cases hne : c' = c
    · subst hne
      rw [AList.lookup_erase] at h
      cases h
    · rw [AList.lookup_erase_ne hne] at h
      exact hs.outstanding c' e h

theorem Sound.spend (hs : Sound svc signed s) {v : VerifiedUser κ} {e : Time} (hi : (v.challenge, e) ∈ s.issued)
    (hnow : v.now < e) (hnew : v.challenge ∉ s.spent) (hgone : s.challenges.lookup v.challenge = none)
    (good : Bool) (hsig : good = true → (v.pub, v.challenge) ∈ signed) :
    Sound svc signed
      { s with verified := s.verified ++ if good then [v] else [], tried := s.tried ++ [(v, good)] } where
  size := hs.size
  outstanding := by
    intro c e' h
    obtain ⟨hi, hspent⟩ := hs.outstanding c e' h
    refine ⟨hi, fun hmem => ?_⟩
    rw [spent, List.map_append] at hmem
    rcases List.mem_append.mp hmem with hmem | hmem
    · exact hspent hmem
    · rw [List.map_singleton, List.mem_singleton] at hmem
      rw [hmem, hgone] at h
      cases h
  backed := by
    intro attempt ha
    rcases List.mem_append.mp ha with ha | ha
    · exact hs.backed attempt ha
    · rw [List.mem_singleton.mp ha]
      exact ⟨⟨e, hi, hnow⟩, hsig⟩
  once := by
    rw [spent, List.map_append]
    exact (List.perm_append_singleton _ _).nodup_iff.mpr (List.nodup_cons.mpr ⟨hnew, hs.once⟩)
  verified := by
    intro u hu
    rcases List.mem_append.mp hu with hu | hu
    · exact List.mem_append_left _ (hs.verified u hu)
    · cases good with
      | false => cases hu
      | true =>
        rw [List.mem_singleton.mp hu]
        exact List.mem_append_right _ (List.mem_singleton_self _)
  apart := by
    cases good with
    | false => simpa using hs.apart
    | true =>
      have hfree : v.challenge ∉ s.verified.map (·.challenge) ++ s.granted.map (·.challenge) :=
        fun h => hnew (hs.mem_spent h)
      simp only [if_true, List.map_append, List.append_assoc]
      exact List.perm_middle.nodup_iff.mpr (List.nodup_cons.mpr ⟨hfree, hs.apart⟩)
  users := hs.users
  earned := by
    intro g hg
    obtain ⟨⟨now, ht⟩, hrest⟩ := hs.earned g hg
    exact ⟨⟨now, List.mem_append_left _ ht⟩, hrest⟩

theorem Sound.attempt (hs : Sound svc signed s) (hu : svc.crypto.Unforgeable signed) {body : UserAuthBody} {now : Time}
    (h : s.step svc (.attempt body now) = some s') : Sound svc signed s' := by
  simp only [step] at h
  cases hparse : svc.parse body with
  | error refusal =>
    simp only [hparse] at h
    cases h
    exact hs
  | ok request =>
    obtain ⟨challenge, pub, signature⟩ := request
    simp only [hparse] at h
    cases h
    cases hl : s.challenges.lookup challenge with
    | none => simpa [tryChallenge, UserAuthService.attempt, ChallengeTable.consume, hl, Except.toOption] using hs
    | some e =>
      obtain ⟨hi, hnew⟩ := hs.outstanding challenge e hl
      have herased := hs.erase challenge
      have hgone : (s.challenges.erase challenge).lookup challenge = none := AList.lookup_erase _ _
      by_cases hnow : now < e
      · cases hv : svc.crypto.verifyUserAuth pub challenge signature with
        | false =>
          simpa [tryChallenge, UserAuthService.attempt, ChallengeTable.consume, hl, hnow, hv, Except.toOption,
            Except.toBool] using herased.spend (v := ⟨challenge, pub, now⟩) hi hnow hnew hgone false (by simp)
        | true =>
          simpa [tryChallenge, UserAuthService.attempt, ChallengeTable.consume, hl, hnow, hv, Except.toOption,
            Except.toBool] using herased.spend (v := ⟨challenge, pub, now⟩) hi hnow hnew hgone true
              fun _ => hu.signed_of_verify hv
      · simpa [tryChallenge, UserAuthService.attempt, ChallengeTable.consume, hl, hnow, Except.toOption] using herased

theorem answer_granted {now : Time} {nonce : Option Nonce} {result : Except StoreError (User × Bool)} {id : String}
    {token : Bytes} {e : Time} (h : svc.answer now nonce result = .granted id token e) :
    ∃ user created, result = .ok (user, created) ∧ user.id = id ∧
      ∀ t, svc.tokens.verify svc.hmac token t = some (if t < e then some (utf8 id) else none) := by
  cases result with
  | error error => cases error <;> cases h
  | ok result =>
    obtain ⟨user, created⟩ := result
    simp only [UserAuthService.answer] at h
    split at h
    · cases h
    · cases hissue : svc.tokens.issue svc.hmac (utf8 user.id) now nonce with
      | error error =>
        rw [hissue] at h
        cases h
      | ok out =>
        rw [hissue] at h
        cases h
        cases nonce with
        | none =>
          rw [AccessTokenCodec.issue] at hissue
          split at hissue <;> cases hissue
        | some nonce =>
          obtain ⟨seconds, hsigned, hexp⟩ :=
            run_eq_ok (show svc.tokens.run svc.hmac ⟨utf8 user.id, now, nonce⟩ = .ok out from hissue)
          refine ⟨user, created, rfl, rfl, fun t => ?_⟩
          rw [verify_signed hsigned t, hexp]

theorem Sound.authenticate (hs : Sound svc signed s) {i : Nat} {sourceKey : String} {refuseNew : Option StoreError}
    {newUserID : Option String} {nonce : Option Nonce}
    (hf : s.Fresh (.authenticate i sourceKey refuseNew newUserID nonce))
    (h : s.step svc (.authenticate i sourceKey refuseNew newUserID nonce) = some s') : Sound svc signed s' := by
  obtain ⟨v, hv, h⟩ := Option.bind_eq_some_iff.mp h
  cases h
  obtain ⟨howned, hkept, hid⟩ := hs.users.authenticateUser (svc.crypto.canonicalUserPublicKey v.pub) sourceKey svc.windows
    refuseNew newUserID v.now hf
  have hmem : v ∈ s.verified := List.mem_of_getElem? hv
  have hearned : ∀ g ∈ s.granted, Earned svc { s with store := (svc.authenticate s.store v sourceKey refuseNew newUserID
      nonce).1 } g := by
    intro g hg
    obtain ⟨ht, hkey, htoken⟩ := hs.earned g hg
    exact ⟨ht, hkept _ _ hkey, htoken⟩
  have hsub : (s.verified.eraseIdx i).Sublist s.verified := List.eraseIdx_sublist _ _
  have hunserved : Sound svc signed
      { s with
        store := (svc.authenticate s.store v sourceKey refuseNew newUserID nonce).1
        verified := s.verified.eraseIdx i } :=
    { hs with
      verified := fun u hu => hs.verified u (hsub.subset hu)
      apart := hs.apart.sublist ((hsub.map _).append_right _)
      users := howned
      earned := hearned }
  cases hanswer : (svc.authenticate s.store v sourceKey refuseNew newUserID nonce).2 with
  | refused refusal => exact hunserved
  | disabled user => exact hunserved
  | granted id token e =>
    obtain ⟨user, created, hresult, rfl, htoken⟩ := answer_granted hanswer
    have hperm : (s.verified.map (·.challenge) ++ s.granted.map (·.challenge)).Perm
        ((s.verified.eraseIdx i).map (·.challenge) ++ (s.granted.map (·.challenge) ++ [v.challenge])) := by
      obtain ⟨hlt, rfl⟩ := List.getElem?_eq_some_iff.mp hv
      rw [← List.append_assoc]
      exact (((List.getElem_cons_eraseIdx_perm hlt).map _).append_right _).symm.trans
        (List.perm_append_singleton _ _).symm
    refine { hunserved with apart := ?_, earned := ?_ }
    · simpa only [finish, List.map_append, List.map_cons, List.map_nil] using hperm.nodup_iff.mp hs.apart
    · intro g hg
      rcases List.mem_append.mp hg with hg | hg
      · exact hearned g hg
      · rw [List.mem_singleton.mp hg]
        exact ⟨⟨v.now, hs.verified v hmem⟩, hid user created hresult, htoken⟩

theorem Sound.step (hs : Sound svc signed s) (hu : svc.crypto.Unforgeable signed) {label : UserAuthLabel}
    (hf : s.Fresh label) (h : s.step svc label = some s') : Sound svc signed s' := by
  cases label with
  | challenge raw now => exact hs.challenge hf h
  | attempt body now => exact hs.attempt hu h
  | authenticate i sourceKey refuseNew newUserID nonce => exact hs.authenticate hf h
  | setUserStatus id status reason now =>
    cases h
    obtain ⟨howned, hids⟩ := hs.users.setUserStatus id status reason now
    refine { hs with users := howned, earned := fun g hg => ?_ }
    obtain ⟨ht, hkey, htoken⟩ := hs.earned g hg
    exact ⟨ht, by rw [hids, hkey], htoken⟩

theorem Runs.sound {labels : List UserAuthLabel} (hu : svc.crypto.Unforgeable signed) (run : Runs svc labels s) :
    Sound svc signed s := by
  refine Trace.invariant (fun a label b hs hstep => ?_) run Sound.initial
  exact hs.step hu hstep.1 hstep.2

/-- However requests and the decisions of operators interleave: a challenge is good for one attempt, in time, whatever
    comes of it, and a token answers a good attempt, which its key's holder signed for that challenge. The token says
    the id of the user of the key until it expires, and two tokens say the same id just when they are of one key. -/
theorem user_auth_sound {labels : List UserAuthLabel} (unforgeable : svc.crypto.Unforgeable signed)
    (run : Runs svc labels s) :
    s.challenges.entries.length ≤ userChallengeMaxEntries ∧ s.spent.Nodup ∧
      (∀ attempt ∈ s.tried, Backed signed s attempt) ∧ (s.granted.map (·.challenge)).Nodup ∧
      (∀ g ∈ s.granted, Earned svc s g) ∧
      ∀ g ∈ s.granted, ∀ g' ∈ s.granted, g.userID = g'.userID ↔
        svc.crypto.canonicalUserPublicKey g.pub = svc.crypto.canonicalUserPublicKey g'.pub := by
  have hs := run.sound unforgeable
  refine ⟨hs.size, hs.once, hs.backed, (List.nodup_append.mp hs.apart).2.1, hs.earned, fun g hg g' hg' => ?_⟩
  obtain ⟨-, hkey, -⟩ := hs.earned g hg
  obtain ⟨-, hkey', -⟩ := hs.earned g' hg'
  constructor
  · intro hid
    exact hs.users.key_unique (hid ▸ hkey) hkey'
  · intro hsame
    rw [hsame, hkey'] at hkey
    exact (Option.some.inj hkey).symm

def demoService : UserAuthService Unit where
  crypto :=
    { decodeBase64 := some, encodeBase64 := fun _ => "key", parsePKIX := fun _ => some (some ()), point := fun _ => []
      sha256 := id
      verify := fun _ digest _ _ => digest = userAuthStatement (List.replicate 43 65) "key"
      encodeBase64_plain := fun _ => by decide +kernel }
  hmac := { sum := fun _ _ => List.replicate sha256Size 0, length_sum := fun _ _ => List.length_replicate }
  tokens := { key := [], ttl := hour }
  windows := []

theorem demoService_unforgeable : demoService.crypto.Unforgeable [((), List.replicate 43 65)] where
  signs := by
    intro pub digest r s h
    exact ⟨_, List.mem_singleton_self _, of_decide_eq_true h⟩
  apart _ _ _ _ h := h

def demoLogin : List UserAuthLabel :=
  [.challenge (some ⟨List.replicate 32 0, rfl⟩) 0,
    .attempt (.request ⟨[], List.replicate 43 65, List.replicate 64 0⟩) second,
    .authenticate 0 "source" none (some "user") (some ⟨List.replicate 12 0, rfl⟩)]

theorem user_auth_sound_login : ∃ s, Runs demoService demoLogin s ∧ s.granted.map (·.userID) = ["user"] ∧
    ∀ attempt ∈ s.tried, Backed [((), List.replicate 43 65)] s attempt := by
  have hrun : ∃ s, Runs demoService demoLogin s ∧ s.granted.map (·.userID) = ["user"] := by
    refine ⟨_, .snoc (.snoc (.snoc .refl ⟨?_, rfl⟩) ⟨trivial, rfl⟩) ⟨?_, rfl⟩, rfl⟩
    · intro _ _
      rfl
    · intro _ _ _ h
      cases h
  obtain ⟨s, run, hgranted⟩ := hrun
  exact ⟨s, run, hgranted, (user_auth_sound demoService_unforgeable run).2.2.1⟩

end UserAuthState
end OpenRung.Broker
