import OpenRung.System.UserAccess
import OpenRung.Theorems.Effect
import OpenRung.Theorems.UserAuth

/-! Who gets a lease. A write of the lease table is about leases of one user, and the access handler writes for the
    user of a bearer token, which the broker granted to the holder of that user's key. -/

namespace OpenRung.Broker
open Joined

variable {κ : Type} {svc : UserAuthService κ} {signed : List (κ × Bytes)}

/-! ### Owners of leases -/

/-- Every lease of the one table has the user of the lease under its id in the other. -/
def OwnersKept (leases leases' : KeyedMap String Lease) : Prop :=
  ∀ id l, leases'.lookup id = some l → ∃ old, leases.lookup id = some old ∧ old.userID = l.userID

theorem OwnersKept.refl (leases : KeyedMap String Lease) : OwnersKept leases leases := fun _ l h => ⟨l, h, rfl⟩

theorem ownersKept_setUserStatus {s : Store} (hk : s.leases.Keyed Lease.id) (id status reason : String) (now : Time) :
    (s.setUserStatus id status reason now).1.leases.Keyed Lease.id ∧
      OwnersKept s.leases (s.setUserStatus id status reason now).1.leases := by
  rcases s.setUserStatus_cases id status reason now with ⟨user, h, -⟩ | ⟨user, h, -⟩ | ⟨e, h⟩
  · have he : Effect s (s.setUserStatus id status reason now).1 (fun _ => True) now (revokeWrites s id now) _ :=
      revoke_effect hk id now (by rw [h]) (by rw [h])
    refine ⟨he.keyed hk, fun id' l hl => ?_⟩
    rcases he.lookup.mp hl with ⟨hw, rfl⟩ | ⟨hold, -⟩
    · obtain ⟨old, hlive, rfl⟩ := mem_revokeWrites.mp hw
      exact ⟨old, ((Store.mem_liveLeasesForUser hk).mp hlive).1, rfl⟩
    · exact ⟨l, hold, rfl⟩
  · rw [h]
    exact ⟨hk, .refl _⟩
  · rw [h]
    exact ⟨hk, .refl _⟩

/-- What an issue writes are leases of the user it is for. -/
theorem Issuing.owner {s : Store} {req : LeaseIssueRequest} {mint : String → Option (String × String)} {now : Time}
    {plan : LeaseIssuePlan} {drawn : List Lease} (h : Issuing s req mint now plan drawn)
    (hk : s.leases.Keyed Lease.id) {w : Lease} (hw : w ∈ issueWrites s req now plan drawn) : w.userID = req.userID := by
  rcases h.mem_writes.mp hw with ⟨l, hl, rfl⟩ | ⟨l, hl, rfl⟩ | ⟨l, hl, -, rfl⟩
  · exact (h.evicted_stored hk hl).2.1
  · exact (h.extend_stored hk hl).2.1
  · obtain ⟨id, credential, -, heq⟩ := h.drawn_each l hl
    rw [heq]
    rfl

theorem issueLeases_owner {s : Store} (hk : s.leases.Keyed Lease.id) (req : LeaseIssueRequest)
    {mint : String → Option (String × String)} (now : Time) (hf : FreshMint (fun id => s.leases.lookup id ≠ none) mint) :
    let out := (s.issueLeases req mint now).1
    out.users = s.users ∧ out.userIDsByKey = s.userIDsByKey ∧ out.leases.Keyed Lease.id ∧
      ∀ id l, out.leases.lookup id = some l → s.leases.lookup id = some l ∨ l.userID = req.userID := by
  rcases s.issueLeases_cases req mint now with ⟨e, h⟩ | ⟨plan, drawn, hi, h⟩
  · rw [h]
    exact ⟨rfl, rfl, hk, fun id l hl => .inl hl⟩
  · have hdraws := FreshMint.draws hi (fun _ h => h) hf
    have he := issue_effect hk hi hdraws
    have hframe := (hi.commit hk hdraws).1.frame
    rw [h]
    refine ⟨by rw [hframe], by rw [hframe], he.keyed hk, fun id l hl => ?_⟩
    rcases he.lookup.mp hl with ⟨hw, -⟩ | ⟨hold, -⟩
    · exact .inr (hi.owner hk hw)
    · exact .inl hold

theorem UserAuthState.step_leases {s s' : UserAuthState κ} (hk : s.store.leases.Keyed Lease.id) {label : UserAuthLabel}
    (h : s.step svc label = some s') :
    s.granted ⊆ s'.granted ∧ s'.store.leases.Keyed Lease.id ∧ OwnersKept s.store.leases s'.store.leases := by
  cases label with
  | challenge raw now =>
    cases h
    exact ⟨List.Subset.refl _, hk, .refl _⟩
  | attempt body now =>
    simp only [step] at h
    cases hparse : svc.parse body with
    | error refusal =>
      simp only [hparse] at h
      cases h
      exact ⟨List.Subset.refl _, hk, .refl _⟩
    | ok request =>
      simp only [hparse] at h
      cases h
      exact ⟨List.Subset.refl _, hk, .refl _⟩
  | authenticate i sourceKey refuseNew newUserID nonce =>
    obtain ⟨v, hv, h⟩ := Option.bind_eq_some_iff.mp h
    cases h
    have hleases := (s.store.authenticateUser_frame (svc.crypto.canonicalUserPublicKey v.pub) sourceKey svc.windows
      refuseNew newUserID v.now).1
    cases hanswer : (svc.authenticate s.store v sourceKey refuseNew newUserID nonce).2 with
    | refused refusal => exact ⟨List.Subset.refl _, hleases ▸ hk, hleases ▸ .refl _⟩
    | disabled user => exact ⟨List.Subset.refl _, hleases ▸ hk, hleases ▸ .refl _⟩
    | granted id token e => exact ⟨List.subset_append_left _ _, hleases ▸ hk, hleases ▸ .refl _⟩
  | setUserStatus id status reason now =>
    cases h
    obtain ⟨hkeyed, hkept⟩ := ownersKept_setUserStatus hk id status reason now
    exact ⟨List.Subset.refl _, hkeyed, hkept⟩

/-! ### Runs -/

namespace UserAccess
variable {s s' : UserAccess κ}

/-- The broker alone has the key of the HMAC: bytes that end in their HMAC are those of a token granted before. -/
def Genuine (svc : UserAuthService κ) (s : UserAccess κ) (bearer : Bytes) : Prop :=
  ∀ message, Base64.decode bearer = some (message ++ svc.hmac.sum svc.tokens.key message) →
    ∃ g ∈ s.auth.granted, Base64.decode g.accessToken = some (message ++ svc.hmac.sum svc.tokens.key message)

def Allowed (svc : UserAuthService κ) (s : UserAccess κ) : UserAccessLabel → Prop
  | .auth label => s.auth.Fresh label
  | .access bearer _ => s.Genuine svc bearer
  | .issue _ _ _ _ _ mint _ => FreshMint (fun id => s.auth.store.leases.lookup id ≠ none) mint

def Runs (svc : UserAuthService κ) : List UserAccessLabel → UserAccess κ → Prop :=
  Trace (fun s label s' => s.Allowed svc label ∧ s.step svc label = some s') {}

def Granted (s : UserAccess κ) (userID : String) : Prop := ∃ g ∈ s.auth.granted, g.userID = userID

theorem Genuine.granted {bearer : Bytes} {now : Time} {userID : String} (hg : s.Genuine svc bearer)
    (hs : s.auth.Sound svc signed) (h : authorize svc s.auth.store bearer now = some userID) : s.Granted userID := by
  obtain ⟨answer, hverify, h⟩ := Option.bind_eq_some_iff.mp h
  obtain ⟨id, hid, h⟩ := Option.bind_eq_some_iff.mp h
  obtain ⟨key, hfind, h⟩ := Option.bind_eq_some_iff.mp h
  obtain ⟨user, hlookup, h⟩ := Option.bind_eq_some_iff.mp h
  obtain rfl := Option.some.inj (Option.ite_none_right_eq_some.mp h).2
  obtain ⟨answer', hverify', haccepted⟩ := verify_total svc.hmac svc.tokens bearer now
  obtain rfl := Option.some.inj (hverify.symm.trans hverify')
  obtain ⟨seconds, nonce, hsigned, hlive⟩ := haccepted id hid
  obtain ⟨g, hmem, hdecode⟩ := hg _ hsigned.decode
  -- the granted token has the same bytes, so it says the same id
  have hsame := verify_signed { hsigned with decode := hdecode } now
  rw [(hs.earned g hmem).2.2 now, if_pos hlive] at hsame
  have hid' : utf8 g.userID = id := by
    split at hsame
    · exact Option.some.inj (Option.some.inj hsame)
    · cases hsame
  have hkey := List.find?_some hfind
  rw [decide_eq_true_eq] at hkey
  exact ⟨g, hmem, utf8_injective (hid'.trans hkey.symm)⟩

structure Entitled (svc : UserAuthService κ) (signed : List (κ × Bytes)) (s : UserAccess κ) : Prop where
  sound : s.auth.Sound svc signed
  keyed : s.auth.store.leases.Keyed Lease.id
  authorized : ∀ userID ∈ s.authorized, s.Granted userID
  leased : ∀ id l, s.auth.store.leases.lookup id = some l → s.Granted l.userID

theorem Entitled.initial : Entitled svc signed {} where
  sound := .initial
  keyed id l h := by cases h
  authorized id h := by cases h
  leased id l h := by cases h

theorem Entitled.step (he : Entitled svc signed s) (hu : svc.crypto.Unforgeable signed) {label : UserAccessLabel}
    (ha : s.Allowed svc label) (h : s.step svc label = some s') : Entitled svc signed s' := by
  cases label with
  | auth label =>
    obtain ⟨auth, hauth, rfl⟩ := Option.map_eq_some_iff.mp h
    obtain ⟨hgranted, hkeyed, hkept⟩ := UserAuthState.step_leases he.keyed hauth
    have hstays : ∀ userID, s.Granted userID → Granted { s with auth } userID := by
      rintro userID ⟨g, hg, hid⟩
      exact ⟨g, hgranted hg, hid⟩
    refine ⟨he.sound.step hu ha hauth, hkeyed, fun id hid => hstays _ (he.authorized id hid), fun id l hl => ?_⟩
    obtain ⟨old, hold, howner⟩ := hkept id l hl
    exact hstays _ (howner ▸ he.leased id old hold)
  | access bearer now =>
    cases h
    refine { he with authorized := fun userID hin => ?_ }
    rcases List.mem_append.mp hin with hold | hnew
    · exact he.authorized userID hold
    · exact Genuine.granted ha he.sound (Option.mem_toList.mp hnew)
  | issue i relayIDs ttl maxPerUser maxPerRelay mint now =>
    obtain ⟨userID, hin, h⟩ := Option.bind_eq_some_iff.mp h
    cases h
    have hgranted := he.authorized userID (List.mem_of_getElem? hin)
    obtain ⟨husers, hids, hkeyed, howner⟩ :=
      issueLeases_owner he.keyed { userID, relayIDs, ttl, maxPerUser, maxPerRelay } now ha
    refine ⟨{ he.sound with users := ?_, earned := fun g hg => ?_ }, hkeyed,
      fun id hid => he.authorized id (List.mem_of_mem_eraseIdx hid), fun id l hl => ?_⟩
    · rw [husers, hids]
      exact he.sound.users
    · obtain ⟨htried, hkey, htoken⟩ := he.sound.earned g hg
      exact ⟨htried, hids ▸ hkey, htoken⟩
    · rcases howner id l hl with hold | hown
      · exact he.leased id l hold
      · exact hown ▸ hgranted

/-- Whatever is sent to the two endpoints: every lease is of a user whose key's holder signed a challenge of the broker,
    and was granted a token for it. -/
theorem lease_of_key_holder {labels : List UserAccessLabel} (unforgeable : svc.crypto.Unforgeable signed)
    (run : Runs svc labels s) {id : String} {l : Lease} (stored : s.auth.store.leases.lookup id = some l) :
    ∃ g ∈ s.auth.granted, g.userID = l.userID ∧ (g.pub, g.challenge) ∈ signed ∧
      (∃ e, (g.challenge, e) ∈ s.auth.issued) ∧
      s.auth.store.userIDsByKey.lookup (svc.crypto.canonicalUserPublicKey g.pub) = some l.userID := by
  have he : Entitled svc signed s :=
    Trace.invariant (fun a label b he hstep => he.step unforgeable hstep.1 hstep.2) run .initial
  obtain ⟨g, hg, hid⟩ := he.leased id l stored
  obtain ⟨⟨now, htried⟩, hkey, -⟩ := he.sound.earned g hg
  obtain ⟨⟨e, hissued, -⟩, hsigned⟩ := he.sound.backed _ htried
  exact ⟨g, hg, hid, hsigned rfl, ⟨e, hissued⟩, hid ▸ hkey⟩

open UserAuthState (demoService demoService_unforgeable demoLogin)

def demoBearer : Bytes :=
  Base64.encode (accessTokenPayload (utf8 "user") 3601 (List.replicate 12 0) ++ List.replicate sha256Size 0)

def demoMint (relayID : String) : Option (String × String) :=
  if relayID = "relay" then some ("lease", "credential") else none

def demoVisit : List UserAccessLabel :=
  demoLogin.map .auth ++ [.access demoBearer minute, .issue 0 ["relay"] hour 5 5 demoMint minute]

/-- The user that has just logged in asks for one relay. -/
theorem lease_of_key_holder_visit : ∃ s l, Runs demoService demoVisit s ∧
    s.auth.store.leases.lookup "lease" = some l ∧ l.userID = "user" ∧
    ∃ g ∈ s.auth.granted, g.userID = l.userID ∧ (g.pub, g.challenge) ∈ [((), List.replicate 43 65)] := by
  have hrun : ∃ s l, Runs demoService demoVisit s ∧ s.auth.store.leases.lookup "lease" = some l ∧
      l.userID = "user" := by
    refine ⟨_, _, .snoc (.snoc (.snoc (.snoc (.snoc .refl ⟨?_, rfl⟩) ⟨trivial, rfl⟩) ⟨?_, rfl⟩) ⟨?_, rfl⟩) ⟨?_, rfl⟩,
      rfl, rfl⟩
    · refine ⟨fun r id credential hmint => ?_, fun r r' id c c' h h' => ?_⟩
      · obtain ⟨-, hpair⟩ := Option.ite_none_right_eq_some.mp hmint
        cases hpair
        exact not_not.mpr rfl
      · exact (Option.ite_none_right_eq_some.mp h).1.trans (Option.ite_none_right_eq_some.mp h').1.symm
    · intro raw e _ h
      cases h
    · rintro _ ⟨⟩
      rfl
    · exact fun message h => ⟨_, List.mem_singleton_self _, h⟩
  obtain ⟨s, l, run, hl, huser⟩ := hrun
  obtain ⟨g, hg, hid, hsigned, -⟩ := lease_of_key_holder demoService_unforgeable run hl
  exact ⟨s, l, run, hl, huser, g, hg, hid, hsigned⟩

end UserAccess

end OpenRung.Broker
