import OpenRung.Theorems.LeasePass

/-! Endpoints learned from public lists (`connectcore/family.go`). -/

namespace OpenRung.Ladder

variable {host : PassHost} {conn : Connection}

def RelayDescriptor.endpoint (cand : RelayDescriptor) : RelayEndpoint := { host := cand.publicHost, port := cand.publicPort }

/-! ### What the ladder dials -/

def dialed (ctx : Context) (host : Host) (endpoints : KeyedMap String RelayEndpoint) (cand : RelayDescriptor)
    (ops : DirectOps) (now : Nat) : List RelayEndpoint :=
  match if host.mobile then ops.config else none with
  | some _ => []
  | none =>
    cand.endpoint ::
      match ops.dial with
      | none => []
      | some err =>
        if ctx.err (now + 2) || (CandidateError.cause err).isSocketProtectionFailure then []
        else (publicEndpointFor host endpoints cand).toList

section
variable {ctx : Context} {host : Host} {endpoints : KeyedMap String RelayEndpoint} {cand : RelayDescriptor}
  {ops : DirectOps} {now : Nat}

theorem mem_dialed {endpoint : RelayEndpoint} (h : endpoint ∈ dialed ctx host endpoints cand ops now) :
    endpoint = cand.endpoint ∨ publicEndpointFor host endpoints cand = some endpoint := by
  unfold dialed at h
  split at h
  · cases h
  · rcases List.mem_cons.mp h with h | h
    · exact .inl h
    · split at h
      · cases h
      · split at h
        · cases h
        · exact .inr (Option.mem_toList.mp h)

theorem endpoint_mem_dialed {attempt : Nat} {result : CandidateResult}
    (hok : (attemptDirectCandidate ctx host endpoints cand ops attempt now).1 = .ok result) :
    result.relay.endpoint ∈ dialed ctx host endpoints cand ops now := by
  unfold attemptDirectCandidate at hok
  unfold dialed
  cases hconfig : (if host.mobile then ops.config else none) with
  | some err =>
    simp only [hconfig] at hok
    cases hok
  | none =>
    simp only [hconfig] at hok ⊢
    cases hdial : ops.dial with
    | none =>
      simp only [hdial] at hok
      rw [openCandidate_relay hok]
      exact List.mem_cons_self
    | some err =>
      simp only [hdial] at hok ⊢
      split at hok
      · cases hok
      · rename_i hrefused
        rw [if_neg hrefused]
        cases hfor : publicEndpointFor host endpoints cand with
        | none =>
          simp only [hfor] at hok
          cases hok
        | some endpoint =>
          simp only [hfor] at hok
          repeat' split at hok
          all_goals try cases hok
          rw [openCandidate_relay hok]
          exact List.mem_cons_of_mem _ (List.mem_singleton.mpr rfl)

theorem publicEndpointFor_eq_some {endpoint : RelayEndpoint} :
    publicEndpointFor host endpoints cand = some endpoint ↔
      host.isIPv6Host cand.publicHost = true ∧ endpoints.lookup cand.id = some endpoint ∧
        endpoint.host ≠ cand.publicHost := by
  unfold publicEndpointFor
  split
  next hv6 =>
    cases hfound : endpoints.lookup cand.id with
    | none => simp
    | some known =>
      simp only [Option.ite_none_left_eq_some, Option.some.injEq, hv6, true_and]
      constructor
      · rintro ⟨hne, rfl⟩
        exact ⟨rfl, hne⟩
      · rintro ⟨rfl, hne⟩
        exact ⟨hne, rfl⟩
  next hv4 => simp [hv4]

end

/-! ### What is learned -/

def NotIPv6 (host : PassHost) (known : KeyedMap String RelayEndpoint) : Prop :=
  ∀ id endpoint, known.lookup id = some endpoint → host.isIPv6Host endpoint.host = false

theorem NotIPv6.remember (h : NotIPv6 host conn.publicEndpoints) (relays : List RelayDescriptor) :
    NotIPv6 host (rememberPublicEndpoints host conn relays).publicEndpoints := by
  unfold rememberPublicEndpoints
  dsimp only
  generalize conn.publicEndpoints = known at h ⊢
  induction relays generalizing known with
  | nil => exact h
  | cons relay rest ih =>
    rw [List.foldl_cons]
    refine ih _ ?_
    split
    · exact h
    · rename_i hkept
      intro id endpoint hfound
      rw [KeyedMap.lookup_insert_eq] at hfound
      split at hfound
      · cases hfound
        simpa using fun hv6 => hkept (.inr (.inr hv6))
      · exact h id endpoint hfound

def learned (host : PassHost) (conn : Connection) (lists : List (List RelayDescriptor)) : Connection :=
  lists.foldl (rememberPublicEndpoints host) conn

theorem NotIPv6.learned (h : NotIPv6 host conn.publicEndpoints) (lists : List (List RelayDescriptor)) :
    NotIPv6 host (learned host conn lists).publicEndpoints := by
  induction lists generalizing conn with
  | nil => exact h
  | cons relays rest ih => exact ih (h.remember relays)

theorem notIPv6_empty : NotIPv6 host ∅ := by
  intro id endpoint hfound
  cases hfound

/-- The endpoint is not the candidate's own, since the candidate is reached by IPv6. -/
theorem publicEndpointFor_eq_lookup (h : NotIPv6 host conn.publicEndpoints) (cand : RelayDescriptor) :
    publicEndpointFor host.toHost conn.publicEndpoints cand =
      if host.isIPv6Host cand.publicHost then conn.publicEndpoints.lookup cand.id else none := by
  ext endpoint
  rw [publicEndpointFor_eq_some, Option.ite_none_right_eq_some]
  constructor
  · rintro ⟨hv6, hfound, -⟩
    exact ⟨hv6, hfound⟩
  · rintro ⟨hv6, hfound⟩
    refine ⟨hv6, hfound, fun heq => ?_⟩
    rw [← heq, h _ _ hfound] at hv6
    cases hv6

/-! ### The adapted list -/

def stranded (host : PassHost) (known : KeyedMap String RelayEndpoint) (cand : RelayDescriptor) : Bool :=
  host.isIPv6Host cand.publicHost && (known.lookup cand.id).isNone

def rewritten (host : PassHost) (known : KeyedMap String RelayEndpoint) (cand : RelayDescriptor) : RelayDescriptor :=
  match known.lookup cand.id with
  | some endpoint => if host.isIPv6Host cand.publicHost then cand.at endpoint else cand
  | none => cand

theorem adapted_eq (h : NotIPv6 host conn.publicEndpoints) (cand : RelayDescriptor) :
    (match publicEndpointFor host.toHost conn.publicEndpoints cand with
      | some endpoint => (cand.at endpoint, false)
      | none => (cand, host.isIPv6Host cand.publicHost)) =
      (rewritten host conn.publicEndpoints cand, stranded host conn.publicEndpoints cand) := by
  rw [publicEndpointFor_eq_lookup h]
  unfold rewritten stranded
  cases hv6 : host.isIPv6Host cand.publicHost <;> cases conn.publicEndpoints.lookup cand.id <;> simp

theorem parts_of_flagged {α : Type} {f : α → α × Bool} {g : α → α} {p : α → Bool} (h : ∀ a, f a = (g a, p a)) (l : List α) :
    ((l.map f).filter fun a => !a.2).map Prod.fst ++ ((l.map f).filter fun a => a.2).map Prod.fst =
      (l.filter fun a => !p a).map g ++ (l.filter p).map g := by
  obtain rfl : f = fun a => (g a, p a) := funext h
  simp [List.filter_map, Function.comp_def]

theorem stranded_eq_false {known : KeyedMap String RelayEndpoint} {cands : List RelayDescriptor}
    (hv4 : ¬ cands.any (fun cand => host.isIPv6Host cand.publicHost) = true) {cand : RelayDescriptor}
    (hmem : cand ∈ cands) : rewritten host known cand = cand ∧ stranded host known cand = false := by
  have hv4 : host.isIPv6Host cand.publicHost = false := by
    simp only [List.any_eq_true, not_exists, not_and, Bool.not_eq_true] at hv4
    exact hv4 cand hmem
  unfold rewritten stranded
  cases known.lookup cand.id <;> simp [hv4]

theorem adaptToAddressFamily_eq (h : NotIPv6 host conn.publicEndpoints) (cands : List RelayDescriptor) :
    adaptToAddressFamily host conn true cands =
      (cands.filter fun cand => !stranded host conn.publicEndpoints cand).map (rewritten host conn.publicEndpoints) ++
        (cands.filter (stranded host conn.publicEndpoints)).map (rewritten host conn.publicEndpoints) := by
  unfold adaptToAddressFamily
  rw [Bool.and_true]
  split
  · exact parts_of_flagged (adapted_eq h) cands
  · rename_i hv4
    have hnone : cands.filter (stranded host conn.publicEndpoints) = [] :=
      List.filter_eq_nil_iff.mpr fun cand hmem => by simp [(stranded_eq_false hv4 hmem).2]
    have hall : (cands.filter fun cand => !stranded host conn.publicEndpoints cand) = cands :=
      List.filter_eq_self.mpr fun cand hmem => by simp [(stranded_eq_false hv4 hmem).2]
    have hsame : cands.map (rewritten host conn.publicEndpoints) = cands :=
      (List.map_congr_left fun cand hmem => (stranded_eq_false hv4 hmem).1).trans (List.map_id' cands)
    rw [hnone, hall, hsame, List.map_nil, List.append_nil]

theorem rewritten_of_stranded {known : KeyedMap String RelayEndpoint} {cand : RelayDescriptor}
    (h : stranded host known cand = true) : rewritten host known cand = cand := by
  obtain ⟨-, hnone⟩ := Bool.and_eq_true_iff.mp h
  unfold rewritten
  rw [Option.isNone_iff_eq_none.mp hnone]

theorem rewritten_at (known : KeyedMap String RelayEndpoint) (cand : RelayDescriptor) (endpoint : RelayEndpoint) :
    (rewritten host known cand).at endpoint = cand.at endpoint := by
  unfold rewritten
  repeat' split
  all_goals rfl

/-! ### The retries -/

theorem mem_leasedEndpointRetries {tried : List RelayDescriptor} {before : KeyedMap String RelayEndpoint}
    {retry : RelayDescriptor} (h : retry ∈ leasedEndpointRetries host conn tried before) :
    ∃ cand ∈ tried, ∃ current, conn.publicEndpoints.lookup cand.id = some current ∧
      retry = { cand.at current with wssFronts := [] } ∧ before.lookup cand.id ≠ some current ∧
      cand.endpoint ≠ current := by
  obtain ⟨cand, hmem, h⟩ := List.mem_filterMap.mp h
  dsimp only at h
  split at h
  · cases h
  · rename_i current hfound
    obtain ⟨hnew, h⟩ := Option.ite_none_left_eq_some.mp h
    obtain ⟨-, h⟩ := Option.ite_none_left_eq_some.mp h
    obtain ⟨hother, h⟩ := Option.ite_none_left_eq_some.mp h
    exact ⟨cand, hmem, current, hfound, (Option.some.inj h).symm, hnew, hother⟩

/-- Whatever public lists came before, adapting a list to a network without IPv6 keeps its relays, and a retry dials one
    endpoint, which the attempt of that candidate before could not dial. -/
theorem family_fallback (host : PassHost) (conn : Connection) (lists : List (List RelayDescriptor)) :
    let before := learned host { conn with publicEndpoints := ∅ } lists
    (∀ (unavailable : Bool) (cands : List RelayDescriptor),
      let out := adaptToAddressFamily host before unavailable cands
      (∀ endpoint, (out.map (·.at endpoint)).Perm (cands.map (·.at endpoint))) ∧
      out = if unavailable then
          (cands.filter fun cand => !stranded host before.publicEndpoints cand).map
            (rewritten host before.publicEndpoints) ++ cands.filter (stranded host before.publicEndpoints)
        else cands) ∧
    ∀ (fresh : List (List RelayDescriptor)) (tried : List RelayDescriptor),
      let after := learned host before fresh
      ∀ retry ∈ leasedEndpointRetries host after tried before.publicEndpoints, ∃ cand ∈ tried,
        retry = { cand.at retry.endpoint with wssFronts := [] } ∧
        (∀ ctx ops now, retry.endpoint ∉ dialed ctx host.toHost before.publicEndpoints cand ops now) ∧
        ∀ ctx ops now, ∀ endpoint ∈ dialed ctx host.toHost after.publicEndpoints retry ops now,
          endpoint = retry.endpoint := by
  intro before
  have hbefore : NotIPv6 host before.publicEndpoints := notIPv6_empty.learned lists
  refine ⟨?_, ?_⟩
  · intro unavailable cands out
    have hout : out = if unavailable then
          (cands.filter fun cand => !stranded host before.publicEndpoints cand).map
            (rewritten host before.publicEndpoints) ++ cands.filter (stranded host before.publicEndpoints)
        else cands := by
      cases unavailable with
      | false => simp [out, adaptToAddressFamily]
      | true =>
        have hsame : (cands.filter (stranded host before.publicEndpoints)).map (rewritten host before.publicEndpoints) =
            cands.filter (stranded host before.publicEndpoints) :=
          (List.map_congr_left fun cand hmem => rewritten_of_stranded (List.mem_filter.mp hmem).2).trans (List.map_id' _)
        simp only [out, adaptToAddressFamily_eq hbefore, hsame, ite_true]
    refine ⟨fun endpoint => ?_, hout⟩
    rw [hout]
    cases unavailable with
    | false => simp
    | true =>
      simp only [ite_true, List.map_append, List.map_map, Function.comp_def, rewritten_at]
      rw [← List.map_append]
      exact ((List.perm_append_comm).trans (List.filter_append_perm _ cands)).map _
  · intro fresh tried after retry hretry
    have hafter : NotIPv6 host after.publicEndpoints := hbefore.learned fresh
    obtain ⟨cand, hmem, current, hfound, rfl, hnew, hother⟩ := mem_leasedEndpointRetries hretry
    refine ⟨cand, hmem, rfl, ?_, ?_⟩
    · intro ctx ops now hdialed
      rcases mem_dialed hdialed with heq | hfor
      · exact hother heq.symm
      · exact hnew (publicEndpointFor_eq_some.mp hfor).2.1
    · intro ctx ops now endpoint hdialed
      rcases mem_dialed hdialed with heq | hfor
      · exact heq
      · -- the retry goes to an endpoint that was learned, so it has no fallback of its own
        have hv6 := (publicEndpointFor_eq_some.mp hfor).1
        rw [show ({ cand.at current with wssFronts := [] } : RelayDescriptor).publicHost = current.host from rfl,
          hafter _ _ hfound] at hv6
        cases hv6

end OpenRung.Ladder
