import OpenRung.Punch.Coordinator

/-! Where the hub can aim a relay. What it forwards as the client's reflexive endpoints its own reflector observed,
    and a candidate declared `host` is never globally routable; but one that the client declares `srflx` in its local
    list passes the same policy. -/

namespace OpenRung.Punch

/-! ### Sanitizing -/

def Endpoint.considered (e : Endpoint) : Bool :=
  match e.udpAddr with
  | some a => !a.ip.isMulticast && !a.ip.isUnspecified
  | none => false

def Endpoint.srflxCandidate (e : Endpoint) : Bool := e.kind = kindSrflx && e.considered

variable {e : Endpoint}

theorem Endpoint.considered_iff :
    e.considered = true ↔
      ∃ ip, parseIP e.ip = some ip ∧ ¬ (e.port < 1 ∨ e.port > 65535 ∨ ip.isMulticast ∨ ip.isUnspecified) := by
  unfold considered udpAddr
  cases parseIP e.ip with
  | none => simp
  | some ip =>
    by_cases hpo : e.port < 1 ∨ e.port > 65535
    · simp only [Option.bind_some, if_pos hpo, Option.some.injEq, exists_eq_left', Bool.false_eq_true, false_iff]
      tauto
    · simp only [Option.bind_some, if_neg hpo, Option.some.injEq, exists_eq_left', Bool.and_eq_true, Bool.not_eq_true']
      rw [not_or] at hpo
      simp only [not_or, Bool.not_eq_true]
      tauto

theorem Policy.mem_sanitizeLoop {p : Policy} {l : List Endpoint} {hostN srflxN : Nat} {srflxIP : Option IP}
    (mem : e ∈ p.sanitizeLoop hostN srflxN srflxIP l) :
    e ∈ l ∧ e.considered = true ∧
      (e.kind = kindSrflx ∨ ∀ ip, parseIP e.ip = some ip → ip.isGloballyRoutable = false) := by
  induction l generalizing hostN srflxN srflxIP with
  | nil => cases mem
  | cons first rest ih =>
    have hl : ∀ {h s i}, e ∈ p.sanitizeLoop h s i rest → _ := fun mem => (ih mem).imp_left (List.mem_cons_of_mem first)
    unfold sanitizeLoop at mem
    split at mem
    · exact hl mem
    · rename_i ip hp
      split at mem
      · exact hl mem
      · rename_i ha
        have hco : first.considered = true := Endpoint.considered_iff.mpr ⟨ip, hp, ha⟩
        split at mem
        · split at mem
          · exact hl mem
          · rename_i hu
            rcases List.mem_cons.mp mem with rfl | mem
            · refine ⟨by simp, hco, Or.inr fun ip' hpa => ?_⟩
              rw [hp] at hpa
              cases hpa
              exact Bool.eq_false_iff.mpr fun hr => hu (Or.inl hr)
            · exact hl mem
        · split at mem
          · rename_i hs
            split at mem
            · exact hl mem
            · split at mem
              · exact hl mem
              · rcases List.mem_cons.mp mem with rfl | mem
                · exact ⟨by simp, hco, Or.inl hs⟩
                · exact hl mem
          · exact hl mem

theorem Policy.filter_sanitizeLoop {p : Policy} (han : p.requireGlobalSrflx = false)
    (hay : p.singleSrflxIP = false) (l : List Endpoint) (hostN srflxN : Nat) (srflxIP : Option IP) :
    (p.sanitizeLoop hostN srflxN srflxIP l).filter (·.kind = kindSrflx) =
      (l.filter Endpoint.srflxCandidate).take (p.maxPeersPerKind - srflxN) := by
  induction l generalizing hostN srflxN srflxIP with
  | nil => simp [sanitizeLoop]
  | cons first rest ih =>
    have hsk : first.srflxCandidate = false → (p.sanitizeLoop hostN srflxN srflxIP rest).filter (·.kind = kindSrflx) =
        ((first :: rest).filter Endpoint.srflxCandidate).take (p.maxPeersPerKind - srflxN) := fun not => by
      rw [ih, List.filter_cons_of_neg (by simp [not])]
    unfold sanitizeLoop
    split
    · rename_i hun
      refine hsk (Bool.eq_false_iff.mpr fun hca => ?_)
      obtain ⟨ip, hp, -⟩ := Endpoint.considered_iff.mp (Bool.and_eq_true_iff.mp hca).2
      exact absurd (hun.symm.trans hp) (by simp)
    · rename_i ip hp
      split
      · rename_i hrj
        refine hsk (Bool.eq_false_iff.mpr fun hca => ?_)
        obtain ⟨ip', hpa, ha⟩ := Endpoint.considered_iff.mp (Bool.and_eq_true_iff.mp hca).2
        rw [hp] at hpa
        cases hpa
        exact ha hrj
      · rename_i ha
        split
        · rename_i hho
          -- a host counts against the other cap, and does not stay in the filtered list
          have ho : ¬ first.kind = kindSrflx := by
            rw [hho]
            decide
          split
          · exact hsk (by simp [Endpoint.srflxCandidate, ho])
          · rw [List.filter_cons_of_neg (by simp [ho]), ih,
              List.filter_cons_of_neg (by simp [Endpoint.srflxCandidate, ho])]
        · split
          · rename_i hs
            have hca : first.srflxCandidate = true := by
              rw [Endpoint.srflxCandidate, Endpoint.considered_iff.mpr ⟨ip, hp, ha⟩]
              simp [hs]
            split
            · rename_i hfu
              have hnn : p.maxPeersPerKind - srflxN = 0 := by
                simp only [han, Bool.false_eq_true, false_and, false_or] at hfu
                omega
              rw [ih, hnn, List.take_zero, List.take_zero]
            · rename_i hro
              have hm : p.maxPeersPerKind - srflxN = (p.maxPeersPerKind - (srflxN + 1)) + 1 := by
                simp only [han, Bool.false_eq_true, false_and, false_or] at hro
                omega
              rw [if_neg (by simp [hay]), List.filter_cons_of_pos (by simp [hs]), ih,
                List.filter_cons_of_pos hca, hm, List.take_succ_cons]
          · rename_i ho
            exact hsk (by simp [Endpoint.srflxCandidate, ho])

/-! ### The reflector -/

inductive ReflectorEvent where
  | record (now : Time) (nonce localIP : Bytes) (observed : Endpoint)
  | collect (cutoff : Time)

def Reflector.apply (r : Reflector) : ReflectorEvent → Reflector
  | .record now nonce localIP observed => r.record now nonce localIP observed
  | .collect cutoff => r.collect cutoff

def Reflector.Holds (r : Reflector) (key : Bytes) (e : Endpoint) : Prop :=
  ∃ entry, r.obs.lookup key = some entry ∧ e ∈ entry.endpoints.values

theorem Reflector.holds_apply {r : Reflector} {event : ReflectorEvent} {key : Bytes}
    (hh : (r.apply event).Holds key e) :
    r.Holds key e ∨ ∃ now localIP, event = .record now key localIP e := by
  obtain ⟨entry, hf, mem⟩ := hh
  cases event with
  | collect cutoff => exact Or.inl ⟨entry, (KeyedMap.lookup_filter_eq_some.mp hf).1, mem⟩
  | record now nonce localIP observed =>
    simp only [apply, record, KeyedMap.lookup_insert_eq] at hf
    split at hf
    · rename_i hsa
      subst hsa
      cases hf
      obtain ⟨address, at_⟩ := KeyedMap.mem_values_iff.mp mem
      rw [KeyedMap.lookup_insert_eq] at at_
      split at at_
      · cases at_
        exact Or.inr ⟨now, localIP, rfl⟩
      · cases hk : r.obs.lookup key with
        | none =>
          rw [hk] at at_
          cases at_
        | some old =>
          rw [hk] at at_
          exact Or.inl ⟨old, hk, KeyedMap.mem_values_iff.mpr ⟨address, at_⟩⟩
    · exact Or.inl ⟨entry, hf, mem⟩

theorem Reflector.recorded_of_holds {events : List ReflectorEvent} {key : Bytes}
    (hh : (events.foldl Reflector.apply {}).Holds key e) : ∃ now localIP, .record now key localIP e ∈ events := by
  induction events using List.reverseRecOn with
  | nil =>
    obtain ⟨entry, hf, -⟩ := hh
    cases hf
  | append_singleton events event ih =>
    rw [List.foldl_append] at hh
    rcases holds_apply hh with hb | ⟨now, localIP, rfl⟩
    · obtain ⟨now, localIP, mem⟩ := ih hb
      exact ⟨now, localIP, by simp [mem]⟩
    · exact ⟨now, localIP, by simp⟩

theorem dedupeLoop_subset (seen : List Bytes) (l : List Endpoint) : dedupeLoop seen l ⊆ l := by
  induction l generalizing seen with
  | nil => exact List.Subset.refl _
  | cons e rest ih =>
    unfold dedupeLoop
    split
    · exact List.subset_cons_of_subset _ (ih _)
    · split
      · exact List.subset_cons_of_subset _ (ih _)
      · exact List.cons_subset_cons _ (ih _)

theorem Reflector.classify_holds {r : Reflector} {visit : MapOrder} {key : Bytes} {class_ : NATClass}
    {reflexive : List Endpoint} (hc : r.classify visit key = some (class_, reflexive))
    (mem : e ∈ reflexive) : r.Holds key e := by
  unfold classify at hc
  split at hc
  · cases hc
  · rename_i entry hf
    simp only at hc
    split at hc
    · cases hc
    · cases hc
      exact ⟨entry, hf, (visit.perm _).subset (dedupeLoop_subset _ _ mem)⟩

/-! ### Aim -/

def Coordinator.Observed (c : Coordinator) (nonce : Bytes) (a : UDPAddr) : Prop :=
  ∃ key e, nonceKey nonce = some key ∧ c.reflector.Holds key e ∧ e.udpAddr = some a

/-- If `e` names a globally routable address, the reflector observed it for the nonce. -/
def Coordinator.Vouches (c : Coordinator) (nonce : Bytes) (e : Endpoint) : Prop :=
  ∀ a, e.udpAddr = some a → a.ip.isGloballyRoutable = true → c.Observed nonce a

structure Coordinator.AimsAtObserved (c : Coordinator) (nonce : Bytes) (dir : PunchDirective) : Prop where
  named : ∀ e ∈ dir.peers, c.Vouches nonce e
  sprayed : ∀ (p : Policy), ∀ a ∈ p.attemptTargets dir.peers, a.ip.isGloballyRoutable = true → c.Observed nonce a

theorem Coordinator.handleRequest_ok {c : Coordinator} {env : RequestEnv} {req : PunchRequest} {dir : PunchDirective}
    (hse : c.handleRequest env (some req) = .ok dir) :
    dir.clientReflexive = (c.observedPeers env.visit req.clientNonce).2 ∧
      dir.clientLocal = desktopPolicy.sanitizePeers req.clientLocal := by
  unfold handleRequest at hse
  simp only at hse
  repeat' split at hse
  all_goals first
    | (cases hse; exact ⟨rfl, rfl⟩)
    | cases hse

theorem Coordinator.observedPeers_vouched (c : Coordinator) (visit : MapOrder) (nonce : Bytes) :
    ∀ e ∈ (c.observedPeers visit nonce).2, c.Vouches nonce e := by
  intro e mem a had _
  unfold observedPeers at mem
  split at mem
  · rename_i class_ reflexive hc
    obtain ⟨key, hno, hf⟩ := Option.bind_eq_some_iff.mp hc
    have hi : e ∈ reflexive := dedupeLoop_subset _ _ (Policy.mem_sanitizeLoop mem).1
    exact ⟨key, e, hno, Reflector.classify_holds hf hi, had⟩
  · cases mem

theorem Coordinator.vouches_of_host {c : Coordinator} {nonce : Bytes} {p : Policy} {endpoints : List Endpoint}
    (mem : e ∈ p.sanitizePeers endpoints) (hho : ¬ e.kind = kindSrflx) : c.Vouches nonce e := by
  intro a had hr
  obtain ⟨ip, hp, hsa⟩ := Option.bind_eq_some_iff.mp had
  have hu := ((Policy.mem_sanitizeLoop mem).2.2.resolve_left hho) ip hp
  split at hsa
  · cases hsa
  · cases hsa
    exact absurd (hu.symm.trans hr) (by decide)

theorem Coordinator.sprayed_of_named {c : Coordinator} {nonce : Bytes} {dir : PunchDirective}
    (hn : ∀ e ∈ dir.peers, c.Vouches nonce e) (p : Policy) {a : UDPAddr} (ht : a ∈ p.attemptTargets dir.peers)
    (hr : a.ip.isGloballyRoutable = true) : c.Observed nonce a := by
  obtain ⟨e, mem, had⟩ := List.mem_filterMap.mp ht
  exact hn e (dedupeLoop_subset _ _ (Policy.mem_sanitizeLoop mem).1) a had hr

/-- The local candidates that decide where a relay is aimed: the first ones declared server-reflexive. -/
def PunchRequest.declaredSrflx (req : PunchRequest) : List Endpoint :=
  ((dedupeEndpoints req.clientLocal).filter Endpoint.srflxCandidate).take desktopPolicy.maxPeersPerKind

theorem Coordinator.aimsAtObserved_iff (c : Coordinator) (env : RequestEnv) (req : PunchRequest) (dir : PunchDirective)
    (sent : c.handleRequest env (some req) = .ok dir) :
    c.AimsAtObserved req.clientNonce dir ↔ ∀ e ∈ req.declaredSrflx, c.Vouches req.clientNonce e := by
  obtain ⟨hre, hlo⟩ := handleRequest_ok sent
  have hs : (desktopPolicy.sanitizePeers req.clientLocal).filter (·.kind = kindSrflx) = req.declaredSrflx :=
    Policy.filter_sanitizeLoop rfl rfl _ 0 0 none
  have hpe : dir.peers = (c.observedPeers env.visit req.clientNonce).2 ++ desktopPolicy.sanitizePeers req.clientLocal := by
    rw [PunchDirective.peers, hre, hlo]
  constructor
  · intro hai e mem
    rw [← hs] at mem
    refine hai.named e ?_
    rw [hpe]
    exact List.mem_append_right _ (List.mem_of_mem_filter mem)
  · intro hv
    have hn : ∀ e ∈ dir.peers, c.Vouches req.clientNonce e := by
      intro e mem
      rw [hpe] at mem
      rcases List.mem_append.mp mem with mem | mem
      · exact c.observedPeers_vouched env.visit req.clientNonce e mem
      · by_cases hd : e.kind = kindSrflx
        · refine hv e ?_
          rw [← hs]
          exact List.mem_filter.mpr ⟨mem, by simp [hd]⟩
        · exact vouches_of_host mem hd
    exact ⟨hn, fun p a ht hr => sprayed_of_named hn p ht hr⟩

/-! ### A client that names a stranger, and one that does not -/

def demoRelay : Bytes := ascii "relay-1"
def demoNonce : Bytes := List.replicate 32 48

def demoEnv : RequestEnv where
  sessionID := some (ascii "session")
  tokenHex _ _ _ _ := ascii "token"
  visit := ⟨id, fun _ => List.Perm.refl _⟩

def demoHub : Coordinator where
  registry := (∅ : KeyedMap Bytes Bool).insert demoRelay true
  reflector := Reflector.record {} 0 (List.replicate 16 0) (ascii "198.51.100.1") ⟨ascii "203.0.113.5", 4433, kindSrflx⟩

def requestWith (clientLocal : List Endpoint) : PunchRequest where
  relayID := demoRelay
  clientNonce := demoNonce
  clientLocal := clientLocal

def directiveWith (clientLocal : List Endpoint) : PunchDirective where
  sessionID := ascii "session"
  relayID := demoRelay
  clientReflexive := [⟨ascii "203.0.113.5", 4433, kindSrflx⟩]
  clientLocal := clientLocal
  clientClass := .unknown
  punchToken := ascii "token"
  reflectorAddrs := []
  ttlMillis := 6000
  quicALPN := alpn
  protoVersion := 1

theorem demoHub_holds {key : Bytes} (hh : demoHub.reflector.Holds key e) :
    e = ⟨ascii "203.0.113.5", 4433, kindSrflx⟩ := by
  have run : demoHub.reflector = [ReflectorEvent.record 0 (List.replicate 16 0) (ascii "198.51.100.1")
      ⟨ascii "203.0.113.5", 4433, kindSrflx⟩].foldl Reflector.apply {} := rfl
  rw [run] at hh
  obtain ⟨now, localIP, mem⟩ := Reflector.recorded_of_holds hh
  rw [List.mem_singleton] at mem
  injection mem

/-- A client that declares `8.8.8.8:53` server-reflexive in its local list makes the relay spray that address. -/
theorem Coordinator.relay_aimed_at_stranger :
    ∃ dir a, demoHub.handleRequest demoEnv (some (requestWith [⟨ascii "8.8.8.8", 53, kindSrflx⟩])) = .ok dir ∧
      a ∈ desktopPolicy.attemptTargets dir.peers ∧ a.ip.isGloballyRoutable = true ∧ ¬ demoHub.Observed demoNonce a := by
  refine ⟨directiveWith [⟨ascii "8.8.8.8", 53, kindSrflx⟩], ⟨⟨v4InV6 ++ [8, 8, 8, 8], rfl⟩, 53⟩, by rfl, by decide,
    by decide, ?_⟩
  rintro ⟨key, e, -, hh, had⟩
  rw [demoHub_holds hh] at had
  exact absurd had (by decide)

theorem Coordinator.aimsAtObserved_iff_demo :
    demoHub.AimsAtObserved demoNonce
      (directiveWith [⟨ascii "192.168.1.2", 4433, kindHost⟩, ⟨ascii "203.0.113.5", 4433, kindSrflx⟩]) := by
  refine (aimsAtObserved_iff demoHub demoEnv
    (requestWith [⟨ascii "192.168.1.2", 4433, kindHost⟩, ⟨ascii "203.0.113.5", 4433, kindSrflx⟩]) _ (by rfl)).mpr ?_
  intro e mem a had _
  have hli : e = ⟨ascii "203.0.113.5", 4433, kindSrflx⟩ := by
    have all : (requestWith [⟨ascii "192.168.1.2", 4433, kindHost⟩,
        ⟨ascii "203.0.113.5", 4433, kindSrflx⟩]).declaredSrflx = [⟨ascii "203.0.113.5", 4433, kindSrflx⟩] := by decide
    rw [all] at mem
    exact List.mem_singleton.mp mem
  subst hli
  exact ⟨List.replicate 16 0, _, by decide, ⟨_, rfl, by decide⟩, had⟩

end OpenRung.Punch
