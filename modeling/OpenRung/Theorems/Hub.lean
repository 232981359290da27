import OpenRung.Lib.Slots
import OpenRung.Lib.Trace
import OpenRung.Tunnel.Hub
import Mathlib.Tactic

/-! Who owns a slot of the hub's registry. Of every session the invariant says under which ids it can stand in the registry
    (`Known`); who is entitled to a slot is decided by the order of first registrations (`Later`). -/

namespace OpenRung.Tunnel

/-! ### The registry -/

section Registry
variable {registry : Registry} {id id' : RelayID} {i j : Nat}

theorem lookup_addTunnel : (addTunnel registry id i).lookup id' = if id' = id then some i else registry.lookup id' := by
  rw [addTunnel, KeyedMap.lookup_insert_eq]

theorem lookup_removeTunnel (ht : (removeTunnel registry id i).lookup id' = some j) :
    registry.lookup id' = some j ∧ ¬(id' = id ∧ j = i) := by
  unfold removeTunnel at ht
  split at ht
  next hmi =>
    by_cases hsa : id' = id
    · subst hsa
      rw [AList.lookup_erase] at ht
      cases ht
    · rw [AList.lookup_erase_ne hsa] at ht
      exact ⟨ht, fun hbo => hsa hbo.1⟩
  next hot =>
    refine ⟨ht, ?_⟩
    rintro ⟨rfl, rfl⟩
    exact hot ht

theorem claimTunnel_cases (registry : Registry) (id : RelayID) (i : Nat) :
    (claimTunnel registry id i = (registry.insert id i, true) ∧ (registry.lookup id = none ∨ registry.lookup id = some i)) ∨
      (claimTunnel registry id i = (registry, false) ∧ ∃ holder, registry.lookup id = some holder ∧ holder ≠ i) := by
  unfold claimTunnel
  split
  next current ht =>
    split
    next hot => exact .inr ⟨rfl, current, ht, hot⟩
    next hmi =>
      obtain rfl := not_not.mp hmi
      exact .inl ⟨rfl, .inr ht⟩
  next hf => exact .inl ⟨rfl, .inl hf⟩

end Registry

/-! ### Sessions and their slots -/

def Session.installed (t : Session) : Prop := t.pc = .running ∨ t.pc = .stopping ∨ t.pc = .removing

def Session.Live (t : Session) : Prop := t.pc = .running ∧ t.closed = false

namespace HubState
variable {s s' : HubState} {i j : Nat} {t t' : Session} {id : RelayID}

def Holds (t : Session) (id : RelayID) : Prop := id = t.relayID ∨ ∃ new, t.beat = .rekeying id new

def Remembers (s : HubState) (i : Nat) (t : Session) : BeatPC → Prop
  | .beating id | .lost id | .claiming id | .rekeying _ id => id = t.relayID
  | .answered id => (i, id) ∈ s.registrations
  | _ => True

structure KnownSession (s : HubState) (i : Nat) (t : Session) : Prop where
  identity : ∀ id key, (i, id) ∈ s.registrations → t.identity = some key → id = .derived key
  before : t.pc = .hello → ∀ id, (i, id) ∉ s.registrations
  once : t.pc = .acking ∨ t.pc = .installing → ∀ id, (i, id) ∈ s.registrations → id = t.relayID
  current : t.pc ≠ .hello → t.pc ≠ .gone → (i, t.relayID) ∈ s.registrations
  remembers : s.Remembers i t t.beat
  started : t.beat ≠ .ended → t.pc = .running ∨ t.pc = .stopping

structure Known (s : HubState) : Prop where
  sessions : ∀ (i : Nat) t, s.sessions[i]? = some t → KnownSession s i t
  there : ∀ i id, (i, id) ∈ s.registrations → i < s.sessions.length
  drawn : ∀ i n, (i, .random n) ∈ s.registrations → n < s.registrations.length
  slots : ∀ id i, s.registry.lookup id = some i →
    ∃ t, s.sessions[i]? = some t ∧ t.installed ∧ Holds t id ∧ (i, id) ∈ s.registrations

inductive Registers (s : HubState) (i : Nat) (t : Session) (s' : HubState) : Prop
  | same (eq : s'.registrations = s.registrations)
  | one (eq : s'.registrations = s.registrations ++ [(i, s.nextID t)])

theorem Registers.subset (hrg : Registers s i t s') {entry : Nat × RelayID} (mem : entry ∈ s.registrations) :
    entry ∈ s'.registrations := by
  cases hrg with
  | same eq => exact eq ▸ mem
  | one eq =>
    rw [eq]
    exact List.mem_append_left _ mem

theorem KnownSession.other {u : Session} (hk : KnownSession s j u) (hrg : Registers s i t s') (ne : j ≠ i) :
    KnownSession s' j u := by
  have hba : ∀ id, (j, id) ∈ s'.registrations → (j, id) ∈ s.registrations := by
    intro id mem
    cases hrg with
    | same eq => exact eq ▸ mem
    | one eq =>
      rw [eq] at mem
      rcases List.mem_append.mp mem with old | new
      · exact old
      · cases List.mem_singleton.mp new
        exact absurd rfl ne
  refine ⟨fun id key mem => hk.identity id key (hba id mem), fun pc id mem => hk.before pc id (hba id mem),
    fun pc id mem => hk.once pc id (hba id mem), fun hst ht => hrg.subset (hk.current hst ht),
    ?_, hk.started⟩
  have hr := hk.remembers
  unfold Remembers at hr ⊢
  split at hr <;> first | exact hr | exact hrg.subset hr

def Takes (s : HubState) (action : Action) (i : Nat) (t : Session) (id : RelayID) : Prop :=
  (action = .install i ∧ t.pc = .installing ∧ id = t.relayID) ∨
    ((∃ answer, action = .beat i answer) ∧ (t.beat = .lost id ∨ t.beat = .claiming id) ∧ s.registry.lookup id = none)

structure Moves (s : HubState) (action : Action) (i : Nat) (t t' : Session) (s' : HubState) : Prop where
  there : s.sessions[i]? = some t
  sessions : s'.sessions = s.sessions.set i t'
  registers : Registers s i t s'
  known : KnownSession s' i t'
  live : t'.Live → t.Live ∨
    (t.pc = .installing ∧ s'.registrations = s.registrations ∧ s'.registry.lookup t.relayID = some i)
  lookup : ∀ id j, s'.registry.lookup id = some j → s.registry.lookup id = some j ∨ (j = i ∧ s.Takes action i t id)
  own : ∀ id, s'.registry.lookup id = some i → t'.installed ∧ Holds t' id ∧ (i, id) ∈ s'.registrations

variable {action : Action}

theorem Known.step_session (hk : Known s) (hm : Moves s action i t t' s') : Known s' := by
  have lt : i < s.sessions.length := (List.getElem?_eq_some_iff.mp hm.there).1
  have hse := hm.sessions
  have hrg := hm.registers
  refine ⟨fun j u ha => ?_, fun j id mem => ?_, fun j n mem => ?_, fun id j ha => ?_⟩
  · rw [hse] at ha
    rcases List.getElem?_set_cases ha with ⟨rfl, rfl⟩ | ⟨ne, hb⟩
    · exact hm.known
    · exact (hk.sessions j u hb).other hrg ne
  · rw [hse, List.length_set]
    cases hrg with
    | same eq => exact hk.there j id (eq ▸ mem)
    | one eq =>
      rw [eq] at mem
      rcases List.mem_append.mp mem with old | new
      · exact hk.there j id old
      · cases List.mem_singleton.mp new
        exact lt
  · cases hrg with
    | same eq =>
      rw [eq] at mem ⊢
      exact hk.drawn j n mem
    | one eq =>
      rw [eq] at mem ⊢
      rw [List.length_append]
      rcases List.mem_append.mp mem with old | new
      · exact Nat.lt_add_right _ (hk.drawn j n old)
      · have same := (Prod.mk.inj (List.mem_singleton.mp new)).2
        unfold nextID at same
        split at same
        · cases same
        · cases same
          exact Nat.lt_add_one _
  · by_cases hmi : j = i
    · subst hmi
      obtain ⟨hi, hho, mem⟩ := hm.own id ha
      exact ⟨t', by rw [hse, List.getElem?_set_self lt], hi, hho, mem⟩
    · rcases hm.lookup id j ha with hb | ⟨same, -⟩
      · obtain ⟨u, at_, hi, hho, mem⟩ := hk.slots id j hb
        exact ⟨u, by rw [hse, List.getElem?_set_ne (Ne.symm hmi)]; exact at_, hi, hho, hrg.subset mem⟩
      · exact absurd same hmi

theorem KnownSession.next (hk : KnownSession s i t) (hre : s'.registrations = s.registrations)
    (hid : t'.identity = t.identity) (hrl : t'.relayID = t.relayID) (hhe : t'.pc ≠ .hello)
    (hon : t'.pc = .acking ∨ t'.pc = .installing → t.pc = .acking ∨ t.pc = .installing)
    (hc : t'.pc ≠ .gone → t.pc ≠ .hello ∧ t.pc ≠ .gone) (hr : s.Remembers i t t'.beat)
    (hst : t'.beat ≠ .ended → t'.pc = .running ∨ t'.pc = .stopping) : KnownSession s' i t' := by
  refine ⟨?_, fun pc => absurd pc hhe, fun pc => ?_, fun _ hg => ?_, ?_, hst⟩
  · rw [hre, hid]
    exact hk.identity
  · rw [hre, hrl]
    exact hk.once (hon pc)
  · rw [hre, hrl]
    exact hk.current (hc hg).1 (hc hg).2
  · unfold Remembers at hr ⊢
    rw [hrl, hre]
    exact hr

theorem KnownSession.congr (hk : KnownSession s i t) (hre : s'.registrations = s.registrations) :
    KnownSession s' i t := by
  refine ⟨hre ▸ hk.identity, hre ▸ hk.before, hre ▸ hk.once,
    hre ▸ hk.current, ?_, hk.started⟩
  have hr := hk.remembers
  unfold Remembers at hr ⊢
  rw [hre]
  exact hr

theorem KnownSession.ended (hk : KnownSession s i t) (hru : t.pc ≠ .running) (hso : t.pc ≠ .stopping) :
    t.beat = .ended := by
  by_contra hmo
  rcases hk.started hmo with pc | pc
  · exact hru pc
  · exact hso pc

theorem Known.own (hk : Known s) (ht : s.sessions[i]? = some t) (hh : s.registry.lookup id = some i) :
    t.installed ∧ Holds t id ∧ (i, id) ∈ s.registrations := by
  obtain ⟨u, at_, hfa⟩ := hk.slots id i hh
  obtain rfl := Option.some.inj (ht.symm.trans at_)
  exact hfa

theorem Known.quiet (hk : Known s) (ht : s.sessions[i]? = some t) (t' : Session)
    (hid : t'.identity = t.identity) (hrl : t'.relayID = t.relayID) (hhe : t'.pc ≠ .hello)
    (hon : t'.pc = .acking ∨ t'.pc = .installing → t.pc = .acking ∨ t.pc = .installing)
    (hc : t'.pc ≠ .gone → t.pc ≠ .hello ∧ t.pc ≠ .gone) (hr : s.Remembers i t t'.beat)
    (hst : t'.beat ≠ .ended → t'.pc = .running ∨ t'.pc = .stopping) (hli : t'.Live → t.Live)
    (own : t.installed → t'.installed ∧ ∀ id, Holds t id → Holds t' id) : Moves s action i t t' (s.setSession i t') := by
  refine ⟨ht, rfl, .same rfl, (hk.sessions i t ht).next rfl hid hrl hhe hon hc hr hst,
    fun now => .inl (hli now), fun id j ha => .inl ha, fun id hh => ?_⟩
  obtain ⟨hi, hho, mem⟩ := hk.own ht hh
  exact ⟨(own hi).1, (own hi).2 id hho, mem⟩

/-! ### The heartbeat loop -/

theorem Known.beats (hk : Known s) (ht : s.sessions[i]? = some t) (hmo : t.beat ≠ .ended)
    (hf : ∀ old new, t.beat ≠ .rekeying old new) {beat : BeatPC} {closed : Bool} (hr : s.Remembers i t beat)
    (hsy : closed = false → t.closed = false) :
    Moves s action i t { t with beat, closed } (s.setSession i { t with beat, closed }) := by
  have hru := (hk.sessions i t ht).started hmo
  refine hk.quiet ht _ rfl rfl ?_ id ?_ hr (fun _ => hru) (fun hli => ⟨hli.1, hsy hli.2⟩) ?_
  · rcases hru with pc | pc <;> simp [pc]
  · rcases hru with pc | pc <;> simp [pc]
  · refine fun hi => ⟨hi, fun id hho => ?_⟩
    rcases hho with hc | ⟨new, hrk⟩
    · exact .inl hc
    · exact absurd hrk (hf id new)

variable {answer : Answer}

theorem Known.claims (hk : Known s) (ht : s.sessions[i]? = some t)
    (beat : t.beat = .lost id ∨ t.beat = .claiming id) {next : BeatPC} (hr : s.Remembers i t next) :
    ∃ t', Moves s (.beat i answer) i t t' (s.claim i t id next) := by
  have hmo : t.beat ≠ .ended := by rcases beat with at_ | at_ <;> simp [at_]
  have hf : ∀ old new, t.beat ≠ .rekeying old new := by rcases beat with at_ | at_ <;> simp [at_]
  have hs := hk.sessions i t ht
  have hru := hs.started hmo
  have hc : id = t.relayID := by
    have hr := hs.remembers
    rcases beat with at_ | at_ <;> rw [at_] at hr <;> exact hr
  have mem : (i, id) ∈ s.registrations := by
    rw [hc]
    refine hs.current ?_ ?_ <;> rcases hru with pc | pc <;> simp [pc]
  unfold claim
  rcases claimTunnel_cases s.registry id i with ⟨eq, hsl⟩ | ⟨eq, -⟩
  · rw [eq]
    have hbs : Moves s (.beat i answer) i t { t with beat := next } (s.setSession i { t with beat := next }) :=
      hk.beats ht hmo hf hr fun ho => ho
    refine ⟨{ t with beat := next }, ht, rfl, .same rfl, hbs.known.congr rfl, .inl, fun id' j ha => ?_,
      fun id' hh => ?_⟩
    · rw [KeyedMap.lookup_insert_eq] at ha
      split at ha
      next hsa =>
        subst hsa
        cases ha
        rcases hsl with hn | hmi
        · exact .inr ⟨rfl, .inr ⟨⟨answer, rfl⟩, beat, hn⟩⟩
        · exact .inl hmi
      next => exact .inl ha
    · rw [KeyedMap.lookup_insert_eq] at hh
      split at hh
      next hsa =>
        subst hsa
        exact ⟨hru.imp_right .inl, .inl hc, mem⟩
      next => exact hbs.own id' hh
  · rw [eq]
    exact ⟨_, hk.beats ht hmo hf trivial nofun⟩

theorem nextID_of_identity {key : String} (hid : t.identity = some key) : s.nextID t = .derived key := by
  rw [nextID, hid]

theorem KnownSession.identity_registered (hs : KnownSession s i t) (id : RelayID) (key : String)
    (mem : (i, id) ∈ s.registrations ++ [(i, s.nextID t)]) (hid : t.identity = some key) : id = .derived key := by
  rcases List.mem_append.mp mem with old | new
  · exact hs.identity id key old hid
  · rw [(Prod.mk.inj (List.mem_singleton.mp new)).2]
    exact nextID_of_identity hid

theorem Known.reregisters (hk : Known s) (ht : s.sessions[i]? = some t) (beat : t.beat = .registering) :
    ∃ t', Moves s (.beat i answer) i t t'
      ((s.registered i (s.nextID t)).setSession i { t with beat := .answered (s.nextID t) }) := by
  have hs := hk.sessions i t ht
  have hru := hs.started (by simp [beat])
  have hrg : Registers s i t ((s.registered i (s.nextID t)).setSession i { t with beat := .answered (s.nextID t) }) :=
    .one rfl
  refine ⟨{ t with beat := .answered (s.nextID t) }, ht, rfl, hrg, ⟨hs.identity_registered, ?_, ?_, ?_, ?_, fun _ => hru⟩,
    .inl, fun id j ha => .inl ha, fun id hh => ?_⟩
  · intro pc
    rcases hru with at_ | at_ <;> rw [at_] at pc <;> cases pc
  · intro pc
    rcases hru with at_ | at_ <;> rw [at_] at pc <;> rcases pc with pc | pc <;> cases pc
  · exact fun hhe hg => hrg.subset (hs.current hhe hg)
  · exact List.mem_append_right _ (List.mem_singleton_self _)
  · obtain ⟨hi, hho, mem⟩ := hk.own ht hh
    refine ⟨hi, ?_, hrg.subset mem⟩
    rcases hho with hc | ⟨new, hrk⟩
    · exact .inl hc
    · rw [beat] at hrk
      cases hrk

theorem Known.rekeys (hk : Known s) (ht : s.sessions[i]? = some t) (beat : t.beat = .answered id) :
    ∃ t', Moves s (.beat i answer) i t t' (s.setSession i { t with beat := .rekeying t.relayID id, relayID := id }) := by
  have hs := hk.sessions i t ht
  have hru := hs.started (by simp [beat])
  have mem : (i, id) ∈ s.registrations := by
    have hr := hs.remembers
    rw [beat] at hr
    exact hr
  refine ⟨{ t with beat := .rekeying t.relayID id, relayID := id }, ht, rfl, .same rfl,
    ⟨hs.identity, hs.before, ?_, fun _ _ => mem, rfl, fun _ => hru⟩, .inl, fun id j ha => .inl ha,
    fun id' hh => ?_⟩
  · intro pc
    rcases hru with at_ | at_ <;> rw [at_] at pc <;> rcases pc with pc | pc <;> cases pc
  · obtain ⟨hi, hho, mem⟩ := hk.own ht hh
    refine ⟨hi, ?_, mem⟩
    rcases hho with hc | ⟨new, hrk⟩
    · exact .inr ⟨id, by rw [hc]⟩
    · rw [beat] at hrk
      cases hrk

theorem Known.releases {old : RelayID} (hk : Known s) (ht : s.sessions[i]? = some t)
    (beat : t.beat = .rekeying old id) : ∃ t', Moves s (.beat i answer) i t t'
      { s.setSession i { t with beat := .claiming id } with
        registry := if old ≠ id then removeTunnel s.registry old i else s.registry } := by
  have hs := hk.sessions i t ht
  have hru := hs.started (by simp [beat])
  have hc : id = t.relayID := by
    have hr := hs.remembers
    rw [beat] at hr
    exact hr
  -- whatever the session still holds was there before, and is not the key it releases
  have hke : ∀ id' j, (if old ≠ id then removeTunnel s.registry old i else s.registry).lookup id' = some j →
      s.registry.lookup id' = some j ∧ (j = i → id' = old → old = id) := by
    intro id' j ha
    split at ha
    next ne =>
      obtain ⟨hb, hot⟩ := lookup_removeTunnel ha
      exact ⟨hb, fun hmi key => absurd ⟨key, hmi⟩ hot⟩
    next hsa => exact ⟨ha, fun _ _ => not_not.mp hsa⟩
  refine ⟨{ t with beat := .claiming id }, ht, rfl, .same rfl,
    ⟨hs.identity, hs.before, hs.once, hs.current, hc, fun _ => hru⟩, .inl,
    fun id' j ha => .inl (hke id' j ha).1, fun id' hh => ?_⟩
  obtain ⟨hb, hra⟩ := hke id' i hh
  obtain ⟨hi, hho, mem⟩ := hk.own ht hb
  refine ⟨hi, .inl ?_, mem⟩
  rcases hho with hhr | ⟨new, hrk⟩
  · exact hhr
  · obtain ⟨rfl, rfl⟩ := BeatPC.rekeying.inj (beat.symm.trans hrk)
    exact (hra rfl rfl).trans hc

theorem stepBeat_moves (hk : Known s) (ht : s.sessions[i]? = some t)
    (eq : s.stepBeat i t answer = some s') : ∃ t', Moves s (.beat i answer) i t t' s' := by
  have hr := (hk.sessions i t ht).remembers
  unfold stepBeat at eq
  split at eq
  next hbe =>
    split at eq
    next hcl =>
      cases eq
      exact ⟨_, hk.beats ht (by simp [hbe]) (by simp [hbe]) trivial fun ho => ho⟩
    next => cases eq
  next hbe _ =>
    cases eq
    exact ⟨_, hk.beats ht (by simp [hbe]) (by simp [hbe]) rfl fun ho => ho⟩
  next id hbe =>
    cases eq
    rw [hbe] at hr
    exact ⟨_, hk.beats ht (by simp [hbe]) (by simp [hbe]) hr fun ho => ho⟩
  next id hbe _ =>
    cases eq
    exact ⟨_, hk.beats ht (by simp [hbe]) (by simp [hbe]) trivial fun ho => ho⟩
  next id hbe =>
    cases eq
    exact hk.claims ht (.inl hbe) trivial
  next hbe =>
    cases eq
    exact hk.reregisters ht hbe
  next hbe =>
    cases eq
    exact ⟨_, hk.beats ht (by simp [hbe]) (by simp [hbe]) trivial nofun⟩
  next hbe _ _ =>
    cases eq
    exact ⟨_, hk.beats ht (by simp [hbe]) (by simp [hbe]) trivial fun ho => ho⟩
  next id hbe =>
    cases eq
    exact hk.rekeys ht hbe
  next old id hbe =>
    cases eq
    exact hk.releases ht hbe
  next id hbe =>
    cases eq
    exact hk.claims ht (.inr hbe) trivial
  next => cases eq

/-! ### The other steps of a session -/

theorem Known.early (hk : Known s) (ht : s.sessions[i]? = some t)
    (pc : t.pc = .hello ∨ t.pc = .acking) {next : SessionPC} (hta : next = .gone ∨ (t.pc = .acking ∧ next = .installing)) :
    Moves s action i t { t with pc := next } (s.setSession i { t with pc := next }) := by
  have hen : t.beat = .ended := by
    refine (hk.sessions i t ht).ended ?_ ?_ <;> rcases pc with pc | pc <;> simp [pc]
  have hou : ¬t.installed := by
    rcases pc with pc | pc <;> simp [Session.installed, pc]
  refine hk.quiet ht _ rfl rfl ?_ ?_ ?_ ?_ (fun hmo => absurd hen hmo) ?_ (fun hi => absurd hi hou)
  · rcases hta with rfl | ⟨-, rfl⟩ <;> simp
  · rcases hta with rfl | ⟨hak, rfl⟩ <;> simp_all
  · rcases hta with rfl | ⟨hak, rfl⟩ <;> simp_all
  · show s.Remembers i t t.beat
    rw [hen]
    trivial
  · rintro ⟨hru, -⟩
    rcases hta with rfl | ⟨-, rfl⟩ <;> cases hru

theorem Known.later (hk : Known s) (ht : s.sessions[i]? = some t) (hi : t.installed)
    {next : SessionPC} {closed : Bool} (hsy : closed = false → next = .running → t.Live)
    (hta : (next = .running ∨ next = .stopping) ∨ (next = .removing ∧ t.beat = .ended)) :
    Moves s action i t { t with pc := next, closed } (s.setSession i { t with pc := next, closed }) := by
  refine hk.quiet ht _ rfl rfl ?_ ?_ ?_ (hk.sessions i t ht).remembers ?_ (fun hli => hsy hli.2 hli.1)
    fun _ => ⟨?_, fun id hho => hho⟩
  · rcases hta with (rfl | rfl) | ⟨rfl, -⟩ <;> simp
  · rcases hta with (rfl | rfl) | ⟨rfl, -⟩ <;> simp
  · rcases hi with pc | pc | pc <;> simp [pc]
  · intro hmo
    rcases hta with hru | ⟨-, hen⟩
    · exact hru
    · exact absurd hen hmo
  · rcases hta with (rfl | rfl) | ⟨rfl, -⟩ <;> simp [Session.installed]

theorem Known.first_registers {ok : Bool} (hk : Known s) (ht : s.sessions[i]? = some t) (pc : t.pc = .hello) :
    ∃ t', Moves s (.register i ok) i t t'
      ((s.registered i (s.nextID t)).setSession i { t with pc := .acking, relayID := s.nextID t }) := by
  have hs := hk.sessions i t ht
  have hen : t.beat = .ended := hs.ended (by simp [pc]) (by simp [pc])
  refine ⟨{ t with pc := .acking, relayID := s.nextID t }, ht, rfl, .one rfl, ⟨hs.identity_registered, nofun,
    fun _ id mem => ?_, fun _ _ => ?_, ?_, fun hmo => absurd hen hmo⟩, fun hli => absurd hli.1 nofun,
    fun id j ha => .inl ha, fun id hh => ?_⟩
  · rcases List.mem_append.mp mem with old | new
    · exact absurd old (hs.before pc id)
    · exact (Prod.mk.inj (List.mem_singleton.mp new)).2
  · exact List.mem_append_right _ (List.mem_singleton_self _)
  · show Remembers _ i _ t.beat
    rw [hen]
    trivial
  · obtain ⟨hi, -⟩ := hk.own ht hh
    rw [Session.installed, pc] at hi
    simp at hi

theorem Known.installs (hk : Known s) (ht : s.sessions[i]? = some t) (pc : t.pc = .installing) :
    ∃ t', Moves s (.install i) i t t'
      { s.setSession i { t with pc := .running, beat := .idle } with registry := addTunnel s.registry t.relayID i } := by
  have hs := hk.sessions i t ht
  have mem : (i, t.relayID) ∈ s.registrations := hs.current (by simp [pc]) (by simp [pc])
  refine ⟨{ t with pc := .running, beat := .idle }, ht, rfl, .same rfl,
    ⟨hs.identity, nofun, by simp, fun _ _ => mem, trivial, fun _ => .inl rfl⟩,
    fun _ => .inr ⟨pc, rfl, by rw [lookup_addTunnel, if_pos rfl]⟩,
    fun id j ha => ?_, fun id hh => ?_⟩
  · rw [lookup_addTunnel] at ha
    split at ha
    next hsa =>
      cases ha
      exact .inr ⟨rfl, .inl ⟨rfl, pc, hsa⟩⟩
    next => exact .inl ha
  · rw [lookup_addTunnel] at hh
    split at hh
    next hsa =>
      subst hsa
      exact ⟨.inl rfl, .inl rfl, mem⟩
    next =>
      obtain ⟨hi, -⟩ := hk.own ht hh
      rw [Session.installed, pc] at hi
      simp at hi

theorem Known.removes (hk : Known s) (ht : s.sessions[i]? = some t) (pc : t.pc = .removing) :
    ∃ t', Moves s (.remove i) i t t'
      { s.setSession i { t with pc := .gone } with registry := removeTunnel s.registry t.relayID i } := by
  have hs := hk.sessions i t ht
  have hen : t.beat = .ended := hs.ended (by simp [pc]) (by simp [pc])
  refine ⟨{ t with pc := .gone }, ht, rfl, .same rfl,
    ⟨hs.identity, nofun, by simp, fun _ hg => absurd rfl hg, hs.remembers, fun hmo => absurd hen hmo⟩,
    fun hli => absurd hli.1 nofun, fun id j ha => .inl (lookup_removeTunnel ha).1, fun id hh => ?_⟩
  obtain ⟨hb, hot⟩ := lookup_removeTunnel hh
  obtain ⟨-, hc | ⟨new, hrk⟩, -⟩ := hk.own ht hb
  · exact absurd ⟨hc, rfl⟩ hot
  · rw [hen] at hrk
    cases hrk

theorem step_moves (hk : Known s) (eq : s.step action = some s') :
    (∃ identity, s' = { s with sessions := s.sessions ++ [{ identity }] }) ∨ ∃ i t t', Moves s action i t t' s' := by
  cases action with
  | connect identity =>
    cases eq
    exact .inl ⟨identity, rfl⟩
  | register i ok =>
    obtain ⟨t, ht, eq⟩ := Option.bind_eq_some_iff.mp eq
    split at eq
    next pc =>
      split at eq
      next =>
        cases eq
        exact .inr ⟨i, t, hk.first_registers ht pc⟩
      next =>
        cases eq
        exact .inr ⟨i, t, _, hk.early ht (.inl pc) (.inl rfl)⟩
    next => cases eq
  | ack i ok =>
    obtain ⟨t, ht, eq⟩ := Option.bind_eq_some_iff.mp eq
    split at eq
    next pc =>
      cases eq
      refine .inr ⟨i, t, _, hk.early ht (.inr pc) ?_⟩
      cases ok
      · exact .inl rfl
      · exact .inr ⟨pc, rfl⟩
    next => cases eq
  | install i =>
    obtain ⟨t, ht, eq⟩ := Option.bind_eq_some_iff.mp eq
    split at eq
    next pc =>
      cases eq
      exact .inr ⟨i, t, hk.installs ht pc⟩
    next => cases eq
  | beat i answer =>
    obtain ⟨t, ht, eq⟩ := Option.bind_eq_some_iff.mp eq
    exact .inr ⟨i, t, stepBeat_moves hk ht eq⟩
  | hangup i =>
    obtain ⟨t, ht, eq⟩ := Option.bind_eq_some_iff.mp eq
    split at eq
    next pc =>
      cases eq
      exact .inr ⟨i, t, _, hk.later ht (.inl pc) nofun (.inl (.inl pc))⟩
    next => cases eq
  | stop i =>
    obtain ⟨t, ht, eq⟩ := Option.bind_eq_some_iff.mp eq
    split at eq
    next pc =>
      cases eq
      exact .inr ⟨i, t, _, hk.later ht (.inl pc) nofun (.inl (.inr rfl))⟩
    next => cases eq
  | join i =>
    obtain ⟨t, ht, eq⟩ := Option.bind_eq_some_iff.mp eq
    split at eq
    next pc =>
      cases eq
      exact .inr ⟨i, t, _, hk.later ht (.inr (.inl pc.1)) nofun (.inr ⟨rfl, pc.2⟩)⟩
    next => cases eq
  | remove i =>
    obtain ⟨t, ht, eq⟩ := Option.bind_eq_some_iff.mp eq
    split at eq
    next pc =>
      cases eq
      exact .inr ⟨i, t, hk.removes ht pc⟩
    next => cases eq

theorem Known.connect (hk : Known s) (identity : Option String) :
    Known { s with sessions := s.sessions ++ [{ identity }] } := by
  refine ⟨fun i t ha => ?_, fun i id mem => ?_, hk.drawn, fun id i hh => ?_⟩
  · rcases List.getElem?_concat_cases ha with hb | ⟨rfl, rfl⟩
    · exact (hk.sessions i t hb).congr rfl
    · -- nothing was registered for a session that was not there
      have hn : ∀ id, (s.sessions.length, id) ∉ s.registrations := fun id mem =>
        absurd (hk.there _ id mem) (lt_irrefl _)
      exact ⟨fun id key mem => absurd mem (hn id), fun _ => hn, fun _ id mem => absurd mem (hn id),
        fun hhe => absurd rfl hhe, trivial, fun hmo => absurd rfl hmo⟩
  · have lt := hk.there i id mem
    simp only [List.length_append]
    omega
  · obtain ⟨t, at_, hfa⟩ := hk.slots id i hh
    exact ⟨t, by rw [List.getElem?_append_left (List.getElem?_eq_some_iff.mp at_).1]; exact at_, hfa⟩

theorem Known.start : Known {} := by
  refine ⟨?_, ?_, ?_, ?_⟩
  · intro i t ht
    cases ht
  · intro i id mem
    cases mem
  · intro i n mem
    cases mem
  · intro id i hh
    cases hh

theorem Known.step (hk : Known s) (eq : s.step action = some s') : Known s' := by
  rcases step_moves hk eq with ⟨identity, rfl⟩ | ⟨i, t, t', hm⟩
  · exact hk.connect identity
  · exact hk.step_session hm

/-! ### Who is entitled to a slot -/

/-- The first registration of `j` for the id completed later than that of `i`. -/
def Later (s : HubState) (j i : Nat) (id : RelayID) : Prop :=
  (j, id) ∈ s.registrations ∧ s.registrations.idxOf (i, id) < s.registrations.idxOf (j, id)

/-- A session takes a slot only when no live session has a later first registration for the id. -/
def Timely (s : HubState) (action : Action) : Prop :=
  ∀ (i : Nat) t id, s.sessions[i]? = some t → s.Takes action i t id →
    ∀ (j : Nat) u, s.sessions[j]? = some u → u.Live → ¬s.Later j i id

/-- No live session has a later first registration than the one in the slot. -/
def Entitled (s : HubState) : Prop :=
  ∀ id (holder j : Nat) u, s.registry.lookup id = some holder → s.sessions[j]? = some u → u.Live → ¬s.Later j holder id

theorem Later.of_same (hl : s'.Later j i id) (hre : s'.registrations = s.registrations) : s.Later j i id := by
  rw [Later, hre] at hl
  exact hl

theorem Later.of_append {entry : Nat × RelayID} (hl : s'.Later j i id)
    (hre : s'.registrations = s.registrations ++ [entry]) (hmi : (i, id) ∈ s.registrations)
    (hri : (j, id) ∈ s.registrations) : s.Later j i id := by
  refine ⟨hri, ?_⟩
  have lt := hl.2
  rw [hre, List.idxOf_append_of_mem hmi, List.idxOf_append_of_mem hri] at lt
  exact lt

theorem Known.registered_of_held (hk : Known s) (ht : s.sessions[i]? = some t) (hli : t.Live)
    (hh : s.registry.lookup (s.nextID t) = some j) : (i, s.nextID t) ∈ s.registrations := by
  have hs := hk.sessions i t ht
  have mem := hs.current (by simp [hli.1]) (by simp [hli.1])
  cases hid : t.identity with
  | some key =>
    have hsa := hs.identity _ key mem hid
    rw [nextID_of_identity hid, ← hsa]
    exact mem
  | none =>
    have hrn : s.nextID t = .random s.registrations.length := by rw [nextID, hid]
    obtain ⟨-, -, -, -, mem⟩ := hk.slots _ j hh
    rw [hrn] at mem
    exact absurd (hk.drawn j _ mem) (lt_irrefl _)

theorem Known.takes_registered (hk : Known s) (ht : s.sessions[i]? = some t)
    (htk : s.Takes action i t id) : (i, id) ∈ s.registrations := by
  have hs := hk.sessions i t ht
  rcases htk with ⟨-, pc, rfl⟩ | ⟨-, hbe, -⟩
  · exact hs.current (by simp [pc]) (by simp [pc])
  · have hru := hs.started (by rcases hbe with at_ | at_ <;> simp [at_])
    have hc : id = t.relayID := by
      have hr := hs.remembers
      rcases hbe with at_ | at_ <;> rw [at_] at hr <;> exact hr
    rw [hc]
    refine hs.current ?_ ?_ <;> rcases hru with pc | pc <;> simp [pc]

theorem not_later_self (s : HubState) (i : Nat) (id : RelayID) : ¬s.Later i i id := fun hl => lt_irrefl _ hl.2

theorem Entitled.step_session (he : Entitled s) (hk : Known s) (hti : s.Timely action)
    (hm : Moves s action i t t' s') : Entitled s' := by
  intro id holder j u hh ht hli hl
  -- a session that was live before
  have old : ∀ w, s.sessions[j]? = some w → w.Live → False := by
    intro w at_ hal
    rcases hm.lookup id holder hh with hb | ⟨rfl, htk⟩
    · have hmi : (holder, id) ∈ s.registrations := by
        obtain ⟨-, -, -, -, mem⟩ := hk.slots id holder hb
        exact mem
      cases hm.registers with
      | same eq => exact he id holder j w hb at_ hal (hl.of_same eq)
      | one eq =>
        have hri : (j, id) ∈ s.registrations := by
          have mem := hl.1
          rw [eq] at mem
          rcases List.mem_append.mp mem with hea | new
          · exact hea
          · obtain ⟨rfl, rfl⟩ := Prod.mk.inj (List.mem_singleton.mp new)
            obtain rfl := Option.some.inj (at_.symm.trans hm.there)
            exact hk.registered_of_held at_ hal hb
        exact he id holder j w hb at_ hal (hl.of_append eq hmi hri)
    · have hmi := hk.takes_registered hm.there htk
      cases hm.registers with
      | same eq => exact hti holder t id hm.there htk j w at_ hal (hl.of_same eq)
      | one eq =>
        have mem := hl.1
        rw [eq] at mem
        rcases List.mem_append.mp mem with hea | new
        · exact hti holder t id hm.there htk j w at_ hal (hl.of_append eq hmi hea)
        · obtain ⟨rfl, -⟩ := Prod.mk.inj (List.mem_singleton.mp new)
          exact not_later_self s' j id hl
  rw [hm.sessions] at ht
  rcases List.getElem?_set_cases ht with ⟨rfl, rfl⟩ | ⟨-, hb⟩
  · rcases hm.live hli with hal | hal
    · exact old t hm.there hal
    · obtain ⟨pc, hre, hte⟩ := hal
      have mem := hl.1
      rw [hre] at mem
      -- its only id is the one whose slot it has just taken
      obtain rfl := (hk.sessions j t hm.there).once (.inr pc) id mem
      obtain rfl := Option.some.inj (hh.symm.trans hte)
      exact not_later_self s' holder _ hl
  · exact old u hb hli

theorem Entitled.step (he : Entitled s) (hk : Known s) (hti : s.Timely action)
    (eq : s.step action = some s') : Entitled s' := by
  rcases step_moves hk eq with ⟨identity, rfl⟩ | ⟨i, t, t', hm⟩
  · intro id holder j u hh ht hli hl
    rcases List.getElem?_concat_cases ht with hb | ⟨-, rfl⟩
    · exact he id holder j u hh hb hli (hl.of_same rfl)
    · cases hli.1
  · exact he.step_session hk hti hm

def NoneLeft (s : HubState) : Prop :=
  ∀ id i, s.registry.lookup id = some i → ∃ t, s.sessions[i]? = some t ∧ t.pc ≠ .gone

theorem Known.none_left (hk : Known s) : NoneLeft s := by
  intro id i hh
  obtain ⟨t, ht, hi, -⟩ := hk.slots id i hh
  refine ⟨t, ht, ?_⟩
  rcases hi with pc | pc | pc <;> simp [pc]

def Refused (s : HubState) (action : Action) (j : Nat) (u : Session) (id : RelayID) (holder : Nat) : Prop :=
  (∃ answer, action = .beat j answer) ∧ (u.beat = .lost id ∨ u.beat = .claiming id) ∧
    s.registry.lookup id = some holder ∧ holder ≠ j

structure Fair (s : HubState) (action : Action) (s' : HubState) : Prop where
  displaced : ∀ id (i j : Nat) u, s.registry.lookup id = some j → s'.registry.lookup id = some i → i ≠ j →
    s.sessions[j]? = some u → u.Live → ¬s.Later j i id
  refused : ∀ id (i j : Nat) u, s.sessions[j]? = some u → s.Refused action j u id i → u.Live → ¬s.Later j i id

theorem Entitled.fair (he : Entitled s) (hk : Known s) (hti : s.Timely action)
    (eq : s.step action = some s') : Fair s action s' := by
  refine ⟨fun id i j u hh hte ne ht hli => ?_, fun id i j u ht hrf hli => ?_⟩
  · rcases step_moves hk eq with ⟨identity, rfl⟩ | ⟨k, t, t', hm⟩
    · exact absurd (Option.some.inj (hte.symm.trans hh)) ne
    · rcases hm.lookup id i hte with hb | ⟨rfl, htk⟩
      · exact absurd (Option.some.inj (hb.symm.trans hh)) ne
      · exact hti i t id hm.there htk j u ht hli
  · exact he id i j u hrf.2.2.1 ht hli

theorem entitled_start : Entitled {} := by
  intro id holder j u hh
  cases hh

/-- A torn-down tunnel is not in the registry; and if sessions take slots only while no live session has a later first
    registration for the id, no step displaces or refuses one for the sake of an earlier one. -/
theorem hub_registry (actions : List Action) (s : HubState) :
    (Trace (fun s action s' => s.step action = some s') {} actions s → NoneLeft s) ∧
      (Trace (fun s action s' => s.step action = some s' ∧ s.Timely action) {} actions s →
        ∀ (action : Action) (s' : HubState), s.step action = some s' → s.Timely action → Fair s action s') := by
  refine ⟨fun run => ?_, fun run action s' eq hti => ?_⟩
  · have hk := run.invariant (P := Known) (fun _ _ _ hk hsp => hk.step hsp) Known.start
    exact hk.none_left
  · obtain ⟨hk, he⟩ := run.invariant (P := fun s => Known s ∧ Entitled s)
      (fun _ _ _ inv hsp => ⟨inv.1.step hsp.1, inv.2.step inv.1 hsp.2 hsp.1⟩) ⟨Known.start, entitled_start⟩
    exact he.fair hk hti eq

theorem timely_of_other (hin : ∀ i, action ≠ .install i) (hbe : ∀ i answer, action ≠ .beat i answer) :
    s.Timely action := by
  rintro i t id - (⟨eq, -⟩ | ⟨⟨answer, eq⟩, -⟩)
  · exact absurd eq (hin i)
  · exact absurd eq (hbe i answer)

theorem timely_snoc {start : HubState} (action : Action)
    (run : ∃ actions, Trace (fun s action s' => s.step action = some s' ∧ s.Timely action) start actions s)
    (eq : s.step action = some s') (hti : s.Timely action) :
    ∃ actions, Trace (fun s action s' => s.step action = some s' ∧ s.Timely action) start actions s' := by
  obtain ⟨actions, htr⟩ := run
  exact ⟨actions ++ [action], htr.snoc ⟨eq, hti⟩⟩

theorem hub_registry_reconnect : ∃ s s' : HubState, s.step (.install 1) = some s' ∧
    s.registry.lookup (.derived "k") = some 0 ∧ s'.registry.lookup (.derived "k") = some 1 ∧ Fair s (.install 1) s' := by
  have hsr : ∃ actions, Trace (fun (s : HubState) action s' => s.step action = some s' ∧ s.Timely action) {} actions {} :=
    ⟨[], .refl⟩
  have hco := timely_snoc (.connect (some "k")) hsr rfl (timely_of_other nofun nofun)
  have hri := timely_snoc (.register 0 true) hco rfl (timely_of_other nofun nofun)
  have hac := timely_snoc (.ack 0 true) hri rfl (timely_of_other nofun nofun)
  have hi := timely_snoc (.install 0) hac rfl <| by
    -- no session is live yet
    rintro i t id - - (_ | j) u at_ hli
    · cases at_
      cases hli.1
    · cases at_
  have hco := timely_snoc (.connect (some "k")) hi rfl (timely_of_other nofun nofun)
  have hri := timely_snoc (.register 1 true) hco rfl (timely_of_other nofun nofun)
  have hac := timely_snoc (.ack 1 true) hri rfl (timely_of_other nofun nofun)
  obtain ⟨actions, run⟩ := hac
  refine ⟨_, _, rfl, rfl, rfl, (hub_registry actions _).2 run (.install 1) _ rfl ?_⟩
  rintro i t id ht (⟨eq, -, rfl⟩ | ⟨⟨answer, eq⟩, -⟩) j u at_ hli hl
  · cases eq
    cases ht
    rcases j with _ | _ | j
    · exact absurd hl.2 (by decide)
    · cases at_
      cases hli.1
    · cases at_
  · cases eq

def delayedInstall : List Action :=
  [.connect (some "k"), .connect (some "k"), .register 0 true, .register 1 true, .ack 1 true, .install 1, .ack 0 true]

theorem delayed_install_displaces : ∃ s s', delayedInstall.foldlM step {} = some s ∧ s.step (.install 0) = some s' ∧
    ¬Fair s (.install 0) s' := by
  refine ⟨_, _, rfl, rfl, fun hfi => ?_⟩
  exact hfi.displaced (.derived "k") 0 1 _ rfl rfl (by decide) rfl ⟨rfl, rfl⟩ ⟨by decide, by decide⟩

end HubState

end OpenRung.Tunnel
