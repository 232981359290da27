import OpenRung.Engine.StatusMachine
import OpenRung.Lib.Slots
import OpenRung.Lib.Trace
import Mathlib.Tactic

/-! What the host of the engine sees of each connection. Every section under `mu` touches one connection (`Touch`), and
    what was seen of it so far is told by its flags and by where its flow is (`Follows`). Which connection is live is
    settled by `connectMu` (`Owned`). -/

namespace OpenRung.StatusMachine

/-! ### Where a flow is -/

namespace FlowPC

def landed : FlowPC → Bool
  | .clearing | .cancelling | .closing | .closed => true
  | _ => false

def owning : FlowPC → Bool
  | .cleaning _ | .sampling _ | .landing _ _ => true
  | pc => pc.landed

def live : FlowPC → Bool
  | .cancelling | .closing | .closed => false
  | _ => true

def early : FlowPC → Bool
  | .installed => false
  | pc => !pc.owning

def left : FlowPC → Nat
  | .returned _ => 8
  | .claiming _ => 7
  | .cleaning _ => 6
  | .sampling _ => 5
  | .landing _ _ => 4
  | .clearing => 3
  | .cancelling => 2
  | .closing => 1
  | _ => 0

theorem started_of_early {pc : FlowPC} (hea : pc.early = true) : pc ≠ .installed := by
  rintro rfl
  cases hea

theorem not_owning_of_early {pc : FlowPC} (hea : pc.early = true) : pc.owning = false := by
  cases pc <;> first | rfl | cases hea

theorem live_of_early {pc : FlowPC} (hea : pc.early = true) : pc.live = true := by
  cases pc <;> first | rfl | cases hea

theorem owning_of_landed {pc : FlowPC} (hl : pc.landed = true) : pc.owning = true := by
  cases pc <;> first | rfl | cases hl

theorem not_landed {pc : FlowPC} (hfr : pc.owning = false) : pc.landed = false :=
  Bool.eq_false_of_not_eq_true fun hl => by
    rw [owning_of_landed hl] at hfr
    cases hfr

end FlowPC

/-! ### Touching a connection -/

inductive Touch (f : Flow) : List Signal → Flow → Prop
  | quiet (f' : Flow) (disconnecting : f'.disconnecting = f.disconnecting) (finalized : f'.finalized = f.finalized)
      (landed : f'.pc.landed = f.pc.landed) (owning : f'.pc.owning = f.pc.owning)
      (sampled : ∀ r d, f'.pc = .landing r d → f.pc = .landing r d ∨ d = f.disconnecting) : Touch f [] f'
  | publishes (e : Emission) (f' : Flow) (opens : e.status.terminal = false) (unmarked : e.status ≠ .disconnecting)
      (connected : e.status = .connected → f.disconnecting = false) (disconnecting : f'.disconnecting = f.disconnecting)
      (finalized : f'.finalized = f.finalized) (free : f.pc.owning = false) (still : f'.pc.owning = false) :
      Touch f [.published e] f'
  | marks : Touch f [.marked] { f with disconnecting := true }
  | disconnects (e : Emission) (status : e.status = .disconnecting) (free : f.finalized = false) :
      Touch f [.marked, .published e] { f with disconnecting := true }
  | claims (r : FlowEnd) (pc : f.pc = .claiming r) : Touch f [.claimed] { f with pc := .cleaning r, finalized := true }
  | lands (r : FlowEnd) (d : Bool) (pc : f.pc = .landing r d) :
      Touch f [.published (terminalEmission r d)] { f with pc := .clearing }

structure Leads (f : Flow) (signals : List Signal) (f' : Flow) : Prop where
  touch : Touch f signals f'
  started : f.pc ≠ .installed
  stays : f'.pc ≠ .installed
  live : f'.pc.live = (f.pc.live && !decide (f.pc = .clearing))

namespace Flow
variable {host : Host} {f f' : Flow} {signals : List Signal} {outcome : Outcome}

theorem goto_early {pc : FlowPC} (eq : f.goto pc = some (f', signals)) (hs : f.pc.early = true)
    (hta : pc.early = true) : Leads f signals f' := by
  cases eq
  have hla : ∀ r d, pc ≠ .landing r d := by
    rintro r d rfl
    cases hta
  have hc : f.pc ≠ .clearing := fun at_ => by
    rw [at_] at hs
    cases hs
  refine ⟨.quiet _ rfl rfl ?_ ?_ fun r d at_ => absurd at_ (hla r d), FlowPC.started_of_early hs, FlowPC.started_of_early hta, ?_⟩
  · exact (FlowPC.not_landed (FlowPC.not_owning_of_early hta)).trans (FlowPC.not_landed (FlowPC.not_owning_of_early hs)).symm
  · exact (FlowPC.not_owning_of_early hta).trans (FlowPC.not_owning_of_early hs).symm
  · simp [FlowPC.live_of_early hta, FlowPC.live_of_early hs, hc]

theorem publish_early {e : Emission} {pc : FlowPC} (hs : f.pc.early = true) (hta : pc.early = true)
    (hop : e.status.terminal = false) (hu : e.status ≠ .disconnecting)
    (hcn : e.status = .connected → f.disconnecting = false) : Leads f [.published e] { f with pc } := by
  have hc : f.pc ≠ .clearing := fun at_ => by
    rw [at_] at hs
    cases hs
  refine ⟨.publishes e _ hop hu hcn rfl rfl (FlowPC.not_owning_of_early hs) (FlowPC.not_owning_of_early hta),
    FlowPC.started_of_early hs,
    FlowPC.started_of_early hta, ?_⟩
  simp [FlowPC.live_of_early hta, FlowPC.live_of_early hs, hc]

theorem quiet_leads {pc : FlowPC} {cancelled : Bool} (hl : pc.landed = f.pc.landed) (how : pc.owning = f.pc.owning)
    (hsr : f.pc ≠ .installed) (hsy : pc ≠ .installed)
    (hsa : ∀ r d, pc = .landing r d → d = f.disconnecting) (hli : pc.live = (f.pc.live && !decide (f.pc = .clearing))) :
    Leads f [] { f with pc, cancelled } :=
  ⟨.quiet _ rfl rfl hl how fun r d at_ => .inr (hsa r d at_), hsr, hsy, hli⟩

theorem step_leads (eq : f.step host outcome = some (f', signals)) : Leads f signals f' := by
  unfold step at eq
  split at eq
  -- most phases of `connectFlow` only move on or end it, some of them under a condition
  all_goals try first
    | (cases eq; done)
    | exact goto_early eq (by simp only [*]; rfl) (by first | rfl | (split <;> rfl))
    | (split at eq <;> first | (cases eq; done) | exact goto_early eq (by simp only [*]; rfl) rfl)
  next pc =>
    cases eq
    exact publish_early (by rw [pc]; rfl) rfl rfl nofun nofun
  next label pc =>
    split at eq
    next => exact goto_early eq (by rw [pc]; rfl) rfl
    next hfr =>
      cases eq
      have hu : f.disconnecting = false := by simp_all
      exact publish_early (by rw [pc]; rfl) rfl rfl nofun fun _ => hu
  next fatal pc =>
    have hea : f.pc.early = true := by rw [pc]; rfl
    split at eq
    · exact goto_early eq hea rfl
    · split at eq <;> exact goto_early eq hea rfl
  next pc =>
    cases eq
    exact publish_early (by rw [pc]; rfl) rfl rfl nofun nofun
  next r pc =>
    cases eq
    exact quiet_leads (by rw [pc]; rfl) (by rw [pc]; rfl) (by simp [pc]) nofun nofun (by rw [pc]; rfl)
  next r pc =>
    cases eq
    exact ⟨.claims r pc, by simp [pc], nofun, by rw [pc]; rfl⟩
  next r pc =>
    cases eq
    exact quiet_leads (by rw [pc]; rfl) (by rw [pc]; rfl) (by simp [pc]) nofun nofun (by rw [pc]; rfl)
  next r pc =>
    cases eq
    refine quiet_leads (by rw [pc]; rfl) (by rw [pc]; rfl) (by simp [pc]) nofun (fun r d at_ => ?_) (by rw [pc]; rfl)
    exact (FlowPC.landing.inj at_).2.symm
  next r d pc =>
    cases eq
    exact ⟨.lands r d pc, by simp [pc], nofun, by rw [pc]; rfl⟩
  next pc =>
    cases eq
    exact quiet_leads (by rw [pc]; rfl) (by rw [pc]; rfl) (by simp [pc]) nofun nofun (by rw [pc]; rfl)
  next pc =>
    cases eq
    exact quiet_leads (by rw [pc]; rfl) (by rw [pc]; rfl) (by simp [pc]) nofun nofun (by rw [pc]; rfl)
  next pc =>
    cases eq
    exact quiet_leads (by rw [pc]; rfl) (by rw [pc]; rfl) (by simp [pc]) nofun nofun (by rw [pc]; rfl)

end Flow

/-! ### What was seen of a connection -/

def MarkedFirst (seen : List Signal) : Prop :=
  ∃ before after : List Signal, seen = before ++ .claimed :: after ∧ .marked ∈ before

/-- Nothing is published after a terminal status, and `Connected` not after `Disconnecting`. -/
def Allowed (before : List Signal) : Signal → Prop
  | .published e => (∀ signal ∈ before, signal.terminal = false) ∧
      (e.status = .connected → ∀ e', .published e' ∈ before → e'.status ≠ .disconnecting)
  | _ => True

structure Follows (seen : List Signal) (f : Flow) : Prop where
  terminals : seen.countP Signal.terminal = if f.pc.landed then 1 else 0
  explained : Explained Allowed seen
  marked : .marked ∈ seen → f.disconnecting = true
  disconnecting : ∀ e, .published e ∈ seen → e.status = .disconnecting → f.disconnecting = true
  finalized : f.finalized = f.pc.owning
  intent : MarkedFirst seen → ∀ e, .published e ∈ seen → e.status.terminal = true → e.status = .disconnected
  sampled : ∀ r d, f.pc = .landing r d → MarkedFirst seen → d = true

theorem MarkedFirst.of_append {seen : List Signal} {signal : Signal} (hfi : MarkedFirst (seen ++ [signal]))
    (hoh : signal ≠ .claimed) : MarkedFirst seen := by
  obtain ⟨before, after, eq, mem⟩ := hfi
  rcases List.eq_nil_or_concat after with rfl | ⟨after, last, rfl⟩
  · obtain ⟨-, hsm⟩ := List.append_inj' eq rfl
    exact absurd (List.singleton_inj.mp hsm) hoh
  · rw [List.concat_eq_append, ← List.cons_append, ← List.append_assoc] at eq
    exact ⟨before, after, (List.append_inj' eq rfl).1, mem⟩

theorem MarkedFirst.marked {seen : List Signal} (hfi : MarkedFirst seen) : .marked ∈ seen := by
  obtain ⟨before, after, rfl, mem⟩ := hfi
  exact List.mem_append_left _ mem

namespace Follows
variable {seen : List Signal} {f f' : Flow} {e : Emission}

theorem start : Follows [] {} := by
  refine ⟨rfl, .nil, nofun, nofun, rfl, ?_, nofun⟩
  rintro ⟨before, after, eq, -⟩
  simp at eq

theorem no_terminal (hf : Follows seen f) (hfr : f.pc.landed = false) : ∀ signal ∈ seen, signal.terminal = false := by
  have hn := hf.terminals
  rw [hfr] at hn
  intro signal mem
  exact Bool.eq_false_of_not_eq_true (List.countP_eq_zero.mp hn signal mem)

theorem quiet (follows : Follows seen f) (disconnecting : f'.disconnecting = f.disconnecting)
    (finalized : f'.finalized = f.finalized) (landed : f'.pc.landed = f.pc.landed) (owning : f'.pc.owning = f.pc.owning)
    (sampled : ∀ r d, f'.pc = .landing r d → f.pc = .landing r d ∨ d = f.disconnecting) : Follows seen f' where
  terminals := landed ▸ follows.terminals
  explained := follows.explained
  marked := disconnecting ▸ follows.marked
  disconnecting := disconnecting ▸ follows.disconnecting
  finalized := by rw [finalized, owning, follows.finalized]
  intent := follows.intent
  sampled r d at_ first := by
    rcases sampled r d at_ with before | now
    · exact follows.sampled r d before first
    · rw [now]
      exact follows.marked first.marked

theorem mark (hf : Follows seen f) : Follows (seen ++ [.marked]) { f with disconnecting := true } where
  terminals := by simpa [Signal.terminal] using hf.terminals
  explained := hf.explained.snoc trivial
  marked _ := rfl
  disconnecting _ _ _ := rfl
  finalized := hf.finalized
  intent first e mem := by
    have he : .published e ∈ seen := by simpa using mem
    exact hf.intent (first.of_append nofun) e he
  sampled r d at_ first := hf.sampled r d at_ (first.of_append nofun)

theorem publish (follows : Follows seen f) (opens : e.status.terminal = false)
    (connected : e.status = .connected → f.disconnecting = false)
    (marked : e.status = .disconnecting → f.disconnecting = true) (disconnecting : f'.disconnecting = f.disconnecting)
    (finalized : f'.finalized = f.finalized) (free : f.pc.owning = false) (still : f'.pc.owning = false) :
    Follows (seen ++ [.published e]) f' where
  terminals := by
    have before := follows.terminals
    rw [FlowPC.not_landed free] at before
    rw [FlowPC.not_landed still]
    simpa [Signal.terminal, opens] using before
  explained := by
    refine follows.explained.snoc ⟨follows.no_terminal (FlowPC.not_landed free), fun now e' mem status => ?_⟩
    have := follows.disconnecting e' mem status
    rw [connected now] at this
    cases this
  marked mem := by
    rw [disconnecting]
    exact follows.marked (by simpa using mem)
  disconnecting e' mem status := by
    rw [disconnecting]
    rcases List.mem_append.mp mem with earlier | now
    · exact follows.disconnecting e' earlier status
    · obtain rfl : e' = e := by simpa using now
      exact marked status
  finalized := by rw [finalized, follows.finalized, free, still]
  intent first e' mem terminal := by
    rcases List.mem_append.mp mem with earlier | now
    · exact follows.intent (first.of_append nofun) e' earlier terminal
    · obtain rfl : e' = e := by simpa using now
      rw [opens] at terminal
      cases terminal
  sampled r d at_ := by
    rw [at_] at still
    cases still

theorem claim (hf : Follows seen f) {r : FlowEnd} (pc : f.pc = .claiming r) :
    Follows (seen ++ [.claimed]) { f with pc := .cleaning r, finalized := true } where
  terminals := by
    have hb := hf.terminals
    rw [pc] at hb
    simpa [Signal.terminal, FlowPC.landed] using hb
  explained := hf.explained.snoc trivial
  marked mem := hf.marked (by simpa using mem)
  disconnecting e mem := hf.disconnecting e (by simpa using mem)
  finalized := rfl
  intent _ e mem terminal := by
    -- no terminal status before the claim
    have hn := hf.no_terminal (by rw [pc]; rfl) (.published e) (by simpa using mem)
    exact absurd terminal (Bool.eq_false_iff.mp hn)
  sampled := nofun

theorem terminalEmission_status (r : FlowEnd) (d : Bool) :
    (terminalEmission r d).status.terminal = true ∧ (d = true → (terminalEmission r d).status = .disconnected) := by
  rcases r with - | ⟨stage, err⟩
  · exact ⟨rfl, fun _ => rfl⟩
  · cases d
    · exact ⟨rfl, nofun⟩
    · exact ⟨rfl, fun _ => rfl⟩

theorem land (hf : Follows seen f) {r : FlowEnd} {d : Bool} (pc : f.pc = .landing r d) :
    Follows (seen ++ [.published (terminalEmission r d)]) { f with pc := .clearing } := by
  have hfr : f.pc.landed = false := by
    rw [pc]
    rfl
  obtain ⟨hte, hin⟩ := terminalEmission_status r d
  have hop : ∀ status : Status, status.terminal = false → (terminalEmission r d).status ≠ status := by
    rintro status hoe rfl
    rw [hte] at hoe
    cases hoe
  refine ⟨?_, ?_, fun mem => ?_, fun e mem status => ?_, ?_, fun hfi e mem hen => ?_, nofun⟩
  · have hb := hf.terminals
    rw [hfr] at hb
    simpa [Signal.terminal, hte, FlowPC.landed] using hb
  · exact hf.explained.snoc ⟨hf.no_terminal hfr, fun now => absurd now (hop .connected rfl)⟩
  · exact hf.marked (by simpa using mem)
  · rcases List.mem_append.mp mem with he | now
    · exact hf.disconnecting e he status
    · obtain rfl : e = terminalEmission r d := by simpa using now
      exact absurd status (hop .disconnecting rfl)
  · have hb := hf.finalized
    rw [pc] at hb
    exact hb
  · have hfi := hfi.of_append nofun
    rcases List.mem_append.mp mem with he | now
    · exact hf.intent hfi e he hen
    · obtain rfl : e = terminalEmission r d := by simpa using now
      exact hin (hf.sampled r d pc hfi)

theorem touch {signals : List Signal} (hf : Follows seen f) (hto : Touch f signals f') :
    Follows (seen ++ signals) f' := by
  cases hto with
  | quiet _ disconnecting hfn hl how hsa =>
    rw [List.append_nil]
    exact hf.quiet disconnecting hfn hl how hsa
  | publishes e _ hop hu hcn disconnecting hfn hfr hst =>
    exact hf.publish hop hcn (fun now => absurd now hu) disconnecting hfn hfr hst
  | marks => exact hf.mark
  | disconnects e hsu hfr =>
    have hoe : f.pc.owning = false := hf.finalized.symm.trans hfr
    have hma : Follows (seen ++ [.marked] ++ [.published e]) { f with disconnecting := true } :=
      hf.mark.publish (by rw [hsu]; rfl) (fun now => by rw [hsu] at now; cases now) (fun _ => rfl) rfl rfl
        hoe hoe
    simpa using hma
  | claims r pc => exact hf.claim pc
  | lands r d pc => exact hf.land pc

end Follows

structure Orderly (seen : List Signal) (landed : Bool) : Prop where
  once : seen.countP Signal.terminal = if landed then 1 else 0
  last : ∀ (before : List Signal) (e : Emission) (after : List Signal), seen = before ++ .published e :: after →
    e.status.terminal = true → ∀ e', .published e' ∉ after
  intent : MarkedFirst seen → ∀ e, .published e ∈ seen → e.status.terminal = true → e.status = .disconnected
  order : ∀ (before : List Signal) (e : Emission) (after : List Signal), seen = before ++ .published e :: after →
    e.status = .connected → ∀ e', .published e' ∈ before → e'.status ≠ .disconnecting

theorem Follows.orderly {seen : List Signal} {f : Flow} (hf : Follows seen f) : Orderly seen f.pc.landed := by
  refine ⟨hf.terminals, fun before e after eq hte e' mem => ?_, hf.intent, fun before e after eq => ?_⟩
  · obtain ⟨middle, rest, rfl⟩ := List.append_of_mem mem
    have hsl : seen = (before ++ .published e :: middle) ++ .published e' :: rest := by simp [eq]
    have hn := (hf.explained _ _ _ hsl).1 (.published e) (by simp)
    rw [Signal.terminal, hte] at hn
    cases hn
  · exact (hf.explained before _ after eq).2

/-! ### Who owns the engine -/

def CallPC.holds : CallPC → Bool
  | .waiting | .returned => false
  | _ => true

def CallPC.Knows (s : EngineState) : CallPC → Prop
  | .cancelling i | .joining i => s.conn = none ∨ s.conn = some i
  | .installing => s.conn = none
  | .announcing i | .starting i => ∃ f, s.flows[i]? = some f ∧ f.pc = .installed
  | _ => True

theorem CallPC.knows_of_idle {pc : CallPC} (hid : pc.holds = false) (s : EngineState) : pc.Knows s := by
  cases pc <;> trivial

theorem CallPC.Knows.of_eq {pc : CallPC} {s s' : EngineState} (hk : pc.Knows s) (hco : s'.conn = s.conn)
    (hfl : s'.flows = s.flows) : pc.Knows s' := by
  unfold Knows
  rw [hco, hfl]
  exact hk

namespace EngineState
variable {host : Host} {s s' : EngineState} {action : Action}

/-- A connection is live as long as it is the engine's, and whoever changes the engine's holds `connectMu`. -/
structure Owned (s : EngineState) : Prop where
  holder : ∀ (k : Nat) call, s.calls[k]? = some call → call.pc.holds = true → s.connectMu = some k
  knows : ∀ (k : Nat) call, s.calls[k]? = some call → call.pc.Knows s
  live : ∀ (i : Nat) f, s.flows[i]? = some f → (f.pc.live = true ↔ s.conn = some i)
  there : ∀ i, s.conn = some i → i < s.flows.length

theorem Owned.idle_other (ho : Owned s) {k l : Nat} {call other : Call} (hm : s.calls[k]? = some call)
    (hh : call.pc.holds = true) (hot : s.calls[l]? = some other) (ne : l ≠ k) : other.pc.holds = false :=
  Bool.eq_false_of_not_eq_true fun hal =>
    ne (Option.some.inj ((ho.holder l other hot hal).symm.trans (ho.holder k call hm hh)))

inductive Moves (s s' : EngineState) : Prop
  | called (kind : CallKind) (eq : s' = { s with calls := s.calls ++ [{ kind }] })
  | locks (k : Nat) (call : Call) (mine : s.calls[k]? = some call) (free : s.connectMu = none)
      (eq : s' = { s.goto k call (firstPC call.kind) with connectMu := some k })
  | unlocks (k : Nat) (call : Call) (mine : s.calls[k]? = some call) (holds : call.pc.holds = true)
      (eq : s' = { s.goto k call .returned with connectMu := none })
  | advances (k : Nat) (call : Call) (pc : CallPC) (mine : s.calls[k]? = some call) (holds : call.pc.holds = true)
      (knows : pc.Knows s) (eq : s' = s.goto k call pc)
  | touches (k : Nat) (call : Call) (pc : CallPC) (i : Nat) (f f' : Flow) (signals : List Signal)
      (mine : s.calls[k]? = some call) (holds : call.pc.holds = true) (there : s.flows[i]? = some f)
      (touch : Touch f signals f') (live : f'.pc.live = f.pc.live) (knows : pc.Knows (s.record i f' signals))
      (eq : s' = (s.record i f' signals).goto k call pc)
  | installs (k : Nat) (call : Call) (mine : s.calls[k]? = some call) (holds : call.pc.holds = true) (vacant : s.conn = none)
      (eq : s' = { s.goto k call (.announcing s.flows.length) with
        flows := s.flows ++ [{}], conn := some s.flows.length })
  | flow (i : Nat) (f f' : Flow) (signals : List Signal) (there : s.flows[i]? = some f) (leads : Leads f signals f')
      (eq : s' = { s.record i f' signals with conn := clearConn i f s.conn })

theorem torndown_knows (kind : CallKind) (hv : s.conn = none) : (torndownPC kind).Knows s := by
  cases kind
  · exact hv
  · trivial
  · trivial

theorem stepCall_moves (ho : Owned s) {k : Nat} {call : Call} (hm : s.calls[k]? = some call)
    (eq : s.stepCall k call = some s') : Moves s s' := by
  have hk := ho.knows k call hm
  unfold stepCall at eq
  split at eq
  next pc =>
    split at eq
    next hfr =>
      cases eq
      exact .locks k call hm hfr rfl
    next => cases eq
  next pc =>
    cases eq
    refine .advances k call _ hm (by rw [pc]; rfl) ?_ rfl
    split <;> trivial
  next pc =>
    have hh : call.pc.holds = true := by rw [pc]; rfl
    split at eq
    next hv =>
      cases eq
      exact .advances k call _ hm hh (torndown_knows call.kind hv) rfl
    next i hco =>
      obtain ⟨f, ht, eq⟩ := Option.bind_eq_some_iff.mp eq
      cases eq
      exact .touches k call (.cancelling i) i f _ _ hm hh ht .marks rfl (Or.inr hco) rfl
  next pc =>
    have hh : call.pc.holds = true := by rw [pc]; rfl
    split at eq
    next hv =>
      cases eq
      exact .advances k call .returning hm hh trivial rfl
    next i hco =>
      obtain ⟨f, ht, eq⟩ := Option.bind_eq_some_iff.mp eq
      cases eq
      refine .touches k call (.cancelling i) i f { f with disconnecting := true } _ hm hh ht ?_ rfl (Or.inr hco) rfl
      split
      · exact .marks
      · next hfr => exact .disconnects _ rfl (Bool.eq_false_of_not_eq_true hfr)
  next i pc =>
    have hh : call.pc.holds = true := by rw [pc]; rfl
    obtain ⟨f, ht, eq⟩ := Option.bind_eq_some_iff.mp eq
    cases eq
    rw [pc] at hk
    refine .touches k call _ i f { f with cancelled := true } _ hm hh ht
      (.quiet _ rfl rfl rfl rfl fun r d at_ => .inl at_) rfl ?_ rfl
    split
    · trivial
    · exact hk
  next i pc =>
    have hh : call.pc.holds = true := by rw [pc]; rfl
    obtain ⟨f, ht, eq⟩ := Option.bind_eq_some_iff.mp eq
    split at eq
    next hcl =>
      cases eq
      rw [pc] at hk
      -- the connection that was waited for is no longer the engine's, and no other was installed since
      have hv : s.conn = none := by
        rcases hk with hv | hst
        · exact hv
        · have hli := (ho.live i f ht).mpr hst
          rw [hcl] at hli
          cases hli
      exact .advances k call _ hm hh (torndown_knows call.kind hv) rfl
    next => cases eq
  next pc =>
    cases eq
    rw [pc] at hk
    exact .installs k call hm (by rw [pc]; rfl) hk rfl
  next i pc =>
    have hh : call.pc.holds = true := by rw [pc]; rfl
    obtain ⟨f, ht, eq⟩ := Option.bind_eq_some_iff.mp eq
    cases eq
    rw [pc] at hk
    obtain ⟨f', hth, hi⟩ := hk
    obtain rfl := Option.some.inj (ht.symm.trans hth)
    have hfr : f.pc.owning = false := by rw [hi]; rfl
    refine .touches k call (.starting i) i f f _ hm hh ht
      (.publishes ⟨.preparing, .keep, .clear⟩ f rfl nofun nofun rfl rfl hfr hfr) rfl ?_ rfl
    exact ⟨f, by rw [record, List.set_eq_self ht]; exact ht, hi⟩
  next i pc =>
    have hh : call.pc.holds = true := by rw [pc]; rfl
    obtain ⟨f, ht, eq⟩ := Option.bind_eq_some_iff.mp eq
    cases eq
    rw [pc] at hk
    obtain ⟨f', hth, hi⟩ := hk
    obtain rfl := Option.some.inj (ht.symm.trans hth)
    refine .touches k call .returning i f { f with pc := .validating } _ hm hh ht
      (.quiet _ rfl rfl ?_ ?_ nofun) ?_ trivial rfl
    all_goals
      rw [hi]
      rfl
  next pc =>
    cases eq
    exact .unlocks k call hm (by rw [pc]; rfl) rfl
  next => cases eq

theorem step_moves (ho : Owned s) (eq : s.step host action = some s') : Moves s s' := by
  cases action with
  | call kind =>
    cases eq
    exact .called kind rfl
  | advance k =>
    obtain ⟨call, hm, eq⟩ := Option.bind_eq_some_iff.mp eq
    exact stepCall_moves ho hm eq
  | flow i outcome =>
    obtain ⟨f, ht, eq⟩ := Option.bind_eq_some_iff.mp eq
    obtain ⟨⟨f', signals⟩, hse, eq⟩ := Option.bind_eq_some_iff.mp eq
    cases eq
    exact .flow i f f' signals ht (Flow.step_leads hse) rfl

theorem Owned.held (ho : Owned s) {k : Nat} {call : Call} (hm : s.calls[k]? = some call) (hh : call.pc.holds = true)
    {pc : CallPC} (hca : s'.calls = s.calls.set k { call with pc }) (mu : s'.connectMu = s.connectMu) (hk : pc.Knows s')
    (hli : ∀ (i : Nat) f, s'.flows[i]? = some f → (f.pc.live = true ↔ s'.conn = some i))
    (ht : ∀ i, s'.conn = some i → i < s'.flows.length) : Owned s' := by
  refine ⟨fun l other ha hhe => ?_, fun l other ha => ?_, hli, ht⟩
  · rw [mu]
    rw [hca] at ha
    rcases List.getElem?_set_cases ha with ⟨rfl, -⟩ | ⟨-, hb⟩
    · exact ho.holder _ call hm hh
    · exact ho.holder l other hb hhe
  · rw [hca] at ha
    rcases List.getElem?_set_cases ha with ⟨rfl, rfl⟩ | ⟨ne, hb⟩
    · exact hk
    · exact CallPC.knows_of_idle (ho.idle_other hm hh hb ne) s'

theorem clearConn_none {i : Nat} {f : Flow} {conn : Option Nat} (hv : conn = none) : clearConn i f conn = none := by
  rw [clearConn, hv, ite_self]

theorem clearConn_cases {i c : Nat} {f : Flow} {conn : Option Nat} (hcu : conn = some c) :
    clearConn i f conn = none ∨ clearConn i f conn = some c := by
  rw [clearConn]
  split
  · exact .inl rfl
  · exact .inr hcu

theorem installed_elsewhere {i c : Nat} {f f' : Flow} {signals : List Signal} (hle : Leads f signals f')
    (ht : s.flows[i]? = some f) (hw : ∃ g, s.flows[c]? = some g ∧ g.pc = .installed) :
    ∃ g, (s.record i f' signals).flows[c]? = some g ∧ g.pc = .installed := by
  obtain ⟨g, at_, hi⟩ := hw
  have ne : i ≠ c := by
    rintro rfl
    obtain rfl := Option.some.inj (ht.symm.trans at_)
    exact hle.started hi
  exact ⟨g, by rw [record, List.getElem?_set_ne ne]; exact at_, hi⟩

theorem Owned.live_record (ho : Owned s) {i : Nat} {f f' : Flow} (signals : List Signal) (ht : s.flows[i]? = some f)
    (hli : f'.pc.live = f.pc.live) (j : Nat) (g : Flow) (ha : (s.record i f' signals).flows[j]? = some g) :
    g.pc.live = true ↔ s.conn = some j := by
  rcases List.getElem?_set_cases ha with ⟨rfl, rfl⟩ | ⟨-, hb⟩
  · rw [hli]
    exact ho.live _ f ht
  · exact ho.live j g hb

theorem Owned.step (ho : Owned s) (hmo : Moves s s') : Owned s' := by
  cases hmo with
  | called kind eq =>
    subst eq
    refine ⟨fun k call ha => ?_, fun k call ha => ?_, ho.live, ho.there⟩
    · rcases List.getElem?_concat_cases ha with hb | ⟨-, rfl⟩
      · exact ho.holder k call hb
      · nofun
    · rcases List.getElem?_concat_cases ha with hb | ⟨-, rfl⟩
      · exact ho.knows k call hb
      · trivial
  | locks k call hm hfr eq =>
    subst eq
    have hid : ∀ (l : Nat) other, s.calls[l]? = some other → other.pc.holds = false := fun l other ht =>
      Bool.eq_false_of_not_eq_true fun hh => by
        have htk := ho.holder l other ht hh
        rw [hfr] at htk
        cases htk
    refine ⟨fun l other ha hh => ?_, fun l other ha => ?_, ho.live, ho.there⟩
    · rcases List.getElem?_set_cases ha with ⟨rfl, -⟩ | ⟨-, hb⟩
      · rfl
      · rw [hid l other hb] at hh
        cases hh
    · rcases List.getElem?_set_cases ha with ⟨rfl, rfl⟩ | ⟨-, hb⟩
      · cases call.kind <;> trivial
      · exact CallPC.knows_of_idle (hid l other hb) _
  | unlocks k call hm hh eq =>
    subst eq
    refine ⟨fun l other ha hhe => ?_, fun l other ha => ?_, ho.live, ho.there⟩
    · rcases List.getElem?_set_cases ha with ⟨rfl, rfl⟩ | ⟨ne, hb⟩
      · cases hhe
      · rw [ho.idle_other hm hh hb ne] at hhe
        cases hhe
    · rcases List.getElem?_set_cases ha with ⟨rfl, rfl⟩ | ⟨ne, hb⟩
      · trivial
      · exact CallPC.knows_of_idle (ho.idle_other hm hh hb ne) _
  | advances k call pc hm hh hk eq =>
    subst eq
    exact ho.held hm hh rfl rfl (hk.of_eq rfl rfl) ho.live ho.there
  | touches k call pc i f f' signals hm hh ht hto hli hk eq =>
    subst eq
    refine ho.held hm hh rfl rfl (hk.of_eq rfl rfl) (ho.live_record signals ht hli) fun j hco => ?_
    simpa [record, goto] using ho.there j hco
  | installs k call hm hh hv eq =>
    subst eq
    refine ho.held hm hh rfl rfl ⟨{}, List.getElem?_concat_length, rfl⟩ (fun i f ha => ?_) fun i hco => ?_
    · rcases List.getElem?_concat_cases ha with hb | ⟨rfl, rfl⟩
      · have hg := ho.live i f hb
        rw [hv] at hg
        have lt : i < s.flows.length := (List.getElem?_eq_some_iff.mp hb).1
        refine ⟨fun hli => absurd (hg.mp hli) nofun, fun hhr => ?_⟩
        exact absurd (Option.some.inj hhr).symm (Nat.ne_of_lt lt)
      · exact ⟨fun _ => rfl, fun _ => rfl⟩
    · obtain rfl := Option.some.inj hco
      simp
  | flow i f f' signals ht hle eq =>
    subst eq
    refine ⟨ho.holder, fun k call hm => ?_, fun j g ha => ?_, fun j hco => ?_⟩
    · have hk := ho.knows k call hm
      cases pc : call.pc with
      | cancelling c =>
        rw [pc] at hk
        exact hk.elim (fun hv => Or.inl (clearConn_none hv)) clearConn_cases
      | joining c =>
        rw [pc] at hk
        exact hk.elim (fun hv => Or.inl (clearConn_none hv)) clearConn_cases
      | installing =>
        rw [pc] at hk
        exact clearConn_none hk
      | announcing c =>
        rw [pc] at hk
        exact installed_elsewhere hle ht hk
      | starting c =>
        rw [pc] at hk
        exact installed_elsewhere hle ht hk
      | _ => trivial
    · have hm := ho.live i f ht
      rcases List.getElem?_set_cases ha with ⟨rfl, rfl⟩ | ⟨ne, hb⟩
      · rw [hle.live, clearConn]
        by_cases hc : f.pc = .clearing
        · by_cases hco : s.conn = some j <;> simp [hc, hco]
        · simp [hc, hm]
      · rw [ho.live j g hb, clearConn]
        split
        next now =>
          rw [now.2]
          exact ⟨fun hsm => absurd (Option.some.inj hsm).symm ne, nofun⟩
        next => exact Iff.rfl
    · rw [clearConn] at hco
      split at hco
      · cases hco
      · simpa [record] using ho.there j hco

/-! ### Runs -/

theorem history_record (s : EngineState) (i : Nat) (f : Flow) (signals : List Signal) (j : Nat) :
    (s.record i f signals).history j = s.history j ++ if i = j then signals else [] := by
  unfold history record
  by_cases hsm : i = j <;> simp [hsm, List.filter_map, Function.comp_def]

structure Followed (s : EngineState) : Prop where
  follows : ∀ (i : Nat) f, s.flows[i]? = some f → Follows (s.history i) f
  fresh : ∀ i, s.flows.length ≤ i → s.history i = []

theorem Followed.of_eq (hfo : Followed s) (hfl : s'.flows = s.flows) (log : s'.log = s.log) : Followed s' := by
  have hhi : ∀ i, s'.history i = s.history i := fun i => by rw [EngineState.history, log, EngineState.history]
  refine ⟨fun i f ht => ?_, fun i hbe => ?_⟩
  · rw [hhi]
    exact hfo.follows i f (hfl ▸ ht)
  · rw [hhi]
    exact hfo.fresh i (hfl ▸ hbe)

theorem Followed.touch (hfo : Followed s) {i : Nat} {f f' : Flow} {signals : List Signal} (ht : s.flows[i]? = some f)
    (hto : Touch f signals f') : Followed (s.record i f' signals) := by
  have lt : i < s.flows.length := (List.getElem?_eq_some_iff.mp ht).1
  refine ⟨fun j g ha => ?_, fun j hbe => ?_⟩
  · rw [history_record]
    rcases List.getElem?_set_cases ha with ⟨rfl, rfl⟩ | ⟨ne, hb⟩
    · rw [if_pos rfl]
      exact (hfo.follows _ f ht).touch hto
    · rw [if_neg (Ne.symm ne), List.append_nil]
      exact hfo.follows j g hb
  · have hbe : s.flows.length ≤ j := by simpa [record] using hbe
    rw [history_record, if_neg (by omega), List.append_nil]
    exact hfo.fresh j hbe

theorem Followed.step (hfo : Followed s) (hmo : Moves s s') : Followed s' := by
  cases hmo with
  | called kind eq =>
    subst eq
    exact hfo.of_eq rfl rfl
  | locks k call hm hfr eq =>
    subst eq
    exact hfo.of_eq rfl rfl
  | unlocks k call hm hh eq =>
    subst eq
    exact hfo.of_eq rfl rfl
  | advances k call pc hm hh hk eq =>
    subst eq
    exact hfo.of_eq rfl rfl
  | touches k call pc i f f' signals hm hh ht hto hli hk eq =>
    subst eq
    exact (hfo.touch ht hto).of_eq rfl rfl
  | installs k call hm hh hv eq =>
    subst eq
    refine ⟨fun i f ha => ?_, fun i hbe => ?_⟩
    · rcases List.getElem?_concat_cases ha with hb | ⟨rfl, rfl⟩
      · exact hfo.follows i f hb
      · show Follows (s.history s.flows.length) {}
        rw [hfo.fresh _ le_rfl]
        exact .start
    · refine hfo.fresh i (Nat.le_of_succ_le ?_)
      simpa using hbe
  | flow i f f' signals ht hle eq =>
    subst eq
    exact (hfo.touch ht hle.touch).of_eq rfl rfl

structure Invariant (s : EngineState) : Prop where
  owned : Owned s
  followed : Followed s

theorem invariant_start : Invariant {} := by
  refine ⟨⟨nofun, nofun, nofun, nofun⟩, nofun, fun _ _ => rfl⟩

theorem Invariant.step (inv : Invariant s) (eq : s.step host action = some s') : Invariant s' := by
  have hmo := step_moves inv.owned eq
  exact ⟨inv.owned.step hmo, inv.followed.step hmo⟩

theorem Invariant.run {actions : List Action} (inv : Invariant s)
    (run : Trace (fun s action s' => s.step host action = some s') s actions s') : Invariant s' :=
  run.invariant (P := Invariant) (fun _ _ _ inv hse => inv.step hse) inv

theorem finish_one (host : Host) (s : EngineState) {i n : Nat} {f : Flow} (ht : s.flows[i]? = some f)
    (hlf : f.pc.left = n + 1) : ∃ s' f', s.step host (.flow i .ok) = some s' ∧ s'.flows[i]? = some f' ∧
      f'.pc.left = n ∧ (n = 0 → f'.pc = .closed) := by
  have lt : i < s.flows.length := (List.getElem?_eq_some_iff.mp ht).1
  have hmo : ∃ f' signals, f.step host .ok = some (f', signals) ∧ f'.pc.left = n ∧ (n = 0 → f'.pc = .closed) := by
    cases pc : f.pc <;> rw [pc] at hlf <;> cases hlf <;> simp [Flow.step, pc, Flow.goto, FlowPC.left]
  obtain ⟨f', signals, hse, hls, hcl⟩ := hmo
  refine ⟨{ s.record i f' signals with conn := clearConn i f s.conn }, f', ?_, List.getElem?_set_self lt, hls, hcl⟩
  rw [EngineState.step, ht, Option.bind_eq_bind, Option.bind_some, hse]
  rfl

theorem finish (host : Host) {i n : Nat} : ∀ (s : EngineState) {f : Flow}, s.flows[i]? = some f → f.pc.left = n + 1 →
    ∃ s' f', (List.replicate (n + 1) (Action.flow i .ok)).foldlM (step host) s = some s' ∧
      s'.flows[i]? = some f' ∧ f'.pc = .closed := by
  induction n with
  | zero =>
    intro s f there left
    obtain ⟨s', f', step, there', -, closed⟩ := finish_one host s there left
    exact ⟨s', f', by simp [step], there', closed rfl⟩
  | succ n ih =>
    intro s f there left
    obtain ⟨s₁, f₁, step, there₁, left₁, -⟩ := finish_one host s there left
    obtain ⟨s', f', run, there', closed⟩ := ih s₁ there₁ left₁
    exact ⟨s', f', by rw [List.replicate_succ, List.foldlM_cons, step]; exact run, there', closed⟩

/-- At most one connection is live, each publishes one terminal status and nothing after it, and a flow whose
    `connectFlow` has returned reaches its end by its own steps. -/
theorem status_machine (host : Host) (actions : List Action) (s : EngineState)
    (run : Trace (fun s action s' => s.step host action = some s') {} actions s) :
    (∀ (i j : Nat) f g, s.flows[i]? = some f → s.flows[j]? = some g → f.pc.live = true → g.pc.live = true → i = j) ∧
      ∀ (i : Nat) f, s.flows[i]? = some f → Orderly (s.history i) f.pc.landed ∧
        (0 < f.pc.left → ∃ s' f', (List.replicate f.pc.left (Action.flow i .ok)).foldlM (step host) s = some s' ∧
          s'.flows[i]? = some f' ∧ f'.pc = .closed ∧ (s'.history i).countP Signal.terminal = 1) := by
  have inv : Invariant s := invariant_start.run run
  refine ⟨fun i j f g hfi hsc hli hal => ?_, fun i f ht => ⟨(inv.followed.follows i f ht).orderly, fun hlf => ?_⟩⟩
  · have hhr := (inv.owned.live i f hfi).mp hli
    have too := (inv.owned.live j g hsc).mp hal
    exact Option.some.inj (hhr.symm.trans too)
  · obtain ⟨n, hlf⟩ := Nat.exists_eq_add_one.mpr hlf
    obtain ⟨s', f', hsp, hth, hcl⟩ := finish host s ht hlf
    have hf := ((inv.run (Trace.of_foldlM hsp)).followed.follows i f' hth).terminals
    rw [hcl] at hf
    exact ⟨s', f', hlf ▸ hsp, hth, hcl, hf⟩

/-- A flow whose port is taken, and a `Disconnect` that comes between its return and its claim. -/
def lateDisconnect : List Action :=
  [.call .connectTarget, .advance 0, .advance 0, .advance 0, .advance 0, .advance 0, .advance 0, .flow 0 .ok, .flow 0 .ok,
    .flow 0 .ok, .flow 0 (.failed "" ⟨"port in use", false⟩), .call .disconnect, .advance 1, .advance 1, .flow 0 .ok,
    .flow 0 .ok, .flow 0 .ok, .flow 0 .ok, .flow 0 .ok]

theorem status_machine_lateDisconnect : ∃ s, lateDisconnect.foldlM (step {}) {} = some s ∧
    s.history 0 = [.published ⟨.preparing, .keep, .clear⟩, .published ⟨.connecting, .keep, .clear⟩, .marked,
      .published ⟨.disconnecting, .keep, .keep⟩, .claimed, .published ⟨.disconnected, .clear, .clear⟩] ∧
    Orderly (s.history 0) true :=
  ⟨_, rfl, rfl, ((status_machine {} lateDisconnect _ (Trace.of_foldlM rfl)).2 0 _ rfl).1⟩

end EngineState

end OpenRung.StatusMachine
