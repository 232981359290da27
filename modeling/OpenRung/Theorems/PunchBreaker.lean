import Mathlib
import OpenRung.Lib.History
import OpenRung.Engine.PunchBreaker

/-! The punch recovery breaker over any run of calls. Each relay's state is what the calls about that relay alone make
    of it. -/

namespace OpenRung.Engine

/-! ### The backoff ladder -/

namespace PunchBreakerConfig
variable {c : PunchBreakerConfig}

/-- A config whose ladder starts above zero and not above its cap, as `withDefaults` leaves one whose two backoffs are in
    order. -/
structure Ordered (c : PunchBreakerConfig) : Prop where
  positive : 0 < c.initialBackoff
  capped : c.initialBackoff ≤ c.maxBackoff

theorem withDefaults_stablePath_pos (c : PunchBreakerConfig) : 0 < c.withDefaults.stablePath := by
  simp only [withDefaults]
  split
  · decide
  · lia

theorem withDefaults_maxRapid_pos (c : PunchBreakerConfig) : 0 < c.withDefaults.maxRapid := by
  simp only [withDefaults]
  split
  · decide
  · lia

theorem withDefaults_initialBackoff_pos (c : PunchBreakerConfig) : 0 < c.withDefaults.initialBackoff := by
  simp only [withDefaults]
  split
  · decide
  · lia

theorem withDefaults_ordered (hi : c.initialBackoff ≤ c.maxBackoff) : c.withDefaults.Ordered := by
  refine ⟨withDefaults_initialBackoff_pos c, ?_⟩
  have hor : punchInitialBackoff ≤ punchMaxBackoff := by decide
  simp only [withDefaults]
  split_ifs <;> lia

theorem le_escalate {d : Duration} (hb : d ≤ c.maxBackoff) (hp : 0 < d) : d ≤ c.escalate d := by
  simp only [escalate]
  split_ifs <;> lia

theorem escalate_le {d : Duration} : c.escalate d ≤ c.maxBackoff := by
  simp only [escalate]
  split_ifs <;> lia

theorem nominal_succ (n : Nat) : c.nominal (n + 2) = c.escalate (c.nominal (n + 1)) := by
  exact Function.iterate_succ_apply' c.escalate n c.initialBackoff

theorem Ordered.nominal_bounds (ho : c.Ordered) (n : Nat) : 0 < c.nominal n ∧ c.nominal n ≤ c.maxBackoff := by
  match n with
  | 0 => exact ⟨ho.positive, ho.capped⟩
  | 1 => exact ⟨ho.positive, ho.capped⟩
  | n + 2 =>
    obtain ⟨hp, hb⟩ := ho.nominal_bounds (n + 1)
    rw [nominal_succ]
    exact ⟨hp.trans_le (le_escalate hb hp), escalate_le⟩

theorem Ordered.nominal_mono (ho : c.Ordered) : Monotone c.nominal := by
  refine monotone_nat_of_le_succ fun n => ?_
  match n with
  | 0 => exact le_refl _
  | n + 1 =>
    obtain ⟨hp, hb⟩ := ho.nominal_bounds (n + 1)
    rw [nominal_succ]
    exact le_escalate hb hp

theorem raise_eq_max (d low : Duration) [Decidable (d < low)] : (if d < low then low else d) = max d low := by
  split_ifs <;> lia

theorem cut_eq_min (d high : Duration) [Decidable (high < d)] : (if high < d then high else d) = min d high := by
  split_ifs <;> lia

theorem Ordered.backoffDelay_bounds (ho : c.Ordered) (pick : Duration → Duration → Duration) (n : Nat) :
    5 * |c.backoffDelay pick n - c.nominal n| ≤ c.nominal n ∧ c.backoffDelay pick n ≤ c.maxBackoff := by
  obtain ⟨hp, hb⟩ := ho.nominal_bounds n
  simp only [backoffDelay, raise_eq_max, cut_eq_min]
  simp only [punchJitterDivisor]
  generalize pick _ _ = picked
  have hna : |min (max picked (max (c.nominal n - c.nominal n / 5) 1)) (min (c.nominal n + c.nominal n / 5) c.maxBackoff)
      - c.nominal n| ≤ c.nominal n / 5 := by
    rw [abs_le]
    constructor <;> lia
  constructor <;> lia

end PunchBreakerConfig

namespace PunchBreaker
variable {config : PunchBreakerConfig} {b : PunchBreaker} {r : String}

/-! ### One relay -/

def Call.onState (config : PunchBreakerConfig) : Call → PunchRelayState → PunchRelayState
  | connected relayID now, state => if relayID = "" then state else { state with connectedAt := some now }
  | allows _, state => state
  | lost _ now counts _, state =>
    let stable := config.withDefaults.stablePath ≤ uptime state now
    let streak := (if stable then 0 else state.rapidFailures) + if counts then 1 else 0
    { rapidFailures := streak
      connectedAt := none
      isOpen := (if stable then false else state.isOpen) || counts && decide (config.withDefaults.maxRapid ≤ streak) }

theorem stateFor_insert (b : PunchBreaker) (id r : String) (state : PunchRelayState) :
    ({ b with relays := b.relays.insert id state } : PunchBreaker).stateFor r = if r = id then state else b.stateFor r := by
  simp only [stateFor, KeyedMap.lookup_insert_eq]
  split <;> rfl

theorem onDirectPathLost_eq (b : PunchBreaker) (r : String) (now : Time) (counts : Bool)
    (pick : Duration → Duration → Duration) :
    let state := (Call.lost r now counts pick).onState b.config (b.stateFor r)
    b.onDirectPathLost r now counts pick = ({ b with relays := b.relays.insert r state },
      { useRelayHub := counts && decide (b.config.withDefaults.maxRapid ≤ state.rapidFailures)
        delay := if counts then b.config.withDefaults.backoffDelay pick state.rapidFailures else 0
        rapidFailures := state.rapidFailures
        directUptime := uptime (b.stateFor r) now
        counted := counts }) := by
  simp only [onDirectPathLost, Call.onState]
  cases counts with
  | false => by_cases hs : b.config.withDefaults.stablePath ≤ uptime (b.stateFor r) now <;> simp [hs]
  | true =>
    by_cases hs : b.config.withDefaults.stablePath ≤ uptime (b.stateFor r) now
    · by_cases hop : b.config.withDefaults.maxRapid ≤ 1 <;> simp [hs, hop]
    · by_cases hop : b.config.withDefaults.maxRapid ≤ (b.stateFor r).rapidFailures + 1 <;> simp [hs, hop]

theorem counted_loss (b : PunchBreaker) (r : String) (now : Time) (pick : Duration → Duration → Duration) :
    let loss := b.onDirectPathLost r now true pick
    loss.2.rapidFailures = (loss.1.stateFor r).rapidFailures ∧
      loss.2.delay = b.config.withDefaults.backoffDelay pick (loss.1.stateFor r).rapidFailures := by
  intro loss
  have eq : loss = _ := onDirectPathLost_eq b r now true pick
  have ha : loss.1.stateFor r = (Call.lost r now true pick).onState b.config (b.stateFor r) := by
    rw [eq, stateFor_insert, if_pos rfl]
  rw [ha, eq]
  exact ⟨rfl, rfl⟩

theorem allowsDirectPunch_eq (b : PunchBreaker) (r : String) : b.allowsDirectPunch r = !(b.stateFor r).isOpen := by
  simp only [allowsDirectPunch, stateFor]
  cases b.relays.lookup r <;> rfl

@[simp] theorem call_config (b : PunchBreaker) (c : Call) : (b.call c).1.config = b.config := by
  cases c with
  | connected id now =>
    simp only [call, markDirectConnected]
    split <;> rfl
  | lost id now counts pick => simp only [call, onDirectPathLost_eq]
  | allows id => rfl

theorem stateFor_call (b : PunchBreaker) (c : Call) (r : String) :
    (b.call c).1.stateFor r = if c.relayID = r then c.onState b.config (b.stateFor r) else b.stateFor r := by
  cases c with
  | connected id now =>
    simp only [call, markDirectConnected, Call.relayID, Call.onState]
    by_cases hn : id = ""
    · simp [hn]
    · rw [if_neg hn, if_neg hn, stateFor_insert]
      by_cases hh : r = id
      · simp [hh]
      · simp [hh, Ne.symm hh]
  | lost id now counts pick =>
    simp only [call, onDirectPathLost_eq, Call.relayID, stateFor_insert]
    by_cases hh : r = id
    · simp [hh]
    · simp [hh, Ne.symm hh]
  | allows id => simp [call, Call.onState]

theorem answer_congr {b b' : PunchBreaker} (c : Call) (hc : b.config = b'.config)
    (hsa : b.stateFor c.relayID = b'.stateFor c.relayID) : (b.call c).2 = (b'.call c).2 := by
  cases c with
  | connected id now => rfl
  | lost id now counts pick =>
    simp only [Call.relayID] at hsa
    simp only [call, onDirectPathLost_eq, hsa, hc]
  | allows id =>
    simp only [Call.relayID] at hsa
    simp only [call, allowsDirectPunch_eq, hsa]

theorem run_snoc (config : PunchBreakerConfig) (calls : List Call) (c : Call) :
    run config (calls ++ [c]) = ((run config calls).call c).1 := by
  simp only [run, List.foldl_append, List.foldl_cons, List.foldl_nil]

@[simp] theorem run_config (config : PunchBreakerConfig) (calls : List Call) : (run config calls).config = config := by
  induction calls using List.reverseRecOn with
  | nil => rfl
  | append_singleton calls c ih => rw [run_snoc, call_config, ih]

theorem stateFor_run_snoc (config : PunchBreakerConfig) (calls : List Call) (c : Call) (r : String) :
    (run config (calls ++ [c])).stateFor r =
      if c.relayID = r then c.onState config ((run config calls).stateFor r) else (run config calls).stateFor r := by
  rw [run_snoc, stateFor_call, run_config]

theorem stateFor_run_filter (config : PunchBreakerConfig) (calls : List Call) (r : String) :
    (run config (calls.filter (·.relayID = r))).stateFor r = (run config calls).stateFor r := by
  induction calls using List.reverseRecOn with
  | nil => rfl
  | append_singleton calls c ih =>
    rw [List.filter_append, stateFor_run_snoc]
    by_cases hh : c.relayID = r
    · rw [List.filter_singleton, decide_eq_true hh, Bool.cond_true, stateFor_run_snoc, if_pos hh, if_pos hh, ih]
    · rw [List.filter_singleton, decide_eq_false hh, Bool.cond_false, List.append_nil, if_neg hh, ih]

/-! ### The circuit -/

theorem isOpen_iff (config : PunchBreakerConfig) (calls : List Call) (r : String) :
    ((run config calls).stateFor r).isOpen = true ↔
      config.withDefaults.maxRapid ≤ ((run config calls).stateFor r).rapidFailures := by
  have hp := config.withDefaults_maxRapid_pos
  induction calls using List.reverseRecOn with
  | nil =>
    have : ¬config.withDefaults.maxRapid ≤ 0 := by lia
    simpa [run, stateFor] using this
  | append_singleton calls c ih =>
    rw [stateFor_run_snoc]
    generalize (run config calls).stateFor r = state at ih ⊢
    split
    case isFalse => exact ih
    case isTrue =>
      cases c with
      | connected id now =>
        simp only [Call.onState]
        split <;> exact ih
      | allows id => exact ih
      | lost id now counts pick =>
        simp only [Call.onState]
        -- An open circuit had reached the threshold already, and the streak only grows until a reset.
        grind

/-! ### The history of a relay -/

def Call.Moves (r : String) : Call → Prop
  | connected relayID _ => relayID = r
  | lost relayID _ _ _ => relayID = r
  | allows _ => False

/-- The path to the relay came up at `t` and was not lost or marked again since. -/
def UpSince (r : String) (calls : List Call) (t : Time) : Prop :=
  r ≠ "" ∧ ∃ before after, calls = before ++ .connected r t :: after ∧ ∀ c ∈ after, ¬c.Moves r

/-- The call is a loss of a path that had been up for at least `stablePath`. -/
def StableLoss (config : PunchBreakerConfig) (r : String) (before : List Call) : Call → Prop
  | .lost relayID now _ _ => relayID = r ∧ ∃ t, UpSince r before t ∧ config.withDefaults.stablePath ≤ now - t
  | _ => False

def Call.countedLoss (r : String) : Call → Bool
  | lost relayID _ counts _ => relayID == r && counts
  | _ => false

theorem upSince_snoc_iff {calls : List Call} {c : Call} {t : Time} :
    UpSince r (calls ++ [c]) t ↔ r ≠ "" ∧ c = .connected r t ∨ ¬c.Moves r ∧ UpSince r calls t := by
  constructor
  · rintro ⟨hn, before, after, eq, hsi⟩
    rcases Since.split_snoc eq with ⟨rfl, rfl⟩ | ⟨rest, rfl, rfl⟩
    · exact .inl ⟨hn, rfl⟩
    · refine .inr ⟨hsi c (by simp), hn, before, rest, rfl, fun d mem => hsi d (List.mem_append_left _ mem)⟩
  · rintro (⟨hn, rfl⟩ | ⟨hq, hn, before, after, rfl, hsi⟩)
    · exact ⟨hn, calls, [], rfl, fun d mem => by cases mem⟩
    · refine ⟨hn, before, after ++ [c], by simp, fun d mem => ?_⟩
      rcases List.mem_append.mp mem with mem | mem
      · exact hsi d mem
      · rwa [List.mem_singleton.mp mem]

theorem connectedAt_eq_some_iff (config : PunchBreakerConfig) (calls : List Call) (r : String) (t : Time) :
    ((run config calls).stateFor r).connectedAt = some t ↔ UpSince r calls t := by
  induction calls using List.reverseRecOn with
  | nil => simp [run, stateFor, UpSince]
  | append_singleton calls c ih =>
    rw [stateFor_run_snoc, upSince_snoc_iff, ← ih]
    generalize (run config calls).stateFor r = state at ih ⊢
    cases c with
    | connected id now =>
      simp only [Call.relayID, Call.onState, Call.Moves, Call.connected.injEq]
      by_cases hh : id = r
      · subst hh
        by_cases hn : id = ""
        · -- The empty relay is never marked.
          have hne : state.connectedAt ≠ some t := fun up => (ih.mp up).1 hn
          simp [hn, hne]
        · simp [hn]
      · simp [hh]
    | lost id now counts pick =>
      simp only [Call.relayID, Call.onState, Call.Moves]
      by_cases hh : id = r <;> simp [hh]
    | allows id => simp [Call.onState, Call.Moves]

theorem stableLoss_iff (config : PunchBreakerConfig) (calls : List Call) (now : Time) (counts : Bool)
    (pick : Duration → Duration → Duration) : StableLoss config r calls (.lost r now counts pick) ↔
      config.withDefaults.stablePath ≤ uptime ((run config calls).stateFor r) now := by
  have hp := config.withDefaults_stablePath_pos
  simp only [StableLoss, ← connectedAt_eq_some_iff config calls r, true_and, uptime]
  generalize ((run config calls).stateFor r).connectedAt = connectedAt
  cases connectedAt with
  | none => simpa using hp
  | some t =>
    simp only [Option.some.injEq, exists_eq_left']
    split_ifs <;> lia

theorem rapidFailures_of_stable {calls : List Call} {c : Call} (hs : StableLoss config r calls c) :
    ((run config (calls ++ [c])).stateFor r).rapidFailures = if c.countedLoss r then 1 else 0 := by
  cases c with
  | lost id now counts pick =>
    obtain rfl := hs.1
    rw [stateFor_run_snoc]
    simp only [Call.relayID, if_true]
    simp only [Call.onState, if_pos ((stableLoss_iff config calls now counts pick).mp hs), Call.countedLoss,
      beq_self_eq_true, Bool.true_and, Nat.zero_add]
  | connected id now => cases hs
  | allows id => cases hs

theorem rapidFailures_of_not_stable {calls : List Call} {c : Call} (hg : ¬StableLoss config r calls c) :
    ((run config (calls ++ [c])).stateFor r).rapidFailures =
      ((run config calls).stateFor r).rapidFailures + if c.countedLoss r then 1 else 0 := by
  rw [stateFor_run_snoc]
  by_cases hh : c.relayID = r
  · subst hh
    rw [if_pos rfl]
    cases c with
    | lost id now counts pick =>
      have hsh := mt (stableLoss_iff config calls now counts pick).mpr hg
      simp only [Call.relayID] at hsh ⊢
      simp only [Call.onState, if_neg hsh, Call.countedLoss, beq_self_eq_true, Bool.true_and]
    | connected id now =>
      simp only [Call.onState, Call.countedLoss]
      split <;> rfl
    | allows id => rfl
  · rw [if_neg hh]
    cases c with
    | lost id now counts pick =>
      simp only [Call.relayID] at hh
      simp [Call.countedLoss, hh]
    | connected id now => rfl
    | allows id => rfl

/-- The streak is the number of counted losses from the last stable loss on. -/
theorem streak_since (config : PunchBreakerConfig) (calls : List Call) (r : String) :
    ∃ recent, Since (StableLoss config r) calls recent ∧
      ((run config calls).stateFor r).rapidFailures = recent.countP (Call.countedLoss r) := by
  induction calls using List.reverseRecOn with
  | nil => exact ⟨[], .nil, rfl⟩
  | append_singleton calls c ih =>
    obtain ⟨recent, hsn, hst⟩ := ih
    by_cases hs : StableLoss config r calls c
    · exact ⟨[c], .restart hs, by rw [rapidFailures_of_stable hs, List.countP_singleton]⟩
    · refine ⟨recent ++ [c], hsn.snoc hs, ?_⟩
      rw [rapidFailures_of_not_stable hs, hst, List.countP_append, List.countP_singleton]

theorem isOpen_congr {calls calls' : List Call}
    (hst : ((run config calls).stateFor r).rapidFailures = ((run config calls').stateFor r).rapidFailures) :
    ((run config calls).stateFor r).isOpen = ((run config calls').stateFor r).isOpen := by
  rw [Bool.eq_iff_iff, isOpen_iff, isOpen_iff, hst]

theorem exempt_loss (config : PunchBreakerConfig) (calls : List Call) (r : String) (now : Time)
    (pick : Duration → Duration → Duration) :
    let loss := Call.lost r now false pick
    let before := (run config calls).stateFor r
    let after := (run config (calls ++ [loss])).stateFor r
    (StableLoss config r calls loss → after.rapidFailures = 0 ∧ after.isOpen = false) ∧
      (¬StableLoss config r calls loss → after.rapidFailures = before.rapidFailures ∧ after.isOpen = before.isOpen) := by
  intro loss before after
  have hu : loss.countedLoss r = false := by simp [loss, Call.countedLoss]
  constructor
  · intro hs
    have hst : after.rapidFailures = 0 := by
      rw [rapidFailures_of_stable hs, hu]
      rfl
    refine ⟨hst, ?_⟩
    have hp := config.withDefaults_maxRapid_pos
    rw [Bool.eq_false_iff, ne_eq, isOpen_iff, hst]
    lia
  · intro hg
    have hst : after.rapidFailures = before.rapidFailures := by
      rw [rapidFailures_of_not_stable hg, hu]
      rfl
    exact ⟨hst, isOpen_congr hst⟩

/-- The circuit is open iff the streak has reached the threshold, the streak is read off the history of the relay
    alone, and a counted loss waits for the nominal backoff of its streak, give or take a fifth. -/
theorem punch_recovery_breaker (config : PunchBreakerConfig) (calls : List Call) (r : String) :
    let b := run config calls
    let c := config.withDefaults
    ((b.stateFor r).isOpen = true ↔ c.maxRapid ≤ (b.stateFor r).rapidFailures) ∧
    b.allowsDirectPunch r = !(b.stateFor r).isOpen ∧
    (∃ recent, Since (StableLoss config r) calls recent ∧
      (b.stateFor r).rapidFailures = recent.countP (Call.countedLoss r)) ∧
    (∀ now pick,
      let loss := Call.lost r now false pick
      let after := (b.call loss).1.stateFor r
      (StableLoss config r calls loss → after.rapidFailures = 0 ∧ after.isOpen = false) ∧
      (¬StableLoss config r calls loss →
        after.rapidFailures = (b.stateFor r).rapidFailures ∧ after.isOpen = (b.stateFor r).isOpen)) ∧
    (run config (calls.filter (·.relayID = r))).stateFor r = b.stateFor r ∧
    (∀ call : Call, call.relayID = r → ((run config (calls.filter (·.relayID = r))).call call).2 = (b.call call).2) ∧
    (c.initialBackoff ≤ c.maxBackoff → Monotone c.nominal ∧ ∀ now pick,
      let loss := b.onDirectPathLost r now true pick
      let streak := (loss.1.stateFor r).rapidFailures
      loss.2.rapidFailures = streak ∧ 5 * |loss.2.delay - c.nominal streak| ≤ c.nominal streak ∧
        loss.2.delay ≤ c.maxBackoff) := by
  intro b c
  refine ⟨isOpen_iff config calls r, allowsDirectPunch_eq b r, streak_since config calls r, ?_,
    stateFor_run_filter config calls r, ?_, ?_⟩
  · intro now pick
    have he := exempt_loss config calls r now pick
    simp only [run_snoc] at he
    exact he
  · intro call hab
    refine answer_congr call (by rw [run_config, run_config]) ?_
    rw [hab]
    exact stateFor_run_filter config calls r
  · intro hi
    have ho : c.Ordered := ⟨config.withDefaults_initialBackoff_pos, hi⟩
    refine ⟨ho.nominal_mono, fun now pick => ?_⟩
    obtain ⟨streak, hd⟩ := counted_loss b r now pick
    rw [show b.config = config from run_config config calls] at hd
    simp only [hd, streak]
    exact ⟨trivial, ho.backoffDelay_bounds pick _⟩

theorem punch_recovery_breaker_second_loss :
    let b := run {} [.lost "relay" 0 true fun low _ => low]
    (b.stateFor "relay").rapidFailures = 1 ∧
    ∀ pick, let d := (b.onDirectPathLost "relay" second true pick).2
      d.rapidFailures = 2 ∧ 5 * |d.delay - 4 * second| ≤ 4 * second ∧ d.delay ≤ 30 * second := by
  refine ⟨rfl, fun pick => ?_⟩
  have hbr := punch_recovery_breaker {} [.lost "relay" 0 true fun low _ => low] "relay"
  exact (hbr.2.2.2.2.2.2 (PunchBreakerConfig.withDefaults_ordered le_rfl).capped).2 second pick

end PunchBreaker

end OpenRung.Engine
