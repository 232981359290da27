import OpenRung.Punch.Attempt
import OpenRung.Theorems.Probe

/-! Who can move a hole punch. Only a datagram that begins with the packet of the session, under its token, has an
    effect: it is answered at its source, and its source may be returned. All else that is sent goes to the candidates
    that the policy let through, one round in an interval. -/

namespace OpenRung.Punch
namespace PunchSession

variable {p : PunchSession} {a : Attempt} {t : Turn} {before turns : List Turn} {src : UDPAddr}

/-- The turn read a packet of the session under this magic from `src`. -/
def Heard (p : PunchSession) (magic : Bytes) (t : Turn) (src : UDPAddr) : Prop :=
  ∃ data, t.read = some (data, src) ∧ Matches (data.take 1500) magic p.sessionID p.token

def Unheard (p : PunchSession) (magic : Bytes) (turns : List Turn) : Prop := ∀ t ∈ turns, ∀ src, ¬ p.Heard magic t src

/-- The first probe of the session came from `src`. -/
def FirstProbe (p : PunchSession) (turns : List Turn) (src : UDPAddr) : Prop :=
  ∃ before t after, turns = before ++ t :: after ∧ p.Unheard probeMagic before ∧ p.Heard probeMagic t src

/-- A probe to a candidate, or an answer to where a packet of the session came from. -/
def Justified (p : PunchSession) (turns : List Turn) (m : Bytes × UDPAddr) : Prop :=
  (m.1 = p.probe ∧ m.2 ∈ p.targets) ∨
    (m.1 = p.ack ∧ ∃ t ∈ turns, p.Heard probeMagic t m.2 ∨ p.Heard probeAckMagic t m.2)

structure Rounded (a : Attempt) : Prop where
  apart : a.rounds.Pairwise fun r r' => r + probeInterval ≤ r'
  next : ∀ r ∈ a.rounds, r + probeInterval ≤ a.nextSend

structure Followed (p : PunchSession) (before : List Turn) (a : Attempt) : Prop extends Rounded a where
  unconfirmed : p.Unheard probeAckMagic before
  unheard : a.provisional = none → p.Unheard probeMagic before
  first : ∀ src, a.provisional = some src → p.FirstProbe before src
  justified : ∀ m ∈ a.sent, p.Justified before m

theorem Unheard.snoc {magic : Bytes} (hb : p.Unheard magic before) (ht : ∀ src, ¬ p.Heard magic t src) :
    p.Unheard magic (before ++ [t]) := by
  intro t' mem
  rcases List.mem_append.mp mem with mem | mem
  · exact hb t' mem
  · rw [List.mem_singleton.mp mem]
    exact ht

theorem FirstProbe.snoc (h : p.FirstProbe before src) (t : Turn) : p.FirstProbe (before ++ [t]) src := by
  obtain ⟨earlier, t', later, rfl, hun, hheard⟩ := h
  exact ⟨earlier, t', later ++ [t], by simp, hun, hheard⟩

theorem Justified.mono {m : Bytes × UDPAddr} {turns' : List Turn} (h : p.Justified before m) (hsub : before ⊆ turns') :
    p.Justified turns' m := by
  rcases h with h | ⟨hack, t, mem, hheard⟩
  · exact .inl h
  · exact .inr ⟨hack, t, hsub mem, hheard⟩

namespace Followed

theorem initial (p : PunchSession) (start : Time) : p.Followed [] { nextSend := start } where
  apart := List.Pairwise.nil
  next r mem := by cases mem
  unconfirmed t mem := by cases mem
  unheard _ t mem := by cases mem
  first src h := by cases h
  justified m mem := by cases mem

theorem spray (h : p.Followed before a) (now : Time) : p.Followed before (p.spray a now) := by
  unfold PunchSession.spray
  split
  · next hdue =>
    refine { h with apart := ?_, next := ?_, justified := ?_ }
    · refine List.pairwise_append.mpr ⟨h.apart, List.pairwise_singleton _ _, fun r mem r' mem' => ?_⟩
      rw [List.mem_singleton.mp mem']
      exact (h.next r mem).trans hdue
    · intro r mem
      rcases List.mem_append.mp mem with mem | mem
      · exact ((h.next r mem).trans hdue).trans (Int.le_add_of_nonneg_right (by decide))
      · rw [List.mem_singleton.mp mem]
    · intro m mem
      rcases List.mem_append.mp mem with mem | mem
      · exact h.justified m mem
      · obtain ⟨dst, hdst, rfl⟩ := List.mem_map.mp mem
        exact .inl ⟨rfl, hdst⟩
  · exact h

theorem skip (h : p.Followed before a) (hprobe : ∀ src, ¬ p.Heard probeMagic t src)
    (hack : ∀ src, ¬ p.Heard probeAckMagic t src) : p.Followed (before ++ [t]) a :=
  { h with
    unconfirmed := h.unconfirmed.snoc hack
    unheard := fun hnone => (h.unheard hnone).snoc hprobe
    first := fun src hsome => (h.first src hsome).snoc t
    justified := fun m mem => (h.justified m mem).mono (List.subset_append_left _ _) }

theorem answer (h : p.Followed before a) (hprobe : p.Heard probeMagic t src)
    (hack : ∀ src, ¬ p.Heard probeAckMagic t src) :
    p.Followed (before ++ [t])
      { a with provisional := a.provisional.or src, sent := a.sent ++ [(p.ack, src)] } := by
  refine { h with unconfirmed := h.unconfirmed.snoc hack, unheard := ?_, first := ?_, justified := ?_ }
  · intro hnone
    cases hp : a.provisional <;> simp [hp] at hnone
  · intro src' hsome
    cases hp : a.provisional with
    | none =>
      obtain rfl : src = src' := by simpa [hp] using hsome
      exact ⟨before, t, [], rfl, h.unheard hp, hprobe⟩
    | some src'' =>
      obtain rfl : src'' = src' := by simpa [hp] using hsome
      exact (h.first src'' hp).snoc t
  · intro m mem
    rcases List.mem_append.mp mem with mem | mem
    · exact (h.justified m mem).mono (List.subset_append_left _ _)
    · rw [List.mem_singleton.mp mem]
      exact .inr ⟨rfl, t, List.mem_append_right _ (List.mem_singleton_self _), .inl hprobe⟩

end Followed

/-- How a turn goes: the loop ends at its deadline or with its context, goes on, or ends with a confirmed source. -/
theorem turn_cases (h : p.Followed before a) (t : Turn) :
    (p.deadline ≤ t.clock ∧ p.turn a t = (a, some (a.provisional.elim (.error .timeout) .ok))) ∨
      p.turn a t = (a, some (.error .cancelled)) ∨
      (∃ a', p.turn a t = (a', none) ∧ p.Followed (before ++ [t]) a' ∧ t.clock < p.deadline) ∨
      ∃ a' src, p.turn a t = (a', some (.ok src)) ∧ Rounded a' ∧ p.Heard probeAckMagic t src ∧
        ∀ m ∈ a'.sent, p.Justified (before ++ [t]) m := by
  unfold turn
  by_cases hclock : t.clock < p.deadline
  · rw [if_neg (not_not.mpr hclock)]
    cases hc : t.cancelled with
    | true => exact .inr (.inl rfl)
    | false =>
      have hs := h.spray t.now
      cases hr : t.read with
      | none =>
        have hquiet : ∀ magic src, ¬ p.Heard magic t src := by
          rintro magic src ⟨data, hread, -⟩
          rw [hr] at hread
          cases hread
        exact .inr (.inr (.inl ⟨_, rfl, hs.skip (hquiet _) (hquiet _), hclock⟩))
      | some read =>
        obtain ⟨data, src⟩ := read
        have hheard : ∀ magic src', p.Heard magic t src' → Matches (data.take 1500) magic p.sessionID p.token := by
          rintro magic src' ⟨data', hread, hm⟩
          rw [hr] at hread
          cases hread
          exact hm
        simp only [Bool.false_eq_true, if_false, receive]
        rcases parseProbePacket_eq (data.take 1500) p.sessionID p.token with ⟨hack, heq⟩ | ⟨hack, hprobe, heq⟩ |
          ⟨hack, hprobe, heq⟩
        · rw [heq]
          refine .inr (.inr (.inr ⟨_, src, rfl, ⟨hs.apart, hs.next⟩, ⟨data, hr, hack⟩, fun m mem => ?_⟩))
          rcases List.mem_append.mp mem with mem | mem
          · exact (hs.justified m mem).mono (List.subset_append_left _ _)
          · rw [List.eq_of_mem_replicate mem]
            exact .inr ⟨rfl, t, List.mem_append_right _ (List.mem_singleton_self _), .inr ⟨data, hr, hack⟩⟩
        · rw [heq]
          exact .inr (.inr (.inl ⟨_, rfl, hs.answer ⟨data, hr, hprobe⟩ fun src h => hack (hheard _ _ h), hclock⟩))
        · rw [heq]
          exact .inr (.inr (.inl ⟨_, rfl, hs.skip (fun src h => hprobe (hheard _ _ h)) fun src h => hack (hheard _ _ h),
            hclock⟩))
  · rw [if_pos hclock]
    exact .inl ⟨not_lt.mp hclock, rfl⟩

/-- A punch returns the first confirmed source, or at its deadline the first provisional one; it times out only if it
    was never reached. -/
structure Ends (p : PunchSession) (turns : List Turn) (out : Attempt × Option (Except AttemptError UDPAddr)) : Prop where
  rounds : out.1.rounds.Pairwise fun r r' => r + probeInterval ≤ r'
  justified : ∀ m ∈ out.1.sent, p.Justified turns m
  confirmed : ∀ src, out.2 = some (.ok src) → ∃ before t after, turns = before ++ t :: after ∧
    p.Unheard probeAckMagic before ∧ (p.Heard probeAckMagic t src ∨ p.deadline ≤ t.clock ∧ p.FirstProbe before src)
  timeout : out.2 = some (.error .timeout) → ∃ before t after, turns = before ++ t :: after ∧ p.deadline ≤ t.clock ∧
    p.Unheard probeAckMagic before ∧ p.Unheard probeMagic before
  returns : (∃ t ∈ turns, p.deadline ≤ t.clock) → out.2.isSome

theorem loop_ends (turns : List Turn) (h : p.Followed before a) (hearly : ∀ t ∈ before, t.clock < p.deadline) :
    p.Ends (before ++ turns) (p.loop turns a) := by
  induction turns generalizing before a with
  | nil =>
    rw [List.append_nil]
    refine ⟨h.apart, h.justified, by rintro _ ⟨⟩, by rintro ⟨⟩, ?_⟩
    rintro ⟨t, mem, hlate⟩
    exact absurd (hearly t mem) (not_lt.mpr hlate)
  | cons t rest ih =>
    rcases turn_cases h t with ⟨hlate, heq⟩ | heq | ⟨a', heq, hf, hclock⟩ | ⟨a', src, heq, hr, hack, hj⟩
    · have hout : p.loop (t :: rest) a = (a, some (a.provisional.elim (.error .timeout) .ok)) := by
        rw [loop, heq]
      rw [hout]
      refine ⟨h.apart, fun m mem => (h.justified m mem).mono (List.subset_append_left _ _), ?_, ?_, fun _ => rfl⟩
      · intro src hsrc
        cases hp : a.provisional with
        | none => simp [hp] at hsrc
        | some src' =>
          obtain rfl : src' = src := by simpa [hp] using hsrc
          exact ⟨before, t, rest, rfl, h.unconfirmed, .inr ⟨hlate, h.first src' hp⟩⟩
      · intro htime
        cases hp : a.provisional with
        | none => exact ⟨before, t, rest, rfl, hlate, h.unconfirmed, h.unheard hp⟩
        | some src' => simp [hp] at htime
    · have hout : p.loop (t :: rest) a = (a, some (.error .cancelled)) := by rw [loop, heq]
      rw [hout]
      exact ⟨h.apart, fun m mem => (h.justified m mem).mono (List.subset_append_left _ _), by rintro _ ⟨⟩, by rintro ⟨⟩,
        fun _ => rfl⟩
    · have hout : p.loop (t :: rest) a = p.loop rest a' := by rw [loop, heq]
      rw [hout, List.append_cons]
      refine ih hf ?_
      intro t' mem
      rcases List.mem_append.mp mem with mem | mem
      · exact hearly t' mem
      · rw [List.mem_singleton.mp mem]
        exact hclock
    · have hout : p.loop (t :: rest) a = (a', some (.ok src)) := by rw [loop, heq]
      rw [hout]
      refine ⟨hr.apart, fun m mem => (hj m mem).mono (by simp), ?_, by rintro ⟨⟩, fun _ => rfl⟩
      rintro _ ⟨⟩
      exact ⟨before, t, rest, rfl, h.unconfirmed, .inl hack⟩

end PunchSession

end OpenRung.Punch
