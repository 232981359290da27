import Mathlib.Order.Nat
import OpenRung.Engine.FakeIP

/-! What a run finds in the fake-IP cache. The record on the disk says which block was claimed last and whether that
    claim was closed; a run takes over the block of a closed claim, or takes another block and an empty cache. -/

namespace OpenRung.Engine

/-! ### The claim that stands -/

/-- The latest claim, and whether its clean close was recorded after it. -/
structure Standing where
  run : Nat
  block : Nat
  closed : Bool := false
  deriving DecidableEq, Repr

def FakeIPEvent.run : FakeIPEvent → Nat
  | .claim run _ => run
  | .closed run _ => run
  | .start run _ _ => run

def Standing.note (latest : Option Standing) : FakeIPEvent → Option Standing
  | .claim run block => some { run, block }
  | .closed run block => latest.map fun c => if c.run = run ∧ c.block = block then { c with closed := true } else c
  | .start _ _ _ => latest

def standing (events : List FakeIPEvent) : Option Standing := events.foldl Standing.note none

@[simp] theorem standing_concat (events : List FakeIPEvent) (e : FakeIPEvent) :
    standing (events ++ [e]) = Standing.note (standing events) e := by
  rw [standing, List.foldl_append]
  rfl

/-- A core may find mappings only of the block it answers from, left by a claim that was closed. -/
structure Sound (latest : Option Standing) (block : Nat) (empty : Bool) : Prop where
  reuse : empty = false → ∃ c, latest = some c ∧ c.block = block ∧ c.closed = true
  fresh : ∀ c, latest = some c → c.closed = false → block ≠ c.block ∧ empty = true

def Allowed (before : List FakeIPEvent) : FakeIPEvent → Prop
  | .start run block empty =>
    ∃ earlier, before = earlier ++ [.claim run block] ∧ (∀ e ∈ earlier, e.run < run) ∧
      Sound (standing earlier) block empty
  | _ => True

/-! ### What each phase knows -/

/-- The block fits the claims so far: it is that of a closed claim, or it is another one and the cache stays empty. -/
def Fits (s : FakeIP) (latest : Option Standing) (block : Nat) : Prop :=
  (∃ c, latest = some c ∧ c.block = block ∧ c.closed = true) ∨
    (s.isEmpty = true ∧ s.orphan = false ∧ ∀ c, latest = some c → c.closed = false ∧ block ≠ c.block)

theorem Fits.sound {s : FakeIP} {latest : Option Standing} {block : Nat} (hf : Fits s latest block) :
    Sound latest block s.isEmpty := by
  rcases hf with ⟨c, rfl, hsa, hcl⟩ | ⟨hem, -, hot⟩
  · refine ⟨fun _ => ⟨c, rfl, hsa, hcl⟩, fun c' eq hop => ?_⟩
    cases eq
    rw [hcl] at hop
    cases hop
  · refine ⟨fun hfi => ?_, fun c eq _ => ⟨(hot c eq).2, hem⟩⟩
    rw [hem] at hfi
    cases hfi

def Unseen (s : FakeIP) : Prop := ∀ e ∈ s.events, e.run < s.run

def Claimed (s : FakeIP) (block : Nat) : Prop :=
  ∃ earlier, s.events = earlier ++ [.claim s.run block] ∧ (∀ e ∈ earlier, e.run < s.run) ∧
    Fits s (standing earlier) block

def Knows (s : FakeIP) : FakeIPPhase → Prop
  | .idle => True
  | .locked => Unseen s
  | .picked block => Unseen s ∧ ∀ c, standing s.events = some c → c.closed = false ∧ block ≠ c.block
  | .writing stage state =>
    if state.clean then stage = .syncDir ∨ standing s.events = some { run := s.run, block := state.block }
    else if stage = .syncDir then Claimed s state.block
    else Unseen s ∧ Fits s (standing s.events) state.block
  | .begun block => Claimed s block
  | .running block => standing s.events = some { run := s.run, block }
  | .apart => True

structure Recorded (s : FakeIP) : Prop where
  explained : Explained Allowed s.events
  numbered : ∀ e ∈ s.events, e.run ≤ s.run
  disk : s.record = (standing s.events).map fun c => { block := c.block, clean := c.closed }
  knows : Knows s s.phase

namespace Recorded
variable {s : FakeIP}

theorem moves (hke : Recorded s) {t : FakeIP} (hre : t.record = s.record) (he : t.events = s.events)
    (run : s.run ≤ t.run) (knows : Knows t t.phase) : Recorded t where
  explained := he ▸ hke.explained
  numbered := by
    rw [he]
    exact fun e mem => (hke.numbered e mem).trans run
  disk := by rw [hre, he, hke.disk]
  knows := knows

theorem read (hke : Recorded s) (phase : s.phase = .locked) (random : Nat) :
    Recorded { s with phase := s.read random } := by
  have hu : Unseen s := by
    have hk := hke.knows
    rwa [phase] at hk
  refine hke.moves rfl rfl le_rfl ?_
  have hd := hke.disk
  unfold FakeIP.read
  cases hl : standing s.events with
  | none =>
    rw [hl] at hd
    rw [hd]
    exact ⟨hu, fun c eq => by rw [hl] at eq; cases eq⟩
  | some c =>
    obtain ⟨run, block, closed⟩ := c
    rw [hl] at hd
    rw [hd]
    cases closed with
    | true => exact ⟨hu, .inl ⟨_, hl, rfl, rfl⟩⟩
    | false =>
      refine ⟨hu, fun c eq => ?_⟩
      rw [hl] at eq
      cases eq
      refine ⟨rfl, ?_⟩
      simp only [fakeIPBlockCount]
      omega

theorem rename (hke : Recorded s) {state : FakeIPRunState} (phase : s.phase = .writing .rename state) :
    Recorded { s with
      record := some state, events := s.events ++ [FakeIP.recorded s.run state], phase := .writing .syncDir state } := by
  obtain ⟨block, clean⟩ := state
  have hk := hke.knows
  rw [phase] at hk
  have hn (e : FakeIPEvent) (run : e.run = s.run) : ∀ e' ∈ s.events ++ [e], e'.run ≤ s.run := by
    intro e' mem
    rcases List.mem_append.mp mem with mem | mem
    · exact hke.numbered e' mem
    · rw [List.mem_singleton.mp mem, run]
  cases clean with
  | true =>
    have hst : standing s.events = some { run := s.run, block } := hk.resolve_left (by decide)
    refine ⟨hke.explained.snoc trivial, hn _ rfl, ?_, .inl rfl⟩
    simp [FakeIP.recorded, Standing.note, hst]
  | false =>
    obtain ⟨hu, hf⟩ := hk
    refine ⟨hke.explained.snoc trivial, hn _ rfl, ?_, s.events, rfl, hu, hf⟩
    simp [FakeIP.recorded, Standing.note]

theorem write (kept : Recorded s) {stage : WriteStage} {state : FakeIPRunState} (phase : s.phase = .writing stage state)
    (ok : Bool) : Recorded (s.write stage state ok) := by
  have knows := kept.knows
  rw [phase] at knows
  cases ok with
  | false => exact kept.moves rfl rfl le_rfl trivial
  | true =>
    -- only the rename changes the disk; the operations before it know the same
    cases stage with
    | rename => exact kept.rename phase
    | syncDir =>
      refine kept.moves rfl rfl le_rfl ?_
      obtain ⟨block, clean⟩ := state
      cases clean with
      | true => trivial
      | false => exact knows
    | createTemp | write | sync | close =>
      refine kept.moves rfl rfl le_rfl ?_
      obtain ⟨block, clean⟩ := state
      cases clean with
      | true => exact .inr (knows.resolve_left (by decide))
      | false => exact knows

theorem start (hke : Recorded s) {block : Nat} (phase : s.phase = .begun block) :
    Recorded { s with phase := .running block, events := s.events ++ [.start s.run block s.isEmpty] } := by
  have hk := hke.knows
  rw [phase] at hk
  obtain ⟨earlier, events, hu, hf⟩ := hk
  refine ⟨hke.explained.snoc ⟨earlier, events, hu, hf.sound⟩, ?_, ?_, ?_⟩
  · intro e mem
    rcases List.mem_append.mp mem with mem | mem
    · exact hke.numbered e mem
    · rw [List.mem_singleton.mp mem]
      exact le_rfl
  · simpa [Standing.note] using hke.disk
  · rw [Knows, standing_concat, events, standing_concat]
    rfl

theorem change (hke : Recorded s) (cache : Option (List (Nat × String)))
    (may : (∃ block, s.phase = .running block) ∨ s.orphan = true) : Recorded { s with cache } := by
  refine hke.moves rfl rfl le_rfl ?_
  have hf {latest : Option Standing} {block : Nat} (ho : s.orphan = true) (hf : Fits s latest block) :
      Fits { s with cache } latest block := by
    rcases hf with hcl | ⟨-, ha, -⟩
    · exact .inl hcl
    · rw [ho] at ha
      cases ha
  have hc {block : Nat} (ho : s.orphan = true) : Claimed s block → Claimed { s with cache } block :=
    fun ⟨earlier, he, hu, ok⟩ => ⟨earlier, he, hu, hf ho ok⟩
  have hk := hke.knows
  rcases may with ⟨block, hp⟩ | ho
  · rw [hp] at hk
    simp only [hp]
    exact hk
  · cases hp : s.phase with
    | idle | apart => trivial
    | locked | picked | running => 
      rw [hp] at hk
      exact hk
    | begun block =>
      rw [hp] at hk
      exact hc ho hk
    | writing stage state =>
      rw [hp] at hk
      simp only [Knows] at hk ⊢
      split_ifs at hk ⊢
      · exact hk
      · exact hc ho hk
      · exact ⟨hk.1, hf ho hk.2⟩

theorem step (hke : Recorded s) {label : FakeIPLabel} {t : FakeIP} (ht : s.step label = some t) : Recorded t := by
  cases label with
  | acquire =>
    simp only [FakeIP.step, Option.ite_none_right_eq_some, Option.some.injEq] at ht
    obtain ⟨-, rfl⟩ := ht
    exact hke.moves rfl rfl s.run.le_succ fun e mem => Nat.lt_succ_of_le (hke.numbered e mem)
  | skip =>
    simp only [FakeIP.step, Option.ite_none_right_eq_some, Option.some.injEq] at ht
    obtain ⟨-, rfl⟩ := ht
    exact hke.moves rfl rfl le_rfl trivial
  | read random =>
    simp only [FakeIP.step, Option.ite_none_right_eq_some, Option.some.injEq] at ht
    obtain ⟨hp, rfl⟩ := ht
    exact hke.read hp random
  | remove ok gone =>
    simp only [FakeIP.step] at ht
    split at ht
    · next block hp =>
      have hk := hke.knows
      rw [hp] at hk
      cases ok <;> cases ht
      · exact hke.moves rfl rfl le_rfl trivial
      · exact hke.moves rfl rfl le_rfl ⟨hk.1, .inr ⟨rfl, rfl, hk.2⟩⟩
    · cases ht
  | write ok =>
    simp only [FakeIP.step] at ht
    split at ht
    · next stage state hp =>
      cases ht
      exact hke.write hp ok
    · cases ht
  | start =>
    simp only [FakeIP.step] at ht
    split at ht
    · next block hp =>
      cases ht
      exact hke.start hp
    · cases ht
  | abandon =>
    simp only [FakeIP.step] at ht
    split at ht <;> cases ht
    exact hke.moves rfl rfl le_rfl trivial
  | change cache =>
    simp only [FakeIP.step] at ht
    split at ht
    · next block hp =>
      cases ht
      exact hke.change cache (.inl ⟨block, hp⟩)
    · split_ifs at ht with orphan
      cases ht
      exact hke.change cache (.inr orphan)
  | exit clean =>
    simp only [FakeIP.step] at ht
    split at ht
    · next block hp =>
      have hk := hke.knows
      rw [hp] at hk
      cases ht
      refine hke.moves rfl rfl le_rfl ?_
      cases clean with
      | true => exact .inr hk
      | false => trivial
    · cases ht
  | release =>
    simp only [FakeIP.step, Option.ite_none_right_eq_some, Option.some.injEq] at ht
    obtain ⟨-, rfl⟩ := ht
    exact hke.moves rfl rfl le_rfl trivial
  | crash =>
    simp only [FakeIP.step] at ht
    split at ht <;> cases ht <;> exact hke.moves rfl rfl le_rfl trivial

end Recorded

/-! ### Every sequence of runs -/

theorem Recorded.initial (cache : Option (List (Nat × String))) : Recorded { cache } where
  explained := .nil
  numbered := fun _ mem => absurd mem List.not_mem_nil
  disk := rfl
  knows := trivial

theorem fakeIP_starts_sound (cache : Option (List (Nat × String))) {labels : List FakeIPLabel} {s : FakeIP}
    (trace : Trace (fun s label t => FakeIP.step s label = some t) { cache } labels s)
    {before after : List FakeIPEvent} {run block : Nat} {empty : Bool}
    (started : s.events = before ++ .start run block empty :: after) :
    ∃ earlier, before = earlier ++ [.claim run block] ∧ (∀ e ∈ earlier, e.run < run) ∧
      (empty = false → ∃ c, standing earlier = some c ∧ c.block = block ∧ c.closed = true) ∧
      ∀ c, standing earlier = some c → c.closed = false → block ≠ c.block ∧ empty = true := by
  have hke := trace.invariant (fun _ _ _ hke ht => Recorded.step hke ht) (.initial cache)
  obtain ⟨earlier, hc, hol, hs⟩ := hke.explained before _ after started
  exact ⟨earlier, hc, hol, hs.reuse, hs.fresh⟩

def wholeWrite : List FakeIPLabel := List.replicate 6 (.write true)

def threeRuns : List FakeIPLabel :=
  [.acquire, .read 3, .remove true true] ++ wholeWrite ++ [.start, .change (some [(3, "a.example")]), .exit true] ++
    wholeWrite ++ [.release, .acquire, .read 0] ++ wholeWrite ++ [.start, .crash, .acquire, .read 0, .remove true true] ++
    wholeWrite ++ [.start]

def threeStarts : List FakeIPEvent :=
  [.claim 1 3, .start 1 3 true, .closed 1 3, .claim 2 3, .start 2 3 false, .claim 3 4, .start 3 4 true]

theorem fakeIP_after_close :
    ((threeRuns.foldlM FakeIP.step {}).map (·.events) = some threeStarts) ∧
      ∃ earlier, threeStarts.take 4 = earlier ++ [.claim 2 3] ∧
        ∃ c, standing earlier = some c ∧ c.block = 3 ∧ c.closed = true := by
  have ran : (threeRuns.foldlM FakeIP.step {}).map (·.events) = some threeStarts := by decide +kernel
  refine ⟨ran, ?_⟩
  obtain ⟨s, hr, he⟩ := Option.map_eq_some_iff.mp ran
  obtain ⟨earlier, hc, -, hru, -⟩ := fakeIP_starts_sound none (.of_foldlM hr)
    (show s.events = threeStarts.take 4 ++ .start 2 3 false :: threeStarts.drop 5 from he)
  exact ⟨earlier, hc, hru rfl⟩

end OpenRung.Engine
