import OpenRung.Engine.Directory

/-! The floor between the requests of the directory cache. A list that was fetched keeps the next request away as long
    as it is fresh; a failed request keeps nothing away. -/

namespace OpenRung.Engine.Directory
variable {α : Type} {brokerURL : String} {s t : Directory α}

/-- A call that checks the cache within the interval after the last request finds that it brought a list, fresh still. -/
def Covered (s : Directory α) : Label α → Prop
  | .check => ∀ start ∈ s.starts.getLast?, s.clock < start + minDirectoryRefreshInterval →
      directorySnapshotFresh s.answer s.clock = true
  | _ => True

instance (s : Directory α) : (l : Label α) → Decidable (s.Covered l)
  | .check => inferInstanceAs (Decidable (∀ start ∈ s.starts.getLast?, _ → _))
  | .tick _ | .enter | .request | .answer _ | .store | .fallback => inferInstanceAs (Decidable True)

structure Remembered (brokerURL : String) (s : Directory α) : Prop where
  cached : ∀ response, s.answer = some response → s.cache.cached = some response ∧ s.cache.cachedURL = brokerURL
  stored : ∀ start ∈ s.starts, s.answer ≠ none → ∃ fetchedAt, s.cache.fetchedAt = some fetchedAt ∧ start ≤ fetchedAt

def PhaseSound (brokerURL : String) (s : Directory α) : Prop :=
  match s.phase with
  | .free => Remembered brokerURL s
  | .entered => Remembered brokerURL s
  | .missed => ∀ start ∈ s.starts, start + minDirectoryRefreshInterval ≤ s.clock
  | .requesting => True
  | .failed => s.answer = none
  | .fetched response => s.answer = some response

structure Floored (brokerURL : String) (s : Directory α) : Prop where
  apart : s.starts.Pairwise fun a b => a + minDirectoryRefreshInterval ≤ b
  past : ∀ start ∈ s.starts, start ≤ s.clock
  sound : PhaseSound brokerURL s

theorem Floored.last (hfl : Floored brokerURL s) {last start : Time} (hf : s.starts.getLast? = some last)
    (mem : start ∈ s.starts) : start ≤ last := by
  obtain ⟨earlier, eq⟩ := List.getLast?_eq_some_iff.mp hf
  have hap := hfl.apart
  rw [eq] at mem hap
  rcases List.mem_append.mp mem with mem | mem
  · have hfo := (List.pairwise_append.mp hap).2.2 start mem last (List.mem_singleton_self _)
    have hp : 0 ≤ minDirectoryRefreshInterval := by decide
    lia
  · exact (List.mem_singleton.mp mem).le

theorem Floored.missed (hfl : Floored brokerURL s) (hr : Remembered brokerURL s)
    (hco : s.Covered .check) (hm : s.cache.snapshotFor brokerURL true s.clock = none) :
    ∀ start ∈ s.starts, start + minDirectoryRefreshInterval ≤ s.clock := by
  intro start mem
  have hf := List.getLast?_eq_some_getLast (List.ne_nil_of_mem mem)
  generalize s.starts.getLast (List.ne_nil_of_mem mem) = last at hf
  have hl := hfl.last hf mem
  by_contra he
  -- The last request started within the interval, so its list is fresh; and it was stored later than that.
  have hfr := hco last hf (by lia)
  cases ha : s.answer with
  | none =>
    rw [ha] at hfr
    cases hfr
  | some response =>
    obtain ⟨hc, url⟩ := hr.cached response ha
    obtain ⟨fetchedAt, hs, haf⟩ := hr.stored last (List.mem_of_getLast? hf) (by rw [ha]; simp)
    have hy : s.cache.old s.clock = false := by
      simp only [DirectoryCache.old, hs, decide_eq_false_iff_not]
      lia
    rw [ha, ← hc] at hfr
    have hse : ¬(s.cache.cachedURL ≠ brokerURL ∨ directorySnapshotFresh s.cache.cached s.clock = false) := by
      simp [url, hfr]
    rw [DirectoryCache.snapshotFor, if_neg hse, hy, Bool.and_false, if_neg Bool.false_ne_true, hc] at hm
    cases hm

theorem Floored.step {l : Label α} (floored : Floored brokerURL s) (covered : s.Covered l)
    (next : s.step brokerURL l = some t) : Floored brokerURL t := by
  cases l with
  | tick d =>
    obtain ⟨forward, same⟩ := Option.ite_none_right_eq_some.mp next
    cases same
    refine ⟨floored.apart, fun start mem => ?_, ?_⟩
    · have past := floored.past start mem
      lia
    · have sound := floored.sound
      unfold PhaseSound at sound ⊢
      dsimp only
      cases phase : s.phase with
      | missed =>
        rw [phase] at sound
        intro start mem
        have early := sound start mem
        lia
      | _ =>
        rw [phase] at sound
        first | trivial | exact sound | exact ⟨sound.cached, sound.stored⟩
  | enter =>
    rw [Directory.step] at next
    split at next <;> cases next
    next free =>
      have sound := floored.sound
      rw [PhaseSound, free] at sound
      exact ⟨floored.apart, floored.past, ⟨sound.cached, sound.stored⟩⟩
  | check =>
    rw [Directory.step] at next
    split at next
    next entered =>
      have sound := floored.sound
      rw [PhaseSound, entered] at sound
      split at next <;> cases next
      · exact ⟨floored.apart, floored.past, ⟨sound.cached, sound.stored⟩⟩
      next miss => exact ⟨floored.apart, floored.past, floored.missed sound covered miss⟩
    next => cases next
  | request =>
    rw [Directory.step] at next
    split at next <;> cases next
    next missed =>
      have sound := floored.sound
      rw [PhaseSound, missed] at sound
      refine ⟨List.pairwise_append.mpr ⟨floored.apart, List.pairwise_singleton _ _, fun a mem b single => ?_⟩,
        fun start mem => ?_, trivial⟩
      · rw [List.mem_singleton.mp single]
        exact sound a mem
      · rcases List.mem_append.mp mem with mem | mem
        · exact floored.past start mem
        · exact (List.mem_singleton.mp mem).le
  | answer response =>
    simp only [Directory.step] at next
    split at next <;> cases next
    · exact ⟨floored.apart, floored.past, rfl⟩
    · exact ⟨floored.apart, floored.past, rfl⟩
  | store =>
    rw [Directory.step] at next
    split at next <;> cases next
    next response fetched =>
      have sound := floored.sound
      rw [PhaseSound, fetched] at sound
      refine ⟨floored.apart, floored.past, fun response' answered => ?_, fun start mem _ => ⟨s.clock, rfl, ?_⟩⟩
      · rw [show s.answer = some response' from answered] at sound
        cases sound
        exact ⟨rfl, rfl⟩
      · exact floored.past start mem
  | fallback =>
    rw [Directory.step] at next
    split at next <;> cases next
    next failed =>
      have sound := floored.sound
      rw [PhaseSound, failed] at sound
      refine ⟨floored.apart, floored.past, fun response answered => ?_, fun _ _ some => ?_⟩
      · rw [show s.answer = some response from answered] at sound
        cases sound
      · exact absurd sound some

theorem Floored.initial (brokerURL : String) (clock : Time) : Floored brokerURL ({ clock } : Directory α) where
  apart := List.Pairwise.nil
  past := fun _ mem => absurd mem List.not_mem_nil
  sound := ⟨fun _ han => (by cases han), fun _ mem => absurd mem List.not_mem_nil⟩

/-- If every call within the interval after the last request finds that it brought a list that is fresh still, any two
    requests start an interval apart. -/
theorem directory_request_floor (brokerURL : String) (clock : Time) {labels : List (Label α)}
    (trace : Trace (fun s label t => s.Covered label ∧ Directory.step brokerURL s label = some t) { clock } labels s) :
    s.starts.Pairwise fun a b => a + minDirectoryRefreshInterval ≤ b := by
  have floored : Floored brokerURL s :=
    trace.invariant (fun _ _ _ floored next => Floored.step floored next.1 next.2) (.initial brokerURL clock)
  exact floored.apart

/-- Three calls: one fetches a list for an hour, one is served from the cache, and one comes half a minute later. -/
def fetchedTwice : List (Label Unit) :=
  [.enter, .check, .request, .answer (some ⟨some hour, []⟩), .store, .tick second, .enter, .check, .tick (30 * second),
   .enter, .check, .request]

theorem directory_request_floor_fetched :
    ∃ s : Directory Unit, s.starts = [0, 31 * second] ∧
      s.starts.Pairwise fun a b => a + minDirectoryRefreshInterval ≤ b := by
  have ran : ((fetchedTwice.foldlM (fun (s : Directory Unit) label =>
      if s.Covered label then s.step "" label else none) { clock := 0 }).map (·.starts)) = some [0, 31 * second] := by
    decide +kernel
  obtain ⟨s, hre, hst⟩ := Option.map_eq_some_iff.mp ran
  exact ⟨s, hst, directory_request_floor "" 0 (.of_guarded_foldlM hre)⟩

def failedTwice : List (Label Unit) :=
  [.enter, .check, .request, .answer none, .fallback, .tick second, .enter, .check, .request]

theorem directory_asks_after_failure :
    ((failedTwice.foldlM (step "") { clock := 0 }).map (·.starts)) = some [0, second] ∧
      ¬[0, second].Pairwise fun a b => a + minDirectoryRefreshInterval ≤ b := by
  constructor
  · decide +kernel
  · decide

end OpenRung.Engine.Directory
