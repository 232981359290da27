import OpenRung.Broker.Metrics

/-! How much the in-memory store keeps for the ranking. Observations leave with the window. A session leaves only by its
    terminal mark, so the bound on sessions holds as far as those that fall silent have ended. -/

namespace OpenRung.Broker

def TelemetryRecord.ends (r : TelemetryRecord) : Bool := MetricEvent.of r.event.event = .terminal

theorem TelemetryRecord.observation_observedAt {r : TelemetryRecord} {now : Time} {o : RelayMetricObservation}
    (ha : r.observation now = some o) : o.observedAt = r.observedAt now := by
  simp only [observation] at ha
  split at ha
  · cases ha
  · split at ha <;> cases ha <;> rfl

theorem TelemetryRecord.sessionOf_eq_none {r : TelemetryRecord} {now : Time} {o : RelayMetricObservation}
    (ha : r.observation now = some o) : r.sessionOf = none := by
  simp only [observation] at ha
  split at ha
  · cases ha
  · split at ha
    next hki => simp only [sessionOf, hki]
    next hki => simp only [sessionOf, hki]
    next hki => simp only [sessionOf, hki]
    next => cases ha

theorem TelemetryRecord.terminalAt_sessionAfter {r : TelemetryRecord} {now : Time} {existing : RelaySessionState}
    (hen : r.ends) : (r.sessionAfter now existing).terminalAt = some (r.observedAt now) := by
  simp only [TelemetryRecord.ends, decide_eq_true_eq] at hen
  simp only [sessionAfter, hen]

theorem Store.metrics_prune (s : Store) (now : Time) :
    (s.prune now).1.metrics = s.metrics.prune (now - rankingWindow) := by
  simp only [Store.metrics, Store.prune, Store.pruneLeases, Store.pruneEnrollment, Store.pruneMetrics, Metrics.prune,
    ← decide_not, not_lt, Metrics.mk.injEq, and_true]
  congr 1
  funext _ session
  cases session.terminalAt with
  | none => rfl
  | some t => simp [← decide_not]

namespace Metrics

def sessionEvents (history : List Event) (id : String) : List Event := history.filter fun e => e.record.sessionOf = some id

/-- Each session whose events all lie before the cutoff has ended: the last of them reports its end. -/
def SilentEnded (history : List Event) (cutoff : Time) : Prop :=
  ∀ id, (∀ e ∈ sessionEvents history id, e.observedAt < cutoff) → ∀ e, (sessionEvents history id).getLast? = some e →
    e.record.ends

structure Kept (history : List Event) (m : Metrics) : Prop where
  known : ∀ id session, m.sessions.lookup id = some session → ∃ e, (sessionEvents history id).getLast? = some e ∧
    (e.record.ends → session.terminalAt = some e.observedAt)
  observations : m.observations.Sublist (history.filterMap fun e => e.record.observation e.now)

variable {history : List Event} {m : Metrics}

theorem Kept.record (hk : Kept history m) (r : TelemetryRecord) (now : Time) :
    Kept (history ++ [⟨r, now⟩]) (m.record r now) where
  known := by
    intro id session hf
    simp only [Metrics.record] at hf
    by_cases own : r.sessionOf = some id
    · have hl : (sessionEvents (history ++ [⟨r, now⟩]) id).getLast? = some ⟨r, now⟩ := by
        simp [sessionEvents, own]
      refine ⟨⟨r, now⟩, hl, fun hen => ?_⟩
      rw [own, KeyedMap.lookup_insert_eq, if_pos rfl] at hf
      obtain rfl := Option.some.inj hf
      exact TelemetryRecord.terminalAt_sessionAfter hen
    · have hsa : sessionEvents (history ++ [⟨r, now⟩]) id = sessionEvents history id := by
        simp [sessionEvents, own]
      rw [hsa]
      refine hk.known id session ?_
      split at hf
      next other eq =>
        have hap : id ≠ other := fun eq' => own (eq' ▸ eq)
        rwa [KeyedMap.lookup_insert_eq, if_neg hap] at hf
      next => exact hf
  observations := by
    rw [List.filterMap_append]
    refine hk.observations.append ?_
    cases ha : r.observation now with
    | none => simp [ha]
    | some o => simp [ha]

theorem Kept.prune (hk : Kept history m) (cutoff : Time) : Kept history (m.prune cutoff) where
  known id session found := hk.known id session (KeyedMap.lookup_filter_eq_some.mp found).1
  observations := List.filter_sublist.trans hk.observations

theorem Kept.call (hk : Kept history m) (c : Call) : Kept (history ++ c.events) (m.call c) := by
  cases c with
  | prune now =>
    rw [Call.events, List.append_nil]
    exact hk.prune _
  | record records now =>
    refine Kept.prune ?_ _
    induction records generalizing m history with
    | nil => simpa [Call.events] using hk
    | cons r records ih =>
      have hst := ih (hk.record r now)
      simpa [Call.events] using hst

theorem Kept.run (calls : List Call) : Kept (calls.flatMap Call.events) (run calls) := by
  induction calls using List.reverseRecOn with
  | nil => exact ⟨fun id session hf => (by cases hf), List.Sublist.refl _⟩
  | append_singleton calls c ih =>
    rw [Metrics.run, List.foldl_append, List.flatMap_append, List.flatMap_singleton]
    exact ih.call c

/-! ### What is kept after a call -/

theorem Kept.observations_le (hk : Kept history m) {cutoff : Time}
    (hi : ∀ o ∈ m.observations, cutoff ≤ o.observedAt) :
    m.observations.length ≤ history.countP fun e => e.record.sessionOf.isNone && decide (cutoff ≤ e.observedAt) := by
  have all : m.observations.countP (fun o => decide (cutoff ≤ o.observedAt)) = m.observations.length :=
    List.countP_eq_length.mpr fun o mem => decide_eq_true (hi o mem)
  rw [← all]
  refine hk.observations.countP_le.trans ?_
  rw [List.countP_filterMap]
  refine List.countP_mono_left fun e _ hc => ?_
  cases ha : e.record.observation e.now with
  | none =>
    rw [ha] at hc
    cases hc
  | some o =>
    have hr : cutoff ≤ o.observedAt := by simpa [ha] using hc
    rw [TelemetryRecord.observation_observedAt ha] at hr
    rw [TelemetryRecord.sessionOf_eq_none ha]
    exact decide_eq_true hr

theorem sessions_le {cutoff : Time}
    (hr : ∀ id session, m.sessions.lookup id = some session → ∃ e ∈ sessionEvents history id, cutoff ≤ e.observedAt) :
    m.sessions.entries.length ≤ history.countP fun e => e.record.sessionOf.isSome && decide (cutoff ≤ e.observedAt) := by
  let written := (history.filter fun e => e.record.sessionOf.isSome && decide (cutoff ≤ e.observedAt)).filterMap fun e =>
    e.record.sessionOf
  have hsu : m.sessions.keys ⊆ written := by
    intro id mem
    obtain ⟨session, hf⟩ := Option.isSome_iff_exists.mp (AList.lookup_isSome.mpr mem)
    obtain ⟨e, he, hi⟩ := hr id session hf
    obtain ⟨mem, own⟩ := List.mem_filter.mp he
    rw [decide_eq_true_eq] at own
    exact List.mem_filterMap.mpr ⟨e, List.mem_filter.mpr ⟨mem, by simp [own, hi]⟩, own⟩
  calc m.sessions.entries.length = m.sessions.keys.length := (List.length_map _).symm
    _ ≤ written.length := (List.subperm_of_subset m.sessions.nodupKeys hsu).length_le
    _ ≤ _ := List.length_filterMap_le _ _
    _ = _ := List.countP_eq_length_filter.symm

theorem call_eq_prune (m : Metrics) (c : Call) : ∃ m' : Metrics, m.call c = m'.prune (c.now - rankingWindow) := by
  cases c with
  | record records now => exact ⟨_, rfl⟩
  | prune now => exact ⟨m, rfl⟩

/-- Observations and sessions of the window only, as many as events of the window at most, if every session that fell
    silent before the window has ended. -/
theorem ranking_state_bounded (calls : List Call) (c : Call)
    (ended : SilentEnded ((calls ++ [c]).flatMap Call.events) (c.now - rankingWindow)) :
    let m := run (calls ++ [c])
    let history := (calls ++ [c]).flatMap Call.events
    let cutoff := c.now - rankingWindow
    (∀ o ∈ m.observations, cutoff ≤ o.observedAt) ∧
    (∀ id session, m.sessions.lookup id = some session → ∃ e ∈ sessionEvents history id, cutoff ≤ e.observedAt) ∧
    m.observations.length + m.sessions.entries.length ≤ history.countP fun e => decide (cutoff ≤ e.observedAt) := by
  intro m history cutoff
  have hk : Kept history m := Kept.run (calls ++ [c])
  obtain ⟨before, hp⟩ : ∃ before : Metrics, m = before.prune cutoff := by
    rw [show m = (run calls).call c by simp [m, run]]
    exact call_eq_prune _ c
  have hi : ∀ o ∈ m.observations, cutoff ≤ o.observedAt := by
    intro o mem
    rw [hp] at mem
    simpa using (List.mem_filter.mp mem).2
  have hr : ∀ id session, m.sessions.lookup id = some session →
      ∃ e ∈ sessionEvents history id, cutoff ≤ e.observedAt := by
    intro id session hf
    by_contra hsi
    have old : ∀ e ∈ sessionEvents history id, e.observedAt < cutoff := by
      intro e he
      by_contra hla
      exact hsi ⟨e, he, not_lt.mp hla⟩
    -- All its events are old, so the last one ended it, and its mark is older than the cutoff.
    obtain ⟨e, hl, hm⟩ := hk.known id session hf
    have hma := hm (ended id old e hl)
    rw [hp] at hf
    have hu := (KeyedMap.lookup_filter_eq_some.mp hf).2
    simp [hma, old e (List.mem_of_getLast? hl)] at hu
  refine ⟨hi, hr, ?_⟩
  have hsp := List.countP_eq_countP_filter_add history (fun e => decide (cutoff ≤ e.observedAt)) fun e =>
    e.record.sessionOf.isSome
  rw [List.countP_filter, List.countP_filter] at hsp
  have ho := hk.observations_le hi
  have hse := sessions_le hr
  simp only [Option.not_isSome, Bool.and_comm] at hsp ho hse
  lia

def sessionRecord (event : String) (receivedAt : Time) : TelemetryRecord where
  receivedAt
  event := { eventID := event, event, clientID := "c", sessionID := "s", relayID := "r" }

theorem ranking_state_bounded_ended :
    let calls := [Call.record [sessionRecord "session_heartbeat" 0] 0, .record [sessionRecord "connection_ended" minute] minute]
    let m := run (calls ++ [Call.prune (24 * hour)])
    m.observations.length + m.sessions.entries.length = 0 := by
  intro calls m
  have hed : SilentEnded ((calls ++ [Call.prune (24 * hour)]).flatMap Call.events) (24 * hour - rankingWindow) := by
    have own : ∀ e ∈ (calls ++ [Call.prune (24 * hour)]).flatMap Call.events, e.record.sessionOf = some "s" := by decide
    intro id _ e hl
    by_cases hs : id = "s"
    · subst hs
      obtain rfl := Option.some.inj (hl.symm : _ = some (Event.mk (sessionRecord "connection_ended" minute) minute))
      rfl
    · have hn : sessionEvents ((calls ++ [Call.prune (24 * hour)]).flatMap Call.events) id = [] :=
        List.filter_eq_nil_iff.mpr fun e mem => by simp [own e mem, Ne.symm hs]
      rw [hn] at hl
      cases hl
  have hb := (ranking_state_bounded calls (.prune (24 * hour)) hed).2.2
  exact Nat.le_zero.mp (hb.trans (by decide))

/-- A client goes away without reporting it: its session is kept a day later. -/
theorem silent_session_kept :
    let calls := [Call.record [sessionRecord "session_heartbeat" 0] 0, .prune (24 * hour)]
    let m := run calls
    let history := calls.flatMap Call.events
    (∃ session, m.sessions.lookup "s" = some session ∧
      ¬∃ e ∈ sessionEvents history "s", 24 * hour - rankingWindow ≤ e.observedAt) ∧
    (history.countP fun e => decide (24 * hour - rankingWindow ≤ e.observedAt)) = 0 ∧ m.sessions.entries.length = 1 := by
  refine ⟨⟨_, rfl, by decide⟩, by decide, by decide⟩

end Metrics

end OpenRung.Broker
