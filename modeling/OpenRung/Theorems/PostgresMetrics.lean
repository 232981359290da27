import OpenRung.Broker.PostgresMetrics
import OpenRung.Theorems.MetricBound
import Mathlib.Data.List.Forall2
import Mathlib.Tactic.Ring

/-! The ranking snapshots of the two stores. They agree on runs in which event ids are distinct, each kind of event carries
    its own measurements only, and the events of a session come in order; a session is then known by its last event. -/

namespace OpenRung.Broker
namespace Metrics

def Event.Unnamed (e : Event) : Prop := MetricEvent.of e.record.event.event = .terminal ∧ e.record.event.relayID = ""

/-- Of two events of one session, the earlier one is not newer, and an end that names no relay is older than a heartbeat
    after it. -/
def Event.Before (e e' : Event) : Prop :=
  e.record.sessionOf ≠ none → e'.record.sessionOf = e.record.sessionOf →
    e.observedAt ≤ e'.observedAt ∧
      (e.Unnamed → MetricEvent.of e'.record.event.event = .heartbeat → e.observedAt < e'.observedAt)

/-- The measurements of an event that only the Postgres store reads. -/
def Event.unread (e : Event) : List String :=
  match MetricEvent.of e.record.event.event with
  | .success => ["time_to_first_byte_ms", "download_mbps_milli"]
  | .failure => ["relay_tcp_ms", "internet_probe_ms", "time_to_first_byte_ms", "download_mbps_milli"]
  | .speedTest => ["relay_tcp_ms", "internet_probe_ms"]
  | _ => []

def Event.Plain (e : Event) : Prop := ∀ name ∈ e.unread, e.record.event.measurement name ≤ 0

instance (e : Event) : Decidable e.Unnamed := inferInstanceAs (Decidable (_ ∧ _))

instance (e e' : Event) : Decidable (e.Before e') := inferInstanceAs (Decidable (_ → _ → _ ∧ (_ → _ → _)))

instance (e : Event) : Decidable e.Plain := inferInstanceAs (Decidable (∀ name ∈ e.unread, _))

def Event.observation (e : Event) : Option RelayMetricObservation := e.record.observation e.now

def Event.metricRow (e : Event) : Option MetricRow := e.record.metricRow e.now

structure Tame (history : List Event) : Prop where
  distinct : (history.filterMap Event.metricRow).Pairwise fun row row' => row.eventID ≠ row'.eventID
  plain : ∀ e ∈ history, e.Plain
  ordered : history.Pairwise Event.Before

/-! ### Observations and rows -/

structure Agrees (o : RelayMetricObservation) (row : MetricRow) : Prop where
  relayID : row.relayID = o.relayID
  observedAt : row.observedAt = o.observedAt
  success : row.successCount = if o.success then 1 else 0
  failure : row.failureCount = if o.failure then 1 else 0
  tcp : row.tcpMs = positiveInt64 o.tcpMs
  probe : row.internetProbeMs = positiveInt64 o.internetProbeMs
  ttfb : row.ttfbMs = positiveInt64 o.ttfbMs
  download : row.downloadMbpsMilli = if o.includesSpeedTest then positiveInt64 o.downloadMbpsMilli else none
  speedTest : row.speedTestCount = if row.downloadMbpsMilli.isSome then 1 else 0

theorem positiveInt64_of_nonpos {v : Int} (h : v ≤ 0) : positiveInt64 v = none := if_neg (not_lt.mpr h)

theorem speedTestCount_metricRow (event : TelemetryEvent) (observedAt : Time) (success failure : Bool) :
    (event.metricRow observedAt success failure).speedTestCount =
      if (event.metricRow observedAt success failure).downloadMbpsMilli.isSome then 1 else 0 := by
  unfold TelemetryEvent.metricRow positiveInt64
  by_cases h : 0 < event.measurement "download_mbps_milli" <;> simp only [h, if_true, if_false] <;> rfl

theorem Event.Plain.agrees {e : Event} (h : e.Plain) :
    Option.Rel Agrees e.observation e.metricRow := by
  unfold Event.Plain Event.unread at h
  unfold Event.observation Event.metricRow TelemetryRecord.observation TelemetryRecord.metricRow
  dsimp only
  split
  · exact .none
  · cases hkind : MetricEvent.of e.record.event.event with
    | success =>
      simp only [hkind, List.forall_mem_cons] at h ⊢
      exact .some ⟨rfl, rfl, rfl, rfl, rfl, rfl, positiveInt64_of_nonpos h.1, positiveInt64_of_nonpos h.2.1,
        speedTestCount_metricRow _ _ _ _⟩
    | failure =>
      simp only [hkind, List.forall_mem_cons] at h ⊢
      exact .some ⟨rfl, rfl, rfl, rfl, positiveInt64_of_nonpos h.1, positiveInt64_of_nonpos h.2.1,
        positiveInt64_of_nonpos h.2.2.1, positiveInt64_of_nonpos h.2.2.2.1, speedTestCount_metricRow _ _ _ _⟩
    | speedTest =>
      simp only [hkind, List.forall_mem_cons] at h ⊢
      exact .some ⟨rfl, rfl, rfl, rfl, positiveInt64_of_nonpos h.1, positiveInt64_of_nonpos h.2.1, rfl, rfl,
        speedTestCount_metricRow _ _ _ _⟩
    | heartbeat => exact .none
    | terminal => exact .none
    | other => exact .none

theorem forall₂_agrees {history : List Event} (h : ∀ e ∈ history, e.Plain) :
    List.Forall₂ Agrees (history.filterMap Event.observation) (history.filterMap Event.metricRow) := by
  have hself : List.Forall₂ (fun e e' => e = e' ∧ e.Plain) history history :=
    List.forall₂_same.mpr fun e he => ⟨rfl, h e he⟩
  refine List.rel_filterMap (fun e e' he => ?_) hself
  obtain ⟨rfl, hplain⟩ := he
  exact hplain.agrees

theorem percentileCont_eq_median (values : List ℚ) : PostgresMetrics.percentileCont values = median values := by
  unfold PostgresMetrics.percentileCont median
  dsimp only
  rw [List.length_mergeSort]
  rcases Nat.eq_zero_or_pos values.length with hzero | hpos
  · rw [if_pos hzero, hzero, List.length_eq_zero_iff.mp hzero, List.mergeSort_nil]
    rfl
  · rw [if_neg hpos.ne']
    by_cases hodd : values.length % 2 = 1
    · rw [if_pos hodd, if_pos (by omega), show (values.length - 1) / 2 = values.length / 2 by omega]
    · rw [if_neg hodd, if_neg (by omega), show (values.length - 1) / 2 = values.length / 2 - 1 by omega,
        Nat.sub_add_cancel (by omega)]
      ring

section Sums
variable {os : List RelayMetricObservation} {rows : List MetricRow}

theorem samples_eq (h : List.Forall₂ Agrees os rows) {kind : RelayMetricObservation → Int} {column : MetricRow → Option Int}
    (hc : ∀ {o row}, Agrees o row → column row = positiveInt64 (kind o)) :
    ((rows.filterMap column).filter fun v => decide (0 < v)).map (fun v : Int => (v : ℚ)) = samples kind os := by
  induction h with
  | nil => rfl
  | @cons o row os rows hrow _ ih =>
    unfold samples at ih ⊢
    rw [List.filterMap_cons, List.filterMap_cons, hc hrow]
    unfold positiveInt64
    by_cases hpos : 0 < kind o
    · rw [if_pos hpos, if_pos hpos]
      dsimp only
      rw [List.filter_cons, if_pos (decide_eq_true hpos), List.map_cons, ih]
    · rw [if_neg hpos, if_neg hpos]
      exact ih

theorem sum_eq_length (h : List.Forall₂ Agrees os rows) {p : RelayMetricObservation → Bool} {column : MetricRow → Nat}
    (hc : ∀ {o row}, Agrees o row → column row = if p o then 1 else 0) :
    (rows.map column).sum = (os.filter p).length := by
  induction h with
  | nil => rfl
  | @cons o row os rows hrow _ ih =>
    rw [List.map_cons, List.sum_cons, ih, hc hrow, List.filter_cons]
    split
    · rw [List.length_cons, Nat.add_comm]
    · exact Nat.zero_add _

theorem Agrees.download_eq {o : RelayMetricObservation} {row : MetricRow} (h : Agrees o row) : row.downloadMbpsMilli =
    if o.includesSpeedTest && decide (0 < o.downloadMbpsMilli) then some o.downloadMbpsMilli else none := by
  rw [h.download, positiveInt64]
  cases o.includesSpeedTest <;> simp

theorem Agrees.speedTest_eq {o : RelayMetricObservation} {row : MetricRow} (h : Agrees o row) : row.speedTestCount =
    if o.includesSpeedTest && decide (0 < o.downloadMbpsMilli) then 1 else 0 := by
  rw [h.speedTest, h.download_eq]
  split <;> rfl

theorem downloads_eq (h : List.Forall₂ Agrees os rows) :
    (((rows.filterMap (·.downloadMbpsMilli)).sum : Int) : ℚ) / 1000 =
      ((os.filter fun o => o.includesSpeedTest && decide (0 < o.downloadMbpsMilli)).map
        fun o => (o.downloadMbpsMilli : ℚ) / 1000).sum := by
  induction h with
  | nil => simp
  | @cons o row os rows hrow _ ih =>
    rw [List.filterMap_cons, hrow.download_eq, List.filter_cons]
    by_cases hspeed : (o.includesSpeedTest && decide (0 < o.downloadMbpsMilli)) = true
    · rw [if_pos hspeed, if_pos hspeed]
      dsimp only
      rw [List.sum_cons, List.map_cons, List.sum_cons, ← ih, Int.cast_add, add_div]
    · rw [if_neg hspeed, if_neg hspeed]
      exact ih

end Sums

/-! ### Sessions -/

structure Matches (state : RelaySessionState) (row : SessionRow) : Prop where
  terminal : state.terminalAt = row.terminalAt
  live : row.terminalAt = none →
    row.relayID ≠ "" ∧ state.relayID = row.relayID ∧ state.lastHeartbeatAt = some row.lastHeartbeatAt

/-- They match, but for two cases: only the entry is marked, by an end that names no relay, or the session has left
    the window. -/
structure Alike (later : Time) (e : Event) (state : Option RelaySessionState) (row : Option SessionRow) : Prop where
  ended : ∀ s ∈ state, ∀ t ∈ s.terminalAt, t = e.observedAt
  beat : ∀ s ∈ state, s.terminalAt = none → ∀ t ∈ s.lastHeartbeatAt, t ≤ e.observedAt
  endedRow : ∀ r ∈ row, ∀ t ∈ r.terminalAt, t = e.observedAt
  beatRow : ∀ r ∈ row, r.lastHeartbeatAt ≤ e.observedAt
  views : e.observedAt < later - rankingWindow ∨ Option.Rel Matches state row ∨
    e.Unnamed ∧ row = none ∧ ∀ s ∈ state, s.terminalAt ≠ none

section Sessions
variable {later : Time} {e e' : Event} {state : Option RelaySessionState} {row : Option SessionRow}

theorem sessionAfter_heartbeat (hkind : MetricEvent.of e.record.event.event = .heartbeat) :
    ∃ after, e.record.sessionAfter e.now (state.getD {}) = after ∧
      after.terminalAt = (state.bind (·.terminalAt)).filter (fun t => decide (e.observedAt ≤ t)) ∧
        after.relayID = e.record.event.relayID ∧ after.lastHeartbeatAt = some e.observedAt := by
  simp only [TelemetryRecord.sessionAfter, hkind, ← decide_not, not_lt]
  cases state <;> exact ⟨_, rfl, rfl, rfl, rfl⟩

theorem sessionRow_heartbeat (hkind : MetricEvent.of e.record.event.event = .heartbeat)
    (hbeat : ∀ r ∈ row, r.lastHeartbeatAt ≤ e.observedAt) :
    ∃ row', e.record.sessionRow e.now row = some row' ∧
      row'.terminalAt = (row.bind (·.terminalAt)).filter (fun t => decide (e.observedAt ≤ t)) ∧
        row'.relayID = e.record.event.relayID ∧ row'.lastHeartbeatAt = e.observedAt := by
  simp only [TelemetryRecord.sessionRow, hkind]
  cases row with
  | none => exact ⟨_, rfl, rfl, rfl, rfl⟩
  | some r => exact ⟨_, rfl, rfl, rfl, max_eq_right (hbeat r rfl)⟩

/-- A heartbeat later than the mark clears it, and one at its time keeps it. -/
theorem filter_le {terminalAt : Option Time} {t o : Time} (h : ∀ t' ∈ terminalAt, t' = t) :
    (t < o → terminalAt.filter (fun t => decide (o ≤ t)) = none) ∧
      (t ≤ o → ∀ t' ∈ terminalAt.filter (fun t => decide (o ≤ t)), t' = o) := by
  refine ⟨fun hlt => Option.filter_eq_none_iff.mpr fun t' ht' => ?_, fun hle t' ht' => ?_⟩
  · rw [h t' ht']
    simpa using hlt
  · obtain ⟨hmem, hge⟩ := Option.filter_eq_some_iff.mp ht'
    have heq := h t' hmem
    rw [decide_eq_true_eq] at hge
    exact le_antisymm (heq.le.trans hle) hge

theorem Alike.heartbeat (h : Alike later e state row) (hle : e.observedAt ≤ e'.observedAt)
    (hlt : e.Unnamed → e.observedAt < e'.observedAt) (hkind : MetricEvent.of e'.record.event.event = .heartbeat)
    (hrelay : e'.record.event.relayID ≠ "") :
    Alike later e' (some (e'.record.sessionAfter e'.now (state.getD {}))) (e'.record.sessionRow e'.now row) := by
  obtain ⟨after, hafter, hterminal, hid, hlast⟩ := @sessionAfter_heartbeat e' state hkind
  obtain ⟨row', hrow', hterminal', hid', hlast'⟩ := sessionRow_heartbeat hkind fun r hr => (h.beatRow r hr).trans hle
  have hended : ∀ t ∈ state.bind (·.terminalAt), t = e.observedAt := by
    intro t ht
    obtain ⟨s, hs, ht⟩ := Option.bind_eq_some_iff.mp ht
    exact h.ended s hs t ht
  have hended' : ∀ t ∈ row.bind (·.terminalAt), t = e.observedAt := by
    intro t ht
    obtain ⟨r, hr, ht⟩ := Option.bind_eq_some_iff.mp ht
    exact h.endedRow r hr t ht
  have hmatches (heq : after.terminalAt = row'.terminalAt) : Option.Rel Matches (some after) (some row') :=
    .some ⟨heq, fun _ => ⟨hid' ▸ hrelay, hid.trans hid'.symm, hlast.trans (congrArg some hlast'.symm)⟩⟩
  have hcleared (hlt : e.observedAt < e'.observedAt) : Option.Rel Matches (some after) (some row') := by
    refine hmatches ?_
    rw [hterminal, hterminal', (filter_le hended).1 hlt, (filter_le hended').1 hlt]
  rw [hafter, hrow']
  refine ⟨?_, ?_, ?_, ?_, ?_⟩
  · rintro s ⟨⟩ t ht
    exact (filter_le hended).2 hle t (hterminal ▸ ht)
  · rintro s ⟨⟩ - t ht
    rw [hlast] at ht
    exact (Option.some.inj ht).ge
  · rintro r ⟨⟩ t ht
    exact (filter_le hended').2 hle t (hterminal' ▸ ht)
  · rintro r ⟨⟩
    exact hlast'.le
  · rcases h.views with hpast | hsame | ⟨hunnamed, -, -⟩
    · rcases hle.lt_or_eq with hlt | heq
      · exact .inr (.inl (hcleared hlt))
      · exact .inl (heq ▸ hpast)
    · refine .inr (.inl (hmatches ?_))
      rw [hterminal, hterminal']
      cases hsame with
      | none => rfl
      | some hm => rw [Option.bind_some, Option.bind_some, hm.terminal]
    · exact .inr (.inl (hcleared (hlt hunnamed)))

theorem sessionRow_terminal (hkind : MetricEvent.of e.record.event.event = .terminal) {t : Time}
    (hended : ∀ r ∈ row, ∀ t' ∈ r.terminalAt, t' = t) (hbeat : ∀ r ∈ row, r.lastHeartbeatAt ≤ t) (hle : t ≤ e.observedAt) :
    (e.record.sessionRow e.now row = none ∧ e.record.event.relayID = "") ∨
      ∃ row', e.record.sessionRow e.now row = some row' ∧ row'.terminalAt = some e.observedAt ∧
        row'.lastHeartbeatAt ≤ e.observedAt := by
  simp only [TelemetryRecord.sessionRow, hkind]
  cases row with
  | none =>
    by_cases hrelay : e.record.event.relayID = ""
    · exact .inl ⟨if_pos hrelay, hrelay⟩
    · exact .inr ⟨_, if_neg hrelay, rfl, le_rfl⟩
  | some r =>
    have hlast := (hbeat r rfl).trans hle
    obtain ⟨clientID, relayID, last, terminalAt⟩ := r
    cases terminalAt with
    | none =>
      by_cases hrelay : e.record.event.relayID = ""
      · exact .inr ⟨_, if_pos hrelay, rfl, hlast⟩
      · exact .inr ⟨_, if_neg hrelay, rfl, hlast⟩
    | some t' =>
      have heq := hended _ rfl t' rfl
      have hmark : (if t' < e.observedAt then some e.observedAt else some t') = some e.observedAt := by
        by_cases hlt : t' < e.observedAt
        · exact if_pos hlt
        · rw [show t' = e.observedAt from le_antisymm (heq.le.trans hle) (not_lt.mp hlt)]
          exact if_neg (lt_irrefl _)
      by_cases hrelay : e.record.event.relayID = ""
      · exact .inr ⟨_, if_pos hrelay, hmark, hlast⟩
      · exact .inr ⟨_, if_neg hrelay, hmark, hlast⟩

theorem Alike.terminal (h : Alike later e state row) (hle : e.observedAt ≤ e'.observedAt)
    (hkind : MetricEvent.of e'.record.event.event = .terminal) :
    Alike later e' (some (e'.record.sessionAfter e'.now (state.getD {}))) (e'.record.sessionRow e'.now row) := by
  have hterminal : (e'.record.sessionAfter e'.now (state.getD {})).terminalAt = some e'.observedAt :=
    TelemetryRecord.terminalAt_sessionAfter (decide_eq_true hkind)
  generalize e'.record.sessionAfter e'.now (state.getD {}) = after at hterminal ⊢
  have hended : ∀ s ∈ some after, ∀ t ∈ s.terminalAt, t = e'.observedAt := by
    rintro s ⟨⟩ t ht
    exact (Option.some.inj (hterminal.symm.trans ht)).symm
  have hmarked : ∀ s ∈ some after, s.terminalAt ≠ none := by
    rintro s ⟨⟩ hnone
    rw [hterminal] at hnone
    cases hnone
  have hbeat : ∀ s ∈ some after, s.terminalAt = none → ∀ t ∈ s.lastHeartbeatAt, t ≤ e'.observedAt :=
    fun s hs hnone => absurd hnone (hmarked s hs)
  rcases sessionRow_terminal hkind h.endedRow h.beatRow hle with ⟨hnone, hrelay⟩ | ⟨row', hrow', hterminal', hlast'⟩
  · rw [hnone]
    exact ⟨hended, hbeat, nofun, nofun, .inr (.inr ⟨⟨hkind, hrelay⟩, rfl, hmarked⟩)⟩
  · rw [hrow']
    refine ⟨hended, hbeat, ?_, ?_, .inr (.inl (.some ⟨hterminal.trans hterminal'.symm, fun hnone => ?_⟩))⟩
    · rintro r ⟨⟩ t ht
      exact (Option.some.inj (hterminal'.symm.trans ht)).symm
    · rintro r ⟨⟩
      exact hlast'
    · rw [hterminal'] at hnone
      cases hnone

theorem lt_of_any {terminalAt : Option Time} {t cutoff : Time} (h : ∀ t' ∈ terminalAt, t' = t)
    (hany : (terminalAt.any fun t => decide (t < cutoff)) = true) : t < cutoff := by
  cases terminalAt with
  | none => cases hany
  | some t' =>
    rw [← h t' rfl]
    exact of_decide_eq_true hany

theorem Alike.prune (h : Alike later e state row) {cutoff : Time} (hcutoff : cutoff ≤ later - rankingWindow) :
    Alike later e (state.filter fun s => !s.terminalAt.any fun t => decide (t < cutoff)) row := by
  refine ⟨fun s hs => h.ended s (Option.filter_eq_some_iff.mp hs).1,
    fun s hs => h.beat s (Option.filter_eq_some_iff.mp hs).1, h.endedRow, h.beatRow, ?_⟩
  cases state with
  | none => exact h.views
  | some s =>
    by_cases hany : (s.terminalAt.any fun t => decide (t < cutoff)) = true
    · exact .inl ((lt_of_any (h.ended s rfl) hany).trans_le hcutoff)
    · rw [Option.filter_some, if_pos (by simpa using hany)]
      exact h.views

theorem activeAt_iff {s : RelaySessionState} : activeAt later s = true ↔
    s.relayID ≠ "" ∧ s.terminalAt = none ∧ ∃ t ∈ s.lastHeartbeatAt, later - activeSessionTimeout < t := by
  unfold activeAt
  cases s.lastHeartbeatAt <;> simp [and_assoc]

theorem Alike.active (h : Alike later e state row) (relayID : String) :
    (state.any fun s => decide (s.relayID = relayID) && activeAt later s) =
      row.any fun r => decide (r.relayID = relayID) &&
        (r.terminalAt.isNone && decide (later - activeSessionTimeout < r.lastHeartbeatAt)) := by
  have hwindow : later - rankingWindow ≤ later - activeSessionTimeout := Int.sub_le_sub_left (by decide) later
  rcases h.views with hpast | hsame | ⟨-, rfl, hmarked⟩
  · have hstate : (state.any fun s => decide (s.relayID = relayID) && activeAt later s) = false := by
      cases state with
      | none => rfl
      | some s =>
        refine Bool.eq_false_iff.mpr fun hactive => ?_
        obtain ⟨-, hnone, t, ht, hlt⟩ := activeAt_iff.mp (Bool.and_eq_true_iff.mp hactive).2
        exact absurd ((hlt.trans_le (h.beat s rfl hnone t ht)).trans hpast) hwindow.not_gt
    have hrow : (row.any fun r => decide (r.relayID = relayID) &&
        (r.terminalAt.isNone && decide (later - activeSessionTimeout < r.lastHeartbeatAt))) = false := by
      cases row with
      | none => rfl
      | some r =>
        refine Bool.eq_false_iff.mpr fun hactive => ?_
        have hlt := of_decide_eq_true (Bool.and_eq_true_iff.mp (Bool.and_eq_true_iff.mp hactive).2).2
        exact absurd ((hlt.trans_le (h.beatRow r rfl)).trans hpast) hwindow.not_gt
    rw [hstate, hrow]
  · cases hsame with
    | none => rfl
    | @some s r hm =>
      rw [Option.any_some, Option.any_some, Bool.eq_iff_iff, Bool.and_eq_true_iff, activeAt_iff, hm.terminal]
      cases hterminal : r.terminalAt with
      | some t => simp
      | none =>
        obtain ⟨hne, hid, hlast⟩ := hm.live hterminal
        rw [hid, hlast]
        simp [hne]
  · cases state with
    | none => rfl
    | some s =>
      refine Bool.eq_false_iff.mpr fun hactive => ?_
      exact hmarked s rfl (activeAt_iff.mp (Bool.and_eq_true_iff.mp hactive).2).2.1

end Sessions

/-! ### Runs -/

theorem Tame.left {history more : List Event} (h : Tame (history ++ more)) : Tame history where
  distinct := by
    have hd := h.distinct
    rw [List.filterMap_append] at hd
    exact (List.pairwise_append.mp hd).1
  plain e he := h.plain e (List.mem_append_left _ he)
  ordered := (List.pairwise_append.mp h.ordered).1

def inWindow (later observedAt : Time) : Bool :=
  decide (later - rankingWindow ≤ observedAt) && decide (observedAt ≤ later)

structure Follows (later : Time) (history : List Event) (m : Metrics) (p : PostgresMetrics) : Prop where
  sessions : ∀ id, ((sessionEvents history id).getLast?).elim (m.sessions.lookup id = none ∧ p.sessions.lookup id = none)
    fun e => Alike later e (m.sessions.lookup id) (p.sessions.lookup id)
  observations : m.observations.filter (fun o => inWindow later o.observedAt) =
    (history.filterMap Event.observation).filter fun o => inWindow later o.observedAt
  metrics : p.metrics.filter (fun row => inWindow later row.observedAt) =
    (history.filterMap Event.metricRow).filter fun row => inWindow later row.observedAt
  inserted : ∀ row ∈ p.metrics, row ∈ history.filterMap Event.metricRow

section Runs
variable {later : Time} {history : List Event} {m : Metrics} {p : PostgresMetrics}

theorem Follows.before (h : Follows later history m p) {e : Event} (htame : Tame (history ++ [e])) {id : String}
    (hid : e.record.sessionOf = some id) :
    ∃ last, Alike later last (m.sessions.lookup id) (p.sessions.lookup id) ∧ last.observedAt ≤ e.observedAt ∧
      (last.Unnamed → MetricEvent.of e.record.event.event = .heartbeat → last.observedAt < e.observedAt) := by
  have hs := h.sessions id
  cases hlast : (sessionEvents history id).getLast? with
  | none =>
    rw [hlast] at hs
    obtain ⟨hm, hp⟩ := hs
    refine ⟨e, ?_, le_rfl, fun hunnamed hbeat => ?_⟩
    · rw [hm, hp]
      exact ⟨nofun, nofun, nofun, nofun, .inr (.inl .none)⟩
    · rw [hunnamed.1] at hbeat
      cases hbeat
  | some last =>
    rw [hlast] at hs
    obtain ⟨hmem, hown⟩ := List.mem_filter.mp (List.mem_of_getLast? hlast)
    rw [decide_eq_true_eq] at hown
    obtain ⟨hle, hlt⟩ := (List.pairwise_append.mp htame.ordered).2.2 last hmem e List.mem_cons_self
      (by rw [hown]; exact Option.some_ne_none _) (hid.trans hown.symm)
    exact ⟨last, hs, hle, hlt⟩

theorem Follows.alike (h : Follows later history m p) {e : Event} (htame : Tame (history ++ [e])) {id : String}
    (hid : e.record.sessionOf = some id) :
    Alike later e (some (e.record.sessionAfter e.now ((m.sessions.lookup id).getD {})))
      (e.record.sessionRow e.now (p.sessions.lookup id)) := by
  obtain ⟨last, halike, hle, hlt⟩ := h.before htame hid
  unfold TelemetryRecord.sessionOf at hid
  dsimp only at hid
  split at hid
  next hkind =>
    split at hid
    · cases hid
    · rename_i hguard
      exact halike.heartbeat hle (fun hunnamed => hlt hunnamed hkind) hkind fun hrelay => hguard (.inr hrelay)
  next hkind => exact halike.terminal hle hkind
  next => cases hid

theorem sessionEvents_append (history : List Event) (e : Event) (id : String) :
    sessionEvents (history ++ [e]) id = sessionEvents history id ++ if e.record.sessionOf = some id then [e] else [] := by
  rw [sessionEvents, List.filter_append]
  by_cases h : e.record.sessionOf = some id <;> simp [sessionEvents, h]

theorem sessionRow_eq_none {r : TelemetryRecord} {now : Time} {row : Option SessionRow}
    (h : r.sessionRow now row = none) : row = none := by
  cases row with
  | none => rfl
  | some row =>
    unfold TelemetryRecord.sessionRow at h
    dsimp only at h
    split at h
    next heq => cases heq
    next => cases h
    next heq => cases heq
    next => split at h <;> cases h
    next => exact h

theorem Follows.sessions_record (h : Follows later history m p) {e : Event} (htame : Tame (history ++ [e])) (id : String) :
    ((sessionEvents (history ++ [e]) id).getLast?).elim
      ((m.record e.record e.now).sessions.lookup id = none ∧ (p.recordOne e.record e.now).sessions.lookup id = none)
      fun e' => Alike later e' ((m.record e.record e.now).sessions.lookup id)
        ((p.recordOne e.record e.now).sessions.lookup id) := by
  rw [sessionEvents_append]
  unfold Metrics.record PostgresMetrics.recordOne
  dsimp only
  by_cases hid : e.record.sessionOf = some id
  · have halike := h.alike htame hid
    rw [if_pos hid, List.getLast?_concat, Option.elim_some]
    simp only [hid]
    rw [KeyedMap.lookup_insert_eq, if_pos rfl]
    cases hrow : e.record.sessionRow e.now (p.sessions.lookup id) with
    | some row =>
      dsimp only
      rw [KeyedMap.lookup_insert_eq, if_pos rfl, ← hrow]
      exact halike
    | none =>
      rw [hrow] at halike
      rw [sessionRow_eq_none hrow]
      exact halike
  · rw [if_neg hid, List.append_nil]
    have hs := h.sessions id
    cases hother : e.record.sessionOf with
    | none => exact hs
    | some other =>
      have hne : id ≠ other := fun heq => hid (heq ▸ hother)
      dsimp only
      rw [KeyedMap.lookup_insert_eq, if_neg hne]
      cases e.record.sessionRow e.now (p.sessions.lookup other) with
      | none => exact hs
      | some row =>
        dsimp only
        rw [KeyedMap.lookup_insert_eq, if_neg hne]
        exact hs

theorem filterMap_concat {α : Type} (f : Event → Option α) (history : List Event) (e : Event) :
    (history ++ [e]).filterMap f = history.filterMap f ++ (f e).toList := by
  rw [List.filterMap_append]
  cases hf : f e <;> simp [hf]

theorem Follows.record (h : Follows later history m p) {e : Event} (htame : Tame (history ++ [e])) :
    Follows later (history ++ [e]) (m.record e.record e.now) (p.recordOne e.record e.now) := by
  have hmetrics : (p.recordOne e.record e.now).metrics = p.metrics ++ e.metricRow.toList := by
    unfold PostgresMetrics.recordOne
    dsimp only
    cases hrow : e.record.metricRow e.now with
    | none => simp [Event.metricRow, hrow]
    | some row =>
      have hd := htame.distinct
      rw [filterMap_concat, Event.metricRow, hrow] at hd
      have hnew : (p.metrics.any fun old => decide (old.eventID = row.eventID)) = false := by
        rw [List.any_eq_false]
        intro old hold heq
        exact (List.pairwise_append.mp hd).2.2 old (h.inserted old hold) row List.mem_cons_self (of_decide_eq_true heq)
      simp [Event.metricRow, hrow, PostgresMetrics.insertMetric, hnew]
  refine ⟨h.sessions_record htame, ?_, ?_, ?_⟩
  · rw [filterMap_concat, List.filter_append, ← h.observations, ← List.filter_append]
    rfl
  · rw [hmetrics, filterMap_concat, List.filter_append, List.filter_append, h.metrics]
  · rw [hmetrics, filterMap_concat]
    intro row hrow
    rcases List.mem_append.mp hrow with hrow | hrow
    · exact List.mem_append_left _ (h.inserted row hrow)
    · exact List.mem_append_right _ hrow

theorem filter_window {α : Type} {at_ : α → Time} {cutoff : Time} (hcutoff : cutoff ≤ later - rankingWindow) (xs : List α) :
    (xs.filter fun x => !decide (at_ x < cutoff)).filter (fun x => inWindow later (at_ x)) =
      xs.filter fun x => inWindow later (at_ x) := by
  rw [List.filter_filter]
  refine List.filter_congr fun x _ => ?_
  by_cases hlt : at_ x < cutoff
  · have hout : inWindow later (at_ x) = false := by
      rw [inWindow, decide_eq_false (hlt.trans_le hcutoff).not_ge, Bool.false_and]
    rw [hout, Bool.false_and]
  · simp [hlt]

theorem Follows.prune (h : Follows later history m p) {cutoff : Time} (hcutoff : cutoff ≤ later - rankingWindow) :
    Follows later history (m.prune cutoff) p where
  sessions id := by
    have hs := h.sessions id
    unfold Metrics.prune
    dsimp only
    rw [KeyedMap.lookup_filter]
    cases hlast : (sessionEvents history id).getLast? with
    | none =>
      rw [hlast] at hs
      rw [hs.1]
      exact ⟨rfl, hs.2⟩
    | some e =>
      rw [hlast] at hs
      exact Alike.prune hs hcutoff
  observations := (filter_window hcutoff _).trans h.observations
  metrics := h.metrics
  inserted := h.inserted

theorem Follows.batch (h : Follows later history m p) {records : List TelemetryRecord} {now : Time} (hnow : now ≤ later)
    (htame : Tame (history ++ (Call.record records now).events)) :
    Follows later (history ++ (Call.record records now).events) (m.recordRelayTelemetry records now)
      (p.recordRelayTelemetry records now) := by
  refine Follows.prune ?_ (Int.sub_le_sub_right hnow _)
  clear hnow
  induction records generalizing m p history with
  | nil => simpa [Call.events, PostgresMetrics.recordRelayTelemetry] using h
  | cons r records ih =>
    have hsplit : history ++ (Call.record (r :: records) now).events =
        (history ++ [⟨r, now⟩]) ++ (Call.record records now).events := by
      simp [Call.events]
    rw [hsplit] at htame ⊢
    exact ih (h.record htame.left) htame

def callsOf (batches : List (List TelemetryRecord × Time)) : List Call := batches.map fun batch => .record batch.1 batch.2

theorem follows_run {batches : List (List TelemetryRecord × Time)} (hlater : ∀ batch ∈ batches, batch.2 ≤ later)
    (htame : Tame ((callsOf batches).flatMap Call.events)) :
    Follows later ((callsOf batches).flatMap Call.events) (run (callsOf batches)) (PostgresMetrics.run batches) := by
  induction batches using List.reverseRecOn with
  | nil => exact ⟨fun id => ⟨rfl, rfl⟩, rfl, rfl, nofun⟩
  | append_singleton batches batch ih =>
    rw [callsOf, List.map_append] at htame ⊢
    rw [Metrics.run, PostgresMetrics.run, List.foldl_append, List.foldl_append]
    rw [List.flatMap_append, List.map_singleton, List.flatMap_singleton] at htame ⊢
    exact (ih (fun batch hb => hlater batch (List.mem_append_left _ hb)) htame.left).batch
      (hlater batch (List.mem_append_right _ List.mem_cons_self)) htame

theorem Follows.activeSessions (h : Follows later history m p) (relayID : String) :
    (m.snapshot later relayID).activeSessions = (p.snapshot later relayID).activeSessions := by
  refine KeyedMap.length_filter_values_eq fun id => ?_
  have hs := h.sessions id
  cases hlast : (sessionEvents history id).getLast? with
  | none =>
    rw [hlast] at hs
    rw [hs.1, hs.2]
    rfl
  | some e =>
    rw [hlast] at hs
    exact Alike.active hs relayID

theorem Follows.own (h : Follows later history m p) (hplain : ∀ e ∈ history, e.Plain) (relayID : String) :
    List.Forall₂ Agrees
      ((m.observations.filter fun o =>
        !(decide (o.observedAt < later - rankingWindow) || decide (later < o.observedAt))).filter
          fun o => decide (o.relayID = relayID))
      ((p.metrics.filter fun row => inWindow later row.observedAt).filter fun row => decide (row.relayID = relayID)) := by
  have hwindow : (fun o : RelayMetricObservation =>
      !(decide (o.observedAt < later - rankingWindow) || decide (later < o.observedAt))) =
        fun o => inWindow later o.observedAt := by
    funext o
    simp [inWindow, ← decide_not]
  rw [hwindow, h.observations, h.metrics]
  refine List.rel_filter (fun o row hrow => ?_) (List.rel_filter (fun o row hrow => ?_) (forall₂_agrees hplain))
  · dsimp only
    rw [hrow.relayID]
  · dsimp only
    rw [hrow.observedAt]

end Runs

end Metrics
end OpenRung.Broker
