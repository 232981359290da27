import Mathlib.Algebra.Order.BigOperators.Group.List
import Mathlib.Tactic.Linarith
import Mathlib.Tactic.NormNum
import OpenRung.Broker.Ranking

/-! The laws of the relay score: its range, how it moves with successes, failures and load, and that reliability outweighs
    load. Each part is bounded and monotone by itself; the score is a clamped weighted sum of the parts. -/

namespace OpenRung.Broker

/-! ### Numbers from 0 to 1 -/

abbrev Unit01 (x : ℚ) : Prop := 0 ≤ x ∧ x ≤ 1

theorem clamp01_eq (x : ℚ) : clamp01 x = max 0 (min x 1) := by
  unfold clamp01
  split_ifs with negative large
  · rw [max_eq_left ((min_le_left _ _).trans negative.le)]
  · rw [min_eq_right large.le, max_eq_right zero_le_one]
  · rw [min_eq_left (not_lt.mp large), max_eq_right (not_lt.mp negative)]

theorem clamp01_unit (x : ℚ) : Unit01 (clamp01 x) := by
  rw [clamp01_eq]
  exact ⟨le_max_left _ _, max_le zero_le_one (min_le_right _ _)⟩

theorem clamp01_mono : Monotone clamp01 := by
  intro x y le
  rw [clamp01_eq, clamp01_eq]
  exact max_le_max_left 0 (min_le_min_right 1 le)

theorem clamp01_lt_clamp01 {x y : ℚ} (hle : x < y) (hp : 0 < y) (hsm : y ≤ 1) : clamp01 x < clamp01 y := by
  rw [clamp01_eq, clamp01_eq, min_eq_left hsm, max_eq_right hp.le]
  exact max_lt hp ((min_le_left _ _).trans_lt hle)

theorem average_unit {scores : List ℚ} (hu : ∀ x ∈ scores, Unit01 x) (hso : scores.length ≠ 0) :
    Unit01 (scores.sum / scores.length) := by
  have hp : (0 : ℚ) < scores.length := Nat.cast_pos.mpr (Nat.pos_of_ne_zero hso)
  have ht : scores.sum ≤ scores.length := by
    simpa using List.sum_le_card_nsmul scores 1 fun x mem => (hu x mem).2
  exact ⟨div_nonneg (List.sum_nonneg fun x mem => (hu x mem).1) hp.le, (div_le_one₀ hp).mpr ht⟩

/-! ### The parts -/

theorem measuredScores_unit (snapshot : RelayMetricsSnapshot) : ∀ x ∈ measuredScores snapshot, Unit01 x := by
  intro x mem
  obtain ⟨m, -, eq⟩ := List.mem_filterMap.mp mem
  obtain ⟨-, eq⟩ := Option.ite_none_left_eq_some.mp eq
  obtain rfl := Option.some.inj eq
  have hu := clamp01_unit ((m.1 - m.2.1) / (m.2.2 - m.2.1))
  exact ⟨sub_nonneg.mpr hu.2, sub_le_self _ hu.1⟩

theorem measuredLatencyScore_unit {snapshot : RelayMetricsSnapshot} {score : ℚ}
    (measured : measuredLatencyScore snapshot = some score) : Unit01 score := by
  obtain ⟨some, eq⟩ := Option.ite_none_left_eq_some.mp measured
  obtain rfl := Option.some.inj eq
  exact average_unit (measuredScores_unit snapshot) some

theorem observedLatencyScore_unit (snapshot : RelayMetricsSnapshot) {neutral : ℚ} (hu : Unit01 neutral) :
    Unit01 (observedLatencyScore snapshot neutral) := by
  unfold observedLatencyScore
  split
  next score hm => exact measuredLatencyScore_unit hm
  next => exact hu

theorem observedSpeedScore_unit (desc : Descriptor) (snapshot : RelayMetricsSnapshot) :
    Unit01 (observedSpeedScore desc snapshot) := by
  unfold observedSpeedScore
  split
  · constructor <;> norm_num
  · exact clamp01_unit _

theorem overCapacityPenalty_bounds (desc : Descriptor) (snapshot : RelayMetricsSnapshot) :
    0 ≤ overCapacityPenalty desc snapshot ∧ overCapacityPenalty desc snapshot ≤ rankingMaxOverCapacityPenalty := by
  unfold overCapacityPenalty rankingMaxOverCapacityPenalty
  split
  · norm_num
  · have hu := clamp01_unit (((snapshot.activeSessions - desc.maxSessions : Int) : ℚ) / desc.maxSessions)
    constructor <;> linarith [hu.1, hu.2]

structure RelayScoreParts.Ranged (p : RelayScoreParts) : Prop where
  reliability : 0 < p.reliability ∧ p.reliability ≤ 1
  headroom : Unit01 p.headroom
  latency : Unit01 p.latency
  speed : Unit01 p.speed
  penalty : 0 ≤ p.overCapacityPenalty ∧ p.overCapacityPenalty ≤ rankingMaxOverCapacityPenalty

theorem relayScoreBreakdown_ranged (desc : Descriptor) (snapshot : RelayMetricsSnapshot) {neutral : ℚ}
    (hu : Unit01 neutral) : (relayScoreBreakdown desc snapshot neutral).Ranged where
  reliability := by
    have hp : (0 : ℚ) < (snapshot.successes + snapshot.failures + 2 : Nat) := by positivity
    refine ⟨div_pos (by positivity) hp, (div_le_one₀ hp).mpr ?_⟩
    exact_mod_cast (by omega : snapshot.successes + 1 ≤ snapshot.successes + snapshot.failures + 2)
  headroom := by
    simp only [relayScoreBreakdown]
    split
    · exact clamp01_unit _
    · constructor <;> norm_num
  latency := observedLatencyScore_unit snapshot hu
  speed := observedSpeedScore_unit desc snapshot
  penalty := overCapacityPenalty_bounds desc snapshot

/-! ### The score -/

theorem RelayScoreParts.score_mono {p q : RelayScoreParts} (hre : p.reliability ≤ q.reliability)
    (hh : p.headroom ≤ q.headroom) (hl : p.latency = q.latency) (hs : p.speed = q.speed)
    (hpn : q.overCapacityPenalty ≤ p.overCapacityPenalty) : p.score ≤ q.score := by
  apply clamp01_mono
  simp only [rankingReliabilityWeight, rankingHeadroomWeight, hl, hs]
  linarith

/-- Half of the reliability weight is more than the headroom weight and the largest penalty together. -/
theorem RelayScoreParts.Ranged.score_lt {p q : RelayScoreParts} (hra : p.Ranged) (hr : q.Ranged)
    (hl : q.latency = p.latency) (hs : q.speed = p.speed) (gap : q.reliability + 1 / 2 ≤ p.reliability) :
    q.score < p.score := by
  obtain ⟨⟨-, hsu⟩, ⟨hid, hi⟩, ⟨hfs, hfa⟩, ⟨hwd, hwi⟩, hpn, hpe⟩ := hra
  obtain ⟨⟨hus, -⟩, ⟨-, hfu⟩, -, -, hsp, -⟩ := hr
  simp only [score, hl, hs, rankingReliabilityWeight, rankingHeadroomWeight, rankingLatencyWeight,
    rankingSpeedWeight]
  simp only [rankingMaxOverCapacityPenalty] at hpe
  apply clamp01_lt_clamp01
  · linarith
  · linarith
  · linarith

section Laws
variable (desc : Descriptor) (snapshot : RelayMetricsSnapshot) (neutral : ℚ)

theorem relayScore_successes {more : Nat} (hg : snapshot.successes ≤ more) :
    relayScore desc snapshot neutral ≤ relayScore desc { snapshot with successes := more } neutral := by
  refine RelayScoreParts.score_mono ?_ le_rfl rfl rfl le_rfl
  simp only [relayScoreBreakdown]
  rw [div_le_div_iff₀ (by positivity) (by positivity)]
  norm_cast
  nlinarith

theorem relayScore_failures {more : Nat} (hg : snapshot.failures ≤ more) :
    relayScore desc { snapshot with failures := more } neutral ≤ relayScore desc snapshot neutral := by
  refine RelayScoreParts.score_mono ?_ le_rfl rfl rfl le_rfl
  simp only [relayScoreBreakdown]
  rw [div_le_div_iff₀ (by positivity) (by positivity)]
  norm_cast
  nlinarith

theorem headroom_activeSessions {more : Nat} (hg : snapshot.activeSessions ≤ more) :
    (relayScoreBreakdown desc { snapshot with activeSessions := more } neutral).headroom ≤
      (relayScoreBreakdown desc snapshot neutral).headroom := by
  simp only [relayScoreBreakdown]
  split
  next hc =>
    have hp : (0 : ℚ) < desc.maxSessions := Int.cast_pos.mpr hc
    refine clamp01_mono (div_le_div_of_nonneg_right ?_ hp.le)
    exact_mod_cast (by omega : desc.maxSessions - more ≤ desc.maxSessions - snapshot.activeSessions)
  next => exact le_rfl

theorem overCapacityPenalty_activeSessions {more : Nat} (hg : snapshot.activeSessions ≤ more) :
    overCapacityPenalty desc snapshot ≤ overCapacityPenalty desc { snapshot with activeSessions := more } := by
  by_cases hw : desc.maxSessions ≤ 0 ∨ snapshot.activeSessions ≤ desc.maxSessions
  · rw [overCapacityPenalty, if_pos hw]
    exact (overCapacityPenalty_bounds _ _).1
  · have ha : ¬(desc.maxSessions ≤ 0 ∨ (more : Int) ≤ desc.maxSessions) := by omega
    simp only [overCapacityPenalty, if_neg hw, if_neg ha, rankingMaxOverCapacityPenalty]
    have hp : (0 : ℚ) < desc.maxSessions := Int.cast_pos.mpr (by omega)
    refine mul_le_mul_of_nonneg_left (clamp01_mono (div_le_div_of_nonneg_right ?_ hp.le)) (by norm_num)
    exact_mod_cast (by omega : (snapshot.activeSessions : Int) - desc.maxSessions ≤ more - desc.maxSessions)

theorem relayScore_activeSessions {more : Nat} (hg : snapshot.activeSessions ≤ more) :
    relayScore desc { snapshot with activeSessions := more } neutral ≤ relayScore desc snapshot neutral :=
  RelayScoreParts.score_mono le_rfl (headroom_activeSessions desc snapshot neutral hg) rfl rfl
    (overCapacityPenalty_activeSessions desc snapshot hg)

end Laws

/-! ### The neutral latency of a ranking pass -/

theorem median_unit {values : List ℚ} (hu : ∀ x ∈ values, Unit01 x) : Unit01 (median values) := by
  have he : ∀ i, Unit01 ((values.mergeSort fun a b => decide (a ≤ b)).getD i 0) := by
    intro i
    rw [List.getD_eq_getElem?_getD]
    cases hf : (values.mergeSort fun a b => decide (a ≤ b))[i]? with
    | none => constructor <;> norm_num
    | some x => exact hu x (List.mem_mergeSort.mp (List.mem_of_getElem? hf))
  unfold median
  split
  · constructor <;> norm_num
  · simp only
    split
    · exact he _
    · have low := he ((values.mergeSort fun a b => decide (a ≤ b)).length / 2 - 1)
      have hhi := he ((values.mergeSort fun a b => decide (a ≤ b)).length / 2)
      constructor <;> linarith [low.1, low.2, hhi.1, hhi.2]

theorem neutralLatencyScore_unit (relays : List Descriptor) (snapshots : KeyedMap String RelayMetricsSnapshot) :
    Unit01 (neutralLatencyScore relays snapshots) := by
  simp only [neutralLatencyScore]
  split
  · constructor <;> norm_num [rankingDefaultLatencyScore]
  · refine median_unit fun x mem => ?_
    obtain ⟨desc, -, hm⟩ := List.mem_filterMap.mp mem
    exact measuredLatencyScore_unit hm

/-! ### The laws -/

theorem relay_score_laws (desc : Descriptor) (snapshot : RelayMetricsSnapshot) (neutral : ℚ) (unit : Unit01 neutral) :
    Unit01 (relayScore desc snapshot neutral) ∧
    (∀ more ≥ snapshot.successes,
      relayScore desc snapshot neutral ≤ relayScore desc { snapshot with successes := more } neutral) ∧
    (∀ more ≥ snapshot.failures,
      relayScore desc { snapshot with failures := more } neutral ≤ relayScore desc snapshot neutral) ∧
    (∀ more ≥ snapshot.activeSessions,
      relayScore desc { snapshot with activeSessions := more } neutral ≤ relayScore desc snapshot neutral) ∧
    (∀ desc' snapshot' neutral', Unit01 neutral' →
      let parts := relayScoreBreakdown desc snapshot neutral
      let parts' := relayScoreBreakdown desc' snapshot' neutral'
      parts'.latency = parts.latency → parts'.speed = parts.speed → parts'.reliability + 1 / 2 ≤ parts.reliability →
        relayScore desc' snapshot' neutral' < relayScore desc snapshot neutral) := by
  refine ⟨clamp01_unit _, fun more hg => relayScore_successes desc snapshot neutral hg,
    fun more hg => relayScore_failures desc snapshot neutral hg,
    fun more hg => relayScore_activeSessions desc snapshot neutral hg, ?_⟩
  intro desc' snapshot' neutral' hun parts parts' hl hs gap
  exact (relayScoreBreakdown_ranged desc snapshot unit).score_lt (relayScoreBreakdown_ranged desc' snapshot' hun)
    hl hs gap

/-- A full relay that connected three times scores above an idle one that failed three times. -/
theorem relay_score_laws_full_beats_idle :
    let busy : Descriptor := { id := "busy", maxSessions := 10 }
    let idle : Descriptor := { id := "idle", maxSessions := 10 }
    let worked : RelayMetricsSnapshot := { successes := 3, activeSessions := 20 }
    let failed : RelayMetricsSnapshot := { failures := 3 }
    let neutral := neutralLatencyScore [busy, idle] ((∅ : KeyedMap String _).insert "busy" worked |>.insert "idle" failed)
    relayScore idle failed neutral < relayScore busy worked neutral := by
  intro busy idle worked failed neutral
  have hu : Unit01 neutral := neutralLatencyScore_unit _ _
  refine (relay_score_laws busy worked neutral hu).2.2.2.2 idle failed neutral hu rfl rfl ?_
  norm_num [relayScoreBreakdown, worked, failed]

end OpenRung.Broker
