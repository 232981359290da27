import OpenRung.Wss.IdleGuard

/-! The idle guard under any interleaving of its calls and of late callbacks. A callback of the guard's generation is
    outstanding exactly while the guard is open, unexpired, armed and without streams, since every step that leaves
    that condition advances the generation. -/

namespace OpenRung.Wss
open IdleGuard

variable {g g' : IdleGuard} {label : GuardLabel}

structure Armed (g : IdleGuard) : Prop where
  openGuard : g.closed = false
  unexpired : g.expired = false
  armed : g.disarmed = false
  idle : g.active = 0

structure GuardInv (onExpire : Bool) (g : IdleGuard) : Prop where
  bound : ∀ n ∈ g.outstanding, n ≤ g.generation
  nodup : g.outstanding.Nodup
  current : g.generation ∈ g.outstanding ↔ Armed g
  idle : g.expired = true → g.active = 0
  kind : g.onExpire = onExpire
  calls : g.made + g.due = if g.expired && onExpire then 1 else 0

/-! ### Steps -/

theorem stop_eq (g : IdleGuard) (inTime : Bool) :
    ∃ outstanding, outstanding.Sublist g.outstanding ∧ g.stop inTime = { g with outstanding } := by
  unfold stop
  split
  · exact ⟨_, List.erase_sublist, rfl⟩
  · exact ⟨_, .refl _, rfl⟩

namespace GuardInv
variable {onExpire : Bool}

theorem advance (inv : GuardInv onExpire g) {outstanding : List Nat} (hsub : outstanding.Sublist g.outstanding)
    {active : Nat} {closed disarmed : Bool} (hbusy : active ≠ 0 ∨ closed = true ∨ disarmed = true)
    (hidle : g.expired = true → active = 0) :
    GuardInv onExpire { g with active, closed, disarmed, generation := g.generation + 1, outstanding } where
  bound n hn := Nat.le_succ_of_le (inv.bound n (hsub.subset hn))
  nodup := inv.nodup.sublist hsub
  current := by
    constructor
    · intro h
      exact absurd (inv.bound _ (hsub.subset h)) (Nat.not_succ_le_self _)
    · rintro ⟨hopen, -, harmed, hzero⟩
      simp_all
  idle := hidle
  kind := inv.kind
  calls := inv.calls

theorem schedule (inv : GuardInv onExpire g) (hopen : g.closed = false) (hexpired : g.expired = false)
    (harmed : g.disarmed = false) : GuardInv onExpire (scheduleLocked { g with active := 0 }) where
  bound := by
    intro n hn
    rcases List.mem_append.mp hn with hn | hn
    · exact Nat.le_succ_of_le (inv.bound n hn)
    · exact (List.mem_singleton.mp hn).le
  nodup := by
    have hnew : g.generation + 1 ∉ g.outstanding := fun h => absurd (inv.bound _ h) (Nat.not_succ_le_self _)
    exact List.nodup_append.mpr ⟨inv.nodup, by simp, by
      intro n hn m hm
      rw [List.mem_singleton.mp hm]
      rintro rfl
      exact hnew hn⟩
  current := ⟨fun _ => ⟨hopen, hexpired, harmed, rfl⟩, fun _ => List.mem_append_right _ (List.mem_singleton_self _)⟩
  idle := fun _ => rfl
  kind := inv.kind
  calls := inv.calls

theorem start (inv : GuardInv onExpire g) (inTime : Bool) : GuardInv onExpire (g.start inTime).2 := by
  unfold IdleGuard.start
  split
  · exact inv
  · rename_i hrefused
    have hexpired : g.expired = false := by simp_all
    dsimp only
    split
    · obtain ⟨outstanding, hsub, hstop⟩ := stop_eq { g with generation := g.generation + 1 } inTime
      rw [hstop]
      exact inv.advance hsub (.inl (Nat.succ_ne_zero _)) (by simp [hexpired])
    · rename_i hactive
      refine ⟨inv.bound, inv.nodup, ?_, by simp [hexpired], inv.kind, inv.calls⟩
      rw [inv.current]
      exact ⟨fun h => absurd h.idle hactive, fun h => absurd h.idle (Nat.succ_ne_zero _)⟩

theorem done (inv : GuardInv onExpire g) : GuardInv onExpire g.done := by
  unfold IdleGuard.done
  split
  · exact inv
  · rename_i hrefused
    simp only [Bool.or_eq_true, decide_eq_true_eq, not_or, Bool.not_eq_true] at hrefused
    obtain ⟨hopen, hactive⟩ := hrefused
    have hexpired : g.expired = false := by
      by_contra h
      exact hactive (inv.idle (by simpa using h))
    dsimp only
    split
    · rename_i hlast
      simp only [Bool.and_eq_true, decide_eq_true_eq, Bool.not_eq_true'] at hlast
      rw [hlast.1]
      exact inv.schedule hopen hexpired hlast.2
    · rename_i hmore
      refine ⟨inv.bound, inv.nodup, ?_, by simp [hexpired], inv.kind, inv.calls⟩
      rw [inv.current]
      refine ⟨fun h => absurd h.idle hactive, fun h => absurd ?_ hmore⟩
      have hidle : g.active - 1 = 0 := h.idle
      have harmed : g.disarmed = false := h.armed
      simp [hidle, harmed]

theorem disarm (inv : GuardInv onExpire g) (inTime : Bool) : GuardInv onExpire (g.disarm inTime) := by
  unfold IdleGuard.disarm
  split
  · exact inv
  · obtain ⟨outstanding, hsub, hstop⟩ := stop_eq { g with disarmed := true, generation := g.generation + 1 } inTime
    rw [hstop]
    exact inv.advance hsub (.inr (.inr rfl)) inv.idle

theorem close (inv : GuardInv onExpire g) (inTime : Bool) : GuardInv onExpire (g.close inTime) := by
  obtain ⟨outstanding, hsub, hstop⟩ := stop_eq { g with closed := true, generation := g.generation + 1 } inTime
  rw [IdleGuard.close, hstop]
  exact inv.advance hsub (.inr (.inl rfl)) inv.idle

/-- The guard expires by the callback of its generation only, and that one is then gone. -/
theorem callback (inv : GuardInv onExpire g) {n : Nat} (hn : n ∈ g.outstanding) :
    GuardInv onExpire (expire { g with outstanding := g.outstanding.erase n } n) := by
  have hbound : ∀ m ∈ g.outstanding.erase n, m ≤ g.generation := fun m hm => inv.bound m (List.mem_of_mem_erase hm)
  have hnodup := inv.nodup.erase n
  unfold expire
  split
  · rename_i hkept
    refine ⟨hbound, hnodup, ?_, inv.idle, inv.kind, inv.calls⟩
    have hcurrent : g.generation ∈ g.outstanding.erase n ↔ Armed g := by
      rw [inv.nodup.mem_erase_iff, ← inv.current]
      refine and_iff_right_of_imp fun h heq => ?_
      have harmed := inv.current.mp h
      simp [harmed.openGuard, harmed.unexpired, harmed.idle, heq] at hkept
    exact hcurrent.trans ⟨fun h => ⟨h.1, h.2, h.3, h.4⟩, fun h => ⟨h.1, h.2, h.3, h.4⟩⟩
  · rename_i hexpires
    simp only [Bool.or_eq_true, decide_eq_true_eq, not_or, Bool.not_eq_true, not_not] at hexpires
    obtain ⟨⟨⟨hopen, hexpired⟩, hactive⟩, rfl⟩ := hexpires
    refine ⟨hbound, hnodup, ?_, fun _ => hactive, inv.kind, ?_⟩
    · refine ⟨fun h => absurd h inv.nodup.not_mem_erase, fun h => absurd h.unexpired (by simp)⟩
    · have hcalls := inv.calls
      rw [hexpired] at hcalls
      have hkind := inv.kind
      cases onExpire <;> simp_all

theorem step (inv : GuardInv onExpire g) (h : g.Step label g') : GuardInv onExpire g' := by
  cases label with
  | start inTime =>
    cases h
    exact inv.start inTime
  | done =>
    cases h
    exact inv.done
  | disarm inTime =>
    cases h
    exact inv.disarm inTime
  | close inTime =>
    cases h
    exact inv.close inTime
  | callback n =>
    obtain ⟨hn, ⟨⟩⟩ := Option.ite_none_right_eq_some.mp h
    exact inv.callback hn
  | onExpire =>
    obtain ⟨hdue, ⟨⟩⟩ := Option.ite_none_right_eq_some.mp h
    refine ⟨inv.bound, inv.nodup, inv.current.trans ⟨fun h => ⟨h.1, h.2, h.3, h.4⟩, fun h => ⟨h.1, h.2, h.3, h.4⟩⟩,
      inv.idle, inv.kind, ?_⟩
    have hcalls := inv.calls
    dsimp only
    omega

end GuardInv

/-! ### Runs -/

structure Later (g g' : IdleGuard) : Prop where
  expired : g.expired = true → g'.expired = true
  closed : g.closed = true → g'.closed = true
  disarmed : g.disarmed = true → g'.disarmed = true
  generation : g.generation ≤ g'.generation

theorem Later.refl (g : IdleGuard) : Later g g := ⟨id, id, id, le_rfl⟩

theorem Later.trans {g'' : IdleGuard} (h : Later g g') (h' : Later g' g'') : Later g g'' :=
  ⟨h'.expired ∘ h.expired, h'.closed ∘ h.closed, h'.disarmed ∘ h.disarmed, h.generation.trans h'.generation⟩

theorem Step.later (h : g.Step label g') : Later g g' := by
  cases label with
  | start inTime =>
    cases h
    unfold start stop
    constructor <;> grind
  | done =>
    cases h
    unfold done scheduleLocked
    constructor <;> grind
  | disarm inTime =>
    cases h
    unfold disarm stop
    constructor <;> grind
  | close inTime =>
    cases h
    unfold close stop
    constructor <;> grind
  | callback n =>
    obtain ⟨-, ⟨⟩⟩ := Option.ite_none_right_eq_some.mp h
    unfold expire
    constructor <;> grind
  | onExpire =>
    obtain ⟨-, ⟨⟩⟩ := Option.ite_none_right_eq_some.mp h
    exact ⟨id, id, id, le_rfl⟩

theorem later_of_trace {labels : List GuardLabel} (h : Trace Step g labels g') : Later g g' :=
  h.invariant (P := Later g) (fun _ _ _ hlater hstep => hlater.trans (Step.later hstep)) (.refl g)

theorem eq_generation_of_expire {n : Nat} (hbefore : g.expired = false) (hafter : (g.expire n).expired = true) :
    n = g.generation := by
  unfold expire at hafter
  split at hafter
  · simp [hbefore] at hafter
  · simp_all

theorem expire_eq_true (harmed : Armed g) : (g.expire g.generation).expired = true := by
  simp [expire, harmed.openGuard, harmed.unexpired, harmed.idle]

theorem Step.expires {onExpire : Bool} (inv : GuardInv onExpire g) (h : g.Step label g') (hbefore : g.expired = false)
    (hafter : g'.expired = true) : Armed g := by
  cases label with
  | start inTime =>
    cases h
    unfold start stop at hafter
    grind
  | done =>
    cases h
    unfold done scheduleLocked at hafter
    grind
  | disarm inTime =>
    cases h
    unfold disarm stop at hafter
    grind
  | close inTime =>
    cases h
    unfold close stop at hafter
    grind
  | callback n =>
    obtain ⟨hn, ⟨⟩⟩ := Option.ite_none_right_eq_some.mp h
    have hgeneration : n = g.generation :=
      eq_generation_of_expire (g := { g with outstanding := g.outstanding.erase n }) hbefore hafter
    exact inv.current.mp (hgeneration ▸ hn)
  | onExpire =>
    obtain ⟨-, ⟨⟩⟩ := Option.ite_none_right_eq_some.mp h
    simp [hbefore] at hafter

def CouldExpire (g : IdleGuard) (n : Nat) : Prop :=
  ∃ labels g', Trace Step g labels g' ∧ g'.expired = false ∧ (g'.expire n).expired = true

theorem GuardInv.new (onExpire : Bool) : GuardInv onExpire (newIdleGuard onExpire) where
  bound := by simp [newIdleGuard, scheduleLocked]
  nodup := by simp [newIdleGuard, scheduleLocked]
  current := ⟨fun _ => ⟨rfl, rfl, rfl, rfl⟩, fun _ => by simp [newIdleGuard, scheduleLocked]⟩
  idle _ := rfl
  kind := rfl
  calls := rfl

theorem idle_guard_expires_once {onExpire : Bool} {labels : List GuardLabel}
    (reached : Trace Step (newIdleGuard onExpire) labels g) :
    (∀ label g', g.Step label g' → Later g g' ∧ (g.expired = false → g'.expired = true →
      g.active = 0 ∧ g.disarmed = false ∧ g.closed = false)) ∧
      g.made + g.due = (if g.expired && onExpire then 1 else 0) ∧
      (g.expired = true ∨ g.closed = true → ∀ labels g', Trace Step g labels g' →
        ∀ inTime, g'.start inTime = (false, g')) ∧
      (Armed g → g.outstanding.Nodup ∧ ∃! n, n ∈ g.outstanding ∧ CouldExpire g n) := by
  have inv : GuardInv onExpire g := reached.invariant (fun _ _ _ inv h => inv.step h) (.new onExpire)
  refine ⟨fun label g' h => ⟨Step.later h, fun hbefore hafter => ?_⟩, inv.calls, fun hover labels g' h inTime => ?_,
    fun harmed => ⟨inv.nodup, g.generation, ⟨inv.current.mpr harmed, ?_⟩, ?_⟩⟩
  · have harmed := Step.expires inv h hbefore hafter
    exact ⟨harmed.idle, harmed.armed, harmed.openGuard⟩
  · have hlater := later_of_trace h
    have hover' : (g'.closed || g'.expired) = true := by
      rw [Bool.or_eq_true]
      exact hover.symm.imp hlater.closed hlater.expired
    exact if_pos hover'
  · exact ⟨[], g, .refl, harmed.unexpired, expire_eq_true harmed⟩
  · rintro n ⟨hn, labels, g', htrace, hbefore, hafter⟩
    have heq := eq_generation_of_expire hbefore hafter
    have hle := (later_of_trace htrace).generation
    exact le_antisymm (inv.bound n hn) (heq ▸ hle)

theorem idle_guard_late_callback :
    let g : IdleGuard := { expired := true, generation := 3, timer := 3, onExpire := true, made := 1 }
    Trace Step (newIdleGuard true) [.start false, .done, .callback 1, .callback 3, .onExpire] g ∧
      g.made + g.due = (if g.expired && true then 1 else 0) := by
  have reached : Trace Step (newIdleGuard true) [.start false, .done, .callback 1, .callback 3, .onExpire]
      { expired := true, generation := 3, timer := 3, onExpire := true, made := 1 } := Trace.of_foldlM rfl
  exact ⟨reached, (idle_guard_expires_once reached).2.1⟩

end OpenRung.Wss
