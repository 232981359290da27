import OpenRung.Broker.Enrollment

/-! When a new key is refused by the enrollment budget. Both stores refuse on the wait they computed, not on the
    counts, and the wait is taken with the configured length of a window whose start may be that of a longer one. -/

namespace OpenRung.Broker

/-! ### The wait that the loop keeps -/

/-- Zero stands for "no wait yet". -/
def keepWait (retryAfter wait : Duration) : Duration := if retryAfter = 0 ∨ wait < retryAfter then wait else retryAfter

def shortestWait (waits : List Duration) : Duration := waits.foldl keepWait 0

theorem shortestWait_concat (waits : List Duration) (wait : Duration) :
    shortestWait (waits ++ [wait]) = keepWait (shortestWait waits) wait := by
  rw [shortestWait, List.foldl_append]
  rfl

theorem shortestWait_neg_iff (waits : List Duration) : shortestWait waits < 0 ↔ ∃ wait ∈ waits, wait < 0 := by
  induction waits using List.reverseRecOn with
  | nil => simp [shortestWait]
  | append_singleton waits wait ih =>
    have hs : (∃ w ∈ waits ++ [wait], w < 0) ↔ (∃ w ∈ waits, w < 0) ∨ wait < 0 := by
      simp only [List.mem_append, List.mem_singleton, or_and_right, exists_or, exists_eq_left]
    rw [shortestWait_concat, hs, ← ih, keepWait]
    split_ifs <;> lia

theorem shortestWait_pos_iff (waits : List Duration) :
    0 < shortestWait waits ↔ (∀ wait ∈ waits, 0 ≤ wait) ∧ ∃ wait, waits.getLast? = some wait ∧ 0 < wait := by
  induction waits using List.reverseRecOn with
  | nil => simp [shortestWait]
  | append_singleton waits wait ih =>
    have hn : (∀ w ∈ waits, 0 ≤ w) ↔ ¬shortestWait waits < 0 := by
      rw [shortestWait_neg_iff]
      push Not
      rfl
    have hs : (∀ w ∈ waits ++ [wait], 0 ≤ w) ↔ ¬shortestWait waits < 0 ∧ 0 ≤ wait := by
      rw [← hn]
      simp only [List.mem_append, List.mem_singleton, or_imp, forall_and, forall_eq]
    rw [shortestWait_concat, hs, List.getLast?_concat, keepWait]
    simp only [Option.some.injEq, exists_eq_left']
    split_ifs <;> lia

/-! ### What a charge meets -/

structure StoredWindow where
  start : Time
  ends : Time
  count : Int

structure Met where
  window : EnrollmentWindow
  stored : Option StoredWindow

namespace Met

def running (now : Time) (m : Met) : Option StoredWindow := m.stored.filter fun stored => decide (now < stored.ends)

def count (now : Time) (m : Met) : Int := (m.running now).elim 1 (·.count + 1)

def Exceeded (now : Time) (m : Met) : Prop := m.window.limit < m.count now

instance (now : Time) (m : Met) : Decidable (m.Exceeded now) := inferInstanceAs (Decidable (_ < _))

def wait (now : Time) (m : Met) : Duration := (m.running now).elim now (·.start) + m.window.window - now

variable {m : Met} {now : Time} {stored : StoredWindow}

theorem of_running (ht : m.stored = some stored) (hru : now < stored.ends) :
    m.count now = stored.count + 1 ∧ m.wait now = stored.start + m.window.window - now := by
  have hrn : m.running now = some stored := by rw [Met.running, ht, Option.filter_some, if_pos (by simpa using hru)]
  rw [Met.count, Met.wait, hrn]
  exact ⟨rfl, rfl⟩

theorem of_ended (ha : ∀ stored, m.stored = some stored → ¬now < stored.ends) :
    m.count now = 1 ∧ m.wait now = now + m.window.window - now := by
  have hrn : m.running now = none := by
    rw [Met.running, Option.filter_eq_none_iff]
    intro stored ht
    simpa using ha stored ht
  rw [Met.count, Met.wait, hrn]
  exact ⟨rfl, rfl⟩

end Met

def exceeded (now : Time) (met : List Met) : List Met := met.filter fun m => decide (m.Exceeded now)

/-- No window over its limit has a start that lies more than its configured length back, and the last one of them in the
    list has one that lies less than that back. -/
structure Punctual (now : Time) (met : List Met) : Prop where
  all : ∀ m ∈ exceeded now met, 0 ≤ m.wait now
  last : ∀ m, (exceeded now met).getLast? = some m → 0 < m.wait now

def waitOf (now : Time) (met : List Met) : Duration := shortestWait ((exceeded now met).map (Met.wait now))

theorem mem_exceeded {now : Time} {met : List Met} {m : Met} : m ∈ exceeded now met ↔ m ∈ met ∧ m.Exceeded now := by
  rw [exceeded, List.mem_filter, decide_eq_true_iff]

theorem waitOf_pos_iff (now : Time) (met : List Met) :
    0 < waitOf now met ↔ (∃ m ∈ met, m.Exceeded now) ∧ Punctual now met := by
  rw [waitOf, shortestWait_pos_iff, List.getLast?_map]
  constructor
  · rintro ⟨all, wait, hla, pos⟩
    obtain ⟨m, ht, rfl⟩ := Option.map_eq_some_iff.mp hla
    refine ⟨⟨m, mem_exceeded.mp (List.mem_of_getLast? ht)⟩, fun m ht => all _ (List.mem_map_of_mem ht), ?_⟩
    intro m' hth
    rw [ht] at hth
    cases hth
    exact pos
  · rintro ⟨⟨m, ht⟩, hp⟩
    refine ⟨List.forall_mem_map.mpr hp.all, ?_⟩
    have hso : exceeded now met ≠ [] := List.ne_nil_of_mem (mem_exceeded.mpr ht)
    have hla := List.getLast?_eq_some_getLast hso
    exact ⟨_, by rw [hla]; rfl, hp.last _ hla⟩

theorem Punctual.of_none {now : Time} {met : List Met} (hno : ¬∃ m ∈ met, m.Exceeded now) : Punctual now met := by
  have hem : exceeded now met = [] :=
    List.eq_nil_iff_forall_not_mem.mpr fun m ht => hno ⟨m, mem_exceeded.mp ht⟩
  constructor <;> simp [hem]

/-- Refusing on the wait is refusing on the counts just when the waits are positive where they have to be. -/
theorem waitOf_decides_iff (now : Time) (met : List Met) :
    (0 < waitOf now met ↔ ∃ m ∈ met, m.Exceeded now) ↔ Punctual now met := by
  rw [waitOf_pos_iff]
  constructor
  · intro hd
    by_cases hso : ∃ m ∈ met, m.Exceeded now
    · exact (hd.mpr hso).2
    · exact .of_none hso
  · exact fun hp => and_iff_left hp

theorem foldl_exceeded_cons (now : Time) (m : Met) (met : List Met) (retryAfter : Duration) :
    ((exceeded now (m :: met)).map (Met.wait now)).foldl keepWait retryAfter =
      ((exceeded now met).map (Met.wait now)).foldl keepWait
        (if m.Exceeded now ∧ (retryAfter = 0 ∨ m.wait now < retryAfter) then m.wait now else retryAfter) := by
  by_cases ha : m.Exceeded now
  · simp only [exceeded, List.filter_cons, ha, decide_true, if_true, true_and, List.map_cons, List.foldl_cons]
    rfl
  · simp only [exceeded, List.filter_cons, ha, decide_false, Bool.false_eq_true, if_false, false_and]

def RefusedAs {ε α : Type} (error : Duration → ε) (answer : Except ε α) : Prop :=
  ∃ retryAfter, answer = .error (error retryAfter)

/-! ### The store in memory -/

def EnrollmentCounter.stored (c : EnrollmentCounter) : StoredWindow :=
  { start := c.windowStart, ends := c.windowStart + c.window, count := c.count }

namespace Store

def met (s : Store) (sourceKey : String) (windows : List EnrollmentWindow) : List Met :=
  let counters := (s.enrollment.lookup sourceKey).getD ∅
  windows.map fun w => { window := w, stored := (counters.lookup w.name).map EnrollmentCounter.stored }

theorem chargeWindow_snd (counters : KeyedMap String EnrollmentCounter) (now : Time)
    (acc : KeyedMap String EnrollmentCounter × Duration) (w : EnrollmentWindow) :
    let m : Met := { window := w, stored := (counters.lookup w.name).map EnrollmentCounter.stored }
    (chargeWindow counters now acc w).2 =
      if m.Exceeded now ∧ (acc.2 = 0 ∨ m.wait now < acc.2) then m.wait now else acc.2 := by
  intro m
  have he {n : Int} (hc : m.count now = n) : m.Exceeded now ↔ w.limit < n := by rw [Met.Exceeded, hc]
  cases hf : counters.lookup w.name with
  | none =>
    obtain ⟨hc, hw⟩ : m.count now = 1 ∧ m.wait now = now + w.window - now :=
      Met.of_ended fun stored ht => by simp [m, hf] at ht
    simp only [hw, he hc]
    simp [chargeWindow, hf]
  | some c =>
    by_cases hru : now < c.windowStart + c.window
    · obtain ⟨hc, hw⟩ : m.count now = c.count + 1 ∧ m.wait now = c.windowStart + w.window - now :=
        Met.of_running (m := m) (show m.stored = some c.stored by simp [m, hf]) hru
      simp only [hw, he hc]
      simp [chargeWindow, hf, hru]
    · obtain ⟨hc, hw⟩ : m.count now = 1 ∧ m.wait now = now + w.window - now := by
        apply Met.of_ended
        intro stored ht
        simp only [m, hf, Option.map_some, Option.some.injEq] at ht
        rwa [← ht]
      simp only [hw, he hc]
      simp [chargeWindow, hf, hru]

theorem foldl_chargeWindow (counters : KeyedMap String EnrollmentCounter) (now : Time) (windows : List EnrollmentWindow)
    (acc : KeyedMap String EnrollmentCounter × Duration) :
    (windows.foldl (chargeWindow counters now) acc).2 =
      ((exceeded now (windows.map fun w =>
        { window := w, stored := (counters.lookup w.name).map EnrollmentCounter.stored })).map (Met.wait now)).foldl
        keepWait acc.2 := by
  induction windows generalizing acc with
  | nil => rfl
  | cons w windows ih => rw [List.foldl_cons, ih, chargeWindow_snd, List.map_cons, foldl_exceeded_cons]

theorem authenticateUser_refused (s : Store) {key : String} (source : String) (windows : List EnrollmentWindow)
    (newUserID : Option String) (now : Time) (hi : s.userIDsByKey.lookup key = none) :
    let answer := s.authenticateUser key source windows none newUserID now
    (RefusedAs StoreError.enrollmentLimited answer.2 ↔ 0 < waitOf now (s.met source windows)) ∧
      (RefusedAs StoreError.enrollmentLimited answer.2 → answer.1 = s) := by
  have hw : waitOf now (s.met source windows) =
      (windows.foldl (chargeWindow ((s.enrollment.lookup source).getD ∅) now) (∅, 0)).2 :=
    (foldl_chargeWindow _ now windows (∅, 0)).symm
  by_cases pos : 0 < waitOf now (s.met source windows)
  · have hr : s.authenticateUser key source windows none newUserID now =
        (s, .error (.enrollmentLimited (waitOf now (s.met source windows)))) := by
      rw [hw] at pos ⊢
      simp only [authenticateUser, hi, if_pos pos]
    rw [hr]
    exact ⟨iff_of_true ⟨_, rfl⟩ pos, fun _ => rfl⟩
  · have hpa : ¬RefusedAs StoreError.enrollmentLimited
        (s.authenticateUser key source windows none newUserID now).2 := by
      rw [hw] at pos
      rintro ⟨retryAfter, eq⟩
      simp only [authenticateUser, hi, if_neg pos] at eq
      cases newUserID <;> cases eq
    exact ⟨iff_of_false hpa pos, fun hr => absurd hr hpa⟩

end Store

/-! ### Postgres -/

def CounterColumns.stored (row : CounterColumns) : StoredWindow :=
  { start := row.windowStart * 1000, ends := row.windowEnd * 1000, count := row.count }

namespace PostgresUsers

def metFrom (sourceKey : String) (now : Time) :
    List EnrollmentWindow → KeyedMap (String × String) CounterColumns → List Met
  | [], _ => []
  | w :: windows, counters =>
    { window := w, stored := (counters.lookup (sourceKey, w.name)).map CounterColumns.stored } ::
      metFrom sourceKey now windows (Table.upsert (sourceKey, w.name) (freshRow w now) (recharged w now) counters)

def met (pg : PostgresUsers) (sourceKey : String) (windows : List EnrollmentWindow) (now : Time) : List Met :=
  metFrom sourceKey now windows pg.counters

def CountsFit (now : Time) (met : List Met) : Prop := ∀ m ∈ met, int4 (m.count now) = true

theorem charged_row {sourceKey : String} {w : EnrollmentWindow} {now : Time}
    {counters : KeyedMap (String × String) CounterColumns} {m : Met}
    (hme : m = { window := w, stored := (counters.lookup (sourceKey, w.name)).map CounterColumns.stored }) :
    let row := (counters.lookup (sourceKey, w.name)).elim (freshRow w now) (recharged w now)
    row.windowSeconds = w.window.tdiv second ∧ row.count = m.count now ∧
      (row.count = 1 ∨ row.windowStart * 1000 + w.window - now = m.wait now) := by
  subst hme
  cases hf : counters.lookup (sourceKey, w.name) with
  | none => exact ⟨rfl, rfl, .inl rfl⟩
  | some row =>
    have hen : row.windowEnd ≤ timestamptz now ↔ ¬now < row.windowEnd * 1000 := by
      rw [timestamptz, Int.le_ediv_iff_mul_le (by decide), not_lt]
    let m : Met := { window := w, stored := some row.stored }
    by_cases hru : now < row.windowEnd * 1000
    · have hg : ¬row.windowEnd ≤ timestamptz now := fun ha => hen.mp ha hru
      obtain ⟨hc, hw⟩ : m.count now = row.count + 1 ∧ m.wait now = row.windowStart * 1000 + w.window - now :=
        Met.of_running (show m.stored = some row.stored from rfl) hru
      refine ⟨rfl, Eq.trans ?_ hc.symm, .inr (Eq.trans ?_ hw.symm)⟩ <;>
        simp only [Option.elim_some, recharged, if_neg hg]
    · have ha := hen.mpr hru
      obtain ⟨hc, -⟩ : m.count now = 1 ∧ m.wait now = now + w.window - now := by
        apply Met.of_ended
        rintro stored ⟨rfl⟩
        exact hru
      refine ⟨rfl, Eq.trans ?_ hc.symm, .inl ?_⟩ <;> simp only [Option.elim_some, recharged, if_pos ha]

theorem chargeWindows_spec (sourceKey : String) (now : Time) {windows : List EnrollmentWindow}
    (hli : ∀ w ∈ windows, 0 < w.limit) (hl : ∀ w ∈ windows, second ≤ w.window)
    (counters : KeyedMap (String × String) CounterColumns) (retryAfter : Duration) :
    (CountsFit now (metFrom sourceKey now windows counters) → ∃ counters',
      chargeWindows sourceKey now windows counters retryAfter = .ok (counters',
        ((exceeded now (metFrom sourceKey now windows counters)).map (Met.wait now)).foldl keepWait retryAfter)) ∧
    (¬CountsFit now (metFrom sourceKey now windows counters) →
      chargeWindows sourceKey now windows counters retryAfter = .error .database) := by
  induction windows generalizing counters retryAfter with
  | nil => exact ⟨fun _ => ⟨counters, rfl⟩, fun hun => absurd (fun m ht => by cases ht) hun⟩
  | cons w windows ih =>
    obtain ⟨hlm, hli⟩ := List.forall_mem_cons.mp hli
    obtain ⟨hle, hl⟩ := List.forall_mem_cons.mp hl
    let m : Met := { window := w, stored := (counters.lookup (sourceKey, w.name)).map CounterColumns.stored }
    let row := (counters.lookup (sourceKey, w.name)).elim (freshRow w now) (recharged w now)
    let counters' := Table.upsert (sourceKey, w.name) (freshRow w now) (recharged w now) counters
    obtain ⟨hse, hco, hsr⟩ : row.windowSeconds = w.window.tdiv second ∧ row.count = m.count now ∧
      (row.count = 1 ∨ row.windowStart * 1000 + w.window - now = m.wait now) := charged_row rfl
    have hfi : CountsFit now (m :: metFrom sourceKey now windows counters') ↔
        int4 row.count = true ∧ CountsFit now (metFrom sourceKey now windows counters') := by
      rw [CountsFit, List.forall_mem_cons, ← hco]
      rfl
    -- a window that starts anew counts one, which is not over a positive limit, so its wait is not kept
    have hk : (if w.limit < row.count ∧ (retryAfter = 0 ∨ row.windowStart * 1000 + w.window - now < retryAfter)
          then row.windowStart * 1000 + w.window - now else retryAfter) =
        if m.Exceeded now ∧ (retryAfter = 0 ∨ m.wait now < retryAfter) then m.wait now else retryAfter := by
      have ha : m.Exceeded now ↔ w.limit < row.count := by rw [hco]; rfl
      rcases hsr with one | hsa
      · have hud : ¬w.limit < row.count := by lia
        simp only [ha, hud, false_and, if_false]
      · simp only [hsa, ha]
    have hpo : 0 < row.windowSeconds := by
      rw [hse, Int.tdiv_eq_ediv_of_nonneg (le_trans (by decide) hle)]
      exact Int.le_ediv_of_mul_le (by decide) (by simpa using hle)
    rw [metFrom, foldl_exceeded_cons, chargeWindows]
    by_cases fit : int4 row.count = true
    · have hch : charge sourceKey w now counters = .ok (row, counters') := if_pos ⟨hpo, fit⟩
      obtain ⟨hg, hst⟩ := ih hli hl counters'
        (if m.Exceeded now ∧ (retryAfter = 0 ∨ m.wait now < retryAfter) then m.wait now else retryAfter)
      simp only [hch, hk]
      exact ⟨fun all => hg (hfi.mp all).2, fun hun => hst fun hrt => hun (hfi.mpr ⟨fit, hrt⟩)⟩
    · have hfa : charge sourceKey w now counters = .error .database := if_neg fun h => fit h.2
      rw [hfa]
      exact ⟨fun all => absurd (hfi.mp all).1 fit, fun _ => rfl⟩

theorem renew_none {key : String} {now : Time} {users : KeyedMap String User}
    (hi : ∀ id user, users.lookup id = some user → user.publicKey ≠ key) : (renew key now users).1 = none := by
  have none : Table.selectWhere (fun user : User => decide (user.publicKey = key)) users = [] := by
    rw [List.eq_nil_iff_forall_not_mem]
    intro user ht
    obtain ⟨⟨id, hf⟩, hsa⟩ := Table.mem_selectWhere.mp ht
    exact hi id user hf (of_decide_eq_true hsa)
  simp only [renew, none, List.head?_nil, Option.map_none]

/-- A key that no user has is refused on the wait, with nothing stored; a count that does not fit fails the call. -/
theorem authenticateUser_refused (pg : PostgresUsers) {key : String} (source : String)
    {windows : List EnrollmentWindow} (hli : ∀ w ∈ windows, 0 < w.limit)
    (hl : ∀ w ∈ windows, second ≤ w.window) {id : String} (now : Time)
    (hi : ∀ id user, pg.users.lookup id = some user → user.publicKey ≠ key) (hu : pg.users.lookup id = none) :
    let answer := pg.authenticateUser key source windows none (some id) none now
    let met := pg.met source windows now
    (RefusedAs (fun d => PgError.store (.enrollmentLimited d)) answer.2 ↔ CountsFit now met ∧ 0 < waitOf now met) ∧
      (RefusedAs (fun d => PgError.store (.enrollmentLimited d)) answer.2 → answer.1 = pg) := by
  intro answer met
  obtain ⟨hg, hst⟩ : (CountsFit now met → ∃ counters,
        chargeWindows source now windows pg.counters 0 = .ok (counters, waitOf now met)) ∧
      (¬CountsFit now met → chargeWindows source now windows pg.counters 0 = .error .database) :=
    chargeWindows_spec source now hli hl pg.counters 0
  obtain ⟨users, hre⟩ : ∃ users, renew key now pg.users = (none, users) := ⟨_, Prod.ext (renew_none hi) rfl⟩
  by_cases fit : CountsFit now met
  · obtain ⟨counters, hch⟩ := hg fit
    by_cases pos : 0 < waitOf now met
    · have hr : answer = (pg, .error (.store (.enrollmentLimited (waitOf now met)))) := by
        simp only [answer, authenticateUser, hre, hu, hch, Option.isSome_none, Bool.false_eq_true, if_false,
          if_pos pos]
      rw [hr]
      exact ⟨iff_of_true ⟨_, rfl⟩ ⟨fit, pos⟩, fun _ => rfl⟩
    · have hpa : ¬RefusedAs (fun d => PgError.store (.enrollmentLimited d)) answer.2 := by
        rintro ⟨retryAfter, eq⟩
        simp only [answer, authenticateUser, hre, hu, hch, Option.isSome_none, Bool.false_eq_true, if_false,
          if_neg pos] at eq
        cases eq
      exact ⟨iff_of_false hpa fun hb => pos hb.2, fun hr => absurd hr hpa⟩
  · have hpa : ¬RefusedAs (fun d => PgError.store (.enrollmentLimited d)) answer.2 := by
      rintro ⟨retryAfter, eq⟩
      simp only [answer, authenticateUser, hre, hu, hst fit, Option.isSome_none, Bool.false_eq_true,
        if_false] at eq
      cases eq
    exact ⟨iff_of_false hpa fun hb => fit hb.1, fun hr => absurd hr hpa⟩

end PostgresUsers

/-! ### The decision -/

/-- A new key is refused just when some window is over its limit, exactly where the windows over their limit are
    punctual; with Postgres, a count too large for its column also fails the call. -/
theorem enrollment_decides_iff (windows : List EnrollmentWindow) (limits : ∀ w ∈ windows, 0 < w.limit)
    (lengths : ∀ w ∈ windows, second ≤ w.window) (key source : String) (now : Time) :
    (∀ (s : Store) (newUserID : Option String), s.userIDsByKey.lookup key = none →
      let answer := s.authenticateUser key source windows none newUserID now
      let met := s.met source windows
      ((RefusedAs StoreError.enrollmentLimited answer.2 ↔ ∃ m ∈ met, m.Exceeded now) ∧
        (RefusedAs StoreError.enrollmentLimited answer.2 → answer.1 = s) ↔ Punctual now met)) ∧
    ∀ (pg : PostgresUsers) (id : String), (∀ id user, pg.users.lookup id = some user → user.publicKey ≠ key) →
      pg.users.lookup id = none →
      let answer := pg.authenticateUser key source windows none (some id) none now
      let met := pg.met source windows now
      ((RefusedAs (fun d => PgError.store (.enrollmentLimited d)) answer.2 ↔ ∃ m ∈ met, m.Exceeded now) ∧
        (RefusedAs (fun d => PgError.store (.enrollmentLimited d)) answer.2 → answer.1 = pg) ↔
        Punctual now met ∧ ((∃ m ∈ met, m.Exceeded now) → PostgresUsers.CountsFit now met)) := by
  constructor
  · intro s newUserID hi answer met
    obtain ⟨hr, hk⟩ := s.authenticateUser_refused source windows newUserID now hi
    rw [and_iff_left hk, hr]
    exact waitOf_decides_iff now met
  · intro pg id hi hu answer met
    obtain ⟨hr, hk⟩ := pg.authenticateUser_refused source limits lengths now hi hu
    rw [and_iff_left hk, hr, waitOf_pos_iff]
    constructor
    · intro hd
      by_cases some : ∃ m ∈ met, m.Exceeded now
      · obtain ⟨fit, -, hp⟩ := hd.mpr some
        exact ⟨hp, fun _ => fit⟩
      · exact ⟨.of_none some, fun ha => absurd ha some⟩
    · rintro ⟨hp, fit⟩
      exact ⟨fun hb => hb.2.1, fun some => ⟨fit some, some, hp⟩⟩

theorem EnrollmentBudget.windows_range (b : EnrollmentBudget) (hbu : b.burstWindow ≤ 0 ∨ second ≤ b.burstWindow)
    (hda : b.dailyWindow ≤ 0 ∨ second ≤ b.dailyWindow) :
    (∀ w ∈ b.windows, 0 < w.limit) ∧ ∀ w ∈ b.windows, second ≤ w.window := by
  have hrs {length default : Duration} (h : length ≤ 0 ∨ second ≤ length) (hlr : second ≤ default) :
      second ≤ if length ≤ 0 then default else length := by
    split_ifs with unset
    · exact hlr
    · exact h.resolve_left unset
  constructor <;> intro w ht <;> obtain ⟨hls, hlm⟩ := List.mem_filter.mp ht
  · exact of_decide_eq_true hlm
  · simp only [List.mem_cons, List.not_mem_nil, or_false] at hls
    rcases hls with rfl | rfl
    · exact hrs hbu (by decide)
    · exact hrs hda (by decide)

def threeCounted (window : Duration) : Store where
  enrollment := (∅ : KeyedMap String _).insert "192.0.2.1"
    ((∅ : KeyedMap String EnrollmentCounter).insert "burst" { windowStart := 0, window, count := 3 })

theorem enrollment_decides_default :
    RefusedAs StoreError.enrollmentLimited ((threeCounted hour).authenticateUser "key" "192.0.2.1"
      ({} : EnrollmentBudget).windows none (some "user_1") minute).2 := by
  obtain ⟨hli, hl⟩ := EnrollmentBudget.windows_range {} (.inl le_rfl) (.inl le_rfl)
  obtain ⟨hm, -⟩ := enrollment_decides_iff _ hli hl "key" "192.0.2.1" minute
  have hd := hm (threeCounted hour) (some "user_1") rfl
  have hp : Punctual minute ((threeCounted hour).met "192.0.2.1" ({} : EnrollmentBudget).windows) :=
    ⟨by decide, by rintro m ⟨rfl⟩; decide⟩
  exact (hd.mpr hp).1.mpr (by decide)

/-- A window of an hour whose stored counter is from one of a day: the three keys still count after two hours, and the
    fourth gets in all the same. -/
theorem enrollment_lets_fourth_in :
    let windows : List EnrollmentWindow := [{ name := "burst", limit := 3, window := hour }]
    let row : CounterColumns := { windowStart := 0, windowSeconds := 24 * 3600, count := 3 }
    let pg : PostgresUsers := { counters := (∅ : KeyedMap (String × String) _).insert ("192.0.2.1", "burst") row }
    ((∃ m ∈ (threeCounted (24 * hour)).met "192.0.2.1" windows, m.Exceeded (2 * hour)) ∧
      ((threeCounted (24 * hour)).authenticateUser "key" "192.0.2.1" windows none (some "user_1")
        (2 * hour)).2.toOption.map Prod.snd = some true) ∧
    (∃ m ∈ pg.met "192.0.2.1" windows (2 * hour), m.Exceeded (2 * hour)) ∧
      (pg.authenticateUser "key" "192.0.2.1" windows none (some "user_1") none (2 * hour)).2.toOption.map Prod.snd =
        some true := by
  decide +kernel

end OpenRung.Broker
