import OpenRung.Lib.Trace
import OpenRung.Broker.RollupBackfill

/-! The backfill folds the old rows once each. The watermark is advanced only by the transaction that holds its row,
    so the committed chunks are disjoint ranges; and the range ends at a reading of the clock that no broker with the
    rollup receives an event before. -/

namespace OpenRung.Broker

theorem timestamptz_le {a b : Time} (le : a ≤ b) : timestamptz a ≤ timestamptz b :=
  Int.ediv_le_ediv (by decide) le

namespace RollupSystem

variable {s t : RollupSystem} {p : Nat}

/-! ### What the tables and the brokers keep -/

structure Rows (s : RollupSystem) : Prop where
  fresh : ∀ e ∈ s.events, e.seq < s.next
  distinct : s.events.Nodup
  covered : ∀ e ∈ s.events, s.covered e.receivedAt
  stamped : ∀ e ∈ s.events, e.origin = .early → e.receivedAt ≤ timestamptz s.clock

structure Walked (s : RollupSystem) (state : RollupState) : Prop where
  started : s.started = true
  recorded : state.backfillUntil ≤ timestamptz s.clock
  early : ∀ e ∈ s.events, e.origin = .early → e.receivedAt ≤ state.backfillUntil
  live : ∀ e ∈ s.events, e.origin = .live → state.backfillUntil ≤ e.receivedAt
  once : (s.chunks.flatMap Chunk.rows).Nodup
  folded : ∀ e ∈ s.chunks.flatMap Chunk.rows, e.receivedAt < state.backfillDoneThrough ∧
    e.receivedAt < state.backfillUntil ∧ e.isAppConnection = false ∧ e.origin ≠ .live
  through : ∀ e ∈ s.events, e.origin = .early → e.isAppConnection = false →
    e.receivedAt < state.backfillDoneThrough → e ∈ s.chunks.flatMap Chunk.rows
  reported : s.reported = true → state.backfillUntil ≤ state.backfillDoneThrough

def Bounds (s : RollupSystem) (now : Time) : Prop :=
  now ≤ s.clock ∧ ∀ e ∈ s.events, e.origin = .early → e.receivedAt ≤ timestamptz now

structure Locked (s : RollupSystem) (p : Nat) (last start stop : Int) : Prop where
  holds : s.lockedBy = some p
  state : s.state = some { backfillUntil := last, backfillDoneThrough := start }
  forward : start ≤ stop
  inside : stop ≤ last

structure Folded (s : RollupSystem) (chunk : Chunk) : Prop where
  distinct : chunk.rows.Nodup
  inside : ∀ e ∈ chunk.rows, chunk.start ≤ e.receivedAt ∧ e.receivedAt < chunk.stop ∧ e.isAppConnection = false ∧
    e.origin ≠ .live
  whole : ∀ e ∈ s.events, e.origin = .early → e.isAppConnection = false → chunk.start ≤ e.receivedAt →
    e.receivedAt < chunk.stop → e ∈ chunk.rows

def WorkerSound (s : RollupSystem) (p : Nat) : BackfillWorker → Prop
  | .waiting => True
  | .locked last start stop => Locked s p last start stop
  | .folded last chunk _ => Locked s p last chunk.start chunk.stop ∧ Folded s chunk
  | .exited => True

def BrokerSound (s : RollupSystem) (p : Nat) : RollupBroker → Prop
  | .opening _ => True
  | .initializing now => Bounds s now
  | .listed now oldest => Bounds s now ∧ ∀ e ∈ s.events, e.origin = .early → timestamptz oldest ≤ e.receivedAt
  | .recorded => ∃ state, s.state = some state
  | .serving received worker =>
    (∃ state, s.state = some state ∧
      ∀ r ∈ received, r.receivedAt ≠ zeroTime ∧ state.backfillUntil ≤ timestamptz r.receivedAt) ∧
      WorkerSound s p worker

structure Blank (s : RollupSystem) : Prop where
  unlocked : s.lockedBy = none
  chunks : s.chunks = []
  reported : s.reported = false
  noLive : ∀ e ∈ s.events, e.origin ≠ .live

structure Backfilled (s : RollupSystem) : Prop where
  real : zeroTime < s.clock
  rows : Rows s
  quiet : s.started = false → ∀ p, s.brokers p = none
  sound : ∀ p b, s.brokers p = some b → BrokerSound s p b
  blank : s.state = none → Blank s
  walked : ∀ state, s.state = some state → Walked s state

/-! ### What a broker may rely on while others move -/

/-- The clock goes on, early rows are not added, and the end of the range stays. -/
structure Steady (s t : RollupSystem) : Prop where
  clock : s.clock ≤ t.clock
  early : ∀ e ∈ t.events, e.origin = .early → e ∈ s.events
  range : ∀ state, s.state = some state →
    ∃ state', t.state = some state' ∧ state'.backfillUntil = state.backfillUntil

theorem Bounds.steady {now : Time} (hbo : Bounds s now) (hs : Steady s t) : Bounds t now :=
  ⟨hbo.1.trans hs.clock, fun e mem he => hbo.2 e (hs.early e mem he) he⟩

theorem Folded.steady {chunk : Chunk} (hfo : Folded s chunk) (hs : Steady s t) : Folded t chunk :=
  { hfo with whole := fun e mem he => hfo.whole e (hs.early e mem he) he }

theorem WorkerSound.steady {worker : BackfillWorker} (sound : WorkerSound s p worker) (steady : Steady s t)
    (held : s.lockedBy = some p → t.lockedBy = some p ∧ t.state = s.state) : WorkerSound t p worker := by
  have keeps {last start stop : Int} (locked : Locked s p last start stop) : Locked t p last start stop := by
    obtain ⟨holds, same⟩ := held locked.holds
    exact { locked with holds, state := same.trans locked.state }
  cases worker with
  | waiting => trivial
  | locked last start stop => exact keeps sound
  | folded last chunk advanced => exact ⟨keeps sound.1, sound.2.steady steady⟩
  | exited => trivial

theorem BrokerSound.steady {b : RollupBroker} (hso : BrokerSound s p b) (hs : Steady s t)
    (hh : s.lockedBy = some p → t.lockedBy = some p ∧ t.state = s.state) : BrokerSound t p b := by
  cases b with
  | opening days => trivial
  | initializing now => exact Bounds.steady hso hs
  | listed now oldest =>
    exact ⟨hso.1.steady hs, fun e mem he => hso.2 e (hs.early e mem he) he⟩
  | recorded =>
    obtain ⟨state, hf⟩ := hso
    obtain ⟨state', hfu, -⟩ := hs.range state hf
    exact ⟨state', hfu⟩
  | serving received worker =>
    obtain ⟨⟨state, hf, hst⟩, hwo⟩ := hso
    obtain ⟨state', hfu, hsa⟩ := hs.range state hf
    refine ⟨⟨state', hfu, ?_⟩, hwo.steady hs hh⟩
    rw [hsa]
    exact hst

theorem Steady.of_eq (hcl : t.clock = s.clock) (hev : t.events = s.events) (hsta : t.state = s.state) :
    Steady s t :=
  ⟨hcl.ge, fun _ mem _ => hev ▸ mem, fun st hf => ⟨st, hsta.trans hf, rfl⟩⟩

namespace Backfilled

theorem replaced (hk : Backfilled s) {b : Option RollupBroker} (hbr : t.brokers = Function.update s.brokers p b)
    (hs : Steady s t) (hh : ∀ q ≠ p, s.lockedBy = some q → t.lockedBy = some q ∧ t.state = s.state)
    (own : ∀ c, b = some c → BrokerSound t p c) (q : Nat) (c : RollupBroker) (hf : t.brokers q = some c) :
    BrokerSound t q c := by
  rw [hbr] at hf
  by_cases hsa : q = p
  · rw [hsa] at hf ⊢
    rw [Function.update_self] at hf
    exact own c hf
  · rw [Function.update_of_ne hsa] at hf
    exact (hk.sound q c hf).steady hs (hh q hsa)

theorem setBroker (kept : Backfilled s) {b : RollupBroker} (started : s.started = true) (sound : BrokerSound s p b) :
    Backfilled (s.setBroker p b) := by
  have steady : Steady s (s.setBroker p b) := .of_eq rfl rfl rfl
  refine { kept with rows := { kept.rows with }, walked := fun state found => { kept.walked state found with }
                     blank := fun none => { kept.blank none with }, quiet := fun no => ?_, sound := ?_ }
  · rw [show s.started = false from no] at started
    cases started
  · refine kept.replaced rfl steady (fun _ _ holds => ⟨holds, rfl⟩) fun c same => ?_
    cases same
    exact sound.steady steady fun holds => ⟨holds, rfl⟩

theorem started (hk : Backfilled s) {b : RollupBroker} (hf : s.brokers p = some b) : s.started = true := by
  cases hkn : s.started with
  | true => rfl
  | false =>
    rw [hk.quiet hkn p] at hf
    cases hf

/-! ### The environment -/

theorem tick (kept : Backfilled s) {d : Duration} (forward : 0 ≤ d) : Backfilled { s with clock := s.clock + d } := by
  have later : s.clock ≤ s.clock + d := by lia
  have steady : Steady s { s with clock := s.clock + d } :=
    ⟨later, fun _ mem _ => mem, fun state found => ⟨state, found, rfl⟩⟩
  refine { kept with real := kept.real.trans_le later, rows := { kept.rows with stamped := ?_ }, sound := ?_
                     blank := fun none => { kept.blank none with }, walked := ?_ }
  · exact fun e mem early => (kept.rows.stamped e mem early).trans (timestamptz_le later)
  · exact fun q b found => (kept.sound q b found).steady steady fun holds => ⟨holds, rfl⟩
  · exact fun state found =>
      { kept.walked state found with recorded := (kept.walked state found).recorded.trans (timestamptz_le later) }

theorem createPartition (kept : Backfilled s) (day : Time) : Backfilled (s.createPartition day) := by
  unfold RollupSystem.createPartition
  split_ifs
  · exact kept
  · refine { kept with rows := { kept.rows with covered := fun e mem => ?_ }
                       walked := fun state found => { kept.walked state found with }
                       blank := fun none => { kept.blank none with }
                       sound := fun q b found => (kept.sound q b found).steady (.of_eq rfl rfl rfl) fun holds => ?_ }
    · obtain ⟨day', listed, covers⟩ := kept.rows.covered e mem
      exact ⟨day', List.mem_append_left _ listed, covers⟩
    · exact ⟨holds, rfl⟩

theorem drop (hk : Backfilled s) (day : Time) :
    Backfilled { s with
      partitions := s.partitions.filter (· ≠ day)
      events := s.events.filter fun e => ¬covers day e.receivedAt } := by
  have hfe {e : EventRow} (mem : e ∈ s.events.filter fun e => ¬covers day e.receivedAt) : e ∈ s.events :=
    List.mem_of_mem_filter mem
  have hs : Steady s { s with
      partitions := s.partitions.filter (· ≠ day)
      events := s.events.filter fun e => ¬covers day e.receivedAt } :=
    ⟨le_rfl, fun _ mem _ => hfe mem, fun state hf => ⟨state, hf, rfl⟩⟩
  refine { hk with rows := ⟨?_, ?_, ?_, ?_⟩, sound := ?_, blank := ?_, walked := ?_ }
  · exact fun e mem => hk.rows.fresh e (hfe mem)
  · exact hk.rows.distinct.filter _
  · intro e mem
    obtain ⟨day', hl, hc⟩ := hk.rows.covered e (hfe mem)
    have ho : day' ≠ day := by
      rintro rfl
      exact of_decide_eq_true (List.mem_filter.mp mem).2 hc
    exact ⟨day', List.mem_filter.mpr ⟨hl, decide_eq_true ho⟩, hc⟩
  · exact fun e mem => hk.rows.stamped e (hfe mem)
  · exact fun q b hf => (hk.sound q b hf).steady hs fun hho => ⟨hho, rfl⟩
  · exact fun hn => { hk.blank hn with noLive := fun e mem => (hk.blank hn).noLive e (hfe mem) }
  · intro state hf
    have walked := hk.walked state hf
    exact { walked with
      early := fun e mem => walked.early e (hfe mem)
      live := fun e mem => walked.live e (hfe mem)
      through := fun e mem => walked.through e (hfe mem) }

/-- A new row. An early one comes before any broker, and a live one not before the end of the range. -/
theorem addRow (kept : Backfilled s) {origin : RowOrigin} {receivedAt : Int} (record : TelemetryRecord)
    (covered : s.covered receivedAt)
    (early : origin = .early → s.started = false ∧ receivedAt ≤ timestamptz s.clock)
    (live : origin = .live → ∃ state, s.state = some state ∧ state.backfillUntil ≤ receivedAt) :
    Backfilled (s.addRow origin receivedAt record) := by
  have rows : Rows (s.addRow origin receivedAt record) := by
    refine ⟨fun e mem => ?_, ?_, fun e mem => ?_, fun e mem isEarly => ?_⟩
    · rcases List.mem_append.mp mem with mem | mem
      · exact Nat.lt_succ_of_lt (kept.rows.fresh e mem)
      · rw [List.mem_singleton.mp mem]
        exact Nat.lt_succ_self _
    · refine List.nodup_append.mpr ⟨kept.rows.distinct, List.nodup_singleton _, fun e mem e' new same => ?_⟩
      have lt := kept.rows.fresh e mem
      rw [same, List.mem_singleton.mp new] at lt
      exact absurd lt (lt_irrefl _)
    · rcases List.mem_append.mp mem with mem | mem
      · exact kept.rows.covered e mem
      · rw [List.mem_singleton.mp mem]
        exact covered
    · rcases List.mem_append.mp mem with mem | mem
      · exact kept.rows.stamped e mem isEarly
      · rw [List.mem_singleton.mp mem] at isEarly ⊢
        exact (early isEarly).2
  have known (state : RollupState) (found : s.state = some state) : s.started = true := (kept.walked state found).started
  -- Once a broker runs, a row that is added is not early.
  have same (started : s.started = true) {e : EventRow} (mem : e ∈ (s.addRow origin receivedAt record).events)
      (isEarly : e.origin = .early) : e ∈ s.events := by
    rcases List.mem_append.mp mem with mem | mem
    · exact mem
    · rw [List.mem_singleton.mp mem] at isEarly
      rw [(early isEarly).1] at started
      cases started
  refine { kept with rows, sound := fun q b found => ?_, blank := fun none => ?_, walked := fun state found => ?_ }
  · have steady : Steady s (s.addRow origin receivedAt record) :=
      ⟨le_rfl, fun e mem isEarly => same (kept.started found) mem isEarly, fun state found => ⟨state, found, rfl⟩⟩
    exact (kept.sound q b found).steady steady fun holds => ⟨holds, rfl⟩
  · refine { kept.blank none with noLive := fun e mem isLive => ?_ }
    rcases List.mem_append.mp mem with mem | mem
    · exact (kept.blank none).noLive e mem isLive
    · rw [List.mem_singleton.mp mem] at isLive
      obtain ⟨state, found, -⟩ := live isLive
      rw [show s.state = Option.none from none] at found
      cases found
  · have walked := kept.walked state found
    exact { walked with
      early := fun e mem isEarly => walked.early e (same walked.started mem isEarly) isEarly
      live := fun e mem isLive => by
        rcases List.mem_append.mp mem with mem | mem
        · exact walked.live e mem isLive
        · rw [List.mem_singleton.mp mem] at isLive ⊢
          obtain ⟨state', found', le⟩ := live isLive
          rw [show s.state = some state from found] at found'
          cases found'
          exact le
      through := fun e mem isEarly => walked.through e (same walked.started mem isEarly) isEarly }

/-! ### A broker starts -/

theorem start (kept : Backfilled s) (days : List Time) :
    Backfilled { s.setBroker p (.opening days) with started := true } := by
  refine { kept with rows := { kept.rows with }, quiet := fun no => (nomatch no), blank := fun none => { kept.blank none with }
                     walked := fun state found => { kept.walked state found with started := rfl }, sound := ?_ }
  refine kept.replaced (b := some (.opening days)) rfl (.of_eq rfl rfl rfl) (fun _ _ holds => ⟨holds, rfl⟩) ?_
  intro c same
  cases same
  trivial

theorem bounds (hk : Backfilled s) : Bounds s s.clock := ⟨le_rfl, hk.rows.stamped⟩

theorem oldestPartition_le (now : Time) (days : List Time) :
    oldestPartition now days ≤ now ∧ ∀ day ∈ days, oldestPartition now days ≤ day := by
  induction days generalizing now with
  | nil => exact ⟨le_rfl, fun _ mem => by cases mem⟩
  | cons day days ih =>
    obtain ⟨hfi, hrs⟩ := ih (if day < now then day else now)
    have hbt : (if day < now then day else now) ≤ now ∧ (if day < now then day else now) ≤ day := by
      split_ifs with less
      · exact ⟨less.le, le_rfl⟩
      · exact ⟨le_rfl, not_lt.mp less⟩
    refine ⟨hfi.trans hbt.1, fun day' mem => ?_⟩
    rcases List.mem_cons.mp mem with rfl | mem
    · exact hfi.trans hbt.2
    · exact hrs day' mem

theorem oldest (hk : Backfilled s) (now : Time) {e : EventRow} (mem : e ∈ s.events) :
    timestamptz (oldestPartition now s.partitions) ≤ e.receivedAt := by
  obtain ⟨day, hl, hcv⟩ := hk.rows.covered e mem
  have le : oldestPartition now s.partitions ≤ instant e.receivedAt :=
    ((oldestPartition_le now s.partitions).2 day hl).trans hcv.1
  calc timestamptz (oldestPartition now s.partitions)
      ≤ timestamptz (instant e.receivedAt) := timestamptz_le le
    _ = e.receivedAt := Int.mul_ediv_cancel _ (by decide)

theorem record (kept : Backfilled s) {now oldest : Time} (found : s.brokers p = some (.listed now oldest)) :
    let state : RollupState :=
      s.state.getD { backfillUntil := timestamptz now, backfillDoneThrough := timestamptz oldest }
    Backfilled ({ s with state := some state }.setBroker p .recorded) := by
  intro state
  have started := kept.started found
  obtain ⟨bounds, after⟩ := kept.sound p _ found
  suffices kept' : Backfilled { s with state := some state } from kept'.setBroker started ⟨state, rfl⟩
  cases known : s.state with
  | some old =>
    have same : { s with state := some state } = s := by
      simp only [state, known, Option.getD_some]
      rw [← known]
    rw [same]
    exact kept
  | none =>
    have blank := kept.blank known
    have same : state = { backfillUntil := timestamptz now, backfillDoneThrough := timestamptz oldest } := by
      simp only [state, known, Option.getD_none]
    refine { kept with rows := { kept.rows with }, blank := fun none => (nomatch none), sound := fun q b found => ?_
                       walked := fun state' found => ?_ }
    · refine (kept.sound q b found).steady ⟨le_rfl, fun _ mem _ => mem, fun st some => ?_⟩ fun holds => ?_
      · rw [known] at some
        cases some
      · rw [blank.unlocked] at holds
        cases holds
    · cases found
      rw [same]
      refine { started, recorded := timestamptz_le bounds.1, early := bounds.2, live := ?_, once := ?_, folded := ?_
               through := ?_, reported := ?_ }
      · exact fun e mem live => absurd live (blank.noLive e mem)
      · simp only [blank.chunks, List.flatMap_nil, List.nodup_nil]
      · simp only [blank.chunks, List.flatMap_nil, List.not_mem_nil, false_implies, implies_true]
      · exact fun e mem early _ before => absurd before (not_lt.mpr (after e mem early))
      · simp only [blank.reported, Bool.false_eq_true, false_implies]

theorem report (kept : Backfilled s) {state : RollupState} (found : s.state = some state)
    (done : ¬state.backfillDoneThrough < state.backfillUntil) : Backfilled { s with reported := true } := by
  refine { kept with rows := { kept.rows with }, blank := fun none => ?_, walked := fun state' found' => ?_
                     sound := fun q b known => (kept.sound q b known).steady (.of_eq rfl rfl rfl) fun holds => ⟨holds, rfl⟩ }
  · rw [show s.state = Option.none from none] at found
    cases found
  · rw [show s.state = some state' from found'] at found
    cases found
    exact { kept.walked _ found' with reported := fun _ => not_lt.mp done }

/-! ### A broker serves -/

theorem insertReceivedAt_eq {r : TelemetryRecord} (hst : r.receivedAt ≠ zeroTime) (now : Time) :
    insertReceivedAt r now = r.receivedAt := by
  have hrt : retentionTime r = r.receivedAt := if_pos hst
  rw [insertReceivedAt, hrt, if_pos hst]

variable {received : List TelemetryRecord}

theorem receive (hk : Backfilled s) {worker : BackfillWorker}
    (hf : s.brokers p = some (.serving received worker)) (r : TelemetryRecord) :
    Backfilled (s.setBroker p (.serving (received ++ [{ r with receivedAt := s.clock }]) worker)) := by
  obtain ⟨⟨state, hkn, hst⟩, hwo⟩ := hk.sound p _ hf
  refine hk.setBroker (hk.started hf) ⟨⟨state, hkn, fun r' mem => ?_⟩, hwo⟩
  rcases List.mem_append.mp mem with mem | mem
  · exact hst r' mem
  · rw [List.mem_singleton.mp mem]
    exact ⟨hk.real.ne', (hk.walked state hkn).recorded⟩

theorem insert (hk : Backfilled s) {state : RollupState} (hkn : s.state = some state) {records : List TelemetryRecord}
    (hst : ∀ r ∈ records, r.receivedAt ≠ zeroTime ∧ state.backfillUntil ≤ timestamptz r.receivedAt)
    (hco : ∀ r ∈ records, s.covered (timestamptz (insertReceivedAt r s.clock))) :
    Backfilled (records.foldl insertLive s) := by
  induction records generalizing s with
  | nil => exact hk
  | cons r records ih =>
    rw [List.foldl_cons]
    obtain ⟨hra, ha⟩ := hst r List.mem_cons_self
    have hke : Backfilled (s.insertLive r) := by
      refine hk.addRow r (hco r List.mem_cons_self) (fun he => by cases he) fun _ => ⟨state, hkn, ?_⟩
      rw [insertReceivedAt_eq hra]
      exact ha
    exact ih hke hkn (fun r' mem => hst r' (List.mem_cons_of_mem _ mem))
      fun r' mem => hco r' (List.mem_cons_of_mem _ mem)

/-! ### A chunk of the backfill -/

theorem lock (kept : Backfilled s) {state : RollupState}
    (found : s.brokers p = some (.serving received .waiting)) (known : s.state = some state) (free : s.lockedBy = none)
    (ahead : state.backfillDoneThrough < state.backfillUntil) :
    let stop := state.backfillDoneThrough + telemetryRollupBackfillChunk
    let stop := if state.backfillUntil < stop then state.backfillUntil else stop
    Backfilled { s.setBroker p (.serving received (.locked state.backfillUntil state.backfillDoneThrough stop)) with
                 lockedBy := some p } := by
  intro next stop
  have started := kept.started found
  obtain ⟨serves, -⟩ := kept.sound p _ found
  have forward : state.backfillDoneThrough ≤ stop ∧ stop ≤ state.backfillUntil := by
    have positive : 0 ≤ telemetryRollupBackfillChunk := by decide
    unfold stop
    split_ifs with beyond
    · exact ⟨ahead.le, le_rfl⟩
    · exact ⟨le_add_of_nonneg_right positive, not_lt.mp beyond⟩
  refine { kept with rows := { kept.rows with }, walked := fun state found => { kept.walked state found with }
                     quiet := fun no => ?_, sound := ?_, blank := fun none => ?_ }
  · rw [show s.started = false from no] at started
    cases started
  · refine kept.replaced rfl (.of_eq rfl rfl rfl) (fun q _ holds => ?_) fun c same => ?_
    · rw [free] at holds
      cases holds
    · cases same
      exact ⟨serves, rfl, known, forward.1, forward.2⟩
  · rw [show s.state = Option.none from none] at known
    cases known

theorem fold (hk : Backfilled s) {last start stop : Int}
    (hf : s.brokers p = some (.serving received (.locked last start stop))) :
    Backfilled (s.setBroker p (.serving received
      (.folded last { start, stop, rows := s.backfillRows start stop } false))) := by
  obtain ⟨hse, hlo⟩ := hk.sound p _ hf
  have hli := (hk.walked _ hlo.state).live
  refine hk.setBroker (hk.started hf) ⟨hse, hlo, hk.rows.distinct.filter _, fun e mem => ?_, ?_⟩
  · obtain ⟨mem, hch⟩ := List.mem_filter.mp mem
    simp only [Bool.and_eq_true, decide_eq_true_eq, Bool.not_eq_true'] at hch
    obtain ⟨⟨ha, hb⟩, ho⟩ := hch
    refine ⟨ha, hb, ho, fun his => ?_⟩
    exact absurd (hli e mem his) (not_le.mpr (hb.trans_le hlo.inside))
  · intro e mem _ ho ha hb
    refine List.mem_filter.mpr ⟨mem, ?_⟩
    simp only [Bool.and_eq_true, decide_eq_true_eq, Bool.not_eq_true']
    exact ⟨⟨ha, hb⟩, ho⟩

theorem advance (hk : Backfilled s) {last : Int} {chunk : Chunk}
    (hf : s.brokers p = some (.serving received (.folded last chunk false))) :
    Backfilled (s.setBroker p (.serving received (.folded last chunk true))) := by
  obtain ⟨hse, hfo⟩ := hk.sound p _ hf
  exact hk.setBroker (hk.started hf) ⟨hse, hfo⟩

/-- The ranges of the chunks are disjoint, since the watermark stands where the last one ended. -/
theorem commit (kept : Backfilled s) {last : Int} {chunk : Chunk}
    (found : s.brokers p = some (.serving received (.folded last chunk true))) (answered : Bool) :
    let done := answered && !decide (chunk.stop < last)
    Backfilled { s.setBroker p (.serving received (if done then .exited else .waiting)) with
                 state := s.state.map fun state => { state with backfillDoneThrough := chunk.stop }
                 chunks := s.chunks ++ [chunk]
                 lockedBy := none
                 reported := s.reported || done } := by
  intro done
  have started := kept.started found
  obtain ⟨⟨state, known, stamped⟩, locked, folded⟩ := kept.sound p _ found
  rw [locked.state] at known
  cases known
  have walked := kept.walked _ locked.state
  have rows : (s.chunks ++ [chunk]).flatMap Chunk.rows = s.chunks.flatMap Chunk.rows ++ chunk.rows := by
    simp only [List.flatMap_append, List.flatMap_singleton]
  simp only [locked.state, Option.map_some]
  refine { kept with rows := { kept.rows with }, blank := fun none => (nomatch none), quiet := fun no => ?_, sound := ?_
                     walked := fun state' same => ?_ }
  · rw [show s.started = false from no] at started
    cases started
  · refine kept.replaced rfl ⟨le_rfl, fun _ mem _ => mem, fun state' same => ?_⟩ (fun q other holds => ?_) fun c same => ?_
    · rw [locked.state] at same
      cases same
      exact ⟨_, rfl, rfl⟩
    · rw [locked.holds] at holds
      exact absurd (Option.some.inj holds).symm other
    · cases same
      refine ⟨⟨_, rfl, stamped⟩, ?_⟩
      cases done <;> trivial
  · cases same
    refine { walked with once := ?_, folded := fun e mem => ?_, through := fun e mem early other before => ?_
                         reported := fun now => ?_ }
    · simp only [rows]
      refine List.nodup_append.mpr ⟨walked.once, folded.distinct, fun e mem e' mem' same => ?_⟩
      have before := (walked.folded e mem).1
      rw [same] at before
      exact absurd before (not_lt.mpr (folded.inside e' mem').1)
    · simp only [rows] at mem
      rcases List.mem_append.mp mem with mem | mem
      · obtain ⟨before, rest⟩ := walked.folded e mem
        exact ⟨before.trans_le locked.forward, rest⟩
      · obtain ⟨-, before, rest⟩ := folded.inside e mem
        exact ⟨before, before.trans_le locked.inside, rest⟩
    · simp only [rows]
      by_cases earlier : e.receivedAt < chunk.start
      · exact List.mem_append_left _ (walked.through e mem early other earlier)
      · exact List.mem_append_right _ (folded.whole e mem early other (not_lt.mp earlier) before)
    · rcases Bool.or_eq_true_iff.mp now with earlier | now
      · exact (walked.reported earlier).trans locked.forward
      · have reached := (Bool.and_eq_true_iff.mp now).2
        simp only [Bool.not_eq_true', decide_eq_false_iff_not, not_lt] at reached
        exact reached

theorem rollback (kept : Backfilled s) {b : RollupBroker} {b' : Option RollupBroker} (found : s.brokers p = some b)
    (own : ∀ c, b' = some c → BrokerSound (s.rollback p) p c) :
    Backfilled { s.rollback p with brokers := Function.update s.brokers p b' } := by
  have started := kept.started found
  refine { kept with rows := { kept.rows with }, walked := fun state found => { kept.walked state found with }
                     quiet := fun no => ?_, sound := ?_, blank := fun none => ?_ }
  · rw [show s.started = false from no] at started
    cases started
  · refine kept.replaced rfl (.of_eq rfl rfl rfl) (fun q other holds => ⟨?_, rfl⟩) fun c same => ?_
    · simp only [RollupSystem.rollback, holds, Option.some.injEq, if_neg other]
    · exact (own c same).steady (.of_eq rfl rfl rfl) fun holds => ⟨holds, rfl⟩
  · refine { kept.blank none with unlocked := ?_ }
    simp only [RollupSystem.rollback, (kept.blank none).unlocked, reduceCtorEq, if_false]

theorem fail (hk : Backfilled s) {worker : BackfillWorker}
    (hf : s.brokers p = some (.serving received worker)) :
    Backfilled ((s.rollback p).setBroker p (.serving received .waiting)) := by
  obtain ⟨hse, -⟩ := hk.sound p _ hf
  refine hk.rollback hf fun c hsa => ?_
  cases hsa
  exact ⟨hse, trivial⟩

/-! ### Every step -/

theorem step {l : Label} (kept : Backfilled s) (next : s.step l = some t) : Backfilled t := by
  cases l with
  | tick d =>
    obtain ⟨forward, same⟩ := Option.ite_none_right_eq_some.mp next
    cases same
    exact kept.tick forward
  | olderPartition day =>
    cases next
    exact kept.createPartition day
  | older receivedAt r =>
    obtain ⟨⟨past, covered⟩, same⟩ := Option.ite_none_right_eq_some.mp next
    cases same
    cases started : s.started with
    | true => exact kept.addRow r covered (fun early => by cases early) fun live => by cases live
    | false => exact kept.addRow r covered (fun _ => ⟨started, past⟩) fun live => by cases live
  | drop day =>
    obtain ⟨-, same⟩ := Option.ite_none_right_eq_some.mp next
    cases same
    exact kept.drop day
  | start p =>
    rw [RollupSystem.step] at next
    split at next <;> cases next
    exact kept.start _
  | partition p day =>
    rw [RollupSystem.step] at next
    split at next
    next following days found =>
      obtain ⟨-, same⟩ := Option.ite_none_right_eq_some.mp next
      cases same
      have kept' := kept.createPartition day
      refine kept'.setBroker (kept'.started (p := p) (b := .opening (following :: days)) ?_) trivial
      unfold RollupSystem.createPartition
      split_ifs <;> exact found
    next =>
      obtain ⟨-, same⟩ := Option.ite_none_right_eq_some.mp next
      cases same
      exact kept.createPartition day
    next => cases next
  | readClock p =>
    rw [RollupSystem.step] at next
    split at next <;> cases next
    next found => exact kept.setBroker (kept.started found) kept.bounds
  | list p =>
    rw [RollupSystem.step] at next
    split at next <;> cases next
    next now found =>
      exact kept.setBroker (kept.started found) ⟨kept.sound p _ found, fun e mem _ => kept.oldest now mem⟩
  | record p =>
    rw [RollupSystem.step] at next
    split at next <;> cases next
    next found => exact kept.record found
  | read p =>
    rw [RollupSystem.step] at next
    split at next
    next state found known =>
      have serves : ∃ st, s.state = some st ∧
          ∀ r ∈ ([] : List TelemetryRecord), r.receivedAt ≠ zeroTime ∧ st.backfillUntil ≤ timestamptz r.receivedAt :=
        ⟨state, known, fun _ mem => absurd mem List.not_mem_nil⟩
      split_ifs at next with ahead <;> cases next
      · exact kept.setBroker (kept.started found) ⟨serves, trivial⟩
      · have exits : Backfilled (s.setBroker p (.serving [] .exited)) :=
          kept.setBroker (kept.started found) ⟨serves, trivial⟩
        exact exits.report known ahead
    next => cases next
  | receive p r =>
    rw [RollupSystem.step] at next
    split at next
    next received worker found =>
      split_ifs at next <;> cases next
      · exact kept
      · exact kept.receive found r
    next => cases next
  | insert p records =>
    rw [RollupSystem.step] at next
    split at next
    next received worker found =>
      obtain ⟨chosen, same⟩ := Option.ite_none_right_eq_some.mp next
      cases same
      obtain ⟨⟨state, known, stamped⟩, -⟩ := kept.sound p _ found
      exact kept.insert known (fun r mem => stamped r (chosen r mem).1) fun r mem => (chosen r mem).2
    next => cases next
  | lock p =>
    rw [RollupSystem.step] at next
    split at next
    next received state found known free =>
      split_ifs at next with ahead <;> cases next
      · exact kept.lock found known free ahead
      · obtain ⟨serves, -⟩ := kept.sound p _ found
        have exits : Backfilled (s.setBroker p (.serving received .exited)) :=
          kept.setBroker (kept.started found) ⟨serves, trivial⟩
        exact exits.report known ahead
    next => cases next
  | fold p =>
    rw [RollupSystem.step] at next
    split at next <;> cases next
    next found => exact kept.fold found
  | advance p =>
    rw [RollupSystem.step] at next
    split at next <;> cases next
    next found => exact kept.advance found
  | commit p answered =>
    rw [RollupSystem.step] at next
    split at next <;> cases next
    next found => exact kept.commit found answered
  | fail p =>
    rw [RollupSystem.step] at next
    split at next <;> cases next
    next found => exact kept.fail found
    next found => exact kept.fail found
  | crash p =>
    rw [RollupSystem.step] at next
    split at next <;> cases next
    next found => exact kept.rollback found fun c same => by cases same

theorem initial {clock : Time} (real : zeroTime < clock) : Backfilled { clock } where
  real := real
  rows := ⟨fun _ mem => absurd mem List.not_mem_nil, List.nodup_nil, fun _ mem => absurd mem List.not_mem_nil,
    fun _ mem => absurd mem List.not_mem_nil⟩
  quiet := fun _ _ => rfl
  sound := fun _ _ hf => by cases hf
  blank := fun _ => ⟨rfl, rfl, rfl, fun _ mem => absurd mem List.not_mem_nil⟩
  walked := fun _ hf => by cases hf

end Backfilled

/-! ### Every run -/

def folds (s : RollupSystem) (e : EventRow) : Nat := (s.chunks.flatMap Chunk.rows).count e

/-- A row that was there before the first broker, and still is when the backfill is reported done, was folded by one
    chunk, once, but for legacy application connections and rows received in the very microsecond that the range ends
    at. -/
theorem rollup_backfill_folds_once {clock : Time} (real : zeroTime < clock) {labels : List Label}
    (trace : Trace (fun s label t => RollupSystem.step s label = some t) { clock } labels s) :
    (∀ chunk ∈ s.chunks, ∀ e ∈ chunk.rows, e.origin ≠ .live) ∧
    (s.reported = true → ∃ state, s.state = some state ∧ ∀ e ∈ s.events, e.origin = .early →
      e.receivedAt ≤ state.backfillUntil ∧
      s.folds e = if e.isAppConnection = false ∧ e.receivedAt ≠ state.backfillUntil then 1 else 0) := by
  have hk := trace.invariant (fun _ _ _ hk hne => Backfilled.step hk hne) (.initial real)
  cases hkn : s.state with
  | none =>
    have hbl := hk.blank hkn
    rw [hbl.chunks, hbl.reported]
    exact ⟨fun _ mem => absurd mem List.not_mem_nil, fun no => by cases no⟩
  | some state =>
    have hw := hk.walked state hkn
    refine ⟨fun chunk mem e hin => ?_, fun hd => ⟨state, rfl, fun e mem he => ⟨hw.early e mem he, ?_⟩⟩⟩
    · exact (hw.folded e (List.mem_flatMap.mpr ⟨chunk, mem, hin⟩)).2.2.2
    · split_ifs with folded
      · obtain ⟨ho, hb⟩ := folded
        have lt := lt_of_le_of_ne (hw.early e mem he) hb
        exact List.count_eq_one_of_mem hw.once
          (hw.through e mem he ho (lt.trans_le (hw.reported hd)))
      · refine List.count_eq_zero_of_not_mem fun hi => folded ?_
        obtain ⟨-, hb, ho, -⟩ := hw.folded e hi
        exact ⟨ho, hb.ne⟩

def noon : Time := 20000 * (24 * hour) + 12 * hour

def oldEvent (event : String) : TelemetryRecord :=
  { event := { eventID := "e", event, clientID := "c", sessionID := "s" } }

/-- An older broker stores three rows. Two brokers start; one crashes in its transaction, and the other walks from
    midnight to noon. -/
def backfillRun : List Label :=
  [.olderPartition (20000 * (24 * hour)),
   .older (timestamptz (noon - hour)) (oldEvent "connection_succeeded"),
   .older (timestamptz (noon - hour)) (oldEvent telemetryAppConnectionEvent),
   .older (timestamptz noon) (oldEvent "session_ended"),
   .start 1, .partition 1 (20000 * (24 * hour)), .partition 1 (20001 * (24 * hour)), .readClock 1, .list 1, .record 1,
   .read 1, .lock 1, .fold 1, .start 2, .crash 1, .partition 2 (20000 * (24 * hour)),
   .partition 2 (20001 * (24 * hour)), .readClock 2, .list 2, .record 2, .read 2] ++
    (List.replicate 12 [Label.lock 2, .fold 2, .advance 2, .commit 2 true]).flatten

structure BackfillSummary where
  reported : Bool
  backfillUntil : Option Int
  rows : List (RowOrigin × Int × Bool)
  folds : List Nat
  deriving DecidableEq

def summary (s : RollupSystem) : BackfillSummary where
  reported := s.reported
  backfillUntil := s.state.map (·.backfillUntil)
  rows := s.events.map fun e => (e.origin, e.receivedAt, e.isAppConnection)
  folds := s.events.map s.folds

def backfillRunSummary (folds : List Nat) : BackfillSummary where
  reported := true
  backfillUntil := some (timestamptz noon)
  rows := [(.early, timestamptz (noon - hour), false), (.early, timestamptz (noon - hour), true),
    (.early, timestamptz noon, false)]
  folds := folds

theorem rollup_backfill_skips :
    (backfillRun.foldlM step { clock := noon }).map summary = some (backfillRunSummary [1, 0, 0]) := by
  decide +kernel

theorem rollup_backfill_folds_once_run :
    ∃ s, backfillRun.foldlM step { clock := noon } = some s ∧
      ∃ e ∈ s.events, e.origin = .early ∧ e.receivedAt = timestamptz (noon - hour) ∧ s.folds e = 1 := by
  have ran : (backfillRun.foldlM step { clock := noon }).map summary = some (backfillRunSummary [1, 0, 0]) := by
    decide +kernel
  obtain ⟨s, hre, hsh⟩ := Option.map_eq_some_iff.mp ran
  have hro : s.events.map (fun e => (e.origin, e.receivedAt, e.isAppConnection)) = (backfillRunSummary []).rows :=
    congrArg BackfillSummary.rows hsh
  have hfi : (RowOrigin.early, timestamptz (noon - hour), false) ∈ (backfillRunSummary []).rows := List.mem_cons_self
  rw [← hro] at hfi
  obtain ⟨e, mem, hsa⟩ := List.mem_map.mp hfi
  simp only [Prod.mk.injEq] at hsa
  obtain ⟨he, hr, ho⟩ := hsa
  obtain ⟨-, hd⟩ := rollup_backfill_folds_once (show zeroTime < noon by decide) (.of_foldlM hre)
  obtain ⟨state, hkn, hfl⟩ := hd (congrArg BackfillSummary.reported hsh)
  have hla : s.state.map (·.backfillUntil) = some (timestamptz noon) := congrArg BackfillSummary.backfillUntil hsh
  rw [hkn, Option.map_some, Option.some.injEq] at hla
  refine ⟨s, hre, e, mem, he, hr, ?_⟩
  rw [(hfl e mem he).2, hla, hr, ho]
  decide

end RollupSystem

end OpenRung.Broker
