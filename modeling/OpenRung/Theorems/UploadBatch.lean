import Mathlib.Algebra.Order.BigOperators.Group.List
import OpenRung.Lib.Slots
import OpenRung.Theorems.OutboxUpload

/-! How `outboxUploadBatch` selects one request, and that a drain loop ends. The loop takes an event, sets it aside as
    oversized, or skips it; everything it promises is a property of the list of these decisions. -/

namespace OpenRung.Telemetry

/-! ### Decisions -/

inductive Verdict where
  | taken
  | oversized
  | skipped
  deriving DecidableEq

def withVerdict (v : Verdict) (decided : List (Event × Verdict)) : List Event :=
  (decided.filter (·.2 = v)).map (·.1)

def eventBytes (codec : EventCodec) (e : Event) : Int := ((codec.marshal e).getD []).length + 1

def batchBytes (codec : EventCodec) (events : List Event) : Int := (events.map (eventBytes codec)).sum

def ConnectsFrom (application : String) (e : Event) : Prop :=
  e.event = applicationConnectionEvent ∧ e.application = application

instance (application : String) (e : Event) : Decidable (ConnectsFrom application e) :=
  inferInstanceAs (Decidable (_ ∧ _))

def representedFlows (application : String) (events : List Event) : Int :=
  ((events.filter fun e => ConnectsFrom application e).map applicationConnectionCount).sum

def SameIdentity (e e' : Event) : Prop := e.clientID = e'.clientID ∧ e.sessionID = e'.sessionID

instance (e e' : Event) : Decidable (SameIdentity e e') := inferInstanceAs (Decidable (_ ∧ _))

theorem SameIdentity.through {e e' first : Event} (hlf : SameIdentity e first) (hri : SameIdentity e' first) :
    SameIdentity e e' := ⟨hlf.1.trans hri.1.symm, hlf.2.trans hri.2.symm⟩

def leadingRun : List Event → List Event
  | [] => []
  | first :: rest => (first :: rest).takeWhile fun e => SameIdentity e first

/-- The `j`th decision skips an event of the application that does not fit its flow budget, and none of its events is
    taken afterwards. -/
structure Deferred (decided : List (Event × Verdict)) (application : String) (j : Nat) : Prop where
  refused : ∃ e, decided[j]? = some (e, .skipped) ∧ ConnectsFrom application e ∧
    maxReportedFlows < representedFlows application (withVerdict .taken (decided.take j)) + applicationConnectionCount e
  last : ∀ k e, j < k → decided[k]? = some (e, .taken) → ¬ConnectsFrom application e

/-- All are decided, the batch is full, or the next event would exceed the byte budget together with the batch but not
    alone. -/
inductive Stopped (codec : EventCodec) (limit byteBudget : Int) (run decided batch : List Event) : Prop
  | all (all : decided = run)
  | full (full : limit ≤ batch.length)
  | bytes {next : Event} {rest : List Event} (next_eq : run = decided ++ next :: rest)
      (alone : eventBytes codec next ≤ byteBudget) (together : byteBudget < batchBytes codec batch + eventBytes codec next)

/-! ### The loop -/

section Sums
variable (codec : EventCodec) (application : String) (events : List Event) (e : Event)

theorem eventBytes_pos : 0 < eventBytes codec e := by
  unfold eventBytes
  omega

theorem batchBytes_pos {events : List Event} (hso : events ≠ []) : 0 < batchBytes codec events := by
  obtain ⟨e, rest, rfl⟩ := List.exists_cons_of_ne_nil hso
  have hoh : 0 ≤ batchBytes codec rest := List.sum_nonneg (by
    intro size mem
    obtain ⟨e, -, rfl⟩ := List.mem_map.mp mem
    exact Int.le_of_lt (eventBytes_pos codec e))
  have := eventBytes_pos codec e
  have hspl : batchBytes codec (e :: rest) = eventBytes codec e + batchBytes codec rest := by simp [batchBytes]
  omega

theorem batchBytes_concat : batchBytes codec (events ++ [e]) = batchBytes codec events + eventBytes codec e := by
  simp [batchBytes]

theorem representedFlows_concat : representedFlows application (events ++ [e]) =
    representedFlows application events + if ConnectsFrom application e then applicationConnectionCount e else 0 := by
  by_cases own : ConnectsFrom application e
  · simp [representedFlows, own]
  · simp [representedFlows, own]

theorem applicationConnectionCount_bounds : 1 ≤ applicationConnectionCount e ∧
    applicationConnectionCount e ≤ maxReportedFlows := by
  unfold applicationConnectionCount
  split
  · decide
  split
  · decide
  · omega

end Sums

section Decisions
variable {decided : List (Event × Verdict)} {application : String} {j : Nat} {e : Event} {v : Verdict}

theorem withVerdict_concat (w v : Verdict) (decided : List (Event × Verdict)) (e : Event) :
    withVerdict w (decided ++ [(e, v)]) = withVerdict w decided ++ if v = w then [e] else [] := by
  by_cases hs : v = w
  · simp [withVerdict, hs]
  · simp [withVerdict, hs]

theorem withVerdict_sublist (v : Verdict) (decided : List (Event × Verdict)) :
    (withVerdict v decided).Sublist (decided.map (·.1)) := List.filter_sublist.map _

theorem Deferred.concat (hd : Deferred decided application j)
    (hot : v = .taken → ¬ConnectsFrom application e) : Deferred (decided ++ [(e, v)]) application j := by
  obtain ⟨e₀, hhe, own, hre⟩ := hd.refused
  have lt : j < decided.length := (List.getElem?_eq_some_iff.mp hhe).1
  refine ⟨⟨e₀, ?_, own, ?_⟩, ?_⟩
  · rw [List.getElem?_append_left lt, hhe]
  · rwa [List.take_append_of_le_length (Nat.le_of_lt lt)]
  · intro k e' hla hth
    rcases List.getElem?_concat_cases hth with old | ⟨-, new⟩
    · exact hd.last k e' hla old
    · obtain ⟨rfl, rfl⟩ := Prod.mk.inj new
      exact hot rfl

theorem Deferred.new (own : ConnectsFrom application e)
    (hre : maxReportedFlows <
      representedFlows application (withVerdict .taken decided) + applicationConnectionCount e) :
    Deferred (decided ++ [(e, .skipped)]) application decided.length := by
  refine ⟨⟨e, List.getElem?_concat_length, own, by rwa [List.take_left]⟩, ?_⟩
  intro k e' hla hth
  rcases List.getElem?_concat_cases hth with old | ⟨rfl, -⟩
  · have := (List.getElem?_eq_some_iff.mp old).1
    omega
  · omega

end Decisions

structure Selection.Decides (codec : EventCodec) (limit byteBudget : Int) (decided : List (Event × Verdict))
    (s : Selection) : Prop where
  batch : s.batch = withVerdict .taken decided
  oversized : s.oversized = withVerdict .oversized decided
  count : (s.batch.length : Int) ≤ max 0 limit
  marshals : ∀ e ∈ s.batch, (codec.marshal e).isSome
  bytes : s.totalBytes = batchBytes codec s.batch
  budget : batchBytes codec s.batch ≤ max 0 byteBudget
  alone : ∀ e ∈ s.oversized, codec.marshal e = none ∨ byteBudget < eventBytes codec e
  represented : ∀ application, (s.representedByApplication.lookup application).getD 0 = representedFlows application s.batch
  flows : ∀ application, representedFlows application s.batch ≤ maxReportedFlows
  deferred : ∀ application ∈ s.deferredApplications, ∃ j, Deferred decided application j
  skipped : ∀ (i : Nat) e, decided[i]? = some (e, .skipped) →
    e.event = applicationConnectionEvent ∧ e.application ∈ s.deferredApplications ∧ ∃ j ≤ i, Deferred decided e.application j

namespace Selection.Decides
variable {codec : EventCodec} {limit byteBudget : Int} {decided : List (Event × Verdict)} {s : Selection} {e : Event}

theorem nil (codec : EventCodec) (limit byteBudget : Int) : Decides codec limit byteBudget [] {} where
  batch := rfl
  oversized := rfl
  count := le_max_left _ _
  marshals := by simp
  bytes := rfl
  budget := le_max_left _ _
  alone := by simp
  represented _ := rfl
  flows _ := show (0 : Int) ≤ maxReportedFlows by decide
  deferred := by simp
  skipped := by simp

theorem skipped_concat (d : Decides codec limit byteBudget decided s) {v : Verdict}
    (hot : v = .taken → ∀ application j, Deferred decided application j → ¬ConnectsFrom application e) {i : Nat} {e' : Event}
    (hth : decided[i]? = some (e', .skipped)) : e'.event = applicationConnectionEvent ∧
      e'.application ∈ s.deferredApplications ∧ ∃ j ≤ i, Deferred (decided ++ [(e, v)]) e'.application j := by
  obtain ⟨hk, mem, j, le, hd⟩ := d.skipped i e' hth
  exact ⟨hk, mem, j, le, hd.concat fun ht => hot ht _ j hd⟩

theorem mem_deferred (d : Decides codec limit byteBudget decided s) {application : String} {j : Nat}
    (hd : Deferred decided application j) : application ∈ s.deferredApplications := by
  obtain ⟨e, hhe, ⟨-, rfl⟩, -⟩ := hd.refused
  exact (d.skipped j e hhe).2.1

theorem oversize (d : Decides codec limit byteBudget decided s)
    (unsendable : codec.marshal e = none ∨ byteBudget < eventBytes codec e) :
    Decides codec limit byteBudget (decided ++ [(e, .oversized)]) { s with oversized := s.oversized ++ [e] } where
  batch := by rw [withVerdict_concat, if_neg nofun, List.append_nil, d.batch]
  oversized := by rw [withVerdict_concat, if_pos rfl, d.oversized]
  count := d.count
  marshals := d.marshals
  bytes := d.bytes
  budget := d.budget
  alone e' mem := by
    rcases List.mem_append.mp mem with old | new
    · exact d.alone e' old
    · exact List.mem_singleton.mp new ▸ unsendable
  represented := d.represented
  flows := d.flows
  deferred application mem := by
    obtain ⟨j, deferred⟩ := d.deferred application mem
    exact ⟨j, deferred.concat nofun⟩
  skipped i e' there := by
    rcases List.getElem?_concat_cases there with old | ⟨-, new⟩
    · exact d.skipped_concat (v := .oversized) (fun taken => by cases taken) old
    · cases new

theorem skip (d : Decides codec limit byteBudget decided s) {deferred : List String}
    (hk : e.event = applicationConnectionEvent) (hke : s.deferredApplications ⊆ deferred) (mem : e.application ∈ deferred)
    (hr : ∀ application ∈ deferred, ∃ j, Deferred (decided ++ [(e, .skipped)]) application j) :
    Decides codec limit byteBudget (decided ++ [(e, .skipped)]) { s with deferredApplications := deferred } where
  batch := by rw [withVerdict_concat, if_neg nofun, List.append_nil, d.batch]
  oversized := by rw [withVerdict_concat, if_neg nofun, List.append_nil, d.oversized]
  count := d.count
  marshals := d.marshals
  bytes := d.bytes
  budget := d.budget
  alone := d.alone
  represented := d.represented
  flows := d.flows
  deferred := hr
  skipped i e' there := by
    rcases List.getElem?_concat_cases there with old | ⟨rfl, new⟩
    · obtain ⟨hk, old, hr⟩ := d.skipped_concat (v := .skipped) (fun ht => by cases ht) old
      exact ⟨hk, hke old, hr⟩
    · obtain ⟨rfl, -⟩ := Prod.mk.inj new
      obtain ⟨j, deferred⟩ := hr _ mem
      obtain ⟨e₀, hhe, -⟩ := deferred.refused
      refine ⟨hk, mem, j, ?_, deferred⟩
      have lt := (List.getElem?_eq_some_iff.mp hhe).1
      rw [List.length_append, List.length_singleton] at lt
      exact Nat.le_of_lt_succ lt

theorem take (d : Decides codec limit byteBudget decided s) {represented : KeyedMap String Int}
    (space : (s.batch.length : Int) < limit) (marshals : (codec.marshal e).isSome)
    (fits : s.totalBytes + eventBytes codec e ≤ byteBudget)
    (free : ∀ application, ConnectsFrom application e → ¬∃ j, Deferred decided application j)
    (counted : ∀ application, (represented.lookup application).getD 0 = representedFlows application (s.batch ++ [e]))
    (flows : ∀ application, representedFlows application (s.batch ++ [e]) ≤ maxReportedFlows) :
    Decides codec limit byteBudget (decided ++ [(e, .taken)]) { s with
      batch := s.batch ++ [e], representedByApplication := represented,
      totalBytes := s.totalBytes + eventBytes codec e } where
  batch := by rw [withVerdict_concat, if_pos rfl, d.batch]
  oversized := by rw [withVerdict_concat, if_neg nofun, List.append_nil, d.oversized]
  count := by
    rw [List.length_append, List.length_singleton]
    omega
  marshals e' mem := by
    rcases List.mem_append.mp mem with old | new
    · exact d.marshals e' old
    · exact List.mem_singleton.mp new ▸ marshals
  bytes := by rw [batchBytes_concat, d.bytes]
  budget := by
    rw [batchBytes_concat, ← d.bytes]
    exact le_max_of_le_right fits
  alone := d.alone
  represented := counted
  flows := flows
  deferred application mem := by
    obtain ⟨j, deferred⟩ := d.deferred application mem
    exact ⟨j, deferred.concat fun _ own => free application own ⟨j, deferred⟩⟩
  skipped i e' there := by
    rcases List.getElem?_concat_cases there with old | ⟨-, new⟩
    · exact d.skipped_concat (fun _ application j deferred own => free application own ⟨j, deferred⟩) old
    · cases new

end Selection.Decides

section Loop
variable {codec : EventCodec} {first : Event} {limit byteBudget : Int}

theorem eventBytes_of_marshal {e : Event} {line : Bytes} (hm : codec.marshal e = some line) :
    eventBytes codec e = line.length + 1 := by
  rw [eventBytes, hm, Option.getD_some]

def Continues (codec : EventCodec) (first : Event) (limit byteBudget : Int) (events : List Event)
    (decided : List (Event × Verdict)) (s : Selection) : Prop :=
  ∃ more : List (Event × Verdict), s.Decides codec limit byteBudget (decided ++ more) ∧
    more.map (·.1) <+: events.takeWhile (SameIdentity · first) ∧
    Stopped codec limit byteBudget (events.takeWhile (SameIdentity · first)) (more.map (·.1)) s.batch

theorem Continues.stop {events : List Event} {decided : List (Event × Verdict)} {s : Selection}
    (d : s.Decides codec limit byteBudget decided)
    (hst : Stopped codec limit byteBudget (events.takeWhile (SameIdentity · first)) [] s.batch) :
    Continues codec first limit byteBudget events decided s :=
  ⟨[], by rwa [List.append_nil], List.nil_prefix, hst⟩

theorem Continues.cons {event : Event} {v : Verdict} {rest : List Event} {decided : List (Event × Verdict)} {s : Selection}
    (hs : SameIdentity event first)
    (hc : Continues codec first limit byteBudget rest (decided ++ [(event, v)]) s) :
    Continues codec first limit byteBudget (event :: rest) decided s := by
  obtain ⟨more, hde, hpa, hst⟩ := hc
  have run : (event :: rest).takeWhile (SameIdentity · first) = event :: rest.takeWhile (SameIdentity · first) :=
    List.takeWhile_cons_of_pos (decide_eq_true hs)
  refine ⟨(event, v) :: more, by rwa [List.append_assoc] at hde, ?_, ?_⟩
  · rw [run]
    exact (List.prefix_cons_inj event).mpr hpa
  · rw [run, List.map_cons]
    rcases hst with all | hfu | ⟨hne, ha, hto⟩
    · exact .all (congrArg _ all)
    · exact .full hfu
    · exact .bytes (congrArg _ hne) ha hto

theorem selectEvents_continues {events : List Event} {s : Selection} : ∀ {decided : List (Event × Verdict)},
    s.Decides codec limit byteBudget decided →
      Continues codec first limit byteBudget events decided (selectEvents codec first limit byteBudget events s) := by
  fun_induction selectEvents codec first limit byteBudget events s
  case case1 s => exact fun d => .stop d (.all rfl)
  case case2 event rest s hot =>
    intro decided d
    have hot : ¬SameIdentity event first := by rwa [SameIdentity, Classical.not_and_iff_not_or_not]
    exact .stop d (.all (List.takeWhile_cons_of_neg (by simpa using hot)).symm)
  case case3 event rest s hs hfu => exact fun d => .stop d (.full hfu)
  case case4 event rest s hs hsp hfa ih =>
    intro decided d
    simp only [not_or, not_not] at hs
    exact .cons hs (ih (d.oversize (.inl hfa)))
  case case5 event rest s hs hsp line hm size hab ih =>
    intro decided d
    simp only [not_or, not_not] at hs
    have hb : eventBytes codec event = size := eventBytes_of_marshal hm
    exact .cons hs (ih (d.oversize (.inr (hb ▸ hab))))
  case case6 event rest s hs hsp line hm size ha hab =>
    intro decided d
    simp only [not_or, not_not] at hs
    have hb : eventBytes codec event = size := eventBytes_of_marshal hm
    refine .stop d (.bytes (List.takeWhile_cons_of_pos (decide_eq_true hs)) ?_ ?_)
    · omega
    · rw [← d.bytes, hb]
      exact hab
  case case7 event rest s hs hsp line hm size ha hfi hk ih =>
    intro decided d
    simp only [not_or, not_not] at hs
    have hb : eventBytes codec event = size := eventBytes_of_marshal hm
    have hfr : ∀ application, ¬ConnectsFrom application event := fun _ own => hk own.1
    have hfl (application : String) :
        representedFlows application (s.batch ++ [event]) = representedFlows application s.batch := by
      rw [representedFlows_concat, if_neg (hfr application), Int.add_zero]
    refine .cons (v := .taken) hs (ih ?_)
    rw [← hb]
    refine d.take (Int.not_le.mp hsp) (by rw [hm]; rfl) (by omega) (fun _ own => absurd own (hfr _)) ?_ ?_
    · intro application
      rw [hfl, d.represented]
    · intro application
      rw [hfl]
      exact d.flows application
  case case8 event rest s hs hsp line hm size ha hfi hk hd ih =>
    intro decided d
    simp only [not_or, not_not] at hs
    refine .cons hs (ih (d.skip (Decidable.not_not.mp hk) (List.Subset.refl _) hd ?_))
    intro application mem
    obtain ⟨j, hd⟩ := d.deferred application mem
    exact ⟨j, hd.concat fun hs => by cases hs⟩
  case case9 event rest s hs hsp line hm size ha hfi hk hfr count used hab ih =>
    intro decided d
    simp only [not_or, not_not] at hs
    have own : ConnectsFrom event.application event := ⟨Decidable.not_not.mp hk, rfl⟩
    have hu : used = representedFlows event.application (withVerdict .taken decided) :=
      d.batch ▸ d.represented event.application
    refine .cons hs (ih (d.skip own.1 (List.subset_cons_self _ _) List.mem_cons_self ?_))
    intro application mem
    rcases List.mem_cons.mp mem with rfl | old
    · exact ⟨_, Deferred.new own (by omega)⟩
    · obtain ⟨j, hd⟩ := d.deferred application old
      exact ⟨j, hd.concat fun hs => by cases hs⟩
  case case10 event rest s hs hsp line hm size ha hfi hk hfr count used hw ih =>
    intro decided d
    simp only [not_or, not_not] at hs
    have hb : eventBytes codec event = size := eventBytes_of_marshal hm
    have hu : used = representedFlows event.application s.batch := d.represented event.application
    refine .cons (v := .taken) hs (ih ?_)
    rw [← hb]
    refine d.take (Int.not_le.mp hsp) (by rw [hm]; rfl) (by omega) ?_ ?_ ?_
    · rintro application ⟨-, rfl⟩ ⟨j, hd⟩
      exact hfr (d.mem_deferred hd)
    · intro application
      rw [KeyedMap.lookup_insert_eq, representedFlows_concat]
      by_cases own : application = event.application
      · subst own
        rw [if_pos rfl, if_pos ⟨Decidable.not_not.mp hk, rfl⟩, Option.getD_some, hu]
      · rw [if_neg own, if_neg fun hco => own hco.2.symm, d.represented, Int.add_zero]
    · intro application
      rw [representedFlows_concat]
      split
      next own =>
        obtain ⟨-, rfl⟩ := own
        omega
      next => exact Int.add_zero _ ▸ d.flows application

end Loop

/-! ### The batch -/

structure Selects (codec : EventCodec) (events : List Event) (limit byteBudget : Int) (batch oversized : List Event) :
    Prop where
  sublist : batch.Sublist (leadingRun events)
  count : batch = [] ∨ (batch.length : Int) ≤ limit
  marshals : ∀ e ∈ batch, (codec.marshal e).isSome
  bytes : batch = [] ∨ batchBytes codec batch ≤ byteBudget
  flows : ∀ application, representedFlows application batch ≤ maxReportedFlows
  alone : ∀ e ∈ oversized, codec.marshal e = none ∨ byteBudget < eventBytes codec e
  decisions : ∃ decided : List (Event × Verdict), decided.map (·.1) <+: leadingRun events ∧
    batch = withVerdict .taken decided ∧ oversized = withVerdict .oversized decided ∧
    ∀ (i : Nat) e, decided[i]? = some (e, .skipped) →
      e.event = applicationConnectionEvent ∧ ∃ j ≤ i, Deferred decided e.application j
  progress : events ≠ [] → 0 < limit → ¬(batch = [] ∧ oversized = [])

theorem mem_withVerdict {decided : List (Event × Verdict)} {e : Event} {v : Verdict} (mem : (e, v) ∈ decided) :
    e ∈ withVerdict v decided := List.mem_map_of_mem (List.mem_filter.mpr ⟨mem, decide_eq_true rfl⟩)

theorem sameIdentity_leadingRun {first e : Event} {rest : List Event} (mem : e ∈ leadingRun (first :: rest)) :
    SameIdentity e first := by simpa using List.mem_takeWhile_imp mem

theorem leadingRun_ne_nil {events : List Event} (hq : events ≠ []) : leadingRun events ≠ [] := by
  obtain ⟨first, rest, rfl⟩ := List.exists_cons_of_ne_nil hq
  rw [leadingRun, List.takeWhile_cons_of_pos (by simp [SameIdentity])]
  exact List.cons_ne_nil _ _

/-- A first event is never skipped: alone it fits every flow budget. -/
theorem Selection.Decides.first {codec : EventCodec} {limit byteBudget : Int} {s : Selection} {e : Event} {v : Verdict}
    {rest : List (Event × Verdict)} (d : s.Decides codec limit byteBudget ((e, v) :: rest)) : v ≠ .skipped := by
  rintro rfl
  obtain ⟨-, -, j, le, hd⟩ := d.skipped 0 e rfl
  obtain rfl : j = 0 := Nat.le_zero.mp le
  obtain ⟨e₀, -, -, hre⟩ := hd.refused
  have hno : representedFlows e.application (withVerdict .taken (((e, .skipped) :: rest).take 0)) = 0 := rfl
  have := (applicationConnectionCount_bounds e₀).2
  omega

theorem Selection.Decides.selects {codec : EventCodec} {events : List Event} {limit byteBudget : Int} {s : Selection}
    {decided : List (Event × Verdict)} (d : s.Decides codec limit byteBudget decided)
    (hpa : decided.map (·.1) <+: leadingRun events)
    (hst : Stopped codec limit byteBudget (leadingRun events) (decided.map (·.1)) s.batch) :
    Selects codec events limit byteBudget s.batch s.oversized where
  sublist := d.batch ▸ (withVerdict_sublist _ _).trans hpa.sublist
  count := by
    by_cases hn : s.batch = []
    · exact .inl hn
    · have := d.count
      have := List.length_pos_iff.mpr hn
      exact .inr (by omega)
  marshals := d.marshals
  bytes := by
    by_cases hn : s.batch = []
    · exact .inl hn
    · rcases le_max_iff.mp d.budget with hz | hw
      · exact absurd (batchBytes_pos codec hn) (Int.not_lt.mpr hz)
      · exact .inr hw
  flows := d.flows
  alone := d.alone
  decisions := ⟨decided, hpa, d.batch, d.oversized, fun i e hth =>
    let ⟨hk, _, hr⟩ := d.skipped i e hth
    ⟨hk, hr⟩⟩
  progress := by
    rintro hq hp ⟨hn, hsm⟩
    cases decided with
    | nil =>
      rcases hst with all | hfu | ⟨-, alone, hto⟩
      · exact leadingRun_ne_nil hq all.symm
      · simp only [hn, List.length_nil] at hfu
        omega
      · have hno : batchBytes codec s.batch = 0 := by rw [hn]; rfl
        omega
    | cons head rest =>
      obtain ⟨e, v⟩ := head
      have hhe : e ∈ withVerdict v ((e, v) :: rest) := mem_withVerdict List.mem_cons_self
      cases v with
      | taken => simp [← d.batch, hn] at hhe
      | oversized => simp [← d.oversized, hsm] at hhe
      | skipped => exact d.first rfl

theorem outboxUploadBatch_spec (codec : EventCodec) (events : List Event) (limit byteBudget : Int) :
    Selects codec events limit byteBudget (outboxUploadBatch codec events limit byteBudget).1
      (outboxUploadBatch codec events limit byteBudget).2 := by
  have hno (hi : events = [] ∨ limit ≤ 0) : Selects codec events limit byteBudget [] [] := {
    sublist := List.nil_sublist _
    count := .inl rfl
    marshals := by simp
    bytes := .inl rfl
    flows := fun _ => show (0 : Int) ≤ maxReportedFlows by decide
    alone := by simp
    decisions := ⟨[], List.nil_prefix, rfl, rfl, by simp⟩
    progress := fun hq hp => absurd hi (by simp [hq, hp]) }
  unfold outboxUploadBatch
  split
  · exact hno (.inl rfl)
  next first rest =>
    split
    next hi => exact hno (.inr hi)
    next =>
      have hc : Continues codec first limit byteBudget (first :: rest) [] _ :=
        selectEvents_continues (.nil codec limit byteBudget)
      obtain ⟨decided, d, hpa, hst⟩ := hc
      exact d.selects hpa hst

/-! ### The drain loop -/

namespace OutboxHost
variable {h : OutboxHost}

def without (gone events : List Event) : List Event := events.filter fun e => !gone.any (·.eventID = e.eventID)

theorem without_shorter {gone events : List Event} {e : Event} (mem : e ∈ events) (ht : e ∈ gone) :
    (without gone events).length < events.length := by
  refine List.length_filter_lt_length_iff_exists.mpr ⟨e, mem, ?_⟩
  simp only [Bool.not_eq_true, Bool.not_eq_false', List.any_eq_true, decide_eq_true_eq]
  exact ⟨e, ht, rfl⟩

theorem without_nil (events : List Event) : without [] events = events := by simp [without]

structure Holds (h : OutboxHost) (events : List Event) : Prop where
  loaded : h.outbox.loaded = true
  opened : h.outbox.closed = false
  events : h.outbox.events = events

theorem Holds.removeSent {events : List Event} (codec : EventCodec) (hh : h.Holds events) (sent : List Event) :
    (h.removeSent codec {} sent).Holds (without sent events) := by
  obtain ⟨hl, ho, rfl⟩ := hh
  have hsi := removeSent_loaded codec sent hl
  unfold OutboxHost.removeSent at hsi ⊢
  rw [ho] at hsi ⊢
  simp only [Bool.false_eq_true, if_false] at hsi ⊢
  split
  · exact ⟨hl, ho, rfl⟩
  · exact ⟨hl, ho, rfl⟩

end OutboxHost

namespace Uploads
variable {codec : EventCodec} {h : OutboxHost} {events batch : List Event}

theorem runDiscard_proceed (n : Nat) :
    runDiscard codec (proceed .flush batch n { host := h }) = proceed .flush batch n { host := h } := by
  cases batch <;> rfl

theorem runSend_proceed (codec : EventCodec) (batch : List Event) (hh : h.Holds events) : ∃ (h' : OutboxHost) (sent : Nat),
    runSend codec (proceed .flush batch events.length { host := h }) =
        { host := h', answers := [{ sent, pending := (OutboxHost.without batch events).length }] } ∧
      h'.Holds (OutboxHost.without batch events) := by
  cases batch with
  | nil =>
    rw [OutboxHost.without_nil]
    exact ⟨h, 0, rfl, hh⟩
  | cons e batch =>
    have haf := hh.removeSent codec (e :: batch)
    refine ⟨_, (e :: batch).length, ?_, haf⟩
    rw [← haf.events]
    rfl

theorem flushAccepted_eq (ho : h.outbox.closed = false) {oversized : List Event}
    (hch : outboxUploadBatch codec (h.memory codec).events outboxBatchSize outboxBatchByteBudget = (batch, oversized)) :
    ∃ (h' : OutboxHost) (sent : Nat) (left : List Event),
      left = OutboxHost.without batch (OutboxHost.without oversized (h.memory codec).events) ∧
      flushAccepted codec h = { host := h', answers := [{ sent, pending := left.length }] } ∧ h'.Holds left := by
  obtain ⟨h₁, hlo, hl, hme, hs⟩ := OutboxHost.load_memory codec h
  rw [hme] at hch ⊢
  have hh : h₁.Holds h₁.outbox.events := ⟨hl, hs.trans ho, rfl⟩
  have hsa : flushNextBatch codec { host := h } =
      if oversized ≠ [] then { host := h₁, flights := [.discarding .flush batch oversized] }
      else proceed .flush batch h₁.outbox.events.length { host := h₁ } := by
    simp only [flushNextBatch, start, ho, hlo, UploadKind.choose, hch]
    rfl
  rw [flushAccepted, hsa]
  by_cases hn : oversized = []
  · obtain ⟨h', sent, hse, haf⟩ := runSend_proceed codec batch hh
    refine ⟨h', sent, _, rfl, ?_, ?_⟩
    · rw [if_neg (not_not.mpr hn), runDiscard_proceed, hse, hn, OutboxHost.without_nil]
    · rwa [hn, OutboxHost.without_nil]
  · have hdi := hh.removeSent codec oversized
    obtain ⟨h', sent, hse, haf⟩ := runSend_proceed codec batch hdi
    refine ⟨h', sent, _, rfl, ?_, haf⟩
    rw [if_pos hn, ← hse, ← hdi.events]
    rfl

theorem flushAccepted_shorter (codec : EventCodec) (ho : h.outbox.closed = false) :
    ∃ (h' : OutboxHost) (sent : Nat) (left : List Event),
      flushAccepted codec h = { host := h', answers := [{ sent, pending := left.length }] } ∧ h'.Holds left ∧
      (left = [] ∨ left.length < (h.memory codec).events.length) := by
  have hsc := outboxUploadBatch_spec codec (h.memory codec).events outboxBatchSize outboxBatchByteBudget
  rcases hch : outboxUploadBatch codec (h.memory codec).events outboxBatchSize outboxBatchByteBudget with ⟨batch, oversized⟩
  obtain ⟨h', sent, left, hle, hf, hh⟩ := flushAccepted_eq ho hch
  refine ⟨h', sent, left, hf, hh, ?_⟩
  rw [hch] at hsc
  have mem (e : Event) (hsl : e ∈ batch ∨ e ∈ oversized) : e ∈ (h.memory codec).events :=
    UploadKind.choose_mem codec .flush _ e (by rwa [UploadKind.choose, hch])
  subst hle
  by_cases he : (h.memory codec).events = []
  · exact .inl (by rw [he]; rfl)
  by_cases hsm : oversized = []
  · obtain ⟨e, ht⟩ := List.exists_mem_of_ne_nil batch fun hn => hsc.progress he (by decide) ⟨hn, hsm⟩
    rw [hsm, OutboxHost.without_nil]
    exact .inr (OutboxHost.without_shorter (mem e (.inl ht)) ht)
  · obtain ⟨e, hdi⟩ := List.exists_mem_of_ne_nil oversized hsm
    exact .inr (Nat.lt_of_le_of_lt (List.length_filter_le _ _)
      (OutboxHost.without_shorter (mem e (.inr hdi)) hdi))

theorem drain_empties (codec : EventCodec) (calls : Nat) (ho : h.outbox.closed = false)
    (hen : (h.memory codec).events.length < calls) :
    ∃ h', drain codec calls h = some h' ∧ (h'.memory codec).events = [] := by
  induction calls generalizing h with
  | zero => omega
  | succ calls ih =>
    obtain ⟨h', sent, left, hf, hh, hsh⟩ := flushAccepted_shorter codec ho
    have hme : (h'.memory codec).events = left := by
      rw [OutboxHost.memory_loaded hh.loaded]
      exact hh.events
    rw [drain, hf]
    by_cases hn : left = []
    · subst hn
      exact ⟨h', rfl, hme⟩
    · have hpe : left.length ≠ 0 := by simpa using hn
      simp only [List.all_cons, List.all_nil, Option.isNone_none, Bool.and_true, decide_eq_true hpe,
        if_true]
      refine ih hh.opened ?_
      have := hsh.resolve_left hn
      rw [hme]
      omega

end Uploads

/-- Every batch is an ordered part of the leading run of one client and session, and a drain loop against an accepting
    broker empties every queue. -/
theorem outboxUploadBatch_drains (codec : EventCodec) (events : List Event) (limit byteBudget : Int) :
    Selects codec events limit byteBudget (outboxUploadBatch codec events limit byteBudget).1
        (outboxUploadBatch codec events limit byteBudget).2 ∧
      ∀ (h : OutboxHost) (calls : Nat), h.outbox.closed = false → (h.memory codec).events.length < calls →
        ∃ h', Uploads.drain codec calls h = some h' ∧ (h'.memory codec).events = [] :=
  ⟨outboxUploadBatch_spec codec events limit byteBudget, fun _ calls opened enough =>
    Uploads.drain_empties codec calls opened enough⟩

end OpenRung.Telemetry
