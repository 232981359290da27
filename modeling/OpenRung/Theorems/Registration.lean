import OpenRung.Lib.Slots
import OpenRung.Lib.Trace
import OpenRung.System.Registration
import Mathlib.Tactic

/-! The budget of new relay identities over all interleavings of registrations. The units in the table are those that
    requests hold, up to the ones that aged out; so a reservation that finds room keeps every trailing window within
    the limit, unless one of its units is within a millisecond of ageing out. -/

namespace OpenRung.Registration
open Broker

variable {s s' : System}

/-! ### Rounding to milliseconds -/

theorem unixMilli_lt_of_sub_le {now at_ : Time} (hy : now - at_ ≤ newRelayCapWindow - millisecond) :
    NewRelayCap.cutoff now < unixMilli at_ := by
  simp only [NewRelayCap.cutoff, unixMilli, newRelayCapWindow, millisecond, hour, minute, second] at *
  lia

theorem unixMilli_mono {t t' : Time} (le : t ≤ t') : unixMilli t ≤ unixMilli t' :=
  Int.ediv_le_ediv (by decide) le

theorem cutoff_mono {t t' : Time} (le : t ≤ t') : NewRelayCap.cutoff t ≤ NewRelayCap.cutoff t' :=
  sub_le_sub_right (unixMilli_mono le) _

theorem cutoff_lt_unixMilli (now : Time) : NewRelayCap.cutoff now < unixMilli now :=
  unixMilli_lt_of_sub_le (by simp only [sub_self]; decide)

/-! ### The units that requests hold -/

def units (s : System) : List Reservation := s.requests.filterMap Request.held

def liveStamps (units : List Reservation) (key : String) (cut : Option Int) : List Int :=
  ((units.filter fun u => decide (u.key = key)).map Reservation.stamp).filter fun stamp => cut.all (· < stamp)

theorem liveStamps_perm {us us' : List Reservation} (hp : us.Perm us') (key : String) (cut : Option Int) :
    (liveStamps us key cut).Perm (liveStamps us' key cut) := ((hp.filter _).map _).filter _

theorem liveStamps_cons (u : Reservation) (us : List Reservation) (key : String) (cut : Option Int) :
    liveStamps (u :: us) key cut =
      if u.key = key ∧ cut.all (· < u.stamp) = true then u.stamp :: liveStamps us key cut else liveStamps us key cut := by
  unfold liveStamps
  by_cases hs : u.key = key
  · by_cases hl : cut.all (· < u.stamp) = true
    · simp [hs, hl]
    · simp [hs, hl]
  · simp [hs]

theorem liveStamps_later (us : List Reservation) (key : String) {cut : Option Int} {cut' : Int}
    (le : ∀ c, cut = some c → c ≤ cut') :
    (liveStamps us key cut).filter (fun stamp => decide (cut' < stamp)) = liveStamps us key (some cut') := by
  unfold liveStamps
  rw [List.filter_filter]
  refine List.filter_congr fun stamp _ => ?_
  cases cut with
  | none => simp
  | some c =>
    have := le c rfl
    simp only [Option.all_some, Bool.and_eq_left_iff_imp, decide_eq_true_eq]
    exact fun lt => this.trans_lt lt

def inWindow (units : List Reservation) (key : String) (t : Time) : Nat :=
  units.countP fun u => decide (u.key = key ∧ t - newRelayCapWindow < u.takenAt ∧ u.takenAt ≤ t)

/-! ### What a step does to the units -/

variable {r : Request} {i : Nat}

theorem units_set (ht : s.requests[i]? = some r) (r' : Request) :
    ∃ others, (units s).Perm (r.held.toList ++ others) ∧ (units (s.set i r')).Perm (r'.held.toList ++ others) :=
  List.exists_filterMap_set Request.held ht r'

theorem units_set_same {r r' : Request} (ht : s.requests[i]? = some r) (hs : r'.held = r.held) :
    (units (s.set i r')).Perm (units s) := by
  obtain ⟨others, hb, haf⟩ := units_set ht r'
  rw [hs] at haf
  exact haf.trans hb.symm

def RequestPC.committed : RequestPC → Option String
  | .committing id => some id
  | _ => none

/-- `reserve` calls come in the order of their times, and neither table is full. -/
def Orderly (s : System) : Action → Prop
  | .reserve i => ∀ r ∈ s.requests[i]?, (∀ t ∈ s.clock, t ≤ r.now) ∧
    ∀ key ∈ s.cap.key r.source, key ∈ s.cap.sources ∨ s.cap.sources.entries.length < s.cap.maxKeys
  | .commit i => ∀ r ∈ s.requests[i]?, ∀ id ∈ r.pc.committed,
    id ∈ s.ledger.seen ∨ s.ledger.seen.entries.length < s.ledger.maxEntries
  | .heartbeat id _ => id ∈ s.ledger.seen ∨ s.ledger.seen.entries.length < s.ledger.maxEntries
  | _ => True

instance (s : System) : DecidablePred (Orderly s) := fun action => by
  cases action <;> unfold Orderly <;> infer_instance

inductive Reserved (c : NewRelayCap) (key : String) (now : Time) : NewRelayCap → Verdict → Prop
  | refused (full : c.limit ≤ (c.kept key now).length) : Reserved c key now (c.put key (c.kept key now)) .refused
  | unit (room : (c.kept key now).length < c.limit) :
    Reserved c key now (c.put key (c.kept key now ++ [unixMilli now])) (.unit key (unixMilli now))

theorem reserve_cases (c : NewRelayCap) (source : String) (now : Time)
    (hro : ∀ key, c.key source = some key → key ∈ c.sources ∨ c.sources.entries.length < c.maxKeys) :
    (c.reserve source now = (c, .free) ∧ (c.limit < 0 ∨ c.key source = none)) ∨
      ∃ key, ¬c.limit < 0 ∧ c.key source = some key ∧
        Reserved c key now (c.reserve source now).1 (c.reserve source now).2 := by
  unfold NewRelayCap.reserve
  split
  next hd => exact .inl ⟨rfl, .inl hd⟩
  next he =>
    split
    next hex => exact .inl ⟨rfl, .inr hex⟩
    next key hk =>
      refine .inr ⟨key, he, hk, ?_⟩
      dsimp only
      split
      next hf => exact .refused hf
      next hle =>
        rw [if_neg]
        · exact .unit (not_le.mp hle)
        · rintro ⟨ha, hf⟩
          rcases hro key hk with ht | hls
          · exact ha ht
          · omega

inductive CapStep (s : System) (action : Action) (s' : System) : Prop
  | quiet (cap : s'.cap = s.cap) (clock : s'.clock = s.clock) (cutoffs : s'.cutoffs = s.cutoffs)
    (perm : (units s').Perm (units s))
  | free (r : Request) (mem : r ∈ s.requests) (cap : s'.cap = s.cap) (clock : s'.clock = some r.now)
    (cutoffs : s'.cutoffs = s.cutoffs) (perm : (units s').Perm (units s)) (order : ∀ t, s.clock = some t → t ≤ r.now)
  | refused (r : Request) (key : String) (mem : r ∈ s.requests) (known : s.cap.key r.source = some key)
    (reserved : Reserved s.cap key r.now s'.cap .refused) (clock : s'.clock = some r.now)
    (cutoffs : s'.cutoffs = Function.update s.cutoffs key (some (NewRelayCap.cutoff r.now)))
    (perm : (units s').Perm (units s)) (order : ∀ t, s.clock = some t → t ≤ r.now)
  | taken (i : Nat) (r : Request) (key : String) (act : action = .reserve i) (there : s.requests[i]? = some r)
    (known : s.cap.key r.source = some key) (reserved : Reserved s.cap key r.now s'.cap (.unit key (unixMilli r.now)))
    (clock : s'.clock = some r.now)
    (cutoffs : s'.cutoffs = Function.update s.cutoffs key (some (NewRelayCap.cutoff r.now)))
    (perm : (units s').Perm ({ key := key, stamp := unixMilli r.now, takenAt := r.now } :: units s))
    (order : ∀ t, s.clock = some t → t ≤ r.now)
  | given (u : Reservation) (cap : s'.cap = s.cap.release u.key u.stamp) (clock : s'.clock = s.clock)
    (cutoffs : s'.cutoffs = s.cutoffs) (perm : (units s).Perm (u :: units s'))

structure Request.Good (r : Request) : Prop where
  fresh : r.pc = .start ∨ r.pc = .reserving → r.unit = none
  back : r.pc = .done false → r.held = none

def AllGood (s : System) : Prop := ∀ r ∈ s.requests, r.Good

theorem reserve_capStep (hg : AllGood s) (ht : s.requests[i]? = some r)
    (pc : r.pc = .reserving) (ho : Orderly s (.reserve i)) : CapStep s (.reserve i) (s.reserve i r) := by
  obtain ⟨hor, hro⟩ := ho r ht
  have mem := List.mem_of_getElem? ht
  have unit : r.unit = none := (hg r mem).fresh (.inr pc)
  have hh : r.held = none := by rw [Request.held, unit]; rfl
  unfold System.reserve
  rcases reserve_cases s.cap r.source r.now hro with ⟨hfr, why⟩ | ⟨key, he, hk, hr⟩
  · rw [hfr]
    refine .free r mem rfl rfl ?_ (units_set_same ht rfl) hor
    rcases why with hd | hex
    · exact if_pos hd
    · simp [System.set, hex]
  · generalize s.cap.reserve r.source r.now = result at hr
    obtain ⟨cap, verdict⟩ := result
    cases hr with
    | refused hf =>
      refine .refused r key mem hk (.refused hf) rfl ?_ (units_set_same ht rfl) hor
      simp [System.set, he, hk]
    | unit hle =>
      refine .taken i r key rfl ht hk (.unit hle) rfl ?_ ?_ hor
      · simp [System.set, he, hk]
      · obtain ⟨others, hb, haf⟩ := units_set ht
          { r with pc := .storing, unit := some { key := key, stamp := unixMilli r.now, takenAt := r.now } }
        rw [hh] at hb
        exact haf.trans (List.Perm.cons _ hb.symm)

variable {action : Action}

theorem finish_capStep (ht : s.requests[i]? = some r) (keep : Bool) :
    CapStep s action (s.finish i r keep) := by
  unfold System.finish
  split
  next u unit =>
    split
    next => exact .quiet rfl rfl rfl (units_set_same ht rfl)
    next released =>
      refine .given u rfl rfl rfl ?_
      simp only [Bool.or_eq_true, not_or, Bool.not_eq_true] at released
      obtain ⟨others, hb, haf⟩ := units_set ht
        { r with pc := .done keep, unit := some { u with released := true } }
      rw [show r.held = some u by simp [Request.held, unit, released.2]] at hb
      exact hb.trans (List.Perm.cons _ haf.symm)
  next => exact .quiet rfl rfl rfl (units_set_same ht rfl)

theorem lookup_capStep (ht : s.requests[i]? = some r) :
    CapStep s action (s.lookup i r) := by
  unfold System.lookup
  split
  next => exact .quiet rfl rfl rfl (units_set_same ht rfl)
  next => exact .quiet rfl rfl rfl (units_set_same ht rfl)

theorem step_capStep (hg : AllGood s) (ho : Orderly s action)
    (eq : s.step action = some s') : CapStep s action s' := by
  cases action with
  | request source identity foundation now =>
    cases eq
    refine .quiet rfl rfl rfl (.of_eq ?_)
    rw [units, List.filterMap_append]
    exact List.append_nil _
  | lookup i =>
    obtain ⟨r, ht, eq⟩ := Option.bind_eq_some_iff.mp eq
    split at eq
    · cases eq
      exact lookup_capStep ht
    · cases eq
  | reserve i =>
    obtain ⟨r, ht, eq⟩ := Option.bind_eq_some_iff.mp eq
    split at eq
    next pc =>
      cases eq
      exact reserve_capStep hg ht pc ho
    next => cases eq
  | store i result =>
    obtain ⟨r, ht, eq⟩ := Option.bind_eq_some_iff.mp eq
    repeat' split at eq
    all_goals cases eq
    all_goals exact .quiet rfl rfl rfl (units_set_same ht rfl)
  | commit i =>
    obtain ⟨r, ht, eq⟩ := Option.bind_eq_some_iff.mp eq
    split at eq
    · cases eq
      exact .quiet rfl rfl rfl (units_set_same ht rfl)
    · cases eq
  | finish i =>
    obtain ⟨r, ht, eq⟩ := Option.bind_eq_some_iff.mp eq
    split at eq
    · cases eq
      exact finish_capStep ht _
    · cases eq
  | heartbeat id now =>
    cases eq
    exact .quiet rfl rfl rfl (.refl _)
  | telemetry id now =>
    cases eq
    exact .quiet rfl rfl rfl (.refl _)

theorem AllGood.set (hg : AllGood s) (now : r.Good) : AllGood (s.set i r) := by
  intro other mem
  rcases List.mem_or_eq_of_mem_set mem with mem | rfl
  · exact hg other mem
  · exact now

theorem Request.Good.of_pc (hlt : r.pc ≠ .start ∧ r.pc ≠ .reserving) (hop : r.pc ≠ .done false) : r.Good :=
  ⟨fun hea => absurd hea (not_or.mpr hlt), fun hdo => absurd hdo hop⟩

theorem AllGood.lookup (hg : AllGood s) (ht : s.requests[i]? = some r) (pc : r.pc = .start) :
    AllGood (s.lookup i r) := by
  have hu : r.unit = none := (hg r (List.mem_of_getElem? ht)).fresh (.inl pc)
  have hne : ∀ b : Bool, Request.Good { r with pc := if b && !r.foundation then .reserving else .storing } := by
    intro b
    refine ⟨fun _ => hu, fun hdo => ?_⟩
    dsimp only at hdo
    split at hdo <;> cases hdo
  unfold System.lookup
  split
  · exact hg.set (hne true)
  · exact hg.set (hne _)

theorem AllGood.reserve (hg : AllGood s) (ht : s.requests[i]? = some r)
    (pc : r.pc = .reserving) : AllGood (s.reserve i r) := by
  have hu : r.unit = none := (hg r (List.mem_of_getElem? ht)).fresh (.inr pc)
  unfold System.reserve
  dsimp only
  split
  · exact AllGood.set hg ⟨fun _ => hu, fun _ => by simp [Request.held, hu]⟩
  · exact AllGood.set hg (.of_pc ⟨nofun, nofun⟩ nofun)
  · exact AllGood.set hg (.of_pc ⟨nofun, nofun⟩ nofun)

theorem AllGood.finish (hg : AllGood s) (i : Nat) (r : Request) (keep : Bool) : AllGood (s.finish i r keep) := by
  unfold System.finish
  split
  next u hu =>
    split
    next hke =>
      refine hg.set ⟨nofun, fun hdo => ?_⟩
      cases hdo
      simp only [Bool.false_or] at hke
      simp [Request.held, hu, hke]
    next =>
      refine AllGood.set hg ⟨nofun, fun _ => ?_⟩
      simp [Request.held]
  next hu =>
    refine hg.set ⟨nofun, fun _ => ?_⟩
    simp [Request.held, hu]

theorem AllGood.step (hg : AllGood s) (eq : s.step action = some s') : AllGood s' := by
  cases action with
  | request source identity foundation now =>
    cases eq
    intro r mem
    rcases List.mem_append.mp mem with old | new
    · exact hg r old
    · rw [List.mem_singleton.mp new]
      exact ⟨fun _ => rfl, nofun⟩
  | lookup i =>
    obtain ⟨r, ht, eq⟩ := Option.bind_eq_some_iff.mp eq
    split at eq
    next pc =>
      cases eq
      exact hg.lookup ht pc
    next => cases eq
  | reserve i =>
    obtain ⟨r, ht, eq⟩ := Option.bind_eq_some_iff.mp eq
    split at eq
    next pc =>
      cases eq
      exact hg.reserve ht pc
    next => cases eq
  | store i result =>
    obtain ⟨r, ht, eq⟩ := Option.bind_eq_some_iff.mp eq
    repeat' split at eq
    all_goals cases eq
    all_goals exact hg.set (.of_pc ⟨nofun, nofun⟩ nofun)
  | commit i =>
    obtain ⟨r, ht, eq⟩ := Option.bind_eq_some_iff.mp eq
    split at eq
    · cases eq
      exact AllGood.set hg (.of_pc ⟨nofun, nofun⟩ nofun)
    · cases eq
  | finish i =>
    obtain ⟨r, ht, eq⟩ := Option.bind_eq_some_iff.mp eq
    split at eq
    · cases eq
      exact hg.finish i r _
    · cases eq
  | heartbeat id now =>
    cases eq
    exact hg
  | telemetry id now =>
    cases eq
    exact hg

/-! ### The table holds the units -/

structure Tracked (s : System) : Prop where
  rounded : ∀ u ∈ units s, u.stamp = unixMilli u.takenAt
  cutoffs : ∀ key c, s.cutoffs key = some c → ∃ t, s.clock = some t ∧ c ≤ NewRelayCap.cutoff t
  table : ∀ key, (s.cap.stamps key).Perm (liveStamps (units s) key (s.cutoffs key))

theorem stamps_put (c : NewRelayCap) (key key' : String) (stamps : List Int) :
    (c.put key stamps).stamps key' = if key' = key then stamps else c.stamps key' := by
  unfold NewRelayCap.put NewRelayCap.stamps
  rw [KeyedMap.lookup_insert_eq]
  split <;> rfl

theorem stamps_release (c : NewRelayCap) (key key' : String) (stamp : Int) :
    ((c.release key stamp).stamps key').Perm (if key' = key then (c.stamps key').erase stamp else c.stamps key') := by
  unfold NewRelayCap.release
  split
  next mem =>
    rw [stamps_put]
    split
    next hs =>
      subst hs
      exact (List.reverse_perm _).trans ((List.reverse_perm _).erase stamp)
    next => exact .refl _
  next ha =>
    split
    next hs =>
      subst hs
      rw [List.erase_of_not_mem ha]
    next => exact .refl _

theorem Tracked.kept (htr : Tracked s) (key : String) {now : Time} (hor : ∀ t, s.clock = some t → t ≤ now) :
    (s.cap.kept key now).Perm (liveStamps (units s) key (some (NewRelayCap.cutoff now))) := by
  refine ((htr.table key).filter _).trans (.of_eq (liveStamps_later (units s) key fun c cut => ?_))
  obtain ⟨t, hcl, le⟩ := htr.cutoffs key c cut
  exact le.trans (cutoff_mono (hor t hcl))

theorem Tracked.later (htr : Tracked s) (key : String) {now : Time} (hor : ∀ t, s.clock = some t → t ≤ now)
    {cutoffs : String → Option Int}
    (eq : cutoffs = Function.update s.cutoffs key (some (NewRelayCap.cutoff now)) ∨ cutoffs = s.cutoffs) :
    ∀ key' c, cutoffs key' = some c → ∃ t, some now = some t ∧ c ≤ NewRelayCap.cutoff t := by
  intro key' c cut
  have old : s.cutoffs key' = some c → c ≤ NewRelayCap.cutoff now := by
    intro cut
    obtain ⟨t, hcl, le⟩ := htr.cutoffs key' c cut
    exact le.trans (cutoff_mono (hor t hcl))
  refine ⟨now, rfl, ?_⟩
  rcases eq with rfl | rfl
  · by_cases hs : key' = key
    · subst hs
      rw [Function.update_self] at cut
      exact (Option.some.inj cut).ge
    · rw [Function.update_of_ne hs] at cut
      exact old cut
  · exact old cut

theorem Tracked.step (htr : Tracked s) (hst : CapStep s action s') : Tracked s' := by
  cases hst with
  | quiet cap hcl hc hp =>
    refine ⟨fun u mem => htr.rounded u (hp.mem_iff.mp mem), ?_, fun key => ?_⟩
    · rw [hc, hcl]
      exact htr.cutoffs
    · rw [cap, hc]
      exact (htr.table key).trans (liveStamps_perm hp.symm _ _)
  | free r mem cap hcl hc hp hor =>
    refine ⟨fun u mem => htr.rounded u (hp.mem_iff.mp mem), ?_, fun key => ?_⟩
    · rw [hcl]
      exact htr.later "" hor (.inr hc)
    · rw [cap, hc]
      exact (htr.table key).trans (liveStamps_perm hp.symm _ _)
  | refused r key mem hk hr hcl hc hp hor =>
    refine ⟨fun u mem => htr.rounded u (hp.mem_iff.mp mem), ?_, fun key' => ?_⟩
    · rw [hcl]
      exact htr.later key hor (.inl hc)
    · generalize s'.cap = cap at hr
      cases hr
      rw [stamps_put, hc]
      split
      next hs =>
        subst hs
        rw [Function.update_self]
        exact (htr.kept key' hor).trans (liveStamps_perm hp.symm _ _)
      next hot =>
        rw [Function.update_of_ne hot]
        exact (htr.table key').trans (liveStamps_perm hp.symm _ _)
  | taken i r key act ht hk hr hcl hc hp hor =>
    refine ⟨fun u mem => ?_, ?_, fun key' => ?_⟩
    · rcases List.mem_cons.mp (hp.mem_iff.mp mem) with rfl | mem
      · rfl
      · exact htr.rounded u mem
    · rw [hcl]
      exact htr.later key hor (.inl hc)
    · refine .trans ?_ (liveStamps_perm hp.symm _ _)
      generalize s'.cap = cap at hr
      cases hr
      rw [stamps_put, hc, liveStamps_cons]
      split
      next hs =>
        subst hs
        rw [Function.update_self, if_pos ⟨rfl, by simp [cutoff_lt_unixMilli]⟩]
        exact List.perm_append_singleton _ _ |>.trans ((htr.kept key' hor).cons _)
      next hot =>
        rw [Function.update_of_ne hot, if_neg fun hbo => hot hbo.1.symm]
        exact htr.table key'
  | given u cap hcl hc hp =>
    refine ⟨fun u' mem => htr.rounded u' (hp.mem_iff.mpr (List.mem_cons_of_mem _ mem)), ?_, fun key => ?_⟩
    · rw [hc, hcl]
      exact htr.cutoffs
    · rw [cap, hc]
      refine (stamps_release s.cap u.key key u.stamp).trans ?_
      have hb := (htr.table key).trans (liveStamps_perm hp key _)
      rw [liveStamps_cons] at hb
      split
      next hs =>
        subst hs
        by_cases hl : (s.cutoffs u.key).all (· < u.stamp) = true
        · rw [if_pos ⟨rfl, hl⟩] at hb
          have her := hb.erase u.stamp
          rwa [List.erase_cons_head] at her
        · -- a unit that aged out is no longer in the table, and no other unit has its stamp
          rw [if_neg fun hbo => hl hbo.2] at hb
          have ha : u.stamp ∉ s.cap.stamps u.key := by
            intro mem
            exact hl (List.mem_filter.mp (hb.mem_iff.mp mem)).2
          rwa [List.erase_of_not_mem ha]
      next hot =>
        rwa [if_neg fun hbo => hot hbo.1.symm] at hb

/-! ### Trailing windows -/

/-- No `reserve` falls into the last millisecond before a unit of its bucket ages out. -/
def Clear (s : System) : Action → Prop
  | .reserve i => ∀ r ∈ s.requests[i]?, ∀ key ∈ s.cap.key r.source, ∀ u ∈ units s, u.key = key →
    r.now - u.takenAt ≤ newRelayCapWindow - millisecond ∨ newRelayCapWindow ≤ r.now - u.takenAt
  | _ => True

instance (s : System) : DecidablePred (Clear s) := fun action => by
  cases action <;> unfold Clear <;> infer_instance

theorem inWindow_perm {us us' : List Reservation} (hp : us.Perm us') (key : String) (t : Time) :
    inWindow us key t = inWindow us' key t := hp.countP_eq _

theorem Tracked.inWindow_le (htr : Tracked s) (key : String) {now t : Time} (le : now ≤ t)
    (hor : ∀ t, s.clock = some t → t ≤ now)
    (hce : ∀ u ∈ units s, u.key = key →
      now - u.takenAt ≤ newRelayCapWindow - millisecond ∨ newRelayCapWindow ≤ now - u.takenAt) :
    inWindow (units s) key t ≤ (s.cap.kept key now).length := by
  rw [(htr.kept key hor).length_eq]
  unfold liveStamps inWindow
  rw [← List.countP_eq_length_filter, List.countP_map, List.countP_filter]
  refine List.countP_mono_left fun u mem hi => ?_
  simp only [decide_eq_true_eq] at hi
  obtain ⟨hs, haf, -⟩ := hi
  have hy : now - u.takenAt ≤ newRelayCapWindow - millisecond := by
    rcases hce u mem hs with hy | old
    · exact hy
    · lia
  have hl := unixMilli_lt_of_sub_le hy
  rw [← htr.rounded u mem] at hl
  simp [hs, hl]

def WithinLimit (s : System) : Prop := ∀ key t, (inWindow (units s) key t : Int) ≤ max s.cap.limit 0

theorem Reserved.limit {c c' : NewRelayCap} {key : String} {now : Time} {v : Verdict} (hr : Reserved c key now c' v) :
    c'.limit = c.limit := by cases hr <;> rfl

theorem limit_release (c : NewRelayCap) (key : String) (stamp : Int) : (c.release key stamp).limit = c.limit := by
  unfold NewRelayCap.release
  split <;> rfl

theorem WithinLimit.step (hw : WithinLimit s) (htr : Tracked s) (hst : CapStep s action s')
    (hce : Clear s action) : WithinLimit s' := by
  intro key t
  cases hst with
  | quiet cap hcl hc hp => exact inWindow_perm hp key t ▸ cap ▸ hw key t
  | free r mem cap hcl hc hp hor => exact inWindow_perm hp key t ▸ cap ▸ hw key t
  | refused r key' mem hk hr hcl hc hp hor =>
    rw [inWindow_perm hp, hr.limit]
    exact hw key t
  | given u cap hcl hc hp =>
    have hb := hw key t
    rw [inWindow_perm hp, inWindow, List.countP_cons] at hb
    rw [cap, limit_release]
    refine le_trans ?_ hb
    exact Int.ofNat_le.mpr (Nat.le_add_right _ _)
  | taken i r key' act ht hk hr hcl hc hp hor =>
    subst act
    rw [inWindow_perm hp, inWindow, List.countP_cons, hr.limit]
    split
    next hj =>
      -- the window contains the reservation, so every other unit in it is young
      simp only [decide_eq_true_eq] at hj
      obtain ⟨rfl, -, le⟩ := hj
      have hoh := htr.inWindow_le key' le hor (hce r ht key' hk)
      have hro : (s.cap.kept key' r.now).length < s.cap.limit := by
        generalize s'.cap = cap at hr
        cases hr with
        | unit hro => exact hro
      unfold inWindow at hoh
      push_cast
      omega
    next => exact hw key t

/-! ### One unit in a coverage period -/

namespace LedgerEvent

def id : LedgerEvent → String
  | .lookup id _ | .remember id _ _ => id

def now : LedgerEvent → Time
  | .lookup _ now | .remember _ now _ => now

def seenAt (id : String) : LedgerEvent → Option Time
  | .lookup _ _ => none
  | .remember id' now _ => if id' = id then some now else none

end LedgerEvent

def lastSeen (log : List LedgerEvent) (id : String) : Option Time := log.reverse.findSome? (·.seenAt id)

theorem lastSeen_concat (log : List LedgerEvent) (e : LedgerEvent) (id : String) :
    lastSeen (log ++ [e]) id = (e.seenAt id).or (lastSeen log id) := by
  rw [lastSeen, List.reverse_append, List.reverse_singleton, List.singleton_append, List.findSome?_cons]
  cases e.seenAt id <;> rfl

theorem lastSeen_of_mem {log : List LedgerEvent} {id : String} {now : Time} {kept : Bool}
    (mem : .remember id now kept ∈ log) : ∃ last, lastSeen log id = some last := by
  have some : (lastSeen log id).isSome = true := by
    rw [lastSeen, List.findSome?_isSome_iff]
    exact ⟨_, List.mem_reverse.mpr mem, by simp [LedgerEvent.seenAt]⟩
  exact Option.isSome_iff_exists.mp some

/-- The call finds that the coverage of its id has ended: the id was remembered longer ago than the ledger's TTL. -/
def Lapses (ttl : Duration) (log : List LedgerEvent) (e : LedgerEvent) : Prop :=
  ∃ last, lastSeen log e.id = some last ∧ ttl < e.now - last

inductive LedgerStep (s s' : System) : Prop
  | quiet (ledger : s'.ledger = s.ledger) (log : s'.log = s.log)
  | looked (id : String) (now : Time) (ledger : s'.ledger = (s.ledger.lookup id now).1)
    (log : s'.log = s.log ++ [.lookup id now])
  | remembered (id : String) (now : Time) (kept : Bool) (ledger : s'.ledger = (s.ledger.rememberIfNew id now).1)
    (log : s'.log = s.log ++ [.remember id now kept]) (new : kept = true → (s.ledger.rememberIfNew id now).2 = true)
    (room : id ∈ s.ledger.seen ∨ s.ledger.seen.entries.length < s.ledger.maxEntries)

theorem step_ledgerStep (ho : Orderly s action) (eq : s.step action = some s') :
    LedgerStep s s' := by
  cases action with
  | request source identity foundation now =>
    cases eq
    exact .quiet rfl rfl
  | lookup i =>
    obtain ⟨r, ht, eq⟩ := Option.bind_eq_some_iff.mp eq
    split at eq
    · cases eq
      unfold System.lookup
      split
      · exact .quiet rfl rfl
      · exact .looked _ _ rfl rfl
    · cases eq
  | reserve i =>
    obtain ⟨r, ht, eq⟩ := Option.bind_eq_some_iff.mp eq
    split at eq
    · cases eq
      unfold System.reserve
      dsimp only
      split
      · exact .quiet rfl rfl
      · exact .quiet rfl rfl
      · exact .quiet rfl rfl
    · cases eq
  | store i result =>
    obtain ⟨r, ht, eq⟩ := Option.bind_eq_some_iff.mp eq
    repeat' split at eq
    all_goals cases eq
    all_goals exact .quiet rfl rfl
  | commit i =>
    obtain ⟨r, ht, eq⟩ := Option.bind_eq_some_iff.mp eq
    split at eq
    next id pc =>
      cases eq
      refine .remembered id r.now _ rfl rfl (fun hke => ?_) (ho r ht id (by rw [pc]; rfl))
      exact (Bool.and_eq_true_iff.mp hke).1
    next => cases eq
  | finish i =>
    obtain ⟨r, ht, eq⟩ := Option.bind_eq_some_iff.mp eq
    split at eq
    · cases eq
      unfold System.finish
      repeat' split
      all_goals exact .quiet rfl rfl
    · cases eq
  | heartbeat id now =>
    cases eq
    exact .remembered id now false rfl rfl nofun ho
  | telemetry id now =>
    cases eq
    exact .looked id now rfl rfl

theorem rememberIfNew_eq {l : RelayIDLedger} {id : String} (now : Time) (hn : id ≠ "")
    (hro : id ∈ l.seen ∨ l.seen.entries.length < l.maxEntries) :
    l.rememberIfNew id now = ({ l with seen := l.seen.insert id now }, !l.covered id now) := by
  unfold RelayIDLedger.rememberIfNew
  rw [if_neg hn]
  dsimp only
  rw [if_neg]
  rintro ⟨ha, hf⟩
  rcases hro with ht | hls
  · exact ha ht
  · omega

theorem ttl_rememberIfNew {l : RelayIDLedger} {id : String} (now : Time)
    (hro : id ∈ l.seen ∨ l.seen.entries.length < l.maxEntries) : (l.rememberIfNew id now).1.ttl = l.ttl := by
  by_cases hn : id = ""
  · simp [RelayIDLedger.rememberIfNew, hn]
  · rw [rememberIfNew_eq now hn hro]

theorem lookup_cases (l : RelayIDLedger) (id : String) (now : Time) :
    ((l.lookup id now).1 = l) ∨ ∃ seenAt, l.seen.lookup id = some seenAt ∧ l.ttl < now - seenAt ∧
      (l.lookup id now).1 = { l with seen := l.seen.erase id } := by
  unfold RelayIDLedger.lookup
  split
  · exact .inl rfl
  next seenAt ht =>
    split
    next hla => exact .inr ⟨seenAt, ht, hla, rfl⟩
    next => exact .inl rfl

def Dropped (ttl : Duration) (log : List LedgerEvent) (id : String) : Prop :=
  ∃ before e after, log = before ++ e :: after ∧ e.id = id ∧ Lapses ttl before e ∧
    ∀ now kept, .remember id now kept ∉ e :: after

theorem Dropped.concat {ttl : Duration} {log : List LedgerEvent} {id : String} (hdr : Dropped ttl log id)
    {e : LedgerEvent} (hot : e.seenAt id = none) : Dropped ttl (log ++ [e]) id := by
  obtain ⟨before, e', after, rfl, hs, hlp, hnv⟩ := hdr
  refine ⟨before, e', after ++ [e], by simp, hs, hlp, fun now kept mem => ?_⟩
  rw [← List.cons_append, List.mem_append, List.mem_singleton] at mem
  rcases mem with mem | rfl
  · exact hnv now kept mem
  · simp [LedgerEvent.seenAt] at hot

/-- Two commits that keep a unit for one id have a lapse between them. -/
def OncePerPeriod (ttl : Duration) (log : List LedgerEvent) : Prop :=
  ∀ (before mid after : List LedgerEvent) id t t',
    log = before ++ .remember id t true :: (mid ++ .remember id t' true :: after) →
    ∃ mid₁ e mid₂, mid ++ [.remember id t' true] = mid₁ ++ e :: mid₂ ∧ e.id = id ∧
      Lapses ttl (before ++ .remember id t true :: mid₁) e

structure Covered (s : System) : Prop where
  seen : ∀ id seenAt, id ≠ "" → s.ledger.seen.lookup id = some seenAt → lastSeen s.log id = some seenAt
  dropped : ∀ id last, id ≠ "" → s.ledger.seen.lookup id = none → lastSeen s.log id = some last →
    Dropped s.ledger.ttl s.log id
  once : OncePerPeriod s.ledger.ttl s.log

theorem OncePerPeriod.concat {ttl : Duration} {log : List LedgerEvent} {e : LedgerEvent} (hon : OncePerPeriod ttl log)
    (now : ∀ (before mid : List LedgerEvent) id t t', e = .remember id t' true → log = before ++ .remember id t true :: mid →
      ∃ mid₁ e' mid₂, mid ++ [e] = mid₁ ++ e' :: mid₂ ∧ e'.id = id ∧
        Lapses ttl (before ++ .remember id t true :: mid₁) e') : OncePerPeriod ttl (log ++ [e]) := by
  intro before mid after id t t' eq
  rcases List.eq_nil_or_concat after with rfl | ⟨after, last, rfl⟩
  · have hsp : log ++ [e] = (before ++ .remember id t true :: mid) ++ [.remember id t' true] := by simpa using eq
    obtain ⟨rfl, hs⟩ := List.append_inj' hsp rfl
    obtain rfl := List.singleton_inj.mp hs
    exact now before mid id t t' rfl rfl
  · have hsp : log ++ [e] = (before ++ .remember id t true :: (mid ++ .remember id t' true :: after)) ++ [last] := by
      simpa using eq
    exact hon before mid after id t t' (List.append_inj' hsp rfl).1

theorem Covered.commit_lapses (covered : Covered s) {id : String} {now : Time}
    (new : (s.ledger.rememberIfNew id now).2 = true)
    (room : id ∈ s.ledger.seen ∨ s.ledger.seen.entries.length < s.ledger.maxEntries) (before mid : List LedgerEvent)
    (t : Time) (eq : s.log = before ++ .remember id t true :: mid) :
    ∃ mid₁ e mid₂, mid ++ [.remember id now true] = mid₁ ++ e :: mid₂ ∧ e.id = id ∧
      Lapses s.ledger.ttl (before ++ .remember id t true :: mid₁) e := by
  have named : id ≠ "" := by
    rintro rfl
    simp [RelayIDLedger.rememberIfNew] at new
  rw [rememberIfNew_eq now named room] at new
  have uncovered : s.ledger.covered id now = false := by simpa using new
  obtain ⟨last, remembered⟩ : ∃ last, lastSeen s.log id = some last :=
    lastSeen_of_mem (eq ▸ List.mem_append.mpr (.inr List.mem_cons_self))
  cases there : s.ledger.seen.lookup id with
  | some seenAt =>
    -- the commit itself finds the entry too old
    rw [RelayIDLedger.covered, there, Option.any_some, decide_eq_false_iff_not, not_le] at uncovered
    refine ⟨mid, .remember id now true, [], rfl, rfl, seenAt, ?_, uncovered⟩
    rw [← eq]
    exact covered.seen id seenAt named there
  | none =>
    obtain ⟨first, e, rest, split, same, lapses, never⟩ := covered.dropped id last named there remembered
    rw [eq] at split
    -- the lapse comes after the first commit, since no commit of the id comes after it
    rcases List.append_eq_append_iff.mp split with ⟨between, rfl, tail⟩ | ⟨between, -, tail⟩
    · cases between with
      | nil =>
        obtain ⟨rfl, -⟩ := List.cons.inj tail
        exact absurd List.mem_cons_self (never t true)
      | cons head between =>
        obtain ⟨rfl, rfl⟩ := List.cons.inj tail
        exact ⟨between, e, rest ++ [.remember id now true], by simp, same, lapses⟩
    · exact absurd (tail ▸ List.mem_append.mpr (.inr List.mem_cons_self)) (never t true)

theorem Covered.step (covered : Covered s) (step : LedgerStep s s') : Covered s' := by
  cases step with
  | quiet ledger log =>
    refine ⟨?_, ?_, ?_⟩
    · rw [ledger, log]
      exact covered.seen
    · rw [ledger, log]
      exact covered.dropped
    · rw [ledger, log]
      exact covered.once
  | looked id now ledger log =>
    have same : ∀ other, lastSeen s'.log other = lastSeen s.log other := by
      intro other
      rw [log, lastSeen_concat]
      rfl
    have ttl : s'.ledger.ttl = s.ledger.ttl := by
      rcases lookup_cases s.ledger id now with kept | ⟨_, _, _, erased⟩
      · rw [ledger, kept]
      · rw [ledger, erased]
    have once : OncePerPeriod s'.ledger.ttl s'.log := by
      rw [ttl, log]
      exact covered.once.concat fun _ _ _ _ _ eq => by cases eq
    rcases lookup_cases s.ledger id now with kept | ⟨seenAt, there, lapsed, erased⟩
    · rw [kept] at ledger
      refine ⟨fun other at_ named there => ?_, fun other last named absent remembered => ?_, once⟩
      · rw [same]
        exact covered.seen other at_ named (ledger ▸ there)
      · rw [ttl, log]
        exact (covered.dropped other last named (ledger ▸ absent) (same other ▸ remembered)).concat rfl
    · rw [erased] at ledger
      refine ⟨fun other at_ named there' => ?_, fun other last named absent remembered => ?_, once⟩
      · rw [same]
        rw [ledger] at there'
        by_cases eq : other = id
        · subst eq
          rw [AList.lookup_erase] at there'
          cases there'
        · rw [AList.lookup_erase_ne eq] at there'
          exact covered.seen other at_ named there'
      · rw [ttl, log]
        by_cases eq : other = id
        · subst eq
          exact ⟨s.log, .lookup other now, [], rfl, rfl, ⟨seenAt, covered.seen other seenAt named there, lapsed⟩, by simp⟩
        · rw [ledger, AList.lookup_erase_ne eq] at absent
          exact (covered.dropped other last named absent (same other ▸ remembered)).concat rfl
  | remembered id now kept ledger log new room =>
    have ttl : s'.ledger.ttl = s.ledger.ttl := ledger ▸ ttl_rememberIfNew now room
    have once : OncePerPeriod s'.ledger.ttl s'.log := by
      rw [ttl, log]
      refine covered.once.concat fun before mid id' t t' eq split => ?_
      cases eq
      exact covered.commit_lapses (new rfl) room before mid t split
    have last : ∀ other, lastSeen s'.log other = if id = other then some now else lastSeen s.log other := by
      intro other
      rw [log, lastSeen_concat, LedgerEvent.seenAt]
      split <;> rfl
    have lookup : ∀ other, other ≠ "" → s'.ledger.seen.lookup other =
        if id = other then some now else s.ledger.seen.lookup other := by
      intro other named
      by_cases empty : id = ""
      · have ne : id ≠ other := fun same => named (same.symm.trans empty)
        rw [if_neg ne, ledger]
        simp [RelayIDLedger.rememberIfNew, empty]
      · rw [ledger, rememberIfNew_eq now empty room, KeyedMap.lookup_insert_eq]
        simp [eq_comm]
    refine ⟨fun other at_ named there => ?_, fun other last' named absent remembered => ?_, once⟩
    · rw [lookup other named] at there
      rw [last]
      split at there
      next same => rw [if_pos same, there]
      next other' =>
        rw [if_neg other']
        exact covered.seen other at_ named there
    · rw [lookup other named] at absent
      rw [last] at remembered
      split at absent
      next => cases absent
      next other' =>
        rw [if_neg other'] at remembered
        rw [ttl, log]
        exact (covered.dropped other last' named absent remembered).concat (if_neg other')

/-! ### Runs -/

def start (limit : Int) (maxKeys : Nat) (key : String → Option String) (ttl : Duration) (maxEntries : Nat) : System :=
  { cap := newNewRelayCap limit maxKeys key, ledger := { ttl, maxEntries } }

def orderlyStep (s : System) (action : Action) : Option System := if Orderly s action then s.step action else none

def clearStep (s : System) (action : Action) : Option System := if Clear s action then orderlyStep s action else none

theorem orderlyStep_eq (eq : orderlyStep s action = some s') :
    Orderly s action ∧ s.step action = some s' := by
  unfold orderlyStep at eq
  split at eq
  next ho => exact ⟨ho, eq⟩
  next => cases eq

theorem clearStep_eq (eq : clearStep s action = some s') :
    Clear s action ∧ orderlyStep s action = some s' := by
  unfold clearStep at eq
  split at eq
  next hce => exact ⟨hce, eq⟩
  next => cases eq

structure Invariant (s : System) : Prop where
  good : AllGood s
  tracked : Tracked s
  covered : Covered s

theorem invariant_start (limit : Int) (maxKeys : Nat) (key : String → Option String) (ttl : Duration) (maxEntries : Nat) :
    Invariant (start limit maxKeys key ttl maxEntries) := by
  refine ⟨nofun, ⟨nofun, nofun, fun _ => .refl _⟩, ⟨nofun, nofun, fun before mid after id t t' eq => ?_⟩⟩
  simp [start] at eq

theorem Invariant.step (inv : Invariant s) (eq : orderlyStep s action = some s') : Invariant s' := by
  obtain ⟨ho, eq⟩ := orderlyStep_eq eq
  exact ⟨inv.good.step eq, inv.tracked.step (step_capStep inv.good ho eq), inv.covered.step (step_ledgerStep ho eq)⟩

structure GivesBack (s : System) : Prop where
  back : ∀ r ∈ s.requests, r.pc = .done false → r.held = none
  table : ∀ key, (s.cap.stamps key).Perm (liveStamps (units s) key (s.cutoffs key))

/-- Units are given back by those that held them, one coverage period keeps one unit of an identity, and, if no
    `reserve` falls into the last millisecond before a unit ages out, no trailing window has more units than the
    limit. -/
theorem new_identity_cap (limit : Int) (maxKeys : Nat) (key : String → Option String) (ttl : Duration) (maxEntries : Nat)
    (actions : List Action) (s : System) :
    (Trace (fun s action s' => orderlyStep s action = some s') (start limit maxKeys key ttl maxEntries) actions s →
      GivesBack s ∧ OncePerPeriod s.ledger.ttl s.log) ∧
    (Trace (fun s action s' => clearStep s action = some s') (start limit maxKeys key ttl maxEntries) actions s →
      WithinLimit s) := by
  refine ⟨fun hta => ?_, fun hta => ?_⟩
  · have inv : Invariant s := hta.invariant (fun _ _ _ inv eq => inv.step eq) (invariant_start ..)
    exact ⟨⟨fun r mem => (inv.good r mem).back, inv.tracked.table⟩, inv.covered.once⟩
  · have hbo : Invariant s ∧ WithinLimit s := by
      refine hta.invariant (P := fun s => Invariant s ∧ WithinLimit s) (fun a action b hbo eq => ?_)
        ⟨invariant_start .., fun key t => le_max_right _ _⟩
      obtain ⟨hce, eq⟩ := clearStep_eq eq
      obtain ⟨ho, hst⟩ := orderlyStep_eq eq
      exact ⟨hbo.1.step eq, hbo.2.step hbo.1.tracked (step_capStep hbo.1.good ho hst) hce⟩
    exact hbo.2

def registers (i : Nat) (source : String) (now : Time) (id : String) : List Action :=
  [.request source none false now, .lookup i, .reserve i, .store i (some id), .commit i, .finish i]

def registersTwice (first second : Time) : List Action := registers 0 "a" first "relay_a" ++ registers 1 "a" second "relay_b"

/-- With a limit of one, two registrations exactly a day apart both keep their units. -/
theorem new_identity_cap_dayApart :
    ∃ s, (registersTwice 0 newRelayCapWindow).foldlM clearStep (start 1 10 some hour 10) = some s ∧
      (units s).length = 2 ∧ WithinLimit s :=
  ⟨_, rfl, rfl, (new_identity_cap 1 10 some hour 10 (registersTwice 0 newRelayCapWindow) _).2 (Trace.of_foldlM rfl)⟩

/-- Two that are 0.8 ms less than a day apart do as well, and both units are within one trailing window. -/
theorem window_holds_two_units :
    ∃ s, (registersTwice 900000 (newRelayCapWindow + 100000)).foldlM orderlyStep (start 1 10 some hour 10) = some s ∧
      inWindow (units s) "a" (newRelayCapWindow + 100000) = 2 ∧ ¬WithinLimit s := by
  refine ⟨_, rfl, by decide, fun hw => ?_⟩
  have two := hw "a" (newRelayCapWindow + 100000)
  revert two
  decide

end OpenRung.Registration
