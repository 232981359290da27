import OpenRung.Tunnel.Ports
import Mathlib.Data.Nat.ModEq

/-! The ports of the hub. From wherever its cursor stands, `Allocate` goes once around the range. A connection
    releases its port once, on whichever of its paths it ends, so that the ports in use are those of the connections
    that hold one, and no two hold the same. -/

namespace OpenRung.Tunnel
open PortAllocator

/-! ### Allocation -/

def turns (a : PortAllocator) (n : Nat) : List Nat :=
  (List.range n).map fun i => a.start + (a.next - a.start + i) % (a.stop - a.start + 1)

variable {a : PortAllocator} {bindable : Nat → Bool}

theorem turns_succ (a : PortAllocator) (n : Nat) : turns a (n + 1) = a.next :: turns a.advance n := by
  have hcursor := a.cursor
  have hrange := a.range
  rw [turns, List.range_succ_eq_map, List.map_cons, List.map_map, Nat.add_zero, Nat.mod_eq_of_lt (by omega)]
  refine congrArg₂ _ (by omega) (List.map_congr_left fun i _ => ?_)
  simp only [Function.comp_apply, advance]
  split
  · have hwrap : a.next - a.start + i.succ = (a.stop - a.start + 1) + i := by omega
    rw [hwrap, Nat.add_mod_left, Nat.sub_self, Nat.zero_add]
  · congr 2
    omega

theorem nodup_turns (a : PortAllocator) : (turns a (a.stop - a.start + 1)).Nodup := by
  refine List.Nodup.map_on ?_ List.nodup_range
  intro i hi j hj h
  rw [List.mem_range] at hi hj
  exact (Nat.ModEq.add_left_cancel' _ (Nat.add_left_cancel h)).eq_of_lt_of_lt hi hj

theorem mem_turns {p : Nat} : p ∈ turns a (a.stop - a.start + 1) ↔ a.start ≤ p ∧ p ≤ a.stop := by
  have hcursor := a.cursor
  have hrange := a.range
  rw [turns, List.mem_map]
  constructor
  · rintro ⟨i, -, rfl⟩
    have hlt : (a.next - a.start + i) % (a.stop - a.start + 1) < a.stop - a.start + 1 := Nat.mod_lt _ (Nat.succ_pos _)
    omega
  · rintro ⟨hlow, hhigh⟩
    refine ⟨(p - a.start + (a.stop - a.start + 1) - (a.next - a.start)) % (a.stop - a.start + 1), ?_, ?_⟩
    · exact List.mem_range.mpr (Nat.mod_lt _ (Nat.succ_pos _))
    · have hsum : a.next - a.start + (p - a.start + (a.stop - a.start + 1) - (a.next - a.start)) =
          p - a.start + (a.stop - a.start + 1) := by omega
      rw [Nat.add_mod_mod, hsum, Nat.add_mod_right, Nat.mod_eq_of_lt (by omega)]
      omega

def Free (a : PortAllocator) (bindable : Nat → Bool) (p : Nat) : Prop := p ∉ a.inUse ∧ bindable p = true

theorem allocateLoop_spec (bindable : Nat → Bool) (n : Nat) (a : PortAllocator) :
    let out := allocateLoop bindable n a
    out.2.2 <+: turns a n ∧
      ((∃ p ∈ turns a n, Free a bindable p ∧ out.1 = some p ∧ out.2.1.inUse = insert p a.inUse) ∨
        ((∀ p ∈ turns a n, ¬ Free a bindable p) ∧ out.1 = none ∧ out.2.1.inUse = a.inUse)) := by
  induction n generalizing a with
  | zero => exact ⟨List.prefix_rfl, .inr ⟨by simp [turns], rfl, rfl⟩⟩
  | succ n ih =>
    rw [turns_succ]
    unfold allocateLoop
    dsimp only
    split
    · rename_i htaken
      obtain ⟨hvisited, hfound⟩ := ih a.advance
      have hnext : ¬ Free a bindable a.next := by
        rintro ⟨hunused, hbindable⟩
        rcases htaken with h | h
        · exact hunused h
        · simp [hbindable] at h
      refine ⟨List.cons_prefix_cons.mpr ⟨rfl, hvisited⟩, ?_⟩
      rcases hfound with ⟨p, hp, hfree, hout⟩ | ⟨hnone, hout⟩
      · exact .inl ⟨p, List.mem_cons_of_mem _ hp, hfree, hout⟩
      · exact .inr ⟨List.forall_mem_cons.mpr ⟨hnext, hnone⟩, hout⟩
    · rename_i hfree
      rw [not_or] at hfree
      refine ⟨List.cons_prefix_cons.mpr ⟨rfl, List.nil_prefix⟩, .inl ⟨a.next, by simp, ⟨hfree.1, ?_⟩, rfl, rfl⟩⟩
      simpa using hfree.2

theorem allocate_spec (a : PortAllocator) (bindable : Nat → Bool) :
    let out := a.allocate bindable
    out.2.2.Nodup ∧
      ((∃ p, a.start ≤ p ∧ p ≤ a.stop ∧ Free a bindable p ∧ out.1 = some p ∧ out.2.1.inUse = insert p a.inUse) ∨
        ((∀ p, a.start ≤ p → p ≤ a.stop → ¬ Free a bindable p) ∧ out.1 = none ∧ out.2.1.inUse = a.inUse)) := by
  obtain ⟨hvisited, hout⟩ := allocateLoop_spec bindable (a.stop - a.start + 1) a
  refine ⟨(nodup_turns a).sublist hvisited.sublist, ?_⟩
  rcases hout with ⟨p, hp, hout⟩ | ⟨hnone, hout⟩
  · obtain ⟨hlow, hhigh⟩ := mem_turns.mp hp
    exact .inl ⟨p, hlow, hhigh, hout⟩
  · exact .inr ⟨fun p hlow hhigh => hnone p (mem_turns.mpr ⟨hlow, hhigh⟩), hout⟩

/-! ### Connections -/

def eventsOf (i : Nat) (log : List (Nat × PortEvent)) : List PortEvent := (log.filter (·.1 = i)).map Prod.snd

/-- What a connection has done to the ports, by where it is. -/
inductive History : HandlerPC → List PortEvent → Prop
  | hello : History .hello []
  | holding (stage : Stage) (port : Nat) : History (.holding stage port) [.allocated port]
  | refused : History .gone []
  | finished (port : Nat) : History .gone [.allocated port, .released port]

theorem History.of_hello {events : List PortEvent} (h : History .hello events) : events = [] := by
  cases h
  rfl

theorem History.of_holding {stage : Stage} {port : Nat} {events : List PortEvent}
    (h : History (.holding stage port) events) : events = [.allocated port] := by
  cases h
  rfl

def HandlerPC.port : HandlerPC → Option Nat
  | .holding _ port => some port
  | _ => none

/-- The ports in use are those that are held, each by one connection. -/
structure Holds (held : Nat → Option Nat) (inUse : Finset Nat) : Prop where
  mem : ∀ p, p ∈ inUse ↔ ∃ i, held i = some p
  distinct : ∀ i j p, held i = some p → held j = some p → i = j

namespace Holds
variable {held : Nat → Option Nat} {inUse : Finset Nat} {i p : Nat}

theorem take (hh : Holds held inUse) (hi : held i = none) (hp : p ∉ inUse) :
    Holds (Function.update held i (some p)) (insert p inUse) where
  mem q := by
    rw [Finset.mem_insert, hh.mem]
    constructor
    · rintro (rfl | ⟨j, hj⟩)
      · exact ⟨i, by simp⟩
      · have hne : j ≠ i := by
          rintro rfl
          simp [hi] at hj
        exact ⟨j, by simpa [hne] using hj⟩
    · rintro ⟨j, hj⟩
      by_cases hne : j = i
      · subst hne
        exact .inl (by simpa using hj.symm)
      · exact .inr ⟨j, by simpa [hne] using hj⟩
  distinct j k q hj hk := by
    have hother : ∀ l, held l ≠ some p := fun l hl => hp ((hh.mem p).mpr ⟨l, hl⟩)
    have := hh.distinct j k q
    by_cases hji : j = i <;> by_cases hki : k = i <;> simp_all

theorem give (hh : Holds held inUse) (hi : held i = some p) :
    Holds (Function.update held i none) (inUse.erase p) where
  mem q := by
    rw [Finset.mem_erase, hh.mem]
    constructor
    · rintro ⟨hne, j, hj⟩
      have hji : j ≠ i := by
        rintro rfl
        exact hne (Option.some.inj (hj.symm.trans hi))
      exact ⟨j, by simpa [hji] using hj⟩
    · rintro ⟨j, hj⟩
      have hji : j ≠ i := by
        rintro rfl
        simp at hj
      rw [Function.update_of_ne hji] at hj
      refine ⟨?_, j, hj⟩
      rintro rfl
      exact hji (hh.distinct j i q hj hi)
  distinct j k q hj hk := by
    have := hh.distinct j k q
    by_cases hji : j = i <;> by_cases hki : k = i <;> simp_all

end Holds

structure PortInv (h : PortHub) : Prop where
  holds : Holds (fun i => (h.handlers i).port) h.allocator.inUse
  history : ∀ i, History (h.handlers i) (eventsOf i h.log)

variable {h h' : PortHub} {label : Nat × PortLabel}

theorem eventsOf_snoc (i j : Nat) (log : List (Nat × PortEvent)) (event : PortEvent) :
    eventsOf i (log ++ [(j, event)]) = if j = i then eventsOf i log ++ [event] else eventsOf i log := by
  unfold eventsOf
  split <;> simp_all [List.filter_append]

theorem step_cases (hstep : h.Step label h') :
    (h.handlers label.1 = .hello ∧ h'.handlers = Function.update h.handlers label.1 .gone ∧
      h'.allocator.inUse = h.allocator.inUse ∧ h'.log = h.log) ∨
    (∃ p, h.handlers label.1 = .hello ∧ h'.handlers = Function.update h.handlers label.1 (.holding .listen p) ∧
      p ∉ h.allocator.inUse ∧ h'.allocator.inUse = insert p h.allocator.inUse ∧
      h'.log = h.log ++ [(label.1, .allocated p)]) ∨
    (∃ stage stage' p, h.handlers label.1 = .holding stage p ∧
      h'.handlers = Function.update h.handlers label.1 (.holding stage' p) ∧
      h'.allocator.inUse = h.allocator.inUse ∧ h'.log = h.log) ∨
    ∃ stage p, h.handlers label.1 = .holding stage p ∧ h' = h.drop label.1 p := by
  obtain ⟨i, kind⟩ := label
  unfold PortHub.Step PortHub.next at hstep
  dsimp only at hstep ⊢
  cases hpc : h.handlers i with
  | gone => cases kind <;> simp [hpc] at hstep
  | hello =>
    cases kind with
    | refuse =>
      simp only [hpc, Option.some.injEq] at hstep
      subst hstep
      exact .inl ⟨rfl, rfl, rfl, rfl⟩
    | allocate bindable =>
      simp only [hpc] at hstep
      obtain ⟨-, hout⟩ := allocate_spec h.allocator bindable
      split at hstep
      · rename_i heq
        cases hstep
        rcases hout with ⟨p, -, -, -, hsome, -⟩ | ⟨-, -, hinUse⟩
        · simp [heq] at hsome
        · exact .inl ⟨rfl, rfl, by simpa [heq] using hinUse, rfl⟩
      · rename_i port allocator visited heq
        cases hstep
        rcases hout with ⟨p, -, -, hfree, hsome, hinUse⟩ | ⟨-, hnone, -⟩
        · rw [heq] at hsome hinUse
          cases hsome
          exact .inr (.inl ⟨port, rfl, rfl, hfree.1, hinUse, rfl⟩)
        · simp [heq] at hnone
    | _ => simp [hpc] at hstep
  | holding stage port =>
    cases kind with
    | succeed =>
      simp only [hpc] at hstep
      obtain ⟨stage', -, rfl⟩ := Option.map_eq_some_iff.mp hstep
      exact .inr (.inr (.inl ⟨stage, stage', port, rfl, rfl, rfl, rfl⟩))
    | fail =>
      simp only [hpc] at hstep
      obtain ⟨-, ⟨⟩⟩ := Option.ite_none_left_eq_some.mp hstep
      exact .inr (.inr (.inr ⟨stage, port, rfl, rfl⟩))
    | teardown =>
      simp only [hpc] at hstep
      obtain ⟨-, ⟨⟩⟩ := Option.ite_none_right_eq_some.mp hstep
      exact .inr (.inr (.inr ⟨stage, port, rfl, rfl⟩))
    | _ => simp [hpc] at hstep

/-! ### Runs -/

theorem PortInv.initial {a : PortAllocator} (hunused : a.inUse = ∅) : PortInv { allocator := a } :=
  ⟨⟨by simp [hunused, HandlerPC.port], by simp [HandlerPC.port]⟩, fun _ => .hello⟩

theorem port_update (handlers : Nat → HandlerPC) (i : Nat) (pc : HandlerPC) :
    (fun j => (Function.update handlers i pc j).port) = Function.update (fun j => (handlers j).port) i pc.port :=
  Function.comp_update HandlerPC.port handlers i pc

theorem port_update_self {handlers : Nat → HandlerPC} {i : Nat} {pc : HandlerPC} (hsame : pc.port = (handlers i).port) :
    (fun j => (Function.update handlers i pc j).port) = fun j => (handlers j).port := by
  rw [port_update, hsame, Function.update_eq_self]

theorem history_update {handlers : Nat → HandlerPC} {log log' : List (Nat × PortEvent)} {i : Nat} {pc : HandlerPC}
    (hh : ∀ j, History (handlers j) (eventsOf j log)) (hown : History pc (eventsOf i log'))
    (hother : ∀ j, j ≠ i → eventsOf j log' = eventsOf j log) (j : Nat) :
    History (Function.update handlers i pc j) (eventsOf j log') := by
  by_cases hji : j = i
  · subst hji
    rwa [Function.update_self]
  · rw [Function.update_of_ne hji, hother j hji]
    exact hh j

theorem PortInv.step (inv : PortInv h) (hstep : h.Step label h') : PortInv h' := by
  have hown := inv.history label.1
  obtain ⟨hpc, hhandlers, hinUse, hlog⟩ | ⟨p, hpc, hhandlers, hnew, hinUse, hlog⟩ |
    ⟨stage, stage', p, hpc, hhandlers, hinUse, hlog⟩ | ⟨stage, p, hpc, rfl⟩ := step_cases hstep
  · -- it was refused, or no port was free
    rw [hpc] at hown
    refine ⟨?_, ?_⟩
    · rw [hhandlers, port_update_self (by rw [hpc]; rfl), hinUse]
      exact inv.holds
    · rw [hhandlers, hlog]
      exact history_update inv.history (hown.of_hello ▸ .refused) fun _ _ => rfl
  · rw [hpc] at hown
    refine ⟨?_, ?_⟩
    · rw [hhandlers, port_update, hinUse]
      exact inv.holds.take (by simp [hpc, HandlerPC.port]) hnew
    · rw [hhandlers, hlog]
      refine history_update inv.history ?_ fun j hj => by rw [eventsOf_snoc, if_neg hj.symm]
      rw [eventsOf_snoc, if_pos rfl, hown.of_hello]
      exact .holding .listen p
  · rw [hpc] at hown
    refine ⟨?_, ?_⟩
    · rw [hhandlers, port_update_self (by rw [hpc]; rfl), hinUse]
      exact inv.holds
    · rw [hhandlers, hlog]
      exact history_update inv.history (hown.of_holding ▸ .holding stage' p) fun _ _ => rfl
  · rw [hpc] at hown
    refine ⟨?_, ?_⟩
    · exact port_update h.handlers label.1 .gone ▸ inv.holds.give (by simp [hpc, HandlerPC.port])
    · refine history_update inv.history ?_ fun j hj => by rw [PortHub.drop, eventsOf_snoc, if_neg hj.symm]
      rw [PortHub.drop, eventsOf_snoc, if_pos rfl, hown.of_holding]
      exact .finished p

end OpenRung.Tunnel
