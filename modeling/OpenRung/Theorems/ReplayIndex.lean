import OpenRung.Theorems.Journal

/-! The index of the replay store over any sequence of calls. The heap keeps an expiration for every insert; an entry
    is in the heap with its own expiration, so a replaced one removes nothing and the current one is never missed. -/

namespace OpenRung
open Wss

/-! ### Calls -/

inductive IndexCall where
  | insert (key : ReplayKey) (expiresAt : Int)
  | prune (now : Int)

def IndexCall.apply (i : ReplayIndex) : IndexCall → ReplayIndex
  | .insert key expiresAt => i.insert key expiresAt
  | .prune now => i.prune now

def indexAfter (calls : List IndexCall) : ReplayIndex := calls.foldl IndexCall.apply {}

def LatestInserted (calls : List IndexCall) (key : ReplayKey) (e : Int) : Prop :=
  ∃ before after, calls = before ++ .insert key e :: after ∧ ∀ e', .insert key e' ∉ after

/-- The last insert of the key has the expiration `e`, which no prune since then has reached. -/
def Remains (calls : List IndexCall) (key : ReplayKey) (e : Int) : Prop :=
  ∃ before after, calls = before ++ .insert key e :: after ∧ (∀ e', .insert key e' ∉ after) ∧
    ∀ t, .prune t ∈ after → t < e

section
variable {calls : List IndexCall} {key k : ReplayKey} {e d now : Int}

theorem snoc_eq_append_cons {α : Type} {xs before after : List α} {x y : α} (h : xs ++ [x] = before ++ y :: after) :
    x = y ∨ ∃ rest, after = rest ++ [x] ∧ xs = before ++ y :: rest := by
  rcases List.eq_nil_or_concat after with rfl | ⟨rest, z, rfl⟩
  · obtain ⟨-, h⟩ := List.append_inj' h rfl
    exact .inl (List.singleton_inj.mp h)
  · rw [← List.concat_cons, List.concat_eq_append, ← List.append_assoc] at h
    obtain ⟨rfl, hx⟩ := List.append_inj' h rfl
    exact .inr ⟨rest, by rw [List.concat_eq_append, hx], rfl⟩

theorem Remains.insert : Remains (calls ++ [.insert k d]) key e ↔ if key = k then e = d else Remains calls key e := by
  constructor
  · rintro ⟨before, after, h, hlast, hlate⟩
    rcases snoc_eq_append_cons h with h | ⟨rest, rfl, rfl⟩
    · cases h
      simp
    · have hne : key ≠ k := fun h => hlast d (by simp [h])
      rw [if_neg hne]
      exact ⟨before, rest, rfl, fun e' h => hlast e' (by simp [h]), fun t h => hlate t (by simp [h])⟩
  · split
    · rintro rfl
      rename_i hk
      subst hk
      exact ⟨calls, [], rfl, by simp, by simp⟩
    · rename_i hne
      rintro ⟨before, after, rfl, hlast, hlate⟩
      refine ⟨before, after ++ [.insert k d], by simp, fun e' => ?_, fun t => ?_⟩
      · simp [hlast e', hne]
      · simpa using hlate t

theorem Remains.prune : Remains (calls ++ [.prune now]) key e ↔ Remains calls key e ∧ now < e := by
  constructor
  · rintro ⟨before, after, h, hlast, hlate⟩
    rcases snoc_eq_append_cons h with h | ⟨rest, rfl, rfl⟩
    · cases h
    · refine ⟨⟨before, rest, rfl, fun e' h => hlast e' (by simp [h]), fun t h => hlate t (by simp [h])⟩, ?_⟩
      exact hlate now (by simp)
  · rintro ⟨⟨before, after, rfl, hlast, hlate⟩, hnow⟩
    refine ⟨before, after ++ [.prune now], by simp, fun e' => by simp [hlast e'], fun t h => ?_⟩
    rcases List.mem_append.mp h with h | h
    · exact hlate t h
    · cases List.mem_singleton.mp h
      exact hnow

theorem Remains.latest : Remains calls key e → LatestInserted calls key e := by
  rintro ⟨before, after, h, hlast, -⟩
  exact ⟨before, after, h, hlast⟩

end

/-! ### The heap -/

theorem Heaped.length_le {i : ReplayIndex} (h : Heaped i) : i.entries.entries.length ≤ i.expiry.length := by
  have hinj : Function.Injective fun p : (_ : ReplayKey) × Int => (⟨p.1, p.2⟩ : ReplayExpiry) := by
    rintro ⟨k, e⟩ ⟨k', e'⟩ hp
    cases hp
    rfl
  rw [← List.length_map fun p : (_ : ReplayKey) × Int => (⟨p.1, p.2⟩ : ReplayExpiry)]
  refine ((i.entries.nodupKeys.nodup.map hinj).subperm ?_).length_le
  rintro x hx
  obtain ⟨⟨k, e⟩, hmem, rfl⟩ := List.mem_map.mp hx
  exact h.heap k e (KeyedMap.lookup_eq_some_iff.mpr hmem)

theorem length_entries_erase {m : KeyedMap ReplayKey Int} {key : ReplayKey} {e : Int} (h : m.lookup key = some e) :
    (m.erase key).entries.length + 1 = m.entries.length := by
  have hmem := KeyedMap.lookup_eq_some_iff.mp h
  have herase : (m.erase key).entries.length = m.entries.length - 1 := List.length_eraseP_of_mem hmem (by simp)
  have := List.length_pos_of_mem hmem
  omega

theorem length_pruneLoop (now : Int) (queue : List ReplayExpiry) (entries : KeyedMap ReplayKey Int) :
    (ReplayIndex.pruneLoop now queue entries).entries.entries.length + ReplayIndex.removedLoop now queue entries =
      entries.entries.length := by
  induction queue generalizing entries with
  | nil => rfl
  | cons candidate rest ih =>
    unfold ReplayIndex.pruneLoop ReplayIndex.removedLoop
    split
    · split
      · rename_i hcur
        rw [← Nat.add_assoc, ih, length_entries_erase hcur]
      · exact ih entries
    · rfl

/-! ### Runs -/

theorem indexAfter_spec (calls : List IndexCall) :
    Heaped (indexAfter calls) ∧ ∀ key e, (indexAfter calls).entries.lookup key = some e ↔ Remains calls key e := by
  induction calls using List.reverseRecOn with
  | nil =>
    refine ⟨⟨by simp [indexAfter], .nil⟩, fun key e => ⟨by simp [indexAfter], ?_⟩⟩
    rintro ⟨before, after, h, -⟩
    simp at h
  | append_singleton calls call ih =>
    obtain ⟨hh, hspec⟩ := ih
    rw [indexAfter, List.foldl_append, List.foldl_cons, List.foldl_nil, ← indexAfter]
    cases call with
    | insert k d =>
      refine ⟨hh.insert k d, fun key e => ?_⟩
      rw [IndexCall.apply, ReplayIndex.insert, KeyedMap.lookup_insert_eq, Remains.insert]
      split
      · simp [eq_comm]
      · exact hspec key e
    | prune now =>
      refine ⟨hh.prune now, fun key e => ?_⟩
      rw [Remains.prune, ← hspec]
      exact (pruneLoop_spec now _ _ hh.heap hh.sorted).1 key e

/-- After a prune the entries are the keys whose latest expiration is later than its time and than that of every prune
    since the insert. -/
theorem prune_removes_expired (calls : List IndexCall) (now : Int) :
    let i := indexAfter calls
    (∀ key e, (i.prune now).entries.lookup key = some e ↔ Remains calls key e ∧ now < e) ∧
      ((∀ t, .prune t ∈ calls → t ≤ now) →
        ∀ key e, (i.prune now).entries.lookup key = some e ↔ LatestInserted calls key e ∧ now < e) ∧
      (i.prune now).size + i.removed now = i.size ∧
      i.size ≤ i.expiry.length ∧ (i.prune now).size ≤ (i.prune now).expiry.length := by
  obtain ⟨hh, hspec⟩ := indexAfter_spec calls
  have hkept : ∀ key e, ((indexAfter calls).prune now).entries.lookup key = some e ↔ Remains calls key e ∧ now < e := by
    intro key e
    rw [← hspec]
    exact (pruneLoop_spec now _ _ hh.heap hh.sorted).1 key e
  refine ⟨hkept, fun hlast key e => (hkept key e).trans (and_congr_left fun hnow => ⟨Remains.latest, ?_⟩), ?_, ?_, ?_⟩
  · rintro ⟨before, after, rfl, hlatest⟩
    exact ⟨before, after, rfl, hlatest, fun t ht => lt_of_le_of_lt (hlast t (by simp [ht])) hnow⟩
  · exact congrArg Nat.cast (length_pruneLoop now _ _)
  · exact Int.ofNat_le.mpr hh.length_le
  · exact Int.ofNat_le.mpr (hh.prune now).length_le

def someReplayKey : ReplayKey := ⟨List.replicate 32 0, by simp⟩

/-- A prune at a time after the expiration removes the key, and an earlier time then does not bring it back. -/
theorem prune_removed_before :
    let calls := [.insert someReplayKey 50, .prune 100]
    LatestInserted calls someReplayKey 50 ∧ (10 : Int) < 50 ∧
      ((indexAfter calls).prune 10).entries.lookup someReplayKey = none :=
  ⟨⟨[], [.prune 100], rfl, by simp⟩, by decide, by decide⟩

end OpenRung
