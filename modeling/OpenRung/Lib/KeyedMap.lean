import Mathlib.Algebra.Order.Ring.Int
import Mathlib.Data.List.AList
import Mathlib.Data.Finset.Card

/-! Finite maps with a computable list of entries, over Mathlib's `AList`. A map is filtered, and a list of records is
    written into it under the records' own keys (`putAll`). What a reader needs of a batch of writes is
    `lookup_putAll`. -/

abbrev KeyedMap (κ α : Type) := AList (fun _ : κ => α)

namespace KeyedMap
variable {κ α : Type}

def values (m : KeyedMap κ α) : List α := m.entries.map (·.2)

def filter (p : κ → α → Bool) (m : KeyedMap κ α) : KeyedMap κ α where
  entries := m.entries.filter fun e => p e.1 e.2
  nodupKeys := m.nodupKeys.sublist List.filter_sublist

variable [DecidableEq κ]

/-- Maps are compared by their lists of entries, so that the comparison computes. -/
instance [DecidableEq α] : DecidableEq (KeyedMap κ α) := fun m m' =>
  decidable_of_iff (m.entries = m'.entries) ⟨AList.ext, congrArg AList.entries⟩

def putAll (key : α → κ) (ws : List α) (m : KeyedMap κ α) : KeyedMap κ α :=
  ws.foldl (fun m w => m.insert (key w) w) m

/-- Each record is stored under its own key. -/
def Keyed (key : α → κ) (m : KeyedMap κ α) : Prop := ∀ k v, m.lookup k = some v → key v = k

variable {m : KeyedMap κ α}

theorem lookup_eq_some_iff {k : κ} {v : α} : m.lookup k = some v ↔ ⟨k, v⟩ ∈ m.entries := by
  rw [← Option.mem_def, AList.mem_lookup_iff]

theorem mem_values_iff {v : α} : v ∈ m.values ↔ ∃ k, m.lookup k = some v := by
  simp only [values, List.mem_map, lookup_eq_some_iff]
  constructor
  · rintro ⟨⟨k, w⟩, h, rfl⟩
    exact ⟨k, h⟩
  · rintro ⟨k, h⟩
    exact ⟨⟨k, v⟩, h, rfl⟩

theorem lookup_filter (p : κ → α → Bool) (m : KeyedMap κ α) (k : κ) :
    (m.filter p).lookup k = (m.lookup k).filter (p k) := by
  ext v
  constructor
  · intro h
    have h' : (⟨k, v⟩ : Sigma fun _ : κ => α) ∈ m.entries.filter fun e => p e.1 e.2 := lookup_eq_some_iff.mp h
    rw [List.mem_filter] at h'
    simp [lookup_eq_some_iff.mpr h'.1, Option.filter, h'.2]
  · intro h
    obtain ⟨hv, hp⟩ := Option.filter_eq_some_iff.mp h
    exact lookup_eq_some_iff.mpr (List.mem_filter.mpr ⟨lookup_eq_some_iff.mp hv, hp⟩)

theorem lookup_filter_eq_some {p : κ → α → Bool} {k : κ} {v : α} :
    (m.filter p).lookup k = some v ↔ m.lookup k = some v ∧ p k v = true := by
  rw [lookup_filter, Option.filter_eq_some_iff]

theorem lookup_insert_eq (m : KeyedMap κ α) (k k' : κ) (v : α) :
    AList.lookup k (m.insert k' v) = if k = k' then some v else m.lookup k := by
  by_cases h : k = k'
  · subst h
    rw [if_pos rfl]
    exact AList.lookup_insert m
  · rw [if_neg h]
    exact AList.lookup_insert_ne h

/-! ### Batches of writes -/

theorem length_entries_insert_of_none {k : κ} (ha : m.lookup k = none) (v : α) :
    (m.insert k v).entries.length = m.entries.length + 1 := by
  rw [AList.entries_insert_of_notMem (AList.lookup_eq_none.mp ha), List.length_cons]

theorem length_entries_insert_of_some {k : κ} {old : α} (hf : m.lookup k = some old) (v : α) :
    (m.insert k v).entries.length = m.entries.length := by
  have mem := lookup_eq_some_iff.mp hf
  rw [AList.entries_insert, List.length_cons, List.kerase, List.length_eraseP_of_mem mem (by simp)]
  exact Nat.succ_pred_eq_of_pos (List.length_pos_of_mem mem)

theorem length_filter_values_eq {β : Type} {n : KeyedMap κ β} {p : α → Bool} {q : β → Bool}
    (h : ∀ k, (m.lookup k).any p = (n.lookup k).any q) : (m.values.filter p).length = (n.values.filter q).length := by
  have hlength {γ : Type} (m : KeyedMap κ γ) (p : γ → Bool) :
      (m.values.filter p).length = (m.filter fun _ v => p v).keys.length := by
    rw [values, List.filter_map, List.length_map, AList.keys, List.keys, List.length_map]
    rfl
  have hmem {γ : Type} (m : KeyedMap κ γ) (p : γ → Bool) (k : κ) :
      k ∈ (m.filter fun _ v => p v).keys ↔ (m.lookup k).any p = true := by
    rw [← AList.mem_keys, ← AList.lookup_isSome, lookup_filter]
    cases m.lookup k with
    | none => simp
    | some v => by_cases hp : p v = true <;> simp [Option.filter, hp]
  rw [hlength, hlength]
  refine ((List.perm_ext_iff_of_nodup (AList.keys_nodup _) (AList.keys_nodup _)).mpr fun k => ?_).length_eq
  rw [hmem, hmem, h]

theorem putAll_append (key : α → κ) (xs ys : List α) (m : KeyedMap κ α) :
    putAll key (xs ++ ys) m = putAll key ys (putAll key xs m) := List.foldl_append

variable {key : α → κ}

theorem lookup_putAll_of_not_mem {ws : List α} {k : κ} (h : ∀ w ∈ ws, key w ≠ k)
    (m : KeyedMap κ α) : AList.lookup k (putAll key ws m) = m.lookup k := by
  induction ws generalizing m with
  | nil => rfl
  | cons w ws ih =>
    show AList.lookup k (putAll key ws (m.insert (key w) w)) = _
    rw [ih fun x hx => h x (List.mem_cons_of_mem _ hx), lookup_insert_eq,
      if_neg fun e => h w List.mem_cons_self e.symm]

/-- Of several writes under one key the last one is read back. -/
theorem lookup_putAll_eq_find (key : α → κ) (ws : List α) (m : KeyedMap κ α) (k : κ) :
    AList.lookup k (putAll key ws m) = (ws.reverse.find? fun w => decide (key w = k)).or (m.lookup k) := by
  induction ws generalizing m with
  | nil => rfl
  | cons w ws ih =>
    show AList.lookup k (putAll key ws (m.insert (key w) w)) = _
    rw [ih, lookup_insert_eq, List.reverse_cons, List.find?_append]
    by_cases h : key w = k
    · simp [h]
    · simp [h, Ne.symm h]

theorem lookup_putAll_of_mem {ws : List α} (hn : (ws.map key).Nodup) {w : α} (hw : w ∈ ws)
    (m : KeyedMap κ α) : AList.lookup (key w) (putAll key ws m) = some w := by
  induction ws generalizing m with
  | nil => cases hw
  | cons x xs ih =>
    rw [List.map_cons, List.nodup_cons] at hn
    show AList.lookup (key w) (putAll key xs (m.insert (key x) x)) = _
    rcases List.mem_cons.mp hw with rfl | hw
    · rw [lookup_putAll_of_not_mem fun y hy e => hn.1 (List.mem_map.mpr ⟨y, hy, e⟩), lookup_insert_eq, if_pos rfl]
    · exact ih hn.2 hw _

/-- What a map holds after writes under distinct keys: a written record, or what it held under a key that no
    write uses. -/
theorem lookup_putAll {ws : List α} (hn : (ws.map key).Nodup) (m : KeyedMap κ α) {k : κ} {v : α} :
    AList.lookup k (putAll key ws m) = some v ↔
      (v ∈ ws ∧ key v = k) ∨ (m.lookup k = some v ∧ ∀ w ∈ ws, key w ≠ k) := by
  by_cases h : ∃ w ∈ ws, key w = k
  · obtain ⟨w, hw, rfl⟩ := h
    rw [lookup_putAll_of_mem hn hw, Option.some.injEq]
    constructor
    · rintro rfl
      exact Or.inl ⟨hw, rfl⟩
    · rintro (⟨hv, he⟩ | ⟨-, hne⟩)
      · exact List.inj_on_of_nodup_map hn hw hv he.symm
      · exact absurd rfl (hne w hw)
  · have hne : ∀ w ∈ ws, key w ≠ k := fun w hw he => h ⟨w, hw, he⟩
    rw [lookup_putAll_of_not_mem hne]
    constructor
    · exact fun hv => Or.inr ⟨hv, hne⟩
    · rintro (⟨hv, he⟩ | ⟨hv, -⟩)
      · exact absurd he (hne v hv)
      · exact hv

/-! ### Counting values -/

theorem Keyed.nodup_map (h : m.Keyed key) : (m.values.map key).Nodup := by
  have hhk : m.values.map key = m.keys := by
    simp only [values, AList.keys, List.keys, List.map_map]
    apply List.map_congr_left
    rintro ⟨k, v⟩ he
    exact h k v (lookup_eq_some_iff.mpr he)
  rw [hhk]
  exact m.keys_nodup

theorem Keyed.mem_values (h : m.Keyed key) {v : α} :
    v ∈ m.values ↔ m.lookup (key v) = some v := by
  rw [mem_values_iff]
  constructor
  · rintro ⟨k, hk⟩
    rw [h k v hk]
    exact hk
  · exact fun hv => ⟨key v, hv⟩

theorem Keyed.find?_values (h : m.Keyed key) (k : κ) :
    m.values.find? (fun v => decide (key v = k)) = m.lookup k := by
  cases hf : m.values.find? fun v => decide (key v = k) with
  | none =>
    rw [List.find?_eq_none] at hf
    refine (Option.eq_none_iff_forall_ne_some.mpr fun v ht => ?_).symm
    exact hf v (mem_values_iff.mpr ⟨k, ht⟩) (decide_eq_true (h k v ht))
  | some v =>
    have hs : key v = k := by simpa using List.find?_some hf
    exact (hs ▸ h.mem_values.mp (List.mem_of_find?_eq_some hf)).symm

theorem Keyed.putAll {ws : List α} (h : m.Keyed key) :
    (putAll key ws m).Keyed key := by
  induction ws generalizing m with
  | nil => exact h
  | cons w ws ih =>
    refine ih (m := m.insert (key w) w) fun k v hv => ?_
    rw [lookup_insert_eq] at hv
    split at hv
    · next he => rw [← Option.some.inj hv, he]
    · exact h k v hv

theorem Keyed.filter (h : m.Keyed key) (p : κ → α → Bool) :
    (m.filter p).Keyed key := fun k v hv => h k v (lookup_filter_eq_some.mp hv).1

end KeyedMap
