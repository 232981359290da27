import OpenRung.Lib.KeyedMap

/-! SQL statements on a table with a primary key: the table is a finite map whose rows are stored under their keys. A
    statement's `WHERE` is a test of a row, and no `UPDATE` here writes the key. -/

namespace Table
variable {κ α : Type}

def selectWhere (p : α → Bool) (t : KeyedMap κ α) : List α := t.values.filter p

def deleteWhere (p : α → Bool) (t : KeyedMap κ α) : KeyedMap κ α := t.filter fun _ row => !p row

def updateWhere (p : α → Bool) (set : α → α) (t : KeyedMap κ α) : KeyedMap κ α where
  entries := t.entries.map fun e => ⟨e.1, if p e.2 then set e.2 else e.2⟩
  nodupKeys := by
    have keys : (t.entries.map fun e => (⟨e.1, if p e.2 then set e.2 else e.2⟩ : Sigma fun _ : κ => α)).keys =
        t.entries.keys := by
      simp [List.keys]
    rw [List.NodupKeys, keys]
    exact t.nodupKeys

variable [DecidableEq κ]

def upsert (key : κ) (row : α) (set : α → α) (t : KeyedMap κ α) : KeyedMap κ α :=
  match t.lookup key with
  | none => t.insert key row
  | some old => t.insert key (set old)

variable {t t' : KeyedMap κ α} {p : α → Bool} {k : κ} {v : α}

theorem mem_selectWhere : v ∈ selectWhere p t ↔ (∃ k, t.lookup k = some v) ∧ p v = true := by
  rw [selectWhere, List.mem_filter, KeyedMap.mem_values_iff]

theorem lookup_deleteWhere (p : α → Bool) (t : KeyedMap κ α) (k : κ) :
    (deleteWhere p t).lookup k = (t.lookup k).filter fun row => !p row := KeyedMap.lookup_filter _ _ _

theorem lookup_updateWhere (p : α → Bool) (set : α → α) (t : KeyedMap κ α) (k : κ) :
    (updateWhere p set t).lookup k = (t.lookup k).map fun row => if p row then set row else row := by
  ext w
  rw [Option.map_eq_some_iff]
  simp only [KeyedMap.lookup_eq_some_iff, updateWhere, List.mem_map]
  constructor
  · rintro ⟨⟨k', old⟩, ht, eq⟩
    cases eq
    exact ⟨old, ht, rfl⟩
  · rintro ⟨old, ht, rfl⟩
    exact ⟨⟨k, old⟩, ht, rfl⟩

theorem lookup_upsert (key : κ) (row : α) (set : α → α) (t : KeyedMap κ α) (k : κ) :
    (upsert key row set t).lookup k = if k = key then some ((t.lookup key).elim row set) else t.lookup k := by
  unfold upsert
  cases hf : t.lookup key with
  | none => rw [KeyedMap.lookup_insert_eq]; rfl
  | some old => rw [KeyedMap.lookup_insert_eq]; rfl

end Table
