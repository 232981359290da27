import Mathlib.Algebra.Order.Ring.Int
import Mathlib.Data.List.Infix

/-! A file and the temporary file that replaces it, under a process that can be killed between any two system calls; a
    write goes byte by byte. What a kill can leave is what a part of a list of calls has done. -/

inductive Syscall (α : Type) where
  | append (x : α)
  | createTemp
  | writeTemp (x : α)
  | syncTemp
  | renameTemp

structure FilePair (α : Type) where
  file : List α
  temp : List α := []

namespace FilePair
variable {α : Type}

def run (f : FilePair α) : Syscall α → FilePair α
  | .append x => { f with file := f.file ++ [x] }
  | .createTemp => { f with temp := [] }
  | .writeTemp x => { f with temp := f.temp ++ [x] }
  | .syncTemp => f
  | .renameTemp => { file := f.temp }

def runAll (f : FilePair α) (calls : List (Syscall α)) : FilePair α := calls.foldl run f

end FilePair

namespace Syscall
variable {α : Type}

def appendAll (xs : List α) : List (Syscall α) := xs.map .append

def replace (xs : List α) : List (Syscall α) := .createTemp :: (xs.map .writeTemp ++ [.syncTemp, .renameTemp])

end Syscall

namespace FilePair
open Syscall
variable {α : Type}

theorem runAll_append (f : FilePair α) (a b : List (Syscall α)) : f.runAll (a ++ b) = (f.runAll a).runAll b :=
  List.foldl_append

theorem runAll_appendAll (f : FilePair α) (xs : List α) : f.runAll (appendAll xs) = { f with file := f.file ++ xs } := by
  induction xs generalizing f with
  | nil => simp [appendAll, runAll]
  | cons x xs ih =>
    have hr := ih (f.run (.append x))
    simpa [appendAll, runAll, run] using hr

theorem runAll_writeTemp (f : FilePair α) (xs : List α) : f.runAll (xs.map .writeTemp) = { f with temp := f.temp ++ xs } := by
  induction xs generalizing f with
  | nil => simp [runAll]
  | cons x xs ih =>
    have hr := ih (f.run (.writeTemp x))
    simpa [runAll, run] using hr

theorem runAll_replace (f : FilePair α) (xs : List α) : f.runAll (replace xs) = { file := xs } := by
  have hw := runAll_writeTemp (f.run .createTemp) xs
  have hs : f.runAll (replace xs) = (((f.run .createTemp).runAll (xs.map .writeTemp)).run .syncTemp).run .renameTemp := by
    simp [replace, runAll]
  rw [hs, hw]
  simp [run]

theorem killed_between {calls a b : List (Syscall α)} (hp : calls <+: a ++ b) :
    calls <+: a ∨ ∃ rest, rest <+: b ∧ calls = a ++ rest := by
  rcases List.prefix_or_prefix_of_prefix hp (List.prefix_append a b) with hi | ⟨rest, rfl⟩
  · exact .inl hi
  · exact .inr ⟨rest, (List.prefix_append_right_inj a).mp hp, rfl⟩

theorem killed_appendAll (f : FilePair α) {calls : List (Syscall α)} {xs : List α} (hp : calls <+: appendAll xs) :
    ∃ ys, ys <+: xs ∧ (f.runAll calls).file = f.file ++ ys := by
  obtain ⟨n, rfl⟩ : ∃ n, calls = appendAll (xs.take n) :=
    ⟨calls.length, by rw [appendAll, List.map_take]; exact List.prefix_iff_eq_take.mp hp⟩
  exact ⟨xs.take n, List.take_prefix n xs, by rw [runAll_appendAll]⟩

/-- A kill during a replacement leaves the old file or the new one. -/
theorem killed_replace (f : FilePair α) {calls : List (Syscall α)} {xs : List α} (hp : calls <+: replace xs) :
    (f.runAll calls).file = f.file ∨ (f.runAll calls).file = xs := by
  have hl : replace xs = (.createTemp :: (xs.map .writeTemp ++ [.syncTemp])) ++ [.renameTemp] := by simp [replace]
  rw [hl, List.prefix_concat_iff, ← hl] at hp
  rcases hp with rfl | he
  · exact .inr (by rw [runAll_replace])
  · -- before the rename no call touches the file
    have hq : ∀ c ∈ calls, ∀ g : FilePair α, (g.run c).file = g.file := by
      intro c mem g
      have : c ∈ Syscall.createTemp :: (xs.map .writeTemp ++ [.syncTemp]) := he.subset mem
      simp only [List.mem_cons, List.mem_append, List.mem_map, List.not_mem_nil, or_false] at this
      rcases this with rfl | ⟨x, -, rfl⟩ | rfl <;> rfl
    left
    clear he hl
    induction calls generalizing f with
    | nil => rfl
    | cons c calls ih =>
      have hr := ih (f.run c) fun c' mem => hq c' (List.mem_cons_of_mem c mem)
      exact hr.trans (hq c List.mem_cons_self f)

end FilePair
