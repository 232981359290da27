import Mathlib.Algebra.Order.Ring.Int
import Mathlib.Data.List.Infix

/-! A file under one name, with what a crash of the machine can leave of it. An append is durable after a sync; until
    then a crash leaves some part of it. A rename puts another file under the name at once; until a sync a crash may
    bring an earlier file back. For a `P` that appending keeps (`Grows`) each operation has one rule. -/

structure DurableFile (α : Type) where
  content : List α
  synced : List α
  durable : synced <+: content

namespace DurableFile
variable {α : Type}

def of (content : List α) : DurableFile α := ⟨content, content, List.prefix_refl _⟩

def append (f : DurableFile α) (xs : List α) : DurableFile α :=
  ⟨f.content ++ xs, f.synced, f.durable.trans (List.prefix_append _ _)⟩

/-- What a crash can leave of a file: its durable part, and some of what was appended since. -/
def Image (f : DurableFile α) (content : List α) : Prop := f.synced <+: content ∧ content <+: f.content

end DurableFile

/-- The file under a name, and the earlier files that a crash may bring back. -/
structure Disk (α : Type) where
  file : DurableFile α
  undone : List (DurableFile α) := []

namespace Disk
variable {α : Type}

def content (d : Disk α) : List α := d.file.content

def append (d : Disk α) (xs : List α) : Disk α := { d with file := d.file.append xs }

def sync (d : Disk α) : Disk α := { file := .of d.content }

def rename (d : Disk α) (content : List α) : Disk α := { file := .of content, undone := d.file :: d.undone }

def syncDirectory (d : Disk α) : Disk α := { d with undone := [] }

def Image (d : Disk α) (content : List α) : Prop := ∃ f ∈ d.file :: d.undone, f.Image content

def recover (content : List α) : Disk α := { file := .of content }

/-- Every content that a crash can leave satisfies `P`. -/
def Survives (P : List α → Prop) (d : Disk α) : Prop := ∀ content, d.Image content → P content

def Grows (P : List α → Prop) : Prop := ∀ xs ys, P xs → P (xs ++ ys)

@[simp] theorem content_append (d : Disk α) (xs : List α) : (d.append xs).content = d.content ++ xs := rfl
@[simp] theorem content_sync (d : Disk α) : d.sync.content = d.content := rfl
@[simp] theorem content_rename (d : Disk α) (xs : List α) : (d.rename xs).content = xs := rfl
@[simp] theorem content_syncDirectory (d : Disk α) : d.syncDirectory.content = d.content := rfl
@[simp] theorem content_recover (xs : List α) : (recover xs).content = xs := rfl

variable {P : List α → Prop} {d : Disk α}

theorem image_content (d : Disk α) : d.Image d.content := ⟨d.file, by simp, d.file.durable, List.prefix_refl _⟩

theorem Survives.content (hs : d.Survives P) : P d.content := hs _ d.image_content

theorem Image.of_iff {xs content : List α} : (DurableFile.of xs).Image content ↔ content = xs := by
  constructor
  · rintro ⟨low, hhi⟩
    exact hhi.eq_of_length_le low.length_le
  · rintro rfl
    exact ⟨List.prefix_refl _, List.prefix_refl _⟩

/-- A crash leaves what one of the files made durable, and perhaps more. -/
theorem Survives.append (hg : Grows P) (hs : d.Survives P) (xs : List α) : (d.append xs).Survives P := by
  rintro content ⟨f, mem, low, hhi⟩
  rcases List.mem_cons.mp mem with rfl | mem
  · have hk : P d.file.synced := hs _ ⟨d.file, by simp, List.prefix_refl _, d.file.durable⟩
    obtain ⟨ys, rfl⟩ := low
    exact hg _ ys hk
  · exact hs content ⟨f, List.mem_cons_of_mem _ mem, low, hhi⟩

theorem survives_recover {xs : List α} (hh : P xs) : (recover xs).Survives P := by
  rintro content ⟨f, mem, hi⟩
  rw [List.mem_singleton.mp mem] at hi
  exact Image.of_iff.mp hi ▸ hh

theorem survives_sync (hh : P d.content) : d.sync.Survives P := survives_recover hh

theorem Survives.rename (hs : d.Survives P) {xs : List α} (hh : P xs) : (d.rename xs).Survives P := by
  rintro content ⟨f, mem, hi⟩
  rcases List.mem_cons.mp mem with rfl | mem
  · exact Image.of_iff.mp hi ▸ hh
  · exact hs content ⟨f, mem, hi⟩

theorem Survives.syncDirectory (hs : d.Survives P) : d.syncDirectory.Survives P := by
  rintro content ⟨f, mem, hi⟩
  exact hs content ⟨f, List.mem_cons.mpr (Or.inl (List.mem_singleton.mp mem)), hi⟩

theorem Survives.recover (survives : d.Survives P) {xs : List α} (image : d.Image xs) : (recover xs).Survives P :=
  survives_recover (survives xs image)

end Disk
