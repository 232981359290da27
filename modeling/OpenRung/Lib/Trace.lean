import Mathlib.Algebra.Order.Ring.Int
import Mathlib.Data.List.Induction

/-! Runs of a labelled transition relation, the invariants of a run, and forward simulation. -/

/-- `Trace step a labels b`: steps with these labels, in this order, lead from `a` to `b`. -/
inductive Trace {σ ℓ : Type} (step : σ → ℓ → σ → Prop) (a : σ) : List ℓ → σ → Prop
  | refl : Trace step a [] a
  | snoc {labels : List ℓ} {b c : σ} {label : ℓ} : Trace step a labels b → step b label c →
    Trace step a (labels ++ [label]) c

namespace Trace
variable {σ τ ℓ : Type} {step : σ → ℓ → σ → Prop} {a b : σ} {labels : List ℓ}

theorem single {label : ℓ} (ho : step a label b) : Trace step a [label] b := snoc refl ho

theorem split_snoc {last : ℓ} (ht : Trace step a (labels ++ [last]) b) :
    ∃ middle, Trace step a labels middle ∧ step middle last b := by
  generalize eq : labels ++ [last] = all at ht
  cases ht with
  | refl => simp at eq
  | snoc hb ho =>
    obtain ⟨rfl, hsa⟩ := List.append_inj' eq rfl
    obtain rfl := List.singleton_inj.mp hsa
    exact ⟨_, hb, ho⟩

/-- A run of some labels and then others passes through a state between them. -/
theorem split {earlier later : List ℓ} (ht : Trace step a (earlier ++ later) b) :
    ∃ middle, Trace step a earlier middle ∧ Trace step middle later b := by
  induction later using List.reverseRecOn generalizing b with
  | nil =>
    rw [List.append_nil] at ht
    exact ⟨b, ht, refl⟩
  | append_singleton later last ih =>
    rw [← List.append_assoc] at ht
    obtain ⟨before, ht, ho⟩ := ht.split_snoc
    obtain ⟨middle, hf, hre⟩ := ih ht
    exact ⟨middle, hf, hre.snoc ho⟩

theorem split_cons {first : ℓ} (ht : Trace step a (first :: labels) b) :
    ∃ middle, step a first middle ∧ Trace step middle labels b := by
  obtain ⟨middle, ho, hre⟩ := (show Trace step a ([first] ++ labels) b from ht).split
  obtain ⟨_, hs, ho⟩ := (show Trace step a ([] ++ [first]) middle from ho).split_snoc
  generalize eq : ([] : List ℓ) = none at hs
  cases hs with
  | refl => exact ⟨middle, ho, hre⟩
  | snoc _ _ => simp at eq

theorem invariant {P : σ → Prop} (hk : ∀ a label b, P a → step a label b → P b) (ht : Trace step a labels b)
    (hs : P a) : P b := by
  induction ht with
  | refl => exact hs
  | snoc _ hl ih => exact hk _ _ _ ih hl

/-- A run whose steps can be answered is answered as a whole, under the same labels. -/
theorem simulate {step' : τ → ℓ → τ → Prop} {R : σ → τ → Prop}
    (ha : ∀ a label b q, R a q → step a label b → ∃ q', step' q label q' ∧ R b q') (ht : Trace step a labels b)
    {q : τ} (hs : R a q) : ∃ q', Trace step' q labels q' ∧ R b q' := by
  induction ht with
  | refl => exact ⟨q, refl, hs⟩
  | snoc _ hl ih =>
    obtain ⟨q₁, hb, hr⟩ := ih
    obtain ⟨q₂, ho, hr⟩ := ha _ _ _ _ hr hl
    exact ⟨q₂, hb.snoc ho, hr⟩

theorem of_foldlM {next : σ → ℓ → Option σ} (eq : labels.foldlM next a = some b) :
    Trace (fun s label s' => next s label = some s') a labels b := by
  induction labels using List.reverseRecOn generalizing b with
  | nil =>
    cases eq
    exact refl
  | append_singleton labels label ih =>
    rw [List.foldlM_append] at eq
    obtain ⟨middle, hb, hl⟩ := Option.bind_eq_some_iff.mp eq
    exact (ih hb).snoc (by simpa using hl)

/-- A run of a step function whose every step meets a decidable condition. -/
theorem of_guarded_foldlM {next : σ → ℓ → Option σ} {meets : σ → ℓ → Prop} [∀ s label, Decidable (meets s label)]
    (eq : labels.foldlM (fun s label => if meets s label then next s label else none) a = some b) :
    Trace (fun s label s' => meets s label ∧ next s label = some s') a labels b := by
  have ht := of_foldlM eq
  clear eq
  induction ht with
  | refl => exact refl
  | snoc _ hl ih => exact ih.snoc (Option.ite_none_right_eq_some.mp hl)

end Trace

/-- Every label of the list is allowed by the labels before it. -/
def Explained {ℓ : Type} (allowed : List ℓ → ℓ → Prop) (labels : List ℓ) : Prop :=
  ∀ before label after, labels = before ++ label :: after → allowed before label

namespace Explained
variable {ℓ : Type} {allowed : List ℓ → ℓ → Prop} {labels : List ℓ}

theorem nil : Explained allowed [] := by
  intro before label after eq
  simp at eq

theorem snoc {last : ℓ} (hea : Explained allowed labels) (now : allowed labels last) :
    Explained allowed (labels ++ [last]) := by
  intro before label after eq
  rcases List.eq_nil_or_concat after with rfl | ⟨after, label', rfl⟩
  · obtain ⟨rfl, hsa⟩ := List.append_inj' eq rfl
    obtain rfl := List.singleton_inj.mp hsa
    exact now
  · rw [List.concat_eq_append, ← List.cons_append, ← List.append_assoc] at eq
    exact hea _ _ _ (List.append_inj' eq rfl).1

theorem of_mem {label : ℓ} (he : Explained allowed labels) (mem : label ∈ labels) :
    ∃ before after, labels = before ++ label :: after ∧ allowed before label := by
  obtain ⟨before, after, eq⟩ := List.append_of_mem mem
  exact ⟨before, after, eq, he before label after eq⟩

/-- Two labels of which neither is allowed after the other are one. -/
theorem eq_of_mem {label label' : ℓ} (he : Explained allowed labels) (mem : label ∈ labels)
    (hm : label' ∈ labels) (ho : ∀ before, allowed before label → label' ∉ before)
    (hon : ∀ before, allowed before label' → label ∉ before) : label = label' := by
  obtain ⟨before, after, eq, now⟩ := he.of_mem mem
  rw [eq] at hm
  rcases List.mem_append.mp hm with hea | hm
  · exact absurd hea (ho before now)
  · rcases List.mem_cons.mp hm with hsa | hla
    · exact hsa.symm
    · obtain ⟨between, rest, rfl⟩ := List.append_of_mem hla
      have hn := he (before ++ label :: between) label' rest (by simpa using eq)
      exact absurd (by simp) (hon _ hn)

end Explained
