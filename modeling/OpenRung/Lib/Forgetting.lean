import OpenRung.Lib.Trace
import Mathlib.Order.Basic

/-! Services that keep a record for each key and may forget records. A record may be forgotten once every later
    request is answered as if there were none, and a service that forgets only such records answers every request as
    the one that keeps all of them (`exists_keeping`). -/

structure Served (κ τ ρ : Type) where
  key : κ
  time : τ
  answer : ρ

/-- What a request at a time answers and leaves for the record it finds, and what holds of the records meanwhile. -/
structure Service (τ β ρ : Type) [Preorder τ] where
  use : τ → Option β → ρ × β
  Fits : τ → β → Prop
  fits_later : ∀ {t t' : τ} {b : β}, t ≤ t' → Fits t b → Fits t' b
  use_fits : ∀ {t : τ} {record : Option β}, (∀ b, record = some b → Fits t b) → Fits t (use t record).2

namespace Service
variable {κ τ β ρ : Type} [Preorder τ] (service : Service τ β ρ)

/-- From now on the record is worth no more than none. -/
def AsNew (now : τ) (b : β) : Prop := ∀ t, now ≤ t → service.use t (some b) = service.use t none

/-- The records that are left are the kept ones without some that are as new. -/
def Forgotten (now : τ) (kept left : κ → Option β) : Prop :=
  ∀ key, left key = kept key ∨ left key = none ∧ ∃ b, kept key = some b ∧ service.AsNew now b

variable {service} {now t : τ} {kept left records records' : κ → Option β}

theorem AsNew.later {b : β} (ha : service.AsNew now b) (le : now ≤ t) : service.AsNew t b :=
  fun t' le' => ha t' (le.trans le')

theorem Forgotten.refl (now : τ) (records : κ → Option β) : service.Forgotten now records records := fun _ => .inl rfl

theorem Forgotten.later (hf : service.Forgotten now kept left) (le : now ≤ t) : service.Forgotten t kept left := by
  intro key
  rcases hf key with hs | ⟨hn, b, hso, ha⟩
  · exact .inl hs
  · exact .inr ⟨hn, b, hso, ha.later le⟩

theorem Forgotten.trans (hf : service.Forgotten now kept records) (hm : service.Forgotten now records left) :
    service.Forgotten now kept left := by
  intro key
  rcases hm key with hs | ⟨hn, b, hso, ha⟩
  · rw [hs]
    exact hf key
  · rcases hf key with hs | ⟨hno, -⟩
    · exact .inr ⟨hn, b, hs ▸ hso, ha⟩
    · rw [hno] at hso
      cases hso

theorem Forgotten.eq_none (hf : service.Forgotten now kept left) {key : κ} (hab : kept key = none) :
    left key = none := by
  rcases hf key with hs | ⟨none, -⟩
  · rw [hs, hab]
  · exact none

theorem Forgotten.use_eq (hf : service.Forgotten now kept left) (key : κ) :
    service.use now (left key) = service.use now (kept key) := by
  rcases hf key with hs | ⟨hn, b, hso, ha⟩
  · rw [hs]
  · rw [hn, hso, ha now le_rfl]

/-! ### Requests -/

variable [DecidableEq κ] {served : Served κ τ ρ}

def Keeps (service : Service τ β ρ) (records : κ → Option β) (served : Served κ τ ρ) (records' : κ → Option β) : Prop :=
  (service.use served.time (records served.key)).1 = served.answer ∧
    records' = Function.update records served.key (some (service.use served.time (records served.key)).2)

def Forgets (service : Service τ β ρ) (records : κ → Option β) (served : Served κ τ ρ) (records' : κ → Option β) : Prop :=
  ∃ left, service.Forgotten served.time records left ∧ service.Keeps left served records'

theorem Forgotten.keeps (hf : service.Forgotten served.time kept left)
    (hk : service.Keeps left served records') :
    ∃ kept', service.Keeps kept served kept' ∧ service.Forgotten served.time kept' records' := by
  obtain ⟨han, rfl⟩ := hk
  rw [hf.use_eq] at han
  refine ⟨_, ⟨han, rfl⟩, fun key => ?_⟩
  rw [hf.use_eq]
  by_cases hs : key = served.key
  · subst hs
    simp only [Function.update_self, true_or]
  · simp only [Function.update_of_ne hs]
    exact hf key

theorem Keeps.of_ne (hk : service.Keeps records served records') {key : κ} (ne : served.key ≠ key) :
    records' key = records key := by
  rw [hk.2, Function.update_of_ne ne.symm]

theorem Keeps.trace_of_ne {calls : List (Served κ τ ρ)} (ht : Trace service.Keeps records calls records') {key : κ}
    (ho : ∀ served ∈ calls, served.key ≠ key) : records' key = records key := by
  induction ht with
  | refl => rfl
  | @snoc calls middle last served _ hst ih =>
    rw [hst.of_ne (ho served (by simp)), ih fun served mem => ho served (by simp [mem])]

theorem Keeps.fits (hk : service.Keeps records served records')
    (fit : ∀ key b, records key = some b → service.Fits served.time b) :
    ∀ key b, records' key = some b → service.Fits served.time b := by
  intro key b hfo
  rw [hk.2] at hfo
  by_cases hs : key = served.key
  · subst hs
    rw [Function.update_self] at hfo
    obtain rfl := Option.some.inj hfo
    exact service.use_fits (fit _)
  · rw [Function.update_of_ne hs] at hfo
    exact fit key b hfo

/-- A run whose every step forgets only what is as new is, answer for answer, a run of the service that keeps every
    record. -/
theorem exists_keeping {σ : Type} {step : σ → Served κ τ ρ → σ → Prop} (recordsOf : σ → κ → Option β) {s s' : σ}
    {calls : List (Served κ τ ρ)}
    (forgets : ∀ s served s', (∀ key b, recordsOf s key = some b → service.Fits served.time b) → step s served s' →
      service.Forgets (recordsOf s) served (recordsOf s'))
    (trace : Trace step s calls s') (ordered : calls.Pairwise fun c c' => c.time ≤ c'.time)
    (empty : recordsOf s = fun _ => none) :
    ∃ kept, Trace service.Keeps (fun _ => none) calls kept ∧
      ∀ t, (∀ served ∈ calls, served.time ≤ t) →
        service.Forgotten t kept (recordsOf s') ∧ ∀ key b, kept key = some b → service.Fits t b := by
  induction trace with
  | refl =>
    refine ⟨_, .refl, fun t _ => ⟨?_, fun key b found => by cases found⟩⟩
    rw [empty]
    exact .refl t _
  | @snoc calls middle last served _ once ih =>
    obtain ⟨earlier, -, before⟩ := List.pairwise_append.mp ordered
    obtain ⟨kept, keeping, holds⟩ := ih earlier
    obtain ⟨forgotten, fit⟩ := holds served.time fun c mem => before c mem served (by simp)
    have fitLeft : ∀ key b, recordsOf middle key = some b → service.Fits served.time b := by
      intro key b found
      rcases forgotten key with same | ⟨none, -⟩
      · exact fit key b (same ▸ found)
      · rw [none] at found
        cases found
    obtain ⟨left, more, keeps⟩ := forgets _ _ _ fitLeft once
    obtain ⟨kept', keeps', forgotten'⟩ := (forgotten.trans more).keeps keeps
    refine ⟨kept', keeping.snoc keeps', fun t past => ?_⟩
    have le : served.time ≤ t := past served (by simp)
    exact ⟨forgotten'.later le, fun key b found => service.fits_later le (keeps'.fits fit key b found)⟩

end Service
