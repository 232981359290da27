import OpenRung.Engine.SystemProxy

/-! Crash safety of the OS proxy. A world is recoverable if the slot holds the user's setting, or is empty while the
    OS has the user's setting. Every hook call keeps this as long as `Set` is called with the snapshot in the slot,
    which a promotion after a failed one does not do. -/

namespace OpenRung.Engine

variable {σ : Type} {hooks : Hooks} {original : σ}

/-- The next start can restore the user's setting, or has nothing to restore. -/
def World.Recoverable (hooks : Hooks) (original : σ) (w : World σ) : Prop :=
  (hooks.osProxy = true ∧ w.slot = some original) ∨ (w.slot = none ∧ w.os = original)

theorem World.Recoverable.slot {w : World σ} (hr : w.Recoverable hooks original) (hd : w.os ≠ original) :
    w.slot = some original :=
  (hr.resolve_right fun hc => hd hc.2).2

namespace Machine
variable {m : Machine σ}

structure Inv (hooks : Hooks) (original : σ) (m : Machine σ) : Prop where
  past : ∀ w ∈ m.trace, w.Recoverable hooks original
  now : m.world.Recoverable hooks original
  snapshot : ∀ snap, m.conn.snapshot = some snap → snap = original
  restored : m.conn.snapshot.isSome → m.conn.proxySet = false → m.world.os = original

/-! ### Hook calls -/

theorem Inv.hook (inv : Inv hooks original m) {w : World σ} (hr : w.Recoverable hooks original)
    (restored : m.conn.snapshot.isSome → m.conn.proxySet = false → w.os = original) : Inv hooks original (m.hook w) where
  past v mem := by
    rcases List.mem_append.mp mem with old | new
    · exact inv.past v old
    · exact List.mem_singleton.mp new ▸ hr
  now := hr
  snapshot := inv.snapshot
  restored := restored

theorem Inv.look (inv : Inv hooks original m) : Inv hooks original (m.hook m.world) := inv.hook inv.now inv.restored

theorem Inv.save (inv : Inv hooks original m) (hpr : hooks.osProxy = true) : Inv hooks original (m.save original) :=
  inv.hook (Or.inl ⟨hpr, rfl⟩) inv.restored

theorem Inv.clear (inv : Inv hooks original m) (hc : m.world.os = original) : Inv hooks original m.clear :=
  inv.hook (Or.inr ⟨rfl, hc⟩) fun _ _ => hc

theorem Inv.restore (inv : Inv hooks original m) (ok : Bool) : Inv hooks original (m.restore ok original) := by
  cases ok with
  | false => exact inv.look
  | true => exact inv.hook (inv.now.imp id fun hc => ⟨hc.1, rfl⟩) fun _ _ => rfl

theorem Inv.set (inv : Inv hooks original m) (hk : hooks.osProxy = true ∧ m.world.slot = some original)
    (hp : m.conn.proxySet = true) (tunnel : σ) (outcome : SetOutcome σ) : Inv hooks original (m.set tunnel outcome) := by
  have hu : m.conn.snapshot.isSome → m.conn.proxySet = false → ∀ os : σ, os = original :=
    fun _ no => absurd no (by simp [hp])
  cases outcome with
  | ok => exact inv.hook (Or.inl hk) fun ht no => hu ht no tunnel
  | failed leaves => exact inv.hook (Or.inl hk) fun ht no => hu ht no leaves

/-! ### The engine -/

theorem Inv.restoreLeftoverSnapshot (inv : Inv hooks original m) (io : LeftoverIO) :
    Inv hooks original (m.restoreLeftoverSnapshot hooks io).2 ∧ (m.restoreLeftoverSnapshot hooks io).2.conn = m.conn ∧
      ((m.restoreLeftoverSnapshot hooks io).1 = true → (m.restoreLeftoverSnapshot hooks io).2.world.slot = none) := by
  rcases inv.now with ⟨hpr, hl⟩ | hc
  · -- both hooks are called, and the slot is cleared after a restore of the proxy
    have hf := inv.restore io.proxy
    have hbo : Inv hooks original (if hooks.osDNS then (m.restore io.proxy original).hook (m.restore io.proxy original).world
        else m.restore io.proxy original) := by
      split
      · exact hf.look
      · exact hf
    simp only [Machine.restoreLeftoverSnapshot, hl, hpr, if_true]
    split
    · rename_i hdo
      have hpo : io.proxy = true := by simp at hdo; exact hdo.1
      refine ⟨hbo.clear ?_, ?_, fun _ => rfl⟩
      · split <;> simp [Machine.restore, Machine.hook, hpo]
      · split <;> rfl
    · refine ⟨hbo, ?_, fun no => by simp at no⟩
      split <;> rfl
  · have hn : m.restoreLeftoverSnapshot hooks io = (true, m) := by simp only [Machine.restoreLeftoverSnapshot, hc.1]
    rw [hn]
    exact ⟨inv, rfl, fun _ => hc.1⟩

theorem Inv.pointProxy (inv : Inv hooks original m) (hk : hooks.osProxy = true ∧ m.world.slot = some original)
    (io : PromoteIO σ) (tunnel : σ) :
    Inv hooks original (m.pointProxy io tunnel original) := by
  have hp : Inv hooks original { m with conn := { m.conn with proxySet := true } } :=
    ⟨inv.past, inv.now, inv.snapshot, fun _ no => by simp at no⟩
  unfold Machine.pointProxy
  split
  · exact (hp.set hk rfl tunnel .ok).save hk.1
  · rename_i leaves _
    have hb := (hp.set hk rfl tunnel (.failed leaves)).restore io.restore
    dsimp only
    split
    · rename_i hre
      have hc : ((({ m with conn := { m.conn with proxySet := true } } : Machine σ).set tunnel
          (.failed leaves)).restore io.restore original).world.os = original := by
        simp [Machine.restore, Machine.hook, hre]
      have hun : Inv hooks original { (({ m with conn := { m.conn with proxySet := true } } : Machine σ).set tunnel
          (.failed leaves)).restore io.restore original with conn := { m.conn with proxySet := false } } :=
        ⟨hb.past, hb.now, hb.snapshot, fun _ _ => hc⟩
      exact hun.clear hc
    · exact hb

theorem Inv.applyProxy (inv : Inv hooks original m) (kept : m.conn.snapshotTaken = true → m.world.slot ≠ none)
    (io : PromoteIO σ) (tunnel : σ) : Inv hooks original (m.applyProxy hooks io tunnel) := by
  unfold Machine.applyProxy
  split
  · exact inv
  rename_i usable
  have present : hooks.osProxy = true := by simp at usable; exact usable.1
  split
  · rename_i snap taken
    obtain rfl : snap = original := inv.snapshot snap taken
    have slot : hooks.osProxy = true ∧ m.world.slot = some snap :=
      inv.now.resolve_right fun clean => kept (by simp [Conn.snapshotTaken, taken]) clean.1
    exact inv.pointProxy slot io tunnel
  · rename_i untaken
    obtain ⟨restores, conn, empty⟩ := inv.restoreLeftoverSnapshot io.leftover
    dsimp only
    split
    · exact restores
    rename_i done
    have none := empty (by simpa using done)
    have clean : (m.restoreLeftoverSnapshot hooks io.leftover).2.world.os = original :=
      (restores.now.resolve_left (by simp [none])).2
    split
    · exact restores.look
    · -- the slot was empty, so what is captured is the user's setting
      have looked := restores.look
      have captured : Inv hooks original { (m.restoreLeftoverSnapshot hooks io.leftover).2.hook
          (m.restoreLeftoverSnapshot hooks io.leftover).2.world with
          conn := { (m.restoreLeftoverSnapshot hooks io.leftover).2.conn with snapshot := some original } } :=
        ⟨looked.past, looked.now, fun snap eq => (Option.some.inj eq).symm, fun _ _ => clean⟩
      simp only [Machine.hook, clean]
      exact (captured.save present).pointProxy ⟨present, rfl⟩ io tunnel

theorem Inv.releaseProxy (inv : Inv hooks original m) (ok : Bool) :
    Inv hooks original (m.releaseProxy hooks ok).2 ∧ ((m.releaseProxy hooks ok).1 = true →
      (m.releaseProxy hooks ok).2.conn.snapshotTaken = true → (m.releaseProxy hooks ok).2.world.os = original) := by
  unfold Machine.releaseProxy
  split
  · rename_i snap set ht
    obtain rfl : snap = original := inv.snapshot snap ht
    have hb := inv.restore ok
    dsimp only
    split
    · exact ⟨inv, fun no => by simp at no⟩
    split
    · rename_i hre
      have hc : (m.restore ok snap).world.os = snap := by simp [Machine.restore, Machine.hook, hre]
      exact ⟨⟨hb.past, hb.now, hb.snapshot, fun _ _ => hc⟩, fun _ _ => hc⟩
    · exact ⟨hb, fun no => by simp at no⟩
  · rename_i ho
    refine ⟨inv, fun _ ht => ?_⟩
    obtain ⟨snap, hs⟩ := Option.isSome_iff_exists.mp ht
    refine inv.restored ht ?_
    cases set : m.conn.proxySet with
    | false => rfl
    | true => exact absurd hs (ho snap set)

theorem Inv.cleanupConn (inv : Inv hooks original m) (ok : Bool) : Inv hooks original (m.cleanupConn hooks ok) := by
  obtain ⟨hrl, hc⟩ := inv.releaseProxy ok
  have hfr : ∀ {m' : Machine σ}, Inv hooks original m' → Inv hooks original { m' with conn := {} } := fun hi =>
    ⟨hi.past, hi.now, fun _ hno => by simp at hno, fun ht => by simp at ht⟩
  unfold Machine.cleanupConn
  dsimp only
  split
  · rename_i hbo
    rw [Bool.and_eq_true] at hbo
    exact hfr (hrl.clear (hc hbo.1 hbo.2))
  · exact hfr hrl

/-! ### Runs -/

/-- A promotion of a connection that has taken its snapshot finds it in the slot. -/
def Persisted (m : Machine σ) : Op σ → Prop
  | .promote _ _ => m.conn.snapshotTaken = true → m.world.slot ≠ none
  | _ => True

theorem Inv.apply (inv : Inv hooks original m) {op : Op σ} (hpe : Persisted m op) :
    Inv hooks original (m.apply hooks op) := by
  cases op with
  | start io => exact (inv.restoreLeftoverSnapshot io).1
  | promote tunnel io => exact inv.applyProxy hpe io tunnel
  | release ok => exact (inv.releaseProxy ok).1
  | cleanup ok => exact inv.cleanupConn ok

theorem Reachable.inv (run : Reachable hooks original Persisted m) : Inv hooks original m := by
  induction run with
  | init => exact ⟨by simp, Or.inr ⟨rfl, rfl⟩, by simp, fun _ _ => rfl⟩
  | op op may _ ih => exact ih.apply may
  | crash ha _ ih => exact ⟨by simp, ih.past _ ha, by simp, fun ht => by simp at ht⟩

theorem proxy_recoverable (run : Reachable hooks original Persisted m) :
    (∀ w ∈ m.trace, w.os ≠ original → w.slot = some original) ∧
      (m.world.os ≠ original → m.world.slot = some original) :=
  ⟨fun w mem => (run.inv.past w mem).slot, run.inv.now.slot⟩

/-! ### A second promotion after a failed one -/

def undone : Machine Nat := { world := { os := 0 } : Machine Nat }.apply {} (.promote 8080 { set := .failed 8080 })

/-- In the second promotion `Set` succeeds. A crash right after it leaves the tunnel's setting and an empty slot. -/
theorem repromotion_unprotected :
    ∃ w ∈ (undone.apply {} (.promote 8080 {})).trace, w.os ≠ 0 ∧ w.slot = none ∧
      Reachable {} 0 (fun _ _ => True) ({ world := w } : Machine Nat) := by
  have run : Reachable {} 0 (fun _ _ => True) (undone.apply {} (.promote 8080 {})) :=
    .op _ trivial (.op _ trivial .init)
  exact ⟨{ os := 8080 }, by decide, by decide, rfl, .crash (by decide) run⟩

theorem proxy_recoverable_session :
    let m := (({ world := { os := 0 } : Machine Nat }.apply {} (.promote 8080 {})).apply {} (.release true)).apply {}
      (.promote 8081 { set := .failed 8081, restore := false })
    (∀ w ∈ m.trace, w.os ≠ 0 → w.slot = some 0) ∧ (m.world.os ≠ 0 → m.world.slot = some 0) :=
  proxy_recoverable (.op _ (fun _ => by decide) (.op _ trivial (.op _ (fun no => by cases no) .init)))

end Machine

end OpenRung.Engine
