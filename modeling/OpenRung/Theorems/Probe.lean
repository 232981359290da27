import OpenRung.Punch.Probe

/-! The datagrams of the hole punch are read as what they were built as. A datagram matches exactly if it begins with
    the packet built for the same magic, session and token. Packets of the two magics overlap only where the length of
    a session is spelled `AC`, which makes it longer than a datagram. -/

namespace OpenRung.Punch
open Slice

structure Matches (data magic sessionID token : Bytes) : Prop where
  session : sessionID.length < 65536
  length : token.length = tokenLen
  starts : buildProbePacket magic sessionID token <+: data

variable {data magic s t s' t' : Bytes}

theorem length_buildProbePacket : (buildProbePacket magic s t).length = magic.length + 2 + s.length + t.length := by
  simp [buildProbePacket, Nat.add_assoc]

theorem matchProbe_magic {l d : Bytes} (hl : l.length = 2) :
    matchProbe (magic ++ (l ++ d)) magic s t = some (decide (ofBigEndian l + tokenLen ≤ d.length ∧
      d.take (ofBigEndian l) = s ∧ (d.drop (ofBigEndian l)).take tokenLen = t)) := by
  have hmagic : slice (magic ++ (l ++ d)) 0 magic.length = some magic :=
    slice_part (a := []) rfl rfl (Nat.zero_add _).symm
  have hlength : slice (magic ++ (l ++ d)) magic.length (magic.length + 2) = some l := slice_part rfl rfl (by rw [hl])
  have hlong : ¬ (magic ++ (l ++ d)).length < magic.length + 2 := by
    simp only [List.length_append, hl]
    omega
  have hrest : (magic ++ (l ++ d)).length < magic.length + 2 + ofBigEndian l + tokenLen ↔
      d.length < ofBigEndian l + tokenLen := by
    simp only [List.length_append, hl]
    omega
  have hsession (h : ¬ d.length < ofBigEndian l + tokenLen) :
      slice (magic ++ (l ++ d)) (magic.length + 2) (magic.length + 2 + ofBigEndian l) =
        some (d.take (ofBigEndian l)) := by
    rw [← List.append_assoc]
    exact slice_append (by simp [hl]) rfl (by omega)
  have htoken (h : ¬ d.length < ofBigEndian l + tokenLen) :
      slice (magic ++ (l ++ d)) (magic.length + 2 + ofBigEndian l) (magic.length + 2 + ofBigEndian l + tokenLen) =
        some ((d.drop (ofBigEndian l)).take tokenLen) := by
    have hd : magic ++ (l ++ d) = (magic ++ l ++ d.take (ofBigEndian l)) ++ d.drop (ofBigEndian l) := by
      rw [List.append_assoc _ (d.take _), List.take_append_drop, List.append_assoc]
    rw [hd]
    refine slice_append ?_ rfl ?_
    · simp only [List.length_append, List.length_take, hl]
      omega
    · rw [List.length_drop]
      omega
  generalize magic ++ (l ++ d) = data at *
  unfold matchProbe
  by_cases hfits : d.length < ofBigEndian l + tokenLen
  · simp [hlong, hmagic, hlength, hrest, hfits]
  · by_cases hs : d.take (ofBigEndian l) = s
    · simp [hlong, hmagic, hlength, hrest, hfits, hsession, hs, htoken, not_lt.mp hfits]
    · simp [hlong, hmagic, hlength, hrest, hfits, hsession, hs]

theorem matchProbe_total (data magic s t : Bytes) :
    ∃ b, matchProbe data magic s t = some b ∧ (b = true → Matches data magic s t) := by
  by_cases hstart : magic <+: data ∧ magic.length + 2 ≤ data.length
  · obtain ⟨⟨d, rfl⟩, hlen⟩ := hstart
    rw [List.length_append] at hlen
    obtain ⟨l, d, rfl, hl⟩ := split_at (show 2 ≤ d.length by omega)
    refine ⟨_, matchProbe_magic hl, fun h => ?_⟩
    obtain ⟨hfits, rfl, rfl⟩ := of_decide_eq_true h
    have hsession : (d.take (ofBigEndian l)).length = ofBigEndian l := by
      rw [List.length_take]
      omega
    refine ⟨?_, by rw [List.length_take, List.length_drop]; omega, ?_⟩
    · have hlt := ofBigEndian_lt l
      rwa [hl, ← hsession] at hlt
    · rw [buildProbePacket, hsession, ← hl, bigEndian_ofBigEndian, List.append_assoc, List.append_assoc]
      refine List.prefix_append_right_inj _ |>.mpr (List.prefix_append_right_inj _ |>.mpr ?_)
      nth_rewrite 3 [← List.take_append_drop (ofBigEndian l) d]
      exact List.prefix_append_right_inj _ |>.mpr (List.take_prefix _ _)
  · refine ⟨false, ?_, by simp⟩
    unfold matchProbe
    by_cases hshort : data.length < magic.length + 2
    · simp [hshort]
    · have hm : slice data 0 magic.length = some (data.take magic.length) :=
        slice_append (a := []) rfl (Nat.zero_add _).symm (by omega)
      have hmagic : data.take magic.length ≠ magic := by
        intro h
        exact hstart ⟨h ▸ List.take_prefix _ _, by omega⟩
      simp [hshort, hm, hmagic]

theorem matchProbe_of_matches (h : Matches data magic s t) : matchProbe data magic s t = some true := by
  obtain ⟨rest, rfl⟩ := h.starts
  have hl : ofBigEndian (bigEndian 2 s.length) = s.length := ofBigEndian_bigEndian h.session
  rw [buildProbePacket, List.append_assoc, List.append_assoc, List.append_assoc,
    matchProbe_magic (length_bigEndian 2 _), hl]
  simp [← h.length]

theorem matchProbe_eq_true : matchProbe data magic s t = some true ↔ Matches data magic s t := by
  refine ⟨fun h => ?_, matchProbe_of_matches⟩
  obtain ⟨b, hb, hmatches⟩ := matchProbe_total data magic s t
  rw [h] at hb
  exact hmatches (Option.some.inj hb).symm

theorem matchProbe_eq_false : matchProbe data magic s t = some false ↔ ¬ Matches data magic s t := by
  obtain ⟨b, hb, hmatches⟩ := matchProbe_total data magic s t
  cases b with
  | false => simp [hb, ← matchProbe_eq_true]
  | true => simp [hb, hmatches]

/-! ### Confusion -/

theorem Matches.length_le (h : Matches data magic s t) : magic.length + 2 + s.length + tokenLen ≤ data.length := by
  have hle := h.starts.length_le
  rwa [length_buildProbePacket, h.length] at hle

theorem Matches.eq (ht : t.length = tokenLen) (hs : s.length < 65536)
    (h : Matches (buildProbePacket magic s t) magic s' t') : s = s' ∧ t = t' := by
  obtain ⟨rest, hrest⟩ := h.starts
  simp only [buildProbePacket, List.append_assoc] at hrest
  obtain ⟨hl, hrest⟩ := List.append_inj (List.append_cancel_left hrest) (by simp)
  have hlen : s'.length = s.length := by
    rw [← ofBigEndian_bigEndian (w := 2) h.session, hl, ofBigEndian_bigEndian hs]
  obtain ⟨hs', hrest⟩ := List.append_inj hrest hlen
  have htoken : t' = t := by
    rw [← @List.take_left _ t' rest, hrest, h.length, ← ht, List.take_length]
  exact ⟨hs'.symm, htoken.symm⟩

theorem probeAckMagic_eq : probeAckMagic = probeMagic ++ [65, 67, 75] := by decide +kernel

/-- The length that the letters after the shorter magic spell. -/
theorem length_of_spelled {n : Nat} {x y : Bytes} (hn : n < 65536) (h : bigEndian 2 n ++ x = [65, 67] ++ y) :
    n = 16707 := by
  obtain ⟨hl, -⟩ := List.append_inj h (by simp)
  rw [← ofBigEndian_bigEndian (w := 2) hn, hl]
  rfl

theorem not_matches_ack (hfits : (buildProbePacket probeMagic s t).length ≤ 1500) :
    ¬ Matches (buildProbePacket probeMagic s t) probeAckMagic s' t' := by
  intro h
  obtain ⟨rest, hrest⟩ := h.starts
  simp only [buildProbePacket, probeAckMagic_eq, List.append_assoc] at hrest
  rw [length_buildProbePacket] at hfits
  have := length_of_spelled (by omega) (List.append_cancel_left hrest).symm
  omega

theorem not_matches_probe (hfits : (buildProbePacket probeAckMagic s t).length ≤ 1500) :
    ¬ Matches (buildProbePacket probeAckMagic s t) probeMagic s' t' := by
  intro h
  obtain ⟨rest, hrest⟩ := h.starts
  simp only [buildProbePacket, probeAckMagic_eq, List.append_assoc] at hrest
  have := length_of_spelled h.session (List.append_cancel_left hrest)
  have := h.length_le
  omega

theorem parseProbePacket_eq (data s t : Bytes) :
    (Matches data probeAckMagic s t ∧ parseProbePacket data s t = some .ack) ∨
      (¬ Matches data probeAckMagic s t ∧ Matches data probeMagic s t ∧ parseProbePacket data s t = some .probe) ∨
      (¬ Matches data probeAckMagic s t ∧ ¬ Matches data probeMagic s t ∧
        parseProbePacket data s t = some .none) := by
  unfold parseProbePacket
  by_cases hack : Matches data probeAckMagic s t
  · simp [hack, matchProbe_eq_true.mpr hack]
  · by_cases hprobe : Matches data probeMagic s t
    · simp [hack, hprobe, matchProbe_eq_false.mpr hack, matchProbe_eq_true.mpr hprobe]
    · simp [hack, hprobe, matchProbe_eq_false.mpr hack, matchProbe_eq_false.mpr hprobe]

theorem matches_build (magic : Bytes) (hs : s.length < 65536) (ht : t.length = tokenLen) :
    Matches (buildProbePacket magic s t) magic s t := ⟨hs, ht, List.prefix_rfl⟩

theorem probe_packets :
    (∀ s t : Bytes, s.length ≤ 65535 → t.length = tokenLen →
      parseProbePacket (buildProbePacket probeMagic s t) s t = some .probe ∧
        parseProbePacket (buildProbePacket probeAckMagic s t) s t = some .ack) ∧
      (∀ data s t, (parseProbePacket data s t).isSome) ∧
      ∀ magic ∈ [probeMagic, probeAckMagic], ∀ s t s' t' : Bytes, t.length = tokenLen →
        (buildProbePacket magic s t).length ≤ 1500 →
        parseProbePacket (buildProbePacket magic s t) s' t' ≠ some .none → s = s' ∧ t = t' := by
  refine ⟨fun s t hs ht => ⟨?_, ?_⟩, fun data s t => ?_, fun magic hmagic s t s' t' ht hfits hread => ?_⟩
  · have hself := matches_build probeMagic (Nat.lt_succ_of_le hs) ht
    have hshort : ¬ Matches (buildProbePacket probeMagic s t) probeAckMagic s t := by
      intro h
      have hle := h.length_le
      rw [length_buildProbePacket, probeAckMagic_eq, List.length_append, ht] at hle
      simp at hle
    rcases parseProbePacket_eq (buildProbePacket probeMagic s t) s t with ⟨h, -⟩ | ⟨-, -, h⟩ | ⟨-, h, -⟩
    · exact absurd h hshort
    · exact h
    · exact absurd hself h
  · have hself := matches_build probeAckMagic (Nat.lt_succ_of_le hs) ht
    rcases parseProbePacket_eq (buildProbePacket probeAckMagic s t) s t with ⟨-, h⟩ | ⟨h, -⟩ | ⟨h, -⟩
    · exact h
    · exact absurd hself h
    · exact absurd hself h
  · rcases parseProbePacket_eq data s t with ⟨-, h⟩ | ⟨-, -, h⟩ | ⟨-, -, h⟩ <;> simp [h]
  · have hs : s.length < 65536 := by
      rw [length_buildProbePacket] at hfits
      omega
    rcases parseProbePacket_eq (buildProbePacket magic s t) s' t' with ⟨h, -⟩ | ⟨-, h, -⟩ | ⟨-, -, h⟩
    · rcases List.mem_pair.mp hmagic with rfl | rfl
      · exact absurd h (not_matches_ack hfits)
      · exact h.eq ht hs
    · rcases List.mem_pair.mp hmagic with rfl | rfl
      · exact h.eq ht hs
      · exact absurd h (not_matches_probe hfits)
    · exact absurd h hread

end OpenRung.Punch
