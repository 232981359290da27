import OpenRung.Broker.ClientSeen

/-! The event that a request for the relay list leaves is held to fewer checks than an uploaded one: its id is the
    session id with twelve bytes in front, and its attributes are not cut. -/

namespace OpenRung.Broker.Ingest

/-! ### Text -/

theorem trimSpace_trimSpace_ne_nil {s : Bytes} (hs : trimSpace s ≠ []) : trimSpace (trimSpace s) ≠ [] :=
  Trim.trim_ne_nil (Trim.bare_trim (by decide)) hs

theorem trimSpace_ascii_c (s : Bytes) : trimSpace (99 :: s) ≠ [] := by
  refine Trim.trim_ne_nil (fun token hmem hpre => ?_) (by simp)
  have hfirst : ∀ token ∈ spaces, token ≠ [] ∧ token.head? ≠ some 99 := by decide
  obtain ⟨hne, hhead⟩ := hfirst token hmem
  obtain ⟨b, t, rfl⟩ := List.exists_cons_of_ne_nil hne
  exact hhead (congrArg some (List.cons_prefix_cons.mp hpre).1)

theorem storableText_cons {a : UInt8} (h0 : a ≠ 0) (ha : a < 0x80) (s : Bytes) :
    storableText (a :: s) = storableText s := by
  have hvalid : validString (a :: s) = validString s := by
    rw [validString.eq_def]
    exact if_pos ha
  simp [storableText, hvalid, h0.symm]

theorem storableText_storableHeaderValue (s : Bytes) : storableText (storableHeaderValue s) = true := by
  unfold storableHeaderValue
  cases h : storableText s
  · rfl
  · simpa using h

theorem eventID_bytes : ascii "client-seen-" = [99, 108, 105, 101, 110, 116, 45, 115, 101, 101, 110, 45] := by decide

theorem storableText_eventID (s : Bytes) : storableText (ascii "client-seen-" ++ s) = storableText s := by
  rw [eventID_bytes]
  simp only [List.cons_append, List.nil_append]
  iterate 12 rw [storableText_cons (by decide) (by decide)]

/-! ### The checks -/

def Fits (value : Bytes) : Prop := storableText value = true → value.length ≤ maxTelemetryValueBytes

theorem length_storableHeaderValue (s : Bytes) :
    (storableHeaderValue s).length ≤ maxTelemetryValueBytes ↔ Fits s := by
  unfold storableHeaderValue Fits
  cases storableText s <;> simp

theorem validateAttribute_eq_ok {key : Bytes} (hlen : key.length ≤ maxTelemetryKeyBytes)
    (htext : storableText key = true) (value : Bytes) :
    validateAttribute (key, storableHeaderValue value) = .ok () ↔ Fits value := by
  simp [validateAttribute, htext, storableText_storableHeaderValue, not_lt.mpr hlen, length_storableHeaderValue]

theorem validateAttributes_eq_ok {k k' : Bytes} (hlen : ∀ key ∈ [k, k'], key.length ≤ maxTelemetryKeyBytes)
    (htext : ∀ key ∈ [k, k'], storableText key = true) (v v' : Bytes) :
    [(k, storableHeaderValue v), (k', storableHeaderValue v')].forM validateAttribute = .ok () ↔ Fits v ∧ Fits v' := by
  rw [List.forM_eq_ok, List.forall_mem_cons, List.forall_mem_singleton,
    validateAttribute_eq_ok (hlen k (by simp)) (htext k (by simp)),
    validateAttribute_eq_ok (hlen k' (by simp)) (htext k' (by simp))]

theorem recordClientSeen_some {r : Request} {hasSink : Bool} {dedup : Option ClientSeenDeduper} {now : Time}
    {record : RawRecord} (h : (recordClientSeen r hasSink dedup now).1 = some record) :
    record = { receivedAt := now, sourceIP := r.clientIP, event := clientSeenEvent r now } ∧
      ∀ name ∈ ["X-OpenRung-Client-ID", "X-OpenRung-Session-ID"], trimSpace (r.header name) ≠ [] ∧
        (trimSpace (r.header name)).length ≤ 128 ∧ storableText (trimSpace (r.header name)) = true := by
  unfold recordClientSeen at h
  dsimp only at h
  split at h
  · cases h
  · rename_i hids
    split at h
    · cases h
    · rename_i htext
      have hrecord : some { receivedAt := now, sourceIP := r.clientIP, event := clientSeenEvent r now } = some record := by
        cases dedup with
        | none => exact h
        | some d =>
          dsimp only at h
          split at h
          · exact h
          · cases h
      push Not at hids htext
      refine ⟨(Option.some.inj hrecord).symm, ?_⟩
      simp_all

theorem validate_clientSeenEvent {r : Request} {now : Time}
    (hids : ∀ name ∈ ["X-OpenRung-Client-ID", "X-OpenRung-Session-ID"], trimSpace (r.header name) ≠ [] ∧
      (trimSpace (r.header name)).length ≤ 128 ∧ storableText (trimSpace (r.header name)) = true) :
    validateTelemetryEvent (clientSeenEvent r now) now = .ok () ↔
      (trimSpace (r.header "X-OpenRung-Session-ID")).length ≤ 116 ∧ now ≠ zeroTime ∧
        Fits (r.header "X-OpenRung-App-Version") ∧ Fits (r.header "X-OpenRung-Android-API") := by
  obtain ⟨hc, hclen, hctext⟩ := hids "X-OpenRung-Client-ID" (by simp)
  obtain ⟨hs, hslen, hstext⟩ := hids "X-OpenRung-Session-ID" (by simp)
  have hid : trimSpace (ascii "client-seen-" ++ trimSpace (r.header "X-OpenRung-Session-ID")) ≠ [] := by
    rw [eventID_bytes]
    exact trimSpace_ascii_c _
  have hname : trimSpace (ascii "client_seen") ≠ [] := by
    have hbytes : ascii "client_seen" = 99 :: ascii "lient_seen" := by decide
    rw [hbytes]
    exact trimSpace_ascii_c _
  have hidtext : storableText (clientSeenEvent r now).eventID = true := by
    rw [clientSeenEvent, storableText_eventID, hstext]
  have hattributes : (clientSeenEvent r now).attributes.forM validateAttribute = .ok () ↔
      Fits (r.header "X-OpenRung-App-Version") ∧ Fits (r.header "X-OpenRung-Android-API") :=
    validateAttributes_eq_ok (by decide +kernel) (by decide +kernel) _ _
  have hmeasurements : (clientSeenEvent r now).measurements.forM validateMeasurement = .ok () := rfl
  have hnametext : (ascii "client_seen").length = 11 ∧ storableText (ascii "client_seen") = true := by decide +kernel
  have hempty : storableText [] = true := rfl
  have hskew : 0 ≤ maxTelemetryFutureSkew := by decide
  have hlimit : 12 + (trimSpace (r.header "X-OpenRung-Session-ID")).length ≤ 128 ↔
      (trimSpace (r.header "X-OpenRung-Session-ID")).length ≤ 116 := by omega
  simp only [validateTelemetryEvent, ite_error_eq_ok, Except.bind_eq_ok, hattributes, hmeasurements]
  simp only [clientSeenEvent] at hidtext ⊢
  have hidlen : (ascii "client-seen-").length = 12 := by
    rw [eventID_bytes]
    rfl
  simp [hid, hname, hc, hs, hclen, hslen, hctext, hstext, hidtext, hnametext, hempty, hskew, hidlen, hlimit,
    trimSpace_trimSpace_ne_nil]

theorem client_seen_passes_iff {r : Request} {hasSink : Bool} {dedup : Option ClientSeenDeduper} {now : Time}
    {record : RawRecord} (handed : (recordClientSeen r hasSink dedup now).1 = some record) :
    validateTelemetryEvent record.event record.receivedAt = .ok () ↔
      (trimSpace (r.header "X-OpenRung-Session-ID")).length ≤ 116 ∧ now ≠ zeroTime ∧
        Fits (r.header "X-OpenRung-App-Version") ∧ Fits (r.header "X-OpenRung-Android-API") := by
  obtain ⟨rfl, hids⟩ := recordClientSeen_some handed
  exact validate_clientSeenEvent hids

def demoRequest (session : Nat) : Request where
  header name := if name = "X-OpenRung-Client-ID" then [99] else
    if name = "X-OpenRung-Session-ID" then List.replicate session 115 else []
  clientIP := []

def demoNow : Time := 1700000000 * second

theorem client_seen_passes :
    let record : RawRecord := ⟨demoNow, [], clientSeenEvent (demoRequest 36) demoNow⟩
    (recordClientSeen (demoRequest 36) true none demoNow).1 = some record ∧
      validateTelemetryEvent record.event record.receivedAt = .ok () := by
  have handed : (recordClientSeen (demoRequest 36) true none demoNow).1 =
      some ⟨demoNow, [], clientSeenEvent (demoRequest 36) demoNow⟩ := rfl
  refine ⟨handed, (client_seen_passes_iff handed).mpr ⟨by decide +kernel, by decide, ?_, ?_⟩⟩ <;>
  exact fun _ => by decide +kernel

/-- A session id as long as the checks allow makes an event id that is too long. -/
theorem client_seen_id_too_long :
    ((recordClientSeen (demoRequest 128) true none demoNow).1.map fun record =>
      validateTelemetryEvent record.event record.receivedAt) =
      some (.error "event_id is required and must be at most 128 characters") := by
  decide +kernel

end OpenRung.Broker.Ingest
