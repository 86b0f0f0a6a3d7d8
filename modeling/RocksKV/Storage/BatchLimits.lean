import RocksKV.Storage.Server
/-!
# Field batches at the limits of their format (`pkg/storage/field_storage.go:134-278`)

What `SetFields` (`server.go:572-601`) and `DeleteField` (`:667-674`) log is `setBatch` and `deleteBatch`; neither
checks a length.

* `field_batches_survive_iff`: `Encode` writes a name's length in 16 bits, so a batch with a name of 65536 bytes or
  more is not the one that `DecodeFieldBatch` returns (`long_name_lost`).
* `truncated_batch_rejected_iff`: `bytes.Reader.Read` returns what is left without an error. A cut in a primary key, a
  name or an earlier value is noticed by the read that follows it; nothing follows the last value, which is filled up
  with zeros (`truncated_batch_accepted`).
-/

namespace RocksKV.Storage

open Lib

/-! ## What a decoded batch looks like -/

theorem readUpdate_fits {b rest : Bytes} {u : FieldUpdate} (h : readUpdate b = .ok (u, rest)) : u.Fits := by
  simp only [readUpdate, Decoder.bind_eq_ok] at h
  obtain ⟨⟨fieldLen, b1⟩, hlen, ⟨name, b2⟩, hname, ⟨flag, b3⟩, -, ⟨valueLen, b4⟩, hvlen, hu⟩ := h
  have hn : name.length = fieldLen := Decoder.length_of_upTo hname
  have hnlt : fieldLen < 256 ^ 2 := Decoder.word_lt hlen
  have hvlt : valueLen < 256 ^ 4 := Decoder.word_lt hvlen
  split_ifs at hu
  · obtain ⟨⟨value, b5⟩, hvalue, hu⟩ := Decoder.bind_eq_ok.1 hu
    cases hu
    have hv : value.length = valueLen := Decoder.length_of_upTo hvalue
    exact ⟨by dsimp only; omega, by dsimp only; omega⟩
  · cases hu
    exact ⟨by dsimp only; omega, by simp⟩

theorem readUpdates_fits : ∀ {n : Nat} {b rest : Bytes} {us : List FieldUpdate}, readUpdates n b = .ok (us, rest) →
    us.length = n ∧ ∀ u ∈ us, u.Fits
  | 0, _, _, _, h => by
    cases h
    exact ⟨rfl, fun u hu => absurd hu (by simp)⟩
  | n + 1, b, rest, us, h => by
    simp only [readUpdates, Decoder.bind_eq_ok] at h
    obtain ⟨⟨u, b1⟩, hu, ⟨us', b2⟩, hus, heq⟩ := h
    cases heq
    obtain ⟨hlen, hall⟩ := readUpdates_fits hus
    refine ⟨by simp [hlen], fun v hv => ?_⟩
    rcases List.mem_cons.1 hv with rfl | hv
    · exact readUpdate_fits hu
    · exact hall v hv

theorem decodeFieldBatchContent_fits {b rest : Bytes} {fb : FieldBatch}
    (h : decodeFieldBatchContent b = .ok (fb, rest)) : fb.Fits := by
  simp only [decodeFieldBatchContent, Decoder.bind_eq_ok] at h
  obtain ⟨⟨p, b1⟩, -, ⟨pkLen, b2⟩, hpkLen, ⟨pk, b3⟩, hpk, ⟨count, b4⟩, hcount, ⟨us, b5⟩, hus, heq⟩ := h
  cases heq
  have hk : pk.length = pkLen := Decoder.length_of_upTo hpk
  have hklt : pkLen < 256 ^ 4 := Decoder.word_lt hpkLen
  have hclt : count < 256 ^ 4 := Decoder.word_lt hcount
  obtain ⟨hlen, hall⟩ := readUpdates_fits hus
  exact ⟨by dsimp only; omega, by dsimp only; omega, hall⟩

theorem decodeWith_ok {r : Decoder FieldBatch} {data : Bytes} {fb : FieldBatch} (h : decodeWith r data = .ok fb) :
    ∃ rest, r data = .ok (fb, rest) := by
  unfold decodeWith at h
  split at h
  · cases h
  · rename_i fb' rest hr
    cases h
    exact ⟨rest, hr⟩

/-- **Whatever is decoded has lengths that fit their words**, for they were read from them. -/
theorem decodeFieldBatch_fits {data : Bytes} {fb : FieldBatch} (h : decodeFieldBatch data = .ok fb) : fb.Fits := by
  cases data with
  | nil => cases h
  | cons version data =>
    rw [decodeFieldBatch] at h
    split_ifs at h
    · unfold decodeFieldBatchV1 at h
      split_ifs at h
      obtain ⟨rest, hr⟩ := decodeWith_ok h
      exact decodeFieldBatchContent_fits hr
    · obtain ⟨rest, hr⟩ := decodeWith_ok h
      exact decodeFieldBatchContent_fits hr

/-- A batch comes back exactly if it fits. -/
theorem decodeFieldBatch_encode_iff {fb : FieldBatch} : decodeFieldBatch fb.encode = .ok fb ↔ fb.Fits :=
  ⟨decodeFieldBatch_fits, decodeFieldBatch_encode⟩

/-- **Field batches survive the log** exactly when every name is shorter than 65536 bytes and there are less than
`2^32` updates; what `DeleteField` logs has one. -/
theorem field_batches_survive_iff {p : UInt32} {pk : Bytes} {fields : List FieldUpdate} {name : Bytes}
    (hpk : pk.length < 2 ^ 32) (hvalues : ∀ u ∈ fields, u.value.length < 2 ^ 32) :
    (decodeFieldBatch (setBatch p pk fields).encode = .ok (setBatch p pk fields) ↔
      (∀ u ∈ fields, u.fieldName.length < 2 ^ 16) ∧ fields.length < 2 ^ 32) ∧
    (decodeFieldBatch (deleteBatch p pk name).encode = .ok (deleteBatch p pk name) ↔ name.length < 2 ^ 16) := by
  rw [decodeFieldBatch_encode_iff, decodeFieldBatch_encode_iff]
  constructor
  · constructor
    · rintro ⟨-, hcount, hus⟩
      exact ⟨fun u hu => (hus u hu).1, hcount⟩
    · rintro ⟨hnames, hcount⟩
      exact ⟨hpk, hcount, fun u hu => ⟨hnames u hu, hvalues u hu⟩⟩
  · constructor
    · rintro ⟨-, -, hus⟩
      exact (hus _ (List.mem_singleton.2 rfl)).1
    · intro hname
      refine ⟨hpk, by simp [deleteBatch], fun u hu => ?_⟩
      rw [List.mem_singleton.1 hu]
      exact ⟨hname, by simp⟩

theorem field_batches_survive_small :
    decodeFieldBatch (setBatch 7 [1] [⟨[2], [3, 4], false⟩, ⟨[], [], true⟩]).encode =
      .ok (setBatch 7 [1] [⟨[2], [3, 4], false⟩, ⟨[], [], true⟩]) ∧
    decodeFieldBatch (deleteBatch 7 [1] [2]).encode = .ok (deleteBatch 7 [1] [2]) :=
  have h := @field_batches_survive_iff 7 [1] [⟨[2], [3, 4], false⟩, ⟨[], [], true⟩] [2] (by decide) (by decide)
  ⟨h.1.2 (by decide), h.2.2 (by decide)⟩

theorem FieldBatch.length_content (fb : FieldBatch) :
    fb.content.length = 12 + fb.primaryKey.length + (fb.updates.flatMap FieldUpdate.encode).length := by
  simp only [FieldBatch.content, List.length_append, length_be]
  omega

/-- A name whose length is written as 0: its first five bytes are taken for the flag and the length of the value. -/
theorem readUpdate_of_wrapped {u : FieldUpdate} (hlen : u.fieldName.length % 256 ^ 2 = 0) {r : Bytes}
    (hname : u.fieldName = be 1 0 ++ (be 4 0 ++ r)) (rest : Bytes) :
    ∃ rest', readUpdate (u.encode ++ rest) = .ok (⟨[], [], false⟩, rest') := by
  refine ⟨r ++ ([if u.isDelete then 1 else 0] ++ (be 4 u.value.length ++ (u.value ++ rest))), ?_⟩
  have hne : u.fieldName ++ ([if u.isDelete then 1 else 0] ++ (be 4 u.value.length ++ (u.value ++ rest))) ≠ [] := by
    simp
  simp only [FieldUpdate.encode, List.append_assoc, readUpdate]
  rw [Decoder.bind_of_ok (Decoder.word_be _ _ _), hlen, Decoder.bind_of_ok (Decoder.upTo_zero hne), hname,
    List.append_assoc, List.append_assoc, Decoder.bind_of_ok (Decoder.word_be _ _ _),
    Decoder.bind_of_ok (Decoder.word_be _ _ _)]
  rfl

theorem decodeFieldBatch_of_wrapped {p : UInt32} {pk name value r : Bytes} {isDelete : Bool}
    (hpk : pk.length < 2 ^ 32) (hlen : name.length % 256 ^ 2 = 0) (hname : name = be 1 0 ++ (be 4 0 ++ r)) :
    decodeFieldBatch (setBatch p pk [⟨name, value, isDelete⟩]).encode = .ok (setBatch p pk [⟨[], [], false⟩]) := by
  obtain ⟨rest, hread⟩ := @readUpdate_of_wrapped ⟨name, value, isDelete⟩ hlen r hname []
  rw [decodeFieldBatch_eq hpk (by simp [setBatch]), setBatch, List.flatMap_cons, List.flatMap_nil,
    List.length_singleton, readUpdates, Decoder.bind_of_ok hread]
  rfl

theorem zeros_eq : (List.replicate 65536 0 : Bytes) = be 1 0 ++ (be 4 0 ++ List.replicate 65531 0) := by
  rw [← List.append_assoc]
  exact List.replicate_add 5 65531 0

theorem length_zeros : (List.replicate 65536 0 : Bytes).length % 256 ^ 2 = 0 := by
  rw [List.length_replicate]
  norm_num

/-- A name of 65536 zeros. -/
theorem long_name_lost :
    decodeFieldBatch (setBatch 7 [1] [⟨List.replicate 65536 0, [2], false⟩]).encode =
      .ok (setBatch 7 [1] [⟨[], [], false⟩]) :=
  decodeFieldBatch_of_wrapped (by decide) length_zeros zeros_eq

/-! ## Cuts -/

theorem FieldUpdate.length_encode (u : FieldUpdate) : u.encode.length = 7 + u.fieldName.length + u.value.length := by
  simp only [FieldUpdate.encode, List.length_append, length_be, List.length_singleton]
  omega

/-- **A cut in an update** is noticed up to the first byte of its value. -/
theorem readUpdate_take_fails {u : FieldUpdate} (h : u.Fits) {m : Nat} (hm : m < u.encode.length)
    (hcut : m ≤ 7 + u.fieldName.length) : Decoder.Fails readUpdate (u.encode.take m) := by
  rw [u.length_encode] at hm
  rw [u.encode_eq, readUpdate]
  by_cases h1 : m ≤ 2
  · exact (Decoder.Drains.word 2 _).bind_fails (fun _ => ⟨_, rfl⟩) _ (by simpa using h1)
  rw [Decoder.Fails, (Decoder.Drains.word 2 _).bind_take (by simp [be]) (by simp; omega), length_be, h.nameLen]
  by_cases h2 : m - 2 ≤ u.fieldName.length
  · exact (Decoder.Drains.upTo _).bind_fails (fun _ => ⟨_, rfl⟩) _ h2
  rw [(Decoder.Drains.upTo _).bind_take (by simp [be]) (by omega)]
  by_cases h3 : m - 2 - u.fieldName.length ≤ 1
  · exact (Decoder.Drains.word 1 _).bind_fails (fun _ => ⟨_, rfl⟩) _ (by simpa using h3)
  rw [(Decoder.Drains.word 1 _).bind_take (by simp [be]) (by simp; omega), length_be]
  by_cases h4 : m - 2 - u.fieldName.length - 1 < 4
  · exact (Decoder.word_of_short (by simp; omega)).bind _
  -- the value is not empty, and nothing of it is there
  obtain rfl : m = 7 + u.fieldName.length := by omega
  rw [List.take_append, List.take_of_length_le (by simp; omega), length_be, Decoder.bind_of_ok (Decoder.word_be _ _ _),
    h.valueLen, if_pos (by omega), show 7 + u.fieldName.length - 2 - u.fieldName.length - 1 - 4 = 0 by omega]
  exact ⟨_, rfl⟩

/-- After that the value is filled up with zeros. -/
theorem readUpdate_take {u : FieldUpdate} (h : u.Fits) {m : Nat} (hm : m < u.encode.length)
    (hcut : 7 + u.fieldName.length < m) :
    readUpdate (u.encode.take m) = .ok ({ u with
      value := u.value.take (m - (7 + u.fieldName.length)) ++ List.replicate (u.encode.length - m) 0 }, []) := by
  rw [u.length_encode] at hm ⊢
  rw [u.encode_eq, readUpdate, (Decoder.Drains.word 2 _).bind_take (by simp [be]) (by simp; omega), length_be, h.nameLen,
    (Decoder.Drains.upTo _).bind_take (by simp [be]) (by omega),
    (Decoder.Drains.word 1 _).bind_take (by simp [be]) (by simp; omega), length_be, u.decode_flag]
  -- the length of the value is there, and a part of the value
  rw [List.take_append, List.take_of_length_le (by simp; omega), length_be, Decoder.bind_of_ok (Decoder.word_be _ _ _),
    h.valueLen, if_pos (by omega), show m - 2 - u.fieldName.length - 1 - 4 = m - (7 + u.fieldName.length) by omega,
    Decoder.bind_of_ok (Decoder.upTo_take (by omega) (by omega)),
    show u.value.length - (m - (7 + u.fieldName.length)) = 7 + u.fieldName.length + u.value.length - m by omega]
  rfl

theorem length_value_le {us : List FieldUpdate} {u : FieldUpdate} (h : us.getLast? = some u) :
    u.value.length ≤ (us.flatMap FieldUpdate.encode).length := by
  have hlen := u.length_encode
  have hle : u.encode.length ≤ (us.flatMap FieldUpdate.encode).length := by
    rw [List.length_flatMap]
    exact List.le_sum_of_mem (List.mem_map_of_mem (List.mem_of_getLast? h))
  omega

/-- **A cut in a list of updates** is noticed unless it falls behind the first byte of the last value. -/
theorem readUpdates_take : ∀ {us : List FieldUpdate}, (∀ u ∈ us, u.Fits) → ∀ {m : Nat},
    m < (us.flatMap FieldUpdate.encode).length →
    (Decoder.Fails (readUpdates us.length) ((us.flatMap FieldUpdate.encode).take m) ↔
      ∀ u, us.getLast? = some u → m + u.value.length ≤ (us.flatMap FieldUpdate.encode).length)
  | [], _, m, hm => absurd hm (by simp)
  | [u], h, m, hm => by
    have hu : u.Fits := h u (by simp)
    have hlen := u.length_encode
    simp only [List.flatMap_cons, List.flatMap_nil, List.append_nil, List.length_cons, List.length_nil,
      List.getLast?_singleton, Option.some.injEq, forall_eq'] at hm ⊢
    by_cases hcut : m ≤ 7 + u.fieldName.length
    · exact iff_of_true ((readUpdate_take_fails hu hm hcut).bind _) (by omega)
    · refine iff_of_false ?_ (by omega)
      rintro ⟨e, he⟩
      rw [readUpdates, Decoder.bind_of_ok (readUpdate_take hu hm (not_le.1 hcut))] at he
      cases he
  | u :: v :: us, h, m, hm => by
    have hu : u.Fits := h u (by simp)
    have hrest : ∀ w ∈ v :: us, w.Fits := fun w hw => h w (List.mem_cons_of_mem u hw)
    rw [List.getLast?_cons_cons, List.length_cons, readUpdates]
    rw [List.flatMap_cons, List.length_append] at hm ⊢
    rcases Nat.lt_or_ge m u.encode.length with hlt | hge
    · rw [List.take_append_of_le_length hlt.le]
      refine iff_of_true ?_ fun w hw => ?_
      · by_cases hcut : m ≤ 7 + u.fieldName.length
        · exact (readUpdate_take_fails hu hlt hcut).bind _
        · -- nothing is left for the next update
          rw [Decoder.Fails, Decoder.bind_of_ok (readUpdate_take hu hlt (not_le.1 hcut))]
          exact ⟨_, rfl⟩
      · have hle := length_value_le hw
        omega
    · rw [List.take_append, List.take_of_length_le hge, Decoder.Fails, Decoder.bind_of_ok (readUpdate_encode hu _),
        ← Decoder.Fails, Decoder.fails_bind_pure, readUpdates_take hrest (by omega)]
      refine forall₂_congr fun w hw => ?_
      omega

theorem decodeFieldBatchContent_take {fb : FieldBatch} (h : fb.Fits) {m : Nat} (hm : m < fb.content.length) :
    Decoder.Fails decodeFieldBatchContent (fb.content.take m) ↔
      ∀ u, fb.updates.getLast? = some u → m + u.value.length ≤ fb.content.length := by
  obtain ⟨hpk, hcount, hus⟩ := h
  have hk : fb.primaryKey.length % 256 ^ 4 = fb.primaryKey.length := Nat.mod_eq_of_lt (by norm_num; exact hpk)
  have hc : fb.updates.length % 256 ^ 4 = fb.updates.length := Nat.mod_eq_of_lt (by norm_num; exact hcount)
  -- a cut before the first update is always noticed
  have hearly : m < 12 + fb.primaryKey.length → ∀ u, fb.updates.getLast? = some u →
      m + u.value.length ≤ 12 + fb.primaryKey.length + (fb.updates.flatMap FieldUpdate.encode).length := by
    intro hlt u hu
    have hle := length_value_le hu
    omega
  rw [fb.length_content] at hm ⊢
  simp only [FieldBatch.content, List.append_assoc, decodeFieldBatchContent]
  by_cases h1 : m ≤ 4
  · exact iff_of_true ((Decoder.Drains.word 4 _).bind_fails (fun _ => ⟨_, rfl⟩) _ (by simpa using h1)) (hearly (by omega))
  rw [Decoder.Fails, (Decoder.Drains.word 4 _).bind_take (by simp [be]) (by simp; omega), length_be]
  by_cases h2 : m - 4 ≤ 4
  · exact iff_of_true ((Decoder.Drains.word 4 _).bind_fails (fun _ => ⟨_, rfl⟩) _ (by simpa using h2)) (hearly (by omega))
  rw [(Decoder.Drains.word 4 _).bind_take (by simp [be]) (by simp; omega), length_be, hk]
  by_cases h3 : m - 4 - 4 ≤ fb.primaryKey.length
  · exact iff_of_true ((Decoder.Drains.upTo _).bind_fails (fun _ => ⟨_, rfl⟩) _ h3) (hearly (by omega))
  rw [(Decoder.Drains.upTo _).bind_take (by simp [be]) (by omega)]
  by_cases h4 : m - 4 - 4 - fb.primaryKey.length < 4
  · exact iff_of_true ((Decoder.word_of_short (by simp; omega)).bind _) (hearly (by omega))
  rw [List.take_append, List.take_of_length_le (by simp; omega), length_be, Decoder.bind_of_ok (Decoder.word_be _ _ _),
    hc, ← Decoder.Fails, Decoder.fails_bind_pure, readUpdates_take hus (by omega)]
  refine forall₂_congr fun u hu => ?_
  omega

theorem decodeWith_eq_error {r : Decoder FieldBatch} {data : Bytes} :
    (∃ e, decodeWith r data = .error e) ↔ Decoder.Fails r data := by
  unfold decodeWith Decoder.Fails
  cases r data <;> simp

/-- **A truncated batch is rejected** exactly when the cut does not fall behind the first byte of the last value. -/
theorem truncated_batch_rejected_iff {fb : FieldBatch} (h : fb.Fits) {m : Nat} (hm : m < fb.encode.length) :
    (∃ e, decodeFieldBatch (fb.encode.take m) = .error e) ↔
      ∀ u, fb.updates.getLast? = some u → m + u.value.length ≤ fb.encode.length := by
  have hlen := fb.length_content
  have hearly : m < 13 → ∀ u, fb.updates.getLast? = some u → m + u.value.length ≤ fb.encode.length := by
    intro hlt u hu
    have hle := length_value_le hu
    rw [FieldBatch.encode, List.length_cons]
    omega
  cases m with
  | zero => exact iff_of_true ⟨_, rfl⟩ (hearly (by omega))
  | succ k =>
    rw [FieldBatch.encode, List.length_cons] at hm hearly ⊢
    rw [List.take_succ_cons, decodeFieldBatch, if_pos rfl, decodeFieldBatchV1]
    split_ifs with hshort
    · rw [List.length_take] at hshort
      exact iff_of_true ⟨_, rfl⟩ (hearly (by omega))
    · rw [decodeWith_eq_error, decodeFieldBatchContent_take h (by omega)]
      refine forall₂_congr fun u hu => ?_
      omega

theorem truncated_batch_rejected_in_name :
    ∃ e, decodeFieldBatch ((⟨7, [1], [⟨[2, 3], [4, 5], false⟩]⟩ : FieldBatch).encode.take 17) = .error e :=
  (truncated_batch_rejected_iff (by decide) (by decide)).2 (by decide)

/-- The last of two bytes is missing: the value comes back with a zero in its place. -/
theorem truncated_batch_accepted :
    decodeFieldBatch ((⟨7, [1], [⟨[2, 3], [4, 5], false⟩]⟩ : FieldBatch).encode.take 24) =
      .ok ⟨7, [1], [⟨[2, 3], [4, 0], false⟩]⟩ := by decide +kernel

end RocksKV.Storage
