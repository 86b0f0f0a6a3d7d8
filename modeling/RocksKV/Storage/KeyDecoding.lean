import RocksKV.Storage.Documents
/-!
# Decoding field keys (`pkg/storage/field_storage.go:59-80`, `:475-509`)

`DecodeFieldKey` takes the length of the primary key from the key itself and adds 12 to it in 32 bits. A length word of
`2^32 - 12` or more passes the check of the key's length and makes the slice `key[12 : 12+pkLen]` panic
(`decodePanics`). For smaller words decoding is exact: the key is the encoding of what is returned, and of nothing
else as long as it is too short to hold the word's value and another `2^32` bytes (`decodeFieldKey_exact_iff`).

`ListPrimaryKeys` decodes every key behind the partition's field marker. A plain key is stored right behind the
partition's prefix, so a client that puts a key which starts with the marker chooses the length word
(`marker_put_panics`).
-/

namespace RocksKV.Storage

open Lib

/-! ## Marked keys -/

theorem markedKey_inj {p q w v : UInt32} {rest rest' : Bytes} :
    markedKey p w rest = markedKey q v rest' ↔ p = q ∧ w = v ∧ rest = rest' := by
  refine ⟨fun h => ?_, fun ⟨hp, hw, hrest⟩ => by rw [hp, hw, hrest]⟩
  obtain ⟨hp, h⟩ := makePartitionKey_inj.1 h
  obtain ⟨hw, hrest⟩ := List.append_inj (List.append_cancel_left h) (by simp)
  exact ⟨hp, UInt32.toNat_inj.1 (be_inj (toNat_lt_word w) (toNat_lt_word v) hw), hrest⟩

/-- A key that passes the two checks of the format has a length word. -/
theorem exists_markedKey {key : Bytes} (hlen : 12 ≤ key.length) (hpre : key.take 2 = partitionKeyPrefix)
    (hmark : (key.drop 6).take 2 = [0x3a, fieldKeyMarker]) : ∃ p w rest, key = markedKey p w rest := by
  refine ⟨UInt32.ofNat (ofBe ((key.drop 2).take 4)), UInt32.ofNat (ofBe ((key.drop 8).take 4)), key.drop 12, ?_⟩
  rw [markedKey, makePartitionKey, be_ofBe_uint32 (by simp; omega), be_ofBe_uint32 (by simp; omega), ← hpre, ← hmark]
  rw [show (12 : Nat) = 8 + 4 from rfl, take_drop_append, show (8 : Nat) = 6 + 2 from rfl, take_drop_append,
    List.append_assoc, show (6 : Nat) = 2 + 4 from rfl, take_drop_append, List.take_append_drop]

/-- A key without marker is refused. -/
theorem decodeFieldKey_of_unmarked {key : Bytes} (h : ∀ p w rest, key ≠ markedKey p w rest) :
    decodeFieldKey key = .error "invalid field key: too short" ∨
      decodeFieldKey key = .error "invalid field key: wrong format" := by
  unfold decodeFieldKey
  split_ifs with hshort hformat
  · exact .inl rfl
  · exact .inr rfl
  · rw [not_or, not_not, not_not] at hformat
    obtain ⟨p, w, rest, hkey⟩ := exists_markedKey (not_lt.1 hshort) hformat.1 hformat.2
    exact absurd hkey (h p w rest)

theorem encode_eq_markedKey (fk : FieldKey) :
    fk.encode = markedKey fk.partitionID (UInt32.ofNat fk.primaryKey.length) (fk.primaryKey ++ fk.fieldName) :=
  makeFieldKey_eq_markedKey fk.partitionID fk.primaryKey fk.fieldName

/-- **What a marked key encodes**: any split of the rest at a length that the word is the remainder of. -/
theorem markedKey_eq_encode {p w : UInt32} {rest : Bytes} {fk : FieldKey} : markedKey p w rest = fk.encode ↔
    fk.partitionID = p ∧ fk.primaryKey.length % 2 ^ 32 = w.toNat ∧ fk.primaryKey ++ fk.fieldName = rest := by
  rw [encode_eq_markedKey, markedKey_inj, ← UInt32.toNat_inj (a := w), UInt32.toNat_ofNat', eq_comm (a := p),
    eq_comm (a := w.toNat), eq_comm (a := rest)]

/-! ## Exactness -/

/-- The length word is small enough for 32 bits, and the key too short for a longer primary key with this word. -/
def WordFits (key : Bytes) : Prop :=
  ∀ p w rest, key = markedKey p w rest → 12 + w.toNat < 2 ^ 32 ∧ rest.length < 2 ^ 32 + w.toNat

theorem wordFits_markedKey {p w : UInt32} {rest : Bytes} :
    WordFits (markedKey p w rest) ↔ 12 + w.toNat < 2 ^ 32 ∧ rest.length < 2 ^ 32 + w.toNat := by
  refine ⟨fun h => h p w rest rfl, fun h q v rest' heq => ?_⟩
  obtain ⟨-, rfl, rfl⟩ := markedKey_inj.1 heq
  exact h

/-- Decoding does not panic, and returns what the key encodes and nothing else. -/
def DecodesExactly (key : Bytes) : Prop :=
  decodePanics key = false ∧ ∀ fk, decodeFieldKey key = .ok fk ↔ key = fk.encode

theorem decodesExactly_of_unmarked {key : Bytes} (h : ∀ p w rest, key ≠ markedKey p w rest) : DecodesExactly key := by
  have hnone : ∀ fk : FieldKey, key ≠ fk.encode := fun fk hkey => h _ _ _ (hkey.trans (encode_eq_markedKey fk))
  unfold DecodesExactly decodePanics
  rcases decodeFieldKey_of_unmarked h with hd | hd <;> rw [hd] <;>
    exact ⟨rfl, fun fk => iff_of_false (fun hc => by cases hc) (hnone fk)⟩

theorem decodePanics_markedKey (p w : UInt32) (rest : Bytes) :
    decodePanics (markedKey p w rest) = decide (2 ^ 32 ≤ 12 + w.toNat) := by
  unfold decodePanics
  rw [decodeFieldKey_markedKey]
  by_cases hwrap : 2 ^ 32 ≤ 12 + w.toNat
  · rw [if_pos hwrap, decide_eq_true hwrap]
    rfl
  · rw [if_neg hwrap, decide_eq_false hwrap]
    split_ifs <;> rfl

/-- Two primary keys with one length word differ by `2^32` bytes. -/
theorem decodesExactly_markedKey {p w : UInt32} {rest : Bytes} :
    DecodesExactly (markedKey p w rest) ↔ 12 + w.toNat < 2 ^ 32 ∧ rest.length < 2 ^ 32 + w.toNat := by
  unfold DecodesExactly
  rw [decodePanics_markedKey, decide_eq_false_iff_not, not_le]
  refine and_congr_right fun hword => ?_
  have hw := w.toNat_lt
  rw [decodeFieldKey_markedKey, if_neg (by omega)]
  constructor
  · -- were the rest long enough, the longer primary key would be encoded as well
    intro hexact
    by_contra hlong
    have hlen : (rest.take (2 ^ 32 + w.toNat)).length = 2 ^ 32 + w.toNat := List.length_take_of_le (not_lt.1 hlong)
    have hencode : markedKey p w rest = FieldKey.encode ⟨p, rest.take (2 ^ 32 + w.toNat), rest.drop (2 ^ 32 + w.toNat)⟩ :=
      markedKey_eq_encode.2 ⟨rfl, by dsimp only; omega, List.take_append_drop _ _⟩
    have hok := (hexact _).2 hencode
    rw [if_neg (by omega)] at hok
    have htake := congrArg List.length (FieldKey.mk.inj (Except.ok.inj hok)).2.1
    rw [hlen, List.length_take_of_le (by omega)] at htake
    omega
  · intro hshort fk
    rw [markedKey_eq_encode]
    constructor
    · intro hok
      split_ifs at hok with hmismatch
      cases hok
      have hlen : (rest.take w.toNat).length = w.toNat := List.length_take_of_le (not_lt.1 hmismatch)
      exact ⟨rfl, by dsimp only; rw [hlen]; exact Nat.mod_eq_of_lt hw, List.take_append_drop _ _⟩
    · rintro ⟨rfl, hlen, rfl⟩
      rw [List.length_append] at hshort
      have heq : fk.primaryKey.length = w.toNat := by omega
      rw [if_neg (by simp; omega), ← heq, List.take_left, List.drop_left]

/-! ## Listing -/

/-- The loop panics only at a key whose decoding does, and at every such key when the limit lets it go on. -/
theorem listLoop_eq_none {limit : Int} : ∀ {es : List (Bytes × Bytes)} {pks : List Bytes},
    listLoop limit pks es = none → ∃ e ∈ es, decodePanics e.1 = true
  | [], pks, h => by cases h
  | e :: es, pks, h => by
    unfold listLoop at h
    split_ifs at h with hlimit hpanic
    · exact ⟨e, List.mem_cons_self, hpanic⟩
    · split at h <;> obtain ⟨e', he', hp⟩ := listLoop_eq_none h <;> exact ⟨e', List.mem_cons_of_mem _ he', hp⟩

theorem listLoop_of_panic {limit : Int} : ∀ {es : List (Bytes × Bytes)} {pks : List Bytes},
    ((pks.length + es.length : Nat) : Int) ≤ limit → (∃ e ∈ es, decodePanics e.1 = true) → listLoop limit pks es = none
  | [], _, _, ⟨_, he, _⟩ => absurd he (by simp)
  | e :: es, pks, hlimit, ⟨e', he', hpanic⟩ => by
    unfold listLoop
    rw [List.length_cons] at hlimit
    rw [if_pos (by omega)]
    split_ifs with hp
    · rfl
    · have hmem : e' ∈ es := by
        rcases List.mem_cons.1 he' with rfl | hmem
        · exact absurd hpanic hp
        · exact hmem
      split
      · exact listLoop_of_panic (by omega) ⟨e', hmem, hpanic⟩
      · refine listLoop_of_panic ?_ ⟨e', hmem, hpanic⟩
        split_ifs
        · omega
        · rw [List.length_append, List.length_singleton]
          omega

theorem mem_partitionFields {db : RocksDB} {p : UInt32} {k v : Bytes} :
    (k, v) ∈ scanPrefix db (getPartitionFieldPrefix p) ↔
      db.get k = some v ∧ ∃ t, k = makePartitionKey p ([0x3a, fieldKeyMarker] ++ t) := by
  rw [mem_scanPrefix, List.isPrefixOf_iff_prefix]
  refine and_congr_right fun _ => exists_congr fun t => ?_
  rw [makePartitionKey_append]
  exact eq_comm

theorem marked_of_panics {key : Bytes} (h : decodePanics key = true) :
    ∃ p w rest, key = markedKey p w rest ∧ 2 ^ 32 ≤ 12 + w.toNat := by
  by_cases hmarked : ∃ p w rest, key = markedKey p w rest
  · obtain ⟨p, w, rest, rfl⟩ := hmarked
    rw [decodePanics_markedKey] at h
    exact ⟨p, w, rest, rfl, of_decide_eq_true h⟩
  · have hexact : DecodesExactly key :=
      decodesExactly_of_unmarked fun p w rest hkey => hmarked ⟨p, w, rest, hkey⟩
    rw [hexact.1] at h
    cases h

theorem listPrimaryKeys_isSome_iff {db : RocksDB} {p : UInt32} :
    (∀ limit, (listPrimaryKeys db p limit).isSome) ↔
      ∀ w rest, db.get (markedKey p w rest) ≠ none → 12 + w.toNat < 2 ^ 32 := by
  constructor
  · intro hsome w rest hget
    by_contra hwrap
    obtain ⟨v, hv⟩ := Option.ne_none_iff_exists'.1 hget
    have hmem : (markedKey p w rest, v) ∈ scanPrefix db (getPartitionFieldPrefix p) :=
      mem_partitionFields.2 ⟨hv, _, rfl⟩
    have hpanic : decodePanics (markedKey p w rest) = true := by
      rw [decodePanics_markedKey]
      exact decide_eq_true (not_lt.1 hwrap)
    have hnone : listPrimaryKeys db p (scanPrefix db (getPartitionFieldPrefix p)).length = none :=
      listLoop_of_panic (by simp) ⟨_, hmem, hpanic⟩
    have hlisted := hsome (scanPrefix db (getPartitionFieldPrefix p)).length
    rw [hnone] at hlisted
    cases hlisted
  · intro hwords limit
    cases hlist : listPrimaryKeys db p limit with
    | some pks => rfl
    | none =>
      obtain ⟨⟨k, v⟩, hmem, hpanic⟩ := listLoop_eq_none hlist
      obtain ⟨hget, t, hk⟩ := mem_partitionFields.1 hmem
      obtain ⟨q, w, rest, rfl, hwrap⟩ := marked_of_panics hpanic
      obtain ⟨rfl, -⟩ := makePartitionKey_inj.1 hk
      have hfits := hwords w rest (by rw [hget]; simp)
      omega

/-- **Field-key decoding is exact and total** for exactly the keys whose length word fits, and a partition's primary
keys can be listed exactly if no key stored behind its field marker has a word that wraps. -/
theorem decodeFieldKey_exact_iff (key : Bytes) (db : RocksDB) (p : UInt32) :
    (DecodesExactly key ↔ WordFits key) ∧
    ((∀ limit, (listPrimaryKeys db p limit).isSome) ↔
      ∀ w rest, db.get (markedKey p w rest) ≠ none → 12 + w.toNat < 2 ^ 32) := by
  refine ⟨?_, listPrimaryKeys_isSome_iff⟩
  by_cases hmarked : ∃ p w rest, key = markedKey p w rest
  · obtain ⟨p, w, rest, rfl⟩ := hmarked
    rw [decodesExactly_markedKey, wordFits_markedKey]
  · have hnot : ∀ p w rest, key ≠ markedKey p w rest := fun p w rest hkey => hmarked ⟨p, w, rest, hkey⟩
    exact iff_of_true (decodesExactly_of_unmarked hnot) fun p w rest hkey => absurd hkey (hnot p w rest)

/-- **Bug**: a client puts the key `":f"` with four bytes `ff`; `ListPrimaryKeys` of the partition panics from then on. -/
theorem marker_put_panics :
    (primaryOfSeven.put .working 7 0 [0x3a, 0x66, 0xff, 0xff, 0xff, 0xff] [1]).2.success = true ∧
    decodePanics (makePartitionKey 7 [0x3a, 0x66, 0xff, 0xff, 0xff, 0xff]) = true ∧
    listPrimaryKeys (primaryOfSeven.put .working 7 0 [0x3a, 0x66, 0xff, 0xff, 0xff, 0xff] [1]).1.db 7 10 = none := by
  decide +kernel

end RocksKV.Storage
