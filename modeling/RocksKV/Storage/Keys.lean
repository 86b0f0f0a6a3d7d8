import RocksKV.Lib.Bytes
/-!
# Storage keys (`pkg/storage/partition.go`, `field_storage.go`)

| here | there |
| --- | --- |
| `makePartitionKey`, `parsePartitionKey` | `MakePartitionKey`, `ParsePartitionKey` (`partition.go:56-82`) |
| `getPartitionRange`                     | `GetPartitionRange` (`partition.go:112-122`); the upper bound wraps past the last id |
| `FieldKey.encode`, `decodeFieldKey`     | `FieldKey.Encode`, `DecodeFieldKey` (`field_storage.go:43-80`) |
| `getFieldPrefix`                        | `GetFieldPrefix` (`field_storage.go:89-100`) |

Everything a partition stores lies under `"p:" ++ id`, plain keys directly and document fields behind
the marker `":f"` with a length-prefixed primary key. A plain key that itself starts with `":f"` shares
that space, so field keys are told apart from each other but not from plain keys.

Field names are byte strings here, as they are once they are in a key.
-/

namespace RocksKV.Storage

open Lib

/-- `PartitionKeyPrefix`, the bytes of `"p:"`. -/
def partitionKeyPrefix : Bytes := [0x70, 0x3a]

/-- `FieldKeyMarker`, the byte `'f'`. -/
def fieldKeyMarker : UInt8 := 0x66

def makePartitionKey (partitionID : UInt32) (key : Bytes) : Bytes :=
  partitionKeyPrefix ++ be 4 partitionID.toNat ++ key

def parsePartitionKey (storageKey : Bytes) : Except String (UInt32 × Bytes) :=
  if storageKey.length < 6 then .error "invalid storage key: too short"
  else .ok (UInt32.ofNat (ofBe ((storageKey.drop 2).take 4)), storageKey.drop 6)

/-- `start` and `end` of a partition's keys. -/
def getPartitionRange (partitionID : UInt32) : Bytes × Bytes :=
  (partitionKeyPrefix ++ be 4 partitionID.toNat, partitionKeyPrefix ++ be 4 (partitionID + 1).toNat)

/-- The key lies in the partition's range. -/
def InRange (p : UInt32) (k : Bytes) : Prop := (getPartitionRange p).1 ≤ k ∧ k < (getPartitionRange p).2

instance (p : UInt32) (k : Bytes) : Decidable (InRange p k) :=
  inferInstanceAs (Decidable (_ ∧ _))

structure FieldKey where
  partitionID : UInt32
  primaryKey  : Bytes
  fieldName   : Bytes
  deriving DecidableEq, Repr

/-- What follows the partition prefix in the keys of a document's fields: `":f" ++ pk_len ++ pk`. -/
def documentPrefix (pk : Bytes) : Bytes := [0x3a, fieldKeyMarker] ++ be 4 pk.length ++ pk

/-- `GetFieldPrefix`. -/
def getFieldPrefix (partitionID : UInt32) (pk : Bytes) : Bytes := makePartitionKey partitionID (documentPrefix pk)

def FieldKey.encode (fk : FieldKey) : Bytes := getFieldPrefix fk.partitionID fk.primaryKey ++ fk.fieldName

/-- `MakeFieldKey`. -/
def makeFieldKey (partitionID : UInt32) (pk fieldName : Bytes) : Bytes :=
  FieldKey.encode { partitionID := partitionID, primaryKey := pk, fieldName := fieldName }

/-- `DecodeFieldKey`. `12 + pkLen` is computed in 32 bits; when it wraps below 12 the slice
`key[12 : 12+pkLen]` panics. -/
def decodeFieldKey (key : Bytes) : Except String FieldKey :=
  if key.length < 12 then .error "invalid field key: too short"
  else if key.take 2 ≠ partitionKeyPrefix ∨ (key.drop 6).take 2 ≠ [0x3a, fieldKeyMarker] then
    .error "invalid field key: wrong format"
  else
    let partitionID := UInt32.ofNat (ofBe ((key.drop 2).take 4))
    let pkLen := UInt32.ofNat (ofBe ((key.drop 8).take 4))
    let stop := (12 + pkLen).toNat
    if key.length < stop then .error "invalid field key: pk length mismatch"
    else if stop < 12 then .error "slice bounds out of range"
    else .ok { partitionID := partitionID, primaryKey := (key.drop 12).take (stop - 12), fieldName := key.drop stop }

/-! ## Plain keys -/

theorem toNat_lt_word (p : UInt32) : p.toNat < 256 ^ 4 := p.toNat_lt

@[simp] theorem length_makePartitionKey (p : UInt32) (k : Bytes) : (makePartitionKey p k).length = k.length + 6 := by
  simp [makePartitionKey, partitionKeyPrefix]; omega

theorem makePartitionKey_append (p : UInt32) (a b : Bytes) :
    makePartitionKey p (a ++ b) = makePartitionKey p a ++ b := by simp [makePartitionKey]

/-- **Partition keys are injective** in the partition and in the key. -/
theorem makePartitionKey_inj {p q : UInt32} {k l : Bytes} :
    makePartitionKey p k = makePartitionKey q l ↔ p = q ∧ k = l := by
  refine ⟨fun h => ?_, fun ⟨hp, hk⟩ => by rw [hp, hk]⟩
  simp only [makePartitionKey, List.append_assoc] at h
  have h1 := List.append_cancel_left h
  obtain ⟨h2, h3⟩ := List.append_inj h1 (by simp)
  exact ⟨UInt32.toNat_inj.1 (be_inj (toNat_lt_word p) (toNat_lt_word q) h2), h3⟩

/-- **Parsing undoes making.** -/
theorem parsePartitionKey_makePartitionKey (p : UInt32) (k : Bytes) :
    parsePartitionKey (makePartitionKey p k) = .ok (p, k) := by
  have hl : ¬ (makePartitionKey p k).length < 6 := by simp
  have h2 : (makePartitionKey p k).drop 2 = be 4 p.toNat ++ k := by simp [makePartitionKey, partitionKeyPrefix]
  have h6 : (makePartitionKey p k).drop 6 = k := by
    have e : (makePartitionKey p k).drop 6 = ((makePartitionKey p k).drop 2).drop 4 := by rw [List.drop_drop]
    rw [e, h2, List.drop_left' (length_be 4 _)]
  rw [parsePartitionKey, if_neg hl, h6, h2, List.take_left' (length_be 4 _), ofBe_be,
    Nat.mod_eq_of_lt (toNat_lt_word p), UInt32.ofNat_toNat]

theorem toNat_succ {p : UInt32} (hp : p.toNat < 2 ^ 32 - 1) : (p + 1).toNat = p.toNat + 1 := by
  rw [UInt32.toNat_add]; simp; omega

/-- Keys are ordered by their partition first. -/
theorem partitionPrefix_lt {a b : Nat} (hb : b < 2 ^ 32) (h : a < b) (s t : Bytes) :
    partitionKeyPrefix ++ be 4 a ++ s < partitionKeyPrefix ++ be 4 b ++ t := by
  have hlt := lt_append_of_lt (by simp) (be_lt_be (w := 4) (by norm_num; exact hb) h) s t
  simpa [partitionKeyPrefix, List.cons_lt_cons_iff] using hlt

/-- **A partition's keys lie in its range**, except for the last id, whose upper bound wraps. -/
theorem inRange_makePartitionKey {p : UInt32} (hp : p.toNat < 2 ^ 32 - 1) (k : Bytes) :
    InRange p (makePartitionKey p k) := by
  refine ⟨le_append _ _, ?_⟩
  have hlt := partitionPrefix_lt (a := p.toNat) (b := p.toNat + 1) (by omega) (Nat.lt_succ_self _) k []
  rwa [List.append_nil, ← toNat_succ hp] at hlt

/-- **No other partition's keys do.** -/
theorem eq_of_inRange {p q : UInt32} {k : Bytes} (h : InRange p (makePartitionKey q k)) : q = p := by
  obtain ⟨hle, hlt⟩ := h
  rcases Nat.lt_trichotomy q.toNat p.toNat with hqp | hqp | hqp
  · have habove := partitionPrefix_lt p.toNat_lt hqp k []
    rw [List.append_nil] at habove
    exact absurd hle (not_le.2 habove)
  · exact UInt32.toNat_inj.1 hqp
  · have hq := q.toNat_lt
    have hsucc : (p + 1).toNat = p.toNat + 1 := toNat_succ (by omega)
    have hbelow : (getPartitionRange p).2 ≤ makePartitionKey q k := by
      rw [getPartitionRange, hsucc]
      rcases Nat.lt_or_eq_of_le (Nat.succ_le_of_lt hqp) with hlt' | heq
      · have habove := partitionPrefix_lt hq hlt' [] k
        rw [List.append_nil] at habove
        exact habove.le
      · rw [show p.toNat + 1 = q.toNat from heq]
        exact le_append _ _
    exact absurd hlt (not_lt.2 hbelow)

/-! ## Field keys -/

theorem makeFieldKey_eq (p : UInt32) (pk name : Bytes) :
    makeFieldKey p pk name = makePartitionKey p (documentPrefix pk ++ name) := by
  rw [makePartitionKey_append]; rfl

/-- **Field keys are injective** for primary keys whose length fits its four bytes. -/
theorem makeFieldKey_inj {p q : UInt32} {pk pk' n n' : Bytes} (h1 : pk.length < 2 ^ 32) (h2 : pk'.length < 2 ^ 32) :
    makeFieldKey p pk n = makeFieldKey q pk' n' ↔ p = q ∧ pk = pk' ∧ n = n' := by
  refine ⟨fun h => ?_, fun ⟨hp, hk, hn⟩ => by rw [hp, hk, hn]⟩
  rw [makeFieldKey_eq, makeFieldKey_eq, makePartitionKey_inj] at h
  obtain ⟨rfl, h⟩ := h
  simp only [documentPrefix, List.append_assoc] at h
  obtain ⟨h3, h4⟩ := List.append_inj (List.append_cancel_left h) (by simp)
  have hl : pk.length = pk'.length := be_inj (by norm_num; exact h1) (by norm_num; exact h2) h3
  obtain ⟨h5, h6⟩ := List.append_inj h4 hl
  exact ⟨rfl, h5, h6⟩

end RocksKV.Storage
