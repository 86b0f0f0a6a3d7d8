import RocksKV.Storage.Keys
/-!
# Field batches in the command log (`pkg/storage/field_storage.go:112-278`)

| here | there |
| --- | --- |
| `FieldBatch.encode`        | `FieldBatch.Encode` (`:136-168`) |
| `decodeFieldBatch`         | `DecodeFieldBatch` (`:172-193`): version 1, or the legacy layout without a version byte |
| `decodeFieldBatchContent`  | `decodeFieldBatchContent` (`:214-278`) |

A field name's length is written in two bytes, so a name of 65536 bytes or more does not survive the
log; every batch whose lengths fit their words does (`decodeFieldBatch_encode`).

`binary.Read` and `ReadByte` fail on a short input, with `unexpected EOF` if a part of the word is there;
`bytes.Reader.Read` fails on an empty one only (`Decoder.upTo`).
-/

namespace RocksKV.Storage

open Lib

structure FieldUpdate where
  fieldName : Bytes
  value     : Bytes
  isDelete  : Bool
  deriving DecidableEq, Repr

structure FieldBatch where
  partitionID : UInt32
  primaryKey  : Bytes
  updates     : List FieldUpdate
  deriving DecidableEq, Repr

/-- `FieldBatchFormatVersion`. -/
def fieldBatchFormatVersion : UInt8 := 1

def FieldUpdate.encode (u : FieldUpdate) : Bytes :=
  be 2 u.fieldName.length ++ u.fieldName ++ [if u.isDelete then 1 else 0] ++ be 4 u.value.length ++ u.value

/-- Everything after the version byte. -/
def FieldBatch.content (fb : FieldBatch) : Bytes :=
  be 4 fb.partitionID.toNat ++ be 4 fb.primaryKey.length ++ fb.primaryKey ++ be 4 fb.updates.length ++
    fb.updates.flatMap FieldUpdate.encode

def FieldBatch.encode (fb : FieldBatch) : Bytes := fieldBatchFormatVersion :: fb.content

/-- One round of the update loop. -/
def readUpdate : Decoder FieldUpdate := do
  let fieldLen ← Decoder.word 2
  let fieldBytes ← Decoder.upTo fieldLen
  let isDeleteByte ← Decoder.word 1
  let valueLen ← Decoder.word 4
  let value ← if 0 < valueLen then Decoder.upTo valueLen else pure []
  return { fieldName := fieldBytes, value := value, isDelete := decide (isDeleteByte = 1) }

def readUpdates : Nat → Decoder (List FieldUpdate)
  | 0 => pure []
  | count + 1 => do
    let update ← readUpdate
    let rest ← readUpdates count
    return update :: rest

def decodeFieldBatchContent : Decoder FieldBatch := do
  let partitionID ← Decoder.word 4
  let pkLen ← Decoder.word 4
  let pk ← Decoder.upTo pkLen
  let count ← Decoder.word 4
  let updates ← readUpdates count
  return { partitionID := UInt32.ofNat partitionID, primaryKey := pk, updates := updates }

/-- Run a decoder over the whole input; what it leaves unread is ignored. -/
def decodeWith (r : Decoder FieldBatch) (data : Bytes) : Except String FieldBatch :=
  match r data with
  | .error e => .error e.text
  | .ok (fb, _) => .ok fb

def decodeFieldBatchV1 (data : Bytes) : Except String FieldBatch :=
  if data.length < 12 then .error "field batch v1 data too short" else decodeWith decodeFieldBatchContent data

def decodeFieldBatchLegacy (data : Bytes) : Except String FieldBatch := decodeWith decodeFieldBatchContent data

def decodeFieldBatch : Bytes → Except String FieldBatch
  | [] => .error "field batch data too short"
  | version :: data =>
    if version = fieldBatchFormatVersion then decodeFieldBatchV1 data
    else if 12 ≤ (version :: data).length then decodeFieldBatchLegacy (version :: data)
    else .error s!"unsupported field batch version: {version}"

/-! ## Round trip -/

/-- The lengths fit the words they are written in. -/
def FieldUpdate.Fits (u : FieldUpdate) : Prop := u.fieldName.length < 2 ^ 16 ∧ u.value.length < 2 ^ 32

def FieldBatch.Fits (fb : FieldBatch) : Prop :=
  fb.primaryKey.length < 2 ^ 32 ∧ fb.updates.length < 2 ^ 32 ∧ ∀ u ∈ fb.updates, u.Fits

instance (u : FieldUpdate) : Decidable u.Fits := inferInstanceAs (Decidable (_ ∧ _))

instance (fb : FieldBatch) : Decidable fb.Fits := inferInstanceAs (Decidable (_ ∧ _ ∧ _))

theorem FieldUpdate.Fits.nameLen {u : FieldUpdate} (h : u.Fits) :
    u.fieldName.length % 256 ^ 2 = u.fieldName.length :=
  Nat.mod_eq_of_lt (by norm_num; exact h.1)

theorem FieldUpdate.Fits.valueLen {u : FieldUpdate} (h : u.Fits) : u.value.length % 256 ^ 4 = u.value.length :=
  Nat.mod_eq_of_lt (by norm_num; exact h.2)

/-- The flag is a word of one byte. -/
theorem FieldUpdate.encode_eq (u : FieldUpdate) : u.encode = be 2 u.fieldName.length ++ (u.fieldName ++
    (be 1 (if u.isDelete then 1 else 0) ++ (be 4 u.value.length ++ u.value))) := by
  have hflag : [if u.isDelete then (1 : UInt8) else 0] = be 1 (if u.isDelete then 1 else 0) := by
    cases u.isDelete <;> rfl
  simp only [FieldUpdate.encode, List.append_assoc, hflag]

theorem FieldUpdate.decode_flag (u : FieldUpdate) :
    decide ((if u.isDelete then 1 else 0) % 256 ^ 1 = 1) = u.isDelete := by
  cases u.isDelete <;> rfl

theorem readUpdate_encode {u : FieldUpdate} (h : u.Fits) (r : Bytes) : readUpdate (u.encode ++ r) = .ok (u, r) := by
  simp only [u.encode_eq, List.append_assoc, readUpdate]
  rw [Decoder.bind_of_ok (Decoder.word_be _ _ _), h.nameLen,
    Decoder.bind_of_ok (Decoder.upTo_append rfl (by simp [be])), Decoder.bind_of_ok (Decoder.word_be _ _ _),
    Decoder.bind_of_ok (Decoder.word_be _ _ _), h.valueLen, u.decode_flag]
  by_cases hz : 0 < u.value.length
  · have hne : u.value ++ r ≠ [] := List.append_ne_nil_of_left_ne_nil (List.ne_nil_of_length_pos hz) r
    rw [if_pos hz, Decoder.bind_of_ok (Decoder.upTo_append rfl hne)]
    rfl
  · have hnil : u.value = [] := List.length_eq_zero_iff.1 (by omega)
    rw [if_neg hz, hnil]
    change Except.ok (({ fieldName := u.fieldName, value := [], isDelete := u.isDelete } : FieldUpdate), r) = .ok (u, r)
    rw [← hnil]

theorem readUpdates_encode : ∀ {us : List FieldUpdate}, (∀ u ∈ us, u.Fits) → ∀ r : Bytes,
    readUpdates us.length (us.flatMap FieldUpdate.encode ++ r) = .ok (us, r)
  | [], _, r => rfl
  | u :: us, h, r => by
    have hu : u.Fits := h u (by simp)
    have hus : ∀ u ∈ us, u.Fits := fun x hx => h x (by simp [hx])
    rw [List.flatMap_cons, List.length_cons, List.append_assoc, readUpdates,
      Decoder.bind_of_ok (readUpdate_encode hu _), Decoder.bind_of_ok (readUpdates_encode hus r)]
    rfl

/-- Decoding after the primary key and the count. -/
theorem decodeFieldBatch_eq {fb : FieldBatch} (hpk : fb.primaryKey.length < 2 ^ 32) (hcount : fb.updates.length < 2 ^ 32) :
    decodeFieldBatch fb.encode = match readUpdates fb.updates.length (fb.updates.flatMap FieldUpdate.encode) with
      | .error e => .error e.text
      | .ok (updates, _) => .ok { fb with updates := updates } := by
  have hp : fb.partitionID.toNat % 256 ^ 4 = fb.partitionID.toNat := Nat.mod_eq_of_lt (toNat_lt_word _)
  have hk : fb.primaryKey.length % 256 ^ 4 = fb.primaryKey.length := Nat.mod_eq_of_lt (by norm_num; exact hpk)
  have hc : fb.updates.length % 256 ^ 4 = fb.updates.length := Nat.mod_eq_of_lt (by norm_num; exact hcount)
  have hlen : ¬ fb.content.length < 12 := by simp [FieldBatch.content]; omega
  have hread : decodeFieldBatchContent fb.content = (do
      let updates ← readUpdates fb.updates.length
      return { fb with updates := updates } : Decoder FieldBatch) (fb.updates.flatMap FieldUpdate.encode) := by
    simp only [FieldBatch.content, List.append_assoc, decodeFieldBatchContent]
    rw [Decoder.bind_of_ok (Decoder.word_be _ _ _), hp, Decoder.bind_of_ok (Decoder.word_be _ _ _), hk,
      Decoder.bind_of_ok (Decoder.upTo_append rfl (by simp [be])), Decoder.bind_of_ok (Decoder.word_be _ _ _), hc,
      UInt32.ofNat_toNat]
  rw [FieldBatch.encode, decodeFieldBatch, if_pos rfl, decodeFieldBatchV1, if_neg hlen, decodeWith, hread]
  cases hupdates : readUpdates fb.updates.length (fb.updates.flatMap FieldUpdate.encode) with
  | error e => rw [Decoder.bind_of_error hupdates]
  | ok q =>
    rw [Decoder.bind_of_ok hupdates]
    rfl

/-- **Round trip**: a batch whose lengths fit their words is read back from the log as it was written. -/
theorem decodeFieldBatch_encode {fb : FieldBatch} (h : fb.Fits) : decodeFieldBatch fb.encode = .ok fb := by
  obtain ⟨hpk, hcount, hus⟩ := h
  have hread := readUpdates_encode hus []
  rw [List.append_nil] at hread
  rw [decodeFieldBatch_eq hpk hcount, hread]

end RocksKV.Storage
