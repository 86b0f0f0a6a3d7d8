import RocksKV.Storage.FieldStorage
import RocksKV.Storage.Handlers
/-!
# Plain keys and document fields (`pkg/storage/partition.go:57-109`, `field_storage.go:37-56`)

| here | there |
| --- | --- |
| `FieldShaped` | the user keys that `Put` stores where `FieldKey.Encode` (`:43-56`) stores a field |
| `WriteOp.userKeys` | the keys a `Put`, `Delete` or `BatchPut` request names |

Both kinds of key follow the partition's prefix directly. The field marker `":f"` is there "to distinguish from
regular keys" (`field_storage.go:41`), but nothing keeps a user key from starting with it.
-/

namespace RocksKV.Storage

open Lib

/-- The key starts with `":f"` and a length that the rest of it has room for. -/
def FieldShaped (key : Bytes) : Prop :=
  6 ≤ key.length ∧ key.take 2 = [0x3a, fieldKeyMarker] ∧ ofBe ((key.drop 2).take 4) ≤ key.length - 6

instance (key : Bytes) : Decidable (FieldShaped key) := inferInstanceAs (Decidable (_ ∧ _ ∧ _))

/-- The user keys of a plain request. -/
def WriteOp.userKeys : WriteOp → List Bytes
  | .put key _ | .delete key => [key]
  | .batchPut items => items.map (·.key)
  | .setFields _ _ | .deleteField _ _ => []

/-- `Put`, `Delete` and `BatchPut`; the others are `SetFields` and `DeleteField`. -/
def WriteOp.plain : WriteOp → Bool
  | .put _ _ | .delete _ | .batchPut _ => true
  | .setFields _ _ | .deleteField _ _ => false

/-! ## Keys -/

theorem fieldShaped_documentPrefix (pk name : Bytes) : FieldShaped (documentPrefix pk ++ name) := by
  have hdrop : (documentPrefix pk ++ name).drop 2 = be 4 pk.length ++ (pk ++ name) := by simp [documentPrefix]
  have hlen : (documentPrefix pk ++ name).length = pk.length + name.length + 6 := by
    simp [documentPrefix]
    omega
  refine ⟨by omega, by simp [documentPrefix], ?_⟩
  rw [hdrop, List.take_left' (length_be 4 _), ofBe_be, hlen]
  have := Nat.mod_le pk.length (256 ^ 4)
  omega

/-- **The shape is that of a field key**: the bytes of the length, that many bytes, and the rest. -/
theorem fieldShaped_iff {key : Bytes} : FieldShaped key ↔ ∃ pk name, key = documentPrefix pk ++ name := by
  refine ⟨fun ⟨h6, hmark, hlen⟩ => ?_, fun ⟨pk, name, h⟩ => h ▸ fieldShaped_documentPrefix pk name⟩
  let n := ofBe ((key.drop 2).take 4)
  refine ⟨(key.drop 6).take n, (key.drop 6).drop n, ?_⟩
  have hpk : ((key.drop 6).take n).length = n := by
    rw [List.length_take, List.length_drop]
    omega
  have hword : be 4 n = (key.drop 2).take 4 := be_ofBe (by rw [List.length_take, List.length_drop]; omega)
  rw [documentPrefix, hpk, hword, List.append_assoc, List.take_append_drop, ← hmark, List.append_assoc]
  have h26 : key.drop 6 = (key.drop 2).drop 4 := by rw [List.drop_drop]
  rw [h26, List.take_append_drop, List.take_append_drop]

/-- **A plain key collides** with some field of its partition exactly if it has the shape of one. -/
theorem collides_iff {p : UInt32} {key : Bytes} :
    (∃ pk name, makePartitionKey p key = makeFieldKey p pk name) ↔ FieldShaped key := by
  simp only [fieldShaped_iff, makeFieldKey_eq, makePartitionKey_inj, true_and]

theorem makePartitionKey_ne_makeFieldKey {key : Bytes} (h : ¬ FieldShaped key) (p q : UInt32) (pk name : Bytes) :
    makePartitionKey p key ≠ makeFieldKey q pk name := by
  intro heq
  rw [makeFieldKey_eq, makePartitionKey_inj] at heq
  exact h (fieldShaped_iff.2 ⟨pk, name, heq.2⟩)

/-! ## Requests -/

theorem WriteOp.key_plain {op : WriteOp} (h : op.plain = true) (p : UInt32) :
    ∀ w ∈ op.writes p, ∃ key ∈ op.userKeys, w.key = makePartitionKey p key := by
  cases op with
  | put key value => simp [writes, userKeys, Write.key]
  | delete key => simp [writes, userKeys, Write.key]
  | batchPut items =>
    intro w hw
    obtain ⟨item, hitem, rfl⟩ := List.mem_map.1 hw
    exact ⟨item.key, List.mem_map_of_mem hitem, rfl⟩
  | setFields pk fields => cases h
  | deleteField pk name => cases h

theorem key_fieldWrites {p : UInt32} {fb : FieldBatch} :
    ∀ w ∈ fieldWrites p fb, ∃ name, w.key = makeFieldKey p fb.primaryKey name := by
  intro w hw
  obtain ⟨update, -, rfl⟩ := List.mem_map.1 hw
  refine ⟨update.fieldName, ?_⟩
  dsimp only
  split_ifs <;> rfl

theorem WriteOp.key_field {op : WriteOp} (h : op.plain = false) (p : UInt32) :
    ∀ w ∈ op.writes p, ∃ pk name, w.key = makeFieldKey p pk name := by
  cases op with
  | setFields pk fields =>
    intro w hw
    have hbatch : w ∈ fieldWrites p (setBatch p pk fields) := hw
    obtain ⟨name, hname⟩ := key_fieldWrites w hbatch
    exact ⟨pk, name, hname⟩
  | deleteField pk name => simp [writes, Write.key]
  | put key value => cases h
  | delete key => cases h
  | batchPut items => cases h

namespace Server

theorem serveAll_acknowledged : ∀ (reqs : List (Disk × WriteRequest)) (s : Server),
    ∀ req ∈ (s.serveAll reqs).2, req ∈ reqs.map (·.2)
  | [], _, _, h => by cases h
  | (disk, req) :: reqs, s, r, h => by
    rw [List.map_cons]
    simp only [serveAll] at h
    split_ifs at h
    · rcases List.mem_cons.1 h with rfl | h
      · exact List.mem_cons_self
      · exact List.mem_cons_of_mem _ (serveAll_acknowledged reqs _ r h)
    · exact List.mem_cons_of_mem _ (serveAll_acknowledged reqs _ r h)

/-- A run of requests leaves every storage key that none of them writes to. -/
theorem get_serveAll {reqs : List (Disk × WriteRequest)} {k : Bytes} (s : Server)
    (h : ∀ req ∈ reqs.map (·.2), ∀ w ∈ req.op.writes req.partitionId, k ≠ w.key) :
    (s.serveAll reqs).1.db.get k = s.db.get k := by
  rw [db, serveAll_pm]
  have hnone : lastWrite k ((s.serveAll reqs).2.flatMap fun req => req.op.writes req.partitionId) = none := by
    refine lastWrite_eq_none.2 fun w hw => ?_
    obtain ⟨req, hreq, hw⟩ := List.mem_flatMap.1 hw
    exact h req (serveAll_acknowledged reqs s req hreq) w hw
  rw [get_write, hnone]
  rfl

theorem hasPartition_serveAll (reqs : List (Disk × WriteRequest)) (s : Server) (p : UInt32) :
    (s.serveAll reqs).1.pm.hasPartition p = s.pm.hasPartition p := by rw [serveAll_pm]; rfl

/-- **Plain requests and fields**: requests on plain keys that do not look like fields leave every field. -/
theorem fields_serveAll {reqs : List (Disk × WriteRequest)} (s : Server)
    (h : ∀ req ∈ reqs.map (·.2), req.op.plain = true ∧ ∀ key ∈ req.op.userKeys, ¬ FieldShaped key)
    (p : UInt32) (pk : Bytes) :
    (∀ name, (s.serveAll reqs).1.getField p pk name = s.getField p pk name) ∧
      (s.serveAll reqs).1.getAllFields p pk = s.getAllFields p pk := by
  have hget : ∀ name, (s.serveAll reqs).1.db.get (makeFieldKey p pk name) = s.db.get (makeFieldKey p pk name) := by
    refine fun name => s.get_serveAll fun req hreq w hw heq => ?_
    obtain ⟨hplain, hkeys⟩ := h req hreq
    obtain ⟨key, hkey, hw⟩ := WriteOp.key_plain hplain req.partitionId w hw
    have hclash : makePartitionKey req.partitionId key = makeFieldKey p pk name := (heq.trans hw).symm
    exact makePartitionKey_ne_makeFieldKey (hkeys key hkey) _ _ _ _ hclash
  refine ⟨fun name => ?_, ?_⟩
  · rw [getField, getField, hasPartition_serveAll, Storage.getField, Storage.getField, hget]
  · rw [getAllFields, getAllFields, hasPartition_serveAll, Storage.getAllFields, Storage.getAllFields,
      scanPrefix_congr fun t => hget t]

/-- **Field requests and plain keys**: they leave every plain key that does not look like a field. -/
theorem get_serveAll_fields {reqs : List (Disk × WriteRequest)} (s : Server)
    (h : ∀ req ∈ reqs.map (·.2), req.op.plain = false) {key : Bytes} (hkey : ¬ FieldShaped key) (p : UInt32) :
    (s.serveAll reqs).1.get p key = s.get p key := by
  have hget : (s.serveAll reqs).1.db.get (makePartitionKey p key) = s.db.get (makePartitionKey p key) := by
    refine s.get_serveAll fun req hreq w hw heq => ?_
    obtain ⟨pk, name, hw⟩ := WriteOp.key_field (h req hreq) req.partitionId w hw
    have hclash : makePartitionKey p key = makeFieldKey req.partitionId pk name := heq.trans hw
    exact makePartitionKey_ne_makeFieldKey hkey _ _ _ _ hclash
  by_cases hp : s.pm.hasPartition p = true
  · rw [get_of_hosted (by rw [hasPartition_serveAll, hp]), get_of_hosted hp, hget]
  · rw [Bool.not_eq_true] at hp
    simp only [get, hasPartition_serveAll, hp, Bool.not_false, if_true]

/-- **Separation, exactly**: plain keys and fields keep apart for a set of user keys if and only if none of these
keys starts with the field marker and a length it has room for. -/
theorem plain_apart_from_fields_iff (keys : Set Bytes) :
    ((∀ p, ∀ key ∈ keys, ∀ pk name, makePartitionKey p key ≠ makeFieldKey p pk name) ∧
      (∀ (s : Server) (reqs : List (Disk × WriteRequest)),
        (∀ req ∈ reqs.map (·.2), req.op.plain = true ∧ ∀ key ∈ req.op.userKeys, key ∈ keys) → ∀ p pk,
          (∀ name, (s.serveAll reqs).1.getField p pk name = s.getField p pk name) ∧
            (s.serveAll reqs).1.getAllFields p pk = s.getAllFields p pk) ∧
      (∀ (s : Server) (reqs : List (Disk × WriteRequest)), (∀ req ∈ reqs.map (·.2), req.op.plain = false) →
        ∀ p, ∀ key ∈ keys, (s.serveAll reqs).1.get p key = s.get p key)) ↔
    ∀ key ∈ keys, ¬ FieldShaped key := by
  constructor
  · rintro ⟨hne, -, -⟩ key hkey hshape
    obtain ⟨pk, name, heq⟩ := (@collides_iff 0 key).2 hshape
    exact hne 0 key hkey pk name heq
  · intro h
    refine ⟨fun p key hkey pk name => makePartitionKey_ne_makeFieldKey (h key hkey) p p pk name, ?_, ?_⟩
    · intro s reqs hreqs p pk
      exact s.fields_serveAll (fun req hreq => ⟨(hreqs req hreq).1, fun key hkey => h key ((hreqs req hreq).2 key hkey)⟩)
        p pk
    · intro s reqs hreqs p key hkey
      exact s.get_serveAll_fields hreqs (h key hkey) p

/-- **Bug**: the user key `":f" 0 0 0 1 "a" "n"` is stored where field `n` of document `a` is. A `Put` of it makes
the field, and a `DeleteField` of the field deletes the key. -/
theorem plain_key_is_a_field :
    makePartitionKey 7 [0x3a, 0x66, 0, 0, 0, 1, 0x61, 0x6e] = makeFieldKey 7 [0x61] [0x6e] ∧
    primaryOfSeven.getField 7 [0x61] [0x6e] = .ok none ∧
    (primaryOfSeven.serveAll [(.working, ⟨7, 0, .put [0x3a, 0x66, 0, 0, 0, 1, 0x61, 0x6e] [9]⟩)]).1.getField 7
      [0x61] [0x6e] = .ok (some [9]) ∧
    ((primaryOfSeven.serveAll [(.working, ⟨7, 0, .put [0x3a, 0x66, 0, 0, 0, 1, 0x61, 0x6e] [9]⟩)]).1.serveAll
      [(.working, ⟨7, 0, .deleteField [0x61] [0x6e]⟩)]).1.get 7 [0x3a, 0x66, 0, 0, 0, 1, 0x61, 0x6e] = .ok none := by
  decide

end Server

end RocksKV.Storage
