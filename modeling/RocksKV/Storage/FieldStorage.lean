import RocksKV.Storage.Server
/-!
# Reading a partition (`pkg/storage/field_storage.go:292-355`, `server.go:309-351`, `:484-523`, `:684-720`)

| here | there |
| --- | --- |
| `getField`, `getAllFields` | `FieldStorage.GetField` (`:292-295`), `GetAllFields` (`:310-355`) |
| `Server.get`, `Server.getField`, `Server.getAllFields` | the read handlers: the partition must be on the node |

A document's fields are the keys under its prefix, in one run of the iterator; so what the three reads return
depends on the keys of the partition only (`getAllFields_congr`).
-/

namespace RocksKV.Storage

open Lib

def getField (db : RocksDB) (p : UInt32) (pk name : Bytes) : Option Bytes := db.get (makeFieldKey p pk name)

/-- One key of the scan: malformed keys, and keys of another document, are skipped. -/
def addField (p : UInt32) (pk : Bytes) (found : OrdMap Bytes Bytes) (e : Bytes × Bytes) : OrdMap Bytes Bytes :=
  match decodeFieldKey e.1 with
  | .error _ => found
  | .ok fk => if fk.partitionID ≠ p ∨ fk.primaryKey ≠ pk then found else found.insert fk.fieldName e.2

/-- The keys the iterator passes: from the prefix on, while they have it. -/
def scanPrefix (db : RocksDB) (pre : Bytes) : List (Bytes × Bytes) :=
  (db.seek pre).takeWhile fun e => pre.isPrefixOf e.1

/-- A panic of the decoding is left out here: it stands for the code where there is none, as for every primary key of
less than `2^32 - 12` bytes (`getAllFieldsOrPanic_of_short`, in `RocksKV.Storage.Documents`). -/
def getAllFields (db : RocksDB) (p : UInt32) (pk : Bytes) : OrdMap Bytes Bytes :=
  (scanPrefix db (getFieldPrefix p pk)).foldl (addField p pk) OrdMap.empty

namespace Server

def get (s : Server) (p : UInt32) (key : Bytes) : Except Pb.ErrorCode (Option Bytes) :=
  if !s.pm.hasPartition p then .error .partitionNotFound
  else match s.pm.get key p with
    | .error _ => .error .internalError
    | .ok value => .ok value

def getField (s : Server) (p : UInt32) (pk name : Bytes) : Except Pb.ErrorCode (Option Bytes) :=
  if !s.pm.hasPartition p then .error .partitionNotFound else .ok (Storage.getField s.db p pk name)

/-- As `Storage.getAllFields`, for primary keys of less than `2^32 - 12` bytes. -/
def getAllFields (s : Server) (p : UInt32) (pk : Bytes) : Except Pb.ErrorCode (OrdMap Bytes Bytes) :=
  if !s.pm.hasPartition p then .error .partitionNotFound else .ok (Storage.getAllFields s.db p pk)

theorem get_of_hosted {s : Server} {p : UInt32} (h : s.pm.hasPartition p = true) (k : Bytes) :
    s.get p k = .ok (s.db.get (makePartitionKey p k)) := by
  simp only [get, PartitionManager.get, h, Bool.not_true, Bool.false_eq_true, if_false, if_true]
  rfl

end Server

/-! ## Scans -/

/-- Past the keys with a prefix there are no more. -/
theorem isPrefixOf_of_lt {pre : Bytes} : ∀ {a b : Bytes}, pre ≤ a → a < b → pre.isPrefixOf a = false →
    pre.isPrefixOf b = false := by
  induction pre with
  | nil =>
    intro a b _ _ h
    simp at h
  | cons x pre ih =>
    intro a b hle hlt h
    cases a with
    | nil => exact absurd hle (by simp)
    | cons y a =>
      cases b with
      | nil => rfl
      | cons z b =>
        rw [← not_lt, List.cons_lt_cons_iff, not_or, not_lt] at hle
        rw [List.isPrefixOf_cons_cons] at h ⊢
        by_cases hxz : x = z
        · subst hxz
          rcases List.cons_lt_cons_iff.1 hlt with hyx | ⟨rfl, hab⟩
          · exact absurd hyx (not_lt.2 hle.1)
          · have hpa : pre ≤ a := not_lt.1 fun h' => hle.2 ⟨rfl, h'⟩
            simp only [beq_self_eq_true, Bool.true_and] at h ⊢
            exact ih hpa hab h
        · simp [hxz]

/-- **The scan finds every key with the prefix.** -/
theorem scanPrefix_eq (db : RocksDB) (pre : Bytes) :
    scanPrefix db pre = db.entries.filter fun e => pre.isPrefixOf e.1 := by
  have hge : ∀ e ∈ db.seek pre, pre ≤ e.1 := by
    intro e he
    rw [OrdMap.seek_eq_filter] at he
    simpa using (List.mem_filter.1 he).2
  rw [scanPrefix, OrdMap.takeWhile_eq_filter (db.sorted_seek pre) fun a ha b _ => isPrefixOf_of_lt (hge a ha),
    OrdMap.seek_eq_filter, List.filter_filter]
  refine List.filter_congr fun e _ => ?_
  by_cases hpre : pre.isPrefixOf e.1 = true
  · obtain ⟨t, ht⟩ := List.isPrefixOf_iff_prefix.1 hpre
    simp [← ht, le_append pre t]
  · simp [hpre]

theorem scanPrefix_congr {db db' : RocksDB} {pre : Bytes} (h : ∀ t, db.get (pre ++ t) = db'.get (pre ++ t)) :
    scanPrefix db pre = scanPrefix db' pre := by
  rw [scanPrefix_eq, scanPrefix_eq]
  refine OrdMap.eq_of_mem_iff (db.sorted.filter _) (db'.sorted.filter _) fun e => ?_
  simp only [List.mem_filter]
  refine and_congr_left fun hpre => ?_
  obtain ⟨t, ht⟩ := List.isPrefixOf_iff_prefix.1 hpre
  rw [show e = (pre ++ t, e.2) by rw [ht], OrdMap.mem_entries, OrdMap.mem_entries, h t]

/-- **The fields of a document are read from the keys of its partition.** -/
theorem getAllFields_congr {db db' : RocksDB} {p : UInt32}
    (h : ∀ k, db.get (makePartitionKey p k) = db'.get (makePartitionKey p k)) (pk : Bytes) :
    getAllFields db p pk = getAllFields db' p pk := by
  have hpre : ∀ t, db.get (getFieldPrefix p pk ++ t) = db'.get (getFieldPrefix p pk ++ t) := by
    intro t
    rw [getFieldPrefix, ← makePartitionKey_append]
    exact h _
  rw [getAllFields, getAllFields, scanPrefix_congr hpre]

end RocksKV.Storage
