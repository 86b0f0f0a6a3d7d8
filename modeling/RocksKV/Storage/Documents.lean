import RocksKV.Storage.FieldStorage
import RocksKV.Storage.Separation
/-!
# The document store (`pkg/storage/field_storage.go:59-113`, `:292-421`, `:475-509`)

| here | there |
| --- | --- |
| `setField`, `setFields`, `deleteAllFields` | `SetField`, `SetFields` (`:298-301`, `:358-370`), `DeleteAllFields` (`:394-421`) |
| `decodePanics`        | the slice `key[12 : 12+pkLen]` of `DecodeFieldKey` (`:75-77`), whose bound is a `uint32` |
| `getAllFieldsOrPanic` | `GetAllFields` (`:310-355`); `none` is a panic |
| `listPrimaryKeys`     | `ListPrimaryKeys` (`:475-509`); `none` is a panic |
| `Docs`                | what the store is for: fields of documents of partitions |

`docsOf` reads a database as documents, and every operation does to it what it does to the documents
(`docsOf_apply`): field keys are injective, a document's keys are exactly those with its prefix, and nothing else
is under that prefix. `DecodeFieldKey` compares the key's length with `12 + pkLen` computed in 32 bits, and slices
with it: a primary key of `2^32 - 12` bytes or more, which `Encode` stores, makes both scans panic.
-/

namespace RocksKV.Storage

open Lib

/-! ## Operations -/

/-- `GetPartitionFieldPrefix`. -/
def getPartitionFieldPrefix (partitionID : UInt32) : Bytes := makePartitionKey partitionID [0x3a, fieldKeyMarker]

def setField (db : RocksDB) (partitionID : UInt32) (pk fieldName value : Bytes) : RocksDB :=
  db.write [.put (makeFieldKey partitionID pk fieldName) value]

/-- One batch, in the order in which the map is ranged over. -/
def setFields (db : RocksDB) (partitionID : UInt32) (pk : Bytes) (fields : List (Bytes × Bytes)) : RocksDB :=
  db.write (fields.map fun field => .put (makeFieldKey partitionID pk field.1) field.2)

def deleteAllFields (db : RocksDB) (partitionID : UInt32) (pk : Bytes) : RocksDB :=
  db.write ((scanPrefix db (getFieldPrefix partitionID pk)).map fun e => .delete e.1)

def decodePanics (key : Bytes) : Bool :=
  match decodeFieldKey key with
  | .error e => e == "slice bounds out of range"
  | .ok _ => false

def getAllFieldsOrPanic (db : RocksDB) (partitionID : UInt32) (pk : Bytes) : Option (OrdMap Bytes Bytes) :=
  if (scanPrefix db (getFieldPrefix partitionID pk)).any fun e => decodePanics e.1 then none
  else some (getAllFields db partitionID pk)

/-- The loop of `ListPrimaryKeys`; `seen` is the set of the `pks`. -/
def listLoop (limit : Int) (pks : List Bytes) : List (Bytes × Bytes) → Option (List Bytes)
  | [] => some pks
  | e :: rest =>
    if (pks.length : Int) < limit then
      if decodePanics e.1 then none
      else match decodeFieldKey e.1 with
        | .error _ => listLoop limit pks rest
        | .ok fk => listLoop limit (if fk.primaryKey ∈ pks then pks else pks ++ [fk.primaryKey]) rest
    else some pks

def listPrimaryKeys (db : RocksDB) (partitionID : UInt32) (limit : Int) : Option (List Bytes) :=
  listLoop limit [] (scanPrefix db (getPartitionFieldPrefix partitionID))

inductive FieldOp
  | setField (p : UInt32) (pk name value : Bytes)
  | setFields (p : UInt32) (pk : Bytes) (fields : List (Bytes × Bytes))
  | applyFieldBatch (p : UInt32) (fb : FieldBatch)
  | deleteField (p : UInt32) (pk name : Bytes)
  | deleteAllFields (p : UInt32) (pk : Bytes)

namespace FieldOp

def primaryKey : FieldOp → Bytes
  | setField _ pk _ _ | setFields _ pk _ | deleteField _ pk _ | deleteAllFields _ pk => pk
  | applyFieldBatch _ fb => fb.primaryKey

def apply (db : RocksDB) : FieldOp → RocksDB
  | setField p pk name value => Storage.setField db p pk name value
  | setFields p pk fields => Storage.setFields db p pk fields
  | applyFieldBatch p fb => Storage.applyFieldBatch db p fb
  | deleteField p pk name => Storage.deleteField db p pk name
  | deleteAllFields p pk => Storage.deleteAllFields db p pk

end FieldOp

/-! ## Documents -/

/-- The field `name` of document `pk` of a partition. -/
abbrev Docs := UInt32 → Bytes → Bytes → Option Bytes

namespace Docs

def set (m : Docs) (p : UInt32) (pk name : Bytes) (value : Option Bytes) : Docs :=
  fun q pk' name' => if q = p ∧ pk' = pk ∧ name' = name then value else m q pk' name'

def drop (m : Docs) (p : UInt32) (pk : Bytes) : Docs :=
  fun q pk' name => if q = p ∧ pk' = pk then none else m q pk' name

/-- The documents of a partition that have a field. -/
def nonEmpty (m : Docs) (p : UInt32) : Set Bytes := {pk | ∃ name, m p pk name ≠ none}

end Docs

/-- The operation on documents. -/
def FieldOp.onDocs (m : Docs) : FieldOp → Docs
  | setField p pk name value => m.set p pk name (some value)
  | setFields p pk fields => fields.foldl (fun m field => m.set p pk field.1 (some field.2)) m
  | applyFieldBatch p fb =>
    fb.updates.foldl (fun m u => m.set p fb.primaryKey u.fieldName (if u.isDelete then none else some u.value)) m
  | deleteField p pk name => m.set p pk name none
  | deleteAllFields p pk => m.drop p pk

/-- The documents of a database; primary keys whose length does not fit its four bytes have none. -/
def docsOf (db : RocksDB) : Docs :=
  fun p pk name => if pk.length < 2 ^ 32 then db.get (makeFieldKey p pk name) else none

/-- Every key is a field key. -/
def FieldKeysOnly (db : RocksDB) : Prop :=
  ∀ k, db.get k ≠ none → ∃ p pk name, pk.length < 2 ^ 32 ∧ k = makeFieldKey p pk name

/-! ## Prefixes -/

theorem getFieldPrefix_append (p : UInt32) (pk t : Bytes) : getFieldPrefix p pk ++ t = makeFieldKey p pk t := rfl

/-- **A document's prefix is only on its own keys.** -/
theorem getFieldPrefix_isPrefixOf {p q : UInt32} {pk pk' name : Bytes} (h : pk.length < 2 ^ 32)
    (h' : pk'.length < 2 ^ 32) :
    (getFieldPrefix p pk).isPrefixOf (makeFieldKey q pk' name) = true ↔ q = p ∧ pk' = pk := by
  refine List.isPrefixOf_iff_prefix.trans ⟨?_, ?_⟩
  · rintro ⟨t, ht⟩
    rw [getFieldPrefix_append, makeFieldKey_inj h h'] at ht
    exact ⟨ht.1.symm, ht.2.1.symm⟩
  · rintro ⟨rfl, rfl⟩
    exact ⟨name, getFieldPrefix_append q pk' name⟩

theorem getPartitionFieldPrefix_isPrefixOf {p q : UInt32} {pk name : Bytes} :
    (getPartitionFieldPrefix p).isPrefixOf (makeFieldKey q pk name) = true ↔ q = p := by
  rw [makeFieldKey_eq, List.isPrefixOf_iff_prefix]
  constructor
  · rintro ⟨t, ht⟩
    rw [getPartitionFieldPrefix, ← makePartitionKey_append, makePartitionKey_inj] at ht
    exact ht.1.symm
  · rintro rfl
    refine ⟨be 4 pk.length ++ pk ++ name, ?_⟩
    rw [getPartitionFieldPrefix, ← makePartitionKey_append]
    simp [documentPrefix]

theorem mem_scanPrefix {db : RocksDB} {pre k v : Bytes} :
    (k, v) ∈ scanPrefix db pre ↔ db.get k = some v ∧ pre.isPrefixOf k = true := by
  rw [scanPrefix_eq, List.mem_filter, OrdMap.mem_entries]

/-- The keys a document's scan passes are its own. -/
theorem mem_scan_document {db : RocksDB} {p : UInt32} {pk : Bytes} {e : Bytes × Bytes}
    (he : e ∈ scanPrefix db (getFieldPrefix p pk)) : ∃ name, e.1 = makeFieldKey p pk name := by
  obtain ⟨-, hpre⟩ := mem_scanPrefix.1 (show (e.1, e.2) ∈ _ from he)
  obtain ⟨t, ht⟩ := List.isPrefixOf_iff_prefix.1 hpre
  exact ⟨t, ht.symm.trans (getFieldPrefix_append p pk t)⟩

/-! ## Decoding -/

/-- A key behind the field marker, whatever follows it: a length word and the rest. -/
def markedKey (p pkLen : UInt32) (rest : Bytes) : Bytes :=
  makePartitionKey p ([0x3a, fieldKeyMarker] ++ (be 4 pkLen.toNat ++ rest))

theorem length_markedKey (p pkLen : UInt32) (rest : Bytes) : (markedKey p pkLen rest).length = 12 + rest.length := by
  simp [markedKey]
  omega

/-- **What `DecodeFieldKey` makes of a marked key**: the end of the primary key wraps around, or lies behind the end of
the key, or splits the rest. -/
theorem decodeFieldKey_markedKey (p pkLen : UInt32) (rest : Bytes) :
    decodeFieldKey (markedKey p pkLen rest) =
      if 2 ^ 32 ≤ 12 + pkLen.toNat then .error "slice bounds out of range"
      else if rest.length < pkLen.toNat then .error "invalid field key: pk length mismatch"
      else .ok { partitionID := p, primaryKey := rest.take pkLen.toNat, fieldName := rest.drop pkLen.toNat } := by
  have hkey : markedKey p pkLen rest =
      partitionKeyPrefix ++ (be 4 p.toNat ++ ([0x3a, fieldKeyMarker] ++ (be 4 pkLen.toNat ++ rest))) := by
    simp [markedKey, makePartitionKey]
  have hlen := length_markedKey p pkLen rest
  have h2 : (markedKey p pkLen rest).drop 2 =
      be 4 p.toNat ++ ([0x3a, fieldKeyMarker] ++ (be 4 pkLen.toNat ++ rest)) := by
    rw [hkey]
    rfl
  have h6 : (markedKey p pkLen rest).drop 6 = [0x3a, fieldKeyMarker] ++ (be 4 pkLen.toNat ++ rest) := by
    rw [show (6 : Nat) = 2 + 4 from rfl, ← List.drop_drop, h2, List.drop_left' (length_be 4 _)]
  have h8 : (markedKey p pkLen rest).drop 8 = be 4 pkLen.toNat ++ rest := by
    rw [show (8 : Nat) = 6 + 2 from rfl, ← List.drop_drop, h6]
    rfl
  have h12 : (markedKey p pkLen rest).drop 12 = rest := by
    rw [show (12 : Nat) = 8 + 4 from rfl, ← List.drop_drop, h8, List.drop_left' (length_be 4 _)]
  have hid : UInt32.ofNat (ofBe (((markedKey p pkLen rest).drop 2).take 4)) = p := by
    rw [h2, List.take_left' (length_be 4 _), ofBe_be, Nat.mod_eq_of_lt (toNat_lt_word p), UInt32.ofNat_toNat]
  have hword : UInt32.ofNat (ofBe (((markedKey p pkLen rest).drop 8).take 4)) = pkLen := by
    rw [h8, List.take_left' (length_be 4 _), ofBe_be, Nat.mod_eq_of_lt (toNat_lt_word pkLen), UInt32.ofNat_toNat]
  have hstop : (12 + pkLen).toNat = (12 + pkLen.toNat) % 2 ^ 32 := by
    rw [UInt32.toNat_add]
    rfl
  have hformat : ¬ ((markedKey p pkLen rest).take 2 ≠ partitionKeyPrefix ∨
      ((markedKey p pkLen rest).drop 6).take 2 ≠ [0x3a, fieldKeyMarker]) := by
    rw [h6, hkey]
    simp [partitionKeyPrefix]
  have hlt := pkLen.toNat_lt
  unfold decodeFieldKey
  rw [if_neg (by omega), if_neg hformat]
  simp only [hid, hword, hstop, hlen]
  by_cases hwrap : 2 ^ 32 ≤ 12 + pkLen.toNat
  · rw [if_pos hwrap, if_neg (by omega), if_pos (by omega)]
  have hmod : (12 + pkLen.toNat) % 2 ^ 32 = 12 + pkLen.toNat := Nat.mod_eq_of_lt (by omega)
  rw [if_neg hwrap, hmod]
  by_cases hmismatch : rest.length < pkLen.toNat
  · rw [if_pos (by omega), if_pos hmismatch]
  · rw [if_neg (by omega), if_neg (by omega), if_neg hmismatch, h12, Nat.add_sub_cancel_left, ← List.drop_drop, h12]

theorem makeFieldKey_eq_markedKey (p : UInt32) (pk name : Bytes) :
    makeFieldKey p pk name = markedKey p (UInt32.ofNat pk.length) (pk ++ name) := by
  have hword : be 4 (UInt32.ofNat pk.length).toNat = be 4 pk.length := by
    rw [UInt32.toNat_ofNat']
    exact (be_mod 4 pk.length).symm
  rw [makeFieldKey_eq, markedKey, hword]
  simp [documentPrefix]

/-- **What `DecodeFieldKey` makes of a stored key**: its parts, unless the end of the primary key wraps around. -/
theorem decodeFieldKey_makeFieldKey (p : UInt32) {pk : Bytes} (h : pk.length < 2 ^ 32) (name : Bytes) :
    decodeFieldKey (makeFieldKey p pk name) =
      if pk.length < 2 ^ 32 - 12 then .ok { partitionID := p, primaryKey := pk, fieldName := name }
      else .error "slice bounds out of range" := by
  have hword : (UInt32.ofNat pk.length).toNat = pk.length := by
    rw [UInt32.toNat_ofNat']
    exact Nat.mod_eq_of_lt h
  rw [makeFieldKey_eq_markedKey, decodeFieldKey_markedKey, hword, List.take_left, List.drop_left]
  by_cases hlow : pk.length < 2 ^ 32 - 12
  · rw [if_neg (by omega), if_neg (by simp), if_pos hlow]
  · rw [if_pos (by omega), if_neg hlow]

theorem decodePanics_makeFieldKey (p : UInt32) {pk : Bytes} (h : pk.length < 2 ^ 32) (name : Bytes) :
    decodePanics (makeFieldKey p pk name) = decide (2 ^ 32 - 12 ≤ pk.length) := by
  unfold decodePanics
  rw [decodeFieldKey_makeFieldKey p h]
  by_cases hshort : pk.length < 2 ^ 32 - 12
  · rw [if_pos hshort]
    exact (decide_eq_false (not_le.2 hshort)).symm
  · rw [if_neg hshort]
    simp only [beq_self_eq_true]
    exact (decide_eq_true (not_lt.1 hshort)).symm

/-! ## Operations refine operations on documents -/

/-- One write to a field. -/
theorem docsOf_write {p : UInt32} {pk : Bytes} (h : pk.length < 2 ^ 32) (name : Bytes) {w : Write Bytes Bytes}
    (hw : w.key = makeFieldKey p pk name) (db : RocksDB) :
    docsOf (w.apply db) = (docsOf db).set p pk name w.val := by
  funext q pk' name'
  unfold docsOf Docs.set
  by_cases h' : pk'.length < 2 ^ 32
  · simp only [h', if_true, Write.get_apply, hw, makeFieldKey_inj h' h]
  · have hne : pk' ≠ pk := fun heq => h' (heq ▸ h)
    rw [if_neg h', if_neg fun hc => hne hc.2.1]
    exact (if_neg h').symm

/-- A batch of writes to fields of one document. -/
theorem docsOf_writes {p : UInt32} {pk : Bytes} (h : pk.length < 2 ^ 32) {α : Type} {f : α → Write Bytes Bytes}
    {name : α → Bytes} (hf : ∀ x, (f x).key = makeFieldKey p pk (name x)) : ∀ (xs : List α) (db : RocksDB),
    docsOf (db.write (xs.map f)) = xs.foldl (fun m x => m.set p pk (name x) (f x).val) (docsOf db)
  | [], _ => rfl
  | x :: xs, db => by
    rw [List.map_cons, write_cons, docsOf_writes h hf xs, docsOf_write h (name x) (hf x), List.foldl_cons]

theorem lastWrite_deletes {k : Bytes} : ∀ l : List (Bytes × Bytes),
    lastWrite k (l.map fun e => (.delete e.1 : Write Bytes Bytes)) = if k ∈ l.map Prod.fst then some none else none
  | [] => rfl
  | e :: l => by
    rw [List.map_cons, lastWrite, lastWrite_deletes l, List.map_cons]
    by_cases hl : k ∈ l.map Prod.fst
    · rw [if_pos hl, if_pos (List.mem_cons_of_mem _ hl)]
      rfl
    · rw [if_neg hl]
      by_cases hk : k = e.1
      · simp [hk, Write.key, Write.val]
      · rw [if_neg fun hin => (List.mem_cons.1 hin).elim hk hl]
        simp [hk, Write.key]

/-- **`DeleteAllFields` drops the document**, and no field of another one. -/
theorem docsOf_deleteAllFields {p : UInt32} {pk : Bytes} (h : pk.length < 2 ^ 32) (db : RocksDB) :
    docsOf (deleteAllFields db p pk) = (docsOf db).drop p pk := by
  funext q pk' name
  unfold docsOf Docs.drop
  by_cases h' : pk'.length < 2 ^ 32
  swap
  · simp only [h', if_false, ite_self]
  simp only [h', if_true]
  have hmem : makeFieldKey q pk' name ∈ (scanPrefix db (getFieldPrefix p pk)).map Prod.fst ↔
      db.get (makeFieldKey q pk' name) ≠ none ∧ q = p ∧ pk' = pk := by
    rw [← @getFieldPrefix_isPrefixOf p q pk pk' name h h', List.mem_map]
    constructor
    · rintro ⟨⟨k, v⟩, he, rfl⟩
      obtain ⟨hget, hpre⟩ := mem_scanPrefix.1 he
      exact ⟨by simp [hget], hpre⟩
    · rintro ⟨hget, hpre⟩
      obtain ⟨v, hv⟩ := Option.ne_none_iff_exists'.1 hget
      exact ⟨(_, v), mem_scanPrefix.2 ⟨hv, hpre⟩, rfl⟩
  unfold deleteAllFields
  rw [get_write, lastWrite_deletes]
  by_cases hdoc : q = p ∧ pk' = pk
  · rw [if_pos hdoc]
    by_cases hget : db.get (makeFieldKey q pk' name) = none
    · rw [if_neg fun hin => (hmem.1 hin).1 hget]
      exact hget
    · rw [if_pos (hmem.2 ⟨hget, hdoc⟩)]
      rfl
  · rw [if_neg hdoc, if_neg fun hin => hdoc (hmem.1 hin).2]
    rfl

/-- **Simulation**: an operation on the store is the operation on the documents. -/
theorem docsOf_apply {op : FieldOp} (h : op.primaryKey.length < 2 ^ 32) (db : RocksDB) :
    docsOf (op.apply db) = op.onDocs (docsOf db) := by
  cases op with
  | setField p pk name value =>
    exact @docsOf_write p pk h name (.put (makeFieldKey p pk name) value) rfl db
  | setFields p pk fields => exact docsOf_writes h (fun _ => rfl) fields db
  | applyFieldBatch p fb =>
    have hkey : ∀ u : FieldUpdate, (if u.isDelete then (.delete (makeFieldKey p fb.primaryKey u.fieldName) :
        Write Bytes Bytes) else .put (makeFieldKey p fb.primaryKey u.fieldName) u.value).key =
        makeFieldKey p fb.primaryKey u.fieldName := by
      intro u
      split_ifs <;> rfl
    have hval : ∀ u : FieldUpdate, (if u.isDelete then (.delete (makeFieldKey p fb.primaryKey u.fieldName) :
        Write Bytes Bytes) else .put (makeFieldKey p fb.primaryKey u.fieldName) u.value).val =
        if u.isDelete then none else some u.value := by
      intro u
      split_ifs <;> rfl
    show docsOf (db.write (fieldWrites p fb)) = _
    rw [fieldWrites, docsOf_writes h hkey]
    simp only [hval]
    rfl
  | deleteField p pk name => exact @docsOf_write p pk h name (.delete (makeFieldKey p pk name)) rfl db
  | deleteAllFields p pk => exact docsOf_deleteAllFields h db

/-! ### The store keeps to field keys -/

theorem FieldKeysOnly.write {db : RocksDB} (hdb : FieldKeysOnly db) {ws : List (Write Bytes Bytes)}
    (hws : ∀ w ∈ ws, w.val ≠ none → ∃ p pk name, pk.length < 2 ^ 32 ∧ w.key = makeFieldKey p pk name) :
    FieldKeysOnly (db.write ws) := by
  induction ws generalizing db with
  | nil => exact hdb
  | cons w ws ih =>
    rw [write_cons]
    refine ih (fun k hk => ?_) fun v hv => hws v (List.mem_cons_of_mem _ hv)
    rw [Write.get_apply] at hk
    split_ifs at hk with heq
    · rw [heq]
      exact hws w List.mem_cons_self hk
    · exact hdb k hk

theorem FieldKeysOnly.apply {db : RocksDB} (hdb : FieldKeysOnly db) {op : FieldOp}
    (h : op.primaryKey.length < 2 ^ 32) : FieldKeysOnly (op.apply db) := by
  cases op with
  | setField p pk name value =>
    refine hdb.write fun w hw _ => ?_
    obtain rfl := List.mem_singleton.1 hw
    exact ⟨p, pk, name, h, rfl⟩
  | setFields p pk fields =>
    refine hdb.write fun w hw _ => ?_
    obtain ⟨field, -, rfl⟩ := List.mem_map.1 hw
    exact ⟨p, pk, field.1, h, rfl⟩
  | applyFieldBatch p fb =>
    refine hdb.write fun w hw _ => ?_
    obtain ⟨name, hname⟩ := key_fieldWrites w hw
    exact ⟨p, fb.primaryKey, name, h, hname⟩
  | deleteField p pk name =>
    refine hdb.write fun w hw hval => ?_
    obtain rfl := List.mem_singleton.1 hw
    exact absurd rfl hval
  | deleteAllFields p pk =>
    refine hdb.write fun w hw hval => ?_
    obtain ⟨e, -, rfl⟩ := List.mem_map.1 hw
    exact absurd rfl hval

/-- **Runs**: operations one after another, on the store and on its documents. -/
theorem docsOf_foldl : ∀ {ops : List FieldOp} {db : RocksDB}, FieldKeysOnly db →
    (∀ op ∈ ops, op.primaryKey.length < 2 ^ 32) →
    FieldKeysOnly (ops.foldl FieldOp.apply db) ∧
      docsOf (ops.foldl FieldOp.apply db) = ops.foldl FieldOp.onDocs (docsOf db)
  | [], _, hdb, _ => ⟨hdb, rfl⟩
  | op :: ops, db, hdb, h => by
    have hop := h op List.mem_cons_self
    have ih := docsOf_foldl (hdb.apply hop) fun o ho => h o (List.mem_cons_of_mem _ ho)
    rw [List.foldl_cons, List.foldl_cons, ← docsOf_apply hop]
    exact ih

/-! ## Reads -/

/-- Primary keys `DecodeFieldKey` can read. -/
def Readable (m : Docs) : Prop := ∀ p pk name, m p pk name ≠ none → pk.length < 2 ^ 32 - 12

/-- The fold over a document's keys collects their names and values. -/
theorem get_foldl_addField {p : UInt32} {pk : Bytes} (h : pk.length < 2 ^ 32 - 12) (name : Bytes) :
    ∀ {l : List (Bytes × Bytes)} (found : OrdMap Bytes Bytes), l.Pairwise (fun a b => a.1 < b.1) →
      (∀ e ∈ l, ∃ n, e.1 = makeFieldKey p pk n) →
      (l.foldl (addField p pk) found).get name = (OrdMap.look (makeFieldKey p pk name) l).or (found.get name)
  | [], found, _, _ => by simp [OrdMap.look]
  | (k, v) :: l, found, hsort, hkeys => by
    rw [List.pairwise_cons] at hsort
    obtain ⟨n, rfl⟩ := hkeys _ List.mem_cons_self
    have hshort : pk.length < 2 ^ 32 := by omega
    have hadd : addField p pk found (makeFieldKey p pk n, v) = found.insert n v := by
      unfold addField
      simp only [decodeFieldKey_makeFieldKey p hshort n, if_pos h]
      simp
    rw [List.foldl_cons, hadd, get_foldl_addField h name _ hsort.2 fun e he => hkeys e (List.mem_cons_of_mem _ he),
      OrdMap.look, OrdMap.get_insert]
    by_cases hn : name = n
    · -- the rest has larger keys only
      subst hn
      have hnone : OrdMap.look (makeFieldKey p pk name) l = none := by
        refine Option.eq_none_iff_forall_ne_some.2 fun w hw => ?_
        have hlt := hsort.1 _ ((OrdMap.look_eq_some hsort.2).1 hw)
        exact lt_irrefl _ hlt
      simp [hnone]
    · have hne : makeFieldKey p pk name ≠ makeFieldKey p pk n := fun heq =>
        hn ((makeFieldKey_inj hshort hshort).1 heq).2.2
      simp [hn, hne]

theorem sorted_scanPrefix (db : RocksDB) (pre : Bytes) : (scanPrefix db pre).Pairwise fun a b => a.1 < b.1 :=
  (db.sorted_seek pre).sublist (List.takeWhile_sublist _)

/-- **`GetAllFields` returns the document** if its primary key can be read, whatever else is in the store. -/
theorem get_getAllFields (db : RocksDB) (p : UInt32) {pk : Bytes} (h : pk.length < 2 ^ 32 - 12) (name : Bytes) :
    (getAllFields db p pk).get name = db.get (makeFieldKey p pk name) := by
  have hshort : pk.length < 2 ^ 32 := by omega
  rw [getAllFields, get_foldl_addField h name _ (sorted_scanPrefix db _) fun e he => mem_scan_document he,
    OrdMap.get_empty, Option.or_none]
  refine Option.ext fun v => ?_
  rw [OrdMap.look_eq_some (sorted_scanPrefix db _), mem_scanPrefix, getFieldPrefix_isPrefixOf hshort hshort]
  simp only [and_self, and_true]

/-- And it does not panic then. -/
theorem getAllFieldsOrPanic_of_short (db : RocksDB) (p : UInt32) {pk : Bytes} (h : pk.length < 2 ^ 32 - 12) :
    getAllFieldsOrPanic db p pk = some (getAllFields db p pk) := by
  refine if_neg fun hany => ?_
  obtain ⟨e, he, hpanic⟩ := List.any_eq_true.1 hany
  obtain ⟨name, hname⟩ := mem_scan_document he
  rw [hname, decodePanics_makeFieldKey p (by omega), decide_eq_true_iff] at hpanic
  exact absurd h (not_lt.2 hpanic)

/-- On a non-empty document whose primary key is too long to read it panics. -/
theorem getAllFieldsOrPanic_of_long {db : RocksDB} {p : UInt32} {pk name : Bytes} (hlong : 2 ^ 32 - 12 ≤ pk.length)
    (h : docsOf db p pk name ≠ none) : getAllFieldsOrPanic db p pk = none := by
  have hshort : pk.length < 2 ^ 32 := by
    by_contra hc
    exact h (if_neg hc)
  rw [docsOf, if_pos hshort] at h
  obtain ⟨v, hv⟩ := Option.ne_none_iff_exists'.1 h
  refine if_pos (List.any_eq_true.2 ⟨(_, v), mem_scanPrefix.2 ⟨hv, ?_⟩, ?_⟩)
  · exact (getFieldPrefix_isPrefixOf hshort hshort).2 ⟨rfl, rfl⟩
  · rw [decodePanics_makeFieldKey p hshort]
    exact decide_eq_true hlong

/-- A document without fields is read as such. -/
theorem getAllFieldsOrPanic_of_empty {db : RocksDB} {p : UInt32} {pk : Bytes} (hshort : pk.length < 2 ^ 32)
    (h : ∀ name, docsOf db p pk name = none) : getAllFieldsOrPanic db p pk = some OrdMap.empty := by
  have hscan : scanPrefix db (getFieldPrefix p pk) = [] := by
    refine List.eq_nil_iff_forall_not_mem.2 fun e he => ?_
    obtain ⟨name, hname⟩ := mem_scan_document he
    obtain ⟨hget, -⟩ := mem_scanPrefix.1 (show (e.1, e.2) ∈ _ from he)
    have hnone := h name
    rw [docsOf, if_pos hshort, ← hname, hget] at hnone
    cases hnone
  rw [getAllFieldsOrPanic, getAllFields, hscan]
  rfl

/-! ### Listing primary keys -/

/-- The primary key of a stored field key. -/
def pkOf (key : Bytes) : Bytes :=
  match decodeFieldKey key with
  | .ok fk => fk.primaryKey
  | .error _ => []

/-- A primary key is appended once. -/
theorem mem_appendOnce {pks : List Bytes} {pk x : Bytes} :
    x ∈ (if pk ∈ pks then pks else pks ++ [pk]) ↔ x ∈ pks ∨ x = pk := by
  split_ifs with h
  · exact ⟨.inl, fun hx => hx.elim id fun heq => heq ▸ h⟩
  · rw [List.mem_append, List.mem_singleton]

theorem nodup_appendOnce {pks : List Bytes} (h : pks.Nodup) (pk : Bytes) :
    (if pk ∈ pks then pks else pks ++ [pk]).Nodup := by
  split_ifs with hin
  · exact h
  · exact List.nodup_append.2 ⟨h, by simp, fun a ha b hb hab => hin (List.mem_singleton.1 hb ▸ hab ▸ ha)⟩

/-- **The loop** over readable keys collects distinct primary keys, up to the limit or to the end. -/
theorem listLoop_spec {limit : Int} : ∀ {l : List (Bytes × Bytes)} {pks : List Bytes},
    (∀ e ∈ l, ∃ fk, decodeFieldKey e.1 = .ok fk) → pks.Nodup →
    ∃ out, listLoop limit pks l = some out ∧ out.Nodup ∧ pks ⊆ out ∧
      (∀ pk ∈ out, pk ∈ pks ∨ ∃ e ∈ l, pkOf e.1 = pk) ∧ ((out.length : Int) ≤ limit ∨ out = pks) ∧
      (limit ≤ out.length ∨ ∀ e ∈ l, pkOf e.1 ∈ out)
  | [], pks, _, hnd => ⟨pks, rfl, hnd, List.Subset.refl _, fun pk hpk => .inl hpk, .inr rfl, .inr (by simp)⟩
  | e :: l, pks, hl, hnd => by
    obtain ⟨fk, hfk⟩ := hl e List.mem_cons_self
    have hpanic : decodePanics e.1 = false := by simp [decodePanics, hfk]
    have hpk : pkOf e.1 = fk.primaryKey := by simp [pkOf, hfk]
    unfold listLoop
    by_cases hlt : (pks.length : Int) < limit
    swap
    · rw [if_neg hlt]
      exact ⟨pks, rfl, hnd, List.Subset.refl _, fun pk hpk => .inl hpk, .inr rfl, .inl (not_lt.1 hlt)⟩
    rw [if_pos hlt, hpanic]
    simp only [Bool.false_eq_true, if_false, hfk]
    set next := if fk.primaryKey ∈ pks then pks else pks ++ [fk.primaryKey] with hnext
    have hmem : ∀ pk, pk ∈ next ↔ pk ∈ pks ∨ pk = fk.primaryKey := fun pk => mem_appendOnce
    have hlen : (next.length : Int) ≤ limit := by
      rw [hnext]
      split_ifs
      · omega
      · rw [List.length_append, List.length_singleton]
        omega
    obtain ⟨out, hout, hond, hosub, homem, hobound, hofull⟩ :=
      @listLoop_spec limit l next (fun x hx => hl x (List.mem_cons_of_mem _ hx))
        (nodup_appendOnce hnd fk.primaryKey)
    refine ⟨out, hout, hond, fun pk h => hosub ((hmem pk).2 (.inl h)), fun pk h => ?_, ?_, ?_⟩
    · rcases homem pk h with hin | ⟨x, hx, rfl⟩
      · rcases (hmem pk).1 hin with hin | rfl
        · exact .inl hin
        · exact .inr ⟨e, List.mem_cons_self, hpk⟩
      · exact .inr ⟨x, List.mem_cons_of_mem _ hx, rfl⟩
    · rcases hobound with hle | rfl
      · exact .inl hle
      · exact .inl hlen
    · rcases hofull with hfull | hall
      · exact .inl hfull
      · refine .inr fun x hx => ?_
        rcases List.mem_cons.1 hx with rfl | hx
        · rw [hpk]
          exact hosub ((hmem _).2 (.inr rfl))
        · exact hall x hx

/-- The keys the scan of a partition's fields passes. -/
theorem mem_scan_partition {db : RocksDB} (hdb : FieldKeysOnly db) (hread : Readable (docsOf db)) {p : UInt32}
    {e : Bytes × Bytes} (he : e ∈ scanPrefix db (getPartitionFieldPrefix p)) :
    (∃ fk, decodeFieldKey e.1 = .ok fk) ∧ pkOf e.1 ∈ (docsOf db).nonEmpty p := by
  obtain ⟨hget, hpre⟩ := mem_scanPrefix.1 (show (e.1, e.2) ∈ _ from he)
  obtain ⟨q, pk, name, h, heq⟩ := hdb e.1 (by simp [hget])
  rw [heq, getPartitionFieldPrefix_isPrefixOf] at hpre
  subst hpre
  have hdoc : docsOf db q pk name ≠ none := by
    rw [docsOf, if_pos h, ← heq, hget]
    simp
  have hdec := decodeFieldKey_makeFieldKey q h name
  rw [if_pos (hread q pk name hdoc), ← heq] at hdec
  refine ⟨⟨_, hdec⟩, ?_⟩
  rw [pkOf, hdec]
  exact ⟨name, hdoc⟩

theorem exists_scan_partition {db : RocksDB} (hread : Readable (docsOf db)) {p : UInt32} {pk : Bytes}
    (h : pk ∈ (docsOf db).nonEmpty p) : ∃ e ∈ scanPrefix db (getPartitionFieldPrefix p), pkOf e.1 = pk := by
  obtain ⟨name, hname⟩ := h
  have hlen := hread p pk name hname
  have hshort : pk.length < 2 ^ 32 := by omega
  have hdec := decodeFieldKey_makeFieldKey p hshort name
  rw [if_pos hlen] at hdec
  rw [docsOf, if_pos hshort] at hname
  obtain ⟨v, hv⟩ := Option.ne_none_iff_exists'.1 hname
  refine ⟨(_, v), mem_scanPrefix.2 ⟨hv, getPartitionFieldPrefix_isPrefixOf.2 rfl⟩, ?_⟩
  rw [pkOf, hdec]

/-- **`ListPrimaryKeys`** lists as many of the non-empty documents as the limit allows, each once. -/
theorem listPrimaryKeys_spec {db : RocksDB} (hdb : FieldKeysOnly db) (hread : Readable (docsOf db)) (p : UInt32)
    (limit : Int) :
    ∃ pks, listPrimaryKeys db p limit = some pks ∧ pks.Nodup ∧ (∀ pk ∈ pks, pk ∈ (docsOf db).nonEmpty p) ∧
      pks.length = min limit.toNat ((docsOf db).nonEmpty p).ncard := by
  obtain ⟨out, hout, hnd, -, hmem, hbound, hfull⟩ :=
    @listLoop_spec limit (scanPrefix db (getPartitionFieldPrefix p)) [] (fun e he => (mem_scan_partition hdb hread he).1)
      List.nodup_nil
  have hsub : ∀ pk ∈ out, pk ∈ (docsOf db).nonEmpty p := by
    intro pk hpk
    rcases hmem pk hpk with hnil | ⟨e, he, rfl⟩
    · cases hnil
    · exact (mem_scan_partition hdb hread he).2
  refine ⟨out, hout, hnd, hsub, ?_⟩
  have hcard : (out.toFinset : Set Bytes).ncard = out.length := by
    rw [Set.ncard_coe_finset, List.toFinset_card_of_nodup hnd]
  have hsub' : (out.toFinset : Set Bytes) ⊆ (docsOf db).nonEmpty p := fun pk hpk => hsub pk (by simpa using hpk)
  have hfin : ((docsOf db).nonEmpty p).Finite := by
    refine Set.Finite.subset (List.finite_toSet ((scanPrefix db (getPartitionFieldPrefix p)).map fun e => pkOf e.1)) ?_
    intro pk hpk
    obtain ⟨e, he, rfl⟩ := exists_scan_partition hread hpk
    exact List.mem_map.2 ⟨e, he, rfl⟩
  have hle := Set.ncard_le_ncard hsub' hfin
  rw [hcard] at hle
  rcases hfull with hfull | hall
  · -- the limit was reached
    rcases hbound with hb | rfl
    · omega
    · simp only [List.length_nil, Nat.cast_zero] at hfull ⊢
      omega
  · have heq : (docsOf db).nonEmpty p = (out.toFinset : Set Bytes) := by
      refine Set.Subset.antisymm (fun pk hpk => ?_) hsub'
      obtain ⟨e, he, rfl⟩ := exists_scan_partition hread hpk
      simpa using hall e he
    rw [heq, hcard]
    rcases hbound with hb | rfl
    · omega
    · simp

/-! ## Refinement -/

/-- What the reads must return for the documents `m`. -/
structure ReadsAs (db : RocksDB) (m : Docs) : Prop where
  getField        : ∀ p pk name, pk.length < 2 ^ 32 → getField db p pk name = m p pk name
  getAllFields    : ∀ p pk, pk.length < 2 ^ 32 →
    ∃ fields, getAllFieldsOrPanic db p pk = some fields ∧ ∀ name, fields.get name = m p pk name
  listPrimaryKeys : ∀ p limit, ∃ pks, listPrimaryKeys db p limit = some pks ∧ pks.Nodup ∧
    (∀ pk ∈ pks, pk ∈ m.nonEmpty p) ∧ pks.length = min limit.toNat (m.nonEmpty p).ncard

/-- The reads of a store of field keys are those of its documents exactly if all of them can be read. -/
theorem readsAs_docsOf {db : RocksDB} (hdb : FieldKeysOnly db) : ReadsAs db (docsOf db) ↔ Readable (docsOf db) := by
  constructor
  · intro h p pk name hname
    by_contra hlong
    have hshort : pk.length < 2 ^ 32 := by
      by_contra hc
      exact hname (if_neg hc)
    obtain ⟨fields, hfields, -⟩ := h.getAllFields p pk hshort
    rw [getAllFieldsOrPanic_of_long (not_lt.1 hlong) hname] at hfields
    cases hfields
  · intro hread
    refine ⟨fun p pk name h => ?_, fun p pk h => ?_, fun p limit => listPrimaryKeys_spec hdb hread p limit⟩
    · rw [docsOf, if_pos h]
      rfl
    · by_cases hlen : pk.length < 2 ^ 32 - 12
      · refine ⟨_, getAllFieldsOrPanic_of_short db p hlen, fun name => ?_⟩
        rw [get_getAllFields db p hlen, docsOf, if_pos h]
      · have hempty : ∀ name, docsOf db p pk name = none := by
          intro name
          by_contra hname
          exact hlen (hread p pk name hname)
        refine ⟨_, getAllFieldsOrPanic_of_empty h hempty, fun name => ?_⟩
        rw [hempty, OrdMap.get_empty]

/-- **The document store refines a map**, exactly as long as every non-empty document has a primary key of less than
`2^32 - 12` bytes. -/
theorem document_store_refines_map_iff {db : RocksDB} (hdb : FieldKeysOnly db) {ops : List FieldOp}
    (hops : ∀ op ∈ ops, op.primaryKey.length < 2 ^ 32) :
    ReadsAs (ops.foldl FieldOp.apply db) (ops.foldl FieldOp.onDocs (docsOf db)) ↔
      Readable (ops.foldl FieldOp.onDocs (docsOf db)) := by
  obtain ⟨honly, hdocs⟩ := docsOf_foldl hdb hops
  rw [← hdocs]
  exact readsAs_docsOf honly

theorem fieldKeysOnly_empty : FieldKeysOnly OrdMap.empty := fun _ hk => absurd rfl hk

/-- Two fields are written, and one of them deleted. -/
theorem document_store_refines_map_one_field :
    ReadsAs ([FieldOp.setFields 1 [7] [([1], [2]), ([3], [4])], .deleteField 1 [7] [1]].foldl FieldOp.apply OrdMap.empty)
      ([FieldOp.setFields 1 [7] [([1], [2]), ([3], [4])], .deleteField 1 [7] [1]].foldl FieldOp.onDocs
        (docsOf OrdMap.empty)) := by
  refine (document_store_refines_map_iff fieldKeysOnly_empty ?_).2 ?_
  · decide
  · intro p pk name h
    simp only [List.foldl_cons, List.foldl_nil, FieldOp.onDocs, Docs.set, docsOf, OrdMap.get_empty, ite_self] at h
    split_ifs at h with hdeleted hkept
    · exact absurd rfl h
    · rw [hkept.2.1]
      decide
    · exact absurd rfl h

/-- **Bug**: a field of a document whose primary key has `2^32 - 12` bytes is stored and can be read by itself, but
`GetAllFields` of the document panics. -/
theorem long_primary_key_panics :
    ∃ pk : Bytes, pk.length < 2 ^ 32 ∧ getField (setField OrdMap.empty 1 pk [1] [2]) 1 pk [1] = some [2] ∧
      getAllFieldsOrPanic (setField OrdMap.empty 1 pk [1] [2]) 1 pk = none := by
  have hlen : (List.replicate (2 ^ 32 - 12) (0 : UInt8)).length = 2 ^ 32 - 12 := List.length_replicate
  generalize List.replicate (2 ^ 32 - 12) (0 : UInt8) = pk at hlen
  have hshort : pk.length < 2 ^ 32 := by omega
  have hget : (setField OrdMap.empty 1 pk [1] [2]).get (makeFieldKey 1 pk [1]) = some [2] :=
    OrdMap.get_insert_self _ _ _
  refine ⟨pk, hshort, hget, ?_⟩
  refine @getAllFieldsOrPanic_of_long _ 1 pk [1] hlen.ge ?_
  rw [docsOf, if_pos hshort, hget]
  exact Option.some_ne_none _

end RocksKV.Storage
