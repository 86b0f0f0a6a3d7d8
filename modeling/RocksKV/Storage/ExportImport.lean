import RocksKV.Lib.Utf8
import RocksKV.Storage.RangeScan
/-!
# Exporting and importing a partition as JSON (`pkg/storage/partition.go:438-541`)

| here | there |
| --- | --- |
| `PartitionData`       | `type PartitionData` (`:439-442`); the map as its entries in the order `json.Marshal` writes them |
| `JSONFormat`          | **`encoding/json` boundary**: what `Marshal` writes, and what `Unmarshal` makes of it |
| `keyValues`           | the map `ExportPartitionData` fills (`:456-485`) |
| `exportPartitionData` | `ExportPartitionData` (`:445-493`) |
| `importPartitionData` | `ImportPartitionData` (`:496-541`); `order` is the order in which the map is ranged over |

Keys and values are byte strings and travel as JSON strings, in which `encoding/json` replaces the bytes that are
not UTF-8. So the import stores what was exported exactly if all keys and values of the partition are UTF-8, apart
from the last id: the end of its range wraps, and the export finds none of its keys.
-/

namespace RocksKV.Storage

open Lib

structure PartitionData where
  partitionID : UInt32
  keyValues   : OrdMap Bytes Bytes

/-- What is read of what was written. Keys are written in their order, and of keys that are read as the same one the
last stays. -/
def PartitionData.asText (d : PartitionData) : PartitionData :=
  { d with
    keyValues := OrdMap.empty.overlay (d.keyValues.entries.map fun e => (Utf8.toValid e.1, Utf8.toValid e.2)) }

structure JSONFormat where
  marshal           : PartitionData → Bytes
  unmarshal         : Bytes → Except String PartitionData
  unmarshal_marshal : ∀ d, unmarshal (marshal d) = .ok d.asText

/-- A format of this kind: the id, and the strings one after another. -/
def JSONFormat.escaped : JSONFormat where
  marshal d := be 4 d.partitionID.toNat ++
    SSTFormat.escaped.write (d.keyValues.entries.map fun e => (Utf8.toValid e.1, Utf8.toValid e.2))
  unmarshal jsonData :=
    match SSTFormat.escaped.read (jsonData.drop 4) with
    | none => .error "unexpected end of JSON input"
    | some kvs => .ok { partitionID := UInt32.ofNat (ofBe (jsonData.take 4)), keyValues := OrdMap.empty.overlay kvs }
  unmarshal_marshal d := by
    simp only [List.drop_left' (length_be 4 _), List.take_left' (length_be 4 _), SSTFormat.escaped.read_write, ofBe_be,
      Nat.mod_eq_of_lt (toNat_lt_word _), UInt32.ofNat_toNat]
    rfl

/-! ## The two calls -/

/-- What the loop makes of an entry it visits; short keys and those of other partitions are passed over. -/
def originalPair (p : UInt32) (e : Bytes × Bytes) : Option (Bytes × Bytes) :=
  match parsePartitionKey e.1 with
  | .error _ => none
  | .ok (pID, originalKey) => if pID ≠ p then none else some (originalKey, e.2)

def keyValues (db : RocksDB) (p : UInt32) : OrdMap Bytes Bytes :=
  OrdMap.empty.overlay ((prefixScan db p).filterMap (originalPair p))

namespace PartitionManager

def exportPartitionData (pm : PartitionManager) (fmt : JSONFormat) (p : UInt32) : Except String Bytes :=
  if !pm.hasPartition p then .error s!"partition {p} not found on this node"
  else .ok (fmt.marshal { partitionID := p, keyValues := keyValues pm.db p })

/-- The partition is there afterwards, whatever the data is. -/
def ensurePartition (pm : PartitionManager) (p : UInt32) : PartitionManager :=
  if pm.hasPartition p then pm
  else
    let partition : Partition := { id := p, status := .migratingIn, isPrime := false, epoch := 0 }
    { pm with partitions := pm.partitions.insert p partition }

def importPartitionData (pm : PartitionManager) (fmt : JSONFormat)
    (order : List (Bytes × Bytes) → List (Bytes × Bytes)) (batchError : Option String) (p : UInt32)
    (jsonData : Bytes) : PartitionManager × Except String Int64 :=
  let pm := pm.ensurePartition p
  match fmt.unmarshal jsonData with
  | .error e => (pm, .error s!"failed to unmarshal partition data: {e}")
  | .ok data =>
    if data.partitionID ≠ p then (pm, .error s!"partition ID mismatch: expected {p}, got {data.partitionID}")
    else
      let items : List KeyValueItem := (order data.keyValues.entries).map fun e => ⟨makePartitionKey p e.1, e.2⟩
      if 0 < items.length then
        match batchError with
        | some e => (pm, .error s!"failed to batch put: {e}")
        | none =>
          ({ pm with db := pm.db.write (items.map fun item => .put item.key item.value) }, .ok (Int64.ofNat items.length))
      else (pm, .ok (Int64.ofNat items.length))

end PartitionManager

/-! ## What is exported -/

/-- A key in a range that is as long as its bounds is one of the partition's. -/
theorem isStorageKey_of_inRange {p : UInt32} {s : Bytes} (h : InRange p s) (hlen : 6 ≤ s.length) : IsStorageKey p s := by
  -- both bounds start with the two bytes of the prefix, so the key does
  obtain ⟨rest, rfl⟩ := exists_append_of_between h.1 h.2
  have hword : (rest.take 4).length = 4 := by
    rw [List.length_append, show partitionKeyPrefix.length = 2 from rfl] at hlen
    rw [List.length_take]
    omega
  have hkey : partitionKeyPrefix ++ rest = makePartitionKey (UInt32.ofNat (ofBe (rest.take 4))) (rest.drop 4) := by
    rw [makePartitionKey, be_ofBe_uint32 hword, List.append_assoc, List.take_append_drop]
  rw [hkey] at h ⊢
  exact .inl ⟨_, by rw [← eq_of_inRange h]⟩

theorem inRange_of_mem_prefixScan {db : RocksDB} {p : UInt32} {e : Bytes × Bytes} (he : e ∈ prefixScan db p)
    (hlen : 6 ≤ e.1.length) : InRange p e.1 := by
  have hseek := (List.takeWhile_sublist _).subset he
  rw [OrdMap.seek_eq_filter, List.mem_filter, decide_eq_true_iff] at hseek
  have hbefore := List.mem_takeWhile_imp he
  rw [Bool.not_eq_true', ← Bool.not_eq_true, pastEnd_eq_true, not_and, not_le] at hbefore
  exact ⟨hseek.2, hbefore (by simpa [getPartitionRange, partitionKeyPrefix] using hlen)⟩

/-- **Of what the scan visits, exactly the partition's keys are exported**, without their prefix. -/
theorem originalPair_eq_some {db : RocksDB} {p : UInt32} {e : Bytes × Bytes} (he : e ∈ prefixScan db p) {k v : Bytes} :
    originalPair p e = some (k, v) ↔ e = (makePartitionKey p k, v) := by
  constructor
  · intro h
    by_cases hlen : e.1.length < 6
    · simp [originalPair, parsePartitionKey, hlen] at h
    · obtain ⟨l, hl⟩ := isStorageKey_iff.1 (isStorageKey_of_inRange (inRange_of_mem_prefixScan he (not_lt.1 hlen))
        (not_lt.1 hlen))
      rw [originalPair, hl, parsePartitionKey_makePartitionKey] at h
      simp only [ne_eq, not_true_eq_false, if_false, Option.some.injEq, Prod.mk.injEq] at h
      exact Prod.ext (hl.trans (by rw [h.1])) h.2
  · rintro rfl
    simp [originalPair, parsePartitionKey_makePartitionKey]

theorem makePartitionKey_lt {p : UInt32} {k l : Bytes} : makePartitionKey p k < makePartitionKey p l ↔ k < l :=
  append_lt_append_left _

theorem sorted_exported (db : RocksDB) (p : UInt32) :
    ((prefixScan db p).filterMap (originalPair p)).Pairwise fun a b => a.1 < b.1 := by
  rw [List.pairwise_filterMap]
  refine (sorted_prefixScan db p).imp_of_mem fun {a b} ha hb hab a' ha' b' hb' => ?_
  rw [(originalPair_eq_some ha).1 ha', (originalPair_eq_some hb).1 hb'] at hab
  exact makePartitionKey_lt.1 hab

theorem get_keyValues {db : RocksDB} {p : UInt32} {k v : Bytes} :
    (keyValues db p).get k = some v ↔ (makePartitionKey p k, v) ∈ prefixScan db p := by
  rw [keyValues, OrdMap.get_overlay_sorted k _ (sorted_exported db p), OrdMap.get_empty, Option.or_none,
    OrdMap.look_eq_some (sorted_exported db p), List.mem_filterMap]
  constructor
  · rintro ⟨e, he, heq⟩
    exact (originalPair_eq_some he).1 heq ▸ he
  · intro he
    exact ⟨_, he, (originalPair_eq_some he).2 rfl⟩

/-- **Every key of the partition is exported**, except for the last id. -/
theorem get_keyValues_of_ne {p : UInt32} (hp : p ≠ 0xffffffff) (db : RocksDB) (k : Bytes) :
    (keyValues db p).get k = db.get (makePartitionKey p k) := by
  have hlt : p.toNat < 2 ^ 32 - 1 := by
    have hne : p.toNat ≠ 0xffffffff := fun h => hp (UInt32.toNat_inj.1 h)
    have := p.toNat_lt
    omega
  refine Option.ext fun v => ?_
  rw [get_keyValues]
  constructor
  · exact get_of_mem_prefixScan
  · intro h
    exact (scanRange_sublist_prefixScan db p).subset (mem_scanRange.2 ⟨h, inRange_makePartitionKey hlt k⟩)

/-- The end of the last id's range is below its start, and the first long key ends the scan. -/
theorem get_keyValues_last (db : RocksDB) (k : Bytes) : (keyValues db 0xffffffff).get k = none := by
  refine Option.eq_none_iff_forall_ne_some.2 fun v hv => ?_
  have hin := inRange_of_mem_prefixScan (get_keyValues.1 hv) (by simp)
  exact absurd (hin.1.trans_lt hin.2) (by decide)

/-- The entries of the partition. -/
def entriesOf (db : RocksDB) (p : UInt32) : List (Bytes × Bytes) :=
  db.entries.filter fun e => decide (IsStorageKey p e.1)

/-- The map under the partition's storage keys. -/
def stored (p : UInt32) (m : OrdMap Bytes Bytes) : List (Bytes × Bytes) :=
  m.entries.map fun e => (makePartitionKey p e.1, e.2)

theorem sorted_stored (p : UInt32) (m : OrdMap Bytes Bytes) : (stored p m).Pairwise fun a b => a.1 < b.1 := by
  rw [stored, List.pairwise_map]
  exact m.sorted.imp makePartitionKey_lt.2

theorem mem_stored {p : UInt32} {m : OrdMap Bytes Bytes} {k v : Bytes} :
    (makePartitionKey p k, v) ∈ stored p m ↔ m.get k = some v := by
  rw [stored, List.mem_map, ← OrdMap.mem_entries]
  constructor
  · rintro ⟨e, he, heq⟩
    rw [Prod.mk.injEq, makePartitionKey_inj] at heq
    obtain ⟨⟨-, rfl⟩, rfl⟩ := heq
    exact he
  · intro he
    exact ⟨_, he, rfl⟩

/-- The entries of a partition are those of a map that has its values. -/
theorem stored_eq_entriesOf {db : RocksDB} {p : UInt32} {m : OrdMap Bytes Bytes}
    (h : ∀ k, m.get k = db.get (makePartitionKey p k)) : stored p m = entriesOf db p := by
  refine OrdMap.eq_of_mem_iff (sorted_stored p m) (db.sorted.sublist List.filter_sublist) ?_
  rintro ⟨s, v⟩
  rw [entriesOf, List.mem_filter, OrdMap.mem_entries, decide_eq_true_iff, isStorageKey_iff]
  constructor
  · intro hs
    obtain ⟨e, -, heq⟩ := List.mem_map.1 hs
    obtain ⟨k, rfl⟩ : ∃ k, s = makePartitionKey p k := ⟨e.1, (congrArg Prod.fst heq).symm⟩
    exact ⟨(h k).symm.trans (mem_stored.1 hs), k, rfl⟩
  · rintro ⟨hget, k, rfl⟩
    exact mem_stored.2 ((h k).trans hget)

/-! ## What is imported -/

@[simp] theorem PartitionManager.db_ensurePartition (pm : PartitionManager) (p : UInt32) :
    (pm.ensurePartition p).db = pm.db := by
  unfold PartitionManager.ensurePartition
  split_ifs <;> rfl

theorem write_items {order : List (Bytes × Bytes) → List (Bytes × Bytes)} (horder : ∀ l, (order l).Perm l)
    (db : RocksDB) (p : UInt32) (m : OrdMap Bytes Bytes) :
    db.write ((order m.entries).map fun e => .put (makePartitionKey p e.1) e.2) = db.overlay (stored p m) := by
  have hkeys : (m.entries.map fun e : Bytes × Bytes => makePartitionKey p e.1).Nodup := by
    rw [List.nodup_iff_pairwise_ne, List.pairwise_map]
    exact m.sorted.imp fun hab => (makePartitionKey_lt.2 hab).ne
  have hperm := (horder m.entries).map fun e : Bytes × Bytes => Write.put (makePartitionKey p e.1) e.2
  have hnodup : (((order m.entries).map fun e : Bytes × Bytes =>
      Write.put (makePartitionKey p e.1) e.2).map Write.key).Nodup := by
    rw [(hperm.map Write.key).nodup_iff, List.map_map]
    exact hkeys
  rw [write_perm db hperm hnodup, OrdMap.write, List.foldl_map, OrdMap.overlay, stored, List.foldl_map]
  rfl

/-- **An import** of what `data` was written as lays the text of its map over the store, in whatever order the map is
ranged over. -/
theorem importPartitionData_marshal (fmt : JSONFormat) {order : List (Bytes × Bytes) → List (Bytes × Bytes)}
    (horder : ∀ l, (order l).Perm l) (pm : PartitionManager) (data : PartitionData) :
    pm.importPartitionData fmt order none data.partitionID (fmt.marshal data) =
      ({ pm.ensurePartition data.partitionID with db := pm.db.overlay (stored data.partitionID data.asText.keyValues) },
        .ok (Int64.ofNat data.asText.keyValues.entries.length)) := by
  have hlen := (horder data.asText.keyValues.entries).length_eq
  have hwrite := write_items horder pm.db data.partitionID data.asText.keyValues
  rw [PartitionManager.importPartitionData, fmt.unmarshal_marshal]
  simp only [ne_eq, not_true_eq_false, if_false, List.length_map, hlen, List.map_map, Function.comp_def,
    PartitionManager.db_ensurePartition, show data.asText.partitionID = data.partitionID from rfl]
  split_ifs with hpos
  · rw [hwrite]
  · have hnil : stored data.partitionID data.asText.keyValues = [] := by
      rw [stored, List.eq_nil_of_length_eq_zero (Nat.eq_zero_of_not_pos hpos), List.map_nil]
    rw [hnil, show pm.db.overlay [] = (pm.ensurePartition data.partitionID).db from (pm.db_ensurePartition _).symm]

theorem get_overlay_stored (db : RocksDB) (p : UInt32) (m : OrdMap Bytes Bytes) (k : Bytes) :
    (db.overlay (stored p m)).get (makePartitionKey p k) = (m.get k).or (db.get (makePartitionKey p k)) := by
  rw [OrdMap.get_overlay_sorted _ _ (sorted_stored p m)]
  congr 1
  refine Option.ext fun v => ?_
  rw [OrdMap.look_eq_some (sorted_stored p m), mem_stored]

/-! ## Text -/

/-- All keys and values of the map are UTF-8. -/
def Textual (m : OrdMap Bytes Bytes) : Prop := ∀ k v, m.get k = some v → Utf8.Valid k ∧ Utf8.Valid v

theorem textual_asText (data : PartitionData) : Textual data.asText.keyValues := by
  intro k v h
  rcases OrdMap.mem_of_get_overlay h with hmem | hempty
  · obtain ⟨e, -, heq⟩ := List.mem_map.1 hmem
    cases heq
    exact ⟨Utf8.valid_toValid _, Utf8.valid_toValid _⟩
  · cases hempty

theorem asText_of_textual {data : PartitionData} (h : Textual data.keyValues) :
    data.asText.keyValues = data.keyValues := by
  have hsame : data.keyValues.entries.map (fun e => (Utf8.toValid e.1, Utf8.toValid e.2)) = data.keyValues.entries := by
    refine (List.map_congr_left fun e he => ?_).trans (List.map_id _)
    obtain ⟨hkey, hvalue⟩ := h e.1 e.2 (OrdMap.mem_entries.1 he)
    rw [hkey.toValid, hvalue.toValid]
    rfl
  rw [PartitionData.asText, hsame]
  exact OrdMap.overlay_entries _

/-! ## Export and import -/

/-- The import of what is exported succeeds, reports the number of keys of the partition and stores exactly its keys
and values. -/
def RoundTrips (fmt : JSONFormat) (order : List (Bytes × Bytes) → List (Bytes × Bytes))
    (source target : PartitionManager) (p : UInt32) : Prop :=
  ∃ jsonData, source.exportPartitionData fmt p = .ok jsonData ∧
    (target.importPartitionData fmt order none p jsonData).2 = .ok (Int64.ofNat (entriesOf source.db p).length) ∧
    ∀ k, (target.importPartitionData fmt order none p jsonData).1.db.get (makePartitionKey p k) =
      source.db.get (makePartitionKey p k)

section
variable (fmt : JSONFormat) {order : List (Bytes × Bytes) → List (Bytes × Bytes)} (horder : ∀ l, (order l).Perm l)
  {source target : PartitionManager} {p : UInt32}
include horder

/-- **What the importing node ends with**: the text of the exported map. -/
theorem get_imported (htarget : ∀ k, target.db.get (makePartitionKey p k) = none) (k : Bytes) :
    (target.importPartitionData fmt order none p (fmt.marshal ⟨p, keyValues source.db p⟩)).1.db.get
      (makePartitionKey p k) = (PartitionData.asText ⟨p, keyValues source.db p⟩).keyValues.get k := by
  rw [importPartitionData_marshal fmt horder target ⟨p, keyValues source.db p⟩]
  dsimp only
  rw [get_overlay_stored, htarget, Option.or_none]

/-- **When export and import are inverse**: exactly if all keys of the partition, behind their prefix, and all its
values are UTF-8, and, for the last partition id, if there is no key. -/
theorem roundTrips_iff (hhost : source.hasPartition p = true)
    (htarget : ∀ k, target.db.get (makePartitionKey p k) = none) :
    RoundTrips fmt order source target p ↔
      (∀ k v, source.db.get (makePartitionKey p k) = some v → Utf8.Valid k ∧ Utf8.Valid v) ∧
      (p = 0xffffffff → ∀ k, source.db.get (makePartitionKey p k) = none) := by
  have hexport : source.exportPartitionData fmt p = .ok (fmt.marshal ⟨p, keyValues source.db p⟩) := by
    rw [PartitionManager.exportPartitionData, hhost]
    rfl
  constructor
  · rintro ⟨jsonData, hdata, -, hstored⟩
    rw [hexport] at hdata
    cases hdata
    -- what was imported is text, and it is the partition
    have htext : ∀ k, (PartitionData.asText ⟨p, keyValues source.db p⟩).keyValues.get k =
        source.db.get (makePartitionKey p k) := fun k => by
      rw [← hstored k, get_imported fmt horder htarget]
    refine ⟨fun k v hv => textual_asText _ k v ((htext k).trans hv), ?_⟩
    rintro rfl k
    have hempty : keyValues source.db 0xffffffff = OrdMap.empty := OrdMap.ext_get (get_keyValues_last source.db)
    rw [← htext k, hempty]
    rfl
  · rintro ⟨htext, hlast⟩
    have hall : ∀ k, (keyValues source.db p).get k = source.db.get (makePartitionKey p k) := by
      intro k
      by_cases hp : p = 0xffffffff
      · rw [hlast hp k, hp, get_keyValues_last]
      · exact get_keyValues_of_ne hp source.db k
    have htextual : Textual (keyValues source.db p) := fun k v hv => htext k v ((hall k).symm.trans hv)
    refine ⟨_, hexport, ?_, fun k => ?_⟩
    · rw [importPartitionData_marshal fmt horder target ⟨p, keyValues source.db p⟩, asText_of_textual htextual,
        ← stored_eq_entriesOf hall, stored, List.length_map]
    · rw [get_imported fmt horder htarget, asText_of_textual htextual]
      exact hall k

end

/-- A node without data. -/
def freshNode : PartitionManager := { nodeID := "n2", partitions := OrdMap.empty, db := OrdMap.empty }

/-- The one key of partition 7 is text. -/
theorem roundTrips_twoKeys : RoundTrips .escaped id twoKeys.pm freshNode 7 := by
  refine (@roundTrips_iff .escaped id (fun _ => .refl _) twoKeys.pm freshNode 7 (by decide) fun _ => rfl).2
    ⟨fun k v hv => ?_, fun h => absurd h (by decide)⟩
  change ((OrdMap.empty.insert (makePartitionKey 7 [1]) [2]).insert (makePartitionKey 8 [1]) [3]).get _ = _ at hv
  rw [OrdMap.get_insert, if_neg (by simp [makePartitionKey_inj]), OrdMap.get_insert, OrdMap.get_empty] at hv
  split_ifs at hv with hk
  cases hv
  obtain rfl := (makePartitionKey_inj.1 hk).2
  exact ⟨by decide, by decide⟩

/-- A node with one key of partition 7, the byte `0xff`. -/
def binaryKey : PartitionManager :=
  { primaryOfSeven.pm with db := OrdMap.empty.insert (makePartitionKey 7 [0xff]) [1] }

/-- **A binary key does not survive**: the import succeeds and stores U+FFFD in the place of the key. -/
theorem importPartitionData_binaryKey :
    binaryKey.db.get (makePartitionKey 7 [0xff]) = some [1] ∧
    ∀ fmt : JSONFormat, ∃ jsonData, binaryKey.exportPartitionData fmt 7 = .ok jsonData ∧
      (freshNode.importPartitionData fmt id none 7 jsonData).2 = .ok 1 ∧
      (freshNode.importPartitionData fmt id none 7 jsonData).1.db.get (makePartitionKey 7 [0xff]) = none ∧
      (freshNode.importPartitionData fmt id none 7 jsonData).1.db.get (makePartitionKey 7 [0xef, 0xbf, 0xbd]) =
        some [1] := by
  refine ⟨by decide, fun fmt => ?_⟩
  have himport := @importPartitionData_marshal fmt id (fun _ => .refl _) freshNode ⟨7, keyValues binaryKey.db 7⟩
  dsimp only at himport
  refine ⟨_, rfl, ?_⟩
  rw [himport]
  exact ⟨by decide, by decide, by decide⟩

end RocksKV.Storage
