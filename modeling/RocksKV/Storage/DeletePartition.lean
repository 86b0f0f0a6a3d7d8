import RocksKV.Storage.Transfer
/-!
# Deleting a partition's data (`pkg/storage/migration.go:198-254`)

| here | there |
| --- | --- |
| `batchSize`           | the constant of that name (`:208`) |
| `fillBatch`           | the scan that fills one batch (`:216-230`) |
| `deleteLoop`          | the loop over the batches (`:214-243`) |
| `deletePartitionData` | `DeletePartitionData`; `CompactRange` (`:246`) changes no key and no value |

Every round scans the range from its start again, on the database the rounds before it have left, and the loop
ends when a scan finds nothing. The loop carries fuel, and `writeError` says which round's write fails. A round
removes the first `batchSize` keys of what is left of the range (`scanRange_round`), so the rounds are counted by
the keys in the range (`deleteLoop_eq`).
-/

namespace RocksKV.Storage

open Lib

def batchSize : Nat := 10000

/-- The deletions for the keys the iterator meets, until the batch is full or a key is past the end; `count` of
them are in the batch already. -/
def fillBatch (size : Nat) (endKey : Bytes) : Nat → List (Bytes × Bytes) → List (Write Bytes Bytes)
  | _, [] => []
  | count, e :: rest =>
    if count < size then
      if 0 ≤ compareBytes e.1 endKey then [] else .delete e.1 :: fillBatch size endKey (count + 1) rest
    else []

/-- The database at the end, and the number of keys deleted or the error of a write. -/
def deleteLoop (size : Nat) (writeError : Nat → Option String) (startKey endKey : Bytes) :
    (fuel round keyCount : Nat) → RocksDB → Option (RocksDB × Except String Nat)
  | 0, _, _, _ => none
  | fuel + 1, round, keyCount, db =>
    let batch := fillBatch size endKey 0 (db.seek startKey)
    if batch.length = 0 then some (db, .ok keyCount)
    else match writeError round with
      | some e => some (db, .error s!"failed to delete partition data batch: {e}")
      | none => deleteLoop size writeError startKey endKey fuel (round + 1) (keyCount + batch.length) (db.write batch)

def Server.deletePartitionData (s : Server) (writeError : Nat → Option String) (fuel : Nat) (p : UInt32) :
    Option (Server × Except String Unit) :=
  if !s.pm.hasPartition p then some (s, .error s!"partition {p} not found")
  else
    let (startKey, endKey) := getPartitionRange p
    (deleteLoop batchSize writeError startKey endKey fuel 0 0 s.db).map fun (db, result) =>
      ({ s with pm := { s.pm with db := db } }, result.map fun _ => ())

/-! ## One round -/

theorem fillBatch_eq (size : Nat) (endKey : Bytes) : ∀ (count : Nat) (l : List (Bytes × Bytes)),
    fillBatch size endKey count l =
      (((l.takeWhile fun e => decide (compareBytes e.1 endKey < 0)).take (size - count)).map Prod.fst).map .delete
  | _, [] => by simp [fillBatch]
  | count, e :: rest => by
    rw [fillBatch, List.takeWhile_cons]
    split_ifs with hfull hend hlt hlt
    · simp at hlt
      omega
    · simp
    · rw [fillBatch_eq size endKey (count + 1) rest, show size - count = (size - (count + 1)) + 1 by omega]
      simp
    · simp at hlt
      omega
    all_goals
      rw [show size - count = 0 by omega]
      simp

/-- A round's batch deletes the first keys of the range. -/
theorem fillBatch_seek (size : Nat) (db : RocksDB) (p : UInt32) :
    fillBatch size (getPartitionRange p).2 0 (db.seek (getPartitionRange p).1) =
      (((scanRange db p).take size).map Prod.fst).map .delete :=
  fillBatch_eq size _ 0 _

theorem length_fillBatch_seek (size : Nat) (db : RocksDB) (p : UInt32) :
    (fillBatch size (getPartitionRange p).2 0 (db.seek (getPartitionRange p).1)).length =
      min size (scanRange db p).length := by
  rw [fillBatch_seek, List.length_map, List.length_map, List.length_take]

/-- The database after a round. -/
def afterRound (size : Nat) (db : RocksDB) (p : UInt32) : RocksDB :=
  db.write ((((scanRange db p).take size).map Prod.fst).map .delete)

theorem get_afterRound (size : Nat) (db : RocksDB) (p : UInt32) (k : Bytes) :
    (afterRound size db p).get k = if k ∈ ((scanRange db p).take size).map Prod.fst then none else db.get k := by
  rw [afterRound, get_write_deletes]
  split_ifs <;> rfl

theorem inRange_of_mem_batch {size : Nat} {db : RocksDB} {p : UInt32} {k : Bytes}
    (h : k ∈ ((scanRange db p).take size).map Prod.fst) : InRange p k := by
  obtain ⟨⟨a, v⟩, ha, rfl⟩ := List.mem_map.1 h
  exact (mem_scanRange.1 (List.mem_of_mem_take ha)).2

theorem get_afterRound_of_not {size : Nat} {db : RocksDB} {p : UInt32} {k : Bytes} (hk : ¬ InRange p k) :
    (afterRound size db p).get k = db.get k := by
  rw [get_afterRound, if_neg fun hmem => hk (inRange_of_mem_batch hmem)]

/-- **A round** removes the first keys of the range and leaves the others. -/
theorem scanRange_round (size : Nat) (db : RocksDB) (p : UInt32) :
    scanRange (afterRound size db p) p = (scanRange db p).drop size := by
  refine OrdMap.eq_of_mem_iff (sorted_scanRange _ p) ((sorted_scanRange db p).sublist (List.drop_sublist _ _)) ?_
  rintro ⟨k, v⟩
  rw [OrdMap.mem_drop_of_sorted (sorted_scanRange db p), mem_scanRange, mem_scanRange, get_afterRound]
  split_ifs with hmem
  · exact iff_of_false (fun h => nomatch h.1) fun h => h.2 hmem
  · exact (and_iff_left hmem).symm

/-! ## The loop -/

theorem deleteLoop_succ (size : Nat) (writeError : Nat → Option String) (p : UInt32) (fuel round keyCount : Nat)
    (db : RocksDB) :
    deleteLoop size writeError (getPartitionRange p).1 (getPartitionRange p).2 (fuel + 1) round keyCount db =
      if min size (scanRange db p).length = 0 then some (db, .ok keyCount)
      else match writeError round with
        | some e => some (db, .error s!"failed to delete partition data batch: {e}")
        | none => deleteLoop size writeError (getPartitionRange p).1 (getPartitionRange p).2 fuel (round + 1)
            (keyCount + min size (scanRange db p).length) (afterRound size db p) := by
  rw [deleteLoop, length_fillBatch_seek, fillBatch_seek]
  rfl

/-- **Whatever fails**, the loop deletes keys of the range and changes nothing else. -/
theorem deleteLoop_get {size : Nat} {writeError : Nat → Option String} {p : UInt32} {r : Except String Nat}
    {db' : RocksDB} (k : Bytes) : ∀ {fuel round keyCount : Nat} {db : RocksDB},
    deleteLoop size writeError (getPartitionRange p).1 (getPartitionRange p).2 fuel round keyCount db = some (db', r) →
      db'.get k = db.get k ∨ InRange p k ∧ db'.get k = none
  | 0, _, _, _, h => by cases h
  | fuel + 1, round, keyCount, db, h => by
    rw [deleteLoop_succ] at h
    split_ifs at h with hempty
    · cases h
      exact .inl rfl
    · cases hw : writeError round with
      | some e =>
        rw [hw] at h
        cases h
        exact .inl rfl
      | none =>
        rw [hw] at h
        rcases deleteLoop_get k h with hsame | hgone
        · rw [get_afterRound] at hsame
          split_ifs at hsame with hmem
          · exact .inr ⟨inRange_of_mem_batch hmem, hsame⟩
          · exact .inl hsame
        · exact .inr hgone

/-- The database without the partition's range. -/
def without (db : RocksDB) (p : UInt32) : RocksDB := db.keep fun k => decide (¬ InRange p k)

theorem get_without (db : RocksDB) (p : UInt32) (k : Bytes) :
    (without db p).get k = if InRange p k then none else db.get k := by
  rw [without, OrdMap.get_keep]
  by_cases h : InRange p k <;> simp [h]

theorem without_of_empty {db : RocksDB} {p : UInt32} (h : scanRange db p = []) : without db p = db := by
  refine OrdMap.ext_get fun k => ?_
  rw [get_without]
  split_ifs with hk
  · exact (scanRange_eq_nil.1 h k hk).symm
  · rfl

theorem without_afterRound (size : Nat) (db : RocksDB) (p : UInt32) :
    without (afterRound size db p) p = without db p := by
  refine OrdMap.ext_get fun k => ?_
  rw [get_without, get_without]
  split_ifs with hk
  · rfl
  · exact get_afterRound_of_not hk

/-- **The loop ends**, with every key of the range deleted, exactly if there is fuel for one round per full batch, for
the rest and for the last round, which finds nothing. -/
theorem deleteLoop_eq {size : Nat} (hsize : 0 < size) (p : UInt32) : ∀ (fuel round keyCount : Nat) (db : RocksDB),
    deleteLoop size (fun _ => none) (getPartitionRange p).1 (getPartitionRange p).2 fuel round keyCount db =
      if (scanRange db p).length + size ≤ size * fuel
      then some (without db p, .ok (keyCount + (scanRange db p).length)) else none
  | 0, _, _, db => by
    rw [if_neg (by omega)]
    rfl
  | fuel + 1, round, keyCount, db => by
    rw [deleteLoop_succ]
    have hfuel : size * (fuel + 1) = size * fuel + size := Nat.mul_succ size fuel
    by_cases hempty : scanRange db p = []
    · simp [hempty, without_of_empty hempty, hfuel]
    · have hpos := List.length_pos_iff.2 hempty
      rw [if_neg (by omega)]
      dsimp only
      rw [deleteLoop_eq hsize p fuel, scanRange_round, without_afterRound, List.length_drop]
      -- with no fuel left there was some for this round only, and this round was not the last
      have hround : (scanRange db p).length - size + size ≤ size * fuel ↔
          (scanRange db p).length + size ≤ size * (fuel + 1) := by
        rcases Nat.eq_zero_or_pos fuel with rfl | hf
        · omega
        · have hle : size ≤ size * fuel := Nat.le_mul_of_pos_right size hf
          omega
      have hcount : keyCount + min size (scanRange db p).length + ((scanRange db p).length - size) =
          keyCount + (scanRange db p).length := by omega
      simp only [hround, hcount]

/-! ## Exactness -/

/-- The rounds for `n` keys: one for each batch, and the last, which finds nothing. -/
def rounds (n : Nat) : Nat := (n + (batchSize - 1)) / batchSize + 1

theorem rounds_le {n fuel : Nat} : rounds n ≤ fuel ↔ n + batchSize ≤ batchSize * fuel := by
  unfold rounds batchSize
  omega

/-- With every write done, deleting takes the rounds the range asks for and leaves what is outside it. -/
theorem deletePartitionData_of_hosted {s : Server} {p : UInt32} (hhost : s.pm.hasPartition p = true) (fuel : Nat) :
    s.deletePartitionData (fun _ => none) fuel p =
      if rounds (scanRange s.db p).length ≤ fuel
      then some ({ s with pm := { s.pm with db := without s.db p } }, .ok ()) else none := by
  rw [Server.deletePartitionData, hhost]
  simp only [Bool.not_true, Bool.false_eq_true, if_false]
  rw [deleteLoop_eq (by decide : 0 < batchSize)]
  simp only [rounds_le]
  split_ifs <;> rfl

/-- **Deleting a partition's data is exact and terminates**: it takes the rounds the number of keys in the range asks
for, and then exactly the keys outside the range are left, with their values. Of the keys the node makes, those
are the keys of the other partitions. -/
theorem deletePartitionData_exact {s : Server} {p : UInt32} (hp : p.toNat < 4096)
    (hhost : s.pm.hasPartition p = true) :
    ∃ s' : Server,
      (∀ fuel, s.deletePartitionData (fun _ => none) fuel p =
        if rounds (scanRange s.db p).length ≤ fuel then some (s', .ok ()) else none) ∧
      (∀ k, s'.db.get k = if InRange p k then none else s.db.get k) ∧
      (∀ key, s'.db.get (makePartitionKey p key) = none) ∧
      ∀ q key, q ≠ p → s'.db.get (makePartitionKey q key) = s.db.get (makePartitionKey q key) := by
  refine ⟨{ s with pm := { s.pm with db := without s.db p } }, deletePartitionData_of_hosted hhost, get_without s.db p,
    fun key => ?_, fun q key hq => ?_⟩
  · show (without s.db p).get _ = none
    rw [get_without, if_pos (inRange_makePartitionKey (by omega) key)]
  · show (without s.db p).get _ = _
    rw [get_without, if_neg fun hin => hq (eq_of_inRange hin)]

/-- A node with one key in each of two partitions, of which it hosts the first. -/
def twoKeys : Server :=
  { primaryOfSeven with
    pm :=
      { primaryOfSeven.pm with
        db := (OrdMap.empty.insert (makePartitionKey 7 [1]) [2]).insert (makePartitionKey 8 [1]) [3] } }

theorem deletePartitionData_twoKeys :
    ∃ s' : Server, twoKeys.deletePartitionData (fun _ => none) 2 7 = some (s', .ok ()) ∧
      s'.db.get (makePartitionKey 7 [1]) = none ∧ s'.db.get (makePartitionKey 8 [1]) = some [3] := by
  obtain ⟨s', hrun, -, hgone, hothers⟩ := @deletePartitionData_exact twoKeys 7 (by decide) (by decide)
  have hrounds : rounds (scanRange twoKeys.db 7).length ≤ 2 := rounds_le.2 (by decide)
  exact ⟨s', (hrun 2).trans (if_pos hrounds), hgone [1], (hothers 8 [1] (by decide)).trans (by decide)⟩

end RocksKV.Storage
