import RocksKV.Storage.DeletePartition
/-!
# Scans of a partition's range (`pkg/storage/partition.go:113-123, 462-485, 544-582`)

| here | there |
| --- | --- |
| `pastEnd`            | the end test of `ExportPartitionData` and `ClearPartitionData` (`:466-471`, `:557-562`) |
| `prefixScan`         | the keys their loops get to see |
| `deleteEach`         | the deletions of `ClearPartitionData` (`:571-575`), with the one that fails, if any |
| `clearPartitionData` | `ClearPartitionData` (`:544-582`) |

Two tests end a scan of a range. `ExportSST` and `DeletePartitionData` compare the whole key with the end
(`scanRange`); `ExportPartitionData` and `ClearPartitionData` compare its first six bytes, and do not stop at a
shorter key at all. On the keys the node makes itself both see exactly the partition (`scanRange_storageKeys`). On
other keys they part at a short key past the end of the range, which `ClearPartitionData` runs over and deletes.
-/

namespace RocksKV.Storage

open Lib

/-! ## The keys of a partition -/

/-- A key the node makes for partition `q`. -/
def IsStorageKey (q : UInt32) (s : Bytes) : Prop :=
  (∃ k, s = makePartitionKey q k) ∨ ∃ pk f, s = makeFieldKey q pk f

theorem isStorageKey_iff {q : UInt32} {s : Bytes} : IsStorageKey q s ↔ ∃ k, s = makePartitionKey q k := by
  constructor
  · rintro (hplain | ⟨pk, f, rfl⟩)
    · exact hplain
    · exact ⟨_, makeFieldKey_eq q pk f⟩
  · exact .inl

instance (q : UInt32) (s : Bytes) : Decidable (IsStorageKey q s) :=
  decidable_of_iff ((getPartitionRange q).1 <+: s) <| by
    rw [isStorageKey_iff]
    exact exists_congr fun k => eq_comm

theorem compareBytes_swap : ∀ a b : Bytes, compareBytes b a = -compareBytes a b
  | [], [] => rfl
  | [], _ :: _ => rfl
  | _ :: _, [] => rfl
  | x :: a, y :: b => by
    rw [compareBytes, compareBytes, compareBytes_swap a b]
    split_ifs with hyx hxy
    · exact absurd hxy (not_lt.2 hyx.le)
    all_goals rfl

theorem compareBytes_nonpos {a b : Bytes} : compareBytes a b ≤ 0 ↔ a ≤ b := by
  have hswap := compareBytes_swap b a
  rw [← not_lt, ← not_lt, ← compareBytes_neg]
  omega

/-- The two comparisons with the bounds of a range say that the key is in it. -/
theorem compareBytes_inRange {p : UInt32} {s : Bytes} :
    compareBytes (getPartitionRange p).1 s ≤ 0 ∧ compareBytes s (getPartitionRange p).2 < 0 ↔ InRange p s :=
  and_congr compareBytes_nonpos compareBytes_neg

theorem inRange_storageKey {p q : UInt32} (hp : p.toNat < 2 ^ 32 - 1) {s : Bytes} (hs : IsStorageKey q s) :
    InRange p s ↔ p = q := by
  obtain ⟨k, rfl⟩ := isStorageKey_iff.1 hs
  constructor
  · intro h
    exact (eq_of_inRange h).symm
  · rintro rfl
    exact inRange_makePartitionKey hp k

theorem isStorageKey_unique {q r : UInt32} {s : Bytes} (hq : IsStorageKey q s) (hr : IsStorageKey r s) : q = r := by
  obtain ⟨k, rfl⟩ := isStorageKey_iff.1 hq
  obtain ⟨l, h⟩ := isStorageKey_iff.1 hr
  exact (makePartitionKey_inj.1 h).1

/-- The entries a scan of the range visits are those in it, in their order. -/
theorem scanRange_eq_filter (db : RocksDB) (p : UInt32) :
    scanRange db p = db.entries.filter fun e => decide (InRange p e.1) := by
  refine OrdMap.eq_of_mem_iff (sorted_scanRange db p) (db.sorted.sublist List.filter_sublist) ?_
  rintro ⟨k, v⟩
  rw [mem_scanRange, List.mem_filter, OrdMap.mem_entries, decide_eq_true_iff]

theorem scanRange_storageKeys {db : RocksDB} {p : UInt32} (hp : p.toNat < 2 ^ 32 - 1)
    (hdb : ∀ e ∈ db.entries, ∃ q, IsStorageKey q e.1) :
    scanRange db p = db.entries.filter fun e => decide (IsStorageKey p e.1) := by
  rw [scanRange_eq_filter]
  refine List.filter_congr fun e he => ?_
  obtain ⟨q, hq⟩ := hdb e he
  rw [decide_eq_decide, inRange_storageKey hp hq]
  constructor
  · rintro rfl
    exact hq
  · intro h
    exact isStorageKey_unique h hq

/-- **Partition ranges isolate partitions**: a key made for `q` is in the range of `p` exactly if `p = q`, and parses
back to `q`; the next range starts where this one ends; and where all keys are made by the node, a scan of the range
visits exactly the keys of `p`. -/
theorem getPartitionRange_isolates {p : UInt32} (hp : p.toNat < 2 ^ 32 - 1) :
    (∀ (q : UInt32) (s : Bytes), IsStorageKey q s →
      (compareBytes (getPartitionRange p).1 s ≤ 0 ∧ compareBytes s (getPartitionRange p).2 < 0 ↔ p = q)) ∧
    (∀ (q : UInt32) (k : Bytes), parsePartitionKey (makePartitionKey q k) = .ok (q, k)) ∧
    (∀ (q : UInt32) (pk f : Bytes), parsePartitionKey (makeFieldKey q pk f) = .ok (q, documentPrefix pk ++ f)) ∧
    (getPartitionRange p).2 = (getPartitionRange (p + 1)).1 ∧
    ∀ db : RocksDB, (∀ e ∈ db.entries, ∃ q, IsStorageKey q e.1) →
      scanRange db p = db.entries.filter fun e => decide (IsStorageKey p e.1) := by
  refine ⟨fun q s hs => ?_, parsePartitionKey_makePartitionKey, fun q pk f => ?_, rfl,
    fun db => scanRange_storageKeys hp⟩
  · rw [compareBytes_inRange, inRange_storageKey hp hs]
  · rw [makeFieldKey_eq, parsePartitionKey_makePartitionKey]

/-- The range whose end carries into the second byte. -/
theorem getPartitionRange_isolates_carry :
    (compareBytes (getPartitionRange 255).1 (makePartitionKey 256 [0xff]) ≤ 0 ∧
      compareBytes (makePartitionKey 256 [0xff]) (getPartitionRange 255).2 < 0 ↔ (255 : UInt32) = 256) ∧
    (getPartitionRange 255).2 = (getPartitionRange 256).1 :=
  have h := @getPartitionRange_isolates 255 (by decide)
  ⟨h.1 256 _ (.inl ⟨_, rfl⟩), h.2.2.2.1⟩

/-! ## The end test on the first six bytes -/

/-- `len(key) >= len(endKey) && string(key[:len(endKey)]) >= string(endKey)`. -/
def pastEnd (endKey key : Bytes) : Bool :=
  decide (endKey.length ≤ key.length) && decide (endKey ≤ key.take endKey.length)

def prefixScan (db : RocksDB) (p : UInt32) : List (Bytes × Bytes) :=
  (db.seek (getPartitionRange p).1).takeWhile fun e => !pastEnd (getPartitionRange p).2 e.1

/-- On a key that is long enough the first bytes decide. -/
theorem le_take_iff {endKey key : Bytes} (h : endKey.length ≤ key.length) :
    endKey ≤ key.take endKey.length ↔ endKey ≤ key := by
  constructor
  · intro hle
    exact hle.trans (by simpa using le_append (key.take endKey.length) (key.drop endKey.length))
  · intro hle
    by_contra hlt
    have hlong := lt_append_of_lt (List.length_take_of_le h) (not_le.1 hlt) (key.drop endKey.length) []
    rw [List.take_append_drop, List.append_nil] at hlong
    exact absurd hle (not_le.2 hlong)

theorem pastEnd_eq_true {endKey key : Bytes} :
    pastEnd endKey key = true ↔ endKey.length ≤ key.length ∧ endKey ≤ key := by
  rw [pastEnd, Bool.and_eq_true, decide_eq_true_iff, decide_eq_true_iff]
  exact and_congr_right le_take_iff

/-- The first key at which the comparison of whole keys stops, if there is one, is no shorter than the end. -/
def StopsAlike (db : RocksDB) (p : UInt32) : Prop :=
  ∀ e ∈ ((db.seek (getPartitionRange p).1).dropWhile fun e =>
    decide (compareBytes e.1 (getPartitionRange p).2 < 0)).head?, (getPartitionRange p).2.length ≤ e.1.length

instance (db : RocksDB) (p : UInt32) : Decidable (StopsAlike db p) :=
  Option.decidableForallMem _

/-- Reading on under the weaker of two tests reads no more exactly if the weaker test fails, too, where the stronger
one stopped. -/
theorem takeWhile_eq_takeWhile_iff {α : Type} {p q : α → Bool} (hpq : ∀ a, p a = true → q a = true) :
    ∀ l : List α, l.takeWhile q = l.takeWhile p ↔ ∀ a ∈ (l.dropWhile p).head?, q a = false
  | [] => by simp
  | a :: l => by
    cases hp : p a with
    | true =>
      rw [List.takeWhile_cons_of_pos (hpq a hp), List.takeWhile_cons_of_pos hp, List.dropWhile_cons_of_pos hp,
        List.cons_inj_right]
      exact takeWhile_eq_takeWhile_iff hpq l
    | false =>
      rw [List.takeWhile_cons_of_neg (p := p) (by simp [hp]), List.dropWhile_cons_of_neg (by simp [hp])]
      cases hq : q a <;> simp [hq]

theorem takeWhile_sublist_takeWhile {α : Type} {p q : α → Bool} (hpq : ∀ a, p a = true → q a = true) (l : List α) :
    (l.takeWhile p).Sublist (l.takeWhile q) := by
  have hagain : (l.takeWhile q).takeWhile p = l.takeWhile p := by
    rw [List.takeWhile_takeWhile]
    congr 1
    funext a
    cases hp : p a with
    | true => simp [hpq a hp]
    | false => simp
  rw [← hagain]
  exact List.takeWhile_sublist _

/-- A key before the end ends neither scan. -/
theorem not_pastEnd_of_before {endKey : Bytes} (e : Bytes × Bytes) (he : decide (compareBytes e.1 endKey < 0) = true) :
    (!pastEnd endKey e.1) = true := by
  rw [decide_eq_true_iff, compareBytes_neg] at he
  rw [Bool.not_eq_true', ← Bool.not_eq_true, pastEnd_eq_true]
  exact fun h => absurd he (not_lt.2 h.2)

/-- **The two end tests stop at the same key** exactly if the first key past the end is not a short one. -/
theorem prefixScan_eq_scanRange_iff {db : RocksDB} {p : UInt32} :
    prefixScan db p = scanRange db p ↔ StopsAlike db p := by
  rw [prefixScan, scanRange, takeWhile_eq_takeWhile_iff not_pastEnd_of_before]
  refine forall₂_congr fun e he => ?_
  -- the comparison of whole keys stopped at `e`, so only its length is left to decide
  have hstop : ¬ compareBytes e.1 (getPartitionRange p).2 < 0 := by
    have := List.head?_dropWhile_not (fun e : Bytes × Bytes => decide (compareBytes e.1 (getPartitionRange p).2 < 0))
      (db.seek (getPartitionRange p).1)
    rw [Option.mem_def.1 he] at this
    simpa using this
  rw [compareBytes_neg, not_lt] at hstop
  rw [Bool.not_eq_false', pastEnd_eq_true]
  exact and_iff_left hstop

/-- The test on the first bytes never stops earlier. -/
theorem scanRange_sublist_prefixScan (db : RocksDB) (p : UInt32) : (scanRange db p).Sublist (prefixScan db p) :=
  takeWhile_sublist_takeWhile not_pastEnd_of_before _

theorem get_of_mem_prefixScan {db : RocksDB} {p : UInt32} {e : Bytes × Bytes} (h : e ∈ prefixScan db p) :
    db.get e.1 = some e.2 :=
  OrdMap.mem_entries.1 ((List.dropWhile_sublist _).subset ((List.takeWhile_sublist _).subset h))

theorem sorted_prefixScan (db : RocksDB) (p : UInt32) : (prefixScan db p).Pairwise fun a b => a.1 < b.1 :=
  (db.sorted_seek _).sublist (List.takeWhile_sublist _)

/-! ## Clearing a partition -/

/-- The deletions one by one; the first to fail ends them. -/
def deleteEach (deleteError : Bytes → Option String) : List Bytes → RocksDB → RocksDB × Except String Unit
  | [], db => (db, .ok ())
  | key :: keys, db =>
    match deleteError key with
    | some e => (db, .error s!"failed to delete key: {e}")
    | none => deleteEach deleteError keys (db.erase key)

def PartitionManager.clearPartitionData (pm : PartitionManager) (deleteError : Bytes → Option String) (p : UInt32) :
    PartitionManager × Except String Unit :=
  let keysToDelete := (prefixScan pm.db p).map Prod.fst
  let (db, result) := deleteEach deleteError keysToDelete pm.db
  ({ pm with db := db }, result)

theorem deleteEach_ok : ∀ (keys : List Bytes) (db : RocksDB),
    deleteEach (fun _ => none) keys db = (db.write (keys.map .delete), .ok ())
  | [], _ => rfl
  | key :: keys, db => by
    rw [deleteEach, List.map_cons, write_cons]
    exact deleteEach_ok keys _

theorem get_clearPartitionData (pm : PartitionManager) (p : UInt32) (k : Bytes) :
    (pm.clearPartitionData (fun _ => none) p).1.db.get k =
      if k ∈ (prefixScan pm.db p).map Prod.fst then none else pm.db.get k := by
  rw [PartitionManager.clearPartitionData, deleteEach_ok]
  dsimp only
  rw [get_write_deletes]
  split_ifs <;> rfl

theorem mem_keys_scanRange {db : RocksDB} {p : UInt32} {k : Bytes} :
    k ∈ (scanRange db p).map Prod.fst ↔ InRange p k ∧ db.get k ≠ none := by
  rw [List.mem_map]
  constructor
  · rintro ⟨⟨a, v⟩, hmem, rfl⟩
    obtain ⟨hget, hin⟩ := mem_scanRange.1 hmem
    exact ⟨hin, by simp [hget]⟩
  · rintro ⟨hin, hne⟩
    obtain ⟨v, hv⟩ := Option.ne_none_iff_exists'.1 hne
    exact ⟨(k, v), mem_scanRange.2 ⟨hv, hin⟩, rfl⟩

/-- Clearing leaves what is outside the range exactly if its scan saw nothing else. -/
theorem clearPartitionData_eq_without_iff (pm : PartitionManager) (p : UInt32) :
    (pm.clearPartitionData (fun _ => none) p).1.db = without pm.db p ↔ prefixScan pm.db p = scanRange pm.db p := by
  constructor
  · intro h
    refine OrdMap.eq_of_mem_iff (sorted_prefixScan _ p) (sorted_scanRange _ p) fun e => ?_
    refine ⟨fun he => ?_, fun he => (scanRange_sublist_prefixScan _ p).subset he⟩
    have hget := get_of_mem_prefixScan he
    have hgone := get_clearPartitionData pm p e.1
    rw [if_pos (List.mem_map_of_mem he), h, get_without] at hgone
    split_ifs at hgone with hin
    · exact mem_scanRange.2 ⟨hget, hin⟩
    · rw [hget] at hgone
      cases hgone
  · intro h
    refine OrdMap.ext_get fun k => ?_
    rw [get_clearPartitionData, h, get_without]
    simp only [mem_keys_scanRange]
    by_cases hin : InRange p k
    · by_cases hk : pm.db.get k = none <;> simp [hin, hk]
    · simp [hin]

/-- Clearing changes nothing exactly if its scan saw nothing. -/
theorem clearPartitionData_eq_self_iff (pm : PartitionManager) (p : UInt32) :
    (pm.clearPartitionData (fun _ => none) p).1.db = pm.db ↔ prefixScan pm.db p = [] := by
  constructor
  · intro h
    refine List.eq_nil_iff_forall_not_mem.2 fun e he => ?_
    have hgone := get_clearPartitionData pm p e.1
    rw [if_pos (List.mem_map_of_mem he), h, get_of_mem_prefixScan he] at hgone
    cases hgone
  · intro h
    refine OrdMap.ext_get fun k => ?_
    rw [get_clearPartitionData, h]
    simp

/-- **When the two range scans agree**: the test on the first six bytes stops where the comparison of whole keys does,
and clearing leaves the database that deleting leaves, exactly if the first key past the end of the range is not
shorter than the end. On a node that does not host the partition deleting is refused, and only a scan that
sees no key agrees with it. -/
theorem clearPartitionData_agrees_iff (s : Server) (p : UInt32) :
    (prefixScan s.db p = scanRange s.db p ↔ StopsAlike s.db p) ∧
    ∃ (s' : Server) (r : Except String Unit),
      (∀ fuel, rounds (scanRange s.db p).length ≤ fuel → s.deletePartitionData (fun _ => none) fuel p = some (s', r)) ∧
      ((s.pm.clearPartitionData (fun _ => none) p).1.db = s'.db ↔
        if s.pm.hasPartition p then StopsAlike s.db p else prefixScan s.db p = []) := by
  refine ⟨prefixScan_eq_scanRange_iff, ?_⟩
  cases hhost : s.pm.hasPartition p with
  | true =>
    refine ⟨_, _, fun fuel hfuel => (deletePartitionData_of_hosted hhost fuel).trans (if_pos hfuel), ?_⟩
    rw [if_pos rfl, ← prefixScan_eq_scanRange_iff]
    exact clearPartitionData_eq_without_iff s.pm p
  | false =>
    refine ⟨s, _, fun fuel _ => by rw [Server.deletePartitionData, hhost]; rfl, ?_⟩
    rw [if_neg (by simp)]
    exact clearPartitionData_eq_self_iff s.pm p

/-- A node that hosts partition 7 and has one raw key, the byte `'z'`. -/
def rawKey : Server :=
  { primaryOfSeven with pm := { primaryOfSeven.pm with db := OrdMap.empty.insert [0x7a] [1] } }

/-- **The scans do not agree**: clearing partition 7, which has no key, deletes the raw key; deleting leaves it. -/
theorem clearPartitionData_deletes_rawKey :
    (rawKey.pm.clearPartitionData (fun _ => none) 7).1.db.get [0x7a] = none ∧
    ∀ fuel, 0 < fuel → ∃ s', rawKey.deletePartitionData (fun _ => none) fuel 7 = some (s', .ok ()) ∧
      s'.db.get [0x7a] = some [1] := by
  refine ⟨by decide, fun fuel hfuel => ⟨_, (deletePartitionData_of_hosted (by decide) fuel).trans (if_pos ?_), ?_⟩⟩
  · rw [rounds_le, show (scanRange rawKey.db 7).length = 0 by decide]
    unfold batchSize
    omega
  · show (without rawKey.db 7).get _ = _
    decide

end RocksKV.Storage
