import RocksKV.Storage.Retransmission
import RocksKV.Storage.WalReplicator
/-!
# Replication entries without `op_type` (`proto/rockskv.proto:479-493`, `pkg/storage/server.go:1384-1427`)

| here | there |
| --- | --- |
| `WireEntry`               | `message ReplicationEntry`, with every field; an enum field takes any number |
| `WireEntry.opTypeOf`      | the `switch` on `entry.OpType` in `Replicate` (`server.go:1388-1417`), down to its `default` |
| `replicateWire`           | `Replicate` on such entries |
| `QueuedEntry`             | `type ReplicationEntry` (`replication.go:31-37`) |
| `QueuedEntry.toWire`      | the conversion in `PartitionReplicator.sendBatch` (`replication.go:293-306`) |
| `WALEntry.toWire`         | the conversion in `WALReplicator.sendBatch` (`wal_replicator.go:291-304`) |

**Bug**: both senders leave `op_type` unset and mark a delete by `is_delete`. The zero value of the enum is `REP_OP_PUT`, so
`Replicate` takes the branch of a put and stores the entry's value, which is empty for a delete; `is_delete` is looked at
in the `default` branch only, that is for numbers the enum does not have.
-/

namespace RocksKV.Storage

open Lib

structure WireEntry where
  offset    : Int
  key       : Bytes
  value     : Bytes
  isDelete  : Bool
  timestamp : Int64
  opType    : Int32
  deriving DecidableEq

namespace WireEntry

/-- The branch of the `switch`, as the operation it carries out. -/
def opTypeOf (e : WireEntry) : Pb.ReplicationOpType :=
  if e.opType = 1 then .delete
  else if e.opType = 2 then .fieldBatch
  else if e.opType = 0 then .put
  -- unknown to this version: the deprecated flag decides
  else if e.isDelete then .delete
  else .put

def typed (e : WireEntry) : Pb.ReplicationEntry :=
  { offset := e.offset, key := e.key, value := e.value, opType := e.opTypeOf }

/-- What an entry without a type, as its sender means it, does to the store. -/
def legacyWrite (p : UInt32) (e : WireEntry) : Write Bytes Bytes :=
  if e.isDelete then .delete (makePartitionKey p e.key) else .put (makePartitionKey p e.key) e.value

end WireEntry

def Server.replicateWire (s : Server) (partitionId : UInt32) (entries : List WireEntry) :
    Server × Pb.ReplicateResponse :=
  s.replicate partitionId (entries.map WireEntry.typed)

/-! ## The senders -/

structure QueuedEntry where
  offset    : Int64
  key       : Bytes
  value     : Bytes
  isDelete  : Bool
  timestamp : Int64
  deriving DecidableEq

/-- An entry as both senders build it: the type is not set. -/
def legacyEntry (offset : Int) (key value : Bytes) (isDelete : Bool) (timestamp : Int64) : WireEntry :=
  { offset := offset, key := key, value := value, isDelete := isDelete, timestamp := timestamp, opType := 0 }

def QueuedEntry.toWire (e : QueuedEntry) : WireEntry :=
  legacyEntry e.offset.toInt e.key e.value e.isDelete e.timestamp

def WALEntry.toWire (e : WALEntry) : WireEntry :=
  legacyEntry (Int64.ofNat e.sequence).toInt e.key e.value e.isDelete e.timestamp

/-- The entry is one of a sender that sets only `is_delete`. -/
def WireEntry.Legacy (e : WireEntry) : Prop := (∃ q : QueuedEntry, e = q.toWire) ∨ ∃ w : WALEntry, e = w.toWire

theorem WireEntry.Legacy.opType {e : WireEntry} (h : e.Legacy) : e.opType = 0 := by
  obtain ⟨q, rfl⟩ | ⟨w, rfl⟩ := h <;> rfl

/-! ## What `Replicate` makes of them -/

/-- No delete is the last entry of its key. -/
def NoFinalDelete : List WireEntry → Prop
  | [] => True
  | e :: rest => (e.isDelete = true → ∃ later ∈ rest, later.key = e.key) ∧ NoFinalDelete rest

instance : ∀ es, Decidable (NoFinalDelete es)
  | [] => isTrue trivial
  | e :: rest =>
    have := instDecidableNoFinalDelete rest
    inferInstanceAs (Decidable ((e.isDelete = true → ∃ later ∈ rest, later.key = e.key) ∧ NoFinalDelete rest))

/-- The write of an entry that is taken for a put. -/
def WireEntry.asPut (p : UInt32) (e : WireEntry) : Write Bytes Bytes := .put (makePartitionKey p e.key) e.value

theorem opTypeOf_of_zero {e : WireEntry} (h : e.opType = 0) : e.opTypeOf = .put := by
  rw [WireEntry.opTypeOf, h]
  rfl

/-- Entries that are all applied by one write each. -/
theorem segmentWrites_of_single {p : UInt32} {f : WireEntry → Write Bytes Bytes} : ∀ {es : List WireEntry},
    (∀ e ∈ es, entryWrites p e.typed = some [f e]) → segmentWrites p (es.map WireEntry.typed) = es.map f
  | [], _ => rfl
  | e :: es, h => by
    rw [List.forall_mem_cons] at h
    simp only [List.map_cons, segmentWrites, h.1, segmentWrites_of_single h.2, List.singleton_append]

theorem entryWrites_of_zero (p : UInt32) {e : WireEntry} (h : e.opType = 0) : entryWrites p e.typed = some [e.asPut p] := by
  simp only [entryWrites, WireEntry.typed, opTypeOf_of_zero h]
  rfl

theorem opTypeOf_of_unknown {e : WireEntry} (h : e.opType ≠ 0 ∧ e.opType ≠ 1 ∧ e.opType ≠ 2) :
    e.opTypeOf = if e.isDelete then .delete else .put := by
  rw [WireEntry.opTypeOf, if_neg h.2.1, if_neg h.2.2, if_neg h.1]

theorem entryWrites_of_unknown (p : UInt32) {e : WireEntry} (h : e.opType ≠ 0 ∧ e.opType ≠ 1 ∧ e.opType ≠ 2) :
    entryWrites p e.typed = some [e.legacyWrite p] := by
  simp only [entryWrites, WireEntry.typed, opTypeOf_of_unknown h, WireEntry.legacyWrite]
  cases e.isDelete <;> rfl

theorem db_replicateWire {p : UInt32} {r : Server} (hr : r.Writable p) (es : List WireEntry) :
    (r.replicateWire p es).1.db = r.db.write (segmentWrites p (es.map WireEntry.typed)) := by
  rw [Server.replicateWire, replicate_eq hr]
  rfl

/-- A batch without field batches is applied to its end. -/
theorem replicateFrom_success {p : UInt32} : ∀ {es : List Pb.ReplicationEntry} {r : Server} {lastApplied : Int},
    r.Writable p → (∀ e ∈ es, WellFormed e) → (r.replicateFrom p lastApplied es).2.success = true
  | [], _, _, _, _ => rfl
  | e :: es, r, lastApplied, hr, hes => by
    rw [List.forall_mem_cons] at hes
    rw [Server.replicateFrom]
    obtain ⟨m, hws, -⟩ | ⟨ws, -, he⟩ := replicateEntry_eq hr e
    · obtain ⟨ws, hws'⟩ := (wellFormed_iff (p := p)).1 hes.1
      rw [hws] at hws'
      cases hws'
    · rw [he]
      have hr' : Server.Writable { r with pm := { r.pm with db := r.db.write ws } } p := hr
      exact replicateFrom_success hr' hes.2

theorem replicateWire_success {p : UInt32} {r : Server} (hr : r.Writable p) {es : List WireEntry}
    (h : ∀ e ∈ es, e.opTypeOf ≠ .fieldBatch) : (r.replicateWire p es).2.success = true := by
  rw [Server.replicateWire, Server.replicate, hr.hasPartition]
  refine replicateFrom_success hr fun e he => ?_
  obtain ⟨w, hw, rfl⟩ := List.mem_map.1 he
  exact fun hop => absurd hop (h w hw)

/-- **Where `is_delete` decides**: entries whose number the enum does not have are applied as their flag says. -/
theorem replicateWire_unknown {p : UInt32} {r : Server} (hr : r.Writable p) {es : List WireEntry}
    (h : ∀ e ∈ es, e.opType ≠ 0 ∧ e.opType ≠ 1 ∧ e.opType ≠ 2) :
    (r.replicateWire p es).2.success = true ∧
      (r.replicateWire p es).1.db = r.db.write (es.map (WireEntry.legacyWrite p)) := by
  refine ⟨replicateWire_success hr fun e he => ?_, ?_⟩
  · rw [opTypeOf_of_unknown (h e he)]
    cases e.isDelete <;> decide
  · rw [db_replicateWire hr, segmentWrites_of_single fun e he => entryWrites_of_unknown p (h e he)]

/-! ## Deletes that are taken for puts -/

theorem lastWrite_map_eq_none {p : UInt32} {f : WireEntry → Write Bytes Bytes}
    (hf : ∀ e, (f e).key = makePartitionKey p e.key) {k : Bytes} {es : List WireEntry} :
    lastWrite k (es.map f) = none ↔ ∀ e ∈ es, k ≠ makePartitionKey p e.key := by
  rw [lastWrite_eq_none, List.forall_mem_map]
  simp only [hf]

theorem key_asPut (p : UInt32) (e : WireEntry) : (e.asPut p).key = makePartitionKey p e.key := rfl

theorem key_legacyWrite (p : UInt32) (e : WireEntry) : (e.legacyWrite p).key = makePartitionKey p e.key := by
  unfold WireEntry.legacyWrite
  split_ifs <;> rfl

/-- Both kinds of writes are to the keys of the entries. -/
theorem lastWrite_none_iff (p : UInt32) (es : List WireEntry) (k : Bytes) :
    lastWrite k (es.map (WireEntry.asPut p)) = none ↔ lastWrite k (es.map (WireEntry.legacyWrite p)) = none := by
  rw [lastWrite_map_eq_none (key_asPut p), lastWrite_map_eq_none (key_legacyWrite p)]

theorem eq_of_none_iff {α : Type} {a b : Option α} (hnone : a = none ↔ b = none)
    (hsome : ∀ x y, a = some x → b = some y → x = y) : a = b := by
  cases ha : a with
  | none => exact (hnone.1 ha).symm
  | some x =>
    cases hb : b with
    | none =>
      rw [hnone.2 hb] at ha
      cases ha
    | some y => rw [hsome x y ha hb]

/-- Puts and the writes that were meant end alike on every key exactly if no delete is the last entry of its key. -/
theorem lastWrite_eq_iff (p : UInt32) : ∀ es : List WireEntry,
    (∀ k, lastWrite k (es.map (WireEntry.asPut p)) = lastWrite k (es.map (WireEntry.legacyWrite p))) ↔ NoFinalDelete es
  | [] => by simp [NoFinalDelete]
  | e :: es => by
    have hlater : lastWrite (makePartitionKey p e.key) (es.map (WireEntry.legacyWrite p)) = none ↔
        ¬ ∃ later ∈ es, later.key = e.key := by
      rw [lastWrite_map_eq_none (key_legacyWrite p)]
      simp only [ne_eq, makePartitionKey_inj, true_and, not_exists, not_and, eq_comm]
    simp only [NoFinalDelete, ← lastWrite_eq_iff p es, List.map_cons, lastWrite, key_legacyWrite]
    constructor
    · intro h
      refine ⟨fun hdelete => ?_, fun k => eq_of_none_iff (lastWrite_none_iff p es k) fun x y hx hy => ?_⟩
      · -- with no later entry, the key would be left with a value by the one and without by the other
        by_contra hlast
        have hk := h (makePartitionKey p e.key)
        rw [(lastWrite_none_iff p es _).2 (hlater.2 hlast), hlater.2 hlast, if_pos (key_asPut p e).symm, if_pos rfl] at hk
        simp [WireEntry.asPut, WireEntry.legacyWrite, hdelete, Write.val] at hk
      · have hk := h k
        rw [hx, hy, Option.some_or, Option.some_or] at hk
        exact Option.some.inj hk
    · rintro ⟨hdelete, hrest⟩ k
      rw [hrest k]
      by_cases hk : k = makePartitionKey p e.key
      · rw [if_pos hk, if_pos (show k = (e.asPut p).key from hk)]
        cases hlegacy : lastWrite k (es.map (WireEntry.legacyWrite p)) with
        | some b => rfl
        | none =>
          have hput : e.isDelete = false := by
            rw [← Bool.not_eq_true]
            exact fun h => hlater.1 (hk ▸ hlegacy) (hdelete h)
          simp [WireEntry.asPut, WireEntry.legacyWrite, hput]
      · rw [if_neg hk, if_neg (show ¬ k = (e.asPut p).key from hk)]

/-- **When legacy entries keep their meaning**: on a hosted partition in status `NORMAL` every batch of them is applied to
its end, and leaves what the senders' writes leave exactly if no delete is the last entry of its key. -/
theorem replicateWire_legacy_iff {r : Server} {p : UInt32} (hr : r.Writable p) {es : List WireEntry}
    (hes : ∀ e ∈ es, e.Legacy) :
    (r.replicateWire p es).2.success = true ∧
    ((r.replicateWire p es).1.db = r.db.write (es.map (WireEntry.legacyWrite p)) ↔ NoFinalDelete es) := by
  have hzero : ∀ e ∈ es, e.opType = 0 := fun e he => (hes e he).opType
  refine ⟨replicateWire_success hr fun e he => ?_, ?_⟩
  · rw [opTypeOf_of_zero (hzero e he)]
    decide
  · rw [db_replicateWire hr, segmentWrites_of_single fun e he => entryWrites_of_zero p (hzero e he),
      ← lastWrite_eq_iff p es]
    constructor
    · intro h k
      refine eq_of_none_iff (lastWrite_none_iff p es k) fun x y hx hy => ?_
      have hk := congrArg (fun db => OrdMap.get db k) h
      simp only [get_write, hx, hy, Option.getD_some] at hk
      exact hk
    · intro h
      refine OrdMap.ext_get fun k => ?_
      rw [get_write, get_write, h k]

/-- A put and its delete, as the partition replicator sends them. -/
def putThenDelete : List WireEntry :=
  [QueuedEntry.toWire ⟨1, [5], [6], false, 10⟩, QueuedEntry.toWire ⟨2, [5], [], true, 20⟩]

/-- Another put of the key, which the WAL replicator sends, hides the delete. -/
theorem replicateWire_legacy_overwritten :
    (primaryOfSeven.replicateWire 7 (putThenDelete ++ [WALEntry.toWire ⟨3, [5], [7], false, 30⟩])).1.db =
      primaryOfSeven.db.write ((putThenDelete ++ [WALEntry.toWire ⟨3, [5], [7], false, 30⟩]).map
        (WireEntry.legacyWrite 7)) := by
  have hlegacy : ∀ e ∈ putThenDelete ++ [WALEntry.toWire ⟨3, [5], [7], false, 30⟩], e.Legacy := by
    refine List.forall_mem_append.2 ⟨?_, List.forall_mem_singleton.2 (.inr ⟨_, rfl⟩)⟩
    exact List.forall_mem_cons.2 ⟨.inl ⟨_, rfl⟩, List.forall_mem_singleton.2 (.inl ⟨_, rfl⟩)⟩
  exact (replicateWire_legacy_iff ⟨_, rfl, rfl⟩ hlegacy).2.2 (by decide)

/-- **A replicated delete stores an empty value**: the key is there afterwards. -/
theorem replicateWire_delete_stores :
    (primaryOfSeven.replicateWire 7 putThenDelete).2.success = true ∧
    (primaryOfSeven.replicateWire 7 putThenDelete).1.db.get (makePartitionKey 7 [5]) = some [] ∧
    (primaryOfSeven.db.write (putThenDelete.map (WireEntry.legacyWrite 7))).get (makePartitionKey 7 [5]) = none := by
  decide

end RocksKV.Storage
