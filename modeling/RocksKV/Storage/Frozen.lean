import RocksKV.Lib.Run
import RocksKV.Storage.Separation
import RocksKV.Storage.Transfer
/-!
# A partition that is not writable (`pkg/storage/partition.go:317-367`, `server.go:572-681`, `:813-838`, `:1373-1433`)

| here | there |
| --- | --- |
| `DataRequest`, `dataStep` | the five write RPCs and `Replicate`, one after another on one node |
| `Server.Frozen`           | the status `ExportSST` sets before it opens its iterator (`server.go:814`), or `OFFLINE` |
| `batchOf`                 | the partition `Replicate` applies a field batch to (`server.go:1392-1405`) |

`PartitionManager.Put`, `Delete` and `BatchPut` refuse a partition that is migrating out ("partition %d is not
writable"). The field handlers and the field batches of `Replicate` go to `FieldStorage` directly, which knows
no status; `frozen_partition` holds for the runs without them. An export that fails leaves the status behind
(`failed_export_restores_iff`).
-/

namespace RocksKV.Storage

open Lib

inductive DataRequest
  | write (disk : Disk) (req : WriteRequest)
  | replicate (partitionId : UInt32) (entries : List Pb.ReplicationEntry)

structure Node where
  server       : Server
  /-- The write requests answered with `Success: true`, the last one first. -/
  acknowledged : List WriteRequest

def dataStep (n : Node) : DataRequest → Option Node
  | .write disk req =>
    let (server, response) := n.server.serve disk req
    some { server := server, acknowledged := if response.success then req :: n.acknowledged else n.acknowledged }
  | .replicate partitionId entries => some { n with server := (n.server.replicate partitionId entries).1 }

/-- The partition is on the node and its status lets nobody write. -/
def Server.Frozen (s : Server) (p : UInt32) : Prop :=
  ∃ q, s.pm.partitions.get p = some q ∧ (q.status = .migratingOut ∨ q.status = .offline)

/-- The field batch of an entry, and the partition it is applied to. -/
def batchOf (partitionId : UInt32) (entry : Pb.ReplicationEntry) : Option (UInt32 × FieldBatch) :=
  match entry.opType, decodeFieldBatch entry.value with
  | .fieldBatch, .ok fb => some (if fb.partitionID = 0 then partitionId else fb.partitionID, fb)
  | _, _ => none

/-- The request makes no field write to partition `p`: a `SetFields` or `DeleteField` for it comes without lease,
to a replica or at another epoch, and a batch for it in a `Replicate` to a hosted partition is empty. -/
def NoFieldWrite (p : UInt32) (n : Node) : DataRequest → Prop
  | .write _ req => req.partitionId = p → req.op.plain = false → ∀ q ∈ n.server.pm.partitions.get p,
      ¬ (n.server.canWrite = true ∧ q.isPrime = true ∧ req.epoch = q.epoch)
  | .replicate partitionId entries => n.server.pm.hasPartition partitionId = true → ∀ entry ∈ entries,
      ∀ batch ∈ batchOf partitionId entry, batch.1 = p → batch.2.updates = []

instance (p : UInt32) (n : Node) : ∀ r : DataRequest, Decidable (NoFieldWrite p n r)
  | .write _ req => inferInstanceAs (Decidable (req.partitionId = p → req.op.plain = false →
      ∀ q ∈ n.server.pm.partitions.get p, ¬ (n.server.canWrite = true ∧ q.isPrime = true ∧ req.epoch = q.epoch)))
  | .replicate partitionId entries => inferInstanceAs (Decidable (n.server.pm.hasPartition partitionId = true →
      ∀ entry ∈ entries, ∀ batch ∈ batchOf partitionId entry, batch.1 = p → batch.2.updates = []))

/-! ## What a request leaves alone -/

/-- The partitions, and the keys in the range of `p`, are the same. -/
def Untouched (p : UInt32) (s s' : Server) : Prop :=
  s'.pm.partitions = s.pm.partitions ∧ ∀ k, InRange p k → s'.db.get k = s.db.get k

theorem Untouched.refl (p : UInt32) (s : Server) : Untouched p s s := ⟨rfl, fun _ _ => rfl⟩

theorem Untouched.trans {p : UInt32} {s t u : Server} (h : Untouched p s t) (h' : Untouched p t u) :
    Untouched p s u := ⟨h'.1.trans h.1, fun k hk => (h'.2 k hk).trans (h.2 k hk)⟩

theorem Untouched.frozen {p : UInt32} {s s' : Server} (h : Untouched p s s') (hf : s.Frozen p) : s'.Frozen p := by
  obtain ⟨q, hq, hst⟩ := hf
  exact ⟨q, by rw [h.1, hq], hst⟩

/-- The writes go to keys of partition `q`. -/
def WritesTo (q : UInt32) (ws : List (Write Bytes Bytes)) : Prop := ∀ w ∈ ws, ∃ t, w.key = makePartitionKey q t

/-- Writes to another partition leave `p` alone. -/
theorem WritesTo.untouched {p q : UInt32} {ws : List (Write Bytes Bytes)} (h : WritesTo q ws) (hne : q ≠ p)
    (s : Server) : Untouched p s { s with pm := { s.pm with db := s.db.write ws } } := by
  refine ⟨rfl, fun k hk => ?_⟩
  have hnone : lastWrite k ws = none := by
    refine lastWrite_eq_none.2 fun w hw heq => ?_
    obtain ⟨t, ht⟩ := h w hw
    exact hne (eq_of_inRange (heq.trans ht ▸ hk))
  show (s.db.write ws).get k = s.db.get k
  rw [get_write, hnone]
  rfl

theorem writesTo_fieldWrites (q : UInt32) (fb : FieldBatch) : WritesTo q (fieldWrites q fb) := by
  intro w hw
  obtain ⟨name, hname⟩ := key_fieldWrites w hw
  exact ⟨_, hname.trans (makeFieldKey_eq _ _ _)⟩

theorem WriteOp.writesTo (op : WriteOp) (q : UInt32) : WritesTo q (op.writes q) := by
  intro w hw
  cases hop : op.plain with
  | true =>
    obtain ⟨key, -, hkey⟩ := WriteOp.key_plain hop q w hw
    exact ⟨key, hkey⟩
  | false =>
    obtain ⟨pk, name, hkey⟩ := WriteOp.key_field hop q w hw
    exact ⟨_, hkey.trans (makeFieldKey_eq _ _ _)⟩

/-! ## A frozen partition refuses -/

theorem Server.Frozen.writeIf {s : Server} {p : UInt32} (h : s.Frozen p) {writable : List Pb.PartitionStatus}
    (hw : ∀ st ∈ writable, st = .normal ∨ st = .migratingIn) (ws : List (Write Bytes Bytes)) :
    ∃ e, s.pm.writeIf p writable ws = .error e := by
  obtain ⟨q, hq, hst⟩ := h
  unfold PartitionManager.writeIf
  rw [hq]
  dsimp only
  split_ifs with hmem
  · rcases hw _ hmem with hn | hn <;> rcases hst with hs | hs <;> simp [hn] at hs
  · exact ⟨_, rfl⟩

/-- The manager refuses a plain write. -/
theorem Server.Frozen.writeDB {s : Server} {p : UInt32} (h : s.Frozen p) {op : WriteOp} (hop : op.plain = true) :
    ∃ e, s.writeDB p op = .error e := by
  cases op with
  | put key value => exact h.writeIf (by simp) _
  | delete key => exact h.writeIf (by simp) _
  | batchPut items => exact h.writeIf (by simp) _
  | setFields pk fields => cases hop
  | deleteField pk name => cases hop

/-- A write request that passes changes the store through `writeDB`. -/
theorem Server.serve_accepted {s : Server} {disk : Disk} {req : WriteRequest}
    (h : (s.serve disk req).2.success = true) :
    s.checkWrite req.partitionId req.epoch = .ok () ∧ ∃ pm, s.writeDB req.partitionId req.op = .ok pm := by
  rw [serve_eq] at h
  unfold respond at h
  cases hc : s.checkWrite req.partitionId req.epoch with
  | error e =>
    rw [hc] at h
    cases h
  | ok u =>
    refine ⟨rfl, ?_⟩
    rcases hr : disk.run s.pm (s.writeDB req.partitionId req.op) with ⟨pm, _ | e⟩
    · obtain ⟨written, hw, -⟩ := Disk.run_done hr
      exact ⟨written, hw⟩
    · rw [hc] at h
      simp only [hr] at h
      cases h

/-- A frozen partition acknowledges no write request that is not a field write to it. -/
theorem Server.Frozen.refuses {s : Server} {p : UInt32} (hf : s.Frozen p) {disk : Disk} {req : WriteRequest}
    (hp : req.partitionId = p) (hno : NoFieldWrite p ⟨s, []⟩ (.write disk req)) :
    (s.serve disk req).2.success = false := by
  rw [← Bool.not_eq_true]
  intro hacc
  obtain ⟨hcheck, pm, hpm⟩ := serve_accepted hacc
  cases hop : req.op.plain with
  | true =>
    obtain ⟨e, he⟩ := Server.Frozen.writeDB (hp ▸ hf) hop
    rw [he] at hpm
    cases hpm
  | false =>
    obtain ⟨q, hq, hprime, hepoch⟩ := checkWrite_ok hcheck
    have hlease : s.canWrite = true := by
      obtain ⟨hlost, hheld⟩ := checkWrite_lease hcheck
      simp [canWrite, hlost, hheld]
    exact hno hp hop q (by rw [← hp]; exact hq) ⟨hlease, hprime, hepoch⟩

/-- **One write request** leaves a frozen partition alone, and is acknowledged only for another one. -/
theorem Server.Frozen.serve {s : Server} {p : UInt32} (hf : s.Frozen p) {disk : Disk} {req : WriteRequest}
    (hno : NoFieldWrite p ⟨s, []⟩ (.write disk req)) :
    Untouched p s (s.serve disk req).1 ∧ ((s.serve disk req).2.success = true → req.partitionId ≠ p) := by
  have hother : (s.serve disk req).2.success = true → req.partitionId ≠ p := by
    intro hacc hp
    rw [hf.refuses hp hno] at hacc
    cases hacc
  refine ⟨?_, hother⟩
  rcases s.serve_cases disk req with ⟨e, h⟩ | ⟨-, h⟩
  · rw [h]
    exact Untouched.refl p s
  · have hne := hother (by rw [h]; rfl)
    rw [h]
    have hleft := (req.op.writesTo req.partitionId).untouched hne s
    exact ⟨(congrArg PartitionManager.partitions (logOn_pm _ _ _ _)).trans hleft.1, fun k hk => by
      rw [db, logOn_pm]
      exact hleft.2 k hk⟩

/-! ## Replicate -/

/-- **What an entry can do**: it writes to the request's partition, which must be writable, or applies a batch. -/
theorem replicateEntry_ok {s s' : Server} {q : UInt32} {entry : Pb.ReplicationEntry}
    (h : s.replicateEntry q entry = .ok s') :
    (∃ ws, WritesTo q ws ∧ s' = { s with pm := { s.pm with db := s.db.write ws } } ∧ ¬ s.Frozen q) ∨
    ∃ t fb, batchOf q entry = some (t, fb) ∧ s' = { s with pm := { s.pm with db := s.db.write (fieldWrites t fb) } } := by
  unfold Server.replicateEntry at h
  cases hop : entry.opType with
  | delete =>
    simp only [hop] at h
    cases hd : s.pm.delete entry.key q with
    | error e => simp [hd] at h
    | ok pm =>
      simp only [hd, Except.ok.injEq] at h
      refine .inl ⟨_, WriteOp.writesTo (.delete entry.key) q, ?_, fun hf => ?_⟩
      · rw [← h, Server.writeIf_ok hd]
        rfl
      · obtain ⟨e, he⟩ := @Server.Frozen.writeDB s q hf (.delete entry.key) rfl
        cases hd.symm.trans he
  | put =>
    simp only [hop] at h
    cases hd : s.pm.put entry.key entry.value q with
    | error e => simp [hd] at h
    | ok pm =>
      simp only [hd, Except.ok.injEq] at h
      refine .inl ⟨_, WriteOp.writesTo (.put entry.key entry.value) q, ?_, fun hf => ?_⟩
      · rw [← h, Server.writeIf_ok hd]
        rfl
      · obtain ⟨e, he⟩ := @Server.Frozen.writeDB s q hf (.put entry.key entry.value) rfl
        cases hd.symm.trans he
  | fieldBatch =>
    simp only [hop] at h
    cases hd : decodeFieldBatch entry.value with
    | error e => simp [hd] at h
    | ok fb =>
      simp only [hd, Except.ok.injEq] at h
      exact .inr ⟨_, fb, by simp only [batchOf, hop, hd], h.symm⟩

theorem Server.Frozen.replicateEntry {s s' : Server} {p q : UInt32} (hf : s.Frozen p) {entry : Pb.ReplicationEntry}
    (hno : ∀ batch ∈ batchOf q entry, batch.1 = p → batch.2.updates = []) (h : s.replicateEntry q entry = .ok s') :
    Untouched p s s' := by
  rcases replicateEntry_ok h with ⟨ws, hws, rfl, hq⟩ | ⟨t, fb, hb, rfl⟩
  · exact hws.untouched (fun hqp => hq (hqp ▸ hf)) s
  · by_cases ht : t = p
    · have hempty : fieldWrites t fb = [] := by rw [fieldWrites, hno _ hb ht, List.map_nil]
      rw [hempty]
      exact Untouched.refl p s
    · exact (writesTo_fieldWrites t fb).untouched ht s

/-- **One `Replicate`** leaves a frozen partition alone; the entries before a failing one are applied. -/
theorem Server.Frozen.replicateFrom {p q : UInt32} : ∀ {entries : List Pb.ReplicationEntry} {s : Server} (last : Int),
    s.Frozen p → (∀ entry ∈ entries, ∀ batch ∈ batchOf q entry, batch.1 = p → batch.2.updates = []) →
    Untouched p s (s.replicateFrom q last entries).1
  | [], s, _, _, _ => Untouched.refl p s
  | entry :: entries, s, last, hf, hno => by
    rw [Server.replicateFrom]
    cases h : s.replicateEntry q entry with
    | error e => exact Untouched.refl p s
    | ok t =>
      have hentry := hf.replicateEntry (hno entry List.mem_cons_self) h
      exact hentry.trans (Server.Frozen.replicateFrom entry.offset (hentry.frozen hf) fun e he =>
        hno e (List.mem_cons_of_mem _ he))

/-! ## Runs -/

/-- The state a run from the server `s` is in. -/
structure Since (p : UInt32) (s : Server) (n : Node) : Prop where
  frozen    : n.server.Frozen p
  untouched : Untouched p s n.server
  others    : ∀ req ∈ n.acknowledged, req.partitionId ≠ p

/-- **Step**: a request without a field write to `p` keeps it as it was. -/
theorem since_step {p : UInt32} {s : Server} (n : Node) (r : DataRequest) (n' : Node) (h : Since p s n)
    (hno : NoFieldWrite p n r) (hstep : dataStep n r = some n') : Since p s n' := by
  cases r with
  | write disk req =>
    obtain ⟨hleft, hother⟩ := @Server.Frozen.serve n.server p h.frozen disk req hno
    simp only [dataStep, Option.some.injEq] at hstep
    subst hstep
    refine ⟨hleft.frozen h.frozen, h.untouched.trans hleft, ?_⟩
    intro r hr
    dsimp only at hr
    split_ifs at hr with hacc
    · rcases List.mem_cons.1 hr with rfl | hr
      · exact hother hacc
      · exact h.others r hr
    · exact h.others r hr
  | replicate q entries =>
    simp only [dataStep, Option.some.injEq] at hstep
    subst hstep
    have hleft : Untouched p n.server (n.server.replicate q entries).1 := by
      unfold Server.replicate
      by_cases hq : n.server.pm.hasPartition q = true
      · simp only [hq, Bool.not_true, Bool.false_eq_true, if_false]
        exact h.frozen.replicateFrom 0 (hno hq)
      · simp only [hq, Bool.not_false, if_true]
        exact Untouched.refl p _
    exact ⟨hleft.frozen h.frozen, h.untouched.trans hleft, h.others⟩

/-- What `ExportSST` reads of the partition does not change. -/
theorem Untouched.scanRange {p : UInt32} {s s' : Server} (h : Untouched p s s') :
    scanRange s'.db p = scanRange s.db p := by
  refine OrdMap.eq_of_mem_iff (sorted_scanRange _ _) (sorted_scanRange _ _) fun e => ?_
  rw [show e = (e.1, e.2) from rfl, mem_scanRange, mem_scanRange]
  exact and_congr_left fun hin => by rw [h.2 e.1 hin]

/-- **A partition that is not writable is frozen** in every run without a field write to it: its keys stay, no
write request for it is acknowledged, and an export of it misses nothing that is acknowledged later. -/
theorem frozen_partition {p : UInt32} {s : Server} {reqs : List DataRequest} {n : Node} (hf : s.Frozen p)
    (hno : Along dataStep (NoFieldWrite p) ⟨s, []⟩ reqs) (hrun : run dataStep ⟨s, []⟩ reqs = some n) :
    (∀ k, InRange p k → n.server.db.get k = s.db.get k) ∧
    (∀ req ∈ n.acknowledged, req.partitionId ≠ p) ∧
    scanRange n.server.db p = scanRange s.db p ∧
      ∀ req ∈ n.acknowledged, ∀ w ∈ req.op.writes req.partitionId, ¬ InRange p w.key := by
  have h : Since p s n := run_inv_along since_step
    ⟨hf, Untouched.refl p s, fun req hreq => by cases hreq⟩ hno hrun
  refine ⟨h.untouched.2, h.others, h.untouched.scanRange, fun req hreq w hw hin => ?_⟩
  obtain ⟨t, ht⟩ := req.op.writesTo req.partitionId w hw
  exact h.others req hreq (eq_of_inRange (ht ▸ hin))

/-- The node after an export of its partition 7. -/
def exportedSeven : Server := (primaryOfSeven.exportSST .escaped none 7).1

theorem exportedSeven_frozen : exportedSeven.Frozen 7 :=
  ⟨⟨7, .migratingOut, true, 0⟩, by decide, .inl rfl⟩

/-- A put, a field write at a stale epoch and a replicated put. -/
def harmless : List DataRequest :=
  [.write .working ⟨7, 0, .put [1] [2]⟩, .write .working ⟨7, 5, .deleteField [1] [2]⟩,
    .replicate 7 [⟨1, [1], [2], .put⟩]]

theorem frozen_partition_exportedSeven :
    ∃ n : Node, run dataStep ⟨exportedSeven, []⟩ harmless = some n ∧ n.acknowledged = [] ∧
      scanRange n.server.db 7 = scanRange exportedSeven.db 7 :=
  ⟨_, rfl, by decide, (@frozen_partition 7 exportedSeven harmless _ exportedSeven_frozen (by decide) rfl).2.2.1⟩

/-- **Bug**: after `ExportSST` has read the empty partition 7 and marked it `MIGRATING_OUT`, a `Put` is refused and
a `SetFields` is acknowledged; the field is in the store and not in the exported copy. So is a field of partition 7
that a `Replicate` to any hosted partition brings. -/
theorem field_write_to_frozen_partition :
    exportedSeven.Frozen 7 ∧ scanRange exportedSeven.db 7 = [] ∧
    (exportedSeven.serve .working ⟨7, 0, .put [1] [2]⟩).2.success = false ∧
    (exportedSeven.serve .working ⟨7, 0, .setFields [1] [⟨[2], [3], false⟩]⟩).2.success = true ∧
    scanRange (exportedSeven.serve .working ⟨7, 0, .setFields [1] [⟨[2], [3], false⟩]⟩).1.db 7 ≠ [] ∧
    scanRange (exportedSeven.replicate 7
      [⟨1, [], (setBatch 7 [1] [⟨[2], [3], false⟩]).encode, .fieldBatch⟩]).1.db 7 ≠ [] :=
  ⟨exportedSeven_frozen, by decide, by decide, by decide, by decide, by decide⟩

/-! ## An export that fails

`ExportSST` returns an error from about eight places behind the change of status, and none of them changes it
back. -/

/-- The partition has the same status in both managers, and they take and refuse the same writes to it. -/
structure SameStatus (p : UInt32) (pm pm' : PartitionManager) : Prop where
  status   : (pm'.partitions.get p).map (·.status) = (pm.partitions.get p).map (·.status)
  put      : ∀ key value, (pm'.put key value p).isOk = (pm.put key value p).isOk
  delete   : ∀ key, (pm'.delete key p).isOk = (pm.delete key p).isOk
  batchPut : ∀ items, (pm'.batchPut items p).isOk = (pm.batchPut items p).isOk

/-- Whether a write is taken depends on the status alone. -/
theorem isOk_writeIf {pm : PartitionManager} {p : UInt32} {q : Partition} (hq : pm.partitions.get p = some q)
    (writable : List Pb.PartitionStatus) (ws : List (Write Bytes Bytes)) :
    (pm.writeIf p writable ws).isOk = decide (q.status ∈ writable) := by
  rw [PartitionManager.writeIf, hq]
  dsimp only
  split_ifs with h <;> simp [h, Except.isOk, Except.toBool]

theorem sameStatus_iff {p : UInt32} {pm pm' : PartitionManager} {q q' : Partition}
    (hq : pm.partitions.get p = some q) (hq' : pm'.partitions.get p = some q') :
    SameStatus p pm pm' ↔ q'.status = q.status := by
  constructor
  · intro h
    have hst := h.status
    rw [hq, hq'] at hst
    exact Option.some.inj hst
  · intro h
    exact
      { status := by rw [hq, hq', Option.map_some, Option.map_some, h]
        put := fun key value => by
          rw [PartitionManager.put, PartitionManager.put, isOk_writeIf hq, isOk_writeIf hq', h]
        delete := fun key => by
          rw [PartitionManager.delete, PartitionManager.delete, isOk_writeIf hq, isOk_writeIf hq', h]
        batchPut := fun items => by
          rw [PartitionManager.batchPut, PartitionManager.batchPut, isOk_writeIf hq, isOk_writeIf hq', h] }

/-- A stream that fails delivers no last chunk. -/
theorem reachesLast_of_failed {fmt : SSTFormat} {fault : Option ExportFault} {p : UInt32}
    {kvs : List (Bytes × Bytes)} (h : Recv.failed ∈ exportStream fmt fault p kvs) :
    reachesLast (exportStream fmt fault p kvs) = false := by
  rcases exportStream_cases fmt fault p kvs with hall | ⟨init, hinit, hcut⟩
  · rw [hall] at h
    simp at h
  · rw [hcut, (received_append hinit).2]
    rfl

/-- **An export that fails**, wherever it does, has delivered no last chunk, and leaves the partition as it was
exactly if the partition was migrating out already. -/
theorem failed_export_restores_iff {s : Server} {fmt : SSTFormat} {fault : Option ExportFault} {p : UInt32}
    {q : Partition} (hq : s.pm.partitions.get p = some q) (hfail : Recv.failed ∈ (s.exportSST fmt fault p).2) :
    reachesLast (s.exportSST fmt fault p).2 = false ∧
      (SameStatus p s.pm (s.exportSST fmt fault p).1.pm ↔ q.status = .migratingOut) := by
  rw [exportSST_of_hosted hq] at hfail ⊢
  refine ⟨reachesLast_of_failed hfail, ?_⟩
  rw [sameStatus_iff hq (OrdMap.get_insert_self _ _ _)]
  exact eq_comm

theorem failed_export_of_exported :
    SameStatus 7 exportedSeven.pm (exportedSeven.exportSST .escaped (some (.chunk 0)) 7).1.pm :=
  (@failed_export_restores_iff exportedSeven .escaped (some (.chunk 0)) 7 ⟨7, .migratingOut, true, 0⟩ (by decide)
    (by decide)).2.2 rfl

/-- The node with one key in its partition 7. -/
def holdingSeven : Server := (primaryOfSeven.serve .working ⟨7, 0, .put [1] [2]⟩).1

/-- **Bug**: the export of a partition with one key fails while its file is filled, when it is finished, or when
its first or its last chunk is sent. Each time the partition was `NORMAL` and took writes, and each time it is
`MIGRATING_OUT` afterwards and refuses them. -/
theorem failed_export_freezes :
    (holdingSeven.pm.partitions.get 7).map (·.status) = some .normal ∧
    (holdingSeven.pm.put [1] [3] 7).isOk = true ∧ (holdingSeven.pm.delete [1] 7).isOk = true ∧
    ∀ fault ∈ [ExportFault.prepare, .finish, .chunk 0, .chunk 1],
      Recv.failed ∈ (holdingSeven.exportSST .escaped (some fault) 7).2 ∧
      ((holdingSeven.exportSST .escaped (some fault) 7).1.pm.partitions.get 7).map (·.status) = some .migratingOut ∧
      ((holdingSeven.exportSST .escaped (some fault) 7).1.pm.put [1] [3] 7).isOk = false ∧
      ((holdingSeven.exportSST .escaped (some fault) 7).1.pm.delete [1] 7).isOk = false := by
  decide

end RocksKV.Storage
