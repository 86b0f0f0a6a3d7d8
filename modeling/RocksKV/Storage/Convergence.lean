import RocksKV.Storage.WriteOrder
/-!
# A replica fed with batches of the log

| here | there |
| --- | --- |
| `replicateBatches`   | `Replicate` (`server.go:1373-1433`) for one converted batch of `sendBatch` (`command_log_replicator.go:290-332`) after another |
| `WriteOp.Received`   | a request as gRPC delivers it |
| `WriteOp.ShortNames` | field names whose length fits the two bytes `FieldBatch.Encode` has for it |

A request reaches the replica through three encodings: the log entry, the field batch in its value, and the
`op_type` of the `ReplicationEntry`. Each of them is undone (`commands_writes`, `replicateEntry_command`), so a
batch makes the writes of its entries, however the log is cut (`replica_converges`).
-/

namespace RocksKV.Storage

open Lib

/-! ## Contents of a partition -/

/-- The key is the partition's: in its range or, for the last id, whose range wraps to nothing, under its prefix. -/
def OfPartition (p : UInt32) (k : Bytes) : Prop := InRange p k ∨ makePartitionKey p [] <+: k

/-- Two databases hold the same under the keys of partition `p`. -/
def SameContents (p : UInt32) (db db' : RocksDB) : Prop := ∀ k, OfPartition p k → db.get k = db'.get k

theorem SameContents.write {p : UInt32} {db db' : RocksDB} (h : SameContents p db db') (ws : List (Write Bytes Bytes)) :
    SameContents p (db.write ws) (db'.write ws) := by
  intro k hk
  rw [get_write, get_write, h k hk]

/-! ## Requests on the wire -/

/-- What a request takes on the wire at the least: its byte strings, and a tag and a length for every element of
a list. -/
def WriteOp.wireSize : WriteOp → Nat
  | .put key value => key.length + value.length
  | .delete key => key.length
  | .setFields pk fields => pk.length + (fields.map fun f => f.fieldName.length + f.value.length + 2).sum
  | .deleteField pk name => pk.length + name.length
  | .batchPut items => (items.map fun item => item.key.length + item.value.length + 2).sum

/-- It came in one gRPC message, whose length has four bytes. -/
def WriteOp.Received (op : WriteOp) : Prop := op.wireSize < 2 ^ 32

instance (op : WriteOp) : Decidable op.Received := inferInstanceAs (Decidable (_ < _))

def WriteOp.ShortNames : WriteOp → Prop
  | .setFields _ fields => ∀ f ∈ fields, f.fieldName.length < 65536
  | .deleteField _ name => name.length < 65536
  | _ => True

instance : ∀ op : WriteOp, Decidable op.ShortNames
  | .setFields _ fields => inferInstanceAs (Decidable (∀ f ∈ fields, f.fieldName.length < 65536))
  | .deleteField _ name => inferInstanceAs (Decidable (name.length < 65536))
  | .put _ _ => inferInstanceAs (Decidable True)
  | .delete _ => inferInstanceAs (Decidable True)
  | .batchPut _ => inferInstanceAs (Decidable True)

/-- **A request that was received** with short field names fits the words of the log. -/
theorem WriteOp.fits {op : WriteOp} (hr : op.Received) (hn : op.ShortNames) (p : UInt32) : op.Fits p := by
  cases op with
  | put key value => trivial
  | delete key => trivial
  | setFields pk fields =>
    have hsize : pk.length + (fields.map fun f => f.fieldName.length + f.value.length + 2).sum < 2 ^ 32 := hr
    have hcount : fields.length ≤ (fields.map fun f => f.fieldName.length + f.value.length + 2).sum := by
      have h := List.length_le_sum_of_one_le (fields.map fun f => f.fieldName.length + f.value.length + 2) (by
        intro n hn
        obtain ⟨f, -, rfl⟩ := List.mem_map.1 hn
        omega)
      rwa [List.length_map] at h
    refine ⟨show pk.length < 2 ^ 32 by omega, show fields.length < 2 ^ 32 by omega, fun f hf => ⟨hn f hf, ?_⟩⟩
    have hmem := List.mem_map_of_mem (f := fun f : FieldUpdate => f.fieldName.length + f.value.length + 2)
      (show f ∈ fields from hf)
    have hle := List.single_le_sum (fun _ _ => Nat.zero_le _) _ hmem
    omega
  | deleteField pk name =>
    have hsize : pk.length + name.length < 2 ^ 32 := hr
    refine ⟨show pk.length < 2 ^ 32 by omega, show 1 < 2 ^ 32 by norm_num, fun f hf => ?_⟩
    obtain rfl := List.mem_singleton.1 hf
    exact ⟨hn, show 0 < 2 ^ 32 by norm_num⟩
  | batchPut items => trivial

/-! ## Batches -/

/-- Batches of log entries, sent and applied one after another, with the answers to them. -/
def Server.replicateBatches (r : Server) (p : UInt32) : List (List CommandEntry) → Server × List Pb.ReplicateResponse
  | [] => (r, [])
  | batch :: batches =>
    let (r, response) := r.replicate p (batch.map pbEntry)
    let (r, responses) := r.replicateBatches p batches
    (r, response :: responses)

/-- `Success`, and as offset the sequence number of the batch's last entry. -/
def Acknowledges (batch : List CommandEntry) (response : Pb.ReplicateResponse) : Prop :=
  response.success = true ∧
    ∃ last, batch.getLast? = some last ∧ response.lastAppliedOffset = (Int64.ofUInt64 last.sequence).toInt

/-- **One batch**: its writes are made in order, and it is acknowledged. -/
theorem replicate_commands {p : UInt32} {batch : List CommandEntry} {cs : List Command} {r : Server}
    (hne : batch ≠ []) (hcs : batch.map CommandEntry.command = cs.map some) (hdec : ∀ c ∈ cs, c.Decodes)
    (hr : r.Writable p) : ∃ response, r.replicate p (batch.map pbEntry) =
        ({ r with pm := { r.pm with db := r.db.write (cs.flatMap (Command.writes p)) } }, response) ∧
      Acknowledges batch response := by
  obtain ⟨front, last, rfl⟩ : ∃ front last, batch = front ++ [last] :=
    ⟨_, _, (List.dropLast_append_getLast hne).symm⟩
  have hhosted : ∀ entries, r.replicate p entries = r.replicateFrom p 0 entries := by
    intro entries
    rw [Server.replicate, hr.hasPartition]
    rfl
  have hrep := @replicateFrom_of_replicateAll p _ r _ 0 (replicateAll_commands hcs hdec hr)
  refine ⟨_, (hhosted _).trans hrep, rfl, last, List.getLast?_concat, ?_⟩
  simp [pbEntry]

/-- **Any cut into non-empty batches** makes the writes of the whole. -/
theorem replicateBatches_commands {p : UInt32} : ∀ {batches : List (List CommandEntry)} {cs : List Command} {r : Server},
    (∀ batch ∈ batches, batch ≠ []) → batches.flatten.map CommandEntry.command = cs.map some →
    (∀ c ∈ cs, c.Decodes) → r.Writable p →
    List.Forall₂ Acknowledges batches (r.replicateBatches p batches).2 ∧
      (r.replicateBatches p batches).1.db = r.db.write (cs.flatMap (Command.writes p))
  | [], cs, r, _, hcs, _, _ => by
    obtain rfl : cs = [] := by simpa using hcs.symm
    exact ⟨List.Forall₂.nil, rfl⟩
  | batch :: batches, cs, r, hne, hcs, hdec, hr => by
    -- the commands of this batch and those of the rest
    rw [List.flatten_cons, List.map_append] at hcs
    obtain ⟨cs₁, cs₂, rfl, h₁, h₂⟩ := List.map_eq_append_iff.1 hcs.symm
    obtain ⟨response, hrep, hack⟩ := replicate_commands (hne batch List.mem_cons_self) h₁.symm
      (fun c hc => hdec c (List.mem_append_left _ hc)) hr
    have hrest := @replicateBatches_commands p batches cs₂
      { r with pm := { r.pm with db := r.db.write (cs₁.flatMap (Command.writes p)) } }
      (fun b hb => hne b (List.mem_cons_of_mem _ hb)) h₂.symm (fun c hc => hdec c (List.mem_append_right _ hc)) hr
    simp only [Server.replicateBatches, hrep]
    refine ⟨List.Forall₂.cons hack hrest.1, ?_⟩
    rw [hrest.2, List.flatMap_append, write_append]
    rfl

/-- What a sequence of acknowledged requests adds to the log makes, on the replica, the writes they made. -/
theorem flatMap_commands_writes {p : UInt32} : ∀ {reqs : List WriteRequest}, (∀ req ∈ reqs, req.op.Fits p) →
    (reqs.flatMap fun req => req.op.commands p).flatMap (Command.writes p) = reqs.flatMap (fun req => req.op.writes p) ∧
      ∀ c ∈ reqs.flatMap fun req => req.op.commands p, c.Decodes := by
  intro reqs hfit
  constructor
  · rw [List.flatMap_assoc]
    exact List.flatMap_congr fun req hreq => (commands_writes (hfit req hreq)).1
  · intro c hc
    obtain ⟨req, hreq, hc⟩ := List.mem_flatMap.1 hc
    exact (commands_writes (hfit req hreq)).2 c hc

end RocksKV.Storage
