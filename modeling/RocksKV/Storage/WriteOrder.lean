import RocksKV.Storage.RecoverPartition
import RocksKV.Storage.Replicator
/-!
# Concurrent writes on one primary partition

Each write RPC runs in a goroutine of its own: checks and RocksDB write first, then the append of its commands
to the partition's log (`server.go:396-416`, `:586-608`, `:1328-1370`). No lock spans the two, so the appends of
two handlers may come in the other order than their writes.

| here | there |
| --- | --- |
| `HandlerAct.write`  | a handler up to and with its RocksDB write |
| `HandlerAct.append` | one `CommandLog.Append` of it; `BatchPut` makes one for every item |
| `Command.writes`    | what `Replicate` writes for an entry (`server.go:1373-1433`) |

**Bug**: two overwrites of one key whose steps cross leave the later value in the database and the earlier one
last in the log, and the replica keeps that value. `log_order_converges` holds where no append overtakes an
earlier write to the same storage key.
-/

namespace RocksKV.Storage

open Lib

/-! ## Commands on the replica -/

/-- The batch of the command, if it has one, can be read. -/
def Command.Decodes (c : Command) : Prop := c.cmdType = .fieldBatch → ∃ fb, decodeFieldBatch c.value = .ok fb

/-- The writes `Replicate` makes for a command on partition `p`. -/
def Command.writes (p : UInt32) (c : Command) : List (Write Bytes Bytes) :=
  match c.cmdType with
  | .put => [.put (makePartitionKey p c.key) c.value]
  | .delete => [.delete (makePartitionKey p c.key)]
  | .fieldBatch =>
    match decodeFieldBatch c.value with
    | .error _ => []
    | .ok fb => fieldWrites (if fb.partitionID = 0 then p else fb.partitionID) fb

/-- The partition is on the node and writable. -/
def Server.Writable (s : Server) (p : UInt32) : Prop := ∃ q, s.pm.partitions.get p = some q ∧ q.status = .normal

theorem Server.Writable.hasPartition {s : Server} {p : UInt32} (h : s.Writable p) : s.pm.hasPartition p = true := by
  obtain ⟨q, hq, -⟩ := h
  exact PartitionManager.hasPartition_eq_true.2 ⟨q, hq⟩

theorem replicateEntry_command {r : Server} {p : UInt32} (hr : r.Writable p) {e : CommandEntry} {c : Command}
    (he : e.command = some c) (hc : c.Decodes) :
    r.replicateEntry p (pbEntry e) = .ok { r with pm := { r.pm with db := r.db.write (c.writes p) } } := by
  obtain ⟨q, hq, hst⟩ := hr
  obtain ⟨t, ht, rfl⟩ := Option.map_eq_some_iff.1 he
  cases t with
  | put =>
    simp only [Server.replicateEntry, pbEntry, ht, PartitionManager.put, PartitionManager.writeIf, hq, hst, Command.writes]
    rfl
  | delete =>
    simp only [Server.replicateEntry, pbEntry, ht, PartitionManager.delete, PartitionManager.writeIf, hq, hst,
      Command.writes]
    rfl
  | fieldBatch =>
    obtain ⟨fb, hfb⟩ := hc rfl
    dsimp only at hfb
    simp only [Server.replicateEntry, pbEntry, ht, hfb, Command.writes, applyFieldBatch]

/-- **A replica fed with log entries** makes their writes in order. -/
theorem replicateAll_commands {p : UInt32} : ∀ {es : List CommandEntry} {cs : List Command} {r : Server},
    es.map CommandEntry.command = cs.map some → (∀ c ∈ cs, c.Decodes) → r.Writable p →
    r.replicateAll p (es.map pbEntry) =
      .ok { r with pm := { r.pm with db := r.db.write (cs.flatMap (Command.writes p)) } }
  | [], [], r, _, _, _ => rfl
  | e :: es, c :: cs, r, h, hdec, hr => by
    rw [List.map_cons, List.map_cons, List.cons.injEq] at h
    have hentry := replicateEntry_command hr h.1 (hdec c List.mem_cons_self)
    have hrest := @replicateAll_commands p es cs { r with pm := { r.pm with db := r.db.write (c.writes p) } } h.2
      (fun d hd => hdec d (List.mem_cons_of_mem _ hd)) hr
    rw [Server.replicateAll, List.map_cons, List.foldlM_cons, hentry, List.flatMap_cons, write_append]
    exact hrest
  | [], _ :: _, _, h, _, _ => by simp at h
  | _ :: _, [], _, h, _, _ => by simp at h

/-- A logged batch makes the writes of the batch. -/
theorem writes_fieldBatch {p : UInt32} {fb : FieldBatch} (h : fb.Fits) (hp : fb.partitionID = p) {c : Command}
    (hc : c = { cmdType := .fieldBatch, key := [], value := fb.encode }) :
    c.writes p = fieldWrites p fb ∧ c.Decodes := by
  have hdec := decodeFieldBatch_encode h
  subst hc hp
  refine ⟨?_, fun _ => ⟨fb, hdec⟩⟩
  simp only [Command.writes, hdec, ite_self]

/-- **A request's commands make its own writes** on the replica. -/
theorem commands_writes {p : UInt32} {op : WriteOp} (h : op.Fits p) :
    (op.commands p).flatMap (Command.writes p) = op.writes p ∧ ∀ c ∈ op.commands p, c.Decodes := by
  cases op with
  | put key value => exact ⟨rfl, fun c hc hb => by rw [List.mem_singleton.1 hc] at hb; cases hb⟩
  | delete key => exact ⟨rfl, fun c hc hb => by rw [List.mem_singleton.1 hc] at hb; cases hb⟩
  | setFields pk fields =>
    refine ⟨?_, fun c hc => (writes_fieldBatch (p := p) h rfl (List.mem_singleton.1 hc)).2⟩
    rw [WriteOp.commands, List.flatMap_singleton]
    exact (writes_fieldBatch h rfl rfl).1
  | deleteField pk name =>
    refine ⟨?_, fun c hc => (writes_fieldBatch (p := p) h rfl (List.mem_singleton.1 hc)).2⟩
    rw [WriteOp.commands, List.flatMap_singleton]
    exact (writes_fieldBatch h rfl rfl).1
  | batchPut items =>
    refine ⟨?_, fun c hc hb => ?_⟩
    · simp only [WriteOp.commands, WriteOp.writes, List.flatMap_map, Command.writes]
      exact List.map_eq_flatMap.symm
    · obtain ⟨item, -, rfl⟩ := List.mem_map.1 hc
      cases hb

/-! ## Interleaved handlers -/

structure WriteSys where
  server   : Server
  /-- The handlers that have written, in the order of their writes, with what they have still to append. -/
  handlers : List (List Command)

def WriteSys.start (server : Server) : WriteSys := { server := server, handlers := [] }

inductive HandlerAct
  | write (epoch : UInt64) (op : WriteOp)
  /-- The next append of the handler that wrote as the `i`-th. -/
  | append (i : Nat)

def writeStep (p : UInt32) (s : WriteSys) : HandlerAct → Option WriteSys
  | .write epoch op =>
    match s.server.checkWrite p epoch with
    | .error _ => none
    | .ok () =>
      match s.server.writeDB p op with
      | .error _ => none
      | .ok pm => some { server := { s.server with pm := pm }, handlers := s.handlers ++ [op.commands p] }
  | .append i =>
    match s.handlers[i]? with
    | some (c :: cs) => some { server := s.server.append p c, handlers := s.handlers.set i cs }
    | _ => none

/-- Every handler has returned. -/
def WriteSys.Finished (s : WriteSys) : Prop := ∀ cs ∈ s.handlers, cs = []

instance (s : WriteSys) : Decidable s.Finished := inferInstanceAs (Decidable (∀ cs ∈ s.handlers, cs = []))

/-- A replica that has `db` and is fed the log's entries ends with the primary's contents. -/
def LogOrder (p : UInt32) (db : RocksDB) (s : WriteSys) : Prop :=
  ∀ es : List CommandEntry, es.map CommandEntry.command = (s.server.log p).map some →
    ∀ r : Server, r.Writable p → r.db = db → ∃ r', r.replicateAll p (es.map pbEntry) = .ok r' ∧ r'.db = s.server.db

/-- No append overtakes an earlier write to one of its keys; and field names and values fit the log's words. -/
def Ordered (p : UInt32) (s : WriteSys) : HandlerAct → Prop
  | .write _ op => op.Fits p
  | .append i => ∀ c ∈ (s.handlers[i]?).bind List.head?, ∀ d ∈ (s.handlers.take i).flatten,
      ∀ w ∈ c.writes p, ∀ u ∈ d.writes p, w.key ≠ u.key

instance (p : UInt32) (s : WriteSys) : ∀ a : HandlerAct, Decidable (Ordered p s a)
  | .write _ op => inferInstanceAs (Decidable (op.Fits p))
  | .append i => inferInstanceAs (Decidable (∀ c ∈ (s.handlers[i]?).bind List.head?,
      ∀ d ∈ (s.handlers.take i).flatten, ∀ w ∈ c.writes p, ∀ u ∈ d.writes p, w.key ≠ u.key))

/-! ### A handler alone -/

theorem run_appends {p : UInt32} : ∀ (cs : List Command) (s : Server),
    run (writeStep p) ⟨s, [cs]⟩ (List.replicate cs.length (.append 0)) =
      some ⟨cs.foldl (fun s c => s.append p c) s, [[]]⟩
  | [], _ => rfl
  | c :: cs, s => by
    rw [List.length_cons, List.replicate_succ, run]
    exact run_appends cs (s.append p c)

/-- **A handler that runs alone** is `handleWrite`. -/
theorem run_of_handleWrite {p : UInt32} {s s' : Server} {epoch : UInt64} {op : WriteOp}
    (h : s.handleWrite ⟨p, epoch, op⟩ = .ok s') :
    run (writeStep p) (.start s) (.write epoch op :: List.replicate (op.commands p).length (.append 0)) =
      some ⟨s', [[]]⟩ := by
  unfold Server.handleWrite at h
  rw [run, writeStep]
  cases hc : s.checkWrite p epoch with
  | error e =>
    rw [hc] at h
    cases h
  | ok u =>
    cases hw : s.writeDB p op with
    | error e =>
      rw [hc, hw] at h
      cases h
    | ok pm =>
      rw [hc, hw] at h
      cases h
      simp only [WriteSys.start, hc, hw, Option.bind_some, List.nil_append, Server.enqueue_eq]
      exact run_appends _ _

/-! ### Any number of handlers -/

/-- The database is the log applied to the initial contents, and then what the handlers have still to append, in
the order they wrote. -/
structure OrderInv (p : UInt32) (db : RocksDB) (s : WriteSys) : Prop where
  logging : s.server.Logging p
  decodes : ∀ c ∈ s.server.log p ++ s.handlers.flatten, c.Decodes
  contents : s.server.db = db.write ((s.server.log p ++ s.handlers.flatten).flatMap (Command.writes p))

theorem orderInv_write {p : UInt32} {db : RocksDB} {s s' : WriteSys} {epoch : UInt64} {op : WriteOp}
    (hi : OrderInv p db s) (hfit : op.Fits p) (h : writeStep p s (.write epoch op) = some s') : OrderInv p db s' := by
  simp only [writeStep] at h
  split at h
  · cases h
  · split at h
    · cases h
    · rename_i pm hw
      cases h
      obtain ⟨hwrites, hdec⟩ := commands_writes hfit
      have hpm := Server.writeDB_ok hw
      refine ⟨hi.logging, fun c hc => ?_, ?_⟩
      · simp only [List.flatten_append, List.flatten_singleton, ← List.append_assoc] at hc
        rcases List.mem_append.1 hc with hc | hc
        · exact hi.decodes c hc
        · exact hdec c hc
      · simp only [List.flatten_append, List.flatten_singleton, ← List.append_assoc, List.flatMap_append, hwrites]
        rw [write_append, Server.db, hpm]
        have hcontents := hi.contents
        rw [List.flatMap_append] at hcontents
        rw [hcontents]
        rfl

/-- A handler's next append takes it from its place among the pending commands to the end of the log. -/
theorem flatten_append_step {handlers : List (List Command)} {i : Nat} {c : Command} {cs : List Command}
    (h : handlers[i]? = some (c :: cs)) :
    handlers.flatten = (handlers.take i).flatten ++ c :: (cs ++ (handlers.drop (i + 1)).flatten) ∧
      (handlers.set i cs).flatten = (handlers.take i).flatten ++ (cs ++ (handlers.drop (i + 1)).flatten) := by
  obtain ⟨hi, hget⟩ := List.getElem?_eq_some_iff.1 h
  constructor
  · conv_lhs => rw [← List.take_append_drop i handlers, List.drop_eq_getElem_cons hi, hget]
    simp
  · rw [List.set_eq_take_append_cons_drop, if_pos hi]
    simp

theorem orderInv_append {p : UInt32} {db : RocksDB} {s s' : WriteSys} {i : Nat} (hi : OrderInv p db s)
    (hord : Ordered p s (.append i)) (h : writeStep p s (.append i) = some s') : OrderInv p db s' := by
  simp only [writeStep] at h
  split at h
  · rename_i c cs hget
    cases h
    obtain ⟨hlog', happ⟩ := hi.logging.append c
    obtain ⟨hold, hnew⟩ := flatten_append_step hget
    have hdec := hi.decodes
    have hcon := hi.contents
    rw [hold] at hdec hcon
    refine ⟨hlog', fun d hd => hdec d ?_, ?_⟩
    · rw [happ, hnew] at hd
      simp only [List.mem_append, List.mem_cons] at hd ⊢
      tauto
    · -- the command passes the pending ones before it, which touch none of its keys
      have hpass : ∀ a ∈ (s.handlers.take i).flatten.flatMap (Command.writes p), ∀ b ∈ c.writes p, a.key ≠ b.key := by
        intro a ha b hb
        obtain ⟨d, hd, hda⟩ := List.mem_flatMap.1 ha
        exact (hord c (by rw [hget]; rfl) d hd b hb a hda).symm
      have hdb : (s.server.append p c).db = s.server.db := by rw [Server.db, Server.append_pm]; rfl
      rw [hdb, happ, hnew, hcon]
      simp only [List.flatMap_append, List.flatMap_cons, List.flatMap_nil, List.append_nil, write_append]
      rw [write_comm _ hpass]
  · cases h

theorem orderInv_step {p : UInt32} {db : RocksDB} {s s' : WriteSys} {a : HandlerAct} (hi : OrderInv p db s)
    (hord : Ordered p s a) (h : writeStep p s a = some s') : OrderInv p db s' := by
  cases a with
  | write epoch op => exact orderInv_write hi hord h
  | append i => exact orderInv_append hi hord h

/-- **The log's order is the database's** in every run whose appends do not overtake, once all handlers have
returned. -/
theorem log_order_converges {p : UInt32} {server : Server} (hlog : server.Logging p) (hempty : server.log p = [])
    {as : List HandlerAct} {s : WriteSys} (hord : Along (writeStep p) (Ordered p) (.start server) as)
    (hrun : run (writeStep p) (.start server) as = some s) (hdone : s.Finished) : LogOrder p server.db s := by
  have hstart : OrderInv p server.db (.start server) := by
    refine ⟨hlog, fun c hc => ?_, ?_⟩
    · simp [WriteSys.start, hempty] at hc
    · simp [WriteSys.start, hempty]
  have hi := run_inv_along (fun _ _ _ hi hc h => orderInv_step hi hc h) hstart hord hrun
  have hnone : s.handlers.flatten = [] := List.flatten_eq_nil_iff.2 hdone
  have hdec := hi.decodes
  have hcon := hi.contents
  rw [hnone, List.append_nil] at hdec hcon
  intro es hes r hr hdb
  refine ⟨_, replicateAll_commands hes hdec hr, ?_⟩
  rw [hcon, ← hdb]
  rfl

/-- Two puts write one after the other and append in the other order. -/
def crossing (k l : Bytes) : List HandlerAct := [.write 0 (.put k [1]), .write 0 (.put l [2]), .append 1, .append 0]

theorem crossing_on_two_keys_converges :
    ∃ s, run (writeStep 7) (.start primaryOfSeven) (crossing [5] [6]) = some s ∧ LogOrder 7 OrdMap.empty s := by
  have hord : Along (writeStep 7) (Ordered 7) (.start primaryOfSeven) (crossing [5] [6]) := by decide +kernel
  refine ⟨_, rfl, log_order_converges ⟨_, rfl, rfl⟩ rfl hord rfl ?_⟩
  decide

/-- **Bug**: on one key the database keeps the second value and the log ends with the first. -/
theorem crossing_on_one_key_diverges :
    ∃ s, run (writeStep 7) (.start primaryOfSeven) (crossing [5] [5]) = some s ∧ s.Finished ∧
      ¬ LogOrder 7 OrdMap.empty s := by
  refine ⟨_, rfl, by decide, fun h => ?_⟩
  obtain ⟨r', hall, hdb⟩ := h [newEntry 1 0 1 [5] [2], newEntry 2 0 1 [5] [1]] rfl primaryOfSeven ⟨_, rfl, rfl⟩ rfl
  cases hall
  have hget := congrArg (fun db => OrdMap.get db (makePartitionKey 7 [5])) hdb
  revert hget
  decide +kernel

end RocksKV.Storage
