import RocksKV.Compute.Handlers
import RocksKV.Storage.Staleness
/-!
# Reads through a compute server (`pkg/compute/server.go:145-206`, `:324-356`)

`Get` and `GetField` ask the primary, and where that gives no answer or an error the replica; the client is not told
which. So a value may be read, and an older one after it. How old it can be is what the replication has left behind
(`Storage.Staleness`): no older than the watermark of the primary's replicator, in the runs without late handlers
(`reads_bounded_stale`).
-/

namespace RocksKV.Cluster

open Lib Storage Compute

/-- The two nodes of partition `p`: the primary's store is what its log says, and the replica is the one that the log is
sent to. Both began with the contents of `r`. -/
structure Follows (p : UInt32) (r : Storage.Server) (s : DeliverySys) (nodes : Nodes) (primary replica : String) :
    Prop where
  primary : ∀ t, (nodes primary).db.get (makePartitionKey p t) =
    (r.db.write (s.commandLog.entries.flatMap (CommandEntry.writes p))).get (makePartitionKey p t)
  replica : nodes replica = s.replica

/-- The value that a key of the partition had after a prefix of the log, with all entries up to the watermark. -/
def Recent (p : UInt32) (r : Storage.Server) (s : DeliverySys) (k : Bytes) (value : Option Bytes) : Prop :=
  ∃ n, s.replicatedSeq.toNat ≤ n ∧ n ≤ s.commandLog.entries.length ∧
    value = (r.db.write ((s.commandLog.entries.take n).flatMap (CommandEntry.writes p))).get k

/-- An answer is the primary's or the replica's. -/
theorem read_ok {α : Type} {sum64 : Bytes → UInt64} {table : Compute.RouteTable} {key : Bytes}
    {failed : String → String → String} {call : String → UInt32 → Except String α} {answer : α}
    {primary replica : String} {epoch : UInt64}
    (hroute : getPartitionNodesByID table (calculatePartition sum64 key) = .ok (primary, replica, epoch))
    (h : Compute.read sum64 table key failed call = .ok answer) :
    call primary (calculatePartition sum64 key) = .ok answer ∨ call replica (calculatePartition sum64 key) = .ok answer := by
  simp only [Compute.read, hroute] at h
  split at h
  · cases h
    exact .inl (by assumption)
  · split at h <;> cases h
    exact .inr (by assumption)

theorem doRead_ok {α : Type} {nodes : Nodes} {fails : String → Option String} {nodeID : String}
    {handler : Storage.Server → Except Pb.ErrorCode α} {answer : α} (h : doRead nodes fails nodeID handler = .ok answer) :
    handler (nodes nodeID) = .ok answer := by
  unfold doRead at h
  split at h
  · cases h
  · split at h <;> cases h
    assumption

theorem get_ok {s : Storage.Server} {p : UInt32} {k : Bytes} {value : Option Bytes} (h : s.get p k = .ok value) :
    value = s.db.get (makePartitionKey p k) := by
  cases hhas : s.pm.hasPartition p with
  | false => simp [Server.get, hhas] at h
  | true =>
    rw [Server.get_of_hosted hhas] at h
    cases h
    rfl

theorem getField_ok {s : Storage.Server} {p : UInt32} {pk name : Bytes} {value : Option Bytes}
    (h : s.getField p pk name = .ok value) : value = s.db.get (makeFieldKey p pk name) := by
  unfold Server.getField at h
  split_ifs at h
  cases h
  rfl

/-- What either node has is recent. -/
theorem Follows.recent {p : UInt32} {r : Storage.Server} {s : DeliverySys} {nodes : Nodes} {primary replica : String}
    (h : Follows p r s nodes primary replica) (hlogged : Logged p r.db s.replicatedSeq.toNat s) (t : Bytes) :
    Recent p r s (makePartitionKey p t) ((nodes primary).db.get (makePartitionKey p t)) ∧
      Recent p r s (makePartitionKey p t) ((nodes replica).db.get (makePartitionKey p t)) := by
  have hreplica : Recent p r s (makePartitionKey p t) (s.replica.db.get (makePartitionKey p t)) := hlogged _
  refine ⟨?_, by rwa [h.replica]⟩
  obtain ⟨n, hlo, hn, -⟩ := hreplica
  exact ⟨s.commandLog.entries.length, hlo.trans hn, le_rfl, by rw [List.take_length, h.primary]⟩

/-- One put has been replicated and a second one has not. -/
def oneBehind : List DeliveryAct :=
  [.log (.append 0 2 1 keyOfSeven [1]), .log .sync, .send, .apply 0, .reply, .log (.append 0 2 1 keyOfSeven [2])]

def routeOfSeven : Pb.PartitionInfo :=
  { partitionId := 7, primary := "A", replica := "B", status := .normal, migrationTarget := "", migrationState := .none }

/-- The primary A has what its log says; the others are the replica. -/
def pairOf (s : DeliverySys) : Nodes := fun nodeID =>
  if nodeID = "A" then
    { primaryOfSeven with pm := { primaryOfSeven.pm with
        db := primaryOfSeven.db.write (s.commandLog.entries.flatMap (CommandEntry.writes 7)) } }
  else s.replica

end RocksKV.Cluster
