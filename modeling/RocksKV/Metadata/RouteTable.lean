import RocksKV.Metadata.ConsistentHash
import RocksKV.Proto
/-!
# Route tables and the tables the router builds (`pkg/metadata/store.go`, `router.go`)

| here | there |
| --- | --- |
| `PartitionInfo`, `RouteTable`, `NodeInfo` | `store.go:79-105` |
| `allocatePartitions`                      | `router.go:210-256` |
| `rebalancePartitions`                     | the table built by `RebalancePartitions` (`router.go:277-366`) |
| `promoteReplica`                          | `PromoteReplica` (`router.go:369-414`) |
| `setPartitionStatus`                      | `SetPartitionStatus` (`router.go:417-454`) |
| `completeMigration`                       | `CompleteMigration` (`router.go:494-559`) |
| `updateRouteTable`                        | `EtcdStore.UpdateRouteTable` (`etcd.go:332-370`) |

`promoteReplica`, `setPartitionStatus` and `completeMigration` are one scheme, `editPartition`: copy
every entry of the cached table, then overwrite fields of one of them. They differ in which fields
the copy keeps and in what is overwritten. Each is given by the table it starts from; who hands it
that table, and when, is the business of `Metadata.Router`.

A table's entries are stored under their own id (`RouteTable.ids`). `UpdatedAt` and the node fields
`LastHeartbeat`, `RegisteredAt`, `Partitions` are read by none of these functions.
-/

namespace RocksKV.Metadata

open Lib

/-- `TotalPartitions`. -/
def totalPartitions : Nat := 4096

/-- `MinReplicaNodes`. -/
def minReplicaNodes : Nat := 2

inductive PartitionStatus
  | normal | migratingOut | migratingIn | offline
  deriving DecidableEq, Repr

inductive NodeRole
  | storage | compute | metadata
  deriving DecidableEq, Repr

inductive NodeStatus
  | online | offline | draining | removed
  deriving DecidableEq, Repr

structure NodeInfo where
  id     : String
  addr   : String
  role   : NodeRole
  status : NodeStatus
  deriving DecidableEq, Repr

structure PartitionInfo where
  id              : UInt32
  primary         : String
  replica         : String
  status          : PartitionStatus
  migrationTarget : String
  migrationState  : Pb.MigrationState
  /-- Fencing token, incremented on every primary change. -/
  epoch           : UInt64
  deriving DecidableEq, Repr

structure RouteTable where
  version    : Nat
  partitions : OrdMap UInt32 PartitionInfo
  /-- Every entry is stored under its own id. -/
  ids        : ∀ k e, partitions.get k = some e → e.id = k

namespace RouteTable

@[ext] theorem ext {s t : RouteTable} (hv : s.version = t.version) (hp : s.partitions = t.partitions) : s = t := by
  cases s; cases t; cases hv; cases hp; rfl

instance : DecidableEq RouteTable := fun s t =>
  decidable_of_iff (s.version = t.version ∧ s.partitions = t.partitions)
    ⟨fun h => ext h.1 h.2, fun h => h ▸ ⟨rfl, rfl⟩⟩

/-- `table.Partitions[p]`. -/
def entry (t : RouteTable) (p : UInt32) : Option PartitionInfo := t.partitions.get p

theorem id_of_entry {t : RouteTable} {p : UInt32} {e : PartitionInfo} (h : t.entry p = some e) : e.id = p :=
  t.ids p e h

/-- `NewRouteTable`. -/
def new : RouteTable := ⟨1, OrdMap.empty, by simp⟩

/-- Rewrite every entry, as the copy loops do. -/
def mapEntries (t : RouteTable) (f : PartitionInfo → PartitionInfo) (hf : ∀ e, (f e).id = e.id) : RouteTable where
  version := t.version
  partitions := t.partitions.mapVal fun _ => f
  ids k e h := by
    rw [OrdMap.get_mapVal] at h
    obtain ⟨e', he, rfl⟩ := Option.map_eq_some_iff.1 h
    rw [hf, t.ids k e' he]

/-- Store an entry under its id. -/
def setEntry (t : RouteTable) (e : PartitionInfo) : RouteTable where
  version := t.version
  partitions := t.partitions.insert e.id e
  ids k x h := by
    rw [OrdMap.get_insert] at h
    split_ifs at h with hk
    · cases h; exact hk.symm
    · exact t.ids k x h

@[simp] theorem entry_mapEntries (t : RouteTable) (f : PartitionInfo → PartitionInfo) (hf) (p : UInt32) :
    (t.mapEntries f hf).entry p = (t.entry p).map f := OrdMap.get_mapVal ..

theorem entry_setEntry (t : RouteTable) (e : PartitionInfo) (p : UInt32) :
    (t.setEntry e).entry p = if p = e.id then some e else t.entry p := OrdMap.get_insert ..

@[simp] theorem entry_new (p : UInt32) : new.entry p = none := rfl

end RouteTable

/-! ## Edits of one partition -/

/-- The copy made by `PromoteReplica` and `CompleteMigration`: the migration fields stay behind. -/
def copyRouting (p : PartitionInfo) : PartitionInfo :=
  { p with migrationTarget := "", migrationState := .none }

/-- Copy every entry with `copy`, then overwrite fields of the copy of partition `partitionID`;
`change` sees the old entry and its copy. -/
def editPartition (copy : PartitionInfo → PartitionInfo) (change : PartitionInfo → PartitionInfo → PartitionInfo)
    (hcopy : ∀ p, (copy p).id = p.id) (table : RouteTable) (partitionID : UInt32) : Except String RouteTable :=
  match table.entry partitionID with
  | none => .error s!"partition {partitionID} not found"
  | some partition => .ok ((table.mapEntries copy hcopy).setEntry (change partition (copy partition)))

/-- What `PromoteReplica` writes: the pair is swapped and the epoch moves. -/
def promoted (partition new : PartitionInfo) : PartitionInfo :=
  { new with primary := partition.replica, replica := partition.primary, epoch := partition.epoch + 1 }

def promoteReplica : RouteTable → UInt32 → Except String RouteTable :=
  editPartition copyRouting promoted fun _ => rfl

def setPartitionStatus (table : RouteTable) (partitionID : UInt32) (status : PartitionStatus) :
    Except String RouteTable :=
  editPartition (fun p => p) (fun _ new => { new with status := status }) (fun _ => rfl) table partitionID

/-- What `CompleteMigration` writes into the migrated partition: the old primary becomes the replica
unless it is the new node itself, and the epoch moves with the primary. -/
def migrated (newNode : String) (isPrimary : Bool) (partition new : PartitionInfo) : PartitionInfo :=
  let new :=
    if isPrimary then
      { new with
        primary := newNode
        replica := if partition.primary ≠ newNode then partition.primary else new.replica
        epoch := partition.epoch + 1 }
    else { new with replica := newNode }
  { new with status := .normal }

def completeMigration (table : RouteTable) (partitionID : UInt32) (newNode : String) (isPrimary : Bool) :
    Except String RouteTable :=
  editPartition copyRouting (migrated newNode isPrimary) (fun _ => rfl) table partitionID

/-- **An edit rewrites its own partition and copies the others.** -/
theorem entry_editPartition {copy change hcopy} {table t : RouteTable} {q : UInt32}
    (hid : ∀ p, (change p (copy p)).id = p.id) (h : editPartition copy change hcopy table q = .ok t) (p : UInt32) :
    t.entry p = if p = q then (table.entry p).map (fun e => change e (copy e)) else (table.entry p).map copy := by
  unfold editPartition at h
  split at h
  · cases h
  · rename_i e he
    cases h
    have hq : (change e (copy e)).id = q := by rw [hid, RouteTable.id_of_entry he]
    rw [RouteTable.entry_setEntry, hq, RouteTable.entry_mapEntries]
    split_ifs with hp
    · rw [hp, he]; rfl
    · rfl

theorem entry_promoteReplica {table t : RouteTable} {q : UInt32} (h : promoteReplica table q = .ok t) (p : UInt32) :
    t.entry p = if p = q then (table.entry p).map (fun e => promoted e (copyRouting e))
      else (table.entry p).map copyRouting :=
  entry_editPartition (fun _ => rfl) h p

theorem entry_setPartitionStatus {table t : RouteTable} {q : UInt32} {st : PartitionStatus}
    (h : setPartitionStatus table q st = .ok t) (p : UInt32) :
    t.entry p = if p = q then (table.entry p).map (fun e => { e with status := st }) else table.entry p := by
  rw [entry_editPartition (fun _ => rfl) h p, Option.map_id']

theorem entry_completeMigration {table t : RouteTable} {q : UInt32} {n : String} {b : Bool}
    (h : completeMigration table q n b = .ok t) (p : UInt32) :
    t.entry p = if p = q then (table.entry p).map (fun e => migrated n b e (copyRouting e))
      else (table.entry p).map copyRouting :=
  entry_editPartition (fun e => by cases b <;> rfl) h p

/-! ### The pair of nodes -/

/-- Primary and replica. -/
def PartitionInfo.pair (e : PartitionInfo) : String × String := (e.primary, e.replica)

/-- What `CompleteMigration` makes of a pair. -/
def migratedPair (newNode : String) (isPrimary : Bool) (pair : String × String) : String × String :=
  if isPrimary then (newNode, if pair.1 ≠ newNode then pair.1 else pair.2) else (pair.1, newNode)

theorem pair_completeMigration {table t : RouteTable} {q : UInt32} {n : String} {b : Bool}
    (h : completeMigration table q n b = .ok t) (p : UInt32) :
    (t.entry p).map PartitionInfo.pair =
      (table.entry p).map fun e => if p = q then migratedPair n b e.pair else e.pair := by
  rw [entry_completeMigration h p]
  split_ifs with hp
  · rw [Option.map_map]
    congr 1
    funext e
    cases b <;> rfl
  · rw [Option.map_map]
    rfl

theorem pair_promoteReplica {table t : RouteTable} {q : UInt32} (h : promoteReplica table q = .ok t) (p : UInt32) :
    (t.entry p).map PartitionInfo.pair = (table.entry p).map fun e => if p = q then e.pair.swap else e.pair := by
  rw [entry_promoteReplica h p]
  split_ifs <;>
  · rw [Option.map_map]
    rfl

/-- An edit succeeds on the partitions there are. -/
theorem editPartition_ok {copy change hcopy} {table : RouteTable} {q : UInt32} (h : (table.entry q).isSome) :
    ∃ t, editPartition copy change hcopy table q = .ok t := by
  obtain ⟨e, he⟩ := Option.isSome_iff_exists.1 h
  unfold editPartition
  rw [he]
  exact ⟨_, rfl⟩

/-! ## Tables from the hash ring -/

/-- The entry `allocatePartitions` makes for partition `i`. -/
def allocated (hash : String → UInt32) (ring : ConsistentHash) (i : UInt32) : PartitionInfo :=
  let (primary, replica) := ring.getNodes hash i
  { id := i, primary := primary, replica := replica, status := .normal,
    migrationTarget := "", migrationState := .none, epoch := 1 }

theorem pair_allocated (hash : String → UInt32) (ring : ConsistentHash) (i : UInt32) :
    (allocated hash ring i).pair = ring.getNodes hash i := by
  rcases h : ring.getNodes hash i with ⟨primary, replica⟩
  simp only [allocated, h, PartitionInfo.pair]

theorem epoch_allocated (hash : String → UInt32) (ring : ConsistentHash) (i : UInt32) :
    (allocated hash ring i).epoch = 1 := by
  rcases h : ring.getNodes hash i with ⟨primary, replica⟩
  simp only [allocated, h]

def allocatePartitions (hash : String → UInt32) (nodes : List NodeInfo) : RouteTable :=
  (List.range totalPartitions).foldl
    (fun table i => table.setEntry (allocated hash (buildRing hash (nodes.map NodeInfo.addr)) (UInt32.ofNat i)))
    RouteTable.new

/-- The loop of `allocatePartitions`. -/
theorem entry_foldl_allocated (hash : String → UInt32) (ring : ConsistentHash) (p : UInt32) :
    ∀ (l : List Nat) (t : RouteTable),
      (l.foldl (fun table i => table.setEntry (allocated hash ring (UInt32.ofNat i))) t).entry p =
        if p ∈ l.map UInt32.ofNat then some (allocated hash ring p) else t.entry p
  | [], t => by simp
  | i :: l, t => by
    rw [List.foldl_cons, entry_foldl_allocated hash ring p l, List.map_cons]
    by_cases hl : p ∈ l.map UInt32.ofNat
    · rw [if_pos hl, if_pos (List.mem_cons_of_mem _ hl)]
    · have hid : (allocated hash ring (UInt32.ofNat i)).id = UInt32.ofNat i := rfl
      rw [if_neg hl, RouteTable.entry_setEntry, hid]
      by_cases hp : p = UInt32.ofNat i
      · rw [if_pos hp, if_pos (hp ▸ List.mem_cons_self), hp]
      · rw [if_neg hp, if_neg (by simp only [List.mem_cons, hp, hl, or_self, not_false_eq_true])]

/-- **A freshly allocated table** has all partitions, each where the ring puts it. -/
theorem entry_allocatePartitions (hash : String → UInt32) (nodes : List NodeInfo) (p : UInt32) :
    (allocatePartitions hash nodes).entry p = if p.toNat < totalPartitions then
      some (allocated hash (buildRing hash (nodes.map NodeInfo.addr)) p) else none := by
  have hmem : p ∈ (List.range totalPartitions).map UInt32.ofNat ↔ p.toNat < totalPartitions := by
    rw [List.mem_map]
    constructor
    · rintro ⟨i, hi, rfl⟩
      rw [List.mem_range] at hi
      rw [UInt32.toNat_ofNat_of_lt' (Nat.lt_trans hi (by decide))]
      exact hi
    · exact fun h => ⟨p.toNat, List.mem_range.2 h, UInt32.ofNat_toNat⟩
  rw [allocatePartitions, entry_foldl_allocated, RouteTable.entry_new]
  simp only [hmem]

/-- `ListNodes(NodeRoleStorage)` and the online filter of `RebalancePartitions`. -/
def onlineNodes (nodes : List NodeInfo) : List NodeInfo :=
  (nodes.filter fun n => decide (n.role = .storage)).filter fun n => decide (n.status = .online)

/-- A storage node that is online. -/
def onlineNode (name : String) : NodeInfo := { id := name, addr := name, role := .storage, status := .online }

/-- One entry of `RebalancePartitions`' loop: the ring decides both nodes, a changed primary moves
the epoch, and the migration fields stay behind. -/
def rebalanced (hash : String → UInt32) (ring : ConsistentHash) (partition : PartitionInfo) : PartitionInfo :=
  let (newPrimary, newReplica) := ring.getNodes hash partition.id
  { id := partition.id
    status := partition.status
    migrationTarget := ""
    migrationState := .none
    primary := newPrimary
    replica := newReplica
    epoch := if partition.primary = newPrimary then partition.epoch else partition.epoch + 1 }

/-- `primaryChanges + replicaChanges`. -/
def totalChanges (hash : String → UInt32) (ring : ConsistentHash) (table : RouteTable) : Nat :=
  (table.partitions.entries.map fun e =>
    let (newPrimary, newReplica) := ring.getNodes hash e.2.id
    (if e.2.primary = newPrimary then 0 else 1) + (if e.2.replica = newReplica then 0 else 1)).sum

/-- The table `RebalancePartitions` builds from its snapshot `currentTable`. -/
def rebalancePartitions (hash : String → UInt32) (ring : ConsistentHash) (currentTable : RouteTable) : RouteTable :=
  currentTable.mapEntries (rebalanced hash ring) fun _ => rfl

theorem entry_rebalancePartitions (hash : String → UInt32) (ring : ConsistentHash) (t : RouteTable) (p : UInt32) :
    (rebalancePartitions hash ring t).entry p = (t.entry p).map (rebalanced hash ring) :=
  RouteTable.entry_mapEntries ..

/-! ## The store -/

/-- `EtcdStore.UpdateRouteTable`: under the lock the committed version is read and the given table is
put with the next one. Nothing of the committed table but its version is looked at. -/
def updateRouteTable (current table : RouteTable) : RouteTable := { table with version := current.version + 1 }

@[simp] theorem entry_updateRouteTable (c t : RouteTable) (p : UInt32) :
    (updateRouteTable c t).entry p = t.entry p := rfl

/-- No entry carries a migration target or state, as in every table built from `allocatePartitions`. -/
def NoMigration (t : RouteTable) : Prop := ∀ p e, t.entry p = some e → copyRouting e = e

instance (t : RouteTable) : Decidable (NoMigration t) :=
  decidable_of_iff (∀ x ∈ t.partitions.entries, copyRouting x.2 = x.2)
    ⟨fun h p e he => h (p, e) (OrdMap.mem_entries.2 he), fun h x hx => h x.1 x.2 (OrdMap.mem_entries.1 hx)⟩

/-- **A freshly allocated table carries no migration.** -/
theorem noMigration_allocatePartitions (hash : String → UInt32) (nodes : List NodeInfo) :
    NoMigration (allocatePartitions hash nodes) := by
  intro p e he
  rw [entry_allocatePartitions] at he
  split_ifs at he
  cases he
  rfl

/-! ## Edits one after another -/

section
variable {α : Type}

/-- Each edit starts from the table the one before it has committed. -/
def runEdits (edit : RouteTable → α → Except String RouteTable) (table : RouteTable) : List α → Except String RouteTable
  | [] => .ok table
  | x :: xs =>
    match edit table x with
    | .error e => .error e
    | .ok new => runEdits edit (updateRouteTable table new) xs

/-- The edit succeeds where its partition exists, and makes `f x` of its pair. -/
structure EditsPair (edit : RouteTable → α → Except String RouteTable) (partition : α → UInt32)
    (f : α → String × String → String × String) : Prop where
  ok   : ∀ {table x}, (table.entry (partition x)).isSome → ∃ t, edit table x = .ok t
  pair : ∀ {table x t}, edit table x = .ok t → ∀ p, (t.entry p).map PartitionInfo.pair =
    (table.entry p).map fun e => if p = partition x then f x e.pair else e.pair

/-- **What edits do to a partition** depends on its own edits only. -/
theorem EditsPair.runEdits {edit : RouteTable → α → Except String RouteTable} {partition : α → UInt32}
    {f : α → String × String → String × String} (h : EditsPair edit partition f) :
    ∀ {xs : List α} {table : RouteTable}, (∀ x ∈ xs, (table.entry (partition x)).isSome) →
      ∃ t, runEdits edit table xs = .ok t ∧ ∀ p, (t.entry p).map PartitionInfo.pair = (table.entry p).map fun e =>
        (xs.filter fun x => partition x = p).foldl (fun pair x => f x pair) e.pair
  | [], table, _ => ⟨table, rfl, fun p => rfl⟩
  | x :: xs, table, hsome => by
    obtain ⟨new, hnew⟩ := h.ok (hsome x List.mem_cons_self)
    have hpair := h.pair hnew
    have hsome' : ∀ y ∈ xs, ((updateRouteTable table new).entry (partition y)).isSome := by
      intro y hy
      have hy' := congrArg Option.isSome (hpair (partition y))
      rw [Option.isSome_map, Option.isSome_map] at hy'
      rw [entry_updateRouteTable, hy']
      exact hsome y (List.mem_cons_of_mem _ hy)
    obtain ⟨t, ht, hall⟩ := EditsPair.runEdits h hsome'
    refine ⟨t, by rw [Metadata.runEdits, hnew]; exact ht, fun p => ?_⟩
    rw [hall p, entry_updateRouteTable]
    have hstep : ∀ g : String × String → String × String, (new.entry p).map (fun e => g e.pair) =
        (table.entry p).map fun e => g (if p = partition x then f x e.pair else e.pair) := by
      intro g
      have hg := congrArg (Option.map g) (hpair p)
      rw [Option.map_map, Option.map_map] at hg
      exact hg
    refine (hstep fun pair => (xs.filter fun x => partition x = p).foldl (fun pair x => f x pair) pair).trans ?_
    congr 1
    funext e
    by_cases hp : partition x = p
    · simp [hp]
    · simp [hp, Ne.symm hp]

end

theorem editsPair_completeMigration {α : Type} (partition : α → UInt32) (newNode : α → String) (isPrimary : α → Bool) :
    EditsPair (fun table x => completeMigration table (partition x) (newNode x) (isPrimary x)) partition
      fun x => migratedPair (newNode x) (isPrimary x) :=
  ⟨fun h => editPartition_ok h, fun h => pair_completeMigration h⟩

end RocksKV.Metadata
