import RocksKV.Storage.Server
/-!
# Applying a route update on a storage node (`pkg/storage/server.go:1177-1241`, `:1487-1525`)

| here | there |
| --- | --- |
| `initializeReplicator`, `stopReplicator` | `server.go:1487-1525` |
| `updateFromEntry`                        | one entry of the loop of `updatePartitionsFromRoute` (`:1182-1215`) |
| `dropUnlisted`                           | one round of its second loop (`:1217-1232`) |
| `updatePartitionsFromRoute`              | `:1177-1241` |

`opens p` says whether `NewCommandLogReplicator` can open the log of partition `p`; `Start` never fails.

A partition that is already hosted only gets its epoch raised: its role, and its replicator's role and
target, stay what they were when the partition was added. So after an update the node has the roles the
update gives it exactly when it had them before, up to newly added partitions (`roleAgreement_iff`), and a
promoted replica stays a replica (`promoted_replica_keeps_its_role`).
-/

namespace RocksKV.Storage

open Lib

section
variable (opens : UInt32 → Bool)

namespace Server

/-- The existing replicator is stopped first; when the new log cannot be opened it stays in the map, closed. -/
def initializeReplicator (s : Server) (partitionID : UInt32) (isPrimary : Bool) (replicaAddr : String) : Server :=
  let s := match s.replicators.get partitionID with
    | none => s
    | some existing => { s with replicators := s.replicators.insert partitionID { existing with closed := true } }
  let replicator : Replicator := { isPrimary := isPrimary, replicaAddr := replicaAddr, closed := false }
  if opens partitionID then { s with replicators := s.replicators.insert partitionID replicator } else s

def stopReplicator (s : Server) (partitionID : UInt32) : Server :=
  { s with replicators := s.replicators.erase partitionID }

def updateFromEntry (myAddr : String) (s : Server) (p : Pb.PartitionInfo) : Server :=
  let isPrimary := decide (p.primary = myAddr)
  let isReplica := decide (p.replica = myAddr)
  if isPrimary || isReplica then
    if !s.pm.hasPartition p.partitionId then
      match s.pm.addPartitionWithEpoch p.partitionId isPrimary p.epoch with
      | .error _ => s
      | .ok pm =>
        let s := { s with pm := pm }
        if isPrimary then s.initializeReplicator opens p.partitionId true p.replica
        else s.initializeReplicator opens p.partitionId false ""
    else
      match s.pm.updatePartitionEpoch p.partitionId p.epoch with
      | .error _ => s
      | .ok pm => { s with pm := pm }
  else s

/-- A hosted partition the update does not place here: its replicator is stopped and it is removed. -/
def dropUnlisted (shouldExist : List UInt32) (s : Server) (partitionID : UInt32) : Server :=
  if partitionID ∈ shouldExist then s
  else
    let s := s.stopReplicator partitionID
    match s.pm.removePartition partitionID with
    | .error _ => s
    | .ok pm => { s with pm := pm }

def updatePartitionsFromRoute (s : Server) (partitions : List Pb.PartitionInfo) (myAddr : String) : Server :=
  let s := partitions.foldl (updateFromEntry opens myAddr) s
  s.pm.listPartitions.foldl (dropUnlisted (placedOn partitions myAddr)) s

end Server

/-! ## What the node is after an update -/

/-- The update places the partition on `addr`. -/
def PlacedOn (e : Pb.PartitionInfo) (addr : String) : Prop := e.primary = addr ∨ e.replica = addr

instance (e : Pb.PartitionInfo) (addr : String) : Decidable (PlacedOn e addr) :=
  inferInstanceAs (Decidable (_ ∨ _))

/-- A replicator with the role the update gives the node, pointing at the replica when that is the primary's. -/
def Replicator.Matches (r : Replicator) (e : Pb.PartitionInfo) (addr : String) : Prop :=
  r.isPrimary = decide (e.primary = addr) ∧ (e.primary = addr → r.replicaAddr = e.replica)

instance (r : Replicator) (e : Pb.PartitionInfo) (addr : String) : Decidable (r.Matches e addr) :=
  inferInstanceAs (Decidable (_ ∧ _))

/-- The epoch the node holds for a partition, zero when it does not host it. -/
def Server.epochOf (s : Server) (p : UInt32) : UInt64 := ((s.pm.partitions.get p).map Partition.epoch).getD 0

/-- **Roles agree with the update**: the node hosts exactly what the update places on it, each partition with the
update's role, the larger epoch and a matching replicator; and, when the manager knows the node under the same
name, it has the roles `UpdateFromRouteTable` would give it. -/
def RoleAgreement (s : Server) (partitions : List Pb.PartitionInfo) (addr : String) : Prop :=
  let s' := s.updatePartitionsFromRoute opens partitions addr
  (∀ p, s'.pm.hasPartition p = true ↔ p ∈ placedOn partitions addr) ∧
  (∀ e ∈ partitions, PlacedOn e addr →
    ∃ q r, s'.pm.partitions.get e.partitionId = some q ∧ s'.replicators.get e.partitionId = some r ∧
      q.isPrime = decide (e.primary = addr) ∧ q.epoch = max (s.epochOf e.partitionId) e.epoch ∧ r.Matches e addr) ∧
  (s.pm.nodeID = addr → ∀ p, s'.pm.isPrimary p = (s.pm.updateFromRouteTable partitions).isPrimary p)

/-- What must hold before the update: every partition the update leaves on the node already has the role the update
gives it, with a matching replicator; a partition that is new to the node can open its log, or finds a matching
replicator. -/
def RolesInPlace (s : Server) (partitions : List Pb.PartitionInfo) (addr : String) : Prop :=
  ∀ e ∈ partitions, PlacedOn e addr →
    let matching := ∃ r, s.replicators.get e.partitionId = some r ∧ r.Matches e addr
    match s.pm.partitions.get e.partitionId with
    | none => opens e.partitionId = true ∨ matching
    | some q => q.isPrime = decide (e.primary = addr) ∧ matching

/-! ## One partition at a time -/

/-- What the node holds about one partition. -/
def Server.view (s : Server) (p : UInt32) : Option Partition × Option Replicator :=
  (s.pm.partitions.get p, s.replicators.get p)

/-- What an entry of the update makes of it. -/
def entryView (addr : String) (e : Pb.PartitionInfo) (v : Option Partition × Option Replicator) :
    Option Partition × Option Replicator :=
  if PlacedOn e addr then
    match v.1 with
    | none =>
      let added : Partition :=
        { id := e.partitionId, status := .normal, isPrime := decide (e.primary = addr), epoch := e.epoch }
      let opened : Replicator :=
        { isPrimary := decide (e.primary = addr), replicaAddr := if e.primary = addr then e.replica else ""
          closed := false }
      (some added, if opens e.partitionId then some opened else v.2.map fun r => { r with closed := true })
    | some q => (some { q with epoch := max q.epoch e.epoch }, v.2)
  else v

/-- What the second loop makes of a hosted partition. -/
def dropView (shouldExist : List UInt32) (p : UInt32) (v : Option Partition × Option Replicator) :
    Option Partition × Option Replicator :=
  if p ∈ shouldExist then v else (none, none)

variable {opens : UInt32 → Bool}

/-- A placed partition is hosted, in the role it had or, when new, in the update's. -/
theorem entryView_placed {addr : String} {e : Pb.PartitionInfo} (h : PlacedOn e addr)
    (v : Option Partition × Option Replicator) :
    ∃ q, (entryView opens addr e v).1 = some q ∧
      q.isPrime = (v.1.map Partition.isPrime).getD (decide (e.primary = addr)) := by
  unfold entryView
  rw [if_pos h]
  cases v.1 with
  | none => exact ⟨_, rfl, rfl⟩
  | some q => exact ⟨_, rfl, rfl⟩

theorem view_initializeReplicator (s : Server) (p : UInt32) (b : Bool) (a : String) (k : UInt32) :
    (s.initializeReplicator opens p b a).view k =
      if k = p then ((s.view k).1, if opens p then some { isPrimary := b, replicaAddr := a, closed := false }
        else (s.view k).2.map fun r => { r with closed := true }) else s.view k := by
  unfold Server.initializeReplicator
  by_cases hk : k = p
  · subst hk
    cases hr : s.replicators.get k <;> by_cases ho : opens k <;> simp [Server.view, hr, ho]
  · cases hr : s.replicators.get p <;> by_cases ho : opens p <;> simp [Server.view, ho, hk, OrdMap.get_insert]

theorem view_updateFromEntry (addr : String) (s : Server) (e : Pb.PartitionInfo) (k : UInt32) :
    (s.updateFromEntry opens addr e).view k =
      if k = e.partitionId then entryView opens addr e (s.view k) else s.view k := by
  unfold Server.updateFromEntry
  by_cases hpl : PlacedOn e addr
  swap
  · have hcond : (decide (e.primary = addr) || decide (e.replica = addr)) = false := by simpa [PlacedOn] using hpl
    simp [hcond, entryView, hpl]
  have hcond : (decide (e.primary = addr) || decide (e.replica = addr)) = true := by simpa [PlacedOn] using hpl
  simp only [hcond, if_true]
  cases hg : s.pm.partitions.get e.partitionId with
  | none =>
    -- new to the node: added, and its replicator opened with the update's role
    have hh := PartitionManager.hasPartition_eq_false.2 hg
    have hinit : ∀ t : Server,
        (if decide (e.primary = addr) then t.initializeReplicator opens e.partitionId true e.replica
          else t.initializeReplicator opens e.partitionId false "") =
        t.initializeReplicator opens e.partitionId (decide (e.primary = addr))
          (if e.primary = addr then e.replica else "") := by
      intro t
      by_cases hpr : e.primary = addr <;> simp [hpr]
    simp only [hh, PartitionManager.addPartitionWithEpoch_of_absent hh, Bool.not_false, if_true]
    rw [hinit, view_initializeReplicator]
    by_cases hk : k = e.partitionId
    · subst hk
      simp [entryView, hpl, Server.view, hg]
    · simp [hk, Server.view, OrdMap.get_insert]
  | some q =>
    have hh := PartitionManager.hasPartition_eq_true.2 ⟨q, hg⟩
    have hmax : (if q.epoch < e.epoch then { q with epoch := e.epoch } else q) =
        { q with epoch := max q.epoch e.epoch } := by
      split_ifs with hlt
      · rw [max_eq_right hlt.le]
      · rw [max_eq_left (not_lt.1 hlt)]
    simp only [hh, PartitionManager.updatePartitionEpoch, PartitionManager.modify_of_hosted hg, hmax]
    by_cases hk : k = e.partitionId
    · subst hk
      simp [entryView, hpl, Server.view, hg]
    · simp [hk, Server.view, OrdMap.get_insert]

theorem view_dropUnlisted (shouldExist : List UInt32) (s : Server) (p k : UInt32) :
    (s.dropUnlisted shouldExist p).view k = if k = p then dropView shouldExist p (s.view k) else s.view k := by
  unfold Server.dropUnlisted dropView
  by_cases hp : p ∈ shouldExist
  · simp [hp]
  simp only [hp, if_false, PartitionManager.removePartition, Server.stopReplicator]
  by_cases hh : s.pm.hasPartition p = true
  · by_cases hk : k = p <;> simp [Server.view, hh, hk, OrdMap.get_erase]
  · have hg := PartitionManager.hasPartition_eq_false.1 (Bool.eq_false_iff.2 hh)
    by_cases hk : k = p
    · subst hk; simp [Server.view, hh, OrdMap.get_erase, hg]
    · simp [Server.view, hh, hk, OrdMap.get_erase]

theorem mem_placedOn {partitions : List Pb.PartitionInfo} {addr : String} {p : UInt32} :
    p ∈ placedOn partitions addr ↔ ∃ e ∈ partitions, PlacedOn e addr ∧ e.partitionId = p := by
  simp [placedOn, PlacedOn, and_assoc]

/-- With distinct ids, looking an entry up by its id finds it. -/
theorem find_entry {partitions : List Pb.PartitionInfo} (hnd : (partitions.map Pb.PartitionInfo.partitionId).Nodup)
    {e : Pb.PartitionInfo} (he : e ∈ partitions) :
    (partitions.find? fun x => decide (e.partitionId = x.partitionId)) = some e := by
  induction partitions with
  | nil => cases he
  | cons x l ih =>
    rw [List.map_cons, List.nodup_cons] at hnd
    rw [List.find?_cons]
    rcases List.mem_cons.1 he with rfl | he
    · simp
    · have hne : e.partitionId ≠ x.partitionId := fun h => hnd.1 (h ▸ List.mem_map_of_mem he)
      simpa [hne] using ih hnd.2 he

theorem view_dropAll (shouldExist : List UInt32) (s : Server) (k : UInt32) :
    (k ∈ shouldExist → (s.pm.listPartitions.foldl (Server.dropUnlisted shouldExist) s).view k = s.view k) ∧
    (k ∉ shouldExist → (s.pm.listPartitions.foldl (Server.dropUnlisted shouldExist) s).pm.partitions.get k = none) := by
  have hnd : (s.pm.listPartitions.map fun p => p).Nodup := by
    rw [List.map_id']; exact OrdMap.nodup_keys _
  have hview := OrdMap.foldl_view Server.view (view_dropUnlisted shouldExist) k s hnd
  cases hf : s.pm.listPartitions.find? (fun p => decide (k = p)) with
  | none =>
    have hk : k ∉ s.pm.listPartitions := fun hk => by simpa using List.find?_eq_none.1 hf k hk
    have hg : s.pm.partitions.get k = none :=
      OrdMap.contains_eq_false.1 (Bool.eq_false_iff.2 fun h => hk (OrdMap.mem_keys.2 h))
    rw [hf] at hview
    exact ⟨fun _ => hview, fun _ => (congrArg Prod.fst hview).trans hg⟩
  | some p =>
    have hp : k = p := by simpa using List.find?_some hf
    subst hp
    rw [hf] at hview
    refine ⟨fun hk => ?_, fun hk => ?_⟩
    · rw [hview]; simp [dropView, hk]
    · change (Server.view _ k).1 = none
      rw [hview]; simp [dropView, hk]

/-- **What an update leaves of one partition**: its entry's doing where the update places it on the node,
nothing elsewhere. -/
theorem view_updatePartitionsFromRoute (opens : UInt32 → Bool) {partitions : List Pb.PartitionInfo}
    (hnd : (partitions.map Pb.PartitionInfo.partitionId).Nodup) (s : Server) (addr : String) :
    (∀ e ∈ partitions, PlacedOn e addr →
      (s.updatePartitionsFromRoute opens partitions addr).view e.partitionId =
        entryView opens addr e (s.view e.partitionId)) ∧
    ∀ k, k ∉ placedOn partitions addr →
      (s.updatePartitionsFromRoute opens partitions addr).pm.partitions.get k = none := by
  refine ⟨fun e he hpl => ?_, fun k hk => (view_dropAll _ _ k).2 hk⟩
  unfold Server.updatePartitionsFromRoute
  rw [(view_dropAll _ _ _).1 (mem_placedOn.2 ⟨e, he, hpl, rfl⟩),
    OrdMap.foldl_view Server.view (view_updateFromEntry addr) e.partitionId s hnd, find_entry hnd he]
  rfl

/-! ## The manager's own update -/

/-- What an entry of a route table makes of a partition of the manager of node `v.1`. -/
def managerView (e : Pb.PartitionInfo) (v : String × Option Partition) : String × Option Partition :=
  if PlacedOn e v.1 then
    match v.2 with
    | none => (v.1, some { id := e.partitionId, status := e.status, isPrime := decide (e.primary = v.1), epoch := 0 })
    | some q => (v.1, some { q with status := e.status, isPrime := decide (e.primary = v.1) })
  else v

theorem managerView_fold (pm : PartitionManager) (e : Pb.PartitionInfo) (k : UInt32) :
    (pm.updateFromEntry e).nodeID = pm.nodeID ∧
    ((pm.updateFromEntry e).nodeID, (pm.updateFromEntry e).partitions.get k) =
      if k = e.partitionId then managerView e (pm.nodeID, pm.partitions.get k)
      else (pm.nodeID, pm.partitions.get k) := by
  unfold PartitionManager.updateFromEntry
  by_cases hpl : PlacedOn e pm.nodeID
  · have hcond : (decide (e.primary = pm.nodeID) || decide (e.replica = pm.nodeID)) = true := by
      simpa [PlacedOn] using hpl
    simp only [hcond, if_true, true_and]
    by_cases hk : k = e.partitionId
    · subst hk
      cases hg : pm.partitions.get e.partitionId <;> simp [managerView, hpl]
    · simp [hk, OrdMap.get_insert]
  · have hcond : (decide (e.primary = pm.nodeID) || decide (e.replica = pm.nodeID)) = false := by
      simpa [PlacedOn] using hpl
    simp [hcond, managerView, hpl]

/-- `UpdateFromRouteTable` gives every listed partition the table's role, and hosts no other. -/
theorem isPrimary_updateFromRouteTable {partitions : List Pb.PartitionInfo}
    (hnd : (partitions.map Pb.PartitionInfo.partitionId).Nodup) (pm : PartitionManager) :
    (∀ e ∈ partitions, PlacedOn e pm.nodeID →
      (pm.updateFromRouteTable partitions).isPrimary e.partitionId = decide (e.primary = pm.nodeID)) ∧
    ∀ k, k ∉ placedOn partitions pm.nodeID → (pm.updateFromRouteTable partitions).isPrimary k = false := by
  refine ⟨fun e he hpl => ?_, fun k hk => ?_⟩
  · have hview := OrdMap.foldl_view (fun (pm : PartitionManager) k => (pm.nodeID, pm.partitions.get k))
      (fun pm e k => (managerView_fold pm e k).2) e.partitionId pm hnd
    rw [find_entry hnd he] at hview
    have hmem : e.partitionId ∈ placedOn partitions pm.nodeID := mem_placedOn.2 ⟨e, he, hpl, rfl⟩
    have hget := congrArg Prod.snd hview
    simp only [Option.map_some, Option.getD_some, managerView, hpl, if_true] at hget
    simp only [PartitionManager.updateFromRouteTable, PartitionManager.isPrimary, OrdMap.get_keep, hmem,
      decide_true, if_true, hget]
    cases pm.partitions.get e.partitionId <;> rfl
  · simp [PartitionManager.updateFromRouteTable, PartitionManager.isPrimary, OrdMap.get_keep, hk]

/-! ## Role agreement -/

/-- **One placed partition** has the update's role exactly if its role was in place before. -/
theorem entryView_role_iff (opens : UInt32 → Bool) {e : Pb.PartitionInfo} {addr : String} (hpl : PlacedOn e addr)
    (s : Server) :
    (∃ q r, entryView opens addr e (s.view e.partitionId) = (some q, some r) ∧
      q.isPrime = decide (e.primary = addr) ∧ q.epoch = max (s.epochOf e.partitionId) e.epoch ∧ r.Matches e addr) ↔
    match s.pm.partitions.get e.partitionId with
    | none => opens e.partitionId = true ∨ ∃ r, s.replicators.get e.partitionId = some r ∧ r.Matches e addr
    | some q =>
      q.isPrime = decide (e.primary = addr) ∧ ∃ r, s.replicators.get e.partitionId = some r ∧ r.Matches e addr := by
  rw [entryView, if_pos hpl]
  cases hg : s.pm.partitions.get e.partitionId with
  | none =>
    cases ho : opens e.partitionId with
    | true => simp +contextual [Server.view, hg, Server.epochOf, Replicator.Matches]
    | false => simp [Server.view, hg, Server.epochOf, Replicator.Matches]
  | some q =>
    simp only [Server.view, hg, Server.epochOf, Prod.mk.injEq, Option.some.injEq, Option.map_some, Option.getD_some]
    constructor
    · rintro ⟨_, r, ⟨rfl, hr⟩, hprime, -, hm⟩
      exact ⟨hprime, r, hr, hm⟩
    · rintro ⟨hprime, r, hr, hm⟩
      exact ⟨_, r, ⟨rfl, hr⟩, hprime, rfl, hm⟩

/-- **Role agreement, exactly**: an update whose ids are distinct, as `sendRouteUpdate` builds them, leaves the
node with the update's roles iff they were in place before. -/
theorem roleAgreement_iff (opens : UInt32 → Bool) (s : Server) {partitions : List Pb.PartitionInfo}
    (hnd : (partitions.map Pb.PartitionInfo.partitionId).Nodup) (addr : String) :
    RoleAgreement opens s partitions addr ↔ RolesInPlace opens s partitions addr := by
  obtain ⟨hview, hgone⟩ := view_updatePartitionsFromRoute opens hnd s addr
  set s' := s.updatePartitionsFromRoute opens partitions addr with hs'
  have hrole : ∀ e ∈ partitions, PlacedOn e addr → ∀ q r,
      entryView opens addr e (s.view e.partitionId) = (some q, some r) ↔
        s'.pm.partitions.get e.partitionId = some q ∧ s'.replicators.get e.partitionId = some r := by
    intro e he hpl q r
    rw [← hview e he hpl, Server.view, Prod.mk.injEq]
  constructor
  · rintro ⟨-, hroles, -⟩ e he hpl
    obtain ⟨q, r, hq, hr, hrest⟩ := hroles e he hpl
    exact (entryView_role_iff opens hpl s).1 ⟨q, r, (hrole e he hpl q r).2 ⟨hq, hr⟩, hrest⟩
  · intro hin
    have hplaced : ∀ e ∈ partitions, PlacedOn e addr →
        ∃ q r, s'.pm.partitions.get e.partitionId = some q ∧ s'.replicators.get e.partitionId = some r ∧
          q.isPrime = decide (e.primary = addr) ∧ q.epoch = max (s.epochOf e.partitionId) e.epoch ∧
          r.Matches e addr := by
      intro e he hpl
      obtain ⟨q, r, hqr, hrest⟩ := (entryView_role_iff opens hpl s).2 (hin e he hpl)
      obtain ⟨hq, hr⟩ := (hrole e he hpl q r).1 hqr
      exact ⟨q, r, hq, hr, hrest⟩
    refine ⟨fun p => ⟨fun h => ?_, fun h => ?_⟩, hplaced, fun hid p => ?_⟩
    · by_contra hp
      obtain ⟨q, hq⟩ := PartitionManager.hasPartition_eq_true.1 h
      rw [hgone p hp] at hq
      cases hq
    · obtain ⟨e, he, hpl, rfl⟩ := mem_placedOn.1 h
      obtain ⟨q, r, hq, -⟩ := hplaced e he hpl
      exact PartitionManager.hasPartition_eq_true.2 ⟨q, hq⟩
    · obtain ⟨hm1, hm2⟩ := isPrimary_updateFromRouteTable hnd s.pm
      by_cases hp : p ∈ placedOn partitions addr
      · obtain ⟨e, he, hpl, rfl⟩ := mem_placedOn.1 hp
        obtain ⟨q, r, hq, -, hprime, -⟩ := hplaced e he hpl
        rw [hm1 e he (hid ▸ hpl), PartitionManager.isPrimary, hq, hid]
        exact hprime
      · rw [hm2 p (hid ▸ hp), PartitionManager.isPrimary, hgone p hp]

end

/-- Node `b`, replica of partition 7. -/
def replicaOfSeven : Server where
  pm := { nodeID := "b", partitions := OrdMap.empty.insert 7 ⟨7, .normal, false, 1⟩, db := OrdMap.empty }
  nodeLease := 1
  nodeLeaseLost := false
  replicators := OrdMap.empty.insert 7 ⟨false, "", false⟩
  logs := OrdMap.empty

/-- An update with partition 7 on nodes `a` and `b`. -/
def sevenOn (primary replica : String) : List Pb.PartitionInfo :=
  [{ partitionId := 7, primary := primary, replica := replica, status := .normal, migrationTarget := ""
     migrationState := .none, epoch := 2 }]

/-- An update that leaves the roles as they are agrees with them. -/
theorem kept_replica_agrees : RoleAgreement (fun _ => true) replicaOfSeven (sevenOn "a" "b") "b" := by
  refine (roleAgreement_iff (fun _ => true) replicaOfSeven (by decide) "b").2 fun e he _ => ?_
  obtain rfl := List.mem_singleton.1 he
  exact ⟨rfl, ⟨false, "", false⟩, rfl, by decide⟩

/-- **Bug**: the update that promotes `b` raises the epoch of partition 7 and leaves `b` a replica, with a
replicator that replicates to no one. -/
theorem promoted_replica_keeps_its_role :
    ¬ RoleAgreement (fun _ => true) replicaOfSeven (sevenOn "b" "a") "b" := by
  rintro ⟨-, hroles, -⟩
  obtain ⟨q, r, hq, -, hprime, -⟩ := hroles _ (List.mem_singleton.2 rfl) (Or.inl rfl)
  have hafter : (replicaOfSeven.updatePartitionsFromRoute (fun _ => true) (sevenOn "b" "a") "b").pm.partitions.get 7 =
      some ⟨7, .normal, false, 2⟩ := by decide
  have hq' : some q = some ⟨7, .normal, false, 2⟩ := hq.symm.trans hafter
  cases hq'
  exact absurd hprime (by decide)

end RocksKV.Storage
