import RocksKV.Metadata.Migration
/-!
# The records of migrations that fail (`pkg/metadata/migration.go:414-506`, `router.go:457-559`)

| here | there |
| --- | --- |
| `MigrationStore`    | what a migration writes in etcd: its record, and in the end the route table |
| `SwitchEnv`         | what `CompleteMigration` meets |
| `completeMigration` | `Router.CompleteMigration` (`router.go:494-559`) |
| `migrateItem`       | `migratePartition` with its two writes; the copy between them is `migratePartition` here |

A migration stores its record first and `CompleteMigration` deletes it, before it writes the route table. **Bug**: no
error path of `migratePartition` deletes the record, so a copy that fails leaves it behind (`record_left_behind`); and a
`CompleteMigration` that fails after the deletion has lost the record of a migration that is not done. The sibling in the
scheduler deletes the record of a failed task (`migration_scheduler.go:426-429`).
-/

namespace RocksKV.Metadata

open Lib Storage

structure MigrationStore where
  migrations : OrdMap UInt32 MigrationInfo
  routeTable : RouteTable

structure SwitchEnv where
  /-- The router's table by then; the watch may have delivered another one. -/
  cached      : RouteTable
  /-- The error of `DeleteMigrationState`. -/
  deleteError : Option String
  /-- The error of `UpdateRouteTable`. -/
  updateError : Option String

/-- The error, if any. -/
def MigrationStore.completeMigration (st : MigrationStore) (env : SwitchEnv) (partitionID : UInt32) (newNode : String)
    (isPrimary : Bool) : MigrationStore × Option String :=
  -- a failure to delete is only logged
  let st := if env.deleteError.isSome then st else { st with migrations := st.migrations.erase partitionID }
  match Metadata.completeMigration env.cached partitionID newNode isPrimary with
  | .error err => (st, some err)
  | .ok newTable =>
    match env.updateError with
    | some err => (st, some err)
    | none => ({ st with routeTable := updateRouteTable st.routeTable newTable }, none)

def migrateItem (fmt : SSTFormat) (cached : RouteTable) (env : CopyEnv) (switch : SwitchEnv) (st : MigrationStore)
    (item : MigrationPlanItem) : MigrationStore × Option String :=
  match setPartitionMigration cached item.partitionID item.targetNode .copying with
  | .error err => (st, some (CopyFault.setState.message err))
  | .ok info =>
    if env.fault = some .setState then (st, some (CopyFault.setState.message env.cause))
    else
      let st := { st with migrations := st.migrations.insert item.partitionID info }
      match (migratePartition fmt cached env item).call with
      | .error err => (st, some err)
      | .ok call =>
        match st.completeMigration switch call.partitionID call.targetNode call.isPrimary with
        | (st, some err) => (st, some s!"failed to complete migration: {err}")
        | (st, none) => (st, none)

section
variable {fmt : SSTFormat} {cached : RouteTable} {env : CopyEnv} {switch : SwitchEnv} {st : MigrationStore}
  {item : MigrationPlanItem} {p : UInt32} {newNode : String} {isPrimary : Bool}

/-- An error leaves the route table, and of the records what the deletion has left. -/
theorem completeMigration_error (h : (st.completeMigration switch p newNode isPrimary).2 ≠ none) :
    (st.completeMigration switch p newNode isPrimary).1.routeTable = st.routeTable ∧
    (st.completeMigration switch p newNode isPrimary).1.migrations =
      if switch.deleteError.isSome then st.migrations else st.migrations.erase p := by
  unfold MigrationStore.completeMigration at h ⊢
  dsimp only at h ⊢
  split at h
  · split_ifs <;> exact ⟨rfl, rfl⟩
  · split at h
    · split_ifs <;> exact ⟨rfl, rfl⟩
    · exact absurd rfl h

/-- The record is stored before the copy. -/
theorem migrateItem_of_stored {e : PartitionInfo} (he : cached.entry item.partitionID = some e)
    (hset : env.fault ≠ some .setState) :
    ∃ info, migrateItem fmt cached env switch st item =
      match (migratePartition fmt cached env item).call with
      | .error err => ({ st with migrations := st.migrations.insert item.partitionID info }, some err)
      | .ok call =>
        match MigrationStore.completeMigration { st with migrations := st.migrations.insert item.partitionID info } switch
          call.partitionID call.targetNode call.isPrimary with
        | (st, some err) => (st, some s!"failed to complete migration: {err}")
        | (st, none) => (st, none) := by
  unfold migrateItem setPartitionMigration
  rw [he]
  dsimp only
  rw [if_neg hset]
  exact ⟨_, rfl⟩

/-- A copy that fails leaves the record. -/
theorem migrateItem_of_fails (hunset : ¬ (cached.entry item.partitionID = none ∨ env.fault = some .setState))
    (hfails : Fails fmt cached env item) :
    ∃ info err, migrateItem fmt cached env switch st item =
      ({ st with migrations := st.migrations.insert item.partitionID info }, some err) := by
  rw [not_or] at hunset
  obtain ⟨e, he⟩ := Option.ne_none_iff_exists'.1 hunset.1
  obtain ⟨info, heq⟩ := @migrateItem_of_stored fmt cached env switch st item e he hunset.2
  cases hcall : (migratePartition fmt cached env item).call with
  | error err =>
    rw [hcall] at heq
    exact ⟨info, err, heq⟩
  | ok call =>
    obtain ⟨rfl, -⟩ := migratePartition_call hcall
    exact absurd hfails (call_ok_iff.1 hcall)

/-- After a copy that gets through `CompleteMigration` decides. -/
theorem migrateItem_of_copied (hno : ¬ Fails fmt cached env item) :
    ∃ st' : MigrationStore, st'.routeTable = st.routeTable ∧ st'.migrations.get item.partitionID ≠ none ∧
      migrateItem fmt cached env switch st item =
        ((st'.completeMigration switch item.partitionID item.targetNode item.isPrimary).1,
          (st'.completeMigration switch item.partitionID item.targetNode item.isPrimary).2.map
            fun err => s!"failed to complete migration: {err}") := by
  obtain ⟨e, he⟩ := Option.ne_none_iff_exists'.1 fun hnone => hno (.unknown hnone)
  obtain ⟨info, heq⟩ := @migrateItem_of_stored fmt cached env switch st item e he fun hset => hno (.call _ hset nofun)
  refine ⟨{ st with migrations := st.migrations.insert item.partitionID info }, rfl, by simp, ?_⟩
  rw [heq, call_ok_iff.2 hno]
  dsimp only
  rcases MigrationStore.completeMigration _ _ _ _ _ with ⟨st', _ | err⟩ <;> rfl

theorem migrateItem_of_unset (h : cached.entry item.partitionID = none ∨ env.fault = some .setState) :
    ∃ err, migrateItem fmt cached env switch st item = (st, some err) := by
  unfold migrateItem setPartitionMigration
  rcases h with hnone | hset
  · rw [hnone]
    exact ⟨_, rfl⟩
  · cases cached.entry item.partitionID with
    | none => exact ⟨_, rfl⟩
    | some e =>
      dsimp only
      rw [if_pos hset]
      exact ⟨_, rfl⟩

/-- Nothing is stored and nothing was there, or no step before `CompleteMigration` fails and the record is deleted. -/
def CleansUp (fmt : SSTFormat) (cached : RouteTable) (env : CopyEnv) (switch : SwitchEnv) (st : MigrationStore)
    (item : MigrationPlanItem) : Prop :=
  (cached.entry item.partitionID = none ∨ env.fault = some .setState) ∧ st.migrations.get item.partitionID = none ∨
    ¬ Fails fmt cached env item ∧ switch.deleteError = none

/-- **A migration that fails** leaves the route table, and no record exactly if `CleansUp`. -/
theorem migrateItem_error (h : (migrateItem fmt cached env switch st item).2 ≠ none) :
    (migrateItem fmt cached env switch st item).1.routeTable = st.routeTable ∧
      ((migrateItem fmt cached env switch st item).1.migrations.get item.partitionID = none ↔
        CleansUp fmt cached env switch st item) := by
  by_cases hfails : Fails fmt cached env item
  · have hclean : CleansUp fmt cached env switch st item ↔
        (cached.entry item.partitionID = none ∨ env.fault = some .setState) ∧
          st.migrations.get item.partitionID = none :=
      or_iff_left fun hno => hno.1 hfails
    rw [hclean]
    by_cases hunset : cached.entry item.partitionID = none ∨ env.fault = some .setState
    · obtain ⟨err, heq⟩ := @migrateItem_of_unset fmt cached env switch st item hunset
      rw [heq]
      exact ⟨rfl, (and_iff_right hunset).symm⟩
    · obtain ⟨info, err, heq⟩ := @migrateItem_of_fails fmt cached env switch st item hunset hfails
      rw [heq]
      refine ⟨rfl, iff_of_false ?_ fun hboth => hunset hboth.1⟩
      dsimp only
      rw [OrdMap.get_insert_self]
      exact nofun
  · obtain ⟨st', htable', hstored, heq⟩ := @migrateItem_of_copied fmt cached env switch st item hfails
    rw [heq] at h ⊢
    obtain ⟨htable, hrecords⟩ := completeMigration_error fun hnone => h (by rw [hnone]; rfl)
    refine ⟨htable.trans htable', ?_⟩
    have hclean : CleansUp fmt cached env switch st item ↔ switch.deleteError = none := by
      refine ⟨?_, fun hdel => .inr ⟨hfails, hdel⟩⟩
      rintro (⟨hnone | hset, -⟩ | ⟨-, hdel⟩)
      · exact absurd (.unknown hnone) hfails
      · exact absurd (.call _ hset nofun) hfails
      · exact hdel
    dsimp only
    rw [hrecords, hclean]
    cases switch.deleteError with
    | none => simp [OrdMap.get_erase]
    | some err => simp [hstored]

/-- A deletion that succeeds keeps the records exactly if there was none. -/
theorem erase_eq_self_iff {m : OrdMap UInt32 MigrationInfo} : m.erase p = m ↔ m.get p = none := by
  constructor
  · intro h
    rw [← h, OrdMap.get_erase, if_pos rfl]
  · intro h
    refine OrdMap.ext_get fun k => ?_
    rw [OrdMap.get_erase]
    split_ifs with hk
    · rw [hk, h]
    · rfl

end

/-- **Migration records after a failure**: the route table stays, and the record is gone, for `migratePartition`, or as it
was, for `CompleteMigration`, exactly under these conditions. -/
theorem migration_records_iff (fmt : SSTFormat) (switch : SwitchEnv) (st : MigrationStore) :
    (∀ cached env item, (migrateItem fmt cached env switch st item).2 ≠ none →
      (migrateItem fmt cached env switch st item).1.routeTable = st.routeTable ∧
        ((migrateItem fmt cached env switch st item).1.migrations.get item.partitionID = none ↔
          CleansUp fmt cached env switch st item)) ∧
    ∀ p newNode isPrimary, (st.completeMigration switch p newNode isPrimary).2 ≠ none →
      (st.completeMigration switch p newNode isPrimary).1.routeTable = st.routeTable ∧
        ((st.completeMigration switch p newNode isPrimary).1.migrations = st.migrations ↔
          switch.deleteError ≠ none ∨ st.migrations.get p = none) := by
  refine ⟨fun cached env item => migrateItem_error, fun p newNode isPrimary herr => ?_⟩
  obtain ⟨htable, hrecords⟩ := completeMigration_error herr
  refine ⟨htable, ?_⟩
  rw [hrecords]
  cases switch.deleteError with
  | none => simp [erase_eq_self_iff]
  | some err => simp

/-- The route table cannot be written. -/
def unwritable : SwitchEnv := { cached := tableOfSeven, deleteError := none, updateError := some "deadline exceeded" }

theorem migration_records_cleaned :
    (migrateItem .escaped tableOfSeven ⟨[], emptyNode, none, "", none⟩ unwritable ⟨OrdMap.empty, tableOfSeven⟩
      ⟨7, "a", "c", true⟩).2 ≠ none ∧
    (migrateItem .escaped tableOfSeven ⟨[], emptyNode, none, "", none⟩ unwritable ⟨OrdMap.empty, tableOfSeven⟩
      ⟨7, "a", "c", true⟩).1.migrations.get 7 = none ∧
    (MigrationStore.completeMigration ⟨OrdMap.empty, tableOfSeven⟩ unwritable 7 "c" true).1.migrations = OrdMap.empty := by
  have h := migration_records_iff .escaped unwritable ⟨OrdMap.empty, tableOfSeven⟩
  have herr : (migrateItem .escaped tableOfSeven ⟨[], emptyNode, none, "", none⟩ unwritable ⟨OrdMap.empty, tableOfSeven⟩
      ⟨7, "a", "c", true⟩).2 ≠ none := nofun
  have hclean : CleansUp .escaped tableOfSeven ⟨[], emptyNode, none, "", none⟩ unwritable ⟨OrdMap.empty, tableOfSeven⟩
      ⟨7, "a", "c", true⟩ := .inr ⟨call_ok_iff.1 rfl, rfl⟩
  exact ⟨herr, (h.1 _ _ _ herr).2.2 hclean, (h.2 7 "c" true nofun).2.2 (.inr rfl)⟩

/-- **Bug**: the source of a migration cannot be reached, and the record of the migration stays in the store; the route
table cannot be written, and the record of a migration that has not been completed is gone. -/
theorem record_left_behind :
    (migrateItem .escaped tableOfSeven ⟨[], emptyNode, some .startExport, "connection refused", none⟩ unwritable
      ⟨OrdMap.empty, tableOfSeven⟩ ⟨7, "a", "c", true⟩).2 = some "failed to start export: connection refused" ∧
    (migrateItem .escaped tableOfSeven ⟨[], emptyNode, some .startExport, "connection refused", none⟩ unwritable
      ⟨OrdMap.empty, tableOfSeven⟩ ⟨7, "a", "c", true⟩).1.migrations.get 7 = some ⟨7, "c", .copying, true⟩ ∧
    (MigrationStore.completeMigration ⟨OrdMap.empty.insert 7 ⟨7, "c", .copying, true⟩, tableOfSeven⟩ unwritable 7 "c"
      true).2 = some "deadline exceeded" ∧
    (MigrationStore.completeMigration ⟨OrdMap.empty.insert 7 ⟨7, "c", .copying, true⟩, tableOfSeven⟩ unwritable 7 "c"
      true).1.migrations.get 7 = none :=
  ⟨rfl, rfl, rfl, rfl⟩

end RocksKV.Metadata
