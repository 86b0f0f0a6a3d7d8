import RocksKV.Compute.Router
import RocksKV.Metadata.Wire
/-!
# A route table from the metadata server to a compute router

Two senders, `sendRouteUpdate` and `GetRouteTable` (`pkg/metadata/server.go:255-287`, `:339-357`), and two receivers,
`updateRouteTableFromUpdate` and `updateRouteTable` (`pkg/compute/router.go:249-314`), convert field by field.

Both ways lead to the same entries (`get_pushed`, `get_polled`).

**Bug**: both senders leave `Epoch` out, so what arrives is the metadata's routing for epoch zero only:
`routing_survives_wire_iff`.
-/

namespace RocksKV.Cluster

open Lib Metadata

/-- The compute router's entry is the metadata's. -/
structure SameRouting (e : PartitionInfo) (x : Pb.PartitionInfo) : Prop where
  primary         : x.primary = e.primary
  replica         : x.replica = e.replica
  status          : x.status = convertPartitionStatus e.status
  migrationTarget : x.migrationTarget = e.migrationTarget
  migrationState  : x.migrationState = e.migrationState
  epoch           : x.epoch = e.epoch

/-- The compute router has the version and every partition of the table. -/
def Delivered (table : RouteTable) (router : Compute.RouteTable) : Prop :=
  router.version = table.version ∧
    ∀ p e, table.entry p = some e → ∃ x, router.partitions.get p = some x ∧ SameRouting e x

/-! ## What arrives -/

theorem get_apply_of_not_mem {p : UInt32} (entries : List Pb.PartitionInfo) (m : OrdMap UInt32 Pb.PartitionInfo)
    (h : p ∉ entries.map Pb.PartitionInfo.partitionId) : (Compute.RouteTable.apply m entries).get p = m.get p := by
  induction entries generalizing m with
  | nil => rfl
  | cons x entries ih =>
    rw [List.map_cons, List.mem_cons, not_or] at h
    refine (ih (m.insert x.partitionId x) h.2).trans ?_
    rw [OrdMap.get_insert, if_neg h.1]

/-- Entries with different ids do not overwrite each other. -/
theorem get_apply {entries : List Pb.PartitionInfo} (m : OrdMap UInt32 Pb.PartitionInfo) {x : Pb.PartitionInfo}
    (hnd : (entries.map Pb.PartitionInfo.partitionId).Nodup) (hx : x ∈ entries) :
    (Compute.RouteTable.apply m entries).get x.partitionId = some x := by
  induction entries generalizing m with
  | nil => cases hx
  | cons y entries ih =>
    rw [List.map_cons, List.nodup_cons] at hnd
    rcases List.mem_cons.1 hx with rfl | hx
    · refine (get_apply_of_not_mem entries (m.insert x.partitionId x) hnd.1).trans ?_
      rw [OrdMap.get_insert, if_pos rfl]
    · exact ih (m.insert y.partitionId y) hnd.2 hx

section
variable {table : RouteTable} {router : Compute.RouteTable} {p : UInt32} {e : PartitionInfo}

theorem get_sent {m : OrdMap UInt32 Pb.PartitionInfo} (he : table.entry p = some e) :
    (Compute.RouteTable.apply m (sendRouteUpdate table).partitions).get p = some (wireEntry e) := by
  have hsent := get_apply m (nodup_sendRouteUpdate table) (mem_sendRouteUpdate.2 ⟨p, e, he, rfl⟩)
  rw [show (wireEntry e).partitionId = p from RouteTable.id_of_entry he] at hsent
  exact hsent

/-- What a subscriber that is behind has after the push. -/
theorem get_pushed (hv : router.version < table.version) :
    (Compute.updateRouteTableFromUpdate router (sendRouteUpdate table)).version = table.version ∧
      ∀ p e, table.entry p = some e → (Compute.updateRouteTableFromUpdate router
        (sendRouteUpdate table)).partitions.get p = some (wireEntry e) := by
  have hnew : ¬ (sendRouteUpdate table).version ≤ router.version := Nat.not_le.2 hv
  rw [Compute.updateRouteTableFromUpdate, if_neg hnew]
  exact ⟨rfl, fun p e he => get_sent he⟩

/-- What a caller that is behind has after the poll. -/
theorem get_polled (hv : router.version < table.version) :
    (Compute.updateRouteTable (getRouteTable table router.version)).version = table.version ∧
      ∀ p e, table.entry p = some e →
        (Compute.updateRouteTable (getRouteTable table router.version)).partitions.get p = some (wireEntry e) := by
  rw [getRouteTable, if_neg (Nat.not_le.2 hv)]
  exact ⟨rfl, fun p e he => get_sent he⟩

/-- An entry survives without its epoch. -/
theorem sameRouting_wireEntry_iff : SameRouting e (wireEntry e) ↔ e.epoch = 0 := by
  constructor
  · intro h
    exact h.epoch.symm
  · intro h
    exact ⟨rfl, rfl, rfl, rfl, rfl, h.symm⟩

theorem delivered_iff (h : router.version = table.version ∧
    ∀ p e, table.entry p = some e → router.partitions.get p = some (wireEntry e)) :
    Delivered table router ↔ ∀ p e, table.entry p = some e → e.epoch = 0 := by
  constructor
  · rintro ⟨-, hall⟩ p e he
    obtain ⟨x, hx, hsame⟩ := hall p e he
    rw [h.2 p e he] at hx
    obtain rfl := Option.some.inj hx
    exact sameRouting_wireEntry_iff.1 hsame
  · intro hzero
    exact ⟨h.1, fun p e he => ⟨wireEntry e, h.2 p e he, sameRouting_wireEntry_iff.2 (hzero p e he)⟩⟩

/-- **Routing survives the wire** exactly where every epoch is zero, on both ways. -/
theorem routing_survives_wire_iff (hv : router.version < table.version) :
    (Delivered table (Compute.updateRouteTableFromUpdate router (sendRouteUpdate table)) ∧
      Delivered table (Compute.updateRouteTable (getRouteTable table router.version))) ↔
    ∀ p e, table.entry p = some e → e.epoch = 0 := by
  rw [delivered_iff (get_pushed hv), delivered_iff (get_polled hv), and_self]

end

/-- A table with one entry, at epoch zero. -/
def tableAtZero : RouteTable :=
  RouteTable.new.setEntry
    { id := 0, primary := "a", replica := "b", status := .offline, migrationTarget := "c", migrationState := .copying,
      epoch := 0 }

theorem wire_keeps_epoch_zero :
    Delivered tableAtZero (Compute.updateRouteTableFromUpdate .new (sendRouteUpdate tableAtZero)) ∧
      Delivered tableAtZero (Compute.updateRouteTable (getRouteTable tableAtZero 0)) := by
  refine (@routing_survives_wire_iff tableAtZero .new (by decide)).2 fun p e he => ?_
  have hmem := OrdMap.mem_entries.2 he
  obtain ⟨rfl, rfl⟩ := Prod.mk.inj (List.mem_singleton.1 hmem)
  rfl

/-- **Bug**: a partition as it is allocated, with epoch 1, arrives with epoch 0. -/
theorem wire_drops_epoch : ∃ table : RouteTable, (Compute.RouteTable.new).version < table.version ∧
    (table.entry 0).map PartitionInfo.epoch = some 1 ∧
    ((Compute.updateRouteTableFromUpdate .new (sendRouteUpdate table)).partitions.get 0).map (·.epoch) = some 0 ∧
    ((Compute.updateRouteTable (getRouteTable table 0)).partitions.get 0).map (·.epoch) = some 0 ∧
    ¬ Delivered table (Compute.updateRouteTableFromUpdate .new (sendRouteUpdate table)) := by
  let entry : PartitionInfo :=
    { id := 0, primary := "a", replica := "b", status := .normal, migrationTarget := "", migrationState := .none,
      epoch := 1 }
  refine ⟨RouteTable.new.setEntry entry, by decide, rfl, rfl, rfl, fun h => ?_⟩
  obtain ⟨x, hx, hsame⟩ := h.2 0 entry rfl
  obtain rfl := Option.some.inj hx
  exact absurd hsame.epoch (by decide)

end RocksKV.Cluster
