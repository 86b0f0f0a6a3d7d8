import RocksKV.Metadata.RouteTable
/-!
# Route tables on the wire (`pkg/metadata/server.go:255-372`)

| here | there |
| --- | --- |
| `convertPartitionStatus` | `convertPartitionStatus` (`:359-372`) |
| `wireEntry`              | the `pb.PartitionInfo` built by `sendRouteUpdate` (`:339-356`) and by `GetRouteTable` (`:255-287`) |
| `sendRouteUpdate`        | the `pb.RouteUpdate` pushed to subscribers |
| `getRouteTable`          | the answer to a poll |

Neither sets `Epoch`, so every entry arrives with epoch zero (`epoch_sendRouteUpdate`), whatever the
router's table says.
-/

namespace RocksKV.Metadata

open Lib

def convertPartitionStatus : PartitionStatus → Pb.PartitionStatus
  | .normal => .normal
  | .migratingOut => .migratingOut
  | .migratingIn => .migratingIn
  | .offline => .offline

/-- The fields both senders fill in; `Epoch` is left at its zero value. -/
def wireEntry (p : PartitionInfo) : Pb.PartitionInfo :=
  { partitionId := p.id
    primary := p.primary
    replica := p.replica
    status := convertPartitionStatus p.status
    migrationTarget := p.migrationTarget
    migrationState := p.migrationState }

def sendRouteUpdate (table : RouteTable) : Pb.RouteUpdate :=
  { version := table.version, partitions := table.partitions.entries.map fun e => wireEntry e.2 }

/-- A caller that is not behind gets the version and no partitions. -/
def getRouteTable (table : RouteTable) (version : Nat) : Pb.RouteUpdate :=
  if table.version ≤ version then { version := table.version, partitions := [] } else sendRouteUpdate table

theorem mem_sendRouteUpdate {t : RouteTable} {x : Pb.PartitionInfo} :
    x ∈ (sendRouteUpdate t).partitions ↔ ∃ p e, t.entry p = some e ∧ x = wireEntry e := by
  simp only [sendRouteUpdate, List.mem_map, Prod.exists]
  constructor
  · rintro ⟨p, e, he, rfl⟩
    exact ⟨p, e, OrdMap.mem_entries.1 he, rfl⟩
  · rintro ⟨p, e, he, rfl⟩
    exact ⟨p, e, OrdMap.mem_entries.2 he, rfl⟩

/-- **Every entry is fenced with epoch zero.** -/
theorem epoch_sendRouteUpdate {t : RouteTable} {x : Pb.PartitionInfo} (hx : x ∈ (sendRouteUpdate t).partitions) :
    x.epoch = 0 := by
  obtain ⟨p, e, -, rfl⟩ := mem_sendRouteUpdate.1 hx
  rfl

/-- An update names every partition once: the entries are stored under their ids. -/
theorem nodup_sendRouteUpdate (t : RouteTable) :
    ((sendRouteUpdate t).partitions.map Pb.PartitionInfo.partitionId).Nodup := by
  have hids : (sendRouteUpdate t).partitions.map Pb.PartitionInfo.partitionId = t.partitions.keys := by
    simp only [sendRouteUpdate, List.map_map, OrdMap.keys]
    exact List.map_congr_left fun e he => t.ids e.1 e.2 (OrdMap.mem_entries.1 he)
  rw [hids]
  exact OrdMap.nodup_keys _

end RocksKV.Metadata
