import RocksKV.Proto
/-!
# The compute node's router (`pkg/compute/router.go`)

| here | there |
| --- | --- |
| `RouteTable`                 | `type RouteTable` (`:27-30`); its `PartitionInfo` (`:33-41`) has the fields of the wire's |
| `updateRouteTable`           | `updateRouteTable` (`:249-274`), after a poll |
| `updateRouteTableFromUpdate` | `updateRouteTableFromUpdate` (`:277-314`), from the subscription |
| `getPartitionNodesByID`      | `GetPartitionNodesByID` (`:125-134`): where a write goes, and under which epoch |
-/

namespace RocksKV.Compute

open Lib

structure RouteTable where
  version    : Nat
  partitions : OrdMap UInt32 Pb.PartitionInfo

/-- The table of a new router. -/
def RouteTable.new : RouteTable := { version := 0, partitions := OrdMap.empty }

/-- Store the entries of a message over those already there. -/
def RouteTable.apply (partitions : OrdMap UInt32 Pb.PartitionInfo) (entries : List Pb.PartitionInfo) :
    OrdMap UInt32 Pb.PartitionInfo :=
  entries.foldl (fun m p => m.insert p.partitionId p) partitions

def updateRouteTable (pbTable : Pb.RouteUpdate) : RouteTable :=
  { version := pbTable.version, partitions := RouteTable.apply OrdMap.empty pbTable.partitions }

/-- An update with a version already known is skipped; otherwise its entries replace those they name. -/
def updateRouteTableFromUpdate (currentTable : RouteTable) (update : Pb.RouteUpdate) : RouteTable :=
  if update.version ≤ currentTable.version then currentTable
  else { version := update.version, partitions := RouteTable.apply currentTable.partitions update.partitions }

/-- Primary, replica and epoch of a partition. -/
def getPartitionNodesByID (table : RouteTable) (partitionID : UInt32) : Except String (String × String × UInt64) :=
  match table.partitions.get partitionID with
  | none => .error s!"partition {partitionID} not found in route table"
  | some partition => .ok (partition.primary, partition.replica, partition.epoch)

end RocksKV.Compute
