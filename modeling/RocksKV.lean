import RocksKV.Client.Retry
import RocksKV.Cluster.Delivery
import RocksKV.Cluster.Fencing
import RocksKV.Cluster.Freshness
import RocksKV.Cluster.SetNX
import RocksKV.Compute.BatchPut
import RocksKV.Lib.Circle
import RocksKV.Lib.Ring
import RocksKV.Lib.Utf8
import RocksKV.Metadata.Cancellation
import RocksKV.Metadata.DataFollows
import RocksKV.Metadata.Distinct
import RocksKV.Metadata.Drain
import RocksKV.Metadata.Epochs
import RocksKV.Metadata.Failover
import RocksKV.Metadata.FailoverRuns
import RocksKV.Metadata.HAServer
import RocksKV.Metadata.InitCluster
import RocksKV.Metadata.MigrationControl
import RocksKV.Metadata.MigrationRecords
import RocksKV.Metadata.Placement
import RocksKV.Metadata.Plan
import RocksKV.Metadata.Queue
import RocksKV.Metadata.Subscribers
import RocksKV.Storage.AttributeGroup
import RocksKV.Storage.BatchLimits
import RocksKV.Storage.Convergence
import RocksKV.Storage.Corruption
import RocksKV.Storage.DeletePartition
import RocksKV.Storage.EpochFence
import RocksKV.Storage.ExportImport
import RocksKV.Storage.KeyDecoding
import RocksKV.Storage.LateDelivery
import RocksKV.Storage.LegacyReplication
import RocksKV.Storage.Migration
import RocksKV.Storage.PowerFailure
import RocksKV.Storage.RangeScan
import RocksKV.Storage.Retransmission
import RocksKV.Storage.WalReplicator
import RocksKV.Storage.WriteOrder
import RocksKV.Cluster.Store
import RocksKV.Cluster.Refinement
import RocksKV.Lib.LeaseQueue
import RocksKV.Metadata.RouteLock
import RocksKV.Metadata.Election
import RocksKV.Compute.Pool
import RocksKV.Cluster.Availability
import RocksKV.Lib.Decimal
import RocksKV.Storage.LogDir
import RocksKV.Storage.WriteCalls
import RocksKV.Cluster.StaleReads
import RocksKV.Metadata.NodeRecords
import RocksKV.Storage.Linearizable
