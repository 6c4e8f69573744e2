import GideonDB.Cluster.RaftProgress
import GideonDB.Cluster.RaftSnapshot
import GideonDB.Cluster.RebalanceBarrier
import GideonDB.Engine.Versions
import GideonDB.Replication.Consistency
import GideonDB.Wal.Damage
import GideonDB.Wal.Rollback
import GideonDB.Engine.Tail
import GideonDB.Engine.Cleanup
import GideonDB.Cluster.RaftRuntime
import GideonDB.Shard.Pinning
import GideonDB.Metadata.Reader
import GideonDB.Hnsw.Filtered
import GideonDB.Api.RateLimit
import GideonDB.Cluster.PlacementChange
import GideonDB.Cluster.Discovery
import GideonDB.Engine.Merging
