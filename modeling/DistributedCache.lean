import DistributedCache.Lib.OrderedMap
import DistributedCache.Js.Value
import DistributedCache.CacheCore.Limits
import DistributedCache.CacheCore.LruList
import DistributedCache.CacheCore.Store
import DistributedCache.CacheCore.Removal
import DistributedCache.CacheCore.Eviction
import DistributedCache.CacheCore.Effect
import DistributedCache.Lib.System
import DistributedCache.CacheCore.Invariant
import DistributedCache.CacheCore.Recency
import DistributedCache.CacheCore.Errors
import DistributedCache.CacheCore.TtlMap
import DistributedCache.CacheCore.KeyView
import DistributedCache.Hashing.Ring
import DistributedCache.Js.Text
import DistributedCache.Js.Numerals
import DistributedCache.Protocol.Codec
import DistributedCache.Protocol.Responses
import DistributedCache.Protocol.RoundTrip
import DistributedCache.Replication.ClusterConfig
import DistributedCache.Node.Server
import DistributedCache.Node.Mutation
import DistributedCache.Cluster.System
import DistributedCache.Client.ClusterClient
import DistributedCache.Cluster.Convergence
import DistributedCache.Node.Operations
import DistributedCache.Cluster.Transparent
import DistributedCache.Client.Machine
import DistributedCache.Client.Control
import DistributedCache.Client.Order
import DistributedCache.Client.Wire
import DistributedCache.Client.Integrity
import DistributedCache.Client.Close
import DistributedCache.Node.Refusal
import DistributedCache.Cluster.Provenance
import DistributedCache.Lib.Channels
import DistributedCache.Cluster.Pair
import DistributedCache.Cluster.Paired
import DistributedCache.Cluster.Overtaking
import DistributedCache.Hashing.Search
import DistributedCache.Hashing.Movement
import DistributedCache.Replication.Reorder
import DistributedCache.Client.Ownership
import DistributedCache.Node.WireLines
import DistributedCache.CacheCore.Sweep
import DistributedCache.CacheCore.Fairness
import DistributedCache.CacheCore.Accounting
import DistributedCache.CacheCore.Inclusion
import DistributedCache.Protocol.Answers
import DistributedCache.Node.Connection
import DistributedCache.Node.Exchange
import DistributedCache.CacheCore.LinkedLru
import DistributedCache.Protocol.Decoding
import DistributedCache.Client.Reprint
import DistributedCache.Client.Membership
import DistributedCache.Node.ParseNodes
import DistributedCache.Lib.TaskGroups
import DistributedCache.Replication.Bookkeeping
import DistributedCache.Node.Listener
import DistributedCache.Node.Shutdown
import DistributedCache.Client.Service
import DistributedCache.Client.Linearizable
import DistributedCache.Client.Progress
import DistributedCache.Client.Calls
import DistributedCache.CacheCore.Drain
import DistributedCache.CacheCore.Sweeper
import DistributedCache.Client.CommandLine
import DistributedCache.Cluster.Replicas
import DistributedCache.Client.ModuloRouter
