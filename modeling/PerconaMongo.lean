import PerconaMongo.Concurrency.LockMode
import PerconaMongo.Concurrency.LockHead
import PerconaMongo.Concurrency.LockManager
import PerconaMongo.Lib.KeyedList
import PerconaMongo.Concurrency.Bookkeeping
import PerconaMongo.Concurrency.HeadInvariant
import PerconaMongo.Concurrency.Migration
import PerconaMongo.Concurrency.EntryInvariant
import PerconaMongo.Concurrency.Operations
import PerconaMongo.Concurrency.Safety
import PerconaMongo.Repl.Config
import PerconaMongo.Repl.OpTime
import PerconaMongo.Repl.Election
import PerconaMongo.Repl.Topology
import PerconaMongo.Repl.CommitPoint
import PerconaMongo.Repl.Node
import PerconaMongo.Bson.Element
import PerconaMongo.Matcher.Expression
import PerconaMongo.Matcher.Subset
import PerconaMongo.Bson.Order
import PerconaMongo.Matcher.Soundness
import PerconaMongo.Lib.Md5
import PerconaMongo.Bson.Hasher
import PerconaMongo.Matcher.Optimize
import PerconaMongo.Value.Compare
import PerconaMongo.Lib.Tiling
import PerconaMongo.Sharding.ChunkMap
import PerconaMongo.Sharding.Overlay
import PerconaMongo.Sharding.ShardVersions
import PerconaMongo.Sharding.Refresh
import PerconaMongo.Lib.Heap
import PerconaMongo.Lib.TotalPreorder
import PerconaMongo.Sorter.MergeIterator
import PerconaMongo.Sorter.Sorters
import PerconaMongo.Sorter.StableMerge
import PerconaMongo.Sorter.TopK
import PerconaMongo.Sorter.Correctness
import PerconaMongo.Bson.Document
import PerconaMongo.Update.DiffTree
import PerconaMongo.Update.DiffCalculator
import PerconaMongo.Update.DiffReader
import PerconaMongo.Update.DiffApplier
import PerconaMongo.Lib.BigEndian
import PerconaMongo.KeyString.RecordId
import PerconaMongo.KeyString.TypeBits
import PerconaMongo.Lib.IntervalBounds
import PerconaMongo.Query.Interval
import PerconaMongo.Query.IndexBounds
import PerconaMongo.Query.Complement
import PerconaMongo.Auth.ResourcePattern
import PerconaMongo.Auth.Session
import PerconaMongo.Lib.Loops
import PerconaMongo.Sharding.Targeting
import PerconaMongo.Lib.BitField
import PerconaMongo.Bson.Simple8b
import PerconaMongo.Bson.Simple8bWord
import PerconaMongo.Bson.Column
import PerconaMongo.Storage.EncryptionHooks
import PerconaMongo.Sharding.ZoneInfo
import PerconaMongo.Lib.Float
import PerconaMongo.Sharding.BalancerPolicy
import PerconaMongo.Util.Summation
import PerconaMongo.Pipeline.ExpressionAdd
import PerconaMongo.Timeseries.Bucket
import PerconaMongo.Timeseries.RoundTrip
import PerconaMongo.Update.DiffSemantics
import PerconaMongo.Update.DiffSize
import PerconaMongo.Update.RoundTrip
import PerconaMongo.Update.ChildrenMap
