import Redis.Aof.Background
import Redis.Aof.Command
import Redis.Aof.Expire
import Redis.Aof.Flush
import Redis.Aof.Load
import Redis.Aof.Rebuild
import Redis.Aof.Rewrite
import Redis.Aof.RoundTrip
import Redis.Aof.Transaction
import Redis.Bitops.Bitfield
import Redis.Bitops.Bitop
import Redis.Bitops.Combination
import Redis.Bitops.Command
import Redis.Bitops.Count
import Redis.Bitops.Fields
import Redis.Bitops.Frame
import Redis.Bitops.Limits
import Redis.Bitops.Overflow
import Redis.Bitops.Position
import Redis.Bitops.Saturation
import Redis.Bitops.Strings
import Redis.Bitops.Wide
import Redis.Blocking.Basic
import Redis.Blocking.Command
import Redis.Blocking.Copies
import Redis.Blocking.Delivery
import Redis.Blocking.Empties
import Redis.Blocking.Mirror
import Redis.Blocking.Propagate
import Redis.Blocking.Replicated
import Redis.Blocking.Run
import Redis.Blocking.Serve
import Redis.Blocking.Waiters
import Redis.Blocking.Wakeup
import Redis.Blocking.Writes
import Redis.Canonical
import Redis.Cluster.Action
import Redis.Cluster.Basic
import Redis.Cluster.Command
import Redis.Cluster.Config
import Redis.Cluster.Cron
import Redis.Cluster.Election
import Redis.Cluster.Epochs
import Redis.Cluster.Evaluate
import Redis.Cluster.Failover
import Redis.Cluster.Links
import Redis.Cluster.Message
import Redis.Cluster.Node
import Redis.Cluster.Packet
import Redis.Cluster.Query
import Redis.Cluster.Restart
import Redis.Cluster.Roles
import Redis.Cluster.SlotTable
import Redis.Cluster.Trace.Basic
import Redis.Cluster.Trace.Command
import Redis.Cluster.Trace.Cron
import Redis.Cluster.Trace.Failover
import Redis.Cluster.Trace.Message
import Redis.Cluster.Trace.Node
import Redis.Cluster.Trace.Packet
import Redis.Cluster.View
import Redis.Cluster.Votes
import Redis.Cluster.WellFormed
import Redis.Db.Database
import Redis.Db.ExpireTime
import Redis.Db.Expiry
import Redis.Db.Keyspace
import Redis.Db.Signals
import Redis.Db.Transaction
import Redis.Db.Watch
import Redis.Dict.Basic
import Redis.Dict.Expand
import Redis.Dict.FullScan
import Redis.Dict.Iterator
import Redis.Dict.Operations
import Redis.Dict.Refinement
import Redis.Dict.Rehash
import Redis.Dict.SafeIteration
import Redis.Dict.Scan
import Redis.Dict.Table
import Redis.Intset.Basic
import Redis.Intset.Refinement
import Redis.Lib.Alike
import Redis.Lib.BitArray
import Redis.Lib.BitReverse
import Redis.Lib.Buffer
import Redis.Lib.Lines
import Redis.Lib.Outcome
import Redis.Lib.Rearrange
import Redis.Lib.RingBuffer
import Redis.Lib.Simulation
import Redis.Lib.Transition
import Redis.Lib.Words
import Redis.Libc
import Redis.Migrate.Attempt
import Redis.Migrate.Basic
import Redis.Migrate.Replies
import Redis.Migrate.Safety
import Redis.Networking.Delivery
import Redis.Networking.Parsing
import Redis.Networking.Reply
import Redis.Networking.Request
import Redis.Object.Basic
import Redis.Object.Counter
import Redis.Object.Text
import Redis.Pubsub.Basic
import Redis.Pubsub.Delivery
import Redis.Pubsub.Links
import Redis.Quicklist.Address
import Redis.Quicklist.Basic
import Redis.Quicklist.DelRange
import Redis.Quicklist.Insert
import Redis.Quicklist.Rotate
import Redis.Rdb.Dataset
import Redis.Rdb.Rio
import Redis.Replication.Backlog
import Redis.Replication.Join
import Redis.Replication.Master
import Redis.Replication.Output
import Redis.Replication.Run
import Redis.Replication.Stream
import Redis.Replication.Transfer
import Redis.Sds
import Redis.Sentinel.Action
import Redis.Sentinel.Basic
import Redis.Sentinel.Configuration
import Redis.Sentinel.Election
import Redis.Sentinel.Failover
import Redis.Sentinel.Machine
import Redis.Sentinel.Moves
import Redis.Sentinel.Net
import Redis.Sentinel.Tally
import Redis.Sentinel.Vote
import Redis.Sentinel.Votes
import Redis.Slave.Acks
import Redis.Slave.Link
import Redis.Slave.Resume
import Redis.Sort.Command
import Redis.Sort.Limit
import Redis.Sort.Pqsort
import Redis.Sort.Scores
import Redis.Util
import Redis.Wait.Acks
import Redis.Wait.Basic
import Redis.Ziplist.Basic
import Redis.Ziplist.Cascade
import Redis.Ziplist.Encoding
import Redis.Ziplist.Layout
import Redis.Ziplist.Length
import Redis.Ziplist.Lookup
import Redis.Ziplist.Merge
import Redis.Ziplist.Refinement
import Redis.Ziplist.Tiles
import Redis.Ziplist.Update
import Redis.Cluster.Tags
import Redis.Dict.ScanOnce
