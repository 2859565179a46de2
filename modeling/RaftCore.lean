import RaftCore.Machinery.Word64
import RaftCore.Machinery.Outcome
import RaftCore.Machinery.Runs
import RaftCore.Machinery.Window
import RaftCore.Machinery.Agreement
import RaftCore.Machinery.BoundedQueue
import RaftCore.Machinery.BigEndian
import RaftCore.Machinery.Reader
import RaftCore.Machinery.Latest
import RaftCore.Machinery.Doubling
import RaftCore.Machinery.Arena
import RaftCore.Machinery.Memory
import RaftCore.Model.Protocol
import RaftCore.Model.MemoryStorage
import RaftCore.Model.VolatileState
import RaftCore.Model.RaftLog
import RaftCore.Model.Progress
import RaftCore.Model.RaftConfig
import RaftCore.Model.Raft
import RaftCore.Volatile.Consecutive
import RaftCore.Volatile.Contiguous
import RaftCore.Volatile.Refinement
import RaftCore.Volatile.Bounds
import RaftCore.Log.Append
import RaftCore.Log.Aligned
import RaftCore.Log.FirstConflict
import RaftCore.Log.Splice
import RaftCore.Log.Committed
import RaftCore.Log.Legitimate
import RaftCore.Log.Matching
import RaftCore.Log.Visible
import RaftCore.Log.HandOff
import RaftCore.Log.Redelivery
import RaftCore.Log.Storage
import RaftCore.Node.CommitIndex
import RaftCore.Node.Step
import RaftCore.Node.Vote
import RaftCore.Node.Term
import RaftCore.Node.Leader
import RaftCore.Node.Restart
import RaftCore.Node.Reset
import RaftCore.Node.Construction
import RaftCore.Node.Timeout
import RaftCore.Node.Convergence
import RaftCore.Node.Idle
import RaftCore.Replication.Inflights
import RaftCore.Replication.Operations
import RaftCore.Replication.FlowControl
import RaftCore.Replication.PendingSnapshot
import RaftCore.Replication.Acknowledged
import RaftCore.Replication.SlidingWindow
import RaftCore.Msgpack.Pack
import RaftCore.Msgpack.Unpack
import RaftCore.Msgpack.Delivery
import RaftCore.Msgpack.Adaptor
import RaftCore.Msgpack.Machine
import RaftCore.Msgpack.Spelling
import RaftCore.Msgpack.Format
import RaftCore.Msgpack.PackObject
import RaftCore.Msgpack.Equality
import RaftCore.Msgpack.Parse
import RaftCore.Msgpack.Events
import RaftCore.Msgpack.CreateObject
import RaftCore.Msgpack.Unpacker
import RaftCore.Msgpack.Stream
import RaftCore.Msgpack.Zone
import RaftCore.Msgpack.InZone
import RaftCore.Msgpack.InPlace
import RaftCore.Msgpack.Clone
import RaftCore.Msgpack.Sbuffer
import RaftCore.Wire.Records
import RaftCore.Wire.Stream
