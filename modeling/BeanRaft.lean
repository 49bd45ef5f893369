import BeanRaft.Logger.Durable
import BeanRaft.Logger.Wakeup
import BeanRaft.Logger.Buffers
import BeanRaft.Event.Dispatch
import BeanRaft.Event.Timers
import BeanRaft.Raft.Connection
import BeanRaft.Raft.Vote
import BeanRaft.Slice.Refine
import BeanRaft.Logger.RateLimit
import BeanRaft.Lib.Behavior
import BeanRaft.Logger.Rotation
import BeanRaft.Logger.Shutdown
import BeanRaft.Event.Bounds
import BeanRaft.Event.TimeLoop
import BeanRaft.Event.Due
import BeanRaft.Event.Return
import BeanRaft.Event.Atomic
import BeanRaft.Event.Clock
import BeanRaft.Slice.Values
import BeanRaft.Slice.Expand
import BeanRaft.Slice.Late
import BeanRaft.Slice.InPlace
import BeanRaft.Raft.Incoming
import BeanRaft.Lib.Snprintf
import BeanRaft.Logger.Format
import BeanRaft.Logger.Layout
import BeanRaft.Logger.LastResort
import BeanRaft.Slice.Numerals
import BeanRaft.Slice.Capacity
import BeanRaft.Slice.Equality
import BeanRaft.Slice.Headers
import BeanRaft.Slice.Allocator
import BeanRaft.Slice.Failures
import BeanRaft.Logger.Counters
import BeanRaft.Logger.DiskLogger
import BeanRaft.Logger.Progress
import BeanRaft.Lib.Owned
import BeanRaft.Lib.Split
import BeanRaft.Slice.Args
import BeanRaft.Slice.Split
import BeanRaft.Slice.SplitArgs
import BeanRaft.Slice.Edit
import BeanRaft.Slice.Room
import BeanRaft.Slice.Variables
import BeanRaft.Lib.Descriptors
import BeanRaft.Net.Handles
import BeanRaft.Net.Address
import BeanRaft.Raft.Reconnect
import BeanRaft.Raft.Link
import BeanRaft.Logger.LogFunction
