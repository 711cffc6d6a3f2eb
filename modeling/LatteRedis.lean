import LatteRedis.Foundation.Bytes
import LatteRedis.Foundation.Incremental
import LatteRedis.Foundation.Run
import LatteRedis.Foundation.Traced
import LatteRedis.Foundation.Resp
import LatteRedis.Foundation.Fenwick
import LatteRedis.Foundation.RefCount
import LatteRedis.Foundation.Interning
import LatteRedis.Foundation.FlagWord
import LatteRedis.Foundation.Ring
import LatteRedis.Foundation.Best
import LatteRedis.Foundation.Memory
import LatteRedis.Foundation.Expiring
import LatteRedis.Library
import LatteRedis.Paths
import LatteRedis.Reply.Blocks
import LatteRedis.Reply.Deferred
import LatteRedis.Reply.Accounting
import LatteRedis.Client.Basic
import LatteRedis.Slowlog.Manager
import LatteRedis.Slowlog.Entries
import LatteRedis.Config
import LatteRedis.Config.LoadModules
import LatteRedis.Client.Parser
import LatteRedis.Client.Vector
import LatteRedis.Client.Decoder
import LatteRedis.Client.Simulation
import LatteRedis.Client.Iterations
import LatteRedis.Client.Chunking
import LatteRedis.Client.InputBuffer
import LatteRedis.Client.Procs
import LatteRedis.Client.Pipeline
import LatteRedis.Client.InlineLines
import LatteRedis.Client.Uninitialised
import LatteRedis.Client.FirstRequest
import LatteRedis.Db.KvStore
import LatteRedis.Metric
import LatteRedis.Db.SizeIndex
import LatteRedis.Db.Contents
import LatteRedis.Db.Basic
import LatteRedis.Eviction.Pool
import LatteRedis.Command.Handlers
import LatteRedis.Command.Frame
import LatteRedis.Command.Accesses
import LatteRedis.Command.Counted
import LatteRedis.Db.EncodedKeys
import LatteRedis.Command.Refinement
import LatteRedis.Command.ModuleLoad
import LatteRedis.Command.Flags
import LatteRedis.Command.Manager
import LatteRedis.Client.Isolation
import LatteRedis.Client.Bookkeeping
import LatteRedis.Client.Progress
import LatteRedis.Client.ProtocolError
import LatteRedis.Client.Closing
import LatteRedis.Slowlog.Accounting
import LatteRedis.Keyspace.Request
import LatteRedis.Command.Traps
import LatteRedis.Command.Returns
import LatteRedis.Command.OneReply
import LatteRedis.Command.FreshClient
import LatteRedis.Keyspace.Deadlines
import LatteRedis.Keyspace.LastWriter
import LatteRedis.Keyspace.LazyExpiry
import LatteRedis.Keyspace.RefCounts
import LatteRedis.Keyspace.Disconnects
import LatteRedis.Keyspace.Upsert
import LatteRedis.Keyspace.ExpireLaws
import LatteRedis.Keyspace.Stamps
import LatteRedis.Keyspace.Spec
import LatteRedis.Client.RedisCli
import LatteRedis.Node.Interleaving
import LatteRedis.Node.Sessions
import LatteRedis.Node.AnyBytes
import LatteRedis.Node.Stops
import LatteRedis.Node.Served
import LatteRedis.Node.Accounts
import LatteRedis.Node.Modules
import LatteRedis.Node.Noninterference
import LatteRedis.Node.Startup
