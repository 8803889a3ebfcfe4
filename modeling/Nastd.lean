import Nastd.Lib.Chain
import Nastd.Nastipc
import Nastd.Server.Memdb
import Nastd.Server.MemdbRep
import Nastd.Lib.Run
import Nastd.Server.CacheMap
import Nastd.Server.CacheThreads
import Nastd.Lib.Probe
import Nastd.Server.CdbFind
import Nastd.Server.CdbFormat
import Nastd.Server.Cdb
import Nastd.Server.Mysqldb
import Nastd.Server.Columns
import Nastd.Server.Fqm
import Nastd.Server.Io
import Nastd.Client.Api
import Nastd.Server.Framing
import Nastd.Server.UpdateWire
import Nastd.Server.OneResponse
import Nastd.Server.Isolation
import Nastd.Lib.Names
import Nastd.Server.Descriptors
import Nastd.Client.Responses
import Nastd.Client.Matching
import Nastd.Lib.Monitor
import Nastd.Server.RwLock
import Nastd.Server.FqmThreads
import Nastd.Server.LockTrace
import Nastd.Server.Freshness
import Nastd.Client.Receive
import Nastd.Lib.Cuts
import Nastd.Client.Chunks
import Nastd.Server.Stream
import Nastd.Server.StreamCuts
import Nastd.Sending
import Nastd.Libconfig.Parser
import Nastd.Libconfig.Layout
import Nastd.Libconfig.Numbers
import Nastd.Libconfig.Reading
import Nastd.Libconfig.Lines
import Nastd.Libconfig.RoundTrip
import Nastd.Libconfig.Marks
import Nastd.Libconfig.Bounds
import Nastd.Libconfig.Exact
import Nastd.Server.Layers
import Nastd.Server.OptSet
import Nastd.Server.InputBounds
import Nastd.Client.KeyRequests
import Nastd.Server.KeyWire
import Nastd.Server.CachedAnswer
import Nastd.Lib.SqlText
import Nastd.Server.Query
import Nastd.Server.CdbProbe
import Nastd.Server.CdbAccess
import Nastd.Server.CdbBounds
import Nastd.Server.Reload
import Nastd.Server.MemdbAlloc
import Nastd.Server.FailedWrite
import Nastd.Server.FqmBound
import Nastd.Server.EntryCount
import Nastd.Server.ArrayStore
import Nastd.Server.CdbFields
import Nastd.Lib.Pack
import Nastd.Server.Builders
import Nastd.Client.TableHistory
import Nastd.Server.FqmPool
import Nastd.Server.FqmDelete
import Nastd.Libconfig.Parts
import Nastd.Libconfig.Verdicts
import Nastd.Libconfig.Stubs
import Nastd.Libconfig.Unterminated
import Nastd.Client.Calls
import Nastd.Service
import Nastd.Deployment
import Nastd.Promises
import Nastd.Lib.Absorb
import Nastd.Server.Md5
import Nastd.Libconfig.Config
import Nastd.Server.LockSystem
import Nastd.Server.LockProgress
import Nastd.Client.ReadBounds
import Nastd.Server.FqmDrains
import Nastd.Server.Periodic
import Nastd.Lib.Live
import Nastd.Server.CacheNodes
import Nastd.Client.Handle
import Nastd.Lib.Blocks
import Nastd.Client.ResultMemory
import Nastd.Client.ErrmsgMemory
import Nastd.Server.ArrayMemory
