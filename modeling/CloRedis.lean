import CloRedis.Library.Run
import CloRedis.Library.Outcome
import CloRedis.Library.Loop
import CloRedis.Library.Interleaving
import CloRedis.Library.Lists
import CloRedis.Library.Locks
import CloRedis.Pool.Calls
import CloRedis.Pool.World
import CloRedis.Pool.Threads
import CloRedis.Pool.Ownership
import CloRedis.Pool.Admission
import CloRedis.Pool.MaxIdle
import CloRedis.Pool.IdleList
import CloRedis.Pool.ReturnOrder
import CloRedis.Pool.Times
import CloRedis.Pool.Peak
import CloRedis.Pool.ReferenceCache
import CloRedis.Pool.Refinement
import CloRedis.Pool.LifeTime
import CloRedis.Pool.Sections
import CloRedis.Redis.Hiredis
import CloRedis.Redis.Connection
import CloRedis.Redis.Loans
import CloRedis.Redis.Objects
import CloRedis.Redis.Trees
import CloRedis.Redis.Values
import CloRedis.Redis.Health
import CloRedis.Redis.Sessions
import CloRedis.Redis.Isolation
import CloRedis.Library.Decimals
import CloRedis.Library.Incremental
import CloRedis.Hiredis.Numbers
import CloRedis.Hiredis.Grammar
import CloRedis.Hiredis.Parser
import CloRedis.Hiredis.Parsing
import CloRedis.Hiredis.Reader
import CloRedis.Hiredis.Tasks
import CloRedis.Hiredis.Reading
import CloRedis.Hiredis.Delivery
import CloRedis.Hiredis.Format
import CloRedis.Hiredis.Commands
import CloRedis.Hiredis.Template
import CloRedis.Hiredis.Context
import CloRedis.Hiredis.Simulation
import CloRedis.Hiredis.Conversation
import CloRedis.Library.Components
import CloRedis.Manager.Address
import CloRedis.Manager.Parsing
import CloRedis.Manager.Misreading
import CloRedis.Manager.State
import CloRedis.Manager.Slots
import CloRedis.Manager.Routing
import CloRedis.Manager.Init
import CloRedis.Manager.Counts
import CloRedis.Manager.Projection
import CloRedis.Manager.Requests
import CloRedis.Manager.Generations
import CloRedis.Manager.Setup
import CloRedis.Manager.Slaves
import CloRedis.Manager.Teardown
import CloRedis.Manager.Reset
import CloRedis.Manager.Selection
import CloRedis.Library.Ownership
import CloRedis.Manager.Handles
import CloRedis.Library.DoublyLinked
import CloRedis.Pool.Memory
import CloRedis.Pool.Heap
import CloRedis.Pool.HeapCalls
import CloRedis.Pool.Destructors
import CloRedis.Redis.ErrorText
import CloRedis.Hiredis.Sds
import CloRedis.Hiredis.Strings
import CloRedis.Hiredis.Edits
import CloRedis.Hiredis.Growth
import CloRedis.Hiredis.Buffers
import CloRedis.Redis.Accessors
