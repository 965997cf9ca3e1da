import Multiswap.Kernel
import Multiswap.Lib.Transition
import Multiswap.Lib.Machine
import Multiswap.Lib.BitSearch
import Multiswap.Lib.FirstFit
import Multiswap.Lib.FirstCome
import Multiswap.Lib.CellStore
import Multiswap.Lib.StateError
import Multiswap.Lib.Ledger
import Multiswap.Lib.Ownership
import Multiswap.Scheduler.Defs
import Multiswap.Scheduler.Slots
import Multiswap.Scheduler.Invariant
import Multiswap.Scheduler.Select
import Multiswap.Scheduler.FirstFree
import Multiswap.Scheduler.Relocate
import Multiswap.Scheduler.Sequential
import Multiswap.Scheduler.Fallback
import Multiswap.Scheduler.AllOrNothing
import Multiswap.Scheduler.Coding
import Multiswap.Concurrent.Defs
import Multiswap.Concurrent.Invariant
import Multiswap.Concurrent.Safety
import Multiswap.Concurrent.Solo
import Multiswap.Concurrent.RoundTrip
import Multiswap.Rdma.Defs
import Multiswap.Rdma.Polling
import Multiswap.Rdma.Status
import Multiswap.Rdma.Endings
import Multiswap.Rdma.Success
import Multiswap.Rdma.Queues
import Multiswap.Dram.Defs
import Multiswap.Frontswap.Defs
import Multiswap.Frontswap.Transfer
import Multiswap.Frontswap.Exhaustion
import Multiswap.Frontswap.OutOfRange
import Multiswap.Frontswap.Runs
import Multiswap.Frontswap.Cells
import Multiswap.Frontswap.Builds
import Multiswap.Frontswap.Areas
import Multiswap.Queue.Defs
import Multiswap.Queue.Counter
import Multiswap.Queue.Completion
import Multiswap.Queue.Capacity
import Multiswap.Queue.Requests
import Multiswap.Queue.Receive
import Multiswap.Server.Defs
import Multiswap.Server.Handlers
import Multiswap.Server.History
import Multiswap.Server.Table
import Multiswap.Server.Lifetime
import Multiswap.Pairing.Defs
import Multiswap.Pairing.Handover
import Multiswap.Driver.Defs
import Multiswap.Driver.Balance
import Multiswap.Loading.Defs
import Multiswap.Loading.Unwind
import Multiswap.Handshake.Defs
import Multiswap.Handshake.Outcomes
import Multiswap.Handshake.Reports
import Multiswap.Handshake.Objects
import Multiswap.Server.Connecting
import Multiswap.Lib.Simulation
import Multiswap.Queue.Stages
import Multiswap.Transport.Defs
import Multiswap.Transport.Invariant
import Multiswap.Transport.Refinement
import Multiswap.Queue.Progress
import Multiswap.Transport.Placement
import Multiswap.Transport.Realization
import Multiswap.Transport.RoundTrip
import Multiswap.Frontswap.Static
import Multiswap.Frontswap.Capacity
import Multiswap.Transport.Progress
import Multiswap.Transport.Occupancy
import Multiswap.Cluster.Defs
import Multiswap.Cluster.Safety
import Multiswap.Pairing.FirstLoad
import Multiswap.Cluster.Loading
import Multiswap.Cluster.Reload
import Multiswap.Connection.Defs
import Multiswap.Connection.Objects
import Multiswap.Connection.Refinement
import Multiswap.Server.Accepts
import Multiswap.Connection.Limit
