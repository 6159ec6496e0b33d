import Shardb.Loops
import Shardb.Bytes
import Shardb.CStrings
import Shardb.Journal
import Shardb.Rocks
import Shardb.Datastore
import Shardb.Handlers
import Shardb.Server
import Shardb.Messages
import Shardb.Routing
import Shardb.SinglePartition
import Shardb.Execution
import Shardb.Cleanup
import Shardb.Traffic
import Shardb.Overlaps
import Shardb.Visibility
import Shardb.Client
import Shardb.Barrier
import Shardb.Termination
import Shardb.Ownership
import Shardb.Paths
import Shardb.Grammar
import Shardb.Flow
import Shardb.Rings
import Shardb.Lcores
import Shardb.Wiring
import Shardb.Transit
import Shardb.Conservation
import Shardb.Dispatch
import Shardb.Submit
import Shardb.Threads
import Shardb.Interleaving
import Shardb.Shutdown
import Shardb.Ledger
import Shardb.TxHandles
import Shardb.Receive
import Shardb.Config
import Shardb.Options
import Shardb.CommandLine
import Shardb.Transmit
import Shardb.Copies
import Shardb.Replies
import Shardb.WorkerIds
import Shardb.Startup
import Shardb.WorkerCount
import Shardb.Boot
import Shardb.Ranges
import Shardb.Numerals
import Shardb.Tuples
import Shardb.BurstSizes
import Shardb.Refusals
import Shardb.Steps
import Shardb.MainLoops
import Shardb.Flushing
import Shardb.Service
import Shardb.Accounting
import Shardb.Serial
import Shardb.Store
import Shardb.WholeServer
import Shardb.SideBySide
import Shardb.LongestPrefix
import Shardb.Sockets
import Shardb.Calls
import Shardb.Ports
import Shardb.RoundTrip
import Shardb.Decimals
import Shardb.Settings
import Shardb.Canonical
import Shardb.Addresses
import Shardb.Program
