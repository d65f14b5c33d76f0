import RubyRuntime.Backtrace.Basic
import RubyRuntime.Backtrace.Formatter
import RubyRuntime.Backtrace.Location
import RubyRuntime.Backtrace.Native
import RubyRuntime.CallStack
import RubyRuntime.Decimal.Display
import RubyRuntime.Decimal.Literal
import RubyRuntime.Decimal.Nearest
import RubyRuntime.Decimal.Shortest
import RubyRuntime.Environment
import RubyRuntime.Error
import RubyRuntime.FileTree
import RubyRuntime.ObjectId
import RubyRuntime.ObjectSpace.Allocations
import RubyRuntime.ObjectSpace.Basic
import RubyRuntime.ObjectSpace.Finalizers
import RubyRuntime.ObjectSpace.Heap
import RubyRuntime.ObjectSpace.Ids
import RubyRuntime.Options
import RubyRuntime.Queue.Bounded
import RubyRuntime.Queue.Outcome
import RubyRuntime.Queue.Ring
import RubyRuntime.Queue.Unbounded
import RubyRuntime.Session.Blocking
import RubyRuntime.Session.Calls
import RubyRuntime.Session.Executor
import RubyRuntime.Session.Machine
import RubyRuntime.Session.MutexOps
import RubyRuntime.Session.ObjectOps
import RubyRuntime.Session.QueueOps
import RubyRuntime.Session.Report
import RubyRuntime.Session.Report.Reader
import RubyRuntime.Session.Schedule
import RubyRuntime.Session.Snapshot
import RubyRuntime.Session.StackOps
import RubyRuntime.Session.Syntax
import RubyRuntime.Session.ThreadOps
import RubyRuntime.Session.WeakOps
import RubyRuntime.Session.World
import RubyRuntime.Sync.Condition
import RubyRuntime.Sync.Lock
import RubyRuntime.Sync.Mutex
import RubyRuntime.Sync.State
import RubyRuntime.Sync.Wait
import RubyRuntime.Text.Blank
import RubyRuntime.Text.Numeral
import RubyRuntime.Text.Quoted
import RubyRuntime.Text.Unprintable
import RubyRuntime.Thread.Parking
import RubyRuntime.Thread.Record
import RubyRuntime.Thread.Signal
import RubyRuntime.Thread.WaitList
import RubyRuntime.Toml.Document
import RubyRuntime.Toml.Reader
import RubyRuntime.Toml.Scalar
import RubyRuntime.Value
import RubyRuntime.Weak.KeyMap
import RubyRuntime.Weak.Map
import RubyRuntime.Proofs.Lookup
import RubyRuntime.Proofs.ObjectId.Encoding
import RubyRuntime.Proofs.ObjectSpace.Requests
import RubyRuntime.Proofs.ObjectSpace.Identity
import RubyRuntime.Proofs.Queue.Bounded
import RubyRuntime.Proofs.Sync.Alike
import RubyRuntime.Proofs.Condition.Credits
import RubyRuntime.Proofs.Session.Absences
import RubyRuntime.Proofs.Mutex.Ownership
import RubyRuntime.Proofs.Mutex.Reacquisition
import RubyRuntime.Proofs.Queue.Conservation
import RubyRuntime.Proofs.Safepoint.Polls
import RubyRuntime.Proofs.Condition.Registration
import RubyRuntime.Proofs.Condition.Overdraft
import RubyRuntime.Proofs.Mutex.Recursion
import RubyRuntime.Proofs.Safepoint.Interrupts
import RubyRuntime.Proofs.Thread.Wakeups
import RubyRuntime.Proofs.Weak.Sweeps
import RubyRuntime.Proofs.Weak.Readback
import RubyRuntime.Proofs.Weak.Iterations
import RubyRuntime.Proofs.ObjectSpace.Contention
import RubyRuntime.Proofs.ObjectSpace.Races
import RubyRuntime.Proofs.Weak.Associations
import RubyRuntime.Proofs.ObjectSpace.Registrations
import RubyRuntime.Proofs.ObjectSpace.Finalizations
import RubyRuntime.Proofs.Thread.Statuses
import RubyRuntime.Proofs.Thread.Exits
import RubyRuntime.Proofs.Condition.Abandonment
import RubyRuntime.Proofs.Queue.Closing
import RubyRuntime.Proofs.Safepoint.BlockingCalls
import RubyRuntime.Proofs.Session.Postures
import RubyRuntime.Proofs.Mutex.Synchronize
import RubyRuntime.Proofs.ObjectSpace.Exhaustion
import RubyRuntime.Proofs.ObjectSpace.Tracing
import RubyRuntime.Proofs.Backtrace.Materialization
import RubyRuntime.Proofs.Backtrace.Locations
import RubyRuntime.Proofs.Backtrace.Rendering
import RubyRuntime.Proofs.Backtrace.Limits
import RubyRuntime.Proofs.Backtrace.Interleaving
import RubyRuntime.Proofs.CallStack.Guards
import RubyRuntime.Proofs.Sync.Holds
