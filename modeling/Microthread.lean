import Microthread.Foundation.Coroutines
import Microthread.Foundation.Count
import Microthread.Foundation.Fifo
import Microthread.Foundation.Heap
import Microthread.Foundation.LinkedQueue
import Microthread.Foundation.Locking
import Microthread.Foundation.Machine
import Microthread.Foundation.Placement
import Microthread.Foundation.Queue
import Microthread.Foundation.Registry
import Microthread.Foundation.RingBuffer
import Microthread.Foundation.Saving
import Microthread.Foundation.Words
import Microthread.Invariant.Basic
import Microthread.Invariant.Calls
import Microthread.Invariant.Channel
import Microthread.Invariant.Copies
import Microthread.Invariant.Counters
import Microthread.Invariant.Creation
import Microthread.Invariant.Descriptors
import Microthread.Invariant.Lifecycle
import Microthread.Invariant.Moves
import Microthread.Invariant.Parking
import Microthread.Invariant.Passage
import Microthread.Invariant.Preservation
import Microthread.Invariant.Running
import Microthread.Invariant.Sections
import Microthread.Invariant.Select
import Microthread.Invariant.Shutdown
import Microthread.Invariant.Storage
import Microthread.Invariant.Tasks
import Microthread.Invariant.Update
import Microthread.Invariant.Waking
import Microthread.Model.Buffer
import Microthread.Model.Channel
import Microthread.Model.Context
import Microthread.Model.FdWait
import Microthread.Model.Io
import Microthread.Model.Lifecycle
import Microthread.Model.Links
import Microthread.Model.Paths
import Microthread.Model.Queues
import Microthread.Model.Stack
import Microthread.Model.Task
import Microthread.Model.Types
import Microthread.Model.Waiting
import Microthread.Model.Writing
import Microthread.Properties.Adoption
import Microthread.Properties.Agreement
import Microthread.Properties.Arguments
import Microthread.Properties.Backends
import Microthread.Properties.Buffers
import Microthread.Properties.Cancellation
import Microthread.Properties.Closing
import Microthread.Properties.Completion
import Microthread.Properties.Contexts
import Microthread.Properties.Counters
import Microthread.Properties.Creation
import Microthread.Properties.Deadlines
import Microthread.Properties.Delivery
import Microthread.Properties.Discipline
import Microthread.Properties.Dispatch
import Microthread.Properties.Draining
import Microthread.Properties.Expiry
import Microthread.Properties.Filters
import Microthread.Properties.Generations
import Microthread.Properties.Handles
import Microthread.Properties.Idling
import Microthread.Properties.Immediate
import Microthread.Properties.Interest
import Microthread.Properties.Joins
import Microthread.Properties.Location
import Microthread.Properties.Marks
import Microthread.Properties.Mirror
import Microthread.Properties.Queues
import Microthread.Properties.Readiness
import Microthread.Properties.Refusals
import Microthread.Properties.Rendezvous
import Microthread.Properties.Repetition
import Microthread.Properties.Reuse
import Microthread.Properties.Rollback
import Microthread.Properties.Scheduling
import Microthread.Properties.Selects
import Microthread.Properties.SingleWorker
import Microthread.Properties.Solitude
import Microthread.Properties.Stacks
import Microthread.Properties.Teardown
import Microthread.Properties.Timers
import Microthread.Properties.Turns
import Microthread.Properties.Waits
import Microthread.Properties.Writes
import Microthread.System.Answers
import Microthread.System.Basic
import Microthread.System.Calls
import Microthread.System.Cases
import Microthread.System.Choices
import Microthread.System.Classify
import Microthread.System.Closers
import Microthread.System.Contexts
import Microthread.System.Contract
import Microthread.System.Files
import Microthread.System.Ledger
import Microthread.System.Memory
import Microthread.System.Reachable
import Microthread.System.Records
import Microthread.System.Requests
import Microthread.System.Schedule
import Microthread.System.Step
import Microthread.System.Trace
import Microthread.System.Traffic
import Microthread.System.Watch
