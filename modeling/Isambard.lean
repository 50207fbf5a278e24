import Isambard.Lib.Chain
import Isambard.Lib.Ranges
import Isambard.Lib.Runs
import Isambard.Lib.Fields
import Isambard.Lib.Ring
import Isambard.Lib.Pprev
import Isambard.Lib.Deltas
import Isambard.Lib.Crc
import Isambard.Lib.Writes
import Isambard.Lib.Circle
import Isambard.Lib.Domains
import Isambard.Allocator.Model
import Isambard.Allocator.Donate
import Isambard.Allocator.Tiles
import Isambard.Allocator.Allocate
import Isambard.Allocator.Invariant
import Isambard.Allocator.Mapped
import Isambard.Allocator.Headers
import Isambard.Allocator.Complete
import Isambard.El1.State
import Isambard.El1.Lists
import Isambard.El1.Maps
import Isambard.El1.Translation
import Isambard.El1.Faults
import Isambard.El1.Interfaces
import Isambard.El1.Svc
import Isambard.El1.Gate
import Isambard.El1.Timeouts
import Isambard.El1.Steps
import Isambard.El1.Waits
import Isambard.El1.Requests
import Isambard.El1.Contexts
import Isambard.El1.Boot
import Isambard.El1.Locks
import Isambard.El1.Sequences
import Isambard.El1.Retries
import Isambard.El1.Handlers
import Isambard.El1.VmRegisters
import Isambard.El1.Heap
import Isambard.El1.Storage
import Isambard.El1.SystemMap
import Isambard.El1.Vector
import Isambard.El1.Links
import Isambard.El1.Scheduler
import Isambard.El1.GateCalls
import Isambard.El1.LockCalls
import Isambard.El1.ThreadCalls
import Isambard.El1.Domains
import Isambard.El1.MapCalls
import Isambard.El1.SystemCalls
import Isambard.El1.KernelSteps
import Isambard.El1.KernelStart
import Isambard.El1.KernelRuns
import Isambard.El1.KernelLists
import Isambard.El1.KernelSafety
import Isambard.El1.KernelCalls
import Isambard.El1.Providers
import Isambard.El1.Codes
import Isambard.Driver.Blocks
import Isambard.Driver.Tables
import Isambard.Driver.Lookups
import Isambard.Driver.HeapCopies
import Isambard.Driver.Memory
import Isambard.Driver.ReadOnly
import Isambard.Driver.Mailbox
import Isambard.Driver.Answers
import Isambard.Driver.Pump
import Isambard.Driver.Tags
import Isambard.Driver.Codes
import Isambard.Driver.Display
import Isambard.Driver.Gpio
import Isambard.Driver.VmTimer
import Isambard.Driver.VmIrqs
import Isambard.Driver.Cp15
import Isambard.Driver.Services
import Isambard.Tools.Interfaces
