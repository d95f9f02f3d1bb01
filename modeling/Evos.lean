import Evos.Foundations.ByteMemory
import Evos.Foundations.BubblePass
import Evos.Foundations.Segments
import Evos.Foundations.Outcome
import Evos.Foundations.Runs
import Evos.Foundations.Sheet
import Evos.Foundations.Bump
import Evos.Foundations.Holding
import Evos.Panic
import Evos.Datastructs.OrderedArray
import Evos.Datastructs.SortedBag
import Evos.Kheap.Model
import Evos.Kheap.Tags
import Evos.Kheap.Invariant
import Evos.Kheap.Carve
import Evos.Kheap.HoleIndex
import Evos.Kheap.Alloc
import Evos.Kheap.Grow
import Evos.Kheap.Host
import Evos.Kheap.Join
import Evos.Kheap.Free
import Evos.Kheap.Run
import Evos.Kheap.Safety
import Evos.Kheap.BestFit
import Evos.Kheap.Coalesce
import Evos.Kheap.WellFormed
import Evos.Kheap.WellFormedAlloc
import Evos.Kheap.AlignedCarve
import Evos.Kheap.AllocBounds
import Evos.Kheap.FreeRoom
import Evos.Kheap.FullIndex
import Evos.Datastructs.Bitset
import Evos.Datastructs.BitsetRefinement
import Evos.Mm.Frame
import Evos.Mm.FrameHistory
import Evos.Mm.Footprint
import Evos.Task.Table
import Evos.Task.Boot
import Evos.Task.Dispatch
import Evos.Mm.Kernel
import Evos.Mm.Paging
import Evos.Mm.Init
import Evos.Task.Task
import Evos.Task.RoundRobin
import Evos.Task.Restore
import Evos.Mm.Kept
import Evos.Mm.Invariant
import Evos.Mm.Growth
import Evos.Mm.KernelAlloc
import Evos.Mm.KernelGrow
import Evos.Mm.GrowthFault
import Evos.Mm.SharedGrowth
import Evos.Mm.GrowthFrames
import Evos.Mm.LinearStage
import Evos.Mm.BootMapping
import Evos.Mm.BootHeap
import Evos.Mm.BootClone
import Evos.Mm.Region
import Evos.Mm.CopyTable
import Evos.Mm.CopyDirectory
import Evos.Mm.CloneDirectory
import Evos.Mm.Paged
import Evos.Mm.PagedClone
import Evos.Mm.Walks
import Evos.Mm.WalksClone
import Evos.Mm.SharedClone
import Evos.Task.PagedTasks
import Evos.Mm.BootInvariant
import Evos.Mm.BootWalks
import Evos.Mm.FrameOwners
import Evos.Kmain.Backtrace
import Evos.Kmain.BootBlocks
import Evos.Kmain.UsableFrames
import Evos.Kmain.Startup
import Evos.Mm.Reentrancy
import Evos.Task.KernelRun
import Evos.Task.PageWalks
import Evos.Task.FrameOwners
import Evos.Task.Isolation
import Evos.Task.Coherence
import Evos.Gdt
import Evos.Monitor.Framebuffer
import Evos.Monitor.Terminal
import Evos.Monitor.Numbers
import Evos.Monitor.Cursor
import Evos.String.AppendNumber
import Evos.String.Vsprintf
import Evos.String.Format
import Evos.String.Printed
import Evos.String.FieldLayout
import Evos.Foundations.InterruptController
import Evos.Foundations.IntervalTimer
import Evos.Foundations.LockStep
import Evos.Foundations.PartialChain
import Evos.Foundations.Processor
import Evos.Interrupt.Boot
import Evos.Kmain.StackTrace
import Evos.Task.Restart
import Evos.Usermode.Printf
