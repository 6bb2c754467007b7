import FosKernel.Machine
import FosKernel.Words
import FosKernel.Memory
import FosKernel.PageSearch
import FosKernel.KernelHeap
import FosKernel.KernelHeapInvariant
import FosKernel.KernelHeapRuns
import FosKernel.KernelHeapTranslation
import FosKernel.Queues
import FosKernel.Scheduler
import FosKernel.SchedulerSteps
import FosKernel.SchedulerBounds
import FosKernel.SchedulerPlaces
import FosKernel.Mlfq
import FosKernel.Boot
import FosKernel.BootPaging
import FosKernel.RefCount
import FosKernel.KernMemory
import FosKernel.KernReferences
import FosKernel.BlockMap
import FosKernel.WorkingSet
import FosKernel.UserMemory
import FosKernel.PageFault
import FosKernel.UserMappings
import FosKernel.ModifiedClock
import FosKernel.WorkingSetInvariant
import FosKernel.ClockTermination
import FosKernel.UserHeap
import FosKernel.UserHeapInvariant
import FosKernel.UserHeapRuns
import FosKernel.Runs
import FosKernel.PageSearchComplete
import FosKernel.HeapSearch
import FosKernel.KernelHeapPanic
import FosKernel.KernelHeapKmalloc
import FosKernel.KernelHeapKfree
import FosKernel.KernelHeapScan
import FosKernel.PageTableCreation
import FosKernel.UserHeapStrategies
import FosKernel.PageTableRemoval
import FosKernel.FreeMemRange
import FosKernel.ClockPolicy
import FosKernel.ClockVictim
import FosKernel.HeldFrames
import FosKernel.FrameOwnership
import FosKernel.FrameOwnershipRuns
import FosKernel.WriteBack
import FosKernel.PageReplacement
import FosKernel.InvalidAccess
import FosKernel.FreshFrames
import FosKernel.WorkingSetInvalidate
import FosKernel.RotatingQueue
import FosKernel.SchedulerRoundRobin
import FosKernel.IntrusiveLists
import FosKernel.BulkMoves
import FosKernel.SchedulerKill
import FosKernel.MapFrameContract
import FosKernel.LoadtimeMapFrame
import FosKernel.RequiredFrames
import FosKernel.FramesStorage
import FosKernel.FramesStorageRuns
import FosKernel.SysAllocatePage
import FosKernel.CommandPrompt
import FosKernel.PageWalkers
import FosKernel.ConnectPage
import FosKernel.ShareRange
import FosKernel.BootMapRange
import FosKernel.LinkChains
import FosKernel.ModifiedList
import FosKernel.SegmentLoader
import FosKernel.EnvIds
import FosKernel.RingBuffer
import FosKernel.ConsoleInput
import FosKernel.StabSearch
import FosKernel.TextTerminal
import FosKernel.CgaScreen
import FosKernel.RecentHistory
import FosKernel.AgingStamps
import FosKernel.NullTables
import FosKernel.FaultHandler
import FosKernel.VirtualMemory
import FosKernel.Isolation
import FosKernel.FrameConservation
import FosKernel.KernelBlocks
import FosKernel.TableLookup
import FosKernel.DemandPaging
import FosKernel.BootDirectories
import FosKernel.KernelVM
import FosKernel.ResidentCopies
import FosKernel.HeapMemory
import FosKernel.Processor
import FosKernel.TrapEntry
import FosKernel.ContextSwitch
import FosKernel.KernelTraps
import FosKernel.Processes
import FosKernel.Keyboard
import FosKernel.KernelData
import FosKernel.AddressSpaces
import FosKernel.PageCheck
import FosKernel.FosInitialize
import FosKernel.DebugInfo
