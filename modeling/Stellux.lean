import Stellux.Util.Run
import Stellux.Util.Loop
import Stellux.Util.Count
import Stellux.Util.Memory
import Stellux.Util.CycleRing
import Stellux.Util.RadixTree
import Stellux.Util.Tiling
import Stellux.Util.ZeroByte
import Stellux.Util.Align
import Stellux.Util.Owners
import Stellux.Util.BitField
import Stellux.Util.Walk
import Stellux.Util.Collect
import Stellux.Util.Numeral
import Stellux.Util.Spinlock
import Stellux.Kernel.PhysAddr
import Stellux.Kernel.Process
import Stellux.Kernel.Sched
import Stellux.Kernel.SchedLock
import Stellux.Kernel.ApStartup
import Stellux.Kernel.ApBoot
import Stellux.Kernel.KMemory
import Stellux.Kernel.Page
import Stellux.Kernel.PageFrameAllocator
import Stellux.Kernel.KHeap
import Stellux.Kernel.KMalloc
import Stellux.Kernel.MemoryMap
import Stellux.Kernel.Console
import Stellux.Kernel.Framebuffer
import Stellux.Kernel.KTime
import Stellux.Kernel.SharedPtr
import Stellux.Kernel.KVector
import Stellux.Kernel.KVectorSlots
import Stellux.Kernel.KString
import Stellux.Kernel.KElevate
import Stellux.Kernel.Pci
import Stellux.Kernel.Mcfg
import Stellux.Kernel.Madt
import Stellux.Kernel.Aml
import Stellux.Kernel.KNumerals
import Stellux.Kernel.KPrint
import Stellux.Driver.XhciRing
import Stellux.Driver.XhciDriver
import Stellux.Driver.XhciMemory
import Stellux.Driver.XhciPort
import Stellux.Driver.XhciExtCaps
import Stellux.Boot.Paging
import Stellux.Boot.Loader
import Stellux.Boot.ElfLoader
import Stellux.Spec.SchedAgreement
import Stellux.Spec.Preemption
import Stellux.Spec.RunQueueTasks
import Stellux.Spec.ApRunQueues
import Stellux.Spec.ApBoot
import Stellux.Spec.RoundRobin
import Stellux.Spec.LoadBalancing
import Stellux.Spec.SchedLock
import Stellux.Spec.PageFrames
import Stellux.Spec.BitmapBounds
import Stellux.Spec.PageRaces
import Stellux.Spec.PageAccounting
import Stellux.Spec.MemoryInit
import Stellux.Spec.MemorySelection
import Stellux.Spec.PageSearch
import Stellux.Spec.ZeroedPages
import Stellux.Spec.BootBitmap
import Stellux.Spec.BootAccounting
import Stellux.Spec.PageTree
import Stellux.Spec.PageMapping
import Stellux.Spec.PageAttributes
import Stellux.Spec.BootPageTables
import Stellux.Spec.HeapChain
import Stellux.Spec.HeapEdits
import Stellux.Spec.HeapCalls
import Stellux.Spec.HeapRuns
import Stellux.Spec.HeapModel
import Stellux.Spec.HeapSafety
import Stellux.Spec.HeapRequests
import Stellux.Spec.HeapContents
import Stellux.Spec.HeapStore
import Stellux.Spec.HeapDoubleFree
import Stellux.Spec.AlignedAllocation
import Stellux.Spec.EventRingDelivery
import Stellux.Spec.EventRingDrain
import Stellux.Spec.TrbRingDelivery
import Stellux.Spec.CommandCompletion
import Stellux.Spec.PortEvents
import Stellux.Spec.EventReads
import Stellux.Spec.PortReset
import Stellux.Spec.ExtendedCapabilities
import Stellux.Spec.ConsoleBounds
import Stellux.Spec.Rectangles
import Stellux.Spec.Sleeping
import Stellux.Spec.SharedPtrCounts
import Stellux.Spec.VectorOps
import Stellux.Spec.VectorLists
import Stellux.Spec.VectorGaps
import Stellux.Spec.VectorSlots
import Stellux.Spec.VectorFilling
import Stellux.Spec.VectorLifetimes
import Stellux.Spec.VectorFailures
import Stellux.Spec.Elevation
import Stellux.Spec.MemoryPrimitives
import Stellux.Spec.StringBuffers
import Stellux.Spec.StringStates
import Stellux.Spec.StringAppend
import Stellux.Spec.StringCopies
import Stellux.Spec.StringResize
import Stellux.Spec.StringEquality
import Stellux.Spec.StringSearch
import Stellux.Spec.StringSlice
import Stellux.Spec.PciConfig
import Stellux.Spec.PciCapabilities
import Stellux.Spec.PciEnumeration
import Stellux.Spec.DeviceContexts
import Stellux.Spec.UncacheableMemory
import Stellux.Spec.BootFrames
import Stellux.Spec.KernelImage
import Stellux.Spec.EntryParams
import Stellux.Spec.ElfBounds
import Stellux.Spec.BootCoverage
import Stellux.Spec.Numerals
import Stellux.Spec.Printing
import Stellux.Spec.MadtTable
import Stellux.Spec.PackageLength
