import AluraOs.Memory
import AluraOs.Chains
import AluraOs.Loops
import AluraOs.Rings
import AluraOs.Blocks
import AluraOs.KernelHeap
import AluraOs.KernelHeapLaws
import AluraOs.HeapGrowth
import AluraOs.HeapRuns
import AluraOs.HeapCalls
import AluraOs.MemoryBitmap
import AluraOs.Pools
import AluraOs.FramePool
import AluraOs.BootMemory
import AluraOs.MemoryPaging
import AluraOs.PagingWindows
import AluraOs.PagingMaps
import AluraOs.AddressSpaces
import AluraOs.KernelGrowth
import AluraOs.Lookups
import AluraOs.Task
import AluraOs.TaskCopy
import AluraOs.ForkLaws
import AluraOs.Resource
import AluraOs.ResourceLaws
import AluraOs.LinkedLists
import AluraOs.TaskManager
import AluraOs.TaskQueues
import AluraOs.Scheduler
import AluraOs.UserMemory
import AluraOs.ElfExecutable
import AluraOs.Arguments
import AluraOs.LoadSteps
import AluraOs.LoadImage
import AluraOs.LoadLaws
import AluraOs.ExecLaws
import AluraOs.ImageLaws
import AluraOs.HeapFrames
import AluraOs.HeapSizes
import AluraOs.Syscall
import AluraOs.Processes
import AluraOs.ProcessTree
import AluraOs.Interrupts
import AluraOs.SyscallLaws
import AluraOs.Runs
import AluraOs.Boot
import AluraOs.KernelRuns
import AluraOs.WakeUps
import AluraOs.Directories
import AluraOs.OpenFiles
import AluraOs.AccessModes
import AluraOs.KeyboardStream
import AluraOs.RetryFlag
import AluraOs.Belongings
import AluraOs.Changes
import AluraOs.RegisterFrames
import AluraOs.SignalFrames
import AluraOs.HandlerReturns
import AluraOs.KillSignal
import AluraOs.Selection
import AluraOs.Slices
import AluraOs.CpuTime
import AluraOs.ListedTasks
import AluraOs.Vfs
import AluraOs.ByteStrings
import AluraOs.Faults
import AluraOs.FileContents
import AluraOs.FileBounds
import AluraOs.Descriptors
import AluraOs.FsCache
import AluraOs.FsTree
import AluraOs.FsSteps
import AluraOs.CurrentPages
import AluraOs.UserHeap
import AluraOs.UserHeapRuns
import AluraOs.Launches
import AluraOs.MapLaws
import AluraOs.CopyMemory
import AluraOs.SignalStack
import AluraOs.KernelWindow
import AluraOs.ByteStores
import AluraOs.Framebuffer
import AluraOs.Blit
import AluraOs.Terminal
import AluraOs.TerminalLaws
import AluraOs.Print
import AluraOs.PrintLaws
import AluraOs.Ustar
import AluraOs.UstarRuns
import AluraOs.RamfsPaths
import AluraOs.UstarReads
import AluraOs.PathResolve
import AluraOs.RamfsTree
import AluraOs.UstarArchive
import AluraOs.UstarImport
import AluraOs.Initrd
import AluraOs.FsCounts
import AluraOs.FsResolve
import AluraOs.FsEdits
import AluraOs.CopyLaws
import AluraOs.CacheIndex
import AluraOs.PathSplits
import AluraOs.PathCounts
import AluraOs.FsRuns
import AluraOs.FsChanges
import AluraOs.FsPosts
import AluraOs.FailedOpens
import AluraOs.FsBoot
import AluraOs.InitrdFiles
import AluraOs.NameRuns
import AluraOs.FsLinks
import AluraOs.FsHolds
import AluraOs.FsData
import AluraOs.FileRuns
import AluraOs.NameTrees
import AluraOs.FsNames
import AluraOs.Listings
import AluraOs.FsListing
import AluraOs.Font8x8
import AluraOs.TextDisplay
import AluraOs.TextTerminal
import AluraOs.TextTerminalLaws
import AluraOs.ScreenPixels
import AluraOs.VgaText
import AluraOs.CStrings
import AluraOs.Strings
import AluraOs.StringLaws
import AluraOs.Shell
import AluraOs.ShellLaws
import AluraOs.ShellScreen
import AluraOs.Square
import AluraOs.BootWindow
import AluraOs.ContextSwitch
