import HwMalloc.HugeHeaps
import HwMalloc.AddSegmentFailure
import HwMalloc.Pool
import HwMalloc.PoolRuns
import HwMalloc.Reserve
import HwMalloc.UsableSegments
import HwMalloc.Concurrent
import HwMalloc.ConcurrentInvariant
import HwMalloc.Lib.Threads
import HwMalloc.LockLeak
import HwMalloc.EraseRace
import HwMalloc.MissedRelease
import HwMalloc.PoolCounts
import HwMalloc.PoolTables
import HwMalloc.NumaTools
import HwMalloc.StackLimit
import HwMalloc.HeapRuns
import HwMalloc.Lib.Allocator
import HwMalloc.LiveRanges
import HwMalloc.Alignment
import HwMalloc.ArrayRequests
import HwMalloc.MakeUnique
import HwMalloc.UniquePtr
import HwMalloc.NullRelease
import HwMalloc.ConfigValidity
import HwMalloc.Environment
import HwMalloc.PtrArithmetic
import HwMalloc.SoloCalls
import HwMalloc.ConcurrentHeap
import HwMalloc.ConcurrentHeapInvariant
import HwMalloc.HeapLifetime
import HwMalloc.ConcurrentRanges
import HwMalloc.HeapProgress
import HwMalloc.Lib.Progress
import HwMalloc.CallsEnd
import HwMalloc.AllocatorRefinement
import HwMalloc.FrozenPool
import HwMalloc.UserAllocation
import HwMalloc.Starvation
import HwMalloc.Lib.Closure
import HwMalloc.SizeClasses
import HwMalloc.FailureIsolation
import HwMalloc.FailureLeaks
import HwMalloc.Growth
