import Hellfire.Schedulability
import Hellfire.CapacityBudget
import Hellfire.Malloc
import Hellfire.FirstFit
import Hellfire.WaitQueue
import Hellfire.SemaphoreCore
import Hellfire.Semaphore
import Hellfire.CondvarCore
import Hellfire.Condvar
import Hellfire.HeapLock
import Hellfire.FilterLock
import Hellfire.FilterBounds
import Hellfire.NocRoundTrip
import Hellfire.NocBytes
import Hellfire.NocDestroy
import Hellfire.NocOrder
import Hellfire.NocAck
import Hellfire.UhfsRegionRuns
import Hellfire.UhfsVolume
import Hellfire.UhfsAddresses
import Hellfire.UhfsNames
import Hellfire.UhfsEntries
import Hellfire.UhfsLookups
import Hellfire.UhfsVolumeRuns
import Hellfire.UhfsRoot
import Hellfire.UhfsWholePaths
import Hellfire.UhfsRenaming
import Hellfire.UhfsHeap
import Hellfire.UhfsReaddir
import Hellfire.RamdiskBlocks
import Hellfire.RamdiskBounds
import Hellfire.UdpRoundTrip
import Hellfire.ArpResolution
import Hellfire.FixedCore
import Hellfire.FixedProducts
import Hellfire.FixedQuotients
import Hellfire.FixedSqrt
import Hellfire.FrameBounds
import Hellfire.NetChecksums
import Hellfire.UdpTermination
import Hellfire.IcmpEcho
import Hellfire.ArpCache
import Hellfire.LinkDestinations
import Hellfire.UudpBuffers
import Hellfire.UudpDelivery
import Hellfire.UudpRetries
import Hellfire.UdpUpcalls
import Hellfire.UudpReception
import Hellfire.UudpAtomicity
import Hellfire.RiscvSim
import Hellfire.Selection
import Hellfire.PriorityTurns
import Hellfire.CpuLoad
import Hellfire.KillFrame
import Hellfire.DelayRuns
import Hellfire.ReloadAccounting
import Hellfire.HoleSearch
import Hellfire.AllocCalls
import Hellfire.PathCopies
import Hellfire.HeapAccounting
import Hellfire.ChunkRuns
import Hellfire.PoolRuns
import Hellfire.Wormhole
import Hellfire.MpsocMeshCore
import Hellfire.MpsocMeshRoutes
import Hellfire.MpsocMeshGrid
import Hellfire.MpsocMeshFlow
import Hellfire.MpsocMeshSteps
import Hellfire.MpsocMeshInterfaces
import Hellfire.MpsocMeshTurns
import Hellfire.MpsocMeshDelivery
import Hellfire.MpsocMeshProgress
import Hellfire.QueueTail
import Hellfire.ListPositions
import Hellfire.SoftIntCore
import Hellfire.SoftProducts
import Hellfire.SoftQuotients
import Hellfire.SoftShifts
import Hellfire.SoftFloatCore
import Hellfire.SoftFloatOrder
import Hellfire.SoftFloatCasts
import Hellfire.CrcBursts
import Hellfire.TextCore
import Hellfire.Itoa
import Hellfire.Strtol
import Hellfire.DecimalText
import Hellfire.FixedText
import Hellfire.MpsocMultiply
import Hellfire.HalDelays
import Hellfire.SystemTime
import Hellfire.KernelPrint
import Hellfire.Strtok
import Hellfire.SoftArithmeticCore
import Hellfire.SoftRatios
import Hellfire.SoftSums
import Hellfire.CacheCore
import Hellfire.CacheMapping
import Hellfire.CacheRuns
import Hellfire.SemaphoreTokens
import Hellfire.ReadersWriters
