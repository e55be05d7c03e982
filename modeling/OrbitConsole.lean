import OrbitConsole.Core.Kernel.SemaphoreOrder
import OrbitConsole.Core.Kernel.Deletion
import OrbitConsole.Core.Kernel.CondVarSpec
import OrbitConsole.Core.Kernel.ThreadStateSpec
import OrbitConsole.VideoCore.MemoryTrackerRuns
import OrbitConsole.VideoCore.RegionOps
import OrbitConsole.ShaderRecompiler.DeadCode
import OrbitConsole.VideoCore.StreamBufferSpec
import OrbitConsole.Core.FileFormat.PsfRoundTrip
import OrbitConsole.Core.Cpu.Execution
import OrbitConsole.Core.Kernel.EventFlagSpec
import OrbitConsole.ShaderRecompiler.BindingsSpec
import OrbitConsole.VideoCore.CacheStorageSpec
import OrbitConsole.VideoCore.CommandProcessorSpec
import OrbitConsole.VideoCore.ComputeRingSpec
import OrbitConsole.VideoCore.ConstantEngineSpec
import OrbitConsole.VideoCore.PacketAccessSpec
import OrbitConsole.VideoCore.TextureContentsSpec
import OrbitConsole.Core.Linker.TlsSpec
import OrbitConsole.VideoCore.CommandCopiesSpec
import OrbitConsole.Core.Ajm.BatchSpec
import OrbitConsole.Core.Memory.Placement
import OrbitConsole.Core.Memory.PoolDecommit
import OrbitConsole.Core.Kernel.SignalSpec
import OrbitConsole.Common.BitArraySpec
import OrbitConsole.VideoCore.RangeSetSpec
import OrbitConsole.ShaderRecompiler.PackedAncillary
import OrbitConsole.ShaderRecompiler.SharedMemoryBarrierRun
import OrbitConsole.ShaderRecompiler.GcnDecodeSpec
import OrbitConsole.ShaderRecompiler.SharedMemorySimplifyRun
import OrbitConsole.Common.SlotVectorSpec
import OrbitConsole.Core.Fiber.StackMargin
import OrbitConsole.Core.Kernel.EqueueSpec
import OrbitConsole.Core.Kernel.TimedWait
import OrbitConsole.Core.Kernel.OnceSpec
import OrbitConsole.Core.Kernel.SpecificSpec
import OrbitConsole.Core.Rtc.DateStringSpec
import OrbitConsole.Core.Network.PathSweepSpec
import OrbitConsole.Core.Network.ResponseHeaderSpec
import OrbitConsole.Core.Cpu.RunSpec
import OrbitConsole.Core.Cpu.SseSpec
import OrbitConsole.VideoCore.ImageLookupSpec
import OrbitConsole.ShaderRecompiler.LowerFp64Spec
import OrbitConsole.ShaderRecompiler.LowerFp64Pass
import OrbitConsole.Common.LruCacheSpec
import OrbitConsole.VideoCore.PipelineWarmUpSpec
import OrbitConsole.VideoCore.DynamicStateSpec
import OrbitConsole.ShaderRecompiler.BufferAddressSpec
import OrbitConsole.ShaderRecompiler.SharedMemoryToStorageSpec
import OrbitConsole.Common.RangeLock
import OrbitConsole.Core.Memory.VirtualQuery
import OrbitConsole.VideoCore.ResourcePool
