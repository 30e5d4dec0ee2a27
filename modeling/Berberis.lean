import Berberis.Assembler.RiscvImmediates
import Berberis.Assembler.X86MemoryOperand
import Berberis.Backend.ConstantFolding
import Berberis.Backend.LifetimeAnalysisCorrectness
import Berberis.Backend.NaturalLoops
import Berberis.Backend.RegAllocCorrectness
import Berberis.Backend.RemoveDeadCode
import Berberis.Backend.RemoveRedundantPut
import Berberis.Backend.RenameCopyUses
import Berberis.Backend.WriteFlagsFolding
import Berberis.GuestOsPrimitives.GuestMapShadow
import Berberis.GuestOsPrimitives.PendingSignalsProtocol
import Berberis.HeavyOptimizer.ResolveJumps
import Berberis.Interpreter.Arm64.CryptoAes
import Berberis.Interpreter.Arm64.Flags
import Berberis.Interpreter.Arm64.PreciseFaults
import Berberis.Interpreter.Arm64.SimdSaturation
import Berberis.Interpreter.Riscv64.VectorMemoryFaults
import Berberis.Interpreter.Riscv64.VectorRegisterRange
import Berberis.KernelApi.SysMmanEmulation
import Berberis.LiteTranslator.Crc32
import Berberis.LiteTranslator.LoongArchXCacheCorrectness
import Berberis.LiteTranslator.X86RegisterCache
import Berberis.RuntimePrimitives.GuestCodeRegionEdges
import Berberis.RuntimePrimitives.MemoryRegionReservation
import Berberis.RuntimePrimitives.SignalQueue
import Berberis.RuntimePrimitives.TranslationCacheInvalidation
import Berberis.TinyLoader.LoadSegments
import Berberis.TinyLoader.TinySymbolTable
