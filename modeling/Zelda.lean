import Zelda.Lib.Effect
import Zelda.Lib.Bytes
import Zelda.Lib.BinarySearch
import Zelda.Lib.X86
import Zelda.Vmm.Hart
import Zelda.Vmm.Devices
import Zelda.Vmm.Vm
import Zelda.Vmm.Templates
import Zelda.Vmm.TranslationCache
import Zelda.Vmm.Trap
import Zelda.Vmm.Mmu
import Zelda.Vmm.Decoding
import Zelda.Vmm.Csr
import Zelda.Vmm.Interrupt
import Zelda.Vmm.Amo
import Zelda.Vmm.Privileged
import Zelda.Vmm.Translators
import Zelda.Vmm.Translation
import Zelda.Vmm.Init
import Zelda.Proofs.MappingArray
import Zelda.Proofs.PageWalk
import Zelda.Proofs.Frames
import Zelda.Proofs.TlbAgreement
import Zelda.Lib.X86Rules
import Zelda.Proofs.Callees
import Zelda.Proofs.Prefetch
import Zelda.Proofs.AddressSpace
import Zelda.Proofs.FetchFaults
import Zelda.Proofs.FallThrough
import Zelda.Lib.Bits
import Zelda.Isa.Rv32i
import Zelda.Proofs.Templates
import Zelda.Proofs.Decode
import Zelda.Proofs.Instructions
import Zelda.Isa.Rv32m
import Zelda.Proofs.MulDiv
import Zelda.Proofs.MemoryTemplates
import Zelda.Lib.Arbiter
import Zelda.Proofs.PlicRouting
import Zelda.Proofs.PlicClaims
import Zelda.Lib.Ring
import Zelda.Proofs.ConsoleInput
import Zelda.Lib.BubbleSort
import Zelda.Proofs.RegionTable
import Zelda.Isa.Sv32
import Zelda.Proofs.Sv32Walk
import Zelda.Proofs.Runs
import Zelda.Proofs.TrapNesting
import Zelda.Proofs.InterruptSelection
import Zelda.Proofs.CsrAccess
import Zelda.Proofs.CsrViews
import Zelda.Proofs.DataAccess
import Zelda.Proofs.LittleEndian
import Zelda.Proofs.RegionBounds
import Zelda.Isa.Encodings
import Zelda.Proofs.Dispatch
import Zelda.Firmware.Printk
import Zelda.Firmware.Sbi
import Zelda.Firmware.Entry
import Zelda.Proofs.SbiCalls
import Zelda.Proofs.TimerTicks
import Zelda.Proofs.TrapFrame
import Zelda.Proofs.TrapVector
import Zelda.Proofs.MemoryInstructions
import Zelda.Proofs.FaultCauses
import Zelda.Proofs.PreciseTraps
import Zelda.Proofs.CsrInstructions
import Zelda.Proofs.PrivilegeLevels
import Zelda.Proofs.PrefetchProgress
import Zelda.Lib.ByteBuffer
import Zelda.Vmm.CString
import Zelda.Vmm.Fdt
import Zelda.Proofs.DeviceTree
import Zelda.Proofs.IpiDoorbells
import Zelda.Proofs.PrivilegeIsolation
import Zelda.Vmm.ArrayMacros
import Zelda.Proofs.ArrayMacros
import Zelda.Vmm.Breakpoints
import Zelda.Proofs.BreakpointSet
import Zelda.Isa.Formats
import Zelda.Proofs.OperandDecoding
import Zelda.Proofs.TimerReprogramming
import Zelda.Proofs.VirtualClock
import Zelda.Proofs.AtomicAliasing
import Zelda.Proofs.ZeroRegister
import Zelda.Proofs.AlignedPc
import Zelda.Proofs.Reservations
import Zelda.Proofs.Interpreter
import Zelda.Proofs.BinaryTranslation
import Zelda.Lib.Sha1
import Zelda.Firmware.Sha1
import Zelda.Proofs.Sha1
import Zelda.Vmm.Ini
import Zelda.Proofs.IniFile
import Zelda.Proofs.IniLookup
import Zelda.Proofs.IniSafety
import Zelda.Proofs.IniSplit
import Zelda.Vmm.FdtNodes
import Zelda.Proofs.TreeRefusal
import Zelda.Proofs.MachineTree
import Zelda.Proofs.TreeReferences
import Zelda.Isa.Rv32im
import Zelda.Proofs.UserPrograms
import Zelda.Lib.Digits
import Zelda.Proofs.Printk
import Zelda.Vmm.BootInfo
import Zelda.Firmware.Boot
import Zelda.Proofs.Boot
