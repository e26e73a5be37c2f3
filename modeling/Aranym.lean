import Aranym.Cpu.Theorems
import Aranym.Jit.Theorems
import Aranym.Jit.Reuse
import Aranym.Natfeat.Roundtrip
import Aranym.Config.Theorems
import Aranym.Ethernet.Theorems
import Aranym.Hostfs.Theorems
import Aranym.Hostfs.Transfers
import Aranym.Cpu.Arithmetic
import Aranym.Cpu.Faults
import Aranym.Mmu.TableSearch
import Aranym.Mmu.Registers
import Aranym.Mmu.Faults
import Aranym.Mmu.Roundtrip
import Aranym.Dsp.Theorems
import Aranym.Cpu.Division
import Aranym.Cpu.Bounds
import Aranym.Cpu.BitFields
import Aranym.Mfp.Edges
import Aranym.Mfp.TimerC
import Aranym.Dsp.Modulo
import Aranym.Dsp.BitReverse
import Aranym.Dsp.Limiting
import Aranym.Dsp.Vectors
import Aranym.Dsp.Repeat
import Aranym.Dsp.HostPort
import Aranym.Ikbd.Motion
import Aranym.Fdc.Theorems
import Aranym.Vdi.Blit
import Aranym.Vdi.Trace
import Aranym.Config.Files
import Aranym.Audio.Dma
import Aranym.Mmu.Refills
import Aranym.Audio.Position
