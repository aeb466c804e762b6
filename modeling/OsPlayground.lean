import OsPlayground.Library.Loop
import OsPlayground.Library.Exec
import OsPlayground.Library.Bits
import OsPlayground.Library.Linked
import OsPlayground.Library.Logged
import OsPlayground.Library.Ring
import OsPlayground.Library.Pic
import OsPlayground.Library.Icw
import OsPlayground.Library.Paging
import OsPlayground.Library.Halting
import OsPlayground.Library.Bytes
import OsPlayground.Library.Uart
import OsPlayground.Kernel
import OsPlayground.Keyboard.State
import OsPlayground.Keyboard.Tracking
import OsPlayground.Keyboard.Codes
import OsPlayground.Keyboard.Modifiers
import OsPlayground.PhysMem.Alloc
import OsPlayground.PhysMem.Blocks
import OsPlayground.PhysMem.Frames
import OsPlayground.PhysMem.Mmap
import OsPlayground.PhysMem.Intake
import OsPlayground.PhysMem.RealRam
import OsPlayground.PhysMem.Complete
import OsPlayground.PhysMem.Leaks
import OsPlayground.PhysMem.Reflects
import OsPlayground.Heap.Alloc
import OsPlayground.Heap.Parts
import OsPlayground.Heap.Safety
import OsPlayground.Heap.Calls
import OsPlayground.Heap.Lists
import OsPlayground.Heap.Slabs
import OsPlayground.Vga.Terminal
import OsPlayground.Vga.Settings
import OsPlayground.Vga.Ring
import OsPlayground.Vga.Shell
import OsPlayground.Vga.Typing
import OsPlayground.Stdlib.Printf
import OsPlayground.Stdlib.Numbers
import OsPlayground.Stdlib.Directives
import OsPlayground.Stdlib.Checked
import OsPlayground.Stdlib.Verbatim
import OsPlayground.Stdlib.Widths
import OsPlayground.Stdlib.Decode
import OsPlayground.Stdlib.Scan
import OsPlayground.Serial.Port
import OsPlayground.Serial.Wire
import OsPlayground.Vga.Display
import OsPlayground.Interrupt.Lines
import OsPlayground.Interrupt.Blocking
import OsPlayground.Interrupt.Reprogram
import OsPlayground.Interrupt.Gates
import OsPlayground.Interrupt.Input
import OsPlayground.Interrupt.Drains
import OsPlayground.VirtMem.Image
import OsPlayground.VirtMem.Setup
import OsPlayground.VirtMem.AddressSpace
import OsPlayground.VirtMem.Alloc
import OsPlayground.VirtMem.Scan
import OsPlayground.VirtMem.Paged
import OsPlayground.VirtMem.Shape
import OsPlayground.VirtMem.Search
import OsPlayground.VirtMem.Stable
import OsPlayground.VirtMem.Contract
import OsPlayground.VirtMem.Reserved
import OsPlayground.VirtMem.Pointers
import OsPlayground.VirtMem.Identity
import OsPlayground.Heap.Pages
import OsPlayground.Heap.Chunks
import OsPlayground.Heap.Mapping
import OsPlayground.Heap.Builds
import OsPlayground.Heap.Failing
import OsPlayground.Heap.Window
import OsPlayground.Heap.Machine
import OsPlayground.Heap.Program
import OsPlayground.Startup.Log
import OsPlayground.Startup.EarlyMain
import OsPlayground.Startup.Intake
import OsPlayground.Startup.Reads
import OsPlayground.Startup.Boots
import OsPlayground.Startup.Report
import OsPlayground.Boot.Print
import OsPlayground.Boot.Keys
