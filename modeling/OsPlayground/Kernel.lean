/-
  File:      OsPlayground/Kernel.lean
  Subject:   THE CONSTANTS OF kernel.h. Addresses are 32-bit and kept as `Nat`; where the C++
             arithmetic can wrap, the wrap is written out as `% 2 ^ 32`.
-/
import Mathlib.Data.Nat.Bitwise

namespace OsPlayground

/-- `KERNEL_BASE`. -/
def kernelBase : Nat := 0xc0000000

/-- `PAGE_SIZE`. -/
def pageSize : Nat := 0x1000

/-- `PAGE_BLOCK_SIZE`, the 4 MiB one page table maps. -/
def pageBlockSize : Nat := 1024 * pageSize

/-- `PAGE_ADDR_NBITS`. -/
def pageAddrNbits : Nat := 12

/-- `NUM_PAGES`, the 4 KiB frames of the 32-bit physical address space. -/
def numPages : Nat := 1 <<< 20

/-- `KERNEL_VIRT_TO_PHYS`, an unsigned 32-bit subtraction. -/
def kernelVirtToPhys (addr : Nat) : Nat := (addr + 2 ^ 32 - kernelBase) % 2 ^ 32

/-- `addr & PAGE_MASK`: the low twelve bits cleared. -/
def pageMask (addr : Nat) : Nat := addr - addr % pageSize

/-- `VIRT_TO_PT_INDEX`. -/
def virtToPtIndex (addr : Nat) : Nat := (addr >>> pageAddrNbits) &&& 0x3ff

/-- `VIRT_TO_PD_INDEX`. -/
def virtToPdIndex (addr : Nat) : Nat := addr >>> 22

/-- `_kernel_start` of kernel.ld: the image is loaded at 1 MiB and linked `KERNEL_BASE` above. -/
def kernelStart : Nat := 0xc0100000

theorem virtToPtIndex_eq (addr : Nat) : virtToPtIndex addr = addr / 4096 % 1024 := by
  unfold virtToPtIndex
  rw [Nat.shiftRight_eq_div_pow]
  exact Nat.and_two_pow_sub_one_eq_mod _ 10

theorem virtToPdIndex_eq (addr : Nat) : virtToPdIndex addr = addr / 4194304 :=
  Nat.shiftRight_eq_div_pow addr 22

theorem kernelVirtToPhys_high {addr : Nat} (h : 0xc0000000 ≤ addr) (h' : addr < 2 ^ 32) :
    kernelVirtToPhys addr = addr - 0xc0000000 := by
  simp only [kernelVirtToPhys, kernelBase]
  omega

end OsPlayground
