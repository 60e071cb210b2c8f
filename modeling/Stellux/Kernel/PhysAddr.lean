import Mathlib.Algebra.Group.Nat.Defs
import Mathlib.Data.List.Basic

/-!
# Physical and virtual addresses of the kernel

`paging/phys_addr_translation.cpp`: the kernel reaches physical memory through a
window that starts at the link address of the image. Addresses are natural
numbers below `2 ^ 64`; the pointer arithmetic of the source wraps.
-/

namespace Stellux.Kernel

/-- `PAGE_SIZE` of `page_frame_allocator.h`. -/
def PAGE_SIZE : Nat := 0x1000

/-- The address of `__ksymstart`, where `kstellux.ld` links the kernel. -/
def KERNEL_VIRTUAL_BASE : Nat := 0xffffffff80000000

/-- `physToVirtAddr`, spelled `__va` in the source. The parameter stands for the
    global `__kern_phys_base`, which the kernel sets once at entry. -/
def physToVirtAddr (kernPhysBase paddr : Nat) : Nat :=
  (paddr + (KERNEL_VIRTUAL_BASE + 2 ^ 64 - kernPhysBase)) % 2 ^ 64

/-- `virtToPhysAddr`, spelled `__pa` in the source. -/
def virtToPhysAddr (kernPhysBase vaddr : Nat) : Nat :=
  (vaddr + 2 ^ 64 - (KERNEL_VIRTUAL_BASE + 2 ^ 64 - kernPhysBase) % 2 ^ 64) % 2 ^ 64

theorem virtToPhysAddr_lt (kernPhysBase vaddr : Nat) :
    virtToPhysAddr kernPhysBase vaddr < 2 ^ 64 :=
  Nat.mod_lt _ (by decide)

/-- `__pa` undoes `__va` on 64-bit addresses, also where `__va` wraps. -/
theorem virtToPhysAddr_physToVirtAddr (kernPhysBase paddr : Nat)
    (hp : paddr < 2 ^ 64) :
    virtToPhysAddr kernPhysBase (physToVirtAddr kernPhysBase paddr) = paddr := by
  simp only [virtToPhysAddr, physToVirtAddr, KERNEL_VIRTUAL_BASE]
  omega

/-- `__va` undoes `__pa`. -/
theorem physToVirtAddr_virtToPhysAddr {kernPhysBase vaddr : Nat} (hbase : kernPhysBase < 2 ^ 64)
    (hv : vaddr < 2 ^ 64) :
    physToVirtAddr kernPhysBase (virtToPhysAddr kernPhysBase vaddr) = vaddr := by
  simp only [virtToPhysAddr, physToVirtAddr, KERNEL_VIRTUAL_BASE]
  omega

end Stellux.Kernel
