import Stellux.Spec.AlignedAllocation
import Stellux.Spec.HeapContents

/-!
# Device contexts

`_createDeviceContext` puts the physical address of a fresh block into the array of device
contexts. The block comes from the heap as its last owner left it, and the call that should
clear it is given the size of a variable.

## Key results

- `allocate_block`: where a block lies, and what `allocate` leaves as it was
- `allocXhciMemory_block`: the same for memory of the controller
- `device_context_clean_iff`: a published context is clean exactly when the block was zero
  behind its first eight bytes
-/

namespace Stellux.Kernel

open Function
open Stellux.Util Stellux.Driver HeapSegmentHeader Tile DynamicMemoryAllocator

variable {h : DynamicMemoryAllocator} {m m₁ : Mem} {segs : List Segment} {n : Nat}

/-- A block is cut from the first free segment with room; its bytes and everything outside
    of the segment stay as they were. -/
theorem allocate_block (hw : HeapWellFormed h m segs) (hn : n + 2 * sizeofHeader < 2 ^ 64)
    (hne : (h.allocate m n).1 ≠ 0) :
    ∃ t, firstFit segs (searchSize n) = some t ∧ (h.allocate m n).1 = t.start + sizeofHeader ∧
      n + 2 * sizeofHeader ≤ t.size ∧
      ∀ x, (x < t.start ∨ (t.start + sizeofHeader ≤ x ∧ x < t.start + sizeofHeader + n) ∨
        t.start + t.size ≤ x) → (h.allocate m n).2 x = m x := by
  have hsearch := searchSize_of_lt hn
  cases hfit : firstFit segs (searchSize n) with
  | none =>
    rw [allocate_of_firstFit_none hw hfit] at hne
    exact absurd rfl hne
  | some t =>
    by_cases hyes : AcceptsSplit (searchSize n) t
    · obtain ⟨ht, -, hle⟩ := mem_of_firstFit hfit
      have htb := hw.chain.bounds hw.placed ht
      rw [hsearch] at hle
      refine ⟨t, rfl, ?_, hle, ?_⟩
      · rw [allocate_of_accepted hw hfit hyes]
        exact Nat.mod_eq_of_lt (by rw [sizeofHeader] at *; omega)
      · exact fun x hx => allocate_of_outside hw hn hfit hyes hx
    · rw [allocate_of_refused hw hfit hyes] at hne
      exact absurd rfl hne

theorem originalBlock_ne_zero {size alignment : Nat}
    (hlt : size + alignment + sizeofPointer < 2 ^ 64)
    (hne : (kmallocAligned h m size alignment).1 ≠ 0) : originalBlock h m size alignment ≠ 0 := by
  intro hnull
  apply hne
  rw [originalBlock, ← Nat.mod_eq_of_lt hlt] at hnull
  simp only [kmallocAligned, hnull, if_true]

/-- An aligned block lies in the first free segment with room and has the contents that it
    had before. Nothing outside of the segment changes. -/
theorem kmallocAligned_block (hw : HeapWellFormed h m segs) {size alignment : Nat}
    (hlt : size + alignment + sizeofPointer + 2 * sizeofHeader < 2 ^ 64)
    (hne : (kmallocAligned h m size alignment).1 ≠ 0) :
    ∃ t, firstFit segs (searchSize (size + alignment + sizeofPointer)) = some t ∧
      (kmallocAligned h m size alignment).1 =
        alignDown (t.start + sizeofHeader + (alignment + sizeofPointer)) alignment ∧
      t.start + sizeofHeader + sizeofPointer ≤ (kmallocAligned h m size alignment).1 ∧
      (kmallocAligned h m size alignment).1 + size ≤ t.start + t.size ∧
      ∀ x, (((kmallocAligned h m size alignment).1 ≤ x ∧
          x < (kmallocAligned h m size alignment).1 + size) ∨ x < t.start ∨
          t.start + t.size ≤ x) → (kmallocAligned h m size alignment).2 x = m x := by
  obtain ⟨t, hfit, hstart, hsegment, hframe⟩ :=
    allocate_block hw hlt (originalBlock_ne_zero (by omega) hne)
  have htb := hw.chain.bounds hw.placed (mem_of_firstFit hfit).1
  have hinside := kmallocAligned_inside (by omega) hne (by
    rw [originalBlock, kmalloc, hstart]
    omega)
  obtain ⟨haddr, hmem⟩ := Prod.ext_iff.mp (kmallocAligned_eq (by omega) hne)
  rw [originalBlock, kmalloc, hstart] at hinside haddr
  generalize (kmallocAligned h m size alignment).1 = p at hinside haddr hmem ⊢
  refine ⟨t, hfit, haddr, by omega, by omega, fun x hx => ?_⟩
  -- the pointer to the block is in front of the aligned address
  have hback : backPointer p = p - sizeofPointer := by
    rw [backPointer, sizeofPointer] at *
    omega
  rw [hmem, hback]
  refine (Mem.writeBytes_of_outside _ _ _ _ _ (by omega)).trans ?_
  exact hframe x (by omega)

/-- What `_allocXhciMemory` returns comes from a block of `kmallocAligned`. -/
theorem allocXhciMemory_some {size alignment boundary a : Nat} (hlt : size + boundary - 1 < 2 ^ 64)
    (hpos : 0 < boundary) (hr : allocXhciMemory h m size alignment boundary = some (a, m₁)) :
    (kmallocAligned h m (size + boundary - 1) alignment).1 ≠ 0 ∧
      a = alignDown (((kmallocAligned h m (size + boundary - 1) alignment).1 + boundary +
        2 ^ 64 - 1) % 2 ^ 64) boundary ∧
      m₁ = (kmallocAligned h m (size + boundary - 1) alignment).2 := by
  have hne : (kmallocAligned h m (size + boundary - 1) alignment).1 ≠ 0 := by
    intro hnull
    have htotal : (size + boundary + 2 ^ 64 - 1) % 2 ^ 64 = size + boundary - 1 := by omega
    simp only [allocXhciMemory, htotal, hnull, if_true] at hr
    cases hr
  rw [allocXhciMemory_eq hlt hpos hne, Option.some.injEq, Prod.mk.injEq] at hr
  exact ⟨hne, hr.1.symm, hr.2.symm⟩

/-- The same for memory of the controller, which is rounded up to the boundary. -/
theorem allocXhciMemory_block (hw : HeapWellFormed h m segs) {size alignment k a : Nat}
    (hsize : 0 < size)
    (hlt : size + 2 ^ k - 1 + alignment + sizeofPointer + 2 * sizeofHeader < 2 ^ 64)
    (hr : allocXhciMemory h m size alignment (2 ^ k) = some (a, m₁)) :
    ∃ t p, firstFit segs (searchSize (size + 2 ^ k - 1 + alignment + sizeofPointer)) = some t ∧
      p = alignDown (t.start + sizeofHeader + (alignment + sizeofPointer)) alignment ∧
      t.start + sizeofHeader + sizeofPointer ≤ p ∧ p ≤ a ∧ a < p + 2 ^ k ∧ 2 ^ k ∣ a ∧
      a + size ≤ t.start + t.size ∧
      ∀ x, ((a ≤ x ∧ x < a + size) ∨ x < t.start ∨ t.start + t.size ≤ x) → m₁ x = m x := by
  have hpos := Nat.two_pow_pos k
  obtain ⟨hne, ha, rfl⟩ := allocXhciMemory_some (by omega) hpos hr
  obtain ⟨t, hfit, haddr, hlo, hhi, hframe⟩ := kmallocAligned_block hw hlt hne
  have htb := hw.chain.bounds hw.placed (mem_of_firstFit hfit).1
  generalize (kmallocAligned h m (size + 2 ^ k - 1) alignment).1 = p at ha haddr hlo hhi hframe
  obtain ⟨hdvd, hroom⟩ := alignUp_spec (show 2 ^ k < 2 ^ 64 by omega)
    (show p + (size + 2 ^ k - 1) ≤ 2 ^ 64 by omega)
  rw [← ha] at hdvd hroom
  have hroom := hroom hsize
  exact ⟨t, p, hfit, haddr, hlo, hroom.1, by omega, hdvd, by omega,
    fun x hx => hframe x (by omega)⟩

/-- The bytes that `_allocXhciMemory` asks of the heap. -/
def controllerRequest (size alignment boundary : Nat) : Nat :=
  ((size + boundary + 2 ^ 64 - 1) % 2 ^ 64 + alignment + sizeofPointer) % 2 ^ 64

/-- Where `_allocXhciMemory` puts the block that it cuts from a segment. -/
def controllerAddress (t : Segment) (alignment boundary : Nat) : Nat :=
  alignDown ((alignDown (t.start + sizeofHeader + (alignment + sizeofPointer)) alignment +
    boundary + 2 ^ 64 - 1) % 2 ^ 64) boundary

/-- For every size, also where the sums wrap, the address is given by the first free segment
    with room. -/
theorem allocXhciMemory_address (hw : HeapWellFormed h m segs) {size alignment boundary a : Nat}
    (hr : allocXhciMemory h m size alignment boundary = some (a, m₁)) :
    ∃ t, firstFit segs (searchSize (controllerRequest size alignment boundary)) = some t ∧
      a = controllerAddress t alignment boundary := by
  rw [allocXhciMemory, kmallocAligned, ← controllerRequest, kmalloc] at hr
  cases hfit : firstFit segs (searchSize (controllerRequest size alignment boundary)) with
  | none =>
    rw [allocate_of_firstFit_none hw hfit] at hr
    cases hr
  | some t =>
    refine ⟨t, rfl, ?_⟩
    by_cases hyes : AcceptsSplit (searchSize (controllerRequest size alignment boundary)) t
    · have htb := hw.chain.bounds hw.placed (mem_of_firstFit hfit).1
      rw [allocate_of_accepted hw hfit hyes] at hr
      dsimp only at hr
      split at hr
      · cases hr
      · rename_i hne
        rw [Nat.mod_eq_of_lt (by omega)] at hr
        obtain ⟨-, heq⟩ := Option.ite_none_left_eq_some.mp hr
        exact (Prod.mk.inj (Option.some.inj heq)).1.symm
    · rw [allocate_of_refused hw hfit hyes] at hr
      cases hr

/-- A segment that the split accepts is granted. -/
theorem allocXhciMemory_granted (hw : HeapWellFormed h m segs) {size alignment boundary : Nat}
    {t : Segment}
    (hfit : firstFit segs (searchSize (controllerRequest size alignment boundary)) = some t)
    (hyes : AcceptsSplit (searchSize (controllerRequest size alignment boundary)) t)
    (hend : t.start + sizeofHeader < 2 ^ 64)
    (hne : alignDown (t.start + sizeofHeader + (alignment + sizeofPointer)) alignment ≠ 0) :
    ∃ m₁, allocXhciMemory h m size alignment boundary =
      some (controllerAddress t alignment boundary, m₁) := by
  have htb := hw.chain.bounds hw.placed (mem_of_firstFit hfit).1
  rw [allocXhciMemory, kmallocAligned, ← controllerRequest, kmalloc,
    allocate_of_accepted hw hfit hyes, Nat.mod_eq_of_lt hend]
  dsimp only
  rw [if_neg (show t.start + sizeofHeader ≠ 0 by omega)]
  dsimp only
  rw [if_neg hne]
  exact ⟨_, rfl⟩

/-! ## Publication -/

/-- The bytes that are asked of the heap for one device context. -/
def contextRequest (is64ByteContextSize : Bool) : Nat :=
  deviceContextSize is64ByteContextSize + (XHCI_DEVICE_CONTEXT_BOUNDARY - 1) +
    XHCI_DEVICE_CONTEXT_ALIGNMENT + sizeofPointer

/-- The first page behind the header of a segment and a pointer. -/
def contextAddress (t : Segment) : Nat :=
  (t.start + sizeofHeader + sizeofPointer) / PAGE_SIZE * PAGE_SIZE + PAGE_SIZE

/-- A device context begins at the first page in the first free segment with room. -/
theorem deviceContext_block (hw : HeapWellFormed h m segs) {is64ByteContextSize : Bool} {ctx : Nat}
    (hr : allocXhciMemory h m (deviceContextSize is64ByteContextSize)
      XHCI_DEVICE_CONTEXT_ALIGNMENT XHCI_DEVICE_CONTEXT_BOUNDARY = some (ctx, m₁)) :
    ∃ t, firstFit segs (searchSize (contextRequest is64ByteContextSize)) = some t ∧
      ctx = contextAddress t ∧ t.start + sizeofHeader ≤ ctx ∧
      ctx + deviceContextSize is64ByteContextSize ≤ t.start + t.size ∧
      ∀ x, ((ctx ≤ x ∧ x < ctx + deviceContextSize is64ByteContextSize) ∨ x < t.start ∨
        t.start + t.size ≤ x) → m₁ x = m x := by
  have hsize : 0 < deviceContextSize is64ByteContextSize ∧
      deviceContextSize is64ByteContextSize ≤ 2048 := by
    cases is64ByteContextSize <;> decide
  have hlt : deviceContextSize is64ByteContextSize + 2 ^ 12 - 1 + 2 ^ 6 + sizeofPointer +
      2 * sizeofHeader < 2 ^ 64 := by
    rw [sizeofPointer, sizeofHeader]
    omega
  have hr' : allocXhciMemory h m (deviceContextSize is64ByteContextSize) (2 ^ 6) (2 ^ 12) =
      some (ctx, m₁) := hr
  obtain ⟨t, p, hfit, hp, hlo, hle, hup, hdvd, hhi, hframe⟩ :=
    allocXhciMemory_block hw hsize.1 hlt hr'
  have htb := hw.chain.bounds hw.placed (mem_of_firstFit hfit).1
  refine ⟨t, hfit, ?_, by omega, hhi, hframe⟩
  have hx : t.start + sizeofHeader + (2 ^ 6 + sizeofPointer) < 2 ^ 64 := by
    rw [sizeofPointer, sizeofHeader] at *
    omega
  have hdown := alignDown_le hx (2 ^ 6)
  have hnext := le_alignDown hx (by decide) (show 2 ^ 6 < 2 ^ 64 by decide)
  have hmul := dvd_alignDown (t.start + sizeofHeader + (2 ^ 6 + sizeofPointer))
    (show 2 ^ 6 < 2 ^ 64 by decide)
  rw [← hp] at hdown hnext hmul
  -- between the pointer and the page there is at most one multiple of the alignment
  rw [contextAddress, PAGE_SIZE]
  omega

/-- The array of device contexts: entries of eight bytes in a block that is in use. -/
structure DcbaaPlaced (segs : List Segment) (dcbaa entries : Nat) : Prop where
  block : ∃ u ∈ segs, u.isFree = false ∧ u.start + sizeofHeader ≤ dcbaa ∧
    dcbaa + 8 * entries ≤ u.start + u.size

/-- From `m` to `m'` the entry of a slot has got the physical address of a clean block of
    `size` bytes, and the other entries are as they were. -/
structure PublishesClean (kbase : Nat) (segs : List Segment) (dcbaa entries slotId size : Nat)
    (m m' : Mem) : Prop where
  /-- The bytes behind the address come from a free segment. -/
  block : ∃ t ∈ segs, t.isFree = true ∧
    t.start + sizeofHeader ≤ physToVirtAddr kbase (m'.readBytes (dcbaa + 8 * slotId) 8) ∧
    physToVirtAddr kbase (m'.readBytes (dcbaa + 8 * slotId) 8) + size ≤ t.start + t.size
  aligned : PAGE_SIZE ∣ m'.readBytes (dcbaa + 8 * slotId) 8
  /-- No page boundary lies inside. -/
  inPage : ∀ j, m'.readBytes (dcbaa + 8 * slotId) 8 < PAGE_SIZE * j →
    m'.readBytes (dcbaa + 8 * slotId) 8 + size ≤ PAGE_SIZE * j
  zero : ∀ i, i < size → m' (physToVirtAddr kbase (m'.readBytes (dcbaa + 8 * slotId) 8) + i) = 0
  others : ∀ i, i < entries → i ≠ slotId →
    m'.readBytes (dcbaa + 8 * i) 8 = m.readBytes (dcbaa + 8 * i) 8

/-- The two views of an address differ by a multiple of the page size. -/
theorem dvd_virtToPhysAddr {kbase vaddr : Nat} (hbase : kbase < 2 ^ 64)
    (hpage : PAGE_SIZE ∣ kbase) (hv : PAGE_SIZE ∣ vaddr) :
    PAGE_SIZE ∣ virtToPhysAddr kbase vaddr := by
  simp only [virtToPhysAddr, KERNEL_VIRTUAL_BASE, PAGE_SIZE] at *
  omega

/-- What `_createDeviceContext` leaves in memory: the first eight bytes of the context are
    cleared, the others stay, and one entry of the array is written. -/
theorem createDeviceContext_spec {kbase : Nat} (hw : HeapWellFormed h m segs)
    {dcbaa entries : Nat} (hdcbaa : DcbaaPlaced segs dcbaa entries) {is64ByteContextSize : Bool}
    {slotId : BitVec 8} (hslot : slotId.toNat < entries) {m' : Mem}
    (hr : createDeviceContext kbase h m dcbaa is64ByteContextSize slotId = some m') :
    ∃ t, firstFit segs (searchSize (contextRequest is64ByteContextSize)) = some t ∧
      t.start + sizeofHeader ≤ contextAddress t ∧
      contextAddress t + deviceContextSize is64ByteContextSize ≤ t.start + t.size ∧
      m'.readBytes (dcbaa + 8 * slotId.toNat) 8 = virtToPhysAddr kbase (contextAddress t) ∧
      (∀ i, i < deviceContextSize is64ByteContextSize →
        m' (contextAddress t + i) = if i < 8 then 0 else m (contextAddress t + i)) ∧
      ∀ i, i < entries → i ≠ slotId.toNat →
        m'.readBytes (dcbaa + 8 * i) 8 = m.readBytes (dcbaa + 8 * i) 8 := by
  rw [createDeviceContext, Option.map_eq_some_iff] at hr
  obtain ⟨⟨ctx, m₁⟩, halloc, hm'⟩ := hr
  obtain ⟨t, hfit, hctx, hlo, hhi, hframe⟩ := deviceContext_block hw halloc
  obtain ⟨ht, htfree, -⟩ := mem_of_firstFit hfit
  have htb := hw.chain.bounds hw.placed ht
  obtain ⟨u, hu, hufree, hulo, huhi⟩ := hdcbaa.block
  have hub := hw.chain.bounds hw.placed hu
  -- the array is not in the segment that the context is cut from
  have hsep := hw.chain.covers.separate ht hu (by
    rintro rfl
    rw [htfree] at hufree
    cases hufree)
  have hsize : 8 ≤ deviceContextSize is64ByteContextSize := by
    cases is64ByteContextSize <;> decide
  rw [sizeofHeader] at hlo hulo
  dsimp only at hm'
  rw [if_neg (by omega)] at hm'
  have hclear := memset_apply m₁ 0 (show ctx + sizeofDeviceContextSize ≤ 2 ^ 64 by
    rw [sizeofDeviceContextSize]
    omega)
  rw [zeromem, sizeofDeviceContextSize] at hm'
  rw [sizeofDeviceContextSize] at hclear
  subst hm'
  refine ⟨t, hfit, ?_⟩
  rw [← hctx]
  refine ⟨hlo, hhi, ?_, ?_, ?_⟩
  · rw [Mem.readBytes_writeBytes_self, Nat.mod_eq_of_lt]
    exact virtToPhysAddr_lt _ _
  · intro i hi
    rw [Mem.writeBytes_of_outside _ _ _ _ _ (by omega), hclear, hframe _ (by omega)]
    simp only [Nat.le_add_right, Nat.add_lt_add_iff_left, true_and]
  · intro i hi hne
    rw [Mem.readBytes_writeBytes_disjoint _ (by omega)]
    apply Mem.readBytes_congr
    intro x hxlo hxhi
    rw [hclear, if_neg (by omega), hframe x (by omega)]

/-- **Device contexts**: on every well-formed heap with any contents, for both sizes of a
    context and every slot that has an entry in the array: the publication of a context is
    clean exactly when the memory that it is cut from was zero before, behind the first eight
    bytes. -/
theorem device_context_clean_iff (kbase : Nat) (h : DynamicMemoryAllocator) (m : Mem)
    (segs : List Segment) (hw : HeapWellFormed h m segs) (hbase : kbase < 2 ^ 64)
    (hpage : PAGE_SIZE ∣ kbase) (dcbaa entries : Nat)
    (hdcbaa : DcbaaPlaced segs dcbaa entries) (is64ByteContextSize : Bool) (slotId : BitVec 8)
    (hslot : slotId.toNat < entries) (m' : Mem)
    (hr : createDeviceContext kbase h m dcbaa is64ByteContextSize slotId = some m') :
    PublishesClean kbase segs dcbaa entries slotId.toNat
        (deviceContextSize is64ByteContextSize) m m' ↔
      ∃ t, firstFit segs (searchSize (contextRequest is64ByteContextSize)) = some t ∧
        ∀ i, 8 ≤ i → i < deviceContextSize is64ByteContextSize → m (contextAddress t + i) = 0 := by
  obtain ⟨t, hfit, hlo, hhi, hentry, hbytes, hothers⟩ :=
    createDeviceContext_spec hw hdcbaa hslot hr
  obtain ⟨ht, htfree, -⟩ := mem_of_firstFit hfit
  have hend : contextAddress t < 2 ^ 64 := by
    have htb := hw.chain.bounds hw.placed ht
    have hsize : 0 < deviceContextSize is64ByteContextSize := by
      cases is64ByteContextSize <;> decide
    omega
  -- the published address leads back to the block
  have hva : physToVirtAddr kbase (m'.readBytes (dcbaa + 8 * slotId.toNat) 8) =
      contextAddress t := by
    rw [hentry]
    exact physToVirtAddr_virtToPhysAddr hbase hend
  have haligned : PAGE_SIZE ∣ m'.readBytes (dcbaa + 8 * slotId.toNat) 8 := by
    rw [hentry]
    apply dvd_virtToPhysAddr hbase hpage
    exact Nat.dvd_add (Nat.dvd_mul_left _ _) (Nat.dvd_refl _)
  constructor
  · intro hclean
    refine ⟨t, hfit, fun i hge hi => ?_⟩
    -- only the first eight bytes are cleared; the others are those of before
    have hzero := hclean.zero i hi
    rwa [hva, hbytes i hi, if_neg (by omega)] at hzero
  · rintro ⟨u, hu, hzero⟩
    -- the segment is the one of the allocation, since `firstFit` is a function
    obtain rfl : t = u := Option.some.inj (hfit.symm.trans hu)
    exact
      { block := ⟨t, ht, htfree, hva ▸ hlo, hva ▸ hhi⟩
        aligned := haligned
        inPage := by
          intro j hj
          obtain ⟨c, hc⟩ := haligned
          have hsize : deviceContextSize is64ByteContextSize ≤ PAGE_SIZE := by
            cases is64ByteContextSize <;> decide
          rw [PAGE_SIZE] at *
          omega
        zero := by
          intro i hi
          rw [hva, hbytes i hi]
          split
          · rfl
          · exact hzero i (by omega) hi
        others := hothers }

/-! ## A heap with stale contents -/

/-- A first segment with enough room is granted. -/
theorem createDeviceContext_granted (kbase dcbaa : Nat) (hw : HeapWellFormed h m segs)
    {is64ByteContextSize : Bool} (slotId : BitVec 8) {t : Segment}
    (hfit : firstFit segs (searchSize (contextRequest is64ByteContextSize)) = some t)
    (hyes : AcceptsSplit (searchSize (contextRequest is64ByteContextSize)) t) :
    ∃ m', createDeviceContext kbase h m dcbaa is64ByteContextSize slotId = some m' := by
  have htb := hw.chain.bounds hw.placed (mem_of_firstFit hfit).1
  have hroom := hyes.1
  have hsearch : 1024 ≤ searchSize (contextRequest is64ByteContextSize) := by
    cases is64ByteContextSize <;> decide
  have hend : t.start + sizeofHeader + (64 + 8) < 2 ^ 64 := by
    rw [sizeofHeader]
    omega
  have hnext := le_alignDown hend (show 0 < 64 by decide) (by decide)
  have hrequest : contextRequest is64ByteContextSize =
      controllerRequest (deviceContextSize is64ByteContextSize) XHCI_DEVICE_CONTEXT_ALIGNMENT
        XHCI_DEVICE_CONTEXT_BOUNDARY := by
    cases is64ByteContextSize <;> decide
  rw [hrequest] at hfit hyes
  obtain ⟨m₁, halloc⟩ := allocXhciMemory_granted hw hfit hyes (by omega) (by
    rw [XHCI_DEVICE_CONTEXT_ALIGNMENT, sizeofPointer]
    omega)
  rw [createDeviceContext, halloc]
  exact ⟨_, rfl⟩

/-- A heap of sixteen pages. -/
def contextHeap : DynamicMemoryAllocator := { heapSize := 65536, firstSegment := 4096 }

theorem placed_contextHeap : Placed contextHeap := ⟨by decide, by decide, by decide, by decide⟩

/-- The heap with an array of eight entries in front of free memory. -/
theorem contextHeap_granted (hw : HeapWellFormed contextHeap m segs)
    (hsegs : segs.map Segment.shape = [⟨4096, 96, 0, false⟩, ⟨4192, 65440, 4096, true⟩]) :
    DcbaaPlaced segs 4128 8 ∧
      ∃ t ∈ segs, t.start = 4192 ∧ t.size = 65440 ∧
        firstFit segs (searchSize (contextRequest true)) = some t ∧
        ∃ m', createDeviceContext 0 contextHeap m 4128 true 1 = some m' := by
  simp only [List.map_eq_cons_iff, List.map_eq_nil_iff] at hsegs
  obtain ⟨a, -, rfl, ha, t, -, rfl, ht, rfl⟩ := hsegs
  simp only [Segment.shape, Tile.mk.injEq] at ha ht
  have hfit : firstFit [a, t] (searchSize (contextRequest true)) = some t := by
    simp [firstFit, ha, ht]
    decide
  refine ⟨⟨a, by simp, ha.2.2.2, ?_, ?_⟩, t, by simp, ht.1, ht.2.1, hfit, ?_⟩
  · rw [ha.1]
    decide
  · rw [ha.1, ha.2.1]
  · apply createDeviceContext_granted 0 4128 hw 1 hfit
    rw [AcceptsSplit, ht.2.1]
    decide

/-- The array and a large block are allocated; a byte of the block is written and the block
    freed. -/
theorem contextHeap_stale :
    ∃ s segs, run (HeapState.step contextHeap) (HeapState.boot 0 HeapState.noFrames 4096 65536)
        [.allocate 64, .allocate 8192, .write 8200 1, .free 4224] = some s ∧
      HeapWellFormed contextHeap s.mem segs ∧
      segs.map Segment.shape = [⟨4096, 96, 0, false⟩, ⟨4192, 65440, 4096, true⟩] ∧
      s.mem 8200 = 1 := by
  -- before and after the write, by the list model of the heap
  obtain ⟨s₁, hrun, segs₁, hI₁, hsegs₁, hlive⟩ := ListHeap.run_refines placed_contextHeap
    (ListHeap.refines_boot 0 HeapState.noFrames placed_contextHeap)
    [.allocate 64, .allocate 8192]
    (show _ = some ⟨[⟨4096, 96, 0, false⟩, ⟨4192, 8224, 4096, false⟩, ⟨12416, 57216, 4192, true⟩],
      [(4224, 8192), (4128, 64)]⟩ by decide +kernel)
  obtain ⟨s, hfree, segs, hI, hsegs, -⟩ := ListHeap.run_refines placed_contextHeap
    ⟨segs₁, hI₁, hsegs₁, hlive⟩ [.write 8200 1, .free 4224]
    (show _ = some ⟨[⟨4096, 96, 0, false⟩, ⟨4192, 65440, 4096, true⟩], [(4128, 64)]⟩ by
      decide +kernel)
  -- the list model does not have the bytes, so the memory comes from the two steps
  have hmem : s.mem = DynamicMemoryAllocator.free (update s₁.mem 8200 1) 4224 := by
    obtain ⟨s₂, hwrite, hlast⟩ := Option.bind_eq_some_iff.mp hfree
    obtain ⟨s₃, hstep, hnil⟩ := Option.bind_eq_some_iff.mp hlast
    rw [run_nil, Option.some.injEq] at hnil
    rw [← hnil, ← Option.some.inj (Option.ite_none_right_eq_some.mp hstep).2,
      ← Option.some.inj (Option.ite_none_right_eq_some.mp hwrite).2, HeapState.perform,
      HeapState.perform]
  refine ⟨s, segs, ?_, ⟨placed_contextHeap, hI.chain, ?_⟩, hsegs, ?_⟩
  · have happend := run_append (HeapState.step contextHeap)
      (HeapState.boot 0 HeapState.noFrames 4096 65536) [.allocate 64, .allocate 8192]
      [.write 8200 1, .free 4224]
    rw [hrun] at happend
    exact happend.trans hfree
  · exact ListHeap.backLinked_map_shape.mp (hsegs ▸ ⟨rfl, rfl, trivial⟩)
  · have hlinked : BackLinked 0 segs₁ := ListHeap.backLinked_map_shape.mp (hsegs₁ ▸ ⟨rfl, rfl, rfl, trivial⟩)
    simp only [List.map_eq_cons_iff, List.map_eq_nil_iff] at hsegs₁
    obtain ⟨a, -, rfl, ha, b, -, rfl, hb, c, -, rfl, hc, rfl⟩ := hsegs₁
    simp only [Segment.shape, Tile.mk.injEq] at ha hb hc
    -- the written byte is in the memory of the second block, which `free` leaves as it is
    have hchain : HeapChain contextHeap (update s₁.mem 8200 1) ([a] ++ b :: [c]) := by
      refine hI₁.chain.congr_payload (s := b) (by simp) fun x hx => update_of_ne ?_ _ _
      rw [hb.1, hb.2.1, sizeofHeader] at hx
      omega
    have hlink := followsLink_of_backLinked placed_contextHeap hchain hlinked
    have hkept := free_of_outsideHeaders placed_contextHeap hchain hlink
      (outsideHeaders_of_mem (x := 8200) hchain.covers (u := b) (by simp) (by rw [hb.1]; decide)
        (by rw [hb.1, hb.2.1]; decide))
    rw [hb.1] at hkept
    rw [hmem]
    exact hkept.trans (update_self _ _ _)

/-- A context in memory that is zero. -/
theorem device_context_clean_fresh :
    ∃ m segs m', HeapWellFormed contextHeap m segs ∧
      createDeviceContext 0 contextHeap m 4128 true 1 = some m' ∧
      PublishesClean 0 segs 4128 8 1 2048 m m' := by
  obtain ⟨s, -, segs, hI, hsegs, -⟩ := ListHeap.run_refines placed_contextHeap
    (ListHeap.refines_boot 0 HeapState.noFrames placed_contextHeap) [.allocate 64]
    (show _ = some ⟨[⟨4096, 96, 0, false⟩, ⟨4192, 65440, 4096, true⟩], [(4128, 64)]⟩ by
      decide +kernel)
  have hw : HeapWellFormed contextHeap s.mem segs :=
    ⟨placed_contextHeap, hI.chain, ListHeap.backLinked_map_shape.mp (hsegs ▸ ⟨rfl, rfl, trivial⟩)⟩
  obtain ⟨-, t, ht, hstart, hsize, -⟩ := contextHeap_granted hw hsegs
  -- the memory behind the header of the free segment is cleared
  have hw₀ : HeapWellFormed contextHeap
      (fun x => if 4224 ≤ x ∧ x < 69632 then 0 else s.mem x) segs := by
    refine ⟨placed_contextHeap, hI.chain.congr_payload ht fun x hx => if_neg ?_, hw.linked⟩
    rw [hstart, hsize, sizeofHeader] at hx
    omega
  obtain ⟨hdcbaa, t, -, hstart, -, hfit, m', hm'⟩ := contextHeap_granted hw₀ hsegs
  refine ⟨_, segs, m', hw₀, hm', ?_⟩
  refine (device_context_clean_iff 0 contextHeap _ segs hw₀ (by decide) (by decide) 4128 8 hdcbaa
    true 1 (by decide) m' hm').mpr ⟨t, hfit, fun i hge hi => if_pos ?_⟩
  have haddress : contextAddress t = 8192 := by
    rw [contextAddress, hstart]
    decide
  have hi : i < 2048 := hi
  omega

/-- The eight bytes that are cleared end in front of the stale one. -/
theorem device_context_stale :
    ∃ s segs m', run (HeapState.step contextHeap)
        (HeapState.boot 0 HeapState.noFrames 4096 65536)
        [.allocate 64, .allocate 8192, .write 8200 1, .free 4224] = some s ∧
      HeapWellFormed contextHeap s.mem segs ∧ DcbaaPlaced segs 4128 8 ∧
      createDeviceContext 0 contextHeap s.mem 4128 true 1 = some m' ∧
      ¬ PublishesClean 0 segs 4128 8 1 2048 s.mem m' := by
  obtain ⟨s, segs, hrun, hw, hsegs, hstale⟩ := contextHeap_stale
  obtain ⟨hdcbaa, t, -, hstart, -, hfit, m', hm'⟩ := contextHeap_granted hw hsegs
  refine ⟨s, segs, m', hrun, hw, hdcbaa, hm', fun hclean => ?_⟩
  obtain ⟨u, hu, -, -, hentry, hbytes, -⟩ := createDeviceContext_spec hw hdcbaa (by decide) hm'
  obtain rfl : t = u := Option.some.inj (hfit.symm.trans hu)
  have haddress : contextAddress t = 8192 := by
    rw [contextAddress, hstart]
    decide
  rw [haddress] at hentry hbytes
  have hzero := hclean.zero 8 (by decide)
  have hentry' : m'.readBytes (4128 + 8 * 1) 8 = virtToPhysAddr 0 8192 := hentry
  rw [hentry', physToVirtAddr_virtToPhysAddr (by decide) (by decide), hbytes 8 (by decide),
    if_neg (by decide), hstale] at hzero
  exact absurd hzero (by decide)

end Stellux.Kernel
