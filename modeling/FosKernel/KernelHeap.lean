import FosKernel.Machine
import FosKernel.Memory
import FosKernel.PageSearch

/-!
# The kernel heap

`kheap.c` : the page table `kernelHeapPages` of the heap, `kmalloc` under either
placement strategy, and `kfree`. The kernel's page tables exist from boot on
(`initialize_kernel_VM` makes them all), so a heap address always finds its entry, in
`kernelEntries`, and `map_frame` and `unmap_frame` act on that entry.

`kernelHeapPages` is static memory, all zeros until the first `kmalloc` runs
`initializaKernelHeapPages`, and has one entry more than the heap has pages. An access
outside the array has no value here, and neither has a call that panics.
-/

namespace FosKernel

/-- The bounds of the kernel heap in `inc/memlayout.h`, and the size of `frames_info`. -/
structure KernelHeapLayout where
  kernelHeapStart : Nat
  kernelHeapMax : Nat
  numberOfFrames : Nat
  start_lt_max : kernelHeapStart < kernelHeapMax
  max_le : kernelHeapMax + pageSize ≤ 4294967296
  start_aligned : kernelHeapStart % pageSize = 0
  max_aligned : kernelHeapMax % pageSize = 0
  /-- `detect_memory` divides a 32-bit size by the page size. -/
  numberOfFrames_le : numberOfFrames ≤ 1048576

namespace KernelHeapLayout

variable (L : KernelHeapLayout)

/-- The pages of the heap. -/
def pages : Nat :=
  (L.kernelHeapMax - L.kernelHeapStart) / pageSize

/-- `maxKernelHeapPages`, the size of the array `kernelHeapPages`. -/
def maxKernelHeapPages : Nat :=
  (L.kernelHeapMax - L.kernelHeapStart) / pageSize + 1

/-- The address of page `i` of the heap. -/
def addr (i : Nat) : Nat :=
  L.kernelHeapStart + pageSize * i

end KernelHeapLayout

/-- `struct KernelHeapPages`. -/
structure KernelHeapPage where
  startAddress : Nat
  isEmpty : Bool
  deriving DecidableEq, Repr

/-- The values of `_KHeapPlacementStrategy`. -/
inductive KHeapPlacementStrategy where
  | contAlloc
  | firstFit
  | bestFit
  | nextFit
  | worstFit
  deriving DecidableEq, Repr

/-- The state of the kernel heap. -/
structure KernelHeap where
  kernelHeapPages : Nat → KernelHeapPage
  lastAllocatedKHpage : Nat
  isKHpageEmpty : Bool
  kHeapPlacementStrategy : KHeapPlacementStrategy
  /-- The kernel's page-table entries, by page number. -/
  kernelEntries : Nat → Entry
  memory : Memory

namespace KernelHeap

variable (L : KernelHeapLayout) (s : KernelHeap)

/-- Reading `kernelHeapPages[i]`, which has no value outside the array. -/
def page (i : Nat) : Option KernelHeapPage :=
  if i < L.maxKernelHeapPages then some (s.kernelHeapPages i) else none

/-- `kernelHeapPages[i]` becomes `p`. -/
def setPage (i : Nat) (p : KernelHeapPage) : KernelHeap :=
  { s with kernelHeapPages := Function.update s.kernelHeapPages i p }

/-- The page-table entry of `va` becomes `e`, in the memory `m`. -/
def setEntry (va : Nat) (e : Entry) (m : Memory) : KernelHeap :=
  { s with kernelEntries := Function.update s.kernelEntries (va / pageSize) e, memory := m }

/-- `map_frame(ptr_page_directory, frame, va, perm)`. -/
def mapFrame (f va : Nat) (perm : BitVec 32) : Option KernelHeap :=
  (s.memory.mapEntry L.numberOfFrames (s.kernelEntries (va / pageSize)) f perm).map
    fun (e, m) => s.setEntry va e m

/-- `unmap_frame(ptr_page_directory, va)`. -/
def unmapFrame (va : Nat) : Option KernelHeap :=
  (s.memory.unmapEntry L.numberOfFrames (s.kernelEntries (va / pageSize))).map
    fun (e, m) => s.setEntry va e m

/-- `initializaKernelHeapPages`. The spare entry after the last page stays zero. -/
def initializaKernelHeapPages : KernelHeap :=
  { s with
    kernelHeapPages := fun i => if i < L.pages then ⟨L.addr i, true⟩ else s.kernelHeapPages i
    isKHpageEmpty := false }

/-- `nextFit(size)`. -/
def nextFit (size : Nat) : Nat :=
  PageSearch.nextFit (fun i => (s.kernelHeapPages i).isEmpty) L.kernelHeapStart
    L.kernelHeapStart L.kernelHeapMax s.lastAllocatedKHpage size

/-- `bestFit(size)`. -/
def bestFit (size : Nat) : Nat :=
  PageSearch.bestFit (fun i => (s.kernelHeapPages i).isEmpty) L.kernelHeapStart
    L.kernelHeapStart L.kernelHeapMax size

/-- The search of `kmalloc` : every strategy but next fit is best fit. -/
def findPlace (size : Nat) : Nat :=
  if s.kHeapPlacementStrategy = .nextFit then nextFit L s size else bestFit L s size

/-- The permissions `kmalloc` maps its pages with. -/
def heapPerm : BitVec 32 :=
  permPresent ||| permWriteable

/-- The loop of `kmalloc`, with `numberOfPages` pages left to map from `tempStartAddress`. -/
def kmallocLoop (startAddress : Nat) : Nat → Nat → KernelHeap → Option KernelHeap
  | 0, _, s => some s
  | numberOfPages + 1, tempStartAddress, s =>
    s.memory.allocateFrame.bind fun (f, m) =>
      (mapFrame L { s with memory := m } f tempStartAddress heapPerm).bind fun s' =>
        kmallocLoop startAddress numberOfPages (tempStartAddress + pageSize)
          (s'.setPage ((tempStartAddress - L.kernelHeapStart) / pageSize) ⟨startAddress, false⟩)

/-- `kmalloc(size)` : the address returned and the state after. -/
def kmalloc (size : Nat) : Option (Nat × KernelHeap) :=
  let size := roundUp size pageSize
  let s := if s.isKHpageEmpty then initializaKernelHeapPages L s else s
  let startAddress := findPlace L s size
  if startAddress = 0 then some (0, s)
  else
    (kmallocLoop L startAddress (size / pageSize) startAddress s).map fun s' =>
      (startAddress,
        { s' with lastAllocatedKHpage := startAddress + pageSize * (size / pageSize) })

/-- The loop of `kfree`. It makes at most `fuel` trips. -/
def kfreeLoop (virtualAddress : Nat) : Nat → Nat → KernelHeap → Option KernelHeap
  | 0, _, s => some s
  | fuel + 1, start, s =>
    if start < L.kernelHeapMax then
      let heapPageIndex := u32 (start + 4294967296 - L.kernelHeapStart) / pageSize
      (page L s heapPageIndex).bind fun p =>
        if p.isEmpty = false ∧ p.startAddress = virtualAddress then
          (unmapFrame L s start).bind fun s' =>
            kfreeLoop virtualAddress fuel (start + pageSize)
              (s'.setPage heapPageIndex ⟨start, true⟩)
        else some s
    else some s

/-- `kfree(virtual_address)`. -/
def kfree (virtualAddress : Nat) : Option KernelHeap :=
  kfreeLoop L virtualAddress (PageSearch.pageTrips virtualAddress L.kernelHeapMax) virtualAddress s

/-- The calls on the heap. -/
inductive Call where
  | kmalloc (size : Nat)
  | kfree (virtualAddress : Nat)
  | setStrategy (strategy : KHeapPlacementStrategy)
  deriving DecidableEq, Repr

/-- One call. A call that panics has no state after it. -/
def step (s : KernelHeap) : Call → Option KernelHeap
  | .kmalloc size => (kmalloc L s size).map Prod.snd
  | .kfree virtualAddress => kfree L s virtualAddress
  | .setStrategy strategy => some { s with kHeapPlacementStrategy := strategy }

/-- The heap at boot : `kernelHeapPages` is static memory, the entries of the heap are
zero, and the free frame list is the one `initialize_paging` left. -/
structure Boot (s : KernelHeap) : Prop where
  pages : ∀ i, s.kernelHeapPages i = ⟨0, false⟩
  hand : s.lastAllocatedKHpage = L.kernelHeapStart
  uninitialized : s.isKHpageEmpty = true
  entries : ∀ i, i < L.pages → s.kernelEntries (L.addr i / pageSize) = 0#32
  frames : s.memory.FramesOk L.numberOfFrames

end KernelHeap

end FosKernel
