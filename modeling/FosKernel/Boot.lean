import FosKernel.Machine
import FosKernel.Memory

/-!
# Boot memory

Before `initialize_paging` the kernel takes memory from a pointer that only goes up,
`ptr_free_mem`, which starts at the end of the kernel image. `boot_map_range` takes its
page tables there too. `initialize_paging` then reserves the frames below and puts the
others on the free frame list.

The two kernels of the repository, `memory_manager.c` and `kern/memory_manager.c`, have
these functions with different constants. `Variant` holds the differences, and
`Variant.root` and `Variant.kern` are the two kernels.

The words of physical memory are kept by frame, so a page table and the page directory
are the contents of a frame. `STATIC_KERNEL_PHYSICAL_ADDRESS` and
`STATIC_KERNEL_VIRTUAL_ADDRESS` are taken to be `K_PHYSICAL_ADDRESS` and
`K_VIRTUAL_ADDRESS` of `kern/helpers.h`.
-/

namespace FosKernel

/-- The constants of the memory layout and of the linker script. -/
structure Layout where
  kernelBase : Nat
  physIoMem : Nat
  physExtendedMem : Nat
  endOfKernel : Nat
  kernelBase_mod : kernelBase % 4096 = 0
  kernelBase_gt : 2147483648 < kernelBase
  physIoMem_mod : physIoMem % 4096 = 0
  physExtendedMem_mod : physExtendedMem % 4096 = 0
  lowMemory : 3 * 4096 ≤ physIoMem
  ioHole : physIoMem ≤ physExtendedMem
  /-- The kernel image is loaded at the start of extended memory. -/
  endOfKernel_ge : kernelBase + physExtendedMem ≤ endOfKernel
  endOfKernel_lt : endOfKernel < 4294967296

namespace Boot

/-- What the two kernels do differently. -/
structure Variant where
  /-- What `boot_allocate_space` rounds `ptr_free_mem` up to, for the alignment asked. -/
  rounding : Nat → Nat
  /-- The physical address from which `boot_map_range` maps. -/
  mapsFrom : Nat → Nat
  /-- How many frames `initialize_paging` reserves at the bottom. -/
  lowFrames : Nat
  /-- What `initialize_paging` does to the record of a free frame. -/
  clear : FrameInfo → FrameInfo
  lowFrames_le : lowFrames ≤ 3
  clear_references : ∀ info, (clear info).references = 0

/-- `memory_manager.c`. -/
def Variant.root : Variant where
  rounding align := align
  mapsFrom physicalAddress := physicalAddress
  lowFrames := 3
  clear _ := initializeFrameInfo
  lowFrames_le := Nat.le_refl 3
  clear_references _ := rfl

/-- `kern/memory_manager.c`. -/
def Variant.kern : Variant where
  rounding _ := pageSize
  mapsFrom physicalAddress := roundUp physicalAddress pageSize
  lowFrames := 1
  clear info := { info with references := 0 }
  lowFrames_le := by decide
  clear_references _ := rfl

/-- The state of the kernel at boot. -/
structure State where
  ptrFreeMem : Nat
  words : Words
  /-- The blocks `boot_allocate_space` returned, with their sizes. -/
  allocated : List (Nat × Nat)

/-- `ptr_free_mem` is still zero. -/
def start (words : Words) : State :=
  { ptrFreeMem := 0, words := words, allocated := [] }

variable (l : Layout) (v : Variant) (numberOfFrames : Nat)

/-- `K_PHYSICAL_ADDRESS(kva)` : a panic below `KERNEL_BASE`. -/
def kPhysicalAddress (kva : Nat) : Option Nat :=
  if kva < l.kernelBase then none else some (kva - l.kernelBase)

/-- The frame behind `K_VIRTUAL_ADDRESS(pa)` : a panic if there is no such frame. -/
def kVirtualFrame (pa : BitVec 32) : Option Nat :=
  if ppn pa < numberOfFrames then some (ppn pa) else none

/-- `boot_allocate_space(size, align)`. Rounding up to a multiple of zero faults. -/
def bootAllocateSpace (size align : Nat) (s : State) : Option (Nat × State) :=
  if v.rounding align = 0 then none
  else
    let ptr := if s.ptrFreeMem = 0 then l.endOfKernel else s.ptrFreeMem
    let allocatedMem := roundUp ptr (v.rounding align)
    some (allocatedMem, { s with
      ptrFreeMem := u32 (allocatedMem + size)
      allocated := (allocatedMem, size) :: s.allocated })

/-- The word `i` of frame `f` becomes `e`. -/
def State.setWord (s : State) (f i : Nat) (e : Entry) : State :=
  { s with words := writeWord s.words f i e }

/-- `boot_get_page_table(directory, va, create)` : the frame of the table, `none` inside
for the null pointer. The directory is the contents of the frame `directory`. -/
def bootGetPageTable (directory va : Nat) (create : Bool) (s : State) :
    Option (Option Nat × State) :=
  let physPageTable := extractAddress (s.words directory (pdx va))
  if physPageTable = 0#32 then
    if create then do
      let (ptrPageTable, s) ← bootAllocateSpace l v pageSize pageSize s
      let physPageTable ← kPhysicalAddress l ptrPageTable
      let entry := constructEntry (BitVec.ofNat 32 physPageTable) (permPresent ||| permWriteable)
      some (some (physPageTable / pageSize), s.setWord directory (pdx va) entry)
    else some (none, s)
  else (kVirtualFrame numberOfFrames physPageTable).map fun table => (some table, s)

/-- The loop of `boot_map_range`, with its trips to go. -/
def bootMapRangeLoop (directory : Nat) (perm : BitVec 32) :
    Nat → Nat → Nat → State → Option State
  | 0, _, _, s => some s
  | trips + 1, virtualAddress, physicalAddress, s => do
    let (ptrPageTable, s) ← bootGetPageTable l v numberOfFrames directory virtualAddress true s
    let table ← ptrPageTable
    let entry := constructEntry (BitVec.ofNat 32 physicalAddress) (perm ||| permPresent)
    bootMapRangeLoop directory perm trips (u32 (virtualAddress + pageSize))
      (u32 (physicalAddress + pageSize)) (s.setWord table (ptx virtualAddress) entry)

/-- `boot_map_range`. With a size above `2^32 - PAGE_SIZE` its counter never gets past the
end. -/
def bootMapRange (directory virtualAddress size physicalAddress : Nat) (perm : BitVec 32)
    (s : State) : Option State :=
  if size ≤ 4294967296 - pageSize then
    bootMapRangeLoop l v numberOfFrames directory perm ((size + (pageSize - 1)) / pageSize)
      virtualAddress (v.mapsFrom physicalAddress) s
  else none

/-- The calls made at boot. -/
inductive Call where
  | allocate (size align : Nat)
  | mapRange (directory virtualAddress size physicalAddress : Nat) (perm : BitVec 32)

/-- A call made at boot. -/
def step (s : State) : Call → Option State
  | .allocate size align => (bootAllocateSpace l v size align s).map Prod.snd
  | .mapRange directory va size pa perm =>
    bootMapRange l v numberOfFrames directory va size pa perm s

/-! ## `initialize_paging` -/

/-- The frames and the free frame list. -/
structure Frames where
  framesInfo : Nat → FrameInfo
  freeFrameList : List Nat

/-- `frames_info[i].references = 1`. -/
def Frames.reserve (m : Frames) (i : Nat) : Frames :=
  { m with framesInfo :=
      Function.update m.framesInfo i { m.framesInfo i with references := 1 } }

/-- Frame `i` is cleared and goes to the head of the free frame list. -/
def Frames.release (m : Frames) (i : Nat) : Frames :=
  { framesInfo := Function.update m.framesInfo i (v.clear (m.framesInfo i))
    freeFrameList := i :: m.freeFrameList }

/-- `for (i = lo; i < hi; i++)`. -/
def forRange (f : Frames → Nat → Frames) (lo hi : Nat) (m : Frames) : Frames :=
  (List.range' lo (hi - lo)).foldl f m

/-- `initialize_paging`, on records left as boot memory was. -/
def initializePaging (ptrFreeMem : Nat) (framesInfo : Nat → FrameInfo) : Option Frames := do
  let m := forRange Frames.reserve 0 v.lowFrames ⟨framesInfo, []⟩
  let m := forRange (Frames.release v) v.lowFrames (roundUp l.physIoMem pageSize / pageSize) m
  let m := forRange Frames.reserve (l.physIoMem / pageSize) (l.physExtendedMem / pageSize) m
  let rangeEnd := roundUp (← kPhysicalAddress l ptrFreeMem) pageSize
  let m := forRange Frames.reserve (l.physExtendedMem / pageSize) (rangeEnd / pageSize) m
  some (forRange (Frames.release v) (rangeEnd / pageSize) numberOfFrames m)

end Boot

end FosKernel
