import FosKernel.Machine
import FosKernel.PageSearch
import FosKernel.UserMemory

/-!
# The user heap

`uheap.c` : the page table `userHeapPages` that a program keeps of its heap, `malloc` and
`free`, and the two system calls they make. A program runs in an environment of the
kernel, so the state is the program's table and the kernel's user memory.

`userHeapPages` is static memory, all zeros until the first `malloc` runs
`initializaKernelHeapPages`. An access outside the array has no value here, and neither
has a call that panics in the kernel. With a strategy that is neither best fit nor next fit
`malloc` does not set `start`, which is then what the variable holds.
-/

namespace FosKernel

/-- The bounds of the user heap in `inc/memlayout.h`. -/
structure UserHeapLayout extends UserLayout where
  userHeapStart : Nat
  userHeapMax : Nat
  userHeapStart_lt_max : userHeapStart < userHeapMax
  userHeapMax_lt : userHeapMax < 4294967296
  userHeapStart_aligned : userHeapStart % pageSize = 0
  userHeapMax_aligned : userHeapMax % pageSize = 0

namespace UserHeapLayout

variable (L : UserHeapLayout)

/-- `userHeapMaxPages`, the pages of the heap and the size of the array. -/
def userHeapMaxPages : Nat :=
  (L.userHeapMax - L.userHeapStart) / pageSize

/-- The address of page `i` of the user heap. -/
def heapAddr (i : Nat) : Nat :=
  L.userHeapStart + pageSize * i

end UserHeapLayout

/-- `struct KernelHeapPages` of `uheap.c`. -/
structure UserHeapPage where
  startAddress : Nat
  isEmpty : Bool
  size : Nat
  deriving DecidableEq, Repr

/-- The values of `_UHeapPlacementStrategy`. -/
inductive UHeapPlacementStrategy where
  | firstFit
  | bestFit
  | nextFit
  | worstFit
  deriving DecidableEq, Repr

/-- A program with its heap, in the environment `env` of the kernel. -/
structure UserHeap (P : Type) where
  userHeapPages : Nat → UserHeapPage
  lastAllocatedUHpage : Nat
  isUserHeapEmpty : Bool
  uHeapPlacementStrategy : UHeapPlacementStrategy
  env : Nat
  kernel : UserMemory P

namespace UserHeap

variable {P : Type} (L : UserHeapLayout) (pf : PageFile P) (s : UserHeap P)

/-- `(va - USER_HEAP_START) / PAGE_SIZE`. -/
def userHeapPageIndex (va : Nat) : Nat :=
  u32 (va + 4294967296 - L.userHeapStart) / pageSize

/-- `userHeapPages[i]`, which has no value outside the array. -/
def page (i : Nat) : Option UserHeapPage :=
  if i < L.userHeapMaxPages then some (s.userHeapPages i) else none

/-- `userHeapPages[i]` becomes `p`. -/
def setPage (i : Nat) (p : UserHeapPage) : Option (UserHeap P) :=
  if i < L.userHeapMaxPages then
    some { s with userHeapPages := Function.update s.userHeapPages i p }
  else none

/-- `initializaKernelHeapPages`. -/
def initializaKernelHeapPages : UserHeap P :=
  { s with
    userHeapPages := fun i =>
      if i < L.userHeapMaxPages then ⟨L.heapAddr i, true, 0⟩ else s.userHeapPages i
    isUserHeapEmpty := false }

/-- `nextFit(size)`. -/
def nextFit (size : Nat) : Nat :=
  PageSearch.nextFit (fun i => (s.userHeapPages i).isEmpty) L.userHeapStart L.userHeapStart
    L.userHeapMax s.lastAllocatedUHpage size

/-- `bestFit(size)`. -/
def bestFit (size : Nat) : Nat :=
  PageSearch.bestFit (fun i => (s.userHeapPages i).isEmpty) L.userHeapStart L.userHeapStart
    L.userHeapMax size

/-- The search of `malloc`, with `unset` for what `start` holds before. -/
def findPlace (size unset : Nat) : Nat :=
  if s.uHeapPlacementStrategy = .bestFit then s.bestFit L size
  else if s.uHeapPlacementStrategy = .nextFit then s.nextFit L size
  else unset

/-- The loop of `malloc`, with the pages to go. -/
def mallocLoop (start size : Nat) : Nat → Nat → UserHeap P → Option (UserHeap P)
  | 0, _, s => some s
  | pages + 1, tmpstart, s =>
    (s.setPage L (userHeapPageIndex L tmpstart) ⟨start, false, size⟩).bind
      (mallocLoop start size pages (u32 (tmpstart + pageSize)))

/-- `malloc(size)` : the address returned and the state after. `noSpace` is what
`allocateMem` finds in its `ret`. -/
def malloc (size unset : Nat) (noSpace : Bool) : Option (Nat × UserHeap P) := do
  let s := if s.isUserHeapEmpty then s.initializaKernelHeapPages L else s
  let size := roundUp size pageSize
  let start := s.findPlace L size unset
  if start = 0 then some (0, s)
  else
    let kernel ← s.kernel.allocateMem pf s.env start size noSpace
    let s ← mallocLoop L start size (size / pageSize) start { s with kernel := kernel }
    some (start, { s with
      lastAllocatedUHpage := u32 (start + pageSize * (size / pageSize)) })

/-- The loop of `free`, with the pages to go. -/
def freeLoop : Nat → Nat → UserHeap P → Option (UserHeap P)
  | 0, _, s => some s
  | pages + 1, va, s =>
    (s.setPage L (userHeapPageIndex L va) ⟨va, true, 0⟩).bind
      (freeLoop pages (u32 (va + pageSize)))

/-- `free(va)`. The sizes in the table are multiples of the page size. -/
def free (va : Nat) : Option (UserHeap P) := do
  let p ← s.page L (userHeapPageIndex L va)
  let kernel ← s.kernel.freeMem L.toUserLayout pf s.env va p.size
  freeLoop L (p.size / pageSize) va { s with kernel := kernel }

/-- The calls of the program. -/
inductive Call where
  | malloc (size unset : Nat) (noSpace : Bool)
  | free (va : Nat)

/-- One call : the address returned, and the state after. -/
def step (s : UserHeap P) : Call → Option (Nat × UserHeap P)
  | .malloc size unset noSpace => s.malloc L pf size unset noSpace
  | .free va => (s.free L pf va).map fun s => (0, s)

end UserHeap

end FosKernel
