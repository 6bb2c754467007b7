import FosKernel.KernelHeap
import FosKernel.WorkingSet

/-!
# User memory

The page tables of the environments, as `memory_manager.c` uses them below `USER_TOP` :
`map_frame` and `unmap_frame`, the permission functions, `create_page_table`, and the two
system calls of the user heap, `allocateMem` and `freeMem`.

Page-table lookups resolve : the table a directory entry names is found at its kernel
address, so a directory is a map to tables. The source looks for it with
`kheap_virtual_address`; `UserMemory.ByLookup` does so too, and agrees with the functions here
where the search finds the tables. A page table is a page of the kernel heap, made by `kmalloc`
and given back by `kfree`. A call has no value where the source panics, or goes through a null
table pointer.

`file_manager` is not part of the repository. `PageFile` is what is called of it.
-/

namespace FosKernel

/-- The bounds of user memory in `inc/memlayout.h`, besides those of the kernel heap. -/
structure UserLayout extends KernelHeapLayout where
  userTop : Nat
  ustackBottom : Nat
  ustackTop : Nat
  userTop_lt : userTop < 4294967296

theorem userTop_lt_fos : 0xEF800000 < 4294967296 := by
  decide

/-- The bytes of a frame. -/
abbrev PageBytes := Nat → BitVec 8

/-- The functions of `file_manager` on a page file `P`, for an environment and an address. -/
structure PageFile (P : Type) where
  /-- What `pf_read_env_page` copies to the page, or `none` for `E_PAGE_NOT_EXIST_IN_PF`. -/
  readEnvPage : P → Nat → Nat → Option PageBytes
  /-- `pf_add_empty_env_page` : `none` for `E_NO_PAGE_FILE_SPACE`. -/
  addEmptyEnvPage : P → Nat → Nat → Bool → Option P
  /-- `pf_update_env_page`, with the bytes of the frame. -/
  updateEnvPage : P → Nat → Nat → PageBytes → P
  /-- `pf_remove_env_page`. -/
  removeEnvPage : P → Nat → Nat → P

/-- The page file has the page of an environment. -/
def PageFile.Has {P : Type} (pf : PageFile P) (p : P) (env va : Nat) : Prop :=
  (pf.readEnvPage p env va).isSome

/-- The page file never runs out of space. -/
def PageFile.NeverFull {P : Type} (pf : PageFile P) : Prop :=
  ∀ p env va zero, ∃ p', pf.addEmptyEnvPage p env va zero = some p'

/-- The page file keeps the pages that were added and not removed. -/
structure PageFile.KeepsPages {P : Type} (pf : PageFile P) : Prop where
  add : ∀ {p p' : P} {env va : Nat} {zero : Bool}, va % pageSize = 0 →
    pf.addEmptyEnvPage p env va zero = some p' → ∀ env' va', va' % pageSize = 0 →
      (pf.Has p' env' va' ↔ (env' = env ∧ va' = va) ∨ pf.Has p env' va')
  remove : ∀ (p : P) (env : Nat) {va : Nat}, va % pageSize = 0 → ∀ env' va', va' % pageSize = 0 →
    (pf.Has (pf.removeEnvPage p env va) env' va' ↔ pf.Has p env' va' ∧ ¬ (env' = env ∧ va' = va))

/-- The values of `_PageRepAlgoType`. -/
inductive PageRepAlgoType where
  | lru
  | clock
  | fifo
  | modifiedClock
  deriving DecidableEq, Repr

/-- The state of user memory. -/
structure UserMemory (P : Type) where
  heap : KernelHeap
  envs : Nat → Env
  pageFile : P
  /-- The contents of the frames. -/
  bytes : Nat → PageBytes
  pageRepAlgoType : PageRepAlgoType
  lastClockIndex : Nat

namespace UserMemory

variable {P : Type} (L : UserLayout) (pf : PageFile P) (s : UserMemory P)

/-- The frames and the page tables become `m`. -/
def setMemory (m : Memory) : UserMemory P :=
  { s with heap := { s.heap with memory := m } }

/-- Environment `env` becomes `e`. -/
def setEnv (env : Nat) (e : Env) : UserMemory P :=
  { s with envs := Function.update s.envs env e }

/-- `get_page_table` : `none` for `TABLE_NOT_EXIST`. -/
def getPageTable (env va : Nat) : Option PageTable :=
  s.heap.memory.directories env (pdx va)

/-- The page-table entry of `va`, zero without a table. -/
def userEntry (env va : Nat) : Entry :=
  match s.getPageTable env va with
  | some t => t.entries (ptx va)
  | none => 0#32

/-- `pt_get_page_permissions`. -/
def ptGetPagePermissions (env va : Nat) : BitVec 32 :=
  s.userEntry env va &&& permMask

/-- `pt_set_page_permissions` : a panic without a table. -/
def ptSetPagePermissions (env va : Nat) (toSet toClear : BitVec 32) : Option (UserMemory P) :=
  (s.getPageTable env va).map fun t =>
    s.setMemory (s.heap.memory.setEntry env va t ((t.entries (ptx va) ||| toSet) &&& ~~~toClear))

/-- `create_page_table` : the table, which is a page of the kernel heap. With no page left
the table pointer is null. -/
def createPageTable (env va : Nat) : Option (PageTable × UserMemory P) := do
  let (pageTable, heap) ← s.heap.kmalloc L.toKernelHeapLayout pageSize
  if pageTable = 0 then none
  else
    let t : PageTable :=
      { frame := frameNumber (heap.kernelEntries (pageTable / pageSize)), entries := fun _ => 0#32 }
    let directory := Function.update (heap.memory.directories env) (pdx va) (some t)
    let m :=
      { heap.memory with directories := Function.update heap.memory.directories env directory }
    some (t, { s with
      heap := { heap with memory := m }
      bytes := Function.update s.bytes t.frame fun _ => 0#8 })

/-- The table `map_frame` writes to : it is created if it does not exist. -/
def getOrCreatePageTable (env va : Nat) : Option (PageTable × UserMemory P) :=
  match s.getPageTable env va with
  | some t => some (t, s)
  | none => s.createPageTable L env va

/-- `map_frame(directory, f, va, perm)`. -/
def mapFrame (env f va : Nat) (perm : BitVec 32) : Option (UserMemory P) := do
  let (t, s) ← s.getOrCreatePageTable L env va
  let (e, m) ← s.heap.memory.mapEntry L.numberOfFrames (t.entries (ptx va)) f perm
  some (s.setMemory (m.setEntry env va t e))

/-- `get_frame_info` : a panic of `to_frame_info` if the entry names no frame. -/
def getFrameInfo (env va : Nat) : Option (Option Nat) :=
  let e := s.userEntry env va
  if e = 0#32 then some none
  else if frameNumber e < L.numberOfFrames then some (some (frameNumber e))
  else none

/-- `unmap_frame(directory, va)`. -/
def unmapFrame (env va : Nat) : Option (UserMemory P) :=
  match s.getPageTable env va with
  | none => some s
  | some t =>
    (s.heap.memory.unmapEntry L.numberOfFrames (t.entries (ptx va))).map
      fun (e, m) => s.setMemory (m.setEntry env va t e)

/-! ## `allocateMem` and `freeMem` -/

/-- The loop of `allocateMem`, with `noSpace` for what `ret` holds. -/
def allocateMemLoop (env : Nat) : Nat → Nat → Bool → P → Bool × P
  | 0, _, noSpace, p => (noSpace, p)
  | trips + 1, address, _, p =>
    match pf.addEmptyEnvPage p env address true with
    | some p => allocateMemLoop env trips (address + pageSize) false p
    | none => allocateMemLoop env trips (address + pageSize) true p

/-- `allocateMem(e, va, size)` : a panic if the last page did not fit. `noSpace` is what
`ret` holds before, which is not set. -/
def allocateMem (env va size : Nat) (noSpace : Bool) : Option (UserMemory P) :=
  let (noSpace, p) := allocateMemLoop pf env ((size + (pageSize - 1)) / pageSize) va noSpace
    s.pageFile
  if noSpace then none else some { s with pageFile := p }

/-- `freeAllPagees`. -/
def freeAllPagees (env : Nat) : Nat → Nat → P → P
  | _, 0, p => p
  | va, noOfPages + 1, p =>
    freeAllPagees env (va + pageSize) noOfPages (pf.removeEnvPage p env va)

/-- The loop of `freeResidentPagesInTheWorkingSet` over the slots : the slots kept. -/
def freeResidentPagesLoop (env va size : Nat) :
    List WorkingSetElement → UserMemory P → Option (List WorkingSetElement × UserMemory P)
  | [], s => some ([], s)
  | x :: rest, s =>
    let tempVa := roundDown x.virtualAddress pageSize
    if x.empty = false ∧ va ≤ tempVa ∧ tempVa < u32 (va + size) then do
      let s ← s.unmapFrame L env tempVa
      freeResidentPagesLoop env va size rest s
    else do
      let (kept, s) ← freeResidentPagesLoop env va size rest s
      some (if x.empty then kept else x :: kept, s)

/-- `freeResidentPagesInTheWorkingSet` : every slot is cleared, and those kept are copied to
the front. -/
def freeResidentPagesInTheWorkingSet (env va size : Nat) : Option (UserMemory P) := do
  let (kept, s) ← freeResidentPagesLoop L env va size (s.envs env).ptrPageWorkingSet s
  some (s.setEnv env ((s.envs env).compacted kept))

/-- The kernel address of a page table : the heap page that its frame backs. -/
def tableAddress (t : PageTable) : Option Nat :=
  ((List.range L.pages).find? fun i =>
    let e := s.heap.kernelEntries (L.addr i / pageSize)
    e ≠ 0#32 ∧ frameNumber e = t.frame).map L.addr

/-- An empty page table is freed, and its directory entry cleared. -/
def freePageTable (env va : Nat) (t : PageTable) : Option (UserMemory P) := do
  let heap ← s.heap.kfree L.toKernelHeapLayout (← s.tableAddress L t)
  let directory := Function.update (heap.memory.directories env) (pdx va) none
  let m := { heap.memory with directories := Function.update heap.memory.directories env directory }
  some { s with heap := { heap with memory := m } }

/-- `removeEmptyNonUsedPages`. -/
def removeEmptyNonUsedPages (env : Nat) : Nat → Nat → UserMemory P → Option (UserMemory P)
  | _, 0, s => some s
  | va, noOfPages + 1, s =>
    match s.getPageTable env va with
    | none => removeEmptyNonUsedPages env (va + pageSize) noOfPages s
    | some t =>
      if (List.range 1024).all fun flag => t.entries flag = 0#32 then
        (s.freePageTable L env va t).bind
          (removeEmptyNonUsedPages env (va + pageSize) noOfPages)
      else removeEmptyNonUsedPages env (va + pageSize) noOfPages s

/-- `freeMem(e, va, size)`. -/
def freeMem (env va size : Nat) : Option (UserMemory P) := do
  let noOfPages := size / pageSize
  let s := { s with pageFile := freeAllPagees pf env va noOfPages s.pageFile }
  let s ← s.freeResidentPagesInTheWorkingSet L env va size
  s.removeEmptyNonUsedPages L env va noOfPages

end UserMemory

end FosKernel
