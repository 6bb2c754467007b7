import FosKernel.Boot

/-!
# Frames and mappings (`kern/memory_manager.c`)

The page tables are in physical memory : a directory and a table are the words of a
frame, and `K_VIRTUAL_ADDRESS` reaches every frame. A call has no value where the source
panics, in `K_VIRTUAL_ADDRESS` or `to_frame_info`. `E_NO_MEM` is a value like another.
-/

namespace FosKernel

/-- What `kern/memory_manager.c` keeps once paging is initialized. -/
structure KernMemory where
  /-- `frames_info[f].references`. -/
  references : Nat → Int
  freeFrameList : List Nat
  words : Words

namespace KernMemory

/-- What the fallible functions return. -/
inductive Status where
  | ok
  | noMem
  deriving DecidableEq

variable (m : KernMemory)

/-- The reference count of frame `f` becomes `n`. -/
def setReferences (f : Nat) (n : Int) : KernMemory :=
  { m with references := Function.update m.references f n }

/-- The word `i` of frame `f` becomes `e`. -/
def setWord (f i : Nat) (e : Entry) : KernMemory :=
  { m with words := writeWord m.words f i e }

/-- `memset` of a whole frame to zero. -/
def clearFrame (f : Nat) : KernMemory :=
  { m with words := clearWords m.words f }

/-- `allocate_frame` : `none` for `E_NO_MEM`. -/
def allocateFrame : Option (Nat × KernMemory) :=
  match m.freeFrameList with
  | [] => none
  | f :: rest => some (f, { m.setReferences f 0 with freeFrameList := rest })

/-- `free_frame`. -/
def freeFrame (f : Nat) : KernMemory :=
  { m with freeFrameList := f :: m.freeFrameList }

/-- `decrement_references`. -/
def decrementReferences (f : Nat) : KernMemory :=
  let m' := m.setReferences f (m.references f - 1)
  if m'.references f = 0 then m'.freeFrame f else m'

variable (numberOfFrames : Nat)

/-- `to_frame_info(pa)` : a panic if there is no such frame. -/
def toFrameInfo (pa : BitVec 32) : Option Nat :=
  if ppn pa < numberOfFrames then some (ppn pa) else none

/-- `get_page_table(directory, va, create)` : its status and the frame of the table, `none`
for the null pointer. -/
def getPageTable (directory va : Nat) (create : Bool) :
    Option ((Status × Option Nat) × KernMemory) := do
  let pageDirectoryEntry := m.words directory (pdx va)
  let ptrPageTable ← Boot.kVirtualFrame numberOfFrames (extractAddress pageDirectoryEntry)
  if pageDirectoryEntry = 0#32 then
    if create then
      match m.allocateFrame with
      | none => some ((.noMem, none), m)
      | some (f, m) =>
        let physPageTable := toPhysicalAddress f
        let ptrPageTable ← Boot.kVirtualFrame numberOfFrames physPageTable
        let entry := constructEntry physPageTable (permPresent ||| permUser ||| permWriteable)
        some ((.ok, some ptrPageTable),
          ((m.clearFrame ptrPageTable).setReferences f 1).setWord directory (pdx va) entry)
    else some ((.ok, none), m)
  else some ((.ok, some ptrPageTable), m)

/-- `get_frame_info` : the frame mapped at `va`, and the table. -/
def getFrameInfo (directory va : Nat) : Option (Option Nat × Option Nat) := do
  let ((_, ptrPageTable), _) ← m.getPageTable numberOfFrames directory va false
  match ptrPageTable with
  | some table =>
    let pageTableEntry := m.words table (ptx va)
    if pageTableEntry ≠ 0#32 then
      let f ← toFrameInfo numberOfFrames (extractAddress pageTableEntry)
      some (some f, some table)
    else some (none, some table)
  | none => some (none, none)

/-- `unmap_frame`. -/
def unmapFrame (directory va : Nat) : Option KernMemory := do
  match ← m.getFrameInfo numberOfFrames directory va with
  | (some f, some table) => some ((m.decrementReferences f).setWord table (ptx va) 0#32)
  | _ => some m

/-- The end of `map_frame` : frame `f` gets the entry and a reference. -/
def insertEntry (table va f : Nat) (perm : BitVec 32) : KernMemory :=
  (m.setReferences f (m.references f + 1)).setWord table (ptx va)
    (constructEntry (toPhysicalAddress f) (perm ||| permPresent))

/-- `map_frame`. -/
def mapFrame (directory f va : Nat) (perm : BitVec 32) : Option (Status × KernMemory) := do
  match ← m.getPageTable numberOfFrames directory va true with
  | ((.ok, some table), m) =>
    let pageTableEntry := m.words table (ptx va)
    if IsPresent pageTableEntry then
      if extractAddress pageTableEntry = toPhysicalAddress f then some (.ok, m)
      else
        let m ← m.unmapFrame numberOfFrames directory va
        some (.ok, m.insertEntry table va f perm)
    else some (.ok, m.insertEntry table va f perm)
  | (_, m) => some (.noMem, m)

/-- The calls on frames and mappings. A permission is a twelve-bit value. -/
inductive Call where
  | allocate
  | map (directory f va : Nat) (perm : BitVec 12)
  | unmap (directory va : Nat)
  | free (f : Nat)

/-- One call; a call that returns `E_NO_MEM` leaves what it leaves. -/
def step (m : KernMemory) : Call → Option KernMemory
  | .allocate => some (match m.allocateFrame with
    | some (_, m) => m
    | none => m)
  | .map directory f va perm =>
    (m.mapFrame numberOfFrames directory f va (perm.setWidth 32)).map Prod.snd
  | .unmap directory va => m.unmapFrame numberOfFrames directory va
  | .free f => some (m.freeFrame f)

/-- The memory `initialize_paging` leaves. -/
def ofFrames (frames : Boot.Frames) (words : Words) : KernMemory :=
  { references := fun f => (frames.framesInfo f).references
    freeFrameList := frames.freeFrameList
    words := words }

end KernMemory

end FosKernel
