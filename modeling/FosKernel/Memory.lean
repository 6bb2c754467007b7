import FosKernel.Words
import Mathlib.Logic.Function.Basic
import Mathlib.Data.List.Nodup

/-!
# Frames and page-table entries

The frame bookkeeping of `memory_manager.c` : `frames_info`, the free frame list, and
the change that `map_frame` and `unmap_frame` make to one page-table entry once
`get_page_table` has found its table.

`FramesOk` is what the allocator keeps about the free frame list on its own : no
duplicates, and no free frame is buffered. A frame is buffered
only if its `isBuffered` flag is set, and every frame enters the list through
`initialize_frame_info`, so the buffered branch of `allocate_frame` is never taken
(`allocateFrame_of_framesOk`).
-/

namespace FosKernel

/-- `struct Frame_Info`, less its list links. -/
structure FrameInfo where
  references : Int
  isBuffered : Bool
  environment : Nat
  va : Nat
  deriving DecidableEq, Repr

/-- A page table in memory : the frame its directory entry names and its 1024 entries. -/
structure PageTable where
  frame : Nat
  entries : Nat → Entry

/-- The frames, and the user half of every page directory with its tables. -/
structure Memory where
  framesInfo : Nat → FrameInfo
  freeFrameList : List Nat
  directories : Nat → Nat → Option PageTable

/-- `PDX(virtual_address)`. -/
def pdx (va : Nat) : Nat :=
  va / 4194304

/-- `PTX(virtual_address)`. -/
def ptx (va : Nat) : Nat :=
  va / 4096 % 1024

/-- The 1024 words of each frame of physical memory. -/
abbrev Words := Nat → Nat → Entry

/-- The word `i` of frame `f` becomes `e`. -/
def writeWord (w : Words) (f i : Nat) (e : Entry) : Words :=
  Function.update w f (Function.update (w f) i e)

/-- Frame `f` is set to zero. -/
def clearWords (w : Words) (f : Nat) : Words :=
  Function.update w f fun _ => 0#32

theorem writeWord_apply (w : Words) (f i g j : Nat) (e : Entry) :
    writeWord w f i e g j = if g = f ∧ j = i then e else w g j := by
  unfold writeWord
  by_cases hg : g = f
  · subst hg
    simp [Function.update_apply]
  · simp [hg]

theorem clearWords_apply (w : Words) (f g j : Nat) :
    clearWords w f g j = if g = f then 0#32 else w g j := by
  unfold clearWords
  by_cases hg : g = f
  · subst hg
    simp
  · simp [hg]

/-- `initialize_frame_info` : all zeros. -/
def initializeFrameInfo : FrameInfo :=
  ⟨0, false, 0, 0⟩

namespace Memory

variable (m : Memory)

/-- The frame-info record of frame `f` becomes `info`. -/
def setFrameInfo (f : Nat) (info : FrameInfo) : Memory :=
  { m with framesInfo := Function.update m.framesInfo f info }

/-- The counter of frame `f` becomes `n`. -/
def setReferences (f : Nat) (n : Int) : Memory :=
  m.setFrameInfo f { m.framesInfo f with references := n }

/-- The table of `env` for `va` gets the entry `e` at `va`. -/
def setEntry (env va : Nat) (t : PageTable) (e : Entry) : Memory :=
  let t' := { t with entries := Function.update t.entries (ptx va) e }
  let directory := Function.update (m.directories env) (pdx va) (some t')
  { m with directories := Function.update m.directories env directory }

/-- `pt_clear_page_table_entry` : a panic if the page table does not exist. -/
def ptClearPageTableEntry (env va : Nat) : Option Memory :=
  (m.directories env (pdx va)).map fun t => m.setEntry env va t 0#32

/-- `allocate_frame` : a panic if no frame is free. -/
def allocateFrame : Option (Nat × Memory) :=
  match m.freeFrameList with
  | [] => none
  | f :: rest =>
    let m' := { m with freeFrameList := rest }
    let cleared :=
      if (m.framesInfo f).isBuffered then
        m'.ptClearPageTableEntry (m.framesInfo f).environment (m.framesInfo f).va
      else some m'
    cleared.map fun m'' => (f, m''.setFrameInfo f initializeFrameInfo)

/-- `free_frame`. -/
def freeFrame (f : Nat) : Memory :=
  { m.setFrameInfo f initializeFrameInfo with freeFrameList := f :: m.freeFrameList }

/-- `decrement_references`. -/
def decrementReferences (f : Nat) : Memory :=
  let m' := m.setReferences f ((m.framesInfo f).references - 1)
  if (m'.framesInfo f).references = 0 then m'.freeFrame f else m'

/-- `unmap_frame`, on the entry `e` its lookup found : the entry it leaves. A panic of
`to_frame_info` if the entry names no frame. -/
def unmapEntry (numberOfFrames : Nat) (e : Entry) : Option (Entry × Memory) :=
  if e = 0#32 then some (e, m)
  else if frameNumber e < numberOfFrames then some (0#32, m.decrementReferences (frameNumber e))
  else none

/-- `map_frame`, on the entry `e` its lookup found : the entry it leaves. -/
def mapEntry (numberOfFrames : Nat) (e : Entry) (f : Nat) (perm : BitVec 32) :
    Option (Entry × Memory) :=
  if IsPresent e ∧ extractAddress e = toPhysicalAddress f then some (e, m)
  else
    let unmapped := if IsPresent e then m.unmapEntry numberOfFrames e else some (e, m)
    unmapped.map fun (_, m') =>
      (constructEntry (toPhysicalAddress f) (perm ||| permPresent),
        m'.setReferences f ((m'.framesInfo f).references + 1))

/-! ## The free frame list -/

/-- What the allocator keeps about free frames. -/
structure FramesOk (numberOfFrames : Nat) (m : Memory) : Prop where
  nodup : m.freeFrameList.Nodup
  lt : ∀ f ∈ m.freeFrameList, f < numberOfFrames
  unbuffered : ∀ f ∈ m.freeFrameList, (m.framesInfo f).isBuffered = false

variable {m} {n : Nat}

@[simp] theorem setReferences_freeFrameList (f : Nat) (k : Int) :
    (m.setReferences f k).freeFrameList = m.freeFrameList :=
  rfl

@[simp] theorem setReferences_directories (f : Nat) (k : Int) :
    (m.setReferences f k).directories = m.directories :=
  rfl

theorem setReferences_framesInfo (f g : Nat) (k : Int) :
    (m.setReferences f k).framesInfo g =
      if g = f then { m.framesInfo f with references := k } else m.framesInfo g := by
  simp only [setReferences, setFrameInfo, Function.update_apply]

@[simp] theorem freeFrame_freeFrameList (f : Nat) :
    (m.freeFrame f).freeFrameList = f :: m.freeFrameList :=
  rfl

@[simp] theorem freeFrame_directories (f : Nat) : (m.freeFrame f).directories = m.directories :=
  rfl

theorem freeFrame_framesInfo (f g : Nat) :
    (m.freeFrame f).framesInfo g = if g = f then initializeFrameInfo else m.framesInfo g := by
  simp only [freeFrame, setFrameInfo, Function.update_apply]

/-- The state that `allocate_frame` leaves when it hands out `f`. -/
def taken (m : Memory) (f : Nat) (rest : List Nat) : Memory :=
  { m.setFrameInfo f initializeFrameInfo with freeFrameList := rest }

@[simp] theorem taken_freeFrameList (f : Nat) (rest : List Nat) :
    (m.taken f rest).freeFrameList = rest :=
  rfl

@[simp] theorem taken_directories (f : Nat) (rest : List Nat) :
    (m.taken f rest).directories = m.directories :=
  rfl

theorem taken_framesInfo (f g : Nat) (rest : List Nat) :
    (m.taken f rest).framesInfo g = if g = f then initializeFrameInfo else m.framesInfo g := by
  simp only [taken, setFrameInfo, Function.update_apply]

/-- With no buffered frame on the list, `allocate_frame` takes the first free frame and
resets its record. -/
theorem allocateFrame_of_framesOk (h : FramesOk n m) {f : Nat} {m' : Memory} :
    m.allocateFrame = some (f, m') ↔
      ∃ rest, m.freeFrameList = f :: rest ∧ m' = m.taken f rest := by
  unfold allocateFrame
  cases hl : m.freeFrameList with
  | nil => simp
  | cons g rest =>
    have hg := h.unbuffered g (by simp [hl])
    simp only [hg, Bool.false_eq_true, if_false, Option.map_some, Option.some.injEq,
      Prod.mk.injEq, List.cons.injEq]
    constructor
    · rintro ⟨rfl, rfl⟩
      exact ⟨rest, ⟨rfl, rfl⟩, rfl⟩
    · rintro ⟨rest', ⟨rfl, rfl⟩, rfl⟩
      exact ⟨rfl, rfl⟩

/-- `allocate_frame` panics exactly when no frame is free. -/
theorem allocateFrame_eq_none (h : FramesOk n m) :
    m.allocateFrame = none ↔ m.freeFrameList = [] := by
  cases hl : m.freeFrameList with
  | nil => simp [allocateFrame, hl]
  | cons f rest =>
    have := (allocateFrame_of_framesOk h).2 ⟨rest, hl, rfl⟩
    simp [this]

theorem FramesOk.taken (h : FramesOk n m) {f : Nat} {rest : List Nat}
    (hl : m.freeFrameList = f :: rest) : FramesOk n (m.taken f rest) := by
  have hnd := h.nodup
  rw [hl, List.nodup_cons] at hnd
  have hne : ∀ g ∈ rest, g ≠ f := fun g hg hgf => hnd.1 (hgf ▸ hg)
  have hmem : ∀ g ∈ rest, g ∈ m.freeFrameList := fun g hg => by simp [hl, hg]
  refine ⟨hnd.2, fun g hg => h.lt g (hmem g hg), fun g hg => ?_⟩
  rw [taken_framesInfo, if_neg (hne g hg)]
  exact h.unbuffered g (hmem g hg)

theorem FramesOk.setReferences (h : FramesOk n m) {f : Nat} (hf : f ∉ m.freeFrameList) (k : Int) :
    FramesOk n (m.setReferences f k) := by
  have hne : ∀ g ∈ m.freeFrameList, g ≠ f := fun g hg hgf => hf (hgf ▸ hg)
  refine ⟨h.nodup, h.lt, fun g hg => ?_⟩
  rw [setReferences_framesInfo, if_neg (hne g hg)]
  exact h.unbuffered g hg

theorem FramesOk.freeFrame (h : FramesOk n m) {f : Nat} (hf : f ∉ m.freeFrameList) (hn : f < n) :
    FramesOk n (m.freeFrame f) := by
  have hne : ∀ g ∈ m.freeFrameList, g ≠ f := fun g hg hgf => hf (hgf ▸ hg)
  refine ⟨List.nodup_cons.2 ⟨hf, h.nodup⟩, ?_, ?_⟩
  · intro g hg
    rcases List.mem_cons.1 hg with rfl | hg
    · exact hn
    · exact h.lt g hg
  · intro g hg
    rcases List.mem_cons.1 hg with rfl | hg
    · simp [freeFrame_framesInfo, initializeFrameInfo]
    · rw [freeFrame_framesInfo, if_neg (hne g hg)]
      exact h.unbuffered g hg

end Memory

end FosKernel
