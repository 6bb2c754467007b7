import FosKernel.PageTableCreation

/-!
# The frames storage

`create_frames_storage` takes a page from `kmalloc` for a directory of page tables, in which
`add_frame_to_storage` keeps one frame for each index, as a page-table entry : the page tables
come from `create_page_table`, and every access finds its page table through
`kheap_virtual_address`.

The page of the directory is not cleared, and the search for a page table ends at
`lastAllocatedKHpage`. `StorageOk` is the storage as a map, with its page tables : where the
page table of an index is found, the frame there is read (`StorageOk.get`), and where it is
found or made, adding a frame updates the map (`StorageOk.add`).
-/

namespace FosKernel

namespace TableMemory

/-! ## The functions -/

/-- The frame behind a heap address. An access to a page that is not mapped faults. -/
def frameBehind (m : TableMemory) (va : Nat) : Option Nat :=
  let e := m.heap.kernelEntries (va / pageSize)
  if IsPresent e then some (frameNumber e) else none

/-- `create_frames_storage()` : a panic without a page. -/
def createFramesStorage (L : KernelHeapLayout) (m : TableMemory) : Option (Nat × TableMemory) :=
  (m.heap.kmalloc L pageSize).bind fun (framesStorage, heap) =>
    if framesStorage = 0 then none else some (framesStorage, { m with heap := heap })

/-- What `get_page_table` returns. -/
inductive TableStatus where
  | tableInMemory
  | tableNotExist
  deriving DecidableEq

/-- `get_page_table(frames_storage, va, &ptr_page_table)`, within `fuel` trips of the search :
the table pointer is the address of a heap page, or the frame at a static kernel address. It
has no value where `STATIC_KERNEL_VIRTUAL_ADDRESS` panics, and for a table that is not in
memory, which calls `fault_handler(NULL)`. -/
def getPageTable (L : KernelHeapLayout) (D : KernelDirectory) (fuel : Nat) (m : TableMemory)
    (framesStorage va : Nat) : Option (TableStatus × TablePointer) :=
  (m.frameBehind framesStorage).bind fun directory =>
    let pageDirectoryEntry := m.words directory (pdx va)
    let pointer :=
      if D.kernelBase ≤ va then
        if frameNumber pageDirectoryEntry < L.numberOfFrames then
          some (TablePointer.static (frameNumber pageDirectoryEntry))
        else none
      else (m.heap.kheapVirtualAddress L D fuel (extractAddress pageDirectoryEntry)).map
        TablePointer.heap
    pointer.bind fun ptrPageTable =>
      if IsPresent pageDirectoryEntry then some (.tableInMemory, ptrPageTable)
      else if pageDirectoryEntry ≠ 0#32 then none
      else some (.tableNotExist, TablePointer.null)

/-- The frame that a table pointer leads to. -/
def tableFrame (m : TableMemory) : TablePointer → Option Nat
  | .static f => some f
  | .heap va => m.frameBehind va

/-- `add_frame_to_storage(frames_storage, frame, index)`. It has no value where
`create_page_table` fails, and where the store goes through the null pointer. -/
def addFrameToStorage (L : KernelHeapLayout) (D : KernelDirectory) (fuel : Nat) (m : TableMemory)
    (framesStorage frame index : Nat) : Option TableMemory :=
  let va := u32 (index * pageSize)
  (getPageTable L D fuel m framesStorage va).bind fun (r, ptrPageTable) =>
    let found : Option (TablePointer × TableMemory) :=
      if r = .tableNotExist then
        (m.frameBehind framesStorage).bind fun directory =>
          match createPageTable L D fuel m directory va with
          | some (.ok (pageTable, m')) => some (.heap pageTable, m')
          | _ => none
      else some (ptrPageTable, m)
    found.bind fun (ptrPageTable, m') =>
      if ptrPageTable = TablePointer.null then none
      else (m'.tableFrame ptrPageTable).map fun f =>
        { m' with
          words := writeWord m'.words f (ptx va)
            (constructEntry (toPhysicalAddress frame) (0#32 ||| permPresent)) }

/-- `get_frame_from_storage(frames_storage, index)`, which is `get_frame_info` : a panic of
`to_frame_info` if the entry names no frame. -/
def getFrameFromStorage (L : KernelHeapLayout) (D : KernelDirectory) (fuel : Nat)
    (m : TableMemory) (framesStorage index : Nat) : Option (Option Nat) :=
  let va := u32 (index * pageSize)
  (getPageTable L D fuel m framesStorage va).bind fun (_, ptrPageTable) =>
    if ptrPageTable = TablePointer.null then some none
    else (m.tableFrame ptrPageTable).bind fun f =>
      let e := m.words f (ptx va)
      if e = 0#32 then some none
      else if frameNumber e < L.numberOfFrames then some (some (frameNumber e))
      else none

/-- One trip of `clear_frames_storage`, at entry `i` of the storage. -/
def clearStorageEntry (L : KernelHeapLayout) (D : KernelDirectory) (fuel framesStorage i : Nat)
    (m : TableMemory) : Option TableMemory :=
  (m.frameBehind framesStorage).bind fun directory =>
    let e := m.words directory i
    if e ≠ 0#32 then
      (m.heap.kheapVirtualAddress L D fuel (extractAddress e)).bind fun va =>
        (m.heap.kfree L va).bind fun heap =>
          let m' := { m with heap := heap }
          (m'.frameBehind framesStorage).map fun directory =>
            { m' with words := writeWord m'.words directory i 0#32 }
    else some m

/-- The loop of `clear_frames_storage`, with `n` entries left from entry `i` on. -/
def clearStorageLoop (L : KernelHeapLayout) (D : KernelDirectory) (fuel framesStorage : Nat) :
    Nat → Nat → TableMemory → Option TableMemory
  | 0, _, m => some m
  | n + 1, i, m =>
    (clearStorageEntry L D fuel framesStorage i m).bind
      (clearStorageLoop L D fuel framesStorage n (i + 1))

/-- `clear_frames_storage(frames_storage)`. -/
def clearFramesStorage (L : KernelHeapLayout) (D : KernelDirectory) (fuel : Nat)
    (m : TableMemory) (framesStorage : Nat) : Option TableMemory :=
  clearStorageLoop L D fuel framesStorage 1024 0 m

variable {L : KernelHeapLayout} {D : KernelDirectory} {fuel : Nat} {m m' : TableMemory}
  {s₀ : KernelHeap}

/-! ## Pages of the heap -/

section Page

variable {s s' : KernelHeap} {t u f : Nat}

/-- What there is to a block of one page in frame `f`. -/
theorem page_spec (h : KernelHeap.Invariant L s) (hb : KernelHeap.Holds L s t [f]) :
    f < L.numberOfFrames ∧ KernelHeap.entry L s t = KernelHeap.heapEntry f ∧
      f ∉ s.memory.freeFrameList := by
  have hframe : KernelHeap.frameAt L s t = f := hb.2 0 Nat.one_pos
  obtain ⟨hf, hentry, -, hfree⟩ := h.frameAt_spec hb.1.owner_first
  rw [hframe] at hf hentry hfree
  exact ⟨hf, hentry, hfree⟩

/-- Pages in one frame are one page. -/
theorem page_unique (h : KernelHeap.Invariant L s) (hb : KernelHeap.Holds L s t [f])
    (hb' : KernelHeap.Holds L s u [f]) : t = u := by
  refine h.distinct t u ?_ ?_ ?_
  · rw [hb.1.owner_first]
    rfl
  · rw [hb'.1.owner_first]
    rfl
  · rw [(page_spec h hb).2.1, (page_spec h hb').2.1]

theorem frameBehind_page (h : KernelHeap.Invariant L m.heap)
    (hb : KernelHeap.Holds L m.heap t [f]) : m.frameBehind (L.addr t) = some f := by
  obtain ⟨hf, hentry, -⟩ := page_spec h hb
  have hword : m.heap.kernelEntries (L.addr t / pageSize) = KernelHeap.heapEntry f := hentry
  rw [frameBehind, hword, KernelHeap.frameNumber_heapEntry hf]
  exact if_pos (isPresent_constructEntry _ _)

/-- The page that `create_page_table` made the table in. -/
theorem TableCreated.holds {directory va pageTable : Nat} (h : KernelHeap.Invariant L m.heap)
    (hc : TableCreated L directory va m pageTable f t m') :
    KernelHeap.Holds L m'.heap t [f] := by
  refine ⟨?_, fun k hk => ?_⟩
  · rw [hc.heap.owner]
    exact BlockMap.isBlock_claim h.contiguous hc.heap.free Nat.one_pos
  · obtain rfl := Nat.lt_one_iff.1 hk
    exact hc.frame

/-- The page of the new table was free : another page is another one, in another frame. -/
theorem TableCreated.holds_ne {directory va pageTable g : Nat}
    (h : KernelHeap.Invariant L m.heap) (hc : TableCreated L directory va m pageTable f t m')
    (hb : KernelHeap.Holds L m.heap u [g]) : u ≠ t ∧ g ≠ f := by
  refine ⟨fun heq => ?_, fun heq => (page_spec h hb).2.2 (heq ▸ hc.fresh.1)⟩
  have hfree : KernelHeap.owner L m.heap t = none := hc.heap.free t le_rfl (by omega)
  rw [← heq, hb.1.owner_first] at hfree
  cases hfree

/-- The words of another page, less the directory entry, stay. -/
theorem TableCreated.words_page {directory va pageTable g j : Nat}
    (h : KernelHeap.Invariant L m.heap) (hc : TableCreated L directory va m pageTable f t m')
    (hb : KernelHeap.Holds L m.heap u [g]) (hat : ¬(g = directory ∧ j = pdx va)) :
    m'.words g j = m.words g j :=
  hc.other g j hat fun hat' => (hc.holds_ne h hb).2 hat'.1

end Page

/-! ## The storage as a map -/

/-- The directory entry of a page table, in a page and a frame. -/
def directoryEntry : Option (Nat × Nat) → Entry
  | none => 0#32
  | some (_, f) => constructEntry (toPhysicalAddress f) tablePerm

/-- The entry that keeps a frame. -/
def storedEntry : Option Nat → Entry
  | none => 0#32
  | some f => constructEntry (toPhysicalAddress f) (0#32 ||| permPresent)

/-- The storage in page `s`, in frame `F`, is the map `map`, for the indexes below the kernel.
`tables` gives the page and the frame of the page table of each directory entry. -/
structure StorageOk (L : KernelHeapLayout) (D : KernelDirectory) (s F : Nat)
    (tables : Nat → Option (Nat × Nat)) (map : Nat → Option Nat) (m : TableMemory) : Prop where
  invariant : KernelHeap.Invariant L m.heap
  reserved : KernelHeap.Reserved L m.heap
  storage : KernelHeap.Holds L m.heap s [F]
  table : ∀ k t f, tables k = some (t, f) → t ≠ s ∧ KernelHeap.Holds L m.heap t [f]
  lt : ∀ k, tables k ≠ none → k < 1024
  distinct : ∀ k k' t f f', tables k = some (t, f) → tables k' = some (t, f') → k = k'
  entry : ∀ k, k < 1024 → m.words F k = directoryEntry (tables k)
  empty : ∀ i, i < D.kernelBase / pageSize → tables (i / 1024) = none → map i = none
  value : ∀ i, i < D.kernelBase / pageSize → ∀ t f, tables (i / 1024) = some (t, f) →
    m.words f (i % 1024) = storedEntry (map i)
  frames : ∀ i f, i < D.kernelBase / pageSize → map i = some f → f < L.numberOfFrames

/-- The directory entry `k` of a storage. -/
def storageEntry (m : TableMemory) (framesStorage k : Nat) : Entry :=
  m.words (frameNumber (m.heap.kernelEntries (framesStorage / pageSize))) k

/-- The page table that directory entry `k` of the storage names is not above the hand. -/
def BelowHand (L : KernelHeapLayout) (m : TableMemory) (framesStorage k : Nat) : Prop :=
  ∀ t, t < L.pages → m.heap.NonEmpty t →
    toPhysicalAddress (KernelHeap.frameAt L m.heap t) =
      extractAddress (m.storageEntry framesStorage k) →
    L.addr t ≤ m.heap.lastAllocatedKHpage

/-- `get_page_table` finds the page table of directory entry `k`, or finds that there is
none : for that the search has to end. -/
def CanFind (L : KernelHeapLayout) (m : TableMemory) (framesStorage k : Nat) : Prop :=
  BelowHand L m framesStorage k ∧
    (m.storageEntry framesStorage k = 0#32 → m.heap.lastAllocatedKHpage + pageSize < 4294967296)

/-- The page table is found, or there is a page and a frame for a new one. -/
def CanAdd (L : KernelHeapLayout) (m : TableMemory) (framesStorage k : Nat) : Prop :=
  CanFind L m framesStorage k ∧ (m.storageEntry framesStorage k = 0#32 → HasPage L m.heap)

section Storage

variable {s F i k t f : Nat} {tables : Nat → Option (Nat × Nat)} {map : Nat → Option Nat}

/-- The page tables with one entry changed. -/
theorem update_tables {o : Option (Nat × Nat)} {j : Nat} {p : Nat × Nat} :
    Function.update tables k o j = some p ↔ j = k ∧ o = some p ∨ j ≠ k ∧ tables j = some p := by
  by_cases hjk : j = k
  · simp [hjk]
  · simp [hjk]

theorem index_lt (hd : KernelHeap.DirectoryBoot L D s₀) (hi : i < D.kernelBase / pageSize) :
    i / 1024 < 1024 := by
  have hbase := hd.kernelBase_le
  have hstart := L.addr_lt 0 (Nat.zero_le _)
  unfold KernelHeapLayout.addr at hstart
  unfold pageSize at hi
  omega

theorem pdx_index (hd : KernelHeap.DirectoryBoot L D s₀) (hi : i < D.kernelBase / pageSize) :
    ¬D.kernelBase ≤ u32 (i * pageSize) ∧ pdx (u32 (i * pageSize)) = i / 1024 ∧
      ptx (u32 (i * pageSize)) = i % 1024 := by
  have hbase := hd.kernelBase_le
  have hstart := L.addr_lt 0 (Nat.zero_le _)
  unfold KernelHeapLayout.addr at hstart
  unfold pageSize at hi ⊢
  have hwrap : u32 (i * 4096) = i * 4096 := Nat.mod_eq_of_lt (by omega)
  rw [hwrap]
  refine ⟨by omega, ?_, ?_⟩
  · unfold pdx
    omega
  · unfold ptx
    omega

theorem heap_ne_null (hd : KernelHeap.DirectoryBoot L D s₀) (t : Nat) :
    TablePointer.heap (L.addr t) ≠ TablePointer.null := by
  intro hnull
  have haddr : L.addr t = 0 := TablePointer.heap.inj hnull
  have hbase := hd.kernelBase_le
  have hpos := hd.kernelBase_pos
  unfold KernelHeapLayout.addr at haddr
  omega

theorem isPresent_directoryEntry (t f : Nat) : IsPresent (directoryEntry (some (t, f))) := by
  have hperm : tablePerm = (permUser ||| permWriteable) ||| permPresent := by decide
  rw [directoryEntry, hperm]
  exact isPresent_constructEntry _ _

theorem extractAddress_directoryEntry (t f : Nat) :
    extractAddress (directoryEntry (some (t, f))) = toPhysicalAddress f :=
  extractAddress_constructEntry f (by decide)

namespace StorageOk

variable (h : StorageOk L D s F tables map m)

include h

theorem frameBehind : m.frameBehind (L.addr s) = some F :=
  frameBehind_page h.invariant h.storage

theorem storageEntry (hk : k < 1024) : m.storageEntry (L.addr s) k = directoryEntry (tables k) := by
  have hframe : frameNumber (m.heap.kernelEntries (L.addr s / pageSize)) = F :=
    h.storage.2 0 Nat.one_pos
  rw [TableMemory.storageEntry, hframe, h.entry k hk]

/-- The frame of the storage is not that of a page table. -/
theorem table_ne (hk : tables k = some (t, f)) : f ≠ F := by
  rintro rfl
  obtain ⟨hts, hb⟩ := h.table k t f hk
  exact hts (page_unique h.invariant hb h.storage)

/-- Different page tables are in different frames. -/
theorem table_unique {k' t' : Nat} (hk : tables k = some (t, f)) (hk' : tables k' = some (t', f)) :
    k = k' := by
  obtain rfl := page_unique h.invariant (h.table k t f hk).2 (h.table k' t' f hk').2
  exact h.distinct k k' t f f hk hk'

theorem le_hand (hbelow : BelowHand L m (L.addr s) k) (hk : tables k = some (t, f)) :
    L.addr t ≤ m.heap.lastAllocatedKHpage := by
  have hb := (h.table k t f hk).2
  have hown := hb.1.owner_first
  have hlt := KernelHeap.lt_pages_of_owner hown
  have hsome : (KernelHeap.owner L m.heap t).isSome := by
    rw [hown]
    rfl
  refine hbelow t hlt ((KernelHeap.owner_isSome_iff_nonEmpty hlt).1 hsome) ?_
  have hframe : KernelHeap.frameAt L m.heap t = f := hb.2 0 Nat.one_pos
  rw [h.storageEntry (h.lt k (by simp [hk])), hk, extractAddress_directoryEntry, hframe]

/-! ### Looking a page table up -/

section Lookup

variable (hd : KernelHeap.DirectoryBoot L D s₀) (hfuel : L.pages + 2 ≤ fuel)
  (hi : i < D.kernelBase / pageSize)

include hd hi hfuel

theorem getPageTable_found (hbelow : BelowHand L m (L.addr s) (i / 1024))
    (hk : tables (i / 1024) = some (t, f)) :
    getPageTable L D fuel m (L.addr s) (u32 (i * pageSize)) =
      some (.tableInMemory, .heap (L.addr t)) := by
  obtain ⟨hkernel, hpdx, -⟩ := pdx_index hd hi
  have hsearch := KernelHeap.kheapVirtualAddress_found hd h.invariant hfuel
    (h.table _ t f hk).2 (h.le_hand hbelow hk)
  have hentry : m.words F (i / 1024) = directoryEntry (some (t, f)) := by
    rw [h.entry _ (index_lt hd hi), hk]
  simp only [getPageTable, h.frameBehind, Option.bind_some, hpdx, hentry, if_neg hkernel,
    extractAddress_directoryEntry, hsearch, Option.map_some, if_pos (isPresent_directoryEntry t f)]

theorem getPageTable_missing
    (htop : m.heap.lastAllocatedKHpage + pageSize < 4294967296) (hk : tables (i / 1024) = none) :
    getPageTable L D fuel m (L.addr s) (u32 (i * pageSize)) =
      some (.tableNotExist, TablePointer.null) := by
  obtain ⟨hkernel, hpdx, -⟩ := pdx_index hd hi
  obtain ⟨a, hsearch⟩ := KernelHeap.kheapVirtualAddress_returns hd h.invariant hfuel h.reserved
    htop (extractAddress 0#32)
  have hentry : m.words F (i / 1024) = 0#32 := by
    rw [h.entry _ (index_lt hd hi), hk]
    rfl
  simp only [getPageTable, h.frameBehind, Option.bind_some, hpdx, hentry, if_neg hkernel, hsearch,
    Option.map_some, if_neg not_isPresent_zero, ne_eq, not_true_eq_false, if_false]

/-- `get_frame_from_storage` reads the map. -/
theorem get (hfind : CanFind L m (L.addr s) (i / 1024)) :
    getFrameFromStorage L D fuel m (L.addr s) i = some (map i) := by
  obtain ⟨-, -, hptx⟩ := pdx_index hd hi
  have hlt := index_lt hd hi
  cases hk : tables (i / 1024) with
  | none =>
    have hzero : m.storageEntry (L.addr s) (i / 1024) = 0#32 := by
      rw [h.storageEntry hlt, hk]
      rfl
    simp only [getFrameFromStorage, h.getPageTable_missing hd hfuel hi (hfind.2 hzero) hk,
      Option.bind_some, if_true, h.empty i hi hk]
  | some tf =>
    obtain ⟨t, f⟩ := tf
    have hb := (h.table _ t f hk).2
    have hframe : m.tableFrame (.heap (L.addr t)) = some f := frameBehind_page h.invariant hb
    simp only [getFrameFromStorage, h.getPageTable_found hd hfuel hi hfind.1 hk, Option.bind_some,
      if_neg (heap_ne_null hd t), hframe, hptx, h.value i hi t f hk]
    cases hmap : map i with
    | none => rfl
    | some g =>
      have hg := h.frames i g hi hmap
      have hnumber : frameNumber (storedEntry (some g)) = g :=
        frameNumber_constructEntry (hg.trans_le L.numberOfFrames_le) (by decide)
      have hne : storedEntry (some g) ≠ 0#32 := (isPresent_constructEntry _ _).ne_zero
      rw [if_neg hne, hnumber, if_pos hg]

end Lookup

/-! ### Adding a frame -/

/-- A frame stored in a page table of the storage. -/
theorem store {g : Nat} (hi : i < D.kernelBase / pageSize) (hk : tables (i / 1024) = some (t, f))
    (hg : g < L.numberOfFrames) :
    StorageOk L D s F tables (Function.update map i (some g))
      { m with words := writeWord m.words f (i % 1024) (storedEntry (some g)) } := by
  refine ⟨h.invariant, h.reserved, h.storage, h.table, h.lt, h.distinct, fun k hlt => ?_,
    fun j hj hnone => ?_, fun j hj t' f' hk' => ?_, fun j f' hj hf' => ?_⟩
  · change writeWord m.words f _ _ F k = _
    rw [writeWord_apply, if_neg fun hat => h.table_ne hk hat.1.symm]
    exact h.entry k hlt
  · have hne : j ≠ i := fun heq => by
      rw [heq, hk] at hnone
      cases hnone
    rw [Function.update_of_ne hne]
    exact h.empty j hj hnone
  · change writeWord m.words f _ _ f' _ = _
    rw [writeWord_apply]
    by_cases hji : j = i
    · subst hji
      obtain ⟨-, rfl⟩ := Prod.mk.inj (Option.some.inj (hk.symm.trans hk'))
      rw [if_pos ⟨rfl, rfl⟩, Function.update_self]
    · rw [if_neg, Function.update_of_ne hji]
      · exact h.value j hj t' f' hk'
      · rintro ⟨rfl, hmod⟩
        have hdiv := h.table_unique hk' hk
        omega
  · rw [Function.update_apply] at hf'
    split_ifs at hf'
    · obtain rfl := Option.some.inj hf'
      exact hg
    · exact h.frames j f' hj hf'

/-- A page table made for a directory entry of the storage. -/
theorem created {va pageTable : Nat} (hinv : KernelHeap.Invariant L m'.heap) (hlt : pdx va < 1024)
    (hnone : tables (pdx va) = none) (hc : TableCreated L F va m pageTable f t m') :
    StorageOk L D s F (Function.update tables (pdx va) (some (t, f))) map m' := by
  have hother : ∀ {k u g}, tables k = some (u, g) → u ≠ t := fun hu =>
    (hc.holds_ne h.invariant (h.table _ _ _ hu).2).1
  refine ⟨hinv, hc.heap.reserved h.reserved, h.storage.of_allocated hc.heap,
    fun k u g hk => ?_, fun k hk => ?_, fun k k' u g g' hk hk' => ?_, fun k hk => ?_,
    fun i hi hk => ?_, fun i hi u g hk => ?_, h.frames⟩
  · rcases update_tables.1 hk with ⟨-, heq⟩ | ⟨-, hk⟩
    · obtain ⟨rfl, rfl⟩ := Prod.mk.inj (Option.some.inj heq)
      exact ⟨(hc.holds_ne h.invariant h.storage).1.symm, hc.holds h.invariant⟩
    · obtain ⟨hne, hb⟩ := h.table k u g hk
      exact ⟨hne, hb.of_allocated hc.heap⟩
  · by_cases hkv : k = pdx va
    · exact hkv ▸ hlt
    · rw [Function.update_of_ne hkv] at hk
      exact h.lt k hk
  · rcases update_tables.1 hk with ⟨rfl, heq⟩ | ⟨-, hk⟩ <;>
      rcases update_tables.1 hk' with ⟨rfl, heq'⟩ | ⟨-, hk'⟩
    · rfl
    · exact absurd (Prod.mk.inj (Option.some.inj heq)).1.symm (hother hk')
    · exact absurd (Prod.mk.inj (Option.some.inj heq')).1.symm (hother hk)
    · exact h.distinct k k' u g g' hk hk'
  · by_cases hkv : k = pdx va
    · rw [hkv, Function.update_self]
      exact hc.entry
    · rw [Function.update_of_ne hkv, hc.words_page h.invariant h.storage fun hat => hkv hat.2]
      exact h.entry k hk
  · refine h.empty i hi ?_
    rw [Function.update_apply] at hk
    split_ifs at hk
    exact hk
  · rcases update_tables.1 hk with ⟨hat, heq⟩ | ⟨-, hk⟩
    · obtain ⟨-, rfl⟩ := Prod.mk.inj (Option.some.inj heq)
      rw [hc.zero _ (Nat.mod_lt _ (by omega)), h.empty i hi (hat ▸ hnone)]
      rfl
    · rw [hc.words_page h.invariant (h.table _ u g hk).2 fun hat => h.table_ne hk hat.1]
      exact h.value i hi u g hk

/-- `add_frame_to_storage` updates the map, with a new page table where there was none. -/
theorem add {g : Nat} (hd : KernelHeap.DirectoryBoot L D s₀) (hfuel : L.pages + 2 ≤ fuel)
    (hi : i < D.kernelBase / pageSize)
    (hcan : CanAdd L m (L.addr s) (i / 1024)) (hg : g < L.numberOfFrames) :
    ∃ m' tables', addFrameToStorage L D fuel m (L.addr s) g i = some m' ∧
      StorageOk L D s F tables' (Function.update map i (some g)) m' ∧
      (tables' = tables ∧ m'.heap = m.heap ∨
        ∃ t f, tables (i / 1024) = none ∧
          tables' = Function.update tables (i / 1024) (some (t, f)) ∧
          KernelHeap.Allocated L m.heap t 1 m'.heap) := by
  obtain ⟨-, hpdx, hptx⟩ := pdx_index hd hi
  have hlt := index_lt hd hi
  have hstart : 0 < L.kernelHeapStart := hd.kernelBase_pos.trans_le hd.kernelBase_le
  cases hk : tables (i / 1024) with
  | none =>
    have hzero : m.storageEntry (L.addr s) (i / 1024) = 0#32 := by
      rw [h.storageEntry hlt, hk]
      rfl
    obtain ⟨pageTable, f, t, m₁, hcreate, hc, hinv⟩ := createPageTable_created hstart hd h.invariant
      (page_spec h.invariant h.storage).2.2 (hcan.2 hzero) fuel (u32 (i * pageSize))
    have hmade := h.created hinv (hpdx.symm ▸ hlt) (hpdx.symm ▸ hk) hc
    rw [hpdx] at hmade
    have hnull : TablePointer.heap pageTable ≠ TablePointer.null := fun hnull =>
      hc.address.2 (TablePointer.heap.inj hnull)
    have hframe : m₁.tableFrame (.heap pageTable) = some f := by
      rw [hc.address.1]
      exact frameBehind_page hinv (hc.holds h.invariant)
    refine ⟨_, _, ?_, hmade.store hi (Function.update_self _ _ _) hg,
      Or.inr ⟨t, f, rfl, rfl, hc.heap⟩⟩
    simp only [addFrameToStorage, h.getPageTable_missing hd hfuel hi (hcan.1.2 hzero) hk,
      Option.bind_some, if_true, h.frameBehind, hcreate, if_neg hnull, hframe, Option.map_some,
      hptx, storedEntry]
  | some tf =>
    obtain ⟨t, f⟩ := tf
    have hframe : m.tableFrame (.heap (L.addr t)) = some f :=
      frameBehind_page h.invariant (h.table _ t f hk).2
    refine ⟨_, tables, ?_, h.store hi hk hg, Or.inl ⟨rfl, rfl⟩⟩
    simp [addFrameToStorage, h.getPageTable_found hd hfuel hi hcan.1.1 hk, heap_ne_null hd t,
      hframe, hptx, storedEntry]

/-! ### Other calls -/

/-- A call on the heap that frees neither the storage nor one of its page tables. -/
theorem heapCall {c : KernelHeap.Call} {heap : KernelHeap}
    (hc : KernelHeap.promptStep L m.heap c = some heap) (hne : c ≠ .kfree (L.addr s))
    (htables : ∀ k t f, tables k = some (t, f) → c ≠ .kfree (L.addr t)) :
    StorageOk L D s F tables map { m with heap := heap } := by
  have hkeeps : ∀ {t f}, KernelHeap.Holds L m.heap t [f] → c ≠ .kfree (L.addr t) →
      KernelHeap.Holds L heap t [f] := fun {t f} hb hct =>
    (KernelHeap.prompt_run_holds [c] m.heap h.invariant hb (by simpa using hct.symm)
      ((Machine.run_cons_eq_some _).2 ⟨heap, hc, rfl⟩)).2
  exact ⟨KernelHeap.promptStep_invariant h.invariant hc,
    KernelHeap.promptStep_reserved h.invariant h.reserved hc, hkeeps h.storage hne,
    fun k t f hk => ⟨(h.table k t f hk).1, hkeeps (h.table k t f hk).2 (htables k t f hk)⟩,
    h.lt, h.distinct, h.entry, h.empty, h.value, h.frames⟩

/-- A write to a frame of another block, or to a free one. -/
theorem write {g : Nat} (hg : g ≠ F) (htables : ∀ k t f, tables k = some (t, f) → g ≠ f)
    (j : Nat) (e : Entry) :
    StorageOk L D s F tables map { m with words := writeWord m.words g j e } := by
  have hwords : ∀ {f}, g ≠ f → ∀ i, writeWord m.words g j e f i = m.words f i := fun hf i => by
    rw [writeWord_apply, if_neg fun hat => hf hat.1.symm]
  exact ⟨h.invariant, h.reserved, h.storage, h.table, h.lt, h.distinct,
    fun k hk => (hwords hg k).trans (h.entry k hk), h.empty,
    fun i hi t f hk => (hwords (htables _ t f hk) _).trans (h.value i hi t f hk), h.frames⟩

end StorageOk

end Storage

end TableMemory

end FosKernel
