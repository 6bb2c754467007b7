import FosKernel.BlockMap
import FosKernel.KernelHeap

/-!
# The representation invariant of the kernel heap

`owner` reads the block structure off `kernelHeapPages` : the owner of a non-empty page
is the page its `startAddress` names. `Synced` says that the table, the page-table
entries, the reference counts and the free frame list agree page by page, and
`Invariant` adds that the pages with one tag are one interval.

`kmalloc` claims a free run of pages and `kfree` releases a block (`kmalloc_spec`,
`kfree_spec`) : on the owner map the two are `BlockMap.claim` and `BlockMap.release`.
Each is proved one page at a time, with `mapPage` and `unmapPage` as the states between ;
`freed` is the state that unmapping the pages of a block comes to.
-/

namespace FosKernel

namespace KernelHeapLayout

variable (L : KernelHeapLayout)

theorem max_eq_addr : L.kernelHeapMax = L.addr L.pages := by
  have h1 := L.start_aligned
  have h2 := L.max_aligned
  have h3 := L.start_lt_max
  unfold addr pages pageSize at *
  omega

theorem addr_div (i : Nat) : L.addr i / pageSize = L.kernelHeapStart / pageSize + i := by
  have h := L.start_aligned
  unfold addr pageSize at *
  omega

theorem addr_div_inj {i j : Nat} : L.addr i / pageSize = L.addr j / pageSize ↔ i = j := by
  rw [L.addr_div, L.addr_div]
  omega

theorem addr_sub (i : Nat) : (L.addr i - L.kernelHeapStart) / pageSize = i :=
  PageSearch.pageIndex i

theorem addr_succ (i : Nat) : L.addr i + pageSize = L.addr (i + 1) :=
  PageSearch.page_succ i

theorem addr_lt_max {i : Nat} : L.addr i < L.kernelHeapMax ↔ i < L.pages := by
  rw [L.max_eq_addr]
  unfold addr pageSize
  omega

theorem addr_lt (i : Nat) (hi : i ≤ L.pages) : L.addr i < 4294967296 := by
  have h := L.max_le
  rw [L.max_eq_addr] at h
  unfold addr pageSize at *
  omega

/-- The index `kfree` computes for a page of the heap. -/
theorem heapPageIndex_addr {i : Nat} (hi : i ≤ L.pages) :
    u32 (L.addr i + 4294967296 - L.kernelHeapStart) / pageSize = i := by
  have h := L.max_le
  rw [L.max_eq_addr] at h
  unfold addr pageSize u32 at *
  omega

end KernelHeapLayout

namespace Memory

variable {m : Memory}

/-- Dropping the last reference frees the frame. -/
theorem decrementReferences_of_one {f : Nat} (h : (m.framesInfo f).references = 1) :
    m.decrementReferences f = m.freeFrame f := by
  simp [decrementReferences, setReferences, freeFrame, setFrameInfo, h]

theorem mapEntry_zero (n f : Nat) (perm : BitVec 32) :
    m.mapEntry n 0#32 f perm =
      some (constructEntry (toPhysicalAddress f) (perm ||| permPresent),
        m.setReferences f ((m.framesInfo f).references + 1)) := by
  simp [mapEntry, not_isPresent_zero]

end Memory

namespace KernelHeap

variable {L : KernelHeapLayout} {s s' : KernelHeap}

/-- The entry `kmalloc` gives the page it maps to frame `f`. -/
def heapEntry (f : Nat) : Entry :=
  constructEntry (toPhysicalAddress f) (heapPerm ||| permPresent)

theorem isPerm_heapPerm : IsPerm (heapPerm ||| permPresent) := by
  decide

theorem frameNumber_heapEntry {f : Nat} (hf : f < L.numberOfFrames) :
    frameNumber (heapEntry f) = f :=
  frameNumber_constructEntry (lt_of_lt_of_le hf L.numberOfFrames_le) isPerm_heapPerm

theorem heapEntry_ne_zero (f : Nat) : heapEntry f ≠ 0#32 :=
  (isPresent_constructEntry _ _).ne_zero

theorem heapEntry_inj {f g : Nat} (hf : f < L.numberOfFrames) (hg : g < L.numberOfFrames)
    (h : heapEntry f = heapEntry g) : f = g := by
  rw [← frameNumber_heapEntry hf, h, frameNumber_heapEntry hg]

/-- The page-table entry of page `i` of the heap. -/
def entry (L : KernelHeapLayout) (s : KernelHeap) (i : Nat) : Entry :=
  s.kernelEntries (L.addr i / pageSize)

/-- The first page of the block that page `i` belongs to. Before the table is
initialized every page is free, whatever the table holds. -/
def owner (L : KernelHeapLayout) (s : KernelHeap) : BlockMap.OwnerMap := fun i =>
  if i < L.pages ∧ s.isKHpageEmpty = false ∧ (s.kernelHeapPages i).isEmpty = false then
    some (((s.kernelHeapPages i).startAddress - L.kernelHeapStart) / pageSize)
  else none

/-- The table, the page-table entries and the frames agree, page by page. -/
structure Synced (L : KernelHeapLayout) (s : KernelHeap) : Prop where
  tagged : ∀ i t, owner L s i = some t → (s.kernelHeapPages i).startAddress = L.addr t
  unmapped : ∀ i, i < L.pages → owner L s i = none → entry L s i = 0#32
  mapped : ∀ i t, owner L s i = some t → ∃ f, f < L.numberOfFrames ∧
    entry L s i = heapEntry f ∧ (s.memory.framesInfo f).references = 1 ∧
    f ∉ s.memory.freeFrameList
  distinct : ∀ i j, (owner L s i).isSome → (owner L s j).isSome →
    entry L s i = entry L s j → i = j
  frames : s.memory.FramesOk L.numberOfFrames

/-- The representation invariant. -/
structure Invariant (L : KernelHeapLayout) (s : KernelHeap) : Prop extends Synced L s where
  contiguous : BlockMap.Contiguous (owner L s)
  hand : ∃ j, j ≤ L.pages ∧ s.lastAllocatedKHpage = L.addr j

/-- The frame behind page `i`. -/
def frameAt (L : KernelHeapLayout) (s : KernelHeap) (i : Nat) : Nat :=
  frameNumber (entry L s i)

theorem owner_eq_none_of_pages_le {i : Nat} (hi : L.pages ≤ i) : owner L s i = none :=
  if_neg fun h => by omega

theorem lt_pages_of_owner {i t : Nat} (h : owner L s i = some t) : i < L.pages := by
  by_contra hi
  rw [owner_eq_none_of_pages_le (by omega)] at h
  cases h

theorem owner_of_not_init (h : s.isKHpageEmpty = true) : owner L s = fun _ => none := by
  ext i : 1
  simp [owner, h]

theorem owner_isSome_iff (hinit : s.isKHpageEmpty = false) {i : Nat} (hi : i < L.pages) :
    (owner L s i).isSome ↔ (s.kernelHeapPages i).isEmpty = false := by
  unfold owner
  split_ifs with h
  · simp [h.2.2]
  · simpa [hi, hinit] using h

/-- A page is in the block `t` exactly when `kfree` of the start of `t` matches it. -/
theorem owner_eq_some_iff (hs : Synced L s) (hinit : s.isKHpageEmpty = false) {i t : Nat}
    (hi : i < L.pages) : owner L s i = some t ↔
      (s.kernelHeapPages i).isEmpty = false ∧ (s.kernelHeapPages i).startAddress = L.addr t := by
  constructor
  · intro h
    exact ⟨(owner_isSome_iff hinit hi).1 (by simp [h]), hs.tagged i t h⟩
  · rintro ⟨hemp, hstart⟩
    unfold owner
    rw [if_pos ⟨hi, hinit, hemp⟩, hstart, L.addr_sub]

theorem Synced.frameAt_spec (hs : Synced L s) {i t : Nat} (h : owner L s i = some t) :
    frameAt L s i < L.numberOfFrames ∧ entry L s i = heapEntry (frameAt L s i) ∧
      (s.memory.framesInfo (frameAt L s i)).references = 1 ∧
      frameAt L s i ∉ s.memory.freeFrameList := by
  obtain ⟨f, hf, he, hrefs, hfree⟩ := hs.mapped i t h
  have hfr : frameAt L s i = f := by rw [frameAt, he, frameNumber_heapEntry hf]
  rw [hfr]
  exact ⟨hf, he, hrefs, hfree⟩

/-! ## One page mapped -/

/-- Page `i` mapped to the free frame `f` and tagged with page `t`. -/
def mapPage (L : KernelHeapLayout) (s : KernelHeap) (i t f : Nat) (rest : List Nat) :
    KernelHeap :=
  { s with
    kernelHeapPages := Function.update s.kernelHeapPages i ⟨L.addr t, false⟩
    kernelEntries := Function.update s.kernelEntries (L.addr i / pageSize) (heapEntry f)
    memory := (s.memory.taken f rest).setReferences f 1 }

theorem entry_mapPage (i t f j : Nat) (rest : List Nat) :
    entry L (mapPage L s i t f rest) j = if j = i then heapEntry f else entry L s j := by
  simp only [entry, mapPage, Function.update_apply, L.addr_div_inj]

theorem owner_mapPage (hinit : s.isKHpageEmpty = false) {i t f : Nat} {rest : List Nat}
    (hi : i < L.pages) (j : Nat) :
    owner L (mapPage L s i t f rest) j = if j = i then some t else owner L s j := by
  by_cases hj : j = i
  · subst hj
    simp [owner, mapPage, hi, hinit, L.addr_sub]
  · simp [owner, mapPage, hj]

theorem framesInfo_mapPage (i t f g : Nat) (rest : List Nat) :
    ((mapPage L s i t f rest).memory.framesInfo g) =
      if g = f then { initializeFrameInfo with references := 1 } else s.memory.framesInfo g := by
  by_cases hg : g = f
  · subst hg
    simp [mapPage, Memory.setReferences_framesInfo, Memory.taken_framesInfo]
  · simp [mapPage, Memory.setReferences_framesInfo, Memory.taken_framesInfo, hg]

theorem Synced.mapPage (hs : Synced L s) (hinit : s.isKHpageEmpty = false) {i t f : Nat}
    {rest : List Nat} (hi : i < L.pages) (hfree : owner L s i = none)
    (hl : s.memory.freeFrameList = f :: rest) : Synced L (mapPage L s i t f rest) := by
  have hf : f < L.numberOfFrames := hs.frames.lt f (by simp [hl])
  have hnd := hs.frames.nodup
  rw [hl, List.nodup_cons] at hnd
  have howner : ∀ j u, owner L (KernelHeap.mapPage L s i t f rest) j = some u → j ≠ i →
      owner L s j = some u := fun j u h hj => by
    rwa [owner_mapPage hinit hi, if_neg hj] at h
  -- A frame already mapped is not the frame just taken from the free list.
  have hold : ∀ j u, owner L s j = some u → entry L s j ≠ heapEntry f := by
    intro j u hj he
    obtain ⟨g, hg, hge, -, hgf⟩ := hs.mapped j u hj
    obtain rfl := heapEntry_inj hf hg (he.symm.trans hge)
    simp [hl] at hgf
  constructor
  · intro j u h
    by_cases hj : j = i
    · subst hj
      rw [owner_mapPage hinit hi, if_pos rfl, Option.some.injEq] at h
      simp [KernelHeap.mapPage, h]
    · have := hs.tagged j u (howner j u h hj)
      simpa [KernelHeap.mapPage, hj] using this
  · intro j hj h
    rw [owner_mapPage hinit hi] at h
    split_ifs at h with hji
    rw [entry_mapPage, if_neg hji]
    exact hs.unmapped j hj h
  · intro j u h
    by_cases hj : j = i
    · subst hj
      refine ⟨f, hf, by rw [entry_mapPage, if_pos rfl], ?_, hnd.1⟩
      rw [framesInfo_mapPage, if_pos rfl]
    · obtain ⟨g, hg, hge, hrefs, hgf⟩ := hs.mapped j u (howner j u h hj)
      rw [hl, List.mem_cons, not_or] at hgf
      refine ⟨g, hg, by rw [entry_mapPage, if_neg hj, hge], ?_, hgf.2⟩
      rw [framesInfo_mapPage, if_neg hgf.1]
      exact hrefs
  · intro j k hj hk he
    obtain ⟨u, hu⟩ := Option.isSome_iff_exists.1 hj
    obtain ⟨v, hv⟩ := Option.isSome_iff_exists.1 hk
    rw [entry_mapPage, entry_mapPage] at he
    by_cases hji : j = i <;> by_cases hki : k = i
    · rw [hji, hki]
    · rw [if_pos hji, if_neg hki] at he
      exact absurd he.symm (hold k v (howner k v hv hki))
    · rw [if_neg hji, if_pos hki] at he
      exact absurd he (hold j u (howner j u hu hji))
    · rw [if_neg hji, if_neg hki] at he
      exact hs.distinct j k (by simp [howner j u hu hji]) (by simp [howner k v hv hki]) he
  · exact (hs.frames.taken hl).setReferences hnd.1 1

/-- One trip of the loop of `kmalloc`. -/
theorem kmallocLoop_succ (hs : Synced L s) {i t n f : Nat} {rest : List Nat}
    (hi : i < L.pages) (hfree : owner L s i = none) (hl : s.memory.freeFrameList = f :: rest) :
    kmallocLoop L (L.addr t) (n + 1) (L.addr i) s =
      kmallocLoop L (L.addr t) n (L.addr (i + 1)) (mapPage L s i t f rest) := by
  have halloc := (Memory.allocateFrame_of_framesOk hs.frames).2 ⟨rest, hl, rfl⟩
  have he : s.kernelEntries (L.addr i / pageSize) = 0#32 := hs.unmapped i hi hfree
  simp [kmallocLoop, halloc, mapFrame, he, Memory.mapEntry_zero, setEntry, setPage, mapPage,
    heapEntry, L.addr_sub, L.addr_succ, Memory.taken_framesInfo, initializeFrameInfo]

theorem kmallocLoop_nil (hs : Synced L s) {i t n : Nat} (hl : s.memory.freeFrameList = []) :
    kmallocLoop L (L.addr t) (n + 1) (L.addr i) s = none := by
  simp [kmallocLoop, (Memory.allocateFrame_eq_none hs.frames).2 hl]

/-- What the loop of `kmalloc` does with `n` free pages from page `i` : it takes the
first `n` free frames, in order, and maps one page to each. -/
structure Mapped (L : KernelHeapLayout) (s : KernelHeap) (i t n : Nat) (s' : KernelHeap) :
    Prop where
  synced : Synced L s'
  owner : ∀ j, owner L s' j = if i ≤ j ∧ j < i + n then some t else KernelHeap.owner L s j
  frames : ∃ taken, s.memory.freeFrameList = taken ++ s'.memory.freeFrameList ∧
    taken.length = n ∧ ∀ k, (hk : k < taken.length) → frameAt L s' (i + k) = taken[k]
  entries : ∀ j, ¬(i ≤ j ∧ j < i + n) → entry L s' j = entry L s j
  initialized : s'.isKHpageEmpty = false
  hand : s'.lastAllocatedKHpage = s.lastAllocatedKHpage

theorem kmallocLoop_spec {t : Nat} :
    ∀ (n i : Nat) (s s' : KernelHeap), Synced L s → s.isKHpageEmpty = false → i + n ≤ L.pages →
      BlockMap.FreeRun (owner L s) i n →
      kmallocLoop L (L.addr t) n (L.addr i) s = some s' → Mapped L s i t n s'
  | 0, i, s, s', hs, hinit, _, _, h => by
    obtain rfl := Option.some.inj h
    refine ⟨hs, fun j => (if_neg (by omega)).symm, ⟨[], by simp, rfl, by simp⟩,
      fun j _ => rfl, hinit, rfl⟩
  | n + 1, i, s, s', hs, hinit, hin, hfree, h => by
    have hi : i < L.pages := by omega
    have hfi : owner L s i = none := hfree i le_rfl (by omega)
    cases hl : s.memory.freeFrameList with
    | nil =>
      rw [kmallocLoop_nil hs hl] at h
      cases h
    | cons f rest =>
      rw [kmallocLoop_succ hs hi hfi hl] at h
      have hown : ∀ j, KernelHeap.owner L (mapPage L s i t f rest) j =
          if j = i then some t else KernelHeap.owner L s j := owner_mapPage hinit hi
      have hfree' : BlockMap.FreeRun (KernelHeap.owner L (mapPage L s i t f rest)) (i + 1) n := by
        intro j hlo hhi
        rw [hown, if_neg (by omega)]
        exact hfree j (by omega) (by omega)
      have ih := kmallocLoop_spec n (i + 1) (mapPage L s i t f rest) s' (hs.mapPage hinit hi hfi hl)
        hinit (by omega) hfree' h
      have hf : f < L.numberOfFrames := hs.frames.lt f (by simp [hl])
      obtain ⟨taken, hlist, hlen, htaken⟩ := ih.frames
      refine ⟨ih.synced, fun j => ?_, ⟨f :: taken, ?_, by simp [hlen], ?_⟩, fun j hj => ?_,
        ih.initialized, ih.hand⟩
      · rw [ih.owner, hown]
        by_cases hj : j = i
        · simp [hj]
        · have : i + 1 ≤ j ∧ j < i + 1 + n ↔ i ≤ j ∧ j < i + (n + 1) := by omega
          simp only [this, hj, if_false]
      · simpa [hl, mapPage] using hlist
      · intro k hk
        cases k with
        | zero =>
          have he : entry L s' i = heapEntry f := by
            rw [ih.entries i (by omega), entry_mapPage, if_pos rfl]
          simp only [Nat.add_zero, List.getElem_cons_zero, frameAt, he]
          exact frameNumber_heapEntry hf
        | succ k =>
          have := htaken k (by simpa using hk)
          rw [Nat.add_assoc, Nat.add_comm 1] at this
          simpa using this
      · rw [ih.entries j (by omega), entry_mapPage, if_neg (by omega)]

/-! ## One page unmapped -/

/-- Page `i` unmapped, its frame freed. -/
def unmapPage (L : KernelHeapLayout) (s : KernelHeap) (i : Nat) : KernelHeap :=
  { s with
    kernelHeapPages := Function.update s.kernelHeapPages i ⟨L.addr i, true⟩
    kernelEntries := Function.update s.kernelEntries (L.addr i / pageSize) 0#32
    memory := s.memory.freeFrame (frameAt L s i) }

theorem entry_unmapPage (i j : Nat) :
    entry L (unmapPage L s i) j = if j = i then 0#32 else entry L s j := by
  simp only [entry, unmapPage, Function.update_apply, L.addr_div_inj]

theorem owner_unmapPage (i j : Nat) :
    owner L (unmapPage L s i) j = if j = i then none else owner L s j := by
  by_cases hj : j = i
  · subst hj
    simp [owner, unmapPage]
  · simp [owner, unmapPage, hj]

theorem Synced.unmapPage (hs : Synced L s) {i t : Nat} (hi : owner L s i = some t) :
    Synced L (unmapPage L s i) := by
  obtain ⟨hf, he, -, hfree⟩ := hs.frameAt_spec hi
  have howner : ∀ j u, owner L (KernelHeap.unmapPage L s i) j = some u →
      j ≠ i ∧ owner L s j = some u := fun j u h => by
    rw [owner_unmapPage] at h
    split_ifs at h with hj
    exact ⟨hj, h⟩
  constructor
  · intro j u h
    obtain ⟨hj, hu⟩ := howner j u h
    simpa [KernelHeap.unmapPage, hj] using hs.tagged j u hu
  · intro j hj h
    rw [entry_unmapPage]
    split_ifs with hji
    · rfl
    · rw [owner_unmapPage, if_neg hji] at h
      exact hs.unmapped j hj h
  · intro j u h
    obtain ⟨hj, hu⟩ := howner j u h
    obtain ⟨g, hg, hge, hrefs, hgf⟩ := hs.mapped j u hu
    -- Another page is backed by another frame.
    have hne : g ≠ frameAt L s i := by
      intro hgi
      refine hj (hs.distinct j i (by simp [hu]) (by simp [hi]) ?_)
      rw [hge, he, hgi]
    refine ⟨g, hg, by rw [entry_unmapPage, if_neg hj, hge], ?_, ?_⟩
    · simpa [KernelHeap.unmapPage, Memory.freeFrame_framesInfo, hne] using hrefs
    · simpa [KernelHeap.unmapPage, hne] using hgf
  · intro j k hj hk heq
    obtain ⟨u, hu⟩ := Option.isSome_iff_exists.1 hj
    obtain ⟨v, hv⟩ := Option.isSome_iff_exists.1 hk
    obtain ⟨hji, hu⟩ := howner j u hu
    obtain ⟨hki, hv⟩ := howner k v hv
    rw [entry_unmapPage, entry_unmapPage, if_neg hji, if_neg hki] at heq
    exact hs.distinct j k (by simp [hu]) (by simp [hv]) heq
  · exact hs.frames.freeFrame hfree hf

theorem page_of_lt {i : Nat} (hi : i < L.pages) : page L s i = some (s.kernelHeapPages i) :=
  if_pos (by unfold KernelHeapLayout.maxKernelHeapPages; unfold KernelHeapLayout.pages at hi; omega)

/-- One trip of the loop of `kfree`, at a page of the block freed. -/
theorem kfreeLoop_succ (hs : Synced L s) (hinit : s.isKHpageEmpty = false) {i t fuel : Nat}
    (hi : owner L s i = some t) :
    kfreeLoop L (L.addr t) (fuel + 1) (L.addr i) s =
      kfreeLoop L (L.addr t) fuel (L.addr (i + 1)) (unmapPage L s i) := by
  have hlt := lt_pages_of_owner hi
  obtain ⟨hf, he, hrefs, -⟩ := hs.frameAt_spec hi
  have hp := (owner_eq_some_iff hs hinit hlt).1 hi
  have hun : unmapFrame L s (L.addr i) =
      some (s.setEntry (L.addr i) 0#32 (s.memory.freeFrame (frameAt L s i))) := by
    unfold unmapFrame Memory.unmapEntry
    change Option.map _ (if entry L s i = 0#32 then _ else _) = _
    rw [if_neg (he ▸ heapEntry_ne_zero _)]
    change Option.map _ (if frameAt L s i < _ then some (_, s.memory.decrementReferences
      (frameAt L s i)) else _) = _
    rw [if_pos hf, Memory.decrementReferences_of_one hrefs]
    rfl
  rw [kfreeLoop, if_pos (L.addr_lt_max.2 hlt)]
  simp only [L.heapPageIndex_addr hlt.le, page_of_lt hlt, Option.bind_some, if_pos hp, hun,
    L.addr_succ]
  rfl

/-- The loop of `kfree` stops at a page that is not of the block freed. -/
theorem kfreeLoop_stop (hs : Synced L s) (hinit : s.isKHpageEmpty = false) {i t fuel : Nat}
    (hle : i ≤ L.pages) (hi : owner L s i ≠ some t) :
    kfreeLoop L (L.addr t) fuel (L.addr i) s = some s := by
  cases fuel with
  | zero => rfl
  | succ fuel =>
    rw [kfreeLoop]
    split_ifs with hlt
    · rw [L.addr_lt_max] at hlt
      have hp := mt (owner_eq_some_iff hs hinit hlt).2 hi
      simp only [L.heapPageIndex_addr hle, page_of_lt hlt, Option.bind_some, if_neg hp]
    · rfl

/-- The heap after the `n` pages from page `t` are freed : they are empty and unmapped, and
their frames are on the free list, the last page's frame first. -/
def freed (L : KernelHeapLayout) (s : KernelHeap) (t n : Nat) : KernelHeap :=
  let frames := (List.range' t n).map (frameAt L s)
  { s with
    kernelHeapPages := fun i => if t ≤ i ∧ i < t + n then ⟨L.addr i, true⟩ else s.kernelHeapPages i
    kernelEntries := fun v =>
      if L.addr t / pageSize ≤ v ∧ v < L.addr t / pageSize + n then 0#32 else s.kernelEntries v
    memory :=
      { s.memory with
        framesInfo := fun f => if f ∈ frames then initializeFrameInfo else s.memory.framesInfo f
        freeFrameList := frames.reverse ++ s.memory.freeFrameList } }

theorem freed_zero (t : Nat) : freed L s t 0 = s := by
  simp only [freed, BlockMap.interval_zero, List.range'_zero, List.map_nil, List.not_mem_nil,
    if_false, List.reverse_nil, List.nil_append]

/-- The first page, and then the rest. -/
theorem freed_succ (t n : Nat) : freed L (unmapPage L s t) (t + 1) n = freed L s t (n + 1) := by
  have hframes : (List.range' (t + 1) n).map (frameAt L (unmapPage L s t)) =
      (List.range' (t + 1) n).map (frameAt L s) := by
    refine List.map_congr_left fun i hi => ?_
    rw [List.mem_range'_1] at hi
    rw [frameAt, entry_unmapPage, if_neg (by omega), frameAt]
  have hpage : L.addr (t + 1) / pageSize = L.addr t / pageSize + 1 := by
    rw [L.addr_div, L.addr_div, Nat.add_assoc]
  have hpages := BlockMap.interval_succ s.kernelHeapPages (fun i => ⟨L.addr i, true⟩) t n
  have hentries :=
    BlockMap.interval_succ s.kernelEntries (fun _ => 0#32) (L.addr t / pageSize) n
  have hinfo : (fun f => if f ∈ (List.range' (t + 1) n).map (frameAt L s) then initializeFrameInfo
      else (s.memory.freeFrame (frameAt L s t)).framesInfo f) =
      fun f => if f ∈ (List.range' t (n + 1)).map (frameAt L s) then initializeFrameInfo
        else s.memory.framesInfo f := by
    ext1 f
    rw [Memory.freeFrame_framesInfo, List.range'_succ, List.map_cons]
    by_cases hf : f = frameAt L s t
    · simp [hf]
    · simp only [List.mem_cons, hf, false_or, if_false]
  have hlist : ((List.range' (t + 1) n).map (frameAt L s)).reverse ++
      (s.memory.freeFrame (frameAt L s t)).freeFrameList =
      ((List.range' t (n + 1)).map (frameAt L s)).reverse ++ s.memory.freeFrameList := by
    rw [List.range'_succ, List.map_cons, List.reverse_cons, List.append_assoc]
    rfl
  simp only [freed, hframes]
  simp only [unmapPage, hpage, hpages, hentries, hinfo, hlist]
  rfl

theorem entry_freed (t n j : Nat) :
    entry L (freed L s t n) j = if t ≤ j ∧ j < t + n then 0#32 else entry L s j := by
  simp only [entry, freed, L.addr_div]
  exact if_congr (by omega) rfl rfl

theorem owner_freed (t n j : Nat) :
    owner L (freed L s t n) j = if t ≤ j ∧ j < t + n then none else owner L s j := by
  by_cases hj : t ≤ j ∧ j < t + n
  · simp [owner, freed, hj]
  · simp only [owner, freed, if_neg hj]

theorem synced_freed {t : Nat} :
    ∀ (n i : Nat) {s : KernelHeap}, Synced L s →
      (∀ j, i ≤ j → j < i + n → owner L s j = some t) → Synced L (freed L s i n)
  | 0, i, s, hs, _ => by
    rw [freed_zero]
    exact hs
  | n + 1, i, s, hs, htag => by
    rw [← freed_succ]
    refine synced_freed (t := t) n (i + 1) (hs.unmapPage (htag i le_rfl (by omega)))
      fun j hlo hhi => ?_
    rw [owner_unmapPage, if_neg (by omega)]
    exact htag j (by omega) (by omega)

/-- What the loop of `kfree` does from page `i` to the end `e` of a block : it unmaps the
pages and puts their frames on the free list, the first page's frame first. -/
structure Unmapped (L : KernelHeapLayout) (s : KernelHeap) (i e : Nat) (s' : KernelHeap) :
    Prop where
  synced : Synced L s'
  owner : ∀ j, owner L s' j = if i ≤ j ∧ j < e then none else KernelHeap.owner L s j
  frames : s'.memory.freeFrameList =
    ((List.range' i (e - i)).map (frameAt L s)).reverse ++ s.memory.freeFrameList
  entries : ∀ j, ¬(i ≤ j ∧ j < e) → entry L s' j = entry L s j
  initialized : s'.isKHpageEmpty = false
  hand : s'.lastAllocatedKHpage = s.lastAllocatedKHpage

theorem unmapped_freed (hs : Synced L s) (hinit : s.isKHpageEmpty = false) {i n t : Nat}
    (htag : ∀ j, i ≤ j → j < i + n → owner L s j = some t) :
    Unmapped L s i (i + n) (freed L s i n) := by
  refine ⟨synced_freed n i hs htag, owner_freed i n, ?_, fun j hj => ?_, hinit, rfl⟩
  · rw [Nat.add_sub_cancel_left]
    rfl
  · rw [entry_freed, if_neg hj]

/-- The walk of `kfree` over a block frees it and does nothing else. -/
theorem kfreeLoop_freed {t e : Nat} :
    ∀ (k i : Nat) (s : KernelHeap), Synced L s → s.isKHpageEmpty = false → i + k = e →
      e ≤ L.pages → (∀ j, i ≤ j → (owner L s j = some t ↔ j < e)) →
      kfreeLoop L (L.addr t) (L.pages - i) (L.addr i) s = some (freed L s i k)
  | 0, i, s, hs, hinit, hie, hep, htag => by
    have hstop : owner L s i ≠ some t := fun h => by
      have := (htag i le_rfl).1 h
      omega
    rw [kfreeLoop_stop hs hinit (by omega) hstop, freed_zero]
  | k + 1, i, s, hs, hinit, hie, hep, htag => by
    have hi : owner L s i = some t := (htag i le_rfl).2 (by omega)
    have htag' : ∀ j, i + 1 ≤ j → (owner L (unmapPage L s i) j = some t ↔ j < e) := by
      intro j hj
      rw [owner_unmapPage, if_neg (by omega)]
      exact htag j (by omega)
    have hfuel : L.pages - i = L.pages - (i + 1) + 1 := by omega
    rw [hfuel, kfreeLoop_succ hs hinit hi, kfreeLoop_freed k (i + 1) (unmapPage L s i)
      (hs.unmapPage hi) hinit (by omega) hep htag', freed_succ]

end KernelHeap

end FosKernel
