import FosKernel.KernelHeapRuns
import FosKernel.UserMappings

/-!
# Removing empty page tables

`removeEmptyNonUsedPages` looks at the page table of every page of a range, and gives an
empty one back to the kernel heap. `TablesOk` : the user page tables are blocks of one heap
page, each of its own. Then `kfree` of a table empties that page and no other
(`freePageTable_eq`), also while the rest of the kernel heap is in disorder.

`Drops` is what the removal of some tables of one environment does, and composes
(`Drops.trans`). `removeEmptyNonUsedPages_drops` : the loop returns, and the tables dropped
are the empty ones that a page of the range lies in.
-/

namespace FosKernel

namespace KernelHeap

variable {L : KernelHeapLayout} {s s' : KernelHeap} {i j : Nat}

/-- The heap after `kfree` of the block of the one page `i`. -/
def freedPage (L : KernelHeapLayout) (s : KernelHeap) (i : Nat) : KernelHeap :=
  { s with
    kernelHeapPages := Function.update s.kernelHeapPages i ⟨L.addr i, true⟩
    kernelEntries := Function.update s.kernelEntries (L.addr i / pageSize) 0#32
    memory := s.memory.decrementReferences (frameAt L s i) }

theorem entry_freedPage : entry L (freedPage L s i) j = if j = i then 0#32 else entry L s j := by
  simp only [entry, freedPage, Function.update_apply, L.addr_div_inj]

/-- `kfree` of a block of one page, whatever the frame's counter is. -/
theorem kfree_page (hb : IsBlock L s i 1) (he : entry L s i ≠ 0#32)
    (hf : frameAt L s i < L.numberOfFrames) : kfree L s (L.addr i) = some (freedPage L s i) := by
  have hi : i < L.pages := by
    have := hb.fits
    omega
  obtain ⟨⟨hinit, hempty⟩, hstart⟩ := (hb.tagged i hi).2 (by omega)
  have hun : unmapFrame L s (L.addr i) =
      some (s.setEntry (L.addr i) 0#32 (s.memory.decrementReferences (frameAt L s i))) := by
    unfold unmapFrame Memory.unmapEntry
    change Option.map _ (if entry L s i = 0#32 then _ else _) = _
    rw [if_neg he]
    change Option.map _ (if frameAt L s i < _ then some (_, s.memory.decrementReferences
      (frameAt L s i)) else _) = _
    rw [if_pos hf]
    rfl
  have hfuel : L.pages - i = L.pages - (i + 1) + 1 := by omega
  have hstop : kfreeLoop L (L.addr i) (L.pages - (i + 1)) (L.addr (i + 1)) (freedPage L s i) =
      some (freedPage L s i) := by
    cases hrest : L.pages - (i + 1) with
    | zero => rfl
    | succ fuel =>
      have hnext : i + 1 < L.pages := by omega
      have hother : ¬((s.kernelHeapPages (i + 1)).isEmpty = false ∧
          (s.kernelHeapPages (i + 1)).startAddress = L.addr i) := fun h => by
        have := (hb.tagged (i + 1) hnext).1 ⟨⟨hinit, h.1⟩, h.2⟩
        omega
      have hpage : (freedPage L s i).kernelHeapPages (i + 1) = s.kernelHeapPages (i + 1) :=
        Function.update_of_ne (by omega) ..
      rw [kfreeLoop, if_pos (L.addr_lt_max.2 hnext)]
      simp only [L.heapPageIndex_addr hnext.le, page_of_lt hnext, Option.bind_some, hpage,
        if_neg hother]
  rw [kfree, pageTrips_addr, hfuel, kfreeLoop, if_pos (L.addr_lt_max.2 hi)]
  simp only [L.heapPageIndex_addr hi.le, page_of_lt hi, Option.bind_some,
    if_pos (And.intro hempty hstart), hun, L.addr_succ]
  exact hstop

end KernelHeap

namespace UserMemory

open KernelHeap (entry frameAt IsBlock NonEmpty freedPage entry_freedPage kfree_page)

variable {P : Type} {L : UserLayout} {s s' s'' : UserMemory P} {env va : Nat}

/-- Heap page `i` is a block of its own, and the only one mapped to the frame of `t`. -/
structure TableBlock (L : KernelHeapLayout) (s : KernelHeap) (t : PageTable) (i : Nat) :
    Prop where
  block : IsBlock L s i 1
  frame_lt : t.frame < L.numberOfFrames
  resolves : ∀ j, j < L.pages →
    (entry L s j ≠ 0#32 ∧ frameNumber (entry L s j) = t.frame ↔ j = i)

theorem TableBlock.lt_pages {L : KernelHeapLayout} {s : KernelHeap} {t : PageTable} {i : Nat}
    (h : TableBlock L s t i) : i < L.pages := by
  have := h.block.fits
  omega

/-- In a consistent heap, a block of one page is the block of a table in its frame. -/
theorem TableBlock.of_consistent {L : KernelHeapLayout} {s : KernelHeap}
    (h : KernelHeap.Consistent L s) {i : Nat} (hb : IsBlock L s i 1) {t : PageTable}
    (ht : t.frame = frameAt L s i) : TableBlock L s t i := by
  have hi : i < L.pages := by
    have := hb.fits
    omega
  have hne := ((hb.tagged i hi).2 (by omega)).1
  refine ⟨hb, ht.trans_lt (h.backed i hi hne).1, fun j hj => ⟨fun hc => ?_, ?_⟩⟩
  · exact h.distinct j i hj hi ((h.mapped_iff j hj).1 hc.1) hne (hc.2.trans ht)
  · rintro rfl
    exact ⟨(h.mapped_iff j hj).2 hne, ht.symm⟩

/-- A frame backs one table block at most. -/
theorem TableBlock.unique {L : KernelHeapLayout} {s : KernelHeap} {t t' : PageTable} {i j : Nat}
    (h : TableBlock L s t i) (h' : TableBlock L s t' j) : i = j ↔ t.frame = t'.frame := by
  obtain ⟨hne, hframe⟩ := (h.resolves i h.lt_pages).2 rfl
  constructor
  · rintro rfl
    exact hframe.symm.trans ((h'.resolves i h.lt_pages).2 rfl).2
  · intro heq
    exact (h'.resolves i h.lt_pages).1 ⟨hne, hframe.trans heq⟩

/-- The page tables of the environments are blocks of one heap page, each of its own. -/
structure TablesOk (L : UserLayout) (s : UserMemory P) : Prop where
  backed : ∀ env k t, s.heap.memory.directories env k = some t →
    ∃ i, TableBlock L.toKernelHeapLayout s.heap t i
  distinct : ∀ env k t env' k' t', s.heap.memory.directories env k = some t →
    s.heap.memory.directories env' k' = some t' → t.frame = t'.frame → env = env' ∧ k = k'

theorem tableAddress_eq {t : PageTable} {i : Nat}
    (h : TableBlock L.toKernelHeapLayout s.heap t i) : s.tableAddress L t = some (L.addr i) := by
  have hfind : ((List.range L.pages).find? fun i =>
      decide (entry L.toKernelHeapLayout s.heap i ≠ 0#32 ∧
        frameNumber (entry L.toKernelHeapLayout s.heap i) = t.frame)) = some i := by
    rw [List.find?_range_eq_some]
    refine ⟨by simpa using (h.resolves i h.lt_pages).2 rfl, List.mem_range.2 h.lt_pages,
      fun j hj => ?_⟩
    rw [Bool.not_eq_true', decide_eq_false_iff_not]
    exact mt (h.resolves j (hj.trans h.lt_pages)).1 hj.ne
  exact (congrArg (Option.map L.addr) hfind).trans rfl

/-- The table in heap page `i` is freed and the slot `k` of the directory cleared. -/
def droppedTable (L : UserLayout) (s : UserMemory P) (env k i : Nat) : UserMemory P :=
  { s with
    heap :=
      { freedPage L.toKernelHeapLayout s.heap i with
        memory :=
          { (freedPage L.toKernelHeapLayout s.heap i).memory with
            directories := Function.update s.heap.memory.directories env
              (Function.update (s.heap.memory.directories env) k none) } } }

theorem directories_droppedTable (s : UserMemory P) (env k i k' : Nat) :
    (s.droppedTable L env k i).heap.memory.directories env k' =
      if k' = k then none else s.heap.memory.directories env k' := by
  simp only [droppedTable, Function.update_self, Function.update_apply]

theorem freePageTable_eq {t : PageTable} {i : Nat}
    (h : TableBlock L.toKernelHeapLayout s.heap t i) :
    s.freePageTable L env va t = some (s.droppedTable L env (pdx va) i) := by
  obtain ⟨hne, hframe⟩ := (h.resolves i h.lt_pages).2 rfl
  have hfree := kfree_page h.block hne (hframe.trans_lt h.frame_lt)
  have hdir : (freedPage L.toKernelHeapLayout s.heap i).memory.directories =
      s.heap.memory.directories := (Memory.sameTables_decrementReferences _ _).directories
  simp only [freePageTable, tableAddress_eq h, Option.bind_eq_bind, Option.bind_some, hfree, hdir]
  rfl

/-- Unmapping user pages leaves the tables where they are. -/
theorem TableBlock.unmaps {t t' : PageTable} {i : Nat}
    (h : TableBlock L.toKernelHeapLayout s.heap t i) (hu : Unmaps s s')
    (hframe : t'.frame = t.frame) : TableBlock L.toKernelHeapLayout s'.heap t' i := by
  have hentry : ∀ j, entry L.toKernelHeapLayout s'.heap j =
      entry L.toKernelHeapLayout s.heap j := fun j => congrFun hu.kernelEntries _
  refine ⟨⟨Nat.one_pos, h.block.fits, fun j hj => ?_⟩, hframe.trans_lt h.frame_lt, fun j hj => ?_⟩
  · rw [NonEmpty, hu.initialized, hu.kernelHeapPages]
    exact h.block.tagged j hj
  · rw [hentry, hframe]
    exact h.resolves j hj

/-- The table that was in a slot before user pages were unmapped. -/
theorem Unmaps.of_some (hu : Unmaps s s') {e k : Nat} {t' : PageTable}
    (h : s'.heap.memory.directories e k = some t') :
    ∃ t, s.heap.memory.directories e k = some t ∧ t'.frame = t.frame := by
  have hframes := hu.frames e k
  rw [h, Option.map_some] at hframes
  obtain ⟨t, ht, hframe⟩ := Option.map_eq_some_iff.1 hframes.symm
  exact ⟨t, ht, hframe.symm⟩

/-- The table that is in a slot after user pages were unmapped. -/
theorem Unmaps.exists_some (hu : Unmaps s s') {e k : Nat} {t : PageTable}
    (h : s.heap.memory.directories e k = some t) :
    ∃ t', s'.heap.memory.directories e k = some t' ∧ t'.frame = t.frame := by
  have hframes := hu.frames e k
  rw [h, Option.map_some] at hframes
  exact Option.map_eq_some_iff.1 hframes

theorem TablesOk.unmaps (htables : TablesOk L s) (hu : Unmaps s s') : TablesOk L s' := by
  refine ⟨fun e k t' h => ?_, fun e k t e' k' t' h h' hframe => ?_⟩
  · obtain ⟨t, ht, hframe⟩ := hu.of_some h
    obtain ⟨i, hb⟩ := htables.backed e k t ht
    exact ⟨i, hb.unmaps hu hframe⟩
  · obtain ⟨u, hu₁, hframe₁⟩ := hu.of_some h
    obtain ⟨u', hu₂, hframe₂⟩ := hu.of_some h'
    exact htables.distinct e k u e' k' u' hu₁ hu₂ (by rw [← hframe₁, hframe, hframe₂])

/-! ## Dropping tables -/

/-- From `s` to `s'` some page tables of `env` were freed and their slots cleared. -/
structure Drops (L : UserLayout) (env : Nat) (s s' : UserMemory P) : Prop where
  envs : s'.envs = s.envs
  pageFile : s'.pageFile = s.pageFile
  others : ∀ e, e ≠ env → s'.heap.memory.directories e = s.heap.memory.directories e
  slots : ∀ k, s'.heap.memory.directories env k = none ∨
    s'.heap.memory.directories env k = s.heap.memory.directories env k
  initialized : s'.heap.isKHpageEmpty = s.heap.isKHpageEmpty
  freed : ∀ k t i, s.heap.memory.directories env k = some t →
    s'.heap.memory.directories env k = none → TableBlock L.toKernelHeapLayout s.heap t i →
      ¬NonEmpty s'.heap i ∧ entry L.toKernelHeapLayout s'.heap i = 0#32
  kept : ∀ i, (∀ k t, s.heap.memory.directories env k = some t →
    s'.heap.memory.directories env k = none → ¬TableBlock L.toKernelHeapLayout s.heap t i) →
      s'.heap.kernelHeapPages i = s.heap.kernelHeapPages i ∧
        entry L.toKernelHeapLayout s'.heap i = entry L.toKernelHeapLayout s.heap i

theorem Drops.refl (s : UserMemory P) : Drops L env s s :=
  ⟨rfl, rfl, fun _ _ => rfl, fun _ => Or.inr rfl, rfl,
    fun _ _ _ ht hnone => absurd (ht.symm.trans hnone) (by simp), fun _ _ => ⟨rfl, rfl⟩⟩

/-- A table that is there after was there before. -/
theorem Drops.of_some (hd : Drops L env s s') {e k : Nat} {t : PageTable}
    (h : s'.heap.memory.directories e k = some t) : s.heap.memory.directories e k = some t := by
  by_cases he : e = env
  · subst he
    rcases hd.slots k with hnone | hsame
    · rw [hnone] at h
      cases h
    · rw [← hsame, h]
  · rw [← hd.others e he, h]

/-- The block of a table that was not dropped is not the block of a dropped one. -/
theorem Drops.not_dropped (hd : Drops L env s s') (htables : TablesOk L s) {e k i : Nat}
    {t : PageTable} (h : s'.heap.memory.directories e k = some t)
    (hb : TableBlock L.toKernelHeapLayout s.heap t i) (k' : Nat) (t' : PageTable)
    (ht' : s.heap.memory.directories env k' = some t')
    (hnone : s'.heap.memory.directories env k' = none) :
    ¬TableBlock L.toKernelHeapLayout s.heap t' i := by
  intro hb'
  obtain ⟨rfl, rfl⟩ := htables.distinct e k t env k' t' (hd.of_some h) ht' ((hb.unique hb').1 rfl)
  rw [h] at hnone
  cases hnone

/-- The tables that were not dropped are where they were. -/
theorem Drops.tableBlock (hd : Drops L env s s') (htables : TablesOk L s) {e k i : Nat}
    {t : PageTable} (h : s'.heap.memory.directories e k = some t)
    (hb : TableBlock L.toKernelHeapLayout s.heap t i) :
    TableBlock L.toKernelHeapLayout s'.heap t i := by
  have hkept := hd.kept i (hd.not_dropped htables h hb)
  -- A page is as it was, or it is the page of a dropped table.
  have hpage : ∀ j, (s'.heap.kernelHeapPages j = s.heap.kernelHeapPages j ∧
      entry L.toKernelHeapLayout s'.heap j = entry L.toKernelHeapLayout s.heap j) ∨
      j ≠ i ∧ ¬NonEmpty s'.heap j ∧ entry L.toKernelHeapLayout s'.heap j = 0#32 := by
    intro j
    by_cases hj : ∃ k' t', s.heap.memory.directories env k' = some t' ∧
        s'.heap.memory.directories env k' = none ∧ TableBlock L.toKernelHeapLayout s.heap t' j
    · obtain ⟨k', t', ht', hnone, hb'⟩ := hj
      refine Or.inr ⟨?_, hd.freed k' t' j ht' hnone hb'⟩
      rintro rfl
      exact hd.not_dropped htables h hb k' t' ht' hnone hb'
    · exact Or.inl (hd.kept j fun k' t' ht' hnone hb' => hj ⟨k', t', ht', hnone, hb'⟩)
  refine ⟨⟨Nat.one_pos, hb.block.fits, fun j hj => ?_⟩, hb.frame_lt, fun j hj => ?_⟩
  · rcases hpage j with ⟨hsame, -⟩ | ⟨hne, hempty, -⟩
    · rw [← hb.block.tagged j hj, NonEmpty, NonEmpty, hd.initialized, hsame]
    · exact iff_of_false (fun hc => hempty hc.1) (by omega)
  · rcases hpage j with ⟨-, hsame⟩ | ⟨hne, -, hzero⟩
    · rw [hsame, hb.resolves j hj]
    · exact iff_of_false (fun hc => hc.1 hzero) hne

theorem TablesOk.drops (htables : TablesOk L s) (hd : Drops L env s s') : TablesOk L s' := by
  refine ⟨fun e k t h => ?_, fun e k t e' k' t' h h' =>
    htables.distinct e k t e' k' t' (hd.of_some h) (hd.of_some h')⟩
  obtain ⟨i, hb⟩ := htables.backed e k t (hd.of_some h)
  exact ⟨i, hd.tableBlock htables h hb⟩

theorem Drops.trans (htables : TablesOk L s) (hd : Drops L env s s') (hd' : Drops L env s' s'') :
    Drops L env s s'' := by
  refine ⟨hd'.envs.trans hd.envs, hd'.pageFile.trans hd.pageFile,
    fun e he => (hd'.others e he).trans (hd.others e he), fun k => ?_,
    hd'.initialized.trans hd.initialized, fun k t i ht hnone hb => ?_, fun i hi => ?_⟩
  · rcases hd'.slots k with hnone | hsame
    · exact Or.inl hnone
    · rw [hsame]
      exact hd.slots k
  · rcases hd.slots k with hnone' | hsame
    · obtain ⟨hempty, hzero⟩ := hd.freed k t i ht hnone' hb
      -- An empty page is the block of no table that is left.
      have hkept := hd'.kept i fun k' t' _ _ hb' =>
        hempty ((hb'.block.tagged i hb'.lt_pages).2 (by omega)).1
      rw [NonEmpty, hd'.initialized, hkept.1, hkept.2]
      exact ⟨hempty, hzero⟩
    · have ht' := hsame.trans ht
      exact hd'.freed k t i ht' hnone (hd.tableBlock htables ht' hb)
  · have hkept := hd.kept i fun k t ht hnone => hi k t ht (by
      rcases hd'.slots k with h | h
      · exact h
      · rw [h, hnone])
    have hkept' := hd'.kept i fun k t ht hnone hb' => by
      obtain ⟨j, hb⟩ := htables.backed env k t (hd.of_some ht)
      obtain rfl := ((hd.tableBlock htables ht hb).unique hb').2 rfl
      exact hi k t (hd.of_some ht) hnone hb
    exact ⟨hkept'.1.trans hkept.1, hkept'.2.trans hkept.2⟩

/-- One table is freed and its slot cleared. -/
theorem drops_droppedTable {k i : Nat} {t : PageTable}
    (ht : s.heap.memory.directories env k = some t)
    (hb : TableBlock L.toKernelHeapLayout s.heap t i) :
    Drops L env s (s.droppedTable L env k i) := by
  have hslot := directories_droppedTable (L := L) s env k i
  have hentry : ∀ j, entry L.toKernelHeapLayout (s.droppedTable L env k i).heap j =
      if j = i then 0#32 else entry L.toKernelHeapLayout s.heap j := fun j => entry_freedPage
  refine ⟨rfl, rfl, fun e he => Function.update_of_ne he .., fun k' => ?_, rfl,
    fun k' t' j ht' hnone hb' => ?_, fun j hj => ?_⟩
  · rw [hslot]
    split_ifs
    · exact Or.inl rfl
    · exact Or.inr rfl
  · rw [hslot] at hnone
    split_ifs at hnone with hk
    · subst hk
      obtain rfl := Option.some.inj (ht.symm.trans ht')
      obtain rfl := (hb.unique hb').2 rfl
      refine ⟨fun hc => ?_, by rw [hentry, if_pos rfl]⟩
      have hempty := hc.2
      simp [droppedTable, freedPage] at hempty
    · rw [ht'] at hnone
      cases hnone
  · have hji : j ≠ i := by
      rintro rfl
      exact hj k t ht (by rw [hslot, if_pos rfl]) hb
    exact ⟨Function.update_of_ne hji .., by rw [hentry, if_neg hji]⟩

/-! ## The loop -/

/-- Every entry of the table is zero. -/
def ZeroTable (t : PageTable) : Prop :=
  ∀ flag, flag < 1024 → t.entries flag = 0#32

theorem zeroTable_iff {t : PageTable} :
    ((List.range 1024).all fun flag => decide (t.entries flag = 0#32)) = true ↔ ZeroTable t := by
  simp only [List.all_eq_true, List.mem_range, decide_eq_true_eq, ZeroTable]

/-- The entries of a table are those of the pages of its slot. -/
theorem zeroTable_iff_userEntry {k : Nat} {t : PageTable}
    (ht : s.heap.memory.directories env k = some t) :
    ZeroTable t ↔ ∀ a, pdx a = k → s.userEntry env a = 0#32 := by
  constructor
  · rintro hzero a rfl
    rw [userEntry_of_some ht]
    exact hzero _ (Nat.mod_lt _ (by decide))
  · intro h flag hflag
    have hpdx : pdx (k * 4194304 + flag * 4096) = k := by
      unfold pdx
      omega
    have hptx : ptx (k * 4194304 + flag * 4096) = flag := by
      unfold ptx
      omega
    have hentry := h _ hpdx
    rw [userEntry_of_some (by rw [getPageTable, hpdx, ht]), hptx] at hentry
    exact hentry

/-- Dropping empty tables changes no entry. -/
theorem Drops.userEntry (hd : Drops L env s s')
    (hzero : ∀ k t, s.heap.memory.directories env k = some t →
      s'.heap.memory.directories env k = none → ZeroTable t) (e a : Nat) :
    s'.userEntry e a = s.userEntry e a := by
  by_cases he : e = env
  · subst he
    rcases hd.slots (pdx a) with hnone | hsame
    · rw [userEntry_of_none hnone]
      cases ht : s.heap.memory.directories e (pdx a) with
      | none => rw [userEntry_of_none ht]
      | some t => rw [(zeroTable_iff_userEntry ht).1 (hzero _ t ht hnone) a rfl]
    · simp only [UserMemory.userEntry, getPageTable, hsame]
  · simp only [UserMemory.userEntry, getPageTable, hd.others e he]

/-- The slots of the pages of a range are that of the first page and those of the rest. -/
theorem pdx_range_succ (va noOfPages k : Nat) :
    (∃ i < noOfPages + 1, pdx (va + pageSize * i) = k) ↔
      pdx va = k ∨ ∃ i < noOfPages, pdx (va + pageSize + pageSize * i) = k := by
  constructor
  · rintro ⟨i, hi, rfl⟩
    rcases i with _ | i
    · exact Or.inl rfl
    · refine Or.inr ⟨i, by omega, congrArg pdx ?_⟩
      unfold pageSize
      omega
  · rintro (rfl | ⟨i, hi, rfl⟩)
    · exact ⟨0, by omega, rfl⟩
    · refine ⟨i + 1, by omega, congrArg pdx ?_⟩
      unfold pageSize
      omega

/-- A slot that was cleared stays so. -/
theorem Drops.of_none (hd : Drops L env s s') {k : Nat}
    (h : s.heap.memory.directories env k = none) : s'.heap.memory.directories env k = none :=
  (hd.slots k).elim id fun hsame => hsame.trans h

/-- One trip of the loop drops the table that the page lies in, if it is empty. -/
theorem removeEmptyNonUsedPages_trip (htables : TablesOk L s) (va : Nat) :
    ∃ s₁, (∀ noOfPages, removeEmptyNonUsedPages L env va (noOfPages + 1) s =
        removeEmptyNonUsedPages L env (va + pageSize) noOfPages s₁) ∧ Drops L env s s₁ ∧
      ∀ k t, s.heap.memory.directories env k = some t →
        (s₁.heap.memory.directories env k = none ↔ ZeroTable t ∧ pdx va = k) := by
  cases ht : s.getPageTable env va with
  | none =>
    refine ⟨s, fun n => by rw [removeEmptyNonUsedPages, ht], .refl s, fun k t htk => ?_⟩
    refine iff_of_false (by simp [htk]) ?_
    rintro ⟨-, rfl⟩
    exact absurd (ht.symm.trans htk) (by simp)
  | some t =>
    by_cases hzero : ZeroTable t
    · obtain ⟨i, hb⟩ := htables.backed env _ t ht
      refine ⟨s.droppedTable L env (pdx va) i, fun n => ?_, drops_droppedTable ht hb,
        fun k u hu => ?_⟩
      · rw [removeEmptyNonUsedPages, ht]
        simp only [if_pos (zeroTable_iff.2 hzero), freePageTable_eq hb, Option.bind_some]
      · rw [directories_droppedTable]
        by_cases hk : pdx va = k
        · subst hk
          obtain rfl := Option.some.inj (ht.symm.trans hu)
          exact iff_of_true (if_pos rfl) ⟨hzero, rfl⟩
        · rw [if_neg fun hc => hk hc.symm, hu]
          exact iff_of_false (by simp) fun hc => hk hc.2
    · refine ⟨s, fun n => ?_, .refl s, fun k u hu => ?_⟩
      · rw [removeEmptyNonUsedPages, ht]
        simp only [if_neg (mt zeroTable_iff.1 hzero)]
      · refine iff_of_false (by simp [hu]) ?_
        rintro ⟨hzero', rfl⟩
        obtain rfl := Option.some.inj (ht.symm.trans hu)
        exact hzero hzero'

/-- `removeEmptyNonUsedPages` returns, and drops the empty tables that a page of the range
lies in. -/
theorem removeEmptyNonUsedPages_drops :
    ∀ (noOfPages va : Nat) {s : UserMemory P}, TablesOk L s →
      ∃ s', removeEmptyNonUsedPages L env va noOfPages s = some s' ∧ Drops L env s s' ∧
        ∀ k t, s.heap.memory.directories env k = some t →
          (s'.heap.memory.directories env k = none ↔
            (∃ i < noOfPages, pdx (va + pageSize * i) = k) ∧ ZeroTable t)
  | 0, va, s, _ => by
    refine ⟨s, rfl, .refl s, fun k t ht => ?_⟩
    simp [ht]
  | noOfPages + 1, va, s, htables => by
    obtain ⟨s₁, htrip, hd₁, hiff₁⟩ := removeEmptyNonUsedPages_trip htables va
    obtain ⟨s', hloop, hd, hiff⟩ :=
      removeEmptyNonUsedPages_drops noOfPages (va + pageSize) (htables.drops hd₁)
    refine ⟨s', (htrip noOfPages).trans hloop, hd₁.trans htables hd, fun k t ht => ?_⟩
    rw [pdx_range_succ, and_comm, and_or_left, ← hiff₁ k t ht]
    -- The table of the slot is dropped by this trip, or is there for the next ones.
    rcases hd₁.slots k with hnone | hsame
    · exact iff_of_true (hd.of_none hnone) (Or.inl hnone)
    · rw [hiff k t (hsame.trans ht), and_comm, or_iff_right]
      simp [hsame, ht]

end UserMemory

end FosKernel
