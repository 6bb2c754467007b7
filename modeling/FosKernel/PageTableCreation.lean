import FosKernel.KernelHeapKmalloc
import FosKernel.KernelHeapScan

/-!
# create_page_table

`create_page_table` takes a page from `kmalloc`, asks `kheap_physical_address` for its
frame, writes the directory entry and clears the 1024 words of the page. It never looks at
the address `kmalloc` returned : for the null pointer `kheap_physical_address` answers 0,
so the directory entry gets frame 0, and the first store of the clearing loop goes through
the null pointer.

`create_page_table_iff` : a new table, or a failure that changes nothing, is what comes out
exactly if `kmalloc` has a page and a frame for it.
-/

namespace FosKernel

/-- The kernel heap, and the words of the frames that hold user directories and tables. -/
structure TableMemory where
  heap : KernelHeap
  words : Words

namespace TableMemory

variable {L : KernelHeapLayout} {D : KernelDirectory} {m m' : TableMemory}

/-- The permissions of a directory entry. -/
def tablePerm : BitVec 32 :=
  permPresent ||| permUser ||| permWriteable

/-- The loop that clears the first `n` words of frame `f`. -/
def clearTable (w : Words) (f : Nat) : Nat → Words
  | 0 => w
  | i + 1 => writeWord (clearTable w f i) f i 0#32

/-- `create_page_table(directory, va)`, for the directory in frame `directory`. It ends with
an error where `allocate_frame` panics, and at a store through the null pointer, which
faults. It has no value if `kheap_physical_address` does not return within `fuel` trips. -/
def createPageTable (L : KernelHeapLayout) (D : KernelDirectory) (fuel : Nat) (m : TableMemory)
    (directory va : Nat) : Option (Except TableMemory (Nat × TableMemory)) :=
  match m.heap.kmallocOutcome L pageSize with
  | .error heap => some (.error { m with heap := heap })
  | .ok (pageTable, heap) =>
    (heap.kheapPhysicalAddress L D fuel pageTable).map fun physicalAddress =>
      let entry := constructEntry physicalAddress tablePerm
      let words := writeWord m.words directory (pdx va) entry
      if pageTable = 0 then .error ⟨heap, words⟩
      else
        let f := frameNumber (heap.kernelEntries (pageTable / pageSize))
        .ok (pageTable, ⟨heap, clearTable words f 1024⟩)

/-- A table was made for `va` in a frame that was free : the directory has its entry, its
words are zero, and no other word and no other page of the heap changed. -/
structure TableCreated (L : KernelHeapLayout) (directory va : Nat) (m : TableMemory)
    (pageTable f t : Nat) (m' : TableMemory) : Prop where
  address : pageTable = L.addr t ∧ pageTable ≠ 0
  frame : KernelHeap.frameAt L m'.heap t = f
  fresh : f ∈ m.heap.memory.freeFrameList ∧ f ∉ m'.heap.memory.freeFrameList
  heap : KernelHeap.Allocated L m.heap t 1 m'.heap
  mappings : ∀ v, v ≠ L.addr t / pageSize → m'.heap.kernelEntries v = m.heap.kernelEntries v
  entry : m'.words directory (pdx va) = constructEntry (toPhysicalAddress f) tablePerm
  zero : ∀ i, i < 1024 → m'.words f i = 0#32
  other : ∀ g i, ¬(g = directory ∧ i = pdx va) → ¬(g = f ∧ i < 1024) →
    m'.words g i = m.words g i

/-- `create_page_table` returns a new table, or null with nothing changed. -/
def CreatesOrKeeps (L : KernelHeapLayout) (D : KernelDirectory) (m : TableMemory)
    (directory va : Nat) : Prop :=
  ∃ fuel pageTable m', createPageTable L D fuel m directory va = some (.ok (pageTable, m')) ∧
    ((∃ f t, TableCreated L directory va m pageTable f t m') ∨
      pageTable = 0 ∧ KernelHeap.SameHeap L m.heap m'.heap ∧ m'.words = m.words)

/-- `kmalloc` of one page finds an empty page, anywhere under next fit and at the end of the
heap under best fit, and there is a frame for it. -/
def HasPage (L : KernelHeapLayout) (s : KernelHeap) : Prop :=
  (s.kHeapPlacementStrategy = .nextFit ∧ (∃ i, i < L.pages ∧ ¬s.NonEmpty i) ∨
    s.kHeapPlacementStrategy ≠ .nextFit ∧ ¬s.NonEmpty (L.pages - 1)) ∧
  s.memory.freeFrameList ≠ []

theorem clearTable_apply (w : Words) (f : Nat) : ∀ (n g i : Nat),
    clearTable w f n g i = if g = f ∧ i < n then 0#32 else w g i
  | 0, g, i => by simp [clearTable]
  | n + 1, g, i => by
    rw [clearTable, writeWord_apply, clearTable_apply w f n g i]
    by_cases hg : g = f
    · rcases Nat.lt_trichotomy i n with hi | rfl | hi
      · simp [hg, hi.ne, hi, Nat.lt_succ_of_lt hi]
      · simp [hg]
      · have h1 : ¬i < n := by omega
        have h2 : ¬i < n + 1 := by omega
        simp [hg, hi.ne', h1, h2]
    · simp [hg]

/-! ## One page of the heap -/

theorem hasPage_iff (hstart : 0 < L.kernelHeapStart) {s : KernelHeap}
    (h : KernelHeap.Invariant L s) : HasPage L s ↔
      KernelHeap.findPlace L (KernelHeap.prepared L s) (pageSize * 1) ≠ 0 ∧
        s.memory.freeFrameList ≠ [] := by
  obtain ⟨j, hj, hhand⟩ := h.hand
  have hpages := L.pages_pos
  rw [KernelHeap.findPlace_page_iff hstart hj (KernelHeap.prepared_hand.trans hhand),
    KernelHeap.prepared_strategy, KernelHeap.emptyPages_prepared (by omega)]
  refine and_congr_left' (or_congr_left (and_congr_right fun _ => exists_congr fun i => ?_))
  exact and_congr_right fun hi => (KernelHeap.emptyPages_prepared hi).symm

/-- What `kmalloc` of one page leaves : page `t` is mapped to the first free frame `f`. -/
structure PageTaken (L : KernelHeapLayout) (s : KernelHeap) (t f : Nat) (s' : KernelHeap) :
    Prop where
  invariant : KernelHeap.Invariant L s'
  allocated : KernelHeap.Allocated L s t 1 s'
  frame : KernelHeap.frameAt L s' t = f
  frames : s.memory.freeFrameList = f :: s'.memory.freeFrameList
  mappings : ∀ v, v ≠ L.addr t / pageSize → s'.kernelEntries v = s.kernelEntries v

theorem kmalloc_page (hstart : 0 < L.kernelHeapStart) {s : KernelHeap}
    (h : KernelHeap.Invariant L s) (hpage : HasPage L s) :
    ∃ t f s', s.kmallocOutcome L pageSize = .ok (L.addr t, s') ∧ L.addr t ≠ 0 ∧
      PageTaken L s t f s' := by
  obtain ⟨hzero, hframes⟩ := (hasPage_iff hstart h).1 hpage
  obtain ⟨j, hj, hhand⟩ := h.hand
  obtain ⟨t, ht, htn, hrun⟩ := KernelHeap.findPlace_sound hj
    (KernelHeap.prepared_hand.trans hhand) hzero
  have h0 : L.addr t ≠ 0 := ht ▸ hzero
  have hfree := KernelHeap.freeRun_of_emptyRun (L := L) KernelHeap.prepared_initialized htn hrun
  obtain ⟨f, rest, hl⟩ := List.exists_cons_of_ne_nil hframes
  have hl' : (KernelHeap.prepared L s).memory.freeFrameList = f :: rest := by
    rw [KernelHeap.prepared_memory, hl]
  have hround : roundUp pageSize pageSize = pageSize * 1 := by decide
  have hdiv : pageSize * 1 / pageSize = 1 := by decide
  have hout : s.kmallocOutcome L pageSize = .ok (L.addr t, KernelHeap.moveHand
      (KernelHeap.mapPage L (KernelHeap.prepared L s) t t f rest) (L.addr t + pageSize)) := by
    rw [KernelHeap.kmallocOutcome_eq, hround, ht, if_neg h0, hdiv,
      KernelHeap.kmallocLoopOutcome_succ h.toSynced.prepared (by omega)
        (hfree t le_rfl (by omega)) hl']
    rfl
  refine ⟨t, f, _, hout, h0, ?_⟩
  have hkm := KernelHeap.kmallocOutcome_toOption (L := L) (s := s) pageSize
  rw [hout] at hkm
  obtain ⟨hinv, ⟨hp, -⟩ | ⟨u, hu, -, hal⟩⟩ := KernelHeap.kmalloc_spec h hkm.symm
  · exact absurd hp h0
  · obtain rfl : u = t := by
      unfold KernelHeapLayout.addr pageSize at hu
      omega
    refine ⟨hinv, hal, ?_, hl, fun v hv => ?_⟩
    · have he := KernelHeap.entry_mapPage (L := L) (s := KernelHeap.prepared L s) u u f u rest
      rw [if_pos rfl] at he
      change frameNumber (KernelHeap.entry L (KernelHeap.mapPage L _ u u f rest) u) = f
      rw [he]
      exact KernelHeap.frameNumber_heapEntry (h.frames.lt f (by simp [hl]))
    · change Function.update (KernelHeap.prepared L s).kernelEntries _ _ v = _
      rw [Function.update_of_ne hv, KernelHeap.prepared_kernelEntries]

/-! ## The table -/

/-- With a page and a frame, `create_page_table` returns a new table. -/
theorem createPageTable_created (hstart : 0 < L.kernelHeapStart) {s₀ : KernelHeap}
    (hd : KernelHeap.DirectoryBoot L D s₀) (h : KernelHeap.Invariant L m.heap)
    {directory : Nat} (hdir : directory ∉ m.heap.memory.freeFrameList)
    (hpage : HasPage L m.heap) (fuel va : Nat) :
    ∃ pageTable f t m', createPageTable L D fuel m directory va = some (.ok (pageTable, m')) ∧
      TableCreated L directory va m pageTable f t m' ∧ KernelHeap.Invariant L m'.heap := by
  obtain ⟨t, f, heap, hout, h0, htaken⟩ := kmalloc_page hstart h hpage
  have hown : KernelHeap.owner L heap t = some t := by
    rw [htaken.allocated.owner]
    exact BlockMap.claim_of_mem ⟨le_rfl, by omega⟩
  have hphys := KernelHeap.kheapPhysicalAddress_addr hd htaken.invariant fuel hown
  rw [htaken.frame] at hphys
  have hframe : frameNumber (heap.kernelEntries (L.addr t / pageSize)) = f := htaken.frame
  have hfree : f ∈ m.heap.memory.freeFrameList := by simp [htaken.frames]
  have hne : directory ≠ f := fun hdf => hdir (hdf ▸ hfree)
  have hnodup := h.frames.nodup
  rw [htaken.frames, List.nodup_cons] at hnodup
  have hcreate : createPageTable L D fuel m directory va = some (.ok (L.addr t, ⟨heap, clearTable
      (writeWord m.words directory (pdx va) (constructEntry (toPhysicalAddress f) tablePerm)) f
      1024⟩)) := by
    simp only [createPageTable, hout, hphys, Option.map_some, h0, if_false, hframe]
  refine ⟨_, f, t, _, hcreate, ⟨⟨rfl, h0⟩, htaken.frame, ⟨hfree, hnodup.1⟩, htaken.allocated,
    htaken.mappings, ?_, fun i hi => ?_, fun g i hentry hword => ?_⟩, htaken.invariant⟩
  · simp [clearTable_apply, writeWord_apply, hne]
  · simp [clearTable_apply, hi]
  · change clearTable _ f 1024 g i = _
    rw [clearTable_apply, if_neg hword, writeWord_apply, if_neg hentry]

/-- A table is created or nothing changes only if there is a page and a frame : a null
pointer or a panic of `allocate_frame` is no result. -/
theorem hasPage_of_createsOrKeeps (hstart : 0 < L.kernelHeapStart)
    (h : KernelHeap.Invariant L m.heap) {directory va : Nat}
    (hc : CreatesOrKeeps L D m directory va) : HasPage L m.heap := by
  obtain ⟨fuel, pageTable, m', hcreate, -⟩ := hc
  rw [hasPage_iff hstart h]
  unfold createPageTable at hcreate
  cases hout : m.heap.kmallocOutcome L pageSize with
  | error heap => simp [hout] at hcreate
  | ok r =>
    obtain ⟨p, heap⟩ := r
    simp only [hout, Option.map_eq_some_iff] at hcreate
    obtain ⟨pa, -, hres⟩ := hcreate
    split_ifs at hres with hp
    have hkm := KernelHeap.kmallocOutcome_toOption (L := L) (s := m.heap) pageSize
    rw [hout] at hkm
    obtain ⟨hplace, -⟩ := KernelHeap.kmalloc_eq_findPlace hkm.symm
    refine ⟨fun hzero => hp (hplace.trans hzero), fun hnil => ?_⟩
    obtain ⟨-, ⟨h0, -⟩ | ⟨t, -, -, hal⟩⟩ := KernelHeap.kmalloc_spec h hkm.symm
    · exact hp h0
    · obtain ⟨taken, hlist, hlen, -⟩ := hal.frames
      rw [hnil] at hlist
      have hempty := (List.append_eq_nil_iff.1 hlist.symm).1
      rw [hempty] at hlen
      exact absurd hlen (by decide)

/-- The physical address of the null pointer, if its lookup returns. -/
theorem kheapPhysicalAddress_null {s s₀ : KernelHeap} (hd : KernelHeap.DirectoryBoot L D s₀)
    {fuel : Nat} {pa : BitVec 32} (hpa : s.kheapPhysicalAddress L D fuel 0 = some pa) :
    pa = 0#32 := by
  have hbase : ¬D.kernelBase ≤ 0 := by
    have := hd.kernelBase_pos
    omega
  have hentry : D.entries (pdx 0) = 0#32 := hd.first
  unfold KernelHeap.kheapPhysicalAddress KernelHeap.getPageTable at hpa
  simp only [if_neg hbase, hentry] at hpa
  obtain ⟨pointer, hpointer, rfl⟩ := Option.map_eq_some_iff.1 hpa
  obtain ⟨_, -, hnull⟩ := Option.bind_eq_some_iff.1 hpointer
  rw [if_neg not_isPresent_zero, if_neg (by simp)] at hnull
  rw [if_pos (Option.some.inj hnull).symm]

/-- What a failure leaves behind : without a frame, what there was, and without a page, a
directory entry for frame 0. -/
theorem createPageTable_error {s₀ : KernelHeap} (hd : KernelHeap.DirectoryBoot L D s₀)
    (h : KernelHeap.Invariant L m.heap) {fuel directory va : Nat}
    (hcreate : createPageTable L D fuel m directory va = some (.error m')) :
    m'.heap = KernelHeap.prepared L m.heap ∧
      (m.heap.memory.freeFrameList = [] ∧ m'.words = m.words ∨
        m'.words = writeWord m.words directory (pdx va) (constructEntry 0#32 tablePerm)) := by
  unfold createPageTable at hcreate
  cases hout : m.heap.kmallocOutcome L pageSize with
  | error heap =>
    simp only [hout, Option.some.injEq, Except.error.injEq] at hcreate
    subst hcreate
    obtain ⟨hfew, t, -, -, hex⟩ := KernelHeap.kmallocOutcome_error h hout
    have hone : roundUp pageSize pageSize / pageSize = 1 := by decide
    have hnil : m.heap.memory.freeFrameList = [] := List.eq_nil_of_length_eq_zero (by omega)
    exact ⟨hex.unchanged hnil, Or.inl ⟨hnil, rfl⟩⟩
  | ok r =>
    obtain ⟨p, heap⟩ := r
    simp only [hout, Option.map_eq_some_iff] at hcreate
    obtain ⟨pa, hpa, hres⟩ := hcreate
    split_ifs at hres with hp
    subst hp
    obtain rfl := Except.error.inj hres
    have hkm := KernelHeap.kmallocOutcome_toOption (L := L) (s := m.heap) pageSize
    rw [hout] at hkm
    refine ⟨(KernelHeap.kmalloc_eq_findPlace hkm.symm).2 rfl, Or.inr ?_⟩
    rw [kheapPhysicalAddress_null hd hpa]

/-- In every state of the heap reached from boot, for every directory in a frame in use and
every address, `create_page_table` creates a table or keeps everything exactly if `kmalloc`
has a page and a frame for it. -/
theorem create_page_table_iff (hstart : 0 < L.kernelHeapStart) {s₀ : KernelHeap}
    (h₀ : KernelHeap.Boot L s₀) (hd : KernelHeap.DirectoryBoot L D s₀)
    {calls : List KernelHeap.Call}
    (hr : Machine.run (KernelHeap.promptStep L) s₀ calls = some m.heap) {directory : Nat}
    (hdir : directory ∉ m.heap.memory.freeFrameList) (va : Nat) :
    CreatesOrKeeps L D m directory va ↔ HasPage L m.heap := by
  have h := KernelHeap.prompt_run_invariant h₀ hr
  refine ⟨hasPage_of_createsOrKeeps hstart h, fun hpage => ?_⟩
  obtain ⟨pageTable, f, t, m', hcreate, htable, -⟩ :=
    createPageTable_created hstart hd h hdir hpage 0 va
  exact ⟨0, pageTable, m', hcreate, Or.inl ⟨f, t, htable⟩⟩

/-- The small heap with a directory of zeros in frame 0. -/
def smallTables (heap : KernelHeap) : TableMemory :=
  ⟨heap, fun _ _ => 0#32⟩

theorem smallTables_create : CreatesOrKeeps KernelHeap.smallLayout KernelHeap.smallDirectory
    (smallTables KernelHeap.smallHeap) 0 0x800000 :=
  (create_page_table_iff (m := smallTables KernelHeap.smallHeap) (by decide)
    KernelHeap.smallHeap_boot KernelHeap.smallDirectory_boot
    (Machine.run_nil (KernelHeap.promptStep KernelHeap.smallLayout) KernelHeap.smallHeap)
    (by decide) 0x800000).2 ⟨Or.inr ⟨by decide, fun hne => absurd hne.1 (by decide)⟩, by decide⟩

/-- The directory entry of 0x800000 where `create_page_table` faulted. -/
def entryAtFault : Option (Except TableMemory (Nat × TableMemory)) → Option Entry
  | some (.error m) => some (m.words 0 (pdx 0x800000))
  | _ => none

theorem entryAtFault_eq_some {r : Option (Except TableMemory (Nat × TableMemory))} {e : Entry}
    (h : entryAtFault r = some e) :
    ∃ m, r = some (.error m) ∧ m.words 0 (pdx 0x800000) = e := by
  unfold entryAtFault at h
  split at h
  · exact ⟨_, rfl, Option.some.inj h⟩
  · cases h

/-- With the last page of the heap in use, best fit finds no page for the table although the
first one is empty : the directory entry gets frame 0, and the clearing loop faults. -/
theorem nullTable_counterexample : ∃ s,
    Machine.run (KernelHeap.promptStep KernelHeap.smallLayout) KernelHeap.smallHeap
      [.kmalloc 4096, .kmalloc 4096, .kmalloc 4096, .kfree 0xF6000000] = some s ∧
    0 ∉ s.memory.freeFrameList ∧
    (∃ m', createPageTable KernelHeap.smallLayout KernelHeap.smallDirectory 9 (smallTables s) 0
        0x800000 = some (.error m') ∧ m'.words 0 (pdx 0x800000) = 7#32) ∧
    ¬CreatesOrKeeps KernelHeap.smallLayout KernelHeap.smallDirectory (smallTables s) 0
      0x800000 := by
  have hrun : (Machine.run (KernelHeap.promptStep KernelHeap.smallLayout) KernelHeap.smallHeap
      [.kmalloc 4096, .kmalloc 4096, .kmalloc 4096, .kfree 0xF6000000]).map (fun s =>
        (s.memory.freeFrameList, s.kHeapPlacementStrategy, s.isKHpageEmpty,
          (s.kernelHeapPages 2).isEmpty,
          entryAtFault (createPageTable KernelHeap.smallLayout KernelHeap.smallDirectory 9
            (smallTables s) 0 0x800000))) =
      some ([4, 1], .bestFit, false, false, some 7#32) := by decide
  obtain ⟨s, hs, hres⟩ := Option.map_eq_some_iff.1 hrun
  simp only [Prod.mk.injEq] at hres
  obtain ⟨hlist, hstrategy, hinit, hlast, hcreate⟩ := hres
  refine ⟨s, hs, by rw [hlist]; decide, entryAtFault_eq_some hcreate, fun hc => ?_⟩
  have hpage := hasPage_of_createsOrKeeps (by decide)
    (KernelHeap.prompt_run_invariant KernelHeap.smallHeap_boot hs) hc
  rcases hpage.1 with ⟨hnext, -⟩ | ⟨-, hempty⟩
  · change s.kHeapPlacementStrategy = _ at hnext
    rw [hstrategy] at hnext
    cases hnext
  · exact hempty ⟨hinit, hlast⟩

end TableMemory

end FosKernel
