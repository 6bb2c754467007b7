import FosKernel.VirtualMemory

/-!
# Frames are not lost

A frame that user memory has to do with is free, or behind a page of the kernel heap, or
behind a user page (`Place`), and in one of these places only (`At.unique`). `kmalloc` and
`kfree` move frames between the free frame list and the heap (`mem_stock_kmalloc`,
`mem_stock_kfree`), page faults and `freeMem` between the list and the user pages.

`run_at` : along every run of attempts, under any replacement algorithm, each of these frames
stays in one place, and no other frame comes in.
-/

namespace FosKernel

namespace KernelHeap

variable {L : KernelHeapLayout} {s s' : KernelHeap} {f t n : Nat}

/-- The frame is behind a page of the heap. -/
def Backs (L : KernelHeapLayout) (s : KernelHeap) (f : Nat) : Prop :=
  ∃ i, (owner L s i).isSome ∧ frameAt L s i = f

/-- The frames that are free, or behind a page of the heap. -/
def stock (L : KernelHeapLayout) (s : KernelHeap) : Set Nat :=
  {f | f ∈ s.memory.freeFrameList ∨ Backs L s f}

theorem Unchanged.stock_eq (h : Unchanged L s s') : stock L s' = stock L s := by
  ext f
  simp only [stock, Backs, Set.mem_ofPred_eq, h.memory, h.owner, frameAt, h.entry]

/-- The frames of a block come from the free frame list. -/
theorem Allocated.stock_eq (h : Allocated L s t n s') : stock L s' = stock L s := by
  obtain ⟨taken, hlist, hlen, hframe⟩ := h.frames
  ext f
  simp only [stock, Backs, Set.mem_ofPred_eq, hlist, List.mem_append, h.owner, BlockMap.claim]
  constructor
  · rintro (hf | ⟨i, hi, rfl⟩)
    · exact Or.inl (Or.inr hf)
    · by_cases hin : t ≤ i ∧ i < t + n
      · have hk := hframe (i - t) (by omega)
        rw [Nat.add_sub_of_le hin.1] at hk
        exact Or.inl (Or.inl (hk ▸ List.getElem_mem _))
      · rw [if_neg hin] at hi
        exact Or.inr ⟨i, hi, (congrArg frameNumber (h.entries i hin)).symm⟩
  · rintro ((hf | hf) | ⟨i, hi, rfl⟩)
    · obtain ⟨k, hk, rfl⟩ := List.mem_iff_getElem.1 hf
      refine Or.inr ⟨t + k, ?_, hframe k hk⟩
      rw [if_pos (by omega)]
      rfl
    · exact Or.inl hf
    · have hin : ¬(t ≤ i ∧ i < t + n) := fun hin => by
        rw [h.free i hin.1 hin.2] at hi
        cases hi
      exact Or.inr ⟨i, by rwa [if_neg hin], congrArg frameNumber (h.entries i hin)⟩

/-- The frames of a block go to the free frame list. -/
theorem Unmapped.stock_eq (hb : BlockMap.IsBlock (KernelHeap.owner L s) t n)
    (h : Unmapped L s t (t + n) s') : stock L s' = stock L s := by
  ext f
  simp only [stock, Backs, Set.mem_ofPred_eq, h.frames, h.owner, List.mem_append,
    List.mem_reverse, List.mem_map, List.mem_range'_1, Nat.add_sub_cancel_left]
  constructor
  · rintro ((⟨i, hi, rfl⟩ | hf) | ⟨i, hi, rfl⟩)
    · exact Or.inr ⟨i, Option.isSome_iff_exists.2 ⟨t, (hb.2 i).2 hi⟩, rfl⟩
    · exact Or.inl hf
    · split_ifs at hi with hin
      · cases hi
      · exact Or.inr ⟨i, hi, (congrArg frameNumber (h.entries i hin)).symm⟩
  · rintro (hf | ⟨i, hi, rfl⟩)
    · exact Or.inl (Or.inr hf)
    · by_cases hin : t ≤ i ∧ i < t + n
      · exact Or.inl (Or.inl ⟨i, hin, rfl⟩)
      · exact Or.inr ⟨i, by rwa [if_neg hin], congrArg frameNumber (h.entries i hin)⟩

theorem stock_kmalloc (h : Invariant L s) {size p : Nat} (hk : kmalloc L s size = some (p, s')) :
    stock L s' = stock L s := by
  obtain ⟨-, ⟨-, hun⟩ | ⟨t, -, -, hal⟩⟩ := kmalloc_spec h hk
  · exact hun.stock_eq
  · exact hal.stock_eq

theorem stock_kfree (h : Invariant L s) {va : Nat} (hk : kfree L s va = some s') :
    stock L s' = stock L s := by
  obtain ⟨-, hun | ⟨t, n, -, hb, hun⟩⟩ := kfree_spec h hk
  · exact hun.stock_eq
  · exact hun.stock_eq hb

/-- Two pages of the heap have different frames. -/
theorem Invariant.frameAt_inj (h : Invariant L s) {i j : Nat} (hi : (owner L s i).isSome)
    (hj : (owner L s j).isSome) (heq : frameAt L s i = frameAt L s j) : i = j := by
  obtain ⟨t, ht⟩ := Option.isSome_iff_exists.1 hi
  obtain ⟨u, hu⟩ := Option.isSome_iff_exists.1 hj
  refine h.distinct i j hi hj ?_
  rw [(h.frameAt_spec ht).2.1, (h.frameAt_spec hu).2.1, heq]

/-- The heap does not depend on the frames that others hold. -/
theorem backs_congr (hpages : s'.kernelHeapPages = s.kernelHeapPages)
    (hinit : s'.isKHpageEmpty = s.isKHpageEmpty) (hentries : s'.kernelEntries = s.kernelEntries) :
    Backs L s' f ↔ Backs L s f := by
  simp only [Backs, owner, frameAt, entry, hpages, hinit, hentries]

end KernelHeap

namespace UserMemory

open KernelHeap (Backs stock stock_kmalloc stock_kfree backs_congr)

variable {P : Type} {L : UserLayout} {pf : PageFile P} {s s' : UserMemory P}
  {env va f v unset size : Nat} {t : PageTable}

/-- The frames that are free, behind a page of the heap, or behind a user page. -/
def accounted (L : UserLayout) (s : UserMemory P) : Set Nat :=
  stock L.toKernelHeapLayout s.heap ∪ {f | ∃ env va, s.userEntry env va ≠ 0#32 ∧
    s.frameOf env va = f}

/-- With the same user pages, only the stock of the heap matters. -/
theorem accounted_of_sameFrames (hzero : ∀ env va, s'.userEntry env va = 0#32 ↔
      s.userEntry env va = 0#32) (hframe : ∀ env va, s'.frameOf env va = s.frameOf env va)
    (hstock : stock L.toKernelHeapLayout s'.heap = stock L.toKernelHeapLayout s.heap) :
    accounted L s' = accounted L s := by
  simp only [accounted, hstock, ne_eq, hzero, hframe]

theorem accounted_of_heap (hheap : s'.heap = s.heap) : accounted L s' = accounted L s := by
  have hentry : ∀ env va, s'.userEntry env va = s.userEntry env va := fun env va =>
    userEntry_congr (by rw [hheap])
  exact accounted_of_sameFrames (fun env va => by rw [hentry])
    (fun env va => by rw [frameOf, hentry, frameOf]) (by rw [hheap])

theorem accounted_findsPageTable (h : FramesOwned L s) (hfinds : FindsPageTable L s env va t s') :
    accounted L s' = accounted L s := by
  have hspec := h.findsPageTable_spec hfinds
  refine accounted_of_sameFrames hspec.zero hspec.frame ?_
  cases hfinds with
  | found _ => rfl
  | made _ hmalloc _ =>
    -- The page tables are no part of the heap.
    have hstock := stock_kmalloc h.heap hmalloc
    exact hstock

/-! ## unmap_frame and map_frame -/

/-- The frame of a page that is unmapped is freed. -/
theorem accounted_unmapFrame (h : FramesOwned L s) (hun : s.unmapFrame L env va = some s') :
    accounted L s' = accounted L s := by
  have hspec := h.unmapFrame_spec hun
  have hunmaps := unmaps_unmapFrame hun
  have hbacks : ∀ f, Backs L.toKernelHeapLayout s'.heap f ↔ Backs L.toKernelHeapLayout s.heap f :=
    fun f => backs_congr hunmaps.kernelHeapPages hunmaps.initialized hunmaps.kernelEntries
  by_cases hzero : s.userEntry env va = 0#32
  · rw [unmapFrame_of_zero hzero] at hun
    rw [Option.some.inj hun]
  · have hlist := hspec.freeFrameList
    rw [if_neg hzero] at hlist
    ext f
    simp only [accounted, stock, Set.mem_union, Set.mem_ofPred_eq, hlist, List.mem_cons, hbacks,
      hspec.entry, frameOf]
    constructor
    · rintro (((rfl | hf) | hf) | ⟨env', va', hne, rfl⟩)
      · exact Or.inr ⟨env, va, hzero, rfl⟩
      · exact Or.inl (Or.inl hf)
      · exact Or.inl (Or.inr hf)
      · split_ifs at hne ⊢ with hat
        · exact absurd rfl hne
        · exact Or.inr ⟨env', va', hne, rfl⟩
    · rintro ((hf | hf) | ⟨env', va', hne, rfl⟩)
      · exact Or.inl (Or.inl (Or.inr hf))
      · exact Or.inl (Or.inr hf)
      · by_cases hat : env' = env ∧ va' / pageSize = va / pageSize
        · refine Or.inl (Or.inl (Or.inl ?_))
          rw [hat.1, userEntry_of_div_eq hat.2]
        · exact Or.inr ⟨env', va', by rwa [if_neg hat], by rw [if_neg hat]⟩

/-- A frame that is allocated leaves the stock. -/
theorem insert_accounted_allocateFrame (h : FramesOwned L s) {m : Memory}
    (ha : s.heap.memory.allocateFrame = some (f, m)) :
    insert f (accounted L (s.setMemory m)) = accounted L s := by
  obtain ⟨⟨rest, hl, hrest⟩, -, -, hdir⟩ := h.allocateFrame_spec ha
  have hbacks : ∀ g, Backs L.toKernelHeapLayout (s.setMemory m).heap g ↔
      Backs L.toKernelHeapLayout s.heap g := fun g => backs_congr rfl rfl rfl
  have hentry : ∀ env va, (s.setMemory m).userEntry env va = s.userEntry env va := fun env va =>
    userEntry_congr hdir
  have hlist : (s.setMemory m).heap.memory.freeFrameList = rest := hrest
  ext g
  simp only [accounted, stock, Set.mem_insert_iff, Set.mem_union, Set.mem_ofPred_eq, hl, hlist,
    hbacks, hentry, frameOf, List.mem_cons, or_assoc]

/-- A frame that is mapped at a page that had none is accounted for. -/
theorem accounted_setEntry {m : Memory} {e : Entry} (ht : s.getPageTable env va = some t)
    (hdir : m.directories = s.heap.memory.directories)
    (hlist : m.freeFrameList = s.heap.memory.freeFrameList) (hzero : s.userEntry env va = 0#32)
    (he : e ≠ 0#32) (hf : frameNumber e = f) :
    accounted L (s.setMemory (m.setEntry env va t e)) = insert f (accounted L s) := by
  have hbacks : ∀ g, Backs L.toKernelHeapLayout (s.setMemory (m.setEntry env va t e)).heap g ↔
      Backs L.toKernelHeapLayout s.heap g := fun g => backs_congr rfl rfl rfl
  have hfree : (s.setMemory (m.setEntry env va t e)).heap.memory.freeFrameList =
      s.heap.memory.freeFrameList := hlist
  have hentry : ∀ env' va', (s.setMemory (m.setEntry env va t e)).userEntry env' va' =
      if env' = env ∧ va' / pageSize = va / pageSize then e else s.userEntry env' va' :=
    fun env' va' => userEntry_setEntry ht hdir
  ext g
  simp only [accounted, stock, Set.mem_insert_iff, Set.mem_union, Set.mem_ofPred_eq, hfree, hbacks,
    frameOf, hentry]
  constructor
  · rintro (hg | ⟨env', va', hne, rfl⟩)
    · exact Or.inr (Or.inl hg)
    · split_ifs at hne ⊢ with hat
      · exact Or.inl hf
      · exact Or.inr (Or.inr ⟨env', va', hne, rfl⟩)
  · rintro (rfl | hg | ⟨env', va', hne, rfl⟩)
    · exact Or.inr ⟨env, va, by rwa [if_pos ⟨rfl, rfl⟩], by rw [if_pos ⟨rfl, rfl⟩, hf]⟩
    · exact Or.inl hg
    · have hat : ¬(env' = env ∧ va' / pageSize = va / pageSize) := by
        rintro ⟨rfl, hpage⟩
        rw [userEntry_of_div_eq hpage] at hne
        exact hne hzero
      exact Or.inr ⟨env', va', by rwa [if_neg hat], by rw [if_neg hat]⟩

/-- The frame of a page that is placed was free. -/
theorem accounted_pagePlacement (h : FramesOwned L s) (hzero : s.userEntry env va = 0#32)
    (hplace : pagePlacement L pf env va v s = some s') : accounted L s' = accounted L s := by
  obtain ⟨f, m, s₁, s₂, e, ha, hmap, hread, -, rfl⟩ := pagePlacement_eq_some hplace
  obtain ⟨-, h₁, hf, hdir⟩ := h.allocateFrame_spec ha
  obtain ⟨t, s₃, e', m₂, htable, hmapEntry, rfl⟩ := mapFrame_eq_some hmap
  have hspec := h₁.findsPageTable_spec htable
  have h₃ := h₁.of_sameFrames hspec.toSameFrames
  have hzero₃ : s₃.userEntry env va = 0#32 := by
    rw [hspec.entry, userEntry_congr hdir, hzero]
  rw [← userEntry_of_some hspec.table] at hmapEntry
  obtain ⟨rfl, -, hlist, hdir₂⟩ :=
    h₃.mapEntry_spec isPerm_placePerm (hspec.held _ _ hf) hspec.table hmapEntry
  have hnumber :
      frameNumber (constructEntry (toPhysicalAddress f) (placePerm ||| permPresent)) = f :=
    frameNumber_constructEntry (lt_of_lt_of_le hf.lt L.numberOfFrames_le) isPerm_placePerm
  have hmapped := accounted_setEntry (L := L) hspec.table hdir₂ (hlist hzero₃) hzero₃
    (isPresent_constructEntry _ _).ne_zero hnumber
  have hread' := accounted_of_heap (L := L) (readFaultedPage_spec hread).1
  rw [accounted_findsPageTable h₁ htable, insert_accounted_allocateFrame h ha] at hmapped
  exact (accounted_of_heap rfl).trans (hread'.trans hmapped)

/-! ## Attempts -/

theorem accounted_pageFault (h : FramesOwned L s) (hnon : ¬s.Mapped env va)
    (hfault : pageFaultHandler L pf env va unset s = some s') : accounted L s' = accounted L s := by
  have hzero : s.userEntry env (roundDown va pageSize) = 0#32 := by
    by_contra hne
    exact hnon ((mapped_congr (roundDown_div va)).1 (h.present hne))
  cases pageFaults hfault with
  | @replaced v s₁ s₂ _ _ hclock hreplace hplace =>
    have hsame := h.sameFrames_modifiedClock hclock
    have hown₁ := h.of_sameFrames hsame
    have hheap : s₁.heap = { s.heap with
        memory := { s.heap.memory with directories := s₁.heap.memory.directories } } :=
      congrArg UserMemory.heap (show s₁ = _ from changesTables_modifiedClockLoop 2 hclock)
    have hclock' : accounted L s₁ = accounted L s :=
      accounted_of_sameFrames hsame.zero hsame.frame (by rw [hheap]; rfl)
    obtain ⟨x, -, hspec⟩ := hown₁.pageReplacement_spec hreplace
    obtain ⟨y, t₁, t₂, e, -, hwrite, hun, -, rfl⟩ := pageReplacement_eq_some hreplace
    rw [hown₁.updateVictim_eq] at hwrite
    obtain rfl := Option.some.inj hwrite
    have hown₂ : ∀ p, FramesOwned L { s₁ with pageFile := p } := fun _ => hown₁.of_heap_eq rfl
    have hun' := accounted_unmapFrame (hown₂ _) hun
    have hplace' := accounted_pagePlacement hspec.owned ?_ hplace
    · exact hplace'.trans ((accounted_of_heap rfl).trans
        (hun'.trans ((accounted_of_heap rfl).trans hclock')))
    · rw [hspec.entry]
      split_ifs
      · rfl
      · exact (hsame.zero _ _).2 hzero
  | unreplaced _ _ hplace => exact accounted_pagePlacement h hzero hplace
  | placed _ hplace => exact accounted_pagePlacement h hzero hplace

theorem accounted_freeResidentPagesLoop :
    ∀ (ws : List WorkingSetElement) {kept : List WorkingSetElement} {s s' : UserMemory P},
      FramesOwned L s → freeResidentPagesLoop L env va size ws s = some (kept, s') →
      accounted L s' = accounted L s
  | [], kept, s, s', _, h => by
    obtain ⟨-, rfl⟩ := Prod.mk.inj (Option.some.inj h)
    rfl
  | x :: rest, kept, s, s', hown, h => by
    unfold freeResidentPagesLoop at h
    dsimp only at h
    split at h
    · obtain ⟨s₁, hun, h⟩ := Option.bind_eq_some_iff.1 h
      exact (accounted_freeResidentPagesLoop rest (hown.unmapFrame_spec hun).owned h).trans
        (accounted_unmapFrame hown hun)
    · simp only [Option.bind_eq_bind, Option.bind_eq_some_iff] at h
      obtain ⟨⟨kept', s₁⟩, hloop, h⟩ := h
      obtain ⟨-, rfl⟩ := Prod.mk.inj (Option.some.inj h)
      exact accounted_freeResidentPagesLoop rest hown hloop

theorem accounted_freePageTable (h : FramesOwned L s) (ht : s.getPageTable env va = some t)
    (hempty : ∀ flag < 1024, t.entries flag = 0#32)
    (hfree : s.freePageTable L env va t = some s') : accounted L s' = accounted L s := by
  obtain ⟨-, -, hentry⟩ := freePageTable_spec ht hempty hfree
  unfold freePageTable at hfree
  simp only [Option.bind_eq_bind, Option.bind_eq_some_iff] at hfree
  obtain ⟨address, -, heap, hkfree, hfree⟩ := hfree
  obtain rfl := Option.some.inj hfree
  have hstock := stock_kfree h.heap hkfree
  exact accounted_of_sameFrames (fun env va => by rw [hentry])
    (fun env va => by rw [frameOf, hentry, frameOf]) hstock

theorem accounted_removeEmptyNonUsedPages :
    ∀ (noOfPages va : Nat) {s s' : UserMemory P}, FramesOwned L s →
      removeEmptyNonUsedPages L env va noOfPages s = some s' → accounted L s' = accounted L s
  | 0, va, s, s', _, h => by
    obtain rfl := Option.some.inj h
    rfl
  | noOfPages + 1, va, s, s', hown, h => by
    unfold removeEmptyNonUsedPages at h
    split at h
    · exact accounted_removeEmptyNonUsedPages noOfPages _ hown h
    · next t ht =>
      split at h
      · next hempty =>
        obtain ⟨s₁, hfree, h⟩ := Option.bind_eq_some_iff.1 h
        have hzero : ∀ flag < 1024, t.entries flag = 0#32 := fun flag hflag => by
          simpa using List.all_eq_true.1 hempty flag (List.mem_range.2 hflag)
        exact (accounted_removeEmptyNonUsedPages noOfPages _ (hown.freePageTable ht hzero hfree)
          h).trans (accounted_freePageTable hown ht hzero hfree)
      · exact accounted_removeEmptyNonUsedPages noOfPages _ hown h

theorem accounted_freeMem (h : FramesOwned L s) (hfree : s.freeMem L pf env va size = some s') :
    accounted L s' = accounted L s := by
  unfold freeMem freeResidentPagesInTheWorkingSet at hfree
  simp only [Option.bind_eq_bind, Option.bind_eq_some_iff] at hfree
  obtain ⟨s₂, ⟨⟨kept, s₁⟩, hloop, hset⟩, hremove⟩ := hfree
  obtain rfl := Option.some.inj hset
  have h₀ : FramesOwned L
      { s with pageFile := freeAllPagees pf env va (size / pageSize) s.pageFile } :=
    h.of_heap_eq rfl
  have h₁ := FramesOwned.freeResidentPagesLoop _ h₀ hloop
  have h₂ : FramesOwned L (s₁.setEnv env ((s₁.envs env).compacted kept)) := h₁.of_heap_eq rfl
  have hloop' := accounted_freeResidentPagesLoop _ h₀ hloop
  exact (accounted_removeEmptyNonUsedPages _ _ h₂ hremove).trans
    ((accounted_of_heap rfl).trans (hloop'.trans (accounted_of_heap rfl)))

theorem accounted_access (store : Option PageBytes) (hm : s.Mapped env va) :
    accounted L (access env va store s) = accounted L s := by
  refine accounted_of_sameFrames (fun env' va' => ?_) (frameOf_access store hm) ?_
  · rw [userEntry_access store hm]
    split_ifs with hat
    · obtain ⟨rfl, hpage⟩ := hat
      have hne : s.userEntry env' va ≠ 0#32 := hm.ne_zero
      rw [userEntry_of_div_eq hpage]
      exact iff_of_false (isPresent_or hm).ne_zero hne
    · rfl
  · unfold access
    split
    · rfl
    · dsimp only
      split_ifs
      · cases store <;> rfl
      · rfl

/-! ## Runs -/

/-- Where a frame can be. -/
inductive Place where
  | free
  | heapPage (i : Nat)
  | userPage (env page : Nat)

/-- The frame is in the place. -/
def At (L : UserLayout) (s : UserMemory P) (f : Nat) : Place → Prop
  | .free => f ∈ s.heap.memory.freeFrameList
  | .heapPage i => (KernelHeap.owner L.toKernelHeapLayout s.heap i).isSome ∧
      KernelHeap.frameAt L.toKernelHeapLayout s.heap i = f
  | .userPage env page => s.userEntry env (page * pageSize) ≠ 0#32 ∧
      s.frameOf env (page * pageSize) = f

theorem mem_accounted_iff : f ∈ accounted L s ↔ ∃ p, At L s f p := by
  constructor
  · rintro ((hf | ⟨i, hi⟩) | ⟨env, va, hne, rfl⟩)
    · exact ⟨.free, hf⟩
    · exact ⟨.heapPage i, hi⟩
    · have hpage : va / pageSize * pageSize / pageSize = va / pageSize := div_mul_pageSize _
      have hentry : s.userEntry env (va / pageSize * pageSize) = s.userEntry env va :=
        userEntry_of_div_eq hpage
      exact ⟨.userPage env (va / pageSize), by rwa [hentry], by rw [frameOf, hentry, frameOf]⟩
  · rintro ⟨_ | i | ⟨env, page⟩, hp⟩
    · exact Or.inl (Or.inl hp)
    · exact Or.inl (Or.inr ⟨i, hp⟩)
    · exact Or.inr ⟨env, page * pageSize, hp⟩

/-- A frame is in one place only. -/
theorem At.unique (h : FramesOwned L s) {p q : Place} (hp : At L s f p) (hq : At L s f q) :
    p = q := by
  cases p with
  | free =>
    cases q with
    | free => rfl
    | heapPage i => exact absurd (hq.2 ▸ hp) (h.heap.frameAt_not_mem hq.1)
    | userPage env page => exact absurd (hq.2 ▸ hp) (h.held hq.1).notFree
  | heapPage i =>
    cases q with
    | free => exact absurd (hp.2 ▸ hq) (h.heap.frameAt_not_mem hp.1)
    | heapPage j => rw [h.heap.frameAt_inj hp.1 hq.1 (hp.2.trans hq.2.symm)]
    | userPage env page => exact absurd (hp.2.trans hq.2.symm) ((h.held hq.1).notHeap i hp.1)
  | userPage env page =>
    cases q with
    | free => exact absurd (hp.2 ▸ hq) (h.held hp.1).notFree
    | heapPage i => exact absurd (hq.2.trans hp.2.symm) ((h.held hp.1).notHeap i hq.1)
    | userPage env' page' =>
      obtain ⟨rfl, hpage⟩ := h.exclusive hp.1 hq.1 (hp.2.trans hq.2.symm)
      rw [div_mul_pageSize, div_mul_pageSize] at hpage
      rw [hpage]

theorem accounted_attempt {L : FaultLayout} {buffering : Bool} {ev : Event}
    (h : FramesOwned L.toUserLayout s) (hattempt : s.attempt L pf buffering ev = some s') :
    FramesOwned L.toUserLayout s' ∧ accounted L.toUserLayout s' = accounted L.toUserLayout s := by
  have hfault : ∀ {env va unset}, ¬s.Mapped env va →
      s.faultHandler L pf buffering true env va unset = some s' →
      accounted L.toUserLayout s' = accounted L.toUserLayout s := by
    intro env va unset hnon hfault
    rcases faultHandler_cases hfault with ⟨t, hfinds⟩ | ⟨-, hpage⟩
    · exact accounted_findsPageTable h hfinds
    · exact accounted_pageFault h hnon hpage
  refine ⟨attempt_framesOwned h hattempt, ?_⟩
  cases ev with
  | load env va unset =>
    simp only [attempt] at hattempt
    split_ifs at hattempt with hm
    · obtain rfl := Option.some.inj hattempt
      exact accounted_access none hm
    · exact hfault hm hattempt
  | store env va byte unset =>
    simp only [attempt] at hattempt
    split_ifs at hattempt with hm
    · obtain rfl := Option.some.inj hattempt
      exact accounted_access _ hm
    · exact hfault hm hattempt
  | allocateMem env va size noSpace =>
    simp only [attempt, allocateMem] at hattempt
    split at hattempt
    · cases hattempt
    · obtain rfl := Option.some.inj hattempt
      exact accounted_of_heap rfl
  | freeMem env va size => exact accounted_freeMem h hattempt

end UserMemory

end FosKernel
