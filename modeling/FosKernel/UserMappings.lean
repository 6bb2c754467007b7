import FosKernel.PageFault

/-!
# User mappings

What the functions of user memory do to the pages that are mapped. With buffering
disabled (`Unbuffered`) a frame handed out is in no page table, so `kmalloc` and `kfree`
leave the user page tables alone (`KeepsTables`). `map_frame` finds a page table or makes it
(`FindsPageTable`) and adds one page (`mapFrame_spec`), `userEntry_unmapFrame` takes one away,
and `pt_set_page_permissions`, `access` and `removeEmptyNonUsedPages` change no mapping.

`Keeps` is the frame of all these : the working sets and the choice of the replacement
algorithm stay, and no frame gets buffered.
-/

namespace FosKernel

namespace Memory

variable {m m' m'' : Memory} {n f : Nat} {e e' : Entry} {perm : BitVec 32}

/-- No frame is buffered. -/
def Unbuffered (m : Memory) : Prop :=
  ∀ f, (m.framesInfo f).isBuffered = false

/-- Without buffering, no frame gets buffered and the page tables stay as they are. -/
def KeepsTables (m m' : Memory) : Prop :=
  m.Unbuffered → m'.Unbuffered ∧ m'.directories = m.directories

theorem KeepsTables.refl (m : Memory) : KeepsTables m m :=
  fun h => ⟨h, rfl⟩

theorem KeepsTables.trans (h : KeepsTables m m') (h' : KeepsTables m' m'') :
    KeepsTables m m'' := fun hm =>
  ⟨(h' (h hm).1).1, (h' (h hm).1).2.trans (h hm).2⟩

/-- No frame gets buffered and the page tables stay as they are, with buffering or without. -/
structure SameTables (m m' : Memory) : Prop where
  unbuffered : m.Unbuffered → m'.Unbuffered
  directories : m'.directories = m.directories

theorem SameTables.refl (m : Memory) : SameTables m m :=
  ⟨fun h => h, rfl⟩

theorem SameTables.trans (h : SameTables m m') (h' : SameTables m' m'') : SameTables m m'' :=
  ⟨fun hm => h'.unbuffered (h.unbuffered hm), h'.directories.trans h.directories⟩

theorem SameTables.keepsTables (h : SameTables m m') : KeepsTables m m' :=
  fun hm => ⟨h.unbuffered hm, h.directories⟩

theorem sameTables_setFrameInfo (m : Memory) (f : Nat) {info : FrameInfo}
    (hinfo : m.Unbuffered → info.isBuffered = false) : SameTables m (m.setFrameInfo f info) := by
  refine ⟨fun hm g => ?_, rfl⟩
  simp only [setFrameInfo, Function.update_apply]
  split
  · exact hinfo hm
  · exact hm g

theorem sameTables_setReferences (m : Memory) (f : Nat) (k : Int) :
    SameTables m (m.setReferences f k) :=
  sameTables_setFrameInfo m f fun hm => hm f

theorem sameTables_freeFrame (m : Memory) (f : Nat) : SameTables m (m.freeFrame f) := by
  have hinfo : SameTables m (m.setFrameInfo f initializeFrameInfo) :=
    sameTables_setFrameInfo m f fun _ => rfl
  exact ⟨hinfo.unbuffered, hinfo.directories⟩

theorem sameTables_decrementReferences (m : Memory) (f : Nat) :
    SameTables m (m.decrementReferences f) := by
  unfold decrementReferences
  dsimp only
  split
  · exact (sameTables_setReferences m f _).trans (sameTables_freeFrame _ f)
  · exact sameTables_setReferences m f _

/-- The frame that is handed out may be buffered, and in a page table. -/
theorem keepsTables_allocateFrame (h : m.allocateFrame = some (f, m')) : KeepsTables m m' := by
  intro hm
  unfold allocateFrame at h
  cases hl : m.freeFrameList with
  | nil => simp [hl] at h
  | cons g rest =>
    simp only [hl, hm g, Bool.false_eq_true, if_false, Option.map_some, Option.some.injEq,
      Prod.mk.injEq] at h
    obtain ⟨rfl, rfl⟩ := h
    have htaken : SameTables { m with freeFrameList := rest }
        (setFrameInfo { m with freeFrameList := rest } g initializeFrameInfo) :=
      sameTables_setFrameInfo _ g fun _ => rfl
    exact ⟨htaken.unbuffered hm, htaken.directories⟩

/-- `unmap_frame` leaves the entry zero. -/
theorem sameTables_unmapEntry (h : m.unmapEntry n e = some (e', m')) :
    SameTables m m' ∧ e' = 0#32 := by
  unfold unmapEntry at h
  split at h
  · next h0 =>
    obtain ⟨rfl, rfl⟩ := Prod.mk.inj (Option.some.inj h)
    exact ⟨.refl m, h0⟩
  · split at h
    · obtain ⟨rfl, rfl⟩ := Prod.mk.inj (Option.some.inj h)
      exact ⟨sameTables_decrementReferences m _, rfl⟩
    · cases h

/-- `map_frame` leaves a present entry. -/
theorem sameTables_mapEntry (h : m.mapEntry n e f perm = some (e', m')) :
    SameTables m m' ∧ IsPresent e' := by
  unfold mapEntry at h
  split at h
  · next hsame =>
    obtain ⟨rfl, rfl⟩ := Prod.mk.inj (Option.some.inj h)
    exact ⟨.refl m, hsame.1⟩
  · obtain ⟨⟨e₁, m₁⟩, hun, heq⟩ := Option.map_eq_some_iff.1 h
    obtain ⟨rfl, rfl⟩ := Prod.mk.inj heq
    refine ⟨?_, isPresent_constructEntry _ _⟩
    have hfirst : SameTables m m₁ := by
      split at hun
      · exact (sameTables_unmapEntry hun).1
      · obtain ⟨-, rfl⟩ := Prod.mk.inj (Option.some.inj hun)
        exact .refl m
    exact hfirst.trans (sameTables_setReferences m₁ f _)

end Memory

namespace KernelHeap

open Memory (KeepsTables SameTables keepsTables_allocateFrame sameTables_mapEntry
  sameTables_unmapEntry)

variable {L : KernelHeapLayout} {s s' : KernelHeap}

theorem keepsTables_mapFrame {f va : Nat} {perm : BitVec 32}
    (h : mapFrame L s f va perm = some s') : KeepsTables s.memory s'.memory := by
  obtain ⟨⟨e, m⟩, hmap, rfl⟩ := Option.map_eq_some_iff.1 h
  exact (sameTables_mapEntry hmap).1.keepsTables

theorem sameTables_unmapFrame {va : Nat} (h : unmapFrame L s va = some s') :
    SameTables s.memory s'.memory := by
  obtain ⟨⟨e, m⟩, hun, rfl⟩ := Option.map_eq_some_iff.1 h
  exact (sameTables_unmapEntry hun).1

theorem keepsTables_kmallocLoop {startAddress : Nat} :
    ∀ (numberOfPages tempStartAddress : Nat) {s s' : KernelHeap},
      kmallocLoop L startAddress numberOfPages tempStartAddress s = some s' →
      KeepsTables s.memory s'.memory
  | 0, _, s, s', h => by
    obtain rfl := Option.some.inj h
    exact .refl s.memory
  | numberOfPages + 1, tempStartAddress, s, s', h => by
    unfold kmallocLoop at h
    obtain ⟨⟨f, m⟩, halloc, h⟩ := Option.bind_eq_some_iff.1 h
    obtain ⟨t, hmap, h⟩ := Option.bind_eq_some_iff.1 h
    have hloop := keepsTables_kmallocLoop numberOfPages _ h
    exact ((keepsTables_allocateFrame halloc).trans (keepsTables_mapFrame hmap)).trans hloop

theorem keepsTables_kmalloc {size p : Nat} (h : kmalloc L s size = some (p, s')) :
    KeepsTables s.memory s'.memory := by
  unfold kmalloc at h
  dsimp only at h
  have hinit : (if s.isKHpageEmpty then initializaKernelHeapPages L s else s).memory =
      s.memory := by
    split <;> rfl
  generalize (if s.isKHpageEmpty then initializaKernelHeapPages L s else s) = s₀ at h hinit
  rw [← hinit]
  split at h
  · obtain ⟨-, rfl⟩ := Prod.mk.inj (Option.some.inj h)
    exact .refl s₀.memory
  · obtain ⟨t, hloop, heq⟩ := Option.map_eq_some_iff.1 h
    obtain ⟨-, rfl⟩ := Prod.mk.inj heq
    have hkeeps := keepsTables_kmallocLoop _ _ hloop
    exact hkeeps

theorem sameTables_kfreeLoop {virtualAddress : Nat} :
    ∀ (fuel start : Nat) {s s' : KernelHeap}, kfreeLoop L virtualAddress fuel start s = some s' →
      SameTables s.memory s'.memory
  | 0, _, s, s', h => by
    obtain rfl := Option.some.inj h
    exact .refl s.memory
  | fuel + 1, start, s, s', h => by
    unfold kfreeLoop at h
    split at h
    · obtain ⟨p, -, h⟩ := Option.bind_eq_some_iff.1 h
      split at h
      · obtain ⟨t, hun, h⟩ := Option.bind_eq_some_iff.1 h
        have hloop := sameTables_kfreeLoop fuel _ h
        exact (sameTables_unmapFrame hun).trans hloop
      · obtain rfl := Option.some.inj h
        exact .refl s.memory
    · obtain rfl := Option.some.inj h
      exact .refl s.memory

end KernelHeap

namespace UserMemory

open Memory (Unbuffered KeepsTables)

variable {P : Type} {L : UserLayout} {pf : PageFile P} {s s' s'' : UserMemory P}
  {env env' va va' f : Nat} {t : PageTable} {e : Entry} {m : Memory}

/-- A page of an environment is mapped. -/
def Mapped (s : UserMemory P) (env va : Nat) : Prop :=
  IsPresent (s.userEntry env va)

instance : Decidable (s.Mapped env va) :=
  inferInstanceAs (Decidable (IsPresent _))

/-- No frame is buffered. -/
def NoBuffering (s : UserMemory P) : Prop :=
  s.heap.memory.Unbuffered

/-- What every function of user memory keeps. -/
structure Keeps (s s' : UserMemory P) : Prop where
  envs : s'.envs = s.envs
  pageRepAlgoType : s'.pageRepAlgoType = s.pageRepAlgoType
  noBuffering : s.NoBuffering → s'.NoBuffering

theorem Keeps.refl (s : UserMemory P) : Keeps s s :=
  ⟨rfl, rfl, fun h => h⟩

theorem Keeps.trans (h : Keeps s s') (h' : Keeps s' s'') : Keeps s s'' :=
  ⟨h'.envs.trans h.envs, h'.pageRepAlgoType.trans h.pageRepAlgoType,
    fun hs => h'.noBuffering (h.noBuffering hs)⟩

theorem userEntry_of_some (h : s.getPageTable env va = some t) :
    s.userEntry env va = t.entries (ptx va) := by
  simp [userEntry, h]

theorem userEntry_of_none (h : s.getPageTable env va = none) : s.userEntry env va = 0#32 := by
  simp [userEntry, h]

theorem isSome_getPageTable_of_mapped (h : s.Mapped env va) : (s.getPageTable env va).isSome := by
  cases ht : s.getPageTable env va with
  | none => exact absurd ((userEntry_of_none ht) ▸ h) not_isPresent_zero
  | some t => rfl

/-- The tables are all that an entry depends on. -/
theorem userEntry_congr (h : s'.heap.memory.directories = s.heap.memory.directories) :
    s'.userEntry env va = s.userEntry env va := by
  simp only [userEntry, getPageTable, h]

/-- Two addresses have the same entry when they are in the same page. -/
theorem pdx_ptx_iff : pdx va' = pdx va ∧ ptx va' = ptx va ↔ va' / pageSize = va / pageSize := by
  unfold pdx ptx pageSize
  omega

/-- Two addresses in one page have the same entry. -/
theorem userEntry_of_div_eq {a b : Nat} (h : a / pageSize = b / pageSize) :
    s.userEntry env a = s.userEntry env b := by
  obtain ⟨hpdx, hptx⟩ := pdx_ptx_iff.2 h
  simp only [userEntry, getPageTable, hpdx, hptx]

/-- The entry of one page is written. -/
theorem userEntry_setEntry (h : s.getPageTable env va = some t)
    (hm : m.directories = s.heap.memory.directories) :
    (s.setMemory (m.setEntry env va t e)).userEntry env' va' =
      if env' = env ∧ va' / pageSize = va / pageSize then e else s.userEntry env' va' := by
  have htable : m.directories env (pdx va) = some t := by
    rw [hm]
    exact h
  simp only [userEntry, getPageTable, setMemory, Memory.setEntry, hm]
  by_cases henv : env' = env
  · subst henv
    rw [Function.update_self]
    by_cases hpdx : pdx va' = pdx va
    · rw [hpdx, Function.update_self]
      simp only [Function.update_apply]
      have ht : s.heap.memory.directories env' (pdx va) = some t := h
      simp only [ht, ← pdx_ptx_iff, hpdx, true_and]
    · have hne : ¬ (va' / pageSize = va / pageSize) := fun hc => hpdx (pdx_ptx_iff.2 hc).1
      rw [Function.update_of_ne hpdx, if_neg fun hc => hne hc.2]
  · rw [Function.update_of_ne henv, if_neg fun hc => henv hc.1]

theorem keeps_setEntry (hm : s.NoBuffering → m.Unbuffered) :
    Keeps s (s.setMemory (m.setEntry env va t e)) :=
  ⟨rfl, rfl, fun hs => hm hs⟩

/-- An empty table comes or goes : no entry changes. -/
theorem userEntry_update_directory (env va : Nat) {env' va' : Nat} {o : Option PageTable}
    (ho : ∀ va', pdx va' = pdx va → s.userEntry env va' = 0#32)
    (hempty : ∀ t, o = some t → ∀ i, t.entries i = 0#32)
    (hdir : s'.heap.memory.directories = Function.update s.heap.memory.directories env
      (Function.update (s.heap.memory.directories env) (pdx va) o)) :
    s'.userEntry env' va' = s.userEntry env' va' := by
  by_cases hat : env' = env ∧ pdx va' = pdx va
  · obtain ⟨rfl, hpdx⟩ := hat
    rw [ho va' hpdx]
    simp only [userEntry, getPageTable, hdir, Function.update_self, hpdx]
    cases o with
    | none => rfl
    | some t => exact hempty t rfl _
  · simp only [userEntry, getPageTable, hdir]
    by_cases henv : env' = env
    · subst henv
      rw [Function.update_self, Function.update_of_ne fun hc => hat ⟨rfl, hc⟩]
    · rw [Function.update_of_ne henv]

/-! ## Mapping and unmapping -/

/-- The page table that is made in page `pageTable` of the kernel heap. -/
def emptyTable (heap : KernelHeap) (pageTable : Nat) : PageTable where
  frame := frameNumber (heap.kernelEntries (pageTable / pageSize))
  entries _ := 0#32

/-- The page table of `va` is `t`, cleared. -/
def withPageTable (s : UserMemory P) (env va : Nat) (t : PageTable) (heap : KernelHeap) :
    UserMemory P :=
  { s with
    heap := { heap with
      memory := { heap.memory with
        directories := Function.update heap.memory.directories env
          (Function.update (heap.memory.directories env) (pdx va) (some t)) } }
    bytes := Function.update s.bytes t.frame fun _ => 0#8 }

/-- `map_frame` finds the page table `t` for `va`, or makes it. -/
inductive FindsPageTable (L : UserLayout) (s : UserMemory P) (env va : Nat) :
    PageTable → UserMemory P → Prop
  | found {t : PageTable} (ht : s.getPageTable env va = some t) : FindsPageTable L s env va t s
  | made (hnone : s.getPageTable env va = none) {pageTable : Nat} {heap : KernelHeap}
      (hmalloc : s.heap.kmalloc L.toKernelHeapLayout pageSize = some (pageTable, heap))
      (hne : pageTable ≠ 0) : FindsPageTable L s env va (emptyTable heap pageTable)
        (s.withPageTable env va (emptyTable heap pageTable) heap)

theorem findsPageTable (h : s.getOrCreatePageTable L env va = some (t, s')) :
    FindsPageTable L s env va t s' := by
  unfold getOrCreatePageTable at h
  cases ht : s.getPageTable env va with
  | some t' =>
    rw [ht] at h
    obtain ⟨rfl, rfl⟩ := Prod.mk.inj (Option.some.inj h)
    exact .found ht
  | none =>
    rw [ht] at h
    unfold createPageTable at h
    simp only [Option.bind_eq_bind, Option.bind_eq_some_iff] at h
    obtain ⟨⟨pageTable, heap⟩, hmalloc, h⟩ := h
    dsimp only at h
    split at h
    · cases h
    · next hne =>
      obtain ⟨rfl, rfl⟩ := Prod.mk.inj (Option.some.inj h)
      exact .made ht hmalloc hne

/-- `map_frame` writes the entry that it makes to the page table. -/
theorem mapFrame_eq_some {perm : BitVec 32} (h : s.mapFrame L env f va perm = some s') :
    ∃ t s₁ e m, FindsPageTable L s env va t s₁ ∧
      s₁.heap.memory.mapEntry L.numberOfFrames (t.entries (ptx va)) f perm = some (e, m) ∧
      s' = s₁.setMemory (m.setEntry env va t e) := by
  unfold mapFrame at h
  simp only [Option.bind_eq_bind, Option.bind_eq_some_iff] at h
  obtain ⟨⟨t, s₁⟩, htable, ⟨e, m⟩, hmap, h⟩ := h
  exact ⟨t, s₁, e, m, findsPageTable htable, hmap, (Option.some.inj h).symm⟩

theorem getPageTable_withPageTable (s : UserMemory P) (env va : Nat) (t : PageTable)
    (heap : KernelHeap) : (s.withPageTable env va t heap).getPageTable env va = some t := by
  simp [withPageTable, getPageTable]

/-- A new page table is empty, so no entry changes. -/
theorem userEntry_withPageTable {heap : KernelHeap} (hnone : s.getPageTable env va = none)
    (hdir : heap.memory.directories = s.heap.memory.directories) (pageTable env' va' : Nat) :
    (s.withPageTable env va (emptyTable heap pageTable) heap).userEntry env' va' =
      s.userEntry env' va' := by
  refine userEntry_update_directory env va (fun va' hpdx => ?_) (fun t ht i => ?_)
    (by simp only [withPageTable, hdir]; rfl)
  · exact userEntry_of_none (by rwa [getPageTable, hpdx])
  · obtain rfl := Option.some.inj ht
    rfl

theorem FindsPageTable.keeps (hs : s.NoBuffering) (h : FindsPageTable L s env va t s') :
    Keeps s s' ∧ s'.getPageTable env va = some t ∧
      ∀ env' va', s'.userEntry env' va' = s.userEntry env' va' := by
  cases h with
  | found ht => exact ⟨.refl s, ht, fun _ _ => rfl⟩
  | made hnone hmalloc hne =>
    obtain ⟨hun, hdir⟩ := KernelHeap.keepsTables_kmalloc hmalloc hs
    exact ⟨⟨rfl, rfl, fun _ => hun⟩, getPageTable_withPageTable _ _ _ _ _,
      userEntry_withPageTable hnone hdir _⟩

/-- `map_frame` maps one page. -/
theorem mapFrame_spec {perm : BitVec 32} (hs : s.NoBuffering)
    (h : s.mapFrame L env f va perm = some s') :
    Keeps s s' ∧ ∀ env' va', s'.Mapped env' va' ↔
      (env' = env ∧ va' / pageSize = va / pageSize) ∨ s.Mapped env' va' := by
  obtain ⟨t, s₁, e, m, htable, hmap, rfl⟩ := mapFrame_eq_some h
  obtain ⟨hkeeps, ht, hentry⟩ := htable.keeps hs
  obtain ⟨htables, hpresent⟩ := Memory.sameTables_mapEntry hmap
  refine ⟨hkeeps.trans (keeps_setEntry htables.unbuffered), fun env' va' => ?_⟩
  unfold Mapped
  rw [userEntry_setEntry ht htables.directories, hentry]
  split
  · next hat => exact iff_of_true hpresent (.inl hat)
  · next hat => exact ⟨.inr, fun hc => hc.resolve_left hat⟩

/-- `unmap_frame` clears the entry of one page, with buffering or without. -/
theorem userEntry_unmapFrame (h : s.unmapFrame L env va = some s') (env' va' : Nat) :
    s'.userEntry env' va' =
      if env' = env ∧ va' / pageSize = va / pageSize then 0#32 else s.userEntry env' va' := by
  unfold unmapFrame at h
  split at h
  · next hnone =>
    obtain rfl := Option.some.inj h
    split
    · next hat =>
      obtain ⟨rfl, hpage⟩ := hat
      exact userEntry_of_none (by rwa [getPageTable, (pdx_ptx_iff.2 hpage).1])
    · rfl
  · next t ht =>
    obtain ⟨⟨e, m⟩, hun, rfl⟩ := Option.map_eq_some_iff.1 h
    obtain ⟨htables, rfl⟩ := Memory.sameTables_unmapEntry hun
    exact userEntry_setEntry ht htables.directories

/-- What unmapping user pages keeps : all but the entries, and the bookkeeping of frames. -/
structure Unmaps (s s' : UserMemory P) : Prop extends Keeps s s' where
  kernelHeapPages : s'.heap.kernelHeapPages = s.heap.kernelHeapPages
  kernelEntries : s'.heap.kernelEntries = s.heap.kernelEntries
  initialized : s'.heap.isKHpageEmpty = s.heap.isKHpageEmpty
  frames : ∀ e k, (s'.heap.memory.directories e k).map PageTable.frame =
    (s.heap.memory.directories e k).map PageTable.frame

theorem Unmaps.refl (s : UserMemory P) : Unmaps s s :=
  ⟨.refl s, rfl, rfl, rfl, fun _ _ => rfl⟩

theorem Unmaps.trans (h : Unmaps s s') (h' : Unmaps s' s'') : Unmaps s s'' :=
  ⟨h.toKeeps.trans h'.toKeeps, h'.kernelHeapPages.trans h.kernelHeapPages,
    h'.kernelEntries.trans h.kernelEntries, h'.initialized.trans h.initialized,
    fun e k => (h'.frames e k).trans (h.frames e k)⟩

theorem unmapFrame_pageFile (h : s.unmapFrame L env va = some s') : s'.pageFile = s.pageFile := by
  unfold unmapFrame at h
  split at h
  · obtain rfl := Option.some.inj h
    rfl
  · obtain ⟨_, -, rfl⟩ := Option.map_eq_some_iff.1 h
    rfl

theorem unmaps_unmapFrame (h : s.unmapFrame L env va = some s') : Unmaps s s' := by
  unfold unmapFrame at h
  split at h
  · obtain rfl := Option.some.inj h
    exact .refl s
  · next t ht =>
    obtain ⟨⟨e, m⟩, hun, rfl⟩ := Option.map_eq_some_iff.1 h
    obtain ⟨htables, -⟩ := Memory.sameTables_unmapEntry hun
    refine ⟨keeps_setEntry htables.unbuffered, rfl, rfl, rfl, fun e' k => ?_⟩
    simp only [setMemory, Memory.setEntry, htables.directories]
    by_cases he : e' = env
    · subst he
      rw [Function.update_self]
      by_cases hk : k = pdx va
      · have htable : s.heap.memory.directories e' (pdx va) = some t := ht
        rw [hk, Function.update_self, htable]
        rfl
      · rw [Function.update_of_ne hk]
    · rw [Function.update_of_ne he]

theorem mapped_unmapFrame (h : s.unmapFrame L env va = some s') :
    s'.Mapped env' va' ↔
      s.Mapped env' va' ∧ ¬ (env' = env ∧ va' / pageSize = va / pageSize) := by
  unfold Mapped
  rw [userEntry_unmapFrame h]
  split
  · next hat => exact iff_of_false not_isPresent_zero fun hc => hc.2 hat
  · next hat => exact (and_iff_left hat).symm

/-- The frame of the new page is allocated. -/
theorem keeps_allocateFrame (hs : s.NoBuffering) (h : s.heap.memory.allocateFrame = some (f, m)) :
    Keeps s (s.setMemory m) ∧
      ∀ env' va', (s.setMemory m).userEntry env' va' = s.userEntry env' va' := by
  obtain ⟨hun, hdir⟩ := Memory.keepsTables_allocateFrame h hs
  exact ⟨⟨rfl, rfl, fun _ => hun⟩, fun env' va' => userEntry_congr hdir⟩

/-! ## Permissions -/

theorem isPresent_or {perm : BitVec 32} (h : IsPresent e) : IsPresent (e ||| perm) := by
  unfold IsPresent at *
  rw [or_and_right, h]
  apply BitVec.eq_of_getLsbD_eq
  intro i hi
  simp only [BitVec.getLsbD_or, BitVec.getLsbD_and]
  cases permPresent.getLsbD i <;> simp

/-- `pt_set_page_permissions` clears the used bit of one page. -/
theorem clearUsed_spec (h : s.ptSetPagePermissions env va 0#32 permUsed = some s') :
    Keeps s s' ∧ (∀ env' va', s'.userEntry env' va' =
        if env' = env ∧ va' / pageSize = va / pageSize
        then s.userEntry env va &&& ~~~permUsed else s.userEntry env' va') ∧
      s'.lastClockIndex = s.lastClockIndex := by
  obtain ⟨t, ht, rfl⟩ := Option.map_eq_some_iff.1 h
  refine ⟨keeps_setEntry fun hs => hs, fun env' va' => ?_, rfl⟩
  rw [userEntry_setEntry ht rfl, userEntry_of_some ht, BitVec.or_zero]

theorem access_spec (s : UserMemory P) (env va : Nat) (store : Option PageBytes) :
    Keeps s (access env va store s) ∧
      (∀ env' va', (access env va store s).Mapped env' va' ↔ s.Mapped env' va') ∧
      (access env va store s).lastClockIndex = s.lastClockIndex := by
  unfold access
  cases ht : s.getPageTable env va with
  | none => exact ⟨.refl s, fun _ _ => Iff.rfl, rfl⟩
  | some t =>
    dsimp only
    split
    · next hpresent =>
      have hmapped : ∀ (perm : BitVec 32) (env' va' : Nat),
          (s.setMemory (s.heap.memory.setEntry env va t (t.entries (ptx va) ||| perm))).Mapped
            env' va' ↔ s.Mapped env' va' := fun perm env' va' => by
        unfold Mapped
        rw [userEntry_setEntry ht rfl]
        split
        · next hat =>
          obtain ⟨rfl, hpage⟩ := hat
          obtain ⟨hpdx, hptx⟩ := pdx_ptx_iff.2 hpage
          have ht' : s.getPageTable env' va' = some t := by rwa [getPageTable, hpdx]
          rw [userEntry_of_some ht', hptx]
          exact iff_of_true (isPresent_or hpresent) hpresent
        · rfl
      cases store with
      | none => exact ⟨keeps_setEntry fun hs => hs, hmapped permUsed, rfl⟩
      | some contents => exact ⟨⟨rfl, rfl, fun hs => hs⟩, hmapped _, rfl⟩
    · exact ⟨.refl s, fun _ _ => Iff.rfl, rfl⟩

/-! ## `freeMem` -/

theorem freePageTable_spec (ht : s.getPageTable env va = some t)
    (hempty : ∀ flag < 1024, t.entries flag = 0#32)
    (h : s.freePageTable L env va t = some s') :
    Keeps s s' ∧ s'.pageFile = s.pageFile ∧
      ∀ env' va', s'.userEntry env' va' = s.userEntry env' va' := by
  unfold freePageTable at h
  simp only [Option.bind_eq_bind, Option.bind_eq_some_iff] at h
  obtain ⟨address, -, heap, hfree, h⟩ := h
  obtain rfl := Option.some.inj h
  have htables := KernelHeap.sameTables_kfreeLoop _ _ hfree
  refine ⟨⟨rfl, rfl, htables.unbuffered⟩, rfl, fun env' va' => ?_⟩
  refine userEntry_update_directory env va (o := none) (fun va' hpdx => ?_)
    (fun t ht => absurd ht (by simp)) (by simp only [htables.directories])
  have ht' : s.getPageTable env va' = some t := by rwa [getPageTable, hpdx]
  rw [userEntry_of_some ht']
  exact hempty _ (Nat.mod_lt _ (by decide))

theorem removeEmptyNonUsedPages_spec :
    ∀ (noOfPages va : Nat) {s s' : UserMemory P},
      removeEmptyNonUsedPages L env va noOfPages s = some s' →
      Keeps s s' ∧ s'.pageFile = s.pageFile ∧
        ∀ env' va', s'.userEntry env' va' = s.userEntry env' va'
  | 0, va, s, s', h => by
    obtain rfl := Option.some.inj h
    exact ⟨.refl s, rfl, fun _ _ => rfl⟩
  | noOfPages + 1, va, s, s', h => by
    unfold removeEmptyNonUsedPages at h
    split at h
    · exact removeEmptyNonUsedPages_spec noOfPages _ h
    · next t ht =>
      split at h
      · next hempty =>
        obtain ⟨s₁, hfree, h⟩ := Option.bind_eq_some_iff.1 h
        have hzero : ∀ flag < 1024, t.entries flag = 0#32 := fun flag hflag => by
          simpa using List.all_eq_true.1 hempty flag (List.mem_range.2 hflag)
        obtain ⟨hkeeps, hpages, hentry⟩ := freePageTable_spec ht hzero hfree
        obtain ⟨hkeeps', hpages', hentry'⟩ := removeEmptyNonUsedPages_spec noOfPages _ h
        exact ⟨hkeeps.trans hkeeps', hpages'.trans hpages,
          fun env' va' => (hentry' env' va').trans (hentry env' va')⟩
      · exact removeEmptyNonUsedPages_spec noOfPages _ h

end UserMemory

end FosKernel
