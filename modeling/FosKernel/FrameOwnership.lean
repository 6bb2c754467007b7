import FosKernel.HeldFrames
import FosKernel.WorkingSetInvariant

/-!
# Who owns a frame

`FramesOwned` : each mapped user page is present, and has a frame of its own, which is
neither free nor behind a page of the kernel heap and has one reference. Every call keeps
it (`step_framesOwned`), at whatever address and under any replacement algorithm.

`place_spec` and `unmapFrame_spec` say what `allocate_frame` with `map_frame`, and
`unmap_frame`, do in such a state to the entries, the free frame list and the bytes.
-/

namespace FosKernel

open KernelHeap (HeldFrame)

/-- `map_frame` over another frame unmaps that one first. -/
theorem Memory.mapEntry_over {m m' : Memory} {n f : Nat} {e e' : Entry} {perm : BitVec 32}
    (hp : IsPresent e) (hne : extractAddress e ≠ toPhysicalAddress f)
    (hun : m.unmapEntry n e = some (e', m')) : m.mapEntry n e f perm =
      some (constructEntry (toPhysicalAddress f) (perm ||| permPresent),
        m'.setReferences f ((m'.framesInfo f).references + 1)) := by
  simp [Memory.mapEntry, hp, hne, hun]

namespace UserMemory

variable {P : Type} {L : UserLayout} {pf : PageFile P} {s s' s'' : UserMemory P}
  {env env' va va' f v trips i fuel start stop : Nat} {t : PageTable} {e : Entry} {m : Memory}
  {try1 : Bool} {r : Option Nat} {perm : BitVec 32}

/-- The frame that the entry of a page names. -/
def frameOf (s : UserMemory P) (env va : Nat) : Nat :=
  frameNumber (s.userEntry env va)

/-- Each mapped user page has a frame of its own. -/
structure FramesOwned (L : UserLayout) (s : UserMemory P) : Prop where
  heap : KernelHeap.Invariant L.toKernelHeapLayout s.heap
  noBuffering : s.NoBuffering
  present : ∀ {env va}, s.userEntry env va ≠ 0#32 → s.Mapped env va
  held : ∀ {env va}, s.userEntry env va ≠ 0#32 →
    HeldFrame L.toKernelHeapLayout s.heap (s.frameOf env va) 1
  exclusive : ∀ {env va env' va'}, s.userEntry env va ≠ 0#32 → s.userEntry env' va' ≠ 0#32 →
    s.frameOf env va = s.frameOf env' va' → env = env' ∧ va / pageSize = va' / pageSize

/-! ## Changes that keep the frames -/

/-- The pages mapped and their frames are the same, and held frames stay held. -/
structure SameFrames (L : UserLayout) (s s' : UserMemory P) : Prop where
  heap : KernelHeap.Invariant L.toKernelHeapLayout s'.heap
  noBuffering : s'.NoBuffering
  zero : ∀ env va, s'.userEntry env va = 0#32 ↔ s.userEntry env va = 0#32
  present : ∀ env va, s.Mapped env va → s'.Mapped env va
  frame : ∀ env va, s'.frameOf env va = s.frameOf env va
  held : ∀ f k, HeldFrame L.toKernelHeapLayout s.heap f k →
    HeldFrame L.toKernelHeapLayout s'.heap f k

theorem FramesOwned.of_sameFrames (h : FramesOwned L s) (hsame : SameFrames L s s') :
    FramesOwned L s' := by
  have hzero : ∀ {env va}, s'.userEntry env va ≠ 0#32 → s.userEntry env va ≠ 0#32 :=
    fun hne => (hsame.zero _ _).not.1 hne
  refine ⟨hsame.heap, hsame.noBuffering, fun hne => hsame.present _ _ (h.present (hzero hne)),
    fun hne => ?_, fun hne hne' heq => ?_⟩
  · rw [hsame.frame]
    exact hsame.held _ _ (h.held (hzero hne))
  · rw [hsame.frame, hsame.frame] at heq
    exact h.exclusive (hzero hne) (hzero hne') heq

/-- No entry changes. -/
theorem SameFrames.of_userEntry (hheap : KernelHeap.Invariant L.toKernelHeapLayout s'.heap)
    (hbuf : s'.NoBuffering) (hentry : ∀ env va, s'.userEntry env va = s.userEntry env va)
    (hheld : ∀ f k, HeldFrame L.toKernelHeapLayout s.heap f k →
      HeldFrame L.toKernelHeapLayout s'.heap f k) : SameFrames L s s' :=
  ⟨hheap, hbuf, fun env va => by rw [hentry],
    fun env va => by rw [Mapped, Mapped, hentry]; exact id,
    fun env va => by rw [frameOf, frameOf, hentry], hheld⟩

theorem FramesOwned.of_heap_eq (h : FramesOwned L s) (heq : s'.heap = s.heap) :
    FramesOwned L s' := by
  refine h.of_sameFrames (.of_userEntry (heq ▸ h.heap) ?_
    (fun env va => userEntry_congr (by rw [heq])) fun f k hf => heq ▸ hf)
  unfold NoBuffering
  rw [heq]
  exact h.noBuffering

/-- The page tables are no part of the heap. -/
theorem invariant_directories {s : KernelHeap} {L : KernelHeapLayout}
    (h : KernelHeap.Invariant L s) (d : Nat → Nat → Option PageTable) :
    KernelHeap.Invariant L { s with memory := { s.memory with directories := d } } :=
  h.setMemory ⟨h.frames.nodup, h.frames.lt, h.frames.unbuffered⟩
    fun _ hi => ⟨rfl, h.frameAt_not_mem hi⟩

theorem heldFrame_directories {s : KernelHeap} {L : KernelHeapLayout} {k : Int}
    (hf : HeldFrame L s f k) (d : Nat → Nat → Option PageTable) :
    HeldFrame L { s with memory := { s.memory with directories := d } } f k :=
  ⟨hf.lt, hf.notFree, hf.notHeap, hf.references⟩

/-! ## One entry written -/

theorem frameOf_setEntry (ht : s.getPageTable env va = some t)
    (hm : m.directories = s.heap.memory.directories) :
    (s.setMemory (m.setEntry env va t e)).frameOf env' va' =
      if env' = env ∧ va' / pageSize = va / pageSize then frameNumber e
      else s.frameOf env' va' := by
  rw [frameOf, userEntry_setEntry ht hm]
  split_ifs <;> rfl

/-- The frames in `m` changed, and one entry is written. The other pages keep their frames,
and the page of the entry gets one that is held. -/
theorem FramesOwned.setEntry (h : FramesOwned L s) (ht : s.getPageTable env va = some t)
    (hm : m.directories = s.heap.memory.directories) (hbuf : m.Unbuffered)
    (hheap : KernelHeap.Invariant L.toKernelHeapLayout { s.heap with memory := m })
    (hothers : ∀ env' va', ¬(env' = env ∧ va' / pageSize = va / pageSize) →
      s.userEntry env' va' ≠ 0#32 →
        HeldFrame L.toKernelHeapLayout { s.heap with memory := m } (s.frameOf env' va') 1)
    (hnew : e ≠ 0#32 → IsPresent e ∧
      HeldFrame L.toKernelHeapLayout { s.heap with memory := m } (frameNumber e) 1 ∧
      ∀ env' va', ¬(env' = env ∧ va' / pageSize = va / pageSize) →
        s.userEntry env' va' ≠ 0#32 → s.frameOf env' va' ≠ frameNumber e) :
    FramesOwned L (s.setMemory (m.setEntry env va t e)) := by
  have hheld : ∀ {g k}, HeldFrame L.toKernelHeapLayout { s.heap with memory := m } g k →
      HeldFrame L.toKernelHeapLayout (s.setMemory (m.setEntry env va t e)).heap g k :=
    fun hg => heldFrame_directories hg _
  refine ⟨invariant_directories hheap _, hbuf, fun {env' va'} hne => ?_, fun {env' va'} hne => ?_,
    fun {a x b y} hne hne' heq => ?_⟩
  · rw [userEntry_setEntry ht hm] at hne
    rw [Mapped, userEntry_setEntry ht hm]
    split_ifs at hne ⊢ with hat
    · exact (hnew hne).1
    · exact h.present hne
  · rw [userEntry_setEntry ht hm] at hne
    rw [frameOf_setEntry ht hm]
    split_ifs at hne ⊢ with hat
    · exact hheld (hnew hne).2.1
    · exact hheld (hothers env' va' hat hne)
  · rw [userEntry_setEntry ht hm] at hne hne'
    rw [frameOf_setEntry ht hm, frameOf_setEntry ht hm] at heq
    split_ifs at hne hne' heq with hx hy hy
    · exact ⟨hx.1.trans hy.1.symm, hx.2.trans hy.2.symm⟩
    · exact absurd heq.symm ((hnew hne).2.2 b y hy hne')
    · exact absurd heq ((hnew hne').2.2 a x hx hne)
    · exact h.exclusive hne hne' heq

/-! ## unmap_frame -/

theorem setEntry_same (ht : s.getPageTable env va = some t) :
    s.heap.memory.setEntry env va t (t.entries (ptx va)) = s.heap.memory := by
  have htable : s.heap.memory.directories env (pdx va) = some t := ht
  simp only [Memory.setEntry, Function.update_eq_self]
  rw [← htable, Function.update_eq_self, Function.update_eq_self]

/-- A page that is not mapped stays so, and nothing changes. -/
theorem unmapFrame_of_zero (hzero : s.userEntry env va = 0#32) :
    s.unmapFrame L env va = some s := by
  unfold unmapFrame
  cases ht : s.getPageTable env va with
  | none => rfl
  | some t =>
    rw [userEntry_of_some ht] at hzero
    have hsame := setEntry_same ht
    rw [hzero] at hsame
    simp only [Memory.unmapEntry, hzero, if_true, Option.map_some, hsame]
    rfl

/-- The frame of a mapped page is freed. -/
theorem FramesOwned.unmapFrame_eq (h : FramesOwned L s) (ht : s.getPageTable env va = some t)
    (hne : s.userEntry env va ≠ 0#32) : s.unmapFrame L env va =
      some (s.setMemory
        ((s.heap.memory.freeFrame (s.frameOf env va)).setEntry env va t 0#32)) := by
  have hf := h.held hne
  have hlt := hf.lt
  unfold unmapFrame
  rw [frameOf] at hlt hf
  rw [userEntry_of_some ht] at hne hlt hf
  simp only [ht, Memory.unmapEntry, if_neg hne, if_pos hlt, Option.map_some,
    Memory.decrementReferences_of_one hf.references, frameOf, userEntry_of_some ht]

/-- What `unmap_frame` leaves where each page has its own frame. -/
structure UnmapSpec (L : UserLayout) (env va : Nat) (s s' : UserMemory P) : Prop where
  owned : FramesOwned L s'
  entry : ∀ env' va', s'.userEntry env' va' =
    if env' = env ∧ va' / pageSize = va / pageSize then 0#32 else s.userEntry env' va'
  freeFrameList : s'.heap.memory.freeFrameList =
    if s.userEntry env va = 0#32 then s.heap.memory.freeFrameList
    else s.frameOf env va :: s.heap.memory.freeFrameList
  bytes : s'.bytes = s.bytes
  pageFile : s'.pageFile = s.pageFile

theorem FramesOwned.unmapFrame_spec (h : FramesOwned L s)
    (hun : s.unmapFrame L env va = some s') : UnmapSpec L env va s s' := by
  have hentry := userEntry_unmapFrame hun
  by_cases hzero : s.userEntry env va = 0#32
  · rw [unmapFrame_of_zero hzero] at hun
    obtain rfl := Option.some.inj hun
    exact ⟨h, hentry, by rw [if_pos hzero], rfl, rfl⟩
  · obtain ⟨t, ht⟩ := Option.isSome_iff_exists.1 (isSome_getPageTable_of_mapped (h.present hzero))
    rw [h.unmapFrame_eq ht hzero] at hun
    obtain rfl := Option.some.inj hun
    have hf := h.held hzero
    refine ⟨?_, hentry, by rw [if_neg hzero]; rfl, rfl, rfl⟩
    refine h.setEntry ht rfl ((Memory.sameTables_freeFrame _ _).unbuffered h.noBuffering)
      (h.heap.freeFrame hf) (fun env' va' hat hne => (h.held hne).freeFrame fun heq => ?_)
      fun hne => absurd rfl hne
    exact hat (h.exclusive hne hzero heq)

/-! ## allocate_frame and map_frame -/

/-- What looking up a page table, or making one, leaves where each page has its own frame. -/
structure TableSpec (L : UserLayout) (env va : Nat) (t : PageTable) (s s' : UserMemory P) :
    Prop extends SameFrames L s s' where
  table : s'.getPageTable env va = some t
  entry : ∀ env' va', s'.userEntry env' va' = s.userEntry env' va'
  taken : ∃ l, s.heap.memory.freeFrameList = l ++ s'.heap.memory.freeFrameList ∧
    (l = [] ↔ (s.getPageTable env va).isSome)
  bytes : ∀ g, g ∉ s.heap.memory.freeFrameList → s'.bytes g = s.bytes g
  pageFile : s'.pageFile = s.pageFile
  envs : s'.envs = s.envs

/-- The frame of a new page table is a free one. -/
theorem FramesOwned.findsPageTable_spec (h : FramesOwned L s)
    (hfinds : FindsPageTable L s env va t s') : TableSpec L env va t s s' := by
  obtain ⟨hkeeps, htable, hentry⟩ := hfinds.keeps h.noBuffering
  cases hfinds with
  | found ht =>
    exact ⟨.of_userEntry h.heap h.noBuffering (fun _ _ => rfl) fun _ _ hf => hf, ht,
      fun _ _ => rfl, ⟨[], rfl, by simp [ht]⟩, fun _ _ => rfl, rfl, rfl⟩
  | @made hnone pageTable heap hmalloc hne =>
    obtain ⟨hheap, hspec⟩ := KernelHeap.kmalloc_spec h.heap hmalloc
    obtain ⟨p, rfl, -, hallocated⟩ := hspec.resolve_left fun hc => hne hc.1
    have hone : roundUp pageSize pageSize / pageSize = 1 := by decide
    rw [hone] at hallocated
    obtain ⟨taken, hlist, hlen, hframe⟩ := hallocated.frames
    obtain ⟨g, rfl⟩ := List.length_eq_one_iff.1 hlen
    have hg : frameNumber (heap.kernelEntries (L.addr p / pageSize)) = g := hframe 0 (by simp)
    refine ⟨.of_userEntry (invariant_directories hheap _) (hkeeps.noBuffering h.noBuffering) hentry
      fun f k hf => heldFrame_directories (hf.kmalloc h.heap hmalloc) _, htable, hentry,
      ⟨[g], hlist, by simp [hnone]⟩, fun g' hg' => ?_, rfl, rfl⟩
    refine Function.update_of_ne (fun heq => hg' ?_) _ _
    rw [heq, emptyTable, hg, hlist]
    simp

/-- The frame that `allocate_frame` hands out belongs to no page. -/
theorem FramesOwned.allocateFrame_spec (h : FramesOwned L s)
    (ha : s.heap.memory.allocateFrame = some (f, m)) :
    (∃ rest, s.heap.memory.freeFrameList = f :: rest ∧ m.freeFrameList = rest) ∧
      FramesOwned L (s.setMemory m) ∧
      HeldFrame L.toKernelHeapLayout (s.setMemory m).heap f 0 ∧
      m.directories = s.heap.memory.directories := by
  obtain ⟨rest, hl, rfl⟩ := (Memory.allocateFrame_of_framesOk h.heap.frames).1 ha
  obtain ⟨hheap, hf⟩ := h.heap.taken hl
  refine ⟨⟨rest, hl, rfl⟩, h.of_sameFrames ?_, hf, rfl⟩
  exact .of_userEntry hheap ((Memory.keepsTables_allocateFrame ha) h.noBuffering).1 (fun _ _ => rfl)
    fun g k hg => hg.takeFrame hl

/-- What `map_frame` leaves of an entry, for a frame without references. -/
theorem FramesOwned.mapEntry_spec (h : FramesOwned L s) (hperm : IsPerm (perm ||| permPresent))
    (hf : HeldFrame L.toKernelHeapLayout s.heap f 0) (ht : s.getPageTable env va = some t)
    (hmap : s.heap.memory.mapEntry L.numberOfFrames (s.userEntry env va) f perm = some (e, m)) :
    e = constructEntry (toPhysicalAddress f) (perm ||| permPresent) ∧
      FramesOwned L (s.setMemory (m.setEntry env va t e)) ∧
      (s.userEntry env va = 0#32 → m.freeFrameList = s.heap.memory.freeFrameList) ∧
      m.directories = s.heap.memory.directories := by
  have hne0 : ∀ {env' va'}, s.userEntry env' va' ≠ 0#32 → s.frameOf env' va' ≠ f := by
    intro env' va' hne heq
    have hrefs := (heq ▸ (h.held hne).references).symm.trans hf.references
    exact absurd hrefs (by decide)
  have hnumber : frameNumber (constructEntry (toPhysicalAddress f) (perm ||| permPresent)) = f :=
    frameNumber_constructEntry (lt_of_lt_of_le hf.lt L.numberOfFrames_le) hperm
  have hpresent := isPresent_constructEntry (toPhysicalAddress f) perm
  by_cases hzero : s.userEntry env va = 0#32
  · rw [hzero, Memory.mapEntry_zero, hf.references] at hmap
    obtain ⟨rfl, rfl⟩ := Prod.mk.inj (Option.some.inj hmap)
    refine ⟨rfl, ?_, fun _ => rfl, rfl⟩
    refine h.setEntry ht rfl ((Memory.sameTables_setReferences _ _ _).unbuffered h.noBuffering)
      (h.heap.setReferences hf _) (fun env' va' _ hne => (h.held hne).setReferences (hne0 hne) _)
      fun _ => ⟨hpresent, ?_, fun env' va' _ hne => ?_⟩
    · rw [hnumber]
      exact hf.setReferences_self _
    · rw [hnumber]
      exact hne0 hne
  · -- The frame mapped before is freed.
    have hg := h.held hzero
    have haddress : extractAddress (s.userEntry env va) ≠ toPhysicalAddress f := by
      intro heq
      rw [← toPhysicalAddress_frameNumber] at heq
      exact hne0 hzero (toPhysicalAddress_injective (lt_of_lt_of_le hg.lt L.numberOfFrames_le)
        (lt_of_lt_of_le hf.lt L.numberOfFrames_le) heq)
    have hun : s.heap.memory.unmapEntry L.numberOfFrames (s.userEntry env va) =
        some (0#32, s.heap.memory.freeFrame (s.frameOf env va)) := by
      have hlt := hg.lt
      rw [frameOf] at hlt
      rw [Memory.unmapEntry, if_neg hzero, if_pos hlt]
      exact congrArg (fun m => some (0#32, m)) (Memory.decrementReferences_of_one hg.references)
    have hf' := hf.freeFrame (hne0 hzero).symm
    rw [Memory.mapEntry_over (h.present hzero) haddress hun, hf'.references] at hmap
    obtain ⟨rfl, rfl⟩ := Prod.mk.inj (Option.some.inj hmap)
    have hheap' := (h.heap.freeFrame hg).setReferences hf' 1
    refine ⟨rfl, ?_, fun hc => absurd hc hzero, rfl⟩
    refine h.setEntry ht rfl ?_ hheap' (fun env' va' hat hne => ?_)
      fun _ => ⟨hpresent, ?_, fun env' va' _ hne => ?_⟩
    · exact (Memory.sameTables_setReferences _ _ _).unbuffered
        ((Memory.sameTables_freeFrame _ _).unbuffered h.noBuffering)
    · have hother := (h.held hne).freeFrame fun heq => hat (h.exclusive hne hzero heq)
      exact hother.setReferences (hne0 hne) _
    · rw [hnumber]
      exact hf'.setReferences_self _
    · rw [hnumber]
      exact hne0 hne

/-- What `allocate_frame` and `map_frame` leave where each page has its own frame. -/
structure PlaceSpec (L : UserLayout) (env f va : Nat) (perm : BitVec 32) (s s' : UserMemory P) :
    Prop where
  owned : FramesOwned L s'
  entry : ∀ env' va', s'.userEntry env' va' = if env' = env ∧ va' / pageSize = va / pageSize
    then constructEntry (toPhysicalAddress f) (perm ||| permPresent) else s.userEntry env' va'
  lt : f < L.numberOfFrames
  head : ∃ rest, s.heap.memory.freeFrameList = f :: rest
  taken : s.userEntry env va = 0#32 →
    ∃ l, s.heap.memory.freeFrameList = f :: (l ++ s'.heap.memory.freeFrameList) ∧
      (l = [] ↔ (s.getPageTable env va).isSome)
  bytes : ∀ g, g = f ∨ g ∉ s.heap.memory.freeFrameList → s'.bytes g = s.bytes g
  pageFile : s'.pageFile = s.pageFile
  envs : s'.envs = s.envs

theorem FramesOwned.place_spec (h : FramesOwned L s) (hperm : IsPerm (perm ||| permPresent))
    (ha : s.heap.memory.allocateFrame = some (f, m))
    (hmap : (s.setMemory m).mapFrame L env f va perm = some s') :
    PlaceSpec L env f va perm s s' := by
  obtain ⟨⟨rest, hl, hrest⟩, h₁, hf, hdir⟩ := h.allocateFrame_spec ha
  obtain ⟨t, s₂, e, m₂, htable, hmapEntry, rfl⟩ := mapFrame_eq_some hmap
  have hspec := h₁.findsPageTable_spec htable
  have hentry₂ : ∀ env' va', s₂.userEntry env' va' = s.userEntry env' va' := fun env' va' =>
    (hspec.entry env' va').trans (userEntry_congr hdir)
  have h₂ := h₁.of_sameFrames hspec.toSameFrames
  rw [← userEntry_of_some hspec.table] at hmapEntry
  obtain ⟨rfl, howned, hlist, hdir₂⟩ :=
    h₂.mapEntry_spec hperm (hspec.held _ _ hf) hspec.table hmapEntry
  have hnd := h.heap.frames.nodup
  rw [hl, List.nodup_cons] at hnd
  refine ⟨howned, fun env' va' => ?_, hf.lt, ⟨rest, hl⟩, fun hzero => ?_, fun g hg => ?_,
    hspec.pageFile, hspec.envs⟩
  · rw [userEntry_setEntry hspec.table hdir₂, hentry₂]
  · obtain ⟨l, hl', hiff⟩ := hspec.taken
    have hlist' := hlist ((hentry₂ env va).trans hzero)
    refine ⟨l, ?_, ?_⟩
    · rw [hl, ← hrest]
      exact congrArg (f :: ·) (hl'.trans (congrArg (l ++ ·) hlist'.symm))
    · rw [hiff, getPageTable, getPageTable]
      exact iff_of_eq (congrArg (fun d => (d env (pdx va)).isSome = true) hdir)
  · refine hspec.bytes g ?_
    change g ∉ m.freeFrameList
    rw [hrest]
    rcases hg with rfl | hg
    · exact hnd.1
    · exact fun hc => hg (hl ▸ List.mem_cons_of_mem f hc)

end UserMemory

end FosKernel
