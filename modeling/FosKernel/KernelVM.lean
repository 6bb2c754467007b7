import FosKernel.BootDirectories

/-!
# The kernel part of the address space

`initialize_kernel_VM` takes the page directory, `frames_info` and `envs` from boot memory, maps
them and the kernel stack and all of physical memory, and makes the directory its own page table
at `VPT` and `UVPT`. `check_boot_pgdir` then walks the directory with `check_va2pa` and panics at
the first page that is not where it should be.

`Built` is the directory that `check_boot_pgdir` gets : no assertion fails on it
(`Built.checkBootPgdir`), and `KernelSpace` is all that it maps (`Built.kernelSpace`), permissions
included, which the assertions leave out.
-/

namespace FosKernel

namespace Boot

/-- The constants of the kernel part of the address space. Each part has a directory entry, or
several, of its own. -/
structure VmLayout extends Layout where
  kernelStackTop : Nat
  kernelStackSize : Nat
  /-- The address of the kernel stack in the image. -/
  ptrStackBottom : Nat
  readOnlyFramesInfo : Nat
  uenvs : Nat
  vpt : Nat
  uvpt : Nat
  /-- `sizeof(struct Frame_Info)`. -/
  sizeofFrameInfo : Nat
  /-- `NENV * sizeof(struct Env)`. -/
  envsSize : Nat
  kernelBase_table : kernelBase % 4194304 = 0
  kernelBase_lt : kernelBase < 4294967296
  endOfKernel_page : endOfKernel ≤ 4294967296 - 4096
  kernelStackTop_mod : kernelStackTop % 4096 = 0
  kernelStackSize_mod : kernelStackSize % 4096 = 0
  kernelStackSize_pos : 0 < kernelStackSize
  kernelStackSize_le : kernelStackSize ≤ kernelStackTop
  kernelStack_table : pdx (kernelStackTop - kernelStackSize) = pdx (kernelStackTop - 1)
  ptrStackBottom_mod : ptrStackBottom % 4096 = 0
  ptrStackBottom_ge : kernelBase ≤ ptrStackBottom
  ptrStackBottom_lt : ptrStackBottom < 4294967296
  readOnlyFramesInfo_mod : readOnlyFramesInfo % 4194304 = 0
  uenvs_mod : uenvs % 4194304 = 0
  sizeofFrameInfo_pos : 0 < sizeofFrameInfo
  envsSize_pos : 0 < envsSize
  envsSize_le : envsSize ≤ 4194304
  vpt_mod : vpt % 4194304 = 0
  uvpt_mod : uvpt % 4194304 = 0
  distinct : [pdx vpt, pdx uvpt, pdx (kernelStackTop - 1), pdx uenvs,
    pdx readOnlyFramesInfo].Nodup
  between : ∀ i ∈ [pdx vpt, pdx uvpt, pdx (kernelStackTop - 1), pdx uenvs,
    pdx readOnlyFramesInfo], 0 < i ∧ i < pdx kernelBase

variable (l : VmLayout) (numberOfFrames : Nat)

/-- What `initialize_kernel_VM` sets : the frame of the page directory, the addresses of the two
arrays, and boot memory. -/
structure KernelVM where
  directory : Nat
  framesInfo : Nat
  envs : Nat
  boot : State

/-- `setup_listing_to_all_page_tables_entries`, with the physical address of the directory. -/
def setupListing (physFrameAddress : Nat) (s : State) : State :=
  let directory := physFrameAddress / pageSize
  (s.setWord directory (pdx l.vpt) (constructEntry (BitVec.ofNat 32 physFrameAddress)
    (permPresent ||| permWriteable))).setWord directory (pdx l.uvpt)
      (BitVec.ofNat 32 physFrameAddress ||| permUser ||| permPresent)

/-- `check_va2pa(ptr_page_directory, va)`. -/
def checkVa2pa (w : Words) (directory va : Nat) : Option Entry :=
  let pde := w directory (pdx va)
  if IsPresent pde then
    (kVirtualFrame numberOfFrames (extractAddress pde)).map fun p =>
      if IsPresent (w p (ptx va)) then extractAddress (w p (ptx va)) else ~~~0#32
  else some (~~~0#32)

/-- The assertions of one loop of `check_boot_pgdir` : page after page, the addresses from `va`
on are at the physical addresses from `pa` on. -/
def ChecksRange (w : Words) (directory va pa trips : Nat) : Prop :=
  ∀ i < trips, checkVa2pa numberOfFrames w directory (u32 (va + i * pageSize)) =
    some (BitVec.ofNat 32 (pa + i * pageSize))

instance (w : Words) (directory va pa trips : Nat) :
    Decidable (ChecksRange numberOfFrames w directory va pa trips) :=
  inferInstanceAs (Decidable (∀ i < trips, _))

/-- The directory entries that `check_boot_pgdir` asserts not to be zero. -/
def IsKernelEntry (i : Nat) : Prop :=
  i ∈ [pdx l.vpt, pdx l.uvpt, pdx (l.kernelStackTop - 1), pdx l.uenvs,
    pdx l.readOnlyFramesInfo] ∨ pdx l.kernelBase ≤ i

instance (i : Nat) : Decidable (IsKernelEntry l i) :=
  inferInstanceAs (Decidable (_ ∨ _))

/-- `check_boot_pgdir` : its assertions hold. -/
def CheckBootPgdir (vm : KernelVM) : Prop :=
  ChecksRange numberOfFrames vm.boot.words vm.directory l.readOnlyFramesInfo
      (vm.framesInfo - l.kernelBase)
      (roundUp (u32 (numberOfFrames * l.sizeofFrameInfo)) pageSize / pageSize) ∧
    ChecksRange numberOfFrames vm.boot.words vm.directory l.kernelBase 0
      ((4294967296 - l.kernelBase) / pageSize) ∧
    ChecksRange numberOfFrames vm.boot.words vm.directory
      (l.kernelStackTop - l.kernelStackSize) (l.ptrStackBottom - l.kernelBase)
      (l.kernelStackSize / pageSize) ∧
    ∀ i < 1024, if IsKernelEntry l i then vm.boot.words vm.directory i ≠ 0#32
      else vm.boot.words vm.directory i = 0#32

instance (vm : KernelVM) : Decidable (CheckBootPgdir l numberOfFrames vm) :=
  inferInstanceAs (Decidable (_ ∧ _ ∧ _ ∧ ∀ i < 1024, _))

/-- What `turn_on_paging` does to the directory : the first entry is that of `KERNEL_BASE` until
the segments are loaded. -/
def turnOnPaging (directory : Nat) (s : State) : State :=
  (s.setWord directory 0 (s.words directory (pdx l.kernelBase))).setWord directory 0 0#32

/-- `initialize_kernel_VM` of `kern/memory_manager.c`. -/
def initializeKernelVM (s : State) : Option KernelVM := do
  let map := bootMapRange l.toLayout .kern numberOfFrames
  let (ptrPageDirectory, s) ← bootAllocateSpace l.toLayout .kern pageSize pageSize s
  let physPageDirectory ← kPhysicalAddress l.toLayout ptrPageDirectory
  let directory := physPageDirectory / pageSize
  let s := { s with words := clearWords s.words directory }
  let physStackBottom ← kPhysicalAddress l.toLayout l.ptrStackBottom
  let s ← map directory (l.kernelStackTop - l.kernelStackSize) l.kernelStackSize physStackBottom
    permWriteable s
  let s ← map directory l.kernelBase (4294967295 - l.kernelBase) 0 permWriteable s
  let arraySize := u32 (numberOfFrames * l.sizeofFrameInfo)
  let (framesInfo, s) ← bootAllocateSpace l.toLayout .kern arraySize pageSize s
  let physFramesInfo ← kPhysicalAddress l.toLayout framesInfo
  let s ← map directory l.readOnlyFramesInfo arraySize physFramesInfo permUser s
  let s := setupListing l physPageDirectory s
  let (envs, s) ← bootAllocateSpace l.toLayout .kern l.envsSize pageSize s
  let physEnvs ← kPhysicalAddress l.toLayout envs
  let s ← map directory l.uenvs l.envsSize physEnvs permUser s
  let s := s.setWord directory (pdx l.uenvs) (s.words directory (pdx l.uenvs) |||
    (permUser ||| (permPresent &&& ~~~permWriteable)))
  let vm : KernelVM := ⟨directory, framesInfo, envs, s⟩
  if CheckBootPgdir l numberOfFrames vm then
    some { vm with boot := turnOnPaging l directory s }
  else none

/-! ## `initialize_kernel_VM` -/

section KernelVM

variable {l : VmLayout} {n d i p f N F : Nat} {s : State} {perm : BitVec 32} {S : Finset Nat}

/-- `check_va2pa` of the pages that are shown. -/
theorem Shows.checksRange (h : Shows d perm p f N s.words) (hd : BootDirectory l.toLayout d F s)
    (hn : F ≤ n) (hperm : IsPerm perm) (hfits : p + N ≤ 1048576) :
    ChecksRange n s.words d (4096 * p) (4096 * f) N := by
  intro q hq
  obtain ⟨t, htF, ht, hword⟩ := h.table hd hfits hq
  have hva : u32 (4096 * p + q * pageSize) = 4096 * (p + q) := by
    unfold u32 pageSize
    omega
  have hpdx : pdx (4096 * (p + q)) = (p + q) / 1024 := by
    unfold pdx
    omega
  have hptx : ptx (4096 * (p + q)) = (p + q) % 1024 := by
    unfold ptx
    omega
  have hpa : 4096 * f + q * pageSize = 4096 * (f + q) := by
    unfold pageSize
    omega
  have hframe : kVirtualFrame n (extractAddress (s.words d ((p + q) / 1024))) = some t := by
    rw [kVirtualFrame, ← frameNumber, (bootTableOf_eq_some.1 ht).2, if_pos (by omega)]
  rw [hva, checkVa2pa, hpdx, hptx, if_pos (hd.present _ (by omega) t ht).1, hframe,
    Option.map_some, hword, rangeEntry, Nat.add_sub_cancel_left,
    if_pos (isPresent_constructEntry _ _), extractAddress_constructEntry _ (hperm.or (by decide)),
    hpa, toPhysicalAddress_eq]

/-- The first frame of boot memory. -/
def VmLayout.firstFrame (l : VmLayout) : Nat :=
  (roundUp l.endOfKernel pageSize - l.kernelBase) / pageSize

theorem VmLayout.roundUp_endOfKernel (l : VmLayout) :
    roundUp l.endOfKernel pageSize = l.kernelBase + 4096 * l.firstFrame := by
  have hge := l.endOfKernel_ge
  have hpage := l.endOfKernel_page
  have hmod := l.kernelBase_mod
  unfold VmLayout.firstFrame roundUp roundDown u32 pageSize
  omega

/-- Boot memory is in extended memory, behind the kernel. -/
theorem VmLayout.physExtendedMem_le (l : VmLayout) : l.physExtendedMem ≤ 4096 * l.firstFrame := by
  have hround := l.roundUp_endOfKernel
  have hge := l.endOfKernel_ge
  have hle := le_roundUp_pageSize l.endOfKernel_page
  omega

theorem VmLayout.firstFrame_pos (l : VmLayout) : 0 < l.firstFrame := by
  have hext := l.physExtendedMem_le
  have hlow := l.lowMemory
  have hhole := l.ioHole
  omega

theorem setupListing_eq (l : VmLayout) (d : Nat) (s : State) : setupListing l (4096 * d) s =
    (s.setWord d (pdx l.vpt) (bootTable d)).setWord d (pdx l.uvpt)
      (constructEntry (toPhysicalAddress d) (permUser ||| permPresent)) := by
  have hframe : 4096 * d / pageSize = d := Nat.mul_div_cancel_left d (by decide)
  rw [setupListing, hframe, ← toPhysicalAddress_eq, bootTable, constructEntry, constructEntry,
    BitVec.or_assoc]

theorem VmLayout.entry_lt (l : VmLayout) (hi : i ∈ [pdx l.vpt, pdx l.uvpt,
    pdx (l.kernelStackTop - 1), pdx l.uenvs, pdx l.readOnlyFramesInfo]) : i < 1024 := by
  have hlt := (l.between i hi).2
  have hbase := l.kernelBase_lt
  unfold pdx at hlt
  omega

/-- The directory entry of a page table that is made is opened to the user. -/
theorem Builds.allowUser (h : Builds l.toLayout d F S s) (hmem : i ∈ S) (hi : i < 1024) :
    Builds l.toLayout d F S (s.setWord d i (s.words d i |||
      (permUser ||| (permPresent &&& ~~~permWriteable)))) := by
  obtain ⟨t, ht⟩ := Option.ne_none_iff_exists'.1 (h.made i hmem)
  obtain ⟨hpresent, hlt⟩ := h.directory.present i hi t ht
  have hperm : IsPerm (permUser ||| (permPresent &&& ~~~permWriteable)) := by decide
  have hset := h.setEntry (isPresent_or hpresent (by decide))
    ((bootTableOf_setWord_or hperm s d i).trans ht) hlt (Or.inr ht) hi
  rwa [Finset.insert_eq_of_mem hmem] at hset

/-- The directory is its own page table. -/
theorem Builds.setupListing (h : Builds l.toLayout d F S s) (hpos : 0 < d) (hd : d < 1048576) :
    Builds l.toLayout d F (insert (pdx l.uvpt) (insert (pdx l.vpt) S))
        (setupListing l (4096 * d) s) ∧
      (Boot.setupListing l (4096 * d) s).words d (pdx l.vpt) = bootTable d ∧
      (Boot.setupListing l (4096 * d) s).words d (pdx l.uvpt) =
        constructEntry (toPhysicalAddress d) (permUser ||| permPresent) := by
  have hwords : ∀ (s : State) i e k, (s.setWord d i e).words d k =
      if d = d ∧ k = i then e else s.words d k := fun s i e k => writeWord_apply _ _ _ _ _ _
  have hne : pdx l.vpt ≠ pdx l.uvpt := fun hc => by simpa [hc] using l.distinct
  have hlt := h.directory.directory
  rw [setupListing_eq]
  have hvpt := h.setEntry (isPresent_bootTable d)
    (bootTableOf_setWord_self (by decide) hpos hd s d (pdx l.vpt)) hlt (Or.inl rfl)
    (l.entry_lt (by simp))
  refine ⟨hvpt.setEntry (isPresent_constructEntry _ _)
    (bootTableOf_setWord_self (by decide) hpos hd _ d _) hlt (Or.inl rfl) (l.entry_lt (by simp)),
    ?_, ?_⟩
  · rw [hwords, if_neg (fun hc => hne hc.2), hwords, if_pos ⟨rfl, rfl⟩]
  · rw [hwords, if_pos ⟨rfl, rfl⟩]

/-- The pages of physical memory. -/
theorem VmLayout.physicalPages (l : VmLayout) :
    l.kernelBase = 4096 * (1024 * pdx l.kernelBase) ∧ pdx l.kernelBase < 1024 ∧
      1024 * pdx l.kernelBase + pagesOf (4294967295 - l.kernelBase) = 1048576 := by
  have htable := l.kernelBase_table
  have hlt := l.kernelBase_lt
  unfold pdx pagesOf pageSize
  omega

theorem VmLayout.tablesOf_physical (l : VmLayout) :
    tablesOf (1024 * pdx l.kernelBase) (pagesOf (4294967295 - l.kernelBase)) =
      Finset.Ico (pdx l.kernelBase) 1024 := by
  rw [tablesOf_last (Nat.mul_mod_right _ _) l.physicalPages.2.2,
    Nat.mul_div_cancel_left _ (by decide)]

/-- The pages of the kernel stack. -/
theorem VmLayout.stackPages (l : VmLayout) :
    l.kernelStackTop - l.kernelStackSize =
        4096 * ((l.kernelStackTop - l.kernelStackSize) / 4096) ∧
      l.ptrStackBottom - l.kernelBase = 4096 * ((l.ptrStackBottom - l.kernelBase) / 4096) ∧
      tablesOf ((l.kernelStackTop - l.kernelStackSize) / 4096) (pagesOf l.kernelStackSize) =
        {pdx (l.kernelStackTop - 1)} ∧
      (l.kernelStackTop - l.kernelStackSize) / 4096 + pagesOf l.kernelStackSize < 1048576 ∧
      (l.ptrStackBottom - l.kernelBase) / 4096 < 1048576 ∧ l.kernelStackSize ≤ 4194304 := by
  have hbaseMod := l.kernelBase_mod
  have hbaseLt := l.kernelBase_lt
  have hbelow := (l.between (pdx (l.kernelStackTop - 1)) (by simp)).2
  have hentry := l.kernelStack_table
  have hpos := l.kernelStackSize_pos
  have hmod := l.kernelStackSize_mod
  have hle := l.kernelStackSize_le
  have htop := l.kernelStackTop_mod
  have hbottom := l.ptrStackBottom_mod
  have hge := l.ptrStackBottom_ge
  have hlt := l.ptrStackBottom_lt
  obtain ⟨hpages, hpages'⟩ := le_pagesOf l.kernelStackSize
  unfold pdx at hbelow hentry
  have hT : tablesOf ((l.kernelStackTop - l.kernelStackSize) / 4096)
      (pagesOf l.kernelStackSize) = {pdx (l.kernelStackTop - 1)} := by
    rw [tablesOf_one (by omega) (by omega), Finset.singleton_inj, pdx]
    omega
  exact ⟨by omega, by omega, hT, by omega, by omega, by omega⟩

/-- The directory with the kernel stack and all of physical memory. -/
theorem exists_physicalMemory (l : VmLayout) (words : Words)
    (hreach : Reaches l.toLayout n (l.firstFrame + 2 + (1024 - pdx l.kernelBase))) :
    ∃ s₁ s₂ s₃, bootAllocateSpace l.toLayout .kern pageSize pageSize (start words) =
        some (l.kernelBase + 4096 * l.firstFrame, s₁) ∧
      bootMapRange l.toLayout .kern n l.firstFrame (l.kernelStackTop - l.kernelStackSize)
        l.kernelStackSize (l.ptrStackBottom - l.kernelBase) permWriteable
        { s₁ with words := clearWords s₁.words l.firstFrame } = some s₂ ∧
      bootMapRange l.toLayout .kern n l.firstFrame l.kernelBase (4294967295 - l.kernelBase) 0
        permWriteable s₂ = some s₃ ∧
      Builds l.toLayout l.firstFrame (l.firstFrame + 2 + (1024 - pdx l.kernelBase))
        ({pdx (l.kernelStackTop - 1)} ∪ Finset.Ico (pdx l.kernelBase) 1024) s₃ ∧
      KernelOnly l.firstFrame ∅ s₃.words ∧
      Shows l.firstFrame permWriteable ((l.kernelStackTop - l.kernelStackSize) / 4096)
        ((l.ptrStackBottom - l.kernelBase) / 4096) (pagesOf l.kernelStackSize) s₃.words ∧
      Shows l.firstFrame permWriteable (1024 * pdx l.kernelBase) 0
        (pagesOf (4294967295 - l.kernelBase)) s₃.words := by
  have hone : pagesOf pageSize = 1 := by decide
  obtain ⟨s₁, halloc, -, hfree⟩ : ∃ s₁,
      bootAllocateSpace l.toLayout .kern pageSize pageSize (start words) =
        some (l.kernelBase + 4096 * l.firstFrame, s₁) ∧ s₁.words = (start words).words ∧
      roundUp (if s₁.ptrFreeMem = 0 then l.endOfKernel else s₁.ptrFreeMem) pageSize =
        l.kernelBase + 4096 * (l.firstFrame + pagesOf pageSize) :=
    bootAllocateSpace_eq rfl l.roundUp_endOfKernel (hreach.mono (by omega))
  have hclear : Builds l.toLayout l.firstFrame (l.firstFrame + 1) ∅
      { s₁ with words := clearWords s₁.words l.firstFrame } := builds_clear (hone ▸ hfree)
  have hkernel : KernelOnly l.firstFrame ∅
      (State.words { s₁ with words := clearWords s₁.words l.firstFrame }) := fun i hi _ => by
    rw [hclear.zero i hi (Finset.notMem_empty i), BitVec.zero_and]
  obtain ⟨hva, hpa, hT, hfits, hframe, hsize⟩ := l.stackPages
  have hlast := hreach.lt
  obtain ⟨s₂, hmap₂, hm₂⟩ := hclear.mapNew (n := n) (f := (l.ptrStackBottom - l.kernelBase) / 4096)
    permWriteable (.inr rfl) hT (Finset.disjoint_empty_right _)
    (hreach.mono (by rw [Finset.card_singleton]; omega)) (by omega) hframe hfits.le (by omega)
  obtain ⟨hbase, hlt, hpages⟩ := l.physicalPages
  have hentry := l.between (pdx (l.kernelStackTop - 1)) (by simp)
  have hnew : Disjoint {pdx (l.kernelStackTop - 1)} (Finset.Ico (pdx l.kernelBase) 1024) :=
    Finset.disjoint_singleton_left.2 fun hmem => by
      have := (Finset.mem_Ico.1 hmem).1
      omega
  have hbase' := l.kernelBase_gt
  obtain ⟨s₃, hmap₃, hm₃⟩ := hm₂.builds.mapNew (n := n) (f := 0) permWriteable
    (.inr rfl) l.tablesOf_physical (by rw [Finset.empty_union]; exact hnew.symm)
    (hreach.mono (by rw [Finset.card_singleton, Nat.card_Ico])) (by omega) (by omega)
    hpages.le (by omega)
  rw [← hbase, Nat.mul_zero] at hmap₃
  rw [← hva, ← hpa] at hmap₂
  have hbuilds := hm₃.builds
  rw [Finset.empty_union, Finset.card_singleton, Nat.card_Ico] at hbuilds
  exact ⟨s₁, s₂, s₃, halloc, hmap₂, hmap₃, hbuilds, hm₃.kernelOnly (hm₂.kernelOnly hkernel),
    hm₃.keeps hm₂.shows hfits.le (by rwa [hT, l.tablesOf_physical]), hm₃.shows⟩

/-- The frames of boot memory that `initialize_kernel_VM` takes : the directory, the page tables
of the stack and of physical memory, and the two arrays with a page table each. -/
def VmLayout.bootFrames (l : VmLayout) (n : Nat) : Nat :=
  2 + (1024 - pdx l.kernelBase) + (pagesOf (n * l.sizeofFrameInfo) + 1) +
    (pagesOf l.envsSize + 1)

/-- What `initialize_kernel_VM` has built, when it calls `check_boot_pgdir`. -/
structure Built (l : VmLayout) (n F : Nat) (S : Finset Nat) (vm : KernelVM) : Prop where
  builds : Builds l.toLayout vm.directory F S vm.boot
  entries : ∀ i < 1024, i ∈ S ↔ IsKernelEntry l i
  taken : F = l.firstFrame + l.bootFrames n
  frames : F ≤ n
  last : l.kernelBase + 4096 * F < 4294967296
  first : vm.directory = l.firstFrame
  stack : Shows vm.directory permWriteable ((l.kernelStackTop - l.kernelStackSize) / 4096)
    ((l.ptrStackBottom - l.kernelBase) / 4096) (pagesOf l.kernelStackSize) vm.boot.words
  physical : Shows vm.directory permWriteable (1024 * pdx l.kernelBase) 0
    (pagesOf (4294967295 - l.kernelBase)) vm.boot.words
  framesInfo : ∃ f, vm.framesInfo = l.kernelBase + 4096 * f ∧ Shows vm.directory permUser
    (l.readOnlyFramesInfo / 4096) f (pagesOf (n * l.sizeofFrameInfo)) vm.boot.words
  envs : ∃ f, vm.envs = l.kernelBase + 4096 * f ∧ Shows vm.directory permUser
    (l.uenvs / 4096) f (pagesOf l.envsSize) vm.boot.words
  vpt : vm.boot.words vm.directory (pdx l.vpt) = bootTable vm.directory
  uvpt : vm.boot.words vm.directory (pdx l.uvpt) =
    constructEntry (toPhysicalAddress vm.directory) (permUser ||| permPresent)
  kernelOnly : KernelOnly vm.directory {pdx l.uenvs, pdx l.uvpt} vm.boot.words

/-- The kernel part of the address space : where each part is and with which permissions, that
the directory is the page table of the windows, that nothing else is mapped, and that a user gets
past the directory at `UENVS` and `UVPT` only. -/
structure KernelSpace (l : VmLayout) (n : Nat) (vm : KernelVM) : Prop where
  stack : ∀ a < l.kernelStackSize,
    walk vm.boot.words vm.directory (l.kernelStackTop - l.kernelStackSize + a) =
      some (BitVec.ofNat 32 (l.ptrStackBottom - l.kernelBase + a), permWriteable ||| permPresent)
  physical : ∀ a, l.kernelBase + a < 4294967296 →
    walk vm.boot.words vm.directory (l.kernelBase + a) =
      some (BitVec.ofNat 32 a, permWriteable ||| permPresent)
  framesInfo : ∀ a < n * l.sizeofFrameInfo,
    walk vm.boot.words vm.directory (l.readOnlyFramesInfo + a) =
      some (BitVec.ofNat 32 (vm.framesInfo - l.kernelBase + a), permUser ||| permPresent)
  envs : ∀ a < l.envsSize, walk vm.boot.words vm.directory (l.uenvs + a) =
    some (BitVec.ofNat 32 (vm.envs - l.kernelBase + a), permUser ||| permPresent)
  windows : ∀ i < 1024,
    walk vm.boot.words vm.directory (l.vpt + 4096 * i) =
        translate (vm.boot.words vm.directory i) 0 ∧
      walk vm.boot.words vm.directory (l.uvpt + 4096 * i) =
        translate (vm.boot.words vm.directory i) 0
  unmapped : ∀ va < 4294967296, ¬IsKernelEntry l (pdx va) →
    walk vm.boot.words vm.directory va = none
  kernelOnly : KernelOnly vm.directory {pdx l.uenvs, pdx l.uvpt} vm.boot.words

/-- The pages of a window are the page tables. -/
theorem walk_window {w : Words} {a : Nat} (hmod : a % 4194304 = 0) (hi : i < 1024)
    (hpresent : IsPresent (w d (pdx a))) (hframe : frameNumber (w d (pdx a)) = d) :
    walk w d (a + 4096 * i) = translate (w d i) 0 := by
  have hpdx : pdx (a + 4096 * i) = pdx a := by
    unfold pdx
    omega
  have hptx : ptx (a + 4096 * i) = i := by
    unfold ptx
    omega
  have hoffset : (a + 4096 * i) % pageSize = 0 := by
    unfold pageSize
    omega
  rw [walk, hpdx, hptx, hoffset, if_pos hpresent, hframe]

/-- A part that starts at a directory entry of its own. -/
theorem partPages {a size : Nat} (hmod : a % 4194304 = 0) (hpart : pdx a < 1024)
    (hsize : size ≤ 4194304) : a = 4096 * (a / 4096) ∧ a / 4096 % 1024 = 0 ∧
      a / 4096 / 1024 = pdx a ∧ a / 4096 < 1048576 ∧ a / 4096 + pagesOf size ≤ 1048576 := by
  have hpages := le_pagesOf size
  unfold pdx at *
  omega

theorem tablesOf_part {a size : Nat} (hmod : a % 4194304 = 0) (hpos : 0 < size)
    (hsize : size ≤ 4194304) : tablesOf (a / 4096) (pagesOf size) = {pdx a} := by
  have hpages := le_pagesOf size
  rw [tablesOf_one (by omega) (by omega), Finset.singleton_inj, pdx]
  omega

theorem kPhysicalAddress_add (l : Layout) (a : Nat) :
    kPhysicalAddress l (l.kernelBase + a) = some a := by
  rw [kPhysicalAddress_eq_some]
  omega

namespace Built

variable {vm : KernelVM} (h : Built l n F S vm) (hsize : n * l.sizeofFrameInfo ≤ 4194304)

include h hsize

/-- The assertions of `check_boot_pgdir` hold. -/
theorem checkBootPgdir : CheckBootPgdir l n vm := by
  have hd := h.builds.directory
  have hwriteable : IsPerm permWriteable := by decide
  refine ⟨?_, ?_, ?_, fun i hi => ?_⟩
  · obtain ⟨f, hf, hshows⟩ := h.framesInfo
    obtain ⟨hva, -, -, -, hfits⟩ :=
      partPages l.readOnlyFramesInfo_mod (l.entry_lt (by simp)) hsize
    have htrips : roundUp (u32 (n * l.sizeofFrameInfo)) pageSize / pageSize =
        pagesOf (n * l.sizeofFrameInfo) := by
      unfold roundUp roundDown u32 pagesOf pageSize
      omega
    have hcheck := hshows.checksRange hd h.frames (by decide) hfits
    have hphys : vm.framesInfo - l.kernelBase = 4096 * f := by omega
    rwa [← hva, ← hphys, ← htrips] at hcheck
  · obtain ⟨hbase, hlt, hpages⟩ := l.physicalPages
    have htrips : (4294967296 - l.kernelBase) / pageSize =
        pagesOf (4294967295 - l.kernelBase) := by
      unfold pagesOf pageSize
      omega
    have hcheck := h.physical.checksRange hd h.frames hwriteable hpages.le
    rwa [← hbase, Nat.mul_zero, ← htrips] at hcheck
  · obtain ⟨hva, hpa, -, hfits, -, -⟩ := l.stackPages
    have htrips : l.kernelStackSize / pageSize = pagesOf l.kernelStackSize := by
      have hmod := l.kernelStackSize_mod
      unfold pagesOf pageSize
      omega
    have hcheck := h.stack.checksRange hd h.frames hwriteable hfits.le
    rwa [← hva, ← hpa, ← htrips] at hcheck
  · split_ifs with hentry
    · exact fun hzero => h.builds.made i ((h.entries i hi).2 hentry) (bootTableOf_zero hzero)
    · exact h.builds.zero i hi fun hmem => hentry ((h.entries i hi).1 hmem)

/-- The translation of the kernel part. -/
theorem kernelSpace : KernelSpace l n vm := by
  have hd := h.builds.directory
  have hwriteable : IsPerm permWriteable := by decide
  have huser : IsPerm permUser := by decide
  have hpos : 0 < vm.directory := h.first ▸ l.firstFrame_pos
  have hlt : vm.directory < 1048576 := by
    have hlast := h.last
    have hdir := hd.directory
    omega
  refine ⟨fun a ha => ?_, fun a ha => ?_, fun a ha => ?_, fun a ha => ?_, fun i hi => ?_,
    fun va hva hentry => ?_, h.kernelOnly⟩
  · obtain ⟨hva, hpa, -, hfits, -, -⟩ := l.stackPages
    have hwalk := h.stack.walk hd hwriteable hfits.le (ha.trans_le (le_pagesOf _).1)
    rwa [← hva, ← hpa] at hwalk
  · obtain ⟨hbase, -, hpages⟩ := l.physicalPages
    have hwalk := h.physical.walk hd hwriteable hpages.le (a := a) (by omega)
    rwa [← hbase, Nat.mul_zero, Nat.zero_add] at hwalk
  · obtain ⟨f, hf, hshows⟩ := h.framesInfo
    obtain ⟨hva, -, -, -, hfits⟩ :=
      partPages l.readOnlyFramesInfo_mod (l.entry_lt (by simp)) hsize
    have hphys : vm.framesInfo - l.kernelBase = 4096 * f := by omega
    have hwalk := hshows.walk hd huser hfits (ha.trans_le (le_pagesOf _).1)
    rwa [← hva, ← hphys] at hwalk
  · obtain ⟨f, hf, hshows⟩ := h.envs
    obtain ⟨hva, -, -, -, hfits⟩ := partPages l.uenvs_mod (l.entry_lt (by simp)) l.envsSize_le
    have hphys : vm.envs - l.kernelBase = 4096 * f := by omega
    have hwalk := hshows.walk hd huser hfits (ha.trans_le (le_pagesOf _).1)
    rwa [← hva, ← hphys] at hwalk
  · exact ⟨walk_window l.vpt_mod hi (h.vpt ▸ isPresent_bootTable _)
        (h.vpt ▸ frameNumber_bootTable hlt),
      walk_window l.uvpt_mod hi (h.uvpt ▸ isPresent_constructEntry _ _)
        (h.uvpt ▸ frameNumber_constructEntry hlt (by decide))⟩
  · have hzero := h.builds.zero _ (pdx_lt hva) fun hmem =>
      hentry ((h.entries _ (pdx_lt hva)).1 hmem)
    exact hd.walk_of_none hva (bootTableOf_zero hzero)

end Built

/-- What is shown outside the windows is shown still. -/
theorem shows_setupListing (hshows : Shows d perm p f N s.words)
    (hvpt : pdx l.vpt ∉ tablesOf p N) (huvpt : pdx l.uvpt ∉ tablesOf p N) :
    Shows d perm p f N (setupListing l (4096 * d) s).words := by
  rw [setupListing_eq]
  exact shows_setWord (shows_setWord hshows fun hi => absurd hi hvpt) fun hi => absurd hi huvpt

/-- The first entry is set back. -/
theorem turnOnPaging_eq (hzero : s.words d 0 = 0#32) : turnOnPaging l d s = s := by
  have hwords : (turnOnPaging l d s).words = s.words := by
    ext g k : 2
    refine (writeWord_apply _ _ _ _ _ _).trans ?_
    split_ifs with hat
    · rw [hat.1, hat.2, hzero]
    · exact (writeWord_apply _ _ _ _ _ _).trans (if_neg hat)
  exact congrArg (fun w => { s with words := w }) hwords

/-- `initialize_kernel_VM`, by the calls it makes. -/
theorem initializeKernelVM_eq {s₀ s₁ s₂ s₃ s₄ s₅ s₇ s₈ : State} {g : Nat}
    (halloc₁ : bootAllocateSpace l.toLayout .kern pageSize pageSize s₀ =
      some (l.kernelBase + 4096 * d, s₁))
    (hmap₂ : bootMapRange l.toLayout .kern n d (l.kernelStackTop - l.kernelStackSize)
      l.kernelStackSize (l.ptrStackBottom - l.kernelBase) permWriteable
      { s₁ with words := clearWords s₁.words d } = some s₂)
    (hmap₃ : bootMapRange l.toLayout .kern n d l.kernelBase (4294967295 - l.kernelBase) 0
      permWriteable s₂ = some s₃)
    (halloc₄ : bootAllocateSpace l.toLayout .kern (u32 (n * l.sizeofFrameInfo)) pageSize s₃ =
      some (l.kernelBase + 4096 * f, s₄))
    (hmap₅ : bootMapRange l.toLayout .kern n d l.readOnlyFramesInfo (u32 (n * l.sizeofFrameInfo))
      (4096 * f) permUser s₄ = some s₅)
    (halloc₇ : bootAllocateSpace l.toLayout .kern l.envsSize pageSize
      (setupListing l (4096 * d) s₅) = some (l.kernelBase + 4096 * g, s₇))
    (hmap₈ : bootMapRange l.toLayout .kern n d l.uenvs l.envsSize (4096 * g) permUser s₇ =
      some s₈) :
    initializeKernelVM l n s₀ =
      let s₉ := s₈.setWord d (pdx l.uenvs) (s₈.words d (pdx l.uenvs) |||
        (permUser ||| (permPresent &&& ~~~permWriteable)))
      let vm : KernelVM := ⟨d, l.kernelBase + 4096 * f, l.kernelBase + 4096 * g, s₉⟩
      if CheckBootPgdir l n vm then some { vm with boot := turnOnPaging l d s₉ } else none := by
  have hframe : 4096 * d / pageSize = d := Nat.mul_div_cancel_left _ (by decide)
  have hbottom : kPhysicalAddress l.toLayout l.ptrStackBottom =
      some (l.ptrStackBottom - l.kernelBase) :=
    kPhysicalAddress_eq_some.2 ⟨l.ptrStackBottom_ge, rfl⟩
  unfold initializeKernelVM
  simp only [halloc₁, kPhysicalAddress_add, hframe, hbottom, hmap₂, hmap₃, halloc₄, hmap₅,
    halloc₇, hmap₈, Option.bind_eq_bind, Option.bind_some]

/-- The directory entries of the parts are apart, and below that of `KERNEL_BASE`. -/
theorem VmLayout.parts (l : VmLayout) :
    (pdx l.vpt ≠ pdx l.uvpt ∧ pdx l.vpt ≠ pdx (l.kernelStackTop - 1) ∧
      pdx l.vpt ≠ pdx l.uenvs ∧ pdx l.vpt ≠ pdx l.readOnlyFramesInfo) ∧
    (pdx l.uvpt ≠ pdx (l.kernelStackTop - 1) ∧ pdx l.uvpt ≠ pdx l.uenvs ∧
      pdx l.uvpt ≠ pdx l.readOnlyFramesInfo) ∧
    (pdx (l.kernelStackTop - 1) ≠ pdx l.uenvs ∧
      pdx (l.kernelStackTop - 1) ≠ pdx l.readOnlyFramesInfo) ∧
    pdx l.uenvs ≠ pdx l.readOnlyFramesInfo ∧
    pdx l.vpt < pdx l.kernelBase ∧ pdx l.uvpt < pdx l.kernelBase ∧
    pdx (l.kernelStackTop - 1) < pdx l.kernelBase ∧ pdx l.uenvs < pdx l.kernelBase ∧
    pdx l.readOnlyFramesInfo < pdx l.kernelBase := by
  have hdistinct := l.distinct
  have hbelow := fun i hi => (l.between i hi).2
  simp only [List.nodup_cons, List.mem_cons, List.not_mem_nil, or_false, not_or] at hdistinct
  simp only [List.forall_mem_cons, List.not_mem_nil, false_implies, implies_true, and_true]
    at hbelow
  exact ⟨hdistinct.1, hdistinct.2.1, hdistinct.2.2.1, hdistinct.2.2.2.1, hbelow⟩

/-- What is mapped before the `envs` array is : the kernel stack, physical memory, `frames_info`
and the windows. -/
structure Parts (l : VmLayout) (n d f : Nat) (w : Words) : Prop where
  stack : Shows d permWriteable ((l.kernelStackTop - l.kernelStackSize) / 4096)
    ((l.ptrStackBottom - l.kernelBase) / 4096) (pagesOf l.kernelStackSize) w
  physical : Shows d permWriteable (1024 * pdx l.kernelBase) 0
    (pagesOf (4294967295 - l.kernelBase)) w
  framesInfo : Shows d permUser (l.readOnlyFramesInfo / 4096) f
    (pagesOf (n * l.sizeofFrameInfo)) w
  vpt : w d (pdx l.vpt) = bootTable d
  uvpt : w d (pdx l.uvpt) = constructEntry (toPhysicalAddress d) (permUser ||| permPresent)

section Parts

variable (hpos : 0 < n * l.sizeofFrameInfo) (hsize : n * l.sizeofFrameInfo ≤ 4194304)

include hpos hsize

/-- The parts have none of the directory entries for `envs`. -/
theorem Parts.map (h : Parts l n d f s.words) (hmade : ∀ i ∈ [pdx l.vpt, pdx l.uvpt],
      bootTableOf s.words d i ≠ none)
    (hmap : Mapping l.toLayout d F S perm (l.uenvs / 4096) i (pagesOf l.envsSize) s s') :
    Parts l n d f s'.words := by
  obtain ⟨-, -, ⟨hse, -⟩, her, -, -, -, he, -⟩ := l.parts
  obtain ⟨-, -, hTS, hfitsS, -, -⟩ := l.stackPages
  obtain ⟨-, -, hpages⟩ := l.physicalPages
  obtain ⟨-, -, -, -, hfitsR⟩ := partPages l.readOnlyFramesInfo_mod (l.entry_lt (by simp)) hsize
  have hTE := tablesOf_part l.uenvs_mod l.envsSize_pos l.envsSize_le
  have hTR := tablesOf_part l.readOnlyFramesInfo_mod hpos hsize
  refine ⟨hmap.keeps h.stack hfitsS.le ?_, hmap.keeps h.physical hpages.le ?_,
    hmap.keeps h.framesInfo hfitsR ?_, (hmap.same _ (hmade _ (by simp))).trans h.vpt,
    (hmap.same _ (hmade _ (by simp))).trans h.uvpt⟩
  · rw [hTS, hTE, Finset.disjoint_singleton]
    exact hse
  · rw [l.tablesOf_physical, hTE, Finset.disjoint_singleton_right, Finset.mem_Ico]
    omega
  · rw [hTR, hTE, Finset.disjoint_singleton]
    exact her.symm

omit hpos hsize in
/-- The directory entry for `envs` is opened to the user. -/
theorem Parts.allowUser (h : Parts l n d f s.words) :
    Parts l n d f (s.setWord d (pdx l.uenvs) (s.words d (pdx l.uenvs) |||
      (permUser ||| (permPresent &&& ~~~permWriteable)))).words := by
  obtain ⟨⟨-, -, hve, -⟩, ⟨-, hue, -⟩, -⟩ := l.parts
  have hallow : ∀ {perm p f N}, Shows d perm p f N s.words → Shows d perm p f N
      (s.setWord d (pdx l.uenvs) (s.words d (pdx l.uenvs) |||
        (permUser ||| (permPresent &&& ~~~permWriteable)))).words := fun hshows =>
    shows_setWord hshows fun _ => bootTableOf_setWord_or (by decide) s d _
  have hother : ∀ {i e}, i ≠ pdx l.uenvs →
      (s.setWord d (pdx l.uenvs) e).words d i = s.words d i := fun hi =>
    (writeWord_apply _ _ _ _ _ _).trans (if_neg fun hc => hi hc.2)
  exact ⟨hallow h.stack, hallow h.physical, hallow h.framesInfo, (hother hve).trans h.vpt,
    (hother hue).trans h.uvpt⟩

omit hpos hsize in
/-- The directory with all parts but `envs`, and what is left to do. -/
theorem exists_parts (l : VmLayout) (words : Words) (hpos : 0 < n * l.sizeofFrameInfo)
    (hsize : n * l.sizeofFrameInfo ≤ 4194304)
    (hreach : Reaches l.toLayout n (l.firstFrame + 2 + (1024 - pdx l.kernelBase) +
      pagesOf (n * l.sizeofFrameInfo) + 1)) :
    ∃ s, Builds l.toLayout l.firstFrame (l.firstFrame + 2 + (1024 - pdx l.kernelBase) +
          pagesOf (n * l.sizeofFrameInfo) + 1) (insert (pdx l.uvpt) (insert (pdx l.vpt)
          (({pdx (l.kernelStackTop - 1)} ∪ Finset.Ico (pdx l.kernelBase) 1024) ∪
            {pdx l.readOnlyFramesInfo}))) s ∧
      KernelOnly l.firstFrame {pdx l.uvpt} s.words ∧
      Parts l n l.firstFrame (l.firstFrame + 2 + (1024 - pdx l.kernelBase)) s.words ∧
      ∀ {s₇ s₈ g}, bootAllocateSpace l.toLayout .kern l.envsSize pageSize s =
          some (l.kernelBase + 4096 * g, s₇) →
        bootMapRange l.toLayout .kern n l.firstFrame l.uenvs l.envsSize (4096 * g) permUser s₇ =
          some s₈ →
        initializeKernelVM l n (start words) =
          let s₉ := s₈.setWord l.firstFrame (pdx l.uenvs) (s₈.words l.firstFrame (pdx l.uenvs) |||
            (permUser ||| (permPresent &&& ~~~permWriteable)))
          let vm : KernelVM := ⟨l.firstFrame, l.kernelBase +
            4096 * (l.firstFrame + 2 + (1024 - pdx l.kernelBase)), l.kernelBase + 4096 * g, s₉⟩
          if CheckBootPgdir l n vm then some { vm with boot := turnOnPaging l l.firstFrame s₉ }
          else none := by
  have hlast := hreach.lt
  obtain ⟨⟨-, hvs, -, hvr⟩, ⟨hus, -, hur⟩, ⟨-, hsr⟩, -, hv, hu, -, -, hr⟩ := l.parts
  obtain ⟨hva, hmod, hpdx, hp, hfits⟩ :=
    partPages l.readOnlyFramesInfo_mod (l.entry_lt (by simp)) hsize
  obtain ⟨s₁, s₂, s₃, halloc₁, hmap₂, hmap₃, hb₃, hk₃, hstack, hphysical⟩ :=
    exists_physicalMemory l words (hreach.mono (by omega))
  obtain ⟨s₄, s₅, halloc₄, hmap₅, hwords₄, hm₅⟩ := hb₃.array permUser (.inr rfl) hpos
    hsize hp hmod (by
      rw [hpdx, Finset.mem_union, Finset.mem_singleton, Finset.mem_Ico]
      omega) hreach
  obtain ⟨hb₆, hvpt, huvpt⟩ := hm₅.builds.setupListing l.firstFrame_pos (by omega)
  have hTR := tablesOf_part l.readOnlyFramesInfo_mod hpos hsize
  obtain ⟨-, -, hTS, hfitsS, -, -⟩ := l.stackPages
  obtain ⟨-, -, hpages⟩ := l.physicalPages
  rw [hpdx] at hb₆
  refine ⟨setupListing l (4096 * l.firstFrame) s₅, hb₆, ?_, ⟨?_, ?_, ?_, hvpt, huvpt⟩,
    fun halloc₇ hmap₈ => ?_⟩
  · have hk₅ := hm₅.kernelOnly (hwords₄ ▸ hk₃)
    rw [setupListing_eq, ← insert_empty_eq]
    exact (hk₅.setKernel _ (bootTable_and_permUser _)).setWord _ _
  · refine shows_setupListing (hm₅.keeps (hwords₄ ▸ hstack) hfitsS.le ?_) ?_ ?_
    · rw [hTS, hTR, Finset.disjoint_singleton]
      exact hsr
    · rwa [hTS, Finset.mem_singleton]
    · rwa [hTS, Finset.mem_singleton]
  · refine shows_setupListing (hm₅.keeps (hwords₄ ▸ hphysical) hpages.le ?_) ?_ ?_
    · rw [l.tablesOf_physical, hTR, Finset.disjoint_singleton_right, Finset.mem_Ico]
      omega
    · rw [l.tablesOf_physical, Finset.mem_Ico]
      omega
    · rw [l.tablesOf_physical, Finset.mem_Ico]
      omega
  · refine shows_setupListing hm₅.shows ?_ ?_
    · rwa [hTR, Finset.mem_singleton]
    · rwa [hTR, Finset.mem_singleton]
  · have hsize' : u32 (n * l.sizeofFrameInfo) = n * l.sizeofFrameInfo :=
      Nat.mod_eq_of_lt (by omega)
    rw [← hva] at hmap₅
    rw [← hsize'] at halloc₄ hmap₅
    exact initializeKernelVM_eq halloc₁ hmap₂ hmap₃ halloc₄ hmap₅ halloc₇ hmap₈

end Parts

theorem exists_built (l : VmLayout) (words : Words) (hsize : n * l.sizeofFrameInfo ≤ 4194304)
    (hreach : Reaches l.toLayout n (l.firstFrame + l.bootFrames n)) :
    ∃ F S vm, Built l n F S vm ∧ initializeKernelVM l n (start words) =
      if CheckBootPgdir l n vm then
        some { vm with boot := turnOnPaging l vm.directory vm.boot } else none := by
  unfold VmLayout.bootFrames at hreach
  have hpos : 0 < n * l.sizeofFrameInfo := Nat.mul_pos (by have := hreach.1; omega)
    l.sizeofFrameInfo_pos
  obtain ⟨⟨-, -, hve, -⟩, ⟨-, hue, -⟩, ⟨hse, -⟩, her, -, -, -, he, -⟩ := l.parts
  obtain ⟨hva, hmod, hpdx, hp, -⟩ :=
    partPages l.uenvs_mod (l.entry_lt (by simp)) l.envsSize_le
  obtain ⟨s₆, hb₆, hk₆, hparts, hinit⟩ := exists_parts l words hpos hsize (hreach.mono (by omega))
  obtain ⟨s₇, s₈, halloc₇, hmap₈, hwords₇, hm₈⟩ := hb₆.array permUser (.inr rfl)
    l.envsSize_pos l.envsSize_le hp hmod (by
      rw [hpdx]
      simp only [Finset.mem_insert, Finset.mem_union, Finset.mem_singleton, Finset.mem_Ico]
      omega) (hreach.mono (by omega))
  have hmade : ∀ i ∈ [pdx l.vpt, pdx l.uvpt], bootTableOf s₇.words l.firstFrame i ≠ none :=
    fun i hi => by
      rw [hwords₇]
      refine hb₆.made i ?_
      simp only [List.mem_cons, List.not_mem_nil, or_false] at hi
      rcases hi with rfl | rfl <;> simp
  have hparts₉ := (Parts.map hpos hsize (hwords₇ ▸ hparts) hmade hm₈).allowUser
  have hb₉ := hm₈.builds.allowUser (i := pdx l.uenvs) (by rw [hpdx]; simp) (l.entry_lt (by simp))
  rw [hpdx] at hb₉
  refine ⟨_, _, ⟨l.firstFrame, _, _, _⟩, ⟨hb₉, fun i hi => ?_, ?_, ?_, ?_, rfl, hparts₉.stack,
    hparts₉.physical, ⟨_, rfl, hparts₉.framesInfo⟩, ⟨_, rfl, ?_⟩, hparts₉.vpt, hparts₉.uvpt, ?_⟩,
    hinit halloc₇ (hva ▸ hmap₈)⟩
  · simp only [Finset.mem_insert, Finset.mem_union, Finset.mem_singleton, Finset.mem_Ico,
      IsKernelEntry, List.mem_cons, List.not_mem_nil, or_false]
    omega
  · unfold VmLayout.bootFrames
    omega
  · exact hreach.1.trans' (by omega)
  · exact hreach.2.trans_le' (by omega)
  · exact shows_setWord hm₈.shows fun _ => bootTableOf_setWord_or (by decide) s₈ _ _
  · exact (hm₈.kernelOnly (hwords₇ ▸ hk₆)).setWord _ _

/-- No assertion of `check_boot_pgdir` fails. -/
theorem initializeKernelVM_built (l : VmLayout) (words : Words)
    (hsize : n * l.sizeofFrameInfo ≤ 4194304)
    (hreach : Reaches l.toLayout n (l.firstFrame + l.bootFrames n)) :
    ∃ F S vm, Built l n F S vm ∧ initializeKernelVM l n (start words) = some vm := by
  obtain ⟨F, S, vm, hbuilt, hinit⟩ := exists_built l words hsize hreach
  have hzero : ¬IsKernelEntry l 0 := by
    rintro (hmem | hbase)
    · exact lt_irrefl 0 (l.between 0 hmem).1
    · have := (l.between (pdx l.vpt) (by simp)).2
      omega
  have hfirst : vm.boot.words vm.directory 0 = 0#32 :=
    hbuilt.builds.zero 0 (by decide) fun hmem => hzero ((hbuilt.entries 0 (by decide)).1 hmem)
  rw [if_pos (hbuilt.checkBootPgdir hsize), turnOnPaging_eq hfirst] at hinit
  exact ⟨F, S, vm, hbuilt, hinit⟩

/-- Whatever was in memory, if boot memory has the frames that are taken : no assertion of
`check_boot_pgdir` fails, and the kernel part of the address space is set up. -/
theorem initializeKernelVM_kernelSpace (l : VmLayout) (words : Words)
    (hsize : n * l.sizeofFrameInfo ≤ 4194304)
    (hreach : Reaches l.toLayout n (l.firstFrame + l.bootFrames n)) :
    ∃ vm, initializeKernelVM l n (start words) = some vm ∧ CheckBootPgdir l n vm ∧
      KernelSpace l n vm := by
  obtain ⟨F, S, vm, hbuilt, hinit⟩ := initializeKernelVM_built l words hsize hreach
  exact ⟨vm, hinit, hbuilt.checkBootPgdir hsize, hbuilt.kernelSpace hsize⟩

end KernelVM

/-- The parts below `KERNEL_BASE` take 4 MB each. -/
def fosVmLayout : VmLayout where
  toLayout := fosLayout
  kernelStackTop := 0xEFC00000
  kernelStackSize := 0x8000
  ptrStackBottom := 0xF0110000
  readOnlyFramesInfo := 0xEF000000
  uenvs := 0xEEC00000
  vpt := 0xEFC00000
  uvpt := 0xEF400000
  sizeofFrameInfo := 12
  envsSize := 0x20000
  kernelBase_table := by decide
  kernelBase_lt := by decide
  endOfKernel_page := by decide
  kernelStackTop_mod := by decide
  kernelStackSize_mod := by decide
  kernelStackSize_pos := by decide
  kernelStackSize_le := by decide
  kernelStack_table := by decide
  ptrStackBottom_mod := by decide
  ptrStackBottom_ge := by decide
  ptrStackBottom_lt := by decide
  readOnlyFramesInfo_mod := by decide
  uenvs_mod := by decide
  sizeofFrameInfo_pos := by decide
  envsSize_pos := by decide
  envsSize_le := by decide
  vpt_mod := by decide
  uvpt_mod := by decide
  distinct := by decide
  between := by decide

/-- With 4 MB of memory, and every word of it an entry that is present. -/
theorem fosVm_kernelSpace :
    ∃ vm, initializeKernelVM fosVmLayout 1024 (start fun _ _ => 7#32) = some vm ∧
      CheckBootPgdir fosVmLayout 1024 vm ∧ KernelSpace fosVmLayout 1024 vm :=
  initializeKernelVM_kernelSpace fosVmLayout _ (by decide) ⟨by decide, by decide⟩

end Boot

end FosKernel
