import FosKernel.PageCheck

/-!
# The memory that the kernel starts with

`FOS_initialize` calls `initialize_kernel_VM`, `initialize_paging` and `page_check` one after the
other (`fosInitialize`), and each needs what the one before leaves : `initialize_paging` reserves
the frames of the page directory and its page tables, and `page_check` finds three frames that are
free and two directory entries that are zero.

Boot memory is not cleared, so in the page tables there are words that nobody wrote, also in the
one that the directory opens to users, for `UENVS`. No boot function writes a page-table entry that
lets a user write, or one of the last frame (`Tame`). Where there was none of the first kind before,
the address spaces are apart at the end, as every run of the kernel from there needs it
(`Kern.Apart.run`); where there was none of the second, the directory is `Walkable`, as the commands
of the prompt leave it. Both are in `fosInitialize_spec`.
-/

namespace FosKernel

namespace Boot

open KernMemory (AllowsWrite LastFrame SameSpace)

/-! ## Entries that no boot function writes -/

section Tame

variable {l : Layout} {v : Variant} {n d f i va size pa : Nat} {s s' t : State} {e : Entry}
  {perm : BitVec 32} {ptr : Nat} {table : Option Nat} {Q : Entry → Prop}

/-- What a boot function keeps, if it writes no entry of kind `Q` : `ptr_free_mem` is a 32-bit
address, and an entry of the kind was there before. -/
structure Tame (Q : Entry → Prop) (s s' : State) : Prop where
  pointer : s.ptrFreeMem < 4294967296 → s'.ptrFreeMem < 4294967296
  words : ∀ g i, Q (s'.words g i) → Q (s.words g i)

theorem Tame.refl (s : State) : Tame Q s s :=
  ⟨fun h => h, fun _ _ h => h⟩

theorem Tame.trans (h : Tame Q s t) (h' : Tame Q t s') : Tame Q s s' :=
  ⟨fun hs => h'.pointer (h.pointer hs), fun g i he => h.words g i (h'.words g i he)⟩

/-- No entry with these permissions is of the kind, but for the last frame of the address space. -/
def Tame.Perm (Q : Entry → Prop) (perm : BitVec 32) : Prop :=
  ∀ f < 1048575, ¬Q (constructEntry (toPhysicalAddress f) perm)

/-- The kind has none of the entries of boot : zero, what the kernel writes, and what a user
reads. -/
structure Unwritten (Q : Entry → Prop) : Prop where
  zero : ¬Q 0#32
  kernel : Tame.Perm Q (permWriteable ||| permPresent)
  user : Tame.Perm Q (permUser ||| permPresent)

theorem not_allowsWrite_constructEntry (hperm : IsPerm perm)
    (h : ¬(perm &&& permUser = permUser ∧ perm &&& permWriteable = permWriteable)) (f : Nat) :
    ¬AllowsWrite (constructEntry (toPhysicalAddress f) perm) := by
  have hmask : ∀ q, q = permMask &&& q → constructEntry (toPhysicalAddress f) perm &&& q =
      perm &&& q := fun q hq => by
    rw [hq, ← BitVec.and_assoc, constructEntry_and_permMask f hperm, ← hq]
  rintro ⟨⟨-, huser⟩, hwrite⟩
  exact h ⟨(hmask _ (by decide)).symm.trans huser, (hmask _ (by decide)).symm.trans hwrite⟩

theorem unwritten_allowsWrite : Unwritten AllowsWrite where
  zero := by decide
  kernel f _ := not_allowsWrite_constructEntry (by decide) (by decide) f
  user f _ := not_allowsWrite_constructEntry (by decide) (by decide) f

theorem not_lastFrame_constructEntry (hperm : IsPerm perm) :
    Tame.Perm LastFrame perm := by
  intro f hf hlast
  have hframe := frameNumber_constructEntry (f := f) (by omega) hperm
  have := hlast.2
  omega

theorem unwritten_lastFrame : Unwritten LastFrame where
  zero := by decide
  kernel := not_lastFrame_constructEntry (by decide)
  user := not_lastFrame_constructEntry (by decide)

/-- The entry of a page table is one that the kernel writes. -/
theorem Unwritten.bootTable (hQ : Unwritten Q) (hf : f < 1048575) : ¬Q (bootTable f) := by
  rw [Boot.bootTable, BitVec.or_comm]
  exact hQ.kernel f hf

theorem tame_setWord (s : State) (f i : Nat) (he : ¬Q e) : Tame Q s (s.setWord f i e) := by
  refine ⟨fun h => h, fun g j hq => ?_⟩
  have hword : (s.setWord f i e).words g j = if g = f ∧ j = i then e else s.words g j :=
    writeWord_apply _ _ _ _ _ _
  rw [hword] at hq
  split at hq
  · exact absurd hq he
  · exact hq

theorem Unwritten.of_clearWords (hQ : Unwritten Q) {w : Words} {g j : Nat}
    (h : Q (clearWords w f g j)) : Q (w g j) := by
  rw [clearWords_apply] at h
  split at h
  · exact absurd h hQ.zero
  · exact h

theorem tame_bootAllocateSpace {align : Nat}
    (h : bootAllocateSpace l v size align s = some (ptr, s')) : Tame Q s s' := by
  unfold bootAllocateSpace at h
  split at h
  · cases h
  · obtain ⟨rfl, rfl⟩ := Prod.mk.inj (Option.some.inj h)
    exact ⟨fun _ => Nat.mod_lt _ (by decide), fun _ _ h => h⟩

/-- A block starts with a page, at a 32-bit address. -/
theorem bootAllocateSpace_page (hv : v.rounding pageSize = pageSize)
    (h : bootAllocateSpace l v size pageSize s = some (ptr, s')) :
    ptr % 4096 = 0 ∧ ptr < 4294967296 := by
  unfold bootAllocateSpace at h
  simp only [hv] at h
  split at h
  · cases h
  · obtain ⟨rfl, -⟩ := Prod.mk.inj (Option.some.inj h)
    exact ⟨roundDown_mod _ _, (Nat.sub_le _ _).trans_lt (Nat.mod_lt _ (by decide))⟩

/-- The physical address of a block is that of a frame, in the lower half of the address space. -/
theorem kPhysicalAddress_frame (hptr : ptr % 4096 = 0 ∧ ptr < 4294967296)
    (h : kPhysicalAddress l ptr = some pa) : pa = 4096 * (pa / 4096) ∧ pa < 2147483648 := by
  have hbase := l.kernelBase_mod
  have hgt := l.kernelBase_gt
  obtain ⟨hle, rfl⟩ := kPhysicalAddress_eq_some.1 h
  omega

theorem tame_bootGetPageTable {create : Bool} (hQ : Unwritten Q)
    (hv : v.rounding pageSize = pageSize)
    (h : bootGetPageTable l v n d va create s = some (table, s')) : Tame Q s s' := by
  unfold bootGetPageTable at h
  dsimp only at h
  split at h
  · split at h
    · simp only [Option.bind_eq_bind, Option.bind_eq_some_iff] at h
      obtain ⟨⟨ptr, t⟩, halloc, pa, hpa, h⟩ := h
      obtain ⟨-, rfl⟩ := Prod.mk.inj (Option.some.inj h)
      obtain ⟨hframe, hlt⟩ := kPhysicalAddress_frame (bootAllocateSpace_page hv halloc) hpa
      refine (tame_bootAllocateSpace halloc).trans (tame_setWord t _ _ ?_)
      rw [hframe, ← toPhysicalAddress_eq]
      exact hQ.bootTable (by omega)
    · obtain ⟨-, rfl⟩ := Prod.mk.inj (Option.some.inj h)
      exact .refl s
  · obtain ⟨f, -, h⟩ := Option.map_eq_some_iff.1 h
    obtain ⟨-, rfl⟩ := Prod.mk.inj h
    exact .refl s

theorem tame_bootMapRangeLoop (hQ : Unwritten Q) (hv : v.rounding pageSize = pageSize)
    (hperm : Tame.Perm Q (perm ||| permPresent)) :
    ∀ (trips va f : Nat) {s s' : State}, f + trips ≤ 1048575 →
      bootMapRangeLoop l v n d perm trips va (4096 * f) s = some s' → Tame Q s s'
  | 0, _, _, s, s', _, h => by
    obtain rfl := Option.some.inj h
    exact .refl s
  | trips + 1, va, f, s, s', hfits, h => by
    unfold bootMapRangeLoop at h
    simp only [Option.bind_eq_bind, Option.bind_eq_some_iff] at h
    obtain ⟨⟨ptr, t⟩, htable, table, -, h⟩ := h
    have hnext : u32 (4096 * f + pageSize) = 4096 * (f + 1) := by
      unfold u32 pageSize
      omega
    rw [hnext, ← toPhysicalAddress_eq] at h
    exact (tame_bootGetPageTable hQ hv htable).trans <|
      (tame_setWord t _ _ (hperm f (by omega))).trans <|
        tame_bootMapRangeLoop hQ hv hperm trips _ _ (by omega) h

/-- A range that ends before the last frames of the address space. -/
theorem tame_bootMapRange (hQ : Unwritten Q) (hperm : Tame.Perm Q (perm ||| permPresent))
    (hfits : pa + size ≤ 4290772992)
    (h : bootMapRange l .kern n d va size pa perm s = some s') : Tame Q s s' := by
  unfold bootMapRange at h
  split at h
  · have hfrom : Variant.kern.mapsFrom pa = 4096 * (roundUp pa pageSize / 4096) := by
      change roundUp pa pageSize = _
      have hmod : roundUp pa pageSize % 4096 = 0 := roundDown_mod _ _
      omega
    rw [hfrom] at h
    refine tame_bootMapRangeLoop hQ rfl hperm _ _ _ ?_ h
    unfold roundUp roundDown u32 pageSize
    omega
  · cases h

end Tame

section KernelVM

variable {l : VmLayout} {n d i f F : Nat} {s : State} {S : Finset Nat} {vm : KernelVM}
  {Q : Entry → Prop}

theorem tame_setupListing (hQ : Unwritten Q) (l : VmLayout) (hd : d < 1048575) (s : State) :
    Tame Q s (setupListing l (4096 * d) s) := by
  rw [setupListing_eq]
  exact (tame_setWord s _ _ (hQ.bootTable hd)).trans (tame_setWord _ _ _ (hQ.user d hd))

theorem tame_turnOnPaging (hQ : Unwritten Q) (l : VmLayout) (d : Nat) (s : State) :
    Tame Q s (turnOnPaging l d s) := by
  refine ⟨fun h => h, fun g i hq => ?_⟩
  have hword : (turnOnPaging l d s).words g i = if g = d ∧ i = 0 then 0#32
      else (s.setWord d 0 (s.words d (pdx l.kernelBase))).words g i := writeWord_apply _ _ _ _ _ _
  rw [hword] at hq
  split at hq
  · exact absurd hq hQ.zero
  · next hat =>
    exact (writeWord_apply s.words d 0 g i _).trans (if_neg hat) ▸ hq

/-- The one entry that is not one of these is that of `UENVS`, in the directory. -/
theorem initializeKernelVM_tame (hQ : Unwritten Q) (hsize : n * l.sizeofFrameInfo ≤ 4194304)
    (h : initializeKernelVM l n s = some vm)
    (hs : s.ptrFreeMem < 4294967296) : vm.boot.ptrFreeMem < 4294967296 ∧
      ∀ g i, Q (vm.boot.words g i) → Q (s.words g i) ∨ g = vm.directory ∧ i = pdx l.uenvs := by
  unfold initializeKernelVM at h
  simp only [Option.bind_eq_bind, Option.bind_eq_some_iff] at h
  obtain ⟨⟨p₁, s₁⟩, h₁, phys, hphys, bottom, hbottom, s₂, h₂, s₃, h₃, ⟨p₄, s₄⟩, h₄, pf, hpf, s₅, h₅,
    ⟨p₇, s₇⟩, h₇, pe, hpe, s₈, h₈, h⟩ := h
  split at h
  case isFalse => cases h
  obtain rfl := Option.some.inj h
  obtain ⟨hd, hlt⟩ := kPhysicalAddress_frame (bootAllocateSpace_page rfl h₁) hphys
  rw [hd] at h₇
  -- no range reaches the last frames : what is mapped lies in the lower half
  have hbase := l.kernelBase_gt
  have hstack : l.kernelStackSize ≤ 4194304 := by
    have htable := l.kernelStack_table
    have hle := l.kernelStackSize_le
    unfold pdx at htable
    omega
  have henvs := l.envsSize_le
  have harray : u32 (n * l.sizeofFrameInfo) ≤ 4194304 := (Nat.mod_le _ _).trans hsize
  have hbottomlt := (kPhysicalAddress_frame ⟨l.ptrStackBottom_mod, l.ptrStackBottom_lt⟩ hbottom).2
  have hpflt := (kPhysicalAddress_frame (bootAllocateSpace_page rfl h₄) hpf).2
  have hpelt := (kPhysicalAddress_frame (bootAllocateSpace_page rfl h₇) hpe).2
  have hclear : Tame Q s₁ { s₁ with words := clearWords s₁.words (phys / pageSize) } :=
    ⟨fun h => h, fun _ _ => hQ.of_clearWords⟩
  have htame : Tame Q s s₈ :=
    (tame_bootAllocateSpace h₁).trans <| hclear.trans <|
      (tame_bootMapRange hQ hQ.kernel (by omega) h₂).trans <|
      (tame_bootMapRange hQ hQ.kernel (by omega) h₃).trans <|
      (tame_bootAllocateSpace h₄).trans <|
      (tame_bootMapRange hQ hQ.user (by omega) h₅).trans <|
      (tame_setupListing hQ l (by omega) s₅).trans <| (tame_bootAllocateSpace h₇).trans
        (tame_bootMapRange hQ hQ.user (by omega) h₈)
  refine ⟨htame.pointer hs, fun g i hq => ?_⟩
  have hlast := (tame_turnOnPaging hQ l _ _).words g i hq
  have hword : ∀ e, (s₈.setWord (phys / pageSize) (pdx l.uenvs) e).words g i =
      if g = phys / pageSize ∧ i = pdx l.uenvs then e else s₈.words g i := fun e =>
    writeWord_apply _ _ _ _ _ _
  rw [hword] at hlast
  split at hlast
  · next hat => exact Or.inr hat
  · exact Or.inl (htame.words g i hlast)

/-! ## The page tables of the kernel -/

namespace Built

variable (h : Built l n F S vm)

include h

/-- The page tables are in boot memory, behind the directory. -/
theorem table (hi : i < 1024) (hpresent : IsPresent (vm.boot.words vm.directory i)) :
    vm.directory ≤ frameNumber (vm.boot.words vm.directory i) ∧
      frameNumber (vm.boot.words vm.directory i) < F := by
  have hd := h.builds.directory
  cases ht : bootTableOf vm.boot.words vm.directory i with
  | none => exact absurd hpresent (hd.absent i hi ht)
  | some t =>
    rw [(bootTableOf_eq_some.1 ht).2]
    exact ⟨h.builds.above i t ht, (hd.present i hi t ht).2⟩

/-- Boot memory ends in the last frame that was taken. -/
theorem pointer (hlt : vm.boot.ptrFreeMem < 4294967296) :
    l.kernelBase + 4096 * F < vm.boot.ptrFreeMem + 4096 ∧
      vm.boot.ptrFreeMem ≤ l.kernelBase + 4096 * F := by
  have hfree := h.builds.directory.free
  have hpos := h.builds.directory.directory
  have hbase := l.kernelBase_gt
  have hmod := l.kernelBase_mod
  split at hfree
  · have hround := l.roundUp_endOfKernel
    have hfirst := h.first
    omega
  · unfold roundUp roundDown u32 pageSize at hfree
    omega

/-- `initialize_paging` keeps the frames of boot memory off the list. -/
theorem reserved (hlt : vm.boot.ptrFreeMem < 4294967296) (hle : vm.directory ≤ f) (hf : f < F) :
    Reserved l.toLayout .kern vm.boot.ptrFreeMem f := by
  have hend := (h.pointer hlt).1
  have hext := l.physExtendedMem_le
  have hfirst := h.first
  refine Or.inr (Or.inr ⟨?_, ?_⟩)
  · unfold pageSize
    omega
  · unfold pageSize
    omega

/-- The page table for `UENVS` is not the directory. -/
theorem envs_table :
    frameNumber (vm.boot.words vm.directory (pdx l.uenvs)) ≠ vm.directory := by
  obtain ⟨g, -, hshows⟩ := h.envs
  obtain ⟨-, -, hpdx, -, hfits⟩ := partPages l.uenvs_mod (l.entry_lt (by simp)) l.envsSize_le
  have hpos : 0 < pagesOf l.envsSize := by
    have hle := (le_pagesOf l.envsSize).1
    have hsize := l.envsSize_pos
    omega
  obtain ⟨t, ht, hne, -⟩ := hshows 0 hpos
  rw [Nat.add_zero, hpdx] at ht
  rwa [(bootTableOf_eq_some.1 ht).2]

end Built

/-- The kernel part is the same where the directory and its page tables are. -/
theorem KernelSpace.congr {w : Words} (h : KernelSpace l n vm)
    (hsize : n * l.sizeofFrameInfo ≤ 4194304)
    (hsame : SameSpace vm.directory 0 vm.boot.words w) :
    KernelSpace l n { vm with boot := { vm.boot with words := w } } := by
  have hbelow := fun a (ha : a % 4194304 = 0) (hpart : pdx a < pdx l.kernelBase) =>
    show a + 4194304 ≤ l.kernelBase by
      unfold pdx at hpart
      omega
  have hbase := l.kernelBase_lt
  obtain ⟨-, -, -, -, hv, hu, hs, he, hr⟩ := l.parts
  have hvpt := hbelow l.vpt l.vpt_mod hv
  have huvpt := hbelow l.uvpt l.uvpt_mod hu
  have huenvs := hbelow l.uenvs l.uenvs_mod he
  have hframes := hbelow l.readOnlyFramesInfo l.readOnlyFramesInfo_mod hr
  have hstack : l.kernelStackTop ≤ l.kernelBase := by
    have htable := l.kernelBase_table
    unfold pdx at hs
    omega
  have henvs := l.envsSize_le
  have hle := l.kernelStackSize_le
  refine ⟨fun a ha => ?_, fun a ha => ?_, fun a ha => ?_, fun a ha => ?_, fun i hi => ?_,
    fun va hva hentry => ?_, fun i hi hmem => ?_⟩
  · exact (hsame.walk_eq (by omega)).trans (h.stack a ha)
  · exact (hsame.walk_eq ha).trans (h.physical a ha)
  · exact (hsame.walk_eq (by omega)).trans (h.framesInfo a ha)
  · exact (hsame.walk_eq (by omega)).trans (h.envs a ha)
  · have hword : w vm.directory i = vm.boot.words vm.directory i := hsame.directory i
    dsimp only
    rw [hword, hsame.walk_eq (by omega), hsame.walk_eq (by omega)]
    exact h.windows i hi
  · exact (hsame.walk_eq hva).trans (h.unmapped va hva hentry)
  · have hword : w vm.directory i = vm.boot.words vm.directory i := hsame.directory i
    dsimp only
    rw [hword]
    exact h.kernelOnly i hi hmem

namespace Built

variable (h : Built l n F S vm)

include h

/-- A frame that is free is no page table of the kernel, and can be cleared. -/
theorem sameSpace_clear (hlt : vm.boot.ptrFreeMem < 4294967296)
    (hfree : ¬Reserved l.toLayout .kern vm.boot.ptrFreeMem f) :
    SameSpace vm.directory 0 vm.boot.words (clearWords vm.boot.words f) := by
  have hother : ∀ g, vm.directory ≤ g → g < F → ∀ j,
      clearWords vm.boot.words f g j = vm.boot.words g j := fun g hle hg j => by
    have hne : g ≠ f := fun heq => hfree (heq ▸ h.reserved hlt hle hg)
    rw [clearWords_apply, if_neg hne]
  refine ⟨hother _ le_rfl h.builds.directory.directory, fun i t ht hi => ?_, fun g hg => ?_⟩
  · obtain ⟨hi, hpresent⟩ := hi.resolve_left (Nat.not_lt_zero i)
    obtain rfl := Option.some.inj ((KernMemory.tableOf_of_present hpresent).symm.trans ht)
    obtain ⟨hle, hlt'⟩ := h.table hi hpresent
    exact hother _ hle hlt'
  · obtain ⟨i, hi, -⟩ := hg
    exact absurd hi (Nat.not_lt_zero i)

/-- `initialize_paging` finds boot memory. -/
theorem exists_frames (hlt : vm.boot.ptrFreeMem < 4294967296) (framesInfo : Nat → FrameInfo) :
    ∃ frames, initializePaging l.toLayout .kern n vm.boot.ptrFreeMem framesInfo = some frames ∧
      ∀ f, frames.freeFrameList.count f =
          (if f < n ∧ ¬Reserved l.toLayout .kern vm.boot.ptrFreeMem f then 1 else 0) ∧
        (f < n → (frames.framesInfo f).references =
          if Reserved l.toLayout .kern vm.boot.ptrFreeMem f then 1 else 0) := by
  obtain ⟨hlo, hhi⟩ := h.pointer hlt
  have hext := l.physExtendedMem_le
  have hfirst := h.first
  have hdir := h.builds.directory.directory
  have hframes := h.frames
  have hpa : kPhysicalAddress l.toLayout vm.boot.ptrFreeMem =
      some (vm.boot.ptrFreeMem - l.kernelBase) := kPhysicalAddress_eq_some.2 ⟨by omega, rfl⟩
  have hpaging : ∃ frames, initializePaging l.toLayout .kern n vm.boot.ptrFreeMem framesInfo =
      some frames := by
    simp only [initializePaging, hpa, Option.bind_eq_bind, Option.bind_some]
    exact ⟨_, rfl⟩
  obtain ⟨frames, hpaging⟩ := hpaging
  refine ⟨frames, hpaging, initializePaging_spec (by omega) hlt ?_ hpaging⟩
  unfold pageSize
  omega

/-- Below the kernel part the directory is zero. -/
theorem zero_user {tables : Nat} (huser : ∀ i, IsKernelEntry l i → tables ≤ i) (hi : i < tables) :
    vm.boot.words vm.directory i = 0#32 := by
  have hvpt := huser (pdx l.vpt) (Or.inl (by simp))
  have hlt := l.entry_lt (i := pdx l.vpt) (by simp)
  refine h.builds.zero i (by omega) fun hmem => ?_
  have hle := huser i ((h.entries i (by omega)).1 hmem)
  omega

/-- A user gets past the directory at `UENVS` with a write, and no further. -/
theorem not_allowsWrite_table
    (hquiet : ∀ g j, vm.directory ≤ g → g < F → AllowsWrite (vm.boot.words g j) →
      g = vm.directory ∧ j = pdx l.uenvs)
    (hi : i < 1024) (hallow : AllowsWrite (vm.boot.words vm.directory i)) :
    frameNumber (vm.boot.words vm.directory i) ≠ vm.directory ∧
      ∀ j, ¬AllowsWrite (vm.boot.words (frameNumber (vm.boot.words vm.directory i)) j) := by
  obtain ⟨hle, hlt⟩ := h.table hi hallow.1.1
  obtain ⟨-, rfl⟩ := hquiet _ _ le_rfl h.builds.directory.directory hallow
  have hne := h.envs_table
  exact ⟨hne, fun j hj => hne (hquiet _ j hle hlt hj).1⟩

end Built

end KernelVM

end Boot

open KernMemory (AllowsWrite Kern LastFrame Walkable userTables)

/-- `FOS_initialize`, up to `page_check`. -/
def fosInitialize (l : Boot.VmLayout) (n : Nat) (words : Words) (framesInfo : Nat → FrameInfo) :
    Option (Boot.KernelVM × KernMemory) := do
  let vm ← Boot.initializeKernelVM l n (Boot.start words)
  let frames ← Boot.initializePaging l.toLayout .kern n vm.boot.ptrFreeMem framesInfo
  let m ← (KernMemory.ofFrames frames vm.boot.words).pageCheck n vm.directory
  some (vm, m)

variable {l : Boot.VmLayout} {n F userTop : Nat} {S : Finset Nat} {vm : Boot.KernelVM}

/-! ## The free frames -/

/-- A list that has some frames once, and no others. -/
theorem mem_iff_and_nodup_of_count {fl : List Nat} {P : Nat → Prop} [DecidablePred P]
    (h : ∀ f, fl.count f = if P f then 1 else 0) : (∀ f, f ∈ fl ↔ P f) ∧ fl.Nodup := by
  refine ⟨fun f => ?_, List.nodup_iff_count_le_one.2 fun f => ?_⟩
  · rw [← List.count_pos_iff, h]
    split_ifs with hf <;> simp [hf]
  · rw [h]
    split_ifs <;> omega

/-- The frames below 640K that `page_check` can take. -/
theorem Boot.Built.low_free (h : Boot.Built l n F S vm) (hlow : 16384 ≤ l.physIoMem) {f : Nat}
    (hf : 1 ≤ f ∧ f ≤ 3) (bootEnd : Nat) :
    f < n ∧ ¬Boot.Reserved l.toLayout .kern bootEnd f := by
  have hext := l.physExtendedMem_le
  have hhole := l.ioHole
  have hfirst := h.first
  have hframes := h.frames
  have hdir := h.builds.directory.directory
  have hone : Boot.Variant.kern.lowFrames = 1 := rfl
  refine ⟨by omega, ?_⟩
  unfold Boot.Reserved pageSize
  omega

/-- Three frames for `page_check`, from a list that has three. -/
theorem KernMemory.exists_frames3 {d : Nat} {m : KernMemory} (hnodup : m.freeFrameList.Nodup)
    (hfree : ∀ f ∈ m.freeFrameList, f < n ∧ f ≠ d ∧ m.references f = 0)
    (hthree : [1, 2, 3] ⊆ m.freeFrameList) : ∃ pp0 pp1 pp2 fl, Frames3 n d m pp0 pp1 pp2 fl := by
  have hlength : 3 ≤ m.freeFrameList.length :=
    ((by decide : [1, 2, 3].Nodup).subperm hthree).length_le
  obtain ⟨pp0, pp1, pp2, fl, hl⟩ : ∃ pp0 pp1 pp2 fl,
      m.freeFrameList = pp0 :: pp1 :: pp2 :: fl := by
    rcases hl : m.freeFrameList with _ | ⟨pp0, _ | ⟨pp1, _ | ⟨pp2, fl⟩⟩⟩
    · simp [hl] at hlength
    · simp [hl] at hlength
    · simp [hl] at hlength
    · exact ⟨pp0, pp1, pp2, fl, rfl⟩
  rw [hl] at hnodup hfree
  obtain ⟨hlt0, hne, hzero0⟩ := hfree pp0 (by simp)
  obtain ⟨hlt1, -, hzero1⟩ := hfree pp1 (by simp)
  obtain ⟨hlt2, -, hzero2⟩ := hfree pp2 (by simp)
  simp only [List.nodup_cons, List.mem_cons, not_or] at hnodup
  obtain ⟨⟨h01, h02, -⟩, ⟨h12, -⟩, -⟩ := hnodup
  exact ⟨pp0, pp1, pp2, fl, hl, Ne.symm h01, Ne.symm h02, Ne.symm h12, ⟨hlt0, hlt1, hlt2⟩, hne,
    hzero0, hzero1, hzero2⟩

/-! ## `FOS_initialize` -/

/-- `page_check` after `initialize_paging` : it clears one frame that is free, and moves frames of
the list. -/
theorem Boot.Built.exists_pageCheck (h : Boot.Built l n F S vm) {frames : Boot.Frames}
    (hn : n ≤ 1048576) (hlow : 16384 ≤ l.physIoMem) (hlt : vm.boot.ptrFreeMem < 4294967296)
    (h0 : vm.boot.words vm.directory 0 = 0#32) (h1 : vm.boot.words vm.directory 1 = 0#32)
    (hspec : ∀ f, frames.freeFrameList.count f =
        (if f < n ∧ ¬Boot.Reserved l.toLayout .kern vm.boot.ptrFreeMem f then 1 else 0) ∧
      (f < n → (frames.framesInfo f).references =
        if Boot.Reserved l.toLayout .kern vm.boot.ptrFreeMem f then 1 else 0)) :
    ∃ pp0 frames', ¬Boot.Reserved l.toLayout .kern vm.boot.ptrFreeMem pp0 ∧
      frames'.framesInfo = frames.framesInfo ∧
      frames'.freeFrameList.Perm frames.freeFrameList ∧
      (KernMemory.ofFrames frames vm.boot.words).pageCheck n vm.directory =
        some (KernMemory.ofFrames frames' (clearWords vm.boot.words pp0)) := by
  obtain ⟨hmem, hnodup⟩ := mem_iff_and_nodup_of_count fun f => (hspec f).1
  have hdir := h.reserved hlt le_rfl h.builds.directory.directory
  have hthree : ∃ pp0 pp1 pp2 fl, KernMemory.Frames3 n vm.directory
      (KernMemory.ofFrames frames vm.boot.words) pp0 pp1 pp2 fl := by
    refine KernMemory.exists_frames3 hnodup (fun f hf => ?_) fun f hf =>
      (hmem f).2 (h.low_free hlow ?_ _)
    · obtain ⟨hfn, hnot⟩ := (hmem f).1 hf
      exact ⟨hfn, fun heq => hnot (heq ▸ hdir), ((hspec f).2 hfn).trans (if_neg hnot)⟩
    · simp only [List.mem_cons, List.not_mem_nil, or_false] at hf
      omega
  obtain ⟨pp0, pp1, pp2, fl, h3⟩ := hthree
  have hlist : frames.freeFrameList = pp0 :: pp1 :: pp2 :: fl := h3.list
  refine ⟨pp0, ⟨frames.framesInfo, pp2 :: pp1 :: pp0 :: fl⟩,
    ((hmem pp0).1 (hlist ▸ List.mem_cons_self)).2, rfl, ?_, KernMemory.pageCheck_eq hn h3 h0 h1⟩
  rw [hlist]
  exact (List.reverse_perm [pp0, pp1, pp2]).append_right fl

/-- The address spaces are apart, with the page directory of the kernel. -/
theorem Boot.Built.apart {w : Words} (h : Boot.Built l n F S vm) (frames : Boot.Frames)
    (hlist : ∀ f ∈ frames.freeFrameList,
      f < n ∧ frames.freeFrameList.count f = 1 ∧ (frames.framesInfo f).references = 0)
    (hreserved : ∀ f, vm.directory ≤ f → f < F → f ∉ frames.freeFrameList)
    (huser : ∀ i, Boot.IsKernelEntry l i → userTables userTop ≤ i)
    (hsame : ∀ i, w vm.directory i = vm.boot.words vm.directory i)
    (hquiet : ∀ g j, vm.directory ≤ g → g < F → AllowsWrite (vm.boot.words g j) →
      g = vm.directory ∧ j = pdx l.uenvs)
    (hallow : ∀ g j, AllowsWrite (w g j) → AllowsWrite (vm.boot.words g j)) :
    Kern.Apart n {vm.directory} userTop (fun f => f ∉ frames.freeFrameList)
      ⟨KernMemory.ofFrames frames w, []⟩ := by
  refine Kern.apart_start frames hlist (fun d hd i hi => ?_) fun d hd i _ hi hpresent => ?_
  · obtain rfl := Finset.mem_singleton.1 hd
    exact (hsame i).trans (h.zero_user huser hi)
  · obtain rfl := Finset.mem_singleton.1 hd
    rw [hsame] at hpresent ⊢
    obtain ⟨hle, hlt⟩ := h.table hi hpresent
    refine ⟨hreserved _ hle hlt, Finset.mem_singleton.1, fun hwrite => ?_⟩
    obtain ⟨hne, hnone⟩ := h.not_allowsWrite_table hquiet hi hwrite
    exact ⟨fun hin => hne (Finset.mem_singleton.1 hin), fun j _ hj => hnone j (hallow _ j hj)⟩

/-- The page directory of the kernel can be walked. -/
theorem Boot.Built.walkable {w : Words} (h : Boot.Built l n F S vm) (frames : Boot.Frames)
    (hlist : ∀ f ∈ frames.freeFrameList, f < n)
    (hsame : ∀ i, w vm.directory i = vm.boot.words vm.directory i)
    (hquiet : ∀ g j, vm.directory ≤ g → g < F → LastFrame (vm.boot.words g j) →
      g = vm.directory ∧ j = pdx l.uenvs)
    (hlast : ∀ g j, LastFrame (w g j) → LastFrame (vm.boot.words g j)) :
    Walkable n vm.directory (KernMemory.ofFrames frames w) := by
  have hword : ∀ i < 1024, w vm.directory i = 0#32 ∨ IsPresent (w vm.directory i) := fun i hi => by
    rw [hsame]
    by_cases hS : i ∈ S
    · obtain ⟨t, ht⟩ := Option.ne_none_iff_exists'.1 (h.builds.made i hS)
      exact Or.inr (h.builds.directory.present i hi t ht).1
    · exact Or.inl (h.builds.zero i hi hS)
  refine ⟨hword, fun i hi t ht j _ hj => ?_, hlist⟩
  obtain ⟨hne, rfl⟩ := KernMemory.tableOf_eq_some.1 ht
  have hpresent := (hword i hi).resolve_left hne
  have hentry := hlast _ _ hj
  change LastFrame (vm.boot.words (frameNumber (w vm.directory i)) j) at hentry
  rw [hsame] at hpresent hentry
  -- the one entry of boot that may be of the last frame is in the directory, and names a table
  obtain ⟨hle, hlt⟩ := h.table hi hpresent
  obtain ⟨hdir, rfl⟩ := hquiet _ j hle hlt hentry
  rw [hdir] at hentry
  have huenvs := h.table (l.entry_lt (by simp)) hentry.1
  have hframe := hentry.2
  have hend := h.last
  omega

/-- Whatever was in memory : no assertion of `check_boot_pgdir` or `page_check` fails, the kernel
part of the address space is set up, and the free frames are those that are not reserved, without
references. If no word of the frames that are taken was an entry that lets a user write, the
address spaces are apart; if none was an entry of the last frame, the directory can be walked. -/
theorem fosInitialize_spec (l : Boot.VmLayout) (words : Words) (framesInfo : Nat → FrameInfo)
    (hn : n ≤ 1048576) (hsize : n * l.sizeofFrameInfo ≤ 4194304)
    (hreach : Boot.Reaches l.toLayout n (l.firstFrame + l.bootFrames n))
    (hlow : 16384 ≤ l.physIoMem) (htop : 8388608 ≤ userTop)
    (huser : ∀ i, Boot.IsKernelEntry l i → userTables userTop ≤ i) :
    ∃ vm m, fosInitialize l n words framesInfo = some (vm, m) ∧
      Boot.KernelSpace l n { vm with boot := { vm.boot with words := m.words } } ∧
      (∀ f, m.freeFrameList.count f =
          (if f < n ∧ ¬Boot.Reserved l.toLayout .kern vm.boot.ptrFreeMem f then 1 else 0) ∧
        (f < n → m.references f =
          if Boot.Reserved l.toLayout .kern vm.boot.ptrFreeMem f then 1 else 0)) ∧
      ((∀ g, l.firstFrame ≤ g → g < l.firstFrame + l.bootFrames n → ∀ i,
          ¬AllowsWrite (words g i)) →
        Kern.Apart n {vm.directory} userTop (fun f => f ∉ m.freeFrameList) ⟨m, []⟩) ∧
      ((∀ g, l.firstFrame ≤ g → g < l.firstFrame + l.bootFrames n → ∀ i,
          ¬LastFrame (words g i)) → Walkable n vm.directory m) := by
  obtain ⟨F, S, vm, hbuilt, hinit⟩ := Boot.initializeKernelVM_built l words hsize hreach
  have hstart : (Boot.start words).ptrFreeMem < 4294967296 := show 0 < 4294967296 by decide
  obtain ⟨hlt, hwrites⟩ :=
    Boot.initializeKernelVM_tame Boot.unwritten_allowsWrite hsize hinit hstart
  have hlast := (Boot.initializeKernelVM_tame Boot.unwritten_lastFrame hsize hinit hstart).2
  obtain ⟨frames, hpaging, hspec⟩ := hbuilt.exists_frames hlt framesInfo
  have htables : 2 ≤ userTables userTop := by
    unfold userTables
    omega
  obtain ⟨pp0, frames', hfree, hinfo, hperm, hcheck⟩ := hbuilt.exists_pageCheck hn hlow hlt
    (hbuilt.zero_user huser (by omega)) (hbuilt.zero_user huser (by omega)) hspec
  have hcount : ∀ f, frames'.freeFrameList.count f =
      if f < n ∧ ¬Boot.Reserved l.toLayout .kern vm.boot.ptrFreeMem f then 1 else 0 := fun f =>
    (hperm.count_eq f).trans (hspec f).1
  have hreferences : ∀ f < n, (frames'.framesInfo f).references =
      if Boot.Reserved l.toLayout .kern vm.boot.ptrFreeMem f then 1 else 0 := fun f hf => by
    rw [hinfo, (hspec f).2 hf]
  obtain ⟨hmem, -⟩ := mem_iff_and_nodup_of_count hcount
  have hsame := hbuilt.sameSpace_clear hlt hfree
  refine ⟨vm, KernMemory.ofFrames frames' (clearWords vm.boot.words pp0), ?_,
    (hbuilt.kernelSpace hsize).congr hsize hsame, fun f => ⟨hcount f, hreferences f⟩,
    fun hwords => ?_, fun hwords => ?_⟩
  · simp only [fosInitialize, hinit, hpaging, hcheck, Option.bind_eq_bind, Option.bind_some]
  · refine hbuilt.apart frames' (fun f hf => ?_) (fun f hle hf hin => ?_) huser hsame.directory
      (fun g i hle hg hallow => ?_) fun _ _ => Boot.unwritten_allowsWrite.of_clearWords
    · obtain ⟨hfn, hnot⟩ := (hmem f).1 hf
      exact ⟨hfn, (hcount f).trans (if_pos ⟨hfn, hnot⟩), (hreferences f hfn).trans (if_neg hnot)⟩
    · exact ((hmem f).1 hin).2 (hbuilt.reserved hlt hle hf)
    · exact (hwrites g i hallow).resolve_left
        (hwords g (hbuilt.first ▸ hle) (hbuilt.taken ▸ hg) i)
  · exact hbuilt.walkable frames' (fun f hf => ((hmem f).1 hf).1) hsame.directory
      (fun g i hle hg hentry => (hlast g i hentry).resolve_left
        (hwords g (hbuilt.first ▸ hle) (hbuilt.taken ▸ hg) i))
      fun _ _ => Boot.unwritten_lastFrame.of_clearWords

theorem fosVm_isKernelEntry (i : Nat) (h : Boot.IsKernelEntry Boot.fosVmLayout i) :
    userTables 0xEEC00000 ≤ i := by
  rcases h with hmem | hle
  · exact (by decide : ∀ i ∈ [pdx Boot.fosVmLayout.vpt, pdx Boot.fosVmLayout.uvpt,
      pdx (Boot.fosVmLayout.kernelStackTop - 1), pdx Boot.fosVmLayout.uenvs,
      pdx Boot.fosVmLayout.readOnlyFramesInfo], userTables 0xEEC00000 ≤ i) i hmem
  · exact (by decide : userTables 0xEEC00000 ≤ pdx Boot.fosVmLayout.kernelBase).trans hle

/-- With 4 MB of memory, all of it zero. -/
theorem fosInitialize_fosVm : ∃ vm m, fosInitialize Boot.fosVmLayout 1024 (fun _ _ => 0#32)
      (fun _ => initializeFrameInfo) = some (vm, m) ∧
    Kern.Apart 1024 {vm.directory} 0xEEC00000 (fun f => f ∉ m.freeFrameList) ⟨m, []⟩ ∧
    Walkable 1024 vm.directory m := by
  obtain ⟨vm, m, hinit, -, -, hapart, hwalkable⟩ := fosInitialize_spec (n := 1024) Boot.fosVmLayout
    (fun _ _ => 0#32) (fun _ => initializeFrameInfo) (by decide) (by decide)
    ⟨by decide, by decide⟩ (by decide) (by decide) fosVm_isKernelEntry
  exact ⟨vm, m, hinit, hapart fun _ _ _ _ => Boot.unwritten_allowsWrite.zero,
    hwalkable fun _ _ _ _ => Boot.unwritten_lastFrame.zero⟩

end FosKernel
