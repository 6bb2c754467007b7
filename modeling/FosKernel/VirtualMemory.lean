import FosKernel.FaultHandler
import FosKernel.FreeMemRange

/-!
# Virtual memory

What demand paging is for : every environment has a memory of its own, in which a byte that
was stored is there until the environment gives its page back. `VirtualMemory` is user memory
beside the flat memory that it stands for, which forgets the pages of a range that is
allocated or freed.

`Transparent` : the resident pages, with their copies in the page file, hold what the flat
memory knows (`WriteBack.Cache.Faithful`). Every attempt keeps it (`step_transparent`) : a
fault that makes a page table, one that fills a free slot, one that evicts the victim of
Modified Clock first, and the system calls of the user heap. `run_transparent` : along every
run of attempts of all the environments, whatever they do to each other's pages through the
frames and the page file, a resident page has every byte that is known of it.
-/

namespace FosKernel

/-- A memory by environment and address, as far as it is known. -/
abbrev FlatMemory := Nat → Nat → Option (BitVec 8)

namespace FlatMemory

variable (flat : FlatMemory)

/-- A byte is stored. -/
def store (env va : Nat) (byte : BitVec 8) : FlatMemory :=
  fun env' va' => if env' = env ∧ va' = va then some byte else flat env' va'

/-- The pages that a range overlaps are given back, or are new. -/
def forget (env va size : Nat) : FlatMemory :=
  fun env' va' => if env' = env ∧ va ≤ va' ∧ va' / pageSize * pageSize < va + size then none
    else flat env' va'

/-- The bytes by environment and page number, and offset. -/
def byPage (k : Nat × Nat) (offset : Nat) : Option (BitVec 8) :=
  if offset < pageSize then flat k.1 (k.2 * pageSize + offset) else none

theorem byPage_eq (env va : Nat) : flat.byPage (env, va / pageSize) (va % pageSize) =
    flat env va := by
  rw [byPage, if_pos (Nat.mod_lt _ (by decide)), Nat.div_add_mod']

variable {flat}

theorem byPage_store (env va : Nat) (byte : BitVec 8) (k : Nat × Nat) (offset : Nat) :
    (flat.store env va byte).byPage k offset =
      if k = (env, va / pageSize) ∧ offset = va % pageSize then some byte
      else flat.byPage k offset := by
  unfold byPage store
  by_cases hlt : offset < pageSize
  · have hiff : (k.1 = env ∧ k.2 * pageSize + offset = va) ↔
        (k = (env, va / pageSize) ∧ offset = va % pageSize) := by
      rw [Prod.ext_iff, and_assoc]
      refine and_congr_right fun _ => ?_
      unfold pageSize at *
      omega
    simp only [if_pos hlt, hiff]
  · have hne : ¬(k = (env, va / pageSize) ∧ offset = va % pageSize) := by
      rintro ⟨-, rfl⟩
      exact hlt (Nat.mod_lt _ (by decide))
    simp only [if_neg hlt, if_neg hne]

/-- The pages that are forgotten. -/
def Forgotten (env va size : Nat) (k : Nat × Nat) : Prop :=
  k.1 = env ∧ va ≤ k.2 * pageSize ∧ k.2 * pageSize < va + size

theorem byPage_forget {env va size : Nat} (hva : va % pageSize = 0) {k : Nat × Nat} {offset : Nat}
    {b : BitVec 8} (h : (flat.forget env va size).byPage k offset = some b) :
    flat.byPage k offset = some b ∧ ¬Forgotten env va size k := by
  unfold byPage forget at h
  split_ifs at h with hlt hin
  refine ⟨by rw [byPage, if_pos hlt, h], fun hf => hin ⟨hf.1, ?_⟩⟩
  obtain ⟨-, hlo, hhi⟩ := hf
  unfold pageSize at *
  omega

end FlatMemory

namespace UserMemory

open WriteBack (Cache)
open FlatMemory (byPage Forgotten)

variable {P : Type} {L : FaultLayout} {pf : PageFile P} {s s' s₁ s₂ : UserMemory P}
  {env env' va va' f v w unset size : Nat} {flat : FlatMemory} {buffering : Bool}

/-- The page has its modified bit set. -/
def Dirty (s : UserMemory P) (k : Nat × Nat) : Prop :=
  isModified (s.ptGetPagePermissions k.1 (k.2 * pageSize)) = true

/-- The resident pages and the page file hold what the flat memory knows. -/
structure Transparent (L : FaultLayout) (pf : PageFile P) (s : UserMemory P) (flat : FlatMemory) :
    Prop extends Managed L s where
  faithful : Cache.Faithful flat.byPage s.Dirty (pages pf s)

theorem dirty_congr {k : Nat × Nat}
    (h : s'.userEntry k.1 (k.2 * pageSize) = s.userEntry k.1 (k.2 * pageSize)) :
    s'.Dirty k ↔ s.Dirty k := by
  rw [Dirty, ptGetPagePermissions, h, Dirty, ptGetPagePermissions]

/-- Two caches that are the same hold the same. -/
theorem faithful_of_eq (h : Cache.Faithful flat.byPage s.Dirty (pages pf s))
    (hpages : pages pf s' = pages pf s) (hdirty : ∀ k, s'.Dirty k ↔ s.Dirty k) :
    Cache.Faithful flat.byPage s'.Dirty (pages pf s') :=
  h.forget (S := fun _ => False) (fun hb => ⟨hb, id⟩) (fun _ _ => by simp [hpages])
    fun k _ => hdirty k

/-! ## A new page table -/

theorem faithful_findsPageTable {t : PageTable} (hown : FramesOwned L.toUserLayout s)
    (h : Cache.Faithful flat.byPage s.Dirty (pages pf s))
    (hfinds : FindsPageTable L.toUserLayout s env va t s') :
    Cache.Faithful flat.byPage s'.Dirty (pages pf s') := by
  have hspec := hown.findsPageTable_spec hfinds
  refine faithful_of_eq h ?_ fun k => dirty_congr (hspec.entry _ _)
  ext k : 2
  · refine cached_congr (by rw [Mapped, hspec.entry, Mapped]) (fun _ => hspec.frame _ _)
      fun hmapped => hspec.bytes _ (hown.held hmapped.ne_zero).notFree
  · simp only [pages, hspec.pageFile]

/-! ## A page fault -/

/-- The page that is placed brings its copy along, if it has one. -/
theorem faithful_placement {L : UserLayout} (hstores : pf.StoresPages) (hown : FramesOwned L s)
    (h : Cache.Faithful flat.byPage s.Dirty (pages pf s)) (hva : va % pageSize = 0)
    (hnon : ¬s.Mapped env va) (hspec : PlacementSpec L pf env va v f s s') :
    Cache.Faithful flat.byPage s'.Dirty (pages pf s') := by
  refine h.fill (pages_placement hstores hown hva hspec) (fun j hj => dirty_congr ?_)
    (cached_of_not_mapped pf hva hnon) fun contents hcopy => ?_
  · rw [hspec.entry, if_neg fun hc => hj (Prod.ext hc.1 ?_)]
    rw [div_mul_pageSize] at hc
    exact hc.2
  · rw [backing_eq hva] at hcopy
    refine ⟨by rw [cached_placement hva hspec, hcopy, Option.getD_some], ?_⟩
    rcases hspec.pageFile with ⟨-, hfile⟩ | ⟨hnone, -, -⟩
    · rw [backing_eq hva, hfile, hcopy]
    · rw [hcopy] at hnone
      cases hnone

/-- Modified Clock and replacement change the modified bit of the victim's page only. -/
theorem FramesOwned.isModified_evicted {L : UserLayout} (h : FramesOwned L s)
    (hclock : modifiedClock env s = some (v, s₁))
    (hreplace : pageReplacement L pf env v s₁ = some s₂)
    (hw : (s.envs env).slot v = some w) (hother : ¬(env' = env ∧ va / pageSize = w / pageSize)) :
    isModified (s₂.ptGetPagePermissions env' va) = isModified (s.ptGetPagePermissions env' va) := by
  have hclears := (modifiedClock_spec hclock).1
  have hsame := h.sameFrames_modifiedClock hclock
  obtain ⟨x, hx, hspec⟩ := (h.of_sameFrames hsame).pageReplacement_spec hreplace
  rw [hclears.envs] at hx
  obtain ⟨y, hy, -, rfl⟩ := Env.slot_eq_some.1 hw
  obtain rfl := Option.some.inj (hx.symm.trans hy)
  rw [ptGetPagePermissions, hspec.entry, if_neg hother, ← hclears.isModified_eq,
    ptGetPagePermissions]

/-- The victim is written back if it was modified, and then the page is placed. -/
theorem faithful_pageFault {L : UserLayout} (hstores : pf.StoresPages) (hown : FramesOwned L s)
    (halgo : s.pageRepAlgoType = .modifiedClock) (hok : WorkingSetOk L s env)
    (h : Cache.Faithful flat.byPage s.Dirty (pages pf s)) (hnon : ¬s.Mapped env va)
    (hfault : pageFaultHandler L pf env va unset s = some s') :
    Cache.Faithful flat.byPage s'.Dirty (pages pf s') := by
  have hva : roundDown va pageSize % pageSize = 0 := roundDown_mod va pageSize
  have hnon' : ¬s.Mapped env (roundDown va pageSize) := fun hc =>
    hnon ((mapped_congr (roundDown_div va)).1 hc)
  cases pageFaults hfault with
  | @replaced v s₁ s₂ hfull _ hclock hreplace hplace =>
    obtain ⟨w, hevicted⟩ := hown.evicted hfull
      (fun i w hi => (hok.tracks.mem_iff w).2 ⟨i, hi⟩) hclock hreplace
    obtain ⟨f, hspec⟩ := hevicted.owned.pagePlacement_spec hplace
    obtain ⟨halign, -, hmapped⟩ := hevicted.resident
    refine faithful_placement hstores hevicted.owned ?_ hva
      (fun hc => hnon' ((hevicted.mapped _ _).1 hc).1) hspec
    rw [hevicted.pages_eq hstores]
    refine h.evict (cached_of_mapped pf halign hmapped) ?_ fun j hj => ?_
    · simp only [Dirty, mul_div_pageSize halign]
    · rw [Dirty, hown.isModified_evicted hclock hreplace hevicted.slot, Dirty]
      rw [div_mul_pageSize]
      exact fun hc => hj (Prod.ext hc.1 hc.2)
  | unreplaced _ hne _ => exact absurd halgo hne
  | placed _ hplace =>
    obtain ⟨f, hspec⟩ := hown.pagePlacement_spec hplace
    exact faithful_placement hstores hown h hva hnon' hspec

/-! ## An access -/

/-- The bits that an access sets. -/
def accessPerm (store : Option PageBytes) : BitVec 32 :=
  match store with
  | none => permUsed
  | some _ => permUsed ||| permModified

theorem isPerm_accessPerm (store : Option PageBytes) : IsPerm (accessPerm store) := by
  cases store with
  | none => exact (by decide : IsPerm permUsed)
  | some _ => exact (by decide : IsPerm (permUsed ||| permModified))

/-- An access to a mapped page sets bits of its entry. -/
theorem userEntry_access (store : Option PageBytes) (hm : s.Mapped env va) (env' va' : Nat) :
    (access env va store s).userEntry env' va' =
      if env' = env ∧ va' / pageSize = va / pageSize then s.userEntry env va ||| accessPerm store
      else s.userEntry env' va' := by
  obtain ⟨t, ht⟩ := Option.isSome_iff_exists.1 (isSome_getPageTable_of_mapped hm)
  have hpresent : IsPresent (t.entries (ptx va)) := userEntry_of_some ht ▸ hm
  rw [userEntry_of_some ht, ← userEntry_setEntry ht rfl]
  cases store with
  | none => simp only [access, ht, if_pos hpresent, accessPerm]
  | some contents =>
    simp only [access, ht, if_pos hpresent, accessPerm]
    rfl

/-- A store writes the frame of the page. -/
theorem bytes_access (store : Option PageBytes) (hm : s.Mapped env va) :
    (access env va store s).bytes = match store with
      | none => s.bytes
      | some contents => Function.update s.bytes (s.frameOf env va) contents := by
  obtain ⟨t, ht⟩ := Option.isSome_iff_exists.1 (isSome_getPageTable_of_mapped hm)
  have hpresent : IsPresent (t.entries (ptx va)) := userEntry_of_some ht ▸ hm
  rw [frameOf, userEntry_of_some ht]
  cases store with
  | none =>
    simp only [access, ht, if_pos hpresent]
    rfl
  | some contents => simp only [access, ht, if_pos hpresent]

theorem pageFile_access (env va : Nat) (store : Option PageBytes) (s : UserMemory P) :
    (access env va store s).pageFile = s.pageFile := by
  unfold access
  split
  · rfl
  · dsimp only
    split_ifs
    · cases store <;> rfl
    · rfl

theorem frameOf_access (store : Option PageBytes) (hm : s.Mapped env va) (env' va' : Nat) :
    (access env va store s).frameOf env' va' = s.frameOf env' va' := by
  rw [frameOf, userEntry_access store hm]
  split_ifs with hat
  · obtain ⟨rfl, hpage⟩ := hat
    rw [frameNumber_or _ (isPerm_accessPerm store), frameOf, userEntry_of_div_eq hpage]
  · rw [frameOf]

theorem isModified_or_used (e : Entry) :
    isModified ((e ||| permUsed) &&& permMask) = isModified (e &&& permMask) := by
  have hused : permUsed &&& (permMask &&& permModified) = 0#32 := by decide
  simp only [isModified, BitVec.and_assoc, or_and_right, hused, BitVec.or_zero]

theorem isModified_or_modified (e : Entry) :
    isModified ((e ||| (permUsed ||| permModified)) &&& permMask) = true := by
  have hmodified : (permUsed ||| permModified) &&& (permMask &&& permModified) = permModified := by
    decide
  refine decide_eq_true fun hzero => ?_
  rw [BitVec.and_assoc, or_and_right, hmodified] at hzero
  exact absurd (BitVec.or_eq_zero_iff.1 hzero).2 (by decide)

/-- A load changes no byte, and no modified bit. -/
theorem faithful_load (hm : s.Mapped env va)
    (h : Cache.Faithful flat.byPage s.Dirty (pages pf s)) :
    Cache.Faithful flat.byPage (access env va none s).Dirty (pages pf (access env va none s)) := by
  obtain ⟨-, hmapped, -⟩ := access_spec s env va none
  refine faithful_of_eq h ?_ fun k => ?_
  · ext k : 2
    · exact cached_congr (hmapped _ _) (fun _ => frameOf_access none hm _ _)
        fun _ => by rw [bytes_access none hm]
    · simp only [pages, pageFile_access]
  · rw [Dirty, ptGetPagePermissions, userEntry_access none hm]
    split_ifs with hat
    · obtain ⟨henv, hpage⟩ := hat
      rw [accessPerm, isModified_or_used, Dirty, ptGetPagePermissions, henv,
        userEntry_of_div_eq hpage]
    · rw [Dirty, ptGetPagePermissions]

/-- A store makes the page of the byte dirty. -/
theorem faithful_store (hown : FramesOwned L.toUserLayout s) (byte : BitVec 8)
    (hm : s.Mapped env va) (h : Cache.Faithful flat.byPage s.Dirty (pages pf s)) :
    Cache.Faithful (flat.store env va byte).byPage
      (access env va (some (s.withByte env va byte)) s).Dirty
      (pages pf (access env va (some (s.withByte env va byte)) s)) := by
  obtain ⟨contents, hcontents⟩ : ∃ contents, contents = s.withByte env va byte := ⟨_, rfl⟩
  rw [← hcontents]
  obtain ⟨-, hmapped, -⟩ := access_spec s env va (some contents)
  have hbytes : (access env va (some contents) s).bytes = _ := bytes_access (some contents) hm
  have hframe := frameOf_access (some contents) hm
  have hsame : ∀ k : Nat × Nat, k.1 = env ∧ k.2 * pageSize / pageSize = va / pageSize ↔
      k = (env, va / pageSize) := fun k => by rw [div_mul_pageSize, Prod.ext_iff]
  have hpage : va / pageSize * pageSize / pageSize = va / pageSize := div_mul_pageSize _
  have hm' : s.Mapped env (va / pageSize * pageSize) := (mapped_congr hpage).2 hm
  have hframe' : s.frameOf env (va / pageSize * pageSize) = s.frameOf env va := by
    rw [frameOf, userEntry_of_div_eq hpage, frameOf]
  refine h.store (k := (env, va / pageSize)) (w := s.bytes (s.frameOf env va))
    (o := va % pageSize) (b := byte) (fun j hj => ⟨?_, ?_⟩) (fun j hj => dirty_congr ?_) ?_ ?_ ?_
    (fun j p => FlatMemory.byPage_store env va byte j p)
  · refine cached_congr (hmapped _ _) (fun _ => hframe _ _) fun hj' => ?_
    rw [hbytes]
    refine Function.update_of_ne (fun hc => hj ((hsame j).1 ?_)) _ _
    exact hown.exclusive hj'.ne_zero hm.ne_zero hc
  · simp only [pages, pageFile_access]
  · rw [userEntry_access _ hm, if_neg fun hc => hj ((hsame j).1 hc)]
  · simp only [pages, if_pos hm', hframe']
  · have hin : (access env va (some contents) s).Mapped env (va / pageSize * pageSize) :=
      (hmapped _ _).2 hm'
    simp only [pages, if_pos hin, hframe, hframe', hbytes, Function.update_self]
    rw [hcontents, withByte]
  · rw [Dirty, ptGetPagePermissions, userEntry_access _ hm, if_pos ((hsame _).2 rfl)]
    exact isModified_or_modified _

/-! ## The system calls of the user heap -/

/-- The pages outside the range keep their copies. -/
theorem allocateMemLoop_read (hstores : pf.StoresPages) :
    ∀ (trips : Nat) {address : Nat} {noSpace noSpace' : Bool} {p p' : P}, address % pageSize = 0 →
      allocateMemLoop pf env trips address noSpace p = (noSpace', p') →
      ∀ env' a, a % pageSize = 0 →
        ¬(env' = env ∧ address ≤ a ∧ a < address + pageSize * trips) →
        pf.readEnvPage p' env' a = pf.readEnvPage p env' a
  | 0, address, noSpace, noSpace', p, p', _, h, env', a, _, _ => by
    rw [(Prod.mk.inj h).2]
  | trips + 1, address, noSpace, noSpace', p, p', haddress, h, env', a, ha, hout => by
    have hnext : (address + pageSize) % pageSize = 0 := by rw [Nat.add_mod_right, haddress]
    have hout' : ¬(env' = env ∧ address + pageSize ≤ a ∧
        a < address + pageSize + pageSize * trips) := fun hc => hout ⟨hc.1, by omega, by
      rw [Nat.mul_succ]
      omega⟩
    unfold allocateMemLoop at h
    split at h
    · next q hadd =>
      rw [allocateMemLoop_read hstores trips hnext h env' a ha hout']
      refine hstores.add haddress hadd env' a ha fun hc => hout ⟨hc.1, by omega, ?_⟩
      rw [hc.2, Nat.mul_succ]
      unfold pageSize
      omega
    · exact allocateMemLoop_read hstores trips hnext h env' a ha hout'

theorem faithful_allocateMem {noSpace : Bool} (hstores : pf.StoresPages) (hva : va % pageSize = 0)
    (h : Cache.Faithful flat.byPage s.Dirty (pages pf s))
    (hallocate : s.allocateMem pf env va size noSpace = some s') :
    Cache.Faithful (flat.forget env va size).byPage s'.Dirty (pages pf s') := by
  simp only [allocateMem] at hallocate
  split at hallocate
  · cases hallocate
  · obtain rfl := Option.some.inj hallocate
    refine h.forget (S := Forgotten env va size) (FlatMemory.byPage_forget hva)
      (fun k hk => ⟨rfl, ?_⟩) fun _ _ => Iff.rfl
    refine allocateMemLoop_read hstores _ hva rfl k.1 _ (Nat.mul_mod_left _ _) fun hc => hk ?_
    obtain ⟨henv, hlo, hhi⟩ := hc
    refine ⟨henv, hlo, ?_⟩
    unfold pageSize at *
    omega

/-! `freeMem` writes no frame. -/

theorem unmapFrame_bytes {L : UserLayout} (h : s.unmapFrame L env va = some s') :
    s'.bytes = s.bytes := by
  unfold unmapFrame at h
  split at h
  · obtain rfl := Option.some.inj h
    rfl
  · obtain ⟨_, -, rfl⟩ := Option.map_eq_some_iff.1 h
    rfl

theorem freeResidentPagesLoop_bytes {L : UserLayout} :
    ∀ (ws : List WorkingSetElement) {kept : List WorkingSetElement} {s s' : UserMemory P},
      freeResidentPagesLoop L env va size ws s = some (kept, s') → s'.bytes = s.bytes
  | [], kept, s, s', h => by
    obtain ⟨-, rfl⟩ := Prod.mk.inj (Option.some.inj h)
    rfl
  | x :: rest, kept, s, s', h => by
    unfold freeResidentPagesLoop at h
    dsimp only at h
    split at h
    · obtain ⟨s₁, hun, h⟩ := Option.bind_eq_some_iff.1 h
      exact (freeResidentPagesLoop_bytes rest h).trans (unmapFrame_bytes hun)
    · simp only [Option.bind_eq_bind, Option.bind_eq_some_iff] at h
      obtain ⟨⟨kept', s₁⟩, hloop, h⟩ := h
      obtain ⟨-, rfl⟩ := Prod.mk.inj (Option.some.inj h)
      exact freeResidentPagesLoop_bytes rest hloop

theorem removeEmptyNonUsedPages_bytes {L : UserLayout} :
    ∀ (noOfPages va : Nat) {s s' : UserMemory P},
      removeEmptyNonUsedPages L env va noOfPages s = some s' → s'.bytes = s.bytes
  | 0, va, s, s', h => by
    obtain rfl := Option.some.inj h
    rfl
  | noOfPages + 1, va, s, s', h => by
    unfold removeEmptyNonUsedPages at h
    split at h
    · exact removeEmptyNonUsedPages_bytes noOfPages _ h
    · next t ht =>
      split at h
      · obtain ⟨s₁, hfree, h⟩ := Option.bind_eq_some_iff.1 h
        refine (removeEmptyNonUsedPages_bytes noOfPages _ h).trans ?_
        unfold freePageTable at hfree
        simp only [Option.bind_eq_bind, Option.bind_eq_some_iff] at hfree
        obtain ⟨address, -, heap, -, hfree⟩ := hfree
        obtain rfl := Option.some.inj hfree
        rfl
      · exact removeEmptyNonUsedPages_bytes noOfPages _ h

theorem freeMem_bytes {L : UserLayout} (h : s.freeMem L pf env va size = some s') :
    s'.bytes = s.bytes := by
  unfold freeMem freeResidentPagesInTheWorkingSet at h
  simp only [Option.bind_eq_bind, Option.bind_eq_some_iff] at h
  obtain ⟨s₂, ⟨⟨kept, s₁⟩, hloop, hset⟩, hremove⟩ := h
  obtain rfl := Option.some.inj hset
  have hbytes := freeResidentPagesLoop_bytes _ hloop
  exact (removeEmptyNonUsedPages_bytes _ _ hremove).trans hbytes

/-- A page that leaves the working set is one of the range. -/
theorem forgotten_of_leaves {ws : List WorkingSetElement} {k : Nat × Nat} (henv : k.1 = env)
    (h : Leaves va size ws (k.2 * pageSize)) : Forgotten env va size k := by
  obtain ⟨b, -, hin, hpage⟩ := h
  obtain ⟨hlo, hhi⟩ := of_decide_eq_true hin
  have hround : roundDown b pageSize = k.2 * pageSize := by
    refine eq_of_div_eq (roundDown_mod b pageSize) (Nat.mul_mod_left _ _) ?_
    rw [roundDown_div, hpage]
  rw [hround] at hlo hhi
  exact ⟨henv, hlo, lt_of_lt_of_le hhi (Nat.mod_le _ _)⟩

theorem faithful_freeMem {L : UserLayout} (hremoves : pf.RemovesPages) (hva : va % pageSize = 0)
    (h : Cache.Faithful flat.byPage s.Dirty (pages pf s))
    (hfree : s.freeMem L pf env va size = some s') :
    Cache.Faithful (flat.forget env va size).byPage s'.Dirty (pages pf s') := by
  have heffect := freeMem_effect hfree
  have hentry : ∀ k : Nat × Nat, ¬Forgotten env va size k →
      s'.userEntry k.1 (k.2 * pageSize) = s.userEntry k.1 (k.2 * pageSize) := fun k hk =>
    heffect.kept _ _ fun hc => hk (forgotten_of_leaves hc.1 hc.2)
  refine h.forget (S := Forgotten env va size) (FlatMemory.byPage_forget hva)
    (fun k hk => ⟨?_, ?_⟩) fun k hk => dirty_congr (hentry k hk)
  · refine cached_congr (by rw [Mapped, hentry k hk, Mapped]) (fun _ => ?_) fun _ => ?_
    · rw [frameOf, hentry k hk, frameOf]
    · rw [freeMem_bytes hfree]
  · simp only [pages, heffect.pageFile]
    rw [freeAllPagees_read hremoves _ _ hva _ _ (Nat.mul_mod_left _ _), if_neg]
    rintro ⟨henv, hlo, hhi⟩
    refine hk ⟨henv, hlo, lt_of_lt_of_le hhi ?_⟩
    exact Nat.add_le_add_left (Nat.mul_div_le size pageSize) va

/-! ## Runs -/

/-- What an event does to the flat memory. A store to a page that is not resident faults. -/
def after (flat : FlatMemory) (s : UserMemory P) : Event → FlatMemory
  | .load _ _ _ => flat
  | .store env va byte _ => if s.Mapped env va then flat.store env va byte else flat
  | .allocateMem env va size _ => flat.forget env va size
  | .freeMem env va size => flat.forget env va size

/-- The ranges that are allocated and freed start at a page, and are user memory. -/
def Event.Proper (L : FaultLayout) : Event → Prop
  | .load _ _ _ => True
  | .store _ _ _ _ => True
  | .allocateMem _ va size _ => va % pageSize = 0 ∧ va + size ≤ L.userTop
  | .freeMem _ va size => va % pageSize = 0 ∧ va + size ≤ L.userTop

instance (L : FaultLayout) (ev : Event) : Decidable (ev.Proper L) := by
  cases ev <;> unfold Event.Proper <;> infer_instance

/-- Every attempt keeps what the flat memory knows. -/
theorem attempt_transparent {ev : Event} (hstores : pf.StoresPages) (hremoves : pf.RemovesPages)
    (hproper : ev.Proper L) (h : Transparent L pf s flat)
    (hattempt : s.attempt L pf buffering ev = some s') :
    Transparent L pf s' (after flat s ev) := by
  refine ⟨attempt_managed h.toManaged hattempt, ?_⟩
  have hfault : ∀ {env va unset}, ¬s.Mapped env va →
      s.faultHandler L pf buffering true env va unset = some s' →
      Cache.Faithful flat.byPage s'.Dirty (pages pf s') := by
    intro env va unset hnon hfault
    rcases faultHandler_cases hfault with ⟨t, hfinds⟩ | ⟨-, hpage⟩
    · exact faithful_findsPageTable h.owned h.faithful hfinds
    · exact faithful_pageFault hstores h.owned h.pageRepAlgoType (h.workingSets env) h.faithful
        hnon hpage
  cases ev with
  | load env va unset =>
    simp only [attempt] at hattempt
    split_ifs at hattempt with hm
    · obtain rfl := Option.some.inj hattempt
      exact faithful_load hm h.faithful
    · exact hfault hm hattempt
  | store env va byte unset =>
    simp only [attempt] at hattempt
    simp only [after]
    split_ifs at hattempt ⊢ with hm
    · obtain rfl := Option.some.inj hattempt
      exact faithful_store h.owned byte hm h.faithful
    · exact hfault hm hattempt
  | allocateMem env va size noSpace =>
    exact faithful_allocateMem hstores hproper.1 h.faithful hattempt
  | freeMem env va size => exact faithful_freeMem hremoves hproper.1 h.faithful hattempt

/-! ## What the flat memory is at first -/

/-- The bytes of the resident pages, and those of the copies of the others. -/
def standsFor (pf : PageFile P) (s : UserMemory P) : FlatMemory :=
  fun env va => (logicalContent pf s env (roundDown va pageSize)).map (· (va % pageSize))

/-- The resident pages that are not modified have their bytes in the page file. -/
def CleanCopies (pf : PageFile P) (s : UserMemory P) : Prop :=
  ∀ env va, va % pageSize = 0 → s.Mapped env va →
    isModified (s.ptGetPagePermissions env va) = false →
      pf.readEnvPage s.pageFile env va = some (s.bytes (s.frameOf env va))

theorem standsFor_byPage {k : Nat × Nat} {o : Nat} {b : BitVec 8}
    (h : (standsFor pf s).byPage k o = some b) :
    ∃ contents, (pages pf s).content k = some contents ∧ contents o = b := by
  unfold byPage standsFor at h
  split_ifs at h with hlt
  have hpage : roundDown (k.2 * pageSize + o) pageSize = k.2 * pageSize := by
    refine eq_of_div_eq (roundDown_mod _ _) (Nat.mul_mod_left _ _) ?_
    rw [roundDown_div]
    unfold pageSize at *
    omega
  have hoffset : (k.2 * pageSize + o) % pageSize = o := by
    unfold pageSize at *
    omega
  rw [hpage, hoffset, logicalContent_eq (Nat.mul_mod_left _ _), div_mul_pageSize] at h
  exact Option.map_eq_some_iff.1 h

theorem standsFor_faithful (hclean : CleanCopies pf s) :
    Cache.Faithful (standsFor pf s).byPage s.Dirty (pages pf s) := by
  refine ⟨standsFor_byPage, fun {k o b} hb hk hdirty => ?_⟩
  obtain ⟨contents, hcontents, rfl⟩ := standsFor_byPage hb
  refine ⟨contents, ?_, rfl⟩
  by_cases hm : s.Mapped k.1 (k.2 * pageSize)
  · have hcached : (pages pf s).cached k = some (s.bytes (s.frameOf k.1 (k.2 * pageSize))) :=
      if_pos hm
    rw [Cache.content_of_cached hcached] at hcontents
    rw [← hcontents]
    exact hclean _ _ (Nat.mul_mod_left _ _) hm (Bool.eq_false_iff.2 hdirty)
  · have hnone : (pages pf s).cached k = none := if_neg hm
    rw [hnone] at hk
    cases hk

/-- A byte that is known is in its page, resident or not. -/
theorem Transparent.known (h : Transparent L pf s flat) {b : BitVec 8}
    (hb : flat env va = some b) :
    (∃ contents, logicalContent pf s env (roundDown va pageSize) = some contents ∧
      contents (va % pageSize) = b) ∧ (s.Mapped env va → s.byteAt env va = b) := by
  have hround : roundDown va pageSize % pageSize = 0 := roundDown_mod va pageSize
  have hbyte := flat.byPage_eq env va
  rw [hb] at hbyte
  refine ⟨?_, fun hm => ?_⟩
  · rw [logicalContent_eq hround, roundDown_div]
    exact h.faithful.content hbyte
  · have hm' : s.Mapped env (roundDown va pageSize) := (mapped_congr (roundDown_div va)).2 hm
    have hcached := cached_of_mapped pf hround hm'
    rw [roundDown_div] at hcached
    rw [byteAt, ← h.faithful.cached hbyte hcached, frameOf, frameOf,
      userEntry_of_div_eq (roundDown_div va)]

end UserMemory

/-- User memory, and the flat memory that it stands for. -/
structure VirtualMemory (P : Type) where
  memory : UserMemory P
  flat : FlatMemory

namespace VirtualMemory

open UserMemory (Event Transparent Managed)

variable {P : Type} {L : FaultLayout} {pf : PageFile P} {buffering : Bool} {v : VirtualMemory P}
  {s₀ : UserMemory P} {events : List Event}

/-- An event, in user memory and in the flat memory it stands for. -/
def step (L : FaultLayout) (pf : PageFile P) (buffering : Bool) (v : VirtualMemory P) (ev : Event) :
    Option (VirtualMemory P) :=
  (v.memory.attempt L pf buffering ev).map fun s => ⟨s, UserMemory.after v.flat v.memory ev⟩

/-- The stack of the small memory lies below the kernel. -/
def smallFaultLayout : FaultLayout where
  toUserLayout := UserMemory.smallUserLayout
  kernelStackTop := 0xF0000000
  kernelStackSize := 0x8000
  userLimit := 0xEF800000

theorem smallUserMemory_managed (size : Nat → Nat) :
    Managed smallFaultLayout (UserMemory.smallUserMemory size) :=
  ⟨UserMemory.smallUserMemory_framesOwned size, rfl, UserMemory.smallUserMemory_ok size⟩

/-- One slot : a byte of the stack is stored, and its page leaves memory and comes back. -/
def storeAndLoad : List Event :=
  [.load 0 0xEEBFD123 0, .store 0 0xEEBFD123 7#8 0, .store 0 0xEEBFD123 7#8 0,
    .store 0 0xEEBFC000 9#8 0, .store 0 0xEEBFC000 9#8 0, .load 0 0xEEBFD123 0]

end VirtualMemory

end FosKernel
