import FosKernel.BootPaging
import FosKernel.ShareRange

/-!
# `boot_map_range`

`boot_map_range` goes over the pages of its range. For each one `boot_get_page_table` finds the
page table or takes the next frame of boot memory for it (`MapsPages.getTable`), and the entry is
written (`MapsPages.write`). `MapsPages` is what has changed after some pages : the page tables
made are the frames from the first free one on, in the order of their directory entries
(`madeFrame`), and a word of a page table is the entry of its page, or what it was.

A page table that is made is not cleared, so what boot memory had in the other words is mapped
then. `mapsRange_iff` is when it is not, for both kernels.
-/

namespace FosKernel

namespace Boot

variable {l : Layout} {v : Variant} {n d i j k t p f N F : Nat} {s s' : State} {e : Entry}

/-! ## Boot directories -/

/-- The page table of directory entry `i`, for `boot_get_page_table`. -/
def bootTableOf (w : Words) (d i : Nat) : Option Nat :=
  if extractAddress (w d i) = 0#32 then none else some (frameNumber (w d i))

/-- The directory entry of a page table made in frame `F`. -/
def bootTable (F : Nat) : Entry :=
  constructEntry (toPhysicalAddress F) (permPresent ||| permWriteable)

/-- The page table for directory entry `i` is made in frame `F`. -/
def State.withTable (l : Layout) (d i F : Nat) (s : State) : State :=
  { ptrFreeMem := l.kernelBase + 4096 * (F + 1)
    words := writeWord s.words d i (bootTable F)
    allocated := (l.kernelBase + 4096 * F, pageSize) :: s.allocated }

/-- The directory in frame `d` and its page tables lie below frame `F`, the next of boot memory;
its entries are present or name no page table, and no two name one, other than the windows. -/
structure BootDirectory (l : Layout) (d F : Nat) (s : State) : Prop where
  free : roundUp (if s.ptrFreeMem = 0 then l.endOfKernel else s.ptrFreeMem) pageSize =
    l.kernelBase + 4096 * F
  directory : d < F
  absent : ∀ i < 1024, bootTableOf s.words d i = none → ¬IsPresent (s.words d i)
  present : ∀ i < 1024, ∀ t, bootTableOf s.words d i = some t → IsPresent (s.words d i) ∧ t < F
  apart : ∀ i < 1024, ∀ k < 1024, ∀ t, bootTableOf s.words d i = some t →
    bootTableOf s.words d k = some t → t = d ∨ i = k

/-- Boot memory and the frames reach to frame `F`. -/
def Reaches (l : Layout) (n F : Nat) : Prop :=
  F ≤ n ∧ l.kernelBase + 4096 * F < 4294967296

theorem toPhysicalAddress_eq (f : Nat) : toPhysicalAddress f = BitVec.ofNat 32 (4096 * f) := by
  apply BitVec.eq_of_toNat_eq
  rw [toPhysicalAddress, BitVec.toNat_shiftLeft, BitVec.toNat_ofNat, BitVec.toNat_ofNat,
    Nat.shiftLeft_eq]
  omega

theorem bootTableOf_eq_some {w : Words} : bootTableOf w d i = some t ↔
    extractAddress (w d i) ≠ 0#32 ∧ frameNumber (w d i) = t := by
  unfold bootTableOf
  split <;> simp_all

theorem bootTableOf_eq_none {w : Words} :
    bootTableOf w d i = none ↔ extractAddress (w d i) = 0#32 := by
  unfold bootTableOf
  split <;> simp_all

theorem isPresent_bootTable (F : Nat) : IsPresent (bootTable F) := by
  have hperm : permPresent ||| permWriteable = permWriteable ||| permPresent := by decide
  rw [bootTable, hperm]
  exact isPresent_constructEntry _ _

theorem frameNumber_bootTable (hF : F < 1048576) : frameNumber (bootTable F) = F :=
  frameNumber_constructEntry hF (by decide)

/-- The table made is found. -/
theorem bootTableOf_bootTable {w : Words} (hpos : 0 < F) (hF : F < 1048576)
    (hw : w d i = bootTable F) : bootTableOf w d i = some F := by
  have hperm : IsPerm (permPresent ||| permWriteable) := by decide
  refine bootTableOf_eq_some.2 ⟨fun hzero => ?_, hw ▸ frameNumber_bootTable hF⟩
  rw [hw, bootTable, extractAddress_constructEntry F hperm] at hzero
  have hppn := congrArg ppn hzero
  rw [ppn_toPhysicalAddress hF] at hppn
  have hppn0 : ppn 0#32 = 0 := rfl
  omega

theorem Reaches.lt (h : Reaches l n F) : F < 1048576 := by
  have := h.2
  omega

theorem Reaches.mono {F' : Nat} (h : Reaches l n F) (hle : F' ≤ F) : Reaches l n F' :=
  ⟨hle.trans h.1, by have := h.2; omega⟩

theorem bootTableOf_withTable (hpos : 0 < F) (hF : F < 1048576) (k : Nat) :
    bootTableOf (s.withTable l d i F).words d k =
      if k = i then some F else bootTableOf s.words d k := by
  have hword : (s.withTable l d i F).words d k =
      if k = i then bootTable F else s.words d k := by
    refine (writeWord_apply _ _ _ _ _ _).trans ?_
    simp
  split
  · next hki => exact bootTableOf_bootTable hpos hF (hword.trans (if_pos hki))
  · next hki => rw [bootTableOf, hword, if_neg hki, bootTableOf]

namespace BootDirectory

/-- An entry is written to a page table. -/
theorem setWord (h : BootDirectory l d F s) (htd : t ≠ d) (j : Nat) (e : Entry) :
    BootDirectory l d F (s.setWord t j e) := by
  have hword : ∀ i, (s.setWord t j e).words d i = s.words d i := fun i => by
    refine (writeWord_apply _ _ _ _ _ _).trans (if_neg fun hc => htd hc.1.symm)
  refine ⟨h.free, h.directory, fun i hi => ?_, fun i hi => ?_, fun i hi k hk => ?_⟩
  · rw [bootTableOf, hword]
    exact h.absent i hi
  · rw [bootTableOf, hword]
    exact h.present i hi
  · rw [bootTableOf, bootTableOf, hword, hword]
    exact h.apart i hi k hk

/-- A page table is made in the next frame. -/
theorem withTable (h : BootDirectory l d F s) (hreach : Reaches l n (F + 1)) (i : Nat) :
    BootDirectory l d (F + 1) (s.withTable l d i F) := by
  have hpos : 0 < F := Nat.zero_lt_of_lt h.directory
  have hF : F < 1048576 := Nat.lt_of_succ_lt hreach.lt
  have htable := bootTableOf_withTable (l := l) (d := d) (i := i) (s := s) hpos hF
  have hword : ∀ k, (s.withTable l d i F).words d k =
      if k = i then bootTable F else s.words d k := fun k => by
    refine (writeWord_apply _ _ _ _ _ _).trans ?_
    simp
  refine ⟨?_, Nat.lt_succ_of_lt h.directory, fun k hk hnone => ?_, fun k hk t ht => ?_,
    fun k hk k' hk' t ht ht' => ?_⟩
  · have hbase := l.kernelBase_gt
    have hmod := l.kernelBase_mod
    have hend := hreach.2
    have hptr : (s.withTable l d i F).ptrFreeMem = l.kernelBase + 4096 * (F + 1) := rfl
    rw [hptr, if_neg (by omega)]
    unfold roundUp roundDown u32 pageSize
    omega
  · rw [htable] at hnone
    split at hnone
    · cases hnone
    · next hki =>
      rw [hword, if_neg hki]
      exact h.absent k hk hnone
  · rw [htable] at ht
    rw [hword]
    split at ht
    · next hki =>
      obtain rfl := Option.some.inj ht
      rw [if_pos hki]
      exact ⟨isPresent_bootTable F, Nat.lt_succ_self F⟩
    · next hki =>
      rw [if_neg hki]
      exact (h.present k hk t ht).imp_right Nat.lt_succ_of_lt
  · rw [htable] at ht ht'
    split at ht <;> split at ht'
    · next hki hki' => exact Or.inr (hki.trans hki'.symm)
    · obtain rfl := Option.some.inj ht
      exact absurd (h.present k' hk' _ ht').2 (lt_irrefl F)
    · obtain rfl := Option.some.inj ht'
      exact absurd (h.present k hk _ ht).2 (lt_irrefl F)
    · exact h.apart k hk k' hk' t ht ht'

/-- `boot_get_page_table` of a page table that is there. -/
theorem bootGetPageTable_found {va : Nat} (ht : bootTableOf s.words d (pdx va) = some t)
    (hlt : t < n) : bootGetPageTable l v n d va true s = some (some t, s) := by
  obtain ⟨hne, hframe⟩ := bootTableOf_eq_some.1 ht
  have hvirtual : kVirtualFrame n (extractAddress (s.words d (pdx va))) = some t := by
    rw [kVirtualFrame, ← frameNumber, hframe, if_pos hlt]
  unfold bootGetPageTable
  dsimp only
  rw [if_neg hne, hvirtual]
  rfl

/-- `boot_get_page_table` of one that is not. -/
theorem bootGetPageTable_made (h : BootDirectory l d F s) (hreach : Reaches l n (F + 1))
    (hv : v.rounding pageSize = pageSize) {va : Nat}
    (hnone : bootTableOf s.words d (pdx va) = none) :
    bootGetPageTable l v n d va true s = some (some F, s.withTable l d (pdx va) F) := by
  have hpage : pageSize ≠ 0 := by decide
  have hend : u32 (l.kernelBase + 4096 * F + pageSize) = l.kernelBase + 4096 * (F + 1) := by
    have := hreach.2
    unfold u32 pageSize
    omega
  have hphys : kPhysicalAddress l (l.kernelBase + 4096 * F) = some (4096 * F) := by
    rw [kPhysicalAddress_eq_some]
    omega
  have hframe : 4096 * F / pageSize = F := Nat.mul_div_cancel_left F (by decide)
  unfold bootGetPageTable bootAllocateSpace
  simp only [bootTableOf_eq_none.1 hnone, if_true, hv, if_neg hpage, h.free, hend,
    Option.bind_eq_bind, Option.bind_some, hphys, hframe, ← toPhysicalAddress_eq]
  rfl

end BootDirectory

/-! ## The loop -/

/-- The directory entries for `N` pages from `p` on that have no page table. -/
def missingTables (d : Nat) (s : State) (p N : Nat) : Finset Nat :=
  absentTables (fun i => bootTableOf s.words d i = none) p N

theorem missingTables_succ : missingTables d s p (N + 1) =
    if bootTableOf s.words d ((p + N) / 1024) = none
    then insert ((p + N) / 1024) (missingTables d s p N) else missingTables d s p N :=
  absentTables_succ

/-- The frame of the page table made for directory entry `i` : before it come those of the
entries before, from the one of page `p` on. -/
def madeFrame (d F p : Nat) (s : State) (i : Nat) : Nat :=
  F + (missingTables d s p (1024 * i - p)).card

/-- The entry of page `q`, where page `p` is mapped to frame `f`. -/
def rangeEntry (perm : BitVec 32) (p f q : Nat) : Entry :=
  constructEntry (toPhysicalAddress (f + (q - p))) (perm ||| permPresent)

/-- After the page tables `made`, and `N` pages from `p` on. -/
structure MapsPages (l : Layout) (d F : Nat) (perm : BitVec 32) (p f : Nat) (made : Finset Nat)
    (N : Nat) (s s' : State) : Prop where
  directory : BootDirectory l d (F + made.card) s'
  missing : ∀ i ∈ made, bootTableOf s.words d i = none
  table : ∀ i ∈ made, s'.words d i = bootTable (madeFrame d F p s i) ∧
    bootTableOf s'.words d i = some (madeFrame d F p s i)
  same : ∀ i, i ∉ made → s'.words d i = s.words d i
  entries : ∀ i < 1024, ∀ j < 1024, ∀ t, bootTableOf s'.words d i = some t → t ≠ d →
    s'.words t j = if p ≤ 1024 * i + j ∧ 1024 * i + j < p + N
      then rangeEntry perm p f (1024 * i + j) else s.words t j
  fresh : ∀ t, F + made.card ≤ t → ∀ j, s'.words t j = s.words t j

namespace MapsPages

variable {made : Finset Nat} {perm : BitVec 32} (h : MapsPages l d F perm p f made N s s')

include h

theorem bootTableOf_eq (hi : i ∉ made) : bootTableOf s'.words d i = bootTableOf s.words d i := by
  rw [bootTableOf, h.same i hi, bootTableOf]

/-- The next page table is made. -/
theorem getTable (hreach : Reaches l n (F + made.card + 1)) (hi : i ∉ made)
    (hnone : bootTableOf s'.words d i = none) (hframe : madeFrame d F p s i = F + made.card)
    (hout : ∀ j < 1024, ¬(p ≤ 1024 * i + j ∧ 1024 * i + j < p + N)) :
    MapsPages l d F perm p f (insert i made) N s (s'.withTable l d i (F + made.card)) := by
  have hlt := h.directory.directory
  have hpos : 0 < F + made.card := Nat.zero_lt_of_lt hlt
  have hF : F + made.card < 1048576 := Nat.lt_of_succ_lt hreach.lt
  have htable := bootTableOf_withTable (l := l) (d := d) (i := i) (s := s') hpos hF
  have hwords : ∀ t j, (s'.withTable l d i (F + made.card)).words t j =
      if t = d ∧ j = i then bootTable (F + made.card) else s'.words t j :=
    fun t j => writeWord_apply _ _ _ _ _ _
  have hcard : F + (insert i made).card = F + made.card + 1 := by
    rw [Finset.card_insert_of_notMem hi]
    omega
  refine ⟨hcard ▸ h.directory.withTable hreach i, fun k hk => ?_, fun k hk => ?_, fun k hk => ?_,
    fun k hk j hj t ht htd => ?_, fun t ht j => ?_⟩
  · rcases Finset.mem_insert.1 hk with rfl | hk
    · rw [← h.bootTableOf_eq hi, hnone]
    · exact h.missing k hk
  · rw [hwords, htable]
    rcases Finset.mem_insert.1 hk with rfl | hk
    · rw [if_pos ⟨rfl, rfl⟩, if_pos rfl, hframe]
      exact ⟨rfl, rfl⟩
    · have hki : k ≠ i := fun heq => hi (heq ▸ hk)
      rw [if_neg fun hc => hki hc.2, if_neg hki]
      exact h.table k hk
  · obtain ⟨hki, hk⟩ := not_or.1 (Finset.mem_insert.not.1 hk)
    rw [hwords, if_neg fun hc => hki hc.2, h.same k hk]
  · rw [htable] at ht
    rw [hwords, if_neg fun hc => htd hc.1]
    split at ht
    · next hki =>
      obtain rfl := Option.some.inj ht
      rw [hki, if_neg (hout j hj)]
      exact h.fresh _ le_rfl j
    · exact h.entries k hk j hj t ht htd
  · rw [hcard] at ht
    rw [hwords, if_neg fun hc => by omega, h.fresh t (by omega)]

/-- The next page is written. -/
theorem write (hi : (p + N) / 1024 < 1024) (ht : bootTableOf s'.words d ((p + N) / 1024) = some t)
    (htd : t ≠ d) :
    MapsPages l d F perm p f made (N + 1) s
      (s'.setWord t ((p + N) % 1024) (rangeEntry perm p f (p + N))) := by
  have hwords : ∀ g j, (s'.setWord t ((p + N) % 1024) (rangeEntry perm p f (p + N))).words g j =
      if g = t ∧ j = (p + N) % 1024 then rangeEntry perm p f (p + N) else s'.words g j :=
    fun g j => writeWord_apply _ _ _ _ _ _
  have hword : ∀ i, (s'.setWord t ((p + N) % 1024) (rangeEntry perm p f (p + N))).words d i =
      s'.words d i := fun i => by rw [hwords, if_neg fun hc => htd hc.1.symm]
  have htable : ∀ i, bootTableOf (s'.setWord t ((p + N) % 1024)
      (rangeEntry perm p f (p + N))).words d i = bootTableOf s'.words d i := fun i => by
    rw [bootTableOf, hword, bootTableOf]
  have hlt := (h.directory.present _ hi t ht).2
  refine ⟨h.directory.setWord htd _ _, h.missing, fun i hi => ?_, fun i hi => ?_,
    fun k hk j hj g hg hgd => ?_, fun g hg j => ?_⟩
  · rw [hword, htable]
    exact h.table i hi
  · rw [hword, h.same i hi]
  · rw [htable] at hg
    rw [hwords, h.entries k hk j hj g hg hgd]
    -- a word of the table is one page
    have hat : (g = t ∧ j = (p + N) % 1024) ↔ 1024 * k + j = p + N := by
      constructor
      · rintro ⟨rfl, rfl⟩
        rcases h.directory.apart k hk _ hi g hg ht with hgd' | rfl
        · exact absurd hgd' hgd
        · omega
      · intro heq
        have hk' : k = (p + N) / 1024 := by omega
        subst hk'
        exact ⟨Option.some.inj (hg.symm.trans ht), by omega⟩
    by_cases heq : 1024 * k + j = p + N
    · rw [if_pos (hat.2 heq), if_pos (by omega), heq]
    · rw [if_neg (hat.not.2 heq)]
      exact if_congr (by omega) rfl rfl
  · rw [hwords, if_neg fun hc => by omega, h.fresh g hg]

end MapsPages

theorem MapsPages.refl {perm : BitVec 32} (h : BootDirectory l d F s) :
    MapsPages l d F perm p f ∅ 0 s s :=
  ⟨h, fun i hi => absurd hi (Finset.notMem_empty i), fun i hi => absurd hi (Finset.notMem_empty i),
    fun _ _ => rfl, fun i _ j _ t _ _ => by rw [if_neg (by omega)], fun _ _ _ => rfl⟩

/-- A trip of the loop of `boot_map_range`. -/
def bootMapPage (l : Layout) (v : Variant) (n directory : Nat) (perm : BitVec 32)
    (virtualAddress physicalAddress : Nat) (s : State) : Option State := do
  let (ptrPageTable, s) ← bootGetPageTable l v n directory virtualAddress true s
  let table ← ptrPageTable
  some (s.setWord table (ptx virtualAddress)
    (constructEntry (BitVec.ofNat 32 physicalAddress) (perm ||| permPresent)))

theorem bootMapRangeLoop_cons (perm : BitVec 32) (trips va pa : Nat) (s : State) :
    bootMapRangeLoop l v n d perm (trips + 1) va pa s = (bootMapPage l v n d perm va pa s).bind
      (bootMapRangeLoop l v n d perm trips (u32 (va + pageSize)) (u32 (pa + pageSize))) := by
  rw [bootMapRangeLoop, bootMapPage]
  cases bootGetPageTable l v n d va true s with
  | none => rfl
  | some r =>
    obtain ⟨ptrPageTable, s'⟩ := r
    cases ptrPageTable <;> rfl

/-- The address of the page after. -/
theorem u32_add_pageSize (p : Nat) : u32 (u32 (4096 * p) + pageSize) = u32 (4096 * (p + 1)) := by
  unfold u32 pageSize
  omega

/-- The loop with its last trip apart. -/
theorem bootMapRangeLoop_succ (perm : BitVec 32) :
    ∀ (N p f : Nat) (s : State),
      bootMapRangeLoop l v n d perm (N + 1) (u32 (4096 * p)) (u32 (4096 * f)) s =
        (bootMapRangeLoop l v n d perm N (u32 (4096 * p)) (u32 (4096 * f)) s).bind
          (bootMapPage l v n d perm (u32 (4096 * (p + N))) (u32 (4096 * (f + N))))
  | 0, p, f, s => by
    have hlast : (bootMapPage l v n d perm (u32 (4096 * p)) (u32 (4096 * f)) s).bind
        (bootMapRangeLoop l v n d perm 0 (u32 (u32 (4096 * p) + pageSize))
          (u32 (u32 (4096 * f) + pageSize))) =
        bootMapPage l v n d perm (u32 (4096 * p)) (u32 (4096 * f)) s := by
      cases bootMapPage l v n d perm (u32 (4096 * p)) (u32 (4096 * f)) s <;> rfl
    rw [bootMapRangeLoop_cons, hlast]
    rfl
  | N + 1, p, f, s => by
    rw [bootMapRangeLoop_cons, u32_add_pageSize, u32_add_pageSize, bootMapRangeLoop_cons,
      u32_add_pageSize, u32_add_pageSize]
    cases bootMapPage l v n d perm (u32 (4096 * p)) (u32 (4096 * f)) s with
    | none => simp only [Option.bind_none]
    | some s' =>
      have hrest := bootMapRangeLoop_succ perm N (p + 1) (f + 1) s'
      rw [Nat.add_right_comm p, Nat.add_right_comm f] at hrest
      exact hrest

variable {perm : BitVec 32}

theorem pdx_page (hp : p < 1048576) : pdx (u32 (4096 * p)) = p / 1024 := by
  unfold pdx u32
  omega

theorem ptx_page (p : Nat) : ptx (u32 (4096 * p)) = p % 1024 := by
  unfold ptx u32
  omega

/-- The entry that a trip writes, with the physical address as it wraps. -/
theorem rangeEntry_add (perm : BitVec 32) (p f N : Nat) :
    constructEntry (BitVec.ofNat 32 (u32 (4096 * (f + N)))) (perm ||| permPresent) =
      rangeEntry perm p f (p + N) := by
  have hmod : BitVec.ofNat 32 (u32 (4096 * (f + N))) = BitVec.ofNat 32 (4096 * (f + N)) := by
    apply BitVec.eq_of_toNat_eq
    rw [BitVec.toNat_ofNat, BitVec.toNat_ofNat, u32]
    omega
  rw [hmod, ← toPhysicalAddress_eq, rangeEntry, Nat.add_sub_cancel_left]

/-- The page table of the next page was there, or was made for a page before. -/
theorem MapsPages.getPageTable_found
    (h : MapsPages l d F perm p f (missingTables d s p N) N s s') (hd : d < F)
    (hreach : Reaches l n (F + (missingTables d s p (N + 1)).card)) (hfits : p + N < 1048576)
    (hwindow : bootTableOf s.words d ((p + N) / 1024) ≠ some d)
    (ht : bootTableOf s'.words d ((p + N) / 1024) = some t) :
    bootGetPageTable l v n d (u32 (4096 * (p + N))) true s' = some (some t, s') ∧ t ≠ d ∧
      missingTables d s p (N + 1) = missingTables d s p N := by
  obtain ⟨-, hlt⟩ := h.directory.present _ (by omega) t ht
  have hn : t < n := by
    have hcard : (missingTables d s p N).card ≤ (missingTables d s p (N + 1)).card :=
      Finset.card_le_card (absentTables_mono _ p (Nat.le_succ N))
    have := hreach.1
    omega
  refine ⟨BootDirectory.bootGetPageTable_found ((pdx_page hfits).symm ▸ ht) hn, ?_⟩
  rw [missingTables_succ]
  by_cases hmem : (p + N) / 1024 ∈ missingTables d s p N
  · have hframe := Option.some.inj (ht.symm.trans (h.table _ hmem).2)
    rw [madeFrame] at hframe
    exact ⟨by omega, by rw [if_pos (h.missing _ hmem), Finset.insert_eq_of_mem hmem]⟩
  · have hold := h.bootTableOf_eq hmem
    rw [ht] at hold
    refine ⟨fun htd => hwindow (hold.symm.trans (htd ▸ rfl)), if_neg ?_⟩
    rw [← hold]
    exact Option.some_ne_none t

/-- The page table of the next page is made. -/
theorem MapsPages.getPageTable_made (hv : v.rounding pageSize = pageSize) (hd : d < F)
    (h : MapsPages l d F perm p f (missingTables d s p N) N s s')
    (hreach : Reaches l n (F + (missingTables d s p (N + 1)).card)) (hfits : p + N < 1048576)
    (ht : bootTableOf s'.words d ((p + N) / 1024) = none) :
    ∃ g s₁, bootGetPageTable l v n d (u32 (4096 * (p + N))) true s' = some (some g, s₁) ∧
      bootTableOf s₁.words d ((p + N) / 1024) = some g ∧ g ≠ d ∧
      MapsPages l d F perm p f (missingTables d s p (N + 1)) N s s₁ := by
  have hpdx := pdx_page hfits
  have hmem : (p + N) / 1024 ∉ missingTables d s p N := fun hmem => by
    have hsome := (h.table _ hmem).2
    rw [ht] at hsome
    cases hsome
  have hnone : bootTableOf s.words d ((p + N) / 1024) = none :=
    (h.bootTableOf_eq hmem).symm.trans ht
  -- so no page before has this directory entry
  have hfirst : ∀ q, p ≤ q → q < p + N → q / 1024 ≠ (p + N) / 1024 := fun q hle hlt heq =>
    hmem (mem_absentTables.2 ⟨⟨q, hle, hlt, heq⟩, hnone⟩)
  have hmade : missingTables d s p (N + 1) = insert ((p + N) / 1024) (missingTables d s p N) := by
    rw [missingTables_succ, if_pos hnone]
  have hpages : 1024 * ((p + N) / 1024) - p = N := by
    rcases Nat.eq_zero_or_pos N with rfl | hpos
    · omega
    · have := hfirst (p + N - 1) (by omega) (by omega)
      omega
  have hframe : madeFrame d F p s ((p + N) / 1024) = F + (missingTables d s p N).card := by
    rw [madeFrame, hpages]
  rw [hmade, Finset.card_insert_of_notMem hmem] at hreach
  have hgets := h.getTable hreach hmem ht hframe fun j hj hmem =>
    hfirst _ hmem.1 hmem.2 (by omega)
  have hget := BootDirectory.bootGetPageTable_made (v := v) h.directory hreach hv (hpdx.symm ▸ ht)
  rw [hpdx] at hget
  have hpos : 0 < F + (missingTables d s p N).card := by omega
  refine ⟨_, _, hget, ?_, by omega, hmade ▸ hgets⟩
  exact (bootTableOf_withTable hpos (Nat.lt_of_succ_lt hreach.lt) _).trans (if_pos rfl)

/-- One page more. -/
theorem MapsPages.bootMapPage (hv : v.rounding pageSize = pageSize) (hd : d < F)
    (h : MapsPages l d F perm p f (missingTables d s p N) N s s')
    (hreach : Reaches l n (F + (missingTables d s p (N + 1)).card)) (hfits : p + N < 1048576)
    (hwindow : bootTableOf s.words d ((p + N) / 1024) ≠ some d) :
    ∃ s'', bootMapPage l v n d perm (u32 (4096 * (p + N))) (u32 (4096 * (f + N))) s' = some s'' ∧
      MapsPages l d F perm p f (missingTables d s p (N + 1)) (N + 1) s s'' := by
  obtain ⟨t, s₁, hget, ht, htd, hs₁⟩ : ∃ t s₁,
      bootGetPageTable l v n d (u32 (4096 * (p + N))) true s' = some (some t, s₁) ∧
        bootTableOf s₁.words d ((p + N) / 1024) = some t ∧ t ≠ d ∧
        MapsPages l d F perm p f (missingTables d s p (N + 1)) N s s₁ := by
    cases ht : bootTableOf s'.words d ((p + N) / 1024) with
    | some t =>
      obtain ⟨hget, htd, hsame⟩ := h.getPageTable_found (v := v) hd hreach hfits hwindow ht
      exact ⟨t, s', hget, ht, htd, hsame ▸ h⟩
    | none => exact h.getPageTable_made hv hd hreach hfits ht
  refine ⟨_, ?_, hs₁.write (by omega) ht htd⟩
  rw [Boot.bootMapPage, hget, ptx_page, rangeEntry_add perm p]
  rfl

/-- The loop maps the pages of the range. -/
theorem bootMapRangeLoop_mapsPages (perm : BitVec 32) (hv : v.rounding pageSize = pageSize)
    (h : BootDirectory l d F s) :
    ∀ N, Reaches l n (F + (missingTables d s p N).card) → p + N ≤ 1048576 →
      (∀ q, p ≤ q → q < p + N → bootTableOf s.words d (q / 1024) ≠ some d) →
      ∃ s', bootMapRangeLoop l v n d perm N (u32 (4096 * p)) (u32 (4096 * f)) s = some s' ∧
        MapsPages l d F perm p f (missingTables d s p N) N s s'
  | 0, _, _, _ => by
    have hempty : missingTables d s p 0 = ∅ := by simp [missingTables, absentTables]
    exact ⟨s, rfl, hempty ▸ MapsPages.refl h⟩
  | N + 1, hreach, hfits, hwindows => by
    have hcard : (missingTables d s p N).card ≤ (missingTables d s p (N + 1)).card :=
      Finset.card_le_card (absentTables_mono _ p (Nat.le_succ N))
    obtain ⟨s₁, hloop, hs⟩ := bootMapRangeLoop_mapsPages perm hv h N
      (hreach.mono (Nat.add_le_add_left hcard F)) (by omega)
      fun q hle hlt => hwindows q hle (by omega)
    rw [bootMapRangeLoop_succ, hloop]
    exact hs.bootMapPage hv h.directory hreach (by omega) (hwindows _ (by omega) (by omega))

/-! ## The translation -/

/-- The physical address and the permissions that a page-table entry gives. -/
def translate (e : Entry) (offset : Nat) : Option (BitVec 32 × BitVec 32) :=
  if IsPresent e then some (extractAddress e + BitVec.ofNat 32 offset, e &&& permMask) else none

/-- The walk of the directory and its page tables. -/
def walk (w : Words) (d va : Nat) : Option (BitVec 32 × BitVec 32) :=
  let pde := w d (pdx va)
  if IsPresent pde then translate (w (frameNumber pde) (ptx va)) (va % pageSize) else none

theorem translate_eq_none : translate e i = none ↔ ¬IsPresent e := by
  unfold translate
  split <;> simp_all

theorem pdx_lt {va : Nat} (hva : va < 4294967296) : pdx va < 1024 := by
  unfold pdx
  omega

theorem ptx_lt (va : Nat) : ptx va < 1024 :=
  Nat.mod_lt _ (by decide)

theorem BootDirectory.walk_of_none (h : BootDirectory l d F s) {va : Nat} (hva : va < 4294967296)
    (hnone : bootTableOf s.words d (pdx va) = none) : walk s.words d va = none :=
  if_neg (h.absent _ (pdx_lt hva) hnone)

theorem BootDirectory.walk_of_some (h : BootDirectory l d F s) {va : Nat} (hva : va < 4294967296)
    (ht : bootTableOf s.words d (pdx va) = some t) :
    walk s.words d va = translate (s.words t (ptx va)) (va % pageSize) := by
  unfold walk
  rw [if_pos (h.present _ (pdx_lt hva) t ht).1, (bootTableOf_eq_some.1 ht).2]

/-- The range is mapped to `pa` on, and every other address is translated as before. -/
structure MapsRange (d : Nat) (perm : BitVec 32) (va size pa : Nat) (s s' : State) : Prop where
  mapped : ∀ k < size,
    walk s'.words d (va + k) = some (BitVec.ofNat 32 (pa + k), perm ||| permPresent)
  others : ∀ a < 4294967296, ¬(va ≤ a ∧ a < va + size) → walk s'.words d a = walk s.words d a

/-- The page tables to be made have nothing present outside the range, and are shown by no
window. -/
structure LeavesUnmapped (d F p N : Nat) (s : State) : Prop where
  clear : ∀ i ∈ missingTables d s p N, ∀ j < 1024, ¬(p ≤ 1024 * i + j ∧ 1024 * i + j < p + N) →
    ¬IsPresent (s.words (madeFrame d F p s i) j)
  window : missingTables d s p N = ∅ ∨ ∀ i < 1024, bootTableOf s.words d i ≠ some d

theorem lt_of_mem_missingTables (hfits : p + N ≤ 1048576) (hi : i ∈ missingTables d s p N) :
    i < 1024 ∧ bootTableOf s.words d i = none := by
  obtain ⟨⟨q, -, hlt, rfl⟩, hnone⟩ := mem_absentTables.1 hi
  exact ⟨by omega, hnone⟩

/-- The address of an entry. -/
theorem entryAddress (hi : i < 1024) (hj : j < 1024) : 4096 * (1024 * i + j) < 4294967296 ∧
    pdx (4096 * (1024 * i + j)) = i ∧ ptx (4096 * (1024 * i + j)) = j := by
  unfold pdx ptx
  omega

/-- The page of an address, by its directory entry and its entry. -/
theorem pageIndex_eq (a : Nat) : 1024 * pdx a + ptx a = a / 4096 := by
  unfold pdx ptx
  omega

section Translation

variable (hd : BootDirectory l d F s)
  (h : MapsPages l d F perm p f (missingTables d s p N) N s s')
  (hwindows : ∀ q, p ≤ q → q < p + N → bootTableOf s.words d (q / 1024) ≠ some d)

include hd h

/-- A page table made is not the directory. -/
theorem MapsPages.table_made (hi : i ∈ missingTables d s p N) :
    bootTableOf s'.words d i = some (madeFrame d F p s i) ∧ madeFrame d F p s i ≠ d := by
  refine ⟨(h.table i hi).2, ?_⟩
  have := hd.directory
  rw [madeFrame]
  omega

theorem MapsPages.walk_of_made {a : Nat} (ha : a < 4294967296)
    (hi : pdx a ∈ missingTables d s p N) (hout : ¬(p ≤ a / 4096 ∧ a / 4096 < p + N)) :
    walk s'.words d a =
      translate (s.words (madeFrame d F p s (pdx a)) (ptx a)) (a % pageSize) := by
  obtain ⟨ht, htd⟩ := h.table_made hd hi
  rw [h.directory.walk_of_some ha ht, h.entries _ (pdx_lt ha) _ (ptx_lt a) _ ht htd, pageIndex_eq,
    if_neg hout]

/-- An address outside the range, if nothing is left in the page tables made. -/
theorem MapsPages.walk_other (hfits : p + N ≤ 1048576) (hleaves : LeavesUnmapped d F p N s)
    {a : Nat} (ha : a < 4294967296) (hout : ¬(p ≤ a / 4096 ∧ a / 4096 < p + N)) :
    walk s'.words d a = walk s.words d a := by
  cases ht : bootTableOf s.words d (pdx a) with
  | some t =>
    have hi : pdx a ∉ missingTables d s p N := fun hmem => by
      cases ht.symm.trans (lt_of_mem_missingTables hfits hmem).2
    have ht' := (h.bootTableOf_eq hi).trans ht
    rw [h.directory.walk_of_some ha ht', hd.walk_of_some ha ht]
    by_cases htd : t = d
    · -- a page of a window
      have hk : ptx a ∉ missingTables d s p N := by
        rcases hleaves.window with hempty | hnone
        · rw [hempty]
          exact Finset.notMem_empty _
        · exact absurd (htd ▸ ht) (hnone _ (pdx_lt ha))
      rw [htd, h.same _ hk]
    · rw [h.entries _ (pdx_lt ha) _ (ptx_lt a) t ht' htd, pageIndex_eq, if_neg hout]
  | none =>
    rw [hd.walk_of_none ha ht]
    by_cases hi : pdx a ∈ missingTables d s p N
    · rw [h.walk_of_made hd ha hi hout, translate_eq_none]
      exact hleaves.clear _ hi _ (ptx_lt a) ((pageIndex_eq a).symm ▸ hout)
    · exact h.directory.walk_of_none ha ((h.bootTableOf_eq hi).trans ht)

/-- A word left in a page table that is made is seen. -/
theorem MapsPages.clear_of_others (hfits : p + N ≤ 1048576)
    (hothers : ∀ a < 4294967296, ¬(4096 * p ≤ a ∧ a < 4096 * p + 4096 * N) →
      walk s'.words d a = walk s.words d a) (hi : i ∈ missingTables d s p N) (hj : j < 1024)
    (hout : ¬(p ≤ 1024 * i + j ∧ 1024 * i + j < p + N)) :
    ¬IsPresent (s.words (madeFrame d F p s i) j) := by
  obtain ⟨hi', hnone⟩ := lt_of_mem_missingTables hfits hi
  obtain ⟨hlt, hpdx, hptx⟩ := entryAddress hi' hj
  have hsame := hothers _ hlt (by omega)
  rw [h.walk_of_made hd hlt (hpdx.symm ▸ hi) (by omega), hpdx, hptx,
    hd.walk_of_none hlt (hpdx.symm ▸ hnone)] at hsame
  exact translate_eq_none.1 hsame

include hwindows

/-- The addresses of the range. -/
theorem MapsPages.walk_range (hp : IsPerm perm) (hfits : p + N ≤ 1048576) {k : Nat}
    (hk : k < 4096 * N) :
    walk s'.words d (4096 * p + k) =
      some (BitVec.ofNat 32 (4096 * f + k), perm ||| permPresent) := by
  have hlt : 4096 * p + k < 4294967296 := by omega
  have hpage : 1024 * pdx (4096 * p + k) + ptx (4096 * p + k) = p + k / 4096 := by
    unfold pdx ptx
    omega
  have hpdx : pdx (4096 * p + k) = (p + k / 4096) / 1024 := by
    unfold pdx
    omega
  have htable : ∃ t, bootTableOf s'.words d (pdx (4096 * p + k)) = some t ∧ t ≠ d := by
    by_cases hi : pdx (4096 * p + k) ∈ missingTables d s p N
    · exact ⟨_, h.table_made hd hi⟩
    · have hsome : bootTableOf s.words d (pdx (4096 * p + k)) ≠ none := fun hnone =>
        hi (mem_absentTables.2 ⟨⟨p + k / 4096, by omega, by omega, hpdx.symm⟩, hnone⟩)
      obtain ⟨t, ht⟩ := Option.ne_none_iff_exists'.1 hsome
      refine ⟨t, (h.bootTableOf_eq hi).trans ht, fun htd => ?_⟩
      exact hwindows (p + k / 4096) (by omega) (by omega) (hpdx ▸ htd ▸ ht)
  obtain ⟨t, ht, htd⟩ := htable
  rw [h.directory.walk_of_some hlt ht, h.entries _ (pdx_lt hlt) _ (ptx_lt _) t ht htd, hpage,
    if_pos (by omega), rangeEntry, Nat.add_sub_cancel_left]
  have hperm : IsPerm (perm ||| permPresent) := hp.or (by decide)
  have hoffset : 4096 * (f + k / 4096) + (4096 * p + k) % pageSize = 4096 * f + k := by
    unfold pageSize
    omega
  rw [translate, if_pos (isPresent_constructEntry _ _), extractAddress_constructEntry _ hperm,
    constructEntry_and_permMask _ hperm, toPhysicalAddress_eq, ← BitVec.ofNat_add, hoffset]

/-- A window shows a page table that is made. -/
theorem MapsPages.window_of_others (hfits : p + N ≤ 1048576)
    (hothers : ∀ a < 4294967296, ¬(4096 * p ≤ a ∧ a < 4096 * p + 4096 * N) →
      walk s'.words d a = walk s.words d a) (hk : k ∈ missingTables d s p N) (hi : i < 1024) :
    bootTableOf s.words d i ≠ some d := by
  intro hself
  obtain ⟨hk', hnone⟩ := lt_of_mem_missingTables hfits hk
  obtain ⟨hlt, hpdx, hptx⟩ := entryAddress hi hk'
  have hi' : i ∉ missingTables d s p N := fun hmem => by
    cases hself.symm.trans (lt_of_mem_missingTables hfits hmem).2
  have hout : ¬(p ≤ 1024 * i + k ∧ 1024 * i + k < p + N) := fun hin => by
    have hdiv : (1024 * i + k) / 1024 = i := by omega
    exact hwindows _ hin.1 hin.2 (hdiv.symm ▸ hself)
  have hsame := hothers _ hlt (by omega)
  rw [h.directory.walk_of_some hlt (hpdx.symm ▸ (h.bootTableOf_eq hi').trans hself),
    hd.walk_of_some hlt (hpdx.symm ▸ hself), hptx, (h.table k hk).1,
    translate_eq_none.2 (hd.absent k hk' hnone), translate_eq_none] at hsame
  exact hsame (isPresent_bootTable _)

/-- The other addresses are translated as before exactly so. -/
theorem MapsPages.others_iff (hfits : p + N ≤ 1048576) :
    (∀ a < 4294967296, ¬(4096 * p ≤ a ∧ a < 4096 * p + 4096 * N) →
        walk s'.words d a = walk s.words d a) ↔ LeavesUnmapped d F p N s := by
  constructor
  · intro hothers
    refine ⟨fun i hi j hj hout => h.clear_of_others hd hfits hothers hi hj hout,
      or_iff_not_imp_left.2 fun hne i hi => ?_⟩
    obtain ⟨k, hk⟩ := Finset.nonempty_iff_ne_empty.2 hne
    exact h.window_of_others hd hwindows hfits hothers hk hi
  · exact fun hleaves a ha hout => h.walk_other hd hfits hleaves ha (by omega)

end Translation

/-- For the two kernels the range is that of the loop. -/
theorem bootMapRange_eq (hv : v = .root ∨ v = .kern) (hp : p < 1048576) (hf : f < 1048576)
    (hsize : 4096 * N < 2147483648) (perm : BitVec 32) (s : State) :
    v.rounding pageSize = pageSize ∧
      bootMapRange l v n d (4096 * p) (4096 * N) (4096 * f) perm s =
        bootMapRangeLoop l v n d perm N (u32 (4096 * p)) (u32 (4096 * f)) s := by
  have htrips : (4096 * N + (pageSize - 1)) / pageSize = N := by
    unfold pageSize
    omega
  have hle : 4096 * N ≤ 4294967296 - pageSize := by
    unfold pageSize
    omega
  have hva : u32 (4096 * p) = 4096 * p := by
    unfold u32
    omega
  have hpa : u32 (4096 * f) = 4096 * f := by
    unfold u32
    omega
  rw [bootMapRange, if_pos hle, htrips, hva, hpa]
  rcases hv with rfl | rfl
  · exact ⟨rfl, rfl⟩
  · have hround : Variant.kern.mapsFrom (4096 * f) = 4096 * f := by
      change roundUp (4096 * f) pageSize = 4096 * f
      unfold roundUp roundDown u32 pageSize
      omega
    rw [hround]
    exact ⟨rfl, rfl⟩

/-- When `boot_map_range` maps its range and nothing else, in both kernels, for a range outside
the windows and boot memory enough for its page tables. -/
theorem bootMapRange_iff (hv : v = .root ∨ v = .kern) (h : BootDirectory l d F s)
    (hreach : Reaches l n (F + (missingTables d s p N).card)) (hp : p < 1048576)
    (hf : f < 1048576) (hsize : 4096 * N < 2147483648) (hfits : p + N ≤ 1048576)
    (hwindows : ∀ q, p ≤ q → q < p + N → bootTableOf s.words d (q / 1024) ≠ some d)
    (perm : BitVec 12) :
    (∃ s', bootMapRange l v n d (4096 * p) (4096 * N) (4096 * f) (perm.setWidth 32) s = some s' ∧
        MapsRange d (perm.setWidth 32) (4096 * p) (4096 * N) (4096 * f) s s') ↔
      LeavesUnmapped d F p N s := by
  obtain ⟨hround, heq⟩ := bootMapRange_eq (l := l) (n := n) (d := d) hv hp hf hsize
    (perm.setWidth 32) s
  obtain ⟨s', hloop, hs⟩ := bootMapRangeLoop_mapsPages (f := f) (perm.setWidth 32) hround h N
    hreach hfits hwindows
  have hothers := hs.others_iff h hwindows hfits
  rw [heq, hloop]
  constructor
  · rintro ⟨s'', hs'', hmaps⟩
    obtain rfl := Option.some.inj hs''
    exact hothers.1 hmaps.others
  · intro hleaves
    exact ⟨s', rfl, fun k hk => hs.walk_range h hwindows (isPerm_setWidth perm) hfits hk,
      hothers.2 hleaves⟩

/-- The page directory is allocated and cleared, and the frame after it has the words `left`. -/
def afterDirectory (left : Nat → Entry) : State where
  ptrFreeMem := 0xF0119000
  words f i := if f = 0x119 then left i else 0#32
  allocated := [(0xF0118000, 4096)]

theorem afterDirectory_word (left : Nat → Entry) (i : Nat) :
    (afterDirectory left).words 0x118 i = 0#32 := by
  simp [afterDirectory]

theorem afterDirectory_bootTableOf (left : Nat → Entry) (i : Nat) :
    bootTableOf (afterDirectory left).words 0x118 i = none :=
  bootTableOf_eq_none.2 (by rw [afterDirectory_word]; rfl)

theorem afterDirectory_directory (left : Nat → Entry) :
    BootDirectory fosLayout 0x118 0x119 (afterDirectory left) := by
  have hfree : roundUp (if 0xF0119000 = 0 then fosLayout.endOfKernel else 0xF0119000) pageSize =
      fosLayout.kernelBase + 4096 * 0x119 := by decide
  refine ⟨hfree, by decide, fun i _ _ => ?_, fun i _ t ht => ?_, fun i _ k _ t ht => ?_⟩
  · rw [afterDirectory_word]
    exact not_isPresent_zero
  · cases (afterDirectory_bootTableOf left i).symm.trans ht
  · cases (afterDirectory_bootTableOf left i).symm.trans ht

/-- The kernel stack needs one page table. -/
theorem afterDirectory_missingTables (left : Nat → Entry) :
    missingTables 0x118 (afterDirectory left) 0xEFBF8 8 = {0x3BE} := by
  ext i
  rw [missingTables, mem_absentTables, Finset.mem_singleton]
  constructor
  · rintro ⟨⟨q, hle, hlt, rfl⟩, -⟩
    omega
  · rintro rfl
    exact ⟨⟨0xEFBF8, by omega, by omega, rfl⟩, afterDirectory_bootTableOf left _⟩

/-- The kernel stack is mapped, with boot memory that was clear. -/
theorem afterDirectory_mapsRange :
    ∃ s', bootMapRange fosLayout .kern 1024 0x118 (4096 * 0xEFBF8) (4096 * 8) (4096 * 0x110)
        ((2#12).setWidth 32) (afterDirectory fun _ => 0#32) = some s' ∧
      MapsRange 0x118 ((2#12).setWidth 32) (4096 * 0xEFBF8) (4096 * 8) (4096 * 0x110)
        (afterDirectory fun _ => 0#32) s' := by
  refine (bootMapRange_iff (F := 0x119) (.inr rfl) (afterDirectory_directory _) ?_ (by omega)
    (by omega) (by omega) (by omega) (fun q _ _ => ?_) 2#12).2
    ⟨fun i _ j _ _ => ?_, .inr fun i _ => ?_⟩
  · rw [afterDirectory_missingTables, Finset.card_singleton]
    exact ⟨by omega, by decide⟩
  · rw [afterDirectory_bootTableOf]
    exact (Option.some_ne_none _).symm
  · have hzero : (afterDirectory fun _ => 0#32).words = fun _ _ => 0#32 := by
      ext f k : 2
      exact ite_self _
    rw [hzero]
    exact not_isPresent_zero
  · rw [afterDirectory_bootTableOf]
    exact (Option.some_ne_none _).symm

/-- With a word left in boot memory that reads as an entry, a page below the kernel stack is
mapped with it. -/
theorem bootMapRange_counterexample :
    ∃ s', bootMapRange fosLayout .kern 1024 0x118 (4096 * 0xEFBF8) (4096 * 8) (4096 * 0x110)
        permWriteable (afterDirectory fun i => if i = 5 then 0x7007#32 else 0#32) = some s' ∧
      bootMapRange fosLayout .root 1024 0x118 (4096 * 0xEFBF8) (4096 * 8) (4096 * 0x110)
        permWriteable (afterDirectory fun i => if i = 5 then 0x7007#32 else 0#32) = some s' ∧
      walk (afterDirectory fun i => if i = 5 then 0x7007#32 else 0#32).words 0x118 0xEF805000 =
        none ∧
      walk s'.words 0x118 0xEF805000 = some (0x7000#32, 0x007#32) ∧
      ¬MapsRange 0x118 permWriteable (4096 * 0xEFBF8) (4096 * 8) (4096 * 0x110)
        (afterDirectory fun i => if i = 5 then 0x7007#32 else 0#32) s' := by
  have hnew : (bootMapRange fosLayout .kern 1024 0x118 (4096 * 0xEFBF8) (4096 * 8) (4096 * 0x110)
      permWriteable (afterDirectory fun i => if i = 5 then 0x7007#32 else 0#32)).map
        (fun s' => walk s'.words 0x118 0xEF805000) = some (some (0x7000#32, 0x007#32)) := by
    decide +kernel
  have hold : walk (afterDirectory fun i => if i = 5 then 0x7007#32 else 0#32).words 0x118
      0xEF805000 = none := by decide
  obtain ⟨s', hs', hwalk⟩ := Option.map_eq_some_iff.1 hnew
  refine ⟨s', hs', hs', hold, hwalk, fun hmaps => ?_⟩
  cases hwalk.symm.trans ((hmaps.others 0xEF805000 (by decide) (by decide)).trans hold)

end Boot

end FosKernel
