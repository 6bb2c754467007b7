import FosKernel.ConnectPage
import Mathlib.Data.Finset.Card
import Mathlib.Order.Interval.Finset.Nat

/-!
# `ShareRangeWithPermissions`

The loop copies the entries of the source range one page at a time, and makes the page tables of
the destination on its way. `MakesTables` is what it has done to the directory after some pages.
Two directory entries may name one page table, and then a page has another entry than before
because a page with the same entry was shared : `Shareable` is that the pages which have an
entry of the destination are all to have the same one.

`pagesRange` is the number of pages of the range, but one more for a size that is no multiple of
four (`toNat_pagesRangeOf`), so the page after the range is shared too. `sharesRange_iff` is when
the range is shared and nothing else, given that the frames which are taken are in use by nobody
(`FreeFrames`) : it is `Shareable`, and the page after it does no harm, as the entry it is given is
the one it has, and both its page tables are there or can be made.
-/

namespace FosKernel

/-- The directory entries for `N` pages from `p` on of which `absent` holds. -/
def absentTables (absent : Nat → Prop) [DecidablePred absent] (p N : Nat) : Finset Nat :=
  ((Finset.Ico p (p + N)).image (· / 1024)).filter absent

theorem mem_absentTables {absent : Nat → Prop} [DecidablePred absent] {p N i : Nat} :
    i ∈ absentTables absent p N ↔ (∃ q, p ≤ q ∧ q < p + N ∧ q / 1024 = i) ∧ absent i := by
  simp [absentTables, and_assoc]

theorem absentTables_succ {absent : Nat → Prop} [DecidablePred absent] {p N : Nat} :
    absentTables absent p (N + 1) = if absent ((p + N) / 1024)
      then insert ((p + N) / 1024) (absentTables absent p N) else absentTables absent p N := by
  have hico : Finset.Ico p (p + (N + 1)) = insert (p + N) (Finset.Ico p (p + N)) := by
    ext q
    rw [Finset.mem_insert, Finset.mem_Ico, Finset.mem_Ico]
    omega
  rw [absentTables, hico, Finset.image_insert, Finset.filter_insert, absentTables]

theorem absentTables_mono (absent : Nat → Prop) [DecidablePred absent] (p : Nat) {M N : Nat}
    (hle : M ≤ N) : absentTables absent p M ⊆ absentTables absent p N := by
  intro i hi
  obtain ⟨⟨q, hlo, hlt, heq⟩, habsent⟩ := mem_absentTables.1 hi
  exact mem_absentTables.2 ⟨⟨q, hlo, by omega, heq⟩, habsent⟩

namespace KernMemory

variable {n d t i j k g K : Nat} {m m' m₁ : KernMemory} {va va1 va2 : BitVec 32} {e : Entry}
  {premission : Char}

/-! ## Free frames -/

/-- The first `K` free frames are frames of memory, each once, and none is the directory or one of
its page tables. -/
structure FreeFrames (n d K : Nat) (m : KernMemory) : Prop where
  nodup : (m.freeFrameList.take K).Nodup
  free : ∀ g ∈ m.freeFrameList.take K, NotTable n d m g

/-- Without a free frame there is no new page table. -/
theorem getPageTableVA_noMem (hlt : frameNumber (m.words d (pdx va.toNat)) < n)
    (hnone : tableOf m.words d (pdx va.toNat) = none) (hnil : m.freeFrameList = []) :
    m.getPageTableVA n d va true = some (none, m) := by
  rw [tableOf_eq_none.1 hnone] at hlt
  have hvirtual : Boot.kVirtualFrame n (extractAddress 0#32) = some (frameNumber 0#32) :=
    if_pos hlt
  simp [getPageTableVA, getPageTable, hvirtual, tableOf_eq_none.1 hnone, allocateFrame, hnil]

namespace FreeFrames

theorem mono {K' : Nat} (h : FreeFrames n d K m) (hle : K' ≤ K) : FreeFrames n d K' m :=
  ⟨h.nodup.sublist (List.take_sublist_take_left hle),
    fun g hg => h.free g (List.take_subset_take_left _ hle hg)⟩

/-- A word of a page table. -/
theorem setWord (h : FreeFrames n d K m) (htd : t ≠ d) (j : Nat) (e : Entry) :
    FreeFrames n d K (m.setWord t j e) := by
  refine ⟨h.nodup, fun g hg => ⟨(h.free g hg).lt, (h.free g hg).ne, fun i hi => ?_⟩⟩
  rw [tableOf_setWord htd]
  exact (h.free g hg).notTable i hi

/-- The first of them is made a page table, and the others are left. -/
theorem withTable (hn : n ≤ 1048576) (h : FreeFrames n d (K + 1) m) {rest : List Nat}
    (hl : m.freeFrameList = g :: rest) : FreeFrames n d K (m.withTable d i g rest) := by
  have hnd := h.nodup
  have hfree := h.free
  rw [hl, List.take_succ_cons] at hnd hfree
  have hnot := hfree g List.mem_cons_self
  refine ⟨(List.nodup_cons.1 hnd).2, fun f hf => ?_⟩
  have hold := hfree f (List.mem_cons_of_mem g hf)
  refine ⟨hold.lt, hold.ne, fun k hk => ?_⟩
  rw [tableOf_withTable hn hnot]
  split
  · exact fun heq => (List.nodup_cons.1 hnd).1 (Option.some.inj heq ▸ hf)
  · exact hold.notTable k hk

theorem findsTable (hn : n ≤ 1048576)
    (h : FreeFrames n d (K + if tableOf m.words d i = none then 1 else 0) m)
    (hfinds : FindsTable n d m i t m') : FreeFrames n d K m' := by
  cases hfinds with
  | found ht =>
    rw [if_neg (ht ▸ Option.some_ne_none t), Nat.add_zero] at h
    exact h
  | made ht hl hnot =>
    rw [if_pos ht] at h
    exact h.withTable hn hl

end FreeFrames

/-- The page table is in memory, or there is none and a frame for it. -/
theorem hasTable_of_or (h : tableOf m.words d i = none → FreeFrames n d 1 m)
    (hor : (∃ t < n, tableOf m.words d i = some t) ∨
      tableOf m.words d i = none ∧ m.freeFrameList ≠ []) : HasTable n d m i := by
  refine hor.imp_right fun ⟨hnone, hne⟩ => ?_
  obtain ⟨g, rest, hl⟩ := List.exists_cons_of_ne_nil hne
  refine ⟨hnone, g, rest, hl, (h hnone).free g ?_⟩
  rw [hl]
  exact List.mem_cons_self

/-- The lookup that creates does not panic where the directory entry names a frame of memory, and
makes at most a page table. -/
theorem exists_getPageTableVA (hn : n ≤ 1048576)
    (h : tableOf m.words d (pdx va.toNat) = none → FreeFrames n d 1 m)
    (hlt : frameNumber (m.words d (pdx va.toNat)) < n) :
    ∃ table m', m.getPageTableVA n d va true = some (table, m') ∧
      ∀ va' : BitVec 32, tableOf m.words d (pdx va'.toNat) ≠ some d →
        m'.pageEntryOf d va' = m.pageEntryOf d va' := by
  by_cases hor : (∃ t < n, tableOf m.words d (pdx va.toNat) = some t) ∨
      tableOf m.words d (pdx va.toNat) = none ∧ m.freeFrameList ≠ []
  · obtain ⟨t, m', -, hfinds, hget⟩ := exists_findsTable hn (hasTable_of_or h hor)
    refine ⟨some t, m', hget, fun va' hwindow => ?_⟩
    rw [pageEntryOf, hfinds.entryAt_eq hn (pdx_lt va'), if_neg fun hc => hwindow hc.2.1,
      pageEntryOf]
  · obtain ⟨hnot, hnil⟩ := not_or.1 hor
    have hnone : tableOf m.words d (pdx va.toNat) = none := by
      cases ht : tableOf m.words d (pdx va.toNat) with
      | none => rfl
      | some t => exact absurd ⟨t, (tableOf_eq_some.1 ht).2 ▸ hlt, ht⟩ hnot
    exact ⟨none, m, getPageTableVA_noMem hlt hnone (not_not.1 fun hne => hnil ⟨hnone, hne⟩),
      fun _ _ => rfl⟩

/-! ## Directories -/

/-- A page directory : its page tables are in memory, no two entries name one, other than the
windows, and no free frame is one. -/
structure Directory (n d : Nat) (m : KernMemory) : Prop
    extends FreeFrames n d m.freeFrameList.length m where
  memory : ∀ i < 1024, frameNumber (m.words d i) < n
  apart : ∀ i < 1024, ∀ k < 1024, ∀ t, tableOf m.words d i = some t →
    tableOf m.words d k = some t → t = d ∨ i = k

namespace Directory

/-- The page table that an entry names is in memory. -/
theorem lt (h : Directory n d m) (hi : i < 1024) (ht : tableOf m.words d i = some t) : t < n :=
  (tableOf_eq_some.1 ht).2 ▸ h.memory i hi

/-- A page table that is there is one in memory. -/
theorem exists_lt (h : Directory n d m) (hi : i < 1024) (hsome : tableOf m.words d i ≠ none) :
    ∃ t < n, tableOf m.words d i = some t := by
  obtain ⟨t, ht⟩ := Option.ne_none_iff_exists'.1 hsome
  exact ⟨t, h.lt hi ht, ht⟩

/-- None of the free frames is a page table. -/
theorem freeFrames (h : Directory n d m) (K : Nat) : FreeFrames n d K m := by
  have hfree := h.toFreeFrames
  rcases Nat.le_total K m.freeFrameList.length with hle | hle
  · exact hfree.mono hle
  · have hall : m.freeFrameList.take K = m.freeFrameList.take m.freeFrameList.length := by
      rw [List.take_of_length_le hle, List.take_length]
    exact ⟨hall ▸ hfree.nodup, hall ▸ hfree.free⟩

/-- Where there is a free frame, or no need of one. -/
theorem hasTable (h : Directory n d m) (hi : i < 1024)
    (hor : tableOf m.words d i ≠ none ∨ m.freeFrameList ≠ []) : HasTable n d m i := by
  refine hasTable_of_or (fun _ => h.freeFrames 1) ?_
  by_cases hnone : tableOf m.words d i = none
  · exact Or.inr ⟨hnone, hor.resolve_left fun hne => hne hnone⟩
  · exact Or.inl (h.exists_lt hi hnone)

/-- The lookup that does not create. -/
theorem getPageTableVA_lookup (h : Directory n d m) (va : BitVec 32) :
    m.getPageTableVA n d va false = some (tableOf m.words d (pdx va.toNat), m) := by
  rw [getPageTableVA, getPageTable_lookup, if_pos (h.memory _ (pdx_lt va))]
  rfl

end Directory

/-! ## Pages with one entry -/

theorem SameEntry.refl (va : BitVec 32) : SameEntry d m va va :=
  ⟨Or.inl rfl, rfl⟩

/-- All the addresses of a page have one entry. -/
theorem SameEntry.of_page {va va' : BitVec 32} (hpage : va'.toNat / 4096 = va.toNat / 4096) :
    SameEntry d m va va' :=
  ⟨Or.inl (by rw [pdx_of_page hpage, pdx_of_page rfl]),
    by rw [ptx_of_page hpage, ptx_of_page rfl]⟩

theorem SameEntry.pageEntryOf_eq {va va' : BitVec 32} (h : SameEntry d m va va') :
    m.pageEntryOf d va' = m.pageEntryOf d va := by
  obtain ⟨htable, hptx⟩ := h
  have hsame : tableOf m.words d (pdx va'.toNat) = tableOf m.words d (pdx va.toNat) := by
    rcases htable with hpdx | ⟨t, ht, ht'⟩
    · rw [hpdx]
    · rw [ht, ht']
  rw [pageEntryOf, pageEntryOf, entryAt, entryAt, hsame, hptx]

/-- Pages with one entry are in the windows together. -/
theorem SameEntry.tableOf_ne {va va' : BitVec 32} (h : SameEntry d m va va')
    (hwindow : tableOf m.words d (pdx va.toNat) ≠ some d) :
    tableOf m.words d (pdx va'.toNat) ≠ some d := by
  rcases h.1 with hpdx | ⟨t, ht, ht'⟩
  · rwa [hpdx]
  · rwa [ht', ← ht]

/-- In a directory, outside the windows, two pages with one entry are one page. -/
theorem Directory.page_eq (h : Directory n d m) {va va' : BitVec 32}
    (hwindow : tableOf m.words d (pdx va.toNat) ≠ some d) (hsame : SameEntry d m va va') :
    va'.toNat / 4096 = va.toNat / 4096 := by
  obtain ⟨htable, hptx⟩ := hsame
  have hpdx : pdx va'.toNat = pdx va.toNat := by
    rcases htable with hpdx | ⟨t, ht, ht'⟩
    · exact hpdx
    · rcases h.apart _ (pdx_lt va') _ (pdx_lt va) t ht' ht with rfl | hpdx
      · exact absurd ht hwindow
      · exact hpdx
  unfold pdx at hpdx
  unfold ptx at hptx
  omega

/-- The page tables of `m` are those of `m'`, and no two entries name one that did not before. -/
structure KeepsTables (d : Nat) (m m' : KernMemory) : Prop where
  kept : ∀ i t, tableOf m.words d i = some t → tableOf m'.words d i = some t
  apart : ∀ i < 1024, ∀ k < 1024, ∀ t, tableOf m'.words d i = some t →
    tableOf m'.words d k = some t →
      i = k ∨ tableOf m.words d i = some t ∧ tableOf m.words d k = some t

theorem KeepsTables.refl (d : Nat) (m : KernMemory) : KeepsTables d m m :=
  ⟨fun _ _ ht => ht, fun _ _ _ _ _ ht ht' => Or.inr ⟨ht, ht'⟩⟩

theorem KeepsTables.trans (h : KeepsTables d m m₁) (h' : KeepsTables d m₁ m') :
    KeepsTables d m m' := by
  refine ⟨fun i t ht => h'.kept i t (h.kept i t ht), fun i hi k hk t ht ht' => ?_⟩
  exact (h'.apart i hi k hk t ht ht').elim Or.inl fun hold => h.apart i hi k hk t hold.1 hold.2

/-- Two pages have one entry as they did before. -/
theorem KeepsTables.sameEntry_iff (h : KeepsTables d m m') {va va' : BitVec 32} :
    SameEntry d m' va va' ↔ SameEntry d m va va' := by
  refine and_congr_left fun _ => ⟨fun htable => ?_, fun htable => ?_⟩
  · rcases htable with hpdx | ⟨t, ht, ht'⟩
    · exact Or.inl hpdx
    · exact (h.apart _ (pdx_lt va) _ (pdx_lt va') t ht ht').imp Eq.symm fun hold => ⟨t, hold⟩
  · exact htable.imp_right fun ⟨t, ht, ht'⟩ => ⟨t, h.kept _ t ht, h.kept _ t ht'⟩

theorem FindsTable.keepsTables (hn : n ≤ 1048576) (h : FindsTable n d m i t m') :
    KeepsTables d m m' := by
  refine ⟨fun _ _ => h.tableOf_of_some hn, fun k hk k' hk' t' ht ht' => ?_⟩
  cases h with
  | found _ => exact Or.inr ⟨ht, ht'⟩
  | made hnone hl hnot =>
    rw [tableOf_withTable hn hnot] at ht ht'
    split at ht <;> split at ht'
    · next hki hki' => exact Or.inl (hki.trans hki'.symm)
    · exact absurd (ht'.trans ht.symm) (hnot.notTable k' hk')
    · exact absurd (ht.trans ht'.symm) (hnot.notTable k hk)
    · exact Or.inr ⟨ht, ht'⟩

theorem KeepsTables.setWord (h : KeepsTables d m m') (htd : t ≠ d) (j : Nat) (e : Entry) :
    KeepsTables d m (m'.setWord t j e) := by
  refine ⟨fun i t' ht => ?_, fun i hi k hk t' => ?_⟩
  · rw [tableOf_setWord htd]
    exact h.kept i t' ht
  · rw [tableOf_setWord htd, tableOf_setWord htd]
    exact h.apart i hi k hk t'

/-! ## One page -/

/-- What sharing the page of `va1` at `va2` leaves. -/
structure SharesPage (n d : Nat) (premission : Char) (va1 va2 : BitVec 32) (m m' : KernMemory) :
    Prop where
  free : ∀ {K}, FreeFrames n d
    (K + if tableOf m.words d (pdx va2.toNat) = none then 1 else 0) m → FreeFrames n d K m'
  tables : KeepsTables d m m'
  /-- The page, and each page that has its entry. -/
  shared : ∀ va, SameEntry d m va2 va →
    m'.pageEntryOf d va = withPremission premission (m.pageEntryOf d va1)
  others : ∀ va, ¬SameEntry d m va2 va → tableOf m.words d (pdx va.toNat) ≠ some d →
    m'.pageEntryOf d va = m.pageEntryOf d va
  kept : ∀ i, i ≠ pdx va2.toNat → tableOf m'.words d i = tableOf m.words d i
  found : ∀ t, tableOf m.words d (pdx va2.toNat) = some t → m'.freeFrameList = m.freeFrameList
  made : tableOf m.words d (pdx va2.toNat) = none →
    ∃ t < n, t ≠ d ∧ tableOf m'.words d (pdx va2.toNat) = some t ∧
      m.freeFrameList = t :: m'.freeFrameList

/-- A page is shared where its source has a page table, and it has one or gets one. -/
theorem sharePage_sharesPage (premission : Char) (va1 va2 : BitVec 32) (hn : n ≤ 1048576)
    (hsource : ∃ t < n, tableOf m.words d (pdx va1.toNat) = some t)
    (hwindow1 : tableOf m.words d (pdx va1.toNat) ≠ some d)
    (htable : HasTable n d m (pdx va2.toNat))
    (hwindow2 : tableOf m.words d (pdx va2.toNat) ≠ some d) :
    ∃ m', m.sharePage n d premission va1 va2 = .ok m' ∧
      SharesPage n d premission va1 va2 m m' := by
  obtain ⟨t1, hlt1, ht1⟩ := hsource
  obtain ⟨t2, m₂, hlt2, hfinds, hget⟩ := exists_findsTable hn htable
  have htd := hfinds.ne hwindow2
  have hget1 : m.getPageTableVA n d va1 false = some (some t1, m) := by
    rw [getPageTableVA, getPageTable_found ht1 hlt1]
    rfl
  -- the source has the entry that it had
  have hentry : m₂.words t1 (ptx va1.toNat) = m.pageEntryOf d va1 := by
    have hold : entryAt m₂.words d (pdx va1.toNat) (ptx va1.toNat) = m.pageEntryOf d va1 := by
      rw [hfinds.entryAt_eq hn (pdx_lt va1), if_neg fun hc => hwindow1 hc.2.1, pageEntryOf]
    have ht1' : tableOf m₂.words d (pdx va1.toNat) = some t1 :=
      hfinds.tableOf_of_some hn ht1
    rw [← hold, entryAt_of_some ht1']
  refine ⟨m₂.setWord t2 (ptx va2.toNat) (withPremission premission (m.pageEntryOf d va1)), ?_, ?_⟩
  · unfold sharePage
    simp only [hget1, hget, setPremission_setWord, hentry]
  · refine ⟨fun h => (h.findsTable hn hfinds).setWord htd _ _,
      (hfinds.keepsTables hn).setWord htd _ _,
      fun va hsame => pageEntryOf_write_same hn hfinds htd hsame, fun va hsame hwindow => ?_,
      fun i hi => ?_, fun t ht => hfinds.freeFrameList_of_some ht, fun hnone => ?_⟩
    · exact pageEntryOf_write_other hn hfinds htd hsame fun hshows => hwindow hshows.2.1
    · rw [tableOf_setWord htd, hfinds.tableOf_of_ne hn hi]
    · cases hfinds with
      | found ht => exact absurd (hnone.symm.trans ht) (Option.some_ne_none t2).symm
      | made ht hl hnot =>
        refine ⟨t2, hlt2, htd, ?_, hl⟩
        rw [tableOf_setWord htd, tableOf_withTable hn hnot, if_pos rfl]

namespace SharesPage

variable (hs : SharesPage n d premission va1 va2 m m')

include hs

theorem tableOf_of_none (hnone : tableOf m.words d i = none) (ht : tableOf m'.words d i = some t) :
    t < n ∧ t ≠ d := by
  by_cases hi : i = pdx va2.toNat
  · subst hi
    obtain ⟨t', hlt, htd, ht', -⟩ := hs.made hnone
    obtain rfl := Option.some.inj (ht'.symm.trans ht)
    exact ⟨hlt, htd⟩
  · rw [hs.kept i hi, hnone] at ht
    cases ht

/-- No entry becomes a window. -/
theorem window (ht : tableOf m'.words d i = some d) : tableOf m.words d i = some d := by
  cases hold : tableOf m.words d i with
  | none => exact absurd rfl (hs.tableOf_of_none hold ht).2
  | some t => rw [← ht, hs.tables.kept i t hold]

/-- The page has a page table, and the other entries have none where they had none. -/
theorem tableOf_eq_none : tableOf m'.words d i = none ↔
    tableOf m.words d i = none ∧ i ≠ pdx va2.toNat := by
  by_cases hi : i = pdx va2.toNat
  · have hsome : tableOf m'.words d i ≠ none := by
      subst hi
      cases htable : tableOf m.words d (pdx va2.toNat) with
      | none =>
        obtain ⟨t, -, -, ht, -⟩ := hs.made htable
        exact ht ▸ Option.some_ne_none t
      | some t => exact hs.tables.kept _ t htable ▸ Option.some_ne_none t
    exact iff_of_false hsome fun hc => hc.2 hi
  · rw [hs.kept i hi, and_iff_left hi]

/-- The one frame that is taken is for a page table. -/
theorem length_freeFrameList : m'.freeFrameList.length +
    (if tableOf m.words d (pdx va2.toNat) = none then 1 else 0) = m.freeFrameList.length := by
  cases htable : tableOf m.words d (pdx va2.toNat) with
  | none =>
    obtain ⟨t, -, -, -, hl⟩ := hs.made htable
    rw [if_pos rfl, hl, List.length_cons]
  | some t => rw [if_neg (Option.some_ne_none t), hs.found t htable, Nat.add_zero]

/-- A directory is one after the page. -/
theorem directory (h : Directory n d m) : Directory n d m' := by
  refine ⟨hs.free (h.freeFrames _), fun i hi => ?_, fun i hi k hk t ht ht' => ?_⟩
  · by_cases hnone : tableOf m'.words d i = none
    · have hzero : frameNumber (m.words d i) < n := h.memory i hi
      rw [KernMemory.tableOf_eq_none.1 (hs.tableOf_eq_none.1 hnone).1] at hzero
      rwa [KernMemory.tableOf_eq_none.1 hnone]
    · obtain ⟨t, ht⟩ := Option.ne_none_iff_exists'.1 hnone
      have hlt : t < n := by
        cases hold : tableOf m.words d i with
        | none => exact (hs.tableOf_of_none hold ht).1
        | some t' =>
          obtain rfl := Option.some.inj ((hs.tables.kept i t' hold).symm.trans ht)
          exact h.lt hi hold
      rwa [(tableOf_eq_some.1 ht).2]
  · rcases hs.tables.apart i hi k hk t ht ht' with hik | ⟨hold, hold'⟩
    · exact Or.inr hik
    · exact h.apart i hi k hk t hold hold'

end SharesPage

/-- A lookup panics at a directory entry that names no frame of memory. -/
theorem getPageTableVA_lt {write : Bool} {r : Option Nat × KernMemory}
    (hget : m.getPageTableVA n d va write = some r) :
    frameNumber (m.words d (pdx va.toNat)) < n := by
  by_contra hlt
  have hvirtual : Boot.kVirtualFrame n (extractAddress (m.words d (pdx va.toNat))) = none :=
    if_neg hlt
  simp [getPageTableVA, getPageTable, hvirtual] at hget

/-- The lookup that creates finds a page table in memory, or makes it in a free frame. -/
theorem getPageTableVA_true (hget : m.getPageTableVA n d va true = some (some t, m')) :
    (∃ t < n, tableOf m.words d (pdx va.toNat) = some t) ∨
      tableOf m.words d (pdx va.toNat) = none ∧ m.freeFrameList ≠ [] := by
  have hlt := getPageTableVA_lt hget
  cases hold : tableOf m.words d (pdx va.toNat) with
  | none =>
    refine Or.inr ⟨rfl, fun hnil => ?_⟩
    cases (getPageTableVA_noMem hlt hold hnil).symm.trans hget
  | some t' => exact Or.inl ⟨t', (tableOf_eq_some.1 hold).2 ▸ hlt, rfl⟩

/-- A page is shared only so. -/
theorem sharePage_ok (hok : m.sharePage n d premission va1 va2 = .ok m') :
    (∃ t < n, tableOf m.words d (pdx va1.toNat) = some t) ∧
      ((∃ t < n, tableOf m.words d (pdx va2.toNat) = some t) ∨
        tableOf m.words d (pdx va2.toNat) = none ∧ m.freeFrameList ≠ []) := by
  unfold sharePage at hok
  split at hok
  · cases hok
  · next table1 m₁ hget1 =>
    split at hok
    · cases hok
    · next table2 m₂ hget2 =>
      split at hok
      · next t1 t2 =>
        have hlt := getPageTableVA_lt hget1
        obtain ⟨ht1, rfl⟩ := getPageTableVA_false hget1
        exact ⟨⟨t1, (tableOf_eq_some.1 ht1.symm).2 ▸ hlt, ht1.symm⟩, getPageTableVA_true hget2⟩
      · cases hok

theorem sharesPage_of_ok (hn : n ≤ 1048576)
    (h : tableOf m.words d (pdx va2.toNat) = none → FreeFrames n d 1 m)
    (hwindow1 : tableOf m.words d (pdx va1.toNat) ≠ some d)
    (hwindow2 : tableOf m.words d (pdx va2.toNat) ≠ some d)
    (hok : m.sharePage n d premission va1 va2 = .ok m') :
    SharesPage n d premission va1 va2 m m' := by
  obtain ⟨hsource, htable⟩ := sharePage_ok hok
  obtain ⟨m'', hok', hs⟩ := sharePage_sharesPage premission va1 va2 hn hsource hwindow1
    (hasTable_of_or h htable) hwindow2
  obtain rfl := Except.ok.inj (hok.symm.trans hok')
  exact hs

/-! ## The loop -/

variable {p p1 p2 N : Nat}

/-- The directory entries for `N` pages from `p` on that have no page table. -/
def missingTables (d : Nat) (m : KernMemory) (p N : Nat) : Finset Nat :=
  absentTables (fun i => tableOf m.words d i = none) p N

theorem missingTables_succ : missingTables d m p (N + 1) =
    if tableOf m.words d ((p + N) / 1024) = none
    then insert ((p + N) / 1024) (missingTables d m p N) else missingTables d m p N :=
  absentTables_succ

theorem mem_missingTables_succ (hnone : tableOf m.words d i = none) :
    i ∈ missingTables d m p (N + 1) ↔ i = (p + N) / 1024 ∨ i ∈ missingTables d m p N := by
  rw [missingTables_succ]
  split
  · exact Finset.mem_insert
  · next hsome =>
    have hne : i ≠ (p + N) / 1024 := fun heq => hsome (heq ▸ hnone)
    rw [or_iff_right hne]

/-- How many frames are taken for the page tables of `N` pages from `p` on, and that of directory
entry `i`. -/
def framesFor (d : Nat) (m : KernMemory) (p N i : Nat) : Nat :=
  (missingTables d m p N).card +
    if tableOf m.words d i = none ∧ i ∉ missingTables d m p N then 1 else 0

/-- A page counts its page table once. -/
theorem card_missingTables_succ : (missingTables d m p (N + 1)).card =
    framesFor d m p N ((p + N) / 1024) := by
  rw [missingTables_succ, framesFor]
  by_cases hnone : tableOf m.words d ((p + N) / 1024) = none
  · rw [if_pos hnone, Finset.card_insert_eq_ite]
    simp only [hnone, true_and, ite_not]
    split <;> rfl
  · rw [if_neg hnone, if_neg fun hc => hnone hc.1, Nat.add_zero]

theorem framesFor_le (hk : k < N) :
    framesFor d m p k ((p + k) / 1024) ≤ (missingTables d m p N).card :=
  card_missingTables_succ ▸ Finset.card_le_card (absentTables_mono _ p hk)

/-- The two ranges of `N` pages, with their page tables in memory, and the frames for the page
tables that the second is without. -/
structure Ranges (n d : Nat) (m : KernMemory) (p1 p2 N : Nat) : Prop where
  fits1 : p1 + N ≤ 1048576
  fits2 : p2 + N ≤ 1048576
  disjoint : p1 + N ≤ p2 ∨ p2 + N ≤ p1
  source : ∀ k < N, ∃ t < n, tableOf m.words d ((p1 + k) / 1024) = some t ∧ t ≠ d
  destination : ∀ k < N, ∀ t, tableOf m.words d ((p2 + k) / 1024) = some t → t < n ∧ t ≠ d
  frames : (missingTables d m p2 N).card ≤ m.freeFrameList.length

/-- The entry that a page is to have, with `N` pages from `p1` on shared at `p2`. -/
def sharedEntry (d : Nat) (premission : Char) (p1 p2 N : Nat) (m : KernMemory) (va : BitVec 32) :
    Entry :=
  if p2 ≤ va.toNat / 4096 ∧ va.toNat / 4096 < p2 + N then
    withPremission premission (m.pageEntryOf d (pageAddress (p1 + (va.toNat / 4096 - p2))))
  else m.pageEntryOf d va

/-- The pages that have an entry of the destination are to have the same one, and the directory
entries of the first pages name frames of memory, as they do of page tables. -/
structure Shareable (n d : Nat) (premission : Char) (p1 p2 N : Nat) (m : KernMemory) : Prop where
  first1 : frameNumber (m.words d (pdx (pageAddress p1).toNat)) < n
  first2 : frameNumber (m.words d (pdx (pageAddress p2).toNat)) < n
  aliases : ∀ k < N, ∀ va, SameEntry d m (pageAddress (p2 + k)) va →
    sharedEntry d premission p1 p2 N m va =
      sharedEntry d premission p1 p2 N m (pageAddress (p2 + k))

/-- What the loop has done to the directory after `N` pages. -/
structure MakesTables (n d : Nat) (p2 N : Nat) (m m' : KernMemory) : Prop where
  free : ∀ {K}, FreeFrames n d (K + (missingTables d m p2 N).card) m → FreeFrames n d K m'
  tables : KeepsTables d m m'
  made : ∀ i t, tableOf m.words d i = none → tableOf m'.words d i = some t → t < n ∧ t ≠ d
  missing : ∀ i, tableOf m'.words d i = none ↔
    tableOf m.words d i = none ∧ i ∉ missingTables d m p2 N
  frames : m'.freeFrameList.length + (missingTables d m p2 N).card = m.freeFrameList.length

/-- The loop after `k` of the `N` pages : the pages that it came to, and those that it does not
come to, have the entries that they are to have. -/
structure SharesPages (n d : Nat) (premission : Char) (p1 p2 N k : Nat) (m m' : KernMemory) :
    Prop extends MakesTables n d p2 k m m' where
  entries : Shareable n d premission p1 p2 N m → ∀ va : BitVec 32,
    tableOf m.words d (pdx va.toNat) ≠ some d →
    ¬(p2 + k ≤ va.toNat / 4096 ∧ va.toNat / 4096 < p2 + N) →
      m'.pageEntryOf d va = sharedEntry d premission p1 p2 N m va

theorem MakesTables.refl (n d p2 : Nat) (m : KernMemory) : MakesTables n d p2 0 m m := by
  refine ⟨fun h => ?_, .refl d m, fun i t hnone ht => ?_, fun i => ?_, ?_⟩
  · simpa [missingTables, absentTables] using h
  · cases hnone.symm.trans ht
  · simp [missingTables, absentTables]
  · simp [missingTables, absentTables]

namespace MakesTables

variable (h : MakesTables n d p2 N m m₁)

include h

theorem window (ht : tableOf m₁.words d i = some d) : tableOf m.words d i = some d := by
  cases hold : tableOf m.words d i with
  | none => exact absurd rfl (h.made i d hold ht).2
  | some t => rw [← ht, h.tables.kept i t hold]

/-- A page table in memory after `N` pages : it was there, or was made for one of them. -/
theorem table_iff : (∃ t < n, tableOf m₁.words d i = some t) ↔
    (∃ t < n, tableOf m.words d i = some t) ∨ i ∈ missingTables d m p2 N := by
  constructor
  · rintro ⟨t, hlt, ht⟩
    cases hold : tableOf m.words d i with
    | none =>
      refine Or.inr (not_not.1 fun hmem => ?_)
      rw [(h.missing i).2 ⟨hold, hmem⟩] at ht
      cases ht
    | some t' =>
      obtain rfl := Option.some.inj ((h.tables.kept i t' hold).symm.trans ht)
      exact Or.inl ⟨t', hlt, rfl⟩
  · rintro (⟨t, hlt, ht⟩ | hmem)
    · exact ⟨t, hlt, h.tables.kept i t ht⟩
    · obtain ⟨t, ht⟩ := Option.ne_none_iff_exists'.1 fun hnone => ((h.missing i).1 hnone).2 hmem
      exact ⟨t, (h.made i t (mem_absentTables.1 hmem).2 ht).1, ht⟩

/-- Or there is a frame more than those that were taken. -/
theorem hasTable_iff : ((∃ t < n, tableOf m₁.words d i = some t) ∨
      tableOf m₁.words d i = none ∧ m₁.freeFrameList ≠ []) ↔
    (∃ t < n, tableOf m.words d i = some t) ∨ i ∈ missingTables d m p2 N ∨
      tableOf m.words d i = none ∧ (missingTables d m p2 N).card < m.freeFrameList.length := by
  have hframes := h.frames
  have hlength : m₁.freeFrameList ≠ [] ↔
      (missingTables d m p2 N).card < m.freeFrameList.length := by
    rw [← List.length_pos_iff_ne_nil]
    omega
  rw [h.table_iff, h.missing, hlength, or_assoc, and_right_comm]
  refine or_congr Iff.rfl ?_
  by_cases hmem : i ∈ missingTables d m p2 N
  · simp [hmem]
  · simp [hmem]

/-- The frame after those that were taken. -/
theorem freeFrames (hfree : FreeFrames n d (framesFor d m p2 N i) m)
    (hnone : tableOf m₁.words d i = none) : FreeFrames n d 1 m₁ := by
  refine h.free ?_
  rw [framesFor, if_pos ((h.missing i).1 hnone)] at hfree
  rwa [Nat.add_comm]

/-- One page more. -/
theorem succ (hpage2 : (pageAddress (p2 + N)).toNat / 4096 = p2 + N)
    (hs : SharesPage n d premission va1 (pageAddress (p2 + N)) m₁ m') :
    MakesTables n d p2 (N + 1) m m' := by
  have hpdx := pdx_of_page hpage2
  refine ⟨fun hfree => hs.free (h.free ?_), h.tables.trans hs.tables, fun i t hnone ht => ?_,
    fun i => ?_, ?_⟩
  · simp only [h.missing, hpdx]
    rw [card_missingTables_succ, framesFor] at hfree
    rwa [Nat.add_assoc, Nat.add_comm (ite _ _ _)]
  · cases hold : tableOf m₁.words d i with
    | none => exact hs.tableOf_of_none hold ht
    | some t' =>
      obtain rfl := Option.some.inj ((hs.tables.kept i t' hold).symm.trans ht)
      exact h.made i t' hnone hold
  · rw [hs.tableOf_eq_none, h.missing, hpdx, and_assoc]
    refine and_congr_right fun hnone => ?_
    rw [mem_missingTables_succ hnone, not_or, and_comm]
  · have hlength := hs.length_freeFrameList
    simp only [h.missing, hpdx] at hlength
    rw [card_missingTables_succ, framesFor, ← h.frames, ← hlength]
    omega

end MakesTables

/-- The loop with its last page apart. -/
theorem sharePages_succ (n d : Nat) (premission : Char) :
    ∀ (N p1 p2 : Nat) (m : KernMemory),
      sharePages n d premission (N + 1) (pageAddress p1) (pageAddress p2) m =
        (sharePages n d premission N (pageAddress p1) (pageAddress p2) m).bind
          fun m => m.sharePage n d premission (pageAddress (p1 + N)) (pageAddress (p2 + N))
  | 0, p1, p2, m => by
    have hlast : (m.sharePage n d premission (pageAddress p1) (pageAddress p2)).bind
        (sharePages n d premission 0 (pageAddress p1 + 4096#32) (pageAddress p2 + 4096#32)) =
        m.sharePage n d premission (pageAddress p1) (pageAddress p2) := by
      cases m.sharePage n d premission (pageAddress p1) (pageAddress p2) <;> rfl
    exact hlast
  | N + 1, p1, p2, m => by
    rw [sharePages, pageAddress_add, pageAddress_add, sharePages]
    cases m.sharePage n d premission (pageAddress p1) (pageAddress p2) with
    | error fault => rfl
    | ok m' =>
      have hrest := sharePages_succ n d premission N (p1 + 1) (p2 + 1) m'
      rw [Nat.add_right_comm p1, Nat.add_right_comm p2] at hrest
      rw [pageAddress_add, pageAddress_add]
      exact hrest

section Ranges

variable (hr : Ranges n d m p1 p2 N)

include hr

/-- The sources are outside the windows and the destination. -/
theorem Ranges.source_window {k : Nat} (hk : k < N) :
    tableOf m.words d (pdx (pageAddress (p1 + k)).toNat) ≠ some d ∧
      ¬(p2 ≤ (pageAddress (p1 + k)).toNat / 4096 ∧
        (pageAddress (p1 + k)).toNat / 4096 < p2 + N) := by
  have hpage : (pageAddress (p1 + k)).toNat / 4096 = p1 + k :=
    pageAddress_page (by have := hr.fits1; omega)
  obtain ⟨t, -, ht, htd⟩ := hr.source k hk
  rw [pdx_of_page hpage, hpage, ht]
  exact ⟨fun heq => htd (Option.some.inj heq), by have := hr.disjoint; omega⟩

theorem Ranges.sharedEntry_source {k : Nat} (hk : k < N) (premission : Char) :
    sharedEntry d premission p1 p2 N m (pageAddress (p1 + k)) =
      m.pageEntryOf d (pageAddress (p1 + k)) :=
  if_neg (hr.source_window hk).2

theorem Ranges.destination_page {k : Nat} (hk : k < N) :
    (pageAddress (p2 + k)).toNat / 4096 = p2 + k :=
  pageAddress_page (by have := hr.fits2; omega)

theorem Ranges.destination_window {k : Nat} (hk : k < N) :
    tableOf m.words d (pdx (pageAddress (p2 + k)).toNat) ≠ some d := by
  rw [pdx_of_page (hr.destination_page hk)]
  exact fun heq => (hr.destination k hk d heq).2 rfl

theorem Ranges.sharedEntry_destination {k : Nat} (hk : k < N) (premission : Char) :
    sharedEntry d premission p1 p2 N m (pageAddress (p2 + k)) =
      withPremission premission (m.pageEntryOf d (pageAddress (p1 + k))) := by
  rw [sharedEntry, hr.destination_page hk,
    if_pos ⟨Nat.le_add_right p2 k, Nat.add_lt_add_left hk p2⟩, Nat.add_sub_cancel_left]

/-- The page table of a page of the destination is there, or can be made. -/
theorem Ranges.table {k : Nat} (hk : k < N) :
    (∃ t < n, tableOf m.words d ((p2 + k) / 1024) = some t) ∨
      (p2 + k) / 1024 ∈ missingTables d m p2 k ∨
      tableOf m.words d ((p2 + k) / 1024) = none ∧
        (missingTables d m p2 k).card < m.freeFrameList.length := by
  cases ht : tableOf m.words d ((p2 + k) / 1024) with
  | some t => exact Or.inl ⟨t, (hr.destination k hk t ht).1, rfl⟩
  | none =>
    refine Or.inr (or_iff_not_imp_left.2 fun hmem => ⟨rfl, ?_⟩)
    have hcard : framesFor d m p2 k _ ≤ _ := framesFor_le hk
    rw [framesFor, if_pos ⟨ht, hmem⟩] at hcard
    exact hcard.trans hr.frames

/-- So it is after the pages before it. -/
theorem Ranges.hasTable {k : Nat} (hk : k < N) (hs : MakesTables n d p2 k m m₁)
    (h : FreeFrames n d (missingTables d m p2 N).card m) :
    HasTable n d m₁ (pdx (pageAddress (p2 + k)).toNat) := by
  rw [pdx_of_page (hr.destination_page hk)]
  exact hasTable_of_or (hs.freeFrames (h.mono (framesFor_le hk)))
    (hs.hasTable_iff.2 (hr.table hk))

/-- One page more. -/
theorem SharesPages.succ {k : Nat} (hk : k < N) (h : SharesPages n d premission p1 p2 N k m m₁)
    (hs : SharesPage n d premission (pageAddress (p1 + k)) (pageAddress (p2 + k)) m₁ m') :
    SharesPages n d premission p1 p2 N (k + 1) m m' := by
  have hpage2 := hr.destination_page hk
  refine ⟨h.toMakesTables.succ hpage2 hs, fun hshare va hwindow hva => ?_⟩
  by_cases hsame : SameEntry d m₁ (pageAddress (p2 + k)) va
  · obtain ⟨hwindow1, hout⟩ := hr.source_window hk
    rw [hs.shared va hsame, h.entries hshare _ hwindow1 (by omega), hr.sharedEntry_source hk,
      hshare.aliases k hk va (h.tables.sameEntry_iff.1 hsame), hr.sharedEntry_destination hk]
  · have hpage : va.toNat / 4096 ≠ p2 + k := fun heq => hsame (.of_page (heq.trans hpage2.symm))
    rw [hs.others va hsame fun heq => hwindow (h.window heq)]
    exact h.entries hshare va hwindow (by omega)

/-- The loop comes to all its pages. -/
theorem sharePages_sharesPages (premission : Char) (hn : n ≤ 1048576)
    (h : FreeFrames n d (missingTables d m p2 N).card m) :
    ∀ k ≤ N, ∃ m', sharePages n d premission k (pageAddress p1) (pageAddress p2) m = .ok m' ∧
      SharesPages n d premission p1 p2 N k m m'
  | 0, _ => ⟨m, rfl, .refl n d p2 m, fun _ va _ hva => (if_neg hva).symm⟩
  | k + 1, hk => by
    obtain ⟨m₁, hloop, hs⟩ := sharePages_sharesPages premission hn h k (Nat.le_of_succ_le hk)
    rw [sharePages_succ, hloop]
    have hpage1 : (pageAddress (p1 + k)).toNat / 4096 = p1 + k :=
      pageAddress_page (by have := hr.fits1; omega)
    obtain ⟨t, hlt, ht, -⟩ := hr.source k hk
    rw [← pdx_of_page hpage1] at ht
    obtain ⟨m', hpage, hs'⟩ := sharePage_sharesPage premission _ _ hn
      ⟨t, hlt, hs.tables.kept _ t ht⟩ (fun heq => (hr.source_window hk).1 (hs.window heq))
      (hr.hasTable hk hs.toMakesTables h)
      fun heq => hr.destination_window hk (hs.window heq)
    exact ⟨m', hpage, hs.succ hr hk hs'⟩

end Ranges

/-! ## The command -/

/-- The count of the loop. -/
theorem toNat_pagesRangeOf (size : Nat) (hsize : size ≤ 4096) :
    (pagesRangeOf (BitVec.ofNat 32 size)).toNat =
      256 * size + if size % 4 = 0 then 0 else 1 := by
  have hmsb : (BitVec.ofNat 32 size).msb = false := by
    rw [BitVec.msb_eq_false_iff_two_mul_lt, BitVec.toNat_ofNat]
    omega
  have hmul : (BitVec.ofNat 32 size * 1024#32).toNat = 1024 * size := by
    rw [BitVec.toNat_mul, BitVec.toNat_ofNat, BitVec.toNat_ofNat]
    omega
  have hmsb' : (BitVec.ofNat 32 size * 1024#32).msb = false := by
    rw [BitVec.msb_eq_false_iff_two_mul_lt, hmul]
    omega
  have hfour : (4#32).msb = false := by decide
  have hdiv : ((BitVec.ofNat 32 size * 1024#32).sdiv 4#32).toNat = 256 * size := by
    have h4 : (4#32).toNat = 4 := rfl
    rw [BitVec.sdiv_eq, hmsb', hfour, BitVec.udiv_eq, BitVec.toNat_udiv, hmul, h4]
    omega
  have hrem : (BitVec.ofNat 32 size).srem 4#32 = 0#32 ↔ size % 4 = 0 := by
    have h4 : (4#32).toNat = 4 := rfl
    have h0 : (0#32).toNat = 0 := rfl
    rw [BitVec.srem_eq, hmsb, hfour, ← BitVec.toNat_inj, BitVec.toNat_umod, BitVec.toNat_ofNat, h4,
      h0]
    omega
  unfold pagesRangeOf
  rw [BitVec.toNat_add, hdiv]
  by_cases hmod : size % 4 = 0
  · rw [if_pos (hrem.2 hmod), if_pos hmod, BitVec.toNat_ofNat]
    omega
  · rw [if_neg (hrem.not.2 hmod), if_neg hmod, BitVec.toNat_ofNat]
    omega

/-- The `N` pages from `p1` on are shared at `p2`, and no other page-table entry is changed. -/
structure SharesRange (d : Nat) (premission : Char) (p1 p2 N : Nat) (m m' : KernMemory) :
    Prop where
  shared : ∀ k < N, m'.pageEntryOf d (pageAddress (p2 + k)) =
    withPremission premission (m'.pageEntryOf d (pageAddress (p1 + k)))
  others : ∀ va : BitVec 32, ¬(p2 ≤ va.toNat / 4096 ∧ va.toNat / 4096 < p2 + N) →
    tableOf m.words d (pdx va.toNat) ≠ some d → m'.pageEntryOf d va = m.pageEntryOf d va

/-- The page after the range is shared without a change : its source has a page table then, so
has the page it is shared at, or there is a frame for it, and the entry is the one it has. -/
structure ExtraOk (n d : Nat) (premission : Char) (p1 p2 N : Nat) (m : KernMemory) : Prop where
  source : (∃ t < n, tableOf m.words d (pdx (pageAddress (p1 + N)).toNat) = some t) ∨
    pdx (pageAddress (p1 + N)).toNat ∈ missingTables d m p2 N
  table : (∃ t < n, tableOf m.words d (pdx (pageAddress (p2 + N)).toNat) = some t) ∨
    pdx (pageAddress (p2 + N)).toNat ∈ missingTables d m p2 N ∨
    tableOf m.words d (pdx (pageAddress (p2 + N)).toNat) = none ∧
      (missingTables d m p2 N).card < m.freeFrameList.length
  entry : withPremission premission
      (sharedEntry d premission p1 p2 N m (pageAddress (p1 + N))) =
    m.pageEntryOf d (pageAddress (p2 + N))

section Ranges

variable (hr : Ranges n d m p1 p2 N)

include hr

/-- The range is shared if each page has the entry that it is to have. -/
theorem Ranges.sharesRange_iff_entries : SharesRange d premission p1 p2 N m m' ↔
    ∀ va : BitVec 32, tableOf m.words d (pdx va.toNat) ≠ some d →
      m'.pageEntryOf d va = sharedEntry d premission p1 p2 N m va := by
  constructor
  · intro h va hwindow
    rw [sharedEntry]
    split
    · next hmem =>
      obtain ⟨k, hk⟩ := Nat.exists_eq_add_of_le hmem.1
      have hlt : k < N := by omega
      have hpage : va.toNat / 4096 - p2 = k := by omega
      obtain ⟨hwindow1, hout⟩ := hr.source_window hlt
      rw [pageEntryOf_of_page hk (hr.destination_page hlt), h.shared k hlt, hpage,
        h.others _ hout hwindow1]
    · next hmem => exact h.others va hmem hwindow
  · intro h
    refine ⟨fun k hk => ?_, fun va hva hwindow => (h va hwindow).trans (if_neg hva)⟩
    rw [h _ (hr.destination_window hk), h _ (hr.source_window hk).1,
      hr.sharedEntry_destination hk, hr.sharedEntry_source hk]

/-- The directory entries of the first pages name frames of memory. -/
theorem Ranges.first_lt (hpos : 0 < N) :
    frameNumber (m.words d (pdx (pageAddress p1).toNat)) < n ∧
      frameNumber (m.words d (pdx (pageAddress p2).toNat)) < n := by
  have hpage1 : (pageAddress p1).toNat / 4096 = p1 :=
    pageAddress_page (by have := hr.fits1; omega)
  have hpage2 : (pageAddress p2).toNat / 4096 = p2 :=
    pageAddress_page (by have := hr.fits2; omega)
  obtain ⟨t, hlt, ht, -⟩ := hr.source 0 hpos
  rw [pdx_of_page hpage1, pdx_of_page hpage2]
  refine ⟨(tableOf_eq_some.1 ht).2 ▸ hlt, ?_⟩
  cases ht2 : tableOf m.words d (p2 / 1024) with
  | some t2 => exact (tableOf_eq_some.1 ht2).2 ▸ (hr.destination 0 hpos t2 ht2).1
  | none =>
    rw [tableOf_eq_none.1 ht2, frameNumber_zero]
    exact Nat.zero_lt_of_lt hlt

/-- The range is shared only if pages with one entry are to have the same one. -/
theorem Ranges.shareable (hpos : 0 < N) (htables : KeepsTables d m m')
    (h : SharesRange d premission p1 p2 N m m') : Shareable n d premission p1 p2 N m := by
  refine ⟨(hr.first_lt hpos).1, (hr.first_lt hpos).2, fun k hk va hsame => ?_⟩
  have hwindow := hr.destination_window hk
  have hentries := hr.sharesRange_iff_entries.1 h
  rw [← hentries va (hsame.tableOf_ne hwindow), ← hentries _ hwindow]
  exact (htables.sameEntry_iff.2 hsame).pageEntryOf_eq

/-- The page after the destination is not in it. -/
theorem Ranges.extra_not_mem (hpos : 0 < N) :
    ¬(p2 ≤ (pageAddress (p2 + N)).toNat / 4096 ∧
      (pageAddress (p2 + N)).toNat / 4096 < p2 + N) := by
  obtain ⟨hfits1, hfits2, hdisjoint, -, -, -⟩ := hr
  rw [pageAddress, BitVec.toNat_ofNat]
  omega

theorem SharesPages.sharesRange_iff_shareable (hpos : 0 < N)
    (hs : SharesPages n d premission p1 p2 N N m m') :
    SharesRange d premission p1 p2 N m m' ↔ Shareable n d premission p1 p2 N m :=
  ⟨hr.shareable hpos hs.tables, fun hshare => hr.sharesRange_iff_entries.2 fun va hwindow =>
    hs.entries hshare va hwindow (by omega)⟩

/-- The page after the range is shared as the others are, exactly so without a change. -/
theorem sharePage_extra_iff (hn : n ≤ 1048576) (hpos : 0 < N)
    (h : FreeFrames n d (framesFor d m p2 N (pdx (pageAddress (p2 + N)).toNat)) m)
    (hwindow1 : tableOf m.words d (pdx (pageAddress (p1 + N)).toNat) ≠ some d)
    (hwindow2 : tableOf m.words d (pdx (pageAddress (p2 + N)).toNat) ≠ some d)
    (hs : SharesPages n d premission p1 p2 N N m m₁) :
    (∃ m', m₁.sharePage n d premission (pageAddress (p1 + N)) (pageAddress (p2 + N)) = .ok m' ∧
        SharesRange d premission p1 p2 N m m') ↔
      Shareable n d premission p1 p2 N m ∧ ExtraOk n d premission p1 p2 N m := by
  have hwindow1' : tableOf m₁.words d (pdx (pageAddress (p1 + N)).toNat) ≠ some d :=
    fun heq => hwindow1 (hs.window heq)
  have hwindow2' : tableOf m₁.words d (pdx (pageAddress (p2 + N)).toNat) ≠ some d :=
    fun heq => hwindow2 (hs.window heq)
  have hout := hr.extra_not_mem hpos
  constructor
  · rintro ⟨m', hok, hrange⟩
    obtain ⟨hsource, htable⟩ := sharePage_ok hok
    have hs' := sharesPage_of_ok hn (hs.freeFrames h) hwindow1' hwindow2' hok
    have hshare := hr.shareable hpos (hs.tables.trans hs'.tables) hrange
    refine ⟨hshare, hs.table_iff.1 hsource, hs.hasTable_iff.1 htable, ?_⟩
    rw [← hs.entries hshare _ hwindow1 (by omega), ← hs'.shared _ (.refl _),
      hrange.others _ hout hwindow2]
  · rintro ⟨hshare, hextra⟩
    obtain ⟨m', hok, hs'⟩ := sharePage_sharesPage premission _ _ hn
      (hs.table_iff.2 hextra.source) hwindow1'
      (hasTable_of_or (hs.freeFrames h) (hs.hasTable_iff.2 hextra.table)) hwindow2'
    refine ⟨m', hok, hr.sharesRange_iff_entries.2 fun va hwindow => ?_⟩
    have hold : m₁.pageEntryOf d va = sharedEntry d premission p1 p2 N m va :=
      hs.entries hshare va hwindow (by omega)
    by_cases hsame : SameEntry d m₁ (pageAddress (p2 + N)) va
    · -- the word of the page is written with what it has
      have hextra' : m₁.pageEntryOf d (pageAddress (p2 + N)) =
          m.pageEntryOf d (pageAddress (p2 + N)) :=
        (hs.entries hshare _ hwindow2 (by omega)).trans (if_neg hout)
      rw [hs'.shared va hsame, hs.entries hshare _ hwindow1 (by omega), hextra.entry, ← hextra',
        ← hsame.pageEntryOf_eq, hold]
    · rw [hs'.others va hsame fun heq => hwindow (hs.window heq), hold]

end Ranges

/-- The command looks the tables of its first pages up, which changes nothing for the loop. -/
theorem shareRangeWithPermissions_eq (hn : n ≤ 1048576)
    (hsource : ∃ t < n, tableOf m.words d (pdx va1.toNat) = some t)
    (htable : HasTable n d m (pdx va2.toNat)) {size : BitVec 32}
    (hpos : 0 < (pagesRangeOf size).toNat) :
    m.shareRangeWithPermissions n d va1 va2 size premission =
      sharePages n d premission (pagesRangeOf size).toNat va1 va2 m := by
  obtain ⟨t1, hlt1, ht1⟩ := hsource
  obtain ⟨t2, m₂, hlt, hfinds, hget⟩ := exists_findsTable hn htable
  obtain ⟨pages, hpages⟩ := Nat.exists_eq_succ_of_ne_zero (Nat.ne_of_gt hpos)
  have hget1 : m.getPageTableVA n d va1 false = some (some t1, m) := by
    rw [getPageTableVA, getPageTable_found ht1 hlt1]
    rfl
  have hget1' : m₂.getPageTableVA n d va1 false = some (some t1, m₂) := by
    rw [getPageTableVA, getPageTable_found (hfinds.tableOf_of_some hn ht1) hlt1]
    rfl
  have hget' : m₂.getPageTableVA n d va2 true = some (some t2, m₂) := by
    rw [getPageTableVA, getPageTable_found ((hfinds.tableOf_eq hn).2 (Or.inl rfl)) hlt]
    rfl
  have hfirst : m₂.sharePage n d premission va1 va2 = m.sharePage n d premission va1 va2 := by
    simp only [sharePage, hget1, hget1', hget, hget']
  unfold shareRangeWithPermissions
  simp only [hget1, hget, Option.isSome_some, and_self, if_true]
  rw [hpages, sharePages, sharePages, hfirst]

/-- The command is the loop, over the pages of its range and perhaps one more. -/
theorem shareRangeWithPermissions_of_pos (hn : n ≤ 1048576) {size : Nat}
    (h : FreeFrames n d (missingTables d m p2 (256 * size)).card m)
    (hr : Ranges n d m p1 p2 (256 * size)) (hpos : 0 < size) :
    m.shareRangeWithPermissions n d (pageAddress p1) (pageAddress p2) (BitVec.ofNat 32 size)
        premission = sharePages n d premission (256 * size + if size % 4 = 0 then 0 else 1)
          (pageAddress p1) (pageAddress p2) m := by
  have hpages := toNat_pagesRangeOf size (by have := hr.fits1; omega)
  have hpage1 : (pageAddress p1).toNat / 4096 = p1 :=
    pageAddress_page (by have := hr.fits1; omega)
  obtain ⟨t, hlt, ht, -⟩ := hr.source 0 (by omega)
  rw [Nat.add_zero, ← pdx_of_page hpage1] at ht
  have htable : HasTable n d m (pdx (pageAddress p2).toNat) :=
    hr.hasTable (show 0 < _ by omega) (.refl n d p2 m) h
  rw [shareRangeWithPermissions_eq hn ⟨t, hlt, ht⟩ htable (by omega), hpages]

/-- The command panics where a directory entry of a first page names no frame of memory. -/
theorem shareRangeWithPermissions_ok {size : BitVec 32}
    (hok : m.shareRangeWithPermissions n d va1 va2 size premission = .ok m') :
    frameNumber (m.words d (pdx va1.toNat)) < n ∧ frameNumber (m.words d (pdx va2.toNat)) < n := by
  unfold shareRangeWithPermissions at hok
  split at hok
  · cases hok
  · next table1 m₁ hget1 =>
    obtain ⟨-, rfl⟩ := getPageTableVA_false hget1
    split at hok
    · cases hok
    · next table2 m₂ hget2 => exact ⟨getPageTableVA_lt hget1, getPageTableVA_lt hget2⟩

/-- A range of no pages. -/
theorem shareRangeWithPermissions_zero (premission : Char) (hn : n ≤ 1048576)
    (h : tableOf m.words d (pdx va2.toNat) = none → FreeFrames n d 1 m)
    (hlt1 : frameNumber (m.words d (pdx va1.toNat)) < n)
    (hlt2 : frameNumber (m.words d (pdx va2.toNat)) < n) {size : BitVec 32}
    (hzero : (pagesRangeOf size).toNat = 0) :
    ∃ m', m.shareRangeWithPermissions n d va1 va2 size premission = .ok m' ∧
      ∀ va : BitVec 32, tableOf m.words d (pdx va.toNat) ≠ some d →
        m'.pageEntryOf d va = m.pageEntryOf d va := by
  have hget1 : m.getPageTableVA n d va1 false = some (tableOf m.words d (pdx va1.toNat), m) := by
    rw [getPageTableVA, getPageTable_lookup, if_pos hlt1]
    rfl
  obtain ⟨table, m', hget, hsame⟩ := exists_getPageTableVA hn h hlt2
  refine ⟨m', ?_, hsame⟩
  simp only [shareRangeWithPermissions, hget1, hget, hzero, sharePages, ite_self]

/-- How many frames the command takes : for the page tables that the destination is without, and
where it looks further, at the page after the range, or at the first page of an empty one, for the
page table of this one. -/
def framesTaken (d : Nat) (m : KernMemory) (p2 size : Nat) : Nat :=
  if size % 4 = 0 ∧ size ≠ 0 then (missingTables d m p2 (256 * size)).card
  else framesFor d m p2 (256 * size) (pdx (pageAddress (p2 + 256 * size)).toNat)

theorem card_le_framesTaken (d : Nat) (m : KernMemory) (p2 size : Nat) :
    (missingTables d m p2 (256 * size)).card ≤ framesTaken d m p2 size := by
  unfold framesTaken framesFor
  split
  · exact le_rfl
  · exact Nat.le_add_right _ _

/-- For a size that is a multiple of four the loop is over the pages of the range. -/
theorem sharesRange_iff_of_mod (hn : n ≤ 1048576) {size : Nat}
    (h : FreeFrames n d (framesTaken d m p2 size) m)
    (hr : Ranges n d m p1 p2 (256 * size)) (premission : Char) (hmod : size % 4 = 0) :
    (∃ m', m.shareRangeWithPermissions n d (pageAddress p1) (pageAddress p2)
        (BitVec.ofNat 32 size) premission = .ok m' ∧
      SharesRange d premission p1 p2 (256 * size) m m') ↔
        Shareable n d premission p1 p2 (256 * size) m := by
  rcases Nat.eq_zero_or_pos size with rfl | hpos
  · constructor
    · rintro ⟨m', hok, -⟩
      obtain ⟨hlt1, hlt2⟩ := shareRangeWithPermissions_ok hok
      exact ⟨hlt1, hlt2, fun k hk => absurd hk (Nat.not_lt_zero k)⟩
    · intro hshare
      have hfree : tableOf m.words d (pdx (pageAddress p2).toNat) = none → FreeFrames n d 1 m :=
        (MakesTables.refl n d p2 m).freeFrames h
      obtain ⟨m', hok, hsame⟩ := shareRangeWithPermissions_zero premission hn hfree hshare.first1
        hshare.first2 (toNat_pagesRangeOf 0 (Nat.zero_le _))
      exact ⟨m', hok, fun k hk => absurd hk (Nat.not_lt_zero k), fun va _ => hsame va⟩
  · have hcard := h.mono (card_le_framesTaken d m p2 size)
    obtain ⟨m₁, hloop, hs⟩ := sharePages_sharesPages hr premission hn hcard _ le_rfl
    rw [shareRangeWithPermissions_of_pos hn hcard hr hpos, if_pos hmod, Nat.add_zero, hloop]
    rw [← hs.sharesRange_iff_shareable hr (by omega)]
    exact ⟨fun ⟨m', hok, hrange⟩ => Except.ok.inj hok ▸ hrange, fun hrange => ⟨m₁, rfl, hrange⟩⟩

/-- When `ShareRangeWithPermissions` shares its range and nothing else : where pages with one
entry are to have the same one, and the size is a multiple of four or the page after the range is
shared without a change. The frames that are taken are no page tables. The two pages after the
ranges may be the first pages of a window; the second part leaves that out. -/
theorem sharesRange_iff (hn : n ≤ 1048576) (size : Nat)
    (h : FreeFrames n d (framesTaken d m p2 size) m)
    (hr : Ranges n d m p1 p2 (256 * size)) (premission : Char) :
    (size % 4 = 0 → ((∃ m', m.shareRangeWithPermissions n d (pageAddress p1) (pageAddress p2)
          (BitVec.ofNat 32 size) premission = .ok m' ∧
        SharesRange d premission p1 p2 (256 * size) m m') ↔
          Shareable n d premission p1 p2 (256 * size) m)) ∧
    (tableOf m.words d (pdx (pageAddress (p1 + 256 * size)).toNat) ≠ some d →
      tableOf m.words d (pdx (pageAddress (p2 + 256 * size)).toNat) ≠ some d →
      ((∃ m', m.shareRangeWithPermissions n d (pageAddress p1) (pageAddress p2)
          (BitVec.ofNat 32 size) premission = .ok m' ∧
        SharesRange d premission p1 p2 (256 * size) m m') ↔
          Shareable n d premission p1 p2 (256 * size) m ∧
            (size % 4 = 0 ∨ ExtraOk n d premission p1 p2 (256 * size) m))) := by
  refine ⟨sharesRange_iff_of_mod hn h hr premission, fun hwindow1 hwindow2 => ?_⟩
  by_cases hmod : size % 4 = 0
  · rw [sharesRange_iff_of_mod hn h hr premission hmod, and_iff_left (Or.inl hmod)]
  · have hpos : 0 < size := by omega
    have hcard := h.mono (card_le_framesTaken d m p2 size)
    rw [framesTaken, if_neg fun hc => hmod hc.1] at h
    obtain ⟨m₁, hloop, hs⟩ := sharePages_sharesPages hr premission hn hcard _ le_rfl
    rw [shareRangeWithPermissions_of_pos hn hcard hr hpos, if_neg hmod, sharePages_succ, hloop,
      or_iff_right hmod]
    exact sharePage_extra_iff hr hn (by omega) h hwindow1 hwindow2 hs

/-- In a directory no two pages of the ranges have one entry. -/
theorem Directory.shareable (h : Directory n d m) (hr : Ranges n d m p1 p2 N) :
    Shareable n d premission p1 p2 N m := by
  refine ⟨h.memory _ (pdx_lt _), h.memory _ (pdx_lt _), fun k hk va hsame => ?_⟩
  have hpage := h.page_eq (hr.destination_window hk) hsame
  rw [sharedEntry, sharedEntry, hpage, pageEntryOf_of_page hpage rfl]

/-- The directory in frame 4 has the page tables in frames 9 and 8 for its first two entries, and
page 256 is mapped. -/
def smallRanges : KernMemory where
  references _ := 0
  freeFrameList := []
  words f i :=
    if f = 4 ∧ i = 0 then 0x9007#32
    else if f = 4 ∧ i = 1 then 0x8007#32
    else if f = 9 ∧ i = 256 then 0x7007#32
    else 0#32

theorem smallRanges_tableOf (i : Nat) : tableOf smallRanges.words 4 i =
    if i = 0 then some 9 else if i = 1 then some 8 else none := by
  have hword : smallRanges.words 4 i =
      if i = 0 then 0x9007#32 else if i = 1 then 0x8007#32 else 0#32 := by
    simp [smallRanges]
  rw [tableOf, hword]
  split_ifs <;> simp_all <;> decide

theorem smallRanges_directory : Directory 10 4 smallRanges := by
  refine ⟨⟨List.nodup_nil, fun g hg => ?_⟩, fun i _ => ?_, fun i _ k _ t => ?_⟩
  · cases hg
  · have hword : smallRanges.words 4 i =
        if i = 0 then 0x9007#32 else if i = 1 then 0x8007#32 else 0#32 := by
      simp [smallRanges]
    rw [hword]
    split_ifs <;> decide
  · rw [smallRanges_tableOf, smallRanges_tableOf]
    split_ifs <;> simp_all <;> omega

/-- The ranges at address 0 and at address 0x400000, in pages, with a page table each. -/
theorem ranges_of_tableOf (h0 : tableOf m.words 4 0 = some 9) (h1 : tableOf m.words 4 1 = some 8)
    {size : Nat} (hsize : size ≤ 4) : Ranges 10 4 m 0 1024 (256 * size) := by
  have hsource : ∀ k < 256 * size, (0 + k) / 1024 = 0 := fun k hk => by omega
  have hone : ∀ k < 256 * size, (1024 + k) / 1024 = 1 := fun k hk => by omega
  have hempty : missingTables 4 m 1024 (256 * size) = ∅ := by
    refine Finset.eq_empty_of_forall_notMem fun i hi => ?_
    obtain ⟨⟨q, hle, hlt, rfl⟩, hnone⟩ := mem_absentTables.1 hi
    obtain ⟨k, rfl⟩ := Nat.exists_eq_add_of_le hle
    rw [hone k (by omega), h1] at hnone
    cases hnone
  refine ⟨by omega, by omega, by omega, fun k hk => ⟨9, by omega, ?_, by omega⟩,
    fun k hk t ht => ?_, ?_⟩
  · rw [hsource k hk, h0]
  · rw [hone k hk, h1] at ht
    obtain rfl := Option.some.inj ht
    decide
  · rw [hempty, Finset.card_empty]
    exact Nat.zero_le _

theorem smallRanges_ranges (size : Nat) (hsize : size ≤ 4) :
    Ranges 10 4 smallRanges 0 1024 (256 * size) :=
  ranges_of_tableOf (smallRanges_tableOf 0) (smallRanges_tableOf 1) hsize

/-- Four megabytes are shared. -/
theorem smallRanges_shared :
    ∃ m', smallRanges.shareRangeWithPermissions 10 4 (pageAddress 0) (pageAddress 1024)
        (BitVec.ofNat 32 4) 'r' = .ok m' ∧
      SharesRange 4 'r' 0 1024 (256 * 4) smallRanges m' :=
  ((sharesRange_iff (by omega) 4 (smallRanges_directory.freeFrames _)
    (smallRanges_ranges 4 le_rfl) 'r').1 rfl).2
    (smallRanges_directory.shareable (smallRanges_ranges 4 le_rfl))

/-- Page 0 is mapped, and frame 8 is the page table of the second and of the third directory
entry. -/
def aliasedRanges : KernMemory :=
  { smallRanges with
    words := fun f i =>
      if f = 4 ∧ i = 0 then 0x9007#32
      else if f = 4 ∧ (i = 1 ∨ i = 2) then 0x8007#32
      else if f = 9 ∧ i = 0 then 0x7007#32
      else 0#32 }

theorem aliasedRanges_tableOf (i : Nat) : tableOf aliasedRanges.words 4 i =
    if i = 0 then some 9 else if i = 1 ∨ i = 2 then some 8 else none := by
  have hword : aliasedRanges.words 4 i =
      if i = 0 then 0x9007#32 else if i = 1 ∨ i = 2 then 0x8007#32 else 0#32 := by
    simp [aliasedRanges]
  rw [tableOf, hword]
  split_ifs <;> simp_all <;> decide

theorem aliasedRanges_ranges : Ranges 10 4 aliasedRanges 0 1024 (256 * 4) :=
  ranges_of_tableOf (aliasedRanges_tableOf 0) (aliasedRanges_tableOf 1) le_rfl

/-- Page 2048 has the entry of page 1024, and is to keep its own. -/
theorem aliasedRanges_not_shareable : ¬Shareable 10 4 'r' 0 1024 (256 * 4) aliasedRanges := by
  intro h
  have hsame : SameEntry 4 aliasedRanges (pageAddress (1024 + 0)) (pageAddress 2048) := by
    refine ⟨Or.inr ⟨8, ?_, ?_⟩, by decide⟩
    · rw [aliasedRanges_tableOf]
      decide
    · rw [aliasedRanges_tableOf]
      decide
  exact absurd (h.aliases 0 (by omega) _ hsame) (by decide)

/-- One megabyte is shared, and then page 256 too. And where a third directory entry names the
page table of the destination, four megabytes are not shared alone. -/
theorem sharesRange_counterexample :
    (Directory 10 4 smallRanges ∧ Ranges 10 4 smallRanges 0 1024 (256 * 1) ∧
      ∃ m', smallRanges.shareRangeWithPermissions 10 4 (pageAddress 0) (pageAddress 1024)
          (BitVec.ofNat 32 1) 'r' = .ok m' ∧
        smallRanges.pageEntryOf 4 (pageAddress 1280) = 0#32 ∧
        m'.pageEntryOf 4 (pageAddress 1280) = 0x7005#32 ∧
        ¬SharesRange 4 'r' 0 1024 (256 * 1) smallRanges m') ∧
    Ranges 10 4 aliasedRanges 0 1024 (256 * 4) ∧
      ¬∃ m', aliasedRanges.shareRangeWithPermissions 10 4 (pageAddress 0) (pageAddress 1024)
          (BitVec.ofNat 32 4) 'r' = .ok m' ∧
        SharesRange 4 'r' 0 1024 (256 * 4) aliasedRanges m' := by
  have hnil : ∀ K, aliasedRanges.freeFrameList.take K = [] := fun K => List.take_nil
  have hfree : ∀ K, FreeFrames 10 4 K aliasedRanges := fun K =>
    ⟨hnil K ▸ List.nodup_nil, fun g hg => by cases hnil K ▸ hg⟩
  have hn : 10 ≤ 1048576 := by decide
  refine ⟨?_, aliasedRanges_ranges, fun hshares => aliasedRanges_not_shareable
    ((sharesRange_iff_of_mod hn (hfree _) aliasedRanges_ranges 'r' rfl).1 hshares)⟩
  have hr := smallRanges_ranges 1 (by omega)
  obtain ⟨m₁, hloop, hs⟩ := sharePages_sharesPages hr 'r' hn
    (smallRanges_directory.freeFrames _) _ le_rfl
  have hshare : Shareable 10 4 'r' 0 1024 (256 * 1) smallRanges :=
    smallRanges_directory.shareable hr
  have hsource : tableOf m₁.words 4 0 = some 9 := hs.tables.kept 0 9 (smallRanges_tableOf 0)
  have htable : tableOf m₁.words 4 1 = some 8 := hs.tables.kept 1 8 (smallRanges_tableOf 1)
  have hpdx1 : pdx (pageAddress (0 + 256 * 1)).toNat = 0 := rfl
  have hpdx2 : pdx (pageAddress (1024 + 256 * 1)).toNat = 1 := rfl
  obtain ⟨m', hok, hs'⟩ := sharePage_sharesPage 'r' (pageAddress (0 + 256 * 1))
    (pageAddress (1024 + 256 * 1)) hn ⟨9, by omega, by rw [hpdx1, hsource]⟩
    (by simp [hpdx1, hsource]) (Or.inl ⟨8, by omega, by rw [hpdx2, htable]⟩)
    (by simp [hpdx2, htable])
  have hold : smallRanges.pageEntryOf 4 (pageAddress 1280) = 0#32 := by decide
  have hentry : m₁.pageEntryOf 4 (pageAddress (0 + 256 * 1)) = 0x7007#32 :=
    hs.entries hshare _ (by simp [hpdx1, smallRanges_tableOf]) (by decide)
  have hnew : m'.pageEntryOf 4 (pageAddress 1280) = 0x7005#32 := by
    have hshared := hs'.shared _ (.refl _)
    rw [hentry] at hshared
    exact hshared
  refine ⟨smallRanges_directory, hr, m', ?_, hold, hnew, fun hrange => ?_⟩
  · rw [shareRangeWithPermissions_of_pos hn (smallRanges_directory.freeFrames _) hr
      Nat.one_pos, if_neg (by omega), sharePages_succ, hloop]
    exact hok
  · have hsame := hrange.others (pageAddress 1280) (by decide)
      (by simp [hpdx2, smallRanges_tableOf])
    cases hnew.symm.trans (hsame.trans hold)

end KernMemory

end FosKernel
