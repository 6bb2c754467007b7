import FosKernel.BootMapRange

/-!
# Boot directories

`initialize_kernel_VM` fills its page directory with calls of `boot_map_range`, with blocks of
`boot_allocate_space` in between and entries that it writes itself. Boot memory is not cleared,
and the page tables in it are not either. `Builds` is what the directory keeps all the same : its
entries are those of the page tables made so far, and zero everywhere else.

`Shows` is a range that is mapped. No later step changes it : not a range with other directory
entries (`MapsPages.keeps_shows`), and not an entry of the directory that names the same page
table still (`shows_setWord`).
-/

namespace FosKernel

namespace Boot

variable {l : Layout} {v : Variant} {n d i j k t p f N F : Nat} {s s' : State} {e : Entry}
  {perm : BitVec 32} {S : Finset Nat} {w : Words}

/-- The directory entries for `N` pages from `p` on. -/
def tablesOf (p N : Nat) : Finset Nat :=
  (Finset.Ico p (p + N)).image (· / 1024)

theorem mem_tablesOf : i ∈ tablesOf p N ↔ ∃ q, p ≤ q ∧ q < p + N ∧ q / 1024 = i := by
  simp [tablesOf, and_assoc]

theorem div_mem_tablesOf {q : Nat} (hle : p ≤ q) (hlt : q < p + N) : q / 1024 ∈ tablesOf p N :=
  mem_tablesOf.2 ⟨q, hle, hlt, rfl⟩

/-- Pages of one page table. -/
theorem tablesOf_one (hN : 0 < N) (hfits : p % 1024 + N ≤ 1024) : tablesOf p N = {p / 1024} := by
  ext i
  rw [mem_tablesOf, Finset.mem_singleton]
  constructor
  · rintro ⟨q, hle, hlt, rfl⟩
    omega
  · rintro rfl
    exact ⟨p, le_rfl, by omega, rfl⟩

/-- The pages up to the end of the address space. -/
theorem tablesOf_last (hp : p % 1024 = 0) (hfits : p + N = 1048576) :
    tablesOf p N = Finset.Ico (p / 1024) 1024 := by
  ext i
  rw [mem_tablesOf, Finset.mem_Ico]
  constructor
  · rintro ⟨q, hle, hlt, rfl⟩
    omega
  · rintro ⟨hle, hlt⟩
    exact ⟨1024 * i, by omega, by omega, by omega⟩

/-- A boot directory whose entries `S` are made, and the others zero. It was made before its page
tables. -/
structure Builds (l : Layout) (d F : Nat) (S : Finset Nat) (s : State) : Prop where
  directory : BootDirectory l d F s
  above : ∀ i, ∀ t, bootTableOf s.words d i = some t → d ≤ t
  made : ∀ i ∈ S, bootTableOf s.words d i ≠ none
  zero : ∀ i < 1024, i ∉ S → s.words d i = 0#32

/-- The pages from `p` on are mapped to the frames from `f` on. -/
def Shows (d : Nat) (perm : BitVec 32) (p f N : Nat) (w : Words) : Prop :=
  ∀ q < N, ∃ t, bootTableOf w d ((p + q) / 1024) = some t ∧ t ≠ d ∧
    w t ((p + q) % 1024) = rangeEntry perm p f (p + q)

theorem bootTableOf_zero (h : w d i = 0#32) : bootTableOf w d i = none :=
  bootTableOf_eq_none.2 (by rw [h]; rfl)

theorem Builds.missingTables_eq (h : Builds l d F S s) (hfits : p + N ≤ 1048576) :
    missingTables d s p N = tablesOf p N \ S := by
  ext i
  rw [missingTables, mem_absentTables, ← mem_tablesOf, Finset.mem_sdiff]
  refine and_congr_right fun hi => ⟨fun hnone hS => h.made i hS hnone, fun hS => ?_⟩
  obtain ⟨q, -, hlt, rfl⟩ := mem_tablesOf.1 hi
  exact bootTableOf_zero (h.zero _ (by omega) hS)

/-! ### `boot_map_range` -/

/-- The pages of the range are shown. -/
theorem MapsPages.shows (hd : BootDirectory l d F s)
    (h : MapsPages l d F perm p f (missingTables d s p N) N s s') (hfits : p + N ≤ 1048576)
    (hwindows : ∀ i ∈ tablesOf p N, bootTableOf s.words d i ≠ some d) :
    Shows d perm p f N s'.words := by
  intro q hq
  obtain ⟨t, ht, htd⟩ : ∃ t, bootTableOf s'.words d ((p + q) / 1024) = some t ∧ t ≠ d := by
    by_cases hi : (p + q) / 1024 ∈ missingTables d s p N
    · exact ⟨_, h.table_made hd hi⟩
    · have hmem := div_mem_tablesOf (Nat.le_add_right p q) (Nat.add_lt_add_left hq p)
      have hsome : bootTableOf s.words d ((p + q) / 1024) ≠ none := fun hnone =>
        hi (mem_absentTables.2 ⟨mem_tablesOf.1 hmem, hnone⟩)
      obtain ⟨t, ht⟩ := Option.ne_none_iff_exists'.1 hsome
      exact ⟨t, (h.bootTableOf_eq hi).trans ht, fun htd => hwindows _ hmem (htd ▸ ht)⟩
  refine ⟨t, ht, htd, ?_⟩
  have hpage : 1024 * ((p + q) / 1024) + (p + q) % 1024 = p + q := Nat.div_add_mod _ _
  rw [h.entries _ (by omega) _ (Nat.mod_lt _ (by decide)) t ht htd, hpage, if_pos (by omega)]

/-- A range that was shown before is shown still. -/
theorem MapsPages.keeps_shows {perm' : BitVec 32} {p' f' N' : Nat} {made : Finset Nat}
    (h : MapsPages l d F perm p f made N s s') (hshows : Shows d perm' p' f' N' s.words)
    (hfits : p' + N' ≤ 1048576) (hapart : Disjoint (tablesOf p' N') (tablesOf p N)) :
    Shows d perm' p' f' N' s'.words := by
  intro q hq
  obtain ⟨t, ht, htd, hword⟩ := hshows q hq
  have hi : (p' + q) / 1024 ∉ made := fun hi => by cases ht.symm.trans (h.missing _ hi)
  have ht' := (h.bootTableOf_eq hi).trans ht
  have hpage : 1024 * ((p' + q) / 1024) + (p' + q) % 1024 = p' + q := Nat.div_add_mod _ _
  have hout : ¬(p ≤ p' + q ∧ p' + q < p + N) := fun hc =>
    Finset.disjoint_left.1 hapart
      (div_mem_tablesOf (Nat.le_add_right p' q) (Nat.add_lt_add_left hq p'))
      (div_mem_tablesOf hc.1 hc.2)
  refine ⟨t, ht', htd, ?_⟩
  rw [h.entries _ (by omega) _ (Nat.mod_lt _ (by decide)) t ht' htd, hpage, if_neg hout, hword]

/-- `boot_map_range` makes the page tables that are missing. -/
theorem Builds.mapsPages (h : Builds l d F S s) (hfits : p + N ≤ 1048576)
    (hmaps : MapsPages l d F perm p f (missingTables d s p N) N s s') :
    Builds l d (F + (tablesOf p N \ S).card) (S ∪ tablesOf p N) s' := by
  have hmade := h.missingTables_eq hfits
  refine ⟨hmade ▸ hmaps.directory, fun i t ht => ?_, fun i hi => ?_, fun i hi hmem => ?_⟩
  · by_cases hm : i ∈ missingTables d s p N
    · obtain rfl := Option.some.inj ((hmaps.table i hm).2.symm.trans ht)
      exact Nat.le_add_right_of_le h.directory.directory.le
    · exact h.above i t (hmaps.bootTableOf_eq hm ▸ ht)
  · by_cases hS : i ∈ S
    · have hm : i ∉ missingTables d s p N := fun hm => (Finset.mem_sdiff.1 (hmade ▸ hm)).2 hS
      rw [hmaps.bootTableOf_eq hm]
      exact h.made i hS
    · have hm : i ∈ missingTables d s p N := by
        rw [hmade]
        exact Finset.mem_sdiff.2 ⟨(Finset.mem_union.1 hi).resolve_left hS, hS⟩
      rw [(hmaps.table i hm).2]
      exact Option.some_ne_none _
  · obtain ⟨hS, ht⟩ := not_or.1 (Finset.mem_union.not.1 hmem)
    have hm : i ∉ missingTables d s p N := fun hm =>
      ht (Finset.mem_sdiff.1 (hmade ▸ hm)).1
    rw [hmaps.same i hm, h.zero i hi hS]

/-- No directory entry but those in `S` lets the user through. -/
def KernelOnly (d : Nat) (S : Finset Nat) (w : Words) : Prop :=
  ∀ i < 1024, i ∉ S → w d i &&& permUser = 0#32

theorem bootTable_and_permUser (F : Nat) : bootTable F &&& permUser = 0#32 := by
  have hperm : IsPerm (permPresent ||| permWriteable) := by decide
  have huser : permUser = permMask &&& permUser := by decide
  rw [bootTable, huser, ← BitVec.and_assoc, constructEntry_and_permMask _ hperm]
  decide

theorem MapsPages.kernelOnly {made : Finset Nat} (h : MapsPages l d F perm p f made N s s')
    (hkernel : KernelOnly d S s.words) : KernelOnly d S s'.words := by
  intro i hi hS
  by_cases hm : i ∈ made
  · rw [(h.table i hm).1, bootTable_and_permUser]
  · rw [h.same i hm, hkernel i hi hS]

theorem KernelOnly.setKernel (h : KernelOnly d S s.words) (i : Nat)
    (he : e &&& permUser = 0#32) : KernelOnly d S (s.setWord d i e).words := by
  intro k hk hS
  have hword : (s.setWord d i e).words d k = if d = d ∧ k = i then e else s.words d k :=
    writeWord_apply _ _ _ _ _ _
  rw [hword]
  split_ifs
  · exact he
  · exact h k hk hS

theorem KernelOnly.setWord (h : KernelOnly d S s.words) (i : Nat) (e : Entry) :
    KernelOnly d (insert i S) (s.setWord d i e).words := by
  intro k hk hmem
  obtain ⟨hki, hS⟩ := not_or.1 (Finset.mem_insert.not.1 hmem)
  refine Eq.trans (congrArg (· &&& permUser) ?_) (h k hk hS)
  exact (writeWord_apply _ _ _ _ _ _).trans (if_neg fun hc => hki hc.2)

/-- The trips of `boot_map_range`, and the frames that a size takes. -/
def pagesOf (size : Nat) : Nat :=
  (size + (pageSize - 1)) / pageSize

theorem le_pagesOf (size : Nat) :
    size ≤ 4096 * pagesOf size ∧ 4096 * pagesOf size < size + 4096 := by
  unfold pagesOf pageSize
  omega

/-- `boot_map_range` from page `p` to frame `f` on, for any size. -/
theorem bootMapRange_pages {size : Nat} (hv : v = .root ∨ v = .kern) (hp : p < 1048576)
    (hf : f < 1048576) (hsize : size ≤ 4294967296 - 4096) :
    bootMapRange l v n d (4096 * p) size (4096 * f) perm s =
      bootMapRangeLoop l v n d perm (pagesOf size) (u32 (4096 * p)) (u32 (4096 * f)) s := by
  have hva : u32 (4096 * p) = 4096 * p := Nat.mod_eq_of_lt (by omega)
  have hpa : u32 (4096 * f) = 4096 * f := Nat.mod_eq_of_lt (by omega)
  have hfrom : v.mapsFrom (4096 * f) = 4096 * f := by
    rcases hv with rfl | rfl
    · rfl
    · change roundUp (4096 * f) pageSize = 4096 * f
      unfold roundUp roundDown u32 pageSize
      omega
  rw [bootMapRange, if_pos (show size ≤ 4294967296 - pageSize from hsize), hfrom, hva, hpa,
    pagesOf]

/-- What a call of `boot_map_range` does to a boot directory. -/
structure Mapping (l : Layout) (d F : Nat) (S : Finset Nat) (perm : BitVec 32) (p f N : Nat)
    (s s' : State) : Prop where
  builds : Builds l d F S s'
  shows : Shows d perm p f N s'.words
  keeps : ∀ {perm' p' f' N'}, Shows d perm' p' f' N' s.words → p' + N' ≤ 1048576 →
    Disjoint (tablesOf p' N') (tablesOf p N) → Shows d perm' p' f' N' s'.words
  kernelOnly : ∀ {U}, KernelOnly d U s.words → KernelOnly d U s'.words
  same : ∀ i, bootTableOf s.words d i ≠ none → s'.words d i = s.words d i

theorem Builds.map {size : Nat} (h : Builds l d F S s) (perm : BitVec 32)
    (hv : v = .root ∨ v = .kern)
    (hreach : Reaches l n (F + (tablesOf p (pagesOf size) \ S).card)) (hp : p < 1048576)
    (hf : f < 1048576) (hfits : p + pagesOf size ≤ 1048576) (hsize : size ≤ 4294967296 - 4096)
    (hwindows : ∀ i ∈ tablesOf p (pagesOf size), bootTableOf s.words d i ≠ some d) :
    ∃ s', bootMapRange l v n d (4096 * p) size (4096 * f) perm s = some s' ∧
      Mapping l d (F + (tablesOf p (pagesOf size) \ S).card) (S ∪ tablesOf p (pagesOf size)) perm
        p f (pagesOf size) s s' := by
  have hround : v.rounding pageSize = pageSize := by
    rcases hv with rfl | rfl <;> rfl
  rw [← h.missingTables_eq hfits] at hreach
  obtain ⟨s', hloop, hmaps⟩ := bootMapRangeLoop_mapsPages (f := f) perm hround h.directory
    (pagesOf size) hreach hfits fun q hle hlt => hwindows _ (div_mem_tablesOf hle hlt)
  exact ⟨s', (bootMapRange_pages hv hp hf hsize).trans hloop, h.mapsPages hfits hmaps,
    hmaps.shows h.directory hfits hwindows,
    fun hshows hfits' hapart => hmaps.keeps_shows hshows hfits' hapart,
    fun hkernel => hmaps.kernelOnly hkernel,
    fun i hsome => hmaps.same i fun hm => hsome (hmaps.missing i hm)⟩

/-- A range none of whose page tables is made yet. -/
theorem Builds.mapNew {size : Nat} {T : Finset Nat} (h : Builds l d F S s)
    (perm : BitVec 32) (hv : v = .root ∨ v = .kern) (hT : tablesOf p (pagesOf size) = T)
    (hnew : Disjoint T S)
    (hreach : Reaches l n (F + T.card)) (hp : p < 1048576) (hf : f < 1048576)
    (hfits : p + pagesOf size ≤ 1048576) (hsize : size ≤ 4294967296 - 4096) :
    ∃ s', bootMapRange l v n d (4096 * p) size (4096 * f) perm s = some s' ∧
      Mapping l d (F + T.card) (S ∪ T) perm p f (pagesOf size) s s' := by
  subst hT
  have hsdiff : tablesOf p (pagesOf size) \ S = tablesOf p (pagesOf size) :=
    Finset.sdiff_eq_self_of_disjoint hnew
  have hmap := h.map perm hv (hsdiff.symm ▸ hreach) hp hf hfits hsize
    fun i hi hwindow => ?_
  · rwa [hsdiff] at hmap
  · obtain ⟨q, -, hlt, hq⟩ := mem_tablesOf.1 hi
    have hzero := h.zero i (by omega) (Finset.disjoint_left.1 hnew hi)
    cases (bootTableOf_zero hzero).symm.trans hwindow

/-! ### Allocations -/

/-- A block is taken from the next frame of boot memory on. -/
theorem bootAllocateSpace_eq {size : Nat} (hv : v.rounding pageSize = pageSize)
    (hfree : roundUp (if s.ptrFreeMem = 0 then l.endOfKernel else s.ptrFreeMem) pageSize =
      l.kernelBase + 4096 * F) (hreach : Reaches l n (F + pagesOf size)) :
    ∃ s', bootAllocateSpace l v size pageSize s = some (l.kernelBase + 4096 * F, s') ∧
      s'.words = s.words ∧
      roundUp (if s'.ptrFreeMem = 0 then l.endOfKernel else s'.ptrFreeMem) pageSize =
        l.kernelBase + 4096 * (F + pagesOf size) := by
  have hpage : pageSize ≠ 0 := by decide
  have hbase := l.kernelBase_gt
  have hmod := l.kernelBase_mod
  have hend := hreach.2
  obtain ⟨hle, hlt⟩ := le_pagesOf size
  have hptr : u32 (l.kernelBase + 4096 * F + size) = l.kernelBase + 4096 * F + size :=
    Nat.mod_eq_of_lt (by omega)
  unfold bootAllocateSpace
  simp only [hv, if_neg hpage, hfree, hptr]
  refine ⟨_, rfl, rfl, ?_⟩
  dsimp only
  rw [if_neg (by omega)]
  unfold roundUp roundDown u32 pageSize
  omega

theorem Builds.allocate {size : Nat} (h : Builds l d F S s)
    (hv : v.rounding pageSize = pageSize) (hreach : Reaches l n (F + pagesOf size)) :
    ∃ s', bootAllocateSpace l v size pageSize s = some (l.kernelBase + 4096 * F, s') ∧
      s'.words = s.words ∧ Builds l d (F + pagesOf size) S s' := by
  obtain ⟨s', hsome, hwords, hfree⟩ := bootAllocateSpace_eq hv h.directory.free hreach
  refine ⟨s', hsome, hwords, ⟨hfree, Nat.lt_add_right _ h.directory.directory, ?_, ?_, ?_⟩, ?_, ?_,
    ?_⟩
  · simpa only [hwords] using h.directory.absent
  · simp only [hwords]
    exact fun i hi t ht => (h.directory.present i hi t ht).imp_right (Nat.lt_add_right _)
  · simpa only [hwords] using h.directory.apart
  · simpa only [hwords] using h.above
  · simpa only [hwords] using h.made
  · simpa only [hwords] using h.zero

/-- The page directory is the first frame of boot memory. -/
theorem builds_clear (hfree : roundUp (if s.ptrFreeMem = 0 then l.endOfKernel else s.ptrFreeMem)
    pageSize = l.kernelBase + 4096 * (d + 1)) :
    Builds l d (d + 1) ∅ { s with words := clearWords s.words d } := by
  have hzero : ∀ i, clearWords s.words d d i = 0#32 := fun i => by simp [clearWords_apply]
  refine ⟨⟨hfree, Nat.lt_succ_self d, fun i _ _ => ?_, fun i _ t ht => ?_, fun i _ k _ t ht => ?_⟩,
    fun i t ht => ?_, fun i hi => absurd hi (Finset.notMem_empty i), fun i _ _ => hzero i⟩
  · change ¬IsPresent (clearWords s.words d d i)
    rw [hzero]
    exact not_isPresent_zero
  · cases (bootTableOf_zero (hzero i)).symm.trans ht
  · cases (bootTableOf_zero (hzero i)).symm.trans ht
  · cases (bootTableOf_zero (hzero i)).symm.trans ht

/-! ### Entries of the directory -/

theorem bootTableOf_setWord (s : State) (d i k : Nat) (e : Entry) :
    bootTableOf (s.setWord d i e).words d k = if k = i
      then (if extractAddress e = 0#32 then none else some (frameNumber e))
      else bootTableOf s.words d k := by
  have hword : (s.setWord d i e).words d k = if k = i then e else s.words d k := by
    refine (writeWord_apply _ _ _ _ _ _).trans ?_
    simp
  rw [bootTableOf, hword, bootTableOf]
  split_ifs <;> rfl

/-- An entry that shows a page table, the directory itself for a window. -/
theorem bootTableOf_setWord_self (hperm : IsPerm perm) (hpos : 0 < t) (ht : t < 1048576)
    (s : State) (d i : Nat) :
    bootTableOf (s.setWord d i (constructEntry (toPhysicalAddress t) perm)).words d i = some t := by
  have hframe := frameNumber_constructEntry ht hperm
  have hne : extractAddress (constructEntry (toPhysicalAddress t) perm) ≠ 0#32 := fun hzero => by
    have hppn := congrArg ppn hzero
    rw [← frameNumber, hframe] at hppn
    exact hpos.ne' hppn
  rw [bootTableOf_setWord, if_pos rfl, if_neg hne, hframe]

/-- Permissions are added to an entry. -/
theorem bootTableOf_setWord_or (hperm : IsPerm perm) (s : State) (d i : Nat) :
    bootTableOf (s.setWord d i (s.words d i ||| perm)).words d i = bootTableOf s.words d i := by
  have hsame : extractAddress (s.words d i ||| perm) = extractAddress (s.words d i) := by
    rw [extractAddress, or_and_right, hperm, BitVec.or_zero, extractAddress]
  rw [bootTableOf_setWord, if_pos rfl, frameNumber, hsame, bootTableOf, frameNumber]

theorem isPresent_or (h : IsPresent e) (hperm : perm &&& permPresent = permPresent) :
    IsPresent (e ||| perm) := by
  rw [IsPresent, or_and_right, h, hperm, BitVec.or_self]

/-- An entry is written to the directory : a window, or new permissions. -/
theorem Builds.setEntry (h : Builds l d F S s) (he : IsPresent e)
    (ht : bootTableOf (s.setWord d i e).words d i = some t) (hlt : t < F)
    (hold : t = d ∨ bootTableOf s.words d i = some t) (hi : i < 1024) :
    Builds l d F (insert i S) (s.setWord d i e) := by
  have hword : ∀ k, (s.setWord d i e).words d k = if k = i then e else s.words d k := fun k => by
    refine (writeWord_apply _ _ _ _ _ _).trans ?_
    simp
  have hother : ∀ k, k ≠ i → bootTableOf (s.setWord d i e).words d k = bootTableOf s.words d k :=
    fun k hk => (bootTableOf_setWord s d i k e).trans (if_neg hk)
  have hd := h.directory
  refine ⟨⟨hd.free, hd.directory, fun k hk hnone => ?_, fun k hk t' ht' => ?_,
    fun k hk k' hk' t' ht₁ ht₂ => ?_⟩, fun k t' ht' => ?_, fun k hk => ?_, fun k hk hmem => ?_⟩
  · by_cases hki : k = i
    · subst hki
      cases ht.symm.trans hnone
    · rw [hword, if_neg hki]
      exact hd.absent k hk (hother k hki ▸ hnone)
  · by_cases hki : k = i
    · subst hki
      obtain rfl := Option.some.inj (ht.symm.trans ht')
      rw [hword, if_pos rfl]
      exact ⟨he, hlt⟩
    · rw [hword, if_neg hki]
      exact hd.present k hk t' (hother k hki ▸ ht')
  · by_cases hki : k = i <;> by_cases hki' : k' = i
    · exact Or.inr (hki.trans hki'.symm)
    · subst hki
      obtain rfl := Option.some.inj (ht.symm.trans ht₁)
      rw [hother k' hki'] at ht₂
      exact hold.elim Or.inl fun hold => hd.apart k hk k' hk' t hold ht₂
    · subst hki'
      obtain rfl := Option.some.inj (ht.symm.trans ht₂)
      rw [hother k hki] at ht₁
      exact hold.elim Or.inl fun hold => hd.apart k hk k' hk' t ht₁ hold
    · exact hd.apart k hk k' hk' t' (hother k hki ▸ ht₁) (hother k' hki' ▸ ht₂)
  · by_cases hki : k = i
    · subst hki
      obtain rfl := Option.some.inj (ht.symm.trans ht')
      exact hold.elim (fun heq => heq.ge) fun hold => h.above k t hold
    · exact h.above k t' (hother k hki ▸ ht')
  · by_cases hki : k = i
    · subst hki
      rw [ht]
      exact Option.some_ne_none _
    · rw [hother k hki]
      exact h.made k ((Finset.mem_insert.1 hk).resolve_left hki)
  · obtain ⟨hki, hS⟩ := not_or.1 (Finset.mem_insert.not.1 hmem)
    rw [hword, if_neg hki]
    exact h.zero k hk hS

/-- What is shown through other entries, or through the same page table, is shown still. -/
theorem shows_setWord (hshows : Shows d perm p f N s.words)
    (hsame : i ∈ tablesOf p N →
      bootTableOf (s.setWord d i e).words d i = bootTableOf s.words d i) :
    Shows d perm p f N (s.setWord d i e).words := by
  intro q hq
  obtain ⟨t, ht, htd, hword⟩ := hshows q hq
  refine ⟨t, ?_, htd, ?_⟩
  · by_cases hi : (p + q) / 1024 = i
    · subst hi
      rw [hsame (div_mem_tablesOf (Nat.le_add_right p q) (Nat.add_lt_add_left hq p)), ht]
    · rw [bootTableOf_setWord, if_neg hi, ht]
  · refine ((writeWord_apply _ _ _ _ _ _).trans (if_neg fun hc => htd hc.1)).trans hword

/-! ### What is shown -/

/-- The page table of a page that is shown is inside the frames. -/
theorem Shows.table (h : Shows d perm p f N s.words) (hd : BootDirectory l d F s)
    (hfits : p + N ≤ 1048576) {q : Nat} (hq : q < N) : ∃ t < F,
    bootTableOf s.words d ((p + q) / 1024) = some t ∧
      s.words t ((p + q) % 1024) = rangeEntry perm p f (p + q) := by
  obtain ⟨t, ht, -, hword⟩ := h q hq
  exact ⟨t, (hd.present _ (by omega) t ht).2, ht, hword⟩

theorem Shows.walk (h : Shows d perm p f N s.words) (hd : BootDirectory l d F s)
    (hperm : IsPerm perm) (hfits : p + N ≤ 1048576) {a : Nat} (ha : a < 4096 * N) :
    Boot.walk s.words d (4096 * p + a) =
      some (BitVec.ofNat 32 (4096 * f + a), perm ||| permPresent) := by
  obtain ⟨t, -, ht, hword⟩ := h.table hd hfits (Nat.div_lt_of_lt_mul ha)
  have hpdx : pdx (4096 * p + a) = (p + a / 4096) / 1024 := by
    unfold pdx
    omega
  have hptx : ptx (4096 * p + a) = (p + a / 4096) % 1024 := by
    unfold ptx
    omega
  have hoffset : 4096 * (f + a / 4096) + (4096 * p + a) % pageSize = 4096 * f + a := by
    unfold pageSize
    omega
  rw [hd.walk_of_some (by omega) (hpdx ▸ ht), hptx, hword, rangeEntry, Nat.add_sub_cancel_left,
    translate, if_pos (isPresent_constructEntry _ _),
    extractAddress_constructEntry _ (hperm.or (by decide)),
    constructEntry_and_permMask _ (hperm.or (by decide)), toPhysicalAddress_eq, ← BitVec.ofNat_add,
    hoffset]

/-- An array is taken from boot memory and mapped where one directory entry is free. -/
theorem Builds.array {size : Nat} (h : Builds l d F S s) (perm : BitVec 32)
    (hv : v = .root ∨ v = .kern)
    (hpos : 0 < size) (hsize : size ≤ 4194304) (hp : p < 1048576) (hmod : p % 1024 = 0)
    (hnew : p / 1024 ∉ S) (hreach : Reaches l n (F + pagesOf size + 1)) :
    ∃ s₁ s', bootAllocateSpace l v size pageSize s = some (l.kernelBase + 4096 * F, s₁) ∧
      bootMapRange l v n d (4096 * p) size (4096 * F) perm s₁ = some s' ∧
      s₁.words = s.words ∧
      Mapping l d (F + pagesOf size + 1) (S ∪ {p / 1024}) perm p F (pagesOf size) s₁ s' := by
  have hround : v.rounding pageSize = pageSize := by
    rcases hv with rfl | rfl <;> rfl
  obtain ⟨s₁, halloc, hwords, hbuilds⟩ := h.allocate hround (hreach.mono (Nat.le_add_right _ 1))
  obtain ⟨hle, hlt⟩ := le_pagesOf size
  have hT : tablesOf p (pagesOf size) = {p / 1024} := tablesOf_one (by omega) (by omega)
  have hlast := hreach.lt
  obtain ⟨s', hmap, hmapping⟩ := hbuilds.mapNew (f := F) perm hv hT
    (Finset.disjoint_singleton_left.2 hnew) hreach hp (by omega) (by omega) (by omega)
  exact ⟨s₁, s', halloc, hmap, hwords, hmapping⟩

end Boot

end FosKernel
