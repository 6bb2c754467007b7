import FosKernel.HeapSearch
import FosKernel.KernelHeapPanic

/-!
# What kmalloc returns

`kmalloc` rounds the size up in 32-bit arithmetic, so a size of 0 and a size in the last
page of the address space both become a search for zero pages. Next fit finds no place for
those, and best fit finds the start of an empty run whenever the last page of the heap is
empty. `kmalloc_honest_iff` : with enough free frames this is the only way in which the
result of `kmalloc` is not what it says.

`kmalloc_out_of_frames` : with too few free frames `kmalloc` finds no place and changes
nothing, or it panics with the free frames mapped to the first pages of the place found.

Both are about every state reached from boot at the command prompt, panics included.
-/

namespace FosKernel

theorem KernelHeapLayout.pages_pos (L : KernelHeapLayout) : 0 < L.pages := by
  have hlt := L.start_lt_max
  have hstart := L.start_aligned
  have hmax := L.max_aligned
  unfold pages pageSize at *
  omega

namespace KernelHeap

variable {L : KernelHeapLayout} {s s' : KernelHeap}

/-! ## The place found -/

theorem prepared_strategy :
    (prepared L s).kHeapPlacementStrategy = s.kHeapPlacementStrategy := by
  unfold prepared
  split_ifs <;> rfl

theorem prepared_of_initialized (h : s.isKHpageEmpty = false) : prepared L s = s := by
  unfold prepared
  rw [h]
  rfl

theorem emptyPages_prepared {i : Nat} (hi : i < L.pages) :
    (prepared L s).emptyPages i = true ↔ ¬NonEmpty s i := by
  rw [← owner_isSome_iff_nonEmpty hi, ← prepared_owner,
    owner_isSome_iff prepared_initialized hi, emptyPages, Bool.not_eq_false]

/-- The place found is the start of a run that has an empty page even for zero pages. -/
theorem findPlace_run {j n : Nat} (hj : j ≤ L.pages) (hand : s.lastAllocatedKHpage = L.addr j)
    (h : findPlace L s (pageSize * n) ≠ 0) :
    ∃ k m, findPlace L s (pageSize * n) = L.addr k ∧ n ≤ m ∧ 0 < m ∧ k + m ≤ L.pages ∧
      PageSearch.EmptyRun s.emptyPages k m := by
  unfold findPlace at h ⊢
  split_ifs at h ⊢ with hnext
  · unfold nextFit at h ⊢
    rw [hand, L.max_eq_addr] at h ⊢
    obtain ⟨k, hk, hn, hkn, hrun⟩ := PageSearch.nextFit_sound hj h
    exact ⟨k, n, hk, le_rfl, hn, hkn, hrun⟩
  · unfold bestFit at h ⊢
    rw [L.max_eq_addr] at h ⊢
    obtain ⟨f, hf⟩ := Runs.exists_trailing s.emptyPages (Nat.zero_le L.pages)
    by_cases hshort : f = 0 ∨ f < n
    · exact absurd (PageSearch.bestFit_eq_zero hf hshort) h
    · obtain ⟨k, g, hbest, hres⟩ := @PageSearch.bestFit_eq_best _ L.kernelHeapStart _ n _
        hf (by omega) (by omega)
      exact ⟨k, g, hres, hbest.long, hbest.mem.pos, hbest.mem.fits, hbest.mem.run⟩

/-- A search for zero pages finds a place exactly under best fit with the last page
empty. -/
theorem findPlace_zero_iff (hstart : 0 < L.kernelHeapStart) {j : Nat} (hj : j ≤ L.pages)
    (hand : s.lastAllocatedKHpage = L.addr j) :
    findPlace L s 0 ≠ 0 ↔
      s.kHeapPlacementStrategy ≠ .nextFit ∧ s.emptyPages (L.pages - 1) = true := by
  have hpages := L.pages_pos
  by_cases hnext : s.kHeapPlacementStrategy = .nextFit
  · refine iff_of_false (fun h => ?_) fun h => h.1 hnext
    unfold findPlace nextFit at h
    rw [if_pos hnext, hand, L.max_eq_addr] at h
    obtain ⟨k, -, hn, -⟩ := PageSearch.nextFit_sound (n := 0) hj h
    exact absurd hn (Nat.lt_irrefl 0)
  · have hbest := @PageSearch.bestFit_ne_zero_iff s.emptyPages _ hstart _ 0 hpages (Nat.zero_le 1)
    rw [findPlace, if_neg hnext, bestFit, L.max_eq_addr]
    exact hbest.trans (and_iff_right hnext).symm

/-- A search for one page finds a place exactly if there is an empty page, anywhere under
next fit and at the end under best fit. -/
theorem findPlace_page_iff (hstart : 0 < L.kernelHeapStart) {j : Nat} (hj : j ≤ L.pages)
    (hand : s.lastAllocatedKHpage = L.addr j) :
    findPlace L s (pageSize * 1) ≠ 0 ↔
      s.kHeapPlacementStrategy = .nextFit ∧ (∃ i, i < L.pages ∧ s.emptyPages i = true) ∨
      s.kHeapPlacementStrategy ≠ .nextFit ∧ s.emptyPages (L.pages - 1) = true := by
  have hpages := L.pages_pos
  have hrun : ∀ k, PageSearch.EmptyRun s.emptyPages k 1 ↔ s.emptyPages k = true := by
    intro k
    constructor
    · intro h
      exact h k le_rfl (by omega)
    · intro h x hlo hhi
      obtain rfl : x = k := by omega
      exact h
  by_cases hnext : s.kHeapPlacementStrategy = .nextFit
  · have hzero := @PageSearch.nextFit_eq_zero_iff s.emptyPages _ hstart _ _ 1 hj Nat.one_pos
    rw [findPlace, if_pos hnext, nextFit, hand, L.max_eq_addr]
    refine (not_congr hzero).trans ?_
    simp only [hrun, hnext, ne_eq, not_true_eq_false, true_and, false_and, or_false]
    constructor
    · intro h
      by_contra hnone
      refine h fun k hside hk => hnone ⟨k, by omega, hk⟩
    · rintro ⟨i, hi, hempty⟩ hall
      exact hall i (by omega) hempty
  · have hbest := @PageSearch.bestFit_ne_zero_iff s.emptyPages _ hstart _ 1 hpages (le_refl 1)
    rw [findPlace, if_neg hnext, bestFit, L.max_eq_addr]
    refine hbest.trans ?_
    simp only [hnext, ne_eq, not_false_eq_true, true_and, false_and, false_or]

/-! ## The result -/

/-- The result `p` of `kmalloc(size)` is what it says. -/
structure Honest (L : KernelHeapLayout) (s : KernelHeap) (size p : Nat) (s' : KernelHeap) :
    Prop where
  aligned : p ≠ 0 → p % pageSize = 0
  inside : p ≠ 0 → L.kernelHeapStart ≤ p ∧ p + size ≤ L.kernelHeapMax
  /-- The pages that meet `[p, p + size)` belonged to no allocation, and are mapped. -/
  pages : p ≠ 0 → ∀ i, i < L.pages → L.addr i < p + size → p < L.addr i + pageSize →
    ¬NonEmpty s i ∧ IsPresent (entry L s' i)
  /-- No later `kmalloc` returns `p` before it is freed. -/
  fresh : p ≠ 0 → ∀ later s₁ size' s₂, .kfree p ∉ later →
    Machine.run (promptStep L) s' later = some s₁ → kmalloc L s₁ size' ≠ some (p, s₂)
  /-- A null return changes nothing but runs `initializaKernelHeapPages` the first time. -/
  null : p = 0 → s' = prepared L s

/-- Under best fit `kmalloc` takes the size for zero pages, and finds a place for them. -/
def PlacesNoPages (L : KernelHeapLayout) (s : KernelHeap) (size : Nat) : Prop :=
  s.kHeapPlacementStrategy ≠ .nextFit ∧ (size = 0 ∨ 4294967296 - pageSize < size) ∧
    ¬NonEmpty s (L.pages - 1)

theorem roundUp_eq_zero_iff {size : Nat} (hsize : size < 4294967296) :
    roundUp size pageSize = 0 ↔ size = 0 ∨ 4294967296 - pageSize < size := by
  unfold roundUp roundDown u32 pageSize
  omega

/-- `kmalloc` returns no address of a live block. -/
theorem kmalloc_ne_of_owned (h : Invariant L s) {t u size : Nat} (ht : owner L s t = some u)
    (h0 : L.addr t ≠ 0) : kmalloc L s size ≠ some (L.addr t, s') := by
  intro hk
  obtain ⟨j, hj, hhand⟩ := h.hand
  obtain ⟨n, hn, -⟩ := exists_pages size
  rw [kmalloc_eq, hn] at hk
  split_ifs at hk with hzero
  · exact h0 (Prod.mk.inj (Option.some.inj hk)).1.symm
  · obtain ⟨s₁, -, hres⟩ := Option.map_eq_some_iff.1 hk
    obtain ⟨k, m, hk', -, hm, hfits, hrun⟩ :=
      findPlace_run hj (prepared_hand.trans hhand) hzero
    rw [hk'] at hres
    have hkt : k = t := by
      have := (Prod.mk.inj hres).1
      unfold KernelHeapLayout.addr pageSize at this
      omega
    subst hkt
    have hlt : k < L.pages := by omega
    have hne := (emptyPages_prepared hlt).1 (hrun k le_rfl (by omega))
    exact hne ((owner_isSome_iff_nonEmpty hlt).1 (by simp [ht]))

/-- A search that finds a place for zero pages is one that `PlacesNoPages` describes. -/
theorem placesNoPages_iff (h : Invariant L s) (hstart : 0 < L.kernelHeapStart) {size : Nat}
    (hsize : size < 4294967296) : PlacesNoPages L s size ↔
      roundUp size pageSize = 0 ∧ findPlace L (prepared L s) 0 ≠ 0 := by
  obtain ⟨j, hj, hhand⟩ := h.hand
  have hpages := L.pages_pos
  rw [findPlace_zero_iff hstart hj (prepared_hand.trans hhand), roundUp_eq_zero_iff hsize,
    prepared_strategy, emptyPages_prepared (by omega)]
  unfold PlacesNoPages
  exact and_left_comm

/-- The address returned is the place found. -/
theorem kmalloc_eq_findPlace {size p : Nat} (hk : kmalloc L s size = some (p, s')) :
    p = findPlace L (prepared L s) (roundUp size pageSize) ∧ (p = 0 → s' = prepared L s) := by
  rw [kmalloc_eq] at hk
  split_ifs at hk with hzero
  · obtain ⟨rfl, rfl⟩ := Prod.mk.inj (Option.some.inj hk)
    exact ⟨hzero.symm, fun _ => rfl⟩
  · obtain ⟨s₁, -, hres⟩ := Option.map_eq_some_iff.1 hk
    obtain ⟨rfl, rfl⟩ := Prod.mk.inj hres
    exact ⟨rfl, fun h0 => absurd h0 hzero⟩

/-- The pages of a block that was just allocated are held until they are freed. -/
theorem Allocated.holds (h : Invariant L s) {t n : Nat} (hn : 0 < n)
    (hal : Allocated L s t n s') : ∃ taken, taken.length = n ∧ Holds L s' t taken := by
  obtain ⟨taken, -, hlen, hframes⟩ := hal.frames
  have hblock := BlockMap.isBlock_claim h.contiguous hal.free hn
  rw [← hal.owner, ← hlen] at hblock
  exact ⟨taken, hlen, hblock, hframes⟩

/-- A block of at least one page is an honest result. -/
theorem Allocated.honest (h : Invariant L s) (h' : Invariant L s') {t n size : Nat} (hn : 0 < n)
    (hsize : size ≤ pageSize * n) (h0 : L.addr t ≠ 0) (hal : Allocated L s t n s') :
    Honest L s size (L.addr t) s' := by
  have hfits := hal.fits
  have hstart := L.start_aligned
  refine ⟨fun _ => ?_, fun _ => ⟨Nat.le_add_right _ _, ?_⟩, fun _ i hi hlo hhi => ?_,
    fun _ later s₁ size' s₂ hne hrun => ?_, fun hp => absurd hp h0⟩
  · unfold KernelHeapLayout.addr pageSize at *
    omega
  · rw [L.max_eq_addr]
    unfold KernelHeapLayout.addr pageSize at *
    omega
  · have hmem : t ≤ i ∧ i < t + n := by
      unfold KernelHeapLayout.addr pageSize at *
      omega
    have hown : KernelHeap.owner L s' i = some t := by
      rw [hal.owner, BlockMap.claim_of_mem hmem]
    refine ⟨fun hne => ?_, ?_⟩
    · have hsome := (owner_isSome_iff_nonEmpty hi).2 hne
      rw [hal.free i hmem.1 hmem.2] at hsome
      cases hsome
    · rw [(h'.frameAt_spec hown).2.1]
      exact isPresent_constructEntry _ _
  · obtain ⟨taken, -, hholds⟩ := hal.holds h hn
    obtain ⟨hinv₁, hholds₁⟩ := prompt_run_holds later s' h' hholds hne hrun
    exact kmalloc_ne_of_owned hinv₁ hholds₁.1.owner_first h0

theorem kmalloc_honest (h : Invariant L s) (hstart : 0 < L.kernelHeapStart) {size p : Nat}
    (hsize : size < 4294967296) (hno : ¬PlacesNoPages L s size)
    (hk : kmalloc L s size = some (p, s')) : Honest L s size p s' := by
  obtain ⟨hplace, hnull⟩ := kmalloc_eq_findPlace hk
  by_cases hp : p = 0
  · exact ⟨fun h => absurd hp h, fun h => absurd hp h, fun h => absurd hp h,
      fun h => absurd hp h, hnull⟩
  · obtain ⟨hinv, ⟨h0, -⟩ | ⟨t, rfl, -, hal⟩⟩ := kmalloc_spec h hk
    · exact absurd h0 hp
    · have hround : roundUp size pageSize ≠ 0 := by
        intro h0
        rw [hplace, h0] at hp
        exact hno ((placesNoPages_iff h hstart hsize).2 ⟨h0, hp⟩)
      have hmod := roundUp_mod size pageSize
      have hle : size ≤ roundUp size pageSize := by
        refine le_roundUp_pageSize ?_
        by_contra hlarge
        exact hround (roundUp_pageSize_eq_zero (by omega) hsize)
      refine Allocated.honest h hinv ?_ ?_ hp hal
      · unfold pageSize at *
        omega
      · unfold pageSize at *
        omega

/-- The address that best fit returns for zero pages is returned again. -/
theorem not_honest (h : Invariant L s) (hstart : 0 < L.kernelHeapStart) {size p : Nat}
    (hsize : size < 4294967296) (hplaces : PlacesNoPages L s size)
    (hk : kmalloc L s size = some (p, s')) : ¬Honest L s size p s' := by
  intro hhonest
  obtain ⟨hround, hfound⟩ := (placesNoPages_iff h hstart hsize).1 hplaces
  obtain ⟨hplace, -⟩ := kmalloc_eq_findPlace hk
  rw [hround] at hplace
  have hzero : roundUp 0 pageSize = 0 := by decide
  have hs' : s' = (prepared L s).moveHand p := by
    rw [kmalloc_eq, hround, if_neg hfound] at hk
    have hres := Prod.mk.inj (Option.some.inj hk)
    rw [← hres.1]
    exact hres.2.symm
  -- Best fit does not look at the hand, and the table is as it was.
  have hagain : findPlace L (prepared L s') 0 = p := by
    have hinit : s'.isKHpageEmpty = false := by
      rw [hs']
      exact prepared_initialized
    have hnext : (prepared L s).kHeapPlacementStrategy ≠ .nextFit := by
      rw [prepared_strategy]
      exact hplaces.1
    rw [prepared_of_initialized hinit, hs', hplace, findPlace, findPlace, if_neg hnext]
    exact if_neg hnext
  refine hhonest.fresh (hplace ▸ hfound) [] s' 0 ((prepared L s').moveHand p) (by simp) rfl ?_
  rw [kmalloc_eq, hzero, hagain, if_neg (hplace ▸ hfound)]
  rfl

/-- In every state reached from boot, for every strategy and every 32-bit size with enough
free frames, `kmalloc` returns, and its result is what it says exactly if best fit does not
place zero pages. -/
theorem kmalloc_honest_iff (hstart : 0 < L.kernelHeapStart) {s₀ : KernelHeap} (h₀ : Boot L s₀)
    {calls : List Call} (hr : Machine.run (promptStep L) s₀ calls = some s) {size : Nat}
    (hsize : size < 4294967296)
    (hframes : roundUp size pageSize / pageSize ≤ s.memory.freeFrameList.length) :
    ∃ p s', kmalloc L s size = some (p, s') ∧
      (Honest L s size p s' ↔ ¬PlacesNoPages L s size) := by
  have h := prompt_run_invariant h₀ hr
  obtain ⟨p, s', hk⟩ := kmalloc_returns h hframes
  exact ⟨p, s', hk, fun hhonest hplaces => not_honest h hstart hsize hplaces hk hhonest,
    fun hno => kmalloc_honest h hstart hsize hno hk⟩

theorem smallHeap_honest : ∃ p s', kmalloc smallLayout smallHeap 5000 = some (p, s') ∧
    Honest smallLayout smallHeap 5000 p s' := by
  obtain ⟨p, s', hk, hiff⟩ := kmalloc_honest_iff (by decide) smallHeap_boot
    (Machine.run_nil (promptStep smallLayout) smallHeap) (show 5000 < 4294967296 by decide)
    (by decide)
  exact ⟨p, s', hk, hiff.2 fun h => absurd h.2.1 (by decide)⟩

/-- The first `kmalloc` is of a size that wraps, and it returns the start of the heap. -/
theorem wrappedSize_counterexample : Boot smallLayout smallHeap ∧
    ∃ s', kmalloc smallLayout smallHeap 0xFFFFFFFF = some (0xF6000000, s') ∧
      ¬Honest smallLayout smallHeap 0xFFFFFFFF 0xF6000000 s' := by
  have hk : (kmalloc smallLayout smallHeap 0xFFFFFFFF).map Prod.fst = some 0xF6000000 := by
    decide
  obtain ⟨⟨p, s'⟩, hk, rfl⟩ := Option.map_eq_some_iff.1 hk
  refine ⟨smallHeap_boot, s', hk, fun hhonest => ?_⟩
  exact absurd (hhonest.inside (by decide)).2 (by decide)

/-! ## Out of frames -/

/-- The blocks, the mappings and the free frame list of the heap are the same. -/
structure SameHeap (L : KernelHeapLayout) (s s' : KernelHeap) : Prop where
  marks : ∀ i, i < L.pages → (NonEmpty s' i ↔ NonEmpty s i)
  entries : ∀ i, i < L.pages → entry L s' i = entry L s i
  freeFrameList : s'.memory.freeFrameList = s.memory.freeFrameList

/-- `kmalloc(size)` fails, and leaves the heap as it was. -/
def FailsAtomically (L : KernelHeapLayout) (s : KernelHeap) (size : Nat) : Prop :=
  match kmallocOutcome L s size with
  | .ok (p, s') => p = 0 ∧ SameHeap L s s'
  | .error s' => SameHeap L s s'

theorem sameHeap_prepared : SameHeap L s (prepared L s) := by
  refine ⟨fun i hi => ?_, fun i _ => prepared_entry i, by rw [prepared_memory]⟩
  rw [← owner_isSome_iff_nonEmpty hi, prepared_owner, owner_isSome_iff_nonEmpty hi]

/-- The panic leaves the heap as it was only if no frame was free. -/
theorem Exhausted.sameHeap_iff {t : Nat} (h : Exhausted L s t s') :
    SameHeap L s s' ↔ s.memory.freeFrameList = [] := by
  constructor
  · intro hsame
    rw [← hsame.freeFrameList]
    exact h.empty
  · intro hnil
    rw [h.unchanged hnil]
    exact sameHeap_prepared

/-- The pages of a size that fits in the heap. -/
theorem roundUp_of_fits {size : Nat} (hfits : (size + (pageSize - 1)) / pageSize ≤ L.pages) :
    roundUp size pageSize = pageSize * ((size + (pageSize - 1)) / pageSize) := by
  have hmax := L.max_le
  rw [L.max_eq_addr] at hmax
  unfold KernelHeapLayout.addr roundUp roundDown u32 pageSize at *
  omega

/-- In every state reached from boot, for every size for which the heap has a run of empty
pages and too few frames are free, `kmalloc` either finds no place and changes nothing, or
panics with the free frames mapped to the first pages of the place. So the failure is
atomic exactly if no place is found or no frame is free. -/
theorem kmalloc_out_of_frames {s₀ : KernelHeap} (h₀ : Boot L s₀) {calls : List Call}
    (hr : Machine.run (promptStep L) s₀ calls = some s) {size : Nat}
    (hrun : ∃ k, k + (size + (pageSize - 1)) / pageSize ≤ L.pages ∧
      ∀ i, k ≤ i → i < k + (size + (pageSize - 1)) / pageSize → ¬NonEmpty s i)
    (hfew : s.memory.freeFrameList.length < (size + (pageSize - 1)) / pageSize) :
    (findPlace L (prepared L s) (roundUp size pageSize) = 0 ∧
        kmallocOutcome L s size = .ok (0, prepared L s) ∨
      ∃ t s', findPlace L (prepared L s) (roundUp size pageSize) = L.addr t ∧
        t + (size + (pageSize - 1)) / pageSize ≤ L.pages ∧
        (∀ i, t ≤ i → i < t + (size + (pageSize - 1)) / pageSize → ¬NonEmpty s i) ∧
        kmallocOutcome L s size = .error s' ∧ Exhausted L s t s') ∧
    (FailsAtomically L s size ↔
      findPlace L (prepared L s) (roundUp size pageSize) = 0 ∨ s.memory.freeFrameList = []) := by
  have h := prompt_run_invariant h₀ hr
  obtain ⟨j, hj, hhand⟩ := h.hand
  obtain ⟨k, hk, -⟩ := hrun
  have hround : roundUp size pageSize = pageSize * ((size + (pageSize - 1)) / pageSize) :=
    roundUp_of_fits (L := L) (by omega)
  rw [hround]
  generalize (size + (pageSize - 1)) / pageSize = n at *
  by_cases hzero : findPlace L (prepared L s) (pageSize * n) = 0
  · have hres : kmallocOutcome L s size = .ok (0, prepared L s) := by
      rw [kmallocOutcome_eq, hround, if_pos hzero]
    refine ⟨Or.inl ⟨hzero, hres⟩, iff_of_true ?_ (Or.inl hzero)⟩
    rw [FailsAtomically, hres]
    exact ⟨rfl, sameHeap_prepared⟩
  · obtain ⟨t, ht, htn, hempty⟩ := findPlace_sound hj (prepared_hand.trans hhand) hzero
    have hfree := freeRun_of_emptyRun (L := L) prepared_initialized htn hempty
    rw [prepared_owner] at hfree
    obtain ⟨s', herror, hex⟩ := kmallocOutcome_few h hround ht (ht ▸ hzero) htn hfree hfew
    refine ⟨Or.inr ⟨t, s', ht, htn, fun i hlo hhi hne => ?_, herror, hex⟩, ?_⟩
    · have hsome := (owner_isSome_iff_nonEmpty (L := L) (by omega)).2 hne
      rw [hfree i hlo hhi] at hsome
      cases hsome
    · rw [FailsAtomically, herror]
      exact hex.sameHeap_iff.trans (or_iff_right hzero).symm

/-- The small heap with one free frame. -/
def scarceHeap : KernelHeap :=
  { smallHeap with memory := { smallHeap.memory with freeFrameList := [1] } }

theorem scarceHeap_boot : Boot smallLayout scarceHeap :=
  ⟨fun _ => rfl, rfl, rfl, fun _ _ => rfl, by decide, by decide, by decide⟩

/-- With one frame free, `kmalloc` of two pages panics when the first one is mapped. -/
theorem scarceHeap_exhausted : ∃ t s', kmallocOutcome smallLayout scarceHeap 8192 = .error s' ∧
    Exhausted smallLayout scarceHeap t s' := by
  have hrun : ∃ k, k + (8192 + (pageSize - 1)) / pageSize ≤ smallLayout.pages ∧
      ∀ i, k ≤ i → i < k + (8192 + (pageSize - 1)) / pageSize → ¬NonEmpty scarceHeap i :=
    ⟨0, by decide, fun i _ _ hne => absurd hne.1 (by decide)⟩
  obtain ⟨⟨hzero, -⟩ | ⟨t, s', -, -, -, herror, hex⟩, -⟩ := kmalloc_out_of_frames scarceHeap_boot
    (Machine.run_nil (promptStep smallLayout) scarceHeap) hrun (by decide)
  · exact absurd hzero (by decide)
  · exact ⟨t, s', herror, hex⟩

/-- Two of the three pages are asked for, with one frame free : the panic leaves one page
mapped and tagged, and no frame free. -/
theorem partialAllocation_counterexample : Boot smallLayout scarceHeap ∧
    (∀ i, i < 2 → ¬NonEmpty scarceHeap i) ∧
    scarceHeap.memory.freeFrameList.length < (8192 + (pageSize - 1)) / pageSize ∧
    ¬FailsAtomically smallLayout scarceHeap 8192 := by
  refine ⟨scarceHeap_boot, fun i _ hne => absurd hne.1 (by decide), by decide, fun hfail => ?_⟩
  have hleft : (match kmallocOutcome smallLayout scarceHeap 8192 with
      | .ok _ => none
      | .error s' => some (s'.memory.freeFrameList, (s'.kernelHeapPages 0).isEmpty)) =
        some ([], false) := by decide
  unfold FailsAtomically at hfail
  cases hout : kmallocOutcome smallLayout scarceHeap 8192 with
  | ok r =>
    rw [hout] at hleft
    cases hleft
  | error s' =>
    rw [hout] at hleft hfail
    have hlist : s'.memory.freeFrameList = [] := (Prod.mk.inj (Option.some.inj hleft)).1
    rw [hfail.freeFrameList] at hlist
    cases hlist

end KernelHeap

end FosKernel
