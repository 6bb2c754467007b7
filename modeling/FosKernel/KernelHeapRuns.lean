import FosKernel.KernelHeapInvariant

/-!
# Runs of the kernel heap

`kmalloc_spec` and `kfree_spec` say what one call does to the block structure and to the
frames, `step_invariant` that it keeps the representation invariant, and
`kernelHeap_consistent` what holds after every run from boot.

Before the first `kmalloc` the table is zeroed static memory, in which every entry has
`isEmpty = 0` : the pages count as empty as long as `isKHpageEmpty` is set. The spare
entry after the last page is never written and stays zero.
-/

namespace FosKernel

namespace KernelHeap

variable {L : KernelHeapLayout} {s s' : KernelHeap}

/-! ## kmalloc -/

/-- The table `kmalloc` searches : it runs `initializaKernelHeapPages` once. -/
def prepared (L : KernelHeapLayout) (s : KernelHeap) : KernelHeap :=
  if s.isKHpageEmpty then initializaKernelHeapPages L s else s

theorem prepared_initialized : (prepared L s).isKHpageEmpty = false := by
  unfold prepared
  split_ifs with h
  · rfl
  · simpa using h

theorem prepared_memory : (prepared L s).memory = s.memory := by
  unfold prepared
  split_ifs <;> rfl

theorem prepared_kernelEntries : (prepared L s).kernelEntries = s.kernelEntries := by
  unfold prepared
  split_ifs <;> rfl

theorem prepared_hand : (prepared L s).lastAllocatedKHpage = s.lastAllocatedKHpage := by
  unfold prepared
  split_ifs <;> rfl

theorem prepared_entry (i : Nat) : entry L (prepared L s) i = entry L s i := by
  rw [entry, prepared_kernelEntries, entry]

theorem prepared_owner : owner L (prepared L s) = owner L s := by
  unfold prepared
  split_ifs with h
  · rw [owner_of_not_init h]
    ext i : 1
    by_cases hi : i < L.pages <;> simp [owner, initializaKernelHeapPages, hi]
  · rfl

theorem Synced.prepared (hs : Synced L s) : Synced L (prepared L s) := by
  constructor
  · intro i t h
    unfold KernelHeap.prepared at h ⊢
    split_ifs at h ⊢ with hinit
    · have := prepared_owner (L := L) (s := s)
      rw [KernelHeap.prepared, if_pos hinit] at this
      rw [this, owner_of_not_init hinit] at h
      cases h
    · exact hs.tagged i t h
  · intro i hi h
    rw [prepared_owner] at h
    rw [prepared_entry]
    exact hs.unmapped i hi h
  · intro i t h
    rw [prepared_owner] at h
    rw [prepared_entry, prepared_memory]
    exact hs.mapped i t h
  · intro i j hi hj h
    rw [prepared_owner] at hi hj
    rw [prepared_entry, prepared_entry] at h
    exact hs.distinct i j hi hj h
  · rw [prepared_memory]
    exact hs.frames

/-- Whatever the strategy, the search returns the start of a run of empty pages. -/
theorem findPlace_sound {j n : Nat} (hj : j ≤ L.pages) (hand : s.lastAllocatedKHpage = L.addr j)
    (h : findPlace L s (pageSize * n) ≠ 0) :
    ∃ k, findPlace L s (pageSize * n) = L.addr k ∧ k + n ≤ L.pages ∧
      PageSearch.EmptyRun (fun i => (s.kernelHeapPages i).isEmpty) k n := by
  unfold findPlace at h ⊢
  split_ifs at h ⊢ with hnext
  · unfold nextFit at h ⊢
    rw [hand, L.max_eq_addr] at h ⊢
    obtain ⟨k, hk, -, hkn, hrun⟩ := PageSearch.nextFit_sound hj h
    exact ⟨k, hk, hkn, hrun⟩
  · unfold bestFit at h ⊢
    rw [L.max_eq_addr] at h ⊢
    exact PageSearch.bestFit_sound h

theorem freeRun_of_emptyRun (hinit : s.isKHpageEmpty = false) {k n : Nat} (hkn : k + n ≤ L.pages)
    (h : PageSearch.EmptyRun (fun i => (s.kernelHeapPages i).isEmpty) k n) :
    BlockMap.FreeRun (owner L s) k n := by
  intro i hlo hhi
  have hemp : (s.kernelHeapPages i).isEmpty = true := h i hlo hhi
  have hnot := mt (owner_isSome_iff (L := L) hinit (i := i) (by omega)).1 (by simp [hemp])
  simpa using hnot

/-- `kmalloc` returned the `n` pages from page `t`. -/
structure Allocated (L : KernelHeapLayout) (s : KernelHeap) (t n : Nat) (s' : KernelHeap) :
    Prop where
  fits : t + n ≤ L.pages
  free : BlockMap.FreeRun (owner L s) t n
  owner : owner L s' = BlockMap.claim (KernelHeap.owner L s) t n
  frames : ∃ taken, s.memory.freeFrameList = taken ++ s'.memory.freeFrameList ∧
    taken.length = n ∧ ∀ k, (hk : k < taken.length) → frameAt L s' (t + k) = taken[k]
  entries : ∀ j, ¬(t ≤ j ∧ j < t + n) → entry L s' j = entry L s j

/-- The call changed no block, no heap mapping and no frame. -/
structure Unchanged (L : KernelHeapLayout) (s s' : KernelHeap) : Prop where
  owner : owner L s' = KernelHeap.owner L s
  memory : s'.memory = s.memory
  kernelEntries : s'.kernelEntries = s.kernelEntries

theorem Unchanged.entry (h : Unchanged L s s') (i : Nat) :
    entry L s' i = KernelHeap.entry L s i := by
  rw [KernelHeap.entry, h.kernelEntries, KernelHeap.entry]

/-- The hand moves to `a`. -/
def moveHand (s : KernelHeap) (a : Nat) : KernelHeap :=
  { s with lastAllocatedKHpage := a }

theorem Invariant.moveHand (hs : Synced L s) (hc : BlockMap.Contiguous (owner L s)) {j : Nat}
    (hj : j ≤ L.pages) : Invariant L (s.moveHand (L.addr j)) :=
  ⟨⟨hs.tagged, hs.unmapped, hs.mapped, hs.distinct, hs.frames⟩, hc, j, hj, rfl⟩

theorem kmalloc_eq (size : Nat) : kmalloc L s size =
    if findPlace L (prepared L s) (roundUp size pageSize) = 0 then some (0, prepared L s)
    else
      (kmallocLoop L (findPlace L (prepared L s) (roundUp size pageSize))
        (roundUp size pageSize / pageSize) (findPlace L (prepared L s) (roundUp size pageSize))
        (prepared L s)).map fun s' =>
          (findPlace L (prepared L s) (roundUp size pageSize),
            s'.moveHand (findPlace L (prepared L s) (roundUp size pageSize) +
              pageSize * (roundUp size pageSize / pageSize))) :=
  rfl

/-- One `kmalloc` : a null return that changes nothing, or a block of the size asked for,
rounded up. -/
theorem kmalloc_spec (h : Invariant L s) {size p : Nat} (hk : kmalloc L s size = some (p, s')) :
    Invariant L s' ∧ (p = 0 ∧ Unchanged L s s' ∨
      ∃ t, p = L.addr t ∧ p ≠ 0 ∧ Allocated L s t (roundUp size pageSize / pageSize) s') := by
  obtain ⟨j, hj, hhand⟩ := h.hand
  obtain ⟨n, hn, hdiv⟩ := exists_pages size
  have hs := h.toSynced.prepared
  have hhand' : (prepared L s).lastAllocatedKHpage = L.addr j := prepared_hand.trans hhand
  rw [kmalloc_eq, hn, hdiv] at hk
  rw [hn, hdiv]
  by_cases hzero : findPlace L (prepared L s) (pageSize * n) = 0
  · rw [if_pos hzero] at hk
    obtain ⟨rfl, rfl⟩ := Prod.mk.inj (Option.some.inj hk)
    refine ⟨⟨hs, ?_, j, hj, hhand'⟩,
      Or.inl ⟨rfl, prepared_owner, prepared_memory, prepared_kernelEntries⟩⟩
    rw [prepared_owner]
    exact h.contiguous
  · obtain ⟨t, ht, htn, hrun⟩ := findPlace_sound hj hhand' hzero
    have hfree := freeRun_of_emptyRun (L := L) prepared_initialized htn hrun
    have hend : L.addr t + pageSize * n = L.addr (t + n) := by
      unfold KernelHeapLayout.addr pageSize
      omega
    rw [if_neg hzero, ht, hend] at hk
    rw [ht] at hzero
    obtain ⟨s₁, hloop, hres⟩ := Option.map_eq_some_iff.1 hk
    obtain ⟨rfl, rfl⟩ := Prod.mk.inj hres
    have hm := kmallocLoop_spec n t (prepared L s) s₁ hs prepared_initialized htn hfree hloop
    rw [prepared_owner] at hfree
    have hown : owner L s₁ = BlockMap.claim (owner L s) t n := by
      ext i : 1
      rw [hm.owner, prepared_owner]
      rfl
    have hcont : BlockMap.Contiguous (owner L s₁) := by
      rw [hown]
      exact h.contiguous.claim hfree
    refine ⟨Invariant.moveHand hm.synced hcont htn,
      Or.inr ⟨t, rfl, hzero, htn, hfree, hown, ?_, fun i hi => ?_⟩⟩
    · obtain ⟨taken, hlist, hlen, hframes⟩ := hm.frames
      rw [prepared_memory] at hlist
      exact ⟨taken, hlist, hlen, hframes⟩
    · exact (hm.entries i hi).trans (prepared_entry i)

/-! ## kfree -/

/-- The index `kfree` computes for an address of the heap. -/
theorem heapPageIndex_eq {va : Nat} (hlo : L.kernelHeapStart ≤ va) (hhi : va < L.kernelHeapMax) :
    u32 (va + 4294967296 - L.kernelHeapStart) / pageSize = (va - L.kernelHeapStart) / pageSize ∧
      (va - L.kernelHeapStart) / pageSize < L.pages := by
  have hm := L.max_le
  have h1 := L.start_aligned
  have h2 := L.max_aligned
  unfold KernelHeapLayout.pages pageSize u32 at *
  omega

/-- Below the heap `kfree` reads outside the array. -/
theorem start_le_of_kfree {va : Nat} (hk : kfree L s va = some s') : L.kernelHeapStart ≤ va := by
  by_contra hva
  have hlt := L.start_lt_max
  have hm := L.max_le
  have htrips : PageSearch.pageTrips va L.kernelHeapMax =
      PageSearch.pageTrips va L.kernelHeapMax - 1 + 1 := by
    unfold PageSearch.pageTrips pageSize
    omega
  have hout : page L s (u32 (va + 4294967296 - L.kernelHeapStart) / pageSize) = none := by
    refine if_neg ?_
    unfold KernelHeapLayout.maxKernelHeapPages pageSize u32 at *
    omega
  rw [kfree, htrips, kfreeLoop, if_pos (by omega)] at hk
  simp only [hout, Option.bind_none] at hk
  cases hk

/-- Before the table is initialized, `kfree` finds no heap page mapped. -/
theorem kfreeLoop_not_init {va : Nat} :
    ∀ (fuel start : Nat) (s : KernelHeap), s.isKHpageEmpty = true →
      (∀ i, i < L.pages → entry L s i = 0#32) → L.kernelHeapStart ≤ start →
      ∃ s', kfreeLoop L va fuel start s = some s' ∧ s'.isKHpageEmpty = true ∧
        s'.memory = s.memory ∧ s'.kernelEntries = s.kernelEntries ∧
        s'.lastAllocatedKHpage = s.lastAllocatedKHpage
  | 0, start, s, hinit, _, _ => ⟨s, rfl, hinit, rfl, rfl, rfl⟩
  | fuel + 1, start, s, hinit, hentry, hlo => by
    rw [kfreeLoop]
    split_ifs with hhi
    · obtain ⟨hidx, hlt⟩ := heapPageIndex_eq hlo hhi
      have hva : start / pageSize = L.addr ((start - L.kernelHeapStart) / pageSize) / pageSize := by
        have := L.start_aligned
        unfold KernelHeapLayout.addr pageSize at *
        omega
      have he : s.kernelEntries (start / pageSize) = 0#32 := by
        rw [hva]
        exact hentry _ hlt
      have hun : unmapFrame L s start = some s := by
        unfold unmapFrame Memory.unmapEntry setEntry
        simp only [he, if_true, Option.map_some, Option.some.injEq]
        rw [← he, Function.update_eq_self]
      simp only [hidx, page_of_lt hlt, Option.bind_some, hun]
      split_ifs with hmatch
      · obtain ⟨s', hs', h1, h2, h3, h4⟩ := kfreeLoop_not_init fuel (start + pageSize)
          (s.setPage ((start - L.kernelHeapStart) / pageSize) ⟨start, true⟩) hinit hentry
          (by omega)
        exact ⟨s', hs', h1, h2, h3, h4⟩
      · exact ⟨s, rfl, hinit, rfl, rfl, rfl⟩
    · exact ⟨s, rfl, hinit, rfl, rfl, rfl⟩

theorem pageTrips_addr (t : Nat) :
    PageSearch.pageTrips (L.addr t) L.kernelHeapMax = L.pages - t := by
  rw [L.max_eq_addr]
  exact PageSearch.pageTrips_page t L.pages

/-- `kfree` of a block frees it and does nothing else. -/
theorem kfree_freed (h : Invariant L s) (hinit : s.isKHpageEmpty = false) {t n : Nat}
    (hb : BlockMap.IsBlock (owner L s) t n) : kfree L s (L.addr t) = some (freed L s t n) := by
  have hpos := hb.1
  have hlast := lt_pages_of_owner ((hb.2 (t + n - 1)).2 (by omega))
  rw [kfree, pageTrips_addr]
  exact kfreeLoop_freed n t s h.toSynced hinit rfl (by omega) fun j hj => by
    rw [hb.2]
    omega

/-- `kfree` of the start of a block releases the block. -/
theorem kfree_block (h : Invariant L s) (hinit : s.isKHpageEmpty = false) {t n : Nat}
    (hb : BlockMap.IsBlock (owner L s) t n) :
    ∃ s', kfree L s (L.addr t) = some s' ∧ Unmapped L s t (t + n) s' :=
  ⟨_, kfree_freed h hinit hb,
    unmapped_freed h.toSynced hinit fun j hlo hhi => (hb.2 j).2 ⟨hlo, hhi⟩⟩

/-- `kfree` of any other address of the heap returns without a change. -/
theorem kfree_not_block (h : Invariant L s) (hinit : s.isKHpageEmpty = false) {va : Nat}
    (hlo : L.kernelHeapStart ≤ va) (hva : ∀ t, va = L.addr t → owner L s t ≠ some t) :
    kfree L s va = some s := by
  unfold kfree
  cases PageSearch.pageTrips va L.kernelHeapMax with
  | zero => rfl
  | succ fuel =>
    rw [kfreeLoop]
    split_ifs with hhi
    · obtain ⟨hidx, hlt⟩ := heapPageIndex_eq hlo hhi
      simp only [hidx, page_of_lt hlt, Option.bind_some]
      split_ifs with hmatch
      · -- A page tagged with `va` would put `va` at the start of its block.
        have hsome := (owner_isSome_iff (L := L) hinit hlt).2 hmatch.1
        obtain ⟨t, ht⟩ := Option.isSome_iff_exists.1 hsome
        have htag := h.tagged _ _ ht
        obtain ⟨hle, hall⟩ := h.contiguous _ _ ht
        exact absurd (hall t le_rfl hle) (hva t (hmatch.2.symm.trans htag))
      · rfl
    · rfl

theorem Unmapped.owner_eq {t n : Nat} (hb : BlockMap.IsBlock (KernelHeap.owner L s) t n)
    (h : Unmapped L s t (t + n) s') :
    KernelHeap.owner L s' = BlockMap.release (KernelHeap.owner L s) t := by
  ext j : 1
  rw [h.owner j, BlockMap.release]
  by_cases hj : t ≤ j ∧ j < t + n
  · rw [if_pos hj, if_pos ((hb.2 j).2 hj)]
  · rw [if_neg hj, if_neg (mt (hb.2 j).1 hj)]

/-- One `kfree` : of the start of a block, it releases the block; else it changes nothing. -/
theorem kfree_spec (h : Invariant L s) {va : Nat} (hk : kfree L s va = some s') :
    Invariant L s' ∧ (Unchanged L s s' ∨ ∃ t n, va = L.addr t ∧
      BlockMap.IsBlock (owner L s) t n ∧ Unmapped L s t (t + n) s') := by
  have hlo := start_le_of_kfree hk
  cases hinit : s.isKHpageEmpty with
  | true =>
    have hown := owner_of_not_init (L := L) hinit
    have hentry : ∀ i, i < L.pages → entry L s i = 0#32 := fun i hi =>
      h.unmapped i hi (by rw [hown])
    obtain ⟨s₁, hs₁, hinit', hmem, hent, hhand⟩ := kfreeLoop_not_init _ va s hinit hentry hlo
    obtain rfl : s₁ = s' := Option.some.inj (hs₁.symm.trans hk)
    have hown' := owner_of_not_init (L := L) hinit'
    have hun : Unchanged L s s₁ := ⟨by rw [hown, hown'], hmem, hent⟩
    refine ⟨⟨⟨?_, fun i hi _ => (hun.entry i).trans (hentry i hi), ?_, ?_, ?_⟩, ?_, ?_⟩,
      Or.inl hun⟩
    · simp [hown']
    · simp [hown']
    · simp [hown']
    · rw [hmem]
      exact h.frames
    · rw [hown']
      exact BlockMap.contiguous_none
    · rw [hhand]
      exact h.hand
  | false =>
    by_cases hva : ∃ t, va = L.addr t ∧ owner L s t = some t
    · obtain ⟨t, rfl, ht⟩ := hva
      obtain ⟨n, hb⟩ := h.contiguous.exists_isBlock
        (fun i hi => owner_eq_none_of_pages_le hi) ht
      obtain ⟨s₁, hs₁, hun⟩ := kfree_block h hinit hb
      obtain rfl : s₁ = s' := Option.some.inj (hs₁.symm.trans hk)
      refine ⟨⟨hun.synced, ?_, ?_⟩, Or.inr ⟨t, n, rfl, hb, hun⟩⟩
      · rw [hun.owner_eq hb]
        exact h.contiguous.release t
      · rw [hun.hand]
        exact h.hand
    · have := kfree_not_block h hinit hlo fun t ht hown => hva ⟨t, ht, hown⟩
      obtain rfl : s = s' := Option.some.inj (this.symm.trans hk)
      exact ⟨h, Or.inl ⟨rfl, rfl, rfl⟩⟩

/-! ## Runs -/

/-- The free frames and the pages of live blocks. -/
def total (L : KernelHeapLayout) (s : KernelHeap) : Nat :=
  s.memory.freeFrameList.length + (BlockMap.owned (owner L s) L.pages).card

theorem Unchanged.total_eq (h : Unchanged L s s') : total L s' = total L s := by
  rw [total, h.memory, h.owner, total]

theorem Allocated.total_eq {t n : Nat} (h : Allocated L s t n s') : total L s' = total L s := by
  obtain ⟨taken, hlist, hlen, -⟩ := h.frames
  rw [total, total, h.owner, BlockMap.card_owned_claim h.fits h.free, hlist, List.length_append]
  omega

theorem Unmapped.total_eq {t n : Nat} (hb : BlockMap.IsBlock (KernelHeap.owner L s) t n)
    (h : Unmapped L s t (t + n) s') : total L s' = total L s := by
  have hpos := hb.1
  have hend := lt_pages_of_owner ((hb.2 (t + n - 1)).2 (by omega))
  have hfits : t + n ≤ L.pages := by omega
  have hcard := BlockMap.card_owned_release hb hfits
  rw [total, total, h.owner_eq hb, h.frames, List.length_append, List.length_reverse,
    List.length_map, List.length_range']
  omega

/-- One call keeps the invariant and the total. -/
theorem step_invariant (h : Invariant L s) {c : Call} (hc : step L s c = some s') :
    Invariant L s' ∧ total L s' = total L s := by
  cases c with
  | kmalloc size =>
    obtain ⟨⟨p, s₁⟩, hk, rfl⟩ := Option.map_eq_some_iff.1 hc
    obtain ⟨hinv, ⟨-, hun⟩ | ⟨t, -, -, hal⟩⟩ := kmalloc_spec h hk
    · exact ⟨hinv, hun.total_eq⟩
    · exact ⟨hinv, hal.total_eq⟩
  | kfree va =>
    obtain ⟨hinv, hun | ⟨t, n, -, hb, hun⟩⟩ := kfree_spec h hc
    · exact ⟨hinv, hun.total_eq⟩
    · exact ⟨hinv, hun.total_eq hb⟩
  | setStrategy strategy =>
    obtain rfl := Option.some.inj hc
    exact ⟨⟨⟨h.tagged, h.unmapped, h.mapped, h.distinct, h.frames⟩, h.contiguous, h.hand⟩, rfl⟩

theorem Boot.invariant (h : Boot L s) : Invariant L s := by
  have hown := owner_of_not_init (L := L) h.uninitialized
  refine ⟨⟨?_, fun i hi _ => h.entries i hi, ?_, ?_, h.frames⟩, ?_, 0, Nat.zero_le _, h.hand⟩
  · simp [hown]
  · simp [hown]
  · simp [hown]
  · rw [hown]
    exact BlockMap.contiguous_none

/-- Every run from boot keeps the invariant and the total. -/
theorem run_invariant {s₀ : KernelHeap} (h₀ : Boot L s₀) {calls : List Call}
    (hr : Machine.run (step L) s₀ calls = some s) : Invariant L s ∧ total L s = total L s₀ := by
  refine Machine.run_induction (P := fun s => Invariant L s ∧ total L s = total L s₀) ?_
    ⟨h₀.invariant, rfl⟩ hr
  rintro s c s' ⟨hinv, htot⟩ hc
  obtain ⟨hinv', htot'⟩ := step_invariant hinv hc
  exact ⟨hinv', htot'.trans htot⟩

/-- The block at page `t` holds the frames `taken`, first page first. -/
def Holds (L : KernelHeapLayout) (s : KernelHeap) (t : Nat) (taken : List Nat) : Prop :=
  BlockMap.IsBlock (owner L s) t taken.length ∧
    ∀ k, (hk : k < taken.length) → frameAt L s (t + k) = taken[k]

/-- A block keeps its pages and its frames when another one is allocated. -/
theorem Holds.of_allocated {t u n : Nat} {taken : List Nat} (hb : Holds L s t taken)
    (hal : Allocated L s u n s') : Holds L s' t taken := by
  refine ⟨by rw [hal.owner]; exact hb.1.claim_other hal.free, fun k hk => ?_⟩
  rw [frameAt, hal.entries _ fun hmem => ?_]
  · exact hb.2 k hk
  · have := hal.free _ hmem.1 hmem.2
    rw [(hb.1.2 (t + k)).2 (by omega)] at this
    cases this

/-- A block keeps its pages and its frames until it is freed. -/
theorem step_holds (h : Invariant L s) {c : Call} (hc : step L s c = some s') {t : Nat}
    {taken : List Nat} (hb : Holds L s t taken) (hne : c ≠ .kfree (L.addr t)) :
    Holds L s' t taken := by
  have hown : ∀ k, k < taken.length → owner L s (t + k) = some t := fun k hk =>
    (hb.1.2 (t + k)).2 (by omega)
  have hsame : Unchanged L s s' → Holds L s' t taken := by
    intro hun
    refine ⟨by rw [hun.owner]; exact hb.1, fun k hk => ?_⟩
    rw [frameAt, hun.entry]
    exact hb.2 k hk
  cases c with
  | kmalloc size =>
    obtain ⟨⟨p, s₁⟩, hk, rfl⟩ := Option.map_eq_some_iff.1 hc
    obtain ⟨-, ⟨-, hun⟩ | ⟨u, -, -, hal⟩⟩ := kmalloc_spec h hk
    · exact hsame hun
    · exact hb.of_allocated hal
  | kfree va =>
    obtain ⟨-, hun | ⟨u, n, rfl, hbu, hun⟩⟩ := kfree_spec h hc
    · exact hsame hun
    · have htu : t ≠ u := fun htu => hne (by rw [htu])
      refine ⟨by rw [hun.owner_eq hbu]; exact hb.1.release_other htu, fun k hk => ?_⟩
      rw [frameAt, hun.entries _ fun hmem => ?_]
      · exact hb.2 k hk
      · have := (hbu.2 (t + k)).2 hmem
        rw [hown k hk] at this
        exact htu (Option.some.inj this)
  | setStrategy strategy =>
    obtain rfl := Option.some.inj hc
    exact hb

theorem run_holds {t : Nat} {taken : List Nat} :
    ∀ (calls : List Call) (s : KernelHeap), Invariant L s → Holds L s t taken →
      .kfree (L.addr t) ∉ calls → Machine.run (step L) s calls = some s' →
      Invariant L s' ∧ Holds L s' t taken
  | [], s, h, hb, _, hr => by
    obtain rfl := Option.some.inj hr
    exact ⟨h, hb⟩
  | c :: calls, s, h, hb, hne, hr => by
    obtain ⟨s₁, hc, hr⟩ := (Machine.run_cons_eq_some _).1 hr
    rw [List.mem_cons, not_or] at hne
    exact run_holds calls s₁ (step_invariant h hc).1 (step_holds h hc hb (Ne.symm hne.1)) hne.2 hr

/-- With a block, the table is in use. -/
theorem initialized_of_isBlock {t n : Nat} (hb : BlockMap.IsBlock (owner L s) t n) :
    s.isKHpageEmpty = false := by
  by_contra hne
  have hown := hb.owner_first
  rw [owner_of_not_init (by simpa using hne)] at hown
  cases hown

/-- What `kfree` of a block gives back. -/
theorem kfree_holds (h : Invariant L s) {t : Nat} {taken : List Nat} (hb : Holds L s t taken) :
    ∃ s', kfree L s (L.addr t) = some s' ∧
      s'.memory.freeFrameList = taken.reverse ++ s.memory.freeFrameList := by
  obtain ⟨s', hs', hun⟩ := kfree_block h (initialized_of_isBlock hb.1) hb.1
  refine ⟨s', hs', ?_⟩
  have hframes : (List.range' t (t + taken.length - t)).map (frameAt L s) = taken := by
    refine List.ext_getElem (by simp) fun k h1 h2 => ?_
    rw [List.getElem_map, List.getElem_range']
    simpa using hb.2 k h2
  rw [hun.frames, hframes]

/-! ## The state after a run -/

/-- The entry of a page is non-empty : the table is in use and `isEmpty` is clear. -/
def NonEmpty (s : KernelHeap) (i : Nat) : Prop :=
  s.isKHpageEmpty = false ∧ (s.kernelHeapPages i).isEmpty = false

/-- The `n` heap pages from page `first` are the non-empty pages that carry the address of
page `first`. -/
structure IsBlock (L : KernelHeapLayout) (s : KernelHeap) (first n : Nat) : Prop where
  pos : 0 < n
  fits : first + n ≤ L.pages
  tagged : ∀ i, i < L.pages → (NonEmpty s i ∧
    (s.kernelHeapPages i).startAddress = L.addr first ↔ first ≤ i ∧ i < first + n)

/-- The heap pages that are mapped. -/
def mappedPages (L : KernelHeapLayout) (s : KernelHeap) : Finset Nat :=
  (Finset.range L.pages).filter fun i => entry L s i ≠ 0#32

/-- The table, the mappings, the frames and the hand of the heap are consistent. -/
structure Consistent (L : KernelHeapLayout) (s : KernelHeap) : Prop where
  partitioned : ∀ i, i < L.pages → NonEmpty s i →
    ∃! b : Nat × Nat, IsBlock L s b.1 b.2 ∧ b.1 ≤ i ∧ i < b.1 + b.2
  mapped_iff : ∀ i, i < L.pages → (entry L s i ≠ 0#32 ↔ NonEmpty s i)
  backed : ∀ i, i < L.pages → NonEmpty s i → frameAt L s i < L.numberOfFrames ∧
    entry L s i = heapEntry (frameAt L s i) ∧
    (s.memory.framesInfo (frameAt L s i)).references = 1 ∧
    frameAt L s i ∉ s.memory.freeFrameList
  distinct : ∀ i j, i < L.pages → j < L.pages → NonEmpty s i → NonEmpty s j →
    frameAt L s i = frameAt L s j → i = j
  freeList : s.memory.freeFrameList.Nodup
  hand_aligned : s.lastAllocatedKHpage % pageSize = 0
  hand_inside : L.kernelHeapStart ≤ s.lastAllocatedKHpage ∧
    s.lastAllocatedKHpage ≤ L.kernelHeapMax

theorem owner_isSome_iff_nonEmpty {i : Nat} (hi : i < L.pages) :
    (owner L s i).isSome ↔ NonEmpty s i := by
  unfold owner NonEmpty
  split_ifs with h
  · simp [h.2]
  · simpa [hi] using h

theorem Invariant.isBlock_iff (h : Invariant L s) {first n : Nat} :
    IsBlock L s first n ↔ BlockMap.IsBlock (owner L s) first n := by
  have htag : ∀ i, i < L.pages → (NonEmpty s i ∧
      (s.kernelHeapPages i).startAddress = L.addr first ↔ owner L s i = some first) := by
    intro i hi
    constructor
    · rintro ⟨hne, hstart⟩
      exact (owner_eq_some_iff h.toSynced hne.1 hi).2 ⟨hne.2, hstart⟩
    · intro hown
      exact ⟨(owner_isSome_iff_nonEmpty hi).1 (by simp [hown]), h.tagged i first hown⟩
  constructor
  · intro hb
    refine ⟨hb.pos, fun i => ?_⟩
    have hfits := hb.fits
    by_cases hi : i < L.pages
    · rw [← htag i hi, hb.tagged i hi]
    · rw [owner_eq_none_of_pages_le (by omega)]
      constructor
      · intro hn
        cases hn
      · omega
  · intro hb
    have hpos := hb.1
    have hend := lt_pages_of_owner ((hb.2 (first + n - 1)).2 (by omega))
    exact ⟨hb.1, by omega, fun i hi => (htag i hi).trans (hb.2 i)⟩

theorem Invariant.entry_ne_zero_iff (h : Invariant L s) {i : Nat} (hi : i < L.pages) :
    entry L s i ≠ 0#32 ↔ NonEmpty s i := by
  rw [← owner_isSome_iff_nonEmpty hi]
  constructor
  · intro hne
    by_contra hnone
    exact hne (h.unmapped i hi (by simpa using hnone))
  · intro hsome
    obtain ⟨t, ht⟩ := Option.isSome_iff_exists.1 hsome
    obtain ⟨f, -, he, -, -⟩ := h.mapped i t ht
    rw [he]
    exact heapEntry_ne_zero f

theorem Invariant.consistent (h : Invariant L s) : Consistent L s := by
  obtain ⟨j, hj, hhand⟩ := h.hand
  have hstart := L.start_aligned
  have hmax := L.max_eq_addr
  refine ⟨fun i hi hne => ?_, fun i hi => h.entry_ne_zero_iff hi, fun i hi hne => ?_,
    fun i k hi hk hne hne' hf => ?_, h.frames.nodup, ?_, ?_⟩
  · have hsome := (owner_isSome_iff_nonEmpty hi).2 hne
    have hblock := h.contiguous.existsUnique_block (fun i hi => owner_eq_none_of_pages_le hi) hsome
    simpa only [h.isBlock_iff] using hblock
  · obtain ⟨t, ht⟩ := Option.isSome_iff_exists.1 ((owner_isSome_iff_nonEmpty hi).2 hne)
    exact h.frameAt_spec ht
  · have hsome := (owner_isSome_iff_nonEmpty hi).2 hne
    have hsome' := (owner_isSome_iff_nonEmpty hk).2 hne'
    obtain ⟨t, ht⟩ := Option.isSome_iff_exists.1 hsome
    obtain ⟨u, hu⟩ := Option.isSome_iff_exists.1 hsome'
    refine h.distinct i k hsome hsome' ?_
    rw [(h.frameAt_spec ht).2.1, (h.frameAt_spec hu).2.1, hf]
  · rw [hhand]
    unfold KernelHeapLayout.addr pageSize at *
    omega
  · rw [hhand, hmax]
    unfold KernelHeapLayout.addr pageSize
    omega

theorem Invariant.card_mappedPages (h : Invariant L s) :
    (mappedPages L s).card = (BlockMap.owned (owner L s) L.pages).card := by
  congr 1
  ext i
  rw [mappedPages, Finset.mem_filter, Finset.mem_range, BlockMap.mem_owned]
  refine and_congr_right fun hi => ?_
  rw [h.entry_ne_zero_iff hi, owner_isSome_iff_nonEmpty hi]

theorem Boot.card_mappedPages (h : Boot L s) : (mappedPages L s).card = 0 := by
  rw [h.invariant.card_mappedPages, owner_of_not_init h.uninitialized]
  simp [BlockMap.owned]

/-- After every run from boot the heap is consistent and no frame is lost, and freeing a
block gives back exactly the frames that its `kmalloc` took from the free list. -/
theorem kernelHeap_consistent {s₀ : KernelHeap} (h₀ : Boot L s₀) {calls : List Call}
    (hr : Machine.run (step L) s₀ calls = some s) :
    Consistent L s ∧
    s.memory.freeFrameList.length + (mappedPages L s).card = s₀.memory.freeFrameList.length ∧
    ∀ size p s₁ later s₂, kmalloc L s size = some (p, s₁) → p ≠ 0 →
      0 < roundUp size pageSize → .kfree p ∉ later →
      Machine.run (step L) s₁ later = some s₂ →
      ∃ taken s₃, s.memory.freeFrameList = taken ++ s₁.memory.freeFrameList ∧
        taken.length = roundUp size pageSize / pageSize ∧ kfree L s₂ p = some s₃ ∧
        s₃.memory.freeFrameList = taken.reverse ++ s₂.memory.freeFrameList := by
  obtain ⟨hinv, htot⟩ := run_invariant h₀ hr
  refine ⟨hinv.consistent, ?_, fun size p s₁ later s₂ hk hp hsize hne hlater => ?_⟩
  · have h1 := hinv.card_mappedPages
    have h2 := h₀.invariant.card_mappedPages
    rw [h₀.card_mappedPages] at h2
    unfold total at htot
    omega
  · obtain ⟨hinv₁, ⟨rfl, -⟩ | ⟨t, rfl, -, hal⟩⟩ := kmalloc_spec hinv hk
    · exact absurd rfl hp
    · obtain ⟨taken, hlist, hlen, hframes⟩ := hal.frames
      have hpos : 0 < roundUp size pageSize / pageSize := by
        have := roundUp_mod size pageSize
        unfold pageSize at *
        omega
      have hblock := BlockMap.isBlock_claim hinv.contiguous hal.free hpos
      rw [← hal.owner, ← hlen] at hblock
      obtain ⟨hinv₂, hholds⟩ := run_holds later s₁ hinv₁ ⟨hblock, hframes⟩ hne hlater
      obtain ⟨s₃, hs₃, hfree⟩ := kfree_holds hinv₂ hholds
      exact ⟨taken, s₃, hlist, hlen, hs₃, hfree⟩

/-- A heap of three pages at the address the kernel uses, with five frames. -/
def smallLayout : KernelHeapLayout where
  kernelHeapStart := 0xF6000000
  kernelHeapMax := 0xF6003000
  numberOfFrames := 5
  start_lt_max := by decide
  max_le := by decide
  start_aligned := by decide
  max_aligned := by decide
  numberOfFrames_le := by decide

/-- The small heap at boot, with four free frames. -/
def smallHeap : KernelHeap where
  kernelHeapPages _ := ⟨0, false⟩
  lastAllocatedKHpage := 0xF6000000
  isKHpageEmpty := true
  kHeapPlacementStrategy := .bestFit
  kernelEntries _ := 0#32
  memory := ⟨fun _ => initializeFrameInfo, [4, 3, 2, 1], fun _ _ => none⟩

theorem smallHeap_boot : Boot smallLayout smallHeap :=
  ⟨fun _ => rfl, rfl, rfl, fun _ _ => rfl, by decide, by decide, by decide⟩

theorem smallHeap_consistent : ∃ s,
    Machine.run (step smallLayout) smallHeap [.kmalloc 5000, .kfree 0xF6001000] = some s ∧
      Consistent smallLayout s ∧
      s.memory.freeFrameList.length + (mappedPages smallLayout s).card = 4 := by
  have hrun : (Machine.run (step smallLayout) smallHeap
      [.kmalloc 5000, .kfree 0xF6001000]).isSome = true := by decide
  obtain ⟨s, hs⟩ := Option.isSome_iff_exists.1 hrun
  have h := kernelHeap_consistent smallHeap_boot hs
  exact ⟨s, hs, h.1, h.2.1⟩

/-- The table read as the array is declared : every entry with `isEmpty` clear carries the
address of a heap page up to its own, and the heap pages with `isEmpty` clear are the
mapped ones. -/
def TableAsDeclared (L : KernelHeapLayout) (s : KernelHeap) : Prop :=
  (∀ i, i < L.maxKernelHeapPages → (s.kernelHeapPages i).isEmpty = false →
    ∃ first, first ≤ i ∧ (s.kernelHeapPages i).startAddress = L.addr first) ∧
  ∀ i, i < L.pages → (entry L s i ≠ 0#32 ↔ (s.kernelHeapPages i).isEmpty = false)

/-- The table is zeroed memory before the first `kmalloc`, and its spare entry stays
zeroed after it. -/
theorem tableAsDeclared_counterexample : Boot smallLayout smallHeap ∧
    ¬TableAsDeclared smallLayout smallHeap ∧
    ∃ s, Machine.run (step smallLayout) smallHeap [.kmalloc 1] = some s ∧
      ¬TableAsDeclared smallLayout s := by
  refine ⟨smallHeap_boot, fun h => ?_, ?_⟩
  · exact (h.2 0 (by decide)).2 rfl rfl
  · have hspare : (Machine.run (step smallLayout) smallHeap [.kmalloc 1]).map
        (fun s => s.kernelHeapPages 3) = some ⟨0, false⟩ := by decide
    obtain ⟨s, hs, h3⟩ := Option.map_eq_some_iff.1 hspare
    refine ⟨s, hs, fun h => ?_⟩
    obtain ⟨first, -, hfirst⟩ := h.1 3 (by decide) (by rw [h3])
    have hstart : smallLayout.kernelHeapStart ≤ 0 := by
      rw [h3] at hfirst
      exact le_of_le_of_eq (Nat.le_add_right _ _) hfirst.symm
    exact absurd hstart (by decide)

end KernelHeap

end FosKernel
