import FosKernel.UserHeapInvariant

/-!
# Runs of the user heap

A `Ledger` is a program's heap with the requested size of each live allocation : the
addresses `malloc` returned that were not freed since. `Records.malloc` and `Records.free`
say that `malloc` and the `free` of a live allocation keep what the table and the page file
record of the live allocations, under any search that finds free pages. `Invariant` is that
under next fit, and `userHeap_agrees` what holds after every run.

Before the first `malloc` the table is zeroed static memory, in which every entry has
`isEmpty = 0` : what the table says holds once `isUserHeapEmpty` is clear
(`tableFromStart_counterexample`).
-/

namespace FosKernel

namespace UserHeap

variable {P : Type} {L : UserHeapLayout} {pf : PageFile P} {s s' : UserHeap P}

/-! ## The ledger -/

/-- A heap with the requested size of each live allocation. -/
structure Ledger (P : Type) where
  heap : UserHeap P
  live : Nat → Option Nat

/-- The live allocations after a call that returned `p`. -/
def liveAfter (live : Nat → Option Nat) (p : Nat) : Call → Nat → Option Nat
  | .malloc size _ _ => if p = 0 then live else Function.update live p (some size)
  | .free va => Function.update live va none

/-- One call, with the live allocations. -/
def ledgerStep (L : UserHeapLayout) (pf : PageFile P) (c : Ledger P) (call : Call) :
    Option (Ledger P) :=
  (step L pf c.heap call).map fun (p, s) => ⟨s, liveAfter c.live p call⟩

/-- `malloc` is called with a 32-bit size, and `free` with a live allocation. -/
def Admissible (c : Ledger P) : Call → Prop
  | .malloc size _ _ => size < 4294967296
  | .free va => (c.live va).isSome

instance (c : Ledger P) : ∀ call, Decidable (Admissible c call)
  | .malloc size _ _ => inferInstanceAs (Decidable (size < 4294967296))
  | .free va => inferInstanceAs (Decidable ((c.live va).isSome = true))

/-- A program as it is loaded, with next fit : its static memory is zero. -/
def loaded (L : UserHeapLayout) (env : Nat) (kernel : UserMemory P) : Ledger P where
  heap :=
    { userHeapPages := fun _ => ⟨0, false, 0⟩
      lastAllocatedUHpage := L.userHeapStart
      isUserHeapEmpty := true
      uHeapPlacementStrategy := .nextFit
      env := env
      kernel := kernel }
  live := fun _ => none

/-- The live allocations are the blocks of the table, and the page file has their pages. -/
structure Records (L : UserHeapLayout) (pf : PageFile P) (c : Ledger P) : Prop where
  hand : ∃ j, j ≤ L.userHeapMaxPages ∧ c.heap.lastAllocatedUHpage = L.heapAddr j
  contiguous : BlockMap.Contiguous (owner L c.heap)
  live_block : ∀ p size, c.live p = some size → size ≤ roundUp size pageSize ∧
    ∃ t, p = L.heapAddr t ∧
      BlockMap.IsBlock (owner L c.heap) t (roundUp size pageSize / pageSize)
  tagged : ∀ i t, owner L c.heap i = some t → ∃ size, c.live (L.heapAddr t) = some size ∧
    c.heap.userHeapPages i = ⟨L.heapAddr t, false, roundUp size pageSize⟩
  pageFile : ∀ i, i < L.userHeapMaxPages →
    (pf.Has c.heap.kernel.pageFile c.heap.env (L.heapAddr i) ↔ (owner L c.heap i).isSome)

/-- `Records` under the strategy that the heap starts with. -/
structure Invariant (L : UserHeapLayout) (pf : PageFile P) (c : Ledger P) : Prop extends
    Records L pf c where
  strategy : c.heap.uHeapPlacementStrategy = .nextFit

/-! ## malloc -/

/-- The table `malloc` searches : it runs `initializaKernelHeapPages` once. -/
def prepared (L : UserHeapLayout) (s : UserHeap P) : UserHeap P :=
  if s.isUserHeapEmpty then s.initializaKernelHeapPages L else s

theorem prepared_initialized : (prepared L s).isUserHeapEmpty = false := by
  unfold prepared
  split_ifs with h
  · rfl
  · simpa using h

theorem prepared_owner : owner L (prepared L s) = owner L s := by
  unfold prepared
  split_ifs with h
  · rw [owner_of_not_init h]
    ext i : 1
    by_cases hi : i < L.userHeapMaxPages <;> simp [owner, initializaKernelHeapPages, hi]
  · rfl

theorem prepared_fields : (prepared L s).lastAllocatedUHpage = s.lastAllocatedUHpage ∧
    (prepared L s).uHeapPlacementStrategy = s.uHeapPlacementStrategy ∧
    (prepared L s).env = s.env ∧ (prepared L s).kernel = s.kernel := by
  unfold prepared
  split_ifs <;> exact ⟨rfl, rfl, rfl, rfl⟩

/-- The table is initialized as soon as a page is owned. -/
theorem prepared_of_owner {i t : Nat} (h : owner L s i = some t) : prepared L s = s := by
  unfold prepared
  split_ifs with hinit
  · rw [owner_of_not_init hinit] at h
    cases h
  · rfl

theorem Records.prepared {c : Ledger P} (h : Records L pf c) :
    Records L pf ⟨prepared L c.heap, c.live⟩ := by
  obtain ⟨hhand, -, henv, hkernel⟩ := prepared_fields (L := L) (s := c.heap)
  obtain ⟨j, hj, hlast⟩ := h.hand
  refine ⟨⟨j, hj, hhand.trans hlast⟩, ?_, fun p size hp => ?_, fun i t ht => ?_,
    fun i hi => ?_⟩
  · rw [prepared_owner]
    exact h.contiguous
  · rw [prepared_owner]
    exact h.live_block p size hp
  · rw [prepared_owner] at ht
    rw [prepared_of_owner ht]
    exact h.tagged i t ht
  · rw [henv, hkernel, prepared_owner]
    exact h.pageFile i hi

/-- Under next fit the search returns the start of a free run of pages. -/
theorem findPlace_sound (hstrategy : s.uHeapPlacementStrategy = .nextFit)
    (hinit : s.isUserHeapEmpty = false) {j n unset : Nat} (hj : j ≤ L.userHeapMaxPages)
    (hand : s.lastAllocatedUHpage = L.heapAddr j)
    (h : s.findPlace L (pageSize * n) unset ≠ 0) :
    ∃ k, s.findPlace L (pageSize * n) unset = L.heapAddr k ∧ 0 < n ∧
      k + n ≤ L.userHeapMaxPages ∧ BlockMap.FreeRun (owner L s) k n := by
  have hplace : s.findPlace L (pageSize * n) unset = s.nextFit L (pageSize * n) := by
    simp [findPlace, hstrategy]
  rw [hplace] at h ⊢
  unfold nextFit at h ⊢
  rw [hand, UserHeapLayout.userHeapMax_eq] at h ⊢
  obtain ⟨k, hk, hn, hkn, hrun⟩ := PageSearch.nextFit_sound hj h
  refine ⟨k, hk, hn, hkn, fun i hlo hhi => ?_⟩
  have hemp : (s.userHeapPages i).isEmpty = true := hrun i hlo hhi
  have hnot := mt (owner_isSome_iff (L := L) hinit (i := i) (by omega)).1 (by simp [hemp])
  simpa using hnot

/-- `malloc` returned the block of `n` pages at page `t`. -/
def allocated (L : UserHeapLayout) (s : UserHeap P) (t n : Nat) (kernel : UserMemory P) :
    UserHeap P :=
  { fill { s with kernel := kernel } t n fun _ => ⟨L.heapAddr t, false, pageSize * n⟩ with
    lastAllocatedUHpage := L.heapAddr (t + n) }

theorem malloc_eq {size unset place rounded : Nat} {noSpace : Bool}
    (hsize : roundUp size pageSize = rounded)
    (h : (prepared L s).findPlace L rounded unset = place) :
    s.malloc L pf size unset noSpace =
      if place = 0 then some (0, prepared L s)
      else
        ((prepared L s).kernel.allocateMem pf (prepared L s).env place rounded noSpace).bind
          fun kernel =>
            (mallocLoop L place rounded (rounded / pageSize) place
              { prepared L s with kernel := kernel }).bind fun s' =>
                some (place, { s' with
                  lastAllocatedUHpage := u32 (place + pageSize * (rounded / pageSize)) }) := by
  subst hsize h
  rfl

/-- `malloc` with a place has it added to the page file. -/
theorem malloc_of_place (hfull : pf.NeverFull) (hkeeps : pf.KeepsPages) {size unset t n : Nat}
    (noSpace : Bool) (hsize : roundUp size pageSize = pageSize * n) (hn : 0 < n)
    (htn : t + n ≤ L.userHeapMaxPages) (ht : L.heapAddr t ≠ 0)
    (h : (prepared L s).findPlace L (pageSize * n) unset = L.heapAddr t) :
    ∃ kernel, s.malloc L pf size unset noSpace =
        some (L.heapAddr t, allocated L (prepared L s) t n kernel) ∧
      ∀ i, pf.Has kernel.pageFile s.env (L.heapAddr i) ↔
        (t ≤ i ∧ i < t + n) ∨ pf.Has s.kernel.pageFile s.env (L.heapAddr i) := by
  have hdiv : pageSize * n / pageSize = n := Nat.mul_div_cancel_left n (by decide)
  have htrips : (pageSize * n + (pageSize - 1)) / pageSize = n := by
    unfold pageSize
    omega
  have hend : u32 (L.heapAddr t + pageSize * n) = L.heapAddr (t + n) := by
    have heq : L.heapAddr t + pageSize * n = L.heapAddr (t + n) := by
      unfold UserHeapLayout.heapAddr pageSize
      omega
    rw [heq]
    exact Nat.mod_eq_of_lt (UserHeapLayout.heapAddr_lt htn)
  obtain ⟨-, -, henv, hkernel⟩ := prepared_fields (L := L) (s := s)
  obtain ⟨p', hloop, hhas⟩ := UserMemory.allocateMemLoop_spec hfull hkeeps s.env n
    noSpace s.kernel.pageFile (UserHeapLayout.heapAddr_aligned (L := L) t)
  have hcall : (prepared L s).kernel.allocateMem pf (prepared L s).env (L.heapAddr t)
      (pageSize * n) noSpace = some { s.kernel with pageFile := p' } := by
    have hne : (n == 0) = false := beq_false_of_ne hn.ne'
    simp [UserMemory.allocateMem, henv, hkernel, htrips, hloop, hne]
  refine ⟨{ s.kernel with pageFile := p' }, ?_, fun i => ?_⟩
  · rw [malloc_eq hsize h, if_neg ht, hcall, Option.bind_some, hdiv, mallocLoop_spec n t _ htn,
      Option.bind_some, hend]
    rfl
  · rw [hhas _ _ (UserHeapLayout.heapAddr_aligned i)]
    refine or_congr_left ?_
    unfold UserHeapLayout.heapAddr pageSize
    omega

/-- The search of `malloc` finds a free run of at least one page, or fails. -/
def Places (L : UserHeapLayout) (s : UserHeap P) (size unset : Nat) : Prop :=
  ∀ n, roundUp size pageSize = pageSize * n → s.findPlace L (pageSize * n) unset ≠ 0 →
    ∃ k, s.findPlace L (pageSize * n) unset = L.heapAddr k ∧ 0 < n ∧
      k + n ≤ L.userHeapMaxPages ∧ BlockMap.FreeRun (owner L s) k n

/-- `malloc(size)` was given the `n` free pages from page `t`, and the page file has them. -/
structure Returned (L : UserHeapLayout) (pf : PageFile P) (s : UserHeap P) (size t n : Nat)
    (kernel : UserMemory P) : Prop where
  rounded : roundUp size pageSize = pageSize * n
  size_le : size ≤ roundUp size pageSize
  pos : 0 < n
  fits : t + n ≤ L.userHeapMaxPages
  free : BlockMap.FreeRun (owner L s) t n
  address : L.heapAddr t ≠ 0
  pageFile : ∀ i, pf.Has kernel.pageFile s.env (L.heapAddr i) ↔
    (t ≤ i ∧ i < t + n) ∨ pf.Has s.kernel.pageFile s.env (L.heapAddr i)

/-- `malloc` returns : null with nothing done, or a block. -/
theorem malloc_cases (hfull : pf.NeverFull) (hkeeps : pf.KeepsPages) {size unset : Nat}
    (hsize : size < 4294967296) (noSpace : Bool) (hplaces : Places L (prepared L s) size unset) :
    s.malloc L pf size unset noSpace = some (0, prepared L s) ∨
      ∃ t n kernel, s.malloc L pf size unset noSpace =
        some (L.heapAddr t, allocated L (prepared L s) t n kernel) ∧
        Returned L pf s size t n kernel := by
  obtain ⟨n, hn, -⟩ := exists_pages size
  by_cases hzero : (prepared L s).findPlace L (pageSize * n) unset = 0
  · exact Or.inl ((malloc_eq hn hzero).trans (if_pos rfl))
  · obtain ⟨t, ht, hpos, htn, hfree⟩ := hplaces n hn hzero
    have ht0 : L.heapAddr t ≠ 0 := fun h0 => hzero (ht.trans h0)
    -- A size that rounds to zero finds no place, so the rounding did not wrap.
    have hle : size ≤ roundUp size pageSize := by
      refine le_roundUp_pageSize ?_
      by_contra hlarge
      have h0 := roundUp_pageSize_eq_zero (a := size) (by omega) hsize
      rw [hn] at h0
      unfold pageSize at h0
      omega
    obtain ⟨kernel, hmalloc, hhas⟩ := malloc_of_place hfull hkeeps noSpace hn hpos htn ht0 ht
    rw [prepared_owner] at hfree
    exact Or.inr ⟨t, n, kernel, hmalloc, hn, hle, hpos, htn, hfree, ht0, hhas⟩

theorem owner_allocated {t n : Nat} (htn : t + n ≤ L.userHeapMaxPages)
    (kernel : UserMemory P) :
    owner L (allocated L (prepared L s) t n kernel) = BlockMap.claim (owner L s) t n := by
  have hinit : { prepared L s with kernel := kernel }.isUserHeapEmpty = false :=
    prepared_initialized
  have h := @owner_fill_block P L _ hinit t n (pageSize * n) htn
  exact h.trans (congrArg (fun o => BlockMap.claim o t n) prepared_owner)

/-- The live allocations and the table after `malloc` returned a block. -/
theorem Records.allocated {c : Ledger P} (h : Records L pf c) {size t n : Nat}
    {kernel : UserMemory P} (hret : Returned L pf c.heap size t n kernel) :
    Records L pf ⟨allocated L (UserHeap.prepared L c.heap) t n kernel,
      Function.update c.live (L.heapAddr t) (some size)⟩ := by
  have hpos := hret.pos
  have hdiv : roundUp size pageSize / pageSize = n := by
    rw [hret.rounded]
    exact Nat.mul_div_cancel_left n (by decide)
  have hown := owner_allocated (s := c.heap) hret.fits kernel
  obtain ⟨-, -, henv, -⟩ := prepared_fields (L := L) (s := c.heap)
  -- The first page of a live allocation is owned, so it is none of the pages just taken.
  have hne : ∀ p sz, c.live p = some sz → p ≠ L.heapAddr t := by
    rintro p sz hp rfl
    obtain ⟨-, u, hu, hb⟩ := h.live_block _ sz hp
    obtain rfl := UserHeapLayout.heapAddr_inj.1 hu
    have hnone := hret.free t le_rfl (by omega)
    rw [hb.owner_first] at hnone
    cases hnone
  refine ⟨⟨t + n, hret.fits, rfl⟩, ?_, fun p sz hp => ?_, fun i u hu => ?_, fun i hi => ?_⟩
  · rw [hown]
    exact h.contiguous.claim hret.free
  · change Function.update c.live _ _ p = _ at hp
    rw [hown]
    by_cases hpt : p = L.heapAddr t
    · subst hpt
      rw [Function.update_self, Option.some.injEq] at hp
      subst hp
      refine ⟨hret.size_le, t, rfl, ?_⟩
      rw [hdiv]
      exact BlockMap.isBlock_claim h.contiguous hret.free hpos
    · rw [Function.update_of_ne hpt] at hp
      obtain ⟨hsz, u, hu, hb⟩ := h.live_block p sz hp
      exact ⟨hsz, u, hu, hb.claim_other hret.free⟩
  · rw [hown] at hu
    by_cases hi : t ≤ i ∧ i < t + n
    · rw [BlockMap.claim_of_mem hi, Option.some.injEq] at hu
      subst hu
      refine ⟨size, Function.update_self .., ?_⟩
      rw [hret.rounded]
      exact if_pos hi
    · rw [BlockMap.claim_of_not_mem hi] at hu
      obtain ⟨sz, hlive, hpage⟩ := h.tagged i u hu
      refine ⟨sz, (Function.update_of_ne (hne _ sz hlive) ..).trans hlive, ?_⟩
      rw [← hpage, ← congrArg userHeapPages (prepared_of_owner hu)]
      exact if_neg hi
  · rw [hown]
    refine (congrArg (fun env => pf.Has kernel.pageFile env _) henv).to_iff.trans
      ((hret.pageFile i).trans ?_)
    by_cases hmem : t ≤ i ∧ i < t + n
    · rw [BlockMap.claim_of_mem hmem]
      simp [hmem]
    · rw [BlockMap.claim_of_not_mem hmem, h.pageFile i hi]
      simp [hmem]

/-- `malloc` returns, keeps the records, and leaves the table initialized. -/
theorem Records.malloc (hfull : pf.NeverFull) (hkeeps : pf.KeepsPages) {c : Ledger P}
    (h : Records L pf c) {size unset : Nat} (hsize : size < 4294967296) (noSpace : Bool)
    (hplaces : Places L (UserHeap.prepared L c.heap) size unset) :
    ∃ c', ledgerStep L pf c (.malloc size unset noSpace) = some c' ∧ Records L pf c' ∧
      c'.heap.isUserHeapEmpty = false ∧
      c'.heap.uHeapPlacementStrategy = c.heap.uHeapPlacementStrategy := by
  obtain ⟨-, hstrategy, -, -⟩ := prepared_fields (L := L) (s := c.heap)
  obtain hmalloc | ⟨t, n, kernel, hmalloc, hret⟩ :=
    malloc_cases hfull hkeeps hsize noSpace hplaces
  · refine ⟨⟨UserHeap.prepared L c.heap, c.live⟩, ?_, h.prepared, prepared_initialized,
      hstrategy⟩
    simp [ledgerStep, step, hmalloc, liveAfter]
  · refine ⟨⟨UserHeap.allocated L (UserHeap.prepared L c.heap) t n kernel,
      Function.update c.live (L.heapAddr t) (some size)⟩, ?_, h.allocated hret,
      prepared_initialized, hstrategy⟩
    simp [ledgerStep, step, hmalloc, liveAfter, hret.address]

/-- `malloc` returns, keeps the invariant, and leaves the table initialized. -/
theorem malloc_spec (hfull : pf.NeverFull) (hkeeps : pf.KeepsPages) {c : Ledger P}
    (h : Invariant L pf c) {size : Nat} (hsize : size < 4294967296) (unset : Nat)
    (noSpace : Bool) :
    ∃ c', ledgerStep L pf c (.malloc size unset noSpace) = some c' ∧ Invariant L pf c' ∧
      c'.heap.isUserHeapEmpty = false := by
  obtain ⟨hhand, hstrategy, -, -⟩ := prepared_fields (L := L) (s := c.heap)
  obtain ⟨j, hj, hlast⟩ := h.hand
  have hplaces : Places L (prepared L c.heap) size unset := fun n _ hzero =>
    findPlace_sound (hstrategy.trans h.strategy) prepared_initialized hj (hhand.trans hlast) hzero
  obtain ⟨c', hc', hrecords, hinit, hkept⟩ := h.toRecords.malloc hfull hkeeps hsize noSpace hplaces
  exact ⟨c', hc', ⟨hrecords, hkept.trans h.strategy⟩, hinit⟩

/-! ## free -/

/-- The table and the kernel after the block of `n` pages at page `t` is freed. -/
def released (L : UserHeapLayout) (s : UserHeap P) (t n : Nat) (kernel : UserMemory P) :
    UserHeap P :=
  fill { s with kernel := kernel } t n fun i => ⟨L.heapAddr i, true, 0⟩

/-- `free` of a block : the kernel's `freeMem` of its pages, and then the table's entries. -/
theorem free_of_block {t n : Nat}
    (hb : BlockMap.IsBlock (owner L s) t n)
    (hsize : (s.userHeapPages t).size = pageSize * n) :
    s.free L pf (L.heapAddr t) =
      (s.kernel.freeMem L.toUserLayout pf s.env (L.heapAddr t) (pageSize * n)).map fun kernel =>
        released L s t n kernel := by
  have hpos := hb.1
  have hfirst : t < L.userHeapMaxPages := lt_pages_of_owner (by rw [hb.owner_first]; rfl)
  have hlast : t + n - 1 < L.userHeapMaxPages :=
    lt_pages_of_owner (by rw [(hb.2 (t + n - 1)).2 (by omega)]; rfl)
  have hdiv : pageSize * n / pageSize = n := Nat.mul_div_cancel_left n (by decide)
  have hpage : s.page L (UserHeap.userHeapPageIndex L (L.heapAddr t)) =
      some (s.userHeapPages t) := by
    rw [UserHeapLayout.userHeapPageIndex_heapAddr hfirst.le]
    exact if_pos hfirst
  unfold free
  rw [hpage, Option.bind_eq_bind, Option.bind_some, hsize, hdiv, Option.map_eq_bind]
  refine Option.bind_congr fun kernel _ => ?_
  exact freeLoop_spec n t _ (by omega)

/-- A live allocation is a block of the table, and the block's first entry has its size. -/
theorem Records.block_of_live {c : Ledger P} (h : Records L pf c) {va size : Nat}
    (hlive : c.live va = some size) :
    ∃ t n, va = L.heapAddr t ∧ roundUp size pageSize = pageSize * n ∧
      BlockMap.IsBlock (owner L c.heap) t n ∧ (c.heap.userHeapPages t).size = pageSize * n ∧
      c.heap.isUserHeapEmpty = false := by
  obtain ⟨-, t, rfl, hb⟩ := h.live_block va size hlive
  obtain ⟨n, hn, hdiv⟩ := exists_pages size
  rw [hn, hdiv] at hb
  refine ⟨t, n, rfl, hn, hb, ?_, ?_⟩
  · obtain ⟨sz, hsz, hpage⟩ := h.tagged t t hb.owner_first
    obtain rfl := Option.some.inj (hlive.symm.trans hsz)
    rw [hpage, hn]
  · by_contra hne
    have hown := hb.owner_first
    rw [owner_of_not_init (by simpa using hne)] at hown
    cases hown

/-- The live allocations and the table after a block is freed. -/
theorem Records.released (hkeeps : pf.KeepsPages) {c : Ledger P} (h : Records L pf c)
    {t n : Nat} {kernel : UserMemory P} (hb : BlockMap.IsBlock (owner L c.heap) t n)
    (hkernel : c.heap.kernel.freeMem L.toUserLayout pf c.heap.env (L.heapAddr t)
      (pageSize * n) = some kernel) :
    Records L pf ⟨released L c.heap t n kernel,
      Function.update c.live (L.heapAddr t) none⟩ := by
  have hown : owner L (UserHeap.released L c.heap t n kernel) =
      BlockMap.release (owner L c.heap) t :=
    owner_fill_empty (s := { c.heap with kernel := kernel }) hb
  refine ⟨h.hand, ?_, fun p sz hp => ?_, fun i u hu => ?_, fun i hi => ?_⟩
  · rw [hown]
    exact h.contiguous.release t
  · change Function.update c.live _ _ p = _ at hp
    have hpt : p ≠ L.heapAddr t := by
      rintro rfl
      rw [Function.update_self] at hp
      cases hp
    rw [Function.update_of_ne hpt] at hp
    obtain ⟨hle, u, rfl, hbu⟩ := h.live_block p sz hp
    rw [hown]
    exact ⟨hle, u, rfl, hbu.release_other fun hut => hpt (by rw [hut])⟩
  · rw [hown, BlockMap.release] at hu
    split_ifs at hu with htag
    obtain ⟨sz, hsz, hpg⟩ := h.tagged i u hu
    have hut : L.heapAddr u ≠ L.heapAddr t := fun heq =>
      htag (by rw [hu, UserHeapLayout.heapAddr_inj.1 heq])
    have hmem : ¬(t ≤ i ∧ i < t + n) := mt (hb.2 i).2 htag
    exact ⟨sz, (Function.update_of_ne hut ..).trans hsz, (if_neg hmem).trans hpg⟩
  · rw [hown, BlockMap.release]
    change pf.Has kernel.pageFile c.heap.env (L.heapAddr i) ↔ _
    rw [(UserMemory.freeMem_effect hkernel).pageFile, UserMemory.freeAllPagees_spec hkeeps _ _
      (UserHeapLayout.heapAddr_aligned t) _ _ (UserHeapLayout.heapAddr_aligned i),
      h.pageFile i hi, Nat.mul_div_cancel_left n (by decide)]
    have hmem : L.heapAddr t ≤ L.heapAddr i ∧ L.heapAddr i < L.heapAddr t + pageSize * n ↔
        owner L c.heap i = some t := by
      rw [hb.2 i]
      unfold UserHeapLayout.heapAddr pageSize
      omega
    simp only [true_and, hmem]
    split_ifs with htag <;> simp [htag]

/-- `free` of a live allocation returns if the kernel's `freeMem` of its pages does, keeps
the records, and leaves the table initialized. -/
theorem Records.free (hkeeps : pf.KeepsPages) {c : Ledger P} (h : Records L pf c)
    {va size : Nat} (hlive : c.live va = some size) :
    ((ledgerStep L pf c (.free va)).isSome ↔ (c.heap.kernel.freeMem L.toUserLayout pf
      c.heap.env va (roundUp size pageSize)).isSome) ∧
    (∀ c', ledgerStep L pf c (.free va) = some c' →
      Records L pf c' ∧ c'.heap.isUserHeapEmpty = false ∧
        c'.heap.uHeapPlacementStrategy = c.heap.uHeapPlacementStrategy) := by
  obtain ⟨t, n, rfl, hn, hb, hsize, hinit⟩ := h.block_of_live hlive
  have hfree : c.heap.free L pf (L.heapAddr t) = _ := free_of_block hb hsize
  have hstep : ledgerStep L pf c (.free (L.heapAddr t)) =
      (c.heap.kernel.freeMem L.toUserLayout pf c.heap.env (L.heapAddr t) (pageSize * n)).map
        fun kernel => ⟨UserHeap.released L c.heap t n kernel,
          Function.update c.live (L.heapAddr t) none⟩ := by
    simp [ledgerStep, step, hfree, liveAfter, Function.comp_def]
  rw [hstep, hn, Option.isSome_map]
  refine ⟨Iff.rfl, fun c' hc => ?_⟩
  obtain ⟨kernel, hkernel, rfl⟩ := Option.map_eq_some_iff.1 hc
  exact ⟨h.released hkeeps hb hkernel, hinit, rfl⟩

/-! ## The state after a run -/

theorem loaded_invariant {env : Nat} {kernel : UserMemory P}
    (hempty : ∀ i, i < L.userHeapMaxPages → ¬ pf.Has kernel.pageFile env (L.heapAddr i)) :
    Invariant L pf (loaded L env kernel) := by
  have hown : owner L (loaded L env kernel).heap = fun _ => none := owner_of_not_init rfl
  refine ⟨⟨⟨0, Nat.zero_le _, rfl⟩, ?_, fun p size hp => ?_, fun i t ht => ?_,
    fun i hi => ?_⟩, rfl⟩
  · rw [hown]
    exact BlockMap.contiguous_none
  · cases hp
  · rw [hown] at ht
    cases ht
  · rw [hown]
    exact iff_of_false (hempty i hi) (by simp)

theorem step_invariant (hfull : pf.NeverFull) (hkeeps : pf.KeepsPages) {c c' : Ledger P}
    {call : Call} (h : Invariant L pf c) (hok : Admissible c call)
    (hc : ledgerStep L pf c call = some c') :
    Invariant L pf c' ∧ c'.heap.isUserHeapEmpty = false := by
  cases call with
  | malloc size unset noSpace =>
    obtain ⟨c₁, hc₁, h₁⟩ := malloc_spec hfull hkeeps h hok unset noSpace
    obtain rfl := Option.some.inj (hc₁.symm.trans hc)
    exact h₁
  | free va =>
    obtain ⟨size, hlive⟩ := Option.isSome_iff_exists.1 hok
    obtain ⟨hrecords, hinit, hkept⟩ := (h.toRecords.free hkeeps hlive).2 c' hc
    exact ⟨⟨hrecords, hkept.trans h.strategy⟩, hinit⟩

/-- After the first call the table is initialized. -/
theorem run_invariant (hfull : pf.NeverFull) (hkeeps : pf.KeepsPages) {c c' : Ledger P}
    {calls : List Call} (h : Invariant L pf c)
    (hadm : Machine.Meets (ledgerStep L pf) Admissible c calls)
    (hrun : Machine.run (ledgerStep L pf) c calls = some c') :
    Invariant L pf c' ∧ (calls ≠ [] → c'.heap.isUserHeapEmpty = false) := by
  cases calls with
  | nil =>
    obtain rfl := Option.some.inj hrun
    exact ⟨h, fun hne => absurd rfl hne⟩
  | cons call calls =>
    obtain ⟨c₁, hc, hrun⟩ := (Machine.run_cons_eq_some _).1 hrun
    have hlater := Machine.run_induction_of_meets
      (P := fun c => Invariant L pf c ∧ c.heap.isUserHeapEmpty = false)
      (fun c a c' h hok hstep => step_invariant hfull hkeeps h.1 hok hstep)
      (step_invariant hfull hkeeps h hadm.1 hc) (hadm.2 c₁ hc) hrun
    exact ⟨hlater.1, fun _ => hlater.2⟩

/-- The address lies in a live allocation, as long as its rounded size. -/
def Covered (live : Nat → Option Nat) (va : Nat) : Prop :=
  ∃ p size, live p = some size ∧ p ≤ va ∧ va < p + roundUp size pageSize

/-- The entries with `isEmpty` clear are those of the pages of live allocations. -/
def TableMarks (L : UserHeapLayout) (c : Ledger P) : Prop :=
  ∀ i, i < L.userHeapMaxPages →
    ((c.heap.userHeapPages i).isEmpty = false ↔ Covered c.live (L.heapAddr i))

/-- The live allocations, the table and the page file agree. -/
structure Agrees (L : UserHeapLayout) (pf : PageFile P) (c : Ledger P) : Prop where
  inside : ∀ p size, c.live p = some size →
    p % pageSize = 0 ∧ L.userHeapStart ≤ p ∧ p + roundUp size pageSize ≤ L.userHeapMax
  large : ∀ p size, c.live p = some size →
    size ≤ roundUp size pageSize ∧ 0 < roundUp size pageSize
  disjoint : ∀ p q size size', c.live p = some size → c.live q = some size' → p ≠ q →
    p + roundUp size pageSize ≤ q ∨ q + roundUp size' pageSize ≤ p
  uninitialized : c.heap.isUserHeapEmpty = true → ∀ p, c.live p = none
  marks : c.heap.isUserHeapEmpty = false → TableMarks L c
  tagged : ∀ p size i, c.live p = some size → p ≤ L.heapAddr i →
    L.heapAddr i < p + roundUp size pageSize →
      c.heap.userHeapPages i = ⟨p, false, roundUp size pageSize⟩
  pageFile : ∀ va, va % pageSize = 0 → L.userHeapStart ≤ va → va < L.userHeapMax →
    (pf.Has c.heap.kernel.pageFile c.heap.env va ↔ Covered c.live va)

/-- The addresses of a live allocation are those of the pages of its block. -/
theorem Records.mem_iff {c : Ledger P} (h : Records L pf c) {p size : Nat}
    (hp : c.live p = some size) (i : Nat) :
    p ≤ L.heapAddr i ∧ L.heapAddr i < p + roundUp size pageSize ↔
      ∃ t, p = L.heapAddr t ∧ owner L c.heap i = some t := by
  obtain ⟨-, t, rfl, hb⟩ := h.live_block p size hp
  have hmod := roundUp_mod size pageSize
  have hex : (∃ u, L.heapAddr t = L.heapAddr u ∧ owner L c.heap i = some u) ↔
      owner L c.heap i = some t := by
    simp only [UserHeapLayout.heapAddr_inj, exists_eq_left']
  rw [hex, hb.2 i]
  unfold UserHeapLayout.heapAddr pageSize at *
  omega

/-- The pages that belong to a block are the pages of live allocations. -/
theorem Records.covered_iff {c : Ledger P} (h : Records L pf c) (i : Nat) :
    Covered c.live (L.heapAddr i) ↔ (owner L c.heap i).isSome := by
  constructor
  · rintro ⟨p, size, hp, hmem⟩
    obtain ⟨t, -, ht⟩ := (h.mem_iff hp i).1 hmem
    rw [ht]
    rfl
  · intro hsome
    obtain ⟨t, ht⟩ := Option.isSome_iff_exists.1 hsome
    obtain ⟨size, hlive, -⟩ := h.tagged i t ht
    exact ⟨_, size, hlive, (h.mem_iff hlive i).2 ⟨t, rfl, ht⟩⟩

theorem Records.agrees {c : Ledger P} (h : Records L pf c) : Agrees L pf c := by
  refine ⟨fun p size hp => ?_, fun p size hp => ?_, fun p q size size' hp hq hpq => ?_,
    fun hinit p => ?_, fun hinit i hi => ?_, fun p size i hp hlo hhi => ?_,
    fun va halign hlo hhi => ?_⟩
  · obtain ⟨-, t, rfl, hb⟩ := h.live_block p size hp
    have hpos := hb.1
    have hmod := roundUp_mod size pageSize
    have hlast : t + roundUp size pageSize / pageSize - 1 < L.userHeapMaxPages :=
      lt_pages_of_owner (by rw [(hb.2 _).2 ⟨by omega, by omega⟩]; rfl)
    refine ⟨UserHeapLayout.heapAddr_aligned t, Nat.le_add_right .., ?_⟩
    rw [UserHeapLayout.userHeapMax_eq]
    unfold UserHeapLayout.heapAddr pageSize at *
    omega
  · obtain ⟨hle, t, -, hb⟩ := h.live_block p size hp
    exact ⟨hle, Nat.pos_of_div_pos hb.1⟩
  · obtain ⟨-, t, rfl, hb⟩ := h.live_block p size hp
    obtain ⟨-, u, rfl, hb'⟩ := h.live_block q size' hq
    by_contra hover
    -- The higher of the two first pages lies in both blocks.
    have hpos := hb.1
    have hpos' := hb'.1
    have hmod := roundUp_mod size pageSize
    have hmod' := roundUp_mod size' pageSize
    have hmax : max t u < t + roundUp size pageSize / pageSize ∧
        max t u < u + roundUp size' pageSize / pageSize := by
      unfold UserHeapLayout.heapAddr pageSize at *
      omega
    have ht := (hb.2 (max t u)).2 ⟨le_max_left t u, hmax.1⟩
    have hu := (hb'.2 (max t u)).2 ⟨le_max_right t u, hmax.2⟩
    exact hpq (by rw [Option.some.inj (ht.symm.trans hu)])
  · rw [Option.eq_none_iff_forall_not_mem]
    intro size hp
    obtain ⟨-, t, -, hb⟩ := h.live_block p size hp
    have hown := hb.owner_first
    rw [owner_of_not_init hinit] at hown
    cases hown
  · rw [h.covered_iff, owner_isSome_iff hinit hi]
  · obtain ⟨t, rfl, ht⟩ := (h.mem_iff hp i).1 ⟨hlo, hhi⟩
    obtain ⟨sz, hsz, hpage⟩ := h.tagged i t ht
    obtain rfl := Option.some.inj (hp.symm.trans hsz)
    exact hpage
  · obtain ⟨i, hi, rfl⟩ := UserHeapLayout.exists_heapAddr halign hlo hhi
    rw [h.covered_iff, h.pageFile i hi]

/-- The heap of a program along every run of `malloc` with 32-bit sizes and `free` of live
allocations : the live allocations, the table and the page file agree, the table is in use
from the first call on, `malloc` returns, and `free` of a live allocation returns if the
kernel's `freeMem` of its pages does. -/
theorem userHeap_agrees (hfull : pf.NeverFull) (hkeeps : pf.KeepsPages) {env : Nat}
    {kernel : UserMemory P}
    (hempty : ∀ i, i < L.userHeapMaxPages → ¬ pf.Has kernel.pageFile env (L.heapAddr i))
    {calls : List Call} {c : Ledger P}
    (hadm : Machine.Meets (ledgerStep L pf) Admissible (loaded L env kernel) calls)
    (hrun : Machine.run (ledgerStep L pf) (loaded L env kernel) calls = some c) :
    Agrees L pf c ∧
      (calls ≠ [] → c.heap.isUserHeapEmpty = false) ∧
      (∀ size unset noSpace, size < 4294967296 →
        (ledgerStep L pf c (.malloc size unset noSpace)).isSome) ∧
      ∀ va size, c.live va = some size →
        ((ledgerStep L pf c (.free va)).isSome ↔ (c.heap.kernel.freeMem L.toUserLayout pf
          c.heap.env va (roundUp size pageSize)).isSome) := by
  obtain ⟨h, hinit⟩ := run_invariant hfull hkeeps (loaded_invariant hempty) hadm hrun
  refine ⟨h.toRecords.agrees, hinit, fun size unset noSpace hsize => ?_, fun va size hlive => ?_⟩
  · obtain ⟨c', hc', -⟩ := malloc_spec hfull hkeeps h hsize unset noSpace
    rw [hc']
    rfl
  · exact (h.toRecords.free hkeeps hlive).1

theorem mapPageFile_neverFull : UserMemory.mapPageFile.NeverFull :=
  fun _ _ _ _ => ⟨_, rfl⟩

theorem mapPageFile_keepsPages : UserMemory.mapPageFile.KeepsPages := by
  refine ⟨fun {p p' env va zero} _ hadd env' va' _ => ?_, fun p env va _ env' va' _ => ?_⟩
  · obtain rfl := Option.some.inj hadd
    unfold PageFile.Has UserMemory.mapPageFile
    by_cases henv : env' = env
    · subst henv
      by_cases hva : va' = va <;> simp [hva]
    · simp [henv]
  · unfold PageFile.Has UserMemory.mapPageFile
    by_cases henv : env' = env
    · subst henv
      by_cases hva : va' = va <;> simp [hva]
    · simp [henv]

/-- A user heap of four pages, over the small kernel. -/
def smallUserHeapLayout : UserHeapLayout where
  toUserLayout := UserMemory.smallUserLayout
  userHeapStart := 0x80000000
  userHeapMax := 0x80004000
  userHeapStart_lt_max := by decide
  userHeapMax_lt := by decide
  userHeapStart_aligned := by decide
  userHeapMax_aligned := by decide

/-- A program in environment 0, with an empty page file. -/
def smallProgram : Ledger (Nat → Nat → Option PageBytes) :=
  loaded smallUserHeapLayout 0 (UserMemory.smallUserMemory fun _ => 1)

/-- Two allocations, the first one freed, a size whose rounding wraps, and a search that
restarts at the start of the heap. -/
def restartCalls : List Call :=
  [.malloc 5000 0 false, .malloc 1 0 false, .free 0x80000000, .malloc 0xFFFFFFFF 0 false,
    .malloc 8192 0 true]

theorem restart_agrees : ∃ c,
    Machine.run (ledgerStep smallUserHeapLayout UserMemory.mapPageFile) smallProgram
      restartCalls = some c ∧
    c.live 0x80000000 = some 8192 ∧ c.live 0x80002000 = some 1 ∧
    Agrees smallUserHeapLayout UserMemory.mapPageFile c := by
  have hrun : (Machine.run (ledgerStep smallUserHeapLayout UserMemory.mapPageFile) smallProgram
      restartCalls).map (fun c => (c.live 0x80000000, c.live 0x80002000)) =
      some (some 8192, some 1) := by decide +kernel
  obtain ⟨c, hc, hlive⟩ := Option.map_eq_some_iff.1 hrun
  obtain ⟨hfirst, hsecond⟩ := Prod.mk.inj hlive
  have hadm : Machine.Meets (ledgerStep smallUserHeapLayout UserMemory.mapPageFile) Admissible
      smallProgram restartCalls := by decide +kernel
  exact ⟨c, hc, hfirst, hsecond, (userHeap_agrees mapPageFile_neverFull mapPageFile_keepsPages
    (fun i _ h => by cases h) hadm hc).1⟩

/-- Before the first call nothing is live, and every entry of the zeroed table has
`isEmpty` clear. -/
theorem tableFromStart_counterexample : ∃ c,
    Machine.run (ledgerStep smallUserHeapLayout UserMemory.mapPageFile) smallProgram [] =
      some c ∧
    ¬TableMarks smallUserHeapLayout c := by
  refine ⟨smallProgram, rfl, fun h => ?_⟩
  obtain ⟨p, size, hp, -⟩ := (h 0 (by decide)).1 rfl
  cases hp

end UserHeap

end FosKernel
