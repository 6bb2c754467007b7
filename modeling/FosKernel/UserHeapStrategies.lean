import FosKernel.HeapSearch

/-!
# The user heap under every strategy

The kernel can be set to four strategies, and `malloc` knows two : under first fit and worst
fit `start` is never set. Under best fit a size that is rounded to zero is a search for zero
pages, which finds the start of an empty run if the last page of the heap is empty. And
every page of an allocation has the size of the whole, so `free` of an address inside one
runs past its end.

`Sound` leaves out these calls. Along the runs that meet it the table keeps its records,
whatever the strategy is changed to (`run_records`), and in every state they reach a call
does what it says exactly if it is sound : `malloc_honest_iff` and `free_exact_iff`.
-/

namespace FosKernel

namespace UserHeap

variable {P : Type} {L : UserHeapLayout} {pf : PageFile P} {s s' : UserHeap P}

/-- The entry of page `i` is non-empty : the table is in use and `isEmpty` is clear. -/
def Marked (s : UserHeap P) (i : Nat) : Prop :=
  s.isUserHeapEmpty = false ∧ (s.userHeapPages i).isEmpty = false

instance (s : UserHeap P) (i : Nat) : Decidable (Marked s i) :=
  inferInstanceAs (Decidable (_ ∧ _))

/-- The strategy is one that `malloc` knows, and does not place zero pages. -/
def PlacesPages (L : UserHeapLayout) (s : UserHeap P) (size : Nat) : Prop :=
  s.uHeapPlacementStrategy = .nextFit ∨ s.uHeapPlacementStrategy = .bestFit ∧
    (0 < size ∧ size ≤ 4294967296 - pageSize ∨ Marked s (L.userHeapMaxPages - 1))

instance (s : UserHeap P) (size : Nat) : Decidable (PlacesPages L s size) :=
  inferInstanceAs (Decidable (_ ∨ _))

/-- What happens to a program's heap : a call, or a change of the kernel's strategy. -/
inductive Event where
  | call (c : Call)
  | setStrategy (strategy : UHeapPlacementStrategy)

/-- One event, with the live allocations. -/
def eventStep (L : UserHeapLayout) (pf : PageFile P) (c : Ledger P) : Event → Option (Ledger P)
  | .call call => ledgerStep L pf c call
  | .setStrategy strategy =>
    some { c with heap := { c.heap with uHeapPlacementStrategy := strategy } }

/-- The address of a live allocation, or in an empty page of the heap. -/
def Releasable (L : UserHeapLayout) (c : Ledger P) (va : Nat) : Prop :=
  (c.live va).isSome ∨ L.userHeapStart ≤ va ∧ va < L.userHeapMax ∧
    ¬Marked c.heap ((va - L.userHeapStart) / pageSize)

instance (c : Ledger P) (va : Nat) : Decidable (Releasable L c va) :=
  inferInstanceAs (Decidable (_ ∨ _))

/-- `malloc` is called with a 32-bit size for which it places pages, and `free` with a live
allocation or an address in an empty page. -/
def Sound (L : UserHeapLayout) (c : Ledger P) : Event → Prop
  | .call (.malloc size _ _) => size < 4294967296 ∧ PlacesPages L c.heap size
  | .call (.free va) => Releasable L c va
  | .setStrategy _ => True

instance (c : Ledger P) : ∀ e, Decidable (Sound L c e)
  | .call (.malloc _ _ _) => inferInstanceAs (Decidable (_ ∧ _))
  | .call (.free _) => inferInstanceAs (Decidable (Releasable L c _))
  | .setStrategy _ => inferInstanceAs (Decidable True)

theorem owner_isSome_iff_marked {i : Nat} (hi : i < L.userHeapMaxPages) :
    (owner L s i).isSome ↔ Marked s i := by
  unfold owner Marked
  split_ifs with h
  · simp [h.2]
  · simpa [hi] using h

theorem emptyPages_prepared {i : Nat} (hi : i < L.userHeapMaxPages) :
    (prepared L s).emptyPages i = true ↔ ¬Marked s i := by
  rw [← owner_isSome_iff_marked hi, ← prepared_owner, owner_isSome_iff prepared_initialized hi,
    emptyPages, Bool.not_eq_false]

theorem userHeapMaxPages_pos (L : UserHeapLayout) : 0 < L.userHeapMaxPages := by
  have hlt := L.userHeapStart_lt_max
  have hstart := L.userHeapStart_aligned
  have hmax := L.userHeapMax_aligned
  unfold UserHeapLayout.userHeapMaxPages pageSize at *
  omega

/-! ## The places found -/

theorem findPlace_bestFit (h : s.uHeapPlacementStrategy = .bestFit) (size unset : Nat) :
    s.findPlace L size unset = PageSearch.bestFit s.emptyPages L.userHeapStart L.userHeapStart
      (L.userHeapStart + pageSize * L.userHeapMaxPages) size := by
  rw [findPlace, if_pos h, bestFit, UserHeapLayout.userHeapMax_eq]
  rfl

/-- Where `malloc` places pages, the place is free. -/
theorem Records.places (hstart : 0 < L.userHeapStart) {c : Ledger P} (h : Records L pf c)
    {size : Nat} (hplaces : PlacesPages L c.heap size) (unset : Nat) :
    Places L (UserHeap.prepared L c.heap) size unset := by
  obtain ⟨hhand, hstrategy, -, -⟩ := prepared_fields (L := L) (s := c.heap)
  obtain ⟨j, hj, hlast⟩ := h.hand
  intro n hn hzero
  rcases hplaces with hnext | ⟨hbest, hpages⟩
  · exact findPlace_sound (hstrategy.trans hnext) prepared_initialized hj (hhand.trans hlast) hzero
  · rw [findPlace_bestFit (hstrategy.trans hbest)] at hzero ⊢
    have hpos : 0 < n := by
      rcases hpages with ⟨hpos, hle⟩ | hmarked
      · have hround := le_roundUp_pageSize hle
        rw [hn] at hround
        unfold pageSize at hround
        omega
      · refine Nat.pos_of_ne_zero fun hn0 => ?_
        have hmax := userHeapMaxPages_pos L
        have hlast := (PageSearch.bestFit_ne_zero_iff hstart hmax (by omega)).1 hzero
        exact (emptyPages_prepared (by omega)).1 hlast hmarked
    obtain ⟨k, hk, hkn, hrun⟩ := PageSearch.bestFit_sound hzero
    refine ⟨k, hk, hpos, hkn, fun i hlo hhi => ?_⟩
    have hnot := (emptyPages_prepared (L := L) (s := c.heap) (by omega)).1 (hrun i hlo hhi)
    rw [prepared_owner]
    simpa using mt (owner_isSome_iff_marked (L := L) (s := c.heap) (by omega)).1 hnot

/-! ## Runs of sound events -/

/-- `Records`, with the size 0 in the entries of the pages that are in no block. -/
structure SizedRecords (L : UserHeapLayout) (pf : PageFile P) (c : Ledger P) : Prop extends
    Records L pf c where
  emptySize : ∀ i, i < L.userHeapMaxPages → owner L c.heap i = none →
    (c.heap.userHeapPages i).size = 0

theorem SizedRecords.prepared {c : Ledger P} (h : SizedRecords L pf c) :
    SizedRecords L pf ⟨prepared L c.heap, c.live⟩ := by
  refine ⟨h.toRecords.prepared, fun i hi hnone => ?_⟩
  rw [prepared_owner] at hnone
  unfold UserHeap.prepared
  split_ifs with hinit
  · exact congrArg UserHeapPage.size (if_pos hi)
  · exact h.emptySize i hi hnone

theorem SizedRecords.allocated {c : Ledger P} (h : SizedRecords L pf c) {size t n : Nat}
    {kernel : UserMemory P} (hret : Returned L pf c.heap size t n kernel) :
    SizedRecords L pf ⟨allocated L (UserHeap.prepared L c.heap) t n kernel,
      Function.update c.live (L.heapAddr t) (some size)⟩ := by
  refine ⟨h.toRecords.allocated hret, fun i hi hnone => ?_⟩
  rw [owner_allocated hret.fits] at hnone
  by_cases hmem : t ≤ i ∧ i < t + n
  · rw [BlockMap.claim_of_mem hmem] at hnone
    cases hnone
  · rw [BlockMap.claim_of_not_mem hmem, ← prepared_owner] at hnone
    exact (congrArg UserHeapPage.size (if_neg hmem)).trans (h.prepared.emptySize i hi hnone)

theorem SizedRecords.released (hkeeps : pf.KeepsPages) {c : Ledger P} (h : SizedRecords L pf c)
    {t n : Nat} {kernel : UserMemory P} (hb : BlockMap.IsBlock (owner L c.heap) t n)
    (hkernel : c.heap.kernel.freeMem L.toUserLayout pf c.heap.env (L.heapAddr t)
      (pageSize * n) = some kernel) :
    SizedRecords L pf ⟨released L c.heap t n kernel,
      Function.update c.live (L.heapAddr t) none⟩ := by
  refine ⟨h.toRecords.released hkeeps hb hkernel, fun i hi hnone => ?_⟩
  have hown : owner L (UserHeap.released L c.heap t n kernel) =
      BlockMap.release (owner L c.heap) t :=
    owner_fill_empty (s := { c.heap with kernel := kernel }) hb
  by_cases hmem : t ≤ i ∧ i < t + n
  · exact congrArg UserHeapPage.size (if_pos hmem)
  · rw [hown, BlockMap.release, if_neg (mt (hb.2 i).1 hmem)] at hnone
    exact (congrArg UserHeapPage.size (if_neg hmem)).trans (h.emptySize i hi hnone)

/-- The page of an address inside the heap. -/
theorem userHeapPageIndex_of_mem {va : Nat} (hlo : L.userHeapStart ≤ va)
    (hhi : va < L.userHeapMax) :
    userHeapPageIndex L va = (va - L.userHeapStart) / pageSize ∧
      (va - L.userHeapStart) / pageSize < L.userHeapMaxPages := by
  have hmax := L.userHeapMax_lt
  have hstart := L.userHeapStart_aligned
  have hend := L.userHeapMax_aligned
  unfold userHeapPageIndex UserHeapLayout.userHeapMaxPages u32 pageSize at *
  omega

theorem page_of_lt {i : Nat} (hi : i < L.userHeapMaxPages) :
    s.page L i = some (s.userHeapPages i) :=
  if_pos hi

/-- The size that `free(va)` reads from the table and passes to `sys_freeMem`. -/
def askedSize (L : UserHeapLayout) (s : UserHeap P) (va : Nat) : Option Nat :=
  (s.page L (userHeapPageIndex L va)).map UserHeapPage.size

/-- `free` of an address in an empty page asks the kernel for no page, and clears none. -/
theorem SizedRecords.free_empty {c : Ledger P} (h : SizedRecords L pf c) {va : Nat}
    (hlo : L.userHeapStart ≤ va) (hhi : va < L.userHeapMax)
    (hempty : ¬Marked c.heap ((va - L.userHeapStart) / pageSize)) :
    askedSize L c.heap va = some 0 ∧
      c.heap.free L pf va = (c.heap.kernel.freeMem L.toUserLayout pf c.heap.env va 0).map
        fun kernel => { c.heap with kernel := kernel } := by
  obtain ⟨hindex, hlt⟩ := userHeapPageIndex_of_mem hlo hhi
  have hnone : owner L c.heap ((va - L.userHeapStart) / pageSize) = none := by
    simpa using mt (owner_isSome_iff_marked hlt).1 hempty
  have hsize := h.emptySize _ hlt hnone
  constructor
  · rw [askedSize, hindex, page_of_lt hlt, Option.map_some, hsize]
  · unfold free
    rw [hindex, page_of_lt hlt, Option.bind_eq_bind, Option.bind_some, hsize, Option.map_eq_bind]
    rfl

/-- No live allocation starts in an empty page. -/
theorem Records.not_live {c : Ledger P} (h : Records L pf c) {va : Nat}
    (hempty : ¬Marked c.heap ((va - L.userHeapStart) / pageSize)) : c.live va = none := by
  refine Option.eq_none_iff_forall_ne_some.2 fun size hlive => hempty ?_
  obtain ⟨-, t, rfl, hb⟩ := h.live_block va size hlive
  have hindex : (L.heapAddr t - L.userHeapStart) / pageSize = t := PageSearch.pageIndex t
  have hfirst : (owner L c.heap t).isSome := by
    rw [hb.owner_first]
    rfl
  rw [hindex]
  exact (owner_isSome_iff_marked (lt_pages_of_owner hfirst)).1 hfirst

/-- A sound event keeps the records, and `malloc` returns. -/
theorem eventStep_records (hfull : pf.NeverFull) (hkeeps : pf.KeepsPages)
    (hstart : 0 < L.userHeapStart) {c c' : Ledger P} {e : Event} (h : SizedRecords L pf c)
    (hsound : Sound L c e) (hc : eventStep L pf c e = some c') : SizedRecords L pf c' := by
  rcases e with ⟨⟨size, unset, noSpace⟩ | ⟨va⟩⟩ | ⟨strategy⟩
  · obtain ⟨hsize, hplaces⟩ := hsound
    obtain hmalloc | ⟨t, n, kernel, hmalloc, hret⟩ :=
      malloc_cases hfull hkeeps hsize noSpace (h.places hstart hplaces unset)
    · obtain rfl : _ = c' := by simpa [eventStep, ledgerStep, step, hmalloc, liveAfter] using hc
      exact h.prepared
    · obtain rfl : _ = c' := by
        simpa [eventStep, ledgerStep, step, hmalloc, liveAfter, hret.address] using hc
      exact h.allocated hret
  · rcases hsound with hlive | ⟨hlo, hhi, hempty⟩
    · obtain ⟨size, hlive⟩ := Option.isSome_iff_exists.1 hlive
      obtain ⟨t, n, rfl, -, hb, htag, -⟩ := h.block_of_live hlive
      obtain ⟨kernel, hkernel, rfl⟩ : ∃ kernel, _ ∧ _ = c' := by
        simpa [eventStep, ledgerStep, step, free_of_block hb htag, liveAfter] using hc
      exact h.released hkeeps hb hkernel
    · obtain ⟨kernel, hkernel, rfl⟩ : ∃ kernel, _ ∧ _ = c' := by
        simpa [eventStep, ledgerStep, step, (h.free_empty hlo hhi hempty).2, liveAfter] using hc
      have hsame : Function.update c.live va none = c.live := by
        rw [← h.not_live hempty, Function.update_eq_self]
      rw [hsame]
      refine ⟨⟨h.hand, h.contiguous, h.live_block, h.tagged, fun i hi => ?_⟩, h.emptySize⟩
      refine Iff.trans ?_ (h.pageFile i hi)
      change pf.Has kernel.pageFile _ _ ↔ _
      rw [(UserMemory.freeMem_effect hkernel).pageFile]
      rfl
  · obtain rfl := Option.some.inj hc
    exact ⟨⟨h.hand, h.contiguous, h.live_block, h.tagged, h.pageFile⟩, h.emptySize⟩

/-- Along every run of sound events the table keeps its records. -/
theorem run_records (hfull : pf.NeverFull) (hkeeps : pf.KeepsPages)
    (hstart : 0 < L.userHeapStart) {env : Nat} {kernel : UserMemory P}
    (hempty : ∀ i, i < L.userHeapMaxPages → ¬ pf.Has kernel.pageFile env (L.heapAddr i))
    {events : List Event} {c : Ledger P}
    (hsound : Machine.Meets (eventStep L pf) (Sound L) (loaded L env kernel) events)
    (hrun : Machine.run (eventStep L pf) (loaded L env kernel) events = some c) :
    SizedRecords L pf c := by
  refine Machine.run_induction_of_meets
    (fun c e c' h hok hc => eventStep_records hfull hkeeps hstart h hok hc)
    ⟨(loaded_invariant hempty).toRecords, fun i hi hnone => rfl⟩ hsound hrun

/-! ## What malloc returns -/

/-- `malloc(size)` was honest about what it returned : the start of pages that were empty,
or null with nothing done but the first call's initialization of the table. -/
structure Honest (L : UserHeapLayout) (c : Ledger P) (size p : Nat) (s' : UserHeap P) :
    Prop where
  aligned : p ≠ 0 → p % pageSize = 0
  inside : p ≠ 0 → L.userHeapStart ≤ p ∧ p + size ≤ L.userHeapMax
  marks : p ≠ 0 → ∀ i, p ≤ L.heapAddr i → L.heapAddr i < p + size →
    ¬Marked c.heap i ∧ Marked s' i
  fresh : p ≠ 0 → c.live p = none
  failed : p = 0 → s' = prepared L c.heap

/-- `malloc(size)` returns and is honest, with the unset variables as given. -/
def HonestMalloc (L : UserHeapLayout) (pf : PageFile P) (c : Ledger P) (size unset : Nat)
    (noSpace : Bool) : Prop :=
  ∃ p s', c.heap.malloc L pf size unset noSpace = some (p, s') ∧ Honest L c size p s'

/-- `malloc` that was given free pages is honest. -/
theorem Returned.honest {c : Ledger P} (h : Records L pf c) {size t n : Nat}
    {kernel : UserMemory P} (hret : Returned L pf c.heap size t n kernel) :
    Honest L c size (L.heapAddr t) (allocated L (prepared L c.heap) t n kernel) := by
  have hfits := hret.fits
  have hle := hret.size_le
  have hpos := hret.pos
  rw [hret.rounded] at hle
  refine ⟨fun _ => UserHeapLayout.heapAddr_aligned t, fun _ => ⟨Nat.le_add_right .., ?_⟩,
    fun _ i hlo hhi => ?_, fun _ => ?_, fun h0 => absurd h0 hret.address⟩
  · rw [UserHeapLayout.userHeapMax_eq]
    unfold UserHeapLayout.heapAddr pageSize at *
    omega
  · have hmem : t ≤ i ∧ i < t + n := by
      unfold UserHeapLayout.heapAddr pageSize at *
      omega
    have hi : i < L.userHeapMaxPages := by omega
    rw [← owner_isSome_iff_marked hi, ← owner_isSome_iff_marked hi, hret.free i hmem.1 hmem.2,
      owner_allocated hfits, BlockMap.claim_of_mem hmem]
    simp
  · refine h.not_live ?_
    have hindex : (L.heapAddr t - L.userHeapStart) / pageSize = t := PageSearch.pageIndex t
    have hlt : t < L.userHeapMaxPages := by omega
    rw [hindex, ← owner_isSome_iff_marked hlt, hret.free t le_rfl (by omega)]
    simp

/-- With another strategy `malloc` returns what `start` holds, or panics. -/
theorem malloc_unset (hnext : s.uHeapPlacementStrategy ≠ .nextFit)
    (hbest : s.uHeapPlacementStrategy ≠ .bestFit) {size unset p : Nat} {noSpace : Bool}
    (hunset : unset ≠ 0) (h : s.malloc L pf size unset noSpace = some (p, s')) : p = unset := by
  obtain ⟨-, hstrategy, -, -⟩ := prepared_fields (L := L) (s := s)
  have hplace : (prepared L s).findPlace L (roundUp size pageSize) unset = unset := by
    simp [findPlace, hstrategy, hnext, hbest]
  rw [malloc_eq rfl hplace, if_neg hunset] at h
  simp only [Option.bind_eq_some_iff] at h
  obtain ⟨_, -, _, -, h⟩ := h
  exact (Prod.mk.inj (Option.some.inj h)).1.symm

/-- Best fit for zero pages, with the last page of the heap empty : `allocateMem` makes no
trip, and what its `ret` held decides whether it panics. -/
theorem malloc_zeroPages (hstart : 0 < L.userHeapStart)
    (hbest : s.uHeapPlacementStrategy = .bestFit) {size : Nat}
    (hsize : roundUp size pageSize = 0) (hlast : ¬Marked s (L.userHeapMaxPages - 1))
    (unset : Nat) : s.malloc L pf size unset true = none := by
  obtain ⟨-, hstrategy, -, -⟩ := prepared_fields (L := L) (s := s)
  have hmax := userHeapMaxPages_pos L
  have hplace : (prepared L s).findPlace L 0 unset ≠ 0 := by
    rw [findPlace_bestFit (hstrategy.trans hbest)]
    exact (PageSearch.bestFit_ne_zero_iff (n := 0) hstart hmax (by omega)).2
      ((emptyPages_prepared (by omega)).2 hlast)
  rw [malloc_eq hsize rfl, if_neg hplace]
  rfl

/-- Along every run of sound events, `malloc` is honest for a size exactly if its search
places pages : the strategy is next fit, or best fit with a size that is not rounded to
zero or the last page of the heap in use. -/
theorem malloc_honest_iff (hfull : pf.NeverFull) (hkeeps : pf.KeepsPages)
    (hstart : 0 < L.userHeapStart) {env : Nat} {kernel : UserMemory P}
    (hempty : ∀ i, i < L.userHeapMaxPages → ¬ pf.Has kernel.pageFile env (L.heapAddr i))
    {events : List Event} {c : Ledger P}
    (hsound : Machine.Meets (eventStep L pf) (Sound L) (loaded L env kernel) events)
    (hrun : Machine.run (eventStep L pf) (loaded L env kernel) events = some c) {size : Nat}
    (hsize : size < 4294967296) :
    (∀ unset noSpace, HonestMalloc L pf c size unset noSpace) ↔ PlacesPages L c.heap size := by
  have h := run_records hfull hkeeps hstart hempty hsound hrun
  constructor
  · intro hhonest
    by_contra hplaces
    obtain ⟨hnext, hzero⟩ := not_or.1 hplaces
    by_cases hbest : c.heap.uHeapPlacementStrategy = .bestFit
    · obtain ⟨hround, hlast⟩ := not_or.1 (not_and.1 hzero hbest)
      obtain ⟨p, s', hmalloc, -⟩ := hhonest 0 true
      have hsize0 : roundUp size pageSize = 0 := by
        rcases Nat.eq_zero_or_pos size with rfl | hpos
        · rfl
        · refine roundUp_pageSize_eq_zero ?_ hsize
          unfold pageSize at hround
          omega
      rw [malloc_zeroPages hstart hbest hsize0 hlast] at hmalloc
      cases hmalloc
    · obtain ⟨p, s', hmalloc, hp⟩ := hhonest 1 false
      obtain rfl := malloc_unset hnext hbest Nat.one_ne_zero hmalloc
      have haligned := hp.aligned Nat.one_ne_zero
      revert haligned
      decide
  · intro hplaces unset noSpace
    obtain hmalloc | ⟨t, n, kernel, hmalloc, hret⟩ :=
      malloc_cases hfull hkeeps hsize noSpace (h.places hstart hplaces unset)
    · refine ⟨0, _, hmalloc, ?_⟩
      exact ⟨absurd rfl, absurd rfl, absurd rfl, absurd rfl, fun _ => rfl⟩
    · exact ⟨_, _, hmalloc, hret.honest h.toRecords⟩

/-- Two allocations under best fit, the first one freed, and an address in an empty page. -/
def bestFitEvents : List Event :=
  [.setStrategy .bestFit, .call (.malloc 8192 0 false), .call (.malloc 1 0 false),
    .call (.free 0x80000000), .call (.free 0x80001004)]

theorem bestFit_malloc_honest : ∃ c,
    Machine.run (eventStep smallUserHeapLayout UserMemory.mapPageFile) smallProgram
      bestFitEvents = some c ∧
    c.live 0x80002000 = some 1 ∧
    ∀ unset noSpace, HonestMalloc smallUserHeapLayout UserMemory.mapPageFile c 5000 unset
      noSpace := by
  have hrun : (Machine.run (eventStep smallUserHeapLayout UserMemory.mapPageFile) smallProgram
      bestFitEvents).map (fun c => (c.live 0x80002000, c.heap.uHeapPlacementStrategy)) =
      some (some 1, .bestFit) := by decide +kernel
  obtain ⟨c, hc, hlive⟩ := Option.map_eq_some_iff.1 hrun
  obtain ⟨hlive, hbest⟩ := Prod.mk.inj hlive
  have hsound : Machine.Meets (eventStep smallUserHeapLayout UserMemory.mapPageFile)
      (Sound smallUserHeapLayout) smallProgram bestFitEvents := by decide +kernel
  exact ⟨c, hc, hlive, (malloc_honest_iff mapPageFile_neverFull mapPageFile_keepsPages (by decide)
    (fun i _ h => by cases h) hsound hc (by decide)).2
    (Or.inr ⟨hbest, Or.inl (by decide)⟩)⟩

/-- Under best fit the first `malloc(0xFFFFFFFF)` returns the start of the heap. -/
theorem roundedToZero_counterexample : ∃ c,
    Machine.run (eventStep smallUserHeapLayout UserMemory.mapPageFile) smallProgram
      [.setStrategy .bestFit] = some c ∧
    ¬HonestMalloc smallUserHeapLayout UserMemory.mapPageFile c 0xFFFFFFFF 0 false := by
  refine ⟨_, rfl, ?_⟩
  rintro ⟨p, s', hmalloc, hhonest⟩
  have hplace : Option.map Prod.fst (some (p, s')) = some 0x80000000 := by
    rw [← hmalloc]
    decide +kernel
  obtain rfl := Option.some.inj hplace
  have hinside := (hhonest.inside (by decide)).2
  revert hinside
  decide

/-! ## What free releases -/

/-- `free(va)` releases the live allocation that starts at `va`, and no page of another. -/
structure FreesExactly (L : UserHeapLayout) (pf : PageFile P) (c : Ledger P) (va asked : Nat) :
    Prop where
  reads : askedSize L c.heap va = some asked
  asks : ∀ s', c.heap.free L pf va = some s' →
    c.heap.kernel.freeMem L.toUserLayout pf c.heap.env va asked = some s'.kernel
  inBounds : (c.heap.kernel.freeMem L.toUserLayout pf c.heap.env va asked).isSome →
    (c.heap.free L pf va).isSome
  own : ∀ size, c.live va = some size → asked = roundUp size pageSize ∧
    ∀ s', c.heap.free L pf va = some s' → ∀ i, i < L.userHeapMaxPages →
      s'.userHeapPages i = if va ≤ L.heapAddr i ∧ L.heapAddr i < va + asked then
        ⟨L.heapAddr i, true, 0⟩ else c.heap.userHeapPages i
  other : c.live va = none → ∀ q size, c.live q = some size →
    (∀ a, q ≤ a → a < q + roundUp size pageSize → ¬(va ≤ a ∧ a < va + asked)) ∧
    ∀ s', c.heap.free L pf va = some s' → ∀ i, q ≤ L.heapAddr i →
      L.heapAddr i < q + roundUp size pageSize → s'.userHeapPages i = c.heap.userHeapPages i

/-- Every address in a page in use lies in a live allocation, which `free` of it would shrink
unless it is the start. -/
theorem Records.exists_live {c : Ledger P} (h : Records L pf c) {va : Nat}
    (hlo : L.userHeapStart ≤ va) (hhi : va < L.userHeapMax)
    (hmarked : Marked c.heap ((va - L.userHeapStart) / pageSize)) :
    ∃ q size, c.live q = some size ∧ q ≤ va ∧ va < q + roundUp size pageSize ∧
      askedSize L c.heap va = some (roundUp size pageSize) := by
  obtain ⟨hindex, hlt⟩ := userHeapPageIndex_of_mem hlo hhi
  obtain ⟨t, ht⟩ := Option.isSome_iff_exists.1 ((owner_isSome_iff_marked hlt).2 hmarked)
  obtain ⟨size, hlive, hpage⟩ := h.tagged _ t ht
  obtain ⟨hfirst, hlast⟩ := (h.mem_iff hlive _).2 ⟨t, rfl, ht⟩
  have hstart := L.userHeapStart_aligned
  have hround := roundUp_mod size pageSize
  refine ⟨_, size, hlive, ?_, ?_, ?_⟩
  · unfold UserHeapLayout.heapAddr pageSize at *
    omega
  · unfold UserHeapLayout.heapAddr pageSize at *
    omega
  · rw [askedSize, hindex, page_of_lt hlt, Option.map_some, hpage]

/-- The start of a live allocation : its block is cleared. -/
theorem SizedRecords.freesExactly_live {c : Ledger P} (h : SizedRecords L pf c) {va size : Nat}
    (hlive : c.live va = some size) : FreesExactly L pf c va (roundUp size pageSize) := by
  obtain ⟨t, n, rfl, hn, hb, htag, -⟩ := h.block_of_live hlive
  have hlt : t < L.userHeapMaxPages := lt_pages_of_owner (by rw [hb.owner_first]; rfl)
  have hfree : c.heap.free L pf (L.heapAddr t) = _ := free_of_block hb htag
  rw [hn]
  refine ⟨?_, fun s' hs => ?_, fun hsome => ?_, fun size' hlive' => ⟨?_, fun s' hs i hi => ?_⟩,
    fun hnone => ?_⟩
  · rw [askedSize, UserHeapLayout.userHeapPageIndex_heapAddr hlt.le, page_of_lt hlt,
      Option.map_some, htag]
  · rw [hfree] at hs
    obtain ⟨kernel, hkernel, rfl⟩ := Option.map_eq_some_iff.1 hs
    exact hkernel
  · rw [hfree, Option.isSome_map]
    exact hsome
  · obtain rfl := Option.some.inj (hlive.symm.trans hlive')
    exact hn.symm
  · rw [hfree] at hs
    obtain ⟨kernel, -, rfl⟩ := Option.map_eq_some_iff.1 hs
    have hmem : t ≤ i ∧ i < t + n ↔
        L.heapAddr t ≤ L.heapAddr i ∧ L.heapAddr i < L.heapAddr t + pageSize * n := by
      unfold UserHeapLayout.heapAddr pageSize
      omega
    simp only [← hmem]
    rfl
  · rw [hlive] at hnone
    cases hnone

/-- An address in an empty page : nothing is asked for. -/
theorem SizedRecords.freesExactly_empty {c : Ledger P} (h : SizedRecords L pf c) {va : Nat}
    (hlo : L.userHeapStart ≤ va) (hhi : va < L.userHeapMax)
    (hempty : ¬Marked c.heap ((va - L.userHeapStart) / pageSize)) :
    FreesExactly L pf c va 0 := by
  obtain ⟨hasked, hfree⟩ := h.free_empty hlo hhi hempty
  have hnone := h.not_live hempty
  refine ⟨hasked, fun s' hs => ?_, fun hsome => ?_, fun size hlive => ?_,
    fun _ q size hlive => ⟨fun a _ _ => by omega, fun s' hs i _ _ => ?_⟩⟩
  · rw [hfree] at hs
    obtain ⟨kernel, hkernel, rfl⟩ := Option.map_eq_some_iff.1 hs
    exact hkernel
  · rw [hfree, Option.isSome_map]
    exact hsome
  · rw [hnone] at hlive
    cases hlive
  · rw [hfree] at hs
    obtain ⟨kernel, -, rfl⟩ := Option.map_eq_some_iff.1 hs
    rfl

/-- Along every run of sound events, `free` of an address of the heap releases exactly one
allocation, or none, exactly if the address is the start of a live allocation or lies in an
empty page. -/
theorem free_exact_iff (hfull : pf.NeverFull) (hkeeps : pf.KeepsPages)
    (hstart : 0 < L.userHeapStart) {env : Nat} {kernel : UserMemory P}
    (hempty : ∀ i, i < L.userHeapMaxPages → ¬ pf.Has kernel.pageFile env (L.heapAddr i))
    {events : List Event} {c : Ledger P}
    (hsound : Machine.Meets (eventStep L pf) (Sound L) (loaded L env kernel) events)
    (hrun : Machine.run (eventStep L pf) (loaded L env kernel) events = some c) {va : Nat}
    (hlo : L.userHeapStart ≤ va) (hhi : va < L.userHeapMax) :
    (∃ asked, FreesExactly L pf c va asked) ↔ Releasable L c va := by
  have h := run_records hfull hkeeps hstart hempty hsound hrun
  constructor
  · rintro ⟨asked, hfrees⟩
    by_contra hnot
    obtain ⟨hlive, hpage⟩ := not_or.1 hnot
    have hmarked : Marked c.heap ((va - L.userHeapStart) / pageSize) :=
      not_not.1 fun hempty => hpage ⟨hlo, hhi, hempty⟩
    obtain ⟨q, size, hq, hqva, hend, hasked⟩ := h.exists_live hlo hhi hmarked
    have hsize := Option.some.inj (hfrees.reads.symm.trans hasked)
    have hnone : c.live va = none := by simpa using hlive
    have hdisjoint := (hfrees.other hnone q size hq).1 va hqva hend
    omega
  · rintro (hlive | ⟨hlo, hhi, hempty⟩)
    · obtain ⟨size, hlive⟩ := Option.isSome_iff_exists.1 hlive
      exact ⟨_, h.freesExactly_live hlive⟩
    · exact ⟨_, h.freesExactly_empty hlo hhi hempty⟩

/-- A run with one allocation left, after a freed one. -/
theorem bestFit_free_exact : ∃ c,
    Machine.run (eventStep smallUserHeapLayout UserMemory.mapPageFile) smallProgram
      bestFitEvents = some c ∧
    c.live 0x80002000 = some 1 ∧
    ∃ asked, FreesExactly smallUserHeapLayout UserMemory.mapPageFile c 0x80002000 asked := by
  have hrun : (Machine.run (eventStep smallUserHeapLayout UserMemory.mapPageFile) smallProgram
      bestFitEvents).map (fun c => c.live 0x80002000) = some (some 1) := by decide +kernel
  obtain ⟨c, hc, hlive⟩ := Option.map_eq_some_iff.1 hrun
  have hsound : Machine.Meets (eventStep smallUserHeapLayout UserMemory.mapPageFile)
      (Sound smallUserHeapLayout) smallProgram bestFitEvents := by decide +kernel
  exact ⟨c, hc, hlive, (free_exact_iff mapPageFile_neverFull mapPageFile_keepsPages (by decide)
    (fun i _ h => by cases h) hsound hc (by decide) (by decide)).2
    (Or.inl (by rw [hlive]; rfl))⟩

/-- The second page of an allocation of two pages has their size, so `free` of it asks for
the page of the next allocation as well. -/
theorem interiorPage_counterexample : ∃ c,
    Machine.run (eventStep smallUserHeapLayout UserMemory.mapPageFile) smallProgram
      [.call (.malloc 8192 0 false), .call (.malloc 4096 0 false)] = some c ∧
    c.live 0x80002000 = some 4096 ∧
    ¬∃ asked, FreesExactly smallUserHeapLayout UserMemory.mapPageFile c 0x80001000 asked := by
  have hrun : (Machine.run (eventStep smallUserHeapLayout UserMemory.mapPageFile) smallProgram
      [.call (.malloc 8192 0 false), .call (.malloc 4096 0 false)]).map (fun c =>
        (c.live 0x80002000, c.live 0x80001000, askedSize smallUserHeapLayout c.heap 0x80001000)) =
      some (some 4096, none, some 8192) := by decide +kernel
  obtain ⟨c, hc, hread⟩ := Option.map_eq_some_iff.1 hrun
  simp only [Prod.mk.injEq] at hread
  obtain ⟨hnext, hnone, hasked⟩ := hread
  refine ⟨c, hc, hnext, ?_⟩
  rintro ⟨asked, hfrees⟩
  obtain rfl := Option.some.inj (hasked.symm.trans hfrees.reads)
  exact (hfrees.other hnone _ _ hnext).1 0x80002000 (by decide) (by decide) (by decide)

end UserHeap

end FosKernel
