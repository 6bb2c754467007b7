import FosKernel.KernelHeapRuns
import FosKernel.PageSearchComplete
import FosKernel.UserHeapRuns

/-!
# The searches of the two heaps

The kernel heap and the user heap search their own tables with the same functions, so
what `PageSearch` knows of them holds of both.

`nextFit_findsRun` : next fit finds a run whenever there is one, except when all the runs
of the size asked for straddle the hand (`handSplits_counterexample`).

`bestFit_findsBest` : best fit finds the best run, and fails only if there is none, except
when the last pages of the heap are not a run that is long enough
(`lastPage_counterexample`).
-/

namespace FosKernel

namespace KernelHeapLayout

/-- An aligned address of the heap, or its end, is that of a page. -/
theorem hand_eq_addr (L : KernelHeapLayout) {va : Nat} (halign : va % pageSize = 0)
    (hlo : L.kernelHeapStart ≤ va) (hhi : va ≤ L.kernelHeapMax) :
    (va - L.kernelHeapStart) / pageSize ≤ L.pages ∧
      va = L.addr ((va - L.kernelHeapStart) / pageSize) := by
  have hstart := L.start_aligned
  have hmax := L.max_aligned
  unfold pages addr pageSize at *
  omega

end KernelHeapLayout

namespace UserHeapLayout

/-- An aligned address of the heap, or its end, is that of a page. -/
theorem hand_eq_heapAddr (L : UserHeapLayout) {va : Nat} (halign : va % pageSize = 0)
    (hlo : L.userHeapStart ≤ va) (hhi : va ≤ L.userHeapMax) :
    (va - L.userHeapStart) / pageSize ≤ L.userHeapMaxPages ∧
      va = L.heapAddr ((va - L.userHeapStart) / pageSize) := by
  have hstart := L.userHeapStart_aligned
  have hmax := L.userHeapMax_aligned
  unfold userHeapMaxPages heapAddr pageSize at *
  omega

end UserHeapLayout

namespace KernelHeap

/-- The pages that the table of the kernel heap shows as empty. -/
def emptyPages (s : KernelHeap) (i : Nat) : Bool :=
  (s.kernelHeapPages i).isEmpty

theorem nextFit_findsRun_iff {L : KernelHeapLayout} (hbase : 0 < L.kernelHeapStart) {n j : Nat}
    (hn : 0 < n) {s : KernelHeap} (hj : j ≤ L.pages) (hand : s.lastAllocatedKHpage = L.addr j) :
    PageSearch.FindsRun s.emptyPages L.kernelHeapStart L.pages n (s.nextFit L (pageSize * n)) ↔
      PageSearch.RunBesideHand s.emptyPages L.pages j n := by
  unfold nextFit
  rw [hand, L.max_eq_addr]
  exact PageSearch.nextFit_findsRun_iff hbase hj hn

theorem bestFit_findsBest_iff {L : KernelHeapLayout} (hbase : 0 < L.kernelHeapStart) {n : Nat}
    (hn : 0 < n) {s : KernelHeap} :
    PageSearch.FindsBest s.emptyPages L.kernelHeapStart L.pages n (s.bestFit L (pageSize * n)) ↔
      PageSearch.LastRunFits s.emptyPages L.pages n := by
  unfold bestFit
  rw [L.max_eq_addr]
  exact PageSearch.bestFit_findsBest_iff hbase hn

end KernelHeap

namespace UserHeap

variable {P : Type}

/-- The pages that the table of the user heap shows as empty. -/
def emptyPages (s : UserHeap P) (i : Nat) : Bool :=
  (s.userHeapPages i).isEmpty

theorem nextFit_findsRun_iff {L : UserHeapLayout} (hbase : 0 < L.userHeapStart) {n j : Nat}
    (hn : 0 < n) {s : UserHeap P} (hj : j ≤ L.userHeapMaxPages)
    (hand : s.lastAllocatedUHpage = L.heapAddr j) :
    PageSearch.FindsRun s.emptyPages L.userHeapStart L.userHeapMaxPages n
        (s.nextFit L (pageSize * n)) ↔
      PageSearch.RunBesideHand s.emptyPages L.userHeapMaxPages j n := by
  unfold nextFit
  rw [hand, UserHeapLayout.userHeapMax_eq]
  exact PageSearch.nextFit_findsRun_iff hbase hj hn

theorem bestFit_findsBest_iff {L : UserHeapLayout} (hbase : 0 < L.userHeapStart) {n : Nat}
    (hn : 0 < n) {s : UserHeap P} :
    PageSearch.FindsBest s.emptyPages L.userHeapStart L.userHeapMaxPages n
        (s.bestFit L (pageSize * n)) ↔
      PageSearch.LastRunFits s.emptyPages L.userHeapMaxPages n := by
  unfold bestFit
  rw [UserHeapLayout.userHeapMax_eq]
  exact PageSearch.bestFit_findsBest_iff hbase hn

end UserHeap

/-- A size that is a multiple of the page size is a number of pages. -/
theorem pages_of_size {size : Nat} (hsize : size % pageSize = 0) (hpos : 0 < size) :
    0 < size / pageSize ∧ pageSize * (size / pageSize) = size := by
  unfold pageSize at *
  omega

variable {P : Type}

/-- On every table of either heap, with any hand on a page of the heap or at its end, next
fit finds a run if there is one exactly if not all the runs straddle the hand. -/
theorem nextFit_findsRun {L : UserHeapLayout} (hkernel : 0 < L.kernelHeapStart)
    (huser : 0 < L.userHeapStart) {size : Nat} (hsize : size % pageSize = 0) (hpos : 0 < size) :
    (∀ s : KernelHeap, s.lastAllocatedKHpage % pageSize = 0 →
      L.kernelHeapStart ≤ s.lastAllocatedKHpage → s.lastAllocatedKHpage ≤ L.kernelHeapMax →
      (PageSearch.FindsRun s.emptyPages L.kernelHeapStart L.pages (size / pageSize)
          (s.nextFit L.toKernelHeapLayout size) ↔
        PageSearch.RunBesideHand s.emptyPages L.pages
          ((s.lastAllocatedKHpage - L.kernelHeapStart) / pageSize) (size / pageSize))) ∧
    ∀ s : UserHeap P, s.lastAllocatedUHpage % pageSize = 0 →
      L.userHeapStart ≤ s.lastAllocatedUHpage → s.lastAllocatedUHpage ≤ L.userHeapMax →
      (PageSearch.FindsRun s.emptyPages L.userHeapStart L.userHeapMaxPages (size / pageSize)
          (s.nextFit L size) ↔
        PageSearch.RunBesideHand s.emptyPages L.userHeapMaxPages
          ((s.lastAllocatedUHpage - L.userHeapStart) / pageSize) (size / pageSize)) := by
  obtain ⟨hn, hpages⟩ := pages_of_size hsize hpos
  refine ⟨fun s halign hlo hhi => ?_, fun s halign hlo hhi => ?_⟩
  · obtain ⟨hj, hand⟩ := L.toKernelHeapLayout.hand_eq_addr halign hlo hhi
    have h := KernelHeap.nextFit_findsRun_iff hkernel hn hj hand
    rwa [hpages] at h
  · obtain ⟨hj, hand⟩ := L.hand_eq_heapAddr halign hlo hhi
    have h := UserHeap.nextFit_findsRun_iff huser hn hj hand
    rwa [hpages] at h

/-- All pages are empty at the first search, with the hand at the start. -/
theorem nextFit_findsRun_small :
    PageSearch.FindsRun (KernelHeap.prepared KernelHeap.smallLayout
        KernelHeap.smallHeap).emptyPages 0xF6000000 3 3
      ((KernelHeap.prepared KernelHeap.smallLayout KernelHeap.smallHeap).nextFit
        UserHeap.smallUserHeapLayout.toKernelHeapLayout 12288) := by
  have h := (nextFit_findsRun (P := Unit) (L := UserHeap.smallUserHeapLayout) (by decide)
    (by decide) (show 12288 % pageSize = 0 by decide) (by decide)).1
    (KernelHeap.prepared KernelHeap.smallLayout KernelHeap.smallHeap) (by decide) (by decide)
    (by decide)
  have hempty : ∀ x, x < 3 → (KernelHeap.prepared KernelHeap.smallLayout
      KernelHeap.smallHeap).emptyPages x = true := by decide
  refine h.2 fun _ => ⟨0, Or.inl (by decide), fun x _ hx => hempty x ?_⟩
  change x < 3 at hx
  exact hx

/-- One page allocated and freed under next fit leaves three empty pages and the hand at the
second, and `nextFit` does not find the three. -/
theorem handSplits_counterexample : ∃ s : KernelHeap,
    Machine.run (KernelHeap.step KernelHeap.smallLayout) KernelHeap.smallHeap
      [.setStrategy .nextFit, .kmalloc 4096, .kfree 0xF6000000] = some s ∧
    s.lastAllocatedKHpage = 0xF6001000 ∧
    ¬PageSearch.FindsRun s.emptyPages KernelHeap.smallLayout.kernelHeapStart
      KernelHeap.smallLayout.pages 3 (s.nextFit KernelHeap.smallLayout 12288) := by
  have hrun : (Machine.run (KernelHeap.step KernelHeap.smallLayout) KernelHeap.smallHeap
      [.setStrategy .nextFit, .kmalloc 4096, .kfree 0xF6000000]).map (fun s =>
        (s.lastAllocatedKHpage, s.nextFit KernelHeap.smallLayout 12288,
          (List.range 3).all s.emptyPages)) = some (0xF6001000, 0, true) := by decide
  obtain ⟨s, hs, h⟩ := Option.map_eq_some_iff.1 hrun
  simp only [Prod.mk.injEq, List.all_eq_true, List.mem_range] at h
  obtain ⟨hhand, hzero, hempty⟩ := h
  exact ⟨s, hs, hhand, fun hfinds =>
    hfinds.failed hzero 0 (by decide) fun x _ hx => hempty x (by omega)⟩

/-- On every table of either heap best fit finds the best run if there is one, and fails
only if there is none, exactly if no run is long enough or the last pages are one. -/
theorem bestFit_findsBest {L : UserHeapLayout} (hkernel : 0 < L.kernelHeapStart)
    (huser : 0 < L.userHeapStart) {size : Nat} (hsize : size % pageSize = 0) (hpos : 0 < size) :
    (∀ s : KernelHeap,
      PageSearch.FindsBest s.emptyPages L.kernelHeapStart L.pages (size / pageSize)
          (s.bestFit L.toKernelHeapLayout size) ↔
        PageSearch.LastRunFits s.emptyPages L.pages (size / pageSize)) ∧
    ∀ s : UserHeap P,
      PageSearch.FindsBest s.emptyPages L.userHeapStart L.userHeapMaxPages (size / pageSize)
          (s.bestFit L size) ↔
        PageSearch.LastRunFits s.emptyPages L.userHeapMaxPages (size / pageSize) := by
  obtain ⟨hn, hpages⟩ := pages_of_size hsize hpos
  refine ⟨fun s => ?_, fun s => ?_⟩
  · have h := KernelHeap.bestFit_findsBest_iff hkernel hn (s := s)
    rwa [hpages] at h
  · have h := UserHeap.bestFit_findsBest_iff huser hn (s := s)
    rwa [hpages] at h

/-- Best fit for one page, with all pages of the program's heap empty. -/
theorem bestFit_findsBest_small :
    PageSearch.FindsBest (UserHeap.prepared UserHeap.smallUserHeapLayout
        UserHeap.smallProgram.heap).emptyPages 0x80000000 4 1
      ((UserHeap.prepared UserHeap.smallUserHeapLayout UserHeap.smallProgram.heap).bestFit
        UserHeap.smallUserHeapLayout 4096) := by
  have h := (bestFit_findsBest (L := UserHeap.smallUserHeapLayout) (by decide) (by decide)
    (show 4096 % pageSize = 0 by decide) (by decide)).2
    (UserHeap.prepared UserHeap.smallUserHeapLayout UserHeap.smallProgram.heap)
  have hempty : (UserHeap.prepared UserHeap.smallUserHeapLayout
      UserHeap.smallProgram.heap).emptyPages 3 = true := by decide
  refine h.2 (Or.inr ⟨by decide, fun x hlo hhi => ?_⟩)
  obtain rfl : x = 3 := by
    change 3 ≤ x at hlo
    change x < 4 at hhi
    omega
  exact hempty

/-- Three pages allocated one by one and the first one freed : `bestFit` does not find the
empty page, since the last page is not empty. -/
theorem lastPage_counterexample : ∃ s : KernelHeap,
    Machine.run (KernelHeap.step KernelHeap.smallLayout) KernelHeap.smallHeap
      [.kmalloc 4096, .kmalloc 4096, .kmalloc 4096, .kfree 0xF6000000] = some s ∧
    ¬PageSearch.FindsBest s.emptyPages KernelHeap.smallLayout.kernelHeapStart
      KernelHeap.smallLayout.pages 1 (s.bestFit KernelHeap.smallLayout 4096) := by
  have hrun : (Machine.run (KernelHeap.step KernelHeap.smallLayout) KernelHeap.smallHeap
      [.kmalloc 4096, .kmalloc 4096, .kmalloc 4096, .kfree 0xF6000000]).map (fun s =>
        (s.bestFit KernelHeap.smallLayout 4096, s.emptyPages 0, s.emptyPages 1)) =
      some (0, true, false) := by decide
  obtain ⟨s, hs, h⟩ := Option.map_eq_some_iff.1 hrun
  simp only [Prod.mk.injEq] at h
  obtain ⟨hzero, hfirst, hsecond⟩ := h
  refine ⟨s, hs, fun hbest => ?_⟩
  have hmax : Runs.IsMaximal s.emptyPages KernelHeap.smallLayout.pages 0 1 := by
    refine ⟨by decide, by decide, fun x _ hx => ?_, Or.inl rfl, Or.inr hsecond⟩
    obtain rfl : x = 0 := by omega
    exact hfirst
  exact absurd (hbest.failed_iff.1 hzero 0 1 hmax) (by decide)

end FosKernel
