import FosKernel.BlockMap
import FosKernel.UserHeap
import FosKernel.WorkingSetInvariant

/-!
# The user heap and the page file

The heap of a program is recorded twice : by `malloc` and `free` in `userHeapPages`, and by
the kernel in the page file. The loops on the two sides of a system call write the same
pages (`mallocLoop_spec` and `allocateMemLoop_spec`, `freeLoop_spec` and
`freeAllPagees_spec`).

`owner` reads the blocks off the table. On the blocks what `malloc` writes is
`BlockMap.claim` (`owner_fill_block`) and what `free` writes is `BlockMap.release`
(`owner_fill_empty`).
-/

namespace FosKernel

namespace UserMemory

variable {P : Type} {L : UserLayout} {pf : PageFile P} {s s' : UserMemory P}
  {env env' va va' : Nat}

/-! ## The page file -/

/-- The loop of `allocateMem` adds its pages. -/
theorem allocateMemLoop_spec (hfull : pf.NeverFull) (hkeeps : pf.KeepsPages) (env : Nat) :
    ∀ (trips : Nat) {va : Nat} (noSpace : Bool) (p : P), va % pageSize = 0 →
      ∃ p', allocateMemLoop pf env trips va noSpace p = (noSpace && trips == 0, p') ∧
        ∀ env' va', va' % pageSize = 0 → (pf.Has p' env' va' ↔
          (env' = env ∧ va ≤ va' ∧ va' < va + pageSize * trips) ∨ pf.Has p env' va')
  | 0, va, noSpace, p, _ => by
    refine ⟨p, by simp [allocateMemLoop], fun env' va' _ => ?_⟩
    simp only [Nat.mul_zero, Nat.add_zero]
    exact (or_iff_right fun hc => by omega).symm
  | trips + 1, va, noSpace, p, hva => by
    obtain ⟨p₁, hadd⟩ := hfull p env va true
    have hva' : (va + pageSize) % pageSize = 0 := by rw [Nat.add_mod_right, hva]
    obtain ⟨p', hloop, hhas⟩ := allocateMemLoop_spec hfull hkeeps env trips false p₁ hva'
    refine ⟨p', ?_, fun env' a ha => ?_⟩
    · simp only [allocateMemLoop, hadd, hloop]
      simp
    · rw [hhas env' a ha, hkeeps.add hva hadd env' a ha, ← or_assoc, ← and_or_left]
      refine or_congr_left (and_congr_right fun _ => ?_)
      unfold pageSize at *
      omega

/-- `freeAllPagees` removes its pages. -/
theorem freeAllPagees_spec (hkeeps : pf.KeepsPages) :
    ∀ (noOfPages : Nat) {va : Nat} (p : P), va % pageSize = 0 →
      ∀ env' va', va' % pageSize = 0 → (pf.Has (freeAllPagees pf env va noOfPages p) env' va' ↔
        pf.Has p env' va' ∧ ¬ (env' = env ∧ va ≤ va' ∧ va' < va + pageSize * noOfPages))
  | 0, va, p, _, env', va', _ => by
    simp only [freeAllPagees, Nat.mul_zero, Nat.add_zero]
    exact (and_iff_left fun hc => by omega).symm
  | noOfPages + 1, va, p, hva, env', a, ha => by
    have hva' : (va + pageSize) % pageSize = 0 := by rw [Nat.add_mod_right, hva]
    rw [freeAllPagees, freeAllPagees_spec hkeeps noOfPages _ hva' env' a ha,
      hkeeps.remove p env hva env' a ha, and_assoc, ← not_or, ← and_or_left]
    refine and_congr_right fun _ => not_congr (and_congr_right fun _ => ?_)
    unfold pageSize at *
    omega

end UserMemory

namespace UserHeapLayout

variable {L : UserHeapLayout}

theorem userHeapMax_eq : L.userHeapMax = L.heapAddr L.userHeapMaxPages := by
  have hlt := L.userHeapStart_lt_max
  have hstart := L.userHeapStart_aligned
  have hmax := L.userHeapMax_aligned
  unfold heapAddr userHeapMaxPages pageSize at *
  omega

theorem heapAddr_aligned (i : Nat) : L.heapAddr i % pageSize = 0 := by
  rw [heapAddr, Nat.add_mul_mod_self_left, L.userHeapStart_aligned]

theorem heapAddr_succ (i : Nat) : L.heapAddr i + pageSize = L.heapAddr (i + 1) := by
  unfold heapAddr pageSize
  omega

theorem heapAddr_inj {i j : Nat} : L.heapAddr i = L.heapAddr j ↔ i = j := by
  unfold heapAddr pageSize
  omega

theorem heapAddr_lt {i : Nat} (hi : i ≤ L.userHeapMaxPages) : L.heapAddr i < 4294967296 := by
  have hmax := L.userHeapMax_lt
  have heq := userHeapMax_eq (L := L)
  unfold heapAddr pageSize at *
  omega

theorem userHeapPageIndex_heapAddr {i : Nat} (hi : i ≤ L.userHeapMaxPages) :
    UserHeap.userHeapPageIndex L (L.heapAddr i) = i := by
  have hlt := heapAddr_lt hi
  unfold UserHeap.userHeapPageIndex heapAddr u32 pageSize at *
  omega

theorem u32_heapAddr {i : Nat} (hi : i < L.userHeapMaxPages) :
    u32 (L.heapAddr i + pageSize) = L.heapAddr (i + 1) := by
  rw [heapAddr_succ]
  exact Nat.mod_eq_of_lt (heapAddr_lt hi)

/-- An aligned address of the heap is that of a page. -/
theorem exists_heapAddr {va : Nat} (halign : va % pageSize = 0) (hlo : L.userHeapStart ≤ va)
    (hhi : va < L.userHeapMax) : ∃ i < L.userHeapMaxPages, va = L.heapAddr i := by
  have hstart := L.userHeapStart_aligned
  have hmax := L.userHeapMax_aligned
  refine ⟨(va - L.userHeapStart) / pageSize, ?_, ?_⟩
  · unfold userHeapMaxPages pageSize at *
    omega
  · unfold heapAddr pageSize at *
    omega

end UserHeapLayout

namespace UserHeap

variable {P : Type} {L : UserHeapLayout} {pf : PageFile P} {s s' : UserHeap P}

/-! ## Blocks of the table -/

/-- The first page of the block that page `i` belongs to. Before the table is
initialized every page is free, whatever the table holds. -/
def owner (L : UserHeapLayout) (s : UserHeap P) : BlockMap.OwnerMap := fun i =>
  if i < L.userHeapMaxPages ∧ s.isUserHeapEmpty = false ∧
      (s.userHeapPages i).isEmpty = false then
    some (((s.userHeapPages i).startAddress - L.userHeapStart) / pageSize)
  else none

theorem owner_of_not_init (h : s.isUserHeapEmpty = true) : owner L s = fun _ => none := by
  ext i : 1
  simp [owner, h]

theorem lt_pages_of_owner {i : Nat} (h : (owner L s i).isSome) : i < L.userHeapMaxPages := by
  by_contra hi
  rw [owner, if_neg fun hc => hi hc.1] at h
  cases h

theorem owner_isSome_iff (hinit : s.isUserHeapEmpty = false) {i : Nat}
    (hi : i < L.userHeapMaxPages) :
    (owner L s i).isSome ↔ (s.userHeapPages i).isEmpty = false := by
  unfold owner
  split_ifs with h
  · simp [h.2.2]
  · simpa [hi, hinit] using h

/-- The `n` pages from page `k` become what `f` gives. -/
def fill (s : UserHeap P) (k n : Nat) (f : Nat → UserHeapPage) : UserHeap P :=
  { s with
    userHeapPages := fun i => if k ≤ i ∧ i < k + n then f i else s.userHeapPages i }

theorem fill_zero (k : Nat) (f : Nat → UserHeapPage) : s.fill k 0 f = s := by
  simp only [fill, BlockMap.interval_zero]

/-- The first page, and then the rest. -/
theorem fill_succ (k n : Nat) (f : Nat → UserHeapPage) :
    fill { s with userHeapPages := Function.update s.userHeapPages k (f k) } (k + 1) n f =
      s.fill k (n + 1) f := by
  simp only [fill, BlockMap.interval_succ]

theorem setPage_of_lt {i : Nat} (hi : i < L.userHeapMaxPages) (p : UserHeapPage) :
    s.setPage L i p = some { s with userHeapPages := Function.update s.userHeapPages i p } :=
  if_pos hi

/-- The loop of `malloc` writes one page after the other. -/
theorem mallocLoop_spec {start size : Nat} :
    ∀ (n k : Nat) (s : UserHeap P), k + n ≤ L.userHeapMaxPages →
      mallocLoop L start size n (L.heapAddr k) s =
        some (s.fill k n fun _ => ⟨start, false, size⟩)
  | 0, k, s, _ => by rw [mallocLoop, fill_zero]
  | n + 1, k, s, hk => by
    have hlt : k < L.userHeapMaxPages := by omega
    rw [mallocLoop, UserHeapLayout.userHeapPageIndex_heapAddr hlt.le, setPage_of_lt hlt,
      Option.bind_some, UserHeapLayout.u32_heapAddr hlt, mallocLoop_spec n (k + 1) _ (by omega),
      ← fill_succ]

/-- The loop of `free` writes the pages back. -/
theorem freeLoop_spec :
    ∀ (n k : Nat) (s : UserHeap P), k + n ≤ L.userHeapMaxPages →
      freeLoop L n (L.heapAddr k) s = some (s.fill k n fun i => ⟨L.heapAddr i, true, 0⟩)
  | 0, k, s, _ => by rw [freeLoop, fill_zero]
  | n + 1, k, s, hk => by
    have hlt : k < L.userHeapMaxPages := by omega
    rw [freeLoop, UserHeapLayout.userHeapPageIndex_heapAddr hlt.le, setPage_of_lt hlt,
      Option.bind_some, UserHeapLayout.u32_heapAddr hlt, freeLoop_spec n (k + 1) _ (by omega),
      ← fill_succ]

/-- What `malloc` writes claims the pages for page `t`. -/
theorem owner_fill_block (hinit : s.isUserHeapEmpty = false) {t n size : Nat}
    (htn : t + n ≤ L.userHeapMaxPages) :
    owner L (s.fill t n fun _ => ⟨L.heapAddr t, false, size⟩) =
      BlockMap.claim (owner L s) t n := by
  have htag : (L.heapAddr t - L.userHeapStart) / pageSize = t := PageSearch.pageIndex t
  ext i : 1
  by_cases hi : t ≤ i ∧ i < t + n
  · have hlt : i < L.userHeapMaxPages := by omega
    rw [BlockMap.claim_of_mem hi]
    simp only [owner, fill, if_pos hi, hlt, hinit, and_self, if_true, htag]
  · rw [BlockMap.claim_of_not_mem hi]
    simp only [owner, fill, if_neg hi]

/-- What `free` writes releases the block. -/
theorem owner_fill_empty {t n : Nat} (hb : BlockMap.IsBlock (owner L s) t n) :
    owner L (s.fill t n fun i => ⟨L.heapAddr i, true, 0⟩) = BlockMap.release (owner L s) t := by
  ext i : 1
  rw [BlockMap.release]
  by_cases hi : t ≤ i ∧ i < t + n
  · rw [if_pos ((hb.2 i).2 hi)]
    simp [owner, fill, if_pos hi]
  · rw [if_neg (mt (hb.2 i).1 hi)]
    simp only [owner, fill, if_neg hi]

end UserHeap

end FosKernel
