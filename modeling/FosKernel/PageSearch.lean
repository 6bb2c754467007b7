import FosKernel.Words
import Mathlib.Tactic.Set

/-!
# Searching a page table for free pages

`kheap.c` and `uheap.c` have the same search functions over tables of their own : the
table is a parameter here, `isEmpty` of the page index, with the address `base` of page
zero. `nextFit` searches with `getStartAddress` from the hand to the end of the table
and then from its start to the hand; `bestFit` looks for the smallest run.

`nextFit_sound` and `bestFit_sound` : an address these return is the start of
a run of empty pages, inside the interval searched.

The sizes passed are multiples of the page size, and the heaps end at least one page
below `2^32`, so no sum in the loops wraps.
-/

namespace FosKernel

namespace PageSearch

variable (isEmpty : Nat → Bool) (base : Nat)

/-- The pages `i, …, i + n - 1` are empty. -/
def EmptyRun (i n : Nat) : Prop :=
  ∀ x, i ≤ x → x < i + n → isEmpty x = true

/-- The loop of `getStartAddress`. It makes at most `fuel` trips. -/
def getStartAddressLoop (stop size : Nat) : Nat → Nat → Nat → Nat
  | 0, _, _ => 0
  | fuel + 1, start, freeSize =>
    if start < stop then
      if isEmpty ((start - base) / pageSize) then
        if freeSize + pageSize = size then start + pageSize - size
        else getStartAddressLoop stop size fuel (start + pageSize) (freeSize + pageSize)
      else getStartAddressLoop stop size fuel (start + pageSize) 0
    else 0

/-- The trips of a loop that goes from `start` to `stop` page by page. -/
def pageTrips (start stop : Nat) : Nat :=
  (stop - start + (pageSize - 1)) / pageSize

/-- `getStartAddress(start, end, size)`. -/
def getStartAddress (start stop size : Nat) : Nat :=
  getStartAddressLoop isEmpty base stop size (pageTrips start stop) start 0

/-- `nextFit(size)` over the table from `start` to `stop`, with the hand `last`. -/
def nextFit (start stop last size : Nat) : Nat :=
  let startAddress := getStartAddress isEmpty base last stop size
  if startAddress ≠ 0 then startAddress
  else getStartAddress isEmpty base start last size

/-- `struct Location`, less its end address. -/
structure Location where
  startAddress : Nat
  freeFrames : Int
  deriving DecidableEq, Repr

/-- The better of the best block so far and a block that has ended. -/
def betterLocation (targetFrames : Int) (bestLocation block : Location) : Location :=
  if targetFrames ≤ block.freeFrames ∧ block.freeFrames < bestLocation.freeFrames then block
  else bestLocation

/-- The loop of `bestFit`, with the best block so far and the current one. -/
def bestFitLoop (stop : Nat) (targetFrames : Int) :
    Nat → Nat → Location → Location → Location × Location
  | 0, _, bestLocation, block => (bestLocation, block)
  | fuel + 1, start, bestLocation, block =>
    if start < stop then
      if isEmpty ((start - base) / pageSize) then
        let block := if block.freeFrames = -1 then ⟨start, 0⟩ else block
        bestFitLoop stop targetFrames fuel (start + pageSize) bestLocation
          { block with freeFrames := block.freeFrames + 1 }
      else
        bestFitLoop stop targetFrames fuel (start + pageSize)
          (betterLocation targetFrames bestLocation block) { block with freeFrames := -1 }
    else (bestLocation, block)

/-- `bestFit(size)` over the table from `start` to `stop`. The final test is on the last
block of the table. -/
def bestFit (start stop size : Nat) : Nat :=
  let targetFrames : Int := (size / pageSize : Nat)
  let (bestLocation, block) := bestFitLoop isEmpty base stop targetFrames (pageTrips start stop)
    start ⟨0, (((stop - start) / pageSize + 1 : Nat) : Int)⟩ ⟨0, -1⟩
  let bestLocation := betterLocation targetFrames bestLocation block
  if block.freeFrames < targetFrames then 0
  else bestLocation.startAddress + pageSize * (size / pageSize) - size

variable {isEmpty : Nat → Bool} {base : Nat}

theorem pageTrips_page (i j : Nat) :
    pageTrips (base + pageSize * i) (base + pageSize * j) = j - i := by
  unfold pageTrips pageSize
  omega

theorem pageIndex (i : Nat) : (base + pageSize * i - base) / pageSize = i := by
  unfold pageSize
  omega

theorem page_succ (i : Nat) : base + pageSize * i + pageSize = base + pageSize * (i + 1) := by
  unfold pageSize
  omega

theorem EmptyRun.snoc {i f : Nat} (h : EmptyRun isEmpty (i - f) f) (hf : f ≤ i)
    (hi : isEmpty i = true) : EmptyRun isEmpty (i + 1 - (f + 1)) (f + 1) := by
  intro x hlo hhi
  rcases Nat.lt_or_ge x i with hx | hx
  · exact h x (by omega) (by omega)
  · obtain rfl : x = i := by omega
    exact hi

theorem getStartAddressLoop_sound {i₀ j n : Nat} :
    ∀ (fuel i f : Nat), fuel = j - i → f ≤ i - i₀ → i₀ ≤ i → EmptyRun isEmpty (i - f) f →
      getStartAddressLoop isEmpty base (base + pageSize * j) (pageSize * n) fuel
        (base + pageSize * i) (pageSize * f) ≠ 0 →
      ∃ k, getStartAddressLoop isEmpty base (base + pageSize * j) (pageSize * n) fuel
          (base + pageSize * i) (pageSize * f) = base + pageSize * k ∧
        0 < n ∧ i₀ ≤ k ∧ k + n ≤ j ∧ EmptyRun isEmpty k n
  | 0, i, f, _, _, _, _, h => by simp [getStartAddressLoop] at h
  | fuel + 1, i, f, hfuel, hf, hi₀, hrun, h => by
    have hlt : base + pageSize * i < base + pageSize * j := by
      unfold pageSize
      omega
    have hfull : pageSize * f + pageSize = pageSize * n ↔ n = f + 1 := by
      unfold pageSize
      omega
    simp only [getStartAddressLoop, if_pos hlt, pageIndex, hfull, page_succ] at h ⊢
    by_cases hemp : isEmpty i = true
    · simp only [hemp, if_true] at h ⊢
      have hrun' := hrun.snoc (by omega) hemp
      by_cases hn : n = f + 1
      · subst hn
        refine ⟨i - f, ?_, Nat.succ_pos f, by omega, by omega, ?_⟩
        · rw [if_pos rfl]
          unfold pageSize
          omega
        · rwa [Nat.add_sub_add_right] at hrun'
      · have hsize : pageSize * f + pageSize = pageSize * (f + 1) := rfl
        simp only [if_neg hn, hsize] at h ⊢
        exact getStartAddressLoop_sound fuel (i + 1) (f + 1) (by omega) (by omega) (by omega)
          hrun' h
    · simp only [hemp, if_false, Bool.false_eq_true] at h ⊢
      exact getStartAddressLoop_sound fuel (i + 1) 0 (by omega) (by omega) (by omega)
        (fun x hlo hhi => by omega) h

/-- What `getStartAddress` returns is the start of a run of empty pages of the size asked
for, inside the interval searched. -/
theorem getStartAddress_sound {i j n : Nat}
    (h : getStartAddress isEmpty base (base + pageSize * i) (base + pageSize * j)
      (pageSize * n) ≠ 0) :
    ∃ k, getStartAddress isEmpty base (base + pageSize * i) (base + pageSize * j)
        (pageSize * n) = base + pageSize * k ∧
      0 < n ∧ i ≤ k ∧ k + n ≤ j ∧ EmptyRun isEmpty k n := by
  unfold getStartAddress at h ⊢
  rw [pageTrips_page] at h ⊢
  exact getStartAddressLoop_sound (j - i) i 0 rfl (Nat.zero_le _) le_rfl
    (fun x hlo hhi => by omega) h

/-- What `nextFit` returns is the start of a run of empty pages of the size asked for. -/
theorem nextFit_sound {i j n : Nat} (hi : i ≤ j)
    (h : nextFit isEmpty base base (base + pageSize * j) (base + pageSize * i)
      (pageSize * n) ≠ 0) :
    ∃ k, nextFit isEmpty base base (base + pageSize * j) (base + pageSize * i) (pageSize * n) =
        base + pageSize * k ∧
      0 < n ∧ k + n ≤ j ∧ EmptyRun isEmpty k n := by
  unfold nextFit at h ⊢
  by_cases h1 : getStartAddress isEmpty base (base + pageSize * i) (base + pageSize * j)
      (pageSize * n) ≠ 0
  · simp only [h1, if_true, ne_eq, not_false_eq_true] at h ⊢
    obtain ⟨k, hk, hn, -, hj, hrun⟩ := getStartAddress_sound h1
    exact ⟨k, hk, hn, hj, hrun⟩
  · simp only [h1, if_false] at h ⊢
    obtain ⟨k, hk, hn, -, hj, hrun⟩ := getStartAddress_sound (i := 0) h
    exact ⟨k, hk, hn, by omega, hrun⟩

/-- The current block of the best-fit loop, before page `i` : none, or the empty pages
just before `i`. -/
def IsCurrent (isEmpty : Nat → Bool) (base i : Nat) (block : Location) : Prop :=
  block.freeFrames = -1 ∨ ∃ f, f ≤ i ∧ block.freeFrames = (f : Int) ∧
    block.startAddress = base + pageSize * (i - f) ∧ EmptyRun isEmpty (i - f) f

/-- The best block of the loop, before page `i` : none yet, with the initial count, or a
run of empty pages that is long enough. -/
def IsBest (isEmpty : Nat → Bool) (base i pages n : Nat) (best : Location) : Prop :=
  best.freeFrames = ((pages + 1 : Nat) : Int) ∨ ∃ k f, k + f ≤ i ∧ n ≤ f ∧
    best.startAddress = base + pageSize * k ∧ EmptyRun isEmpty k f

theorem IsBest.better {i pages n : Nat} {best block : Location}
    (hb : IsBest isEmpty base i pages n best) (hc : IsCurrent isEmpty base i block) :
    IsBest isEmpty base i pages n (betterLocation n best block) := by
  unfold betterLocation
  split_ifs with h
  · rcases hc with hc | ⟨f, hf, hcount, hstart, hrun⟩
    · omega
    · exact Or.inr ⟨i - f, f, by omega, by omega, hstart, hrun⟩
  · exact hb

theorem bestFitLoop_sound (isEmpty : Nat → Bool) (base : Nat) {j pages n : Nat} :
    ∀ (fuel i : Nat) (best block : Location), fuel = j - i → i ≤ j →
      IsBest isEmpty base i pages n best → IsCurrent isEmpty base i block →
      IsBest isEmpty base j pages n (bestFitLoop isEmpty base (base + pageSize * j) n fuel
        (base + pageSize * i) best block).1 ∧
      IsCurrent isEmpty base j (bestFitLoop isEmpty base (base + pageSize * j) n fuel
        (base + pageSize * i) best block).2
  | 0, i, best, block, hfuel, hij, hb, hc => by
    obtain rfl : i = j := by omega
    exact ⟨hb, hc⟩
  | fuel + 1, i, best, block, hfuel, hij, hb, hc => by
    have hlt : base + pageSize * i < base + pageSize * j := by
      unfold pageSize
      omega
    have hmono : ∀ b, IsBest isEmpty base i pages n b → IsBest isEmpty base (i + 1) pages n b := by
      rintro b (h | ⟨k, f, hk, h⟩)
      · exact Or.inl h
      · exact Or.inr ⟨k, f, by omega, h⟩
    simp only [bestFitLoop, if_pos hlt, pageIndex, page_succ]
    by_cases hemp : isEmpty i = true
    · simp only [hemp, if_true]
      refine bestFitLoop_sound isEmpty base fuel (i + 1) best _ (by omega) (by omega)
        (hmono best hb) (Or.inr ?_)
      rcases hc with hc | ⟨f, hf, hcount, hstart, hrun⟩
      · refine ⟨1, by omega, by simp [hc], by simp [hc], ?_⟩
        intro x hlo hhi
        obtain rfl : x = i := by omega
        exact hemp
      · have hne : block.freeFrames ≠ -1 := by omega
        simp only [if_neg hne]
        refine ⟨f + 1, by omega, by simp [hcount], ?_, hrun.snoc hf hemp⟩
        rw [hstart, Nat.add_sub_add_right]
    · simp only [hemp, if_false, Bool.false_eq_true]
      exact bestFitLoop_sound isEmpty base fuel (i + 1) _ _ (by omega) (by omega)
        (hmono _ (hb.better hc)) (Or.inl rfl)

/-- What `bestFit` returns is the start of a run of empty pages at least as long as the
size asked for. -/
theorem bestFit_sound {j n : Nat}
    (h : bestFit isEmpty base base (base + pageSize * j) (pageSize * n) ≠ 0) :
    ∃ k, bestFit isEmpty base base (base + pageSize * j) (pageSize * n) = base + pageSize * k ∧
      k + n ≤ j ∧ EmptyRun isEmpty k n := by
  have hpages : (base + pageSize * j - base) / pageSize = j := pageIndex j
  have htarget : pageSize * n / pageSize = n := by
    unfold pageSize
    omega
  have htrips : pageTrips base (base + pageSize * j) = j := pageTrips_page 0 j
  unfold bestFit at h ⊢
  simp only [hpages, htarget, htrips] at h ⊢
  obtain ⟨hb, hc⟩ := bestFitLoop_sound isEmpty base (n := n) j 0
    ⟨0, ((j + 1 : Nat) : Int)⟩ ⟨0, -1⟩ rfl (Nat.zero_le j) (Or.inl rfl) (Or.inl rfl)
  simp only [Nat.mul_zero, Nat.add_zero] at hb hc
  set best := (bestFitLoop isEmpty base (base + pageSize * j) n j base
    ⟨0, ((j + 1 : Nat) : Int)⟩ ⟨0, -1⟩).1
  set block := (bestFitLoop isEmpty base (base + pageSize * j) n j base
    ⟨0, ((j + 1 : Nat) : Int)⟩ ⟨0, -1⟩).2
  have hlast : ¬block.freeFrames < (n : Int) := by
    intro hlt
    simp [hlt] at h
  -- The last block is long enough, and the initial best count is above its length.
  have hbetter : ∃ k f, k + f ≤ j ∧ n ≤ f ∧
      (betterLocation n best block).startAddress = base + pageSize * k ∧
      EmptyRun isEmpty k f := by
    rcases hb with hb | hb
    · rcases hc with hc | ⟨f, hf, hcount, hstart, hrun⟩
      · omega
      · have hlt : (n : Int) ≤ block.freeFrames ∧ block.freeFrames < best.freeFrames := by
          omega
        rw [betterLocation, if_pos hlt]
        exact ⟨j - f, f, by omega, by omega, hstart, hrun⟩
    · unfold betterLocation
      split_ifs with hlt
      · rcases hc with hc | ⟨f, hf, hcount, hstart, hrun⟩
        · omega
        · exact ⟨j - f, f, by omega, by omega, hstart, hrun⟩
      · exact hb
  obtain ⟨k, f, hkf, hnf, hstart, hrun⟩ := hbetter
  refine ⟨k, ?_, by omega, fun x hlo hhi => hrun x hlo (by omega)⟩
  rw [if_neg hlast, hstart]
  omega

end PageSearch

end FosKernel
