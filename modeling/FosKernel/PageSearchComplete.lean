import FosKernel.PageSearch
import FosKernel.Runs

/-!
# What the searches of a page table find

`getStartAddress` finds a run of the size asked for whenever its interval holds one
(`getStartAddress_complete`), so `nextFit`, which cuts the table at its hand, misses
exactly the runs that straddle the hand (`nextFit_complete`).

`bestFit` keeps the best of the maximal runs it has passed and decides at the end by the
length of the last run : with a last run that is too short it returns 0
(`bestFit_eq_zero`), and else the best of all maximal runs (`bestFit_eq_best`). A search
for zero pages fails only when the last page is not empty.

Page zero has an address above 0, which is the failure value.
-/

namespace FosKernel

namespace PageSearch

variable {isEmpty : Nat → Bool} {base : Nat}

/-! ## getStartAddress and nextFit -/

theorem getStartAddressLoop_complete (hbase : 0 < base) {i₀ j n : Nat} :
    ∀ (fuel i f : Nat), fuel = j - i → i ≤ j → Runs.Trailing isEmpty i₀ i f → f < n →
      (∀ k, i₀ ≤ k → k + n ≤ i → ¬EmptyRun isEmpty k n) →
      getStartAddressLoop isEmpty base (base + pageSize * j) (pageSize * n) fuel
        (base + pageSize * i) (pageSize * f) = 0 →
      ∀ k, i₀ ≤ k → k + n ≤ j → ¬EmptyRun isEmpty k n
  | 0, i, f, hfuel, hij, _, _, hnone, _ => by
    obtain rfl : i = j := by omega
    exact hnone
  | fuel + 1, i, f, hfuel, hij, htrail, hfn, hnone, h => by
    have hle := htrail.le
    have hlt : base + pageSize * i < base + pageSize * j := by
      unfold pageSize
      omega
    have hfull : pageSize * f + pageSize = pageSize * n ↔ n = f + 1 := by
      unfold pageSize
      omega
    simp only [getStartAddressLoop, if_pos hlt, pageIndex, hfull, page_succ] at h
    -- A run that ends at page `i + 1` is no longer than the trailing run there.
    have hstep : ∀ g, Runs.Trailing isEmpty i₀ (i + 1) g → g < n →
        ∀ k, i₀ ≤ k → k + n ≤ i + 1 → ¬EmptyRun isEmpty k n := by
      intro g hg hgn k hk hkn hrun
      rcases Nat.lt_or_ge i (k + n) with hend | hend
      · have := hg.le_of_isRun hrun hk (by omega)
        omega
      · exact hnone k hk hend hrun
    cases hemp : isEmpty i with
    | true =>
      simp only [hemp, if_true] at h
      have htrail' := htrail.snoc hemp
      by_cases hn : n = f + 1
      · rw [if_pos hn] at h
        unfold pageSize at h
        omega
      · rw [if_neg hn] at h
        exact getStartAddressLoop_complete hbase fuel (i + 1) (f + 1) (by omega) (by omega)
          htrail' (by omega) (hstep (f + 1) htrail' (by omega)) h
    | false =>
      simp only [hemp, Bool.false_eq_true, if_false] at h
      have htrail' := htrail.reset hemp
      exact getStartAddressLoop_complete hbase fuel (i + 1) 0 (by omega) (by omega)
        htrail' (by omega) (hstep 0 htrail' (by omega)) h

/-- `getStartAddress` fails only if there is no run of the size asked for between its
bounds. -/
theorem getStartAddress_complete (hbase : 0 < base) {i j n : Nat} (hij : i ≤ j) (hn : 0 < n)
    (h : getStartAddress isEmpty base (base + pageSize * i) (base + pageSize * j)
      (pageSize * n) = 0) {k : Nat} (hk : i ≤ k) (hkn : k + n ≤ j) : ¬EmptyRun isEmpty k n := by
  unfold getStartAddress at h
  rw [pageTrips_page] at h
  exact getStartAddressLoop_complete hbase (j - i) i 0 rfl hij Runs.trailing_nil hn
    (fun k hk hkn => by omega) h k hk hkn

/-- `nextFit` fails exactly when no run of the size asked for lies on one side of its
hand. -/
theorem nextFit_eq_zero_iff (hbase : 0 < base) {i j n : Nat} (hij : i ≤ j) (hn : 0 < n) :
    nextFit isEmpty base base (base + pageSize * j) (base + pageSize * i) (pageSize * n) = 0 ↔
      ∀ k, i ≤ k ∧ k + n ≤ j ∨ k + n ≤ i → ¬EmptyRun isEmpty k n := by
  unfold nextFit
  by_cases h1 : getStartAddress isEmpty base (base + pageSize * i) (base + pageSize * j)
      (pageSize * n) = 0
  · simp only [h1, ne_eq, not_true_eq_false, if_false]
    constructor
    · rintro h k (⟨hk, hkn⟩ | hkn)
      · exact getStartAddress_complete hbase hij hn h1 hk hkn
      · exact getStartAddress_complete (i := 0) hbase (Nat.zero_le i) hn h (Nat.zero_le k) hkn
    · intro h
      by_contra hne
      obtain ⟨k, -, -, -, hkn, hrun⟩ := getStartAddress_sound (i := 0) hne
      exact h k (Or.inr hkn) hrun
  · simp only [h1, ne_eq, not_false_eq_true, if_true, false_iff, not_forall, not_not]
    obtain ⟨k, -, -, hk, hkn, hrun⟩ := getStartAddress_sound h1
    exact ⟨k, Or.inl ⟨hk, hkn⟩, hrun⟩

/-! ## bestFit -/

/-- The best block of the loop is the best run of `S` ; with none long enough its count
is the initial one. -/
def IsBestOf (base pages n : Nat) (S : Nat → Nat → Prop) (best : Location) : Prop :=
  best.freeFrames = ((pages + 1 : Nat) : Int) ∧ (∀ k f, S k f → f < n) ∨
    ∃ k f : Nat, best.startAddress = base + pageSize * k ∧ best.freeFrames = (f : Int) ∧
      Runs.BestOf S n k f

/-- The current block of the loop, before page `i`, is the trailing run of length `f`. -/
def IsTrailing (isEmpty : Nat → Bool) (base i f : Nat) (block : Location) : Prop :=
  Runs.Trailing isEmpty 0 i f ∧ (f = 0 ∧ block.freeFrames = -1 ∨
    0 < f ∧ block.freeFrames = (f : Int) ∧ block.startAddress = base + pageSize * (i - f))

/-- A block that has ended is one more run, above the others. -/
theorem IsBestOf.better {pages n k f : Nat} {S T : Nat → Nat → Prop} {best block : Location}
    (h : IsBestOf base pages n S best) (hcount : block.freeFrames = (f : Int))
    (hstart : block.startAddress = base + pageSize * k) (hf : f ≤ pages)
    (hS : ∀ k' f', S k' f' → k' ≤ k) (hT : ∀ k' f', T k' f' ↔ S k' f' ∨ k' = k ∧ f' = f) :
    IsBestOf base pages n T (betterLocation n best block) := by
  unfold betterLocation
  rcases h with ⟨hbest, hnone⟩ | ⟨k₀, f₀, haddr, hbest, hof⟩
  · by_cases hn : n ≤ f
    · rw [if_pos (by omega)]
      exact Or.inr ⟨k, f, hstart, hcount, Runs.bestOf_first hnone hT hn⟩
    · rw [if_neg (by omega)]
      refine Or.inl ⟨hbest, fun k' f' hmem => ?_⟩
      rcases (hT k' f').1 hmem with hmem | ⟨-, rfl⟩
      · exact hnone k' f' hmem
      · omega
  · by_cases hn : n ≤ f ∧ f < f₀
    · rw [if_pos (by omega)]
      exact Or.inr ⟨k, f, hstart, hcount, hof.replace hT hn.1 hn.2⟩
    · rw [if_neg (by omega)]
      exact Or.inr ⟨k₀, f₀, haddr, hbest, hof.keep hT (hS k₀ f₀ hof.mem) (by omega)⟩

/-- A block that is no run, with the count -1, is never the better one. -/
theorem betterLocation_none {n : Nat} {best block : Location} (h : block.freeFrames = -1) :
    betterLocation n best block = best :=
  if_neg (by omega)

theorem bestFitLoop_complete {j n : Nat} :
    ∀ (fuel i f : Nat) (best block : Location), fuel = j - i → i ≤ j →
      IsBestOf base j n (Runs.Seen isEmpty j i) best → IsTrailing isEmpty base i f block →
      IsBestOf base j n (Runs.Seen isEmpty j j) (bestFitLoop isEmpty base (base + pageSize * j) n
        fuel (base + pageSize * i) best block).1 ∧
      ∃ f', IsTrailing isEmpty base j f' (bestFitLoop isEmpty base (base + pageSize * j) n
        fuel (base + pageSize * i) best block).2
  | 0, i, f, best, block, hfuel, hij, hb, hc => by
    obtain rfl : i = j := by omega
    exact ⟨hb, f, hc⟩
  | fuel + 1, i, f, best, block, hfuel, hij, hb, ⟨htrail, hblock⟩ => by
    have hlt : base + pageSize * i < base + pageSize * j := by
      unfold pageSize
      omega
    have hle := htrail.le
    have hseen : ∀ k' f', Runs.Seen isEmpty j (i + 1) k' f' ↔
        Runs.Seen isEmpty j i k' f' ∨ isEmpty i = false ∧ 0 < f ∧ k' = i - f ∧ f' = f :=
      fun k' f' => htrail.seen_succ (by omega)
    simp only [bestFitLoop, if_pos hlt, pageIndex, page_succ]
    cases hemp : isEmpty i with
    | true =>
      simp only [if_true]
      have hb' : IsBestOf base j n (Runs.Seen isEmpty j (i + 1)) best := by
        have hsame : Runs.Seen isEmpty j (i + 1) = Runs.Seen isEmpty j i := by
          ext k' f'
          simp [hseen, hemp]
        rwa [hsame]
      refine bestFitLoop_complete fuel (i + 1) (f + 1) best _ (by omega) (by omega) hb'
        ⟨htrail.snoc hemp, Or.inr ⟨Nat.succ_pos f, ?_⟩⟩
      rcases hblock with ⟨rfl, hnone⟩ | ⟨hpos, hcount, hstart⟩
      · simp [hnone]
      · simp [hcount, hstart]
    | false =>
      simp only [Bool.false_eq_true, if_false]
      refine bestFitLoop_complete fuel (i + 1) 0 _ _ (by omega) (by omega) ?_
        ⟨htrail.reset hemp, Or.inl ⟨rfl, rfl⟩⟩
      rcases hblock with ⟨rfl, hnone⟩ | ⟨hpos, hcount, hstart⟩
      · have hsame : Runs.Seen isEmpty j (i + 1) = Runs.Seen isEmpty j i := by
          ext k' f'
          simp [hseen]
        rw [betterLocation_none hnone, hsame]
        exact hb
      · refine hb.better hcount hstart (by omega) (fun k' f' => htrail.seen_le) fun k' f' => ?_
        rw [hseen]
        simp [hemp, hpos]

/-- What is known at the end of the loop of `bestFit` : the best of the runs that have
ended, and the last run. -/
theorem bestFit_loop_end {j n : Nat} {best block : Location}
    (h : bestFitLoop isEmpty base (base + pageSize * j) n j base ⟨0, ((j + 1 : Nat) : Int)⟩
      ⟨0, -1⟩ = (best, block)) :
    IsBestOf base j n (Runs.Seen isEmpty j j) best ∧ ∃ f, IsTrailing isEmpty base j f block := by
  have hinit := @bestFitLoop_complete isEmpty base j n j 0 0 ⟨0, ((j + 1 : Nat) : Int)⟩ ⟨0, -1⟩
    rfl (Nat.zero_le j) (Or.inl ⟨rfl, fun k f hs => absurd hs.2 (Nat.not_lt_zero _)⟩)
    ⟨Runs.trailing_nil, Or.inl ⟨rfl, rfl⟩⟩
  rw [Nat.mul_zero, Nat.add_zero, h] at hinit
  exact hinit

theorem bestFit_eq {j n : Nat} {best block : Location}
    (h : bestFitLoop isEmpty base (base + pageSize * j) n j base ⟨0, ((j + 1 : Nat) : Int)⟩
      ⟨0, -1⟩ = (best, block)) :
    bestFit isEmpty base base (base + pageSize * j) (pageSize * n) =
      if block.freeFrames < n then 0 else (betterLocation n best block).startAddress := by
  have hpages : (base + pageSize * j - base) / pageSize = j := pageIndex j
  have htarget : pageSize * n / pageSize = n := by
    unfold pageSize
    omega
  have htrips : pageTrips base (base + pageSize * j) = j := pageTrips_page 0 j
  unfold bestFit
  simp only [hpages, htarget, htrips, h, Nat.add_sub_cancel]

/-- With a last run that is too short, or none, `bestFit` fails. -/
theorem bestFit_eq_zero {j n f : Nat} (hf : Runs.Trailing isEmpty 0 j f) (hshort : f = 0 ∨ f < n) :
    bestFit isEmpty base base (base + pageSize * j) (pageSize * n) = 0 := by
  obtain ⟨-, g, hg, hblock⟩ := @bestFit_loop_end isEmpty base j n _ _ rfl
  obtain rfl := hf.unique hg
  rw [bestFit_eq rfl, if_pos]
  omega

/-- With a last run that is long enough, `bestFit` returns the best of all maximal runs. -/
theorem bestFit_eq_best {j n f : Nat} (hf : Runs.Trailing isEmpty 0 j f) (hpos : 0 < f)
    (hlong : n ≤ f) :
    ∃ k g, Runs.BestOf (Runs.IsMaximal isEmpty j) n k g ∧
      bestFit isEmpty base base (base + pageSize * j) (pageSize * n) = base + pageSize * k := by
  obtain ⟨hbest, g, hg, hblock⟩ := @bestFit_loop_end isEmpty base j n _ _ rfl
  obtain rfl := hf.unique hg
  obtain ⟨hcount, hstart⟩ : _ ∧ _ := (hblock.resolve_left (by omega)).2
  have hle := hf.le
  have hall := hbest.better hcount hstart (by omega) (fun k' f' => hf.seen_le)
    (T := Runs.IsMaximal isEmpty j) fun k' f' => by
      rw [hf.isMaximal_iff]
      simp [hpos]
  rw [bestFit_eq rfl, if_neg (by omega)]
  rcases hall with ⟨-, hnone⟩ | ⟨k, g, haddr, -, hof⟩
  · exact absurd (hnone _ _ (hf.isMaximal hpos le_rfl (Or.inl rfl))) (by omega)
  · exact ⟨k, g, hof, haddr⟩

/-- For at most one page, `bestFit` finds a place exactly if the last page is empty. -/
theorem bestFit_ne_zero_iff (hbase : 0 < base) {j n : Nat} (hj : 0 < j) (hn : n ≤ 1) :
    bestFit isEmpty base base (base + pageSize * j) (pageSize * n) ≠ 0 ↔
      isEmpty (j - 1) = true := by
  obtain ⟨f, hf⟩ := Runs.exists_trailing isEmpty (Nat.zero_le j)
  have hlast : isEmpty (j - 1) = true ↔ 0 < f := by
    rw [Nat.lt_iff_add_one_le, ← hf.isRun_iff (by omega)]
    constructor
    · intro h x hlo hhi
      obtain rfl : x = j - 1 := by omega
      exact h
    · intro h
      exact h _ le_rfl (by omega)
  rw [hlast]
  constructor
  · intro h
    refine Nat.pos_of_ne_zero fun h0 => h ?_
    exact bestFit_eq_zero hf (Or.inl h0)
  · intro hpos
    obtain ⟨k, g, -, hres⟩ := @bestFit_eq_best _ base _ n _ hf hpos (by omega)
    omega

/-! ## The two searches as laws -/

/-- A search for `n` pages returns the start of a run of empty pages of the table, and 0
only if there is none. -/
structure FindsRun (isEmpty : Nat → Bool) (base pages n result : Nat) : Prop where
  found : result ≠ 0 → ∃ k, result = base + pageSize * k ∧ k + n ≤ pages ∧ EmptyRun isEmpty k n
  failed : result = 0 → ∀ k, k + n ≤ pages → ¬EmptyRun isEmpty k n

/-- If there is a run of `n` empty pages, there is one on one side of page `hand`. -/
def RunBesideHand (isEmpty : Nat → Bool) (pages hand n : Nat) : Prop :=
  (∃ k, k + n ≤ pages ∧ EmptyRun isEmpty k n) →
    ∃ k, (hand ≤ k ∧ k + n ≤ pages ∨ k + n ≤ hand) ∧ EmptyRun isEmpty k n

/-- A search for `n` pages returns the start of the lowest of the shortest maximal runs
that are long enough, and 0 exactly if none is. -/
structure FindsBest (isEmpty : Nat → Bool) (base pages n result : Nat) : Prop where
  best : ∀ k f, Runs.BestOf (Runs.IsMaximal isEmpty pages) n k f → result = base + pageSize * k
  failed_iff : result = 0 ↔ ∀ k f, Runs.IsMaximal isEmpty pages k f → f < n

/-- No run is long enough, or the last `n` pages are one. -/
def LastRunFits (isEmpty : Nat → Bool) (pages n : Nat) : Prop :=
  (∀ k f, Runs.IsMaximal isEmpty pages k f → f < n) ∨
    n ≤ pages ∧ EmptyRun isEmpty (pages - n) n

theorem nextFit_findsRun_iff (hbase : 0 < base) {i j n : Nat} (hij : i ≤ j) (hn : 0 < n) :
    FindsRun isEmpty base j n (nextFit isEmpty base base (base + pageSize * j)
      (base + pageSize * i) (pageSize * n)) ↔ RunBesideHand isEmpty j i n := by
  have hzero := @nextFit_eq_zero_iff isEmpty base hbase i j n hij hn
  constructor
  · rintro h ⟨k, hkn, hrun⟩
    by_contra hnone
    exact h.failed (hzero.2 fun k hk hrun => hnone ⟨k, hk, hrun⟩) k hkn hrun
  · intro h
    refine ⟨fun hne => ?_, fun h0 k hkn hrun => ?_⟩
    · obtain ⟨k, hk, -, hkn, hrun⟩ := nextFit_sound hij hne
      exact ⟨k, hk, hkn, hrun⟩
    · obtain ⟨k', hside, hrun'⟩ := h ⟨k, hkn, hrun⟩
      exact hzero.1 h0 k' hside hrun'

theorem bestFit_findsBest_iff (hbase : 0 < base) {j n : Nat} (hn : 0 < n) :
    FindsBest isEmpty base j n
      (bestFit isEmpty base base (base + pageSize * j) (pageSize * n)) ↔
      LastRunFits isEmpty j n := by
  obtain ⟨f, hf⟩ := Runs.exists_trailing isEmpty (Nat.zero_le j)
  have hle := hf.le
  by_cases hlong : n ≤ f
  · obtain ⟨k, g, hbest, hres⟩ := @bestFit_eq_best _ base _ n _ hf (by omega) hlong
    refine iff_of_true ⟨fun k' f' hbest' => ?_, ?_⟩
      (Or.inr ⟨by omega, (hf.isRun_iff (by omega)).2 hlong⟩)
    · rw [hres, (hbest.unique hbest').1]
    · refine iff_of_false (by omega) fun hnone => ?_
      have := hnone k g hbest.mem
      have := hbest.long
      omega
  · have hres := @bestFit_eq_zero _ base _ n _ hf (by omega)
    constructor
    · intro h
      exact Or.inl (h.failed_iff.1 hres)
    · rintro (hnone | ⟨hnj, hrun⟩)
      · refine ⟨fun k g hbest => ?_, iff_of_true hres hnone⟩
        have := hnone k g hbest.mem
        have := hbest.long
        omega
      · exact absurd ((hf.isRun_iff (by omega)).1 hrun) hlong

end PageSearch

end FosKernel
