import Mathlib.Data.Nat.Basic
import Mathlib.Tactic.SplitIfs

/-!
# Runs of a Boolean sequence

A run is an interval of positions on which a sequence is true. A run inside the first
`bound` positions is maximal if it cannot be made longer at either end. `BestOf` is the
lowest of the shortest runs of a set that have at least `n` positions.

A scan from `lo` on keeps the trailing run, the longest that ends just before the position
it is at : `Trailing.snoc` and `Trailing.reset` are its two steps. The maximal runs that
have ended before the scan's position are the runs it has seen (`Seen`), and
`Trailing.seen_succ` says which run one step adds. A run added above the others either
replaces the best one (`BestOf.replace`) or not (`BestOf.keep`).
-/

namespace Runs

variable {p : Nat → Bool} {lo bound i k f n : Nat}

/-- `p` is true at the `n` positions from `k`. -/
def IsRun (p : Nat → Bool) (k n : Nat) : Prop :=
  ∀ x, k ≤ x → x < k + n → p x = true

/-- The `f` positions from `k` are a run that cannot be made longer. -/
structure IsMaximal (p : Nat → Bool) (bound k f : Nat) : Prop where
  pos : 0 < f
  fits : k + f ≤ bound
  run : IsRun p k f
  left : k = 0 ∨ p (k - 1) = false
  right : k + f = bound ∨ p (k + f) = false

/-- The lowest of the shortest runs in `S` that have at least `n` positions. -/
structure BestOf (S : Nat → Nat → Prop) (n k f : Nat) : Prop where
  mem : S k f
  long : n ≤ f
  least : ∀ k' f', S k' f' → n ≤ f' → f < f' ∨ f = f' ∧ k ≤ k'

/-- The longest run in the positions from `lo` that ends just before `i` has length `f`. -/
structure Trailing (p : Nat → Bool) (lo i f : Nat) : Prop where
  le : lo + f ≤ i
  run : IsRun p (i - f) f
  left : i - f = lo ∨ p (i - f - 1) = false

theorem IsRun.mono {k' n' : Nat} (h : IsRun p k n) (hk : k ≤ k') (hn : k' + n' ≤ k + n) :
    IsRun p k' n' :=
  fun x hlo hhi => h x (by omega) (by omega)

/-! ## The trailing run -/

theorem trailing_nil : Trailing p lo lo 0 :=
  ⟨le_rfl, fun x hlo hhi => by omega, Or.inl rfl⟩

theorem Trailing.snoc (h : Trailing p lo i f) (hi : p i = true) :
    Trailing p lo (i + 1) (f + 1) := by
  have hle := h.le
  refine ⟨by omega, fun x hlo hhi => ?_, by simpa using h.left⟩
  rcases Nat.lt_or_ge x i with hx | hx
  · exact h.run x (by omega) (by omega)
  · obtain rfl : x = i := by omega
    exact hi

theorem Trailing.reset (h : Trailing p lo i f) (hi : p i = false) : Trailing p lo (i + 1) 0 :=
  ⟨Nat.le_succ_of_le (le_trans (Nat.le_add_right lo f) h.le), fun x hlo hhi => by omega,
    Or.inr hi⟩

theorem exists_trailing (p : Nat → Bool) (hlo : lo ≤ i) : ∃ f, Trailing p lo i f := by
  induction i, hlo using Nat.le_induction with
  | base => exact ⟨0, trailing_nil⟩
  | succ i _ ih =>
    obtain ⟨f, hf⟩ := ih
    cases hi : p i with
    | true => exact ⟨f + 1, hf.snoc hi⟩
    | false => exact ⟨0, hf.reset hi⟩

/-- No run that ends where the trailing run ends is longer. -/
theorem Trailing.le_of_isRun (h : Trailing p lo i f) (hr : IsRun p k n) (hk : lo ≤ k)
    (hn : k + n = i) : n ≤ f := by
  by_contra hlt
  have hle := h.le
  rcases h.left with hleft | hleft
  · omega
  · have := hr (i - f - 1) (by omega) (by omega)
    rw [hleft] at this
    cases this

theorem Trailing.isRun_iff (h : Trailing p lo i f) (hn : lo + n ≤ i) :
    IsRun p (i - n) n ↔ n ≤ f :=
  ⟨fun hr => h.le_of_isRun hr (by omega) (by omega),
    fun hnf => h.run.mono (by omega) (by have := h.le; omega)⟩

theorem Trailing.unique {g : Nat} (h : Trailing p lo i f) (h' : Trailing p lo i g) : f = g := by
  have hle := h.le
  have hle' := h'.le
  have h1 := h.le_of_isRun h'.run (by omega) (by omega)
  have h2 := h'.le_of_isRun h.run (by omega) (by omega)
  omega

/-- A maximal run is the trailing run at its end. -/
theorem IsMaximal.trailing (h : IsMaximal p bound k f) : Trailing p 0 (k + f) f := by
  refine ⟨by omega, ?_, ?_⟩
  · rw [Nat.add_sub_cancel]
    exact h.run
  · rw [Nat.add_sub_cancel]
    exact h.left

/-- A trailing run that the next position does not continue is maximal. -/
theorem Trailing.isMaximal (h : Trailing p 0 i f) (hf : 0 < f) (hi : i ≤ bound)
    (hright : i = bound ∨ p i = false) : IsMaximal p bound (i - f) f := by
  have hle := h.le
  have hend : i - f + f = i := by omega
  refine ⟨hf, by omega, h.run, h.left, ?_⟩
  rw [hend]
  exact hright

/-! ## The runs a scan has seen -/

/-- A maximal run that ended before the scan came to `i`. -/
def Seen (p : Nat → Bool) (bound i k f : Nat) : Prop :=
  IsMaximal p bound k f ∧ k + f < i

/-- What one step adds to the runs seen : nothing if the run goes on, and the trailing
run if it ends. -/
theorem Trailing.seen_succ (h : Trailing p 0 i f) (hi : i < bound) {k' f' : Nat} :
    Seen p bound (i + 1) k' f' ↔
      Seen p bound i k' f' ∨ p i = false ∧ 0 < f ∧ k' = i - f ∧ f' = f := by
  constructor
  · rintro ⟨hmax, hlt⟩
    rcases Nat.lt_or_ge (k' + f') i with hend | hend
    · exact Or.inl ⟨hmax, hend⟩
    · obtain rfl : k' + f' = i := by omega
      obtain rfl : f' = f := hmax.trailing.unique h
      have hright : p (k' + f') = false := hmax.right.resolve_left (by omega)
      exact Or.inr ⟨hright, hmax.pos, by omega, rfl⟩
  · rintro (⟨hmax, hlt⟩ | ⟨hp, hpos, rfl, rfl⟩)
    · exact ⟨hmax, by omega⟩
    · have hle := h.le
      exact ⟨h.isMaximal hpos (Nat.le_of_lt hi) (Or.inr hp), by omega⟩

/-- The runs seen lie below the trailing run. -/
theorem Trailing.seen_le (h : Trailing p 0 i f) {k' f' : Nat} (hs : Seen p bound i k' f') :
    k' ≤ i - f := by
  by_contra hlt
  obtain ⟨hmax, hend⟩ := hs
  rcases hmax.left with hleft | hleft
  · omega
  · have := h.run (k' - 1) (by omega) (by omega)
    rw [hleft] at this
    cases this

/-- At the end of the scan every maximal run has been seen but the trailing one. -/
theorem Trailing.isMaximal_iff (h : Trailing p 0 bound f) {k' f' : Nat} :
    IsMaximal p bound k' f' ↔
      Seen p bound bound k' f' ∨ 0 < f ∧ k' = bound - f ∧ f' = f := by
  constructor
  · intro hmax
    rcases Nat.lt_or_ge (k' + f') bound with hend | hend
    · exact Or.inl ⟨hmax, hend⟩
    · have hfits := hmax.fits
      have htrail := hmax.trailing
      rw [show k' + f' = bound by omega] at htrail
      obtain rfl : f' = f := htrail.unique h
      exact Or.inr ⟨hmax.pos, by omega, rfl⟩
  · rintro (hseen | ⟨hpos, rfl, rfl⟩)
    · exact hseen.1
    · exact h.isMaximal hpos le_rfl (Or.inl rfl)

/-! ## The best run -/

variable {S T : Nat → Nat → Prop} {k₁ f₁ : Nat}

theorem BestOf.unique {k' f' : Nat} (h : BestOf S n k f) (h' : BestOf S n k' f') :
    k = k' ∧ f = f' := by
  have h1 := h.least k' f' h'.mem h'.long
  have h2 := h'.least k f h.mem h.long
  omega

/-- A run added above the best one that is too short, or no shorter, is not better. -/
theorem BestOf.keep (h : BestOf S n k f) (hT : ∀ k' f', T k' f' ↔ S k' f' ∨ k' = k₁ ∧ f' = f₁)
    (hk : k ≤ k₁) (hf : f₁ < n ∨ f ≤ f₁) : BestOf T n k f := by
  refine ⟨(hT k f).2 (Or.inl h.mem), h.long, fun k' f' hmem hlong => ?_⟩
  rcases (hT k' f').1 hmem with hmem | ⟨rfl, rfl⟩
  · exact h.least k' f' hmem hlong
  · omega

/-- A run added that is long enough and shorter than the best one is the best. -/
theorem BestOf.replace (h : BestOf S n k f)
    (hT : ∀ k' f', T k' f' ↔ S k' f' ∨ k' = k₁ ∧ f' = f₁) (hn : n ≤ f₁) (hf : f₁ < f) :
    BestOf T n k₁ f₁ := by
  refine ⟨(hT k₁ f₁).2 (Or.inr ⟨rfl, rfl⟩), hn, fun k' f' hmem hlong => ?_⟩
  rcases (hT k' f').1 hmem with hmem | ⟨rfl, rfl⟩
  · have := h.least k' f' hmem hlong
    omega
  · exact Or.inr ⟨rfl, le_rfl⟩

/-- The first run that is long enough is the best. -/
theorem bestOf_first (hS : ∀ k' f', S k' f' → f' < n)
    (hT : ∀ k' f', T k' f' ↔ S k' f' ∨ k' = k₁ ∧ f' = f₁) (hn : n ≤ f₁) :
    BestOf T n k₁ f₁ := by
  refine ⟨(hT k₁ f₁).2 (Or.inr ⟨rfl, rfl⟩), hn, fun k' f' hmem hlong => ?_⟩
  rcases (hT k' f').1 hmem with hmem | ⟨rfl, rfl⟩
  · exact absurd (hS k' f' hmem) (by omega)
  · exact Or.inr ⟨rfl, le_rfl⟩

end Runs
