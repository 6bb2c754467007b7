import Mathlib.Data.Finset.Card
import Mathlib.Data.Finset.Basic
import Mathlib.Order.Interval.Finset.Nat

/-!
# Contiguous blocks of pages

An owner map gives each page the first page of the block it belongs to, or nothing if
the page is free. `Contiguous` says that the tags are honest : the pages from a tagged
page's first page up to it all carry that tag, so the pages with one tag are one
interval that starts at the tag.

`claim` tags a free interval with its own start and `release` frees every page of one
block. Both keep `Contiguous` (`Contiguous.claim`, `Contiguous.release`), and neither
touches another block (`IsBlock.claim_other`, `IsBlock.release_other`).
`Contiguous.existsUnique_block` cuts a bounded contiguous map into its blocks, and
`card_owned_claim` and `card_owned_release` count pages.
-/

namespace BlockMap

/-- Page `i` belongs to the block whose first page is `owner i`. -/
abbrev OwnerMap := Nat → Option Nat

/-- The pages from the first page of a block up to any page of it belong to it. -/
def Contiguous (owner : OwnerMap) : Prop :=
  ∀ i t, owner i = some t → t ≤ i ∧ ∀ j, t ≤ j → j ≤ i → owner j = some t

/-- The `n` pages from `first` become one block. -/
def claim (owner : OwnerMap) (first n : Nat) : OwnerMap := fun i =>
  if first ≤ i ∧ i < first + n then some first else owner i

/-- The pages of the block `t` become free. -/
def release (owner : OwnerMap) (t : Nat) : OwnerMap := fun i =>
  if owner i = some t then none else owner i

/-- The `n` pages from `first` are free. -/
def FreeRun (owner : OwnerMap) (first n : Nat) : Prop :=
  ∀ i, first ≤ i → i < first + n → owner i = none

/-- The pages of the block `first` are the `n` pages from `first`. -/
def IsBlock (owner : OwnerMap) (first n : Nat) : Prop :=
  0 < n ∧ ∀ i, owner i = some first ↔ first ≤ i ∧ i < first + n

/-- The owned pages below `bound`. -/
def owned (owner : OwnerMap) (bound : Nat) : Finset Nat :=
  (Finset.range bound).filter fun i => (owner i).isSome

variable {owner : OwnerMap} {first n t k : Nat}

theorem contiguous_none : Contiguous fun _ => none := by
  intro i t h
  simp at h

/-- A tag whose first page is free tags no page. -/
theorem Contiguous.ne_some (h : Contiguous owner) (ht : owner t ≠ some t) (i : Nat) :
    owner i ≠ some t := by
  intro hi
  obtain ⟨hle, hall⟩ := h i t hi
  exact ht (hall t le_rfl hle)

section Interval

variable {β : Type*} (f g : Nat → β) (t n : Nat)

theorem interval_zero : (fun i => if t ≤ i ∧ i < t + 0 then g i else f i) = f := by
  ext1 i
  exact if_neg (by omega)

/-- The first position of an interval is changed, and then the rest. -/
theorem interval_succ :
    (fun i => if t + 1 ≤ i ∧ i < t + 1 + n then g i else Function.update f t (g t) i) =
      fun i => if t ≤ i ∧ i < t + (n + 1) then g i else f i := by
  ext1 i
  by_cases hi : i = t
  · subst hi
    rw [if_neg (by omega), if_pos (by omega), Function.update_self]
  · have hiff : t + 1 ≤ i ∧ i < t + 1 + n ↔ t ≤ i ∧ i < t + (n + 1) := by omega
    simp only [hiff, Function.update_of_ne hi]

end Interval

theorem claim_of_mem {i : Nat} (h : first ≤ i ∧ i < first + n) :
    claim owner first n i = some first :=
  if_pos h

theorem claim_of_not_mem {i : Nat} (h : ¬(first ≤ i ∧ i < first + n)) :
    claim owner first n i = owner i :=
  if_neg h

theorem Contiguous.claim (h : Contiguous owner) (hfree : FreeRun owner first n) :
    Contiguous (claim owner first n) := by
  intro i t hi
  by_cases hmem : first ≤ i ∧ i < first + n
  · rw [claim_of_mem hmem, Option.some.injEq] at hi
    subst hi
    exact ⟨hmem.1, fun j hj hji => claim_of_mem ⟨hj, by omega⟩⟩
  · rw [claim_of_not_mem hmem] at hi
    obtain ⟨hle, hall⟩ := h i t hi
    refine ⟨hle, fun j hj hji => ?_⟩
    have hnot : ¬(first ≤ j ∧ j < first + n) := fun hm => by
      have := hall j hj hji
      rw [hfree j hm.1 hm.2] at this
      cases this
    rw [claim_of_not_mem hnot]
    exact hall j hj hji

theorem Contiguous.release (h : Contiguous owner) (t : Nat) : Contiguous (release owner t) := by
  intro i u hi
  unfold BlockMap.release at hi
  split_ifs at hi with htag
  obtain ⟨hle, hall⟩ := h i u hi
  refine ⟨hle, fun j hj hji => ?_⟩
  have hju := hall j hj hji
  have hne : owner j ≠ some t := by
    rw [hju, ← hi]
    exact htag
  rw [BlockMap.release, if_neg hne, hju]

/-- The block just claimed. -/
theorem isBlock_claim (h : Contiguous owner) (hfree : FreeRun owner first n) (hn : 0 < n) :
    IsBlock (claim owner first n) first n := by
  refine ⟨hn, fun i => ⟨fun hi => ?_, claim_of_mem⟩⟩
  by_contra hmem
  rw [claim_of_not_mem hmem] at hi
  refine h.ne_some (t := first) ?_ i hi
  rw [hfree first le_rfl (by omega)]
  simp

theorem IsBlock.owner_first (h : IsBlock owner t k) : owner t = some t :=
  (h.2 t).2 ⟨le_rfl, by have := h.1; omega⟩

/-- Claiming free pages leaves every block as it is. -/
theorem IsBlock.claim_other (h : IsBlock owner t k) (hfree : FreeRun owner first n) :
    IsBlock (claim owner first n) t k := by
  refine ⟨h.1, fun i => ?_⟩
  rw [← h.2 i]
  by_cases hmem : first ≤ i ∧ i < first + n
  · rw [claim_of_mem hmem, hfree i hmem.1 hmem.2]
    constructor
    · intro hi
      obtain rfl := Option.some.inj hi
      have hown := h.owner_first
      rw [hfree first le_rfl (by omega)] at hown
      cases hown
    · intro hi
      cases hi
  · rw [claim_of_not_mem hmem]

/-- Releasing a block leaves every other block as it is. -/
theorem IsBlock.release_other (h : IsBlock owner t k) {u : Nat} (hne : t ≠ u) :
    IsBlock (release owner u) t k := by
  refine ⟨h.1, fun i => ?_⟩
  rw [← h.2 i]
  unfold release
  split_ifs with hu
  · rw [hu]
    simp [hne.symm]
  · rfl

/-- The pages with one tag, in a bounded contiguous map, are a block. -/
theorem Contiguous.exists_isBlock (h : Contiguous owner) {bound : Nat}
    (hb : ∀ i, bound ≤ i → owner i = none) {i : Nat} (hi : owner i = some t) :
    ∃ n, IsBlock owner t n := by
  classical
  have hex : ∃ m, owner (t + m) ≠ some t := ⟨bound, by rw [hb _ (by omega)]; simp⟩
  have hfirst : owner t = some t := (h i t hi).2 t le_rfl (h i t hi).1
  have hpos : 0 < Nat.find hex := by
    rcases Nat.eq_zero_or_pos (Nat.find hex) with h0 | h0
    · exact absurd hfirst (by simpa [h0] using Nat.find_spec hex)
    · exact h0
  refine ⟨Nat.find hex, hpos, fun j => ⟨fun hj => ?_, fun ⟨hlo, hhi⟩ => ?_⟩⟩
  · obtain ⟨hle, hall⟩ := h j t hj
    refine ⟨hle, ?_⟩
    by_contra hge
    exact Nat.find_spec hex (hall _ (by omega) (by omega))
  · have hlt : j - t < Nat.find hex := by omega
    have hmin := Nat.find_min hex hlt
    rw [not_not] at hmin
    rwa [Nat.add_sub_cancel' hlo] at hmin

theorem IsBlock.length_unique {m : Nat} (h : IsBlock owner t n) (h' : IsBlock owner t m) :
    n = m := by
  have h1 := h.1
  have h2 := h'.1
  have hlast := (h'.2 (t + n - 1)).1 ((h.2 _).2 (by omega))
  have hlast' := (h.2 (t + m - 1)).1 ((h'.2 _).2 (by omega))
  omega

/-- Every owned page lies in exactly one block. -/
theorem Contiguous.existsUnique_block (h : Contiguous owner) {bound : Nat}
    (hb : ∀ i, bound ≤ i → owner i = none) {i : Nat} (hi : (owner i).isSome) :
    ∃! b : Nat × Nat, IsBlock owner b.1 b.2 ∧ b.1 ≤ i ∧ i < b.1 + b.2 := by
  obtain ⟨t, ht⟩ := Option.isSome_iff_exists.1 hi
  obtain ⟨n, hn⟩ := h.exists_isBlock hb ht
  refine ⟨(t, n), ⟨hn, (hn.2 i).1 ht⟩, ?_⟩
  rintro ⟨u, m⟩ ⟨hm, hmem⟩
  have hu := (hm.2 i).2 hmem
  obtain rfl : t = u := Option.some.inj (ht.symm.trans hu)
  rw [hn.length_unique hm]

/-! ## Counting pages -/

theorem mem_owned {bound i : Nat} : i ∈ owned owner bound ↔ i < bound ∧ (owner i).isSome := by
  simp [owned]

/-- Claiming `n` free pages adds `n` to the owned pages. -/
theorem card_owned_claim {bound : Nat} (hb : first + n ≤ bound) (hfree : FreeRun owner first n) :
    (owned (claim owner first n) bound).card = (owned owner bound).card + n := by
  have hunion : owned (claim owner first n) bound =
      owned owner bound ∪ Finset.Ico first (first + n) := by
    ext i
    rw [Finset.mem_union, mem_owned, mem_owned, Finset.mem_Ico]
    by_cases hmem : first ≤ i ∧ i < first + n
    · simp only [claim_of_mem hmem, Option.isSome_some, and_true, hmem, or_true, iff_true]
      omega
    · simp [claim_of_not_mem hmem, hmem]
  have hdisj : Disjoint (owned owner bound) (Finset.Ico first (first + n)) := by
    rw [Finset.disjoint_left]
    intro i hi hmem
    rw [Finset.mem_Ico] at hmem
    rw [mem_owned, hfree i hmem.1 hmem.2] at hi
    simp at hi
  rw [hunion, Finset.card_union_of_disjoint hdisj, Nat.card_Ico, Nat.add_sub_cancel_left]

/-- Releasing a block of `n` pages takes `n` from the owned pages. -/
theorem card_owned_release (h : IsBlock owner t n) {bound : Nat} (hb : t + n ≤ bound) :
    (owned (release owner t) bound).card + n = (owned owner bound).card := by
  have hfree : FreeRun (release owner t) t n := fun i hlo hhi => by
    rw [release, if_pos ((h.2 i).2 ⟨hlo, hhi⟩)]
  have hclaim : claim (release owner t) t n = owner := by
    ext i : 1
    by_cases hmem : t ≤ i ∧ i < t + n
    · rw [claim_of_mem hmem, (h.2 i).2 hmem]
    · rw [claim_of_not_mem hmem, release, if_neg fun hi => hmem ((h.2 i).1 hi)]
  rw [← card_owned_claim hb hfree, hclaim]

end BlockMap
