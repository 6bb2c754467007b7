import Mathlib.Algebra.Order.Group.Nat
import Mathlib.Algebra.Order.Group.Unbundled.Int
import Mathlib.Data.Int.Order.Basic
import Mathlib.Order.Basic

/-!
# The search in the stab table

`stab_binsearch` halves a region of the table, and looks in each half for the last entry of its
type. `Found` is what its comment promises : the entry that contains the address, and the end of
it. A step either leaves a part of the region that has no such entry, or compares one (`Step`).

On an exact match the search adds one to the address and goes on, to find the end of the entry :
but the address is a pointer to words, and four are added. `finds_iff` says when that does no
harm : the next entry is more than four bytes on, or there is none, or the search has been there
before it comes to the match (`NextFirst`). Without an exact match the search is right.
-/

namespace FosKernel

/-- `struct Stab`, as far as the search reads it. -/
structure Stab where
  nType : ℤ
  nValue : BitVec 32

/-- The variables of `stab_binsearch`. -/
structure StabSearch where
  l : ℤ
  r : ℤ
  regionLeft : ℤ
  regionRight : ℤ
  anyMatches : Bool
  addr : BitVec 32

namespace StabSearch

variable (stabs : ℤ → Stab) (type : ℤ)

/-- The loops that count `m` down to `l`, until an entry is of the type : at most `trips` times. -/
def stepBack (l : ℤ) : ℕ → ℤ → ℤ
  | 0, m => m
  | trips + 1, m => if m ≥ l ∧ (stabs m).nType ≠ type then stepBack l trips (m - 1) else m

/-- The last entry of the type in `l` to `m`, or `l - 1`. -/
def lastMatch (l m : ℤ) : ℤ :=
  stepBack stabs type l (m + 1 - l).toNat m

/-- The body of the `while` loop. -/
def step (s : StabSearch) : StabSearch :=
  let trueM := (s.l + s.r).tdiv 2
  let m := lastMatch stabs type s.l trueM
  if m < s.l then
    { s with l := trueM + 1 }
  else if (stabs m).nValue < s.addr then
    { s with anyMatches := true, regionLeft := m, l := trueM + 1 }
  else if (stabs m).nValue > s.addr then
    { s with anyMatches := true, regionRight := m - 1, r := m - 1 }
  else
    -- `addr++` on a pointer to words
    { s with anyMatches := true, regionLeft := m, l := m, addr := s.addr + 4#32 }

/-- The `while` loop. -/
def loop : ℕ → StabSearch → Option StabSearch
  | 0, s => if s.l ≤ s.r then none else some s
  | fuel + 1, s => if s.l ≤ s.r then loop fuel (s.step stabs type) else some s

/-- What the function stores through `region_left` and `region_right`. -/
def finish (s : StabSearch) : ℤ × ℤ :=
  if s.anyMatches then (lastMatch stabs type (s.regionLeft + 1) s.regionRight, s.regionRight)
  else (s.regionLeft, s.regionLeft - 1)

/-- The variables before the loop. -/
def initial (regionLeft regionRight : ℤ) (addr : BitVec 32) : StabSearch where
  l := regionLeft
  r := regionRight
  regionLeft := regionLeft
  regionRight := regionRight
  anyMatches := false
  addr := addr

/-- `stab_binsearch`. -/
def stabBinsearch (fuel : ℕ) (regionLeft regionRight : ℤ) (addr : BitVec 32) : Option (ℤ × ℤ) :=
  (loop stabs type fuel (initial regionLeft regionRight addr)).map (finish stabs type)

/-! ## Entries -/

/-- Entry `i` is of the type. -/
def Entry (i : ℤ) : Prop :=
  (stabs i).nType = type

/-- The address of entry `i`. -/
def value (i : ℤ) : ℕ :=
  (stabs i).nValue.toNat

/-- `m` is the last entry of the type in `l` to `t`. -/
structure LastIn (l t m : ℤ) : Prop where
  le : l ≤ m
  le_top : m ≤ t
  entry : Entry stabs type m
  last : ∀ i, m < i → i ≤ t → ¬ Entry stabs type i

/-- The addresses of the entries from `left` to `right` go up. -/
def Increasing (left right : ℤ) : Prop :=
  ∀ i j, left ≤ i → i < j → j ≤ right → Entry stabs type i → Entry stabs type j →
    value stabs i < value stabs j

variable {stabs type} {l r t m p q : ℤ} {s s' : StabSearch} {fuel : ℕ}

namespace Increasing

variable {left right i j : ℤ} (hup : Increasing stabs type left right)

include hup

theorem mono (hl : left ≤ l) (hr : r ≤ right) : Increasing stabs type l r := fun i j hi hij hj =>
  hup i j (hl.trans hi) hij (hj.trans hr)

theorem le (hi : left ≤ i) (hij : i ≤ j) (hj : j ≤ right) (hi_entry : Entry stabs type i)
    (hj_entry : Entry stabs type j) : value stabs i ≤ value stabs j := by
  rcases eq_or_lt_of_le hij with rfl | hlt
  · exact le_rfl
  · exact (hup i j hi hlt hj hi_entry hj_entry).le

/-- The entries are in the order of their addresses. -/
theorem lt_of_value_lt (hj : left ≤ j) (hi : i ≤ right) (hi_entry : Entry stabs type i)
    (hj_entry : Entry stabs type j) (hlt : value stabs i < value stabs j) : i < j := by
  by_contra hji
  exact absurd hlt (not_lt.2 (hup.le hj (not_lt.1 hji) hi hj_entry hi_entry))

theorem eq_of_value_eq (hi : left ≤ i) (hir : i ≤ right) (hj : left ≤ j) (hjr : j ≤ right)
    (hi_entry : Entry stabs type i) (hj_entry : Entry stabs type j)
    (heq : value stabs i = value stabs j) : i = j := by
  rcases lt_trichotomy i j with hlt | heq' | hgt
  · exact absurd heq (hup i j hi hlt hjr hi_entry hj_entry).ne
  · exact heq'
  · exact absurd heq.symm (hup j i hj hgt hir hj_entry hi_entry).ne

end Increasing

theorem stepBack_eq_self (h : m < l) (trips : ℕ) : stepBack stabs type l trips m = m := by
  cases trips with
  | zero => rfl
  | succ trips => exact if_neg fun hm => absurd hm.1 (not_le.2 h)

theorem stepBack_lastIn (trips : ℕ) (htrips : trips = (t + 1 - l).toNat) :
    (stepBack stabs type l trips t < l ∧ ∀ i, l ≤ i → i ≤ t → ¬ Entry stabs type i) ∨
      LastIn stabs type l t (stepBack stabs type l trips t) := by
  induction trips generalizing t with
  | zero =>
    left
    exact ⟨by rw [stepBack]; omega, fun i hi hit => by omega⟩
  | succ trips ih =>
    unfold stepBack
    split_ifs with hm
    · rcases ih (t := t - 1) (by omega) with ⟨hlt, hnone⟩ | hlast
      · refine Or.inl ⟨hlt, fun i hi hit hentry => ?_⟩
        rcases eq_or_lt_of_le hit with rfl | hlt'
        · exact hm.2 hentry
        · exact hnone i hi (by omega) hentry
      · refine Or.inr ⟨hlast.le, by have := hlast.le_top; omega, hlast.entry, ?_⟩
        intro i hi hit hentry
        rcases eq_or_lt_of_le hit with rfl | hlt'
        · exact hm.2 hentry
        · exact hlast.last i hi (by omega) hentry
    · have hlt : l ≤ t := by omega
      have hentry : Entry stabs type t := by
        by_contra hne
        exact hm ⟨hlt, hne⟩
      exact Or.inr ⟨hlt, le_rfl, hentry, fun i hi hit => absurd hit (not_le.2 hi)⟩

/-- `lastMatch` finds the last entry, or falls below `l`. -/
theorem lastMatch_cases (l t : ℤ) :
    (lastMatch stabs type l t < l ∧ ∀ i, l ≤ i → i ≤ t → ¬ Entry stabs type i) ∨
      LastIn stabs type l t (lastMatch stabs type l t) :=
  stepBack_lastIn _ rfl

theorem lastMatch_of_lt (h : t < l) : lastMatch stabs type l t = t :=
  stepBack_eq_self h _

/-- Where there is no entry, `lastMatch` is just below `l`. -/
theorem lastMatch_of_none (hl : l ≤ t + 1) (h : ∀ i, l ≤ i → i ≤ t → ¬ Entry stabs type i) :
    lastMatch stabs type l t = l - 1 := by
  unfold lastMatch
  generalize htrips : (t + 1 - l).toNat = trips
  induction trips generalizing t with
  | zero =>
    rw [stepBack]
    omega
  | succ trips ih =>
    rw [stepBack, if_pos ⟨by omega, h t (by omega) le_rfl⟩]
    exact ih (by omega) (fun i hi hit => h i hi (by omega)) (by omega)

/-! ## Steps -/

/-- Where the search looks from. -/
def mid (s : StabSearch) : ℤ :=
  (s.l + s.r) / 2

/-- One trip of the loop. -/
inductive Step (stabs : ℤ → Stab) (type : ℤ) (s : StabSearch) : StabSearch → Prop
  | skip (hnone : ∀ i, s.l ≤ i → i ≤ s.mid → ¬ Entry stabs type i) :
      Step stabs type s { s with l := s.mid + 1 }
  | below (m : ℤ) (hlast : LastIn stabs type s.l s.mid m) (hlt : value stabs m < s.addr.toNat) :
      Step stabs type s { s with anyMatches := true, regionLeft := m, l := s.mid + 1 }
  | above (m : ℤ) (hlast : LastIn stabs type s.l s.mid m) (hlt : s.addr.toNat < value stabs m) :
      Step stabs type s { s with anyMatches := true, regionRight := m - 1, r := m - 1 }
  | exact (m : ℤ) (hlast : LastIn stabs type s.l s.mid m) (heq : value stabs m = s.addr.toNat) :
      Step stabs type s
        { s with anyMatches := true, regionLeft := m, l := m, addr := s.addr + 4#32 }

theorem step_spec (hl : 0 ≤ s.l) (hr : s.l ≤ s.r) : Step stabs type s (s.step stabs type) := by
  have hmid : (s.l + s.r).tdiv 2 = s.mid := Int.tdiv_eq_ediv_of_nonneg (by omega)
  unfold step
  dsimp only
  rw [hmid]
  rcases lastMatch_cases s.l s.mid with ⟨hlt, hnone⟩ | hlast
  · rw [if_pos hlt]
    exact Step.skip hnone
  · rw [if_neg (not_lt.2 hlast.le)]
    split_ifs with hlt hgt
    · exact Step.below _ hlast hlt
    · exact Step.above _ hlast hgt
    · exact Step.exact _ hlast (le_antisymm (not_lt.1 hgt) (not_lt.1 hlt))

theorem mid_bounds (hr : s.l ≤ s.r) : s.l ≤ s.mid ∧ s.mid ≤ s.r := by
  unfold mid
  omega

theorem Step.l_le (h : Step stabs type s s') (hr : s.l ≤ s.r) : s.l ≤ s'.l := by
  have hmid := mid_bounds hr
  cases h with
  | skip => exact hmid.1.trans (Int.le_add_one le_rfl)
  | below => exact hmid.1.trans (Int.le_add_one le_rfl)
  | above => exact le_rfl
  | exact m hlast => exact hlast.le

/-- What every trip keeps holds at the end. -/
theorem loop_induction {P : StabSearch → Prop}
    (hstep : ∀ s s', P s → s.l ≤ s.r → Step stabs type s s' → P s') (hl : 0 ≤ s.l) (hs : P s)
    (hloop : loop stabs type fuel s = some s') : P s' ∧ s'.r < s'.l := by
  induction fuel generalizing s with
  | zero =>
    unfold loop at hloop
    split_ifs at hloop with hr
    cases hloop
    exact ⟨hs, not_le.1 hr⟩
  | succ fuel ih =>
    unfold loop at hloop
    split_ifs at hloop with hr
    · have hspec : Step stabs type s (s.step stabs type) := step_spec hl hr
      exact ih (hl.trans (hspec.l_le hr)) (hstep _ _ hs hr hspec) hloop
    · cases hloop
      exact ⟨hs, not_le.1 hr⟩

/-! ## The search ends -/

/-- A bound on the trips that are left : an exact match at the left end costs one more. -/
def tripsLeft (stabs : ℤ → Stab) (s : StabSearch) : ℕ :=
  2 * (s.r + 1 - s.l).toNat + if (stabs s.l).nValue = s.addr then 1 else 0

theorem Step.tripsLeft_lt (h : Step stabs type s s') (hr : s.l ≤ s.r) :
    tripsLeft stabs s' < tripsLeft stabs s := by
  have hmid := mid_bounds hr
  unfold tripsLeft
  cases h with
  | skip =>
    dsimp only
    split_ifs <;> omega
  | below =>
    dsimp only
    split_ifs <;> omega
  | above m hlast =>
    have hle := hlast.le_top
    dsimp only
    split_ifs <;> omega
  | exact m hlast heq =>
    have hm : (stabs m).nValue = s.addr := BitVec.eq_of_toNat_eq heq
    have hnext : ¬ (stabs m).nValue = s.addr + 4#32 := by
      rw [hm]
      bv_omega
    have hle := hlast.le_top
    dsimp only
    rw [if_neg hnext]
    rcases eq_or_lt_of_le hlast.le with heq' | hlt
    · rw [heq', if_pos hm]
      omega
    · split_ifs <;> omega

theorem loop_ends (hl : 0 ≤ s.l) (hfuel : tripsLeft stabs s ≤ fuel) :
    ∃ s', loop stabs type fuel s = some s' := by
  induction fuel generalizing s with
  | zero =>
    unfold tripsLeft at hfuel
    exact ⟨s, if_neg (by omega)⟩
  | succ fuel ih =>
    unfold loop
    split_ifs with hr
    · have hspec : Step stabs type s (s.step stabs type) := step_spec hl hr
      have hlt := hspec.tripsLeft_lt hr
      exact ih (hl.trans (hspec.l_le hr)) (by omega)
    · exact ⟨s, rfl⟩

/-! ## Without an exact match -/

/-- What the search knows of the entries from `left` to `right` when none of them has the
address. -/
structure Window (stabs : ℤ → Stab) (type left right : ℤ) (addr : BitVec 32) (s : StabSearch) :
    Prop where
  addr_eq : s.addr = addr
  le_l : left ≤ s.l
  r_le : s.r ≤ right
  l_le : s.l ≤ s.r + 1
  low : ∀ i, left ≤ i → i < s.l → Entry stabs type i → value stabs i < addr.toNat
  high : ∀ i, s.r < i → i ≤ right → Entry stabs type i → addr.toNat < value stabs i
  right_eq : s.regionRight = s.r
  right_end : s.r < right → Entry stabs type (s.r + 1)
  left_eq : (∀ i, left ≤ i → i < s.l → ¬ Entry stabs type i) ∨
    LastIn stabs type left (s.l - 1) s.regionLeft
  any : s.anyMatches = false →
    s.r = right ∧ ∀ i, left ≤ i → i < s.l → ¬ Entry stabs type i

namespace Window

variable {left right : ℤ} {addr : BitVec 32}

/-- An entry found in the half keeps the entries before it below the address. -/
theorem low_of_lastIn (h : Window stabs type left right addr s)
    (hup : Increasing stabs type left right) (hr : s.l ≤ s.r)
    (hlast : LastIn stabs type s.l s.mid m) (hlt : value stabs m < addr.toNat) :
    ∀ i, left ≤ i → i < s.mid + 1 → Entry stabs type i → value stabs i < addr.toNat := by
  intro i hi hit hentry
  have hmid := mid_bounds hr
  have hle := h.r_le
  have htop := hlast.le_top
  rcases le_or_gt i m with him | him
  · exact (hup.le hi him (by omega) hentry hlast.entry).trans_lt hlt
  · exact absurd hentry (hlast.last i him (by omega))

/-- An entry found in the half keeps the entries after it above the address. -/
theorem high_of_lastIn (h : Window stabs type left right addr s)
    (hup : Increasing stabs type left right) (hlast : LastIn stabs type s.l s.mid m)
    (hlt : addr.toNat < value stabs m) :
    ∀ i, m - 1 < i → i ≤ right → Entry stabs type i → addr.toNat < value stabs i := by
  intro i hi hit hentry
  exact hlt.trans_le (hup.le (h.le_l.trans hlast.le) (Int.le_of_sub_one_lt hi) hit hlast.entry
    hentry)

theorem step (hup : Increasing stabs type left right)
    (hne : ∀ i, left ≤ i → i ≤ right → Entry stabs type i → value stabs i ≠ addr.toNat)
    (s s' : StabSearch) (h : Window stabs type left right addr s) (hr : s.l ≤ s.r)
    (hstep : Step stabs type s s') : Window stabs type left right addr s' := by
  have hmid := mid_bounds hr
  have hle_l := h.le_l
  have hr_le := h.r_le
  cases hstep with
  | skip hnone =>
    have hskipped : ∀ i, s.l ≤ i → i < s.mid + 1 → ¬ Entry stabs type i := fun i hi hit =>
      hnone i hi (by omega)
    have hold : (∀ i, left ≤ i → i < s.l → ¬ Entry stabs type i) →
        ∀ i, left ≤ i → i < s.mid + 1 → ¬ Entry stabs type i := fun hnot i hi hit hentry =>
      (lt_or_ge i s.l).elim (fun hlt => hnot i hi hlt hentry)
        fun hge => hskipped i hge hit hentry
    refine ⟨h.addr_eq, by dsimp only; omega, h.r_le, by dsimp only; omega, ?_, h.high,
      h.right_eq, h.right_end, ?_, fun hany => ⟨(h.any hany).1, hold (h.any hany).2⟩⟩
    · intro i hi hit hentry
      rcases lt_or_ge i s.l with hlt | hge
      · exact h.low i hi hlt hentry
      · exact absurd hentry (hskipped i hge hit)
    · refine h.left_eq.imp hold fun hlast =>
        ⟨hlast.le, by have := hlast.le_top; dsimp only; omega, hlast.entry, fun i hi hit => ?_⟩
      rcases lt_or_ge i s.l with hlt | hge
      · exact hlast.last i hi (by omega)
      · exact hskipped i hge (by dsimp only at hit; omega)
  | below m hlast hlt =>
    rw [h.addr_eq] at hlt
    refine ⟨h.addr_eq, by dsimp only; omega, h.r_le, by dsimp only; omega,
      h.low_of_lastIn hup hr hlast hlt, h.high, h.right_eq, h.right_end, Or.inr ?_,
      fun hany => absurd hany.symm Bool.false_ne_true⟩
    have hle := hlast.le
    have htop := hlast.le_top
    exact ⟨by dsimp only; omega, by dsimp only; omega, hlast.entry, fun i hi hit =>
      hlast.last i hi (by dsimp only at hit; omega)⟩
  | above m hlast hlt =>
    rw [h.addr_eq] at hlt
    have hle := hlast.le
    have htop := hlast.le_top
    refine ⟨h.addr_eq, h.le_l, by dsimp only; omega, by dsimp only; omega, h.low,
      h.high_of_lastIn hup hlast hlt, rfl, fun _ => ?_, h.left_eq,
      fun hany => absurd hany.symm Bool.false_ne_true⟩
    rw [sub_add_cancel]
    exact hlast.entry
  | exact m hlast heq =>
    rw [h.addr_eq] at heq
    have hle := hlast.le
    have htop := hlast.le_top
    exact absurd heq (hne m (by omega) (by omega) hlast.entry)

/-- The search ends at the last entry below the address, and at the end of it. -/
theorem finish_eq (h : Window stabs type left right addr s) (hend : s.r < s.l)
    (hsome : ∃ i, left ≤ i ∧ i ≤ right ∧ Entry stabs type i ∧ value stabs i ≤ addr.toNat) :
    finish stabs type s = (s.regionLeft, s.r) ∧ LastIn stabs type left s.r s.regionLeft := by
  have hle := h.l_le
  obtain ⟨i, hi, hir, hentry, hval⟩ := hsome
  have hil : i < s.l := by
    by_contra hge
    have hhigh := h.high i (by omega) hir hentry
    omega
  have hlast : LastIn stabs type left s.r s.regionLeft := by
    have heq : s.l - 1 = s.r := by omega
    rcases h.left_eq with hnone | hlast
    · exact absurd hentry (hnone i hi hil)
    · rwa [heq] at hlast
  have hany : s.anyMatches = true := by
    by_contra hany
    exact (h.any (Bool.eq_false_of_not_eq_true hany)).2 i hi hil hentry
  have htop := hlast.le_top
  have hback : lastMatch stabs type (s.regionLeft + 1) s.r = s.regionLeft := by
    rw [lastMatch_of_none (by omega) fun i hi hit => hlast.last i (by omega) hit,
      add_sub_cancel_right]
  refine ⟨?_, hlast⟩
  rw [finish, if_pos hany, h.right_eq, hback]

end Window

/-! ## The entry found -/

/-- The entry that contains `addr`, and the index just before the next one. -/
structure Found (stabs : ℤ → Stab) (type left right : ℤ) (addr : BitVec 32) (result : ℤ × ℤ) :
    Prop where
  left_le : left ≤ result.1
  entry : Entry stabs type result.1
  value_le : value stabs result.1 ≤ addr.toNat
  last : ∀ i, result.1 < i → i ≤ right → Entry stabs type i → addr.toNat < value stabs i
  le_right : result.1 ≤ result.2
  right_le : result.2 ≤ right
  none_between : ∀ i, result.1 < i → i ≤ result.2 → ¬ Entry stabs type i
  right_end : result.2 < right → Entry stabs type (result.2 + 1)

variable {left right : ℤ} {addr : BitVec 32}

/-- An entry at the address is the one to find. -/
theorem Found.eq_of_value (h : Found stabs type left right addr (l, r))
    (hup : Increasing stabs type left right) (hp : left ≤ p) (hpr : p ≤ right)
    (hentry : Entry stabs type p) (hval : value stabs p = addr.toNat) : l = p := by
  have hlr : l ≤ right := h.le_right.trans h.right_le
  have hle : value stabs l ≤ value stabs p := h.value_le.trans_eq hval.symm
  rcases lt_or_ge l p with hlt | hge
  · exact absurd hval (h.last p hlt hpr hentry).ne'
  · have heq := hle.antisymm (hup.le hp hge hlr hentry h.entry)
    exact hup.eq_of_value_eq h.left_le hlr hp hpr h.entry hentry heq

/-- `q` is the next entry after `p`. -/
structure NextEntry (stabs : ℤ → Stab) (type p q : ℤ) : Prop where
  lt : p < q
  entry : Entry stabs type q
  none_between : ∀ i, p < i → i < q → ¬ Entry stabs type i

/-- Halving the region from `l` to `r` comes to `q` before it comes to `p`. -/
inductive NextFirst (stabs : ℤ → Stab) (type p q : ℤ) : ℤ → ℤ → Prop
  | right {l r : ℤ} (hmid : (l + r) / 2 < p) (h : NextFirst stabs type p q ((l + r) / 2 + 1) r) :
      NextFirst stabs type p q l r
  | here {l r : ℤ} (hlast : LastIn stabs type l ((l + r) / 2) q) : NextFirst stabs type p q l r
  | left {l r m : ℤ} (hqm : q < m) (hlast : LastIn stabs type l ((l + r) / 2) m)
      (h : NextFirst stabs type p q l (m - 1)) : NextFirst stabs type p q l r

theorem LastIn.unique {m' : ℤ} (h : LastIn stabs type l t m) (h' : LastIn stabs type l t m') :
    m = m' := by
  rcases lt_trichotomy m m' with hlt | heq | hgt
  · exact absurd h'.entry (h.last m' hlt h'.le_top)
  · exact heq
  · exact absurd h.entry (h'.last m hgt h.le_top)

theorem nextFirst_iff_right (hpq : p < q) (hmid : (l + r) / 2 < p) :
    NextFirst stabs type p q l r ↔ NextFirst stabs type p q ((l + r) / 2 + 1) r := by
  refine ⟨fun h => ?_, NextFirst.right hmid⟩
  cases h with
  | right _ h => exact h
  | here hlast => exact absurd hlast.le_top (by omega)
  | left hqm hlast => exact absurd hlast.le_top (by omega)

theorem nextFirst_iff_left (hpq : p < q) (hqm : q < m)
    (hlast : LastIn stabs type l ((l + r) / 2) m) :
    NextFirst stabs type p q l r ↔ NextFirst stabs type p q l (m - 1) := by
  have htop := hlast.le_top
  refine ⟨fun h => ?_, NextFirst.left hqm hlast⟩
  cases h with
  | right hmid _ => omega
  | here hlast' => exact absurd (hlast.unique hlast') (by omega)
  | left _ hlast' h => exact hlast.unique hlast' ▸ h

theorem not_nextFirst (hpq : p < q) (hlast : LastIn stabs type l ((l + r) / 2) p) :
    ¬ NextFirst stabs type p q l r := by
  have htop := hlast.le_top
  intro h
  cases h with
  | right hmid _ => omega
  | here hlast' => exact absurd (hlast.unique hlast') (by omega)
  | left hqm hlast' => exact absurd (hlast.unique hlast') (by omega)

/-! ## An exact match -/

/-- The state `s'` just after the exact match at `p`, in a search that was at `s`. -/
structure HitAt (stabs : ℤ → Stab) (type p : ℤ) (s s' : StabSearch) : Prop where
  l_eq : s'.l = p
  left_eq : s'.regionLeft = p
  right_eq : s'.regionRight = s'.r
  any : s'.anyMatches = true
  addr_eq : s'.addr = s.addr + 4#32
  le_r : p ≤ s'.r
  r_le : s'.r ≤ s.r
  right_end : s'.r < s.r → Entry stabs type (s'.r + 1)

/-- A match in what is left of the region is one in the region. -/
theorem HitAt.extend {s₁ s₂ : StabSearch} (h : HitAt stabs type p s₂ s₁)
    (haddr : s₂.addr = s.addr) (hr : s₂.r ≤ s.r)
    (hend : s₂.r < s.r → Entry stabs type (s₂.r + 1)) : HitAt stabs type p s s₁ where
  l_eq := h.l_eq
  left_eq := h.left_eq
  right_eq := h.right_eq
  any := h.any
  addr_eq := haddr ▸ h.addr_eq
  le_r := h.le_r
  r_le := h.r_le.trans hr
  right_end hlt := by
    rcases eq_or_lt_of_le h.r_le with heq | hlt'
    · exact heq ▸ hend (heq ▸ hlt)
    · exact h.right_end hlt'

/-- A search with an entry at the address comes to it. It has left the next entry behind then if
it came to that one first. -/
theorem exists_hitAt (hl : 0 ≤ s.l) (hpl : s.l ≤ p) (hpr : p ≤ s.r) (hentry : Entry stabs type p)
    (hval : value stabs p = s.addr.toNat) (hup : Increasing stabs type s.l s.r)
    (hright : s.regionRight = s.r) (hloop : loop stabs type fuel s = some s') :
    ∃ fuel₁ s₁, loop stabs type fuel₁ s₁ = some s' ∧ HitAt stabs type p s s₁ ∧
      ∀ q, NextEntry stabs type p q → q ≤ s.r →
        (s₁.r < q ↔ NextFirst stabs type p q s.l s.r) := by
  induction fuel generalizing s with
  | zero => cases (if_pos (hpl.trans hpr)).symm.trans hloop
  | succ fuel ih =>
    have hr := hpl.trans hpr
    have hmid := mid_bounds hr
    unfold loop at hloop
    rw [if_pos hr] at hloop
    have hspec : Step stabs type s (s.step stabs type) := step_spec hl hr
    generalize s.step stabs type = s₂ at hloop hspec
    -- the trips that leave the lower half behind
    have hmove : ∀ s₂ : StabSearch, loop stabs type fuel s₂ = some s' → s.mid < p →
        s₂.l = s.mid + 1 → s₂.r = s.r → s₂.addr = s.addr → s₂.regionRight = s.regionRight →
        ∃ fuel₁ s₁, loop stabs type fuel₁ s₁ = some s' ∧ HitAt stabs type p s s₁ ∧
          ∀ q, NextEntry stabs type p q → q ≤ s.r →
            (s₁.r < q ↔ NextFirst stabs type p q s.l s.r) := by
      intro s₂ hloop₂ hp hl₂ hr₂ haddr₂ hright₂
      obtain ⟨fuel₁, s₁, hloop₁, hhit, hnext⟩ := ih (s := s₂) (by omega) (by omega) (by omega)
        (by rw [hval, haddr₂]) (hup.mono (by omega) hr₂.le) (by rw [hright₂, hr₂, hright]) hloop₂
      refine ⟨fuel₁, s₁, hloop₁,
        hhit.extend haddr₂ hr₂.le fun hlt => absurd hlt (not_lt.2 hr₂.ge), fun q hq hqr => ?_⟩
      rw [hnext q hq (by omega), nextFirst_iff_right hq.lt hp, hl₂, hr₂]
      rfl
    cases hspec with
    | skip hnone =>
      exact hmove _ hloop (not_le.1 fun hp => hnone p hpl hp hentry) rfl rfl rfl rfl
    | below m hlast hlt =>
      have htop := hlast.le_top
      have hmp : m < p :=
        hup.lt_of_value_lt hpl (by omega) hlast.entry hentry (hlt.trans_eq hval.symm)
      exact hmove _ hloop (not_le.1 fun hp => hlast.last p hmp hp hentry) rfl rfl rfl rfl
    | above m hlast hlt =>
      have htop := hlast.le_top
      have hpm : p < m := hup.lt_of_value_lt hlast.le hpr hentry hlast.entry (hval.trans_lt hlt)
      obtain ⟨fuel₁, s₁, hloop₁, hhit, hnext⟩ :=
        ih (s := { s with anyMatches := true, regionRight := m - 1, r := m - 1 }) hl hpl
          (Int.le_sub_one_of_lt hpm) hval (hup.mono le_rfl (by dsimp only; omega)) rfl hloop
      have hle := hhit.r_le
      dsimp only at hle
      refine ⟨fuel₁, s₁, hloop₁, hhit.extend rfl (by dsimp only; omega) fun _ => ?_,
        fun q hq hqr => ?_⟩
      · rw [sub_add_cancel]
        exact hlast.entry
      · rcases lt_trichotomy q m with hqm | rfl | hmq
        · rw [hnext q hq (Int.le_sub_one_of_lt hqm), nextFirst_iff_left hq.lt hqm hlast]
        · exact ⟨fun _ => NextFirst.here hlast, fun _ => by omega⟩
        · exact absurd hlast.entry (hq.none_between m hpm hmq)
    | exact m hlast heq =>
      have htop := hlast.le_top
      obtain rfl : m = p := hup.eq_of_value_eq hlast.le (by omega) hpl hpr hlast.entry hentry
        (heq.trans hval.symm)
      exact ⟨fuel, _, hloop, ⟨rfl, rfl, hright, rfl, rfl, hpr, le_rfl, fun hlt => absurd hlt
        (lt_irrefl _)⟩, fun q hq hqr => ⟨fun hlt => absurd hlt (not_lt.2 hqr),
        fun hfirst => absurd hfirst (not_nextFirst hq.lt hlast)⟩⟩

/-! ## After the match -/

/-- The search is past `q`, or will be : it ends at `q` or after it. -/
structure Passed (stabs : ℤ → Stab) (left right q : ℤ) (s : StabSearch) : Prop where
  le_l : left ≤ s.l
  r_le : s.r ≤ right
  le_r : q ≤ s.r
  le_regionRight : q ≤ s.regionRight
  value_lt : s.l ≤ q → value stabs q < s.addr.toNat
  le_regionLeft : q < s.l → q ≤ s.regionLeft

namespace Passed

theorem lt_of_lt (hup : Increasing stabs type left right) (hq : Entry stabs type q)
    (h : Passed stabs left right q s) (hlast : LastIn stabs type s.l s.mid m)
    (hr : s.l ≤ s.r) (hle : s.addr.toNat ≤ value stabs m) : q < m := by
  have hmid := mid_bounds hr
  have hml := hlast.le
  have htop := hlast.le_top
  have hle_l := h.le_l
  have hr_le := h.r_le
  have hqr := h.le_r
  by_contra hmq
  have hval := h.value_lt (by omega)
  exact hmq (hup.lt_of_value_lt (by omega) (by omega) hq hlast.entry (hval.trans_le hle))

theorem step (hup : Increasing stabs type left right) (hq : Entry stabs type q)
    (s s' : StabSearch) (h : Passed stabs left right q s) (hr : s.l ≤ s.r)
    (hstep : Step stabs type s s') : Passed stabs left right q s' := by
  have hmid := mid_bounds hr
  have hle_l := h.le_l
  have hr_le := h.r_le
  cases hstep with
  | skip hnone =>
    refine ⟨by dsimp only; omega, h.r_le, h.le_r, h.le_regionRight,
      fun hle => h.value_lt (by dsimp only at hle; omega), fun hlt => ?_⟩
    rcases lt_or_ge q s.l with hql | hql
    · exact h.le_regionLeft hql
    · exact absurd hq (hnone q hql (by dsimp only at hlt; omega))
  | below m hlast hlt =>
    have hle := hlast.le
    refine ⟨by dsimp only; omega, h.r_le, h.le_r, h.le_regionRight,
      fun hle' => h.value_lt (by dsimp only at hle'; omega), fun hlt' => ?_⟩
    by_contra hmq
    exact hlast.last q (not_le.1 hmq) (by dsimp only at hlt'; omega) hq
  | above m hlast hlt =>
    have hqm := lt_of_lt hup hq h hlast hr hlt.le
    have htop := hlast.le_top
    exact ⟨h.le_l, by dsimp only; omega, Int.le_sub_one_of_lt hqm, Int.le_sub_one_of_lt hqm,
      h.value_lt, h.le_regionLeft⟩
  | exact m hlast heq =>
    have hqm := lt_of_lt hup hq h hlast hr heq.ge
    exact ⟨hle_l.trans hlast.le, h.r_le, h.le_r, h.le_regionRight,
      fun hle => absurd hqm (not_lt.2 hle), fun hlt => hlt.le⟩

theorem le_lastMatch (hl : q < l) (ht : q ≤ t) : q ≤ lastMatch stabs type l t := by
  rcases lt_or_ge t l with hlt | hge
  · rwa [lastMatch_of_lt hlt]
  · rcases @lastMatch_cases stabs type l t with ⟨-, hnone⟩ | hlast
    · rw [lastMatch_of_none (by omega) hnone]
      omega
    · exact hl.le.trans hlast.le

theorem le_finish (h : Passed stabs left right q s) (hend : s.r < s.l) :
    q ≤ (finish stabs type s).1 := by
  have hleft := h.le_regionLeft (h.le_r.trans_lt hend)
  unfold finish
  split_ifs
  · exact le_lastMatch (Int.lt_add_one_of_le hleft) h.le_regionRight
  · exact hleft

end Passed

/-- The address has wrapped at the match at `p` : every entry from `p` on is above it. -/
structure Wrapped (stabs : ℤ → Stab) (type p : ℤ) (s : StabSearch) : Prop where
  l_eq : s.l = p
  left_eq : s.regionLeft = p
  right_eq : s.regionRight = s.r
  le_r : p ≤ s.r + 1
  any : s.anyMatches = true
  high : ∀ i, p ≤ i → i ≤ s.r → Entry stabs type i → s.addr.toNat < value stabs i

namespace Wrapped

theorem step (hp : Entry stabs type p) (s s' : StabSearch) (h : Wrapped stabs type p s)
    (hr : s.l ≤ s.r) (hstep : Step stabs type s s') : Wrapped stabs type p s' := by
  have hmid := mid_bounds hr
  have hl := h.l_eq
  cases hstep with
  | skip hnone => exact absurd hp (hnone p hl.le (by omega))
  | below m hlast hlt =>
    have hle := hlast.le
    have htop := hlast.le_top
    have := h.high m (by omega) (by omega) hlast.entry
    omega
  | above m hlast hlt =>
    have hle := hlast.le
    have htop := hlast.le_top
    exact ⟨h.l_eq, h.left_eq, rfl, by dsimp only; omega, rfl, fun i hi hir =>
      h.high i hi (by dsimp only at hir; omega)⟩
  | exact m hlast heq =>
    have hle := hlast.le
    have htop := hlast.le_top
    have := h.high m (by omega) (by omega) hlast.entry
    omega

theorem finish_eq (h : Wrapped stabs type p s) (hend : s.r < s.l) :
    finish stabs type s = (p - 1, p - 1) := by
  have hl := h.l_eq
  have hle := h.le_r
  obtain hr : s.r = p - 1 := by omega
  rw [finish, if_pos h.any, h.right_eq, h.left_eq, hr, lastMatch_of_lt (by omega)]

end Wrapped

/-- There is a first entry among those after `p`. -/
theorem exists_nextEntry {i : ℤ} (hpi : p < i) (hentry : Entry stabs type i) :
    ∃ q, NextEntry stabs type p q ∧ q ≤ i := by
  by_cases hnone : ∀ j, p < j → j < i → ¬ Entry stabs type j
  · exact ⟨i, ⟨hpi, hentry, hnone⟩, le_rfl⟩
  · push Not at hnone
    obtain ⟨j, hpj, hji, hj⟩ := hnone
    obtain ⟨q, hq, hqj⟩ := exists_nextEntry hpj hj
    exact ⟨q, hq, hqj.trans hji.le⟩
termination_by (i - p).toNat
decreasing_by omega

/-! ## The result -/

/-- Some entry of the region is at or below the address. -/
def Contained (stabs : ℤ → Stab) (type left right : ℤ) (addr : BitVec 32) : Prop :=
  ∃ i, left ≤ i ∧ i ≤ right ∧ Entry stabs type i ∧ value stabs i ≤ addr.toNat

theorem found_of_no_match (hleft : 0 ≤ left) (hup : Increasing stabs type left right)
    (hsome : Contained stabs type left right addr)
    (hne : ∀ i, left ≤ i → i ≤ right → Entry stabs type i → value stabs i ≠ addr.toNat)
    (hloop : loop stabs type fuel (initial left right addr) = some s') :
    Found stabs type left right addr (finish stabs type s') := by
  have hstart : Window stabs type left right addr (initial left right addr) := by
    obtain ⟨i, hi, hir, -⟩ := hsome
    have hnone : ∀ i, left ≤ i → i < left → ¬ Entry stabs type i := fun i hi hit =>
      absurd hit (not_lt.2 hi)
    exact ⟨rfl, le_rfl, le_rfl, (hi.trans hir).trans (Int.le_add_one le_rfl),
      fun i hi hit => absurd hit (not_lt.2 hi), fun i hi hit => absurd hi (not_lt.2 hit), rfl,
      fun hlt => absurd hlt (lt_irrefl _), Or.inl hnone, fun _ => ⟨rfl, hnone⟩⟩
  obtain ⟨hwindow, hend⟩ := loop_induction (Window.step hup hne) hleft hstart hloop
  obtain ⟨hfinish, hlast⟩ := hwindow.finish_eq hend hsome
  have hle := hwindow.l_le
  have htop := hlast.le_top
  rw [hfinish]
  refine ⟨hlast.le, hlast.entry, (hwindow.low _ hlast.le (by omega) hlast.entry).le,
    fun i hi hir hentry => ?_, htop, hwindow.r_le, hlast.last, hwindow.right_end⟩
  rcases le_or_gt i s'.r with hle' | hgt
  · exact absurd hentry (hlast.last i hi hle')
  · exact hwindow.high i hgt hir hentry

namespace HitAt

variable {s₁ : StabSearch}

/-- The search goes on rightly when the next entry is out of the region, or above the address. -/
theorem found (h : HitAt stabs type p (initial left right addr) s₁) (hp : 0 ≤ p)
    (hleft : left ≤ p) (hentry : Entry stabs type p) (hval : value stabs p = addr.toNat)
    (hup : Increasing stabs type left right) (hwrap : addr.toNat + 4 < 2 ^ 32)
    (hfar : ∀ i, p < i → i ≤ s₁.r → Entry stabs type i → addr.toNat + 4 < value stabs i)
    (hloop : loop stabs type fuel s₁ = some s') :
    Found stabs type left right addr (finish stabs type s') := by
  have haddr : (addr + 4#32).toNat = addr.toNat + 4 := by bv_omega
  have hr_le : s₁.r ≤ right := h.r_le
  have hl := h.l_eq
  have hle_r := h.le_r
  have hstart : Window stabs type p s₁.r (addr + 4#32) s₁ :=
    ⟨h.addr_eq, hl.ge, le_rfl, by omega, fun i hi hit => by omega,
      fun i hi hit => absurd hi (not_lt.2 hit), h.right_eq, fun hlt => absurd hlt (lt_irrefl _),
      Or.inl fun i hi hit => by omega,
      fun hany => absurd (h.any.symm.trans hany) (Ne.symm Bool.false_ne_true)⟩
  have hne : ∀ i, p ≤ i → i ≤ s₁.r → Entry stabs type i →
      value stabs i ≠ (addr + 4#32).toNat := by
    intro i hi hir hi_entry
    rcases eq_or_lt_of_le hi with rfl | hlt
    · omega
    · have := hfar i hlt hir hi_entry
      omega
  obtain ⟨hwindow, hend⟩ := loop_induction
    (Window.step (hup.mono hleft hr_le) hne) (hl ▸ hp) hstart hloop
  obtain ⟨hfinish, hlast⟩ := hwindow.finish_eq hend ⟨p, le_rfl, hle_r, hentry, by omega⟩
  have hle := hwindow.l_le
  have htop := hlast.le_top
  have hr' := hwindow.r_le
  have heq : s'.regionLeft = p := by
    by_contra hne'
    have hlt : p < s'.regionLeft := lt_of_le_of_ne hlast.le (Ne.symm hne')
    have hlow := hwindow.low _ hlast.le (by omega) hlast.entry
    have := hfar _ hlt (by omega) hlast.entry
    omega
  rw [hfinish, heq]
  rw [heq] at hlast
  refine ⟨hleft, hentry, hval.le, fun i hi hir hi_entry => ?_, hlast.le_top, hr'.trans hr_le,
    hlast.last, fun hlt => ?_⟩
  · rw [← hval]
    exact hup p i hleft hi hir hentry hi_entry
  · rcases eq_or_lt_of_le hr' with heq' | hlt'
    · dsimp only
      rw [heq']
      exact h.right_end (heq' ▸ hlt)
    · exact hwindow.right_end hlt'

/-- A match that wraps the address ends just before the entry. -/
theorem finish_of_wrap (h : HitAt stabs type p s s₁) (hp : 0 ≤ p) (hentry : Entry stabs type p)
    (hval : value stabs p = s.addr.toNat) (hup : Increasing stabs type p s₁.r)
    (hwrap : 2 ^ 32 ≤ s.addr.toNat + 4) (hloop : loop stabs type fuel s₁ = some s') :
    finish stabs type s' = (p - 1, p - 1) := by
  have hle_r := h.le_r
  have hstart : Wrapped stabs type p s₁ := by
    refine ⟨h.l_eq, h.left_eq, h.right_eq, by omega, h.any, fun i hi hir hi_entry => ?_⟩
    have hlt := s.addr.isLt
    have haddr : s₁.addr.toNat = s.addr.toNat + 4 - 2 ^ 32 := by
      rw [h.addr_eq]
      bv_omega
    have hle := hup.le le_rfl hi hir hentry hi_entry
    omega
  obtain ⟨hwrapped, hend⟩ := loop_induction (Wrapped.step hentry) (h.l_eq ▸ hp) hstart hloop
  exact hwrapped.finish_eq hend

/-- The search goes past an entry that is at or below the address it goes on with. -/
theorem le_finish (h : HitAt stabs type p s s₁) (hp : 0 ≤ p) (hq : Entry stabs type q)
    (hpq : p ≤ q) (hqr : q ≤ s₁.r) (hval : value stabs q < s₁.addr.toNat)
    (hup : Increasing stabs type p s₁.r) (hloop : loop stabs type fuel s₁ = some s') :
    q ≤ (finish stabs type s').1 := by
  have hl := h.l_eq
  have hleft := h.left_eq
  have hstart : Passed stabs p s₁.r q s₁ :=
    ⟨hl.ge, le_rfl, hqr, hqr.trans h.right_eq.ge, fun _ => hval, fun hlt => by omega⟩
  obtain ⟨hpassed, hend⟩ := loop_induction (Passed.step hup hq) (hl ▸ hp) hstart hloop
  exact hpassed.le_finish hend

end HitAt

/-- After the match at `p`, the search for the end of the entry goes right. -/
def HarmlessAt (stabs : ℤ → Stab) (type left right : ℤ) (addr : BitVec 32) (p : ℤ) : Prop :=
  addr.toNat + 4 < 2 ^ 32 ∧ ∀ q, NextEntry stabs type p q → q ≤ right →
    addr.toNat + 4 < value stabs q ∨ NextFirst stabs type p q left right ∨
      -- a second match wraps the address, and the search ends just before that entry
      (value stabs q = addr.toNat + 4 ∧ 2 ^ 32 ≤ addr.toNat + 8 ∧ q = p + 1)

/-- No exact match of the search does harm. -/
def HarmlessMatch (stabs : ℤ → Stab) (type left right : ℤ) (addr : BitVec 32) : Prop :=
  ∀ p, left ≤ p → p ≤ right → Entry stabs type p → value stabs p = addr.toNat →
    HarmlessAt stabs type left right addr p

theorem harmlessMatch_iff (hup : Increasing stabs type left right) (hp : left ≤ p)
    (hpr : p ≤ right) (hentry : Entry stabs type p) (hval : value stabs p = addr.toNat) :
    HarmlessMatch stabs type left right addr ↔ HarmlessAt stabs type left right addr p := by
  refine ⟨fun h => h p hp hpr hentry hval, fun h p' hp' hpr' hentry' hval' => ?_⟩
  obtain rfl := hup.eq_of_value_eq hp hpr hp' hpr' hentry hentry' (hval.trans hval'.symm)
  exact h

namespace HitAt

variable {s₁ : StabSearch}

/-- An entry just at the address that the search goes on with is matched too. -/
theorem exists_second (h : HitAt stabs type p s s₁) (hp : 0 ≤ p)
    (hup : Increasing stabs type p s₁.r) (hpq : p < q) (hqr : q ≤ s₁.r)
    (hq : Entry stabs type q) (hqval : value stabs q = s₁.addr.toNat)
    (hloop : loop stabs type fuel s₁ = some s') :
    ∃ fuel₂ s₂, loop stabs type fuel₂ s₂ = some s' ∧ HitAt stabs type q s₁ s₂ ∧
      Increasing stabs type q s₂.r := by
  have hl := h.l_eq
  obtain ⟨fuel₂, s₂, hloop₂, hhit₂, -⟩ :=
    exists_hitAt (by omega) (by omega) hqr hq hqval (hl ▸ hup) h.right_eq hloop
  exact ⟨fuel₂, s₂, hloop₂, hhit₂, hup.mono hpq.le hhit₂.r_le⟩

/-- A search that ends at `p` was not led astray by the next entry. -/
theorem harmlessAt (h : HitAt stabs type p (initial left right addr) s₁) (hp : 0 ≤ p)
    (hentry : Entry stabs type p) (hval : value stabs p = addr.toNat)
    (hup : Increasing stabs type p s₁.r)
    (hnext : ∀ q, NextEntry stabs type p q → q ≤ right →
      (s₁.r < q ↔ NextFirst stabs type p q left right))
    (hloop : loop stabs type fuel s₁ = some s') (heq : (finish stabs type s').1 = p) :
    HarmlessAt stabs type left right addr p := by
  have hwrap : addr.toNat + 4 < 2 ^ 32 := by
    by_contra hwrap
    rw [h.finish_of_wrap hp hentry hval hup (not_lt.1 hwrap) hloop] at heq
    dsimp only at heq
    omega
  have haddr : s₁.addr.toNat = addr.toNat + 4 := by
    rw [h.addr_eq, initial]
    bv_omega
  refine ⟨hwrap, fun q hq hqr => ?_⟩
  have hpq := hq.lt
  rcases lt_or_ge s₁.r q with hfirst | hqr₁
  · exact Or.inr (Or.inl ((hnext q hq hqr).1 hfirst))
  rcases lt_trichotomy (value stabs q) (addr.toNat + 4) with hlt | hqval | hgt
  · have := h.le_finish hp hq.entry hpq.le hqr₁ (haddr ▸ hlt) hup hloop
    omega
  · obtain ⟨fuel₂, s₂, hloop₂, hhit₂, hup₂⟩ :=
      h.exists_second hp hup hpq hqr₁ hq.entry (haddr ▸ hqval) hloop
    have hq0 : 0 ≤ q := hp.trans hpq.le
    by_cases hwrap₂ : 2 ^ 32 ≤ addr.toNat + 8
    · rw [hhit₂.finish_of_wrap hq0 hq.entry (haddr ▸ hqval) hup₂ (by omega) hloop₂] at heq
      exact Or.inr (Or.inr ⟨hqval, hwrap₂, by dsimp only at heq; omega⟩)
    · have hval₂ : value stabs q < s₂.addr.toNat := by
        rw [hhit₂.addr_eq]
        bv_omega
      have := hhit₂.le_finish hq0 hq.entry le_rfl hhit₂.le_r hval₂ hup₂ hloop₂
      omega
  · exact Or.inl hgt

/-- A search that is not led astray finds the entry. -/
theorem found_of_harmlessAt (h : HitAt stabs type p (initial left right addr) s₁) (hp : 0 ≤ p)
    (hleft : left ≤ p) (hentry : Entry stabs type p) (hval : value stabs p = addr.toNat)
    (hup : Increasing stabs type left right)
    (hnext : ∀ q, NextEntry stabs type p q → q ≤ right →
      (s₁.r < q ↔ NextFirst stabs type p q left right))
    (hloop : loop stabs type fuel s₁ = some s')
    (hharmless : HarmlessAt stabs type left right addr p) :
    Found stabs type left right addr (finish stabs type s') := by
  obtain ⟨hwrap, hall⟩ := hharmless
  have hr_le : s₁.r ≤ right := h.r_le
  have hle_r := h.le_r
  have haddr : s₁.addr.toNat = addr.toNat + 4 := by
    rw [h.addr_eq, initial]
    bv_omega
  by_cases hfar : ∀ i, p < i → i ≤ s₁.r → Entry stabs type i → addr.toNat + 4 < value stabs i
  · exact h.found hp hleft hentry hval hup hwrap hfar hloop
  push Not at hfar
  obtain ⟨i, hpi, hir, hi_entry, hi_val⟩ := hfar
  obtain ⟨q, hq, hqi⟩ := exists_nextEntry hpi hi_entry
  have hpq := hq.lt
  have hq_val : value stabs q ≤ value stabs i :=
    hup.le (hleft.trans hpq.le) hqi (hir.trans hr_le) hq.entry hi_entry
  rcases hall q hq (by omega) with hgt | hfirst | ⟨hqval, hwrap₂, rfl⟩
  · omega
  · have := (hnext q hq (by omega)).2 hfirst
    omega
  · obtain ⟨fuel₂, s₂, hloop₂, hhit₂, hup₂⟩ := h.exists_second hp (hup.mono hleft hr_le) hpq
      (hqi.trans hir) hq.entry (haddr ▸ hqval) hloop
    rw [hhit₂.finish_of_wrap (by omega) hq.entry (haddr ▸ hqval) hup₂ (by omega) hloop₂,
      add_sub_cancel_right]
    refine ⟨hleft, hentry, hval.le, fun i hi hir hi_entry => ?_, le_rfl, hle_r.trans hr_le,
      fun i hi hit => absurd hi (not_lt.2 hit), fun _ => hq.entry⟩
    rw [← hval]
    exact hup p i hleft hi hir hentry hi_entry

end HitAt

/-- The search in the region finds the entry if and only if its exact match does no harm. -/
theorem found_finish_iff (hleft : 0 ≤ left) (hup : Increasing stabs type left right)
    (hsome : Contained stabs type left right addr)
    (hloop : loop stabs type fuel (initial left right addr) = some s') :
    Found stabs type left right addr (finish stabs type s') ↔
      HarmlessMatch stabs type left right addr := by
  by_cases hmatch : ∃ p, left ≤ p ∧ p ≤ right ∧ Entry stabs type p ∧ value stabs p = addr.toNat
  case neg =>
    push Not at hmatch
    exact iff_of_true (found_of_no_match hleft hup hsome hmatch hloop)
      fun p hp hpr hentry hval => absurd hval (hmatch p hp hpr hentry)
  obtain ⟨p, hp, hpr, hentry, hval⟩ := hmatch
  obtain ⟨fuel₁, s₁, hloop₁, hhit, hnext⟩ :=
    exists_hitAt (s := initial left right addr) hleft hp hpr hentry hval hup rfl hloop
  rw [harmlessMatch_iff hup hp hpr hentry hval]
  have hp0 : 0 ≤ p := hleft.trans hp
  constructor
  · intro hfound
    exact hhit.harmlessAt hp0 hentry hval (hup.mono hp hhit.r_le) hnext hloop₁
      (hfound.eq_of_value hup hp hpr hentry hval)
  · exact hhit.found_of_harmlessAt hp0 hp hentry hval hup hnext hloop₁

/-- The search of a region ends. -/
theorem exists_loop (hleft : 0 ≤ left) (addr : BitVec 32)
    (hfuel : 2 * (right + 1 - left).toNat + 1 ≤ fuel) :
    ∃ s', loop stabs type fuel (initial left right addr) = some s' := by
  refine loop_ends hleft (le_trans (Nat.add_le_add le_rfl ?_) hfuel)
  split_ifs
  · exact le_rfl
  · exact Nat.zero_le 1

/-- The search ends, and finds the entry that contains the address. -/
def Finds (stabs : ℤ → Stab) (type left right : ℤ) (addr : BitVec 32) : Prop :=
  ∀ fuel, 2 * (right + 1 - left).toNat + 1 ≤ fuel →
    ∃ result, stabBinsearch stabs type fuel left right addr = some result ∧
      Found stabs type left right addr result

/-- `stab_binsearch` finds the entry that contains the address if and only if no exact match of
the search does harm : without one it does always, and with one if no entry of the type follows
in the region, or it is more than four bytes on, or halving the region comes to it first. -/
theorem finds_iff (hleft : 0 ≤ left) (hup : Increasing stabs type left right)
    (hsome : Contained stabs type left right addr) :
    Finds stabs type left right addr ↔ HarmlessMatch stabs type left right addr := by
  constructor
  · intro hfinds
    obtain ⟨s', hs'⟩ := exists_loop hleft addr le_rfl
    obtain ⟨result, hresult, hfound⟩ := hfinds _ le_rfl
    rw [stabBinsearch, hs', Option.map_some, Option.some_inj] at hresult
    exact (found_finish_iff hleft hup hsome hs').1 (hresult ▸ hfound)
  · intro hharmless fuel hfuel
    obtain ⟨s', hs'⟩ := exists_loop hleft addr hfuel
    refine ⟨finish stabs type s', by rw [stabBinsearch, hs', Option.map_some], ?_⟩
    exact (found_finish_iff hleft hup hsome hs').2 hharmless

/-- Two source files, of two bytes the first. -/
def twoFiles (i : ℤ) : Stab where
  nType := 100
  nValue := if i = 0 then 0xf0100176#32 else 0xf0100178#32

theorem increasing_twoFiles : Increasing twoFiles 100 0 1 := by
  intro i j hi hij hj _ _
  obtain rfl : i = 0 := by omega
  obtain rfl : j = 1 := by omega
  decide

theorem contained_twoFiles {addr : BitVec 32} (h : 0xf0100176 ≤ addr.toNat) :
    Contained twoFiles 100 0 1 addr :=
  ⟨0, le_rfl, Int.one_nonneg, rfl, h⟩

/-- Inside the second file. -/
theorem twoFiles_finds : Finds twoFiles 100 0 1 0xf0100184#32 := by
  refine (finds_iff le_rfl increasing_twoFiles (contained_twoFiles (by decide))).2 ?_
  intro p hp hpr _ hval
  rcases (show p = 0 ∨ p = 1 by omega) with rfl | rfl <;> exact absurd hval (by decide)

/-- At the start of the first file, the second one is found. -/
theorem twoFiles_counterexample :
    ¬ ∀ (stabs : ℤ → Stab) (type left right : ℤ) (addr : BitVec 32), 0 ≤ left →
      Increasing stabs type left right → Contained stabs type left right addr →
        Finds stabs type left right addr := by
  intro hall
  obtain ⟨result, hresult, hfound⟩ := hall twoFiles 100 0 1 0xf0100176#32 le_rfl
    increasing_twoFiles (contained_twoFiles (by decide)) 5 (by decide)
  have hlast : stabBinsearch twoFiles 100 5 0 1 0xf0100176#32 = some (1, 1) := by decide
  obtain rfl : (1, 1) = result := Option.some.inj (hlast.symm.trans hresult)
  exact absurd hfound.value_le (by decide)

end StabSearch

end FosKernel
