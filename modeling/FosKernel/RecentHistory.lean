import Mathlib.Algebra.Order.Group.Nat
import Mathlib.Algebra.Order.Ring.Nat
import Mathlib.Data.Bool.Basic
import Mathlib.Data.List.Lex

/-!
# Recent history in one number

A history is a list of what was seen, the newest first. `recent n` are its last `n` entries, and
`weigh` writes them as the digits of one number in base `b`, the newest one at the front and `d`
for seen.

A new entry moves every digit down by one place and puts its own at the front, so the number is
divided by the base (`weigh_recent_cons`), and the oldest entry is lost. As digits go, the numbers
are ordered as the histories are, the newest entry first (`weigh_lt_weigh_iff`).
-/

namespace RecentHistory

/-- The last `n` entries of a history ; what is before it was not seen. -/
def recent : ℕ → List Bool → List Bool
  | 0, _ => []
  | n + 1, h => h.headD false :: recent n h.tail

/-- The digit of an entry. -/
def digit (d : ℕ) (x : Bool) : ℕ :=
  if x then d else 0

/-- The entries as the digits of a number. -/
def weigh (b d : ℕ) : List Bool → ℕ
  | [] => 0
  | x :: l => digit d x * b ^ l.length + weigh b d l

variable {b d n i j : ℕ} {x : Bool} {l m h : List Bool}

@[simp] theorem length_recent (n : ℕ) (h : List Bool) : (recent n h).length = n := by
  induction n generalizing h with
  | zero => rfl
  | succ n ih => rw [recent, List.length_cons, ih]

theorem getD_recent (hj : j < n) : (recent n h).getD j false = h.getD j false := by
  induction n generalizing h j with
  | zero => exact absurd hj (Nat.not_lt_zero j)
  | succ n ih =>
    cases j with
    | zero => cases h <;> rfl
    | succ j =>
      rw [recent, List.getD_cons_succ, ih (Nat.lt_of_succ_lt_succ hj)]
      cases h <;> rfl

@[simp] theorem digit_false : digit d false = 0 :=
  rfl

@[simp] theorem digit_true : digit d true = d :=
  rfl

theorem digit_le (d : ℕ) (x : Bool) : digit d x ≤ d := by
  cases x
  · exact Nat.zero_le d
  · exact le_rfl

theorem weigh_lt (hd : d < b) (l : List Bool) : weigh b d l < b ^ l.length := by
  induction l with
  | nil => exact Nat.one_pos
  | cons x l ih =>
    calc weigh b d (x :: l) = digit d x * b ^ l.length + weigh b d l := rfl
      _ < digit d x * b ^ l.length + b ^ l.length := Nat.add_lt_add_left ih _
      _ = (digit d x + 1) * b ^ l.length := (Nat.succ_mul _ _).symm
      _ ≤ b * b ^ l.length := Nat.mul_le_mul_right _ ((digit_le d x).trans_lt hd)
      _ = b ^ (x :: l).length := by rw [List.length_cons, Nat.pow_succ']

/-- Division by the base loses the oldest entry. -/
theorem weigh_recent_div (hd : d < b) (n : ℕ) (h : List Bool) :
    weigh b d (recent (n + 1) h) / b = weigh b d (recent n h) := by
  have hb : 0 < b := Nat.zero_lt_of_lt hd
  induction n generalizing h with
  | zero =>
    have hlt := (digit_le d (h.headD false)).trans_lt hd
    simp only [recent, weigh, List.length_nil, Nat.pow_zero, Nat.mul_one, Nat.add_zero]
    exact Nat.div_eq_of_lt hlt
  | succ n ih =>
    calc weigh b d (recent (n + 2) h) / b
        = (b * (digit d (h.headD false) * b ^ n) + weigh b d (recent (n + 1) h.tail)) / b := by
          rw [recent, weigh, length_recent, Nat.pow_succ', Nat.mul_left_comm]
      _ = digit d (h.headD false) * b ^ n + weigh b d (recent n h.tail) := by
          rw [Nat.mul_add_div hb, ih]
      _ = weigh b d (recent (n + 1) h) := by rw [recent, weigh, length_recent]

/-- A new entry : the number is divided by the base, and the entry's digit is put at the front. -/
theorem weigh_recent_cons (hd : d < b) (n : ℕ) (x : Bool) (h : List Bool) :
    weigh b d (recent (n + 1) (x :: h)) =
      digit d x * b ^ n + weigh b d (recent (n + 1) h) / b := by
  rw [weigh_recent_div hd, recent, weigh, length_recent]
  rfl

/-- The numbers are ordered as the histories. -/
theorem weigh_lt_weigh_iff (hd₀ : 0 < d) (hd : d < b) (hlen : l.length = m.length) :
    weigh b d l < weigh b d m ↔ l < m := by
  induction l generalizing m with
  | nil =>
    obtain rfl := List.eq_nil_of_length_eq_zero hlen.symm
    simp
  | cons x l ih =>
    cases m with
    | nil => cases hlen
    | cons y m =>
      have hlen : l.length = m.length := Nat.succ.inj hlen
      have hl := weigh_lt hd l
      have hm := weigh_lt hd m
      have hpow : b ^ m.length ≤ d * b ^ m.length := Nat.le_mul_of_pos_left _ hd₀
      rw [hlen] at hl
      rw [List.cons_lt_cons_iff, ← ih hlen, weigh, weigh, hlen]
      cases x <;> cases y
      · simp
      · refine iff_of_true ?_ (Or.inl (by decide))
        rw [digit_false, digit_true, Nat.zero_mul]
        omega
      · refine iff_of_false ?_ (by rintro (hlt | ⟨heq, -⟩) <;> contradiction)
        rw [digit_false, digit_true, Nat.zero_mul]
        omega
      · simp

/-- In base 4, with 2 for seen, every entry is two bits. -/
theorem testBit_weigh_cons (x : Bool) (l : List Bool) (i : ℕ) :
    (weigh 4 2 (x :: l)).testBit i =
      if i < 2 * l.length then (weigh 4 2 l).testBit i
      else (digit 2 x).testBit (i - 2 * l.length) := by
  have hpow : 4 ^ l.length = 2 ^ (2 * l.length) := by rw [Nat.pow_mul]
  have hlt : weigh 4 2 l < 2 ^ (2 * l.length) := hpow ▸ weigh_lt (by decide) l
  rw [weigh, hpow, Nat.mul_comm]
  exact Nat.testBit_two_pow_mul_add _ hlt i

/-- The upper bit is the entry. -/
theorem testBit_weigh (hj : j < l.length) :
    (weigh 4 2 l).testBit (2 * (l.length - 1 - j) + 1) = l.getD j false := by
  induction l generalizing j with
  | nil => exact absurd hj (Nat.not_lt_zero j)
  | cons x l ih =>
    rw [testBit_weigh_cons, List.length_cons, Nat.add_sub_cancel]
    cases j with
    | zero =>
      rw [if_neg (by omega), Nat.sub_zero, Nat.add_sub_cancel_left]
      cases x <;> rfl
    | succ j =>
      have hj := Nat.lt_of_succ_lt_succ hj
      have hindex : 2 * (l.length - (j + 1)) + 1 = 2 * (l.length - 1 - j) + 1 := by omega
      rw [if_pos (by omega), hindex, ih hj, List.getD_cons_succ]

/-- The lower bit is clear. -/
theorem testBit_weigh_even (l : List Bool) (i : ℕ) : (weigh 4 2 l).testBit (2 * i) = false := by
  induction l with
  | nil => exact Nat.zero_testBit _
  | cons x l ih =>
    rw [testBit_weigh_cons, ← Nat.mul_sub]
    split_ifs with hi
    · exact ih
    · cases x
      · exact Nat.zero_testBit _
      · have htwo : digit 2 true = 2 ^ 1 := rfl
        rw [htwo, Nat.testBit_two_pow, decide_eq_false_iff_not]
        omega

end RecentHistory
