import Mathlib.Algebra.Order.Group.Nat
import Mathlib.Data.List.Basic
import Mathlib.Data.Nat.ModEq
import Mathlib.Logic.Function.Basic

/-!
# Ring buffers

A ring of `size` cells with a position to read from and one to write to, each of which starts
again from cell 0 at the end. `Holds` : the elements put in and not yet taken lie from the read
position on, and the write position is behind them. An element put at the back is kept as long as
fewer than `size` elements are in the ring then (`Holds.put`).

Nothing but the two positions tells a full ring from an empty one : with `size` elements in it
they are equal, as `wpos_putAll` says, which holds without any bound.
-/

/-- A ring buffer. -/
structure RingBuffer (α : Type*) where
  buf : ℕ → α
  rpos : ℕ
  wpos : ℕ

namespace RingBuffer

variable {α : Type*} (size : ℕ)

/-- The position after `i`. -/
def next (i : ℕ) : ℕ :=
  if i + 1 = size then 0 else i + 1

/-- Put `a` into the cell at the write position. -/
def put (r : RingBuffer α) (a : α) : RingBuffer α where
  buf := Function.update r.buf r.wpos a
  rpos := r.rpos
  wpos := next size r.wpos

/-- Take the element at the read position, if the positions differ. -/
def get? (r : RingBuffer α) : Option (α × RingBuffer α) :=
  if r.rpos ≠ r.wpos then some (r.buf r.rpos, { r with rpos := next size r.rpos }) else none

/-- Put the elements of a list, the first one first. -/
def putAll (r : RingBuffer α) (l : List α) : RingBuffer α :=
  l.foldl (put size) r

/-- The elements of `q`, the oldest one first, are what is in the ring. -/
structure Holds (r : RingBuffer α) (q : List α) : Prop where
  rpos_lt : r.rpos < size
  length_lt : q.length < size
  wpos_eq : r.wpos = (r.rpos + q.length) % size
  cell : ∀ i (h : i < q.length), r.buf ((r.rpos + i) % size) = q.get ⟨i, h⟩

variable {size} {r : RingBuffer α} {q l : List α} {a : α}

theorem next_eq_mod {i : ℕ} (h : i < size) : next size i = (i + 1) % size := by
  unfold next
  split_ifs with hend
  · rw [hend, Nat.mod_self]
  · rw [Nat.mod_eq_of_lt (by omega)]

theorem next_lt {i : ℕ} (h : i < size) : next size i < size := by
  rw [next_eq_mod h]
  exact Nat.mod_lt _ (by omega)

/-- Places less than a turn apart are different cells. -/
theorem add_mod_ne {p i j : ℕ} (hij : i < j) (hj : j < size) : (p + i) % size ≠ (p + j) % size := by
  intro heq
  have hmod : i ≡ j [MOD size] := Nat.ModEq.add_left_cancel' p heq
  have := Nat.ModEq.eq_of_lt_of_lt hmod (hij.trans hj) hj
  omega

/-! ## Positions -/

@[simp] theorem putAll_nil : r.putAll size [] = r :=
  rfl

@[simp] theorem putAll_cons : r.putAll size (a :: l) = (r.put size a).putAll size l :=
  rfl

@[simp] theorem rpos_putAll : (r.putAll size l).rpos = r.rpos := by
  induction l generalizing r with
  | nil => rfl
  | cons a l ih => rw [putAll_cons, ih, put]

/-- The write position goes round with the number of elements put. -/
theorem wpos_putAll (h : r.wpos < size) : (r.putAll size l).wpos = (r.wpos + l.length) % size := by
  induction l generalizing r with
  | nil => exact (Nat.mod_eq_of_lt h).symm
  | cons a l ih =>
    rw [putAll_cons, ih (next_lt h)]
    change (next size r.wpos + l.length) % size = (r.wpos + (l.length + 1)) % size
    rw [next_eq_mod h, Nat.mod_add_mod]
    congr 1
    omega

/-! ## What is in the ring -/

namespace Holds

theorem wpos_lt (h : Holds size r q) : r.wpos < size := by
  rw [h.wpos_eq]
  exact Nat.mod_lt _ (Nat.zero_lt_of_lt h.rpos_lt)

/-- The positions are equal when nothing is in the ring, and only then. -/
theorem rpos_eq_wpos_iff (h : Holds size r q) : r.rpos = r.wpos ↔ q = [] := by
  constructor
  · intro heq
    by_contra hne
    have hpos : 0 < q.length := List.length_pos_of_ne_nil hne
    refine add_mod_ne (p := r.rpos) hpos h.length_lt ?_
    rw [← h.wpos_eq, ← heq, Nat.add_zero, Nat.mod_eq_of_lt h.rpos_lt]
  · rintro rfl
    rw [h.wpos_eq, List.length_nil, Nat.add_zero, Nat.mod_eq_of_lt h.rpos_lt]

theorem put (h : Holds size r q) (hroom : q.length + 1 < size) :
    Holds size (r.put size a) (q ++ [a]) where
  rpos_lt := h.rpos_lt
  length_lt := by rwa [List.length_append, List.length_singleton]
  wpos_eq := by
    change next size r.wpos = _
    rw [next_eq_mod h.wpos_lt, h.wpos_eq, Nat.mod_add_mod, List.length_append,
      List.length_singleton, Nat.add_assoc]
    rfl
  cell := by
    intro i hi
    change Function.update r.buf r.wpos a ((r.rpos + i) % size) = _
    rw [List.length_append, List.length_singleton] at hi
    rcases Nat.lt_succ_iff_lt_or_eq.1 hi with hold | rfl
    · have hne : (r.rpos + i) % size ≠ r.wpos := by
        rw [h.wpos_eq]
        exact add_mod_ne hold h.length_lt
      rw [Function.update_of_ne hne, h.cell i hold]
      simp [List.getElem_append_left hold]
    · rw [← h.wpos_eq, Function.update_self]
      simp

theorem putAll (h : Holds size r q) (hroom : q.length + l.length < size) :
    Holds size (r.putAll size l) (q ++ l) := by
  induction l generalizing r q with
  | nil => rwa [List.append_nil]
  | cons a l ih =>
    rw [List.length_cons] at hroom
    have hput : Holds size (r.put size a) (q ++ [a]) := h.put (by omega)
    have hall := ih hput (by rw [List.length_append, List.length_singleton]; omega)
    rwa [List.append_assoc] at hall

theorem get?_nil (h : Holds size r []) : r.get? size = none := by
  rw [get?, if_neg (not_not.2 (h.rpos_eq_wpos_iff.2 rfl))]

/-- What is taken is the oldest element, and the others stay. -/
theorem get?_cons (h : Holds size r (a :: q)) :
    ∃ r', r.get? size = some (a, r') ∧ Holds size r' q := by
  have hne : r.rpos ≠ r.wpos := fun heq => List.cons_ne_nil a q (h.rpos_eq_wpos_iff.1 heq)
  have hfirst : r.buf r.rpos = a := by
    have hcell := h.cell 0 (Nat.succ_pos _)
    rwa [Nat.add_zero, Nat.mod_eq_of_lt h.rpos_lt] at hcell
  refine ⟨{ r with rpos := next size r.rpos }, by rw [get?, if_pos hne, hfirst], ?_⟩
  have hlen := h.length_lt
  rw [List.length_cons] at hlen
  refine ⟨next_lt h.rpos_lt, by omega, ?_, fun i hi => ?_⟩
  · change r.wpos = (next size r.rpos + q.length) % size
    rw [h.wpos_eq, next_eq_mod h.rpos_lt, Nat.mod_add_mod, List.length_cons, Nat.add_right_comm,
      Nat.add_assoc]
  · change r.buf ((next size r.rpos + i) % size) = _
    have hcell := h.cell (i + 1) (Nat.succ_lt_succ hi)
    rw [next_eq_mod h.rpos_lt, Nat.mod_add_mod, Nat.add_right_comm, Nat.add_assoc, hcell]
    rfl

end Holds

end RingBuffer
