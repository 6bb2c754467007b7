import Mathlib.Algebra.Order.Group.Nat
import Mathlib.Logic.Equiv.Fin.Basic
import Mathlib.Logic.Function.Basic

/-!
# Text terminals

A terminal of `rows` by `cols` cells, with a cursor on one of them. A driver that keeps the cells
in one array, row after row, and the cursor as an index `Displays` it.

The index of a driver may leave the array when the cursor moves past the last cell. `Settles` is
what it does then, and the lemmas on `Displays` say which plain change of array and index, settled
so, is which operation of the terminal.
-/

/-- A text terminal. -/
structure TextTerminal (rows cols : ℕ) (α : Type*) where
  cell : Fin rows → Fin cols → α
  row : Fin rows
  col : Fin cols

namespace TextTerminal

variable {rows cols : ℕ} {α : Type*} (blank : α) (t : TextTerminal rows cols α)

/-- Column 0. -/
def firstCol : Fin cols :=
  ⟨0, t.col.pos⟩

/-- Write `a` into a cell. -/
def set (r : Fin rows) (c : Fin cols) (a : α) : TextTerminal rows cols α :=
  { t with cell := Function.update t.cell r (Function.update (t.cell r) c a) }

/-- Every row moves up by one, and the last row is blank. -/
def scroll : TextTerminal rows cols α :=
  { t with cell := fun r => if h : r.val + 1 < rows then t.cell ⟨r.val + 1, h⟩ else fun _ => blank }

/-- Go to the start of the row. -/
def carriageReturn : TextTerminal rows cols α :=
  { t with col := t.firstCol }

/-- Go to the start of the next row. -/
def newline : TextTerminal rows cols α :=
  if h : t.row.val + 1 < rows then { t.carriageReturn with row := ⟨t.row.val + 1, h⟩ }
  else (t.carriageReturn).scroll blank

/-- Go to the next cell. -/
def advance : TextTerminal rows cols α :=
  if h : t.col.val + 1 < cols then { t with col := ⟨t.col.val + 1, h⟩ } else t.newline blank

/-- A character fills the cell of the cursor, and the cursor advances. -/
def put (a : α) : TextTerminal rows cols α :=
  (t.set t.row t.col a).advance blank

/-- Go to the previous cell and write `a` into it ; nothing at the first cell. -/
def backspace (a : α) : TextTerminal rows cols α :=
  if 0 < t.col.val then
    let col : Fin cols := ⟨t.col.val - 1, by omega⟩
    { t.set t.row col a with col := col }
  else if 0 < t.row.val then
    let row : Fin rows := ⟨t.row.val - 1, by omega⟩
    let col : Fin cols := ⟨cols - 1, by have := t.col.pos; omega⟩
    { t.set row col a with row := row, col := col }
  else t

/-- The index of a cell, row after row. -/
def index (r : Fin rows) (c : Fin cols) : ℕ :=
  c.val + cols * r.val

/-- The cells and the cursor as an array and an index. -/
structure Displays (t : TextTerminal rows cols α) (buf : ℕ → α) (pos : ℕ) : Prop where
  cell_eq : ∀ r c, buf (index r c) = t.cell r c
  pos_eq : pos = index t.row t.col

/-- The terminal that an array and an index inside it display. -/
def ofIndex (buf : ℕ → α) (pos : ℕ) (h : pos < rows * cols) : TextTerminal rows cols α where
  cell r c := buf (index r c)
  row := ⟨pos / cols, Nat.div_lt_of_lt_mul (by rwa [Nat.mul_comm])⟩
  col := ⟨pos % cols, Nat.mod_lt _ (Nat.pos_of_mul_pos_left (Nat.zero_lt_of_lt h))⟩

/-- An index past the last cell goes back by a row, as the rows of the array move up. -/
def Settles (rows cols : ℕ) (blank : α) (buf : ℕ → α) (pos : ℕ) (buf' : ℕ → α) (pos' : ℕ) :
    Prop :=
  (pos < rows * cols ∧ pos' = pos ∧ ∀ i < rows * cols, buf' i = buf i) ∨
    (rows * cols ≤ pos ∧ pos' = pos - cols ∧ ∀ i < rows * cols,
      buf' i = if i + cols < rows * cols then buf (i + cols) else blank)

variable {blank} {t} {buf buf' : ℕ → α} {pos pos' : ℕ} {a : α}

theorem index_lt (r : Fin rows) (c : Fin cols) : index r c < rows * cols :=
  (finProdFinEquiv (r, c)).isLt

theorem index_injective {r r' : Fin rows} {c c' : Fin cols} (h : index r c = index r' c') :
    r = r' ∧ c = c' := by
  have heq : finProdFinEquiv (r, c) = finProdFinEquiv (r', c') := Fin.ext h
  exact Prod.mk.inj (finProdFinEquiv.injective heq)

theorem displays_ofIndex (h : pos < rows * cols) : (ofIndex buf pos h).Displays buf pos where
  cell_eq _ _ := rfl
  pos_eq := (Nat.mod_add_div pos cols).symm

namespace Displays

theorem lt (h : t.Displays buf pos) : pos < rows * cols :=
  h.pos_eq ▸ index_lt t.row t.col

theorem set (h : t.Displays buf pos) (r : Fin rows) (c : Fin cols) :
    (t.set r c a).Displays (Function.update buf (index r c) a) pos where
  cell_eq := by
    intro r' c'
    unfold TextTerminal.set
    by_cases hr : r' = r
    · subst hr
      by_cases hc : c' = c
      · subst hc
        simp
      · have hne : index r' c' ≠ index r' c := fun heq => hc (index_injective heq).2
        simp [hc, hne, h.cell_eq]
    · have hne : index r' c' ≠ index r c := fun heq => hr (index_injective heq).1
      simp [hr, hne, h.cell_eq]
  pos_eq := h.pos_eq

/-- An index inside the array stays as it is. -/
theorem settles (h : t.Displays buf pos) (hs : Settles rows cols blank buf pos buf' pos') :
    t.Displays buf' pos' := by
  rcases hs with ⟨-, rfl, hbuf⟩ | ⟨hge, -⟩
  · exact ⟨fun r c => (hbuf _ (index_lt r c)).trans (h.cell_eq r c), h.pos_eq⟩
  · exact absurd h.lt (not_lt.2 hge)

theorem carriageReturn (h : t.Displays buf pos) :
    t.carriageReturn.Displays buf (pos - pos % cols) where
  cell_eq := h.cell_eq
  pos_eq := by
    rw [h.pos_eq, index, Nat.add_mul_mod_self_left, Nat.mod_eq_of_lt t.col.isLt,
      Nat.add_sub_cancel_left]
    exact (Nat.zero_add _).symm

/-- The start of the next row, if there is one. -/
theorem start_of_next_row (h : t.Displays buf pos) :
    pos + cols - (pos + cols) % cols = cols * (t.row.val + 1) := by
  rw [Nat.add_mod_right, h.pos_eq, index, Nat.add_mul_mod_self_left,
    Nat.mod_eq_of_lt t.col.isLt, Nat.mul_succ, Nat.add_assoc, Nat.add_sub_cancel_left]

/-- The rows of a settled array are those of the scrolled terminal. -/
theorem scroll (h : t.Displays buf pos)
    (hbuf : ∀ i < rows * cols, buf' i = if i + cols < rows * cols then buf (i + cols) else blank) :
    (t.scroll blank).Displays buf' pos where
  cell_eq := by
    intro r c
    have hnext : index r c + cols = c.val + cols * (r.val + 1) := by
      rw [index, Nat.mul_succ, Nat.add_assoc]
    unfold TextTerminal.scroll
    rw [hbuf _ (index_lt r c)]
    dsimp only
    split_ifs with hin hrow hrow
    · rw [hnext]
      exact h.cell_eq ⟨r.val + 1, hrow⟩ c
    · have hend : cols * rows ≤ cols * (r.val + 1) := Nat.mul_le_mul_left _ (not_lt.1 hrow)
      rw [hnext, Nat.mul_comm rows cols] at hin
      omega
    · have hlt := index_lt ⟨r.val + 1, hrow⟩ c
      rw [hnext] at hin
      exact absurd hlt hin
    · rfl
  pos_eq := h.pos_eq

theorem newline (h : t.Displays buf pos)
    (hs : Settles rows cols blank buf (cols * (t.row.val + 1)) buf' pos') :
    (t.newline blank).Displays buf' pos' := by
  have hreturn := h.carriageReturn
  have hsize : cols * (t.row.val + 1) < rows * cols ↔ t.row.val + 1 < rows := by
    rw [Nat.mul_comm rows cols]
    exact Nat.mul_lt_mul_left t.col.pos
  unfold TextTerminal.newline
  rcases hs with ⟨hlt, rfl, hbuf⟩ | ⟨hge, rfl, hbuf⟩
  · rw [dif_pos (hsize.1 hlt)]
    exact ⟨fun r c => (hbuf _ (index_lt r c)).trans (h.cell_eq r c), (Nat.zero_add _).symm⟩
  · rw [dif_neg fun hrow => absurd (hsize.2 hrow) (not_lt.2 hge)]
    refine ⟨(hreturn.scroll hbuf).cell_eq, ?_⟩
    rw [Nat.mul_succ, Nat.add_sub_cancel]
    exact (Nat.zero_add _).symm

theorem advance (h : t.Displays buf pos)
    (hs : Settles rows cols blank buf (pos + 1) buf' pos') :
    (t.advance blank).Displays buf' pos' := by
  unfold TextTerminal.advance
  have hpos : pos + 1 = t.col.val + 1 + cols * t.row.val := by
    rw [h.pos_eq, index, Nat.add_right_comm]
  split_ifs with hcol
  · have hlt := index_lt t.row ⟨t.col.val + 1, hcol⟩
    rw [hpos] at hs
    rcases hs with ⟨-, rfl, hbuf⟩ | ⟨hge, -⟩
    · exact ⟨fun r c => (hbuf _ (index_lt r c)).trans (h.cell_eq r c), rfl⟩
    · exact absurd hlt (not_lt.2 hge)
  · have hlast : t.col.val + 1 = cols := by omega
    rw [hpos, hlast, Nat.add_comm, ← Nat.mul_succ] at hs
    exact h.newline hs

theorem put (h : t.Displays buf pos)
    (hs : Settles rows cols blank (Function.update buf pos a) (pos + 1) buf' pos') :
    (t.put blank a).Displays buf' pos' := by
  have hset : (t.set t.row t.col a).Displays (Function.update buf pos a) pos := by
    have := h.set t.row t.col (a := a)
    rwa [← h.pos_eq] at this
  exact hset.advance hs

theorem backspace (h : t.Displays buf pos) (hpos : 0 < pos) :
    (t.backspace a).Displays (Function.update buf (pos - 1) a) (pos - 1) := by
  have hcols := t.col.pos
  have heq := h.pos_eq
  unfold index at heq
  unfold TextTerminal.backspace
  split_ifs with hcol hrow
  · have hprev : pos - 1 = index t.row (⟨t.col.val - 1, by omega⟩ : Fin cols) := by
      unfold index
      dsimp only
      omega
    rw [hprev]
    exact ⟨(h.set _ _).cell_eq, rfl⟩
  · have hprev : pos - 1 =
        index (⟨t.row.val - 1, by omega⟩ : Fin rows) (⟨cols - 1, by omega⟩ : Fin cols) := by
      have hmul : cols * t.row.val = cols * (t.row.val - 1) + cols := by
        rw [← Nat.mul_succ, Nat.succ_eq_add_one, Nat.sub_add_cancel hrow]
      unfold index
      dsimp only
      omega
    rw [hprev]
    exact ⟨(h.set _ _).cell_eq, rfl⟩
  · have hzero : t.row.val = 0 := by omega
    rw [hzero, Nat.mul_zero] at heq
    omega

theorem backspace_of_zero (h : t.Displays buf pos) (hpos : pos = 0) : t.backspace a = t := by
  have heq := h.pos_eq
  unfold index at heq
  have hcol : t.col.val = 0 := by omega
  have hrow : t.row.val = 0 := by
    have hmul : cols * t.row.val = 0 := by omega
    exact (Nat.mul_eq_zero.1 hmul).resolve_left t.col.pos.ne'
  unfold TextTerminal.backspace
  rw [if_neg (by omega), if_neg (by omega)]

end Displays

end TextTerminal
