import FosKernel.TextTerminal

/-!
# The text screen

`cga_putc` keeps its cursor as one 16-bit index into the cells. What a character does to the index
and to a cell comes first, and after it one check scrolls the screen when the index has left it.

The reference is a `TextTerminal` of 25 by 80 cells, and `receive` what it does with a character.
`screen_refines` : whatever is written to the screen, every cell written is inside it, the index is
inside it after every call, and cells and cursor are those of the terminal.
-/

namespace FosKernel

/-- `CRT_ROWS`. -/
def crtRows : ℕ :=
  25

/-- `CRT_COLS`. -/
def crtCols : ℕ :=
  80

/-- `CRT_SIZE`. -/
def crtSize : ℕ :=
  crtRows * crtCols

/-- A cell of a blank row : black on white. -/
def blankCell : BitVec 16 :=
  0x0700#16 ||| 0x20#16

/-- The display, and the parallel port that repeats it. -/
structure Crt where
  crtBuf : ℕ → BitVec 16
  crtPos : BitVec 16
  /-- The cursor registers of the 6845. -/
  cursorHigh : BitVec 8
  cursorLow : BitVec 8
  /-- The bytes sent to the parallel port, the last one first. -/
  lpt : List (BitVec 8)
  /-- The indices of the cells written. -/
  written : List ℕ
  /-- `crt_pos` at the end of each call of `cga_putc`. -/
  positions : List (BitVec 16)

/-- A character without attribute is black on white. -/
def defaultAttribute (c : BitVec 32) : BitVec 32 :=
  if c &&& ~~~0xff#32 = 0#32 then c ||| 0x0700#32 else c

namespace Crt

variable (s : Crt)

/-- `crt_buf[i] = w`. -/
def write (i : ℕ) (w : BitVec 16) : Crt :=
  { s with crtBuf := Function.update s.crtBuf i w, written := i :: s.written }

/-- `memcpy` of `n` cells, in increasing address order. -/
def memcpy (dst src : ℕ) : ℕ → Crt → Crt
  | 0, s => s
  | n + 1, s => memcpy (dst + 1) (src + 1) n (s.write dst (s.crtBuf src))

/-- The loop that blanks `n` cells from cell `i` on. -/
def blankCells (i : ℕ) : ℕ → Crt → Crt
  | 0, s => s
  | n + 1, s => blankCells (i + 1) n (s.write i blankCell)

/-- The check after the `switch`. -/
def scrollCheck : Crt :=
  if s.crtPos.toNat ≥ crtSize then
    let s := memcpy 0 crtCols (crtSize - crtCols) s
    let s := blankCells (crtSize - crtCols) crtCols s
    { s with crtPos := s.crtPos - 80#16 }
  else s

/-- Send the position to the 6845. -/
def moveCursor : Crt :=
  { s with
    cursorHigh := (s.crtPos >>> 8).setWidth 8
    cursorLow := s.crtPos.setWidth 8
    positions := s.crtPos :: s.positions }

/-- `lpt_putc`. -/
def lptPutc (c : BitVec 32) : Crt :=
  { s with lpt := c.setWidth 8 :: s.lpt }

/-- The case of a carriage return. -/
def startOfRow : Crt :=
  { s with crtPos := s.crtPos - s.crtPos % 80#16 }

end Crt

mutual

/-- `cga_putc`. -/
def cgaPutc (c : BitVec 32) (s : Crt) : Crt :=
  let c' := defaultAttribute c
  let s :=
    if c' &&& 0xff#32 = 0x08#32 then
      if s.crtPos > 0#16 then
        let s := { s with crtPos := s.crtPos - 1#16 }
        s.write s.crtPos.toNat ((c' &&& ~~~0xff#32 ||| 0x20#32).setWidth 16)
      else s
    else if c' &&& 0xff#32 = 0x0a#32 then
      let s := { s with crtPos := s.crtPos + 80#16 }
      -- falls through
      s.startOfRow
    else if c' &&& 0xff#32 = 0x0d#32 then
      s.startOfRow
    else if c' &&& 0xff#32 = 0x09#32 then
      let s := consPutc 0x20#32 s
      let s := consPutc 0x20#32 s
      let s := consPutc 0x20#32 s
      let s := consPutc 0x20#32 s
      consPutc 0x20#32 s
    else
      let s := s.write s.crtPos.toNat (c'.setWidth 16)
      { s with crtPos := s.crtPos + 1#16 }
  s.scrollCheck.moveCursor
termination_by if defaultAttribute c &&& 0xff#32 = 0x09#32 then 2 else 0
decreasing_by all_goals simp_all +zetaDelta +decide

/-- `cons_putc`. -/
def consPutc (c : BitVec 32) (s : Crt) : Crt :=
  cgaPutc c (s.lptPutc c)
termination_by (if defaultAttribute c &&& 0xff#32 = 0x09#32 then 2 else 0) + 1

end

/-! ## The reference -/

/-- The terminal that the screen stands for. -/
abbrev Terminal :=
  TextTerminal crtRows crtCols (BitVec 16)

/-- What the terminal does with a character. -/
def Terminal.receive (t : Terminal) (c : BitVec 32) : Terminal :=
  let ch := c &&& 0xff#32
  if ch = 0x08#32 then
    t.backspace ((defaultAttribute c &&& ~~~0xff#32 ||| 0x20#32).setWidth 16)
  else if ch = 0x0a#32 then
    t.newline blankCell
  else if ch = 0x0d#32 then
    t.carriageReturn
  else if ch = 0x09#32 then
    (fun t => t.put blankCell blankCell)^[5] t
  else
    t.put blankCell ((defaultAttribute c).setWidth 16)

theorem Terminal.receive_tab {t : Terminal} {c : BitVec 32} (h : c &&& 0xff#32 = 0x09#32) :
    t.receive c = ((((t.put blankCell blankCell).put blankCell blankCell).put blankCell
      blankCell).put blankCell blankCell).put blankCell blankCell := by
  unfold receive
  dsimp only
  rw [h, if_neg (by decide), if_neg (by decide), if_neg (by decide), if_pos rfl]
  simp only [Function.iterate_succ_apply', Function.iterate_zero_apply]

/-- The screen is the terminal's, and nothing outside it was written or pointed to. -/
structure Shows (t : Terminal) (s : Crt) : Prop where
  displays : t.Displays s.crtBuf s.crtPos.toNat
  written_lt : ∀ i ∈ s.written, i < crtSize
  positions_lt : ∀ p ∈ s.positions, p.toNat < crtSize
  cursor_eq : s.positions ≠ [] → s.cursorHigh ++ s.cursorLow = s.crtPos

namespace Crt

variable {s : Crt} {t : Terminal}

/-! ## Scrolling -/

theorem crtBuf_memcpy {dst src n : ℕ} (h : dst ≤ src) (i : ℕ) :
    (memcpy dst src n s).crtBuf i =
      if dst ≤ i ∧ i < dst + n then s.crtBuf (i + (src - dst)) else s.crtBuf i := by
  induction n generalizing dst src s with
  | zero => rw [memcpy, if_neg (by omega)]
  | succ n ih =>
    have hgap : src + 1 - (dst + 1) = src - dst := Nat.add_sub_add_right src 1 dst
    rw [memcpy, ih (Nat.succ_le_succ h), hgap]
    unfold write
    dsimp only
    rcases lt_trichotomy i dst with hlt | rfl | hgt
    · rw [if_neg (by omega), if_neg (by omega), Function.update_of_ne hlt.ne]
    · rw [if_neg (by omega), if_pos (by omega), Function.update_self, Nat.add_sub_cancel' h]
    · have hrange : (dst + 1 ≤ i ∧ i < dst + 1 + n) ↔ (dst ≤ i ∧ i < dst + (n + 1)) := by omega
      rw [Function.update_of_ne hgt.ne', Function.update_of_ne (by omega), if_congr hrange rfl rfl]

theorem crtBuf_blankCells {i n : ℕ} (j : ℕ) :
    (blankCells i n s).crtBuf j = if i ≤ j ∧ j < i + n then blankCell else s.crtBuf j := by
  induction n generalizing i s with
  | zero => rw [blankCells, if_neg (by omega)]
  | succ n ih =>
    rw [blankCells, ih]
    unfold write
    dsimp only
    rcases lt_trichotomy j i with hlt | rfl | hgt
    · rw [if_neg (by omega), if_neg (by omega), Function.update_of_ne hlt.ne]
    · rw [if_neg (by omega), if_pos (by omega), Function.update_self]
    · have hrange : (i + 1 ≤ j ∧ j < i + 1 + n) ↔ (i ≤ j ∧ j < i + (n + 1)) := by omega
      rw [Function.update_of_ne hgt.ne', if_congr hrange rfl rfl]

/-- Nothing but cells changes, and only the cells of the range are written. -/
structure WritesTo (lo hi : ℕ) (s s' : Crt) : Prop where
  crtPos_eq : s'.crtPos = s.crtPos
  positions_eq : s'.positions = s.positions
  written : ∀ i ∈ s'.written, i ∈ s.written ∨ lo ≤ i ∧ i < hi

/-- A cell before the others. -/
theorem WritesTo.cons {s' : Crt} {i n : ℕ} {w : BitVec 16}
    (h : WritesTo (i + 1) (i + 1 + n) (s.write i w) s') : WritesTo i (i + (n + 1)) s s' := by
  refine ⟨h.crtPos_eq, h.positions_eq, fun j hj => ?_⟩
  rcases h.written j hj with hold | hnew
  · rcases List.mem_cons.1 hold with rfl | hold
    · exact Or.inr ⟨le_rfl, by omega⟩
    · exact Or.inl hold
  · exact Or.inr (by omega)

theorem writesTo_memcpy (dst src n : ℕ) (s : Crt) :
    WritesTo dst (dst + n) s (memcpy dst src n s) := by
  induction n generalizing dst src s with
  | zero => exact ⟨rfl, rfl, fun i hi => Or.inl hi⟩
  | succ n ih => exact (ih (dst + 1) (src + 1) (s.write dst (s.crtBuf src))).cons

theorem writesTo_blankCells (i n : ℕ) (s : Crt) : WritesTo i (i + n) s (blankCells i n s) := by
  induction n generalizing i s with
  | zero => exact ⟨rfl, rfl, fun j hj => Or.inl hj⟩
  | succ n ih => exact (ih (i + 1) (s.write i blankCell)).cons

/-- The check puts an index past the last cell back, and scrolls. -/
theorem settles_scrollCheck (s : Crt) :
    TextTerminal.Settles crtRows crtCols blankCell s.crtBuf s.crtPos.toNat s.scrollCheck.crtBuf
      s.scrollCheck.crtPos.toNat := by
  unfold scrollCheck
  split_ifs with hpos
  · have hcopied := writesTo_memcpy 0 crtCols (crtSize - crtCols) s
    have hblanked := writesTo_blankCells (crtSize - crtCols) crtCols
      (memcpy 0 crtCols (crtSize - crtCols) s)
    have hsize : crtSize = 2000 := rfl
    have hcols : crtCols = 80 := rfl
    refine Or.inr ⟨hpos, ?_, fun i hi => ?_⟩
    · dsimp only
      rw [hblanked.crtPos_eq, hcopied.crtPos_eq]
      rw [hsize] at hpos
      rw [hcols]
      bv_omega
    · change i < crtSize at hi
      dsimp only
      rw [crtBuf_blankCells, crtBuf_memcpy (Nat.zero_le _), Nat.sub_zero]
      change _ = if i + crtCols < crtSize then _ else _
      by_cases hrow : i + crtCols < crtSize
      · rw [if_neg (by omega), if_pos (by omega), if_pos hrow]
      · rw [if_pos (by omega), if_neg hrow]
  · exact Or.inl ⟨not_le.1 hpos, rfl, fun i _ => rfl⟩

theorem written_scrollCheck (h : ∀ i ∈ s.written, i < crtSize) :
    ∀ i ∈ s.scrollCheck.written, i < crtSize := by
  have hcopied := writesTo_memcpy 0 crtCols (crtSize - crtCols) s
  have hblanked := writesTo_blankCells (crtSize - crtCols) crtCols
    (memcpy 0 crtCols (crtSize - crtCols) s)
  have hsize : crtSize = 2000 := rfl
  have hcols : crtCols = 80 := rfl
  intro i hi
  unfold scrollCheck at hi
  split_ifs at hi
  · rcases hblanked.written i hi with hi | hi
    · rcases hcopied.written i hi with hi | hi
      · exact h i hi
      · omega
    · omega
  · exact h i hi

theorem positions_scrollCheck (s : Crt) : s.scrollCheck.positions = s.positions := by
  have hcopied := writesTo_memcpy 0 crtCols (crtSize - crtCols) s
  have hblanked := writesTo_blankCells (crtSize - crtCols) crtCols
    (memcpy 0 crtCols (crtSize - crtCols) s)
  unfold scrollCheck
  split_ifs
  · dsimp only
    rw [hblanked.positions_eq, hcopied.positions_eq]
  · rfl

end Crt

/-! ## One character -/

/-- The two registers hold the position. -/
theorem high_append_low (w : BitVec 16) :
    ((w >>> 8).setWidth 8 : BitVec 8) ++ (w.setWidth 8 : BitVec 8) = w := by
  ext i hi
  rw [BitVec.getElem_append]
  split_ifs with h
  · rw [BitVec.getElem_setWidth, BitVec.getLsbD_eq_getElem hi]
  · rw [BitVec.getElem_setWidth, BitVec.getLsbD_ushiftRight, show 8 + (i - 8) = i by omega,
      BitVec.getLsbD_eq_getElem hi]

/-- The default attribute does not change the character. -/
theorem defaultAttribute_and (c : BitVec 32) : defaultAttribute c &&& 0xff#32 = c &&& 0xff#32 := by
  unfold defaultAttribute
  split_ifs
  · rw [BitVec.and_or_distrib_right]
    exact BitVec.or_zero
  · rfl

theorem toNat_startOfRow (w : BitVec 16) :
    (w - w % 80#16).toNat = w.toNat - w.toNat % crtCols := by
  rw [BitVec.toNat_sub_of_le, BitVec.toNat_umod]
  · rfl
  · exact Nat.mod_le _ _

namespace Shows

variable {s : Crt} {t : Terminal}

theorem pos_lt (h : Shows t s) : s.crtPos.toNat < crtSize :=
  h.displays.lt

/-- What follows the `switch`. -/
theorem of_settles
    (hdisplays : ∀ buf' pos', TextTerminal.Settles crtRows crtCols blankCell s.crtBuf
      s.crtPos.toNat buf' pos' → t.Displays buf' pos')
    (hwritten : ∀ i ∈ s.written, i < crtSize) (hpositions : ∀ p ∈ s.positions, p.toNat < crtSize) :
    Shows t s.scrollCheck.moveCursor := by
  have hsettled : t.Displays s.scrollCheck.crtBuf s.scrollCheck.crtPos.toNat :=
    hdisplays _ _ s.settles_scrollCheck
  refine ⟨hsettled, Crt.written_scrollCheck hwritten, fun p hp => ?_, fun _ => ?_⟩
  · rcases List.mem_cons.1 hp with rfl | hp
    · exact hsettled.lt
    · rw [s.positions_scrollCheck] at hp
      exact hpositions p hp
  · exact high_append_low s.scrollCheck.crtPos

/-- Every character but a tab. -/
theorem cgaPutc_of_not_tab (h : Shows t s) {c : BitVec 32} (htab : c &&& 0xff#32 ≠ 0x09#32) :
    Shows (t.receive c) (cgaPutc c s) := by
  have hpos := h.pos_lt
  have hsize : crtSize = 2000 := rfl
  have hcols : crtCols = 80 := rfl
  rw [cgaPutc]
  simp only [defaultAttribute_and]
  unfold Terminal.receive Crt.startOfRow
  dsimp only
  split_ifs with hback hhome hnewline hreturn
  · have hprev : (s.crtPos - 1#16).toNat = s.crtPos.toNat - 1 := by bv_omega
    refine of_settles (fun buf' pos' hs => ?_) ?_ h.positions_lt
    · have hdisplays := h.displays.backspace hhome
        (a := (defaultAttribute c &&& ~~~0xff#32 ||| 0x20#32).setWidth 16)
      rw [← hprev] at hdisplays
      exact hdisplays.settles hs
    · exact List.forall_mem_cons.2 ⟨by omega, h.written_lt⟩
  · have hzero : s.crtPos.toNat = 0 := by bv_omega
    have hdisplays := h.displays
    refine of_settles (fun buf' pos' hs => ?_) h.written_lt h.positions_lt
    rw [hdisplays.backspace_of_zero hzero]
    exact hdisplays.settles hs
  · refine of_settles (fun buf' pos' hs => ?_) h.written_lt h.positions_lt
    have hadd : (s.crtPos + 80#16).toNat = s.crtPos.toNat + crtCols := by bv_omega
    refine h.displays.newline ?_
    rw [← h.displays.start_of_next_row, ← hadd, ← toNat_startOfRow]
    exact hs
  · refine of_settles (fun buf' pos' hs => ?_) h.written_lt h.positions_lt
    have hdisplays := h.displays.carriageReturn
    rw [← toNat_startOfRow] at hdisplays
    exact hdisplays.settles hs
  · refine of_settles (fun buf' pos' hs => ?_) ?_ h.positions_lt
    · have hadd : (s.crtPos + 1#16).toNat = s.crtPos.toNat + 1 := by bv_omega
      refine h.displays.put ?_
      rw [← hadd]
      exact hs
    · exact List.forall_mem_cons.2 ⟨hpos, h.written_lt⟩

/-- A space of a tab. -/
theorem consPutc_space (h : Shows t s) :
    Shows (t.put blankCell blankCell) (consPutc 0x20#32 s) := by
  have hlpt : Shows t (s.lptPutc 0x20#32) :=
    ⟨h.displays, h.written_lt, h.positions_lt, h.cursor_eq⟩
  have htab : 0x20#32 &&& 0xff#32 ≠ 0x09#32 := by decide
  have hreceive : t.receive 0x20#32 = t.put blankCell blankCell := rfl
  rw [consPutc, ← hreceive]
  exact hlpt.cgaPutc_of_not_tab htab

/-- `cga_putc` does what the terminal does. -/
theorem cgaPutc (h : Shows t s) (c : BitVec 32) : Shows (t.receive c) (cgaPutc c s) := by
  by_cases htab : c &&& 0xff#32 = 0x09#32
  · have hspaces := h.consPutc_space.consPutc_space.consPutc_space.consPutc_space.consPutc_space
    rw [← Terminal.receive_tab htab] at hspaces
    rw [FosKernel.cgaPutc]
    simp only [defaultAttribute_and, htab]
    exact of_settles (fun buf' pos' hs => hspaces.displays.settles hs) hspaces.written_lt
      hspaces.positions_lt
  · exact h.cgaPutc_of_not_tab htab

end Shows

/-! ## Any characters -/

namespace Crt

/-- Forget what was written so far. -/
def clearTrace (s : Crt) : Crt :=
  { s with written := [], positions := [] }

end Crt

/-- From any screen, with the position on it, and for any characters : no cell outside the screen
is written, the position is on the screen after every call, nested ones too, and the screen and
the position are those of the terminal. -/
theorem screen_refines (s : Crt) (hpos : s.crtPos.toNat < crtRows * crtCols)
    (cs : List (BitVec 32)) :
    Shows (cs.foldl Terminal.receive (TextTerminal.ofIndex s.crtBuf s.crtPos.toNat hpos))
      (cs.foldl (fun s c => cgaPutc c s) s.clearTrace) := by
  have hstart : Shows (TextTerminal.ofIndex s.crtBuf s.crtPos.toNat hpos) s.clearTrace :=
    ⟨TextTerminal.displays_ofIndex hpos, fun i hi => absurd hi List.not_mem_nil,
      fun p hp => absurd hp List.not_mem_nil, fun hne => absurd rfl hne⟩
  generalize TextTerminal.ofIndex s.crtBuf s.crtPos.toNat hpos = t at hstart
  generalize s.clearTrace = s at hstart
  induction cs generalizing s t with
  | nil => exact hstart
  | cons c cs ih => exact ih _ _ (hstart.cgaPutc c)

/-- An empty screen, with the position on the last cell. -/
def lastCell : Crt where
  crtBuf _ := 0#16
  crtPos := 1999#16
  cursorHigh := 0#8
  cursorLow := 0#8
  lpt := []
  written := []
  positions := []

/-- A letter, a tab and a newline on it. -/
theorem lastCell_refines :
    Shows ([0x41#32, 0x09#32, 0x0a#32].foldl Terminal.receive
        (TextTerminal.ofIndex lastCell.crtBuf lastCell.crtPos.toNat (by decide)))
      ([0x41#32, 0x09#32, 0x0a#32].foldl (fun s c => cgaPutc c s) lastCell.clearTrace) :=
  screen_refines lastCell (by decide) [0x41#32, 0x09#32, 0x0a#32]

end FosKernel
