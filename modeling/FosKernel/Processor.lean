import Mathlib.Data.BitVec
import Mathlib.Logic.Function.Basic

/-!
# A processor and its stack

The registers of a 32-bit processor, the words that it pushes and pops, and the instructions by
which an interrupt handler saves and restores the registers. Memory is by aligned word.

`Pushed` is what a number of pushes leaves : the words on the stack, and nothing else changed.
`Holds` reads words back, and `pop_of_holds` and `popal_of_holds` take them off again, so that
an entry sequence and a return sequence are followed instruction by instruction with the list of
words that is on the stack.
-/

namespace FosKernel

namespace Processor

/-! ## Words -/

/-- Memory, by the address of a word. -/
abbrev WordMemory := BitVec 32 → BitVec 32

/-- The `n` words from `a` up. -/
def readWords (m : WordMemory) : BitVec 32 → Nat → List (BitVec 32)
  | _, 0 => []
  | a, n + 1 => m a :: readWords m (a + 4#32) n

/-- The words from `a` up. -/
def Holds (m : WordMemory) (a : BitVec 32) (ws : List (BitVec 32)) : Prop :=
  readWords m a ws.length = ws

/-- Address `x` is in the `n` words from `a` up. -/
def Within (a : BitVec 32) (n : Nat) (x : BitVec 32) : Prop :=
  (x - a).toNat < 4 * n

instance (a : BitVec 32) (n : Nat) (x : BitVec 32) : Decidable (Within a n x) :=
  inferInstanceAs (Decidable ((x - a).toNat < 4 * n))

/-- The words from `a` up become the ones given. -/
def writeWords : WordMemory → BitVec 32 → List (BitVec 32) → WordMemory
  | m, _, [] => m
  | m, a, w :: ws => writeWords (Function.update m a w) (a + 4#32) ws

section Words

variable {m m' : WordMemory} {a b x w : BitVec 32} {ws : List (BitVec 32)} {n k : Nat}

theorem holds_cons : Holds m a (w :: ws) ↔ m a = w ∧ Holds m (a + 4#32) ws := by
  simp only [Holds, List.length_cons, readWords, List.cons.injEq]

theorem length_readWords : (readWords m a n).length = n := by
  induction n generalizing a with
  | zero => rfl
  | succ n ih => rw [readWords, List.length_cons, ih]

theorem holds_readWords : Holds m a (readWords m a n) := by
  rw [Holds, length_readWords]

theorem within_first : Within a (n + 1) a := by
  unfold Within
  bv_omega

theorem Within.up (h : Within (a + 4#32) n x) : Within a (n + 1) x := by
  unfold Within at *
  bv_omega

theorem Within.down (h : Within a n x) : Within (a - 4#32) (n + 1) x := by
  unfold Within at *
  bv_omega

theorem Within.mono (h : Within a n x) (hle : n ≤ k) : Within a k x := by
  unfold Within at *
  omega

/-- The word below is not in the words, unless they are all of memory. -/
theorem Within.ne_below (h : Within a n x) (hn : 4 * (n + 1) ≤ 4294967296) : x ≠ a - 4#32 := by
  rintro rfl
  unfold Within at h
  bv_omega

/-- The first word is not among the ones above. -/
theorem Within.ne_first (h : Within (a + 4#32) n x) (hn : 4 * (n + 1) ≤ 4294967296) : x ≠ a := by
  rintro rfl
  unfold Within at h
  bv_omega

theorem Holds.congr (h : Holds m a ws) (hm : ∀ x, Within a ws.length x → m' x = m x) :
    Holds m' a ws := by
  induction ws generalizing a with
  | nil => rfl
  | cons w ws ih =>
    obtain ⟨hfirst, hrest⟩ := holds_cons.1 h
    exact holds_cons.2 ⟨(hm a within_first).trans hfirst, ih hrest fun x hx => hm x hx.up⟩

theorem writeWords_of_not_within (h : ¬Within a ws.length x) : writeWords m a ws x = m x := by
  induction ws generalizing a m with
  | nil => rfl
  | cons w ws ih =>
    rw [writeWords, ih fun hc => h hc.up, Function.update_of_ne]
    rintro rfl
    exact h within_first

theorem holds_writeWords (hlength : 4 * ws.length ≤ 4294967296) :
    Holds (writeWords m a ws) a ws := by
  induction ws generalizing a m with
  | nil => rfl
  | cons w ws ih =>
    rw [List.length_cons] at hlength
    refine holds_cons.2 ⟨?_, ih (by omega)⟩
    rw [writeWords, writeWords_of_not_within fun hc => hc.ne_first hlength rfl,
      Function.update_self]

end Words

/-! ## Registers -/

/-- The registers that `pushal` saves, without the stack pointer. -/
structure GeneralRegs where
  edi : BitVec 32
  esi : BitVec 32
  ebp : BitVec 32
  ebx : BitVec 32
  edx : BitVec 32
  ecx : BitVec 32
  eax : BitVec 32
  deriving DecidableEq

/-- The registers of the processor. -/
structure Cpu where
  regs : GeneralRegs
  esp : BitVec 32
  eip : BitVec 32
  eflags : BitVec 32
  cs : BitVec 16
  ds : BitVec 16
  es : BitVec 16
  ss : BitVec 16
  deriving DecidableEq

/-- The processor with its memory. -/
structure Core where
  cpu : Cpu
  words : WordMemory

/-- The privilege level of a segment selector. -/
def rpl (selector : BitVec 16) : BitVec 16 :=
  selector &&& 3#16

/-- The segment registers that the handlers load. -/
inductive DataSegment where
  | ds
  | es

/-- What a handler does to save and restore the registers. -/
inductive Instr where
  | pushl (imm : BitVec 32)
  | pushSegment (s : DataSegment)
  | pushal
  | movAx (imm : BitVec 16)
  | movSegmentAx (s : DataSegment)
  | pushEsp
  | movEsp (a : BitVec 32)
  | popEcx
  | popal
  | popSegment (s : DataSegment)
  | addEsp (n : BitVec 32)
  | iret

namespace Core

variable (c : Core)

/-- The stack pointer becomes `a`. -/
def setEsp (a : BitVec 32) : Core :=
  { c with cpu := { c.cpu with esp := a } }

/-- A word goes on the stack. -/
def push (w : BitVec 32) : Core :=
  ⟨{ c.cpu with esp := c.cpu.esp - 4#32 }, Function.update c.words (c.cpu.esp - 4#32) w⟩

/-- A selector takes the low half of a word, and leaves the high half as it is. -/
def pushSelector (selector : BitVec 16) : Core :=
  c.push ((c.words (c.cpu.esp - 4#32)).extractLsb' 16 16 ++ selector)

/-- The word on top of the stack. -/
def top : BitVec 32 :=
  c.words c.cpu.esp

/-- The word on top of the stack goes. -/
def drop : Core :=
  c.setEsp (c.cpu.esp + 4#32)

/-- A segment register becomes `selector`. -/
def setSegment (s : DataSegment) (selector : BitVec 16) : Core :=
  match s with
  | .ds => { c with cpu := { c.cpu with ds := selector } }
  | .es => { c with cpu := { c.cpu with es := selector } }

/-- The selector in a segment register. -/
def segment (s : DataSegment) : BitVec 16 :=
  match s with
  | .ds => c.cpu.ds
  | .es => c.cpu.es

/-- The general registers become `regs`. -/
def setRegs (regs : GeneralRegs) : Core :=
  { c with cpu := { c.cpu with regs := regs } }

/-- `pushal`, which saves the stack pointer of before it. -/
def pushal : Core :=
  let r := c.cpu.regs
  (((((((c.push r.eax).push r.ecx).push r.edx).push r.ebx).push c.cpu.esp).push r.ebp).push
    r.esi).push r.edi

/-- The stack pointer that `pushal` saved is skipped. -/
def popal : Core :=
  let a := c.cpu.esp
  (c.setRegs
    { edi := c.words a
      esi := c.words (a + 4#32)
      ebp := c.words (a + 8#32)
      ebx := c.words (a + 16#32)
      edx := c.words (a + 20#32)
      ecx := c.words (a + 24#32)
      eax := c.words (a + 28#32) }).setEsp (a + 32#32)

/-- The stack pointer and segment come off the stack if the privilege level changes. -/
def iret : Core :=
  let a := c.cpu.esp
  let cs := (c.words (a + 4#32)).setWidth 16
  let cpu := { c.cpu with eip := c.words a, cs := cs, eflags := c.words (a + 8#32) }
  if rpl cs = rpl c.cpu.cs then { c with cpu := { cpu with esp := a + 12#32 } }
  else
    { c with
      cpu := { cpu with esp := c.words (a + 12#32), ss := (c.words (a + 16#32)).setWidth 16 } }

/-- The arithmetic flags that `add` sets are not followed. -/
def exec : Instr → Core
  | .pushl imm => c.push imm
  | .pushSegment s => c.pushSelector (c.segment s)
  | .pushal => c.pushal
  | .movAx imm =>
    c.setRegs { c.cpu.regs with eax := c.cpu.regs.eax.extractLsb' 16 16 ++ imm }
  | .movSegmentAx s => c.setSegment s (c.cpu.regs.eax.setWidth 16)
  | .pushEsp => c.push c.cpu.esp
  | .movEsp a => c.setEsp a
  | .popEcx => (c.setRegs { c.cpu.regs with ecx := c.top }).drop
  | .popal => c.popal
  | .popSegment s => (c.setSegment s (c.top.setWidth 16)).drop
  | .addEsp n => c.setEsp (c.cpu.esp + n)
  | .iret => c.iret

/-- The instructions one after the other. -/
def run (code : List Instr) : Core :=
  code.foldl exec c

end Core

/-! ## Interrupts -/

/-- Where an interrupt goes : the kernel's stack, its segments, and the handler. -/
structure Gate where
  esp0 : BitVec 32
  ss0 : BitVec 16
  cs : BitVec 16
  eip : BitVec 32

/-- Interrupts are off and the processor does not trace, in a handler. -/
def handlerFlags (eflags : BitVec 32) : BitVec 32 :=
  eflags &&& ~~~0x34300#32

namespace Core

/-- An interrupt, through a gate to privilege level 0. -/
def interrupt (g : Gate) (err : Option (BitVec 32)) (c : Core) : Core :=
  let c₁ :=
    if rpl c.cpu.cs = 0#16 then c
    else
      ((Core.mk { c.cpu with esp := g.esp0, ss := g.ss0 } c.words).pushSelector c.cpu.ss).push
        c.cpu.esp
  let c₂ := ((c₁.push c.cpu.eflags).pushSelector c.cpu.cs).push c.cpu.eip
  let c₃ := match err with
    | some code => c₂.push code
    | none => c₂
  { c₃ with cpu := { c₃.cpu with eip := g.eip, cs := g.cs, eflags := handlerFlags c.cpu.eflags } }

end Core

/-! ## What is on the stack -/

/-- The words were pushed, the last one first, and memory is otherwise as it was. -/
structure Pushed (m : WordMemory) (base : BitVec 32) (ws : List (BitVec 32)) (c : Core) : Prop where
  esp : c.cpu.esp = base - 4#32 * BitVec.ofNat 32 ws.length
  holds : Holds c.words c.cpu.esp ws
  frame : ∀ x, ¬Within c.cpu.esp ws.length x → c.words x = m x

section Stack

variable {m : WordMemory} {base a w x : BitVec 32} {ws : List (BitVec 32)} {c c' : Core}

theorem pushed_nil : Pushed c.words c.cpu.esp [] c :=
  ⟨by simp, rfl, fun _ _ => rfl⟩

theorem Pushed.of_eq (h : Pushed m base ws c) (hesp : c'.cpu.esp = c.cpu.esp)
    (hwords : c'.words = c.words) : Pushed m base ws c' := by
  obtain ⟨hbase, hholds, hframe⟩ := h
  rw [← hesp] at hbase hholds hframe
  rw [← hwords] at hholds hframe
  exact ⟨hbase, hholds, hframe⟩

theorem Pushed.push (h : Pushed m base ws c) (hroom : 4 * (ws.length + 1) ≤ 4294967296)
    (w : BitVec 32) : Pushed m base (w :: ws) (c.push w) := by
  have hup : c.cpu.esp - 4#32 + 4#32 = c.cpu.esp := by bv_omega
  refine ⟨?_, holds_cons.2 ⟨Function.update_self .., ?_⟩, fun x hx => ?_⟩
  · show c.cpu.esp - 4#32 = _
    rw [h.esp, List.length_cons]
    bv_omega
  · show Holds _ (c.cpu.esp - 4#32 + 4#32) ws
    rw [hup]
    exact h.holds.congr fun x hx => Function.update_of_ne (hx.ne_below hroom) _ _
  · have hne : x ≠ c.cpu.esp - 4#32 := by
      rintro rfl
      exact hx within_first
    exact (Function.update_of_ne hne _ _).trans (h.frame x fun hc => hx hc.down)

theorem Pushed.pushSelector (h : Pushed m base ws c) (hroom : 4 * (ws.length + 1) ≤ 4294967296)
    (selector : BitVec 16) :
    ∃ padding : BitVec 16, Pushed m base ((padding ++ selector) :: ws) (c.pushSelector selector) :=
  ⟨_, h.push hroom _⟩

theorem Pushed.pushal (h : Pushed m base ws c) (hroom : 4 * (ws.length + 8) ≤ 4294967296) :
    Pushed m base (c.cpu.regs.edi :: c.cpu.regs.esi :: c.cpu.regs.ebp :: c.cpu.esp ::
      c.cpu.regs.ebx :: c.cpu.regs.edx :: c.cpu.regs.ecx :: c.cpu.regs.eax :: ws) c.pushal := by
  have hlen : ∀ k ≤ 8, 4 * (ws.length + k) ≤ 4294967296 := fun k hk => by omega
  have hacd := ((h.push (hlen 1 (by decide)) c.cpu.regs.eax).push (hlen 2 (by decide))
    c.cpu.regs.ecx).push (hlen 3 (by decide)) c.cpu.regs.edx
  have hbsp := ((hacd.push (hlen 4 (by decide)) c.cpu.regs.ebx).push (hlen 5 (by decide))
    c.cpu.esp).push (hlen 6 (by decide)) c.cpu.regs.ebp
  exact (hbsp.push (hlen 7 (by decide)) c.cpu.regs.esi).push (hlen 8 le_rfl) c.cpu.regs.edi

theorem Pushed.top (h : Pushed m base (w :: ws) c) : c.top = w :=
  (holds_cons.1 h.holds).1

/-- A selector is the low half of its word. -/
theorem setWidth_append_selector (padding selector : BitVec 16) :
    (padding ++ selector : BitVec 32).setWidth 16 = selector := by
  rw [BitVec.setWidth_append, dif_pos le_rfl]
  simp

/-- What an interrupt of a lower privilege level leaves on the kernel's stack. -/
theorem interrupt_pushed_user (g : Gate) (err : Option (BitVec 32)) (h : rpl c.cpu.cs ≠ 0#16) :
    ∃ padding padding' : BitVec 16, Pushed c.words g.esp0 (err.toList ++
      [c.cpu.eip, padding ++ c.cpu.cs, c.cpu.eflags, c.cpu.esp, padding' ++ c.cpu.ss])
      (c.interrupt g err) := by
  have hstart : Pushed c.words g.esp0 [] ⟨{ c.cpu with esp := g.esp0, ss := g.ss0 }, c.words⟩ :=
    pushed_nil (c := ⟨{ c.cpu with esp := g.esp0, ss := g.ss0 }, c.words⟩)
  obtain ⟨padding', hss⟩ := hstart.pushSelector (by simp) c.cpu.ss
  obtain ⟨padding, hcs⟩ :=
    ((hss.push (by simp) c.cpu.esp).push (by simp) c.cpu.eflags).pushSelector (by simp)
      c.cpu.cs
  have heip := hcs.push (by simp) c.cpu.eip
  refine ⟨padding, padding', ?_⟩
  cases err with
  | none => exact heip.of_eq (by rw [Core.interrupt, if_neg h]) (by rw [Core.interrupt, if_neg h])
  | some code =>
    exact (heip.push (by simp) code).of_eq (by rw [Core.interrupt, if_neg h])
      (by rw [Core.interrupt, if_neg h])

/-- An interrupt of the kernel stays on its stack. -/
theorem interrupt_pushed_kernel (g : Gate) (err : Option (BitVec 32)) (h : rpl c.cpu.cs = 0#16) :
    ∃ padding : BitVec 16, Pushed c.words c.cpu.esp (err.toList ++
      [c.cpu.eip, padding ++ c.cpu.cs, c.cpu.eflags]) (c.interrupt g err) := by
  have hflags : Pushed c.words c.cpu.esp [c.cpu.eflags] (c.push c.cpu.eflags) :=
    pushed_nil.push (by simp) c.cpu.eflags
  obtain ⟨padding, hcs⟩ := hflags.pushSelector (by simp) c.cpu.cs
  have heip := hcs.push (by simp) c.cpu.eip
  refine ⟨padding, ?_⟩
  cases err with
  | none => exact heip.of_eq (by rw [Core.interrupt, if_pos h]) (by rw [Core.interrupt, if_pos h])
  | some code =>
    exact (heip.push (by simp) code).of_eq (by rw [Core.interrupt, if_pos h])
      (by rw [Core.interrupt, if_pos h])

end Stack

end Processor

end FosKernel
