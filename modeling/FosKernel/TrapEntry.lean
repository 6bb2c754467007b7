import FosKernel.Processor

/-!
# Trap entry and return

`kern/trapentry.S` and `env_pop_tf` of `kern/user_environment.c`. A handler pushes the number of
its trap, below an error code, and `_alltraps` pushes the registers. That is a `struct Trapframe`
of what the processor was doing (`entry_user`, `entry_kernel`), and its address is the argument of
`trap`. `env_pop_tf` takes such a frame for a stack, and pops the registers off it
(`run_envPopTf`), which is also what the code after `call trap` would do (`run_alltrapsReturn`).

`inc/trap.h` is not with the sources. The fields of the frame are in the order of the pushes, with
the high halves of the words that a selector is pushed to as padding.
-/

namespace FosKernel

open Processor

/-! ## The code -/

/-- `TRAPHANDLER`. -/
def trapHandler (num : BitVec 32) : List Instr :=
  [.pushl num]

/-- `TRAPHANDLER_NOEC`. -/
def trapHandlerNoEc (num : BitVec 32) : List Instr :=
  [.pushl 0#32, .pushl num]

/-- `_alltraps`, up to `call trap`. -/
def alltraps (gdKd : BitVec 16) : List Instr :=
  [.pushSegment .ds, .pushSegment .es, .pushal, .movAx gdKd, .movSegmentAx .ds, .movSegmentAx .es,
    .pushEsp]

/-- `_alltraps`, after `call trap`. -/
def alltrapsReturn : List Instr :=
  [.popEcx, .popal, .popSegment .es, .popSegment .ds, .addEsp 8#32, .iret]

/-- `env_pop_tf(tf)`. -/
def envPopTf (tf : BitVec 32) : List Instr :=
  [.movEsp tf, .popal, .popSegment .es, .popSegment .ds, .addEsp 8#32, .iret]

/-- The handler of trap `num` : the ones of traps with an error code push none. -/
def handlerOf (num : BitVec 32) (err : Option (BitVec 32)) : List Instr :=
  if err.isSome then trapHandler num else trapHandlerNoEc num

/-! ## The frame -/

/-- `struct Trapframe`. -/
structure TrapFrame where
  tfRegs : GeneralRegs
  tfEs : BitVec 16
  tfDs : BitVec 16
  tfTrapno : BitVec 32
  tfErr : BitVec 32
  tfEip : BitVec 32
  tfCs : BitVec 16
  tfEflags : BitVec 32
  tfEsp : BitVec 32
  tfSs : BitVec 16
  deriving DecidableEq

namespace TrapFrame

/-- The words of a frame. -/
def size : Nat := 17

/-- The frame at `a`. -/
def read (m : WordMemory) (a : BitVec 32) : TrapFrame where
  tfRegs :=
    { edi := m a
      esi := m (a + 4#32)
      ebp := m (a + 8#32)
      ebx := m (a + 16#32)
      edx := m (a + 20#32)
      ecx := m (a + 24#32)
      eax := m (a + 28#32) }
  tfEs := (m (a + 32#32)).setWidth 16
  tfDs := (m (a + 36#32)).setWidth 16
  tfTrapno := m (a + 40#32)
  tfErr := m (a + 44#32)
  tfEip := m (a + 48#32)
  tfCs := (m (a + 52#32)).setWidth 16
  tfEflags := m (a + 56#32)
  tfEsp := m (a + 60#32)
  tfSs := (m (a + 64#32)).setWidth 16

/-- The registers that the frame is of. -/
def cpu (tf : TrapFrame) : Cpu where
  regs := tf.tfRegs
  esp := tf.tfEsp
  eip := tf.tfEip
  eflags := tf.tfEflags
  cs := tf.tfCs
  ds := tf.tfDs
  es := tf.tfEs
  ss := tf.tfSs

/-- A trap of the kernel has no stack pointer in its frame : it is above it. -/
def kernelCpu (tf : TrapFrame) (a : BitVec 32) (ss : BitVec 16) : Cpu :=
  { tf.cpu with esp := a + 60#32, ss := ss }

/-- The frame of a trap at `cpu`. -/
def of (cpu : Cpu) (num err : BitVec 32) : TrapFrame where
  tfRegs := cpu.regs
  tfEs := cpu.es
  tfDs := cpu.ds
  tfTrapno := num
  tfErr := err
  tfEip := cpu.eip
  tfCs := cpu.cs
  tfEflags := cpu.eflags
  tfEsp := cpu.esp
  tfSs := cpu.ss

@[simp] theorem cpu_of (cpu : Cpu) (num err : BitVec 32) : (of cpu num err).cpu = cpu :=
  rfl

variable {m m' : WordMemory} {a b : BitVec 32}

theorem read_congr (h : readWords m' b size = readWords m a size) : read m' b = read m a := by
  simp only [size, readWords, BitVec.add_assoc, BitVec.reduceAdd, List.cons.injEq] at h
  simp only [read, h]

end TrapFrame

/-! ## Return -/

section Return

variable {c : Core} {tf : BitVec 32}

/-- `env_pop_tf` to the user gives the registers of the frame. -/
theorem run_envPopTf_user (hcs : rpl (TrapFrame.read c.words tf).tfCs ≠ rpl c.cpu.cs) :
    c.run (envPopTf tf) = ⟨(TrapFrame.read c.words tf).cpu, c.words⟩ := by
  simp only [TrapFrame.read] at hcs
  simp only [Core.run, envPopTf, List.foldl_cons, List.foldl_nil, Core.exec, Core.popal,
    Core.setEsp, Core.setRegs, Core.setSegment, Core.top, Core.drop, Core.iret, BitVec.add_assoc,
    BitVec.reduceAdd, if_neg hcs, TrapFrame.read, TrapFrame.cpu]

/-- `env_pop_tf` to the kernel stays on the stack that the frame is on. -/
theorem run_envPopTf_kernel (hcs : rpl (TrapFrame.read c.words tf).tfCs = rpl c.cpu.cs) :
    c.run (envPopTf tf) =
      ⟨(TrapFrame.read c.words tf).kernelCpu tf c.cpu.ss, c.words⟩ := by
  simp only [TrapFrame.read] at hcs
  simp only [Core.run, envPopTf, List.foldl_cons, List.foldl_nil, Core.exec, Core.popal,
    Core.setEsp, Core.setRegs, Core.setSegment, Core.top, Core.drop, Core.iret, BitVec.add_assoc,
    BitVec.reduceAdd, if_pos hcs, TrapFrame.read, TrapFrame.cpu, TrapFrame.kernelCpu]

theorem words_run_envPopTf : (c.run (envPopTf tf)).words = c.words := by
  by_cases hcs : rpl (TrapFrame.read c.words tf).tfCs = rpl c.cpu.cs
  · rw [run_envPopTf_kernel hcs]
  · rw [run_envPopTf_user hcs]

/-- If `trap` did return, it would be to the frame that it was called with. -/
theorem run_alltrapsReturn (htop : c.cpu.esp + 4#32 = tf) :
    c.run alltrapsReturn = c.run (envPopTf tf) := by
  subst htop
  simp only [Core.run, envPopTf, alltrapsReturn, List.foldl_cons, List.foldl_nil, Core.exec,
    Core.popal, Core.setEsp, Core.setRegs, Core.setSegment, Core.drop]

end Return

/-! ## Entry -/

section Entry

variable {m : WordMemory} {base num : BitVec 32} {ws : List (BitVec 32)} {c : Core}
  {gdKd : BitVec 16}

/-- The words that `_alltraps` pushes below `ws`, and the pointer to them. -/
def savedWords (cpu : Cpu) (esp tf : BitVec 32) (padding padding' : BitVec 16)
    (ws : List (BitVec 32)) : List (BitVec 32) :=
  tf :: cpu.regs.edi :: cpu.regs.esi :: cpu.regs.ebp :: esp :: cpu.regs.ebx :: cpu.regs.edx ::
    cpu.regs.ecx :: cpu.regs.eax :: (padding ++ cpu.es) :: (padding' ++ cpu.ds) :: ws

theorem Processor.Pushed.alltraps (h : Pushed m base ws c)
    (hroom : 4 * (ws.length + 11) ≤ 4294967296) (gdKd : BitVec 16) :
    ∃ esp tf padding padding',
      Pushed m base (savedWords c.cpu esp tf padding padding' ws) (c.run (alltraps gdKd)) ∧
      tf = (c.run (alltraps gdKd)).cpu.esp + 4#32 := by
  obtain ⟨padding', hds⟩ := h.pushSelector (by omega) c.cpu.ds
  obtain ⟨padding, hes⟩ := hds.pushSelector (by simp only [List.length_cons]; omega) c.cpu.es
  have hregs := hes.pushal (by simp only [List.length_cons]; omega)
  -- the segments that are loaded are not pushed
  have hloaded : Pushed m base _
      ((((c.pushSelector c.cpu.ds).pushSelector c.cpu.es).pushal.exec (.movAx gdKd)).exec
        (.movSegmentAx .ds) |>.exec (.movSegmentAx .es)) := hregs.of_eq rfl rfl
  have htf := hloaded.push (by simp only [List.length_cons]; omega)
    ((c.pushSelector c.cpu.ds).pushSelector c.cpu.es).pushal.cpu.esp
  exact ⟨_, _, padding, padding', htf, (BitVec.sub_add_cancel _ _).symm⟩

/-- The stubs complete what the processor pushed. -/
theorem Processor.Pushed.handlerOf {err : Option (BitVec 32)}
    (h : Pushed m base (err.toList ++ ws) c) (hroom : 4 * (ws.length + 2) ≤ 4294967296)
    (num : BitVec 32) :
    Pushed m base (num :: err.getD 0#32 :: ws) (c.run (handlerOf num err)) := by
  cases err with
  | none =>
    have hws : Pushed m base ws c := h
    exact (hws.push (by omega) 0#32).push (by simp only [List.length_cons]; omega) num
  | some code =>
    have hws : Pushed m base (code :: ws) c := h
    exact hws.push (by simp only [List.length_cons]; omega) num

/-- The processor and the handler have pushed a frame, and memory is otherwise as it was. -/
structure Entered (m : WordMemory) (base : BitVec 32) (n : Nat) (frame : TrapFrame) (c : Core) :
    Prop where
  esp : c.cpu.esp = base - 4#32 * BitVec.ofNat 32 n
  top : c.top = c.cpu.esp + 4#32
  frame : TrapFrame.read c.words c.top = frame
  words : ∀ x, ¬Within c.cpu.esp n x → c.words x = m x

/-- The entry code of a trap. -/
def enter (g : Gate) (num : BitVec 32) (err : Option (BitVec 32)) (c : Core) : Core :=
  ((c.interrupt g err).run (handlerOf num err)).run (alltraps g.ss0)

/-- The stubs, and the jump to the handler, leave the registers alone that `_alltraps` saves. -/
theorem savedWords_interrupt (g : Gate) (num : BitVec 32) (err : Option (BitVec 32)) (c : Core)
    (esp tf : BitVec 32) (padding padding' : BitVec 16) (ws : List (BitVec 32)) :
    savedWords ((c.interrupt g err).run (handlerOf num err)).cpu esp tf padding padding' ws =
      savedWords c.cpu esp tf padding padding' ws := by
  unfold Core.interrupt
  split_ifs <;> cases err <;> rfl

/-- The words that are on the stack are the fields of the frame, but for the last two. -/
theorem entered_of_pushed {esp tf err : BitVec 32} {padding padding' padding₃ : BitVec 16}
    {cpu : Cpu} (h : Pushed m base (savedWords cpu esp tf padding padding'
      (num :: err :: cpu.eip :: (padding₃ ++ cpu.cs) :: cpu.eflags :: ws)) c)
    (htf : tf = c.cpu.esp + 4#32) :
    Entered m base (ws.length + 16)
      { TrapFrame.of cpu num err with
        tfEsp := c.words (c.cpu.esp + 64#32)
        tfSs := (c.words (c.cpu.esp + 68#32)).setWidth 16 } c ∧
    Holds c.words (c.cpu.esp + 64#32) ws := by
  have htop : c.top = c.cpu.esp + 4#32 := h.top.trans htf
  obtain ⟨hesp, hholds, hframe⟩ := h
  simp only [savedWords, List.length_cons] at hesp hframe
  simp only [savedWords, holds_cons, BitVec.add_assoc, BitVec.reduceAdd] at hholds
  obtain ⟨-, hedi, hesi, hebp, -, hebx, hedx, hecx, heax, hes, hds, htrapno, herr, heip, hcs,
    heflags, hrest⟩ := hholds
  refine ⟨⟨hesp, htop, ?_, hframe⟩, hrest⟩
  simp only [TrapFrame.read, TrapFrame.of, htop, BitVec.add_assoc, BitVec.reduceAdd, hedi, hesi,
    hebp, hebx, hedx, hecx, heax, hes, hds, htrapno, herr, heip, hcs, heflags,
    setWidth_append_selector]

/-- A trap of the user : its registers are in a frame on top of the kernel's stack. -/
theorem entered_user (g : Gate) (num : BitVec 32) (err : Option (BitVec 32))
    (hcs : rpl c.cpu.cs ≠ 0#16) :
    Entered c.words g.esp0 18 (TrapFrame.of c.cpu num (err.getD 0#32)) (enter g num err c) := by
  obtain ⟨padding, padding', hpushed⟩ := interrupt_pushed_user g err hcs
  obtain ⟨esp, tf, p₁, p₂, hall, htf⟩ :=
    (hpushed.handlerOf (by simp) num).alltraps (by simp) g.ss0
  rw [savedWords_interrupt] at hall
  obtain ⟨⟨hesp, htop, hframe, hwords⟩, hrest⟩ := entered_of_pushed hall htf
  refine ⟨hesp, htop, hframe.trans ?_, hwords⟩
  -- the processor pushed the stack pointer and its segment
  obtain ⟨hsp, hss⟩ := holds_cons.1 hrest
  obtain ⟨hss, -⟩ := holds_cons.1 hss
  simp only [BitVec.add_assoc, BitVec.reduceAdd] at hss
  rw [hsp, hss, setWidth_append_selector]
  rfl

/-- A trap of the kernel : the registers are in a frame below its stack pointer, but for the
stack pointer itself. -/
theorem entered_kernel (g : Gate) (num : BitVec 32) (err : Option (BitVec 32))
    (hcs : rpl c.cpu.cs = 0#16) :
    ∃ tfEsp tfSs, Entered c.words c.cpu.esp 16
      { TrapFrame.of c.cpu num (err.getD 0#32) with tfEsp := tfEsp, tfSs := tfSs }
      (enter g num err c) := by
  obtain ⟨padding, hpushed⟩ := interrupt_pushed_kernel g err hcs
  obtain ⟨esp, tf, p₁, p₂, hall, htf⟩ :=
    (hpushed.handlerOf (by simp) num).alltraps (by simp) g.ss0
  rw [savedWords_interrupt] at hall
  exact ⟨_, _, (entered_of_pushed hall htf).1⟩

theorem run_alltraps_segments (c : Core) : (c.run (alltraps gdKd)).cpu.cs = c.cpu.cs ∧
    (c.run (alltraps gdKd)).cpu.ss = c.cpu.ss :=
  ⟨rfl, rfl⟩

/-- The handler runs in the kernel. -/
theorem enter_cs (g : Gate) (num : BitVec 32) (err : Option (BitVec 32)) (c : Core) :
    (enter g num err c).cpu.cs = g.cs := by
  have hhandler : ((c.interrupt g err).run (handlerOf num err)).cpu.cs = g.cs := by
    unfold Core.interrupt
    cases err <;> rfl
  exact (run_alltraps_segments _).1.trans hhandler

/-- A kernel that is interrupted stays on its stack. -/
theorem enter_ss (g : Gate) (num : BitVec 32) (err : Option (BitVec 32))
    (hcs : rpl c.cpu.cs = 0#16) : (enter g num err c).cpu.ss = c.cpu.ss := by
  have hinterrupt : (c.interrupt g err).cpu.ss = c.cpu.ss := by
    unfold Core.interrupt
    cases err <;> rw [if_pos hcs] <;> rfl
  have hhandler : ((c.interrupt g err).run (handlerOf num err)).cpu.ss =
      (c.interrupt g err).cpu.ss := by
    cases err <;> rfl
  exact (run_alltraps_segments _).2.trans (hhandler.trans hinterrupt)

end Entry

end FosKernel
