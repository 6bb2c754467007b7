import FosKernel.Machine
import FosKernel.SchedulerPlaces
import FosKernel.TrapEntry

/-!
# Context switches

`trap` and `trap_dispatch` of `trap.c`, with `env_run` of `kern/user_environment.c` and
`clock_interrupt_handler` of `sched.c`. A trap of the user is copied from the kernel's stack to
`curenv->env_tf`, and the kernel leaves for the user by `env_run` only : of the same environment,
with the value of a system call in `%eax` or the faulting instruction skipped, or of the one that
the scheduler has selected. A trap of the kernel goes back to where it was.

What handles a page fault and a system call is a parameter, `Services`, that works on the rest of
the kernel. The layout of `struct Env` and the numbers of the traps, in headers that are not with
the sources, are parameters too. The clock chip, and the counts `nClocks` and `env_runs`, are left
out.
-/

namespace FosKernel

open Processor

/-! ## The code -/

/-- Where things are in kernel memory, and the numbers of the traps. -/
structure TrapLayout where
  tPgflt : BitVec 32
  tDblflt : BitVec 32
  tSyscall : BitVec 32
  irq0Clock : BitVec 32
  /-- `ts_esp0`, `GD_KD`, and the handlers with `GD_KT`. -/
  gate : Gate
  stackWords : Nat
  nenv : Nat
  /-- `&envs[e].env_tf`. -/
  envTf : Nat → BitVec 32
  tSyscall_ne_tPgflt : tSyscall ≠ tPgflt
  irq0Clock_ne_tPgflt : irq0Clock ≠ tPgflt
  irq0Clock_ne_tSyscall : irq0Clock ≠ tSyscall
  gate_kernel : rpl gate.cs = 0#16
  stackWords_ge : 18 ≤ stackWords
  stackWords_lt : 4 * stackWords < 4294967296

namespace TrapLayout

variable (L : TrapLayout)

/-- The bottom of the kernel's stack. -/
def stackBottom : BitVec 32 :=
  L.gate.esp0 - 4#32 * BitVec.ofNat 32 L.stackWords

/-- How far an address is above the bottom of the kernel's stack. -/
def height (x : BitVec 32) : Nat :=
  (x - L.stackBottom).toNat

/-- The frames of the environments are apart from each other and from the kernel's stack. -/
structure Apart : Prop where
  envTf : ∀ e < L.nenv, ∀ e' < L.nenv, e ≠ e' →
    ∀ x, Within (L.envTf e) TrapFrame.size x → ¬Within (L.envTf e') TrapFrame.size x
  stack : ∀ e < L.nenv, ∀ x, Within (L.envTf e) TrapFrame.size x → 4 * L.stackWords ≤ L.height x

end TrapLayout

/-- What `trap_dispatch` calls, on the rest of the kernel. -/
structure Services (M : Type) where
  /-- `fault_handler`, and the aging of the working set before it. -/
  faultHandler (userTrap : Bool) (curenv : Option Nat) (cr2 : BitVec 32) (unset : Nat) :
    M → Option M
  syscall (curenv : Option Nat) (syscallno a1 a2 a3 a4 a5 : BitVec 32) (unset : Nat) :
    M → Option (BitVec 32 × M)
  /-- The aging of the working set in `clock_interrupt_handler`. -/
  clockInterrupt (curenv : Option Nat) : M → Option M

/-- The processor, and what the kernel has in memory. -/
structure KernelState (M : Type) where
  core : Core
  cr2 : BitVec 32
  sched : Sched Nat
  /-- The environments whose `env_status` is `ENV_RUNNABLE`. -/
  runnable : Nat → Bool
  bypassInstrLength : BitVec 8
  rest : M

/-- What `trap_dispatch` comes to : it returns, or has gone to run an environment. -/
inductive Dispatched (M : Type) where
  | returned (k : KernelState M)
  | gone (k : KernelState M)

/-- A trap, with what the processor says of it, what the compiled C code leaves on the stack below
it, and a variable of the handlers that is not set. -/
structure Trap where
  num : BitVec 32
  err : Option (BitVec 32)
  cr2 : BitVec 32
  junk : WordMemory
  unset : Nat

namespace KernelState

variable {M : Type} (L : TrapLayout) (S : Services M) (k : KernelState M)

/-- Memory becomes `words`. -/
def setWords (words : WordMemory) : KernelState M :=
  { k with core := { k.core with words := words } }

/-- The registers become `cpu`. -/
def setCpu (cpu : Cpu) : KernelState M :=
  { k with core := { k.core with cpu := cpu } }

/-- `env_pop_tf`. -/
def envPopTf (tf : BitVec 32) : KernelState M :=
  { k with core := k.core.run (FosKernel.envPopTf tf) }

/-- `env_run`. -/
def envRun (e : Nat) : KernelState M :=
  { k with sched := { k.sched with curenv := some e } }.envPopTf (L.envTf e)

/-- `fos_scheduler`, with the switch at its end. The command prompt does not return. -/
def schedule : Option (KernelState M) :=
  k.sched.fosScheduler.map fun sched =>
    match sched.curenv with
    | some e => { k with sched := sched }.envRun L e
    | none => { k with sched := sched }

/-- `clock_interrupt_handler`. -/
def clockInterruptHandler : Option (KernelState M) :=
  (S.clockInterrupt k.sched.curenv k.rest).bind fun rest => { k with rest := rest }.schedule L

/-- `trap_dispatch`. -/
def trapDispatch (unset : Nat) (tf : BitVec 32) : Option (Dispatched M) :=
  let frame := TrapFrame.read k.core.words tf
  let regs := frame.tfRegs
  if frame.tfTrapno = L.tPgflt then
    (S.faultHandler (rpl frame.tfCs = 3#16) k.sched.curenv k.cr2 unset k.rest).map fun rest =>
      .returned { k with rest := rest }
  else if frame.tfTrapno = L.tSyscall then
    (S.syscall k.sched.curenv regs.eax regs.edx regs.ecx regs.ebx regs.edi regs.esi
        unset k.rest).map
      fun r => .returned
        ({ k with rest := r.2 }.setWords (Function.update k.core.words (tf + 28#32) r.1))
  else if frame.tfTrapno = L.tDblflt then none
  else if frame.tfTrapno = L.irq0Clock then (k.clockInterruptHandler L S).map .gone
  else if frame.tfCs = L.gate.cs then none
  else some (.returned k)

/-- `tf->tf_eip += bypassInstrLength`. -/
def bypass (tf : BitVec 32) : KernelState M :=
  k.setWords (Function.update k.core.words (tf + 48#32)
    (k.core.words (tf + 48#32) + k.bypassInstrLength.setWidth 32))

/-- `trap`, once `tf` is the copy in `curenv` if it is a trap of the user. -/
def trapWith (userTrap : Bool) (unset : Nat) (tf : BitVec 32) : Option (KernelState M) :=
  if (TrapFrame.read k.core.words tf).tfTrapno = L.tPgflt ∧ k.bypassInstrLength ≠ 0#8 then
    if userTrap then k.sched.curenv.map ((k.bypass tf).envRun L)
    else some ((k.bypass tf).envPopTf tf)
  else
    (k.trapDispatch L S unset tf).bind fun d =>
      match d with
      | .gone k => some k
      | .returned k =>
        if userTrap then
          k.sched.curenv.bind fun cur => if k.runnable cur then some (k.envRun L cur) else none
        else some (k.envPopTf tf)

/-- `trap`. -/
def trap (unset : Nat) (tf : BitVec 32) : Option (KernelState M) :=
  if rpl (TrapFrame.read k.core.words tf).tfCs = 3#16 then
    k.sched.curenv.bind fun cur =>
      (k.setWords (writeWords k.core.words (L.envTf cur)
        (readWords k.core.words tf TrapFrame.size))).trapWith L S true unset (L.envTf cur)
  else k.trapWith L S false unset tf

/-- The frames of C functions, below the stack pointer. -/
def cFrames (junk : WordMemory) : KernelState M :=
  k.setWords fun x => if L.height x < L.height k.core.cpu.esp then junk x else k.core.words x

/-- The processor takes a trap, and the kernel handles it. -/
def takeTrap (t : Trap) : Option (KernelState M) :=
  let core := enter L.gate t.num t.err k.core
  let cr2 := if t.num = L.tPgflt then t.cr2 else k.cr2
  ({ k with core := core, cr2 := cr2 }.cFrames L t.junk).trap L S t.unset core.top

end KernelState

/-! ## Frames in memory -/

namespace TrapFrame

variable {m m' : WordMemory} {a : BitVec 32}

/-- A frame depends on its words only. -/
theorem read_eq_of_within (h : ∀ x, Within a size x → m' x = m x) : read m' a = read m a := by
  have hwords : Holds m' a (readWords m a size) := by
    refine holds_readWords.congr fun x hx => h x ?_
    rwa [length_readWords] at hx
  refine read_congr ?_
  rw [Holds, length_readWords] at hwords
  exact hwords

/-- `curenv->env_tf = *tf`. -/
theorem read_writeWords (m : WordMemory) (a tf : BitVec 32) :
    read (writeWords m a (readWords m tf size)) a = read m tf := by
  have hlength : (readWords m tf size).length = size := length_readWords
  have hholds : Holds (writeWords m a (readWords m tf size)) a (readWords m tf size) :=
    holds_writeWords (by rw [hlength]; decide)
  refine read_congr ?_
  rw [Holds, hlength] at hholds
  exact hholds

theorem within_field {n : BitVec 32} (h : n.toNat < 4 * size) : Within a size (a + n) := by
  unfold Within
  have hsub : a + n - a = n := by bv_omega
  rwa [hsub]

theorem read_eax (m : WordMemory) (a w : BitVec 32) : read (Function.update m (a + 28#32) w) a =
    { read m a with tfRegs := { (read m a).tfRegs with eax := w } } := by
  simp [read]

theorem read_eip (m : WordMemory) (a w : BitVec 32) : read (Function.update m (a + 48#32) w) a =
    { read m a with tfEip := w } := by
  simp [read]

end TrapFrame

/-! ## The kernel's stack -/

namespace TrapLayout

variable {L : TrapLayout} {base x : BitVec 32} {n : Nat}

theorem height_esp0 (L : TrapLayout) : L.height L.gate.esp0 = 4 * L.stackWords := by
  have hlt := L.stackWords_lt
  unfold height stackBottom
  bv_omega

theorem height_sub (h : 4 * n ≤ L.height base) :
    L.height (base - 4#32 * BitVec.ofNat 32 n) = L.height base - 4 * n := by
  unfold height at *
  bv_omega

theorem height_of_within (hx : Within base n x) (h : L.height base + 4 * n ≤ 4294967296) :
    L.height base ≤ L.height x ∧ L.height x < L.height base + 4 * n := by
  unfold height Within at *
  bv_omega

end TrapLayout

/-! ## A trap of the user -/

namespace KernelState

variable {M : Type} {L : TrapLayout} {S : Services M} {k k' : KernelState M} {cur unset : Nat}
  {tf : BitVec 32} {t : Trap}

/-- The registers that environment `e` has in its `env_tf`. -/
def savedCpu (L : TrapLayout) (k : KernelState M) (e : Nat) : Cpu :=
  (TrapFrame.read k.core.words (L.envTf e)).cpu

/-- What the kernel does about a trap of environment `cur` : the registers that it resumes with,
and the scheduler and the rest of the kernel after. -/
inductive Handled (L : TrapLayout) (S : Services M) (cur : Nat) (t : Trap) (length : BitVec 8)
    (cpu : Cpu) (sched : Sched Nat) (rest : M) : Cpu → Sched Nat → M → Prop where
  | bypassed (hnum : t.num = L.tPgflt) (hlength : length ≠ 0#8) :
    Handled L S cur t length cpu sched rest { cpu with eip := cpu.eip + length.setWidth 32 } sched
      rest
  | fault {rest' : M} (hnum : t.num = L.tPgflt) (hlength : length = 0#8)
    (hfault : S.faultHandler true (some cur) t.cr2 t.unset rest = some rest') :
    Handled L S cur t length cpu sched rest cpu sched rest'
  | syscall {ret : BitVec 32} {rest' : M} (hnum : t.num = L.tSyscall)
    (hsyscall : S.syscall (some cur) cpu.regs.eax cpu.regs.edx cpu.regs.ecx cpu.regs.ebx
      cpu.regs.edi cpu.regs.esi t.unset rest = some (ret, rest')) :
    Handled L S cur t length cpu sched rest { cpu with regs := { cpu.regs with eax := ret } } sched
      rest'
  | clock {sched' : Sched Nat} {rest' : M} (hnum : t.num = L.irq0Clock)
    (hclock : S.clockInterrupt (some cur) rest = some rest')
    (hschedule : sched.fosScheduler = some sched') :
    Handled L S cur t length cpu sched rest cpu sched' rest'
  | other (hfault : t.num ≠ L.tPgflt) (hsyscall : t.num ≠ L.tSyscall)
    (hclock : t.num ≠ L.irq0Clock) : Handled L S cur t length cpu sched rest cpu sched rest

/-- The registers that `env_run` gives to an environment. -/
theorem core_envRun {e : Nat} (hkernel : rpl k.core.cpu.cs = 0#16)
    (huser : rpl (savedCpu L k e).cs ≠ 0#16) :
    (k.envRun L e).core = ⟨savedCpu L k e, k.core.words⟩ := by
  have hne : rpl (TrapFrame.read k.core.words (L.envTf e)).tfCs ≠ rpl k.core.cpu.cs := by
    rw [hkernel]
    exact huser
  exact run_envPopTf_user hne

/-- The environment that runs has the registers of its frame. -/
def Resumes (L : TrapLayout) (k : KernelState M) : Prop :=
  ∀ e, k.sched.curenv = some e → rpl (savedCpu L k e).cs ≠ 0#16 → k.core.cpu = savedCpu L k e

theorem resumes_envRun {e : Nat} (hkernel : rpl k.core.cpu.cs = 0#16) :
    Resumes L (k.envRun L e) ∧ (k.envRun L e).core.words = k.core.words := by
  have hwords : (k.envRun L e).core.words = k.core.words := words_run_envPopTf
  refine ⟨fun e' he huser => ?_, hwords⟩
  obtain rfl := Option.some.inj he
  rw [savedCpu, hwords] at huser ⊢
  exact congrArg Core.cpu (core_envRun hkernel huser)

/-- The frame in `curenv` is what the environment resumes with, and the other words are kept. -/
structure Saved (L : TrapLayout) (S : Services M) (cur : Nat) (t : Trap) (cpu : Cpu)
    (k k' : KernelState M) : Prop where
  handled : Handled L S cur t k.bypassInstrLength cpu k.sched k.rest (savedCpu L k' cur) k'.sched
    k'.rest
  words : ∀ x, ¬Within (L.envTf cur) TrapFrame.size x → k'.core.words x = k.core.words x
  length : k'.bypassInstrLength = k.bypassInstrLength

theorem words_setField {n w x : BitVec 32} (hn : n.toNat < 4 * TrapFrame.size)
    (hx : ¬Within (L.envTf cur) TrapFrame.size x) :
    Function.update k.core.words (L.envTf cur + n) w x = k.core.words x := by
  refine Function.update_of_ne (fun hc => hx ?_) _ _
  rw [hc]
  exact TrapFrame.within_field hn

theorem Saved.envRun {cpu : Cpu} {k₁ : KernelState M} {e : Nat} (h : Saved L S cur t cpu k k₁)
    (he : k₁.sched.curenv = some e) (hkernel : rpl k₁.core.cpu.cs = 0#16) :
    Saved L S cur t cpu k (k₁.envRun L e) ∧ Resumes L (k₁.envRun L e) := by
  obtain ⟨hresumes, hwords⟩ := resumes_envRun hkernel
  have hsched : (k₁.envRun L e).sched = k₁.sched := by
    show { k₁.sched with curenv := some e } = k₁.sched
    rw [← he]
  refine ⟨⟨?_, fun x hx => by rw [hwords, h.words x hx], h.length⟩, hresumes⟩
  rw [savedCpu, hwords, hsched]
  exact h.handled

section UserTrap

variable {cpu : Cpu} {err : BitVec 32}

/-- The faulting instruction is skipped. -/
theorem saved_bypass
    (hframe : TrapFrame.read k.core.words (L.envTf cur) = TrapFrame.of cpu t.num err)
    (hnum : t.num = L.tPgflt) (hlength : k.bypassInstrLength ≠ 0#8) :
    Saved L S cur t cpu k (k.bypass (L.envTf cur)) := by
  refine ⟨?_, fun x hx => words_setField (by decide) hx, rfl⟩
  have heip : k.core.words (L.envTf cur + 48#32) = cpu.eip := congrArg TrapFrame.tfEip hframe
  have hcpu : savedCpu L (k.bypass (L.envTf cur)) cur =
      { cpu with eip := cpu.eip + k.bypassInstrLength.setWidth 32 } := by
    show (TrapFrame.read (Function.update _ _ _) _).cpu = _
    rw [TrapFrame.read_eip, hframe, heip]
    rfl
  rw [hcpu]
  exact .bypassed hnum hlength

/-- `trap_dispatch` returns with the frame in `curenv`, or goes to the next environment. -/
theorem trapDispatch_user {d : Dispatched M}
    (hframe : TrapFrame.read k.core.words (L.envTf cur) = TrapFrame.of cpu t.num err)
    (huser : rpl cpu.cs = 3#16) (hcur : k.sched.curenv = some cur)
    (hcr2 : t.num = L.tPgflt → k.cr2 = t.cr2) (hkernel : rpl k.core.cpu.cs = 0#16)
    (hlength : ¬(t.num = L.tPgflt ∧ k.bypassInstrLength ≠ 0#8))
    (hd : k.trapDispatch L S t.unset (L.envTf cur) = some d) :
    match d with
    | .returned k' => Saved L S cur t cpu k k' ∧ k'.sched.curenv = some cur ∧
        k'.core.cpu = k.core.cpu
    | .gone k' => Saved L S cur t cpu k k' ∧ Resumes L k' := by
  have hsaved : savedCpu L k cur = cpu := by
    rw [savedCpu, hframe]
    rfl
  unfold trapDispatch at hd
  simp only [hframe, TrapFrame.of] at hd
  split_ifs at hd with hfault hsyscall hdouble hclock hkt
  · obtain ⟨rest, hrest, rfl⟩ := Option.map_eq_some_iff.1 hd
    rw [decide_eq_true huser, hcur, hcr2 hfault] at hrest
    have hzero : k.bypassInstrLength = 0#8 := by_contra fun hne => hlength ⟨hfault, hne⟩
    refine ⟨⟨?_, fun _ _ => rfl, rfl⟩, hcur, rfl⟩
    exact hsaved.symm ▸ Handled.fault hfault hzero hrest
  · obtain ⟨⟨ret, rest⟩, hrest, rfl⟩ := Option.map_eq_some_iff.1 hd
    rw [hcur] at hrest
    refine ⟨⟨?_, fun x hx => words_setField (by decide) hx, rfl⟩, hcur, rfl⟩
    have hcpu : (TrapFrame.read (Function.update k.core.words (L.envTf cur + 28#32) ret)
        (L.envTf cur)).cpu = { cpu with regs := { cpu.regs with eax := ret } } := by
      rw [TrapFrame.read_eax, hframe]
      rfl
    have hhandled : Handled L S cur t k.bypassInstrLength cpu k.sched k.rest _ k.sched rest :=
      .syscall hsyscall hrest
    rw [← hcpu] at hhandled
    exact hhandled
  · obtain ⟨k₁, hhandler, rfl⟩ := Option.map_eq_some_iff.1 hd
    obtain ⟨rest, hrest, hschedule⟩ := Option.bind_eq_some_iff.1 hhandler
    obtain ⟨sched, hsched, hk₁⟩ := Option.map_eq_some_iff.1 hschedule
    rw [hcur] at hrest
    have hswitched : Saved L S cur t cpu k { k with sched := sched, rest := rest } :=
      ⟨hsaved.symm ▸ Handled.clock hclock hrest hsched, fun _ _ => rfl, rfl⟩
    cases hnext : sched.curenv with
    | none =>
      rw [hnext] at hk₁
      subst hk₁
      exact ⟨hswitched, fun e he => by rw [hnext] at he; cases he⟩
    | some e =>
      rw [hnext] at hk₁
      subst hk₁
      exact hswitched.envRun hnext hkernel
  · obtain rfl := Option.some.inj hd
    exact ⟨⟨hsaved.symm ▸ Handled.other hfault hsyscall hclock, fun _ _ => rfl, rfl⟩, hcur, rfl⟩

/-- `trap` with the frame in `curenv`. -/
theorem trapWith_user
    (hframe : TrapFrame.read k.core.words (L.envTf cur) = TrapFrame.of cpu t.num err)
    (huser : rpl cpu.cs = 3#16) (hcur : k.sched.curenv = some cur)
    (hcr2 : t.num = L.tPgflt → k.cr2 = t.cr2) (hkernel : rpl k.core.cpu.cs = 0#16)
    (htrap : k.trapWith L S true t.unset (L.envTf cur) = some k') :
    Saved L S cur t cpu k k' ∧ Resumes L k' := by
  have hnum : (TrapFrame.read k.core.words (L.envTf cur)).tfTrapno = t.num :=
    congrArg TrapFrame.tfTrapno hframe
  unfold trapWith at htrap
  rw [hnum] at htrap
  by_cases hlength : t.num = L.tPgflt ∧ k.bypassInstrLength ≠ 0#8
  · rw [if_pos hlength, if_pos rfl, hcur] at htrap
    obtain rfl := Option.some.inj htrap
    exact (saved_bypass hframe hlength.1 hlength.2).envRun hcur hkernel
  · rw [if_neg hlength] at htrap
    obtain ⟨d, hd, hk'⟩ := Option.bind_eq_some_iff.1 htrap
    have hspec := trapDispatch_user hframe huser hcur hcr2 hkernel hlength hd
    cases d with
    | gone k₁ =>
      obtain rfl := Option.some.inj hk'
      exact hspec
    | returned k₁ =>
      obtain ⟨hsaved, hcur₁, hcpu⟩ := hspec
      simp only [if_true, hcur₁, Option.bind_some] at hk'
      split_ifs at hk'
      obtain rfl := Option.some.inj hk'
      exact hsaved.envRun hcur₁ (by rw [hcpu, hkernel])

end UserTrap

/-! ## Entry -/

/-- The kernel's stack has room for the words that are pushed. -/
theorem height_entered {m : WordMemory} {base : BitVec 32} {n : Nat} {frame : TrapFrame} {c : Core}
    (h : Entered m base n frame c) (hroom : 4 * n ≤ L.height base) :
    L.height c.cpu.esp = L.height base - 4 * n := by
  rw [h.esp]
  exact TrapLayout.height_sub hroom

/-- What is pushed stays on the stack, and C functions write below it. -/
theorem cFrames_entered {m : WordMemory} {base : BitVec 32} {n : Nat} {frame : TrapFrame}
    (h : Entered m base n frame k.core) (hroom : 4 * n ≤ L.height base)
    (hsize : L.height base + 4 * (TrapFrame.size + 1) ≤ 4294967296 + 4 * n) (junk : WordMemory) :
    TrapFrame.read (k.cFrames L junk).core.words k.core.top = frame ∧
      ∀ x, L.height base ≤ L.height x → (k.cFrames L junk).core.words x = m x := by
  have hheight := height_entered h hroom
  refine ⟨?_, fun x hx => ?_⟩
  · rw [← h.frame, h.top]
    refine TrapFrame.read_eq_of_within fun x hx => if_neg (Nat.not_lt.2 ?_)
    exact (TrapLayout.height_of_within (L := L) hx.up (by omega)).1
  · have hbase : L.height base < 4294967296 := (base - L.stackBottom).isLt
    have hpushed : ¬Within k.core.cpu.esp n x := fun hc => by
      have := (TrapLayout.height_of_within (L := L) hc (by omega)).2
      omega
    rw [← h.words x hpushed]
    exact if_neg (by omega)

/-- `trap`, of a frame of the user. -/
theorem trap_user {cpu : Cpu} {err : BitVec 32} (hapart : L.Apart)
    (hframe : TrapFrame.read k.core.words tf = TrapFrame.of cpu t.num err)
    (hkernel : rpl k.core.cpu.cs = 0#16) (hcr2 : t.num = L.tPgflt → k.cr2 = t.cr2)
    (hcur : k.sched.curenv = some cur) (hlt : cur < L.nenv) (huser : rpl cpu.cs = 3#16)
    (htrap : k.trap L S t.unset tf = some k') :
    Handled L S cur t k.bypassInstrLength cpu k.sched k.rest (savedCpu L k' cur) k'.sched k'.rest ∧
      k'.bypassInstrLength = k.bypassInstrLength ∧ Resumes L k' ∧
      ∀ e < L.nenv, e ≠ cur → savedCpu L k' e = savedCpu L k e := by
  have hcs : rpl (TrapFrame.of cpu t.num err).tfCs = 3#16 := huser
  unfold trap at htrap
  rw [hframe, if_pos hcs, hcur, Option.bind_some] at htrap
  -- `curenv->env_tf = *tf`
  have hcopied := (TrapFrame.read_writeWords k.core.words (L.envTf cur) tf).trans hframe
  have hothers : ∀ x, ¬Within (L.envTf cur) TrapFrame.size x → writeWords k.core.words (L.envTf cur)
      (readWords k.core.words tf TrapFrame.size) x = k.core.words x := fun x hx =>
    writeWords_of_not_within (by rwa [length_readWords])
  generalize writeWords k.core.words (L.envTf cur) (readWords k.core.words tf TrapFrame.size) =
    copied at hcopied hothers htrap
  obtain ⟨⟨hhandled, hkept, hlength⟩, hresumes⟩ :=
    trapWith_user (k := k.setWords copied) hcopied huser hcur hcr2 hkernel htrap
  refine ⟨hhandled, hlength, hresumes, fun e he hne => ?_⟩
  refine congrArg TrapFrame.cpu (TrapFrame.read_eq_of_within fun x hx => ?_)
  have hother := hapart.envTf e he cur hlt hne x hx
  exact (hkept x hother).trans (hothers x hother)

/-- A trap of the user is handled with its registers in `env_tf`. Nothing of what the other
environments have in theirs changes. -/
theorem takeTrap_user (hapart : L.Apart) (hcur : k.sched.curenv = some cur) (hlt : cur < L.nenv)
    (huser : rpl k.core.cpu.cs = 3#16) (htrap : k.takeTrap L S t = some k') :
    Handled L S cur t k.bypassInstrLength k.core.cpu k.sched k.rest (savedCpu L k' cur) k'.sched
        k'.rest ∧
      k'.bypassInstrLength = k.bypassInstrLength ∧ Resumes L k' ∧
      ∀ e < L.nenv, e ≠ cur → savedCpu L k' e = savedCpu L k e := by
  have hlower : rpl k.core.cpu.cs ≠ 0#16 := by
    rw [huser]
    decide
  have hkernel : rpl (enter L.gate t.num t.err k.core).cpu.cs = 0#16 := by
    rw [enter_cs]
    exact L.gate_kernel
  have hroom : 4 * 18 ≤ L.height L.gate.esp0 := by
    have := L.stackWords_ge
    rw [TrapLayout.height_esp0]
    omega
  have hentered := entered_user L.gate t.num t.err hlower
  unfold takeTrap at htrap
  have hcr2 : t.num = L.tPgflt → (if t.num = L.tPgflt then t.cr2 else k.cr2) = t.cr2 :=
    fun hnum => if_pos hnum
  generalize enter L.gate t.num t.err k.core = core at hentered hkernel htrap
  generalize (if t.num = L.tPgflt then t.cr2 else k.cr2) = cr2 at hcr2 htrap
  have hsize : L.height L.gate.esp0 + 4 * (TrapFrame.size + 1) ≤ 4294967296 + 4 * 18 := by
    have hlt : L.height L.gate.esp0 < 4294967296 := (L.gate.esp0 - L.stackBottom).isLt
    rw [TrapFrame.size]
    omega
  obtain ⟨hframe, hwords⟩ := cFrames_entered (k := { k with core := core, cr2 := cr2 }) hentered
    hroom hsize t.junk
  obtain ⟨hhandled, hlength, hresumes, hothers⟩ :=
    trap_user hapart hframe hkernel hcr2 hcur hlt huser htrap
  refine ⟨hhandled, hlength, hresumes, fun e he hne => (hothers e he hne).trans ?_⟩
  refine congrArg TrapFrame.cpu (TrapFrame.read_eq_of_within fun x hx => hwords x ?_)
  rw [TrapLayout.height_esp0]
  exact hapart.stack e he x hx

/-! ## Processors of their own -/

/-- The environment is running, or waits in a READY queue. -/
def Active (sched : Sched Nat) (e : Nat) : Prop :=
  sched.curenv = some e ∨ e ∈ sched.envReadyQueues.flatten

/-- `fos_scheduler` selects one of the environments that there are. -/
theorem active_of_fosScheduler {sched sched' : Sched Nat} {e : Nat}
    (h : sched.fosScheduler = some sched') (hactive : Active sched' e) : Active sched e := by
  obtain ⟨hplaces, hnew, hexit⟩ := Sched.places_fosScheduler (e := e) h
  have hcount : ∀ s : Sched Nat, Active s e ↔
      0 < s.envReadyQueues.flatten.count e + s.curenv.toList.count e := fun s => by
    rw [Nat.add_pos_iff_pos_or_pos, List.count_pos_iff, List.count_pos_iff, Active,
      Option.mem_toList, or_comm]
  rw [hcount] at hactive ⊢
  rw [Sched.places, Sched.places, hnew, hexit] at hplaces
  omega

/-- The registers of an environment : in the processor while it runs, and in `env_tf` else. -/
def cpuOf (L : TrapLayout) (k : KernelState M) (e : Nat) : Cpu :=
  if k.sched.curenv = some e then k.core.cpu else savedCpu L k e

theorem cpuOf_setCpu (hcur : k.sched.curenv = some cur) (cpu : Cpu) (e : Nat) :
    cpuOf L (k.setCpu cpu) e = if e = cur then cpu else cpuOf L k e := by
  by_cases he : e = cur
  · rw [if_pos he, he]
    exact if_pos hcur
  · have hne : k.sched.curenv ≠ some e := fun hc => he (Option.some.inj (hc.symm.trans hcur))
    rw [if_neg he]
    exact (if_neg hne).trans (if_neg hne).symm

/-- The environments that the scheduler has are user programs. -/
def UserMode (L : TrapLayout) (k : KernelState M) : Prop :=
  ∀ e, Active k.sched e → e < L.nenv ∧ rpl (cpuOf L k e).cs = 3#16

theorem Handled.active {cpu cpu' : Cpu} {sched sched' : Sched Nat} {rest rest' : M}
    {length : BitVec 8} {e : Nat} (h : Handled L S cur t length cpu sched rest cpu' sched' rest')
    (hactive : Active sched' e) : Active sched e := by
  cases h with
  | clock _ _ hschedule => exact active_of_fosScheduler hschedule hactive
  | _ => exact hactive

theorem Handled.cs {cpu cpu' : Cpu} {sched sched' : Sched Nat} {rest rest' : M}
    {length : BitVec 8} (h : Handled L S cur t length cpu sched rest cpu' sched' rest') :
    cpu'.cs = cpu.cs := by
  cases h <;> rfl

/-- After a trap of `cur` it has the registers that it resumes with, and the others have their
own. -/
theorem cpuOf_takeTrap (hapart : L.Apart) (hmode : UserMode L k) (hcur : k.sched.curenv = some cur)
    (htrap : k.takeTrap L S t = some k') :
    UserMode L k' ∧ k'.bypassInstrLength = k.bypassInstrLength ∧
    Handled L S cur t k.bypassInstrLength (cpuOf L k cur) k.sched k.rest (cpuOf L k' cur) k'.sched
      k'.rest ∧
    ∀ e < L.nenv, e ≠ cur → cpuOf L k' e = cpuOf L k e := by
  obtain ⟨hlt, huser⟩ := hmode cur (Or.inl hcur)
  have hcpu : cpuOf L k cur = k.core.cpu := if_pos hcur
  rw [hcpu] at huser ⊢
  obtain ⟨hhandled, hlength, hresumes, hothers⟩ := takeTrap_user hapart hcur hlt huser htrap
  have hsaved : ∀ e < L.nenv, e ≠ cur → savedCpu L k' e = cpuOf L k e := fun e he hne => by
    rw [hothers e he hne, cpuOf, if_neg fun hc => hne (Option.some.inj (hc.symm.trans hcur))]
  have hcs : ∀ e, Active k'.sched e → e < L.nenv ∧ rpl (savedCpu L k' e).cs = 3#16 := by
    intro e he
    obtain ⟨helt, hemode⟩ := hmode e (hhandled.active he)
    refine ⟨helt, ?_⟩
    by_cases hne : e = cur
    · rw [hne, hhandled.cs, huser]
    · rw [hsaved e helt hne, hemode]
  have hof : ∀ e, cpuOf L k' e = savedCpu L k' e := fun e => by
    unfold cpuOf
    split_ifs with he
    · refine hresumes e he ?_
      rw [(hcs e (Or.inl he)).2]
      decide
    · rfl
  refine ⟨fun e he => ?_, hlength, ?_, fun e he hne => ?_⟩
  · rw [hof]
    exact hcs e he
  · rw [hof]
    exact hhandled
  · rw [hof, hsaved e he hne]

/-- The program that runs stays in user mode. -/
theorem UserMode.setCpu (hmode : UserMode L k) (hcur : k.sched.curenv = some cur) {cpu : Cpu}
    (hcpu : rpl cpu.cs = 3#16) : UserMode L (k.setCpu cpu) := by
  intro e he
  obtain ⟨hlt, huser⟩ := hmode e he
  rw [cpuOf_setCpu hcur]
  split_ifs
  · exact ⟨hlt, hcpu⟩
  · exact ⟨hlt, huser⟩

/-- The registers that environment `cur` resumes with after a trap. -/
def resumed (L : TrapLayout) (S : Services M) (k : KernelState M) (cur : Nat) (t : Trap)
    (cpu : Cpu) : Cpu :=
  if t.num = L.tPgflt then
    if k.bypassInstrLength = 0#8 then cpu
    else { cpu with eip := cpu.eip + k.bypassInstrLength.setWidth 32 }
  else if t.num = L.tSyscall then
    match S.syscall (some cur) cpu.regs.eax cpu.regs.edx cpu.regs.ecx cpu.regs.ebx cpu.regs.edi
      cpu.regs.esi t.unset k.rest with
    | some r => { cpu with regs := { cpu.regs with eax := r.1 } }
    | none => cpu
  else cpu

theorem Handled.eq_resumed {cpu cpu' : Cpu} {sched : Sched Nat} {rest : M}
    (h : Handled L S cur t k.bypassInstrLength cpu k.sched k.rest cpu' sched rest) :
    cpu' = resumed L S k cur t cpu := by
  unfold resumed
  cases h with
  | bypassed hnum hlength => rw [if_pos hnum, if_neg hlength]
  | fault hnum hlength => rw [if_pos hnum, if_pos hlength]
  | syscall hnum hsyscall =>
    rw [if_neg (hnum ▸ L.tSyscall_ne_tPgflt), if_pos hnum, hsyscall]
  | clock hnum =>
    rw [if_neg (hnum ▸ L.irq0Clock_ne_tPgflt), if_neg (hnum ▸ L.irq0Clock_ne_tSyscall)]
  | other hfault hsyscall => rw [if_neg hfault, if_neg hsyscall]

end KernelState

/-- The kernel, beside a processor for each environment. -/
structure VirtualCpus (M : Type) where
  kernel : KernelState M
  cpus : Nat → Cpu

namespace VirtualCpus

open KernelState

/-- What happens while environments run : the one that does changes its registers, as it likes,
or there is a trap. -/
inductive Event where
  | run (cpu : Cpu)
  | trap (t : Trap)

variable {M : Type} (L : TrapLayout) (S : Services M) (x : VirtualCpus M)

/-- The processor of an environment sees what the environment does, and its traps. -/
def step : Event → Option (VirtualCpus M)
  | .run cpu => x.kernel.sched.curenv.map fun cur =>
    ⟨x.kernel.setCpu cpu, Function.update x.cpus cur cpu⟩
  | .trap t => x.kernel.sched.curenv.bind fun cur => (x.kernel.takeTrap L S t).map fun k =>
    ⟨k, Function.update x.cpus cur (x.kernel.resumed L S cur t (x.cpus cur))⟩

/-- A user program stays one. -/
def UserEvent : Event → Prop
  | .run cpu => rpl cpu.cs = 3#16
  | .trap _ => True

instance : ∀ ev, Decidable (UserEvent ev)
  | .run cpu => inferInstanceAs (Decidable (rpl cpu.cs = 3#16))
  | .trap _ => inferInstanceAs (Decidable True)

variable {L S} {x x' : VirtualCpus M}

/-- The processors are what the environments have in the kernel. -/
structure Agrees (L : TrapLayout) (x : VirtualCpus M) : Prop where
  mode : UserMode L x.kernel
  cpus : ∀ e < L.nenv, cpuOf L x.kernel e = x.cpus e

theorem step_agrees {ev : Event} (hapart : L.Apart) (hev : UserEvent ev) (h : Agrees L x)
    (hstep : step L S x ev = some x') : Agrees L x' := by
  obtain ⟨hmode, hcpus⟩ := h
  cases ev with
  | run cpu =>
    obtain ⟨cur, hcur, rfl⟩ := Option.map_eq_some_iff.1 hstep
    refine ⟨hmode.setCpu hcur hev, fun e he => (cpuOf_setCpu hcur cpu e).trans ?_⟩
    rw [hcpus e he]
    exact (Function.update_apply ..).symm
  | trap t =>
    obtain ⟨cur, hcur, hstep⟩ := Option.bind_eq_some_iff.1 hstep
    obtain ⟨k', htrap, rfl⟩ := Option.map_eq_some_iff.1 hstep
    obtain ⟨hmode', -, hhandled, hothers⟩ := cpuOf_takeTrap hapart hmode hcur htrap
    have hlt : cur < L.nenv := (hmode cur (Or.inl hcur)).1
    refine ⟨hmode', fun e he => ?_⟩
    show cpuOf L k' e = Function.update x.cpus cur _ e
    rw [Function.update_apply]
    split_ifs with hne
    · rw [hne, hhandled.eq_resumed, hcpus cur hlt]
    · rw [hothers e he hne, hcpus e he]

/-- Every environment has a processor of its own : along every run of the environments, with
faults, system calls and clock interrupts in any order, and under any scheduler, the one that runs
finds in the processor what its own instructions and traps have left there. -/
theorem run_cpus {k : KernelState M} {events : List Event} (hapart : L.Apart)
    (hmode : UserMode L k) (hevents : ∀ ev ∈ events, UserEvent ev)
    (hrun : Machine.run (step L S) ⟨k, cpuOf L k⟩ events = some x) :
    (∀ e, x.kernel.sched.curenv = some e → x.kernel.core.cpu = x.cpus e) ∧
      ∀ e < L.nenv, x.kernel.sched.curenv ≠ some e → savedCpu L x.kernel e = x.cpus e := by
  obtain ⟨hmode, hcpus⟩ := Machine.run_induction_of_meets (P := Agrees L)
    (fun _ _ _ h hev hstep => step_agrees hapart hev h hstep) ⟨hmode, fun _ _ => rfl⟩
    (Machine.meets_of_forall hevents _) hrun
  refine ⟨fun e he => ?_, fun e he hne => ?_⟩
  · rw [← hcpus e (hmode e (Or.inl he)).1, cpuOf, if_pos he]
  · rw [← hcpus e he, cpuOf, if_neg hne]

/-- Two environments. -/
def smallTrapLayout : TrapLayout where
  tPgflt := 14#32
  tDblflt := 8#32
  tSyscall := 0x30#32
  irq0Clock := 32#32
  gate := ⟨0xEFC00000#32, 0x10#16, 0x8#16, 0xF0100000#32⟩
  stackWords := 8192
  nenv := 2
  envTf e := 0xF0200000#32 + 256#32 * BitVec.ofNat 32 e
  tSyscall_ne_tPgflt := by decide
  irq0Clock_ne_tPgflt := by decide
  irq0Clock_ne_tSyscall := by decide
  gate_kernel := by decide
  stackWords_ge := by decide
  stackWords_lt := by decide

theorem smallTrapLayout_apart : smallTrapLayout.Apart := by
  refine ⟨fun e he e' he' hne x hx => ?_, fun e he x hx => ?_⟩
  · have hlt : e < 2 ∧ e' < 2 := ⟨he, he'⟩
    simp only [Within, TrapFrame.size, smallTrapLayout] at hx ⊢
    bv_omega
  · have hlt : e < 2 := he
    simp only [Within, TrapFrame.size, smallTrapLayout, TrapLayout.height,
      TrapLayout.stackBottom] at hx ⊢
    bv_omega

/-- Every fault is handled, and every system call returns 7. -/
def sevenServices : Services Unit where
  faultHandler _ _ _ _ _ := some ()
  syscall _ _ _ _ _ _ _ _ _ := some (7#32, ())
  clockInterrupt _ _ := some ()

/-- A program of the user, with `eax` of its own. -/
def userCpu (eax : BitVec 32) : Cpu where
  regs := ⟨0#32, 0#32, 0#32, 0#32, 0#32, 0#32, eax⟩
  esp := 0xEEBFE000#32
  eip := 0x800020#32
  eflags := 0x202#32
  cs := 0x1B#16
  ds := 0x23#16
  es := 0x23#16
  ss := 0x23#16

/-- Environment 0 runs, and environment 1 waits. -/
def twoEnvs : KernelState Unit where
  core := ⟨userCpu 0#32, fun x => if x = 0xF0200134#32 then 0x1B#32 else 0#32⟩
  cr2 := 0#32
  sched :=
    { envNewQueue := []
      envReadyQueues := [[1]]
      envExitQueue := []
      quantums := [10]
      clockQuantum := 10
      indexToEnqueue := 0
      curenv := some 0
      schedulerMethod := .rr
      schedulerStatus := .started
      envStatus := fun _ => .ready }
  runnable _ := true
  bypassInstrLength := 0#8
  rest := ()

/-- Environment 0 is interrupted with 5 in `%eax`, environment 1 makes a system call, and is
interrupted. -/
def callAndBack : List Event :=
  [.run (userCpu 5#32), .trap ⟨32#32, none, 0#32, fun _ => 1#32, 0⟩,
    .trap ⟨0x30#32, none, 0#32, fun _ => 2#32, 0⟩, .trap ⟨32#32, none, 0#32, fun _ => 3#32, 0⟩]

theorem callAndBack_cpus : ∃ x, Machine.run (step smallTrapLayout sevenServices)
      ⟨twoEnvs, cpuOf smallTrapLayout twoEnvs⟩ callAndBack = some x ∧
    x.kernel.core.cpu = userCpu 5#32 ∧ (savedCpu smallTrapLayout x.kernel 1).regs.eax = 7#32 := by
  have hrun : ((Machine.run (step smallTrapLayout sevenServices)
      ⟨twoEnvs, cpuOf smallTrapLayout twoEnvs⟩ callAndBack).any fun x =>
        x.kernel.sched.curenv = some 0 ∧ x.cpus 0 = userCpu 5#32 ∧
          (x.cpus 1).regs.eax = 7#32) = true := by
    decide +kernel
  obtain ⟨x, hx, hfacts⟩ := (Option.any_eq_true _ _).1 hrun
  obtain ⟨hcur, hfirst, hsecond⟩ := of_decide_eq_true hfacts
  have hmode : UserMode smallTrapLayout twoEnvs := fun e he => by
    rcases he with he | he
    · obtain rfl := Option.some.inj he
      decide
    · obtain rfl : e = 1 := by simpa [twoEnvs] using he
      decide
  obtain ⟨hrunning, hsaved⟩ := run_cpus smallTrapLayout_apart hmode (by decide) hx
  refine ⟨x, hx, (hrunning 0 hcur).trans hfirst, ?_⟩
  rw [hsaved 1 (by decide) (by rw [hcur]; decide), hsecond]

end VirtualCpus

end FosKernel
