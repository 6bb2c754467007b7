import FosKernel.ContextSwitch

/-!
# Page faults of the kernel

The kernel loads and stores in user memory, so it takes page faults of its own. There is no copy of
such a trap in `env_tf` : the frame stays on the stack that the kernel was on, the handler runs
below it, and `env_pop_tf` pops the registers off it.

`KernelCode` is the kernel beside the same code on a processor that takes no trap. Along every run
of code and faults the two have the same registers, and the same words from the stack pointer up
and outside of the stack (`run_sameAbove`).
-/

namespace FosKernel

open Processor

namespace KernelState

variable {M : Type} {L : TrapLayout} {S : Services M} {k k' : KernelState M} {t : Trap}

/-- The registers that the kernel resumes with after a page fault. -/
def resumedKernel (k : KernelState M) (cpu : Cpu) : Cpu :=
  if k.bypassInstrLength = 0#8 then cpu
  else { cpu with eip := cpu.eip + k.bypassInstrLength.setWidth 32 }

/-- `env_pop_tf` of a frame on the stack, 16 words below where it was. -/
theorem envPopTf_kernel {c : Core} {cpu : Cpu} {num err tfEsp : BitVec 32} {tfSs : BitVec 16}
    {a : BitVec 32}
    (hframe : TrapFrame.read c.words a =
      { TrapFrame.of cpu num err with tfEsp := tfEsp, tfSs := tfSs })
    (hcs : rpl cpu.cs = rpl c.cpu.cs) (ha : a + 60#32 = cpu.esp) (hss : c.cpu.ss = cpu.ss) :
    c.run (FosKernel.envPopTf a) = ⟨cpu, c.words⟩ := by
  have hkernel : rpl (TrapFrame.read c.words a).tfCs = rpl c.cpu.cs := by
    rw [hframe]
    exact hcs
  rw [run_envPopTf_kernel hkernel, hframe, TrapFrame.kernelCpu, ha, hss]
  rfl

/-- `trap`, of a page fault with a frame of the kernel at `tf`. -/
theorem trap_kernel {cpu : Cpu} {err tfEsp tf : BitVec 32} {tfSs : BitVec 16}
    (hframe : TrapFrame.read k.core.words tf =
      { TrapFrame.of cpu t.num err with tfEsp := tfEsp, tfSs := tfSs })
    (hnum : t.num = L.tPgflt) (hcpu : rpl cpu.cs = 0#16) (hkernel : rpl k.core.cpu.cs = 0#16)
    (htf : tf + 60#32 = cpu.esp) (hss : k.core.cpu.ss = cpu.ss)
    (htrap : k.trap L S t.unset tf = some k') :
    k'.core.cpu = k.resumedKernel cpu ∧ k'.sched = k.sched ∧
      k'.bypassInstrLength = k.bypassInstrLength ∧
      ∀ x, x ≠ tf + 48#32 → k'.core.words x = k.core.words x := by
  have hcs : rpl cpu.cs = rpl k.core.cpu.cs := hcpu.trans hkernel.symm
  have hne : ¬rpl cpu.cs = 3#16 := by
    rw [hcpu]
    decide
  unfold trap trapWith at htrap
  simp only [hframe, TrapFrame.of, if_neg hne] at htrap
  by_cases hlength : k.bypassInstrLength = 0#8
  · rw [if_neg fun h => h.2 hlength] at htrap
    obtain ⟨d, hd, hk'⟩ := Option.bind_eq_some_iff.1 htrap
    unfold trapDispatch at hd
    simp only [hframe, TrapFrame.of, if_pos hnum] at hd
    obtain ⟨rest, -, rfl⟩ := Option.map_eq_some_iff.1 hd
    obtain rfl := Option.some.inj hk'
    have hcore := envPopTf_kernel hframe hcs htf hss
    refine ⟨?_, rfl, rfl, fun x _ => ?_⟩
    · rw [resumedKernel, if_pos hlength]
      exact congrArg Core.cpu hcore
    · exact congrFun (congrArg Core.words hcore) x
  · rw [if_pos ⟨hnum, hlength⟩] at htrap
    obtain rfl := Option.some.inj htrap
    have heip : k.core.words (tf + 48#32) = cpu.eip := congrArg TrapFrame.tfEip hframe
    have hskipped : TrapFrame.read (k.bypass tf).core.words tf =
        { TrapFrame.of { cpu with eip := cpu.eip + k.bypassInstrLength.setWidth 32 } t.num err with
          tfEsp := tfEsp, tfSs := tfSs } := by
      refine (TrapFrame.read_eip _ _ _).trans ?_
      rw [hframe, heip]
      rfl
    have hcore := envPopTf_kernel hskipped hcs htf hss
    refine ⟨?_, rfl, rfl, fun x hx => ?_⟩
    · rw [resumedKernel, if_neg hlength]
      exact congrArg Core.cpu hcore
    · exact (congrFun (congrArg Core.words hcore) x).trans (Function.update_of_ne hx _ _)

/-- The kernel is on its stack, below the words that `kern/entry.S` leaves at its top, and there
is room for a frame. -/
structure OnStack (L : TrapLayout) (c : Core) : Prop where
  kernel : rpl c.cpu.cs = 0#16
  room : 4 * 16 ≤ L.height c.cpu.esp
  top : L.height c.cpu.esp + 4 * TrapFrame.size ≤ 4 * L.stackWords

instance (L : TrapLayout) (c : Core) : Decidable (OnStack L c) :=
  decidable_of_iff (rpl c.cpu.cs = 0#16 ∧ 4 * 16 ≤ L.height c.cpu.esp ∧
      L.height c.cpu.esp + 4 * TrapFrame.size ≤ 4 * L.stackWords)
    ⟨fun h => ⟨h.1, h.2.1, h.2.2⟩, fun h => ⟨h.kernel, h.room, h.top⟩⟩

/-- A page fault of the kernel changes words below its stack pointer only, and no register. -/
theorem takeTrap_kernel (hnum : t.num = L.tPgflt) (hstack : OnStack L k.core)
    (htrap : k.takeTrap L S t = some k') :
    k'.core.cpu = k.resumedKernel k.core.cpu ∧ k'.sched = k.sched ∧
      k'.bypassInstrLength = k.bypassInstrLength ∧
      ∀ x, L.height k.core.cpu.esp ≤ L.height x → k'.core.words x = k.core.words x := by
  obtain ⟨hcpu, hroom, htop⟩ := hstack
  obtain ⟨tfEsp, tfSs, hentered⟩ := entered_kernel L.gate t.num t.err hcpu
  have hkernel : rpl (enter L.gate t.num t.err k.core).cpu.cs = 0#16 := by
    rw [enter_cs]
    exact L.gate_kernel
  have hss := enter_ss L.gate t.num t.err hcpu
  unfold takeTrap at htrap
  generalize enter L.gate t.num t.err k.core = core at hentered hkernel hss htrap
  generalize (if t.num = L.tPgflt then t.cr2 else k.cr2) = cr2 at htrap
  have hlt := L.stackWords_lt
  have hsize : L.height k.core.cpu.esp + 4 * (TrapFrame.size + 1) ≤ 4294967296 + 4 * 16 := by
    unfold TrapFrame.size at *
    omega
  obtain ⟨hframe, hwords⟩ := cFrames_entered (k := { k with core := core, cr2 := cr2 }) hentered
    hroom hsize t.junk
  have htf : core.top + 60#32 = k.core.cpu.esp := by
    rw [hentered.top, hentered.esp]
    bv_omega
  obtain ⟨hresumed, hsched, hlength, hkept⟩ :=
    trap_kernel hframe hnum hcpu hkernel htf hss htrap
  refine ⟨hresumed, hsched, hlength, fun x hx => (hkept x fun hc => ?_).trans (hwords x hx)⟩
  -- the word with `tf_eip` is below
  have heip : x = k.core.cpu.esp - 4#32 * BitVec.ofNat 32 3 := by
    rw [hc, ← htf]
    bv_omega
  rw [heip, TrapLayout.height_sub (by omega)] at hx
  omega

end KernelState

/-! ## Code that is interrupted -/

/-- The kernel, beside its code on a processor that takes no trap. -/
structure KernelCode (M : Type) where
  kernel : KernelState M
  alone : Core

namespace KernelCode

open KernelState

/-- What code of the kernel does : it changes registers, pushes words and writes to memory. -/
inductive Event where
  | set (cpu : Cpu)
  | push (w : BitVec 32)
  | write (a w : BitVec 32)
  | fault (t : Trap)

variable {M : Type} (L : TrapLayout) (S : Services M) (x : KernelCode M)

/-- The event, in the kernel and in code that no fault interrupts. -/
def step : Event → Option (KernelCode M)
  | .set cpu => some ⟨x.kernel.setCpu cpu, { x.alone with cpu := cpu }⟩
  | .push w => some ⟨{ x.kernel with core := x.kernel.core.push w }, x.alone.push w⟩
  | .write a w => some ⟨x.kernel.setWords (Function.update x.kernel.core.words a w),
      { x.alone with words := Function.update x.alone.words a w }⟩
  | .fault t => (x.kernel.takeTrap L S t).map fun k =>
      ⟨k, { x.alone with cpu := x.kernel.resumedKernel x.alone.cpu }⟩

/-- The stack grows by pushes of words only, and faults find room. -/
def Proper (x : KernelCode M) : Event → Prop
  | .set cpu => L.height x.kernel.core.cpu.esp ≤ L.height cpu.esp
  | .push _ => 4 ≤ L.height x.kernel.core.cpu.esp ∧ L.height x.kernel.core.cpu.esp % 4 = 0
  | .write _ _ => True
  | .fault t => t.num = L.tPgflt ∧ OnStack L x.kernel.core

instance (x : KernelCode M) : ∀ ev, Decidable (Proper L x ev)
  | .set cpu => inferInstanceAs (Decidable (L.height x.kernel.core.cpu.esp ≤ L.height cpu.esp))
  | .push _ => inferInstanceAs (Decidable
      (4 ≤ L.height x.kernel.core.cpu.esp ∧ L.height x.kernel.core.cpu.esp % 4 = 0))
  | .write _ _ => inferInstanceAs (Decidable True)
  | .fault t => inferInstanceAs (Decidable (t.num = L.tPgflt ∧ OnStack L x.kernel.core))

/-- The same registers, and the same words but for those below the stack pointer. -/
structure SameAbove (L : TrapLayout) (c c' : Core) : Prop where
  cpu : c.cpu = c'.cpu
  words : ∀ a, L.height c.cpu.esp ≤ L.height a → L.height a % 4 = 0 → c.words a = c'.words a

variable {L S} {x x' : KernelCode M}

theorem SameAbove.push {c c' : Core} (h : SameAbove L c c') (hroom : 4 ≤ L.height c.cpu.esp)
    (haligned : L.height c.cpu.esp % 4 = 0) (w : BitVec 32) :
    SameAbove L (c.push w) (c'.push w) := by
  obtain ⟨hcpu, hwords⟩ := h
  have hesp : L.height (c.cpu.esp - 4#32) = L.height c.cpu.esp - 4 :=
    TrapLayout.height_sub (n := 1) hroom
  refine ⟨by rw [Core.push, Core.push, hcpu], fun a ha haligned' => ?_⟩
  have habove : L.height c.cpu.esp - 4 ≤ L.height a := hesp.symm.le.trans ha
  show Function.update c.words (c.cpu.esp - 4#32) w a =
    Function.update c'.words (c'.cpu.esp - 4#32) w a
  rw [← hcpu, Function.update_apply, Function.update_apply]
  split_ifs with hat
  · rfl
  · refine hwords a ?_ haligned'
    -- a word at the height of the one that is pushed would be that word
    have hne : L.height a ≠ L.height (c.cpu.esp - 4#32) := fun hc => hat (by
      unfold TrapLayout.height at hc
      bv_omega)
    omega

theorem step_sameAbove {ev : Event} (h : SameAbove L x.kernel.core x.alone) (hev : Proper L x ev)
    (hstep : step L S x ev = some x') : SameAbove L x'.kernel.core x'.alone := by
  cases ev with
  | set cpu =>
    obtain rfl := Option.some.inj hstep
    exact ⟨rfl, fun a ha => h.words a (hev.trans ha)⟩
  | push w =>
    obtain rfl := Option.some.inj hstep
    exact h.push hev.1 hev.2 w
  | write a w =>
    obtain rfl := Option.some.inj hstep
    refine ⟨h.cpu, fun b hb haligned => ?_⟩
    show Function.update x.kernel.core.words a w b = Function.update x.alone.words a w b
    rw [Function.update_apply, Function.update_apply]
    split_ifs
    · rfl
    · exact h.words b hb haligned
  | fault t =>
    obtain ⟨k', htrap, rfl⟩ := Option.map_eq_some_iff.1 hstep
    obtain ⟨hresumed, -, -, hwords⟩ := takeTrap_kernel hev.1 hev.2 htrap
    have hesp : k'.core.cpu.esp = x.kernel.core.cpu.esp := by
      rw [hresumed, resumedKernel]
      split_ifs <;> rfl
    refine ⟨hresumed.trans (by rw [h.cpu]), fun a ha haligned => ?_⟩
    rw [hesp] at ha
    exact (hwords a ha).trans (h.words a ha haligned)

/-- Page faults do not show in code of the kernel : along every run, with faults at any places,
the registers are those of the code alone, and so are the words that are not below the stack
pointer. -/
theorem run_sameAbove {k : KernelState M} {events : List Event}
    (hproper : Machine.Meets (step L S) (Proper L) ⟨k, k.core⟩ events)
    (hrun : Machine.run (step L S) ⟨k, k.core⟩ events = some x) :
    x.kernel.core.cpu = x.alone.cpu ∧
      ∀ a, L.height x.alone.cpu.esp ≤ L.height a → L.height a % 4 = 0 →
        x.kernel.core.words a = x.alone.words a := by
  obtain ⟨hcpu, hwords⟩ := Machine.run_induction_of_meets
    (P := fun x : KernelCode M => SameAbove L x.kernel.core x.alone)
    (fun _ _ _ h hev hstep => step_sameAbove h hev hstep) ⟨rfl, fun _ _ _ => rfl⟩ hproper hrun
  exact ⟨hcpu, fun a ha => hwords a (hcpu ▸ ha)⟩

/-- The kernel on its stack, on behalf of an environment. -/
def onBehalf : KernelState Unit :=
  { VirtualCpus.twoEnvs with
    core := ⟨{ VirtualCpus.userCpu 3#32 with esp := 0xEFBFFFBC#32, cs := 0x8#16, ss := 0x10#16 },
      fun _ => 0#32⟩ }

/-- A word is pushed between two faults. -/
def pushedBetween : List Event :=
  [.fault ⟨14#32, some 2#32, 0x80000000#32, fun _ => 1#32, 0⟩, .push 5#32,
    .fault ⟨14#32, some 2#32, 0x80000000#32, fun _ => 6#32, 0⟩]

theorem pushedBetween_sameAbove : ∃ x,
    Machine.run (step VirtualCpus.smallTrapLayout VirtualCpus.sevenServices)
      ⟨onBehalf, onBehalf.core⟩ pushedBetween = some x ∧
    x.kernel.core.cpu.regs.eax = 3#32 ∧ x.kernel.core.words 0xEFBFFFB8#32 = 5#32 := by
  have hrun : ((Machine.run (step VirtualCpus.smallTrapLayout VirtualCpus.sevenServices)
      ⟨onBehalf, onBehalf.core⟩ pushedBetween).any fun x => x.alone.cpu.esp = 0xEFBFFFB8#32 ∧
        x.alone.cpu.regs.eax = 3#32 ∧ x.alone.words 0xEFBFFFB8#32 = 5#32) = true := by
    decide +kernel
  obtain ⟨x, hx, hfacts⟩ := (Option.any_eq_true _ _).1 hrun
  obtain ⟨hesp, heax, hword⟩ := of_decide_eq_true hfacts
  have hproper : Machine.Meets (step VirtualCpus.smallTrapLayout VirtualCpus.sevenServices)
      (Proper VirtualCpus.smallTrapLayout) ⟨onBehalf, onBehalf.core⟩ pushedBetween := by
    decide +kernel
  obtain ⟨hcpu, hwords⟩ := run_sameAbove hproper hx
  refine ⟨x, hx, hcpu ▸ heax, ?_⟩
  rw [hwords _ (by rw [hesp]) (by decide +kernel), hword]

end KernelCode

end FosKernel
