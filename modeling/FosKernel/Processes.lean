import FosKernel.ContextSwitch
import FosKernel.VirtualMemory
import Mathlib.Logic.Relation

/-!
# Processes

The kernel as the programs see it : each of them runs on a processor of its own, with a memory of
its own. `Process.Step` is a program on such a machine, of registers and bytes and nothing else.
`KernelState.advance` is the system : one processor, a clock interrupt at any time, page faults at
the loads and stores of pages that are not resident, and the frames, the page file and the
scheduler shared by all.

`run_alone` : in every state of every run of the system, each environment is where its program
alone could be, in registers and in memory. So what a program computes does not depend on where
it is interrupted, on which of its pages are resident, or on what the other programs do.

An instruction loads or stores one byte at most. The system calls are those of the user heap,
`sys_allocateMem` and `sys_freeMem`, and others that return a value. A page file, and Modified
Clock, are as in `VirtualMemory`.
-/

namespace FosKernel

open Processor Relation

/-! ## A program alone -/

/-- What an instruction does, and the registers after it. -/
inductive Instruction where
  | internal (next : Cpu)
  | load (va : BitVec 32) (next : BitVec 8 → Cpu)
  | store (va : BitVec 32) (byte : BitVec 8) (next : Cpu)
  | syscall (next : Cpu)

/-- A program, by its registers. -/
abbrev Program := Cpu → Instruction

/-- The program leaves its privilege level alone. -/
def Program.User (prog : Program) : Prop :=
  ∀ cpu, rpl cpu.cs = 3#16 →
    match prog cpu with
    | .internal next => rpl next.cs = 3#16
    | .load _ next => ∀ byte, rpl (next byte).cs = 3#16
    | .store _ _ next => rpl next.cs = 3#16
    | .syscall next => rpl next.cs = 3#16

/-- The numbers of the system calls of the user heap. -/
structure SyscallNumbers where
  sysAllocateMem : BitVec 32
  sysFreeMem : BitVec 32

/-- The system call that the registers are the arguments of gives new pages, or takes pages
back. -/
def SyscallNumbers.OfHeap (nums : SyscallNumbers) (cpu : Cpu) : Prop :=
  cpu.regs.eax = nums.sysAllocateMem ∨ cpu.regs.eax = nums.sysFreeMem

instance (nums : SyscallNumbers) (cpu : Cpu) : Decidable (nums.OfHeap cpu) :=
  inferInstanceAs (Decidable (_ ∨ _))

/-- A program on a machine of its own. A byte is unknown until it is stored. -/
structure Process where
  cpu : Cpu
  memory : Nat → Option (BitVec 8)

namespace Process

/-- The pages of a range have unknown bytes. -/
def forget (memory : Nat → Option (BitVec 8)) (va size : Nat) : Nat → Option (BitVec 8) :=
  fun a => if va ≤ a ∧ a / pageSize * pageSize < va + size then none else memory a

/-- One instruction. -/
inductive Step (prog : Program) (nums : SyscallNumbers) : Process → Process → Prop where
  | internal {p : Process} {next : Cpu} (hprog : prog p.cpu = .internal next) :
    Step prog nums p ⟨next, p.memory⟩
  | load {p : Process} {va : BitVec 32} {next : BitVec 8 → Cpu} (byte : BitVec 8)
    (hprog : prog p.cpu = .load va next) (hbyte : ∀ b, p.memory va.toNat = some b → byte = b) :
    Step prog nums p ⟨next byte, p.memory⟩
  | store {p : Process} {va : BitVec 32} {byte : BitVec 8} {next : Cpu}
    (hprog : prog p.cpu = .store va byte next) :
    Step prog nums p ⟨next, Function.update p.memory va.toNat (some byte)⟩
  | syscall {p : Process} {next : Cpu} (ret : BitVec 32) (hprog : prog p.cpu = .syscall next) :
    Step prog nums p
      ⟨{ next with regs := { next.regs with eax := ret } },
        if nums.OfHeap next then forget p.memory next.regs.edx.toNat next.regs.ecx.toNat
        else p.memory⟩

end Process

/-! ## The system -/

/-- The services of the kernel on user memory. `other` is what the other system calls return. -/
def memoryServices {P : Type} (L : FaultLayout) (pf : PageFile P) (buffering : Bool)
    (nums : SyscallNumbers) (other : Nat → BitVec 32 → BitVec 32) : Services (UserMemory P) where
  faultHandler userTrap curenv cr2 unset s := curenv.bind fun env =>
    s.faultHandler L pf buffering userTrap env cr2.toNat unset
  syscall curenv syscallno a1 a2 _ _ _ unset s := curenv.bind fun env =>
    if syscallno = nums.sysAllocateMem then
      (s.allocateMem pf env a1.toNat a2.toNat (unset ≠ 0)).map fun s => (0#32, s)
    else if syscallno = nums.sysFreeMem then
      (s.freeMem L.toUserLayout pf env a1.toNat a2.toNat).map fun s => (0#32, s)
    else some (other env syscallno, s)
  clockInterrupt _ s := some s

/-- The environment that runs goes on by one try of an instruction, or the clock interrupts it. -/
inductive Tick where
  | instruction (err : BitVec 32) (junk : WordMemory) (unset : Nat)
  | clock (junk : WordMemory)

namespace KernelState

variable {P : Type} (T : TrapLayout) (L : FaultLayout) (S : Services (UserMemory P))
  (prog : Nat → Program) (k : KernelState (UserMemory P))

/-- User memory becomes `s`. -/
def setRest (s : UserMemory P) : KernelState (UserMemory P) :=
  { k with rest := s }

/-- One try of an instruction of environment `cur`. -/
def tryInstruction (cur : Nat) (err : BitVec 32) (junk : WordMemory) (unset : Nat) :
    Option (KernelState (UserMemory P)) :=
  match prog cur k.core.cpu with
  | .internal next => some (k.setCpu next)
  | .load va next =>
    if k.rest.Mapped cur va.toNat then
      some ((k.setCpu (next (k.rest.byteAt cur va.toNat))).setRest
        (UserMemory.access cur va.toNat none k.rest))
    else k.takeTrap T S ⟨T.tPgflt, some err, va, junk, unset⟩
  | .store va byte next =>
    if k.rest.Mapped cur va.toNat then
      some ((k.setCpu next).setRest
        (UserMemory.access cur va.toNat (some (k.rest.withByte cur va.toNat byte)) k.rest))
    else k.takeTrap T S ⟨T.tPgflt, some err, va, junk, unset⟩
  | .syscall next => (k.setCpu next).takeTrap T S ⟨T.tSyscall, none, 0#32, junk, unset⟩

/-- What happens while an environment runs. -/
def advance : Tick → Option (KernelState (UserMemory P))
  | .instruction err junk unset =>
    k.sched.curenv.bind fun cur => k.tryInstruction T S prog cur err junk unset
  | .clock junk => k.sched.curenv.bind fun _ =>
    k.takeTrap T S ⟨T.irq0Clock, none, 0#32, junk, 0⟩

/-- The calls of the user heap are of whole pages of user memory. -/
def ProperCalls (L : FaultLayout) (nums : SyscallNumbers) (prog : Nat → Program)
    (k : KernelState (UserMemory P)) : Tick → Prop
  | .instruction _ _ _ => ∀ cur, k.sched.curenv = some cur →
    match prog cur k.core.cpu with
    | .syscall next => nums.OfHeap next → next.regs.edx.toNat % pageSize = 0 ∧
      next.regs.edx.toNat + next.regs.ecx.toNat ≤ L.userTop
    | _ => True
  | .clock _ => True

section Alone

open UserMemory (Transparent Managed CleanCopies)

variable {T : TrapLayout} {L : FaultLayout} {pf : PageFile P} {buffering : Bool}
  {nums : SyscallNumbers} {other : Nat → BitVec 32 → BitVec 32} {prog : Nat → Program}
  {k k' k₀ : KernelState (UserMemory P)} {cur : Nat}

/-- Each environment is where its program alone could be from `k₀`. -/
structure Alone (T : TrapLayout) (L : FaultLayout) (pf : PageFile P) (nums : SyscallNumbers)
    (prog : Nat → Program) (k₀ k : KernelState (UserMemory P)) (flat : FlatMemory) : Prop where
  mode : UserMode T k
  length : k.bypassInstrLength = 0#8
  transparent : Transparent L pf k.rest flat
  steps : ∀ e < T.nenv, ReflTransGen (Process.Step (prog e) nums)
    ⟨cpuOf T k₀ e, k₀.rest.standsFor pf e⟩ ⟨cpuOf T k e, flat e⟩

/-- The environment that runs makes a step, and the others are as they were. -/
theorem Alone.step {flat flat' : FlatMemory} (cur : Nat) (h : Alone T L pf nums prog k₀ k flat)
    (hmode : UserMode T k') (hlength : k'.bypassInstrLength = 0#8)
    (htransparent : Transparent L pf k'.rest flat')
    (hstep : ReflTransGen (Process.Step (prog cur) nums) ⟨cpuOf T k cur, flat cur⟩
      ⟨cpuOf T k' cur, flat' cur⟩)
    (hothers : ∀ e < T.nenv, e ≠ cur → cpuOf T k' e = cpuOf T k e ∧ flat' e = flat e) :
    Alone T L pf nums prog k₀ k' flat' := by
  refine ⟨hmode, hlength, htransparent, fun e he => ?_⟩
  by_cases hcur : e = cur
  · subst hcur
    exact (h.steps e he).trans hstep
  · obtain ⟨hcpu, hflat⟩ := hothers e he hcur
    rw [hcpu, hflat]
    exact h.steps e he

/-- A step that takes no trap. -/
theorem Alone.setCpu {flat flat' : FlatMemory} {next : Cpu} {s : UserMemory P}
    (h : Alone T L pf nums prog k₀ k flat) (hcur : k.sched.curenv = some cur)
    (hnext : rpl next.cs = 3#16) (htransparent : Transparent L pf s flat')
    (hstep : Process.Step (prog cur) nums ⟨k.core.cpu, flat cur⟩ ⟨next, flat' cur⟩)
    (hothers : ∀ e, e ≠ cur → flat' e = flat e) :
    Alone T L pf nums prog k₀ ((k.setCpu next).setRest s) flat' := by
  have hof : ∀ e, cpuOf T ((k.setCpu next).setRest s) e = if e = cur then next else cpuOf T k e :=
    cpuOf_setCpu hcur next
  have hcpu : cpuOf T k cur = k.core.cpu := if_pos hcur
  refine h.step cur (h.mode.setCpu hcur hnext) h.length htransparent (.single ?_)
    fun e _ he => ⟨(hof e).trans (if_neg he), hothers e he⟩
  rw [hof, if_pos rfl, hcpu]
  exact hstep

/-- After a page fault the program is where it was. -/
theorem Alone.pageFault {flat : FlatMemory} {err va : BitVec 32} {junk : WordMemory} {unset : Nat}
    (hapart : T.Apart) (h : Alone T L pf nums prog k₀ k flat) (hcur : k.sched.curenv = some cur)
    (htransparent : ∀ s, k.rest.faultHandler L pf buffering true cur va.toNat unset = some s →
      Transparent L pf s flat)
    (htrap : k.takeTrap T (memoryServices L pf buffering nums other)
      ⟨T.tPgflt, some err, va, junk, unset⟩ = some k') : Alone T L pf nums prog k₀ k' flat := by
  obtain ⟨hmode, hlength, hhandled, hothers⟩ := cpuOf_takeTrap hapart h.mode hcur htrap
  rw [h.length] at hlength hhandled
  have hkept : cpuOf T k' cur = cpuOf T k cur ∧ Transparent L pf k'.rest flat := by
    generalize cpuOf T k' cur = cpu, k'.sched = sched, k'.rest = s at hhandled
    cases hhandled with
    | bypassed _ hne => exact absurd rfl hne
    | fault _ _ hfault => exact ⟨rfl, htransparent _ hfault⟩
    | syscall hnum => exact absurd hnum.symm T.tSyscall_ne_tPgflt
    | clock hnum => exact absurd hnum.symm T.irq0Clock_ne_tPgflt
    | other hne => exact absurd rfl hne
  refine h.step cur hmode hlength hkept.2 ?_ fun e he hne => ⟨hothers e he hne, rfl⟩
  rw [hkept.1]

/-- An interrupt of the clock leaves every program where it is. -/
theorem Alone.clock {flat : FlatMemory} {junk : WordMemory} (hapart : T.Apart)
    (h : Alone T L pf nums prog k₀ k flat) (hcur : k.sched.curenv = some cur)
    (htrap : k.takeTrap T (memoryServices L pf buffering nums other)
      ⟨T.irq0Clock, none, 0#32, junk, 0⟩ = some k') : Alone T L pf nums prog k₀ k' flat := by
  obtain ⟨hmode, hlength, hhandled, hothers⟩ := cpuOf_takeTrap hapart h.mode hcur htrap
  rw [h.length] at hlength hhandled
  have hkept : cpuOf T k' cur = cpuOf T k cur ∧ k'.rest = k.rest := by
    generalize cpuOf T k' cur = cpu, k'.sched = sched, k'.rest = s at hhandled
    cases hhandled with
    | bypassed hnum => exact absurd hnum T.irq0Clock_ne_tPgflt
    | fault hnum => exact absurd hnum T.irq0Clock_ne_tPgflt
    | syscall hnum => exact absurd hnum T.irq0Clock_ne_tSyscall
    | clock _ hclock => exact ⟨rfl, (Option.some.inj hclock).symm⟩
    | other => exact ⟨rfl, rfl⟩
  refine h.step cur hmode hlength (hkept.2 ▸ h.transparent) ?_ fun e he hne =>
    ⟨hothers e he hne, rfl⟩
  rw [hkept.1]

/-- The pages of a call of the user heap are unknown to the program that makes it. -/
theorem forget_self (flat : FlatMemory) (va size : Nat) :
    flat.forget cur va size cur = Process.forget (flat cur) va size := by
  ext a : 1
  simp only [FlatMemory.forget, Process.forget, true_and]

theorem forget_other (flat : FlatMemory) (va size : Nat) {e : Nat} (he : e ≠ cur) :
    flat.forget cur va size e = flat e := by
  ext a : 1
  exact if_neg fun hc => he hc.1

/-- What the services of a system call do to the memory of the programs. -/
theorem transparent_syscall {flat : FlatMemory} {cpu : Cpu} {s s' : UserMemory P} {unset : Nat}
    {ret : BitVec 32} (hstores : pf.StoresPages) (hremoves : pf.RemovesPages)
    (h : Transparent L pf s flat)
    (hproper : nums.OfHeap cpu → cpu.regs.edx.toNat % pageSize = 0 ∧
      cpu.regs.edx.toNat + cpu.regs.ecx.toNat ≤ L.userTop)
    (hcall : (memoryServices L pf buffering nums other).syscall (some cur) cpu.regs.eax cpu.regs.edx
      cpu.regs.ecx cpu.regs.ebx cpu.regs.edi cpu.regs.esi unset s = some (ret, s')) :
    Transparent L pf s'
      (if nums.OfHeap cpu then flat.forget cur cpu.regs.edx.toNat cpu.regs.ecx.toNat
        else flat) := by
  simp only [memoryServices, Option.bind_some] at hcall
  split_ifs at hcall with hallocate hfree
  · have hheap : nums.OfHeap cpu := Or.inl hallocate
    obtain ⟨s₁, hs₁, hr⟩ := Option.map_eq_some_iff.1 hcall
    obtain ⟨-, rfl⟩ := Prod.mk.inj hr
    have hattempt : s.attempt L pf buffering (.allocateMem cur cpu.regs.edx.toNat
        cpu.regs.ecx.toNat (unset ≠ 0)) = some s₁ := hs₁
    have hrange : UserMemory.Event.Proper L (.allocateMem cur cpu.regs.edx.toNat
        cpu.regs.ecx.toNat (unset ≠ 0)) := hproper hheap
    rw [if_pos hheap]
    exact UserMemory.attempt_transparent hstores hremoves hrange h hattempt
  · have hheap : nums.OfHeap cpu := Or.inr hfree
    obtain ⟨s₁, hs₁, hr⟩ := Option.map_eq_some_iff.1 hcall
    obtain ⟨-, rfl⟩ := Prod.mk.inj hr
    have hattempt : s.attempt L pf buffering (.freeMem cur cpu.regs.edx.toNat
        cpu.regs.ecx.toNat) = some s₁ := hs₁
    have hrange : UserMemory.Event.Proper L (.freeMem cur cpu.regs.edx.toNat
        cpu.regs.ecx.toNat) := hproper hheap
    rw [if_pos hheap]
    exact UserMemory.attempt_transparent hstores hremoves hrange h hattempt
  · obtain ⟨-, rfl⟩ := Prod.mk.inj (Option.some.inj hcall)
    rwa [if_neg fun hc => hc.elim hallocate hfree]

/-- A system call is one instruction of the program, with its value in `%eax`. -/
theorem Alone.syscall {flat : FlatMemory} {next : Cpu} {junk : WordMemory} {unset : Nat}
    (hapart : T.Apart) (hstores : pf.StoresPages) (hremoves : pf.RemovesPages)
    (h : Alone T L pf nums prog k₀ k flat) (hcur : k.sched.curenv = some cur)
    (hprog : prog cur k.core.cpu = .syscall next) (hnext : rpl next.cs = 3#16)
    (hproper : nums.OfHeap next → next.regs.edx.toNat % pageSize = 0 ∧
      next.regs.edx.toNat + next.regs.ecx.toNat ≤ L.userTop)
    (htrap : (k.setCpu next).takeTrap T (memoryServices L pf buffering nums other)
      ⟨T.tSyscall, none, 0#32, junk, unset⟩ = some k') :
    ∃ flat', Alone T L pf nums prog k₀ k' flat' := by
  obtain ⟨hmode, hlength, hhandled, hothers⟩ :=
    cpuOf_takeTrap hapart (h.mode.setCpu hcur hnext) hcur htrap
  have hbypass : (k.setCpu next).bypassInstrLength = 0#8 := h.length
  have hof : ∀ e, cpuOf T (k.setCpu next) e = if e = cur then next else cpuOf T k e :=
    cpuOf_setCpu hcur next
  have hcpu : cpuOf T k cur = k.core.cpu := if_pos hcur
  rw [hof, if_pos rfl] at hhandled
  obtain ⟨ret, hret, htransparent⟩ : ∃ ret,
      cpuOf T k' cur = { next with regs := { next.regs with eax := ret } } ∧
      Transparent L pf k'.rest (if nums.OfHeap next then
        flat.forget cur next.regs.edx.toNat next.regs.ecx.toNat else flat) := by
    generalize cpuOf T k' cur = cpu, k'.sched = sched, k'.rest = s at hhandled
    cases hhandled with
    | bypassed hnum => exact absurd hnum T.tSyscall_ne_tPgflt
    | fault hnum => exact absurd hnum T.tSyscall_ne_tPgflt
    | syscall _ hcall =>
      exact ⟨_, rfl, transparent_syscall hstores hremoves h.transparent hproper hcall⟩
    | clock hnum => exact absurd hnum.symm T.irq0Clock_ne_tSyscall
    | other _ hne => exact absurd rfl hne
  refine ⟨_, h.step cur hmode (hlength.trans hbypass) htransparent ?_ fun e he hne => ?_⟩
  · rw [hcpu, hret]
    refine .single ?_
    have hstep : Process.Step (prog cur) nums ⟨k.core.cpu, flat cur⟩ _ := .syscall ret hprog
    split_ifs at hstep ⊢
    · rwa [forget_self]
    · exact hstep
  · refine ⟨(hothers e he hne).trans ((hof e).trans (if_neg hne)), ?_⟩
    split_ifs
    · exact forget_other _ _ _ hne
    · rfl

/-- A store is to the memory of one program. -/
theorem store_self (flat : FlatMemory) (va : Nat) (byte : BitVec 8) :
    flat.store cur va byte cur = Function.update (flat cur) va (some byte) := by
  ext a : 1
  simp only [FlatMemory.store, Function.update_apply, true_and]

theorem store_other (flat : FlatMemory) (va : Nat) (byte : BitVec 8) {e : Nat} (he : e ≠ cur) :
    flat.store cur va byte e = flat e := by
  ext a : 1
  exact if_neg fun hc => he hc.1

/-- Each tick of the system is a step of the program that runs, or of none. -/
theorem advance_alone {tick : Tick} (hapart : T.Apart) (hstores : pf.StoresPages)
    (hremoves : pf.RemovesPages) (huser : ∀ e, (prog e).User)
    (h : ∃ flat, Alone T L pf nums prog k₀ k flat) (hproper : ProperCalls L nums prog k tick)
    (hadvance : k.advance T (memoryServices L pf buffering nums other) prog tick = some k') :
    ∃ flat, Alone T L pf nums prog k₀ k' flat := by
  obtain ⟨flat, h⟩ := h
  obtain ⟨cur, hcur, htick⟩ : ∃ cur, k.sched.curenv = some cur ∧ (match tick with
      | .instruction err junk unset =>
        k.tryInstruction T (memoryServices L pf buffering nums other) prog cur err junk unset
      | .clock junk => k.takeTrap T (memoryServices L pf buffering nums other)
        ⟨T.irq0Clock, none, 0#32, junk, 0⟩) = some k' := by
    cases tick <;> exact Option.bind_eq_some_iff.1 hadvance
  have hcpu : cpuOf T k cur = k.core.cpu := if_pos hcur
  have hmode := (h.mode cur (Or.inl hcur)).2
  rw [hcpu] at hmode
  have hprog := huser cur k.core.cpu hmode
  cases tick with
  | clock junk => exact ⟨flat, h.clock hapart hcur htick⟩
  | instruction err junk unset =>
    have hcalls := hproper cur hcur
    simp only [tryInstruction] at htick
    generalize hinstr : prog cur k.core.cpu = instr at htick hprog hcalls
    cases instr with
    | internal next =>
      obtain rfl := Option.some.inj htick
      exact ⟨flat, h.setCpu hcur hprog h.transparent (.internal hinstr) fun _ _ => rfl⟩
    | load va next =>
      have hrange : UserMemory.Event.Proper L (.load cur va.toNat unset) := trivial
      have hload : ∀ s, k.rest.attempt L pf buffering (.load cur va.toNat unset) = some s →
          Transparent L pf s flat := fun s hs =>
        UserMemory.attempt_transparent hstores hremoves hrange h.transparent hs
      simp only [UserMemory.attempt] at hload
      simp only at htick
      split_ifs at htick hload with hmapped
      · obtain rfl := Option.some.inj htick
        refine ⟨flat, h.setCpu hcur (hprog _) (hload _ rfl) (.load _ hinstr fun b hb => ?_)
          fun _ _ => rfl⟩
        exact (h.transparent.known hb).2 hmapped
      · exact ⟨flat, h.pageFault hapart hcur hload htick⟩
    | store va byte next =>
      have hrange : UserMemory.Event.Proper L (.store cur va.toNat byte unset) := trivial
      have hstore : ∀ s, k.rest.attempt L pf buffering (.store cur va.toNat byte unset) = some s →
          Transparent L pf s (UserMemory.after flat k.rest (.store cur va.toNat byte unset)) :=
        fun s hs => UserMemory.attempt_transparent hstores hremoves hrange h.transparent hs
      simp only [UserMemory.attempt, UserMemory.after] at hstore
      simp only at htick
      split_ifs at htick hstore with hmapped
      · obtain rfl := Option.some.inj htick
        refine ⟨_, h.setCpu hcur hprog (hstore _ rfl) ?_ fun e he => store_other _ _ _ he⟩
        rw [store_self]
        exact .store hinstr
      · exact ⟨flat, h.pageFault hapart hcur hstore htick⟩
    | syscall next => exact h.syscall hapart hstores hremoves hcur hinstr hprog hcalls htick

end Alone

/-- A program that stores a byte on its stack, and loads it. -/
def storeThenLoad (byte : BitVec 8) : Program := fun cpu =>
  if cpu.eip = 0x800020#32 then
    .store 0xEEBFD123#32 byte { cpu with eip := 0x800021#32 }
  else
    .load 0xEEBFD123#32 fun b => { cpu with regs := { cpu.regs with eax := b.setWidth 32 } }

theorem storeThenLoad_user (byte : BitVec 8) : (storeThenLoad byte).User := by
  intro cpu hcpu
  unfold storeThenLoad
  split_ifs
  · exact hcpu
  · exact fun _ => hcpu

/-- Two programs, over the small kernel : both store at one address of theirs. -/
def twoPrograms (e : Nat) : Program :=
  storeThenLoad (BitVec.ofNat 8 (7 + 2 * e))

/-- The small kernel : environment 0 runs, and environment 1 waits. -/
def firstProcess : KernelState (UserMemory (Nat → Nat → Option PageBytes)) where
  core := ⟨VirtualCpus.userCpu 0#32, fun x =>
    if x = 0xF0200134#32 then 0x1B#32 else if x = 0xF0200130#32 then 0x800020#32 else 0#32⟩
  cr2 := 0#32
  sched := VirtualCpus.twoEnvs.sched
  runnable _ := true
  bypassInstrLength := 0#8
  rest := UserMemory.smallUserMemory fun _ => 1

/-- The first program stores, is interrupted while the second one faults, and loads. -/
def interruptedStore : List Tick :=
  let go : Tick := .instruction 6#32 (fun _ => 1#32) 0
  [go, go, go, .clock fun _ => 2#32, go, .clock fun _ => 3#32, go]

end KernelState

end FosKernel
