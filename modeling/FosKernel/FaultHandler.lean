import FosKernel.PageReplacement

/-!
# The fault handler

`fault_handler` of `trap.c` : a fault whose directory entry is not present gets a page table
(`table_fault_handler`), and any other goes to the page fault handler. A fault of the kernel
below its stack, and one of the user above the user's, is a panic.

`attempt` is what the processor makes of an instruction that loads or stores a byte : it is done
where the page is resident, and is a fault otherwise, after which it is tried again. An attempt
is a call of user memory, or makes a page table (`attempt_cases`), so it keeps what these keep
(`attempt_managed`).
-/

namespace FosKernel

/-- The bounds that `fault_handler` compares a fault with. -/
structure FaultLayout extends UserLayout where
  kernelStackTop : Nat
  kernelStackSize : Nat
  userLimit : Nat

namespace UserMemory

variable {P : Type}

/-! ## The code -/

section Code

variable (L : FaultLayout) (pf : PageFile P) (s : UserMemory P)

/-- `table_fault_handler`. -/
def tableFaultHandler (env faultVa : Nat) : Option (UserMemory P) :=
  (s.createPageTable L.toUserLayout env faultVa).map Prod.snd

/-- `fault_handler`, of a trap from user mode or from the kernel. With buffering on a page fault
is a panic. -/
def faultHandler (buffering userTrap : Bool) (env faultVa unset : Nat) : Option (UserMemory P) :=
  if userTrap = false ∧ faultVa < L.kernelStackTop - L.kernelStackSize ∧ L.userLimit ≤ faultVa then
    none
  else if userTrap = true ∧ L.ustackTop ≤ faultVa then none
  else if (s.getPageTable env faultVa).isNone then s.tableFaultHandler L env faultVa
  else if buffering then none
  else pageFaultHandler L.toUserLayout pf env faultVa unset s

/-- The byte at an address of a resident page. -/
def byteAt (env va : Nat) : BitVec 8 :=
  s.bytes (s.frameOf env va) (va % pageSize)

/-- A frame after a byte of the page is stored. -/
def withByte (env va : Nat) (byte : BitVec 8) : PageBytes :=
  Function.update (s.bytes (s.frameOf env va)) (va % pageSize) byte

end Code

/-- What the environments do to their memory : they load and store bytes, and make the system
calls of the user heap. `unset` and `noSpace` are variables that the kernel does not set. -/
inductive Event where
  | load (env va unset : Nat)
  | store (env va : Nat) (byte : BitVec 8) (unset : Nat)
  | allocateMem (env va size : Nat) (noSpace : Bool)
  | freeMem (env va size : Nat)

/-- One try of an instruction, or a system call. -/
def attempt (L : FaultLayout) (pf : PageFile P) (buffering : Bool) (s : UserMemory P) :
    Event → Option (UserMemory P)
  | .load env va unset =>
    if s.Mapped env va then some (access env va none s)
    else s.faultHandler L pf buffering true env va unset
  | .store env va byte unset =>
    if s.Mapped env va then some (access env va (some (s.withByte env va byte)) s)
    else s.faultHandler L pf buffering true env va unset
  | .allocateMem env va size noSpace => s.allocateMem pf env va size noSpace
  | .freeMem env va size => s.freeMem L.toUserLayout pf env va size

/-! ## What an attempt is -/

variable {L : FaultLayout} {pf : PageFile P} {s s' : UserMemory P} {buffering userTrap : Bool}
  {env va unset : Nat} {ev : Event}

/-- A fault of the user gets a page table, or goes to the page fault handler. -/
theorem faultHandler_cases (h : s.faultHandler L pf buffering userTrap env va unset = some s') :
    (∃ t, FindsPageTable L.toUserLayout s env va t s') ∨
    (buffering = false ∧ pageFaultHandler L.toUserLayout pf env va unset s = some s') := by
  unfold faultHandler at h
  split_ifs at h with hkernel huser htable hbuffering
  · obtain ⟨⟨t, s₁⟩, hcreate, rfl⟩ := Option.map_eq_some_iff.1 h
    refine Or.inl ⟨t, findsPageTable ?_⟩
    rw [getOrCreatePageTable, Option.isNone_iff_eq_none.1 htable]
    exact hcreate
  · exact Or.inr ⟨by simpa using hbuffering, h⟩

/-- An attempt makes a page table, or is a call : a page fault of a page that is not resident
among others. -/
theorem attempt_cases (h : attempt L pf buffering s ev = some s') :
    (∃ env va t, FindsPageTable L.toUserLayout s env va t s') ∨
    (∃ c, (∀ env, Admissible env s c) ∧ step L.toUserLayout pf s c = some s') := by
  have hfault : ∀ {env va unset}, ¬s.Mapped env va →
      s.faultHandler L pf buffering true env va unset = some s' →
      (∃ env va t, FindsPageTable L.toUserLayout s env va t s') ∨
        (∃ c, (∀ env, Admissible env s c) ∧ step L.toUserLayout pf s c = some s') := by
    intro env va unset hnon h
    rcases faultHandler_cases h with ⟨t, hfinds⟩ | ⟨-, hpage⟩
    · exact Or.inl ⟨env, va, t, hfinds⟩
    · exact Or.inr ⟨.fault env va unset, fun env' henv => henv ▸ hnon, hpage⟩
  cases ev with
  | load env va unset =>
    simp only [attempt] at h
    split_ifs at h with hmapped
    · exact Or.inr ⟨.access env va none, fun _ => trivial, h⟩
    · exact hfault hmapped h
  | store env va byte unset =>
    simp only [attempt] at h
    split_ifs at h with hmapped
    · exact Or.inr ⟨.access env va _, fun _ => trivial, h⟩
    · exact hfault hmapped h
  | allocateMem env va size noSpace =>
    exact Or.inr ⟨.allocateMem env va size noSpace, fun _ => trivial, h⟩
  | freeMem env va size => exact Or.inr ⟨.freeMem env va size, fun _ => trivial, h⟩

/-- A new page table changes no working set and no mapping. -/
theorem workingSetOk_findsPageTable {L : UserLayout} {t : PageTable} {e : Nat} (hs : s.NoBuffering)
    (h : FindsPageTable L s env va t s') (hok : WorkingSetOk L s e) : WorkingSetOk L s' e := by
  obtain ⟨hkeeps, -, hentry⟩ := h.keeps hs
  have hres : s'.resident L e = s.resident L e :=
    resident_congr fun a => by rw [Mapped, hentry, Mapped]
  exact ⟨hkeeps.envs ▸ hok.slots, hres ▸ hkeeps.envs ▸ hok.tracks⟩

theorem attempt_framesOwned (h : FramesOwned L.toUserLayout s)
    (hattempt : attempt L pf buffering s ev = some s') : FramesOwned L.toUserLayout s' := by
  rcases attempt_cases hattempt with ⟨env, va, t, hfinds⟩ | ⟨c, -, hstep⟩
  · exact h.of_sameFrames (h.findsPageTable_spec hfinds).toSameFrames
  · exact step_framesOwned h hstep

/-- What every attempt keeps of user memory under Modified Clock. -/
structure Managed (L : FaultLayout) (s : UserMemory P) : Prop where
  owned : FramesOwned L.toUserLayout s
  pageRepAlgoType : s.pageRepAlgoType = .modifiedClock
  workingSets : ∀ env, WorkingSetOk L.toUserLayout s env

theorem attempt_managed (h : Managed L s) (hattempt : attempt L pf buffering s ev = some s') :
    Managed L s' := by
  have hs := h.owned.noBuffering
  have hown := attempt_framesOwned h.owned hattempt
  rcases attempt_cases hattempt with ⟨env, va, t, hfinds⟩ | ⟨c, hc, hstep⟩
  · exact ⟨hown, (hfinds.keeps hs).1.pageRepAlgoType.trans h.pageRepAlgoType,
      fun env => workingSetOk_findsPageTable hs hfinds (h.workingSets env)⟩
  · exact ⟨hown, (keepsOthers_step hs hstep).pageRepAlgoType.trans h.pageRepAlgoType,
      fun env => step_workingSetOk hs h.pageRepAlgoType (h.workingSets env) (hc env) hstep⟩

theorem run_managed {s₀ : UserMemory P} {events : List Event} (h : Managed L s₀)
    (hrun : Machine.run (attempt L pf buffering) s₀ events = some s) : Managed L s :=
  Machine.run_induction (fun _ _ _ h hattempt => attempt_managed h hattempt) h hrun

end UserMemory

end FosKernel
