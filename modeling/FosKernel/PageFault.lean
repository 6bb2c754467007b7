import FosKernel.Machine
import FosKernel.UserMemory

/-!
# The page fault handler

`trap.c` : Modified Clock, replacement and placement. `lastClockIndex` is one hand for all
environments. Its loop has no value here while it has not returned, and
`modifiedClock_eq_some_iff` says that two trips decide.

An environment whose page is resident reads and writes it, and the processor sets the
used and modified bits : `access`.
-/

namespace FosKernel

namespace UserMemory

variable {P : Type} (L : UserLayout) (pf : PageFile P) (env : Nat)

/-- `isUsed`. -/
def isUsed (pagePerm : BitVec 32) : Bool :=
  pagePerm &&& permUsed ≠ 0#32

/-- `isModified`. -/
def isModified (pagePerm : BitVec 32) : Bool :=
  pagePerm &&& permModified ≠ 0#32

/-- `isValidFaultVa`. -/
def isValidFaultVa (faultVa : Nat) : Bool :=
  L.ustackBottom ≤ faultVa ∧ faultVa < L.ustackTop

/-- The loop of `getVictimIndex`, with its trips to go : the victim, if it is found. -/
def getVictimIndexLoop (try1 : Bool) :
    Nat → Nat → UserMemory P → Option (Option Nat × UserMemory P)
  | 0, _, s => some (none, s)
  | trips + 1, i, s => do
    let x ← (s.envs env).ptrPageWorkingSet[i]?
    let pagePerm := s.ptGetPagePermissions env x.virtualAddress
    if try1 then
      if !isUsed pagePerm ∧ !isModified pagePerm then
        some (some i, { s with lastClockIndex := i + 1 })
      else getVictimIndexLoop try1 trips (i + 1) s
    else if !isUsed pagePerm ∧ isModified pagePerm then
      some (some i, { s with lastClockIndex := i + 1 })
    else
      (s.ptSetPagePermissions env x.virtualAddress 0#32 permUsed).bind
        (getVictimIndexLoop try1 trips (i + 1))

/-- `getVictimIndex(try1, start, end)` : `none` inside for `-1`. -/
def getVictimIndex (try1 : Bool) (start stop : Nat) (s : UserMemory P) :
    Option (Option Nat × UserMemory P) :=
  if (s.envs env).pageWSMaxSize < stop then some (none, s)
  else getVictimIndexLoop env try1 (stop - start) start s

/-- `if (ret == -1) ret = …` : the next scan if the one before found no victim. -/
def orElseScan (r : Option Nat × UserMemory P)
    (scan : UserMemory P → Option (Option Nat × UserMemory P)) :
    Option (Option Nat × UserMemory P) :=
  match r with
  | (some victim, s) => some (some victim, s)
  | (none, s) => scan s

/-- One trip of the loop of `modifiedClock`. -/
def modifiedClockTrip (s : UserMemory P) : Option (Option Nat × UserMemory P) := do
  let ret ← getVictimIndex env true s.lastClockIndex (s.envs env).pageWSMaxSize s
  let ret ← orElseScan ret fun s => getVictimIndex env true 0 s.lastClockIndex s
  let ret ← orElseScan ret fun s =>
    getVictimIndex env false s.lastClockIndex (s.envs env).pageWSMaxSize s
  orElseScan ret fun s => getVictimIndex env false 0 s.lastClockIndex s

/-- The loop of `modifiedClock` : no value if it has not returned within `fuel` trips. -/
def modifiedClockLoop : Nat → UserMemory P → Option (Nat × UserMemory P)
  | 0, _ => none
  | fuel + 1, s =>
    match modifiedClockTrip env s with
    | none => none
    | some (some victim, s) => some (victim, s)
    | some (none, s) => modifiedClockLoop fuel s

/-- `modifiedClock`. A loop that does not return in two trips does not return. -/
def modifiedClock (s : UserMemory P) : Option (Nat × UserMemory P) :=
  modifiedClockLoop env 2 s

/-- The victim is written to the page file if it was modified. -/
def updateVictim (va : Nat) (s : UserMemory P) : Option (UserMemory P) :=
  if isModified (s.ptGetPagePermissions env va) then do
    let f ← ← s.getFrameInfo L env va
    some { s with pageFile := pf.updateEnvPage s.pageFile env va (s.bytes f) }
  else some s

/-- `pageReplacement`. -/
def pageReplacement (victim : Nat) (s : UserMemory P) : Option (UserMemory P) := do
  let x ← (s.envs env).ptrPageWorkingSet[victim]?
  let va := x.virtualAddress
  let s ← updateVictim L pf env va s
  let s ← s.unmapFrame L env va
  let e := (← (s.envs env).pageWsClearEntry victim).advance
  some { s.setEnv env e with lastClockIndex := e.pageLastWSIndex }

/-- What `pagePlacement` does with the page file : the page is read from it, or added to
it if it is a page of the stack. Another address is unmapped before the panic. -/
def readFaultedPage (f faultVa : Nat) (s : UserMemory P) : Option (UserMemory P) :=
  match pf.readEnvPage s.pageFile env faultVa with
  | some contents => some { s with bytes := Function.update s.bytes f contents }
  | none =>
    if isValidFaultVa L faultVa then
      (pf.addEmptyEnvPage s.pageFile env faultVa false).map fun p => { s with pageFile := p }
    else none

/-- `pagePlacement`. -/
def pagePlacement (faultVa victim : Nat) (s : UserMemory P) : Option (UserMemory P) := do
  let (f, m) ← s.heap.memory.allocateFrame
  let s ← (s.setMemory m).mapFrame L env f faultVa (permPresent ||| permUser ||| permWriteable)
  let s ← readFaultedPage L pf env f faultVa s
  let e := (← (s.envs env).pageWsSetEntry L.userTop victim faultVa)
  let e := { e with pageLastWSIndex := victim }.advance
  some { s.setEnv env e with lastClockIndex := e.pageLastWSIndex }

/-- `page_fault_handler`. With another replacement algorithm than Modified Clock the victim
is `unset`, whatever the variable holds. -/
def pageFaultHandler (faultVa unset : Nat) (s : UserMemory P) : Option (UserMemory P) :=
  let faultVa := roundDown faultVa pageSize
  if (s.envs env).pageWSMaxSize ≤ (s.envs env).pageWsGetSize then
    if s.pageRepAlgoType = .modifiedClock then do
      let (victim, s) ← modifiedClock env s
      let s ← pageReplacement L pf env victim s
      pagePlacement L pf env faultVa victim s
    else pagePlacement L pf env faultVa unset s
  else pagePlacement L pf env faultVa (s.envs env).pageLastWSIndex s

/-- An access to a resident page sets its used bit, and a store its modified bit. -/
def access (va : Nat) (store : Option PageBytes) (s : UserMemory P) : UserMemory P :=
  match s.getPageTable env va with
  | none => s
  | some t =>
    let e := t.entries (ptx va)
    if IsPresent e then
      match store with
      | none => s.setMemory (s.heap.memory.setEntry env va t (e ||| permUsed))
      | some contents =>
        { s.setMemory (s.heap.memory.setEntry env va t (e ||| (permUsed ||| permModified))) with
          bytes := Function.update s.bytes (frameNumber e) contents }
    else s

/-- What happens to user memory : a page fault, a system call of the user heap, or an
access of an environment to its own memory. -/
inductive Call where
  | fault (env faultVa unset : Nat)
  | allocateMem (env va size : Nat) (noSpace : Bool)
  | freeMem (env va size : Nat)
  | access (env va : Nat) (store : Option PageBytes)

/-- A call made of user memory. -/
def step (s : UserMemory P) : Call → Option (UserMemory P)
  | .fault env faultVa unset => pageFaultHandler L pf env faultVa unset s
  | .allocateMem env va size noSpace => s.allocateMem pf env va size noSpace
  | .freeMem env va size => s.freeMem L pf env va size
  | .access env va store => some (access env va store s)

end UserMemory

end FosKernel
