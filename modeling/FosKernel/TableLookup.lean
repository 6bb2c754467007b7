import FosKernel.ClockTermination
import FosKernel.KernelBlocks
import FosKernel.KernelHeapScan

/-!
# Page tables through `kheap_virtual_address`

The code finds the page table of a user address by `kheap_virtual_address`, of the frame that
its directory entry names. That is 0 for a heap page above `lastAllocatedKHpage`, and for a
frame that is behind no page the search may never return. `ByLookup` has the functions of user
memory once more, with every lookup through the search; an access to a table through the null
pointer has no value.

`TablesFound` : the page tables of an environment are not above `lastAllocatedKHpage`. Then the
search finds each of them (`found_of_tablesFound`), and an attempt to load or store is what it is
in `UserMemory` (`attempt_eq`). `freeMem` looks for tables that are not there too, which returns
with the hand below the end of the heap (`freeMem_eq`).
-/

namespace FosKernel

namespace UserMemory

variable {P : Type}

/-- The directory entry of `va` : `create_page_table` constructs it of the table's frame. -/
def directoryEntry (s : UserMemory P) (env va : Nat) : Entry :=
  match s.getPageTable env va with
  | some t =>
    constructEntry (toPhysicalAddress t.frame) (permPresent ||| permUser ||| permWriteable)
  | none => 0#32

namespace ByLookup

/-! ## The code -/

section Code

variable (L : UserLayout) (D : KernelDirectory) (fuel : Nat) (pf : PageFile P) (env : Nat)

/-- `get_page_table` of a user address : the table pointer. -/
def getPageTable (va : Nat) (s : UserMemory P) : Option Nat :=
  (s.heap.kheapVirtualAddress L.toKernelHeapLayout D fuel
    (extractAddress (s.directoryEntry env va))).map fun ptrPageTable =>
      if IsPresent (s.directoryEntry env va) then ptrPageTable else 0

/-- An access to the page table of `va`, where the directory entry is looked at first. -/
def throughTable {α : Type} (va : Nat) (s : UserMemory P) (x : Option α) : Option α :=
  if IsPresent (s.directoryEntry env va) then
    (getPageTable L D fuel env va s).bind fun ptrPageTable =>
      if ptrPageTable = 0 then none else x
  else x

/-- `pt_get_page_permissions`. -/
def ptGetPagePermissions (va : Nat) (s : UserMemory P) : Option (BitVec 32) :=
  throughTable L D fuel env va s (some (s.ptGetPagePermissions env va))

/-- `pt_set_page_permissions`. -/
def ptSetPagePermissions (va : Nat) (toSet toClear : BitVec 32) (s : UserMemory P) :
    Option (UserMemory P) :=
  throughTable L D fuel env va s (s.ptSetPagePermissions env va toSet toClear)

/-- `get_frame_info`. -/
def getFrameInfo (va : Nat) (s : UserMemory P) : Option (Option Nat) :=
  (getPageTable L D fuel env va s).bind fun ptrPageTable =>
    if ptrPageTable = 0 then some none else s.getFrameInfo L env va

/-- `unmap_frame`. -/
def unmapFrame (va : Nat) (s : UserMemory P) : Option (UserMemory P) :=
  (getPageTable L D fuel env va s).bind fun ptrPageTable =>
    if ptrPageTable = 0 then some s else s.unmapFrame L env va

/-- `map_frame`. -/
def mapFrame (f va : Nat) (perm : BitVec 32) (s : UserMemory P) : Option (UserMemory P) :=
  (getPageTable L D fuel env va s).bind fun ptrPageTable =>
    if IsPresent (s.directoryEntry env va) ∧ ptrPageTable = 0 then none
    else s.mapFrame L env f va perm

/-- The loop of `getVictimIndex`. -/
def getVictimIndexLoop (try1 : Bool) :
    Nat → Nat → UserMemory P → Option (Option Nat × UserMemory P)
  | 0, _, s => some (none, s)
  | trips + 1, i, s => do
    let x ← (s.envs env).ptrPageWorkingSet[i]?
    let pagePerm ← ptGetPagePermissions L D fuel env x.virtualAddress s
    if try1 then
      if !isUsed pagePerm ∧ !isModified pagePerm then
        some (some i, { s with lastClockIndex := i + 1 })
      else getVictimIndexLoop try1 trips (i + 1) s
    else if !isUsed pagePerm ∧ isModified pagePerm then
      some (some i, { s with lastClockIndex := i + 1 })
    else
      (ptSetPagePermissions L D fuel env x.virtualAddress 0#32 permUsed s).bind
        (getVictimIndexLoop try1 trips (i + 1))

/-- `getVictimIndex`. -/
def getVictimIndex (try1 : Bool) (start stop : Nat) (s : UserMemory P) :
    Option (Option Nat × UserMemory P) :=
  if (s.envs env).pageWSMaxSize < stop then some (none, s)
  else getVictimIndexLoop L D fuel env try1 (stop - start) start s

/-- One trip of the loop of `modifiedClock`. -/
def modifiedClockTrip (s : UserMemory P) : Option (Option Nat × UserMemory P) := do
  let ret ← getVictimIndex L D fuel env true s.lastClockIndex (s.envs env).pageWSMaxSize s
  let ret ← orElseScan ret fun s => getVictimIndex L D fuel env true 0 s.lastClockIndex s
  let ret ← orElseScan ret fun s =>
    getVictimIndex L D fuel env false s.lastClockIndex (s.envs env).pageWSMaxSize s
  orElseScan ret fun s => getVictimIndex L D fuel env false 0 s.lastClockIndex s

/-- The loop of `modifiedClock`. -/
def modifiedClockLoop : Nat → UserMemory P → Option (Nat × UserMemory P)
  | 0, _ => none
  | trips + 1, s =>
    match modifiedClockTrip L D fuel env s with
    | none => none
    | some (some victim, s) => some (victim, s)
    | some (none, s) => modifiedClockLoop trips s

/-- `modifiedClock`. -/
def modifiedClock (s : UserMemory P) : Option (Nat × UserMemory P) :=
  modifiedClockLoop L D fuel env 2 s

/-- The victim is written to the page file if it was modified. -/
def updateVictim (va : Nat) (s : UserMemory P) : Option (UserMemory P) := do
  let victimPagePerm ← ptGetPagePermissions L D fuel env va s
  if isModified victimPagePerm then
    let f ← ← getFrameInfo L D fuel env va s
    some { s with pageFile := pf.updateEnvPage s.pageFile env va (s.bytes f) }
  else some s

/-- `pageReplacement`. -/
def pageReplacement (victim : Nat) (s : UserMemory P) : Option (UserMemory P) := do
  let x ← (s.envs env).ptrPageWorkingSet[victim]?
  let va := x.virtualAddress
  let s ← updateVictim L D fuel pf env va s
  let s ← unmapFrame L D fuel env va s
  let e := (← (s.envs env).pageWsClearEntry victim).advance
  some { s.setEnv env e with lastClockIndex := e.pageLastWSIndex }

/-- `pagePlacement`. -/
def pagePlacement (faultVa victim : Nat) (s : UserMemory P) : Option (UserMemory P) := do
  let (f, m) ← s.heap.memory.allocateFrame
  let s ← mapFrame L D fuel env f faultVa (permPresent ||| permUser ||| permWriteable)
    (s.setMemory m)
  let s ← readFaultedPage L pf env f faultVa s
  let e := (← (s.envs env).pageWsSetEntry L.userTop victim faultVa)
  let e := { e with pageLastWSIndex := victim }.advance
  some { s.setEnv env e with lastClockIndex := e.pageLastWSIndex }

/-- `page_fault_handler`. -/
def pageFaultHandler (faultVa unset : Nat) (s : UserMemory P) : Option (UserMemory P) :=
  let faultVa := roundDown faultVa pageSize
  if (s.envs env).pageWSMaxSize ≤ (s.envs env).pageWsGetSize then
    if s.pageRepAlgoType = .modifiedClock then do
      let (victim, s) ← modifiedClock L D fuel env s
      let s ← pageReplacement L D fuel pf env victim s
      pagePlacement L D fuel pf env faultVa victim s
    else pagePlacement L D fuel pf env faultVa unset s
  else pagePlacement L D fuel pf env faultVa (s.envs env).pageLastWSIndex s

/-- The loop of `freeResidentPagesInTheWorkingSet`. -/
def freeResidentPagesLoop (va size : Nat) :
    List WorkingSetElement → UserMemory P → Option (List WorkingSetElement × UserMemory P)
  | [], s => some ([], s)
  | x :: rest, s =>
    let tempVa := roundDown x.virtualAddress pageSize
    if x.empty = false ∧ va ≤ tempVa ∧ tempVa < u32 (va + size) then do
      let s ← unmapFrame L D fuel env tempVa s
      freeResidentPagesLoop va size rest s
    else do
      let (kept, s) ← freeResidentPagesLoop va size rest s
      some (if x.empty then kept else x :: kept, s)

/-- `freeResidentPagesInTheWorkingSet`. -/
def freeResidentPagesInTheWorkingSet (va size : Nat) (s : UserMemory P) :
    Option (UserMemory P) := do
  let (kept, s) ← freeResidentPagesLoop L D fuel env va size (s.envs env).ptrPageWorkingSet s
  some (s.setEnv env ((s.envs env).compacted kept))

/-- An empty page table at a heap address is freed, and its directory entry cleared. -/
def freePageTable (va ptrPageTable : Nat) (s : UserMemory P) : Option (UserMemory P) := do
  let heap ← s.heap.kfree L.toKernelHeapLayout ptrPageTable
  let directory := Function.update (heap.memory.directories env) (pdx va) none
  let m := { heap.memory with directories := Function.update heap.memory.directories env directory }
  some { s with heap := { heap with memory := m } }

/-- `removeEmptyNonUsedPages`. -/
def removeEmptyNonUsedPages : Nat → Nat → UserMemory P → Option (UserMemory P)
  | _, 0, s => some s
  | va, noOfPages + 1, s => do
    let ptrPageTable ← getPageTable L D fuel env va s
    match s.getPageTable env va with
    | none => removeEmptyNonUsedPages (va + pageSize) noOfPages s
    | some t =>
      if ptrPageTable ≠ 0 ∧ (List.range 1024).all fun flag => t.entries flag = 0#32 then
        (freePageTable L env va ptrPageTable s).bind
          (removeEmptyNonUsedPages (va + pageSize) noOfPages)
      else removeEmptyNonUsedPages (va + pageSize) noOfPages s

/-- `freeMem`. -/
def freeMem (va size : Nat) (s : UserMemory P) : Option (UserMemory P) := do
  let noOfPages := size / pageSize
  let s := { s with pageFile := freeAllPagees pf env va noOfPages s.pageFile }
  let s ← freeResidentPagesInTheWorkingSet L D fuel env va size s
  removeEmptyNonUsedPages L D fuel env va noOfPages s

end Code

section Attempt

variable (L : FaultLayout) (D : KernelDirectory) (fuel : Nat) (pf : PageFile P)

/-- `fault_handler`. -/
def faultHandler (buffering userTrap : Bool) (env faultVa unset : Nat) (s : UserMemory P) :
    Option (UserMemory P) :=
  if userTrap = false ∧ faultVa < L.kernelStackTop - L.kernelStackSize ∧ L.userLimit ≤ faultVa then
    none
  else if userTrap = true ∧ L.ustackTop ≤ faultVa then none
  else if (s.getPageTable env faultVa).isNone then s.tableFaultHandler L env faultVa
  else if buffering then none
  else pageFaultHandler L.toUserLayout D fuel pf env faultVa unset s

/-- One try of an instruction, or a system call. -/
def attempt (buffering : Bool) (s : UserMemory P) : Event → Option (UserMemory P)
  | .load env va unset =>
    if s.Mapped env va then some (access env va none s)
    else faultHandler L D fuel pf buffering true env va unset s
  | .store env va byte unset =>
    if s.Mapped env va then some (access env va (some (s.withByte env va byte)) s)
    else faultHandler L D fuel pf buffering true env va unset s
  | .allocateMem env va size noSpace => s.allocateMem pf env va size noSpace
  | .freeMem env va size => freeMem L.toUserLayout D fuel pf env va size s

end Attempt

/-! ## Lookups that find the tables -/

variable {L : UserLayout} {D : KernelDirectory} {fuel : Nat} {pf : PageFile P}
  {s s' s'' : UserMemory P} {env va f v i size unset : Nat} {t : PageTable} {m : Memory} {e : Entry}

/-- The search finds each page table of the environment. -/
def Found (L : UserLayout) (D : KernelDirectory) (fuel env : Nat) (s : UserMemory P) : Prop :=
  ∀ va t, s.getPageTable env va = some t →
    ∃ ptrPageTable, ptrPageTable ≠ 0 ∧ getPageTable L D fuel env va s = some ptrPageTable

/-- What a search reads is the same. -/
structure SameLookups (s s' : UserMemory P) : Prop extends SameBlocks s s' where
  hand : s'.heap.lastAllocatedKHpage = s.heap.lastAllocatedKHpage

theorem SameLookups.of_heap (h : s'.heap = s.heap) : SameLookups s s' :=
  ⟨sameBlocks_of_heap h, by rw [h]⟩

theorem SameLookups.trans (h : SameLookups s s') (h' : SameLookups s' s'') : SameLookups s s'' :=
  ⟨h.toSameBlocks.trans h'.toSameBlocks, h'.hand.trans h.hand⟩

theorem isPresent_directoryEntry :
    IsPresent (s.directoryEntry env va) ↔ (s.getPageTable env va).isSome := by
  unfold directoryEntry
  cases s.getPageTable env va with
  | none => exact iff_of_false not_isPresent_zero Bool.false_ne_true
  | some t => exact iff_of_true (isPresent_constructEntry _ (permUser ||| permWriteable)) rfl

theorem directoryEntry_congr (h : SameLookups s s') (env va : Nat) :
    s'.directoryEntry env va = s.directoryEntry env va := by
  have hframes := h.frameOfTable env (pdx va)
  unfold frameOfTable at hframes
  unfold directoryEntry UserMemory.getPageTable
  cases ht : s.heap.memory.directories env (pdx va) <;>
    cases ht' : s'.heap.memory.directories env (pdx va) <;> simp_all

/-- The search reads the kernel's entries up to the hand. -/
theorem kheapVirtualAddressLoop_congr {L : KernelHeapLayout} {heap heap' : KernelHeap}
    (hentries : heap'.kernelEntries = heap.kernelEntries)
    (hhand : heap'.lastAllocatedKHpage = heap.lastAllocatedKHpage) :
    ∀ (fuel : Nat) (pa : BitVec 32) (i : Nat), heap'.kheapVirtualAddressLoop L D fuel pa i =
      heap.kheapVirtualAddressLoop L D fuel pa i
  | 0, _, _ => rfl
  | fuel + 1, pa, i => by
    have hread : ∀ ptr va, KernelHeap.tableEntry D heap' ptr va =
        KernelHeap.tableEntry D heap ptr va := fun ptr va => by
      cases ptr with
      | static index => exact congrFun hentries _
      | heap h => rfl
    have hsearch : (fun pa => heap'.kheapVirtualAddressLoop L D fuel pa L.kernelHeapStart) =
        fun pa => heap.kheapVirtualAddressLoop L D fuel pa L.kernelHeapStart :=
      funext fun pa => kheapVirtualAddressLoop_congr hentries hhand fuel pa _
    simp only [KernelHeap.kheapVirtualAddressLoop, KernelHeap.getFrameInfo, hread, hsearch, hhand,
      kheapVirtualAddressLoop_congr hentries hhand fuel pa]

theorem getPageTable_congr (h : SameLookups s s') :
    getPageTable L D fuel env va s' = getPageTable L D fuel env va s := by
  unfold getPageTable KernelHeap.kheapVirtualAddress
  rw [directoryEntry_congr h, kheapVirtualAddressLoop_congr h.kernelEntries h.hand]

theorem Found.congr (h : Found L D fuel env s) (hsame : SameLookups s s') :
    Found L D fuel env s' := by
  intro va t ht
  have hsome : (s.getPageTable env va).isSome := by
    rw [← isPresent_directoryEntry, ← directoryEntry_congr hsame, isPresent_directoryEntry, ht]
    rfl
  obtain ⟨t₀, ht₀⟩ := Option.isSome_iff_exists.1 hsome
  rw [getPageTable_congr hsame]
  exact h va t₀ ht₀

theorem sameLookups_unmapFrame (h : s.unmapFrame L env va = some s') : SameLookups s s' := by
  unfold UserMemory.unmapFrame at h
  split at h
  · obtain rfl := Option.some.inj h
    exact .of_heap rfl
  · next t ht =>
    obtain ⟨⟨e, m⟩, hun, rfl⟩ := Option.map_eq_some_iff.1 h
    exact ⟨sameBlocks_setEntry ht (Memory.sameTables_unmapEntry hun).1.directories, rfl⟩

theorem sameLookups_ptSetPagePermissions {toSet toClear : BitVec 32}
    (h : s.ptSetPagePermissions env va toSet toClear = some s') : SameLookups s s' := by
  obtain ⟨t, ht, rfl⟩ := Option.map_eq_some_iff.1 h
  exact ⟨sameBlocks_setEntry ht rfl, rfl⟩

/-! ## The page fault -/

section Fault

variable (h : Found L D fuel env s)

include h

/-- A table that is there is read through its address. -/
theorem throughTable_eq {α : Type} (x : Option α) : throughTable L D fuel env va s x = x := by
  unfold throughTable
  split
  · next hpresent =>
    obtain ⟨t, ht⟩ := Option.isSome_iff_exists.1 (isPresent_directoryEntry.1 hpresent)
    obtain ⟨ptrPageTable, hne, hget⟩ := h va t ht
    rw [hget, Option.bind_some, if_neg hne]
  · rfl

theorem getFrameInfo_eq (htable : (s.getPageTable env va).isSome) :
    getFrameInfo L D fuel env va s = s.getFrameInfo L env va := by
  obtain ⟨t, ht⟩ := Option.isSome_iff_exists.1 htable
  obtain ⟨ptrPageTable, hne, hget⟩ := h va t ht
  rw [getFrameInfo, hget, Option.bind_some, if_neg hne]

theorem unmapFrame_eq (htable : (s.getPageTable env va).isSome) :
    unmapFrame L D fuel env va s = s.unmapFrame L env va := by
  obtain ⟨t, ht⟩ := Option.isSome_iff_exists.1 htable
  obtain ⟨ptrPageTable, hne, hget⟩ := h va t ht
  rw [unmapFrame, hget, Option.bind_some, if_neg hne]

theorem mapFrame_eq (perm : BitVec 32) (htable : (s.getPageTable env va).isSome) :
    mapFrame L D fuel env f va perm s = s.mapFrame L env f va perm := by
  obtain ⟨t, ht⟩ := Option.isSome_iff_exists.1 htable
  obtain ⟨ptrPageTable, hne, hget⟩ := h va t ht
  rw [mapFrame, hget, Option.bind_some, if_neg fun hc => hne hc.2]

end Fault

/-- Two computations are one, and it ends in a state that is `good`. -/
def Agree {α : Type} (good : UserMemory P → Prop) (x y : Option (α × UserMemory P)) : Prop :=
  x = y ∧ ∀ r, y = some r → good r.2

section Agree

variable {α β : Type} {good : UserMemory P → Prop} {x y : Option (α × UserMemory P)}

theorem Agree.none : Agree good (none : Option (α × UserMemory P)) none :=
  ⟨rfl, fun _ hr => by cases hr⟩

theorem Agree.some {a : α} (h : good s) : Agree good (some (a, s)) (some (a, s)) :=
  ⟨rfl, fun _ hr => Option.some.inj hr ▸ h⟩

theorem Agree.bind {g g' : α × UserMemory P → Option (β × UserMemory P)} (h : Agree good x y)
    (hg : ∀ r, good r.2 → Agree good (g r) (g' r)) : Agree good (x.bind g) (y.bind g') := by
  obtain ⟨rfl, hx⟩ := h
  cases hr : x with
  | none => exact .none
  | some r => exact hg r (hx r hr)

end Agree

theorem getVictimIndexLoop_agree (try1 : Bool) : ∀ (trips i : Nat) {s : UserMemory P},
    Found L D fuel env s →
      Agree (Found L D fuel env) (getVictimIndexLoop L D fuel env try1 trips i s)
        (UserMemory.getVictimIndexLoop env try1 trips i s)
  | 0, _, _, h => .some h
  | trips + 1, i, s, h => by
    have hvictim : Found L D fuel env { s with lastClockIndex := i + 1 } := h.congr (.of_heap rfl)
    unfold getVictimIndexLoop UserMemory.getVictimIndexLoop ptGetPagePermissions
      ptSetPagePermissions
    simp only [throughTable_eq h, Option.bind_eq_bind, Option.bind_some]
    cases (s.envs env).ptrPageWorkingSet[i]? with
    | none => exact .none
    | some x =>
      simp only [Option.bind_some]
      split_ifs
      · exact .some hvictim
      · exact getVictimIndexLoop_agree try1 trips (i + 1) h
      · exact .some hvictim
      · cases hset : s.ptSetPagePermissions env x.virtualAddress 0#32 permUsed with
        | none => exact .none
        | some s₁ =>
          exact getVictimIndexLoop_agree try1 trips (i + 1)
            (h.congr (sameLookups_ptSetPagePermissions hset))

theorem getVictimIndex_agree (try1 : Bool) (start stop : Nat) (h : Found L D fuel env s) :
    Agree (Found L D fuel env) (getVictimIndex L D fuel env try1 start stop s)
      (UserMemory.getVictimIndex env try1 start stop s) := by
  unfold getVictimIndex UserMemory.getVictimIndex
  split_ifs
  · exact .some h
  · exact getVictimIndexLoop_agree try1 _ _ h

theorem orElseScan_agree {r : Option Nat × UserMemory P}
    {scan scan' : UserMemory P → Option (Option Nat × UserMemory P)}
    (hscan : ∀ s, Found L D fuel env s → Agree (Found L D fuel env) (scan s) (scan' s))
    (h : Found L D fuel env r.2) :
    Agree (Found L D fuel env) (orElseScan r scan) (orElseScan r scan') := by
  obtain ⟨_ | victim, s⟩ := r
  · exact hscan s h
  · exact .some h

theorem modifiedClockTrip_agree (h : Found L D fuel env s) :
    Agree (Found L D fuel env) (modifiedClockTrip L D fuel env s)
      (UserMemory.modifiedClockTrip env s) := by
  refine (getVictimIndex_agree true _ _ h).bind fun r hr =>
    (orElseScan_agree (fun s hs => ?_) hr).bind fun r hr =>
      (orElseScan_agree (fun s hs => ?_) hr).bind fun r hr => orElseScan_agree (fun s hs => ?_) hr
  · exact getVictimIndex_agree true _ _ hs
  · exact getVictimIndex_agree false _ _ hs
  · exact getVictimIndex_agree false _ _ hs

theorem modifiedClockLoop_agree : ∀ (trips : Nat) {s : UserMemory P}, Found L D fuel env s →
    Agree (Found L D fuel env) (modifiedClockLoop L D fuel env trips s)
      (UserMemory.modifiedClockLoop env trips s)
  | 0, _, _ => .none
  | trips + 1, s, h => by
    obtain ⟨heq, hfound⟩ := modifiedClockTrip_agree h
    unfold modifiedClockLoop UserMemory.modifiedClockLoop
    rw [heq]
    cases htrip : UserMemory.modifiedClockTrip env s with
    | none => exact .none
    | some r =>
      have hr := hfound r htrip
      obtain ⟨_ | victim, s₁⟩ := r
      · exact modifiedClockLoop_agree trips hr
      · exact .some hr

theorem pagePlacement_eq (hs : s.NoBuffering) (h : Found L D fuel env s)
    (htable : (s.getPageTable env va).isSome) :
    pagePlacement L D fuel pf env va v s = UserMemory.pagePlacement L pf env va v s := by
  unfold pagePlacement UserMemory.pagePlacement
  cases ha : s.heap.memory.allocateFrame with
  | none => rfl
  | some r =>
    obtain ⟨f, m⟩ := r
    have hdir := (Memory.keepsTables_allocateFrame ha hs).2
    have hsame : SameLookups s (s.setMemory m) := ⟨⟨rfl, rfl, rfl, fun env k =>
      congrArg (fun d => (d env k).map PageTable.frame) hdir⟩, rfl⟩
    have htable' : ((s.setMemory m).getPageTable env va).isSome := by
      rw [UserMemory.getPageTable, setMemory, hdir]
      exact htable
    simp only [Option.bind_eq_bind, Option.bind_some, mapFrame_eq (h.congr hsame) _ htable']

theorem pageReplacement_eq (h : Found L D fuel env s)
    (htables : ∀ x ∈ (s.envs env).ptrPageWorkingSet, (s.getPageTable env x.virtualAddress).isSome) :
    pageReplacement L D fuel pf env v s = UserMemory.pageReplacement L pf env v s := by
  unfold pageReplacement UserMemory.pageReplacement
  cases hx : (s.envs env).ptrPageWorkingSet[v]? with
  | none => rfl
  | some x =>
    have htable := htables x (List.mem_of_getElem? hx)
    have hupdate : updateVictim L D fuel pf env x.virtualAddress s =
        UserMemory.updateVictim L pf env x.virtualAddress s := by
      unfold updateVictim UserMemory.updateVictim ptGetPagePermissions
      simp only [throughTable_eq h, getFrameInfo_eq h htable, Option.bind_eq_bind, Option.bind_some]
    simp only [Option.bind_eq_bind, Option.bind_some, hupdate]
    cases hwrite : UserMemory.updateVictim L pf env x.virtualAddress s with
    | none => rfl
    | some s₁ =>
      have hheap := (updateVictim_spec hwrite).1
      have htable₁ : (s₁.getPageTable env x.virtualAddress).isSome := by
        rw [UserMemory.getPageTable, hheap]
        exact htable
      simp only [Option.bind_some, unmapFrame_eq (h.congr (.of_heap hheap)) htable₁]

/-- The page fault of a page with a page table, where the pages of a full working set have
theirs. -/
theorem pageFaultHandler_eq (hs : s.NoBuffering) (h : Found L D fuel env s)
    (htable : (s.getPageTable env va).isSome)
    (htables : (s.envs env).Full →
      ∀ x ∈ (s.envs env).ptrPageWorkingSet, (s.getPageTable env x.virtualAddress).isSome) :
    pageFaultHandler L D fuel pf env va unset s =
      UserMemory.pageFaultHandler L pf env va unset s := by
  have hpdx : pdx (roundDown va pageSize) = pdx va := (pdx_ptx_iff.2 (roundDown_div va)).1
  have htable' : (s.getPageTable env (roundDown va pageSize)).isSome := by
    rwa [UserMemory.getPageTable, hpdx]
  unfold pageFaultHandler UserMemory.pageFaultHandler
  dsimp only
  split_ifs with hfull halgo
  · obtain ⟨hclock, hfound⟩ : Agree (Found L D fuel env) (modifiedClock L D fuel env s)
        (UserMemory.modifiedClock env s) := modifiedClockLoop_agree 2 h
    rw [hclock]
    cases hvictim : UserMemory.modifiedClock env s with
    | none => rfl
    | some r =>
      obtain ⟨v, s₁⟩ := r
      obtain ⟨hclears, -⟩ := modifiedClock_spec hvictim
      have h₁ : Found L D fuel env s₁ := hfound _ hvictim
      have htables₁ : ∀ x ∈ (s₁.envs env).ptrPageWorkingSet,
          (s₁.getPageTable env x.virtualAddress).isSome := fun x hx => by
        rw [hclears.envs] at hx
        rw [hclears.table]
        exact htables (Env.full_iff.1 hfull) x hx
      simp only [Option.bind_eq_bind, Option.bind_some, pageReplacement_eq h₁ htables₁]
      cases hreplace : UserMemory.pageReplacement L pf env v s₁ with
      | none => rfl
      | some s₂ =>
        obtain ⟨x, s₃, s₄, e, -, hwrite, hun, -, rfl⟩ := pageReplacement_eq_some hreplace
        have hsame : SameLookups s₁ s₄ :=
          (SameLookups.of_heap (updateVictim_spec hwrite).1).trans (sameLookups_unmapFrame hun)
        have hplaced : Found L D fuel env { s₄.setEnv env e.advance with
            lastClockIndex := e.advance.pageLastWSIndex } :=
          h₁.congr (hsame.trans (.of_heap rfl))
        have hkeeps := (updateVictim_spec hwrite).2.trans (unmaps_unmapFrame hun).toKeeps
        refine pagePlacement_eq (hkeeps.noBuffering (hclears.noBuffering hs)) hplaced ?_
        have hslot : (s₄.getPageTable env (roundDown va pageSize)).isSome := by
          rw [← isPresent_directoryEntry, directoryEntry_congr hsame, isPresent_directoryEntry,
            hclears.table]
          exact htable'
        exact hslot
  · exact pagePlacement_eq hs h htable'
  · exact pagePlacement_eq hs h htable'

/-! ## When the tables are found -/

open KernelHeap (DirectoryBoot Reserved owner frameAt)

/-- Each page table of the environment is a page of the kernel heap that is not above
`lastAllocatedKHpage`. -/
def TablesFound (L : UserLayout) (s : UserMemory P) (env : Nat) : Prop :=
  ∀ k t, s.heap.memory.directories env k = some t →
    ∃ i, TableBlock L.toKernelHeapLayout s.heap t i ∧ L.addr i ≤ s.heap.lastAllocatedKHpage

theorem extractAddress_directoryEntry (ht : s.getPageTable env va = some t) :
    extractAddress (s.directoryEntry env va) = toPhysicalAddress t.frame := by
  rw [directoryEntry, ht]
  exact extractAddress_constructEntry _ (by decide)

/-- The page of a table is live, and has the frame of the table. -/
theorem TableBlock.live (hb : TableBlock L.toKernelHeapLayout s.heap t i) :
    (owner L.toKernelHeapLayout s.heap i).isSome ∧
      frameAt L.toKernelHeapLayout s.heap i = t.frame := by
  have htagged := (hb.block.tagged i hb.lt_pages).2 ⟨le_rfl, Nat.lt_succ_self i⟩
  exact ⟨(KernelHeap.owner_isSome_iff_nonEmpty hb.lt_pages).2 htagged.1,
    ((hb.resolves i hb.lt_pages).2 rfl).2⟩

/-- The page tables are found if no live page is above the hand. -/
theorem TablesFound.of_nonEmpty (htables : TablesOk L s)
    (hbelow : ∀ i < L.pages, KernelHeap.NonEmpty s.heap i →
      L.addr i ≤ s.heap.lastAllocatedKHpage) : TablesFound L s env := by
  intro k t ht
  obtain ⟨i, hb⟩ := htables.backed env k t ht
  have htagged := (hb.block.tagged i hb.lt_pages).2 ⟨le_rfl, Nat.lt_succ_self i⟩
  exact ⟨i, hb, hbelow i hb.lt_pages htagged.1⟩

theorem smallDirectory_boot (size : Nat → Nat) :
    DirectoryBoot smallUserLayout.toKernelHeapLayout KernelHeap.smallDirectory
      (smallUserMemory size).heap where
  kernelBase_pos := by decide
  kernelBase_le := by decide
  present := by decide
  first := by decide
  last := rfl
  reserved := by
    show 0 ∉ [8, 7, 6, 5, 4, 3, 2, 1]
    decide

theorem addr_ne_zero {heap₀ : KernelHeap} (hd : DirectoryBoot L.toKernelHeapLayout D heap₀) :
    L.addr i ≠ 0 := by
  have hpos := hd.kernelBase_pos
  have := KernelHeap.pdx_kernel hd i
  omega

section Search

variable {heap₀ : KernelHeap} (hd : DirectoryBoot L.toKernelHeapLayout D heap₀)
  (h : KernelHeap.Invariant L.toKernelHeapLayout s.heap)

include hd h

/-- A page table is found exactly when it is not above `lastAllocatedKHpage`. -/
theorem getPageTable_iff (hr : Reserved L.toKernelHeapLayout s.heap)
    (ht : s.getPageTable env va = some t) (hb : TableBlock L.toKernelHeapLayout s.heap t i) :
    (∃ fuel, getPageTable L D fuel env va s = some (L.addr i)) ↔
      L.addr i ≤ s.heap.lastAllocatedKHpage := by
  obtain ⟨hlive, hframe⟩ := TableBlock.live hb
  have hpresent : IsPresent (s.directoryEntry env va) :=
    isPresent_directoryEntry.2 (Option.isSome_iff_exists.2 ⟨t, ht⟩)
  rw [← KernelHeap.virtualAddressReturns_iff hd h hr hlive, hframe]
  unfold getPageTable KernelHeap.VirtualAddressReturns
  simp only [if_pos hpresent, Option.map_id', extractAddress_directoryEntry ht]

/-- The lookup of a page table that is not there returns exactly when the hand is not on the last
page of the address space. -/
theorem getPageTable_none_iff (hr : Reserved L.toKernelHeapLayout s.heap)
    (hnone : s.getPageTable env va = none) :
    (∃ fuel, getPageTable L D fuel env va s = some 0) ↔
      s.heap.lastAllocatedKHpage + pageSize < 4294967296 := by
  have hentry : s.directoryEntry env va = 0#32 := by
    rw [directoryEntry, hnone]
  have hzero : extractAddress 0#32 = 0#32 := rfl
  unfold getPageTable
  rw [hentry, hzero]
  constructor
  · rintro ⟨fuel, hget⟩
    obtain ⟨a, ha, -⟩ := Option.map_eq_some_iff.1 hget
    by_contra htop
    obtain ⟨j, hj, hhand⟩ := h.hand
    have hmax := L.max_le
    rw [L.max_eq_addr] at hmax
    rw [hhand, L.addr_succ] at htop
    obtain ⟨rfl, htop'⟩ : j = L.pages ∧ L.addr (L.pages + 1) = 4294967296 := by
      unfold KernelHeapLayout.addr pageSize at *
      omega
    have hloop : s.heap.kheapVirtualAddressLoop L.toKernelHeapLayout D fuel 0#32 (L.addr 0) =
        none :=
      (KernelHeap.kheapVirtualAddressLoop_wrapped hd h hr hhand htop' fuel).2 0 (Nat.zero_le _)
    cases hloop.symm.trans ha
  · intro htop
    obtain ⟨a, ha⟩ := KernelHeap.kheapVirtualAddress_returns hd h le_rfl hr htop 0#32
    exact ⟨L.pages + 2, by rw [ha, Option.map_some, if_neg not_isPresent_zero]⟩

variable (hfuel : L.pages + 2 ≤ fuel)

include hfuel

theorem getPageTable_of_block (ht : s.getPageTable env va = some t)
    (hb : TableBlock L.toKernelHeapLayout s.heap t i)
    (hle : L.addr i ≤ s.heap.lastAllocatedKHpage) :
    getPageTable L D fuel env va s = some (L.addr i) := by
  obtain ⟨hlive, hframe⟩ := TableBlock.live hb
  have hpresent : IsPresent (s.directoryEntry env va) :=
    isPresent_directoryEntry.2 (Option.isSome_iff_exists.2 ⟨t, ht⟩)
  have hsearch := KernelHeap.kheapVirtualAddress_page hd h hfuel hlive hle
  rw [hframe] at hsearch
  rw [getPageTable, extractAddress_directoryEntry ht, hsearch, Option.map_some, if_pos hpresent]

theorem getPageTable_of_none (hhand : s.heap.lastAllocatedKHpage < L.kernelHeapMax)
    (hnone : s.getPageTable env va = none) : getPageTable L D fuel env va s = some 0 := by
  have hentry : s.directoryEntry env va = 0#32 := by
    rw [directoryEntry, hnone]
  obtain ⟨a, ha⟩ := KernelHeap.kheapVirtualAddress_below hd h hfuel hhand (extractAddress 0#32)
  rw [getPageTable, hentry, ha, Option.map_some, if_neg not_isPresent_zero]

theorem found_of_tablesFound (hfound : TablesFound L s env) : Found L D fuel env s := by
  intro va t ht
  obtain ⟨i, hb, hle⟩ := hfound _ t ht
  exact ⟨L.addr i, addr_ne_zero hd, getPageTable_of_block hd h hfuel ht hb hle⟩

end Search

/-! ## freeMem -/

/-- What the lookups of `freeMem` need. -/
structure Lookable (L : UserLayout) (env : Nat) (s : UserMemory P) : Prop where
  owned : FramesOwned L s
  tables : TablesOk L s
  found : TablesFound L s env
  hand : s.heap.lastAllocatedKHpage < L.kernelHeapMax

theorem Lookable.unmaps (h : Lookable L env s) (howned : FramesOwned L s') (hun : Unmaps s s')
    (hhand : s'.heap.lastAllocatedKHpage = s.heap.lastAllocatedKHpage) : Lookable L env s' := by
  refine ⟨howned, h.tables.unmaps hun, fun k t ht => ?_, hhand ▸ h.hand⟩
  obtain ⟨t₀, ht₀, hframe⟩ := hun.of_some ht
  obtain ⟨i, hb, hle⟩ := h.found k t₀ ht₀
  exact ⟨i, hb.unmaps hun hframe, hhand ▸ hle⟩

theorem Lookable.unmapped (h : Lookable L env s) (hun : s.unmapFrame L env va = some s') :
    Lookable L env s' :=
  h.unmaps (h.owned.unmapFrame_spec hun).owned (unmaps_unmapFrame hun)
    (sameLookups_unmapFrame hun).hand

/-- An empty page table that is freed leaves the others where they are. -/
theorem Lookable.droppedTable (h : Lookable L env s) (ht : s.getPageTable env va = some t)
    (hb : TableBlock L.toKernelHeapLayout s.heap t i) (hzero : ZeroTable t) :
    Lookable L env (s.droppedTable L env (pdx va) i) := by
  have hdrops : Drops L env s (s.droppedTable L env (pdx va) i) := drops_droppedTable ht hb
  refine ⟨h.owned.freePageTable ht hzero (freePageTable_eq hb), h.tables.drops hdrops,
    fun k u hu => ?_, h.hand⟩
  obtain ⟨j, hbj, hle⟩ := h.found k u (hdrops.of_some hu)
  exact ⟨j, hdrops.tableBlock h.tables hu hbj, hle⟩

section FreeMem

variable {heap₀ : KernelHeap} (hd : DirectoryBoot L.toKernelHeapLayout D heap₀)
  (hfuel : L.pages + 2 ≤ fuel)

include hd hfuel

theorem unmapFrame_eq_of_lookable (h : Lookable L env s) (va : Nat) :
    unmapFrame L D fuel env va s = s.unmapFrame L env va := by
  cases ht : s.getPageTable env va with
  | none =>
    rw [unmapFrame, getPageTable_of_none hd h.owned.heap hfuel h.hand ht, Option.bind_some,
      if_pos rfl, UserMemory.unmapFrame, ht]
  | some t =>
    have hfound := found_of_tablesFound hd h.owned.heap hfuel h.found
    exact unmapFrame_eq hfound (by rw [ht]; rfl)

theorem freeResidentPagesLoop_agree (va size : Nat) :
    ∀ (ws : List WorkingSetElement) {s : UserMemory P}, Lookable L env s →
      Agree (Lookable L env) (freeResidentPagesLoop L D fuel env va size ws s)
        (UserMemory.freeResidentPagesLoop L env va size ws s)
  | [], s, h => .some h
  | x :: rest, s, h => by
    unfold freeResidentPagesLoop UserMemory.freeResidentPagesLoop
    dsimp only
    split_ifs
    · rw [unmapFrame_eq_of_lookable hd hfuel h]
      cases hun : s.unmapFrame L env (roundDown x.virtualAddress pageSize) with
      | none => exact .none
      | some s₁ => exact freeResidentPagesLoop_agree va size rest (h.unmapped hun)
    · exact (freeResidentPagesLoop_agree va size rest h).bind fun r hr => .some hr
    · exact (freeResidentPagesLoop_agree va size rest h).bind fun r hr => .some hr

theorem removeEmptyNonUsedPages_eq :
    ∀ (noOfPages va : Nat) {s : UserMemory P}, Lookable L env s →
      removeEmptyNonUsedPages L D fuel env va noOfPages s =
        UserMemory.removeEmptyNonUsedPages L env va noOfPages s
  | 0, _, _, _ => rfl
  | noOfPages + 1, va, s, h => by
    unfold removeEmptyNonUsedPages UserMemory.removeEmptyNonUsedPages
    cases ht : s.getPageTable env va with
    | none =>
      rw [getPageTable_of_none hd h.owned.heap hfuel h.hand ht]
      exact removeEmptyNonUsedPages_eq noOfPages (va + pageSize) h
    | some t =>
      obtain ⟨i, hb, hle⟩ := h.found _ t ht
      have hne := @addr_ne_zero L D i _ hd
      rw [getPageTable_of_block hd h.owned.heap hfuel ht hb hle]
      simp only [Option.bind_eq_bind, Option.bind_some, ne_eq, hne, not_false_eq_true, true_and]
      by_cases hzero : ZeroTable t
      · have hfree : freePageTable L env va (L.addr i) s = s.freePageTable L env va t := by
          simp only [freePageTable, UserMemory.freePageTable, tableAddress_eq hb,
            Option.bind_eq_bind, Option.bind_some]
        rw [if_pos (zeroTable_iff.2 hzero), if_pos (zeroTable_iff.2 hzero), hfree,
          freePageTable_eq hb]
        exact removeEmptyNonUsedPages_eq noOfPages _ (h.droppedTable ht hb hzero)
      · rw [if_neg (mt zeroTable_iff.1 hzero), if_neg (mt zeroTable_iff.1 hzero)]
        exact removeEmptyNonUsedPages_eq noOfPages (va + pageSize) h

/-- `freeMem` through the lookups, with the hand below the end of the heap and no page table of
the environment above it. -/
theorem freeMem_eq (h : Lookable L env s) (va size : Nat) :
    freeMem L D fuel pf env va size s = s.freeMem L pf env va size := by
  have hfile : Lookable L env
      { s with pageFile := freeAllPagees pf env va (size / pageSize) s.pageFile } :=
    ⟨h.owned.of_heap_eq rfl, ⟨h.tables.backed, h.tables.distinct⟩, h.found, h.hand⟩
  obtain ⟨heq, hgood⟩ := freeResidentPagesLoop_agree hd hfuel va size
    (s.envs env).ptrPageWorkingSet hfile
  unfold freeMem UserMemory.freeMem freeResidentPagesInTheWorkingSet
    UserMemory.freeResidentPagesInTheWorkingSet
  dsimp only
  rw [heq]
  cases hloop : UserMemory.freeResidentPagesLoop L env va size (s.envs env).ptrPageWorkingSet
      { s with pageFile := freeAllPagees pf env va (size / pageSize) s.pageFile } with
  | none => rfl
  | some r =>
    have hr := hgood r hloop
    have hset : Lookable L env (r.2.setEnv env ((r.2.envs env).compacted r.1)) :=
      ⟨hr.owned.of_heap_eq rfl, ⟨hr.tables.backed, hr.tables.distinct⟩, hr.found, hr.hand⟩
    exact removeEmptyNonUsedPages_eq hd hfuel _ _ hset

end FreeMem

/-! ## Attempts -/

section Attempt

variable {L : FaultLayout} {heap₀ : KernelHeap} {buffering userTrap : Bool} {ev : Event}
  {events : List Event} {others : Nat → Option (List Nat)}
  (hd : DirectoryBoot L.toKernelHeapLayout D heap₀) (hfuel : L.pages + 2 ≤ fuel)

include hd hfuel

/-- A fault of a page without a page table looks nothing up. -/
theorem faultHandler_eq (h : Managed L s)
    (hfound : (s.getPageTable env va).isSome → TablesFound L.toUserLayout s env) :
    faultHandler L D fuel pf buffering userTrap env va unset s =
      s.faultHandler L pf buffering userTrap env va unset := by
  unfold faultHandler UserMemory.faultHandler
  by_cases hnone : (s.getPageTable env va).isNone
  · simp only [if_pos hnone]
  · have hsome : (s.getPageTable env va).isSome := by
      rw [Option.isNone_iff_eq_none] at hnone
      exact Option.ne_none_iff_isSome.1 hnone
    have hpage : pageFaultHandler L.toUserLayout D fuel pf env va unset s =
        UserMemory.pageFaultHandler L.toUserLayout pf env va unset s :=
      pageFaultHandler_eq h.owned.noBuffering
        (found_of_tablesFound hd h.owned.heap hfuel (hfound hsome)) hsome (h.workingSets env).tables
    rw [hpage]

/-- What the lookups of an attempt need : the page tables found of the environment, and for
`freeMem` the hand below the end of the heap. -/
def Searches (L : FaultLayout) (s : UserMemory P) : Event → Prop
  | .load env va _ => (s.getPageTable env va).isSome → TablesFound L.toUserLayout s env
  | .store env va _ _ => (s.getPageTable env va).isSome → TablesFound L.toUserLayout s env
  | .allocateMem _ _ _ _ => True
  | .freeMem env _ _ =>
    TablesFound L.toUserLayout s env ∧ s.heap.lastAllocatedKHpage < L.kernelHeapMax

theorem attempt_eq (h : Managed L s) (htables : TablesOk L.toUserLayout s)
    (hsearch : Searches L s ev) :
    attempt L D fuel pf buffering s ev = s.attempt L pf buffering ev := by
  cases ev with
  | load env va unset => simp only [attempt, UserMemory.attempt, faultHandler_eq hd hfuel h hsearch]
  | store env va byte unset =>
    simp only [attempt, UserMemory.attempt, faultHandler_eq hd hfuel h hsearch]
  | allocateMem env va size noSpace => rfl
  | freeMem env va size =>
    exact freeMem_eq hd hfuel ⟨h.owned, htables, hsearch.1, hsearch.2⟩ va size

/-- Runs whose lookups find the tables are the runs of the code. -/
theorem run_eq (h : Managed L s) (hblocks : BlocksOwned L.toUserLayout s others)
    (hsearch : Machine.Meets (UserMemory.attempt L pf buffering) (Searches L) s events) :
    Machine.run (attempt L D fuel pf buffering) s events =
      Machine.run (UserMemory.attempt L pf buffering) s events := by
  induction events generalizing s with
  | nil => rfl
  | cons ev events ih =>
    obtain ⟨hfirst, hrest⟩ := hsearch
    rw [Machine.run_cons, Machine.run_cons,
      attempt_eq hd hfuel h (hblocks.tablesOk h.owned) hfirst]
    cases hattempt : s.attempt L pf buffering ev with
    | none => rfl
    | some s' =>
      exact ih (attempt_managed h hattempt) (hblocks.attempt h.owned hattempt) (hrest s' hattempt)

end Attempt

end ByLookup

end UserMemory

end FosKernel
