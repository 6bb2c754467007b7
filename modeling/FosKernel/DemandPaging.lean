import FosKernel.TableLookup

/-!
# Demand paging ends

An instruction that loads or stores a byte is tried until its page is resident. In a state
that runs reach (`Managed`) nothing on the way fails if the page can be had (`Available`) : its
page table can be made, a frame is left for it, or the working set is full and the hand of the
clock is not above it, and the page is in the page file or is one of the stack. Once its page
table is there, no page table of the environment is above `lastAllocatedKHpage` : a page table
that is made lower than another moves that hand, and the other is no longer found.

`run_resident` : then two faults at most, one for the page table and one for the page, and the
third attempt is done. The attempts are those of `ByLookup`, where `kheap_virtual_address` looks
for the page tables.
-/

namespace FosKernel

namespace UserMemory

variable {P : Type} {pf : PageFile P} {s s' s₁ : UserMemory P} {env va f v unset : Nat}

section Handler

variable {L : UserLayout}

/-- The page can be read from the page file, or be added to it. -/
def HasCopy (L : UserLayout) (pf : PageFile P) (s : UserMemory P) (env va : Nat) : Prop :=
  (pf.readEnvPage s.pageFile env va).isSome ∨ isValidFaultVa L va = true

theorem exists_readFaultedPage (hnever : pf.NeverFull) (hcopy : HasCopy L pf s env va) :
    ∃ s', readFaultedPage L pf env f va s = some s' := by
  unfold readFaultedPage
  cases hread : pf.readEnvPage s.pageFile env va with
  | some contents => exact ⟨_, rfl⟩
  | none =>
    have hvalid := hcopy.resolve_left (by simp [hread])
    obtain ⟨p, hadd⟩ := hnever s.pageFile env va false
    exact ⟨{ s with pageFile := p }, by simp only [if_pos hvalid, hadd, Option.map_some]⟩

/-- Placement returns if there is a page table, a free frame and a slot. -/
theorem exists_pagePlacement (hnever : pf.NeverFull) (h : FramesOwned L s)
    (hzero : s.userEntry env va = 0#32) (htable : (s.getPageTable env va).isSome)
    (hfree : s.heap.memory.freeFrameList ≠ []) (hcopy : HasCopy L pf s env va)
    (hslot : v < (s.envs env).pageWSMaxSize) (htop : va < L.userTop) :
    ∃ s', pagePlacement L pf env va v s = some s' := by
  obtain ⟨f, rest, hl⟩ := List.exists_cons_of_ne_nil hfree
  have ha := (Memory.allocateFrame_of_framesOk h.heap.frames).2 ⟨rest, hl, rfl⟩
  obtain ⟨t, ht⟩ := Option.isSome_iff_exists.1 htable
  have hmap : ∃ s₁, (s.setMemory (s.heap.memory.taken f rest)).mapFrame L env f va
      (permPresent ||| permUser ||| permWriteable) = some s₁ := by
    have ht' : (s.setMemory (s.heap.memory.taken f rest)).getPageTable env va = some t := ht
    rw [userEntry_of_some ht] at hzero
    simp only [mapFrame, getOrCreatePageTable, ht', hzero, Memory.mapEntry_zero,
      Option.bind_eq_bind, Option.bind_some]
    exact ⟨_, rfl⟩
  obtain ⟨s₁, hmap⟩ := hmap
  have hspec := h.place_spec isPerm_placePerm ha hmap
  have hcopy₁ : HasCopy L pf s₁ env va := by rwa [HasCopy, hspec.pageFile]
  obtain ⟨s₂, hread⟩ := exists_readFaultedPage (f := f) hnever hcopy₁
  have henvs : s₂.envs = s.envs := (readFaultedPage_spec hread).2.envs.trans hspec.envs
  have hset : ∃ e, (s₂.envs env).pageWsSetEntry L.userTop v va = some e := by
    rw [henvs]
    exact ⟨_, if_pos ⟨hslot, htop⟩⟩
  obtain ⟨e, hset⟩ := hset
  refine ⟨{ s₂.setEnv env { e with pageLastWSIndex := v }.advance with
    lastClockIndex := { e with pageLastWSIndex := v }.advance.pageLastWSIndex }, ?_⟩
  simp only [pagePlacement, ha, Option.bind_eq_bind, Option.bind_some, hmap, hread, hset]

/-- Replacement returns for a slot of the working set. -/
theorem exists_pageReplacement (h : FramesOwned L s) (hv : v < (s.envs env).pageWSMaxSize) :
    ∃ s', pageReplacement L pf env v s = some s' := by
  obtain ⟨x, hx⟩ : ∃ x, (s.envs env).ptrPageWorkingSet[v]? = some x :=
    ⟨_, List.getElem?_eq_getElem hv⟩
  obtain ⟨s₁, hs₁⟩ : ∃ s₁, updateVictim L pf env x.virtualAddress s = some s₁ :=
    ⟨_, h.updateVictim_eq⟩
  obtain ⟨hheap, hkeeps⟩ := updateVictim_spec hs₁
  have h₁ := h.of_heap_eq hheap
  obtain ⟨s₂, hun⟩ : ∃ s₂, s₁.unmapFrame L env x.virtualAddress = some s₂ := by
    by_cases hzero : s₁.userEntry env x.virtualAddress = 0#32
    · exact ⟨s₁, unmapFrame_of_zero hzero⟩
    · obtain ⟨t, ht⟩ :=
        Option.isSome_iff_exists.1 (isSome_getPageTable_of_mapped (h₁.present hzero))
      exact ⟨_, h₁.unmapFrame_eq ht hzero⟩
  have henvs : s₂.envs = s.envs := (unmaps_unmapFrame hun).envs.trans hkeeps.envs
  have hclear : ∃ e, (s₂.envs env).pageWsClearEntry v = some e := by
    rw [henvs]
    exact ⟨_, if_pos hv⟩
  obtain ⟨e, hclear⟩ := hclear
  refine ⟨{ s₂.setEnv env e.advance with lastClockIndex := e.advance.pageLastWSIndex }, ?_⟩
  simp only [pageReplacement, hx, Option.bind_eq_bind, Option.bind_some, hs₁, hun, hclear]

/-- The page fault handler returns at a page that is not resident. -/
theorem exists_pageFault (hstores : pf.StoresPages) (hnever : pf.NeverFull) (h : FramesOwned L s)
    (halgo : s.pageRepAlgoType = .modifiedClock) (hok : WorkingSetOk L s env)
    (hnon : ¬s.Mapped env va) (htable : (s.getPageTable env va).isSome)
    (hcopy : HasCopy L pf s env (roundDown va pageSize)) (htop : va < L.userTop)
    (hpos : 0 < (s.envs env).pageWSMaxSize)
    (hhand : (s.envs env).Full → s.lastClockIndex ≤ (s.envs env).pageWSMaxSize)
    (hfree : ¬(s.envs env).Full → s.heap.memory.freeFrameList ≠ []) :
    ∃ s', pageFaultHandler L pf env va unset s = some s' := by
  have hva : roundDown va pageSize % pageSize = 0 := roundDown_mod va pageSize
  have htop' : roundDown va pageSize < L.userTop := lt_of_le_of_lt (Nat.sub_le _ _) htop
  have hnon' : ¬s.Mapped env (roundDown va pageSize) := fun hc =>
    hnon ((mapped_congr (roundDown_div va)).1 hc)
  have hpdx : pdx (roundDown va pageSize) = pdx va := (pdx_ptx_iff.2 (roundDown_div va)).1
  unfold pageFaultHandler
  dsimp only
  rw [if_congr Env.full_iff rfl rfl]
  by_cases hfull : (s.envs env).Full
  · obtain ⟨v, s₁, hclock⟩ :=
      (modifiedClock_returns_iff hpos (hok.tables hfull)).2 (hhand hfull)
    obtain ⟨hclears, hv⟩ := modifiedClock_spec hclock
    have hown₁ := h.of_sameFrames (h.sameFrames_modifiedClock hclock)
    obtain ⟨s₂, hreplace⟩ : ∃ s₂, pageReplacement L pf env v s₁ = some s₂ :=
      exists_pageReplacement hown₁ (hclears.envs ▸ hv)
    obtain ⟨w, hevicted⟩ :=
      h.evicted hfull (fun i w hi => (hok.tracks.mem_iff w).2 ⟨i, hi⟩) hclock hreplace
    obtain ⟨x, -, hothers, -⟩ :=
      UserMemory.pageReplacement_spec (hclears.noBuffering h.noBuffering) hreplace
    have hnon₂ : ¬s₂.Mapped env (roundDown va pageSize) := fun hc =>
      hnon' ((hevicted.mapped _ _).1 hc).1
    have htable₂ : (s₂.getPageTable env (roundDown va pageSize)).isSome := by
      obtain ⟨y, t₁, t₂, e, -, hwrite, hun, -, rfl⟩ := pageReplacement_eq_some hreplace
      have hframes := (unmaps_unmapFrame hun).frames env (pdx (roundDown va pageSize))
      have hsome := congrArg Option.isSome hframes
      rw [Option.isSome_map, Option.isSome_map, (updateVictim_spec hwrite).1, hpdx] at hsome
      rw [getPageTable, hpdx]
      exact hsome.trans ((hclears.table env va).trans htable)
    have hcopy₂ : HasCopy L pf s₂ env (roundDown va pageSize) := by
      refine hcopy.imp (fun hcopy => ?_) id
      have hne : ¬(env = env ∧ roundDown va pageSize = w) := fun hc => by
        rw [hc.2] at hnon'
        exact hnon' hevicted.resident.2.2
      rw [hevicted.pageFile]
      split_ifs
      · rwa [hstores.update _ _ _ hevicted.resident.1 _ _ hva, if_neg hne]
      · exact hcopy
    obtain ⟨s', hplace⟩ := exists_pagePlacement (v := v) hnever hevicted.owned
      (by by_contra hne; exact hnon₂ (hevicted.owned.present hne)) htable₂
      (by rw [hevicted.freeFrameList]; exact List.cons_ne_nil _ _) hcopy₂
      (by rw [hothers.pageWSMaxSize, hclears.envs]; exact hv) htop'
    refine ⟨s', ?_⟩
    simp only [if_pos hfull, if_pos halgo, hclock, hreplace, hplace, Option.bind_eq_bind,
      Option.bind_some]
  · have hpre := hok.slots.resolve_left hfull
    rw [if_neg hfull]
    refine exists_pagePlacement hnever h ?_ ?_ (hfree hfull) hcopy (hpre.slot_index hfull).1 htop'
    · by_contra hne
      exact hnon' (h.present hne)
    · rwa [getPageTable, hpdx]

end Handler

/-! ## Attempts -/

section Attempts

variable {L : FaultLayout} {ev : Event}

/-- The page of an address can be had. -/
structure Available (L : FaultLayout) (pf : PageFile P) (s : UserMemory P) (env va : Nat) :
    Prop where
  below : va < L.ustackTop
  user : va < L.userTop
  copy : HasCopy L.toUserLayout pf s env (roundDown va pageSize)
  slots : 0 < (s.envs env).pageWSMaxSize
  hand : (s.envs env).Full → s.lastClockIndex ≤ (s.envs env).pageWSMaxSize
  /-- The page table is there or can be made; the page tables are found then, and a frame is left
  for the page. -/
  table : ∃ t s₁, s.getOrCreatePageTable L.toUserLayout env va = some (t, s₁) ∧
    ByLookup.TablesFound L.toUserLayout s₁ env ∧
    (¬(s.envs env).Full → s₁.heap.memory.freeFrameList ≠ [])

/-- The instruction loads or stores the byte at the address. -/
inductive Accesses (env va : Nat) : Event → Prop
  | load (unset : Nat) : Accesses env va (.load env va unset)
  | store (byte : BitVec 8) (unset : Nat) : Accesses env va (.store env va byte unset)

/-- An access to a page that is not resident is a fault. -/
theorem Accesses.attempt_eq (h : Accesses env va ev) (hnon : ¬s.Mapped env va) :
    ∃ unset, s.attempt L pf false ev = s.faultHandler L pf false true env va unset := by
  cases h with
  | load unset => exact ⟨unset, if_neg hnon⟩
  | store byte unset => exact ⟨unset, if_neg hnon⟩

theorem faultHandler_of_table (hbelow : va < L.ustackTop)
    (htable : (s.getPageTable env va).isSome) :
    s.faultHandler L pf false true env va unset =
      pageFaultHandler L.toUserLayout pf env va unset s := by
  have hnone : ¬(s.getPageTable env va).isNone = true := by
    rw [Option.isNone_iff_eq_none]
    exact fun hc => by simp [hc] at htable
  simp only [faultHandler, Bool.true_eq_false, false_and, if_false, Nat.not_le.2 hbelow, and_false,
    if_neg hnone, Bool.false_eq_true]

theorem faultHandler_of_no_table (hbelow : va < L.ustackTop)
    (htable : s.getPageTable env va = none) :
    s.faultHandler L pf false true env va unset = s.tableFaultHandler L env va := by
  simp only [faultHandler, Bool.true_eq_false, false_and, if_false, Nat.not_le.2 hbelow, and_false,
    htable, Option.isNone_none, if_true]

/-- The fault of a page whose page table is there makes the page resident. -/
theorem exists_attempt_of_table (hstores : pf.StoresPages) (hnever : pf.NeverFull)
    (h : Managed L s) (hev : Accesses env va ev) (hnon : ¬s.Mapped env va)
    (htable : (s.getPageTable env va).isSome) (hbelow : va < L.ustackTop) (huser : va < L.userTop)
    (hcopy : HasCopy L.toUserLayout pf s env (roundDown va pageSize))
    (hpos : 0 < (s.envs env).pageWSMaxSize)
    (hhand : (s.envs env).Full → s.lastClockIndex ≤ (s.envs env).pageWSMaxSize)
    (hfree : ¬(s.envs env).Full → s.heap.memory.freeFrameList ≠ []) :
    ∃ s', s.attempt L pf false ev = some s' ∧ s'.Mapped env va := by
  obtain ⟨unset, hattempt⟩ : ∃ unset,
      s.attempt L pf false ev = s.faultHandler L pf false true env va unset :=
    hev.attempt_eq hnon
  obtain ⟨s', hfault⟩ : ∃ s', pageFaultHandler L.toUserLayout pf env va unset s = some s' :=
    exists_pageFault hstores hnever h.owned h.pageRepAlgoType (h.workingSets env) hnon htable
      hcopy huser hpos hhand hfree
  rw [faultHandler_of_table hbelow htable, hfault] at hattempt
  refine ⟨s', hattempt, ?_⟩
  have hplaced : ∀ {s : UserMemory P} {v}, FramesOwned L.toUserLayout s →
      pagePlacement L.toUserLayout pf env (roundDown va pageSize) v s = some s' →
      s'.Mapped env va := fun hown hplace => by
    obtain ⟨f, hspec⟩ := hown.pagePlacement_spec hplace
    exact hspec.mapped_iff.2 (Or.inr ⟨rfl, (roundDown_div va).symm⟩)
  cases pageFaults hfault with
  | replaced _ _ hclock hreplace hplace =>
    have hown₁ := h.owned.of_sameFrames (h.owned.sameFrames_modifiedClock hclock)
    obtain ⟨x, -, hspec⟩ := hown₁.pageReplacement_spec hreplace
    exact hplaced hspec.owned hplace
  | unreplaced _ hne _ => exact absurd h.pageRepAlgoType hne
  | placed _ hplace => exact hplaced h.owned hplace

/-- An access through the lookups, where the page tables are found or none is looked for. -/
theorem Accesses.byLookup_eq {D : KernelDirectory} {fuel : Nat} {heap₀ : KernelHeap}
    (hd : KernelHeap.DirectoryBoot L.toKernelHeapLayout D heap₀) (hfuel : L.pages + 2 ≤ fuel)
    (h : Managed L s) (hev : Accesses env va ev)
    (hfound : (s.getPageTable env va).isSome → ByLookup.TablesFound L.toUserLayout s env) :
    ByLookup.attempt L D fuel pf false s ev = s.attempt L pf false ev := by
  cases hev with
  | load unset =>
    simp only [ByLookup.attempt, attempt, ByLookup.faultHandler_eq hd hfuel h hfound]
  | store byte unset =>
    simp only [ByLookup.attempt, attempt, ByLookup.faultHandler_eq hd hfuel h hfound]

/-- In every state that a run reaches : an access to a page that can be had faults twice at
most, and then the page is resident. -/
theorem run_resident {D : KernelDirectory} {fuel : Nat} {s₀ : UserMemory P} {events : List Event}
    (hd : KernelHeap.DirectoryBoot L.toKernelHeapLayout D s₀.heap) (hfuel : L.pages + 2 ≤ fuel)
    (hstores : pf.StoresPages) (hnever : pf.NeverFull) (h₀ : Managed L s₀)
    (hrun : Machine.run (attempt L pf false) s₀ events = some s) (hev : Accesses env va ev)
    (ha : Available L pf s env va) :
    ∃ n ≤ 2, ∃ s', Machine.run (ByLookup.attempt L D fuel pf false) s (List.replicate n ev) =
        some s' ∧ s'.Mapped env va := by
  have h := run_managed h₀ hrun
  by_cases hm : s.Mapped env va
  · exact ⟨0, by omega, s, rfl, hm⟩
  obtain ⟨t, s₁, htable, hfound, hleft⟩ := ha.table
  cases ht : s.getPageTable env va with
  | some t' =>
    simp only [getOrCreatePageTable, ht, Option.some.injEq, Prod.mk.injEq] at htable
    obtain ⟨-, rfl⟩ := htable
    obtain ⟨s', hattempt, hm'⟩ := exists_attempt_of_table hstores hnever h hev hm (by simp [ht])
      ha.below ha.user ha.copy ha.slots ha.hand hleft
    rw [← hev.byLookup_eq hd hfuel h fun _ => hfound] at hattempt
    exact ⟨1, by omega, s', (Machine.run_cons_eq_some _).2 ⟨s', hattempt, rfl⟩, hm'⟩
  | none =>
    have hspec := h.owned.findsPageTable_spec (findsPageTable htable)
    have hhand : s₁.lastClockIndex = s.lastClockIndex := by
      cases findsPageTable htable <;> rfl
    simp only [getOrCreatePageTable, ht] at htable
    obtain ⟨unset, hfirst⟩ : ∃ unset,
        s.attempt L pf false ev = s.faultHandler L pf false true env va unset :=
      hev.attempt_eq hm
    rw [faultHandler_of_no_table ha.below ht, tableFaultHandler, htable, Option.map_some] at hfirst
    have h₁ := attempt_managed h hfirst
    have hm₁ : ¬s₁.Mapped env va := by rwa [Mapped, hspec.entry]
    obtain ⟨s', hsecond, hm'⟩ := exists_attempt_of_table hstores hnever h₁ hev hm₁
      (by simp [hspec.table]) ha.below ha.user (by rw [HasCopy, hspec.pageFile]; exact ha.copy)
      (by rw [hspec.envs]; exact ha.slots) (by rw [hspec.envs, hhand]; exact ha.hand)
      (by rw [hspec.envs]; exact hleft)
    -- the fault for the page table looks for none
    rw [← hev.byLookup_eq hd hfuel h fun hsome => by simp [ht] at hsome] at hfirst
    rw [← hev.byLookup_eq hd hfuel h₁ fun _ => hfound] at hsecond
    refine ⟨2, by omega, s', ?_, hm'⟩
    exact (Machine.run_cons_eq_some _).2
      ⟨s₁, hfirst, (Machine.run_cons_eq_some _).2 ⟨s', hsecond, rfl⟩⟩

theorem firstStore_resident : ∃ n ≤ 2, ∃ s',
    Machine.run (ByLookup.attempt VirtualMemory.smallFaultLayout KernelHeap.smallDirectory 5
      mapPageFile false) (smallUserMemory fun _ => 1)
        (List.replicate n (.store 0 0xEEBFD123 7#8 0)) = some s' ∧
    s'.Mapped 0 0xEEBFD123 := by
  have htable : (((smallUserMemory fun _ => 1).getOrCreatePageTable smallUserLayout 0
      0xEEBFD123).any fun p => p.2.heap.memory.freeFrameList ≠ [] ∧
        p.2.heap.lastAllocatedKHpage = 0xF6001000 ∧
        (p.2.heap.kernelHeapPages 2).isEmpty = true) = true := by
    decide +kernel
  obtain ⟨⟨t, s₁⟩, hsome, hfacts⟩ := (Option.any_eq_true _ _).1 htable
  obtain ⟨hleft, hhand, hthird⟩ := of_decide_eq_true hfacts
  have hmanaged := VirtualMemory.smallUserMemory_managed fun _ => 1
  have hblocks : BlocksOwned smallUserLayout s₁ fun _ => none :=
    (smallUserMemory_blocksOwned fun _ => 1).findsPageTable hmanaged.owned (findsPageTable hsome)
  have hspec := hmanaged.owned.findsPageTable_spec (findsPageTable hsome)
  have hown : FramesOwned smallUserLayout s₁ := hmanaged.owned.of_sameFrames hspec.toSameFrames
  have hfound : ByLookup.TablesFound smallUserLayout s₁ 0 := by
    refine .of_nonEmpty (hblocks.tablesOk hown) fun i hi hlive => ?_
    have hi : i < 3 := hi
    have hne : i ≠ 2 := fun heq => by simp [heq ▸ hlive.2] at hthird
    rw [hhand, KernelHeapLayout.addr, show smallUserLayout.kernelHeapStart = 0xF6000000 from rfl]
    unfold pageSize
    omega
  have hstart : Machine.run (attempt VirtualMemory.smallFaultLayout mapPageFile false)
      (smallUserMemory fun _ => 1) [] = some (smallUserMemory fun _ => 1) := rfl
  exact run_resident (ByLookup.smallDirectory_boot fun _ => 1) (by decide) mapPageFile_storesPages
    (fun _ _ _ _ => ⟨_, rfl⟩) hmanaged hstart (.store 7#8 0)
    ⟨by decide, by decide, Or.inr (by decide), by decide, fun _ => by decide, t, s₁, hsome, hfound,
      fun _ => hleft⟩

end Attempts

end UserMemory

end FosKernel
