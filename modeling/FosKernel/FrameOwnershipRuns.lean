import FosKernel.FrameOwnership

/-!
# The frames of the user pages along runs

Modified Clock changes page tables and the hand only (`ChangesTables`). `ReplaceSpec` and
`PlacementSpec` are the two halves of a page fault where each page has its own frame : the
page of the victim goes to the page file if it was modified, its frame to the free frame
list, and the faulting page gets the first frame of that list.

`run_framesOwned` : along every run of page faults, system calls of the user heap and
accesses each page keeps a frame of its own.
-/

namespace FosKernel

open KernelHeap (HeldFrame)

namespace UserMemory

variable {P : Type} {L : UserLayout} {pf : PageFile P} {s s' s'' : UserMemory P}
  {env env' va va' f v victim trips i fuel start stop : Nat} {t : PageTable} {e : Entry}
  {m : Memory} {try1 : Bool} {r : Option Nat} {perm : BitVec 32}

/-! ## The clock -/

/-- The page tables and the hand may change, and nothing else. -/
def ChangesTables (s s' : UserMemory P) : Prop :=
  s' = { s.setMemory { s.heap.memory with directories := s'.heap.memory.directories } with
    lastClockIndex := s'.lastClockIndex }

theorem ChangesTables.trans (h : ChangesTables s s') (h' : ChangesTables s' s'') :
    ChangesTables s s'' := by
  unfold ChangesTables at *
  rw [h] at h'
  exact h'

theorem changesTables_loop :
    ∀ (trips i : Nat) {s s' : UserMemory P} {r : Option Nat},
      getVictimIndexLoop env try1 trips i s = some (r, s') → ChangesTables s s'
  | 0, i, s, s', r, h => by
    obtain ⟨-, rfl⟩ := Prod.mk.inj (Option.some.inj h)
    rfl
  | trips + 1, i, s, s', r, h => by
    rw [getVictimIndexLoop_succ, Option.bind_eq_some_iff] at h
    obtain ⟨x, -, h⟩ := h
    split at h
    · obtain ⟨-, rfl⟩ := Prod.mk.inj (Option.some.inj h)
      rfl
    · split at h
      · exact changesTables_loop trips (i + 1) h
      · obtain ⟨t, hclear, h⟩ := Option.bind_eq_some_iff.1 h
        obtain ⟨_, -, rfl⟩ := Option.map_eq_some_iff.1 hclear
        have hrest := changesTables_loop trips (i + 1) h
        exact hrest

theorem changesTables_getVictimIndex (h : getVictimIndex env try1 start stop s = some (r, s')) :
    ChangesTables s s' := by
  unfold getVictimIndex at h
  split at h
  · obtain ⟨-, rfl⟩ := Prod.mk.inj (Option.some.inj h)
    rfl
  · exact changesTables_loop _ _ h

theorem changesTables_orElseScan {p : Option Nat × UserMemory P}
    {scan : UserMemory P → Option (Option Nat × UserMemory P)} (hp : ChangesTables s p.2)
    (hscan : ∀ t q, scan t = some q → ChangesTables t q.2) (h : orElseScan p scan = some (r, s')) :
    ChangesTables s s' := by
  rcases orElseScan_eq_some.1 h with ⟨-, rfl⟩ | ⟨-, h⟩
  · exact hp
  · exact hp.trans (hscan _ _ h)

theorem changesTables_trip (h : modifiedClockTrip env s = some (r, s')) : ChangesTables s s' := by
  unfold modifiedClockTrip at h
  simp only [Option.bind_eq_bind, Option.bind_eq_some_iff] at h
  obtain ⟨q₁, h₁, q₂, h₂, q₃, h₃, h₄⟩ := h
  have hc₁ : ChangesTables s q₁.2 := changesTables_getVictimIndex h₁
  have hc₂ : ChangesTables s q₂.2 :=
    changesTables_orElseScan hc₁ (fun _ _ => changesTables_getVictimIndex) h₂
  have hc₃ : ChangesTables s q₃.2 :=
    changesTables_orElseScan hc₂ (fun _ _ => changesTables_getVictimIndex) h₃
  exact changesTables_orElseScan hc₃ (fun _ _ => changesTables_getVictimIndex) h₄

theorem changesTables_modifiedClockLoop :
    ∀ (fuel : Nat) {s s' : UserMemory P}, modifiedClockLoop env fuel s = some (v, s') →
      ChangesTables s s'
  | 0, s, s', h => by cases h
  | fuel + 1, s, s', h => by
    rw [modifiedClockLoop_succ, Option.bind_eq_some_iff] at h
    obtain ⟨⟨_ | w, t⟩, htrip, h⟩ := h
    · exact (changesTables_trip htrip).trans (changesTables_modifiedClockLoop fuel h)
    · obtain ⟨-, rfl⟩ := Prod.mk.inj (Option.some.inj h)
      exact changesTables_trip htrip

/-! ## Bits of an entry -/

theorem frameNumber_and_not_used (e : Entry) : frameNumber (e &&& ~~~permUsed) = frameNumber e := by
  have hmask : ~~~permUsed &&& ~~~permMask = ~~~permMask := by decide
  rw [frameNumber, extractAddress, BitVec.and_assoc, hmask, frameNumber, extractAddress]

theorem Clears.frameOf_eq (h : Clears s s') (env va : Nat) :
    s'.frameOf env va = s.frameOf env va := by
  unfold frameOf
  rcases h.entry env va with he | he <;> rw [he]
  exact frameNumber_and_not_used _

theorem frameNumber_or (e : Entry) (hperm : IsPerm perm) :
    frameNumber (e ||| perm) = frameNumber e := by
  unfold frameNumber extractAddress
  rw [or_and_right, hperm]
  exact congrArg ppn BitVec.or_zero

/-- Where each page is present, an entry with its used bit cleared is no new zero. -/
theorem FramesOwned.clears (h : FramesOwned L s) (hc : Clears s s') (hrest : ChangesTables s s') :
    SameFrames L s s' := by
  have hheap : s'.heap = { s.heap with
      memory := { s.heap.memory with directories := s'.heap.memory.directories } } :=
    congrArg UserMemory.heap (show s' = _ from hrest)
  have hmapped : ∀ env va, s.Mapped env va ↔ s'.Mapped env va := fun env va => hc.mapped_iff.symm
  refine ⟨hheap ▸ invariant_directories h.heap _, hc.noBuffering h.noBuffering,
    fun env va => ⟨fun hzero => ?_, fun hzero => ?_⟩, fun env va => (hmapped env va).1,
    hc.frameOf_eq, fun f k hf => hheap ▸ heldFrame_directories hf _⟩
  · by_contra hne
    exact ((hmapped env va).1 (h.present hne)).ne_zero hzero
  · rcases hc.entry env va with he | he <;> rw [he, hzero]
    exact BitVec.zero_and

theorem FramesOwned.sameFrames_modifiedClock (h : FramesOwned L s)
    (hclock : modifiedClock env s = some (v, s')) : SameFrames L s s' :=
  h.clears (modifiedClock_spec hclock).1 (changesTables_modifiedClockLoop 2 hclock)

/-! ## Replacement -/

/-- What `pageReplacement` leaves where each page has its own frame, for the page `w` in the
slot of the victim. -/
structure ReplaceSpec (L : UserLayout) (pf : PageFile P) (env victim w : Nat)
    (s s' : UserMemory P) : Prop where
  owned : FramesOwned L s'
  entry : ∀ env' va', s'.userEntry env' va' =
    if env' = env ∧ va' / pageSize = w / pageSize then 0#32 else s.userEntry env' va'
  freeFrameList : s'.heap.memory.freeFrameList =
    if s.userEntry env w = 0#32 then s.heap.memory.freeFrameList
    else s.frameOf env w :: s.heap.memory.freeFrameList
  bytes : s'.bytes = s.bytes
  pageFile : s'.pageFile = if isModified (s.ptGetPagePermissions env w)
    then pf.updateEnvPage s.pageFile env w (s.bytes (s.frameOf env w)) else s.pageFile
  envs : ∃ e, (s.envs env).pageWsClearEntry victim = some e ∧
    s'.envs = Function.update s.envs env e.advance

theorem isModified_ne_zero (h : isModified (s.ptGetPagePermissions env va) = true) :
    s.userEntry env va ≠ 0#32 := by
  intro hzero
  have hfalse : isModified (0#32 &&& permMask) = false := by decide
  rw [ptGetPagePermissions, hzero, hfalse] at h
  cases h

theorem FramesOwned.getFrameInfo_eq (h : FramesOwned L s) (hne : s.userEntry env va ≠ 0#32) :
    s.getFrameInfo L env va = some (some (s.frameOf env va)) := by
  have hlt := (h.held hne).lt
  rw [frameOf] at hlt
  simp only [getFrameInfo, if_neg hne, if_pos hlt, frameOf]

theorem FramesOwned.updateVictim_eq (h : FramesOwned L s) : updateVictim L pf env va s =
    some { s with pageFile := if isModified (s.ptGetPagePermissions env va)
      then pf.updateEnvPage s.pageFile env va (s.bytes (s.frameOf env va)) else s.pageFile } := by
  unfold updateVictim
  split_ifs with hmod
  · rw [h.getFrameInfo_eq (isModified_ne_zero hmod)]
    rfl
  · rfl

theorem FramesOwned.pageReplacement_spec (h : FramesOwned L s)
    (hr : pageReplacement L pf env victim s = some s') :
    ∃ x, (s.envs env).ptrPageWorkingSet[victim]? = some x ∧
      ReplaceSpec L pf env victim x.virtualAddress s s' := by
  obtain ⟨x, s₁, s₂, e, hx, hwrite, hun, hclear, rfl⟩ := pageReplacement_eq_some hr
  rw [h.updateVictim_eq] at hwrite
  obtain rfl := Option.some.inj hwrite
  have h₁ : ∀ p, FramesOwned L { s with pageFile := p } := fun _ => h.of_heap_eq rfl
  have hspec := (h₁ _).unmapFrame_spec hun
  have henvs : s₂.envs = s.envs := (unmaps_unmapFrame hun).envs
  rw [henvs] at hclear
  refine ⟨x, hx, hspec.owned.of_heap_eq rfl, hspec.entry, hspec.freeFrameList, hspec.bytes,
    hspec.pageFile, e, hclear, ?_⟩
  exact congrArg (Function.update · env _) henvs

/-! ## Placement -/

/-- The permissions of a page that is placed. -/
def placePerm : BitVec 32 :=
  permPresent ||| permUser ||| permWriteable

theorem isPerm_placePerm : IsPerm (placePerm ||| permPresent) := by
  decide

/-- What `pagePlacement` leaves where each page has its own frame, for the frame `f` that the
page gets. -/
structure PlacementSpec (L : UserLayout) (pf : PageFile P) (env va victim f : Nat)
    (s s' : UserMemory P) : Prop where
  owned : FramesOwned L s'
  entry : ∀ env' va', s'.userEntry env' va' = if env' = env ∧ va' / pageSize = va / pageSize
    then constructEntry (toPhysicalAddress f) (placePerm ||| permPresent)
    else s.userEntry env' va'
  lt : f < L.numberOfFrames
  head : ∃ rest, s.heap.memory.freeFrameList = f :: rest
  bytes : ∀ g, g ∉ s.heap.memory.freeFrameList → s'.bytes g = s.bytes g
  page : s'.bytes f = (pf.readEnvPage s.pageFile env va).getD (s.bytes f)
  pageFile : (pf.readEnvPage s.pageFile env va).isSome ∧ s'.pageFile = s.pageFile ∨
    pf.readEnvPage s.pageFile env va = none ∧ isValidFaultVa L va = true ∧
      pf.addEmptyEnvPage s.pageFile env va false = some s'.pageFile
  envs : ∃ e, (s.envs env).pageWsSetEntry L.userTop victim va = some e ∧
    s'.envs = Function.update s.envs env ({ e with pageLastWSIndex := victim } : Env).advance

/-- The page that is placed is mapped, and no other is taken or given. -/
theorem PlacementSpec.mapped_iff (h : PlacementSpec L pf env va victim f s s') :
    s'.Mapped env' va' ↔ s.Mapped env' va' ∨ env' = env ∧ va' / pageSize = va / pageSize := by
  rw [Mapped, h.entry]
  split_ifs with hat
  · exact iff_of_true (isPresent_constructEntry _ _) (Or.inr hat)
  · rw [or_iff_left hat, Mapped]

/-- The page that is placed is in frame `f`. -/
theorem PlacementSpec.frameOf_eq (h : PlacementSpec L pf env va victim f s s')
    (hpage : va' / pageSize = va / pageSize) : s'.frameOf env va' = f := by
  rw [frameOf, h.entry, if_pos ⟨rfl, hpage⟩]
  exact frameNumber_constructEntry (lt_of_lt_of_le h.lt L.numberOfFrames_le) isPerm_placePerm

theorem FramesOwned.pagePlacement_spec (h : FramesOwned L s)
    (hp : pagePlacement L pf env va victim s = some s') :
    ∃ f, PlacementSpec L pf env va victim f s s' := by
  obtain ⟨f, m, s₂, s₃, e, halloc, hmap, hread, hset, rfl⟩ := pagePlacement_eq_some hp
  have hspec : PlaceSpec L env f va placePerm s s₂ := h.place_spec isPerm_placePerm halloc hmap
  obtain ⟨hheap, hkeeps⟩ := readFaultedPage_spec hread
  have henvs : s₃.envs = s.envs := hkeeps.envs.trans hspec.envs
  rw [henvs] at hset
  have hentry : ∀ env' va', s₃.userEntry env' va' = s₂.userEntry env' va' := fun env' va' =>
    userEntry_congr (by rw [hheap])
  obtain ⟨rest, hl⟩ := hspec.head
  have hread' : (∀ g ≠ f, s₃.bytes g = s₂.bytes g) ∧
      s₃.bytes f = (pf.readEnvPage s.pageFile env va).getD (s.bytes f) ∧
      ((pf.readEnvPage s.pageFile env va).isSome ∧ s₃.pageFile = s.pageFile ∨
        pf.readEnvPage s.pageFile env va = none ∧ isValidFaultVa L va = true ∧
          pf.addEmptyEnvPage s.pageFile env va false = some s₃.pageFile) := by
    have hcases := readFaultedPage_cases hread
    rw [hspec.pageFile] at hcases
    rcases hcases with ⟨contents, hcopy, rfl⟩ | ⟨hcopy, hvalid, p, hadd, rfl⟩
    · rw [hcopy]
      exact ⟨fun g hg => Function.update_of_ne hg _ _, Function.update_self _ _ _,
        Or.inl ⟨rfl, rfl⟩⟩
    · rw [hcopy]
      exact ⟨fun _ _ => rfl, hspec.bytes f (Or.inl rfl), Or.inr ⟨rfl, hvalid, hadd⟩⟩
  refine ⟨f, (hspec.owned.of_heap_eq hheap).of_heap_eq rfl,
    fun env' va' => (hentry env' va').trans (hspec.entry env' va'), hspec.lt, hspec.head,
    fun g hg => ?_, hread'.2.1, hread'.2.2, e, hset, ?_⟩
  · refine (hread'.1 g fun heq => hg ?_).trans (hspec.bytes g (Or.inr hg))
    rw [hl, heq]
    exact List.mem_cons_self
  · exact congrArg (Function.update · env _) henvs

/-! ## Runs -/

theorem FramesOwned.pageFaultHandler {unset : Nat} (h : FramesOwned L s)
    (hfault : pageFaultHandler L pf env va unset s = some s') : FramesOwned L s' := by
  have hplace : ∀ {s : UserMemory P} {va victim}, FramesOwned L s →
      pagePlacement L pf env va victim s = some s' → FramesOwned L s' := fun h hp => by
    obtain ⟨f, hspec⟩ := h.pagePlacement_spec hp
    exact hspec.owned
  cases pageFaults hfault with
  | replaced _ _ hclock hreplace hp =>
    have h₁ := h.of_sameFrames (h.sameFrames_modifiedClock hclock)
    obtain ⟨x, -, hspec⟩ := h₁.pageReplacement_spec hreplace
    exact hplace hspec.owned hp
  | unreplaced _ _ hp => exact hplace h hp
  | placed _ hp => exact hplace h hp

theorem FramesOwned.freeResidentPagesLoop {size : Nat} :
    ∀ (ws : List WorkingSetElement) {kept : List WorkingSetElement} {s s' : UserMemory P},
      FramesOwned L s → freeResidentPagesLoop L env va size ws s = some (kept, s') →
      FramesOwned L s'
  | [], kept, s, s', h, hloop => by
    obtain ⟨-, rfl⟩ := Prod.mk.inj (Option.some.inj hloop)
    exact h
  | x :: rest, kept, s, s', h, hloop => by
    unfold UserMemory.freeResidentPagesLoop at hloop
    dsimp only at hloop
    split at hloop
    · simp only [Option.bind_eq_bind, Option.bind_eq_some_iff] at hloop
      obtain ⟨s₁, hun, hloop⟩ := hloop
      exact FramesOwned.freeResidentPagesLoop rest (h.unmapFrame_spec hun).owned hloop
    · simp only [Option.bind_eq_bind, Option.bind_eq_some_iff] at hloop
      obtain ⟨⟨kept', s₁⟩, hloop, heq⟩ := hloop
      obtain ⟨-, rfl⟩ := Prod.mk.inj (Option.some.inj heq)
      exact FramesOwned.freeResidentPagesLoop rest h hloop

theorem FramesOwned.freePageTable (h : FramesOwned L s) (ht : s.getPageTable env va = some t)
    (hempty : ∀ flag < 1024, t.entries flag = 0#32)
    (hfree : s.freePageTable L env va t = some s') : FramesOwned L s' := by
  obtain ⟨hkeeps, -, hentry⟩ := freePageTable_spec ht hempty hfree
  unfold UserMemory.freePageTable at hfree
  simp only [Option.bind_eq_bind, Option.bind_eq_some_iff] at hfree
  obtain ⟨address, -, heap, hkfree, hfree⟩ := hfree
  obtain rfl := Option.some.inj hfree
  have hheap := (KernelHeap.kfree_spec h.heap hkfree).1
  refine h.of_sameFrames (.of_userEntry (invariant_directories hheap _)
    (hkeeps.noBuffering h.noBuffering) hentry fun f k hf => ?_)
  exact heldFrame_directories (hf.kfree h.heap hkfree) _

theorem FramesOwned.removeEmptyNonUsedPages :
    ∀ (noOfPages va : Nat) {s s' : UserMemory P}, FramesOwned L s →
      removeEmptyNonUsedPages L env va noOfPages s = some s' → FramesOwned L s'
  | 0, va, s, s', h, hremove => by
    obtain rfl := Option.some.inj hremove
    exact h
  | noOfPages + 1, va, s, s', h, hremove => by
    unfold UserMemory.removeEmptyNonUsedPages at hremove
    split at hremove
    · exact FramesOwned.removeEmptyNonUsedPages noOfPages _ h hremove
    · next t ht =>
      split at hremove
      · next hempty =>
        obtain ⟨s₁, hfree, hremove⟩ := Option.bind_eq_some_iff.1 hremove
        have hzero : ∀ flag < 1024, t.entries flag = 0#32 := fun flag hflag => by
          simpa using List.all_eq_true.1 hempty flag (List.mem_range.2 hflag)
        exact FramesOwned.removeEmptyNonUsedPages noOfPages _ (h.freePageTable ht hzero hfree)
          hremove
      · exact FramesOwned.removeEmptyNonUsedPages noOfPages _ h hremove

theorem FramesOwned.freeMem {size : Nat} (h : FramesOwned L s)
    (hfree : s.freeMem L pf env va size = some s') : FramesOwned L s' := by
  unfold UserMemory.freeMem freeResidentPagesInTheWorkingSet at hfree
  simp only [Option.bind_eq_bind, Option.bind_eq_some_iff] at hfree
  obtain ⟨s₂, ⟨⟨kept, s₁⟩, hloop, hset⟩, hremove⟩ := hfree
  obtain rfl := Option.some.inj hset
  have h₀ : FramesOwned L
      { s with pageFile := freeAllPagees pf env va (size / pageSize) s.pageFile } :=
    h.of_heap_eq rfl
  have h₁ := FramesOwned.freeResidentPagesLoop _ h₀ hloop
  have h₂ : FramesOwned L (s₁.setEnv env ((s₁.envs env).compacted kept)) := h₁.of_heap_eq rfl
  exact FramesOwned.removeEmptyNonUsedPages _ _ h₂ hremove

/-- An access sets bits of a present entry. -/
theorem FramesOwned.access (h : FramesOwned L s) (env va : Nat) (store : Option PageBytes) :
    FramesOwned L (access env va store s) := by
  have hused : IsPerm permUsed := by decide
  have hmodified : IsPerm (permUsed ||| permModified) := by decide
  unfold UserMemory.access
  cases ht : s.getPageTable env va with
  | none => exact h
  | some t =>
    dsimp only
    split
    · next hpresent =>
      have hset : ∀ {perm : BitVec 32}, IsPerm perm → FramesOwned L
          (s.setMemory (s.heap.memory.setEntry env va t (t.entries (ptx va) ||| perm))) := by
        intro perm hperm
        have hne : s.userEntry env va ≠ 0#32 := by
          rw [userEntry_of_some ht]
          exact hpresent.ne_zero
        have hframe : frameNumber (t.entries (ptx va) ||| perm) = s.frameOf env va := by
          rw [frameNumber_or _ hperm, frameOf, userEntry_of_some ht]
        refine h.setEntry ht rfl h.noBuffering h.heap (fun _ _ _ hne => h.held hne) fun _ =>
          ⟨isPresent_or hpresent, hframe ▸ h.held hne, fun env' va' hat hne' heq => hat ?_⟩
        exact h.exclusive hne' hne (heq.trans hframe)
      cases store with
      | none => exact hset hused
      | some contents => exact (hset hmodified).of_heap_eq rfl
    · exact h

/-- Every call keeps each page in a frame of its own. -/
theorem step_framesOwned {c : Call} (h : FramesOwned L s) (hstep : step L pf s c = some s') :
    FramesOwned L s' := by
  cases c with
  | fault env va unset => exact h.pageFaultHandler hstep
  | allocateMem env va size noSpace =>
    simp only [step, allocateMem] at hstep
    split at hstep
    · cases hstep
    · obtain rfl := Option.some.inj hstep
      exact h.of_heap_eq rfl
  | freeMem env va size => exact h.freeMem hstep
  | access env va store =>
    obtain rfl := Option.some.inj hstep
    exact h.access env va store

theorem run_framesOwned {s₀ : UserMemory P} {calls : List Call} (h : FramesOwned L s₀)
    (hrun : Machine.run (step L pf) s₀ calls = some s) : FramesOwned L s :=
  Machine.run_induction (fun _ _ _ h hstep => step_framesOwned h hstep) h hrun

end UserMemory

end FosKernel
