import FosKernel.KernelHeapRuns
import FosKernel.ModifiedClock

/-!
# The working-set invariant

`WorkingSetOk` : the working set of an environment tracks its resident pages, and the
occupied slots are all the slots or the first `page_last_WS_index` ones. A page fault of
the environment (`PageFaults`) takes a page out (`pageReplacement_spec`), if the working set is
full, and puts the faulting page in (`pagePlacement_spec`); `freeMem` compacts the slots
(`freeMem_spec`). The calls of another environment are the frame `KeepsOthers`.

`workingSet_invariant` is the invariant along every run.
-/

namespace FosKernel

namespace UserMemory

variable {P : Type} {L : UserLayout} {pf : PageFile P} {s s' s'' : UserMemory P}
  {env env' va va' victim i : Nat}

/-- The resident pages of an environment. -/
def resident (L : UserLayout) (s : UserMemory P) (env : Nat) : Set Nat :=
  {va | va % pageSize = 0 ∧ va < L.userTop ∧ s.Mapped env va}

/-- The working set tracks the resident pages, and its occupied slots are all the slots or
the first `page_last_WS_index` ones. -/
structure WorkingSetOk (L : UserLayout) (s : UserMemory P) (env : Nat) : Prop where
  slots : (s.envs env).Full ∨ (s.envs env).IsPrefix
  tracks : (s.envs env).Tracks (s.resident L env)

theorem resident_congr (h : ∀ va, s'.Mapped env va ↔ s.Mapped env va) :
    s'.resident L env = s.resident L env := by
  ext va
  simp only [resident, Set.mem_ofPred_eq, h]

/-! ## What a call keeps -/

/-- What a call of `env` keeps of everything else. -/
structure KeepsOthers (env : Nat) (s s' : UserMemory P) : Prop where
  envs : ∀ env' ≠ env, s'.envs env' = s.envs env'
  mapped : ∀ env' ≠ env, ∀ va, s'.Mapped env' va ↔ s.Mapped env' va
  pageWSMaxSize : (s'.envs env).pageWSMaxSize = (s.envs env).pageWSMaxSize
  pageRepAlgoType : s'.pageRepAlgoType = s.pageRepAlgoType
  noBuffering : s.NoBuffering → s'.NoBuffering

theorem KeepsOthers.trans (h : KeepsOthers env s s') (h' : KeepsOthers env s' s'') :
    KeepsOthers env s s'' :=
  ⟨fun e he => (h'.envs e he).trans (h.envs e he),
    fun e he va => (h'.mapped e he va).trans (h.mapped e he va),
    h'.pageWSMaxSize.trans h.pageWSMaxSize, h'.pageRepAlgoType.trans h.pageRepAlgoType,
    fun hs => h'.noBuffering (h.noBuffering hs)⟩

theorem Keeps.keepsOthers (h : Keeps s s')
    (hmapped : ∀ env' ≠ env, ∀ va, s'.Mapped env' va ↔ s.Mapped env' va) :
    KeepsOthers env s s' :=
  ⟨fun e _ => by rw [h.envs], hmapped, by rw [h.envs], h.pageRepAlgoType, h.noBuffering⟩

theorem Clears.keepsOthers (h : Clears s s') : KeepsOthers env s s' :=
  h.toKeeps.keepsOthers fun _ _ _ => h.mapped_iff

/-- The working set of `env` is replaced by one of the same size. -/
theorem keepsOthers_setEnv {e : Env} {hand : Nat}
    (he : e.pageWSMaxSize = (s.envs env).pageWSMaxSize) :
    KeepsOthers env s { s.setEnv env e with lastClockIndex := hand } :=
  ⟨fun _ hne => Function.update_of_ne hne _ _, fun _ _ _ => Iff.rfl,
    by simp only [setEnv, Function.update_self, he], rfl, fun hs => hs⟩

theorem KeepsOthers.workingSetOk (h : KeepsOthers env s s') (hne : env' ≠ env)
    (hok : WorkingSetOk L s env') : WorkingSetOk L s' env' := by
  have hres : s'.resident L env' = s.resident L env' := resident_congr (h.mapped env' hne)
  exact ⟨h.envs env' hne ▸ hok.slots, hres ▸ h.envs env' hne ▸ hok.tracks⟩

/-! ## Pages -/

theorem roundDown_div (va : Nat) : roundDown va pageSize / pageSize = va / pageSize := by
  unfold roundDown pageSize
  omega

theorem roundDown_of_aligned (h : va % pageSize = 0) : roundDown va pageSize = va := by
  rw [roundDown, h, Nat.sub_zero]

/-- Two aligned addresses in one page are the same. -/
theorem eq_of_div_eq (h : va % pageSize = 0) (h' : va' % pageSize = 0)
    (hdiv : va / pageSize = va' / pageSize) : va = va' := by
  unfold pageSize at *
  omega

theorem mapped_congr (h : va / pageSize = va' / pageSize) :
    s.Mapped env va ↔ s.Mapped env va' := by
  obtain ⟨hpdx, hptx⟩ := pdx_ptx_iff.2 h
  simp only [Mapped, userEntry, getPageTable, hpdx, hptx]

/-- One page gets mapped. -/
theorem resident_insert (halign : va % pageSize = 0) (htop : va < L.userTop)
    (h : ∀ va', s'.Mapped env va' ↔ va' / pageSize = va / pageSize ∨ s.Mapped env va') :
    s'.resident L env = insert va (s.resident L env) := by
  ext w
  simp only [resident, Set.mem_ofPred_eq, Set.mem_insert_iff, h]
  constructor
  · rintro ⟨hw, htop', hpage | hmapped⟩
    · exact .inl (eq_of_div_eq hw halign hpage)
    · exact .inr ⟨hw, htop', hmapped⟩
  · rintro (rfl | ⟨hw, htop', hmapped⟩)
    · exact ⟨halign, htop, .inl rfl⟩
    · exact ⟨hw, htop', .inr hmapped⟩

/-- One page gets unmapped. -/
theorem resident_diff (halign : va % pageSize = 0)
    (h : ∀ va', s'.Mapped env va' ↔ s.Mapped env va' ∧ ¬ va' / pageSize = va / pageSize) :
    s'.resident L env = s.resident L env \ {va} := by
  ext w
  simp only [resident, Set.mem_ofPred_eq, Set.mem_sdiff, Set.mem_singleton_iff, h]
  constructor
  · rintro ⟨hw, htop, hmapped, hpage⟩
    exact ⟨⟨hw, htop, hmapped⟩, fun heq => hpage (by rw [heq])⟩
  · rintro ⟨⟨hw, htop, hmapped⟩, hne⟩
    exact ⟨hw, htop, hmapped, fun hpage => hne (eq_of_div_eq hw halign hpage)⟩

/-! ## The page fault handler -/

/-- The page file is written at most. -/
theorem updateVictim_spec (h : updateVictim L pf env va s = some s') :
    s'.heap = s.heap ∧ Keeps s s' := by
  unfold updateVictim at h
  split at h
  · simp only [Option.bind_eq_bind, Option.bind_eq_some_iff] at h
    obtain ⟨o, -, f, -, h⟩ := h
    obtain rfl := Option.some.inj h
    exact ⟨rfl, ⟨rfl, rfl, fun hs => hs⟩⟩
  · obtain rfl := Option.some.inj h
    exact ⟨rfl, .refl s⟩

/-- The page is in the page file, or is added to it. -/
theorem readFaultedPage_cases {f : Nat} (h : readFaultedPage L pf env f va s = some s') :
    (∃ contents, pf.readEnvPage s.pageFile env va = some contents ∧
      s' = { s with bytes := Function.update s.bytes f contents }) ∨
    (pf.readEnvPage s.pageFile env va = none ∧ isValidFaultVa L va = true ∧
      ∃ p, pf.addEmptyEnvPage s.pageFile env va false = some p ∧
        s' = { s with pageFile := p }) := by
  unfold readFaultedPage at h
  split at h
  · next contents hcopy => exact Or.inl ⟨contents, hcopy, (Option.some.inj h).symm⟩
  · next hcopy =>
    split at h
    · next hvalid =>
      obtain ⟨p, hadd, rfl⟩ := Option.map_eq_some_iff.1 h
      exact Or.inr ⟨hcopy, hvalid, p, hadd, rfl⟩
    · cases h

/-- The victim is written, unmapped and cleared. -/
theorem pageReplacement_eq_some (h : pageReplacement L pf env victim s = some s') :
    ∃ x s₁ s₂ e, (s.envs env).ptrPageWorkingSet[victim]? = some x ∧
      updateVictim L pf env x.virtualAddress s = some s₁ ∧
      s₁.unmapFrame L env x.virtualAddress = some s₂ ∧
      (s₂.envs env).pageWsClearEntry victim = some e ∧
      s' = { s₂.setEnv env e.advance with lastClockIndex := e.advance.pageLastWSIndex } := by
  unfold pageReplacement at h
  simp only [Option.bind_eq_bind, Option.bind_eq_some_iff] at h
  obtain ⟨x, hx, s₁, hwrite, s₂, hun, e, hclear, h⟩ := h
  exact ⟨x, s₁, s₂, e, hx, hwrite, hun, hclear, (Option.some.inj h).symm⟩

/-- A frame is mapped, the page is read into it, and the slot is set. -/
theorem pagePlacement_eq_some (h : pagePlacement L pf env va victim s = some s') :
    ∃ f m s₁ s₂ e, s.heap.memory.allocateFrame = some (f, m) ∧
      (s.setMemory m).mapFrame L env f va (permPresent ||| permUser ||| permWriteable) = some s₁ ∧
      readFaultedPage L pf env f va s₁ = some s₂ ∧
      (s₂.envs env).pageWsSetEntry L.userTop victim va = some e ∧
      s' = { s₂.setEnv env { e with pageLastWSIndex := victim }.advance with
        lastClockIndex := { e with pageLastWSIndex := victim }.advance.pageLastWSIndex } := by
  unfold pagePlacement at h
  simp only [Option.bind_eq_bind, Option.bind_eq_some_iff] at h
  obtain ⟨⟨f, m⟩, halloc, s₁, hmap, s₂, hread, e, hset, h⟩ := h
  exact ⟨f, m, s₁, s₂, e, halloc, hmap, hread, hset, (Option.some.inj h).symm⟩

/-- The ways of the page fault handler : with a full working set it replaces a victim only under
Modified Clock. -/
inductive PageFaults (L : UserLayout) (pf : PageFile P) (env va unset : Nat)
    (s s' : UserMemory P) : Prop
  | replaced {v : Nat} {s₁ s₂ : UserMemory P} (hfull : (s.envs env).Full)
      (halgo : s.pageRepAlgoType = .modifiedClock) (hclock : modifiedClock env s = some (v, s₁))
      (hreplace : pageReplacement L pf env v s₁ = some s₂)
      (hplace : pagePlacement L pf env va v s₂ = some s')
  | unreplaced (hfull : (s.envs env).Full) (halgo : s.pageRepAlgoType ≠ .modifiedClock)
      (hplace : pagePlacement L pf env va unset s = some s')
  | placed (hfull : ¬(s.envs env).Full)
      (hplace : pagePlacement L pf env va (s.envs env).pageLastWSIndex s = some s')

theorem pageFaults {unset : Nat} (h : pageFaultHandler L pf env va unset s = some s') :
    PageFaults L pf env (roundDown va pageSize) unset s s' := by
  unfold pageFaultHandler at h
  dsimp only at h
  rw [if_congr Env.full_iff rfl rfl] at h
  split_ifs at h with hfull halgo
  · simp only [Option.bind_eq_bind, Option.bind_eq_some_iff] at h
    obtain ⟨⟨v, s₁⟩, hclock, s₂, hreplace, hplace⟩ := h
    exact .replaced hfull halgo hclock hreplace hplace
  · exact .unreplaced hfull halgo h
  · exact .placed hfull h

/-- The frame and the page file are written. -/
theorem readFaultedPage_spec {f : Nat} (h : readFaultedPage L pf env f va s = some s') :
    s'.heap = s.heap ∧ Keeps s s' := by
  rcases readFaultedPage_cases h with ⟨contents, -, rfl⟩ | ⟨-, -, p, -, rfl⟩
  · exact ⟨rfl, ⟨rfl, rfl, fun hs => hs⟩⟩
  · exact ⟨rfl, ⟨rfl, rfl, fun hs => hs⟩⟩

theorem mapped_of_heap_eq (h : s'.heap = s.heap) : s'.Mapped env va ↔ s.Mapped env va := by
  have hentry : s'.userEntry env va = s.userEntry env va := userEntry_congr (by rw [h])
  rw [Mapped, hentry, Mapped]

/-- `pageReplacement` unmaps the page of the victim and clears its slot. -/
theorem pageReplacement_spec (hs : s.NoBuffering)
    (h : pageReplacement L pf env victim s = some s') :
    ∃ x, (s.envs env).ptrPageWorkingSet[victim]? = some x ∧ KeepsOthers env s s' ∧
      (∀ k, (s'.envs env).slot k = if k = victim then none else (s.envs env).slot k) ∧
      ∀ va, s'.Mapped env va ↔ s.Mapped env va ∧
        ¬ va / pageSize = x.virtualAddress / pageSize := by
  obtain ⟨x, s₁, s₂, e, hx, hwrite, hun, hclear, rfl⟩ := pageReplacement_eq_some h
  obtain ⟨hheap, hkeeps₁⟩ := updateVictim_spec hwrite
  have hs₁ := hkeeps₁.noBuffering hs
  have hkeeps₂ := (unmaps_unmapFrame hun).toKeeps
  have henvs : s₂.envs = s.envs := hkeeps₂.envs.trans hkeeps₁.envs
  have hmapped : ∀ env' va, s₂.Mapped env' va ↔
      s.Mapped env' va ∧ ¬ (env' = env ∧ va / pageSize = x.virtualAddress / pageSize) :=
    fun env' va => by rw [mapped_unmapFrame hun, mapped_of_heap_eq hheap]
  obtain ⟨hlt, rfl⟩ := Env.pageWsClearEntry_eq_some.1 hclear
  have hothers : KeepsOthers env s s₂ := (hkeeps₁.trans hkeeps₂).keepsOthers fun env' hne va => by
    rw [hmapped]
    exact and_iff_left fun hc => hne hc.1
  refine ⟨x, hx, hothers.trans (keepsOthers_setEnv ?_), fun k => ?_, fun va => ?_⟩
  · simp [Env.advance, Env.pageWSMaxSize]
  · have hslot := Env.slot_set (x := .cleared) hlt k
    rw [henvs] at hslot
    simp only [setEnv, Function.update_self, henvs]
    exact hslot
  · exact (hmapped env va).trans (by simp)

/-- `pagePlacement` maps the faulting page and writes its address in the slot. -/
theorem pagePlacement_spec (hs : s.NoBuffering)
    (h : pagePlacement L pf env va victim s = some s') :
    KeepsOthers env s s' ∧ va < L.userTop ∧ victim < (s.envs env).pageWSMaxSize ∧
      (∀ k, (s'.envs env).slot k =
        if k = victim then some (roundDown va pageSize) else (s.envs env).slot k) ∧
      (s'.envs env).pageLastWSIndex = (victim + 1) % (s.envs env).pageWSMaxSize ∧
      ∀ va', s'.Mapped env va' ↔ va' / pageSize = va / pageSize ∨ s.Mapped env va' := by
  obtain ⟨f, m, s₂, s₃, e, halloc, hmap, hread, hset, rfl⟩ := pagePlacement_eq_some h
  obtain ⟨hkeeps₁, hentry₁⟩ := keeps_allocateFrame hs halloc
  obtain ⟨hkeeps₂, hmapped₂⟩ := mapFrame_spec (hkeeps₁.noBuffering hs) hmap
  obtain ⟨hheap, hkeeps₃⟩ := readFaultedPage_spec hread
  have hkeeps : Keeps s s₃ := (hkeeps₁.trans hkeeps₂).trans hkeeps₃
  have hmapped : ∀ env' va', s₃.Mapped env' va' ↔
      (env' = env ∧ va' / pageSize = va / pageSize) ∨ s.Mapped env' va' := fun env' va' => by
    have hfirst : (s.setMemory m).Mapped env' va' ↔ s.Mapped env' va' := by
      unfold Mapped
      rw [hentry₁]
    rw [mapped_of_heap_eq hheap, hmapped₂, hfirst]
  obtain ⟨⟨hlt, htop⟩, rfl⟩ := Env.pageWsSetEntry_eq_some.1 hset
  have hothers : KeepsOthers env s s₃ := hkeeps.keepsOthers fun env' hne va' => by
    rw [hmapped]
    exact or_iff_right fun hc => hne hc.1
  refine ⟨hothers.trans (keepsOthers_setEnv ?_), htop, hkeeps.envs ▸ hlt, fun k => ?_, ?_,
    fun va' => ?_⟩
  · simp [Env.advance, Env.pageWSMaxSize]
  · have hslot := Env.slot_set (x := ⟨roundDown va pageSize, false, 0x80000000#32⟩) hlt k
    rw [hkeeps.envs] at hslot
    simp only [setEnv, Function.update_self, hkeeps.envs]
    exact hslot
  · simp [setEnv, Env.advance, Env.pageWSMaxSize, hkeeps.envs]
  · exact (hmapped env va').trans (by simp)

/-- The page placed in an empty slot joins the working set. -/
theorem pagePlacement_ok (hs : s.NoBuffering) (halign : va % pageSize = 0)
    (htracks : (s.envs env).Tracks (s.resident L env))
    (hnone : (s.envs env).slot victim = none)
    (hbefore : (∀ k < (s.envs env).pageWSMaxSize, k ≠ victim → ((s.envs env).slot k).isSome) ∨
      (s.envs env).IsPrefix ∧ victim = (s.envs env).pageLastWSIndex)
    (hnon : ¬ s.Mapped env va) (h : pagePlacement L pf env va victim s = some s') :
    WorkingSetOk L s' env ∧ s'.resident L env = insert va (s.resident L env) ∧
      ∀ k ≠ victim, (s'.envs env).slot k = (s.envs env).slot k := by
  obtain ⟨hothers, htop, hlt, hslot, hindex, hmapped⟩ := pagePlacement_spec hs h
  rw [roundDown_of_aligned halign] at hslot
  have hres : s'.resident L env = insert va (s.resident L env) :=
    resident_insert halign htop hmapped
  have hva : va ∉ s.resident L env := fun hc => hnon hc.2.2
  refine ⟨⟨?_, hres ▸ htracks.place hnone hva hslot⟩, hres, fun k hk => ?_⟩
  · exact Env.full_or_isPrefix_place hothers.pageWSMaxSize hlt hslot hindex hbefore
  · rw [hslot, if_neg hk]

theorem keepsOthers_fault {unset : Nat} (hs : s.NoBuffering)
    (h : pageFaultHandler L pf env va unset s = some s') : KeepsOthers env s s' := by
  cases pageFaults h with
  | @replaced v s₁ s₂ _ _ hclock hreplace hplace =>
    have h₁ : KeepsOthers env s s₁ := (modifiedClock_spec hclock).1.keepsOthers
    have hs₁ : s₁.NoBuffering := h₁.noBuffering hs
    obtain ⟨x, -, h₂, -⟩ := pageReplacement_spec hs₁ hreplace
    exact (h₁.trans h₂).trans (pagePlacement_spec (h₂.noBuffering hs₁) hplace).1
  | unreplaced _ _ hplace => exact (pagePlacement_spec hs hplace).1
  | placed _ hplace => exact (pagePlacement_spec hs hplace).1

/-- The victim of a full working set leaves it with its mapping. -/
theorem replacement_ok (hs : s.NoBuffering) (hok : WorkingSetOk L s env)
    (hfull : (s.envs env).Full) (hclock : modifiedClock env s = some (victim, s'))
    (hreplace : pageReplacement L pf env victim s' = some s'') :
    ∃ w, (s.envs env).slot victim = some w ∧ w ∈ s.resident L env ∧ KeepsOthers env s s'' ∧
      s''.resident L env = s.resident L env \ {w} ∧ (∀ va, s''.Mapped env va → s.Mapped env va) ∧
      ∀ k, (s''.envs env).slot k = if k = victim then none else (s.envs env).slot k := by
  obtain ⟨hclears, hv⟩ := modifiedClock_spec hclock
  have hres : s'.resident L env = s.resident L env := resident_congr fun _ => hclears.mapped_iff
  obtain ⟨x, hx, hothers, hslot, hmapped⟩ :=
    pageReplacement_spec (hclears.noBuffering hs) hreplace
  rw [hclears.envs] at hx hslot
  -- the victim's slot holds the address of a resident page
  obtain ⟨w, hw⟩ := Option.isSome_iff_exists.1 (hfull.slot_isSome hv)
  obtain rfl : x.virtualAddress = w := by
    obtain ⟨y, hy, -, hyw⟩ := Env.slot_eq_some.1 hw
    exact Option.some.inj (hx.symm.trans hy) ▸ hyw
  have hwres : x.virtualAddress ∈ s.resident L env := (hok.tracks.mem_iff _).2 ⟨victim, hw⟩
  refine ⟨x.virtualAddress, hw, hwres, hclears.keepsOthers.trans hothers, ?_, fun va hva => ?_,
    hslot⟩
  · rw [← hres]
    exact resident_diff hwres.1 hmapped
  · exact hclears.mapped_iff.1 ((hmapped va).1 hva).1

/-- A page fault keeps the working set right, and a page loses its slot only with its
mapping. -/
theorem fault_ok {unset : Nat} (hs : s.NoBuffering) (halgo : s.pageRepAlgoType = .modifiedClock)
    (hok : WorkingSetOk L s env) (hnon : ¬ s.Mapped env va)
    (h : pageFaultHandler L pf env va unset s = some s') :
    WorkingSetOk L s' env ∧ ∀ i w, (s.envs env).slot i = some w →
      (s'.envs env).slot i = some w ∨ w ∉ s'.resident L env := by
  have halign : roundDown va pageSize % pageSize = 0 := roundDown_mod va pageSize
  have hnon' : ¬ s.Mapped env (roundDown va pageSize) :=
    fun hc => hnon ((mapped_congr (roundDown_div va)).1 hc)
  cases pageFaults h with
  | @replaced v s₁ s₂ hfull _ hclock hreplace hplace =>
    obtain ⟨w, hw, hwres, hothers, hres₂, hmapped₂, hslot₂⟩ :=
      replacement_ok hs hok hfull hclock hreplace
    obtain ⟨hok', hres', hkept⟩ := pagePlacement_ok (hothers.noBuffering hs) halign
      (hres₂ ▸ hok.tracks.evict hw hslot₂) (by rw [hslot₂, if_pos rfl])
      (.inl fun k hk hne => by
        rw [hslot₂, if_neg hne]
        exact hfull.slot_isSome (hothers.pageWSMaxSize ▸ hk))
      (fun hc => hnon' (hmapped₂ _ hc)) hplace
    refine ⟨hok', fun i a hi => ?_⟩
    by_cases hiv : i = v
    · subst hiv
      obtain rfl := Option.some.inj (hw.symm.trans hi)
      refine .inr ?_
      rw [hres', hres₂]
      rintro (heq | ⟨-, hne⟩)
      · exact hnon' (heq ▸ hwres.2.2)
      · exact hne rfl
    · refine .inl ?_
      rw [hkept i hiv, hslot₂, if_neg hiv, hi]
  | unreplaced _ hne _ => exact absurd halgo hne
  | placed hfull hplace =>
    have hpre := hok.slots.resolve_left hfull
    obtain ⟨-, hnone⟩ := hpre.slot_index hfull
    obtain ⟨hok', -, hkept⟩ := pagePlacement_ok hs halign hok.tracks hnone (.inr ⟨hpre, rfl⟩)
      hnon' hplace
    refine ⟨hok', fun i a hi => .inl ?_⟩
    rw [hkept i fun hc => ?_, hi]
    rw [hc, hnone] at hi
    cases hi

/-! ## `freeMem` -/

/-- The test of `freeResidentPagesInTheWorkingSet` on the page of an address. -/
def inRange (va size a : Nat) : Bool :=
  va ≤ roundDown a pageSize ∧ roundDown a pageSize < u32 (va + size)

/-- The slot holds a page outside the range. -/
def stays (va size : Nat) (x : WorkingSetElement) : Bool :=
  !x.empty && !inRange va size x.virtualAddress

/-- The page of `a` is that of a slot in the range. -/
def Leaves (va size : Nat) (ws : List WorkingSetElement) (a : Nat) : Prop :=
  ∃ b ∈ ws.filterMap WorkingSetElement.address?, inRange va size b = true ∧
    a / pageSize = b / pageSize

theorem leaves_cons {size a : Nat} {x : WorkingSetElement} {ws : List WorkingSetElement} :
    Leaves va size (x :: ws) a ↔ (x.empty = false ∧ inRange va size x.virtualAddress = true ∧
      a / pageSize = x.virtualAddress / pageSize) ∨ Leaves va size ws a := by
  unfold Leaves
  cases hempty : x.empty with
  | true =>
    have haddr : x.address? = none := by simp [WorkingSetElement.address?, hempty]
    simp [List.filterMap_cons_none haddr]
  | false =>
    have haddr : x.address? = some x.virtualAddress := Env.address?_eq_some.2 ⟨hempty, rfl⟩
    simp [List.filterMap_cons_some haddr]

/-- The loop keeps the slots of the pages outside the range, and unmaps the others. -/
theorem freeResidentPagesLoop_spec {size : Nat} :
    ∀ (ws : List WorkingSetElement) {kept : List WorkingSetElement} {s s' : UserMemory P},
      freeResidentPagesLoop L env va size ws s = some (kept, s') →
      Unmaps s s' ∧ s'.pageFile = s.pageFile ∧ kept = ws.filter (stays va size) ∧ ∀ env' a,
        (env' = env ∧ Leaves va size ws a → s'.userEntry env' a = 0#32) ∧
        (¬(env' = env ∧ Leaves va size ws a) → s'.userEntry env' a = s.userEntry env' a)
  | [], kept, s, s', h => by
    obtain ⟨rfl, rfl⟩ := Prod.mk.inj (Option.some.inj h)
    exact ⟨.refl s, rfl, rfl, fun env' a => ⟨fun hc => by simp [Leaves] at hc, fun _ => rfl⟩⟩
  | x :: rest, kept, s, s', h => by
    unfold freeResidentPagesLoop at h
    dsimp only at h
    simp only [leaves_cons]
    split at h
    · next hin =>
      obtain ⟨s₁, hun, h⟩ := Option.bind_eq_some_iff.1 h
      obtain ⟨hunmaps, hpages, rfl, hentry⟩ := freeResidentPagesLoop_spec rest h
      have hentry₁ := userEntry_unmapFrame hun
      simp only [roundDown_div] at hentry₁
      have hrange : inRange va size x.virtualAddress = true := decide_eq_true hin.2
      refine ⟨(unmaps_unmapFrame hun).trans hunmaps, hpages.trans (unmapFrame_pageFile hun), ?_,
        fun env' a => ⟨?_, fun hnot => ?_⟩⟩
      · rw [List.filter_cons_of_neg (by simp [stays, hrange])]
      · rintro ⟨rfl, hat | hleaves⟩
        · -- An entry that is zero stays zero.
          by_cases hleaves : Leaves va size rest a
          · exact (hentry _ a).1 ⟨rfl, hleaves⟩
          · rw [(hentry _ a).2 fun hc => hleaves hc.2, hentry₁, if_pos ⟨rfl, hat.2.2⟩]
        · exact (hentry _ a).1 ⟨rfl, hleaves⟩
      · rw [(hentry env' a).2 fun hc => hnot ⟨hc.1, Or.inr hc.2⟩, hentry₁,
          if_neg fun hc => hnot ⟨hc.1, Or.inl ⟨hin.1, hrange, hc.2⟩⟩]
    · next hout =>
      simp only [Option.bind_eq_bind, Option.bind_eq_some_iff] at h
      obtain ⟨⟨kept', s₁⟩, hloop, h⟩ := h
      obtain ⟨rfl, rfl⟩ := Prod.mk.inj (Option.some.inj h)
      obtain ⟨hunmaps, hpages, rfl, hentry⟩ := freeResidentPagesLoop_spec rest hloop
      have hnot : ¬(x.empty = false ∧ inRange va size x.virtualAddress = true) := fun hc =>
        hout ⟨hc.1, of_decide_eq_true hc.2⟩
      refine ⟨hunmaps, hpages, ?_, fun env' a => ?_⟩
      · cases hempty : x.empty with
        | true => simp [stays, hempty]
        | false =>
          have hstays : stays va size x = true := by simpa [stays, hempty] using hnot
          simp [List.filter_cons_of_pos hstays]
      · rw [or_iff_right fun hc => hnot ⟨hc.1, hc.2.1⟩]
        exact hentry env' a

theorem address?_stays {size : Nat} (ws : List WorkingSetElement) :
    (ws.filter (stays va size)).filterMap WorkingSetElement.address? =
      (ws.filterMap WorkingSetElement.address?).filter fun a => !inRange va size a := by
  induction ws with
  | nil => rfl
  | cons x ws ih =>
    cases hempty : x.empty with
    | true =>
      have haddr : x.address? = none := by simp [WorkingSetElement.address?, hempty]
      rw [List.filter_cons_of_neg (by simp [stays, hempty]), List.filterMap_cons_none haddr, ih]
    | false =>
      have haddr : x.address? = some x.virtualAddress := Env.address?_eq_some.2 ⟨hempty, rfl⟩
      rw [List.filterMap_cons_some haddr]
      by_cases hin : inRange va size x.virtualAddress = true
      · rw [List.filter_cons_of_neg (by simp [stays, hin]), ih,
          List.filter_cons_of_neg (by simp [hin])]
      · rw [List.filter_cons_of_pos (by simp [stays, hempty, hin]),
          List.filterMap_cons_some haddr, ih, List.filter_cons_of_pos (by simp [hin])]

/-- What `freeMem` does before it looks at the page tables. -/
theorem freeMem_cases {size : Nat} (h : s.freeMem L pf env va size = some s') :
    ∃ s₁, Unmaps s s₁ ∧
      s₁.pageFile = freeAllPagees pf env va (size / pageSize) s.pageFile ∧
      (∀ env' a,
        (env' = env ∧ Leaves va size (s.envs env).ptrPageWorkingSet a →
          s₁.userEntry env' a = 0#32) ∧
        (¬(env' = env ∧ Leaves va size (s.envs env).ptrPageWorkingSet a) →
          s₁.userEntry env' a = s.userEntry env' a)) ∧
      removeEmptyNonUsedPages L env va (size / pageSize) (s₁.setEnv env
        ((s.envs env).compacted ((s.envs env).ptrPageWorkingSet.filter (stays va size)))) =
          some s' := by
  unfold freeMem freeResidentPagesInTheWorkingSet at h
  simp only [Option.bind_eq_bind, Option.bind_eq_some_iff] at h
  obtain ⟨s₂, ⟨⟨kept, s₁⟩, hloop, hset⟩, hremove⟩ := h
  obtain rfl := Option.some.inj hset
  obtain ⟨hunmaps, hpages, rfl, hentry⟩ := freeResidentPagesLoop_spec _ hloop
  have hunmaps' : Unmaps s s₁ :=
    ⟨⟨hunmaps.envs, hunmaps.pageRepAlgoType, hunmaps.noBuffering⟩, hunmaps.kernelHeapPages,
      hunmaps.kernelEntries, hunmaps.initialized, hunmaps.frames⟩
  rw [hunmaps'.envs] at hremove
  exact ⟨s₁, hunmaps', hpages, hentry, hremove⟩

/-- What `freeMem` does to the page file, the working sets and the entries. -/
structure FreeMemEffect (pf : PageFile P) (env va size : Nat) (s s' : UserMemory P) : Prop where
  pageFile : s'.pageFile = freeAllPagees pf env va (size / pageSize) s.pageFile
  envs : s'.envs = Function.update s.envs env ((s.envs env).compacted
    ((s.envs env).ptrPageWorkingSet.filter (stays va size)))
  left : ∀ a, Leaves va size (s.envs env).ptrPageWorkingSet a → s'.userEntry env a = 0#32
  kept : ∀ env' a, ¬(env' = env ∧ Leaves va size (s.envs env).ptrPageWorkingSet a) →
    s'.userEntry env' a = s.userEntry env' a
  pageRepAlgoType : s'.pageRepAlgoType = s.pageRepAlgoType
  noBuffering : s.NoBuffering → s'.NoBuffering

theorem freeMem_effect {size : Nat} (h : s.freeMem L pf env va size = some s') :
    FreeMemEffect pf env va size s s' := by
  obtain ⟨s₁, hunmaps, hpages₁, hentry₁, hremove⟩ := freeMem_cases h
  obtain ⟨hkeeps, hpages, hentry⟩ := removeEmptyNonUsedPages_spec _ _ hremove
  refine ⟨hpages.trans hpages₁, ?_, fun a hleaves => ?_, fun env' a hout => ?_,
    hkeeps.pageRepAlgoType.trans hunmaps.pageRepAlgoType,
    fun hs => hkeeps.noBuffering (hunmaps.noBuffering hs)⟩
  · exact hkeeps.envs.trans (congrArg (Function.update · env _) hunmaps.envs)
  · exact (hentry env a).trans ((hentry₁ env a).1 ⟨rfl, hleaves⟩)
  · exact (hentry env' a).trans ((hentry₁ env' a).2 hout)

theorem FreeMemEffect.envs_same {size : Nat} (h : FreeMemEffect pf env va size s s') :
    s'.envs env = (s.envs env).compacted
      ((s.envs env).ptrPageWorkingSet.filter (stays va size)) := by
  rw [h.envs, Function.update_self]

theorem FreeMemEffect.mapped_iff {size : Nat} (h : FreeMemEffect pf env va size s s')
    (env' a : Nat) : s'.Mapped env' a ↔ s.Mapped env' a ∧
      ¬(env' = env ∧ Leaves va size (s.envs env).ptrPageWorkingSet a) := by
  by_cases hleaves : env' = env ∧ Leaves va size (s.envs env).ptrPageWorkingSet a
  · refine iff_of_false ?_ fun hc => hc.2 hleaves
    obtain ⟨rfl, hleaves⟩ := hleaves
    rw [Mapped, h.left a hleaves]
    exact not_isPresent_zero
  · rw [Mapped, h.kept env' a hleaves, and_iff_left hleaves, Mapped]

theorem length_stays_le (e : Env) {size : Nat} :
    (e.ptrPageWorkingSet.filter (stays va size)).length ≤ e.pageWSMaxSize :=
  List.length_filter_le _ _

/-- The pages that stay are the resident ones outside the range. -/
theorem FreeMemEffect.resident_eq {size : Nat} (h : FreeMemEffect pf env va size s s')
    (htracks : (s.envs env).Tracks (s.resident L env)) :
    s'.resident L env = {a | a ∈ s.resident L env ∧ (!inRange va size a) = true} := by
  ext a
  simp only [resident, Set.mem_ofPred_eq, h.mapped_iff, true_and]
  constructor
  · rintro ⟨halign, htop, hmap, hnot⟩
    refine ⟨⟨halign, htop, hmap⟩, ?_⟩
    by_contra hin
    have hslot := (htracks.mem_iff a).1 ⟨halign, htop, hmap⟩
    exact hnot ⟨a, Env.mem_addresses.2 hslot, by simpa using hin, rfl⟩
  · rintro ⟨⟨halign, htop, hmap⟩, hout⟩
    refine ⟨halign, htop, hmap, ?_⟩
    rintro ⟨b, hb, hin, hpage⟩
    have hbres := (htracks.mem_iff b).2 (Env.mem_addresses.1 hb)
    obtain rfl := eq_of_div_eq halign hbres.1 hpage
    simp [hin] at hout

/-- `freeMem` takes the pages of the range out of the working set. -/
theorem freeMem_spec {size : Nat} (h : s.freeMem L pf env va size = some s') :
    KeepsOthers env s s' ∧ (WorkingSetOk L s env → WorkingSetOk L s' env) := by
  have heffect := freeMem_effect h
  have henvs := heffect.envs_same
  have hlen : ((s.envs env).ptrPageWorkingSet.filter (stays va size)).length ≤
      (s.envs env).pageWSMaxSize := length_stays_le _
  have hne : ∀ x ∈ (s.envs env).ptrPageWorkingSet.filter (stays va size), x.empty = false := by
    intro x hx
    have hstays := (List.mem_filter.1 hx).2
    simp only [stays, Bool.and_eq_true, Bool.not_eq_true'] at hstays
    exact hstays.1
  refine ⟨⟨fun e he => ?_, fun e he a => ?_, by rw [henvs, Env.pageWSMaxSize_compacted hlen],
    heffect.pageRepAlgoType, heffect.noBuffering⟩,
    fun hok => ⟨henvs ▸ Env.full_or_isPrefix_compacted hne hlen, ?_⟩⟩
  · rw [heffect.envs, Function.update_of_ne he]
  · rw [heffect.mapped_iff]
    exact and_iff_left fun hc => he hc.1
  · rw [heffect.resident_eq hok.tracks, henvs]
    exact hok.tracks.compact _ (address?_stays _)

/-! ## Runs -/

/-- The page faults of `env` are at pages that are not resident. -/
def Admissible (env : Nat) (s : UserMemory P) : Call → Prop
  | .fault env' faultVa _ => env' = env → ¬ s.Mapped env faultVa
  | _ => True

instance (c : Call) : Decidable (Admissible env s c) := by
  cases c <;> unfold Admissible <;> infer_instance

/-- The environment a call is about. -/
def Call.caller : Call → Nat
  | .fault env _ _ | .allocateMem env _ _ _ | .freeMem env _ _ | .access env _ _ => env

theorem keepsOthers_step {c : Call} (hs : s.NoBuffering) (h : step L pf s c = some s') :
    KeepsOthers c.caller s s' := by
  cases c with
  | fault env' faultVa unset => exact keepsOthers_fault hs h
  | allocateMem env' va size noSpace =>
    simp only [step, allocateMem] at h
    split at h
    · cases h
    · obtain rfl := Option.some.inj h
      exact ⟨fun _ _ => rfl, fun _ _ _ => Iff.rfl, rfl, rfl, fun hs => hs⟩
  | freeMem env' va size => exact (freeMem_spec h).1
  | access env' va store =>
    obtain rfl := Option.some.inj h
    obtain ⟨hkeeps, hmapped, -⟩ := access_spec s env' va store
    exact hkeeps.keepsOthers fun env' _ va => hmapped env' va

/-- A call keeps the working set of every environment right. -/
theorem step_workingSetOk {c : Call} (hs : s.NoBuffering)
    (halgo : s.pageRepAlgoType = .modifiedClock) (hok : WorkingSetOk L s env)
    (hc : Admissible env s c) (h : step L pf s c = some s') : WorkingSetOk L s' env := by
  by_cases henv : env = c.caller
  · cases c with
    | fault env' faultVa unset =>
      obtain rfl : env = env' := henv
      exact (fault_ok hs halgo hok (hc rfl) h).1
    | allocateMem env' va size noSpace =>
      simp only [step, allocateMem] at h
      split at h
      · cases h
      · obtain rfl := Option.some.inj h
        exact ⟨hok.slots, hok.tracks⟩
    | freeMem env' va size =>
      obtain rfl : env = env' := henv
      exact (freeMem_spec h).2 hok
    | access env' va store =>
      obtain rfl := Option.some.inj h
      obtain ⟨hkeeps, hmapped, -⟩ := access_spec s env' va store
      have hres : (access env' va store s).resident L env = s.resident L env :=
        resident_congr (hmapped env)
      exact ⟨hkeeps.envs ▸ hok.slots, hres ▸ hkeeps.envs ▸ hok.tracks⟩
  · exact (keepsOthers_step hs h).workingSetOk henv hok

/-- The size of the working set of `env` does not change. -/
theorem step_pageWSMaxSize {c : Call} (hs : s.NoBuffering) (h : step L pf s c = some s') :
    (s'.envs env).pageWSMaxSize = (s.envs env).pageWSMaxSize := by
  have hothers := keepsOthers_step hs h
  by_cases henv : env = c.caller
  · exact henv ▸ hothers.pageWSMaxSize
  · rw [hothers.envs env henv]

/-- What a run keeps of the state besides the working sets. -/
structure Running (s₀ s : UserMemory P) : Prop where
  noBuffering : s.NoBuffering
  pageRepAlgoType : s.pageRepAlgoType = .modifiedClock
  pageWSMaxSize : ∀ env, (s.envs env).pageWSMaxSize = (s₀.envs env).pageWSMaxSize

theorem Running.step {s₀ : UserMemory P} (h : Running s₀ s) {c : Call}
    (hstep : step L pf s c = some s') : Running s₀ s' :=
  ⟨(keepsOthers_step h.noBuffering hstep).noBuffering h.noBuffering,
    (keepsOthers_step h.noBuffering hstep).pageRepAlgoType.trans h.pageRepAlgoType,
    fun env => (step_pageWSMaxSize h.noBuffering hstep).trans (h.pageWSMaxSize env)⟩

/-- No call changes the replacement algorithm. -/
theorem run_pageRepAlgoType {s₀ : UserMemory P} {calls : List Call} (hs : s₀.NoBuffering)
    (hrun : Machine.run (step L pf) s₀ calls = some s) :
    s.pageRepAlgoType = s₀.pageRepAlgoType := by
  refine (Machine.run_induction (P := fun s => s.NoBuffering ∧
    s.pageRepAlgoType = s₀.pageRepAlgoType) (fun s c s' ⟨hs, halgo⟩ hstep => ?_) ⟨hs, rfl⟩ hrun).2
  have hothers := keepsOthers_step hs hstep
  exact ⟨hothers.noBuffering hs, hothers.pageRepAlgoType.trans halgo⟩

theorem run_running {s₀ : UserMemory P} {calls : List Call} (hs : s₀.NoBuffering)
    (halgo : s₀.pageRepAlgoType = .modifiedClock)
    (hrun : Machine.run (step L pf) s₀ calls = some s) : Running s₀ s :=
  Machine.run_induction (fun _ _ _ hr hstep => hr.step hstep) ⟨hs, halgo, fun _ => rfl⟩ hrun

theorem run_workingSetOk {s₀ : UserMemory P} {calls : List Call} (hs : s₀.NoBuffering)
    (halgo : s₀.pageRepAlgoType = .modifiedClock) (hok : WorkingSetOk L s₀ env)
    (hcalls : Machine.Meets (step L pf) (Admissible env) s₀ calls)
    (hrun : Machine.run (step L pf) s₀ calls = some s) :
    Running s₀ s ∧ WorkingSetOk L s env := by
  refine Machine.run_induction_of_meets (P := fun s => Running s₀ s ∧ WorkingSetOk L s env)
    (fun s c s' ⟨hr, hok⟩ hc hstep => ?_) ⟨⟨hs, halgo, fun _ => rfl⟩, hok⟩ hcalls hrun
  exact ⟨hr.step hstep, step_workingSetOk hr.noBuffering hr.pageRepAlgoType hok hc hstep⟩

/-- The working set of an environment along every run of page faults at pages that are not
resident, of `freeMem` and of accesses, with the calls of other environments in between :
it tracks the resident pages, which are as many as its slots at most, and a page fault
takes a page out of its slot only with its mapping. -/
theorem workingSet_invariant {s₀ : UserMemory P} {calls : List Call} (hs : s₀.NoBuffering)
    (halgo : s₀.pageRepAlgoType = .modifiedClock) (hok : WorkingSetOk L s₀ env)
    (hcalls : Machine.Meets (step L pf) (Admissible env) s₀ calls)
    (hrun : Machine.run (step L pf) s₀ calls = some s) :
    WorkingSetOk L s env ∧
      (∀ i j va, (s.envs env).slot i = some va → (s.envs env).slot j = some va → i = j) ∧
      (s.resident L env).Finite ∧
      (s.resident L env).ncard ≤ (s₀.envs env).pageWSMaxSize ∧
      ∀ faultVa unset s', ¬ s.Mapped env faultVa →
        pageFaultHandler L pf env faultVa unset s = some s' →
        ∀ i va, (s.envs env).slot i = some va →
          (s'.envs env).slot i = some va ∨ va ∉ s'.resident L env := by
  obtain ⟨hrunning, hok'⟩ := run_workingSetOk hs halgo hok hcalls hrun
  obtain ⟨hfinite, hcard⟩ := hok'.tracks.ncard_le
  refine ⟨hok', hok'.tracks.distinct, hfinite, hrunning.pageWSMaxSize env ▸ hcard,
    fun faultVa unset s' hnon h => ?_⟩
  exact (fault_ok hrunning.noBuffering hrunning.pageRepAlgoType hok' hnon h).2

/-- A page file that keeps every page. -/
def mapPageFile : PageFile (Nat → Nat → Option PageBytes) where
  readEnvPage p env va := p env va
  addEmptyEnvPage p env va _ :=
    some (Function.update p env (Function.update (p env) va (some fun _ => 0#8)))
  updateEnvPage p env va contents :=
    Function.update p env (Function.update (p env) va (some contents))
  removeEnvPage p env va := Function.update p env (Function.update (p env) va none)

/-- Memory of twelve frames, with a kernel heap of three pages and a stack of four. -/
def smallUserLayout : UserLayout where
  kernelHeapStart := 0xF6000000
  kernelHeapMax := 0xF6003000
  numberOfFrames := 12
  start_lt_max := KernelHeap.smallLayout.start_lt_max
  max_le := KernelHeap.smallLayout.max_le
  start_aligned := KernelHeap.smallLayout.start_aligned
  max_aligned := KernelHeap.smallLayout.max_aligned
  numberOfFrames_le := by decide
  userTop := 0xEF800000
  ustackBottom := 0xEEBFA000
  ustackTop := 0xEEBFE000
  userTop_lt := userTop_lt_fos

/-- No page is resident; environment `env` has a working set of `size env` slots. -/
def smallUserMemory (size : Nat → Nat) : UserMemory (Nat → Nat → Option PageBytes) where
  heap :=
    { kernelHeapPages := fun _ => ⟨0, false⟩
      lastAllocatedKHpage := 0xF6000000
      isKHpageEmpty := true
      kHeapPlacementStrategy := .nextFit
      kernelEntries := fun _ => 0#32
      memory := ⟨fun _ => initializeFrameInfo, [8, 7, 6, 5, 4, 3, 2, 1], fun _ _ => none⟩ }
  envs env := ⟨List.replicate (size env) .cleared, 0⟩
  pageFile _ _ := none
  bytes _ _ := 0#8
  pageRepAlgoType := .modifiedClock
  lastClockIndex := 0

theorem smallUserMemory_ok (size : Nat → Nat) (env : Nat) :
    WorkingSetOk smallUserLayout (smallUserMemory size) env := by
  have hslot : ∀ i, ((smallUserMemory size).envs env).slot i = none := fun i => by
    simp only [Env.slot, smallUserMemory, List.getElem?_replicate]
    split <;> rfl
  refine ⟨.inr fun i _ => ?_, ⟨fun i j va hi => ?_, fun va => ?_⟩⟩
  · rw [hslot]
    simp [smallUserMemory]
  · rw [hslot] at hi
    cases hi
  · refine iff_of_false (fun hc => not_isPresent_zero hc.2.2) ?_
    rintro ⟨i, hi⟩
    rw [hslot] at hi
    cases hi

/-- One slot : a page of the stack is written, replaced by another, and that one freed. -/
def oneSlotCalls : List Call :=
  [.fault 0 0xEEBFD123 0, .access 0 0xEEBFD123 (some fun _ => 1#8), .fault 0 0xEEBFC000 0,
    .freeMem 0 0xEEBFC000 0x1000]

theorem oneSlot_ok : ∃ s, Machine.run (step smallUserLayout mapPageFile)
      (smallUserMemory fun _ => 1) oneSlotCalls = some s ∧
    WorkingSetOk smallUserLayout s 0 ∧ (s.resident smallUserLayout 0).ncard ≤ 1 := by
  have hrun : (Machine.run (step smallUserLayout mapPageFile) (smallUserMemory fun _ => 1)
      oneSlotCalls).isSome = true := by decide +kernel
  obtain ⟨s, hs⟩ := Option.isSome_iff_exists.1 hrun
  have hcalls : Machine.Meets (step smallUserLayout mapPageFile) (Admissible 0)
      (smallUserMemory fun _ => 1) oneSlotCalls := by decide +kernel
  have h := workingSet_invariant (fun _ => rfl) rfl (smallUserMemory_ok (fun _ => 1) 0) hcalls hs
  exact ⟨s, hs, h.1, h.2.2.2.1⟩

end UserMemory

end FosKernel
