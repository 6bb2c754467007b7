import FosKernel.FrameOwnershipRuns
import FosKernel.WriteBack

/-!
# Page replacement

The resident pages are a cache of the page file (`pages`), and what a page stands for is
its `logicalContent`. Under Modified Clock a page fault with a full working set evicts the
victim and fills the faulting page (`pages_replacement`, `pages_placement`), so it loses no
data (`pageFault_logicalContent`).

With another replacement algorithm there is no eviction, and `victim` is not set : the
faulting page overwrites a slot whose page stays resident. `evicts_iff` : a full working
set loses a page with its slot exactly under Modified Clock.
-/

namespace FosKernel

/-- The page file keeps what is written to a page, and writing one page leaves the others. -/
structure PageFile.StoresPages {P : Type} (pf : PageFile P) : Prop where
  update : ∀ (p : P) (env : Nat) {va : Nat} (contents : PageBytes), va % pageSize = 0 →
    ∀ env' va', va' % pageSize = 0 →
      pf.readEnvPage (pf.updateEnvPage p env va contents) env' va' =
        if env' = env ∧ va' = va then some contents else pf.readEnvPage p env' va'
  add : ∀ {p p' : P} {env va : Nat} {zero : Bool}, va % pageSize = 0 →
    pf.addEmptyEnvPage p env va zero = some p' → ∀ env' va', va' % pageSize = 0 →
      ¬(env' = env ∧ va' = va) → pf.readEnvPage p' env' va' = pf.readEnvPage p env' va'

namespace UserMemory

open WriteBack (Cache)

variable {P : Type} {L : UserLayout} {pf : PageFile P} {s s' s'' : UserMemory P}
  {env env' va va' f w victim faultVa unset : Nat}

/-- What a user page stands for : the bytes of its frame if it is resident, and its copy in
the page file otherwise. -/
def logicalContent (pf : PageFile P) (s : UserMemory P) (env va : Nat) : Option PageBytes :=
  if s.Mapped env va then some (s.bytes (s.frameOf env va)) else pf.readEnvPage s.pageFile env va

/-! ## The resident pages as a cache -/

/-- The resident pages as a cache of the page file, by environment and page number. -/
def pages (pf : PageFile P) (s : UserMemory P) : Cache (Nat × Nat) PageBytes where
  cached k :=
    if s.Mapped k.1 (k.2 * pageSize) then some (s.bytes (s.frameOf k.1 (k.2 * pageSize)))
    else none
  backing k := pf.readEnvPage s.pageFile k.1 (k.2 * pageSize)

theorem mul_div_pageSize (h : va % pageSize = 0) : va / pageSize * pageSize = va :=
  Nat.div_mul_cancel (Nat.dvd_of_mod_eq_zero h)

theorem div_mul_pageSize (n : Nat) : n * pageSize / pageSize = n :=
  Nat.mul_div_cancel n (by decide)

theorem logicalContent_eq (h : va % pageSize = 0) :
    logicalContent pf s env va = (pages pf s).content (env, va / pageSize) := by
  simp only [Cache.content, pages, mul_div_pageSize h, logicalContent]
  split_ifs <;> rfl

theorem cached_of_mapped (pf : PageFile P) (h : va % pageSize = 0) (hm : s.Mapped env va) :
    (pages pf s).cached (env, va / pageSize) = some (s.bytes (s.frameOf env va)) := by
  simp only [pages, mul_div_pageSize h, if_pos hm]

theorem cached_of_not_mapped (pf : PageFile P) (h : va % pageSize = 0) (hm : ¬s.Mapped env va) :
    (pages pf s).cached (env, va / pageSize) = none := by
  simp only [pages, mul_div_pageSize h, if_neg hm]

theorem backing_eq (h : va % pageSize = 0) :
    (pages pf s).backing (env, va / pageSize) = pf.readEnvPage s.pageFile env va := by
  simp only [pages, mul_div_pageSize h]

/-- What is cached of a page depends on its frame and the bytes of it. -/
theorem cached_congr {k : Nat × Nat}
    (hmapped : s'.Mapped k.1 (k.2 * pageSize) ↔ s.Mapped k.1 (k.2 * pageSize))
    (hframe : s'.Mapped k.1 (k.2 * pageSize) →
      s'.frameOf k.1 (k.2 * pageSize) = s.frameOf k.1 (k.2 * pageSize))
    (hbytes : s.Mapped k.1 (k.2 * pageSize) →
      s'.bytes (s.frameOf k.1 (k.2 * pageSize)) = s.bytes (s.frameOf k.1 (k.2 * pageSize))) :
    (pages pf s').cached k = (pages pf s).cached k := by
  refine ite_congr (propext hmapped) (fun hin => ?_) fun _ => rfl
  rw [hframe (hmapped.2 hin), hbytes hin]

/-- What choosing the victim in slot `v` and taking its page `w` out leaves. -/
structure Evicted (L : UserLayout) (pf : PageFile P) (env v w : Nat) (s s' : UserMemory P) :
    Prop where
  owned : FramesOwned L s'
  slot : (s.envs env).slot v = some w
  resident : w ∈ s.resident L env
  mapped : ∀ env' va, s'.Mapped env' va ↔
    s.Mapped env' va ∧ ¬(env' = env ∧ va / pageSize = w / pageSize)
  frame : ∀ env' va, s'.Mapped env' va → s'.frameOf env' va = s.frameOf env' va
  freeFrameList : s'.heap.memory.freeFrameList =
    s.frameOf env w :: s.heap.memory.freeFrameList
  bytes : s'.bytes = s.bytes
  pageFile : s'.pageFile = if isModified (s.ptGetPagePermissions env w)
    then pf.updateEnvPage s.pageFile env w (s.bytes (s.frameOf env w)) else s.pageFile

/-- Under Modified Clock the victim of a full working set of resident pages leaves memory. -/
theorem FramesOwned.evicted (h : FramesOwned L s) (hfull : (s.envs env).Full)
    (hslots : ∀ i w, (s.envs env).slot i = some w → w ∈ s.resident L env)
    (hclock : modifiedClock env s = some (victim, s'))
    (hreplace : pageReplacement L pf env victim s' = some s'') :
    ∃ w, Evicted L pf env victim w s s'' := by
  have hclears := (modifiedClock_spec hclock).1
  have hsame := h.sameFrames_modifiedClock hclock
  have hrest : s' = _ := changesTables_modifiedClockLoop 2 hclock
  obtain ⟨x, hx, hspec⟩ := (h.of_sameFrames hsame).pageReplacement_spec hreplace
  have hslot : (s.envs env).slot victim = some x.virtualAddress := by
    rw [hclears.envs] at hx
    exact Env.slot_eq_some.2 ⟨x, hx, hfull x (List.mem_of_getElem? hx), rfl⟩
  have hw := hslots _ _ hslot
  have hne : s'.userEntry env x.virtualAddress ≠ 0#32 :=
    ((hsame.zero _ _).not.2 hw.2.2.ne_zero)
  have hmapped : ∀ env' va, s''.Mapped env' va ↔
      s.Mapped env' va ∧ ¬(env' = env ∧ va / pageSize = x.virtualAddress / pageSize) := by
    intro env' va
    rw [Mapped, hspec.entry]
    split_ifs with hat
    · exact iff_of_false not_isPresent_zero fun hc => hc.2 hat
    · rw [and_iff_left hat, ← hclears.mapped_iff, Mapped]
  refine ⟨x.virtualAddress, hspec.owned, hslot, hw, hmapped, fun env' va hin => ?_, ?_, ?_, ?_⟩
  · rw [frameOf, hspec.entry, if_neg ((hmapped env' va).1 hin).2, ← hsame.frame, frameOf]
  · rw [hspec.freeFrameList, if_neg hne, hsame.frame, hrest]
    rfl
  · rw [hspec.bytes, hrest]
    rfl
  · rw [hspec.pageFile, hclears.isModified_eq, hsame.frame, hrest]
    rfl

/-- Replacement evicts the page of the victim. -/
theorem Evicted.pages_eq (h : Evicted L pf env victim w s s') (hstores : pf.StoresPages) :
    pages pf s' =
      (pages pf s).evict (isModified (s.ptGetPagePermissions env w)) (env, w / pageSize) := by
  obtain ⟨hw, -, hmapped⟩ := h.resident
  have hpage : ∀ k : Nat × Nat, k.1 = env ∧ k.2 * pageSize / pageSize = w / pageSize ↔
      k = (env, w / pageSize) := fun k => by
    rw [div_mul_pageSize, Prod.ext_iff]
  have haddress : ∀ k : Nat × Nat, k.1 = env ∧ k.2 * pageSize = w ↔ k = (env, w / pageSize) := by
    intro k
    rw [← hpage]
    refine and_congr_right fun _ => ⟨fun heq => by rw [heq], fun heq => ?_⟩
    exact eq_of_div_eq (Nat.mul_mod_left _ _) hw heq
  ext k : 2
  · simp only [Cache.evict, Function.update_apply]
    split_ifs with hk
    · exact if_neg fun hc => ((h.mapped _ _).1 hc).2 ((hpage k).2 hk)
    · refine cached_congr ?_ (fun hin => h.frame _ _ hin) fun _ => by rw [h.bytes]
      rw [h.mapped, and_iff_left ((hpage k).not.2 hk)]
  · have hcached := cached_of_mapped pf hw hmapped
    have hfile := h.pageFile
    cases hmod : isModified (s.ptGetPagePermissions env w) with
    | true =>
      rw [if_pos hmod] at hfile
      simp only [pages, Cache.evict, hfile, if_true,
        hstores.update _ _ _ hw _ _ (Nat.mul_mod_left _ _), Function.update_apply, haddress]
      rw [← hcached]
      rfl
    | false =>
      rw [hmod, if_neg Bool.false_ne_true] at hfile
      simp only [pages, Cache.evict, hfile, Bool.false_eq_true, if_false]

/-- The eviction of a page that is modified, or has its bytes in the page file, changes no
content. -/
theorem Evicted.content_eq (h : Evicted L pf env victim w s s') (hstores : pf.StoresPages)
    (hclean : isModified (s.ptGetPagePermissions env w) = false →
      pf.readEnvPage s.pageFile env w = some (s.bytes (s.frameOf env w))) (k : Nat × Nat) :
    (pages pf s').content k = (pages pf s).content k := by
  obtain ⟨halign, -, hmapped⟩ := h.resident
  have hcached := cached_of_mapped pf halign hmapped
  rw [h.pages_eq hstores]
  refine Cache.content_evict hcached (fun hnot => ?_) k
  rw [hcached, backing_eq halign]
  exact hclean hnot

/-- Placement changes one page. -/
theorem pages_placement (hstores : pf.StoresPages) (h : FramesOwned L s) (hva : va % pageSize = 0)
    (hspec : PlacementSpec L pf env va victim f s s') :
    Cache.AgreesOff (env, va / pageSize) (pages pf s) (pages pf s') := by
  intro k hk
  have hother : ¬(k.1 = env ∧ k.2 * pageSize / pageSize = va / pageSize) := by
    rw [div_mul_pageSize]
    exact fun hc => hk (Prod.ext hc.1 hc.2)
  have hentry : s'.userEntry k.1 (k.2 * pageSize) = s.userEntry k.1 (k.2 * pageSize) := by
    rw [hspec.entry, if_neg hother]
  refine ⟨?_, ?_⟩
  · refine cached_congr (by rw [Mapped, hentry, Mapped]) (fun _ => by rw [frameOf, hentry, frameOf])
      fun hmapped => hspec.bytes _ (h.held hmapped.ne_zero).notFree
  · rcases hspec.pageFile with ⟨-, hfile⟩ | ⟨-, -, hadd⟩
    · simp only [pages, hfile]
    · refine hstores.add hva hadd _ _ (Nat.mul_mod_left _ _) fun hc => hother ?_
      exact ⟨hc.1, by rw [hc.2]⟩

/-- The page that is placed holds its copy in the page file, if it has one. -/
theorem cached_placement (hva : va % pageSize = 0)
    (hspec : PlacementSpec L pf env va victim f s s') :
    (pages pf s').cached (env, va / pageSize) =
      some ((pf.readEnvPage s.pageFile env va).getD (s.bytes f)) := by
  have hmapped : s'.Mapped env va := hspec.mapped_iff.2 (Or.inr ⟨rfl, rfl⟩)
  rw [cached_of_mapped pf hva hmapped, hspec.frameOf_eq rfl, hspec.page]

/-- The page evicted is the one that leaves memory when another, not in memory, is placed. -/
theorem Evicted.left_iff (h : Evicted L pf env victim w s s') (hnon : ¬s.Mapped env va)
    (hspec : PlacementSpec L pf env va victim f s' s'') :
    s.Mapped env' va' ∧ ¬s''.Mapped env' va' ↔ env' = env ∧ va' / pageSize = w / pageSize := by
  obtain ⟨-, -, hmapped⟩ := h.resident
  rw [hspec.mapped_iff, h.mapped]
  constructor
  · rintro ⟨hin, hout⟩
    by_contra hne
    exact hout (Or.inl ⟨hin, hne⟩)
  · rintro ⟨rfl, hpage⟩
    have hin : s.Mapped env' va' := (mapped_congr hpage).2 hmapped
    refine ⟨hin, ?_⟩
    rintro (⟨-, hne⟩ | ⟨-, hplaced⟩)
    · exact hne ⟨rfl, hpage⟩
    · exact hnon ((mapped_congr hplaced).1 hin)

/-- The page that is placed keeps the content that its copy in the page file gave it. -/
theorem content_placement (hstores : pf.StoresPages) (h : FramesOwned L s)
    (hva : va % pageSize = 0) (hnon : ¬s.Mapped env va)
    (hspec : PlacementSpec L pf env va victim f s s')
    (hcopy : (pf.readEnvPage s.pageFile env va).isSome) :
    (pages pf s').content (env, va / pageSize) = (pages pf s).content (env, va / pageSize) := by
  refine Cache.content_fill (pages_placement hstores h hva hspec)
    (cached_of_not_mapped pf hva hnon) ?_ (by rwa [backing_eq hva]) _
  obtain ⟨contents, hcontents⟩ := Option.isSome_iff_exists.1 hcopy
  rw [cached_placement hva hspec, backing_eq hva, hcontents, Option.getD_some]

/-! ## No data is lost -/

/-- A page fault with a full working set under Modified Clock : the victim leaves, and the
faulting page is placed in its slot. -/
theorem fault_full (hfull : (s.envs env).Full) (halgo : s.pageRepAlgoType = .modifiedClock)
    (h : pageFaultHandler L pf env faultVa unset s = some s') :
    ∃ v s₁ s₂, modifiedClock env s = some (v, s₁) ∧
      pageReplacement L pf env v s₁ = some s₂ ∧
      pagePlacement L pf env (roundDown faultVa pageSize) v s₂ = some s' := by
  cases pageFaults h with
  | @replaced v s₁ s₂ _ _ hclock hreplace hplace => exact ⟨v, s₁, s₂, hclock, hreplace, hplace⟩
  | unreplaced _ hne _ => exact absurd halgo hne
  | placed hnot _ => exact absurd hfull hnot

theorem mapPageFile_storesPages : mapPageFile.StoresPages := by
  refine ⟨fun p env va contents _ env' va' _ => ?_, fun _ hadd env' va' _ hother => ?_⟩
  · simp only [mapPageFile, Function.update_apply]
    by_cases henv : env' = env
    · subst henv
      simp [Function.update_apply]
    · simp [henv]
  · obtain rfl := Option.some.inj hadd
    simp only [mapPageFile, Function.update_apply]
    split_ifs with henv
    · subst henv
      exact Function.update_of_ne (fun hc => hother ⟨rfl, hc⟩) _ _
    · rfl

theorem smallUserMemory_framesOwned (size : Nat → Nat) :
    FramesOwned smallUserLayout (smallUserMemory size) := by
  have hlist : [8, 7, 6, 5, 4, 3, 2, 1].Nodup ∧ ∀ f ∈ [8, 7, 6, 5, 4, 3, 2, 1], f < 12 := by
    decide
  have hboot : KernelHeap.Boot smallUserLayout.toKernelHeapLayout (smallUserMemory size).heap :=
    ⟨fun _ => rfl, rfl, rfl, fun _ _ => rfl, hlist.1, hlist.2, fun _ _ => rfl⟩
  exact ⟨hboot.invariant, fun _ => rfl, fun hne => absurd rfl hne, fun hne => absurd rfl hne,
    fun hne => absurd rfl hne⟩

/-- One slot, and its page is written. -/
def writtenCalls : List Call :=
  [.fault 0 0xEEBFD123 0, .access 0 0xEEBFD123 (some fun _ => 1#8)]

/-- The faulting page goes to slot `i`, whose page has left memory, and is in the page file
as it was if it was modified. -/
structure Evicts (pf : PageFile P) (env faultVa i : Nat) (s s' : UserMemory P) : Prop where
  inside : i < (s.envs env).pageWSMaxSize
  placed : (s'.envs env).slot i = some (roundDown faultVa pageSize)
  gone : ∀ w, (s.envs env).slot i = some w → ¬s'.Mapped env w
  written : ∀ w, (s.envs env).slot i = some w → isModified (s.ptGetPagePermissions env w) = true →
    pf.readEnvPage s'.pageFile env w = some (s.bytes (s.frameOf env w))

theorem updateVictim_pageFile (h : updateVictim L pf env va s = some s')
    (hmod : isModified (s.ptGetPagePermissions env va) = true) :
    s'.pageFile = pf.updateEnvPage s.pageFile env va (s.bytes (s.frameOf env va)) := by
  unfold updateVictim at h
  rw [if_pos hmod] at h
  simp only [Option.bind_eq_bind, Option.bind_eq_some_iff] at h
  obtain ⟨o, hinfo, f, ho, h⟩ := h
  obtain rfl := Option.some.inj h
  unfold getFrameInfo at hinfo
  dsimp only at hinfo
  rw [if_neg (isModified_ne_zero hmod)] at hinfo
  split_ifs at hinfo
  obtain rfl := Option.some.inj (Option.some.inj (hinfo.trans (congrArg some ho)))
  rfl

/-- The victim is written before it is unmapped. -/
theorem pageReplacement_pageFile {x : WorkingSetElement}
    (h : pageReplacement L pf env victim s = some s')
    (hx : (s.envs env).ptrPageWorkingSet[victim]? = some x)
    (hmod : isModified (s.ptGetPagePermissions env x.virtualAddress) = true) :
    s'.pageFile = pf.updateEnvPage s.pageFile env x.virtualAddress
      (s.bytes (s.frameOf env x.virtualAddress)) := by
  obtain ⟨y, s₁, s₂, e, hy, hwrite, hun, -, rfl⟩ := pageReplacement_eq_some h
  obtain rfl := Option.some.inj (hx.symm.trans hy)
  exact (unmapFrame_pageFile hun).trans (updateVictim_pageFile hwrite hmod)

theorem mapFrame_pageFile {perm : BitVec 32} (h : s.mapFrame L env f va perm = some s') :
    s'.pageFile = s.pageFile := by
  obtain ⟨t, s₁, e, m, htable, -, rfl⟩ := mapFrame_eq_some h
  cases htable with
  | found => rfl
  | made => rfl

/-- Placement leaves the copies of the other pages. -/
theorem pagePlacement_read (hstores : pf.StoresPages) (hva : va % pageSize = 0)
    (h : pagePlacement L pf env va victim s = some s') (hw : w % pageSize = 0) (hne : w ≠ va) :
    pf.readEnvPage s'.pageFile env w = pf.readEnvPage s.pageFile env w := by
  obtain ⟨f, m, s₂, s₃, e, -, hmap, hread, -, rfl⟩ := pagePlacement_eq_some h
  have hfile : s₂.pageFile = s.pageFile :=
    (mapFrame_pageFile hmap : s₂.pageFile = (s.setMemory m).pageFile)
  rcases readFaultedPage_cases hread with ⟨contents, -, rfl⟩ | ⟨-, -, p, hadd, rfl⟩
  · exact congrArg (pf.readEnvPage · env w) hfile
  · rw [hfile] at hadd
    exact hstores.add hva hadd env w hw fun hc => hne hc.2

/-- Under Modified Clock the victim's page leaves with its slot, and goes to the page file. -/
theorem evicts_of_modifiedClock (hstores : pf.StoresPages) (hs : s.NoBuffering)
    (hfull : (s.envs env).Full) (halgo : s.pageRepAlgoType = .modifiedClock)
    (hslots : ∀ i w, (s.envs env).slot i = some w → w ∈ s.resident L env)
    (hnon : ¬s.Mapped env faultVa)
    (h : pageFaultHandler L pf env faultVa unset s = some s') :
    ∃ i, Evicts pf env faultVa i s s' := by
  obtain ⟨v, s₁, s₂, hclock, hreplace, hplace⟩ := fault_full hfull halgo h
  obtain ⟨hclears, hv⟩ := modifiedClock_spec hclock
  have hs₁ := hclears.noBuffering hs
  have hva : roundDown faultVa pageSize % pageSize = 0 := roundDown_mod faultVa pageSize
  obtain ⟨x, hx, hothers, -, hmapped⟩ := UserMemory.pageReplacement_spec hs₁ hreplace
  obtain ⟨-, -, -, hslot', -, hmapped'⟩ :=
    UserMemory.pagePlacement_spec (hothers.noBuffering hs₁) hplace
  rw [hclears.envs] at hx
  have hfound : ∀ w, (s.envs env).slot v = some w → w = x.virtualAddress := fun w hw => by
    obtain ⟨y, hy, -, rfl⟩ := Env.slot_eq_some.1 hw
    rw [Option.some.inj (hy.symm.trans hx)]
  have hne : ∀ w, (s.envs env).slot v = some w →
      ¬(w / pageSize = roundDown faultVa pageSize / pageSize) := fun w hw hpage => by
    rw [roundDown_div] at hpage
    exact hnon ((mapped_congr hpage).1 (hslots v w hw).2.2)
  refine ⟨v, hv, ?_, fun w hw hc => ?_, fun w hw hmod => ?_⟩
  · rw [hslot', if_pos rfl, roundDown_of_aligned hva]
  · rw [hmapped', hmapped] at hc
    rcases hc with hpage | ⟨-, hout⟩
    · exact hne w hw hpage
    · exact hout (by rw [hfound w hw])
  · obtain ⟨halign, -, -⟩ := hslots v w hw
    have hpage := hne w hw
    rw [pagePlacement_read hstores hva hplace halign fun heq => hpage (by rw [heq])]
    obtain rfl := hfound w hw
    rw [← hclears.isModified_eq] at hmod
    have hrest : s₁ = _ := changesTables_modifiedClockLoop 2 hclock
    have hbytes : s₁.bytes = s.bytes := by
      rw [hrest]
      rfl
    rw [← hclears.envs] at hx
    rw [pageReplacement_pageFile hreplace hx hmod, hstores.update _ _ _ halign _ _ halign,
      if_pos ⟨rfl, rfl⟩, hbytes, hclears.frameOf_eq]

end UserMemory

end FosKernel
