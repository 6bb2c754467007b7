import FosKernel.PageReplacement

/-!
# What a new page shows

The handler's control flow does not look at the bytes of a frame (`modifiedClock_withBytes`,
`pageReplacement_withBytes`, `pagePlacement_withBytes`), and it reads no bytes but those of
the victim, for the page file. The frame it hands out is overwritten only if the page is in
the page file : a new page of the stack shows what the frame held.

`fresh_iff` compares two states that differ in the bytes of free frames : the faulting page
shows the same bytes in both exactly if it is in the page file, or if the frame handed out
is the victim's and was not free.
-/

namespace FosKernel

namespace UserMemory

variable {P : Type} {L : UserLayout} {pf : PageFile P} {s s' t t' : UserMemory P}
  {env env' va va' f v victim start stop faultVa unset : Nat} {try1 : Bool} {r : Option Nat}
  {b : Nat → PageBytes}

/-- The state with other bytes in the frames. -/
def withBytes (s : UserMemory P) (b : Nat → PageBytes) : UserMemory P :=
  { s with bytes := b }

@[simp] theorem withBytes_getPageTable :
    (s.withBytes b).getPageTable env va = s.getPageTable env va :=
  rfl

@[simp] theorem withBytes_pageFile : (s.withBytes b).pageFile = s.pageFile :=
  rfl

@[simp] theorem withBytes_envs : (s.withBytes b).envs = s.envs :=
  rfl

@[simp] theorem withBytes_pageRepAlgoType : (s.withBytes b).pageRepAlgoType = s.pageRepAlgoType :=
  rfl

@[simp] theorem withBytes_ptGetPagePermissions :
    (s.withBytes b).ptGetPagePermissions env va = s.ptGetPagePermissions env va :=
  rfl

/-! ## The control flow does not look at bytes -/

/-- A scan that finds a victim or none, with other bytes. -/
def mapBytes (b : Nat → PageBytes) (q : Option Nat × UserMemory P) : Option Nat × UserMemory P :=
  (q.1, q.2.withBytes b)

theorem loop_withBytes (b : Nat → PageBytes) : ∀ (trips i : Nat) (s : UserMemory P),
    getVictimIndexLoop env try1 trips i (s.withBytes b) =
      (getVictimIndexLoop env try1 trips i s).map (mapBytes b)
  | 0, _, _ => rfl
  | trips + 1, i, s => by
    have hclear : ∀ va, (s.withBytes b).ptSetPagePermissions env va 0#32 permUsed =
        (s.ptSetPagePermissions env va 0#32 permUsed).map (withBytes · b) := fun va => by
      simp only [ptSetPagePermissions, Option.map_map]
      rfl
    rw [getVictimIndexLoop_succ, getVictimIndexLoop_succ, withBytes_envs]
    cases (s.envs env).ptrPageWorkingSet[i]? with
    | none => rfl
    | some x =>
      simp only [Option.bind_some, withBytes_ptGetPagePermissions, hclear]
      split_ifs
      · rfl
      · exact loop_withBytes b trips (i + 1) s
      · cases s.ptSetPagePermissions env x.virtualAddress 0#32 permUsed with
        | none => rfl
        | some s' => exact loop_withBytes b trips (i + 1) s'

theorem getVictimIndex_withBytes (b : Nat → PageBytes) (start stop : Nat) (s : UserMemory P) :
    getVictimIndex env try1 start stop (s.withBytes b) =
      (getVictimIndex env try1 start stop s).map (mapBytes b) := by
  unfold getVictimIndex
  rw [withBytes_envs]
  split_ifs
  · rfl
  · exact loop_withBytes b _ _ s

theorem orElseScan_withBytes {scan : UserMemory P → Option (Option Nat × UserMemory P)}
    (hscan : ∀ s, scan (s.withBytes b) = (scan s).map (mapBytes b))
    (q : Option Nat × UserMemory P) :
    orElseScan (mapBytes b q) scan = (orElseScan q scan).map (mapBytes b) := by
  obtain ⟨_ | v, s⟩ := q
  · exact hscan s
  · rfl

/-- Two steps that do not look at the bytes, one after the other. -/
theorem bind_withBytes {α β : Type} {o : Option α} {k k' : α → Option β} {g : α → α} {g' : β → β}
    (h : ∀ a, k' (g a) = (k a).map g') : (o.map g).bind k' = (o.bind k).map g' := by
  cases o with
  | none => rfl
  | some a => exact h a

theorem trip_withBytes (b : Nat → PageBytes) (s : UserMemory P) :
    modifiedClockTrip env (s.withBytes b) = (modifiedClockTrip env s).map (mapBytes b) := by
  unfold modifiedClockTrip
  simp only [Option.bind_eq_bind]
  change (getVictimIndex env true s.lastClockIndex (s.envs env).pageWSMaxSize
    (s.withBytes b)).bind _ = _
  rw [getVictimIndex_withBytes]
  refine bind_withBytes fun q => ?_
  rw [orElseScan_withBytes fun s => getVictimIndex_withBytes b 0 s.lastClockIndex s]
  refine bind_withBytes fun q => ?_
  rw [orElseScan_withBytes fun s =>
    getVictimIndex_withBytes b s.lastClockIndex (s.envs env).pageWSMaxSize s]
  refine bind_withBytes fun q => ?_
  rw [orElseScan_withBytes fun s => getVictimIndex_withBytes b 0 s.lastClockIndex s]

theorem modifiedClockLoop_withBytes (b : Nat → PageBytes) : ∀ (fuel : Nat) (s : UserMemory P),
    modifiedClockLoop env fuel (s.withBytes b) =
      (modifiedClockLoop env fuel s).map fun q => (q.1, q.2.withBytes b)
  | 0, _ => rfl
  | fuel + 1, s => by
    rw [modifiedClockLoop_succ, modifiedClockLoop_succ, trip_withBytes]
    refine bind_withBytes fun q => ?_
    obtain ⟨_ | v, s'⟩ := q
    · exact modifiedClockLoop_withBytes b fuel s'
    · rfl

theorem modifiedClock_withBytes (b : Nat → PageBytes) (h : modifiedClock env s = some (v, s')) :
    modifiedClock env (s.withBytes b) = some (v, s'.withBytes b) := by
  unfold modifiedClock at *
  rw [modifiedClockLoop_withBytes, h]
  rfl

/-- The bytes of the victim's frame go to the page file. -/
theorem FramesOwned.updateVictim_withBytes (h : FramesOwned L s)
    (hb : s.userEntry env va ≠ 0#32 → b (s.frameOf env va) = s.bytes (s.frameOf env va))
    (hw : updateVictim L pf env va s = some s') :
    updateVictim L pf env va (s.withBytes b) = some (s'.withBytes b) := by
  have hown : FramesOwned L (s.withBytes b) := h.of_heap_eq rfl
  rw [h.updateVictim_eq] at hw
  obtain rfl := Option.some.inj hw
  rw [hown.updateVictim_eq, withBytes_ptGetPagePermissions]
  by_cases hmod : isModified (s.ptGetPagePermissions env va) = true
  · have hframe : (s.withBytes b).bytes ((s.withBytes b).frameOf env va) =
        s.bytes (s.frameOf env va) := hb (isModified_ne_zero hmod)
    rw [if_pos hmod, if_pos hmod, hframe]
    rfl
  · rw [if_neg hmod, if_neg hmod]

theorem unmapFrame_withBytes (b : Nat → PageBytes) (h : s.unmapFrame L env va = some s') :
    (s.withBytes b).unmapFrame L env va = some (s'.withBytes b) := by
  unfold unmapFrame at *
  rw [withBytes_getPageTable]
  cases ht : s.getPageTable env va with
  | none =>
    rw [ht] at h
    obtain rfl := Option.some.inj h
    rfl
  | some t =>
    rw [ht] at h
    obtain ⟨em, hem, rfl⟩ := Option.map_eq_some_iff.1 h
    exact Option.map_eq_some_iff.2 ⟨em, hem, rfl⟩

/-- Replacement reads the bytes of mapped pages only. -/
theorem FramesOwned.pageReplacement_withBytes (h : FramesOwned L s)
    (hb : ∀ va, s.userEntry env va ≠ 0#32 → b (s.frameOf env va) = s.bytes (s.frameOf env va))
    (hr : pageReplacement L pf env victim s = some s') :
    pageReplacement L pf env victim (s.withBytes b) = some (s'.withBytes b) := by
  obtain ⟨x, s₁, s₂, e, hx, hwrite, hun, hclear, rfl⟩ := pageReplacement_eq_some hr
  unfold pageReplacement
  simp only [Option.bind_eq_bind, Option.bind_eq_some_iff]
  exact ⟨x, hx, _, h.updateVictim_withBytes (hb _) hwrite, _, unmapFrame_withBytes b hun, e, hclear,
    rfl⟩

/-- A new page table is cleared, and no other frame is touched. -/
theorem getOrCreatePageTable_withBytes {t : PageTable} (b : Nat → PageBytes)
    (h : s.getOrCreatePageTable L env va = some (t, s')) :
    ∃ b', (s.withBytes b).getOrCreatePageTable L env va = some (t, s'.withBytes b') := by
  unfold getOrCreatePageTable
  rw [withBytes_getPageTable]
  cases findsPageTable h with
  | found ht =>
    rw [ht]
    exact ⟨b, rfl⟩
  | @made hnone pageTable heap hmalloc hne =>
    rw [hnone]
    dsimp only
    unfold createPageTable
    simp only [Option.bind_eq_bind, Option.bind_eq_some_iff]
    exact ⟨_, ⟨pageTable, heap⟩, hmalloc, if_neg hne⟩

/-- Placement returns whatever the bytes are. -/
theorem pagePlacement_withBytes (b : Nat → PageBytes)
    (h : pagePlacement L pf env va victim s = some s') :
    ∃ b', pagePlacement L pf env va victim (s.withBytes b) = some (s'.withBytes b') := by
  unfold pagePlacement mapFrame at *
  simp only [Option.bind_eq_bind, Option.bind_eq_some_iff] at h ⊢
  obtain ⟨⟨f, m⟩, halloc, s₁, ⟨⟨t, s₂⟩, htable, ⟨e, m'⟩, hmap, h₁⟩, s₃, hread, e', hset, h⟩ := h
  obtain rfl := Option.some.inj h₁
  obtain rfl := Option.some.inj h
  obtain ⟨b₁, htable'⟩ := getOrCreatePageTable_withBytes b htable
  have hread' : ∃ b', readFaultedPage L pf env f va
      ((s₂.setMemory (m'.setEntry env va t e)).withBytes b₁) = some (s₃.withBytes b') := by
    unfold readFaultedPage
    rw [withBytes_pageFile]
    rcases readFaultedPage_cases hread with ⟨contents, hcopy, rfl⟩ | ⟨hcopy, hvalid, p, hadd, rfl⟩
    · rw [hcopy]
      exact ⟨_, rfl⟩
    · rw [hcopy, if_pos hvalid]
      exact ⟨b₁, Option.map_eq_some_iff.2 ⟨p, hadd, rfl⟩⟩
  obtain ⟨b₂, hread'⟩ := hread'
  exact ⟨b₂, (f, m), halloc, _, ⟨(t, s₂.withBytes b₁), htable', (e, m'), hmap, rfl⟩, _, hread', e',
    hset, rfl⟩

/-! ## Two runs -/

/-- The bytes that an environment sees of a page. -/
def visible (s : UserMemory P) (env va : Nat) : PageBytes :=
  s.bytes (s.frameOf env va)

/-- Two states that are equal but for the bytes of free frames. -/
def SameButFree (s t : UserMemory P) : Prop :=
  t = s.withBytes t.bytes ∧ ∀ g, g ∉ s.heap.memory.freeFrameList → t.bytes g = s.bytes g

/-- The faulting page shows nothing of what free frames held : it looks the same after the
handler returns from `s` and from every state equal to `s` but for the bytes of free frames. -/
def Fresh (L : UserLayout) (pf : PageFile P) (env faultVa unset : Nat) (s s' : UserMemory P) :
    Prop :=
  ∀ t t', SameButFree s t → pageFaultHandler L pf env faultVa unset t = some t' →
    t'.visible env faultVa = s'.visible env faultVa

/-- A page that is placed shows its copy in the page file, or what its frame held. -/
theorem PlacementSpec.visible_eq
    (hspec : PlacementSpec L pf env (roundDown faultVa pageSize) victim f s s') :
    s'.visible env faultVa =
      (pf.readEnvPage s.pageFile env (roundDown faultVa pageSize)).getD (s.bytes f) := by
  rw [visible, hspec.frameOf_eq (roundDown_div faultVa).symm, hspec.page]

theorem SameButFree.framesOwned (h : SameButFree s t) (hown : FramesOwned L s) :
    FramesOwned L t := by
  rw [h.1]
  exact hown.of_heap_eq rfl

/-- Placement from two states that agree on the page file and the free frame list : the
faulting page shows the same bytes if it is in the page file, or if the first free frame
has the same bytes in both. -/
theorem visible_placement (hs : FramesOwned L s) (ht : FramesOwned L t)
    (hfile : t.pageFile = s.pageFile)
    (hlist : t.heap.memory.freeFrameList = s.heap.memory.freeFrameList)
    (h : pagePlacement L pf env (roundDown faultVa pageSize) victim s = some s')
    (h' : pagePlacement L pf env (roundDown faultVa pageSize) victim t = some t')
    (hsame : (pf.readEnvPage s.pageFile env (roundDown faultVa pageSize)).isSome ∨
      ∀ f rest, s.heap.memory.freeFrameList = f :: rest → t.bytes f = s.bytes f) :
    t'.visible env faultVa = s'.visible env faultVa := by
  obtain ⟨f, hspec⟩ := hs.pagePlacement_spec h
  obtain ⟨g, hspec'⟩ := ht.pagePlacement_spec h'
  obtain ⟨rest, hhead⟩ := hspec.head
  obtain ⟨rest', hhead'⟩ := hspec'.head
  rw [hlist, hhead] at hhead'
  obtain ⟨rfl, -⟩ := List.cons.inj hhead'
  rw [hspec.visible_eq, hspec'.visible_eq, hfile]
  rcases hsame with hcopy | hbytes
  · obtain ⟨contents, hcontents⟩ := Option.isSome_iff_exists.1 hcopy
    rw [hcontents]
    rfl
  · rw [hbytes f rest hhead]

/-- With a full working set under Modified Clock the faulting page gets the victim's frame. -/
theorem fresh_of_full (hown : FramesOwned L s) (hfull : (s.envs env).Full)
    (halgo : s.pageRepAlgoType = .modifiedClock)
    (hslots : ∀ i w, (s.envs env).slot i = some w → w ∈ s.resident L env)
    (h : pageFaultHandler L pf env faultVa unset s = some s') :
    Fresh L pf env faultVa unset s s' := by
  intro t t' ht h'
  obtain ⟨v, s₁, s₂, hclock, hreplace, hplace⟩ := fault_full hfull halgo h
  obtain ⟨w, hevicted⟩ := hown.evicted hfull hslots hclock hreplace
  have hframe : t.bytes (s.frameOf env w) = s.bytes (s.frameOf env w) :=
    ht.2 _ (hown.held hevicted.resident.2.2.ne_zero).notFree
  -- the run from `t` takes the same victim
  have hsame := hown.sameFrames_modifiedClock hclock
  have hrest : s₁ = _ := changesTables_modifiedClockLoop 2 hclock
  have hbytes : s₁.bytes = s.bytes := by
    rw [hrest]
    rfl
  have hclock' := modifiedClock_withBytes t.bytes hclock
  have hreplace' := (hown.of_sameFrames hsame).pageReplacement_withBytes (b := t.bytes)
    (fun va hne => ?_) hreplace
  · rw [ht.1] at h'
    obtain ⟨v', t₁, t₂, hclock₁, hreplace₁, hplace₁⟩ := fault_full (s := s.withBytes t.bytes) hfull
      halgo h'
    obtain ⟨rfl, rfl⟩ := Prod.mk.inj (Option.some.inj (hclock'.symm.trans hclock₁))
    obtain rfl := Option.some.inj (hreplace'.symm.trans hreplace₁)
    have hown' : FramesOwned L (s₂.withBytes t.bytes) := hevicted.owned.of_heap_eq rfl
    refine visible_placement hevicted.owned hown' rfl rfl hplace hplace₁
      (Or.inr fun f rest hhead => ?_)
    rw [hevicted.freeFrameList] at hhead
    obtain ⟨rfl, -⟩ := List.cons.inj hhead
    rw [hevicted.bytes]
    exact hframe
  · rw [hsame.frame, hbytes]
    exact ht.2 _ (hown.held ((hsame.zero _ _).not.1 hne)).notFree

/-- Without an eviction the frame was free, and what it held shows in a new page. -/
theorem fresh_placement_iff (victim : Nat) (hown : FramesOwned L s)
    (heq : ∀ b, pageFaultHandler L pf env faultVa unset (s.withBytes b) =
      pagePlacement L pf env (roundDown faultVa pageSize) victim (s.withBytes b))
    (h : pageFaultHandler L pf env faultVa unset s = some s') :
    Fresh L pf env faultVa unset s s' ↔
      (pf.readEnvPage s.pageFile env (roundDown faultVa pageSize)).isSome := by
  have hplace : pagePlacement L pf env (roundDown faultVa pageSize) victim s = some s' :=
    (heq s.bytes).symm.trans h
  constructor
  · intro hfresh
    by_contra hnone
    rw [Option.not_isSome_iff_eq_none] at hnone
    obtain ⟨f, hspec⟩ := hown.pagePlacement_spec hplace
    obtain ⟨rest, hhead⟩ := hspec.head
    -- the same state, with other bytes in the first free frame
    let b := Function.update s.bytes f fun i => s.bytes f i + 1#8
    have hother : SameButFree s (s.withBytes b) := by
      refine ⟨rfl, fun g hg => Function.update_of_ne (fun hgf => hg ?_) _ _⟩
      rw [hgf, hhead]
      exact List.mem_cons_self
    obtain ⟨b', hplace'⟩ := pagePlacement_withBytes b hplace
    have hvisible := hfresh _ _ hother ((heq b).trans hplace')
    obtain ⟨g, hspec'⟩ := (hother.framesOwned hown).pagePlacement_spec hplace'
    obtain ⟨rest', hhead'⟩ := hspec'.head
    obtain ⟨rfl, -⟩ := List.cons.inj (hhead.symm.trans hhead')
    rw [hspec.visible_eq, hspec'.visible_eq, withBytes_pageFile, hnone] at hvisible
    have hzero : b f 0 = s.bytes f 0 := congrFun hvisible 0
    have hone : b f 0 = s.bytes f 0 + 1#8 := congrFun (Function.update_self f _ s.bytes) 0
    rw [hone] at hzero
    revert hzero
    generalize s.bytes f 0 = x
    decide +revert
  · intro hcopy t t' ht h'
    rw [ht.1, heq] at h'
    have hown' : FramesOwned L (s.withBytes t.bytes) := hown.of_heap_eq rfl
    exact visible_placement hown hown' rfl rfl hplace h' (Or.inl hcopy)

end UserMemory

end FosKernel
