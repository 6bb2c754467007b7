import FosKernel.DemandPaging
import FosKernel.Isolation
import FosKernel.UserHeapStrategies

/-!
# Copies of the resident pages

A page comes into memory from the page file, or is one of the stack. Eviction writes to the page
file and removes nothing from it, and `freeMem` takes a page out of memory and out of the page
file at once. So a resident page has a copy or is of the stack (`CopiesKept`), and outside the
stack a load, a store or a fault changes nothing of what pages the page file has (`SameFile`).
-/

namespace FosKernel

namespace UserMemory

variable {P : Type} {pf : PageFile P} {s s' s'' s₁ s₂ : UserMemory P}
  {env env' va a v w f size unset : Nat}

section Handler

variable {L : UserLayout}

/-- The resident pages are in the page file, or of the stack. -/
def CopiesKept (L : UserLayout) (pf : PageFile P) (s : UserMemory P) : Prop :=
  ∀ env va, va % pageSize = 0 → s.Mapped env va → HasCopy L pf s env va

/-- The page file loses no page, and gets none but pages of the stack. -/
def SameFile (L : UserLayout) (pf : PageFile P) (s s' : UserMemory P) : Prop :=
  ∀ env a, a % pageSize = 0 → (pf.Has s.pageFile env a → pf.Has s'.pageFile env a) ∧
    (isValidFaultVa L a = false → pf.Has s'.pageFile env a → pf.Has s.pageFile env a)

theorem SameFile.of_eq (h : s'.pageFile = s.pageFile) : SameFile L pf s s' :=
  fun _ _ _ => by rw [h]; exact ⟨id, fun _ => id⟩

theorem SameFile.trans (h : SameFile L pf s s') (h' : SameFile L pf s' s'') :
    SameFile L pf s s'' :=
  fun env a ha => ⟨fun hs => (h' env a ha).1 ((h env a ha).1 hs),
    fun hstack hs => (h env a ha).2 hstack ((h' env a ha).2 hstack hs)⟩

theorem SameFile.has_iff (h : SameFile L pf s s') (ha : a % pageSize = 0)
    (hstack : isValidFaultVa L a = false) :
    pf.Has s'.pageFile env a ↔ pf.Has s.pageFile env a :=
  ⟨(h env a ha).2 hstack, (h env a ha).1⟩

theorem SameFile.hasCopy (h : SameFile L pf s s') (ha : a % pageSize = 0)
    (hcopy : HasCopy L pf s env a) : HasCopy L pf s' env a :=
  hcopy.imp_left (h env a ha).1

/-- A change that leaves the page file alone and maps nothing. -/
theorem CopiesKept.of_mapped (h : CopiesKept L pf s) (hfile : SameFile L pf s s')
    (hmapped : ∀ env va, va % pageSize = 0 → s'.Mapped env va → s.Mapped env va) :
    CopiesKept L pf s' :=
  fun env va hva hm => hfile.hasCopy hva (h env va hva (hmapped env va hva hm))

/-- The victim had a copy, or is of the stack. -/
theorem CopiesKept.evicted (hstores : pf.StoresPages) (h : CopiesKept L pf s)
    (hevicted : Evicted L pf env v w s s') : SameFile L pf s s' ∧ CopiesKept L pf s' := by
  obtain ⟨hw, -, hmapped⟩ := hevicted.resident
  have hfile : SameFile L pf s s' := fun env' a ha => by
    rw [hevicted.pageFile]
    split_ifs
    · simp only [PageFile.Has, hstores.update _ _ _ hw _ _ ha]
      split_ifs with hat
      · obtain ⟨rfl, rfl⟩ := hat
        refine ⟨fun _ => rfl, fun hstack _ => (h _ _ hw hmapped).resolve_right ?_⟩
        rw [hstack]
        exact Bool.false_ne_true
      · exact ⟨id, fun _ => id⟩
    · exact ⟨id, fun _ => id⟩
  exact ⟨hfile, h.of_mapped hfile fun env' va _ hm => ((hevicted.mapped env' va).1 hm).1⟩

/-- The page that is placed was read from the page file, or is added to it. -/
theorem CopiesKept.placed (hkeeps : pf.KeepsPages) (h : CopiesKept L pf s)
    (hva : va % pageSize = 0) (hspec : PlacementSpec L pf env va v f s s') :
    SameFile L pf s s' ∧ CopiesKept L pf s' := by
  have hfile : SameFile L pf s s' := fun env' a ha => by
    rcases hspec.pageFile with ⟨-, hsame⟩ | ⟨-, hstack, hadd⟩
    · rw [hsame]
      exact ⟨id, fun _ => id⟩
    · rw [hkeeps.add hva hadd env' a ha]
      refine ⟨Or.inr, fun hnot => Or.rec (fun hat => ?_) id⟩
      rw [hat.2, hstack] at hnot
      cases hnot
  refine ⟨hfile, fun env' a ha hm => ?_⟩
  rcases hspec.mapped_iff.1 hm with hm | ⟨rfl, hpage⟩
  · exact hfile.hasCopy ha (h env' a ha hm)
  · obtain rfl := eq_of_div_eq ha hva hpage
    rcases hspec.pageFile with ⟨hread, hsame⟩ | ⟨-, hstack, -⟩
    · exact Or.inl (hsame ▸ hread)
    · exact Or.inr hstack

theorem CopiesKept.pageFault (hstores : pf.StoresPages) (hkeeps : pf.KeepsPages)
    (hown : FramesOwned L s) (halgo : s.pageRepAlgoType = .modifiedClock)
    (hok : WorkingSetOk L s env) (h : CopiesKept L pf s)
    (hfault : pageFaultHandler L pf env va unset s = some s') :
    SameFile L pf s s' ∧ CopiesKept L pf s' := by
  have hva : roundDown va pageSize % pageSize = 0 := roundDown_mod va pageSize
  cases pageFaults hfault with
  | replaced hfull _ hclock hreplace hplace =>
    obtain ⟨w, hevicted⟩ := hown.evicted hfull
      (fun i w hi => (hok.tracks.mem_iff w).2 ⟨i, hi⟩) hclock hreplace
    obtain ⟨hfile, hkept⟩ := h.evicted hstores hevicted
    obtain ⟨f, hspec⟩ := hevicted.owned.pagePlacement_spec hplace
    exact (hkept.placed hkeeps hva hspec).imp_left hfile.trans
  | unreplaced _ hne _ => exact absurd halgo hne
  | placed _ hplace =>
    obtain ⟨f, hspec⟩ := hown.pagePlacement_spec hplace
    exact h.placed hkeeps hva hspec

theorem CopiesKept.allocateMem (hfull : pf.NeverFull) (hkeeps : pf.KeepsPages)
    (h : CopiesKept L pf s) {noSpace : Bool} (hva : va % pageSize = 0)
    (hallocate : s.allocateMem pf env va size noSpace = some s') : CopiesKept L pf s' := by
  simp only [UserMemory.allocateMem] at hallocate
  split at hallocate
  · cases hallocate
  · obtain rfl := Option.some.inj hallocate
    obtain ⟨p, hloop, hhas⟩ := allocateMemLoop_spec hfull hkeeps env
      ((size + (pageSize - 1)) / pageSize) noSpace s.pageFile hva
    rw [hloop]
    exact fun env' a ha hm =>
      (h env' a ha hm).imp_left fun hread => (hhas env' a ha).2 (Or.inr hread)

/-- A page that is freed leaves memory too. -/
theorem CopiesKept.freeMem (hremoves : pf.RemovesPages) (hok : WorkingSetOk L s env)
    (h : CopiesKept L pf s) (hva : va % pageSize = 0) (hsize : size % pageSize = 0)
    (htop : va + size ≤ L.userTop) (hfree : s.freeMem L pf env va size = some s') :
    CopiesKept L pf s' := by
  have heffect := freeMem_effect hfree
  intro env' a ha hm
  have hout : ¬(env' = env ∧ OfRange va size a) := fun hc => by
    rw [hc.1] at hm
    exact heffect.not_mapped hok.tracks htop ha hc.2 hm
  rw [HasCopy, heffect.read hremoves hva hsize env' a ha, if_neg hout]
  exact h env' a ha ((heffect.mapped_iff env' a).1 hm).1

end Handler

section Attempts

variable {L : FaultLayout} {buffering : Bool} {ev : Event}

theorem CopiesKept.fault (hstores : pf.StoresPages) (hkeeps : pf.KeepsPages) (hs : Managed L s)
    (h : CopiesKept L.toUserLayout pf s)
    (hfault : s.faultHandler L pf buffering true env va unset = some s') :
    SameFile L.toUserLayout pf s s' ∧ CopiesKept L.toUserLayout pf s' := by
  rcases faultHandler_cases hfault with ⟨t, hfinds⟩ | ⟨-, hpage⟩
  · have hspec := hs.owned.findsPageTable_spec hfinds
    have hfile : SameFile L.toUserLayout pf s s' := .of_eq hspec.pageFile
    exact ⟨hfile, h.of_mapped hfile fun env' a _ hm => by rwa [Mapped, hspec.entry] at hm⟩
  · exact h.pageFault hstores hkeeps hs.owned hs.pageRepAlgoType (hs.workingSets env) hpage

/-- A load or a store, or the fault that it is. -/
theorem CopiesKept.attempt (hstores : pf.StoresPages) (hkeeps : pf.KeepsPages) (hs : Managed L s)
    (h : CopiesKept L.toUserLayout pf s) (hev : Accesses env va ev)
    (hattempt : s.attempt L pf buffering ev = some s') :
    SameFile L.toUserLayout pf s s' ∧ CopiesKept L.toUserLayout pf s' := by
  have haccess : ∀ store, SameFile L.toUserLayout pf s (access env va store s) ∧
      CopiesKept L.toUserLayout pf (access env va store s) := fun store => by
    obtain ⟨-, hmapped, -⟩ := access_spec s env va store
    have hfile : SameFile L.toUserLayout pf s (access env va store s) :=
      .of_eq (pageFile_access env va store s)
    exact ⟨hfile, h.of_mapped hfile fun env' a _ hm => (hmapped env' a).1 hm⟩
  cases hev with
  | load unset =>
    simp only [UserMemory.attempt] at hattempt
    split_ifs at hattempt
    · exact Option.some.inj hattempt ▸ haccess none
    · exact h.fault hstores hkeeps hs hattempt
  | store byte unset =>
    simp only [UserMemory.attempt] at hattempt
    split_ifs at hattempt
    · exact Option.some.inj hattempt ▸ haccess _
    · exact h.fault hstores hkeeps hs hattempt

end Attempts

end UserMemory

end FosKernel
