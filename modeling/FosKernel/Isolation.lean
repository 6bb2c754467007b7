import FosKernel.VirtualMemory

/-!
# Isolation

The environments share the frames, the page file, the kernel heap that their page tables are
in, and the hand of the clock. `SameView` is what an environment sees of its memory : its
page-table entries, used and modified bits included, the bytes of its resident pages, their
copies in the page file, and its working set.

An attempt of one environment leaves the view of every other as it was (`attempt_sameView`) :
the victim of a page fault is one of the working set of the environment that faults
(`directories_modifiedClock`), and the frames that are filled, freed or made into page tables
are those of no other page. `run_sameView` : an environment that does nothing sees nothing
happen, whatever the others do.
-/

namespace FosKernel

namespace UserMemory

variable {P : Type} {L : FaultLayout} {pf : PageFile P} {s s' s'' s₁ s₂ : UserMemory P}
  {env env' va f v unset size : Nat} {buffering : Bool} {ev : Event}

/-! ## The clock -/

/-- A relation that clearing a used bit of `env` keeps, and moving the hand. -/
structure ClockRel (env : Nat) (R : UserMemory P → UserMemory P → Prop) : Prop where
  refl : ∀ s, R s s
  trans : ∀ {s s' s''}, R s s' → R s' s'' → R s s''
  hand : ∀ (s : UserMemory P) hand, R s { s with lastClockIndex := hand }
  clear : ∀ {s s' : UserMemory P} {va},
    s.ptSetPagePermissions env va 0#32 permUsed = some s' → R s s'

namespace ClockRel

variable {R : UserMemory P → UserMemory P → Prop} {try1 : Bool} {r : Option Nat}

theorem getVictimIndexLoop (hR : ClockRel env R) :
    ∀ (trips i : Nat) {s s' : UserMemory P} {r : Option Nat},
      getVictimIndexLoop env try1 trips i s = some (r, s') → R s s'
  | 0, i, s, s', r, h => by
    obtain ⟨-, rfl⟩ := Prod.mk.inj (Option.some.inj h)
    exact hR.refl s
  | trips + 1, i, s, s', r, h => by
    rw [getVictimIndexLoop_succ, Option.bind_eq_some_iff] at h
    obtain ⟨x, -, h⟩ := h
    split at h
    · obtain ⟨-, rfl⟩ := Prod.mk.inj (Option.some.inj h)
      exact hR.hand s _
    · split at h
      · exact hR.getVictimIndexLoop trips (i + 1) h
      · obtain ⟨t, hset, h⟩ := Option.bind_eq_some_iff.1 h
        exact hR.trans (hR.clear hset) (hR.getVictimIndexLoop trips (i + 1) h)

theorem getVictimIndex (hR : ClockRel env R) {start stop : Nat}
    (h : getVictimIndex env try1 start stop s = some (r, s')) : R s s' := by
  unfold UserMemory.getVictimIndex at h
  split at h
  · obtain ⟨-, rfl⟩ := Prod.mk.inj (Option.some.inj h)
    exact hR.refl s
  · exact hR.getVictimIndexLoop _ _ h

theorem orElseScan (hR : ClockRel env R) {q : Option Nat × UserMemory P}
    {scan : UserMemory P → Option (Option Nat × UserMemory P)} (hq : R s q.2)
    (hscan : ∀ t p, scan t = some p → R t p.2) (h : orElseScan q scan = some (r, s')) :
    R s s' := by
  rcases orElseScan_eq_some.1 h with ⟨-, rfl⟩ | ⟨-, h⟩
  · exact hq
  · exact hR.trans hq (hscan _ _ h)

theorem modifiedClockTrip (hR : ClockRel env R) (h : modifiedClockTrip env s = some (r, s')) :
    R s s' := by
  unfold UserMemory.modifiedClockTrip at h
  simp only [Option.bind_eq_bind, Option.bind_eq_some_iff] at h
  obtain ⟨q₁, h₁, q₂, h₂, q₃, h₃, h₄⟩ := h
  have hc₁ : R s q₁.2 := hR.getVictimIndex h₁
  have hc₂ : R s q₂.2 := hR.orElseScan hc₁ (fun _ _ => hR.getVictimIndex) h₂
  have hc₃ : R s q₃.2 := hR.orElseScan hc₂ (fun _ _ => hR.getVictimIndex) h₃
  exact hR.orElseScan hc₃ (fun _ _ => hR.getVictimIndex) h₄

/-- What clearing a used bit and moving the hand keep, Modified Clock keeps. -/
theorem modifiedClockLoop (hR : ClockRel env R) :
    ∀ (fuel : Nat) {s s' : UserMemory P}, modifiedClockLoop env fuel s = some (v, s') → R s s'
  | 0, s, s', h => by cases h
  | fuel + 1, s, s', h => by
    rw [modifiedClockLoop_succ, Option.bind_eq_some_iff] at h
    obtain ⟨⟨_ | w, t⟩, htrip, h⟩ := h
    · exact hR.trans (hR.modifiedClockTrip htrip) (hR.modifiedClockLoop fuel h)
    · obtain ⟨-, rfl⟩ := Prod.mk.inj (Option.some.inj h)
      exact hR.modifiedClockTrip htrip

end ClockRel

/-- Modified Clock leaves the page tables of the other environments alone. -/
theorem directories_modifiedClock (hclock : modifiedClock env s = some (v, s')) (hne : env' ≠ env) :
    s'.heap.memory.directories env' = s.heap.memory.directories env' := by
  have hR : ClockRel env fun s s' : UserMemory P =>
      s'.heap.memory.directories env' = s.heap.memory.directories env' :=
    ⟨fun _ => rfl, fun h h' => h'.trans h, fun _ _ => rfl, fun hset => by
      obtain ⟨t, -, rfl⟩ := Option.map_eq_some_iff.1 hset
      exact Function.update_of_ne hne _ _⟩
  exact hR.modifiedClockLoop 2 hclock

/-! ## Views -/

/-- What environment `env'` sees of its memory is the same. -/
structure SameView (pf : PageFile P) (env' : Nat) (s s' : UserMemory P) : Prop where
  entries : ∀ va, s'.userEntry env' va = s.userEntry env' va
  bytes : ∀ va, s.Mapped env' va → s'.bytes (s.frameOf env' va) = s.bytes (s.frameOf env' va)
  copies : ∀ va, va % pageSize = 0 →
    pf.readEnvPage s'.pageFile env' va = pf.readEnvPage s.pageFile env' va
  envs : s'.envs env' = s.envs env'

theorem SameView.refl (pf : PageFile P) (env' : Nat) (s : UserMemory P) : SameView pf env' s s :=
  ⟨fun _ => rfl, fun _ _ => rfl, fun _ _ => rfl, rfl⟩

theorem SameView.trans (h : SameView pf env' s s') (h' : SameView pf env' s' s'') :
    SameView pf env' s s'' := by
  refine ⟨fun va => (h'.entries va).trans (h.entries va), fun va hm => ?_,
    fun va hva => (h'.copies va hva).trans (h.copies va hva), h'.envs.trans h.envs⟩
  have hm' : s'.Mapped env' va := by rwa [Mapped, h.entries]
  have hframe : s'.frameOf env' va = s.frameOf env' va := by rw [frameOf, h.entries, frameOf]
  exact hframe ▸ (h'.bytes va hm').trans (hframe ▸ h.bytes va hm)

theorem sameView_findsPageTable {L : UserLayout} {t : PageTable} (hown : FramesOwned L s)
    (hfinds : FindsPageTable L s env va t s') (env' : Nat) : SameView pf env' s s' := by
  have hspec := hown.findsPageTable_spec hfinds
  exact ⟨hspec.entry env', fun va hm => hspec.bytes _ (hown.held hm.ne_zero).notFree,
    fun va _ => by rw [hspec.pageFile], by rw [hspec.envs]⟩

/-- The victim is a page of the environment that faults. -/
theorem sameView_evicted {L : UserLayout} (hstores : pf.StoresPages) (hown : FramesOwned L s)
    (hfull : (s.envs env).Full) (hok : WorkingSetOk L s env)
    (hclock : modifiedClock env s = some (v, s₁))
    (hreplace : pageReplacement L pf env v s₁ = some s₂) (hne : env' ≠ env) :
    SameView pf env' s s₂ := by
  have hclears := (modifiedClock_spec hclock).1
  have hsame := hown.sameFrames_modifiedClock hclock
  have hdir := directories_modifiedClock hclock hne
  obtain ⟨hbytes, hfile⟩ : s₁.bytes = s.bytes ∧ s₁.pageFile = s.pageFile := by
    rw [show s₁ = _ from changesTables_modifiedClockLoop 2 hclock]
    exact ⟨rfl, rfl⟩
  obtain ⟨x, hx, hspec⟩ := (hown.of_sameFrames hsame).pageReplacement_spec hreplace
  rw [hclears.envs] at hx
  have hslot : (s.envs env).slot v = some x.virtualAddress :=
    Env.slot_eq_some.2 ⟨x, hx, hfull x (List.mem_of_getElem? hx), rfl⟩
  have halign := ((hok.tracks.mem_iff _).2 ⟨v, hslot⟩).1
  refine ⟨fun va => ?_, fun va _ => by rw [hspec.bytes, hbytes], fun va hva => ?_, ?_⟩
  · rw [hspec.entry, if_neg fun hc => hne hc.1]
    simp only [userEntry, getPageTable, hdir]
  · rw [hspec.pageFile, hfile]
    split_ifs
    · rw [hstores.update _ _ _ halign _ _ hva, if_neg fun hc => hne hc.1]
    · rfl
  · obtain ⟨e, -, henvs⟩ := hspec.envs
    rw [henvs, Function.update_of_ne hne, hclears.envs]

/-- The page that is placed gets a free frame. -/
theorem sameView_placement {L : UserLayout} (hstores : pf.StoresPages) (hown : FramesOwned L s)
    (hva : va % pageSize = 0) (hspec : PlacementSpec L pf env va v f s s') (hne : env' ≠ env) :
    SameView pf env' s s' := by
  refine ⟨fun va' => by rw [hspec.entry, if_neg fun hc => hne hc.1],
    fun va' hm => hspec.bytes _ (hown.held hm.ne_zero).notFree, fun va' hva' => ?_, ?_⟩
  · rcases hspec.pageFile with ⟨-, hfile⟩ | ⟨-, -, hadd⟩
    · rw [hfile]
    · exact hstores.add hva hadd _ _ hva' fun hc => hne hc.1
  · obtain ⟨e, -, henvs⟩ := hspec.envs
    rw [henvs, Function.update_of_ne hne]

theorem sameView_pageFault {L : UserLayout} (hstores : pf.StoresPages) (hown : FramesOwned L s)
    (hok : WorkingSetOk L s env) (hfault : pageFaultHandler L pf env va unset s = some s')
    (hne : env' ≠ env) : SameView pf env' s s' := by
  have hva : roundDown va pageSize % pageSize = 0 := roundDown_mod va pageSize
  have hplace : ∀ {s : UserMemory P} {v}, FramesOwned L s →
      pagePlacement L pf env (roundDown va pageSize) v s = some s' → SameView pf env' s s' :=
    fun hown hplace => by
      obtain ⟨f, hspec⟩ := hown.pagePlacement_spec hplace
      exact sameView_placement hstores hown hva hspec hne
  cases pageFaults hfault with
  | replaced hfull _ hclock hreplace hp =>
    have hown₁ := hown.of_sameFrames (hown.sameFrames_modifiedClock hclock)
    obtain ⟨x, -, hspec⟩ := hown₁.pageReplacement_spec hreplace
    exact (sameView_evicted hstores hown hfull hok hclock hreplace hne).trans
      (hplace hspec.owned hp)
  | unreplaced _ _ hp => exact hplace hown hp
  | placed _ hp => exact hplace hown hp

/-- A page that another environment stores to is in another frame. -/
theorem sameView_access {L : UserLayout} (hown : FramesOwned L s) (store : Option PageBytes)
    (hm : s.Mapped env va) (hne : env' ≠ env) : SameView pf env' s (access env va store s) := by
  refine ⟨fun va' => by rw [userEntry_access store hm, if_neg fun hc => hne hc.1],
    fun va' hm' => ?_, fun _ _ => by rw [pageFile_access],
    by rw [(access_spec s env va store).1.envs]⟩
  rw [bytes_access store hm]
  cases store with
  | none => rfl
  | some contents =>
    refine Function.update_of_ne (fun heq => hne ?_) _ _
    exact (hown.exclusive hm'.ne_zero hm.ne_zero heq).1

theorem sameView_allocateMem {noSpace : Bool} (hstores : pf.StoresPages) (hva : va % pageSize = 0)
    (hallocate : s.allocateMem pf env va size noSpace = some s') (hne : env' ≠ env) :
    SameView pf env' s s' := by
  simp only [allocateMem] at hallocate
  split at hallocate
  · cases hallocate
  · obtain rfl := Option.some.inj hallocate
    refine ⟨fun _ => rfl, fun _ _ => rfl, fun va' hva' => ?_, rfl⟩
    exact allocateMemLoop_read hstores _ hva rfl _ _ hva' fun hc => hne hc.1

theorem sameView_freeMem {L : UserLayout} (hremoves : pf.RemovesPages) (hva : va % pageSize = 0)
    (hfree : s.freeMem L pf env va size = some s') (hne : env' ≠ env) :
    SameView pf env' s s' := by
  have heffect := freeMem_effect hfree
  refine ⟨fun va' => heffect.kept _ _ fun hc => hne hc.1,
    fun va' _ => by rw [freeMem_bytes hfree], fun va' hva' => ?_, ?_⟩
  · rw [heffect.pageFile, freeAllPagees_read hremoves _ _ hva _ _ hva',
      if_neg fun hc => hne hc.1]
  · rw [heffect.envs, Function.update_of_ne hne]

/-! ## Runs -/

/-- The environment that an event is about. -/
def Event.caller : Event → Nat
  | .load env _ _ => env
  | .store env _ _ _ => env
  | .allocateMem env _ _ _ => env
  | .freeMem env _ _ => env

/-- An attempt of one environment is not seen by the others. -/
theorem attempt_sameView (hstores : pf.StoresPages) (hremoves : pf.RemovesPages)
    (hproper : ev.Proper L) (h : Managed L s) (hattempt : s.attempt L pf buffering ev = some s')
    (hne : env' ≠ ev.caller) : SameView pf env' s s' := by
  have hfault : ∀ {env va unset}, env' ≠ env →
      s.faultHandler L pf buffering true env va unset = some s' → SameView pf env' s s' := by
    intro env va unset hne hfault
    rcases faultHandler_cases hfault with ⟨t, hfinds⟩ | ⟨-, hpage⟩
    · exact sameView_findsPageTable h.owned hfinds env'
    · exact sameView_pageFault hstores h.owned (h.workingSets env) hpage hne
  cases ev with
  | load env va unset =>
    simp only [attempt] at hattempt
    split_ifs at hattempt with hm
    · obtain rfl := Option.some.inj hattempt
      exact sameView_access h.owned none hm hne
    · exact hfault hne hattempt
  | store env va byte unset =>
    simp only [attempt] at hattempt
    split_ifs at hattempt with hm
    · obtain rfl := Option.some.inj hattempt
      exact sameView_access h.owned _ hm hne
    · exact hfault hne hattempt
  | allocateMem env va size noSpace => exact sameView_allocateMem hstores hproper.1 hattempt hne
  | freeMem env va size => exact sameView_freeMem hremoves hproper.1 hattempt hne

/-- Along every run in which an environment does nothing, it sees nothing happen. -/
theorem run_sameView {s₀ : UserMemory P} {events : List Event} (hstores : pf.StoresPages)
    (hremoves : pf.RemovesPages) (h : Managed L s₀)
    (hevents : ∀ ev ∈ events, ev.Proper L ∧ ev.caller ≠ env')
    (hrun : Machine.run (attempt L pf buffering) s₀ events = some s) :
    SameView pf env' s₀ s := by
  refine (Machine.run_induction_of_meets (P := fun s => Managed L s ∧ SameView pf env' s₀ s)
    (fun s ev s' hs hev hattempt => ?_) ⟨h, .refl pf env' s₀⟩
    (Machine.meets_of_forall hevents s₀) hrun).2
  exact ⟨attempt_managed hs.1 hattempt,
    hs.2.trans (attempt_sameView hstores hremoves hev.1 hs.1 hattempt hev.2.symm)⟩

/-- Environment 1 stores a byte at the address at which environment 0 does later. -/
def firstStore : List Event :=
  [.load 1 0xEEBFD123 0, .load 1 0xEEBFD123 0, .store 1 0xEEBFD123 5#8 0]

/-- Environment 0, with one slot, stores to two pages and frees one. -/
def otherStores : List Event :=
  [.load 0 0xEEBFD123 0, .load 0 0xEEBFD123 0, .store 0 0xEEBFD123 7#8 0, .store 0 0xEEBFC000 9#8 0,
    .store 0 0xEEBFC000 9#8 0, .freeMem 0 0xEEBFC000 0x1000]

theorem otherStores_sameView : ∃ s₁ s,
    Machine.run (attempt VirtualMemory.smallFaultLayout mapPageFile false)
      (smallUserMemory fun _ => 1) firstStore = some s₁ ∧
    Machine.run (attempt VirtualMemory.smallFaultLayout mapPageFile false) s₁ otherStores =
      some s ∧
    s.byteAt 1 0xEEBFD123 = 5#8 := by
  have hrun : ((Machine.run (attempt VirtualMemory.smallFaultLayout mapPageFile false)
      (smallUserMemory fun _ => 1) firstStore).any fun s₁ => s₁.Mapped 1 0xEEBFD123 ∧
        s₁.byteAt 1 0xEEBFD123 = 5#8 ∧
        (Machine.run (attempt VirtualMemory.smallFaultLayout mapPageFile false) s₁
          otherStores).isSome) = true := by
    decide +kernel
  obtain ⟨s₁, hs₁, hfacts⟩ := (Option.any_eq_true _ _).1 hrun
  obtain ⟨hm, hbyte, hsome⟩ := of_decide_eq_true hfacts
  obtain ⟨s, hs⟩ := Option.isSome_iff_exists.1 hsome
  have hevents : ∀ ev ∈ otherStores, ev.Proper VirtualMemory.smallFaultLayout ∧ ev.caller ≠ 1 := by
    decide
  have hview : SameView mapPageFile 1 s₁ s := run_sameView mapPageFile_storesPages
    mapPageFile_removesPages
    (run_managed (VirtualMemory.smallUserMemory_managed fun _ => 1) hs₁) hevents hs
  refine ⟨s₁, s, hs₁, hs, ?_⟩
  rw [byteAt, frameOf, hview.entries, ← frameOf, hview.bytes _ hm]
  exact hbyte

end UserMemory

end FosKernel
