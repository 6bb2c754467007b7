import FosKernel.MapFrameContract

/-!
# `loadtime_map_frame`

`loadtime_map_frame` has the text of the contract of `map_frame`, and its steps less one : it
does not look at the entry that it writes over. The frame mapped there before keeps its
reference, and so does the new one if it was mapped there already.

`mapping_loadtimeMapFrame_iff` : the two leave the same page tables, counters and free frames
where that entry is not present, and nowhere else.
-/

namespace FosKernel

/-- `map_frame` of a present entry counts another mapping for no frame, or takes one away from
the frame that was mapped. -/
theorem Memory.references_mapEntry_of_present {m m' : Memory} {n f : Nat} {e e' : Entry}
    {perm : BitVec 32} (hpresent : IsPresent e) (h : m.mapEntry n e f perm = some (e', m')) :
    ∃ g, m'.references g ≠ if g = f then m.references f + 1 else m.references g := by
  unfold mapEntry at h
  split at h
  · obtain ⟨rfl, rfl⟩ := Prod.mk.inj (Option.some.inj h)
    refine ⟨f, ?_⟩
    rw [if_pos rfl]
    omega
  · next hother =>
    have hne : frameNumber e ≠ f := fun heq =>
      hother ⟨hpresent, by rw [← toPhysicalAddress_frameNumber, heq]⟩
    obtain ⟨⟨e₁, m₁⟩, hun, heq⟩ := Option.map_eq_some_iff.1 h
    obtain ⟨-, rfl⟩ := Prod.mk.inj heq
    rw [unmapEntry, if_neg hpresent.ne_zero] at hun
    split at hun
    · obtain ⟨-, rfl⟩ := Prod.mk.inj (Option.some.inj hun)
      refine ⟨frameNumber e, ?_⟩
      rw [references_setReferences, if_neg hne, if_neg hne,
        (references_decrementReferences (frameNumber e)).1, if_pos rfl]
      omega
    · cases hun

namespace UserMemory

variable {P : Type} {L : UserLayout} {s s₁ : UserMemory P} {env f va : Nat} {perm : BitVec 32}
  {t : PageTable}

/-- `loadtime_map_frame(directory, f, va, perm)`. -/
def loadtimeMapFrame (L : UserLayout) (s : UserMemory P) (env f va : Nat) (perm : BitVec 32) :
    Option (UserMemory P) := do
  let (t, s) ← s.getOrCreatePageTable L env va
  let m := s.heap.memory
  let m := m.setReferences f ((m.framesInfo f).references + 1)
  some (s.setMemory
    (m.setEntry env va t (constructEntry (toPhysicalAddress f) (perm ||| permPresent))))

/-- The page tables of the user and of the kernel, the counters and the free frames. -/
def mapping (s : UserMemory P) :
    (Nat → Nat → Option PageTable) × (Nat → Entry) × (Nat → Int) × List Nat :=
  (s.heap.memory.directories, s.heap.kernelEntries, s.heap.memory.references,
    s.heap.memory.freeFrameList)

/-- A new page table is empty. -/
theorem entries_getOrCreatePageTable (h : s.getOrCreatePageTable L env va = some (t, s₁)) :
    t.entries (ptx va) = s.userEntry env va := by
  cases findsPageTable h with
  | found ht => exact (userEntry_of_some ht).symm
  | made hnone => exact (userEntry_of_none hnone).symm

/-- Over an entry that is not present both do the same. -/
theorem loadtimeMapFrame_eq_mapFrame (hpresent : ¬IsPresent (s.userEntry env va)) :
    s.loadtimeMapFrame L env f va perm = s.mapFrame L env f va perm := by
  unfold loadtimeMapFrame mapFrame
  cases hc : s.getOrCreatePageTable L env va with
  | none => rfl
  | some made =>
    obtain ⟨t, s₁⟩ := made
    rw [← entries_getOrCreatePageTable hc] at hpresent
    simp [Memory.mapEntry, hpresent]

/-- A present entry is in a page table that is there. -/
theorem exists_getPageTable_of_present (hpresent : IsPresent (s.userEntry env va)) :
    ∃ t, s.getPageTable env va = some t ∧ IsPresent (t.entries (ptx va)) := by
  cases ht : s.getPageTable env va with
  | none =>
    rw [userEntry_of_none ht] at hpresent
    exact absurd hpresent not_isPresent_zero
  | some t => exact ⟨t, rfl, userEntry_of_some ht ▸ hpresent⟩

/-- The counters that `loadtime_map_frame` leaves, where there is a page table. -/
theorem loadtimeMapFrame_of_table (f : Nat) (perm : BitVec 32)
    (ht : s.getPageTable env va = some t) :
    ∃ s', s.loadtimeMapFrame L env f va perm = some s' ∧
      ∀ g, s'.heap.memory.references g = if g = f then s.heap.memory.references f + 1
        else s.heap.memory.references g := by
  refine ⟨_, by simp only [loadtimeMapFrame, getOrCreatePageTable, ht]; rfl, fun g => ?_⟩
  exact Memory.references_setReferences f g _

/-- Over a present entry some counter tells the two apart. -/
theorem mapping_ne_of_present (hpresent : IsPresent (s.userEntry env va)) :
    (s.loadtimeMapFrame L env f va perm).map mapping ≠
      (s.mapFrame L env f va perm).map mapping := by
  obtain ⟨t, ht, hpresent⟩ := exists_getPageTable_of_present hpresent
  obtain ⟨s', hload, hrefs⟩ := loadtimeMapFrame_of_table (L := L) f perm ht
  intro heq
  rw [hload, Option.map_some] at heq
  obtain ⟨s'', hmap, hview⟩ := Option.map_eq_some_iff.1 heq.symm
  simp only [mapFrame, getOrCreatePageTable, ht, Option.bind_eq_bind, Option.bind_some] at hmap
  obtain ⟨⟨e, m⟩, hentry, hmap⟩ := Option.bind_eq_some_iff.1 hmap
  obtain rfl := Option.some.inj hmap
  obtain ⟨g, hg⟩ := Memory.references_mapEntry_of_present hpresent hentry
  have href : m.references g = s'.heap.memory.references g :=
    congrFun (congrArg (fun v => v.2.2.1) hview) g
  exact hg (href.trans (hrefs g))

/-- When `loadtime_map_frame` does what `map_frame` does. -/
theorem mapping_loadtimeMapFrame_iff (L : UserLayout) (s : UserMemory P) (env f va : Nat)
    (perm : BitVec 32) :
    (s.loadtimeMapFrame L env f va perm).map mapping =
        (s.mapFrame L env f va perm).map mapping ↔
      ¬IsPresent (s.userEntry env va) :=
  ⟨fun heq hpresent => mapping_ne_of_present hpresent heq, fun hpresent =>
    congrArg (Option.map mapping) (loadtimeMapFrame_eq_mapFrame hpresent)⟩

/-- Frame 1 holds a page that ends one segment and starts the next : the segments map it at
the same address, and it has two references for the one entry. -/
theorem sharedPage_counterexample :
    ((withEntry 0x1007#32).loadtimeMapFrame smallMapLayout 0 1 0x800000 6#32).map mapping ≠
        ((withEntry 0x1007#32).mapFrame smallMapLayout 0 1 0x800000 6#32).map mapping ∧
      (((withEntry 0x1007#32).loadtimeMapFrame smallMapLayout 0 1 0x800000 6#32).map
        fun s => s.heap.memory.references 1) = some 2 ∧
      (((withEntry 0x1007#32).mapFrame smallMapLayout 0 1 0x800000 6#32).map
        fun s => s.heap.memory.references 1) = some 1 :=
  ⟨mapping_ne_of_present (by decide), by decide, by decide⟩

end UserMemory

end FosKernel
