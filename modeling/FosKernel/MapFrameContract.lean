import FosKernel.KernReferences
import FosKernel.KernelHeapKmalloc
import FosKernel.UserMappings

/-!
# The contract of `map_frame`

`map_frame` takes an entry for mapped if it has `PERM_PRESENT`, `get_frame_info` and
`unmap_frame` if it is not zero; and an entry that maps the frame already is left as it
is, with its permissions. `MapEffect` is what either `map_frame` does to the entry and the
counters, and `MapEffect.contract_iff` when that is the contract : not where the entry
is not present but names a frame, which keeps its reference, and not where it maps the
frame already with other permissions.

`mapFrame_iff` is this for `memory_manager.c` and `kern/memory_manager.c`.
-/

set_option linter.unusedSectionVars false

namespace FosKernel

/-! ## Permissions of an entry -/

theorem toPhysicalAddress_and_permMask (f : Nat) : toPhysicalAddress f &&& permMask = 0#32 := by
  have haddress : toPhysicalAddress f &&& ~~~permMask = toPhysicalAddress f :=
    extractAddress_toPhysicalAddress f
  have hmask : ~~~permMask &&& permMask = 0#32 := by decide
  rw [← haddress, BitVec.and_assoc, hmask, BitVec.and_zero]

theorem IsPerm.and_permMask {perm : BitVec 32} (hp : IsPerm perm) : perm &&& permMask = perm := by
  have hall : permMask ||| ~~~permMask = BitVec.allOnes 32 := by decide
  have hsplit : perm &&& (permMask ||| ~~~permMask) = perm := by
    rw [hall, BitVec.and_allOnes]
  rw [BitVec.and_or_distrib_left, hp] at hsplit
  exact BitVec.or_zero.symm.trans hsplit

/-- Reading back the permissions an entry was built from. -/
theorem constructEntry_and_permMask (f : Nat) {perm : BitVec 32} (hp : IsPerm perm) :
    constructEntry (toPhysicalAddress f) perm &&& permMask = perm := by
  rw [constructEntry, or_and_right, toPhysicalAddress_and_permMask, hp.and_permMask,
    BitVec.zero_or]

/-! ## The contract -/

/-- The frame that an entry records for `get_frame_info`. -/
def recorded (n : Nat) (e : Entry) : Option Nat :=
  if e ≠ 0#32 ∧ frameNumber e < n then some (frameNumber e) else none

variable {n f : Nat} {perm : BitVec 32} {made : Option Nat} {e e' : Entry} {refs refs' : Nat → Int}
  {free' : List Nat}

/-- The entry `e` becomes `e'`, which maps frame `f` with the permissions `perm`, and the
counters follow. A frame `made` into a page table may change. -/
structure MapContract (n f : Nat) (perm : BitVec 32) (made : Option Nat) (e e' : Entry)
    (refs refs' : Nat → Int) (free' : List Nat) : Prop where
  address : extractAddress e' = toPhysicalAddress f
  permissions : e' &&& permMask = perm ||| permPresent
  old : ∀ g, recorded n e = some g → g ≠ f → refs' g = refs g - 1 ∧ (refs g = 1 → g ∈ free')
  new : refs' f = refs f + if recorded n e = some f then 0 else 1
  other : ∀ g, g ≠ f → recorded n e ≠ some g → made ≠ some g → refs' g = refs g

/-- The entry is zero, or maps another frame, or the same one with these permissions, or is
not present and names no frame. -/
def MapsRight (n f : Nat) (perm : BitVec 32) (e : Entry) : Prop :=
  e = 0#32 ∨ IsPresent e ∧ (frameNumber e = f → e &&& permMask = perm ||| permPresent) ∨
    ¬ IsPresent e ∧ n ≤ frameNumber e

/-- What `map_frame` does. -/
inductive MapEffect (n f : Nat) (perm : BitVec 32) (made : Option Nat) (e e' : Entry)
    (refs refs' : Nat → Int) (free' : List Nat) : Prop
  | same (hpresent : IsPresent e) (hframe : frameNumber e = f) (he : e' = e)
      (hrefs : ∀ g, made ≠ some g → refs' g = refs g)
  | replaced (hpresent : IsPresent e) (hframe : frameNumber e ≠ f) (hlt : frameNumber e < n)
      (he : e' = constructEntry (toPhysicalAddress f) (perm ||| permPresent))
      (hold : refs' (frameNumber e) = refs (frameNumber e) - 1 ∧
        (refs (frameNumber e) = 1 → frameNumber e ∈ free'))
      (hnew : refs' f = refs f + 1)
      (hrefs : ∀ g, g ≠ f → g ≠ frameNumber e → made ≠ some g → refs' g = refs g)
  | inserted (hpresent : ¬ IsPresent e)
      (he : e' = constructEntry (toPhysicalAddress f) (perm ||| permPresent))
      (hnew : refs' f = refs f + 1)
      (hrefs : ∀ g, g ≠ f → made ≠ some g → refs' g = refs g)

theorem recorded_of_lt (h0 : e ≠ 0#32) (hlt : frameNumber e < n) :
    recorded n e = some (frameNumber e) :=
  if_pos ⟨h0, hlt⟩

theorem ne_zero_of_recorded {g : Nat} (h : recorded n e = some g) : e ≠ 0#32 := fun h0 => by
  simp [recorded, h0] at h

/-- Of the entries that are not present those are right that record no frame. -/
theorem mapsRight_iff_of_not_present (hpresent : ¬IsPresent e) :
    MapsRight n f perm e ↔ recorded n e = none := by
  unfold MapsRight recorded
  by_cases h0 : e = 0#32
  · exact iff_of_true (Or.inl h0) (if_neg fun hrec => hrec.1 h0)
  · simp [h0, hpresent]

/-- When what `map_frame` does is the contract. -/
theorem MapEffect.contract_iff (h : MapEffect n f perm made e e' refs refs' free') (hf : f < n)
    (hp : IsPerm perm) (hmade : made ≠ some f) (hnone : e ≠ 0#32 → made = none) :
    MapContract n f perm made e e' refs refs' free' ↔ MapsRight n f perm e := by
  have hperm : IsPerm (perm ||| permPresent) := hp.or (by decide)
  cases h with
  | same hpresent hframe he hrefs =>
    subst he
    have hrec : recorded n e' = some f := by
      rw [recorded_of_lt hpresent.ne_zero (hframe ▸ hf), hframe]
    refine ⟨fun hc => Or.inr (Or.inl ⟨hpresent, fun _ => hc.permissions⟩), fun hright => ?_⟩
    obtain ⟨-, hpermissions⟩ := (hright.resolve_left hpresent.ne_zero).resolve_right
      fun hno => hno.1 hpresent
    refine ⟨by rw [← toPhysicalAddress_frameNumber, hframe], hpermissions hframe,
      fun g hg hne => ?_, ?_, fun g _ _ hg => hrefs g hg⟩
    · exact absurd (Option.some.inj (hg.symm.trans hrec)) hne
    · rw [if_pos hrec, hrefs f hmade, Int.add_zero]
  | replaced hpresent hframe hlt he hold hnew hrefs =>
    subst he
    have hrec := recorded_of_lt hpresent.ne_zero hlt
    refine iff_of_true ⟨extractAddress_constructEntry f hperm,
      constructEntry_and_permMask f hperm, fun g hg _ => ?_, ?_, fun g hne hg => ?_⟩
      (Or.inr (Or.inl ⟨hpresent, fun hframe' => absurd hframe' hframe⟩))
    · obtain rfl := Option.some.inj (hrec.symm.trans hg)
      exact hold
    · rw [if_neg fun hsome => hframe (Option.some.inj (hrec.symm.trans hsome)), hnew]
    · exact hrefs g hne fun heq => hg (heq ▸ hrec)
  | inserted hpresent he hnew hrefs =>
    subst he
    rw [mapsRight_iff_of_not_present hpresent]
    cases hrec : recorded n e with
    | none =>
      refine iff_of_true ⟨extractAddress_constructEntry f hperm,
        constructEntry_and_permMask f hperm, fun g hg => ?_, ?_, fun g hne _ => hrefs g hne⟩ rfl
      · rw [hrec] at hg
        cases hg
      · rw [hrec, if_neg (Option.some_ne_none f).symm, hnew]
    | some g =>
      -- the frame it names keeps its reference, or gets a second one
      refine iff_of_false (fun hc => ?_) (Option.some_ne_none g)
      by_cases heq : g = f
      · have hnew' := hc.new
        rw [hrec, heq, if_pos rfl] at hnew'
        omega
      · have hold := (hc.old g hrec heq).1
        rw [hrefs g heq (by
          rw [hnone (ne_zero_of_recorded hrec)]
          exact (Option.some_ne_none g).symm)] at hold
        omega

/-- What holds of a result exactly on a condition, and a result where the condition fails. -/
theorem forall_iff_of_returns {S : Type*} {returns post : S → Prop} {cond : Prop}
    (hiff : ∀ s', returns s' → (post s' ↔ cond)) (hreturns : ¬cond → ∃ s', returns s') :
    (∀ s', returns s' → post s') ↔ cond := by
  refine ⟨fun hall => ?_, fun hcond s' hs' => (hiff s' hs').2 hcond⟩
  by_contra hcond
  obtain ⟨s', hs'⟩ := hreturns hcond
  exact hcond ((hiff s' hs').1 (hall s' hs'))

/-- A page table made first changes no counter but its own frame's. -/
theorem MapEffect.of_made {refs₁ : Nat → Int}
    (h : MapEffect n f perm none e e' refs₁ refs' free') (hmade : made ≠ some f)
    (hnone : e ≠ 0#32 → made = none) (hrefs : ∀ g, made ≠ some g → refs₁ g = refs g) :
    MapEffect n f perm made e e' refs refs' free' := by
  have hf := hrefs f hmade
  cases h with
  | same hpresent hframe he hsame =>
    exact .same hpresent hframe he fun g hg =>
      (hsame g (Option.some_ne_none g).symm).trans (hrefs g hg)
  | replaced hpresent hframe hlt he hold hnew hsame =>
    have hg := hrefs (frameNumber e) (by
      rw [hnone hpresent.ne_zero]
      exact (Option.some_ne_none _).symm)
    exact .replaced hpresent hframe hlt he (hg ▸ hold) (hf ▸ hnew) fun g hne hne' hg' =>
      (hsame g hne hne' (Option.some_ne_none g).symm).trans (hrefs g hg')
  | inserted hpresent he hnew hsame =>
    exact .inserted hpresent he (hf ▸ hnew) fun g hne hg =>
      (hsame g hne (Option.some_ne_none g).symm).trans (hrefs g hg)

/-! ## `memory_manager.c` -/

namespace Memory

variable {m m' : Memory}

/-- The counter of a frame. -/
def references (m : Memory) (g : Nat) : Int :=
  (m.framesInfo g).references

theorem references_setReferences (g h : Nat) (k : Int) :
    (m.setReferences g k).references h = if h = g then k else m.references h := by
  rw [references, setReferences_framesInfo]
  split <;> rfl

/-- A frame loses a reference, and is freed with its last. -/
theorem references_decrementReferences (g : Nat) :
    (∀ h, (m.decrementReferences g).references h =
        if h = g then m.references g - 1 else m.references h) ∧
      (m.references g = 1 → g ∈ (m.decrementReferences g).freeFrameList) := by
  have hself : ((m.setReferences g ((m.framesInfo g).references - 1)).framesInfo g).references =
      m.references g - 1 := (references_setReferences g g _).trans (if_pos rfl)
  unfold decrementReferences
  dsimp only
  rw [hself]
  split
  · next hzero =>
    refine ⟨fun h => ?_, fun _ => List.mem_cons_self⟩
    rw [references, freeFrame_framesInfo]
    split
    · exact hzero.symm
    · next hne => exact (references_setReferences g h _).trans (if_neg hne)
  · next hzero =>
    exact ⟨fun h => references_setReferences g h _, fun hone => absurd (by omega) hzero⟩

/-- What `map_frame` does to the entry that it finds. -/
theorem mapEntry_effect (hn : n ≤ 1048576) (hf : f < n)
    (h : m.mapEntry n e f perm = some (e', m')) :
    MapEffect n f perm none e e' m.references m'.references m'.freeFrameList := by
  unfold mapEntry at h
  split at h
  · next hsame =>
    obtain ⟨rfl, rfl⟩ := Prod.mk.inj (Option.some.inj h)
    refine .same hsame.1 ?_ rfl fun _ _ => rfl
    rw [frameNumber, hsame.2, ppn_toPhysicalAddress (Nat.lt_of_lt_of_le hf hn)]
  · next hother =>
    obtain ⟨⟨e₁, m₁⟩, hun, heq⟩ := Option.map_eq_some_iff.1 h
    obtain ⟨rfl, rfl⟩ := Prod.mk.inj heq
    have hrefs : ∀ g, (m₁.setReferences f ((m₁.framesInfo f).references + 1)).references g =
        if g = f then m₁.references f + 1 else m₁.references g :=
      fun g => references_setReferences f g _
    split at hun
    · next hpresent =>
      rw [unmapEntry, if_neg hpresent.ne_zero] at hun
      split at hun
      · next hlt =>
        obtain ⟨-, rfl⟩ := Prod.mk.inj (Option.some.inj hun)
        have hframe : frameNumber e ≠ f := fun heq =>
          hother ⟨hpresent, by rw [← toPhysicalAddress_frameNumber, heq]⟩
        obtain ⟨hdec, hfree⟩ := references_decrementReferences (m := m) (frameNumber e)
        refine .replaced hpresent hframe hlt rfl ⟨?_, hfree⟩ ?_ fun g hne hne' _ => ?_
        · rw [hrefs, if_neg hframe, hdec, if_pos rfl]
        · rw [hrefs, if_pos rfl, hdec, if_neg (Ne.symm hframe)]
        · rw [hrefs, if_neg hne, hdec, if_neg hne']
      · cases hun
    · next hpresent =>
      obtain ⟨-, rfl⟩ := Prod.mk.inj (Option.some.inj hun)
      refine .inserted hpresent rfl ((hrefs f).trans (if_pos rfl)) fun g hne _ => ?_
      exact (hrefs g).trans (if_neg hne)

/-- Where the contract fails, `map_frame` returns. -/
theorem exists_mapEntry (m : Memory) (hright : ¬ MapsRight n f perm e) :
    ∃ e' m', m.mapEntry n e f perm = some (e', m') := by
  unfold MapsRight at hright
  push Not at hright
  unfold mapEntry
  split
  · exact ⟨_, _, rfl⟩
  · next hother =>
    have hpresent : ¬ IsPresent e := fun hpresent => by
      have hframe := (hright.2.1 hpresent).1
      exact hother ⟨hpresent, by rw [← toPhysicalAddress_frameNumber, hframe]⟩
    rw [if_neg hpresent]
    exact ⟨_, _, rfl⟩

end Memory

/-- `kmalloc` of one page takes the first free frame, for one page of the kernel. -/
theorem KernelHeap.kmalloc_pageSize {L : KernelHeapLayout} {s s' : KernelHeap}
    (h : Invariant L s) {p : Nat} (hk : kmalloc L s pageSize = some (p, s')) (hp : p ≠ 0) :
    s'.memory.directories = s.memory.directories ∧
      (∃ g, s.memory.freeFrameList = g :: s'.memory.freeFrameList ∧
        ∀ f, f ≠ g → s'.memory.references f = s.memory.references f) ∧
      ∃ v₀, ∀ v, v ≠ v₀ → s'.kernelEntries v = s.kernelEntries v := by
  obtain ⟨j, hj, hhand⟩ := h.hand
  have hround : roundUp pageSize pageSize = pageSize * 1 := by decide
  have hdiv : pageSize * 1 / pageSize = 1 := by decide
  rw [kmalloc_eq, hround, hdiv] at hk
  split at hk
  · obtain ⟨rfl, -⟩ := Prod.mk.inj (Option.some.inj hk)
    exact absurd rfl hp
  · next hzero =>
    obtain ⟨t, ht, htn, hrun⟩ := findPlace_sound hj (prepared_hand.trans hhand) hzero
    rw [ht] at hk
    obtain ⟨s₁, hloop, hres⟩ := Option.map_eq_some_iff.1 hk
    obtain ⟨-, rfl⟩ := Prod.mk.inj hres
    have hfree := freeRun_of_emptyRun (L := L) prepared_initialized htn hrun
    cases hl : (KernelHeap.prepared L s).memory.freeFrameList with
    | nil =>
      rw [kmallocLoop_nil h.toSynced.prepared hl] at hloop
      cases hloop
    | cons g rest =>
      rw [kmallocLoop_succ h.toSynced.prepared (by omega) (hfree t le_rfl (by omega)) hl] at hloop
      obtain rfl := Option.some.inj hloop
      have hmem := prepared_memory (L := L) (s := s)
      refine ⟨?_, ⟨g, by rw [← hmem, hl]; rfl, fun f hf => ?_⟩, L.addr t / pageSize,
        fun v hv => ?_⟩
      · change (KernelHeap.prepared L s).memory.directories = _
        rw [hmem]
      · have hinfo : (mapPage L (KernelHeap.prepared L s) t t g rest).memory.framesInfo f =
            s.memory.framesInfo f := by
          rw [framesInfo_mapPage, if_neg hf, hmem]
        exact congrArg FrameInfo.references hinfo
      · exact (Function.update_of_ne hv _ _).trans (congrFun prepared_kernelEntries v)

namespace UserMemory

variable {P : Type} {L : UserLayout} {s s' : UserMemory P} {env va : Nat} {t : PageTable}

/-- The frame of the page table made for `va`, if there is none. -/
def madeTable (s : UserMemory P) (env va : Nat) : Option Nat :=
  match s.getPageTable env va with
  | some _ => none
  | none => s.heap.memory.freeFrameList.head?

/-- `map_frame` did what its contract says, and changed no other entry; the page of a new
page table is the only one of the kernel that may change. -/
structure MapsFrame (L : UserLayout) (env f va : Nat) (perm : BitVec 32) (s s' : UserMemory P) :
    Prop where
  contract : MapContract L.numberOfFrames f perm (s.madeTable env va) (s.userEntry env va)
    (s'.userEntry env va) s.heap.memory.references s'.heap.memory.references
    s'.heap.memory.freeFrameList
  entries : ∀ env' va', ¬(env' = env ∧ va' / pageSize = va / pageSize) →
    s'.userEntry env' va' = s.userEntry env' va'
  kernel : ∃ v₀, ∀ v, (s.getPageTable env va).isSome ∨ v ≠ v₀ →
    s'.heap.kernelEntries v = s.heap.kernelEntries v

/-- The table that `map_frame` writes to : a new one is empty, in the first free frame. -/
theorem FindsPageTable.made_spec (h : KernelHeap.Invariant L.toKernelHeapLayout s.heap)
    (hfinds : FindsPageTable L s env va t s') :
    s'.getPageTable env va = some t ∧ (∀ env' va', s'.userEntry env' va' = s.userEntry env' va') ∧
      (∀ g, s.madeTable env va ≠ some g →
        s'.heap.memory.references g = s.heap.memory.references g) ∧
      ∃ v₀, ∀ v, (s.getPageTable env va).isSome ∨ v ≠ v₀ →
        s'.heap.kernelEntries v = s.heap.kernelEntries v := by
  cases hfinds with
  | found ht => exact ⟨ht, fun _ _ => rfl, fun _ _ => rfl, 0, fun _ _ => rfl⟩
  | made hnone hmalloc hne =>
    obtain ⟨hdir, ⟨g, hlist, hrefs⟩, v₀, hkernel⟩ := KernelHeap.kmalloc_pageSize h hmalloc hne
    refine ⟨getPageTable_withPageTable _ _ _ _ _, userEntry_withPageTable hnone hdir _,
      fun f hf => hrefs f fun heq => hf ?_, v₀,
      fun v hv => hkernel v (hv.resolve_left (by simp [hnone]))⟩
    rw [madeTable, hnone, hlist, heq]
    rfl

theorem madeTable_of_ne_zero (hne : s.userEntry env va ≠ 0#32) : s.madeTable env va = none := by
  unfold madeTable
  cases ht : s.getPageTable env va with
  | none => exact absurd (userEntry_of_none ht) hne
  | some t => rfl

theorem madeTable_ne (hfree : f ∉ s.heap.memory.freeFrameList) :
    s.madeTable env va ≠ some f := fun heq => by
  unfold madeTable at heq
  split at heq
  · cases heq
  · exact hfree (List.mem_of_mem_head? heq)

/-- What `map_frame` of `memory_manager.c` leaves. -/
theorem mapFrame_effect (h : KernelHeap.Invariant L.toKernelHeapLayout s.heap)
    (hf : f < L.numberOfFrames) (hfree : f ∉ s.heap.memory.freeFrameList)
    (hmap : s.mapFrame L env f va perm = some s') :
    MapEffect L.numberOfFrames f perm (s.madeTable env va) (s.userEntry env va)
        (s'.userEntry env va) s.heap.memory.references s'.heap.memory.references
        s'.heap.memory.freeFrameList ∧
      (∀ env' va', ¬(env' = env ∧ va' / pageSize = va / pageSize) →
        s'.userEntry env' va' = s.userEntry env' va') ∧
      ∃ v₀, ∀ v, (s.getPageTable env va).isSome ∨ v ≠ v₀ →
        s'.heap.kernelEntries v = s.heap.kernelEntries v := by
  obtain ⟨t, s₁, e, m, htable, hentry, rfl⟩ := mapFrame_eq_some hmap
  obtain ⟨ht, hsame, hrefs, v₀, hkernel⟩ := htable.made_spec h
  have htables := (Memory.sameTables_mapEntry hentry).1
  have hset : ∀ env' va', (s₁.setMemory (m.setEntry env va t e)).userEntry env' va' =
      if env' = env ∧ va' / pageSize = va / pageSize then e else s.userEntry env' va' :=
    fun env' va' => by rw [userEntry_setEntry ht htables.directories, hsame]
  rw [← userEntry_of_some ht, hsame] at hentry
  have heffect := Memory.mapEntry_effect L.numberOfFrames_le hf hentry
  refine ⟨?_, fun env' va' hat => (hset env' va').trans (if_neg hat), v₀, hkernel⟩
  rw [hset env va, if_pos ⟨rfl, rfl⟩]
  exact heffect.of_made (madeTable_ne hfree) madeTable_of_ne_zero hrefs

/-- Where the contract fails, `map_frame` returns. -/
theorem exists_mapFrame (hright : ¬MapsRight L.numberOfFrames f perm (s.userEntry env va)) :
    ∃ s', s.mapFrame L env f va perm = some s' := by
  -- the entry is not zero, so its table is there
  have hne : s.userEntry env va ≠ 0#32 := fun h0 => hright (Or.inl h0)
  cases ht : s.getPageTable env va with
  | none => exact absurd (userEntry_of_none ht) hne
  | some t =>
    obtain ⟨e', m', hentry⟩ := s.heap.memory.exists_mapEntry hright
    refine ⟨s.setMemory (m'.setEntry env va t e'), ?_⟩
    rw [userEntry_of_some ht] at hentry
    unfold mapFrame getOrCreatePageTable
    rw [ht]
    exact congrArg (Option.bind · _) hentry

/-- When `map_frame` of `memory_manager.c` does what its contract says. -/
theorem mapsFrame_iff (h : KernelHeap.Invariant L.toKernelHeapLayout s.heap)
    (hf : f < L.numberOfFrames) (hfree : f ∉ s.heap.memory.freeFrameList) (hp : IsPerm perm) :
    (∀ s', s.mapFrame L env f va perm = some s' → MapsFrame L env f va perm s s') ↔
      MapsRight L.numberOfFrames f perm (s.userEntry env va) := by
  refine forall_iff_of_returns (fun s' hmap => ?_) exists_mapFrame
  obtain ⟨heffect, hentries, hkernel⟩ := mapFrame_effect h hf hfree hmap
  have hcontract := heffect.contract_iff hf hp (madeTable_ne hfree) madeTable_of_ne_zero
  exact ⟨fun hm => hcontract.1 hm.contract, fun hright =>
    ⟨hcontract.2 hright, hentries, hkernel⟩⟩

end UserMemory

/-! ## `kern/memory_manager.c` -/

namespace KernMemory

variable {m m₀ m' : KernMemory} {d t va : Nat}

/-- The frame of the page table made for `va`, if there is none. -/
def madeTable (m : KernMemory) (d va : Nat) : Option Nat :=
  match tableOf m.words d (pdx va) with
  | some _ => none
  | none => m.freeFrameList.head?

/-- `map_frame` did what its contract says, and changed no other word; a new page table has
no other entry. -/
structure MapsFrame (n d f va : Nat) (perm : BitVec 32) (m m' : KernMemory) : Prop where
  contract : MapContract n f perm (m.madeTable d va) (entryAt m.words d (pdx va) (ptx va))
    (entryAt m'.words d (pdx va) (ptx va)) m.references m'.references m'.freeFrameList
  words : ∀ g i, ¬(tableOf m'.words d (pdx va) = some g ∧ i = ptx va) →
    (∀ t, m.madeTable d va = some t → g ≠ t ∧ ¬(g = d ∧ i = pdx va)) →
      m'.words g i = m.words g i
  table : ∀ t, m.madeTable d va = some t → tableOf m'.words d (pdx va) = some t ∧
    ∀ i, i ≠ ptx va → m'.words t i = 0#32

/-- A directory is not a free frame, nor the table that its entry for `va` names. -/
structure DirectoryOk (n d va : Nat) (m : KernMemory) : Prop where
  notFree : d ∉ m.freeFrameList
  free : ∀ g ∈ m.freeFrameList, g < n
  table : ∀ t, tableOf m.words d (pdx va) = some t → t < n ∧ t ≠ d

theorem getPageTable_found (ht : tableOf m.words d (pdx va) = some t) (hlt : t < n)
    (create : Bool) : m.getPageTable n d va create = some ((.ok, some t), m) := by
  unfold tableOf at ht
  split at ht
  · cases ht
  · next h0 =>
    obtain rfl := Option.some.inj ht
    have hvirtual : Boot.kVirtualFrame n (extractAddress (m.words d (pdx va))) =
        some (frameNumber (m.words d (pdx va))) := if_pos hlt
    simp [getPageTable, hvirtual, h0]

theorem references_insertEntry (g : Nat) : (m.insertEntry t va f perm).references g =
    if g = f then m.references f + 1 else m.references g := by
  simp [insertEntry, setReferences, setWord, Function.update_apply]

theorem words_insertEntry (g i : Nat) : (m.insertEntry t va f perm).words g i =
    if g = t ∧ i = ptx va then constructEntry (toPhysicalAddress f) (perm ||| permPresent)
    else m.words g i :=
  writeWord_apply _ _ _ _ _ _

/-- `unmap_frame` of an entry that is not zero : it is cleared, and its frame loses a
reference. -/
theorem unmapFrame_found (ht : tableOf m.words d (pdx va) = some t) (hlt : t < n)
    (h0 : m.words t (ptx va) ≠ 0#32) (h : m.unmapFrame n d va = some m') :
    frameNumber (m.words t (ptx va)) < n ∧
      (∀ g, m'.references g = if g = frameNumber (m.words t (ptx va)) then
        m.references (frameNumber (m.words t (ptx va))) - 1 else m.references g) ∧
      (m.references (frameNumber (m.words t (ptx va))) = 1 →
        frameNumber (m.words t (ptx va)) ∈ m'.freeFrameList) ∧
      ∀ g i, ¬(g = t ∧ i = ptx va) → m'.words g i = m.words g i := by
  have hget := getPageTable_found ht hlt false
  by_cases hframe : frameNumber (m.words t (ptx va)) < n
  · have hinfo : toFrameInfo n (extractAddress (m.words t (ptx va))) =
        some (frameNumber (m.words t (ptx va))) := if_pos hframe
    simp [unmapFrame, getFrameInfo, hget, h0, hinfo] at h
    subst h
    refine ⟨hframe, fun g => ?_, fun hone => ?_, fun g i hat => ?_⟩
    · rw [setWord, Inv.decrementReferences_references, Function.update_apply]
    · rcases Inv.decrementReferences_cases m (frameNumber (m.words t (ptx va))) with
        ⟨-, heq⟩ | ⟨hmany, -⟩
      · rw [setWord, heq]
        exact List.mem_cons_self
      · exact absurd hone hmany
    · refine (writeWord_apply _ _ _ _ _ _).trans ((if_neg hat).trans ?_)
      rw [Inv.decrementReferences_words]
  · have hinfo : toFrameInfo n (extractAddress (m.words t (ptx va))) = none := if_neg hframe
    simp [unmapFrame, getFrameInfo, hget, h0, hinfo] at h

/-- What `map_frame` does once it has found the table. -/
theorem mapFrame_effect_of_table (hn : n ≤ 1048576) (hf : f < n)
    (ht : tableOf m.words d (pdx va) = some t) (hlt : t < n)
    (hget : m₀.getPageTable n d va true = some ((.ok, some t), m))
    (hmap : m₀.mapFrame n d f va perm = some (.ok, m')) :
    MapEffect n f perm none (m.words t (ptx va)) (m'.words t (ptx va)) m.references m'.references
        m'.freeFrameList ∧
      ∀ g i, ¬(g = t ∧ i = ptx va) → m'.words g i = m.words g i := by
  unfold mapFrame at hmap
  simp only [hget, Option.bind_eq_bind, Option.bind_some] at hmap
  split at hmap
  · next hpresent =>
    split at hmap
    · next hsame =>
      obtain ⟨-, rfl⟩ := Prod.mk.inj (Option.some.inj hmap)
      refine ⟨.same hpresent ?_ rfl fun _ _ => rfl, fun _ _ _ => rfl⟩
      rw [frameNumber, hsame, ppn_toPhysicalAddress (Nat.lt_of_lt_of_le hf hn)]
    · next hother =>
      obtain ⟨m₁, hun, hmap⟩ := Option.bind_eq_some_iff.1 hmap
      obtain ⟨-, rfl⟩ := Prod.mk.inj (Option.some.inj hmap)
      obtain ⟨hframe, hrefs, hlast, hwords⟩ := unmapFrame_found ht hlt hpresent.ne_zero hun
      have hne : frameNumber (m.words t (ptx va)) ≠ f := fun heq =>
        hother (by rw [← toPhysicalAddress_frameNumber, heq])
      refine ⟨.replaced hpresent hne hframe ?_ ⟨?_, hlast⟩ ?_ fun g hg hg' _ => ?_,
        fun g i hat => ?_⟩
      · rw [words_insertEntry, if_pos ⟨rfl, rfl⟩]
      · rw [references_insertEntry, if_neg hne, hrefs, if_pos rfl]
      · rw [references_insertEntry, if_pos rfl, hrefs, if_neg (Ne.symm hne)]
      · rw [references_insertEntry, if_neg hg, hrefs, if_neg hg']
      · rw [words_insertEntry, if_neg hat, hwords g i hat]
  · next hpresent =>
    obtain ⟨-, rfl⟩ := Prod.mk.inj (Option.some.inj hmap)
    refine ⟨.inserted hpresent ?_ ?_ fun g hne _ => ?_, fun g i hat => ?_⟩
    · rw [words_insertEntry, if_pos ⟨rfl, rfl⟩]
    · rw [references_insertEntry, if_pos rfl]
    · rw [references_insertEntry, if_neg hne]
    · rw [words_insertEntry, if_neg hat]

theorem madeTable_of_ne_zero (hne : entryAt m.words d (pdx va) (ptx va) ≠ 0#32) :
    m.madeTable d va = none := by
  unfold madeTable
  cases ht : tableOf m.words d (pdx va) with
  | none => exact absurd (by simp [entryAt, ht]) hne
  | some t => rfl

theorem madeTable_ne (hfree : f ∉ m.freeFrameList) : m.madeTable d va ≠ some f := fun heq => by
  unfold madeTable at heq
  split at heq
  · cases heq
  · exact hfree (List.mem_of_mem_head? heq)

/-- The table that `get_page_table` makes is empty, in the first free frame. -/
theorem getPageTable_made (hn : n ≤ 1048576) (hd : DirectoryOk n d va m)
    (ht : tableOf m.words d (pdx va) = none) {table : Option Nat}
    (hget : m.getPageTable n d va true = some ((.ok, table), m')) :
    ∃ g, m.madeTable d va = some g ∧ table = some g ∧ g < n ∧ g ≠ d ∧
      tableOf m'.words d (pdx va) = some g ∧ (∀ i, m'.words g i = 0#32) ∧
      (∀ h, h ≠ g → m'.references h = m.references h) ∧
      ∀ h i, h ≠ g → ¬(h = d ∧ i = pdx va) → m'.words h i = m.words h i := by
  have h0 : m.words d (pdx va) = 0#32 := by
    by_contra h0
    simp [tableOf, h0] at ht
  unfold getPageTable at hget
  obtain ⟨frame, -, hget⟩ := Option.bind_eq_some_iff.1 hget
  simp only [h0, if_true, allocateFrame] at hget
  cases hl : m.freeFrameList with
  | nil => simp [hl] at hget
  | cons g rest =>
    have hlt := hd.free g (by simp [hl])
    have hgd : g ≠ d := fun heq => hd.notFree (by simp [hl, heq])
    have hvirtual : Boot.kVirtualFrame n (toPhysicalAddress g) = some g := by
      rw [Boot.kVirtualFrame, ppn_toPhysicalAddress (Nat.lt_of_lt_of_le hlt hn), if_pos hlt]
    simp only [hl, hvirtual, Option.bind_eq_bind, Option.bind_some, Option.some.injEq,
      Prod.mk.injEq, true_and] at hget
    obtain ⟨rfl, rfl⟩ := hget
    have hp : IsPerm (permPresent ||| permUser ||| permWriteable) := by decide
    have hperm : permPresent ||| permUser ||| permWriteable =
        (permUser ||| permWriteable) ||| permPresent := by decide
    have hentry : constructEntry (toPhysicalAddress g)
        (permPresent ||| permUser ||| permWriteable) ≠ 0#32 := by
      rw [hperm]
      exact (isPresent_constructEntry _ _).ne_zero
    have hwords : ∀ h i, (setWord (setReferences (clearFrame { m.setReferences g 0 with
        freeFrameList := rest } g) g 1) d (pdx va) (constructEntry (toPhysicalAddress g)
          (permPresent ||| permUser ||| permWriteable))).words h i =
        if h = d ∧ i = pdx va then
          constructEntry (toPhysicalAddress g) (permPresent ||| permUser ||| permWriteable)
        else if h = g then 0#32 else m.words h i := fun h i => by
      refine (writeWord_apply _ _ _ _ _ _).trans ?_
      split
      · rfl
      · exact clearWords_apply _ _ _ _
    refine ⟨g, by simp [madeTable, ht, hl], rfl, hlt, hgd, ?_, fun i => ?_, fun h hne => ?_,
      fun h i hne hat => ?_⟩
    · have hself := (hwords d (pdx va)).trans (if_pos ⟨rfl, rfl⟩)
      rw [tableOf, hself, if_neg hentry,
        frameNumber_constructEntry (Nat.lt_of_lt_of_le hlt hn) hp]
    · rw [hwords, if_neg fun hat => hgd hat.1, if_pos rfl]
    · refine (Function.update_of_ne hne _ _).trans ?_
      exact Function.update_of_ne hne _ _
    · rw [hwords, if_neg hat, if_neg hne]

/-- What `map_frame` of `kern/memory_manager.c` leaves. -/
theorem mapFrame_effect (hn : n ≤ 1048576) (hd : DirectoryOk n d va m) (hf : f < n)
    (hfree : f ∉ m.freeFrameList) (hmap : m.mapFrame n d f va perm = some (.ok, m')) :
    MapEffect n f perm (m.madeTable d va) (entryAt m.words d (pdx va) (ptx va))
        (entryAt m'.words d (pdx va) (ptx va)) m.references m'.references m'.freeFrameList ∧
      (∀ g i, ¬(tableOf m'.words d (pdx va) = some g ∧ i = ptx va) →
        (∀ t, m.madeTable d va = some t → g ≠ t ∧ ¬(g = d ∧ i = pdx va)) →
          m'.words g i = m.words g i) ∧
      ∀ t, m.madeTable d va = some t → tableOf m'.words d (pdx va) = some t ∧
        ∀ i, i ≠ ptx va → m'.words t i = 0#32 := by
  -- the directory entry is not a word of the table
  have hkeeps : ∀ {m₁ : KernMemory} {t : Nat}, t ≠ d → tableOf m₁.words d (pdx va) = some t →
      (∀ g i, ¬(g = t ∧ i = ptx va) → m'.words g i = m₁.words g i) →
      tableOf m'.words d (pdx va) = some t := fun hne ht hwords => by
    rw [tableOf, hwords d (pdx va) fun hat => hne hat.1.symm]
    exact ht
  cases ht : tableOf m.words d (pdx va) with
  | some t =>
    obtain ⟨hlt, hne⟩ := hd.table t ht
    have hnone : m.madeTable d va = none := by simp [madeTable, ht]
    obtain ⟨heffect, hwords⟩ := mapFrame_effect_of_table hn hf ht hlt
      (getPageTable_found ht hlt true) hmap
    have ht' := hkeeps hne ht hwords
    rw [entryAt_of_some ht, entryAt_of_some ht', hnone, ht']
    refine ⟨heffect, fun g i hat _ => hwords g i fun hat' => hat ⟨?_, hat'.2⟩, fun t ht => ?_⟩
    · rw [hat'.1]
    · cases ht
  | none =>
    obtain ⟨⟨⟨status, table⟩, m₁⟩, hget, hrest⟩ := Option.bind_eq_some_iff.1 hmap
    cases status with
    | noMem => simp at hrest
    | ok =>
      obtain ⟨g, hmade, rfl, hlt, hne, ht₁, hzero, hrefs, hwords₁⟩ :=
        getPageTable_made hn hd ht hget
      obtain ⟨heffect, hwords⟩ := mapFrame_effect_of_table hn hf ht₁ hlt hget hmap
      have ht' := hkeeps hne ht₁ hwords
      have hentry : entryAt m.words d (pdx va) (ptx va) = 0#32 := by simp [entryAt, ht]
      rw [hzero, ← hentry] at heffect
      rw [entryAt_of_some ht', ht', hmade]
      refine ⟨heffect.of_made (hmade ▸ madeTable_ne hfree) (fun h0 => absurd hentry h0)
        fun h hh => hrefs h fun heq => hh (heq ▸ rfl), fun h i hat hother => ?_, fun t ht => ?_⟩
      · obtain ⟨hhg, hhd⟩ := hother g rfl
        exact (hwords h i fun hat' => hhg hat'.1).trans (hwords₁ h i hhg hhd)
      · obtain rfl := Option.some.inj ht
        exact ⟨rfl, fun i hi => (hwords g i fun hat => hi hat.2).trans (hzero i)⟩

/-- Where the contract fails, `map_frame` returns 0. -/
theorem exists_mapFrame (hd : DirectoryOk n d va m)
    (hright : ¬ MapsRight n f perm (entryAt m.words d (pdx va) (ptx va))) :
    ∃ m', m.mapFrame n d f va perm = some (.ok, m') := by
  cases ht : tableOf m.words d (pdx va) with
  | none => exact absurd (Or.inl (by simp [entryAt, ht])) hright
  | some t =>
    rw [entryAt_of_some ht] at hright
    have hget := getPageTable_found ht (hd.table t ht).1 true
    unfold MapsRight at hright
    push Not at hright
    by_cases hpresent : IsPresent (m.words t (ptx va))
    · have hframe := (hright.2.1 hpresent).1
      have hsame : extractAddress (m.words t (ptx va)) = toPhysicalAddress f := by
        rw [← toPhysicalAddress_frameNumber, hframe]
      exact ⟨m, by simp [mapFrame, hget, hpresent, hsame]⟩
    · exact ⟨m.insertEntry t va f perm, by simp [mapFrame, hget, hpresent]⟩

/-- When `map_frame` of `kern/memory_manager.c` does what its contract says. -/
theorem mapsFrame_iff (hn : n ≤ 1048576) (hd : DirectoryOk n d va m) (hf : f < n)
    (hfree : f ∉ m.freeFrameList) (hp : IsPerm perm) :
    (∀ m', m.mapFrame n d f va perm = some (.ok, m') → MapsFrame n d f va perm m m') ↔
      MapsRight n f perm (entryAt m.words d (pdx va) (ptx va)) := by
  refine forall_iff_of_returns (fun m' hmap => ?_) (exists_mapFrame hd)
  obtain ⟨heffect, hwords, htable⟩ := mapFrame_effect hn hd hf hfree hmap
  have hcontract := heffect.contract_iff hf hp (madeTable_ne hfree) madeTable_of_ne_zero
  exact ⟨fun hm => hcontract.1 hm.contract, fun hright =>
    ⟨hcontract.2 hright, hwords, htable⟩⟩

end KernMemory

/-! ## Both -/

/-- Five frames, and the user addresses of the kernel. -/
def smallMapLayout : UserLayout where
  toKernelHeapLayout := KernelHeap.smallLayout
  userTop := 0xEF800000
  ustackBottom := 0xEEBFA000
  ustackTop := 0xEEBFE000
  userTop_lt := userTop_lt_fos

/-- Frame 1 is allocated, and the entry of 0x800000 is `e`. -/
def UserMemory.withEntry (e : Entry) : UserMemory Unit where
  heap :=
    { KernelHeap.smallHeap with
      memory :=
        { framesInfo := fun f => if f = 1 then ⟨1, false, 0, 0⟩ else initializeFrameInfo
          freeFrameList := [4, 3, 2]
          directories := fun env i => if env = 0 ∧ i = 2 then some ⟨0, fun _ => e⟩ else none } }
  envs _ := ⟨[], 0⟩
  pageFile := ()
  bytes _ _ := 0#8
  pageRepAlgoType := .modifiedClock
  lastClockIndex := 0

theorem UserMemory.withEntry_invariant (e : Entry) :
    KernelHeap.Invariant smallMapLayout.toKernelHeapLayout (withEntry e).heap := by
  have hlist : (withEntry e).heap.memory.freeFrameList = [4, 3, 2] := rfl
  refine KernelHeap.Boot.invariant ⟨fun _ => rfl, rfl, rfl, fun _ _ => rfl, ?_, ?_, fun f hf => ?_⟩
  · rw [hlist]
    decide
  · rw [hlist]
    decide
  · have hne : f ≠ 1 := fun heq => by simp [hlist, heq] at hf
    simp [withEntry, hne, initializeFrameInfo]

theorem UserMemory.withEntry_notFree {e : Entry} :
    1 ∉ (withEntry e).heap.memory.freeFrameList := by
  simp [withEntry]

/-- The same with the directory in frame 2 and the page table in frame 3. -/
def KernMemory.withEntry (e : Entry) : KernMemory where
  references f := if f = 1 ∨ f = 3 then 1 else 0
  freeFrameList := [4]
  words g i :=
    if g = 2 ∧ i = 2 then constructEntry (toPhysicalAddress 3) (permPresent ||| permUser)
    else if g = 3 ∧ i = 0 then e
    else 0#32

theorem KernMemory.withEntry_notFree {e : Entry} : 1 ∉ (withEntry e).freeFrameList := by
  simp [withEntry]

theorem KernMemory.withEntry_table (e : Entry) :
    tableOf (withEntry e).words 2 (pdx 0x800000) = some 3 := by
  have hentry : (withEntry e).words 2 (pdx 0x800000) =
      constructEntry (toPhysicalAddress 3) (permPresent ||| permUser) := rfl
  rw [tableOf, hentry]
  decide

theorem KernMemory.withEntry_directoryOk (e : Entry) :
    DirectoryOk 5 2 0x800000 (withEntry e) := by
  refine ⟨by simp [withEntry], by simp [withEntry], fun t ht => ?_⟩
  obtain rfl := Option.some.inj ((withEntry_table e).symm.trans ht)
  decide

end FosKernel
