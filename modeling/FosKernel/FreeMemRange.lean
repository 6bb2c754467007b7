import FosKernel.PageTableRemoval
import FosKernel.WorkingSetInvariant

/-!
# The range that freeMem removes

`freeMem` goes three times over the range it is given : over the page file, over the slots
of the working set, and over the page tables. `RemovesRange` says that the three agree : the
pages of the range are gone from all of them, those outside are as they were, and the page
tables freed are the ones the range overlaps that have no non-zero entry left.

`freeMem_removesRange` : this is what `freeMem` of an aligned range below `USER_TOP` does, in
any state where the working set tracks the resident pages and the page tables are blocks of
one heap page each. It returns if the entries of the resident pages name frames.
-/

namespace FosKernel

/-- Removing a page from the page file takes its copy away, and leaves the others. -/
def PageFile.RemovesPages {P : Type} (pf : PageFile P) : Prop :=
  ∀ (p : P) (env : Nat) {va : Nat}, va % pageSize = 0 → ∀ env' va', va' % pageSize = 0 →
    pf.readEnvPage (pf.removeEnvPage p env va) env' va' =
      if env' = env ∧ va' = va then none else pf.readEnvPage p env' va'

/-- The occupied slots, in order. -/
def Env.elements (e : Env) : List WorkingSetElement :=
  e.ptrPageWorkingSet.filter fun x => !x.empty

namespace UserMemory

open KernelHeap (entry NonEmpty)

variable {P : Type} {L : UserLayout} {pf : PageFile P} {s s' : UserMemory P}
  {env va size : Nat}

/-- The address lies in the range. -/
def OfRange (va size a : Nat) : Prop :=
  va ≤ a ∧ a < va + size

instance (va size a : Nat) : Decidable (OfRange va size a) :=
  inferInstanceAs (Decidable (_ ∧ _))

/-- From `s` to `s'` the pages of the range were removed from the environment. -/
structure RemovesRange (L : UserLayout) (pf : PageFile P) (s s' : UserMemory P)
    (env va size : Nat) : Prop where
  gone : ∀ a, a % pageSize = 0 → OfRange va size a →
    ¬pf.Has s'.pageFile env a ∧ ¬s'.Mapped env a ∧ a ∉ (s'.envs env).addresses
  copies : ∀ e a, a % pageSize = 0 → ¬(e = env ∧ OfRange va size a) →
    pf.readEnvPage s'.pageFile e a = pf.readEnvPage s.pageFile e a
  mappings : ∀ e a, ¬(e = env ∧ OfRange va size a) → s'.userEntry e a = s.userEntry e a
  elements : (s'.envs env).elements =
    (s.envs env).elements.filter fun x => ¬OfRange va size x.virtualAddress
  pageWSMaxSize : (s'.envs env).pageWSMaxSize = (s.envs env).pageWSMaxSize
  lastIndex : (s'.envs env).pageLastWSIndex =
    (s'.envs env).elements.length % (s'.envs env).pageWSMaxSize
  others : ∀ e, e ≠ env → s'.envs e = s.envs e
  cleared_iff : ∀ k t, s.heap.memory.directories env k = some t →
    (s'.heap.memory.directories env k = none ↔
      (∃ a, OfRange va size a ∧ pdx a = k) ∧ ∀ a, pdx a = k → s'.userEntry env a = 0#32)
  freed : ∀ k t i, s.heap.memory.directories env k = some t →
    s'.heap.memory.directories env k = none → TableBlock L.toKernelHeapLayout s.heap t i →
      ¬NonEmpty s'.heap i ∧ entry L.toKernelHeapLayout s'.heap i = 0#32
  inPlace : ∀ e k t i, s.heap.memory.directories e k = some t →
    ¬(e = env ∧ s'.heap.memory.directories e k = none) →
      TableBlock L.toKernelHeapLayout s.heap t i →
        ∃ t', s'.heap.memory.directories e k = some t' ∧
          TableBlock L.toKernelHeapLayout s'.heap t' i
  noNew : ∀ e k, s.heap.memory.directories e k = none → s'.heap.memory.directories e k = none

/-! ## The page file -/

theorem freeAllPagees_read (hremoves : pf.RemovesPages) :
    ∀ (noOfPages : Nat) {va : Nat} (p : P), va % pageSize = 0 →
      ∀ e a, a % pageSize = 0 → pf.readEnvPage (freeAllPagees pf env va noOfPages p) e a =
        if e = env ∧ va ≤ a ∧ a < va + pageSize * noOfPages then none else pf.readEnvPage p e a
  | 0, va, p, _, e, a, _ => by
    rw [freeAllPagees, if_neg (by omega)]
  | noOfPages + 1, va, p, hva, e, a, ha => by
    have hva' : (va + pageSize) % pageSize = 0 := by rw [Nat.add_mod_right, hva]
    rw [freeAllPagees, freeAllPagees_read hremoves noOfPages _ hva' e a ha,
      hremoves p env hva e a ha, ← ite_or]
    refine if_congr ?_ rfl rfl
    rw [← and_or_left]
    refine and_congr_right fun _ => ?_
    unfold pageSize at *
    omega

/-! ## The working set -/

/-- `unmap_frame` returns if the entry is zero or names a frame. -/
theorem exists_unmapFrame {a : Nat} (h : s.userEntry env a = 0#32 ∨
    frameNumber (s.userEntry env a) < L.numberOfFrames) : ∃ s₁, s.unmapFrame L env a = some s₁ := by
  unfold unmapFrame
  cases ht : s.getPageTable env a with
  | none => exact ⟨s, rfl⟩
  | some t =>
    rw [userEntry_of_some ht] at h
    unfold Memory.unmapEntry
    rcases h with hzero | hframe
    · exact ⟨_, by simp only [if_pos hzero]; rfl⟩
    · by_cases hzero : t.entries (ptx a) = 0#32
      · exact ⟨_, by simp only [if_pos hzero]; rfl⟩
      · exact ⟨_, by simp only [if_neg hzero, if_pos hframe]; rfl⟩

/-- The loop returns if the entries of the pages in the slots are zero or name frames. -/
theorem freeResidentPagesLoop_isSome :
    ∀ (ws : List WorkingSetElement) {s : UserMemory P},
      (∀ x ∈ ws, x.empty = false → s.userEntry env x.virtualAddress = 0#32 ∨
        frameNumber (s.userEntry env x.virtualAddress) < L.numberOfFrames) →
      (freeResidentPagesLoop L env va size ws s).isSome
  | [], s, _ => rfl
  | x :: rest, s, h => by
    have hrest : ∀ y ∈ rest, y.empty = false → s.userEntry env y.virtualAddress = 0#32 ∨
        frameNumber (s.userEntry env y.virtualAddress) < L.numberOfFrames := fun y hy =>
      h y (List.mem_cons_of_mem x hy)
    unfold freeResidentPagesLoop
    dsimp only
    split
    · next hin =>
      have hx := h x List.mem_cons_self hin.1
      rw [← userEntry_of_div_eq (roundDown_div x.virtualAddress)] at hx
      obtain ⟨s₁, hun⟩ := exists_unmapFrame hx
      rw [hun, Option.bind_eq_bind, Option.bind_some]
      refine freeResidentPagesLoop_isSome rest fun y hy hempty => ?_
      rw [userEntry_unmapFrame hun]
      split_ifs
      · exact Or.inl rfl
      · exact hrest y hy hempty
    · obtain ⟨⟨kept, s₁⟩, hloop⟩ :=
        Option.isSome_iff_exists.1 (freeResidentPagesLoop_isSome rest hrest)
      rw [hloop]
      rfl

theorem elements_compacted {e : Env} {kept : List WorkingSetElement}
    (hkept : ∀ x ∈ kept, x.empty = false) : (e.compacted kept).elements = kept := by
  have hfilter : kept.filter (fun x => !x.empty) = kept :=
    List.filter_eq_self.2 fun x hx => by simp [hkept x hx]
  simp [Env.elements, Env.compacted, List.filter_append, hfilter, WorkingSetElement.cleared]

theorem inRange_iff (htop : va + size ≤ L.userTop) {a : Nat} (ha : a % pageSize = 0) :
    inRange va size a = true ↔ OfRange va size a := by
  have hlt := L.userTop_lt
  have hwrap : u32 (va + size) = va + size := Nat.mod_eq_of_lt (by omega)
  rw [inRange, decide_eq_true_eq, roundDown_of_aligned ha, hwrap]
  rfl

/-- An address whose page leaves the working set lies in the range. -/
theorem ofRange_of_leaves (hok : (s.envs env).Tracks (s.resident L env)) (hva : va % pageSize = 0)
    (hsize : size % pageSize = 0) (htop : va + size ≤ L.userTop) {a : Nat}
    (h : Leaves va size (s.envs env).ptrPageWorkingSet a) : OfRange va size a := by
  obtain ⟨b, hb, hin, hpage⟩ := h
  have hbres := (hok.mem_iff b).2 (Env.mem_addresses.1 hb)
  obtain ⟨hlo, hhi⟩ := (inRange_iff htop hbres.1).1 hin
  have hbpage := hbres.1
  unfold OfRange pageSize at *
  omega

/-- The slots that stay are the occupied ones with an address outside the range. -/
theorem filter_stays (hok : (s.envs env).Tracks (s.resident L env)) (htop : va + size ≤ L.userTop) :
    (s.envs env).ptrPageWorkingSet.filter (stays va size) =
      (s.envs env).elements.filter fun x => ¬OfRange va size x.virtualAddress := by
  rw [Env.elements, List.filter_filter]
  refine List.filter_congr fun x hx => ?_
  cases hempty : x.empty with
  | true => simp [stays, hempty]
  | false =>
    have hmem : x.virtualAddress ∈ (s.envs env).addresses :=
      List.mem_filterMap.2 ⟨x, hx, Env.address?_eq_some.2 ⟨hempty, rfl⟩⟩
    have hiff := inRange_iff htop ((hok.mem_iff _).2 (Env.mem_addresses.1 hmem)).1
    by_cases hin : OfRange va size x.virtualAddress
    · simp [stays, hempty, hin, hiff.2 hin]
    · simp [stays, hempty, hin, mt hiff.1 hin]

/-! ## What is left -/

theorem FreeMemEffect.read (h : FreeMemEffect pf env va size s s') (hremoves : pf.RemovesPages)
    (hva : va % pageSize = 0) (hsize : size % pageSize = 0) (e a : Nat) (ha : a % pageSize = 0) :
    pf.readEnvPage s'.pageFile e a =
      if e = env ∧ OfRange va size a then none else pf.readEnvPage s.pageFile e a := by
  have hpages : pageSize * (size / pageSize) = size := by
    unfold pageSize at *
    omega
  rw [h.pageFile, freeAllPagees_read hremoves _ _ hva e a ha, hpages]
  rfl

theorem FreeMemEffect.envs_ofRange (h : FreeMemEffect pf env va size s s')
    (hok : (s.envs env).Tracks (s.resident L env)) (htop : va + size ≤ L.userTop) :
    s'.envs env = (s.envs env).compacted
      ((s.envs env).elements.filter fun x => ¬OfRange va size x.virtualAddress) := by
  rw [h.envs_same, filter_stays hok htop]

theorem FreeMemEffect.elements (h : FreeMemEffect pf env va size s s')
    (hok : (s.envs env).Tracks (s.resident L env)) (htop : va + size ≤ L.userTop) :
    (s'.envs env).elements =
      (s.envs env).elements.filter fun x => ¬OfRange va size x.virtualAddress := by
  rw [h.envs_ofRange hok htop, elements_compacted]
  intro x hx
  have hoccupied := (List.mem_filter.1 (List.mem_filter.1 hx).1).2
  simpa using hoccupied

/-- A page of the range was in the working set if it was mapped, and has no entry then. -/
theorem FreeMemEffect.not_mapped (h : FreeMemEffect pf env va size s s')
    (hok : (s.envs env).Tracks (s.resident L env)) (htop : va + size ≤ L.userTop) {a : Nat}
    (ha : a % pageSize = 0) (hin : OfRange va size a) : ¬s'.Mapped env a := by
  intro hmapped
  obtain ⟨hmapped, hstays⟩ := (h.mapped_iff env a).1 hmapped
  have hbelow := hin.2
  have hslot := (hok.mem_iff a).1 ⟨ha, by omega, hmapped⟩
  exact hstays ⟨rfl, a, Env.mem_addresses.2 hslot, (inRange_iff htop ha).2 hin, rfl⟩

/-! ## freeMem -/

/-- The slots of the directory that the loop over the pages of the range visits. -/
theorem visited_iff (hva : va % pageSize = 0) (hsize : size % pageSize = 0) (k : Nat) :
    (∃ i < size / pageSize, pdx (va + pageSize * i) = k) ↔
      ∃ a, OfRange va size a ∧ pdx a = k := by
  constructor
  · rintro ⟨i, hi, rfl⟩
    refine ⟨_, ⟨Nat.le_add_right .., ?_⟩, rfl⟩
    unfold pageSize at *
    omega
  · rintro ⟨a, ⟨hlo, hhi⟩, rfl⟩
    have hpage : (va + pageSize * ((a - va) / pageSize)) / pageSize = a / pageSize := by
      unfold pageSize at *
      omega
    refine ⟨(a - va) / pageSize, ?_, (pdx_ptx_iff.2 hpage).1⟩
    unfold pageSize at *
    omega

/-- `freeMem` unmaps pages, and then drops the empty page tables that a page of the range lies
in. -/
theorem freeMem_drops (htables : TablesOk L s) (h : s.freeMem L pf env va size = some s') :
    ∃ s₁ e, Unmaps s s₁ ∧ Drops L env (s₁.setEnv env e) s' ∧
      ∀ k t, s₁.heap.memory.directories env k = some t →
        (s'.heap.memory.directories env k = none ↔
          (∃ i < size / pageSize, pdx (va + pageSize * i) = k) ∧ ZeroTable t) := by
  obtain ⟨s₁, hunmaps, -, -, hremove⟩ := freeMem_cases h
  have htables₁ := htables.unmaps hunmaps
  have htables₂ : TablesOk L (s₁.setEnv env ((s.envs env).compacted
      ((s.envs env).ptrPageWorkingSet.filter (stays va size)))) :=
    ⟨htables₁.backed, htables₁.distinct⟩
  obtain ⟨s₂, hloop, hdrops, hcleared⟩ :=
    removeEmptyNonUsedPages_drops (size / pageSize) va htables₂
  obtain rfl := Option.some.inj (hloop.symm.trans hremove)
  exact ⟨s₁, _, hunmaps, hdrops, hcleared⟩

section Tables

variable {s₁ : UserMemory P} {e : Env} {env' k i : Nat} {t : PageTable}

/-- A table that `freeMem` drops leaves no block and no mapping. -/
theorem freed_of_drops (hunmaps : Unmaps s s₁) (hdrops : Drops L env (s₁.setEnv env e) s')
    (ht : s.heap.memory.directories env k = some t)
    (hnone : s'.heap.memory.directories env k = none)
    (hb : TableBlock L.toKernelHeapLayout s.heap t i) :
    ¬NonEmpty s'.heap i ∧ entry L.toKernelHeapLayout s'.heap i = 0#32 := by
  obtain ⟨t₁, ht₁, hframe⟩ := hunmaps.exists_some ht
  have hb₁ := hb.unmaps hunmaps hframe
  exact hdrops.freed k t₁ i ht₁ hnone hb₁

/-- A table that `freeMem` does not drop keeps its slot and its block. -/
theorem inPlace_of_drops (htables : TablesOk L s) (hunmaps : Unmaps s s₁)
    (hdrops : Drops L env (s₁.setEnv env e) s')
    (ht : s.heap.memory.directories env' k = some t)
    (hstays : ¬(env' = env ∧ s'.heap.memory.directories env' k = none))
    (hb : TableBlock L.toKernelHeapLayout s.heap t i) :
    ∃ t', s'.heap.memory.directories env' k = some t' ∧
      TableBlock L.toKernelHeapLayout s'.heap t' i := by
  obtain ⟨t₁, ht₁, hframe⟩ := hunmaps.exists_some ht
  have ht' : s'.heap.memory.directories env' k = some t₁ := by
    by_cases he : env' = env
    · subst he
      exact ((hdrops.slots k).resolve_left fun hnone => hstays ⟨rfl, hnone⟩).trans ht₁
    · exact (congrFun (hdrops.others env' he) k).trans ht₁
  have htables₁ := htables.unmaps hunmaps
  have hb₁ := hb.unmaps hunmaps hframe
  exact ⟨t₁, ht', hdrops.tableBlock ⟨htables₁.backed, htables₁.distinct⟩ ht' hb₁⟩

/-- A slot with no table gets none. -/
theorem none_of_drops (hunmaps : Unmaps s s₁) (hdrops : Drops L env (s₁.setEnv env e) s')
    (hnone : s.heap.memory.directories env' k = none) :
    s'.heap.memory.directories env' k = none := by
  refine Option.eq_none_iff_forall_ne_some.2 fun t ht' => ?_
  obtain ⟨t₁, ht₁, -⟩ := hunmaps.of_some (hdrops.of_some ht')
  rw [hnone] at ht₁
  cases ht₁

end Tables

/-- `freeMem` returns if the entries of the resident pages name frames. -/
theorem freeMem_isSome (htables : TablesOk L s) (hok : (s.envs env).Tracks (s.resident L env))
    (hframes : ∀ a ∈ s.resident L env, frameNumber (s.userEntry env a) < L.numberOfFrames) :
    (s.freeMem L pf env va size).isSome := by
  have hloop : (freeResidentPagesLoop L env va size (s.envs env).ptrPageWorkingSet
      { s with pageFile := freeAllPagees pf env va (size / pageSize) s.pageFile }).isSome :=
    freeResidentPagesLoop_isSome _ fun x hx hempty =>
      Or.inr (hframes _ ((hok.mem_iff _).2 (Env.mem_addresses.1
        (List.mem_filterMap.2 ⟨x, hx, Env.address?_eq_some.2 ⟨hempty, rfl⟩⟩))))
  obtain ⟨⟨kept, s₁⟩, hloop⟩ := Option.isSome_iff_exists.1 hloop
  obtain ⟨hunmaps, -⟩ := freeResidentPagesLoop_spec _ hloop
  have htables₀ : TablesOk L
      { s with pageFile := freeAllPagees pf env va (size / pageSize) s.pageFile } :=
    ⟨htables.backed, htables.distinct⟩
  have htables₁ := htables₀.unmaps hunmaps
  have htables₂ : TablesOk L (s₁.setEnv env ((s₁.envs env).compacted kept)) :=
    ⟨htables₁.backed, htables₁.distinct⟩
  obtain ⟨s₂, hremove, -, -⟩ :
      ∃ s₂, removeEmptyNonUsedPages L env va (size / pageSize) _ = some s₂ ∧
        Drops L env _ s₂ ∧ _ := removeEmptyNonUsedPages_drops (size / pageSize) va htables₂
  unfold freeMem freeResidentPagesInTheWorkingSet
  simp only [Option.bind_eq_bind, hloop, Option.bind_some, hremove, Option.isSome_some]

/-- `freeMem` of an aligned range below `USER_TOP` removes the range, and nothing else. It
returns if the entries of the resident pages name frames. -/
theorem freeMem_removesRange (hremoves : pf.RemovesPages)
    (hok : (s.envs env).Tracks (s.resident L env)) (htables : TablesOk L s)
    (hva : va % pageSize = 0) (hsize : size % pageSize = 0) (htop : va + size ≤ L.userTop) :
    (∀ s', s.freeMem L pf env va size = some s' → RemovesRange L pf s s' env va size) ∧
      ((∀ a ∈ s.resident L env, frameNumber (s.userEntry env a) < L.numberOfFrames) →
        (s.freeMem L pf env va size).isSome) := by
  refine ⟨fun s' h => ?_, freeMem_isSome htables hok⟩
  have heffect := freeMem_effect h
  obtain ⟨s₁, e₁, hunmaps, hdrops, hcleared⟩ := freeMem_drops htables h
  have hread := heffect.read hremoves hva hsize
  have henvs := heffect.envs_ofRange hok htop
  have helements := heffect.elements hok htop
  have hsizes : (s'.envs env).pageWSMaxSize = (s.envs env).pageWSMaxSize :=
    (freeMem_spec h).1.pageWSMaxSize
  refine ⟨fun a ha hin => ⟨?_, heffect.not_mapped hok htop ha hin, fun hmem => ?_⟩,
    fun e a ha hout => ?_, fun e a hout => ?_, helements, hsizes, ?_, (freeMem_spec h).1.envs,
    fun k t ht => ?_, fun k t i => freed_of_drops hunmaps hdrops,
    fun e k t i => inPlace_of_drops htables hunmaps hdrops,
    fun e k => none_of_drops hunmaps hdrops⟩
  · rw [PageFile.Has, hread env a ha, if_pos ⟨rfl, hin⟩]
    simp
  · rw [henvs, Env.addresses_compacted] at hmem
    obtain ⟨x, hx, hxa⟩ := List.mem_filterMap.1 hmem
    have hout := (List.mem_filter.1 hx).2
    rw [(Env.address?_eq_some.1 hxa).2] at hout
    exact of_decide_eq_true hout hin
  · rw [hread e a ha, if_neg hout]
  · exact heffect.kept e a fun hc =>
      hout ⟨hc.1, ofRange_of_leaves hok hva hsize htop hc.2⟩
  · rw [helements, hsizes, henvs]
    rfl
  · -- The entries of a table are those that are left when the tables are gone over.
    obtain ⟨t₁, ht₁, -⟩ := hunmaps.exists_some ht
    have hentry := hdrops.userEntry (fun k t ht hnone => ((hcleared k t ht).1 hnone).2) env
    simp only [hcleared k t₁ ht₁, visited_iff hva hsize, zeroTable_iff_userEntry ht₁, hentry]
    rfl

theorem mapPageFile_removesPages : mapPageFile.RemovesPages := by
  intro p env va _ env' va' _
  unfold mapPageFile
  by_cases henv : env' = env
  · subst henv
    by_cases hva : va' = va <;> simp [hva]
  · simp [henv]

/-- A page of environment 0 is mapped, with the first page of the kernel heap as its table. -/
def tableMemory : UserMemory (Nat → Nat → Option PageBytes) where
  heap :=
    { kernelHeapPages := fun i => ⟨smallUserLayout.addr i, i ≠ 0⟩
      lastAllocatedKHpage := 0xF6001000
      isKHpageEmpty := false
      kHeapPlacementStrategy := .nextFit
      kernelEntries := fun v => if v = 0xF6000 then KernelHeap.heapEntry 5 else 0#32
      memory :=
        { framesInfo := fun _ => ⟨1, false, 0, 0⟩
          freeFrameList := []
          directories := fun env k =>
            if env = 0 ∧ k = 512 then
              some ⟨5, fun i => if i = 1 then KernelHeap.heapEntry 6 else 0#32⟩
            else none } }
  envs _ := ⟨[⟨0x80001000, false, 7#32⟩, .cleared], 1⟩
  pageFile _ _ := none
  bytes _ _ := 0#8
  pageRepAlgoType := .modifiedClock
  lastClockIndex := 0

theorem tableMemory_userEntry (va : Nat) : tableMemory.userEntry 0 va =
    if va / pageSize = 0x80001 then KernelHeap.heapEntry 6 else 0#32 := by
  have hpage : va / pageSize = 0x80001 ↔ pdx va = 512 ∧ ptx va = 1 := by
    unfold pdx ptx pageSize
    omega
  simp only [hpage, userEntry, getPageTable, tableMemory, true_and]
  by_cases hpdx : pdx va = 512 <;> simp [hpdx]

theorem tableMemory_tracks :
    (tableMemory.envs 0).Tracks (tableMemory.resident smallUserLayout 0) := by
  refine ⟨Env.nodup_addresses_iff.1 (by decide), fun va => ?_⟩
  have haddresses : (tableMemory.envs 0).addresses = [0x80001000] := rfl
  rw [← Env.mem_addresses, haddresses, List.mem_singleton]
  constructor
  · rintro ⟨halign, -, hmapped⟩
    rw [Mapped, tableMemory_userEntry] at hmapped
    split_ifs at hmapped with hpage
    · unfold pageSize at *
      omega
    · exact absurd hmapped not_isPresent_zero
  · rintro rfl
    refine ⟨by decide, by decide, ?_⟩
    rw [Mapped, tableMemory_userEntry]
    exact isPresent_constructEntry _ _

theorem tableMemory_tablesOk : TablesOk smallUserLayout tableMemory := by
  have htable : ∀ env k t, tableMemory.heap.memory.directories env k = some t →
      (env = 0 ∧ k = 512) ∧ t.frame = 5 := by
    intro env k t ht
    simp only [tableMemory] at ht
    split_ifs at ht with hat
    exact ⟨hat, by rw [← Option.some.inj ht]⟩
  have hblock : ∀ i < smallUserLayout.pages, (tableMemory.heap.isKHpageEmpty = false ∧
      (tableMemory.heap.kernelHeapPages i).isEmpty = false) ∧
      (tableMemory.heap.kernelHeapPages i).startAddress = smallUserLayout.addr 0 ↔
        0 ≤ i ∧ i < 0 + 1 := by decide
  have hresolves : ∀ j < smallUserLayout.pages,
      (entry smallUserLayout.toKernelHeapLayout tableMemory.heap j ≠ 0#32 ∧
        frameNumber (entry smallUserLayout.toKernelHeapLayout tableMemory.heap j) = 5 ↔
          j = 0) := by decide
  refine ⟨fun env k t ht => ⟨0, ⟨Nat.one_pos, by decide, hblock⟩, ?_, ?_⟩,
    fun env k t env' k' t' ht ht' _ => ?_⟩
  · rw [(htable env k t ht).2]
    decide
  · rw [(htable env k t ht).2]
    exact hresolves
  · obtain ⟨⟨rfl, rfl⟩, -⟩ := htable env k t ht
    obtain ⟨⟨rfl, rfl⟩, -⟩ := htable env' k' t' ht'
    exact ⟨rfl, rfl⟩

/-- The page is freed, and then its table. -/
theorem tableMemory_removesRange : ∃ s',
    tableMemory.freeMem smallUserLayout mapPageFile 0 0x80000000 0x2000 = some s' ∧
      s'.heap.memory.directories 0 512 = none ∧
      RemovesRange smallUserLayout mapPageFile tableMemory s' 0 0x80000000 0x2000 := by
  have hrun : (tableMemory.freeMem smallUserLayout mapPageFile 0 0x80000000 0x2000).map
      (fun s => (s.heap.memory.directories 0 512).isNone) = some true := by decide +kernel
  obtain ⟨s', hs', hnone⟩ := Option.map_eq_some_iff.1 hrun
  exact ⟨s', hs', Option.isNone_iff_eq_none.1 hnone,
    (freeMem_removesRange mapPageFile_removesPages tableMemory_tracks tableMemory_tablesOk
      (by decide) (by decide) (by decide)).1 s' hs'⟩

end UserMemory

end FosKernel
