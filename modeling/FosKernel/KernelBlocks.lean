import FosKernel.FrameConservation

/-!
# The blocks of the kernel heap

The kernel heap is shared : a kernel caller has its blocks from `kmalloc`, and the paging code
takes a block for every page table that it makes, and gives it back when the table is empty. On
the blocks a call of `kmalloc` adds one (`NewBlock`), and `kfree` takes one away
(`holds_kfree`).

`BlocksOwned` : each block is a page table, of one slot of one directory, or is a block of the
others. Every attempt of an environment keeps it, with the others' blocks where they are
(`BlocksOwned.attempt`), and leaves the bytes behind the heap alone (`bytes_attempt`).
-/

namespace FosKernel

namespace KernelHeap

variable {L : KernelHeapLayout} {s s' : KernelHeap} {t u n f : Nat} {taken frames : List Nat}

/-- The blocks are the same, in the same frames. -/
theorem holds_congr (howner : owner L s' = owner L s) (hentry : ∀ i, entry L s' i = entry L s i) :
    Holds L s' t taken ↔ Holds L s t taken := by
  simp only [Holds, howner, frameAt, hentry]

theorem Holds.unique (h : Holds L s t taken) (h' : Holds L s t frames) : taken = frames := by
  have hlen : taken.length = frames.length := h.1.length_unique h'.1
  refine List.ext_getElem hlen fun k hk hk' => ?_
  rw [← h.2 k hk, h'.2 k hk']

/-- The frames of a block are behind its pages. -/
theorem Holds.mem_iff (h : Holds L s t taken) :
    f ∈ taken ↔ ∃ i, owner L s i = some t ∧ frameAt L s i = f := by
  rw [List.mem_iff_getElem]
  constructor
  · rintro ⟨k, hk, rfl⟩
    exact ⟨t + k, (h.1.2 _).2 (by omega), h.2 k hk⟩
  · rintro ⟨i, hi, rfl⟩
    obtain ⟨hlo, hhi⟩ := (h.1.2 i).1 hi
    refine ⟨i - t, by omega, ?_⟩
    rw [← h.2 (i - t) (by omega), Nat.add_sub_cancel' hlo]

theorem Holds.backs (h : Holds L s t taken) (hf : f ∈ taken) : Backs L s f := by
  obtain ⟨i, hi, heq⟩ := h.mem_iff.1 hf
  exact ⟨i, by rw [hi]; rfl, heq⟩

/-- Two blocks have no frame in common. -/
theorem Holds.eq_of_mem (hinv : Invariant L s) (h : Holds L s t taken) (h' : Holds L s u frames)
    (hf : f ∈ taken) (hf' : f ∈ frames) : t = u := by
  obtain ⟨i, hi, rfl⟩ := h.mem_iff.1 hf
  obtain ⟨j, hj, heq⟩ := h'.mem_iff.1 hf'
  have hij := hinv.frameAt_inj (by rw [hj]; rfl) (by rw [hi]; rfl) heq
  rw [hij, hi] at hj
  exact Option.some.inj hj

/-- Two pages of a block have different frames. -/
theorem Holds.nodup (hinv : Invariant L s) (h : Holds L s t taken) : taken.Nodup := by
  rw [List.nodup_iff_injective_getElem]
  rintro ⟨j, hj⟩ ⟨k, hk⟩ heq
  have hown : ∀ i < taken.length, (owner L s (t + i)).isSome := fun i hi => by
    rw [(h.1.2 (t + i)).2 (by omega)]
    rfl
  have heq' : frameAt L s (t + j) = frameAt L s (t + k) := by
    rw [h.2 j hj, h.2 k hk]
    exact heq
  exact Fin.ext (Nat.add_left_cancel (hinv.frameAt_inj (hown j hj) (hown k hk) heq'))

/-- The block of a page of the heap. -/
theorem Invariant.exists_holds (h : Invariant L s) {i : Nat} (hi : owner L s i = some t) :
    ∃ taken, Holds L s t taken ∧ frameAt L s i ∈ taken := by
  obtain ⟨n, hb⟩ := h.contiguous.exists_isBlock (fun i hi => owner_eq_none_of_pages_le hi) hi
  have hholds : Holds L s t ((List.range' t n).map (frameAt L s)) := by
    refine ⟨by rwa [List.length_map, List.length_range'], fun k hk => ?_⟩
    rw [List.getElem_map, List.getElem_range', Nat.one_mul]
  exact ⟨_, hholds, hholds.mem_iff.2 ⟨i, hi, rfl⟩⟩

/-! ## kmalloc and kfree -/

/-- One more block : page `t`, in frames that were free. -/
structure NewBlock (L : KernelHeapLayout) (s : KernelHeap) (t : Nat) (taken : List Nat)
    (s' : KernelHeap) : Prop where
  frames : s.memory.freeFrameList = taken ++ s'.memory.freeFrameList
  fresh : ∀ frames, ¬Holds L s t frames
  holds : ∀ u frames, Holds L s' u frames ↔ Holds L s u frames ∨ u = t ∧ frames = taken

theorem Allocated.newBlock (h : Invariant L s) (hal : Allocated L s t n s') (hn : 0 < n) :
    ∃ taken, taken.length = n ∧ NewBlock L s t taken s' := by
  obtain ⟨taken, hlist, rfl, hframe⟩ := hal.frames
  have hblock : BlockMap.IsBlock (KernelHeap.owner L s') t taken.length := by
    rw [hal.owner]
    exact BlockMap.isBlock_claim h.contiguous hal.free hn
  have hnew : Holds L s' t taken := ⟨hblock, hframe⟩
  have hfresh : ∀ frames, ¬Holds L s t frames := fun frames hb => by
    have hown := hb.1.owner_first
    rw [hal.free t le_rfl (by omega)] at hown
    cases hown
  refine ⟨taken, rfl, hlist, hfresh, fun u frames => ⟨fun hb => ?_, ?_⟩⟩
  · by_cases hut : u = t
    · subst hut
      exact Or.inr ⟨rfl, hb.unique hnew⟩
    · have hown : ∀ i, KernelHeap.owner L s' i = some u ↔ KernelHeap.owner L s i = some u := by
        intro i
        rw [hal.owner]
        by_cases hmem : t ≤ i ∧ i < t + taken.length
        · rw [BlockMap.claim_of_mem hmem, hal.free i hmem.1 hmem.2]
          exact iff_of_false (fun hc => hut (Option.some.inj hc).symm) nofun
        · rw [BlockMap.claim_of_not_mem hmem]
      refine Or.inl ⟨⟨hb.1.1, fun i => (hown i).symm.trans (hb.1.2 i)⟩, fun k hk => ?_⟩
      rw [← hb.2 k hk, frameAt, frameAt, hal.entries _ fun hmem => ?_]
      have hu := (hown _).1 ((hb.1.2 (u + k)).2 (by omega))
      rw [hal.free _ hmem.1 hmem.2] at hu
      cases hu
  · rintro (hb | ⟨rfl, rfl⟩)
    · exact hb.of_allocated hal
    · exact hnew

/-- `kmalloc` changes no block, or makes one of the size asked for, rounded up. -/
theorem kmalloc_blocks (h : Invariant L s) {size p : Nat} (hk : kmalloc L s size = some (p, s')) :
    ((p = 0 ∨ roundUp size pageSize / pageSize = 0) ∧
      ∀ u frames, Holds L s' u frames ↔ Holds L s u frames) ∨
    ∃ t taken, p = L.addr t ∧ p ≠ 0 ∧ 0 < taken.length ∧
      taken.length = roundUp size pageSize / pageSize ∧ NewBlock L s t taken s' := by
  obtain ⟨-, ⟨hp, hun⟩ | ⟨t, rfl, hp, hal⟩⟩ := kmalloc_spec h hk
  · exact Or.inl ⟨Or.inl hp, fun u frames => holds_congr hun.owner hun.entry⟩
  · rcases Nat.eq_zero_or_pos (roundUp size pageSize / pageSize) with hzero | hpos
    · rw [hzero] at hal
      refine Or.inl ⟨Or.inr hzero, fun u frames => holds_congr ?_ fun i => ?_⟩
      · rw [hal.owner]
        exact BlockMap.interval_zero _ _ t
      · exact hal.entries i (by omega)
    · obtain ⟨taken, hlen, hnew⟩ := hal.newBlock h hpos
      exact Or.inr ⟨t, taken, rfl, hp, by omega, hlen, hnew⟩

/-- `kfree` of a block takes that block away. -/
theorem holds_kfree (h : Invariant L s) (hb : Holds L s t taken)
    (hk : kfree L s (L.addr t) = some s') :
    Holds L s' u frames ↔ Holds L s u frames ∧ u ≠ t := by
  obtain ⟨s₁, hs₁, hun⟩ := kfree_block h (initialized_of_isBlock hb.1) hb.1
  obtain rfl : s₁ = s' := Option.some.inj (hs₁.symm.trans hk)
  have hown : owner L s₁ = BlockMap.release (owner L s) t := hun.owner_eq hb.1
  have hentry : ∀ i, owner L s i ≠ some t → entry L s₁ i = entry L s i := fun i hi =>
    hun.entries i (mt (hb.1.2 i).2 hi)
  constructor
  · intro hb'
    have hut : u ≠ t := by
      rintro rfl
      have hfirst := hb'.1.owner_first
      rw [hown, BlockMap.release] at hfirst
      split_ifs at hfirst with hc
      exact hc hfirst
    have hiff : ∀ i, owner L s₁ i = some u ↔ owner L s i = some u := by
      intro i
      rw [hown, BlockMap.release]
      split_ifs with hi
      · rw [hi]
        exact iff_of_false not_false fun hc => hut (Option.some.inj hc).symm
      · exact Iff.rfl
    refine ⟨⟨⟨hb'.1.1, fun i => (hiff i).symm.trans (hb'.1.2 i)⟩, fun k hk' => ?_⟩, hut⟩
    have hu := (hiff _).1 ((hb'.1.2 (u + k)).2 (by omega))
    rw [← hb'.2 k hk', frameAt, frameAt, hentry _ fun hc => hut ?_]
    exact Option.some.inj (hu.symm.trans hc)
  · rintro ⟨hb', hut⟩
    refine ⟨by rw [hown]; exact hb'.1.release_other hut, fun k hk' => ?_⟩
    have hu := (hb'.1.2 (u + k)).2 (by omega)
    rw [frameAt, hentry _ fun hc => hut (Option.some.inj (hu.symm.trans hc))]
    exact hb'.2 k hk'

end KernelHeap

namespace UserMemory

open KernelHeap (Holds Backs owner)

variable {P : Type} {L : UserLayout} {pf : PageFile P} {s s' s'' : UserMemory P}
  {env va f v unset size k : Nat} {t : PageTable} {m : Memory} {e : Entry}
  {others : Nat → Option (List Nat)}

/-- The frame of the page table in slot `k` of the directory of an environment. -/
def frameOfTable (s : UserMemory P) (env k : Nat) : Option Nat :=
  (s.heap.memory.directories env k).map PageTable.frame

/-- Each block of the heap is one of `others`, with its frames, or the page table of one slot of
one directory. -/
structure BlocksOwned (L : UserLayout) (s : UserMemory P) (others : Nat → Option (List Nat)) :
    Prop where
  other : ∀ {b taken}, others b = some taken → Holds L.toKernelHeapLayout s.heap b taken
  table : ∀ {env k f}, s.frameOfTable env k = some f →
    ∃ b, Holds L.toKernelHeapLayout s.heap b [f] ∧ others b = none
  distinct : ∀ {env k env' k' f}, s.frameOfTable env k = some f →
    s.frameOfTable env' k' = some f → env = env' ∧ k = k'
  all : ∀ {b taken}, Holds L.toKernelHeapLayout s.heap b taken →
    others b = some taken ∨ ∃ env k f, s.frameOfTable env k = some f ∧ taken = [f]

/-- The page tables are blocks of one page, each of its own. -/
theorem BlocksOwned.tablesOk (h : BlocksOwned L s others) (hown : FramesOwned L s) :
    TablesOk L s := by
  have hslot : ∀ {env k t}, s.heap.memory.directories env k = some t →
      s.frameOfTable env k = some t.frame := fun ht => by rw [frameOfTable, ht, Option.map_some]
  refine ⟨fun env k t ht => ?_, fun env k t env' k' t' ht ht' hframe => ?_⟩
  · obtain ⟨b, hb, -⟩ := h.table (hslot ht)
    exact ⟨b, .of_consistent hown.heap.consistent (hown.heap.isBlock_iff.2 hb.1)
      (hb.2 0 Nat.one_pos).symm⟩
  · exact h.distinct (hslot ht) (hframe ▸ hslot ht')

/-! ## Calls that leave the heap alone -/

/-- The heap and the slots of the directories are the same. -/
structure SameBlocks (s s' : UserMemory P) : Prop where
  kernelHeapPages : s'.heap.kernelHeapPages = s.heap.kernelHeapPages
  kernelEntries : s'.heap.kernelEntries = s.heap.kernelEntries
  initialized : s'.heap.isKHpageEmpty = s.heap.isKHpageEmpty
  frameOfTable : ∀ env k, s'.frameOfTable env k = s.frameOfTable env k

theorem SameBlocks.trans (h : SameBlocks s s') (h' : SameBlocks s' s'') : SameBlocks s s'' :=
  ⟨h'.kernelHeapPages.trans h.kernelHeapPages, h'.kernelEntries.trans h.kernelEntries,
    h'.initialized.trans h.initialized,
    fun env k => (h'.frameOfTable env k).trans (h.frameOfTable env k)⟩

theorem sameBlocks_of_heap (h : s'.heap = s.heap) : SameBlocks s s' :=
  ⟨by rw [h], by rw [h], by rw [h], fun env k => by rw [frameOfTable, h, frameOfTable]⟩

theorem Unmaps.sameBlocks (h : Unmaps s s') : SameBlocks s s' :=
  ⟨h.kernelHeapPages, h.kernelEntries, h.initialized, h.frames⟩

theorem SameBlocks.holds_iff (h : SameBlocks s s') {b : Nat} {taken : List Nat} :
    Holds L.toKernelHeapLayout s'.heap b taken ↔ Holds L.toKernelHeapLayout s.heap b taken := by
  refine KernelHeap.holds_congr ?_ fun i => congrFun h.kernelEntries _
  ext i : 1
  rw [owner, owner, h.kernelHeapPages, h.initialized]

theorem BlocksOwned.of_holds (h : BlocksOwned L s others)
    (hholds : ∀ u frames, Holds L.toKernelHeapLayout s'.heap u frames ↔
      Holds L.toKernelHeapLayout s.heap u frames)
    (hslot : ∀ env k, s'.frameOfTable env k = s.frameOfTable env k) : BlocksOwned L s' others := by
  refine ⟨fun hb => (hholds _ _).2 (h.other hb), fun hf => ?_, fun hf hf' => ?_, fun hb => ?_⟩
  · rw [hslot] at hf
    obtain ⟨b, hb, hnone⟩ := h.table hf
    exact ⟨b, (hholds _ _).2 hb, hnone⟩
  · rw [hslot] at hf hf'
    exact h.distinct hf hf'
  · simp only [hslot]
    exact h.all ((hholds _ _).1 hb)

theorem BlocksOwned.same (h : BlocksOwned L s others) (hsame : SameBlocks s s') :
    BlocksOwned L s' others :=
  h.of_holds (fun _ _ => hsame.holds_iff) hsame.frameOfTable

/-- A block that is new belongs to the others. -/
theorem BlocksOwned.newBlock {b : Nat} {taken : List Nat} (h : BlocksOwned L s others)
    (hslot : ∀ env k, s'.frameOfTable env k = s.frameOfTable env k)
    (hnew : KernelHeap.NewBlock L.toKernelHeapLayout s.heap b taken s'.heap) :
    others b = none ∧ BlocksOwned L s' (Function.update others b (some taken)) := by
  have hnone : others b = none :=
    Option.eq_none_iff_forall_ne_some.2 fun frames hu => hnew.fresh _ (h.other hu)
  refine ⟨hnone, fun {u frames} hu => ?_, fun hf => ?_, fun hf hf' => ?_, fun {u frames} hu => ?_⟩
  · rw [Function.update_apply] at hu
    split_ifs at hu with hub
    · obtain rfl := Option.some.inj hu
      exact (hnew.holds _ _).2 (Or.inr ⟨hub, rfl⟩)
    · exact (hnew.holds _ _).2 (Or.inl (h.other hu))
  · rw [hslot] at hf
    obtain ⟨u, hu, hu_none⟩ := h.table hf
    refine ⟨u, (hnew.holds _ _).2 (Or.inl hu), ?_⟩
    rw [Function.update_of_ne, hu_none]
    rintro rfl
    exact hnew.fresh _ hu
  · rw [hslot] at hf hf'
    exact h.distinct hf hf'
  · simp only [hslot]
    rcases (hnew.holds _ _).1 hu with hu | ⟨rfl, rfl⟩
    · refine (h.all hu).imp_left fun hother => ?_
      rw [Function.update_of_ne, hother]
      rintro rfl
      exact hnew.fresh _ hu
    · exact Or.inl (Function.update_self _ _ _)

/-- A block of the others is taken away. -/
theorem BlocksOwned.freeBlock {b : Nat} {taken : List Nat} (h : BlocksOwned L s others)
    (hb : others b = some taken)
    (hholds : ∀ u frames, Holds L.toKernelHeapLayout s'.heap u frames ↔
      Holds L.toKernelHeapLayout s.heap u frames ∧ u ≠ b)
    (hslot : ∀ env k, s'.frameOfTable env k = s.frameOfTable env k) :
    BlocksOwned L s' (Function.update others b none) := by
  refine ⟨fun {u frames} hu => ?_, fun hf => ?_, fun hf hf' => ?_, fun {u frames} hu => ?_⟩
  · rw [Function.update_apply] at hu
    split_ifs at hu with hub
    exact (hholds _ _).2 ⟨h.other hu, hub⟩
  · rw [hslot] at hf
    obtain ⟨u, hu, hnone⟩ := h.table hf
    have hub : u ≠ b := by
      rintro rfl
      rw [hb] at hnone
      cases hnone
    exact ⟨u, (hholds _ _).2 ⟨hu, hub⟩, by rw [Function.update_of_ne hub, hnone]⟩
  · rw [hslot] at hf hf'
    exact h.distinct hf hf'
  · obtain ⟨hu, hub⟩ := (hholds _ _).1 hu
    simp only [hslot]
    exact (h.all hu).imp_left fun hother => by rw [Function.update_of_ne hub, hother]

theorem sameBlocks_setEntry (ht : s.getPageTable env va = some t)
    (hdir : m.directories = s.heap.memory.directories) :
    SameBlocks s (s.setMemory (m.setEntry env va t e)) := by
  refine ⟨rfl, rfl, rfl, fun env' k => ?_⟩
  have ht' : s.heap.memory.directories env (pdx va) = some t := ht
  simp only [frameOfTable, setMemory, Memory.setEntry, hdir]
  by_cases henv : env' = env
  · rw [henv, Function.update_self, Function.update_apply]
    split_ifs with hk
    · rw [hk, ht']
      rfl
    · rfl
  · rw [Function.update_of_ne henv]

/-- What `pt_set_page_permissions` and a move of the hand do, Modified Clock does. -/
theorem modifiedClock_induction {R : UserMemory P → UserMemory P → Prop} (hrefl : ∀ s, R s s)
    (htrans : ∀ {s s' s''}, R s s' → R s' s'' → R s s'')
    (hhand : ∀ s i, R s { s with lastClockIndex := i })
    (hset : ∀ {s s' va}, s.ptSetPagePermissions env va 0#32 permUsed = some s' → R s s')
    (h : modifiedClock env s = some (v, s')) : R s s' := by
  have hloop : ∀ (try1 : Bool) (trips i : Nat) {s s' : UserMemory P} {r : Option Nat},
      getVictimIndexLoop env try1 trips i s = some (r, s') → R s s' := by
    intro try1 trips
    induction trips with
    | zero =>
      intro i s s' r h
      obtain ⟨-, rfl⟩ := Prod.mk.inj (Option.some.inj h)
      exact hrefl _
    | succ trips ih =>
      intro i s s' r h
      rw [getVictimIndexLoop_succ, Option.bind_eq_some_iff] at h
      obtain ⟨x, -, h⟩ := h
      split at h
      · obtain ⟨-, rfl⟩ := Prod.mk.inj (Option.some.inj h)
        exact hhand _ _
      · split at h
        · exact ih (i + 1) h
        · obtain ⟨s₁, hclear, h⟩ := Option.bind_eq_some_iff.1 h
          exact htrans (hset hclear) (ih (i + 1) h)
  have hscan : ∀ {try1 start stop} {s s' : UserMemory P} {r : Option Nat},
      getVictimIndex env try1 start stop s = some (r, s') → R s s' := by
    intro try1 start stop s s' r h
    unfold getVictimIndex at h
    split at h
    · obtain ⟨-, rfl⟩ := Prod.mk.inj (Option.some.inj h)
      exact hrefl _
    · exact hloop _ _ _ h
  have helse : ∀ {s s' : UserMemory P} {p : Option Nat × UserMemory P} {r : Option Nat}
      {try1 : Bool} {start stop : UserMemory P → Nat}, R s p.2 →
      orElseScan p (fun s => getVictimIndex env try1 (start s) (stop s) s) = some (r, s') →
      R s s' := by
    intro s s' p r try1 start stop hp h
    rcases orElseScan_eq_some.1 h with ⟨-, rfl⟩ | ⟨-, h⟩
    · exact hp
    · exact htrans hp (hscan h)
  have htrip : ∀ {s s' : UserMemory P} {r : Option Nat},
      modifiedClockTrip env s = some (r, s') → R s s' := by
    intro s s' r h
    unfold modifiedClockTrip at h
    simp only [Option.bind_eq_bind, Option.bind_eq_some_iff] at h
    obtain ⟨q₁, h₁, q₂, h₂, q₃, h₃, h₄⟩ := h
    exact helse (helse (helse (hscan h₁) h₂) h₃) h₄
  have htrips : ∀ (fuel : Nat) {s : UserMemory P}, modifiedClockLoop env fuel s = some (v, s') →
      R s s' := by
    intro fuel
    induction fuel with
    | zero => exact nofun
    | succ fuel ih =>
      intro s h
      rw [modifiedClockLoop_succ, Option.bind_eq_some_iff] at h
      obtain ⟨⟨_ | w, s₁⟩, hone, h⟩ := h
      · exact htrans (htrip hone) (ih h)
      · obtain ⟨-, rfl⟩ := Prod.mk.inj (Option.some.inj h)
        exact htrip hone
  exact htrips 2 h

theorem sameBlocks_modifiedClock (h : modifiedClock env s = some (v, s')) : SameBlocks s s' := by
  refine modifiedClock_induction (R := SameBlocks) (fun _ => sameBlocks_of_heap rfl)
    SameBlocks.trans (fun _ _ => sameBlocks_of_heap rfl) (fun {s s' va} hset => ?_) h
  obtain ⟨t, ht, rfl⟩ := Option.map_eq_some_iff.1 hset
  exact sameBlocks_setEntry ht rfl

/-! ## Page tables come and go -/

/-- A slot of a directory is written. -/
theorem frameOfTable_update {o : Option PageTable}
    (hdir : s'.heap.memory.directories = Function.update s.heap.memory.directories env
      (Function.update (s.heap.memory.directories env) k o)) (env' k' : Nat) :
    s'.frameOfTable env' k' =
      if env' = env ∧ k' = k then o.map PageTable.frame else s.frameOfTable env' k' := by
  rw [frameOfTable, hdir]
  by_cases henv : env' = env
  · subst henv
    rw [Function.update_self, Function.update_apply]
    by_cases hk : k' = k
    · rw [if_pos hk, if_pos ⟨rfl, hk⟩]
    · rw [if_neg hk, if_neg fun hc => hk hc.2]
      rfl
  · rw [Function.update_of_ne henv, if_neg fun hc => henv hc.1]
    rfl

/-- A table that is made is a new block. -/
theorem BlocksOwned.findsPageTable (h : BlocksOwned L s others) (hown : FramesOwned L s)
    (hfinds : FindsPageTable L s env va t s') : BlocksOwned L s' others := by
  cases hfinds with
  | found _ => exact h
  | @made hnone pageTable heap hmalloc hne =>
    have hdir := (KernelHeap.keepsTables_kmalloc hmalloc hown.noBuffering).2
    have hone : roundUp pageSize pageSize / pageSize = 1 := by decide
    rcases KernelHeap.kmalloc_blocks hown.heap hmalloc with
      ⟨hzero, -⟩ | ⟨b, taken, rfl, -, -, hlen, hnew⟩
    · rw [hone] at hzero
      exact absurd (hzero.resolve_left hne) Nat.one_ne_zero
    · rw [hone] at hlen
      obtain ⟨g, rfl⟩ := List.length_eq_one_iff.1 hlen
      have hholds : Holds L.toKernelHeapLayout heap b [g] :=
        (hnew.holds b [g]).2 (Or.inr ⟨rfl, rfl⟩)
      have hframe : frameNumber (heap.kernelEntries (L.addr b / pageSize)) = g :=
        hholds.2 0 Nat.one_pos
      have hslot : ∀ env' k',
          (s.withPageTable env va (emptyTable heap (L.addr b)) heap).frameOfTable env' k' =
            if env' = env ∧ k' = pdx va then some g else s.frameOfTable env' k' := by
        intro env' k'
        rw [frameOfTable_update (s := s) (k := pdx va) (congrArg (fun d => Function.update d env
          (Function.update (d env) (pdx va) (some (emptyTable heap (L.addr b))))) hdir),
          Option.map_some, emptyTable, hframe]
      have hfree : ∀ {env' k'}, s.frameOfTable env' k' ≠ some g := by
        intro env' k' hg
        obtain ⟨b', hb', -⟩ := h.table hg
        obtain ⟨i, hi, heq⟩ := hb'.backs List.mem_cons_self
        refine hown.heap.frameAt_not_mem hi ?_
        rw [heq, hnew.frames]
        exact List.mem_cons_self
      refine ⟨fun hb => (hnew.holds _ _).2 (Or.inl (h.other hb)), fun {env' k' f} hf => ?_,
        fun {a x c y f} hf hf' => ?_, fun {u frames} hb => ?_⟩
      · rw [hslot] at hf
        split_ifs at hf with hat
        · obtain rfl := Option.some.inj hf
          refine ⟨b, hholds, Option.eq_none_iff_forall_ne_some.2 fun taken hc => ?_⟩
          exact hnew.fresh _ (h.other hc)
        · obtain ⟨b', hb', hnone'⟩ := h.table hf
          exact ⟨b', (hnew.holds _ _).2 (Or.inl hb'), hnone'⟩
      · rw [hslot] at hf hf'
        split_ifs at hf hf' with hat hat' hat'
        · exact ⟨hat.1.trans hat'.1.symm, hat.2.trans hat'.2.symm⟩
        · exact absurd (hf'.trans hf.symm) hfree
        · exact absurd (hf.trans hf'.symm) hfree
        · exact h.distinct hf hf'
      · rcases (hnew.holds u frames).1 hb with hb' | ⟨rfl, rfl⟩
        · rcases h.all hb' with hother | ⟨env', k', f, hf, rfl⟩
          · exact Or.inl hother
          · refine Or.inr ⟨env', k', f, ?_, rfl⟩
            rw [hslot, if_neg, hf]
            rintro ⟨rfl, rfl⟩
            have hnone' : s.frameOfTable env' (pdx va) = none := congrArg _ hnone
            rw [hnone'] at hf
            cases hf
        · exact Or.inr ⟨env, pdx va, g, by rw [hslot, if_pos ⟨rfl, rfl⟩], rfl⟩

/-- The address of a page table is that of its block. -/
theorem BlocksOwned.tableAddress_eq (hown : FramesOwned L s) {b address : Nat}
    (hb : Holds L.toKernelHeapLayout s.heap b [t.frame]) (ha : s.tableAddress L t = some address) :
    address = L.addr b := by
  obtain ⟨i, hi, rfl⟩ := Option.map_eq_some_iff.1 ha
  have hlt := List.mem_range.1 (List.mem_of_find?_eq_some hi)
  have hfound := List.find?_some hi
  obtain ⟨hne, hframe⟩ := of_decide_eq_true hfound
  have hsome : (owner L.toKernelHeapLayout s.heap i).isSome := by
    by_contra hnone
    exact hne (hown.heap.unmapped i hlt (by simpa using hnone))
  have hfirst : (owner L.toKernelHeapLayout s.heap b).isSome := by
    rw [hb.1.owner_first]
    rfl
  rw [hown.heap.frameAt_inj hsome hfirst (hframe.trans (hb.2 0 Nat.one_pos).symm)]

/-- A table that is freed takes its block along. -/
theorem BlocksOwned.freePageTable (h : BlocksOwned L s others) (hown : FramesOwned L s)
    (ht : s.getPageTable env va = some t) (hfree : s.freePageTable L env va t = some s') :
    BlocksOwned L s' others := by
  unfold UserMemory.freePageTable at hfree
  simp only [Option.bind_eq_bind, Option.bind_eq_some_iff] at hfree
  obtain ⟨address, ha, heap, hkfree, hfree⟩ := hfree
  have hslot : s.frameOfTable env (pdx va) = some t.frame := congrArg _ ht
  obtain ⟨b, hb, hnone⟩ := h.table hslot
  obtain rfl := BlocksOwned.tableAddress_eq hown hb ha
  have hdir := (KernelHeap.sameTables_kfreeLoop _ _ hkfree).directories
  have hs' := Option.some.inj hfree
  have hholds : ∀ {u frames}, Holds L.toKernelHeapLayout s'.heap u frames ↔
      Holds L.toKernelHeapLayout s.heap u frames ∧ u ≠ b := by
    intro u frames
    have hheap : Holds L.toKernelHeapLayout heap u frames ↔ _ :=
      KernelHeap.holds_kfree hown.heap hb hkfree
    rw [← hs']
    exact hheap
  have hslots : ∀ env' k', s'.frameOfTable env' k' =
      if env' = env ∧ k' = pdx va then none else s.frameOfTable env' k' := by
    have hupdate : s'.heap.memory.directories = Function.update s.heap.memory.directories env
        (Function.update (s.heap.memory.directories env) (pdx va) none) := by
      rw [← hs', ← hdir]
    exact frameOfTable_update hupdate
  refine ⟨fun {b' taken} hb' => hholds.2 ⟨h.other hb', ?_⟩, fun {env' k' f} hf => ?_,
    fun {a x c y f} hf hf' => ?_, fun {u frames} hu => ?_⟩
  · rintro rfl
    rw [hnone] at hb'
    cases hb'
  · rw [hslots] at hf
    split_ifs at hf with hat
    obtain ⟨b', hb', hnone'⟩ := h.table hf
    refine ⟨b', hholds.2 ⟨hb', ?_⟩, hnone'⟩
    -- The tables have blocks of their own.
    rintro rfl
    obtain rfl := List.singleton_injective (hb'.unique hb)
    exact hat (h.distinct hf hslot)
  · rw [hslots] at hf hf'
    split_ifs at hf hf'
    exact h.distinct hf hf'
  · obtain ⟨hu', hne⟩ := hholds.1 hu
    rcases h.all hu' with hother | ⟨env', k', f, hf, rfl⟩
    · exact Or.inl hother
    · refine Or.inr ⟨env', k', f, ?_, rfl⟩
      rw [hslots, if_neg, hf]
      rintro ⟨rfl, rfl⟩
      obtain rfl := Option.some.inj (hf.symm.trans hslot)
      exact hne (hu'.eq_of_mem hown.heap hb List.mem_cons_self List.mem_cons_self)

/-! ## Every call -/

theorem BlocksOwned.pagePlacement (h : BlocksOwned L s others) (hown : FramesOwned L s)
    (hplace : pagePlacement L pf env va v s = some s') : BlocksOwned L s' others := by
  obtain ⟨f, m, s₁, s₂, e, ha, hmap, hread, -, rfl⟩ := pagePlacement_eq_some hplace
  obtain ⟨-, hown₁, -, hdir⟩ := hown.allocateFrame_spec ha
  obtain ⟨t, s₃, e', m₂, htable, hmapEntry, rfl⟩ := mapFrame_eq_some hmap
  have hallocate : SameBlocks s (s.setMemory m) :=
    ⟨rfl, rfl, rfl, fun env k => congrArg (fun d => (d env k).map PageTable.frame) hdir⟩
  have hfound := (h.same hallocate).findsPageTable hown₁ htable
  have hset := hfound.same (sameBlocks_setEntry (e := e')
    (htable.keeps hown₁.noBuffering).2.1 (Memory.sameTables_mapEntry hmapEntry).1.directories)
  have hplaced := hset.same (sameBlocks_of_heap (readFaultedPage_spec hread).1)
  exact hplaced.same (sameBlocks_of_heap rfl)

theorem FramesOwned.sameBlocks_replacement (hown : FramesOwned L s) {s₁ : UserMemory P}
    (hclock : modifiedClock env s = some (v, s₁))
    (hreplace : pageReplacement L pf env v s₁ = some s') : SameBlocks s s' := by
  have hown₁ := hown.of_sameFrames (hown.sameFrames_modifiedClock hclock)
  obtain ⟨x, s₂, s₃, e, -, hwrite, hun, -, rfl⟩ := pageReplacement_eq_some hreplace
  rw [hown₁.updateVictim_eq] at hwrite
  have hsame₂ : SameBlocks s₁ s₂ := sameBlocks_of_heap (by rw [← Option.some.inj hwrite])
  have hsame₃ : SameBlocks s₂ s₃ := (unmaps_unmapFrame hun).sameBlocks
  exact (((sameBlocks_modifiedClock hclock).trans hsame₂).trans hsame₃).trans
    (sameBlocks_of_heap rfl)

theorem BlocksOwned.pageFaultHandler (h : BlocksOwned L s others) (hown : FramesOwned L s)
    (hfault : pageFaultHandler L pf env va unset s = some s') : BlocksOwned L s' others := by
  cases pageFaults hfault with
  | replaced _ _ hclock hreplace hplace =>
    have hown₁ := hown.of_sameFrames (hown.sameFrames_modifiedClock hclock)
    obtain ⟨x, -, hspec⟩ := hown₁.pageReplacement_spec hreplace
    exact (h.same (hown.sameBlocks_replacement hclock hreplace)).pagePlacement hspec.owned hplace
  | unreplaced _ _ hplace => exact h.pagePlacement hown hplace
  | placed _ hplace => exact h.pagePlacement hown hplace

theorem sameBlocks_freeResidentPagesLoop :
    ∀ (ws : List WorkingSetElement) {kept : List WorkingSetElement} {s s' : UserMemory P},
      freeResidentPagesLoop L env va size ws s = some (kept, s') → SameBlocks s s'
  | [], kept, s, s', h => by
    obtain ⟨-, rfl⟩ := Prod.mk.inj (Option.some.inj h)
    exact sameBlocks_of_heap rfl
  | x :: rest, kept, s, s', h => by
    unfold freeResidentPagesLoop at h
    dsimp only at h
    split at h
    · obtain ⟨s₁, hun, h⟩ := Option.bind_eq_some_iff.1 h
      exact (unmaps_unmapFrame hun).sameBlocks.trans (sameBlocks_freeResidentPagesLoop rest h)
    · simp only [Option.bind_eq_bind, Option.bind_eq_some_iff] at h
      obtain ⟨⟨kept', s₁⟩, hloop, h⟩ := h
      obtain ⟨-, rfl⟩ := Prod.mk.inj (Option.some.inj h)
      exact sameBlocks_freeResidentPagesLoop rest hloop

theorem BlocksOwned.removeEmptyNonUsedPages :
    ∀ (noOfPages va : Nat) {s s' : UserMemory P}, BlocksOwned L s others → FramesOwned L s →
      removeEmptyNonUsedPages L env va noOfPages s = some s' → BlocksOwned L s' others
  | 0, va, s, s', hb, _, h => by
    obtain rfl := Option.some.inj h
    exact hb
  | noOfPages + 1, va, s, s', hb, hown, h => by
    unfold UserMemory.removeEmptyNonUsedPages at h
    split at h
    · exact BlocksOwned.removeEmptyNonUsedPages noOfPages _ hb hown h
    · next t ht =>
      split at h
      · next hempty =>
        obtain ⟨s₁, hfree, h⟩ := Option.bind_eq_some_iff.1 h
        have hzero : ∀ flag < 1024, t.entries flag = 0#32 := fun flag hflag => by
          simpa using List.all_eq_true.1 hempty flag (List.mem_range.2 hflag)
        exact BlocksOwned.removeEmptyNonUsedPages noOfPages _ (hb.freePageTable hown ht hfree)
          (hown.freePageTable ht hzero hfree) h
      · exact BlocksOwned.removeEmptyNonUsedPages noOfPages _ hb hown h

theorem BlocksOwned.freeMem (h : BlocksOwned L s others) (hown : FramesOwned L s)
    (hfree : s.freeMem L pf env va size = some s') : BlocksOwned L s' others := by
  unfold UserMemory.freeMem freeResidentPagesInTheWorkingSet at hfree
  simp only [Option.bind_eq_bind, Option.bind_eq_some_iff] at hfree
  obtain ⟨s₂, ⟨⟨kept, s₁⟩, hloop, hset⟩, hremove⟩ := hfree
  obtain rfl := Option.some.inj hset
  have hown₀ : FramesOwned L
      { s with pageFile := freeAllPagees pf env va (size / pageSize) s.pageFile } :=
    hown.of_heap_eq rfl
  have hown₁ := FramesOwned.freeResidentPagesLoop _ hown₀ hloop
  have hown₂ : FramesOwned L (s₁.setEnv env ((s₁.envs env).compacted kept)) := hown₁.of_heap_eq rfl
  have hfile : SameBlocks s
      { s with pageFile := freeAllPagees pf env va (size / pageSize) s.pageFile } :=
    sameBlocks_of_heap rfl
  have hsame : SameBlocks s s₁ := hfile.trans (sameBlocks_freeResidentPagesLoop _ hloop)
  have hblocks₂ : BlocksOwned L (s₁.setEnv env ((s₁.envs env).compacted kept)) others :=
    (h.same hsame).same (sameBlocks_of_heap rfl)
  exact BlocksOwned.removeEmptyNonUsedPages _ _ hblocks₂ hown₂ hremove

theorem sameBlocks_access (env va : Nat) (store : Option PageBytes) (s : UserMemory P) :
    SameBlocks s (access env va store s) := by
  unfold access
  cases ht : s.getPageTable env va with
  | none => exact sameBlocks_of_heap rfl
  | some t =>
    dsimp only
    split_ifs
    · cases store with
      | none => exact sameBlocks_setEntry ht rfl
      | some contents => exact (sameBlocks_setEntry ht rfl).trans (sameBlocks_of_heap rfl)
    · exact sameBlocks_of_heap rfl

theorem BlocksOwned.step {c : Call} (h : BlocksOwned L s others) (hown : FramesOwned L s)
    (hstep : step L pf s c = some s') : BlocksOwned L s' others := by
  cases c with
  | fault env va unset => exact h.pageFaultHandler hown hstep
  | allocateMem env va size noSpace =>
    simp only [UserMemory.step, allocateMem] at hstep
    split at hstep
    · cases hstep
    · obtain rfl := Option.some.inj hstep
      exact h.same (sameBlocks_of_heap rfl)
  | freeMem env va size => exact h.freeMem hown hstep
  | access env va store =>
    obtain rfl := Option.some.inj hstep
    exact h.same (sameBlocks_access env va store s)

/-- Every attempt keeps the blocks of the others, and gives each page table one of its own. -/
theorem BlocksOwned.attempt {L : FaultLayout} {buffering : Bool} {ev : Event}
    (h : BlocksOwned L.toUserLayout s others) (hown : FramesOwned L.toUserLayout s)
    (hattempt : s.attempt L pf buffering ev = some s') : BlocksOwned L.toUserLayout s' others := by
  rcases attempt_cases hattempt with ⟨env, va, t, hfinds⟩ | ⟨c, -, hstep⟩
  · exact h.findsPageTable hown hfinds
  · exact h.step hown hstep

/-! ## The bytes behind the heap -/

theorem SameBlocks.backs_iff (h : SameBlocks s s') :
    Backs L.toKernelHeapLayout s'.heap f ↔ Backs L.toKernelHeapLayout s.heap f :=
  KernelHeap.backs_congr h.kernelHeapPages h.initialized h.kernelEntries

theorem Backs.not_mem {s : KernelHeap} {L : KernelHeapLayout} (h : KernelHeap.Invariant L s)
    (hf : Backs L s f) : f ∉ s.memory.freeFrameList := by
  obtain ⟨i, hi, rfl⟩ := hf
  exact h.frameAt_not_mem hi

/-- A page that is placed, and a page that an environment writes, is not behind the heap. -/
theorem FramesOwned.bytes_step {c : Call} (hown : FramesOwned L s)
    (hstep : UserMemory.step L pf s c = some s') (hf : Backs L.toKernelHeapLayout s.heap f) :
    s'.bytes f = s.bytes f := by
  cases c with
  | fault env va unset =>
    cases pageFaults hstep with
    | @replaced v s₁ s₂ _ _ hclock hreplace hplace =>
      have hown₁ := hown.of_sameFrames (hown.sameFrames_modifiedClock hclock)
      obtain ⟨x, -, hreplaced⟩ := hown₁.pageReplacement_spec hreplace
      obtain ⟨g, hplaced⟩ := hreplaced.owned.pagePlacement_spec hplace
      have hf₂ := (hown.sameBlocks_replacement hclock hreplace).backs_iff.2 hf
      have hclock' : s₁.bytes = s.bytes := by
        have hrest : ChangesTables s s₁ := changesTables_modifiedClockLoop 2 hclock
        rw [hrest]
        rfl
      rw [hplaced.bytes f (Backs.not_mem hreplaced.owned.heap hf₂), hreplaced.bytes, hclock']
    | unreplaced _ _ hplace =>
      obtain ⟨g, hplaced⟩ := hown.pagePlacement_spec hplace
      exact hplaced.bytes f (Backs.not_mem hown.heap hf)
    | placed _ hplace =>
      obtain ⟨g, hplaced⟩ := hown.pagePlacement_spec hplace
      exact hplaced.bytes f (Backs.not_mem hown.heap hf)
  | allocateMem env va size noSpace =>
    simp only [UserMemory.step, allocateMem] at hstep
    split at hstep
    · cases hstep
    · obtain rfl := Option.some.inj hstep
      rfl
  | freeMem env va size => rw [freeMem_bytes hstep]
  | access env va store =>
    obtain rfl := Option.some.inj hstep
    by_cases hm : s.Mapped env va
    · rw [bytes_access store hm]
      cases store with
      | none => rfl
      | some contents =>
        refine Function.update_of_ne (fun heq => ?_) _ _
        obtain ⟨i, hi, hat⟩ := hf
        exact (hown.held hm.ne_zero).notHeap i hi (hat.trans heq)
    · have hsame : UserMemory.access env va store s = s := by
        unfold UserMemory.access
        cases ht : s.getPageTable env va with
        | none => rfl
        | some t =>
          rw [Mapped, userEntry_of_some ht] at hm
          exact if_neg hm
      rw [hsame]

/-- No attempt writes to a frame behind the heap. -/
theorem bytes_attempt {L : FaultLayout} {buffering : Bool} {ev : Event}
    (hown : FramesOwned L.toUserLayout s) (hattempt : s.attempt L pf buffering ev = some s')
    (hf : Backs L.toKernelHeapLayout s.heap f) : s'.bytes f = s.bytes f := by
  rcases attempt_cases hattempt with ⟨env, va, t, hfinds⟩ | ⟨c, -, hstep⟩
  · exact (hown.findsPageTable_spec hfinds).bytes f (Backs.not_mem hown.heap hf)
  · exact hown.bytes_step hstep hf

theorem smallUserMemory_blocksOwned (size : Nat → Nat) :
    BlocksOwned smallUserLayout (smallUserMemory size) fun _ => none := by
  refine ⟨nofun, nofun, nofun, fun {b taken} hb => ?_⟩
  have hinit := KernelHeap.initialized_of_isBlock hb.1
  cases hinit

end UserMemory

end FosKernel
