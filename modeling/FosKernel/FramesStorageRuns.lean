import FosKernel.FramesStorage

/-!
# Runs of the frames storage

`clear_frames_storage` frees the page tables of the storage, entry by entry
(`StorageOk.clear`). `storageStep` is a call on a storage, or what the rest of the kernel does
with other blocks, beside the map that the storage stands for.

`framesStorage_finiteMap` : if the page of the storage was zero, and the page tables are found
or made in every call, the storage is a finite map in every state reached.
`uncleared_counterexample` is a storage in a page that was not zero.
-/

namespace FosKernel

namespace TableMemory

variable {L : KernelHeapLayout} {D : KernelDirectory} {fuel : Nat} {m m' : TableMemory}
  {s₀ : KernelHeap}

/-! ## Clearing the storage -/

/-- The one-page blocks at `pages` are freed, in this order, and nothing else. -/
structure Frees (L : KernelHeapLayout) (pages : List Nat) (s s' : KernelHeap) : Prop where
  owner : ∀ p, KernelHeap.owner L s' p = if p ∈ pages then none else KernelHeap.owner L s p
  frames : s'.memory.freeFrameList =
    (pages.map (KernelHeap.frameAt L s)).reverse ++ s.memory.freeFrameList
  entries : ∀ p, p ∉ pages → KernelHeap.entry L s' p = KernelHeap.entry L s p
  hand : s'.lastAllocatedKHpage = s.lastAllocatedKHpage

namespace Frees

variable {s s' s'' : KernelHeap} {pages : List Nat} {t u f : Nat}

theorem refl (s : KernelHeap) : Frees L [] s s :=
  ⟨fun _ => rfl, rfl, fun _ _ => rfl, rfl⟩

theorem cons (h : Frees L [t] s s') (h' : Frees L pages s' s'') (ht : t ∉ pages) :
    Frees L (t :: pages) s s'' := by
  have hframes : pages.map (KernelHeap.frameAt L s') = pages.map (KernelHeap.frameAt L s) := by
    refine List.map_congr_left fun p hp => ?_
    have hne : p ≠ t := fun heq => ht (heq ▸ hp)
    rw [KernelHeap.frameAt, h.entries p (by simpa using hne), KernelHeap.frameAt]
  refine ⟨fun p => ?_, ?_, fun p hp => ?_, h'.hand.trans h.hand⟩
  · rw [h'.owner, h.owner]
    by_cases hpt : p = t <;> by_cases hp : p ∈ pages <;> simp [hpt, hp]
  · rw [h'.frames, h.frames, hframes]
    simp
  · rw [List.mem_cons, not_or] at hp
    rw [h'.entries p hp.2, h.entries p (by simpa using hp.1)]

/-- `kfree` of a page. -/
theorem of_unmapped (h : KernelHeap.Unmapped L s t (t + 1) s') : Frees L [t] s s' := by
  have hmem : ∀ p, p ∈ [t] ↔ t ≤ p ∧ p < t + 1 := fun p => by
    rw [List.mem_singleton]
    omega
  refine ⟨fun p => ?_, ?_, fun p hp => h.entries p (mt (hmem p).2 hp), h.hand⟩
  · rw [h.owner p]
    exact if_congr (hmem p).symm rfl rfl
  · rw [h.frames, Nat.add_sub_cancel_left]
    rfl

/-- Another page stays. -/
theorem holds (h : Frees L [t] s s') (hb : KernelHeap.Holds L s u [f]) (hne : u ≠ t) :
    KernelHeap.Holds L s' u [f] := by
  have hown : ∀ p, KernelHeap.owner L s' p = some u ↔ KernelHeap.owner L s p = some u := by
    intro p
    rw [h.owner]
    split_ifs with hp
    · obtain rfl := List.mem_singleton.1 hp
      refine iff_of_false (by simp) fun hpu => hne ?_
      have := (hb.1.2 p).1 hpu
      simp only [List.length_singleton] at this
      omega
    · rfl
  refine ⟨⟨hb.1.1, fun p => (hown p).trans (hb.1.2 p)⟩, fun k hk => ?_⟩
  obtain rfl := Nat.lt_one_iff.1 hk
  rw [KernelHeap.frameAt, h.entries _ (by simpa using hne)]
  exact hb.2 0 hk

end Frees

section Clear

variable {s F i k t f : Nat} {tables : Nat → Option (Nat × Nat)} {map : Nat → Option Nat}

namespace StorageOk

variable (h : StorageOk L D s F tables map m)

include h

/-- The map without the indexes of directory entry `k`. -/
theorem cleared {heap : KernelHeap} (hk : tables k = some (t, f))
    (hinv : KernelHeap.Invariant L heap) (hres : KernelHeap.Reserved L heap)
    (hfrees : Frees L [t] m.heap heap) :
    StorageOk L D s F (Function.update tables k none)
      (fun i => if i / 1024 = k then none else map i)
      ⟨heap, writeWord m.words F k 0#32⟩ := by
  have hother : ∀ {k' u g}, Function.update tables k none k' = some (u, g) →
      k' ≠ k ∧ tables k' = some (u, g) := fun hu => by
    rcases update_tables.1 hu with ⟨-, heq⟩ | hu
    · cases heq
    · exact hu
  refine ⟨hinv, hres, hfrees.holds h.storage (h.table k t f hk).1.symm, fun k' u g hu => ?_,
    fun k' hk' => ?_, fun k₁ k₂ u g g' h₁ h₂ => ?_, fun k' hk' => ?_, fun i hi hnone => ?_,
    fun i hi u g hu => ?_, fun i g hi hg => ?_⟩
  · obtain ⟨hne, hu⟩ := hother hu
    obtain ⟨hus, hb⟩ := h.table k' u g hu
    refine ⟨hus, hfrees.holds hb fun heq => hne (h.distinct k' k u g f hu (heq ▸ hk))⟩
  · refine h.lt k' fun hnone => hk' ?_
    rw [Function.update_apply, hnone, ite_self]
  · exact h.distinct k₁ k₂ u g g' (hother h₁).2 (hother h₂).2
  · change writeWord m.words F k 0#32 F k' = _
    rw [writeWord_apply]
    by_cases hkk : k' = k
    · rw [if_pos ⟨rfl, hkk⟩, hkk, Function.update_self]
      rfl
    · rw [if_neg fun hat => hkk hat.2, Function.update_of_ne hkk]
      exact h.entry k' hk'
  · by_cases hik : i / 1024 = k
    · exact if_pos hik
    · rw [Function.update_of_ne hik] at hnone
      rw [if_neg hik]
      exact h.empty i hi hnone
  · obtain ⟨hne, hu⟩ := hother hu
    change writeWord m.words F k 0#32 g _ = _
    rw [writeWord_apply, if_neg fun hat => h.table_ne hu hat.1, if_neg hne]
    exact h.value i hi u g hu
  · split_ifs at hg
    exact h.frames i g hi hg

/-- One trip of the loop, at an entry with a page table. -/
theorem clearEntry_some (hd : KernelHeap.DirectoryBoot L D s₀) (hfuel : L.pages + 2 ≤ fuel)
    (hk : tables k = some (t, f)) (hle : L.addr t ≤ m.heap.lastAllocatedKHpage) :
    ∃ m', clearStorageEntry L D fuel (L.addr s) k m = some m' ∧
      StorageOk L D s F (Function.update tables k none)
        (fun i => if i / 1024 = k then none else map i) m' ∧ Frees L [t] m.heap m'.heap := by
  obtain ⟨hts, hb⟩ := h.table k t f hk
  obtain ⟨heap, hkfree, hun⟩ := KernelHeap.kfree_block h.invariant
    (KernelHeap.initialized_of_isBlock hb.1) hb.1
  have hstep : KernelHeap.step L m.heap (.kfree (L.addr t)) = some heap := hkfree
  have hinv := (KernelHeap.step_invariant h.invariant hstep).1
  have hfrees := Frees.of_unmapped hun
  have hmade := h.cleared hk hinv (KernelHeap.step_reserved h.invariant h.reserved hstep) hfrees
  have hentry : m.words F k = directoryEntry (some (t, f)) := by
    rw [h.entry k (h.lt k (by simp [hk])), hk]
  have hne : directoryEntry (some (t, f)) ≠ 0#32 := (isPresent_directoryEntry t f).ne_zero
  have hsearch := KernelHeap.kheapVirtualAddress_found hd h.invariant hfuel hb hle
  have hbehind : TableMemory.frameBehind ⟨heap, m.words⟩ (L.addr s) = some F :=
    frameBehind_page hinv (hfrees.holds h.storage hts.symm)
  refine ⟨_, ?_, hmade, hfrees⟩
  simp only [clearStorageEntry, h.frameBehind, Option.bind_some, hentry, ne_eq, hne,
    not_false_eq_true, if_true, extractAddress_directoryEntry, hsearch, hkfree, hbehind,
    Option.map_some]

/-- One trip of the loop, at an entry without one. -/
theorem clearEntry_none (hk : k < 1024) (hnone : tables k = none) :
    clearStorageEntry L D fuel (L.addr s) k m = some m := by
  have hentry : m.words F k = 0#32 := by
    rw [h.entry k hk, hnone]
    rfl
  simp only [clearStorageEntry, h.frameBehind, Option.bind_some, hentry, ne_eq, not_true_eq_false,
    if_false]

end StorageOk

/-- The pages of the page tables of the `n` directory entries from entry `i` on. -/
def tablePages (tables : Nat → Option (Nat × Nat)) (i n : Nat) : List Nat :=
  (List.range' i n).filterMap fun k => (tables k).map Prod.fst

theorem mem_tablePages {n : Nat} : t ∈ tablePages tables i n ↔
    ∃ k f, (i ≤ k ∧ k < i + n) ∧ tables k = some (t, f) := by
  rw [tablePages, List.mem_filterMap]
  constructor
  · rintro ⟨k, hk, hmap⟩
    obtain ⟨⟨u, f⟩, htable, rfl⟩ := Option.map_eq_some_iff.1 hmap
    exact ⟨k, f, List.mem_range'_1.1 hk, htable⟩
  · rintro ⟨k, f, hk, htable⟩
    refine ⟨k, List.mem_range'_1.2 hk, ?_⟩
    rw [htable]
    rfl

theorem tablePages_succ (n : Nat) : tablePages tables i (n + 1) =
    ((tables i).map Prod.fst).toList ++ tablePages tables (i + 1) n := by
  rw [tablePages, List.range'_succ, List.filterMap_cons]
  cases tables i <;> rfl

/-- An entry before the first one does not matter. -/
theorem tablePages_update (o : Option (Nat × Nat)) (n : Nat) :
    tablePages (Function.update tables i o) (i + 1) n = tablePages tables (i + 1) n := by
  refine List.filterMap_congr fun k hk => ?_
  have hne : k ≠ i := by
    rw [List.mem_range'_1] at hk
    omega
  rw [Function.update_of_ne hne]

theorem StorageOk.nodup_tablePages (h : StorageOk L D s F tables map m) :
    ∀ n i, (tablePages tables i n).Nodup
  | 0, _ => List.nodup_nil
  | n + 1, i => by
    rw [tablePages_succ]
    cases hi : tables i with
    | none => exact h.nodup_tablePages n (i + 1)
    | some tf =>
      obtain ⟨t, f⟩ := tf
      refine List.nodup_cons.2 ⟨fun hmem => ?_, h.nodup_tablePages n (i + 1)⟩
      obtain ⟨k, f', ⟨hlo, -⟩, hk⟩ := mem_tablePages.1 hmem
      have hik := h.distinct i k t f f' hi hk
      omega

/-- The loop of `clear_frames_storage` frees the page tables from an entry on. -/
theorem StorageOk.clearLoop (hd : KernelHeap.DirectoryBoot L D s₀) (hfuel : L.pages + 2 ≤ fuel) :
    ∀ (n i : Nat) {m : TableMemory} {tables : Nat → Option (Nat × Nat)} {map : Nat → Option Nat},
      StorageOk L D s F tables map m → i + n = 1024 → (∀ k, k < i → tables k = none) →
      (∀ k t f, tables k = some (t, f) → L.addr t ≤ m.heap.lastAllocatedKHpage) →
      ∃ m', clearStorageLoop L D fuel (L.addr s) n i m = some m' ∧
        StorageOk L D s F (fun _ => none) (fun _ => none) m' ∧
        Frees L (tablePages tables i n) m.heap m'.heap
  | 0, i, m, tables, map, h, hin, hbefore, _ => by
    have hnone : tables = fun _ => none := by
      ext k : 1
      by_contra hk
      exact hk (hbefore k (by have := h.lt k hk; omega))
    subst hnone
    refine ⟨m, rfl, ⟨h.invariant, h.reserved, h.storage, h.table, h.lt, h.distinct, h.entry,
      fun _ _ _ => rfl, fun i hi t f hk => ?_, fun i f hi hf => ?_⟩, Frees.refl _⟩
    · cases hk
    · cases hf
  | n + 1, i, m, tables, map, h, hin, hbefore, hhand => by
    rw [clearStorageLoop, tablePages_succ]
    cases hi : tables i with
    | none =>
      rw [h.clearEntry_none (by omega) hi, Option.bind_some]
      refine clearLoop hd hfuel n (i + 1) h (by omega) (fun k hk => ?_) hhand
      rcases Nat.lt_succ_iff_lt_or_eq.1 hk with hlt | rfl
      · exact hbefore k hlt
      · exact hi
    | some tf =>
      obtain ⟨t, f⟩ := tf
      obtain ⟨m₁, hclear, h₁, hfrees⟩ := h.clearEntry_some hd hfuel hi (hhand i t f hi)
      rw [hclear, Option.bind_some]
      have hbefore₁ : ∀ k, k < i + 1 → Function.update tables i none k = none := by
        intro k hk
        by_cases hki : k = i
        · rw [hki, Function.update_self]
        · rw [Function.update_of_ne hki]
          exact hbefore k (by omega)
      have hhand₁ : ∀ k u g, Function.update tables i none k = some (u, g) →
          L.addr u ≤ m₁.heap.lastAllocatedKHpage := by
        intro k u g hk
        rw [Function.update_apply] at hk
        split_ifs at hk
        rw [hfrees.hand]
        exact hhand k u g hk
      obtain ⟨m', hloop, h', hrest⟩ := clearLoop hd hfuel n (i + 1) h₁ (by omega) hbefore₁ hhand₁
      rw [tablePages_update] at hrest
      have hnodup := h.nodup_tablePages (n + 1) i
      rw [tablePages_succ, hi] at hnodup
      exact ⟨m', hloop, h', hfrees.cons hrest (List.nodup_cons.1 hnodup).1⟩

/-- `clear_frames_storage` empties the map and frees the page tables. -/
theorem StorageOk.clear (h : StorageOk L D s F tables map m)
    (hd : KernelHeap.DirectoryBoot L D s₀) (hfuel : L.pages + 2 ≤ fuel)
    (hbelow : ∀ k, k < 1024 → BelowHand L m (L.addr s) k) :
    ∃ m', clearFramesStorage L D fuel m (L.addr s) = some m' ∧
      StorageOk L D s F (fun _ => none) (fun _ => none) m' ∧
      Frees L (tablePages tables 0 1024) m.heap m'.heap :=
  clearLoop hd hfuel 1024 0 h rfl (fun k hk => absurd hk (Nat.not_lt_zero k))
    fun k _ _ hk => h.le_hand (hbelow k (h.lt k (by simp [hk]))) hk

end Clear

/-! ## Runs -/

/-- What a storage stands for : the frame added last at each index, and the heap pages that
its page tables were made in. -/
structure StorageSpec where
  map : Nat → Option Nat
  pageTables : Set Nat

/-- Nothing was added. -/
def StorageSpec.new : StorageSpec :=
  ⟨fun _ => none, ∅⟩

/-- The calls on a storage, the calls of others on the heap, and writes to their memory. -/
inductive StorageCall where
  | add (frame index : Nat)
  | clear
  | heap (c : KernelHeap.Call)
  | write (frame i : Nat) (e : Entry)

/-- The blocks of `s'` that are not blocks of `s`. -/
def newBlocks (L : KernelHeapLayout) (s s' : KernelHeap) : Set Nat :=
  {t | KernelHeap.owner L s' t = some t ∧ KernelHeap.owner L s t ≠ some t}

/-- One call, with what the storage stands for after it. -/
def storageStep (L : KernelHeapLayout) (D : KernelDirectory) (fuel framesStorage : Nat) :
    TableMemory × StorageSpec → StorageCall → Option (TableMemory × StorageSpec)
  | (m, spec), .add frame index =>
    (addFrameToStorage L D fuel m framesStorage frame index).map fun m' =>
      (m', ⟨Function.update spec.map index (some frame),
        spec.pageTables ∪ newBlocks L m.heap m'.heap⟩)
  | (m, _), .clear => (clearFramesStorage L D fuel m framesStorage).map fun m' => (m', .new)
  | (m, spec), .heap c =>
    (KernelHeap.promptStep L m.heap c).map fun heap => ({ m with heap := heap }, spec)
  | (m, spec), .write frame i e => some ({ m with words := writeWord m.words frame i e }, spec)

/-- The others free no block of the storage and write to none of its frames, and what is added
is a frame, at an index below the kernel. -/
def Allowed (L : KernelHeapLayout) (D : KernelDirectory) (framesStorage : Nat) :
    TableMemory × StorageSpec → StorageCall → Prop
  | _, .add frame index => frame < L.numberOfFrames ∧ index < D.kernelBase / pageSize
  | _, .clear => True
  | (_, spec), .heap c =>
    c ≠ .kfree framesStorage ∧ ∀ t ∈ spec.pageTables, c ≠ .kfree (L.addr t)
  | (m, spec), .write frame _ _ =>
    m.frameBehind framesStorage ≠ some frame ∧
      ∀ t ∈ spec.pageTables, frame ≠ KernelHeap.frameAt L m.heap t

/-- The call finds the page tables that it needs, or makes the one that is missing. -/
def FindsTables (L : KernelHeapLayout) (framesStorage : Nat) :
    TableMemory × StorageSpec → StorageCall → Prop
  | (m, _), .add _ index => CanAdd L m framesStorage (index / 1024)
  | (m, _), .clear => ∀ k, k < 1024 → BelowHand L m framesStorage k
  | _, .heap _ => True
  | _, .write _ _ _ => True

/-- The storage is the finite map that it stands for, wherever the page tables are found or
made : a frame is read back, adding one changes its index only, and clearing the storage
empties it and frees exactly its page tables. -/
structure FiniteMap (L : KernelHeapLayout) (D : KernelDirectory) (fuel framesStorage : Nat)
    (m : TableMemory) (spec : StorageSpec) : Prop where
  get : ∀ i, i < D.kernelBase / pageSize → CanFind L m framesStorage (i / 1024) →
    getFrameFromStorage L D fuel m framesStorage i = some (spec.map i)
  add : ∀ f i, f < L.numberOfFrames → i < D.kernelBase / pageSize →
    CanAdd L m framesStorage (i / 1024) →
    ∃ m', addFrameToStorage L D fuel m framesStorage f i = some m' ∧
      ∀ j, j < D.kernelBase / pageSize → CanFind L m' framesStorage (j / 1024) →
        getFrameFromStorage L D fuel m' framesStorage j =
          some (Function.update spec.map i (some f) j)
  clear : (∀ k, k < 1024 → BelowHand L m framesStorage k) →
    ∃ m', clearFramesStorage L D fuel m framesStorage = some m' ∧
      (∀ i, i < D.kernelBase / pageSize → CanFind L m' framesStorage (i / 1024) →
        getFrameFromStorage L D fuel m' framesStorage i = some none) ∧
      ∃ pages : List Nat, pages.Nodup ∧ (∀ t, t ∈ pages ↔ t ∈ spec.pageTables) ∧
        Frees L pages m.heap m'.heap

section Runs

variable {s F : Nat} {x x' : TableMemory × StorageSpec}

/-- The pages of the page tables. -/
def pagesOf (tables : Nat → Option (Nat × Nat)) : Set Nat :=
  {t | ∃ k f, tables k = some (t, f)}

theorem pagesOf_none : pagesOf (fun _ => none) = ∅ := by
  refine Set.eq_empty_of_forall_notMem ?_
  rintro t ⟨k, f, hk⟩
  cases hk

/-- One page table more. -/
theorem pagesOf_update {tables : Nat → Option (Nat × Nat)} {k t f : Nat} (hnone : tables k = none) :
    pagesOf (Function.update tables k (some (t, f))) = pagesOf tables ∪ {t} := by
  ext u
  rw [Set.mem_union, Set.mem_singleton_iff]
  constructor
  · rintro ⟨j, g, hj⟩
    rcases update_tables.1 hj with ⟨-, heq⟩ | ⟨-, hj⟩
    · exact Or.inr (Prod.mk.inj (Option.some.inj heq)).1.symm
    · exact Or.inl ⟨j, g, hj⟩
  · rintro (⟨j, g, hj⟩ | rfl)
    · refine ⟨j, g, update_tables.2 (Or.inr ⟨fun heq => ?_, hj⟩)⟩
      rw [heq, hnone] at hj
      cases hj
    · exact ⟨k, f, Function.update_self _ _ _⟩

/-- The storage stands for the map, with page tables in the pages that it stands for. -/
def StorageInv (L : KernelHeapLayout) (D : KernelDirectory) (s F : Nat)
    (x : TableMemory × StorageSpec) : Prop :=
  ∃ tables, StorageOk L D s F tables x.2.map x.1 ∧ x.2.pageTables = pagesOf tables

theorem newBlocks_self (h : KernelHeap) : newBlocks L h h = ∅ := by
  refine Set.eq_empty_of_forall_notMem fun t ht => ?_
  exact ht.2 ht.1

/-- One page is one new block. -/
theorem newBlocks_allocated {h h' : KernelHeap} {t : Nat} (hal : KernelHeap.Allocated L h t 1 h') :
    newBlocks L h h' = {t} := by
  ext u
  rw [Set.mem_singleton_iff, newBlocks, Set.mem_ofPred_eq, hal.owner]
  constructor
  · rintro ⟨hclaim, hold⟩
    by_contra hne
    refine hold ?_
    rwa [BlockMap.claim_of_not_mem fun hat => hne (by omega)] at hclaim
  · rintro rfl
    refine ⟨BlockMap.claim_of_mem ⟨le_rfl, by omega⟩, ?_⟩
    rw [hal.free u le_rfl (by omega)]
    exact (Option.some_ne_none u).symm

/-- What each call preserves. -/
theorem storageStep_inv (hd : KernelHeap.DirectoryBoot L D s₀) (hfuel : L.pages + 2 ≤ fuel)
    {c : StorageCall} (h : StorageInv L D s F x)
    (hallowed : Allowed L D (L.addr s) x c) (hfinds : FindsTables L (L.addr s) x c)
    (hstep : storageStep L D fuel (L.addr s) x c = some x') : StorageInv L D s F x' := by
  obtain ⟨m, spec⟩ := x
  obtain ⟨tables, hok, hpages⟩ := h
  dsimp only at hok hpages
  cases c with
  | add frame index =>
    obtain ⟨m₁, hadd, rfl⟩ := Option.map_eq_some_iff.1 hstep
    obtain ⟨m₂, tables', hadd', hok', hmade⟩ := hok.add hd hfuel hallowed.2 hfinds hallowed.1
    obtain rfl := Option.some.inj (hadd.symm.trans hadd')
    refine ⟨tables', hok', ?_⟩
    dsimp only
    rcases hmade with ⟨rfl, hheap⟩ | ⟨t, f, hnone, rfl, hal⟩
    · rw [hheap, newBlocks_self, Set.union_empty, hpages]
    · rw [newBlocks_allocated hal, hpages, pagesOf_update hnone]
  | clear =>
    obtain ⟨m₁, hclear, rfl⟩ := Option.map_eq_some_iff.1 hstep
    obtain ⟨m₂, hclear', hok', -⟩ := hok.clear hd hfuel hfinds
    obtain rfl := Option.some.inj (hclear.symm.trans hclear')
    exact ⟨fun _ => none, hok', pagesOf_none.symm⟩
  | heap c =>
    obtain ⟨heap, hheap, rfl⟩ := Option.map_eq_some_iff.1 hstep
    refine ⟨tables, hok.heapCall hheap hallowed.1 fun k t f hk => hallowed.2 t ?_, hpages⟩
    rw [hpages]
    exact ⟨k, f, hk⟩
  | write frame i e =>
    obtain rfl := Option.some.inj hstep
    obtain ⟨hstorage, htables⟩ := hallowed
    have hne : frame ≠ F := fun heq => hstorage (hok.frameBehind.trans (congrArg some heq.symm))
    refine ⟨tables, hok.write hne (fun k t f hk => ?_) i e, hpages⟩
    have hframe : KernelHeap.frameAt L m.heap t = f := (hok.table k t f hk).2.2 0 Nat.one_pos
    rw [← hframe]
    refine htables t ?_
    rw [hpages]
    exact ⟨k, f, hk⟩

/-- The invariant makes the storage the map. -/
theorem StorageInv.finiteMap (hd : KernelHeap.DirectoryBoot L D s₀) (hfuel : L.pages + 2 ≤ fuel)
    (h : StorageInv L D s F x) : FiniteMap L D fuel (L.addr s) x.1 x.2 := by
  obtain ⟨tables, hok, hpages⟩ := h
  refine ⟨fun i hi => hok.get hd hfuel hi, fun f i hf hi hcan => ?_, fun hbelow => ?_⟩
  · obtain ⟨m', tables', hadd, hok', -⟩ := hok.add hd hfuel hi hcan hf
    exact ⟨m', hadd, fun j hj => hok'.get hd hfuel hj⟩
  · obtain ⟨m', hclear, hok', hfrees⟩ := hok.clear hd hfuel hbelow
    refine ⟨m', hclear, fun i hi => hok'.get hd hfuel hi, _, hok.nodup_tablePages 1024 0,
      fun t => ?_, hfrees⟩
    rw [mem_tablePages, hpages]
    refine exists_congr fun k => exists_congr fun f => and_iff_right_of_imp fun hk => ?_
    exact ⟨Nat.zero_le k, by have := hok.lt k (by simp [hk]); omega⟩

/-- A storage in a page that is zero is empty. -/
theorem createFramesStorage_inv {framesStorage : Nat} (h : KernelHeap.Invariant L m.heap)
    (hr : KernelHeap.Reserved L m.heap)
    (hcreate : createFramesStorage L m = some (framesStorage, m'))
    (hzero : ∀ f, m.heap.memory.freeFrameList.head? = some f → ∀ i, i < 1024 →
      m.words f i = 0#32) :
    ∃ s F, framesStorage = L.addr s ∧ StorageInv L D s F (m', StorageSpec.new) := by
  obtain ⟨⟨p, heap⟩, hk, hsome⟩ := Option.bind_eq_some_iff.1 hcreate
  dsimp only at hsome
  split_ifs at hsome with hp
  obtain ⟨rfl, rfl⟩ := Prod.mk.inj (Option.some.inj hsome)
  obtain ⟨hinv, ⟨hnull, -⟩ | ⟨s, rfl, -, hal⟩⟩ := KernelHeap.kmalloc_spec h hk
  · exact absurd hnull hp
  · have hone : roundUp pageSize pageSize / pageSize = 1 := by decide
    rw [hone] at hal
    obtain ⟨taken, hlist, hlen, hframes⟩ := hal.frames
    obtain ⟨F, rfl⟩ := List.length_eq_one_iff.1 hlen
    have hholds : KernelHeap.Holds L heap s [F] := by
      refine ⟨?_, hframes⟩
      rw [hal.owner]
      exact BlockMap.isBlock_claim h.contiguous hal.free Nat.one_pos
    refine ⟨s, F, rfl, fun _ => none, ⟨hinv, hal.reserved hr, hholds, fun _ _ _ hk => ?_,
      fun _ hk => absurd rfl hk, fun _ _ _ _ _ hk => ?_, hzero F (by rw [hlist]; rfl),
      fun _ _ _ => rfl, fun _ _ _ _ hk => ?_, fun _ _ _ hk => ?_⟩, pagesOf_none.symm⟩
    · cases hk
    · cases hk
    · cases hk
    · cases hk

end Runs

/-- In every run on a storage whose page was zero, in which each call finds or makes its page
tables, the storage is the finite map that it stands for. -/
theorem framesStorage_finiteMap (h₀ : KernelHeap.Boot L s₀) (hd : KernelHeap.DirectoryBoot L D s₀)
    {heapCalls : List KernelHeap.Call}
    (hr : Machine.run (KernelHeap.promptStep L) s₀ heapCalls = some m.heap) {framesStorage : Nat}
    (hcreate : createFramesStorage L m = some (framesStorage, m'))
    (hzero : ∀ f, m.heap.memory.freeFrameList.head? = some f → ∀ i, i < 1024 →
      m.words f i = 0#32)
    (hfuel : L.pages + 2 ≤ fuel) {calls : List StorageCall} {x : TableMemory × StorageSpec}
    (hmeets : Machine.Meets (storageStep L D fuel framesStorage)
      (fun y c => Allowed L D framesStorage y c ∧ FindsTables L framesStorage y c)
      (m', .new) calls)
    (hrun : Machine.run (storageStep L D fuel framesStorage) (m', .new) calls = some x) :
    FiniteMap L D fuel framesStorage x.1 x.2 := by
  obtain ⟨hinv, hres⟩ := KernelHeap.prompt_run_reserved h₀ hd hr
  obtain ⟨s, F, rfl, hstart⟩ := createFramesStorage_inv (D := D) hinv hres hcreate hzero
  refine StorageInv.finiteMap hd hfuel (Machine.run_induction_of_meets
    (P := StorageInv L D s F) (fun y c y' hy hok hc => ?_) hstart hmeets hrun)
  exact storageStep_inv hd hfuel hy hok.1 hok.2 hc

/-- The small heap with its first page allocated. -/
def storageHeap : KernelHeap :=
  ((KernelHeap.smallHeap.kmalloc KernelHeap.smallLayout pageSize).getD
    (0, KernelHeap.smallHeap)).2

/-- A storage made right after boot, with the words `w` in memory. -/
def smallStorage (w : Words) : TableMemory :=
  ⟨storageHeap, w⟩

theorem smallStorage_create (w : Words) :
    createFramesStorage KernelHeap.smallLayout ⟨KernelHeap.smallHeap, w⟩ =
      some (0xF6000000, smallStorage w) := by
  have hpage : (KernelHeap.smallHeap.kmalloc KernelHeap.smallLayout pageSize).map Prod.fst =
      some 0xF6000000 := by decide
  obtain ⟨⟨p, heap⟩, hk, rfl⟩ := Option.map_eq_some_iff.1 hpage
  rw [createFramesStorage, hk, smallStorage, storageHeap, hk]
  rfl

/-- The page of the storage is the only one in use, and it is below the hand. -/
theorem smallStorage_canFind (w : Words) (k : Nat) :
    CanFind KernelHeap.smallLayout (smallStorage w) 0xF6000000 k := by
  have hhand : (smallStorage w).heap.lastAllocatedKHpage = 0xF6001000 := by
    change storageHeap.lastAllocatedKHpage = _
    decide
  have hempty : ∀ t, t < 3 → t ≠ 0 → (storageHeap.kernelHeapPages t).isEmpty = true := by decide
  refine ⟨fun t ht hne _ => ?_, fun _ => ?_⟩
  · by_cases ht0 : t = 0
    · rw [ht0, hhand]
      decide
    · exact absurd (hne.2.symm.trans (hempty t ht ht0)) Bool.false_ne_true
  · rw [hhand]
    decide

theorem smallStorage_canAdd (w : Words) (k : Nat) :
    CanAdd KernelHeap.smallLayout (smallStorage w) 0xF6000000 k := by
  have hstrategy : storageHeap.kHeapPlacementStrategy = .bestFit := by decide
  have hlast : (storageHeap.kernelHeapPages 2).isEmpty = true := by decide
  have hframes : storageHeap.memory.freeFrameList = [3, 2, 1] := by decide
  refine ⟨smallStorage_canFind w k, fun _ => ⟨Or.inr ⟨?_, fun hne => ?_⟩, ?_⟩⟩
  · change storageHeap.kHeapPlacementStrategy ≠ _
    rw [hstrategy]
    decide
  · exact absurd (hne.2.symm.trans hlast) Bool.false_ne_true
  · change storageHeap.memory.freeFrameList ≠ []
    rw [hframes]
    exact List.cons_ne_nil _ _

theorem smallStorage_finiteMap : ∃ x,
    Machine.run (storageStep KernelHeap.smallLayout KernelHeap.smallDirectory 5 0xF6000000)
      (smallStorage fun _ _ => 0#32, .new) [.add 3 5] = some x ∧
    FiniteMap KernelHeap.smallLayout KernelHeap.smallDirectory 5 0xF6000000 x.1 x.2 := by
  have hrun : (Machine.run (storageStep KernelHeap.smallLayout KernelHeap.smallDirectory 5
      0xF6000000) (smallStorage fun _ _ => 0#32, .new) [.add 3 5]).isSome = true := by decide
  obtain ⟨x, hx⟩ := Option.isSome_iff_exists.1 hrun
  refine ⟨x, hx, framesStorage_finiteMap (m := ⟨KernelHeap.smallHeap, fun _ _ => 0#32⟩)
    KernelHeap.smallHeap_boot KernelHeap.smallDirectory_boot
    (Machine.run_nil (KernelHeap.promptStep KernelHeap.smallLayout) KernelHeap.smallHeap)
    (smallStorage_create _) (fun _ _ _ _ => rfl) (by decide) ?_ hx⟩
  have hallowed : 3 < KernelHeap.smallLayout.numberOfFrames ∧
      5 < KernelHeap.smallDirectory.kernelBase / pageSize := by decide
  exact ⟨⟨hallowed, smallStorage_canAdd _ 0⟩, fun _ _ => trivial⟩

/-- The first free frame holds a word that names the frame itself : the new storage has a frame
at index 0. -/
theorem uncleared_counterexample :
    createFramesStorage KernelHeap.smallLayout
        ⟨KernelHeap.smallHeap, fun f i => if f = 4 ∧ i = 0 then 0x4007#32 else 0#32⟩ =
      some (0xF6000000, smallStorage fun f i => if f = 4 ∧ i = 0 then 0x4007#32 else 0#32) ∧
    getFrameFromStorage KernelHeap.smallLayout KernelHeap.smallDirectory 5
        (smallStorage fun f i => if f = 4 ∧ i = 0 then 0x4007#32 else 0#32) 0xF6000000 0 =
      some (some 4) ∧
    ¬FiniteMap KernelHeap.smallLayout KernelHeap.smallDirectory 5 0xF6000000
      (smallStorage fun f i => if f = 4 ∧ i = 0 then 0x4007#32 else 0#32) .new := by
  have hget : getFrameFromStorage KernelHeap.smallLayout KernelHeap.smallDirectory 5
      (smallStorage fun f i => if f = 4 ∧ i = 0 then 0x4007#32 else 0#32) 0xF6000000 0 =
      some (some 4) := by decide
  refine ⟨smallStorage_create _, hget, fun hmap => ?_⟩
  have hempty := hmap.get 0 (by decide) (smallStorage_canFind _ 0)
  rw [hget] at hempty
  cases hempty

end TableMemory

end FosKernel
