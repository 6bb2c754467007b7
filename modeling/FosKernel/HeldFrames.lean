import FosKernel.KernelHeapKfree

/-!
# Frames held outside the kernel heap

A frame that is neither free nor behind a page of the heap is held by somebody else : an
environment, or a caller of `allocate_frame` on its way to `map_frame`. `kmalloc` and
`kfree` leave it and its counter alone (`HeldFrame.kmalloc`, `HeldFrame.kfree`), and the
heap does not depend on it (`Invariant.setMemory`).
-/

namespace FosKernel

namespace KernelHeap

variable {L : KernelHeapLayout} {s s' : KernelHeap} {f g : Nat} {k : Int} {m : Memory}

/-- Frame `f` is neither free nor behind a page of the heap, and has `k` references. -/
structure HeldFrame (L : KernelHeapLayout) (s : KernelHeap) (f : Nat) (k : Int) : Prop where
  lt : f < L.numberOfFrames
  notFree : f ∉ s.memory.freeFrameList
  notHeap : ∀ i, (owner L s i).isSome → frameAt L s i ≠ f
  references : (s.memory.framesInfo f).references = k

/-! ## kmalloc -/

theorem HeldFrame.prepared (hf : HeldFrame L s f k) : HeldFrame L (prepared L s) f k := by
  refine ⟨hf.lt, ?_, fun i hi => ?_, ?_⟩
  · rw [prepared_memory]
    exact hf.notFree
  · rw [prepared_owner] at hi
    rw [frameAt, prepared_entry]
    exact hf.notHeap i hi
  · rw [prepared_memory]
    exact hf.references

theorem HeldFrame.mapPage (hf : HeldFrame L s f k) (hs : Synced L s)
    (hinit : s.isKHpageEmpty = false) {i t : Nat} {rest : List Nat} (hi : i < L.pages)
    (hl : s.memory.freeFrameList = g :: rest) : HeldFrame L (mapPage L s i t g rest) f k := by
  have htaken := hf.notFree
  rw [hl, List.mem_cons, not_or] at htaken
  refine ⟨hf.lt, htaken.2, fun j hj => ?_, ?_⟩
  · rw [owner_mapPage hinit hi] at hj
    rw [frameAt, entry_mapPage]
    split_ifs at hj ⊢
    · rw [frameNumber_heapEntry (hs.frames.lt g (by simp [hl]))]
      exact Ne.symm htaken.1
    · exact hf.notHeap j hj
  · rw [framesInfo_mapPage, if_neg htaken.1]
    exact hf.references

theorem HeldFrame.kmallocLoop {t : Nat} :
    ∀ (n i : Nat) {s s' : KernelHeap}, HeldFrame L s f k → Synced L s →
      s.isKHpageEmpty = false → i + n ≤ L.pages → BlockMap.FreeRun (owner L s) i n →
      kmallocLoop L (L.addr t) n (L.addr i) s = some s' → HeldFrame L s' f k
  | 0, i, s, s', hf, _, _, _, _, h => by
    obtain rfl := Option.some.inj h
    exact hf
  | n + 1, i, s, s', hf, hs, hinit, hin, hfree, h => by
    have hi : i < L.pages := by omega
    have hfi : owner L s i = none := hfree i le_rfl (by omega)
    cases hl : s.memory.freeFrameList with
    | nil =>
      rw [kmallocLoop_nil hs hl] at h
      cases h
    | cons g rest =>
      rw [kmallocLoop_succ hs hi hfi hl] at h
      refine HeldFrame.kmallocLoop n (i + 1) (hf.mapPage hs hinit hi hl)
        (hs.mapPage hinit hi hfi hl) hinit (by omega) (fun j hlo hhi => ?_) h
      rw [owner_mapPage hinit hi, if_neg (by omega)]
      exact hfree j (by omega) (by omega)

/-- `kmalloc` leaves a held frame alone. -/
theorem HeldFrame.kmalloc (hf : HeldFrame L s f k) (h : Invariant L s) {size p : Nat}
    (hk : kmalloc L s size = some (p, s')) : HeldFrame L s' f k := by
  obtain ⟨j, hj, hhand⟩ := h.hand
  obtain ⟨n, hn, hdiv⟩ := exists_pages size
  rw [kmalloc_eq, hn, hdiv] at hk
  split_ifs at hk with hzero
  · obtain ⟨-, rfl⟩ := Prod.mk.inj (Option.some.inj hk)
    exact hf.prepared
  · obtain ⟨t, ht, htn, hrun⟩ := findPlace_sound hj (prepared_hand.trans hhand) hzero
    rw [ht] at hk
    obtain ⟨s₁, hloop, hres⟩ := Option.map_eq_some_iff.1 hk
    obtain ⟨-, rfl⟩ := Prod.mk.inj hres
    have hfree := freeRun_of_emptyRun (L := L) prepared_initialized htn hrun
    have hf₁ := hf.prepared.kmallocLoop n t h.toSynced.prepared prepared_initialized htn hfree hloop
    exact ⟨hf₁.lt, hf₁.notFree, hf₁.notHeap, hf₁.references⟩

/-! ## kfree -/

theorem HeldFrame.freed (hf : HeldFrame L s f k) {t n : Nat}
    (hb : BlockMap.IsBlock (owner L s) t n) : HeldFrame L (freed L s t n) f k := by
  have hout : f ∉ (List.range' t n).map (frameAt L s) := by
    intro hmem
    obtain ⟨i, hi, heq⟩ := List.mem_map.1 hmem
    have hown := (hb.2 i).2 (List.mem_range'_1.1 hi)
    exact hf.notHeap i (by rw [hown]; rfl) heq
  refine ⟨hf.lt, fun hmem => ?_, fun i hi => ?_, ?_⟩
  · rcases List.mem_append.1 hmem with hmem | hmem
    · exact hout (List.mem_reverse.1 hmem)
    · exact hf.notFree hmem
  · rw [owner_freed] at hi
    rw [frameAt, entry_freed]
    split_ifs at hi ⊢
    · cases hi
    · exact hf.notHeap i hi
  · have hinfo : (KernelHeap.freed L s t n).memory.framesInfo f = s.memory.framesInfo f :=
      if_neg hout
    rw [hinfo]
    exact hf.references

/-- `kfree` leaves a held frame alone. -/
theorem HeldFrame.kfree (hf : HeldFrame L s f k) (h : Invariant L s) {va : Nat}
    (hk : kfree L s va = some s') : HeldFrame L s' f k := by
  have hlo := start_le_of_kfree hk
  cases hinit : s.isKHpageEmpty with
  | true =>
    have hown := owner_of_not_init (L := L) hinit
    obtain ⟨s₁, hs₁, hinit', hmem, -, -⟩ := kfreeLoop_not_init _ va s hinit
      (fun i hi => h.unmapped i hi (by rw [hown])) hlo
    obtain rfl : s₁ = s' := Option.some.inj (hs₁.symm.trans hk)
    refine ⟨hf.lt, hmem ▸ hf.notFree, fun i hi => ?_, hmem ▸ hf.references⟩
    rw [owner_of_not_init hinit'] at hi
    cases hi
  | false =>
    rcases kfree_cases h hinit hlo with ⟨t, n, -, hb, hfree⟩ | ⟨-, hfree⟩
    · obtain rfl := Option.some.inj (hfree.symm.trans hk)
      exact hf.freed hb
    · obtain rfl := Option.some.inj (hfree.symm.trans hk)
      exact hf

/-! ## Changes outside the heap -/

/-- The heap depends on its own frames alone. -/
theorem Invariant.setMemory (h : Invariant L s) (hframes : m.FramesOk L.numberOfFrames)
    (hheap : ∀ i, (owner L s i).isSome →
      m.framesInfo (frameAt L s i) = s.memory.framesInfo (frameAt L s i) ∧
        frameAt L s i ∉ m.freeFrameList) : Invariant L { s with memory := m } := by
  refine ⟨⟨h.tagged, h.unmapped, fun i t hi => ?_, h.distinct, hframes⟩, h.contiguous, h.hand⟩
  have hi' : owner L s i = some t := hi
  obtain ⟨hlt, hentry, hrefs, -⟩ := h.toSynced.frameAt_spec hi'
  obtain ⟨hinfo, hfree⟩ := hheap i (by rw [hi']; rfl)
  exact ⟨frameAt L s i, hlt, hentry, by rw [hinfo]; exact hrefs, hfree⟩

/-- The frame behind a page of the heap is not free. -/
theorem Invariant.frameAt_not_mem (h : Invariant L s) {i : Nat} (hi : (owner L s i).isSome) :
    frameAt L s i ∉ s.memory.freeFrameList := by
  obtain ⟨t, ht⟩ := Option.isSome_iff_exists.1 hi
  exact (h.toSynced.frameAt_spec ht).2.2.2

theorem HeldFrame.setMemory (hf : HeldFrame L s f k) (htaken : f ∉ m.freeFrameList)
    (hrefs : (m.framesInfo f).references = k) : HeldFrame L { s with memory := m } f k :=
  ⟨hf.lt, htaken, hf.notHeap, hrefs⟩

/-- The frame that `allocate_frame` hands out is held, without references. -/
theorem Invariant.taken (h : Invariant L s) {rest : List Nat}
    (hl : s.memory.freeFrameList = f :: rest) :
    Invariant L { s with memory := s.memory.taken f rest } ∧
      HeldFrame L { s with memory := s.memory.taken f rest } f 0 := by
  have hnot : ∀ i, (owner L s i).isSome → frameAt L s i ∉ f :: rest := fun i hi =>
    hl ▸ h.frameAt_not_mem hi
  have hnd := h.frames.nodup
  rw [hl, List.nodup_cons] at hnd
  refine ⟨h.setMemory (h.frames.taken hl) fun i hi => ⟨?_, fun hmem => ?_⟩,
    h.frames.lt f (by simp [hl]), hnd.1, fun i hi heq => ?_, ?_⟩
  · rw [Memory.taken_framesInfo, if_neg fun heq => hnot i hi (List.mem_cons.2 (Or.inl heq))]
  · exact hnot i hi (List.mem_cons_of_mem f hmem)
  · exact hnot i hi (List.mem_cons.2 (Or.inl heq))
  · rw [Memory.taken_framesInfo, if_pos rfl]
    rfl

theorem HeldFrame.takeFrame (hf : HeldFrame L s f k) {rest : List Nat}
    (hl : s.memory.freeFrameList = g :: rest) :
    HeldFrame L { s with memory := s.memory.taken g rest } f k := by
  have htaken := hf.notFree
  rw [hl, List.mem_cons, not_or] at htaken
  refine hf.setMemory htaken.2 ?_
  rw [Memory.taken_framesInfo, if_neg htaken.1]
  exact hf.references

/-- A held frame gets another number of references. -/
theorem Invariant.setReferences (h : Invariant L s) (hf : HeldFrame L s f k) (n : Int) :
    Invariant L { s with memory := s.memory.setReferences f n } := by
  refine h.setMemory (h.frames.setReferences hf.notFree n) fun i hi => ⟨?_, h.frameAt_not_mem hi⟩
  rw [Memory.setReferences_framesInfo, if_neg (hf.notHeap i hi)]

theorem HeldFrame.setReferences (hf : HeldFrame L s f k) (hne : f ≠ g) (n : Int) :
    HeldFrame L { s with memory := s.memory.setReferences g n } f k := by
  refine hf.setMemory hf.notFree ?_
  rw [Memory.setReferences_framesInfo, if_neg hne]
  exact hf.references

theorem HeldFrame.setReferences_self (hf : HeldFrame L s f k) (n : Int) :
    HeldFrame L { s with memory := s.memory.setReferences f n } f n :=
  ⟨hf.lt, hf.notFree, hf.notHeap, by rw [Memory.setReferences_framesInfo, if_pos rfl]⟩

/-- A held frame is freed. -/
theorem Invariant.freeFrame (h : Invariant L s) (hf : HeldFrame L s f k) :
    Invariant L { s with memory := s.memory.freeFrame f } := by
  refine h.setMemory (h.frames.freeFrame hf.notFree hf.lt) fun i hi => ⟨?_, fun hmem => ?_⟩
  · rw [Memory.freeFrame_framesInfo, if_neg (hf.notHeap i hi)]
  · rcases List.mem_cons.1 hmem with heq | hmem
    · exact hf.notHeap i hi heq
    · exact h.frameAt_not_mem hi hmem

theorem HeldFrame.freeFrame (hf : HeldFrame L s f k) (hne : f ≠ g) :
    HeldFrame L { s with memory := s.memory.freeFrame g } f k := by
  refine hf.setMemory (fun hmem => ?_) ?_
  · rcases List.mem_cons.1 hmem with heq | hmem
    · exact hne heq
    · exact hf.notFree hmem
  · rw [Memory.freeFrame_framesInfo, if_neg hne]
    exact hf.references

end KernelHeap

end FosKernel
