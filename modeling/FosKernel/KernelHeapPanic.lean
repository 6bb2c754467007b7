import FosKernel.KernelHeapRuns

/-!
# The kernel heap after a panic

A panic of `allocate_frame` goes back to the command prompt, with the kernel as it is.
`kmallocOutcome` is `kmalloc` with the state it leaves there (`kmallocOutcome_toOption`) :
there is no way back in its loop, so the free frames are mapped to the first pages of the
place found, and no frame is free (`Exhausted`).

`promptStep` makes a call and goes on from there. The pages mapped before the panic are one
more block, so the invariant goes on too (`prompt_run_invariant`), and a block keeps its
pages until it is freed (`prompt_run_holds`).
-/

namespace FosKernel

namespace KernelHeap

variable {L : KernelHeapLayout} {s s' : KernelHeap}

/-- The loop of `kmalloc` returns if there are frames for its pages. -/
theorem kmallocLoop_returns {t : Nat} :
    ∀ (n i : Nat) (s : KernelHeap), Synced L s → s.isKHpageEmpty = false → i + n ≤ L.pages →
      BlockMap.FreeRun (owner L s) i n → n ≤ s.memory.freeFrameList.length →
      ∃ s', kmallocLoop L (L.addr t) n (L.addr i) s = some s'
  | 0, i, s, _, _, _, _, _ => ⟨s, rfl⟩
  | n + 1, i, s, hs, hinit, hin, hfree, hlen => by
    have hi : i < L.pages := by omega
    have hfi : owner L s i = none := hfree i le_rfl (by omega)
    obtain ⟨f, rest, hl⟩ := List.exists_cons_of_length_pos (Nat.lt_of_lt_of_le n.succ_pos hlen)
    rw [kmallocLoop_succ hs hi hfi hl]
    refine kmallocLoop_returns n (i + 1) (mapPage L s i t f rest) (hs.mapPage hinit hi hfi hl)
      hinit (by omega) (fun j hlo hhi => ?_) ?_
    · rw [owner_mapPage hinit hi, if_neg (by omega)]
      exact hfree j (by omega) (by omega)
    · rw [hl] at hlen
      simpa [mapPage] using hlen

theorem kmalloc_returns (h : Invariant L s) {size : Nat}
    (hframes : roundUp size pageSize / pageSize ≤ s.memory.freeFrameList.length) :
    ∃ p s', kmalloc L s size = some (p, s') := by
  obtain ⟨j, hj, hhand⟩ := h.hand
  obtain ⟨n, hn, hdiv⟩ := exists_pages size
  rw [hn, hdiv] at hframes
  rw [kmalloc_eq, hn, hdiv]
  split_ifs with hzero
  · exact ⟨0, _, rfl⟩
  · obtain ⟨t, ht, htn, hrun⟩ := findPlace_sound hj (prepared_hand.trans hhand) hzero
    have hfree := freeRun_of_emptyRun (L := L) prepared_initialized htn hrun
    rw [← prepared_memory (L := L)] at hframes
    obtain ⟨s₁, hs₁⟩ := kmallocLoop_returns (t := t) n t (prepared L s) h.toSynced.prepared
      prepared_initialized htn hfree hframes
    rw [ht, hs₁]
    exact ⟨_, _, rfl⟩

/-! ## The panic -/

/-- The loop of `kmalloc`, with the state it leaves when `allocate_frame` panics. No frame on
the list is buffered, so the panic is for an empty list, with nothing written. -/
def kmallocLoopOutcome (L : KernelHeapLayout) (startAddress : Nat) :
    Nat → Nat → KernelHeap → Except KernelHeap KernelHeap
  | 0, _, s => .ok s
  | numberOfPages + 1, tempStartAddress, s =>
    match s.memory.allocateFrame with
    | none => .error s
    | some (f, m) =>
      match mapFrame L { s with memory := m } f tempStartAddress heapPerm with
      | none => .error { s with memory := m }
      | some s' =>
        kmallocLoopOutcome L startAddress numberOfPages (tempStartAddress + pageSize)
          (s'.setPage ((tempStartAddress - L.kernelHeapStart) / pageSize) ⟨startAddress, false⟩)

/-- `kmalloc(size)`, with the state it leaves when it panics. -/
def kmallocOutcome (L : KernelHeapLayout) (s : KernelHeap) (size : Nat) :
    Except KernelHeap (Nat × KernelHeap) :=
  let size := roundUp size pageSize
  let s := if s.isKHpageEmpty then initializaKernelHeapPages L s else s
  let startAddress := findPlace L s size
  if startAddress = 0 then .ok (0, s)
  else
    (kmallocLoopOutcome L startAddress (size / pageSize) startAddress s).map fun s' =>
      (startAddress,
        { s' with lastAllocatedKHpage := startAddress + pageSize * (size / pageSize) })

theorem kmallocLoopOutcome_toOption {startAddress : Nat} :
    ∀ (n a : Nat) (s : KernelHeap), (kmallocLoopOutcome L startAddress n a s).toOption =
      kmallocLoop L startAddress n a s
  | 0, _, _ => rfl
  | n + 1, a, s => by
    rw [kmallocLoopOutcome, kmallocLoop]
    cases s.memory.allocateFrame with
    | none => rfl
    | some fm =>
      obtain ⟨f, m⟩ := fm
      simp only [Option.bind_some]
      cases mapFrame L { s with memory := m } f a heapPerm with
      | none => rfl
      | some s' => exact kmallocLoopOutcome_toOption n _ _

/-- `kmalloc` has a value exactly when it does not panic. -/
theorem kmallocOutcome_toOption (size : Nat) :
    (kmallocOutcome L s size).toOption = kmalloc L s size := by
  unfold kmallocOutcome kmalloc
  dsimp only
  split_ifs with _ hzero hzero
  · rfl
  · rw [← kmallocLoopOutcome_toOption]
    cases kmallocLoopOutcome L _ _ _ _ <;> rfl
  · rfl
  · rw [← kmallocLoopOutcome_toOption]
    cases kmallocLoopOutcome L _ _ _ _ <;> rfl

theorem kmallocOutcome_eq (size : Nat) : kmallocOutcome L s size =
    if findPlace L (prepared L s) (roundUp size pageSize) = 0 then .ok (0, prepared L s)
    else
      (kmallocLoopOutcome L (findPlace L (prepared L s) (roundUp size pageSize))
        (roundUp size pageSize / pageSize) (findPlace L (prepared L s) (roundUp size pageSize))
        (prepared L s)).map fun s' =>
          (findPlace L (prepared L s) (roundUp size pageSize),
            s'.moveHand (findPlace L (prepared L s) (roundUp size pageSize) +
              pageSize * (roundUp size pageSize / pageSize))) :=
  rfl

theorem kmallocLoopOutcome_succ (hs : Synced L s) {i t n f : Nat} {rest : List Nat}
    (hi : i < L.pages) (hfree : owner L s i = none) (hl : s.memory.freeFrameList = f :: rest) :
    kmallocLoopOutcome L (L.addr t) (n + 1) (L.addr i) s =
      kmallocLoopOutcome L (L.addr t) n (L.addr (i + 1)) (mapPage L s i t f rest) := by
  have halloc := (Memory.allocateFrame_of_framesOk hs.frames).2 ⟨rest, hl, rfl⟩
  have he : s.kernelEntries (L.addr i / pageSize) = 0#32 := hs.unmapped i hi hfree
  simp [kmallocLoopOutcome, halloc, mapFrame, he, Memory.mapEntry_zero, setEntry, setPage,
    mapPage, heapEntry, L.addr_sub, L.addr_succ, Memory.taken_framesInfo, initializeFrameInfo]

/-- With too few free frames the loop panics where the loop over as many pages as there are
free frames ends. -/
theorem kmallocLoopOutcome_few {t : Nat} :
    ∀ (n i : Nat) (s : KernelHeap), Synced L s → s.isKHpageEmpty = false → i + n ≤ L.pages →
      BlockMap.FreeRun (owner L s) i n → s.memory.freeFrameList.length < n →
      ∃ s', kmallocLoopOutcome L (L.addr t) n (L.addr i) s = .error s' ∧
        kmallocLoop L (L.addr t) s.memory.freeFrameList.length (L.addr i) s = some s'
  | 0, _, _, _, _, _, _, hfew => by cases hfew
  | n + 1, i, s, hs, hinit, hin, hfree, hfew => by
    have hi : i < L.pages := by omega
    have hfi : owner L s i = none := hfree i le_rfl (by omega)
    cases hl : s.memory.freeFrameList with
    | nil =>
      have halloc := (Memory.allocateFrame_eq_none hs.frames).2 hl
      exact ⟨s, by rw [kmallocLoopOutcome, halloc], rfl⟩
    | cons f rest =>
      rw [hl] at hfew
      have hfree' : BlockMap.FreeRun (owner L (mapPage L s i t f rest)) (i + 1) n := by
        intro j hlo hhi
        rw [owner_mapPage hinit hi, if_neg (by omega)]
        exact hfree j (by omega) (by omega)
      have hlen : rest.length < n := by simpa using hfew
      obtain ⟨s', herror, hloop⟩ := kmallocLoopOutcome_few n (i + 1) (mapPage L s i t f rest)
        (hs.mapPage hinit hi hfi hl) hinit (by omega) hfree' hlen
      refine ⟨s', by rw [kmallocLoopOutcome_succ hs hi hfi hl, herror], ?_⟩
      rw [List.length_cons, kmallocLoop_succ hs hi hfi hl]
      exact hloop

/-- What is left when `allocate_frame` panics : the first pages of the place found, as many
as there were free frames, are mapped and tagged, and no frame is free. -/
structure Exhausted (L : KernelHeapLayout) (s : KernelHeap) (t : Nat) (s' : KernelHeap) :
    Prop where
  mapped : Mapped L (prepared L s) t t s.memory.freeFrameList.length s'
  empty : s'.memory.freeFrameList = []
  unchanged : s.memory.freeFrameList = [] → s' = prepared L s

/-- `kmalloc` with a place and too few frames panics. -/
theorem kmallocOutcome_few (h : Invariant L s) {size t n : Nat}
    (hround : roundUp size pageSize = pageSize * n)
    (hplace : findPlace L (prepared L s) (pageSize * n) = L.addr t) (h0 : L.addr t ≠ 0)
    (htn : t + n ≤ L.pages) (hfree : BlockMap.FreeRun (owner L s) t n)
    (hfew : s.memory.freeFrameList.length < n) :
    ∃ s', kmallocOutcome L s size = .error s' ∧ Exhausted L s t s' := by
  have hs := h.toSynced.prepared
  have hdiv : pageSize * n / pageSize = n := Nat.mul_div_cancel_left n (by decide)
  rw [← prepared_owner] at hfree
  rw [← prepared_memory (L := L)] at hfew
  obtain ⟨s', herror, hloop⟩ := kmallocLoopOutcome_few (t := t) n t (prepared L s) hs
    prepared_initialized htn hfree hfew
  have hm := kmallocLoop_spec _ t (prepared L s) s' hs prepared_initialized
    (by omega : t + (prepared L s).memory.freeFrameList.length ≤ L.pages)
    (fun i hlo hhi => hfree i hlo (by omega)) hloop
  refine ⟨s', ?_, by rwa [prepared_memory] at hm, ?_, fun hnil => ?_⟩
  · rw [kmallocOutcome_eq, hround, hplace, if_neg h0, hdiv, herror]
    rfl
  · obtain ⟨taken, hlist, hlen, -⟩ := hm.frames
    have := congrArg List.length hlist
    rw [List.length_append, hlen] at this
    exact List.eq_nil_of_length_eq_zero (by omega)
  · rw [prepared_memory, hnil] at hloop
    exact (Option.some.inj hloop).symm

/-- The pages mapped before the panic are a block. -/
theorem Exhausted.allocated {t : Nat} (h : Exhausted L s t s')
    (hfits : t + s.memory.freeFrameList.length ≤ L.pages)
    (hfree : BlockMap.FreeRun (owner L s) t s.memory.freeFrameList.length) :
    Allocated L s t s.memory.freeFrameList.length s' := by
  refine ⟨hfits, hfree, ?_, ?_, fun i hi => (h.mapped.entries i hi).trans (prepared_entry i)⟩
  · ext i : 1
    rw [h.mapped.owner, prepared_owner]
    rfl
  · obtain ⟨taken, hlist, hlen, hframes⟩ := h.mapped.frames
    rw [prepared_memory] at hlist
    exact ⟨taken, hlist, hlen, hframes⟩

theorem Exhausted.invariant {t : Nat} (h : Exhausted L s t s') (hs : Invariant L s)
    (hfits : t + s.memory.freeFrameList.length ≤ L.pages)
    (hfree : BlockMap.FreeRun (owner L s) t s.memory.freeFrameList.length) :
    Invariant L s' := by
  obtain ⟨j, hj, hhand⟩ := hs.hand
  refine ⟨h.mapped.synced, ?_, j, hj, ?_⟩
  · rw [(h.allocated hfits hfree).owner]
    exact hs.contiguous.claim hfree
  · rw [h.mapped.hand, prepared_hand, hhand]

/-- `kmalloc` panics with too few frames for a place it found. -/
theorem kmallocOutcome_error (h : Invariant L s) {size : Nat}
    (herror : kmallocOutcome L s size = .error s') :
    s.memory.freeFrameList.length < roundUp size pageSize / pageSize ∧
      ∃ t, t + s.memory.freeFrameList.length ≤ L.pages ∧
        BlockMap.FreeRun (owner L s) t s.memory.freeFrameList.length ∧ Exhausted L s t s' := by
  obtain ⟨j, hj, hhand⟩ := h.hand
  obtain ⟨n, hn, hdiv⟩ := exists_pages size
  rw [hn, hdiv]
  have hfew : s.memory.freeFrameList.length < n := by
    by_contra hge
    obtain ⟨p, s₁, hk⟩ : ∃ p s₁, kmalloc L s size = some (p, s₁) :=
      kmalloc_returns h (by rw [hn, hdiv]; omega)
    rw [← kmallocOutcome_toOption, herror] at hk
    cases hk
  have hzero : findPlace L (prepared L s) (pageSize * n) ≠ 0 := by
    intro h0
    rw [kmallocOutcome_eq, hn, if_pos h0] at herror
    cases herror
  obtain ⟨t, ht, htn, hrun⟩ := findPlace_sound hj (prepared_hand.trans hhand) hzero
  have hfree := freeRun_of_emptyRun (L := L) prepared_initialized htn hrun
  rw [prepared_owner] at hfree
  obtain ⟨s₁, herror₁, hex⟩ := kmallocOutcome_few h hn ht (ht ▸ hzero) htn hfree hfew
  obtain rfl : s₁ = s' := Except.error.inj (herror₁.symm.trans herror)
  exact ⟨hfew, t, by omega, fun i hlo hhi => hfree i hlo (by omega), hex⟩

/-! ## Runs at the prompt -/

/-- One call at the command prompt : a `kmalloc` that panics leaves the state it panicked
in. -/
def promptStep (L : KernelHeapLayout) (s : KernelHeap) : Call → Option KernelHeap
  | .kmalloc size =>
    match kmallocOutcome L s size with
    | .ok (_, s') => some s'
    | .error s' => some s'
  | c => step L s c

/-- A call returns, or its panic leaves one more block. -/
theorem promptStep_cases (h : Invariant L s) {c : Call} (hc : promptStep L s c = some s') :
    step L s c = some s' ∨ Invariant L s' ∧ (∃ size, c = .kmalloc size) ∧
      ∃ t n, Allocated L s t n s' := by
  cases c with
  | kmalloc size =>
    rw [promptStep] at hc
    cases hout : kmallocOutcome L s size with
    | ok r =>
      rw [hout] at hc
      obtain rfl := Option.some.inj hc
      refine Or.inl ?_
      rw [step, ← kmallocOutcome_toOption, hout]
      rfl
    | error s₁ =>
      rw [hout] at hc
      obtain rfl := Option.some.inj hc
      obtain ⟨-, t, hfits, hfree, hex⟩ := kmallocOutcome_error h hout
      exact Or.inr ⟨hex.invariant h hfits hfree, ⟨size, rfl⟩, t, _, hex.allocated hfits hfree⟩
  | kfree va => exact Or.inl hc
  | setStrategy strategy => exact Or.inl hc

theorem promptStep_invariant (h : Invariant L s) {c : Call} (hc : promptStep L s c = some s') :
    Invariant L s' := by
  rcases promptStep_cases h hc with hc | ⟨hinv, -, -⟩
  · exact (step_invariant h hc).1
  · exact hinv

/-- The invariant along every run from boot, panics included. -/
theorem prompt_run_invariant {s₀ : KernelHeap} (h₀ : Boot L s₀) {calls : List Call}
    (hr : Machine.run (promptStep L) s₀ calls = some s) : Invariant L s :=
  Machine.run_induction (fun _ _ _ h hc => promptStep_invariant h hc) h₀.invariant hr

theorem prompt_run_holds {t : Nat} {taken : List Nat} :
    ∀ (calls : List Call) (s : KernelHeap), Invariant L s → Holds L s t taken →
      .kfree (L.addr t) ∉ calls → Machine.run (promptStep L) s calls = some s' →
      Invariant L s' ∧ Holds L s' t taken
  | [], s, h, hb, _, hr => by
    obtain rfl := Option.some.inj hr
    exact ⟨h, hb⟩
  | c :: calls, s, h, hb, hne, hr => by
    obtain ⟨s₁, hc, hr⟩ := (Machine.run_cons_eq_some _).1 hr
    rw [List.mem_cons, not_or] at hne
    refine prompt_run_holds calls s₁ (promptStep_invariant h hc) ?_ hne.2 hr
    rcases promptStep_cases h hc with hc | ⟨-, -, u, n, hal⟩
    · exact step_holds h hc hb (Ne.symm hne.1)
    · exact hb.of_allocated hal

end KernelHeap

end FosKernel
