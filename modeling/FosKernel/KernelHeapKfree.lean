import FosKernel.KernelHeapPanic

/-!
# What kfree frees

`kfree` knows no lengths : it walks the table from the address it is given as long as the
pages carry that address. On an address of the heap it frees the block that starts there
(`freed`), or does nothing (`kfree_cases`).

The walk stops at `KERNEL_HEAP_MAX`, and nothing checks the other bound : the page index of
an address below the heap is an unsigned difference, past the end of the array.
`kfree_exact_iff` : on every address from the start of the heap up `kfree` is exact, and on
no other.
-/

namespace FosKernel

namespace KernelHeap

variable {L : KernelHeapLayout} {s s' : KernelHeap}

/-- On an address of the heap `kfree` frees the block that starts there, or does nothing. -/
theorem kfree_cases (h : Invariant L s) (hinit : s.isKHpageEmpty = false) {va : Nat}
    (hlo : L.kernelHeapStart ≤ va) :
    (∃ t n, va = L.addr t ∧ BlockMap.IsBlock (owner L s) t n ∧
      kfree L s va = some (freed L s t n)) ∨
    (∀ t n, va = L.addr t → ¬BlockMap.IsBlock (owner L s) t n) ∧ kfree L s va = some s := by
  by_cases hva : ∃ t, va = L.addr t ∧ owner L s t = some t
  · obtain ⟨t, rfl, ht⟩ := hva
    obtain ⟨n, hb⟩ := h.contiguous.exists_isBlock (fun i hi => owner_eq_none_of_pages_le hi) ht
    exact Or.inl ⟨t, n, rfl, hb, kfree_freed h hinit hb⟩
  · refine Or.inr ⟨fun t n ht hb => hva ⟨t, ht, hb.owner_first⟩, ?_⟩
    exact kfree_not_block h hinit hlo fun t ht hown => hva ⟨t, ht, hown⟩

/-! ## Before the first kmalloc -/

/-- Until the first `kmalloc` the table is zeroed static memory. -/
def StaticTable (s : KernelHeap) : Prop :=
  s.isKHpageEmpty = true → ∀ i, s.kernelHeapPages i = ⟨0, false⟩

/-- No address of the heap matches the zeroed table. -/
theorem kfree_static (hstart : 0 < L.kernelHeapStart) (hs : StaticTable s)
    (hinit : s.isKHpageEmpty = true) {va : Nat} (hlo : L.kernelHeapStart ≤ va) :
    kfree L s va = some s := by
  unfold kfree
  cases PageSearch.pageTrips va L.kernelHeapMax with
  | zero => rfl
  | succ fuel =>
    rw [kfreeLoop]
    split_ifs with hhi
    · obtain ⟨hidx, hlt⟩ := heapPageIndex_eq hlo hhi
      have hne : ¬((0 : Nat) = va) := by omega
      simp only [hidx, page_of_lt hlt, Option.bind_some, hs hinit, hne, and_false, if_false]
    · rfl

theorem kmallocLoopOutcome_initialized {startAddress : Nat} :
    ∀ (n a : Nat) (s : KernelHeap), s.isKHpageEmpty = false →
      match kmallocLoopOutcome L startAddress n a s with
      | .ok s' => s'.isKHpageEmpty = false
      | .error s' => s'.isKHpageEmpty = false
  | 0, _, _, h => h
  | n + 1, a, s, h => by
    rw [kmallocLoopOutcome]
    cases s.memory.allocateFrame with
    | none => exact h
    | some fm =>
      obtain ⟨f, m⟩ := fm
      dsimp only
      cases hmap : mapFrame L { s with memory := m } f a heapPerm with
      | none => exact h
      | some s' =>
        obtain ⟨_, -, rfl⟩ := Option.map_eq_some_iff.1 hmap
        exact kmallocLoopOutcome_initialized n _ _ h

/-- After a `kmalloc`, whatever its outcome, the table is initialized. -/
theorem promptStep_kmalloc_initialized {size : Nat}
    (hc : promptStep L s (.kmalloc size) = some s') : s'.isKHpageEmpty = false := by
  rw [promptStep, kmallocOutcome_eq] at hc
  split_ifs at hc with hzero
  · obtain rfl := Option.some.inj hc
    exact prepared_initialized
  · have hloop := @kmallocLoopOutcome_initialized L
      (findPlace L (prepared L s) (roundUp size pageSize))
      (roundUp size pageSize / pageSize) (findPlace L (prepared L s) (roundUp size pageSize))
      (prepared L s) prepared_initialized
    cases hout : kmallocLoopOutcome L _ _ _ (prepared L s) with
    | ok s₁ =>
      rw [hout] at hc hloop
      obtain rfl := Option.some.inj hc
      exact hloop
    | error s₁ =>
      rw [hout] at hc hloop
      obtain rfl := Option.some.inj hc
      exact hloop

theorem promptStep_static (hstart : 0 < L.kernelHeapStart) (h : Invariant L s)
    (hs : StaticTable s) {c : Call} (hc : promptStep L s c = some s') : StaticTable s' := by
  cases c with
  | kmalloc size =>
    intro hinit
    rw [promptStep_kmalloc_initialized hc] at hinit
    cases hinit
  | kfree va =>
    have hlo := start_le_of_kfree hc
    cases hinit : s.isKHpageEmpty with
    | true =>
      obtain rfl := Option.some.inj ((kfree_static hstart hs hinit hlo).symm.trans hc)
      exact hs
    | false =>
      have hkeeps : s'.isKHpageEmpty = false := by
        obtain ⟨t, n, -, -, hfreed⟩ | ⟨-, hsame⟩ := kfree_cases h hinit hlo
        · obtain rfl := Option.some.inj (hfreed.symm.trans hc)
          exact hinit
        · obtain rfl := Option.some.inj (hsame.symm.trans hc)
          exact hinit
      intro hinit'
      rw [hkeeps] at hinit'
      cases hinit'
  | setStrategy strategy =>
    obtain rfl := Option.some.inj hc
    exact hs

theorem prompt_run_static (hstart : 0 < L.kernelHeapStart) {s₀ : KernelHeap} (h₀ : Boot L s₀)
    {calls : List Call} (hr : Machine.run (promptStep L) s₀ calls = some s) :
    Invariant L s ∧ StaticTable s :=
  Machine.run_induction (P := fun s => Invariant L s ∧ StaticTable s)
    (fun _ _ _ h hc => ⟨promptStep_invariant h.1 hc, promptStep_static hstart h.1 h.2 hc⟩)
    ⟨h₀.invariant, fun _ => h₀.pages⟩ hr

/-! ## Every address -/

/-- `kfree(va)` returns without an access outside the table : it frees exactly the block
that starts at `va`, and does nothing if there is none. -/
structure KfreeExact (L : KernelHeapLayout) (s : KernelHeap) (va : Nat) : Prop where
  live : ∀ t n, va = L.addr t → IsBlock L s t n → kfree L s va = some (freed L s t n)
  other : (∀ t n, va = L.addr t → ¬IsBlock L s t n) → kfree L s va = some s

theorem kfreeExact_of_start_le (hstart : 0 < L.kernelHeapStart) (h : Invariant L s)
    (hs : StaticTable s) {va : Nat} (hlo : L.kernelHeapStart ≤ va) : KfreeExact L s va := by
  cases hinit : s.isKHpageEmpty with
  | true =>
    refine ⟨fun t n _ hb => ?_, fun _ => kfree_static hstart hs hinit hlo⟩
    have hne := ((hb.tagged t (by have := hb.pos; have := hb.fits; omega)).2
      ⟨le_rfl, by have := hb.pos; omega⟩).1.1
    rw [hinit] at hne
    cases hne
  | false =>
    refine ⟨fun t n hva hb => ?_, fun hno => ?_⟩
    · rw [hva]
      exact kfree_freed h hinit (h.isBlock_iff.1 hb)
    · obtain ⟨t, n, hva, hb, -⟩ | ⟨-, hsame⟩ := kfree_cases h hinit hlo
      · exact absurd (h.isBlock_iff.2 hb) (hno t n hva)
      · exact hsame

/-- In every state reached from boot, `kfree` is exact on an address exactly if the address
is not below the heap. -/
theorem kfree_exact_iff (hstart : 0 < L.kernelHeapStart) {s₀ : KernelHeap} (h₀ : Boot L s₀)
    {calls : List Call} (hr : Machine.run (promptStep L) s₀ calls = some s) (va : Nat) :
    KfreeExact L s va ↔ L.kernelHeapStart ≤ va := by
  obtain ⟨h, hs⟩ := prompt_run_static hstart h₀ hr
  constructor
  · intro hexact
    by_contra hlt
    refine hlt (start_le_of_kfree (hexact.other fun t n ht _ => hlt ?_))
    rw [ht]
    exact Nat.le_add_right _ _
  · exact kfreeExact_of_start_le hstart h hs

theorem smallHeap_kfree_exact : ∃ s,
    Machine.run (promptStep smallLayout) smallHeap [.kmalloc 5000] = some s ∧
      KfreeExact smallLayout s 0xF6000000 := by
  have hrun : (Machine.run (promptStep smallLayout) smallHeap [.kmalloc 5000]).isSome = true := by
    decide
  obtain ⟨s, hs⟩ := Option.isSome_iff_exists.1 hrun
  exact ⟨s, hs, (kfree_exact_iff (by decide) smallHeap_boot hs 0xF6000000).2 (by decide)⟩

/-- `kfree(0)` reads outside the table. -/
theorem nullPointer_counterexample : ∃ s,
    Machine.run (promptStep smallLayout) smallHeap [.kmalloc 5000] = some s ∧
      kfree smallLayout s 0 = none ∧ ¬KfreeExact smallLayout s 0 := by
  have hrun : (Machine.run (promptStep smallLayout) smallHeap [.kmalloc 5000]).map
      (fun s => (kfree smallLayout s 0).isSome) = some false := by decide
  obtain ⟨s, hs, hnone⟩ := Option.map_eq_some_iff.1 hrun
  have hkfree : kfree smallLayout s 0 = none := by simpa using hnone
  refine ⟨s, hs, hkfree, fun hexact => ?_⟩
  have hother := hexact.other fun t n ht _ => absurd ht.symm (by
    have : smallLayout.kernelHeapStart = 0xF6000000 := rfl
    unfold KernelHeapLayout.addr
    omega)
  rw [hkfree] at hother
  cases hother

end KernelHeap

end FosKernel
