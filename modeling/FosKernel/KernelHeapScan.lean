import FosKernel.KernelHeapPanic
import FosKernel.KernelHeapTranslation

/-!
# The scan of kheap_virtual_address

The loop of `kheap_virtual_address` goes up to `lastAllocatedKHpage` inclusive, with a
32-bit counter. `scanLoop` is that loop with the addresses it visits, and without a value
where a page lookup would start the search over (`kheapVirtualAddressLoop_of_scanLoop`).

With the hand below the last page of the address space the counter passes the hand and the
scan ends. With the hand on that page the counter wraps to 0, which is at or below every
hand : `scan_ends_iff` says that the scan then ends only for the frame of an allocated page.
-/

namespace FosKernel

namespace KernelHeap

variable {L : KernelHeapLayout} {D : KernelDirectory} {s s' : KernelHeap}

/-- The loop of `kheap_virtual_address` from `i` : the address found, or 0, and the addresses
visited. It has no value if the lookup of a page needs `kheap_virtual_address`. -/
def scanLoop (L : KernelHeapLayout) (D : KernelDirectory) (s : KernelHeap)
    (physicalAddress : BitVec 32) : Nat → Nat → Option (Nat × List Nat)
  | 0, _ => none
  | fuel + 1, i =>
    if i ≤ s.lastAllocatedKHpage then
      (getFrameInfo L D s (fun _ => none) i).bind fun frameInfo =>
        if frameInfo.map toPhysicalAddress = some physicalAddress then some (i, [i])
        else (scanLoop L D s physicalAddress fuel (u32 (i + pageSize))).map fun (va, visited) =>
          (va, i :: visited)
    else some (0, [])

/-- The scan for the physical address ends, after visits between the bounds of the heap
only, and does not start over. -/
def ScanEnds (L : KernelHeapLayout) (D : KernelDirectory) (s : KernelHeap)
    (physicalAddress : BitVec 32) : Prop :=
  ∃ fuel va visited, scanLoop L D s physicalAddress fuel L.kernelHeapStart = some (va, visited) ∧
    ∀ a ∈ visited, L.kernelHeapStart ≤ a ∧ a ≤ L.kernelHeapMax

/-- A lookup that does not need the search is the same with it. -/
theorem getFrameInfo_of_none {translate : BitVec 32 → Option Nat} {va : Nat} {r : Option Nat}
    (h : getFrameInfo L D s (fun _ => none) va = some r) :
    getFrameInfo L D s translate va = some r := by
  unfold getFrameInfo getPageTable at *
  by_cases hbase : D.kernelBase ≤ va
  · simpa only [if_pos hbase] using h
  · simp [hbase] at h

/-- A scan that ends is the search. -/
theorem kheapVirtualAddressLoop_of_scanLoop {pa : BitVec 32} :
    ∀ {fuel i va : Nat} {visited : List Nat}, scanLoop L D s pa fuel i = some (va, visited) →
      kheapVirtualAddressLoop L D s fuel pa i = some va
  | 0, _, _, _, h => by cases h
  | fuel + 1, i, va, visited, h => by
    rw [scanLoop] at h
    rw [kheapVirtualAddressLoop]
    split_ifs at h ⊢ with hhand
    · obtain ⟨r, hr, h⟩ := Option.bind_eq_some_iff.1 h
      rw [getFrameInfo_of_none hr, Option.bind_some]
      split_ifs at h ⊢ with hmatch
      · rw [(Prod.mk.inj (Option.some.inj h)).1]
      · obtain ⟨⟨va', visited'⟩, hloop, hres⟩ := Option.map_eq_some_iff.1 h
        obtain ⟨rfl, -⟩ := Prod.mk.inj hres
        exact kheapVirtualAddressLoop_of_scanLoop hloop
    · rw [(Prod.mk.inj (Option.some.inj h)).1]

theorem promptStep_reserved (h : Invariant L s) (hr : Reserved L s) {c : Call}
    (hc : promptStep L s c = some s') : Reserved L s' := by
  rcases promptStep_cases h hc with hc | ⟨-, -, t, n, hal⟩
  · exact step_reserved h hr hc
  · exact hal.reserved hr

theorem prompt_run_reserved {s₀ : KernelHeap} (h₀ : Boot L s₀) (hd : DirectoryBoot L D s₀)
    {calls : List Call} (hr : Machine.run (promptStep L) s₀ calls = some s) :
    Invariant L s ∧ Reserved L s := by
  refine Machine.run_induction (P := fun s => Invariant L s ∧ Reserved L s) ?_
    ⟨h₀.invariant, hd.last, hd.reserved, ?_⟩ hr
  · rintro s c s' ⟨hinv, hres⟩ hc
    exact ⟨promptStep_invariant hinv hc, promptStep_reserved hinv hres hc⟩
  · simp [owner_of_not_init h₀.uninitialized]

/-- One trip of the scan, at an address of the heap. -/
theorem scanLoop_addr {s₀ : KernelHeap} (hd : DirectoryBoot L D s₀) (h : Invariant L s)
    (hr : Reserved L s) {j : Nat} (hj : j ≤ L.pages) (hhand : s.lastAllocatedKHpage = L.addr j)
    (fuel : Nat) (pa : BitVec 32) {i : Nat} (hi : i ≤ j) :
    scanLoop L D s pa (fuel + 1) (L.addr i) =
      if (owner L s i).isSome ∧ toPhysicalAddress (frameAt L s i) = pa then
        some (L.addr i, [L.addr i])
      else (scanLoop L D s pa fuel (u32 (L.addr (i + 1)))).map fun (va, visited) =>
        (va, L.addr i :: visited) := by
  have hle : L.addr i ≤ s.lastAllocatedKHpage := by
    rw [hhand]
    unfold KernelHeapLayout.addr pageSize
    omega
  rw [scanLoop, if_pos hle, getFrameInfo_addr hd h hr _ (hi.trans hj), Option.bind_some,
    L.addr_succ]
  cases owner L s i <;> simp

/-- The scan from page `i` ends, after visits between the bounds of the heap only. -/
def EndsFrom (L : KernelHeapLayout) (D : KernelDirectory) (s : KernelHeap) (pa : BitVec 32)
    (i : Nat) : Prop :=
  ∃ fuel va visited, scanLoop L D s pa fuel (L.addr i) = some (va, visited) ∧
    ∀ a ∈ visited, L.kernelHeapStart ≤ a ∧ a ≤ L.kernelHeapMax

theorem addr_mem_heap {i : Nat} (hi : i ≤ L.pages) :
    L.kernelHeapStart ≤ L.addr i ∧ L.addr i ≤ L.kernelHeapMax := by
  rw [L.max_eq_addr]
  unfold KernelHeapLayout.addr pageSize
  omega

/-- One page before a page from which the scan ends. -/
theorem EndsFrom.pred {s₀ : KernelHeap} (hd : DirectoryBoot L D s₀) (h : Invariant L s)
    (hr : Reserved L s) {j : Nat} (hj : j ≤ L.pages) (hhand : s.lastAllocatedKHpage = L.addr j)
    {pa : BitVec 32} {i : Nat} (hi : i ≤ j) (htop : L.addr (i + 1) < 4294967296)
    (hends : EndsFrom L D s pa (i + 1)) : EndsFrom L D s pa i := by
  obtain ⟨fuel, va, visited, hscan, hall⟩ := hends
  have hmem := addr_mem_heap (hi.trans hj)
  have htrip := scanLoop_addr hd h hr hj hhand fuel pa hi
  split_ifs at htrip with hmatch
  · refine ⟨fuel + 1, _, _, htrip, fun a ha => ?_⟩
    rw [List.mem_singleton] at ha
    rwa [ha]
  · rw [u32, Nat.mod_eq_of_lt htop, hscan] at htrip
    refine ⟨fuel + 1, _, _, htrip, fun a ha => ?_⟩
    rcases List.mem_cons.1 ha with rfl | ha
    · exact hmem
    · exact hall a ha

theorem EndsFrom.scanEnds {s₀ : KernelHeap} (hd : DirectoryBoot L D s₀) (h : Invariant L s)
    (hr : Reserved L s) {j : Nat} (hj : j ≤ L.pages) (hhand : s.lastAllocatedKHpage = L.addr j)
    {pa : BitVec 32} : ∀ {i : Nat}, i ≤ j + 1 → L.addr i < 4294967296 → EndsFrom L D s pa i →
      ScanEnds L D s pa
  | 0, _, _, hends => hends
  | i + 1, hi, htop, hends => by
    have hlow : L.addr i < 4294967296 := by
      unfold KernelHeapLayout.addr pageSize at *
      omega
    exact EndsFrom.scanEnds hd h hr hj hhand (by omega) hlow
      (hends.pred hd h hr hj hhand (by omega) htop)

/-- At address 0 the lookup starts the search over. -/
theorem scanLoop_zero {s₀ : KernelHeap} (hd : DirectoryBoot L D s₀) (pa : BitVec 32) :
    ∀ fuel, scanLoop L D s pa fuel 0 = none
  | 0 => rfl
  | fuel + 1 => by
    have hbase : ¬D.kernelBase ≤ 0 := by
      have := hd.kernelBase_pos
      omega
    rw [scanLoop, if_pos (Nat.zero_le _), getFrameInfo, getPageTable, if_neg hbase]
    rfl

/-- With the hand on the last page of the address space, the scan for a frame behind no live
page wraps around. -/
theorem scanLoop_wraps {s₀ : KernelHeap} (hd : DirectoryBoot L D s₀) (h : Invariant L s)
    (hr : Reserved L s) (hhand : s.lastAllocatedKHpage = L.addr L.pages)
    (htop : L.addr (L.pages + 1) = 4294967296) {pa : BitVec 32}
    (hno : ∀ i, (owner L s i).isSome → toPhysicalAddress (frameAt L s i) ≠ pa) :
    ∀ fuel i, i ≤ L.pages → scanLoop L D s pa fuel (L.addr i) = none
  | 0, _, _ => rfl
  | fuel + 1, i, hi => by
    rw [scanLoop_addr hd h hr le_rfl hhand _ _ hi, if_neg fun hm => hno i hm.1 hm.2]
    rcases Nat.lt_or_eq_of_le hi with hlt | rfl
    · rw [u32, Nat.mod_eq_of_lt (L.addr_lt _ hlt), scanLoop_wraps hd h hr hhand htop hno fuel
        (i + 1) hlt]
      rfl
    · rw [htop, show u32 4294967296 = 0 from rfl, scanLoop_zero hd]
      rfl

/-- With an invariant heap, the scan ends exactly if the hand is below the last page of the
address space or the frame backs a live page. -/
theorem scanEnds_iff {s₀ : KernelHeap} (hd : DirectoryBoot L D s₀) (h : Invariant L s)
    (hr : Reserved L s) (pa : BitVec 32) : ScanEnds L D s pa ↔
      s.lastAllocatedKHpage + pageSize < 4294967296 ∨
        ∃ i, i < L.pages ∧ NonEmpty s i ∧ toPhysicalAddress (frameAt L s i) = pa := by
  obtain ⟨j, hj, hhand⟩ := h.hand
  have hend : s.lastAllocatedKHpage + pageSize = L.addr (j + 1) := by rw [hhand, L.addr_succ]
  have hlast := L.addr_lt j hj
  constructor
  · intro hends
    by_contra hnot
    rw [not_or, hend] at hnot
    have hmax := L.max_le
    rw [L.max_eq_addr] at hmax
    obtain ⟨rfl, htop⟩ : j = L.pages ∧ L.addr (L.pages + 1) = 4294967296 := by
      unfold KernelHeapLayout.addr pageSize at *
      omega
    obtain ⟨fuel, va, visited, hscan, -⟩ := hends
    have hnone := @scanLoop_wraps L D s _ hd h hr hhand htop pa (fun i hi hpa => hnot.2 ⟨i, ?_⟩)
      fuel 0 (Nat.zero_le _)
    · change scanLoop L D s pa fuel L.kernelHeapStart = none at hnone
      rw [hscan] at hnone
      cases hnone
    · obtain ⟨t, ht⟩ := Option.isSome_iff_exists.1 hi
      have hlt := lt_pages_of_owner ht
      exact ⟨hlt, (owner_isSome_iff_nonEmpty hlt).1 hi, hpa⟩
  · have hpast : L.addr (j + 1) < 4294967296 → ScanEnds L D s pa := by
      intro htop
      have hgt : ¬L.addr (j + 1) ≤ s.lastAllocatedKHpage := by
        rw [hhand]
        unfold KernelHeapLayout.addr pageSize
        omega
      exact EndsFrom.scanEnds hd h hr hj hhand le_rfl htop
        ⟨1, 0, [], by rw [scanLoop, if_neg hgt], by simp⟩
    rintro (hbelow | ⟨i, hi, hne, hpa⟩)
    · exact hpast (hend ▸ hbelow)
    · rcases Nat.lt_or_ge j i with hij | hij
      · exact hpast (L.addr_lt (j + 1) (by omega))
      · have htrip := scanLoop_addr hd h hr hj hhand 0 pa hij
        rw [if_pos ⟨(owner_isSome_iff_nonEmpty hi).2 hne, hpa⟩] at htrip
        refine EndsFrom.scanEnds hd h hr hj hhand (by omega) (L.addr_lt i hi.le)
          ⟨1, _, _, htrip, fun a ha => ?_⟩
        rw [List.mem_singleton] at ha
        rw [ha]
        exact addr_mem_heap hi.le

/-! ## Searches with enough trips -/

/-- A lookup that a search answers is the same with more answers. -/
theorem getFrameInfo_mono {translate translate' : BitVec 32 → Option Nat}
    (hmono : ∀ pa a, translate pa = some a → translate' pa = some a) {va : Nat} {r : Option Nat}
    (h : getFrameInfo L D s translate va = some r) :
    getFrameInfo L D s translate' va = some r := by
  obtain ⟨pointer, hpointer, hread⟩ := Option.bind_eq_some_iff.1 h
  obtain ⟨p, hp, hstatus⟩ := Option.bind_eq_some_iff.1 hpointer
  refine Option.bind_eq_some_iff.2 ⟨pointer, Option.bind_eq_some_iff.2 ⟨p, ?_, hstatus⟩, hread⟩
  split_ifs at hp ⊢
  · exact hp
  · obtain ⟨a, ha, rfl⟩ := Option.map_eq_some_iff.1 hp
    rw [hmono _ _ ha, Option.map_some]

/-- A search that returns does so within more trips. -/
theorem kheapVirtualAddressLoop_succ : ∀ {n : Nat} {pa : BitVec 32} {i a : Nat},
    s.kheapVirtualAddressLoop L D n pa i = some a →
      s.kheapVirtualAddressLoop L D (n + 1) pa i = some a
  | 0, _, _, _, h => by cases h
  | n + 1, pa, i, a, h => by
    rw [kheapVirtualAddressLoop] at h ⊢
    split_ifs at h ⊢
    · obtain ⟨info, hinfo, hrest⟩ := Option.bind_eq_some_iff.1 h
      refine Option.bind_eq_some_iff.2 ⟨info, getFrameInfo_mono (fun pa' a' ha' =>
        kheapVirtualAddressLoop_succ ha') hinfo, ?_⟩
      split_ifs at hrest ⊢
      · exact hrest
      · exact kheapVirtualAddressLoop_succ hrest
    · exact h

theorem kheapVirtualAddressLoop_mono {n k : Nat} (hnk : n ≤ k) {pa : BitVec 32} {i a : Nat}
    (h : s.kheapVirtualAddressLoop L D n pa i = some a) :
    s.kheapVirtualAddressLoop L D k pa i = some a := by
  induction k, hnk using Nat.le_induction with
  | base => exact h
  | succ k _ ih => exact kheapVirtualAddressLoop_succ ih

/-- Where the entries below the hand can be read, the search passes the hand and returns. -/
theorem kheapVirtualAddressLoop_returns {j : Nat} (hhand : s.lastAllocatedKHpage = L.addr j)
    (htop : L.addr (j + 1) < 4294967296)
    (hread : ∀ i ≤ j, ∃ g, ∀ translate, getFrameInfo L D s translate (L.addr i) = some g)
    (pa : BitVec 32) : ∀ (k i : Nat), i + k = j + 1 →
      ∃ a, s.kheapVirtualAddressLoop L D (k + 1) pa (L.addr i) = some a
  | 0, i, hik => by
    have hgt : ¬L.addr i ≤ s.lastAllocatedKHpage := by
      rw [hhand]
      unfold KernelHeapLayout.addr pageSize
      omega
    exact ⟨0, by rw [kheapVirtualAddressLoop, if_neg hgt]⟩
  | k + 1, i, hik => by
    obtain ⟨a, ha⟩ := kheapVirtualAddressLoop_returns hhand htop hread pa k (i + 1) (by omega)
    obtain ⟨g, hg⟩ := hread i (by omega)
    have hle : L.addr i ≤ s.lastAllocatedKHpage := by
      rw [hhand]
      unfold KernelHeapLayout.addr pageSize
      omega
    have hlt : L.addr (i + 1) < 4294967296 := by
      have hle : i + 1 ≤ j + 1 := by omega
      exact Nat.lt_of_le_of_lt (Nat.add_le_add_left (Nat.mul_le_mul_left _ hle) _) htop
    rw [kheapVirtualAddressLoop, if_pos hle, hg, Option.bind_some, L.addr_succ, u32,
      Nat.mod_eq_of_lt hlt, ha]
    split_ifs
    · exact ⟨_, rfl⟩
    · exact ⟨_, rfl⟩

section Search

variable {fuel : Nat} {s₀ : KernelHeap} (hd : DirectoryBoot L D s₀) (h : Invariant L s)
  (hfuel : L.pages + 2 ≤ fuel)

include hd h hfuel

theorem kheapVirtualAddress_returns (hr : Reserved L s)
    (htop : s.lastAllocatedKHpage + pageSize < 4294967296) (pa : BitVec 32) :
    ∃ a, s.kheapVirtualAddress L D fuel pa = some a := by
  obtain ⟨j, hj, hhand⟩ := h.hand
  rw [hhand, L.addr_succ] at htop
  obtain ⟨a, ha⟩ := kheapVirtualAddressLoop_returns (D := D) hhand htop
    (fun i hi => ⟨_, fun translate => getFrameInfo_addr hd h hr translate (hi.trans hj)⟩) pa
    (j + 1) 0 (Nat.zero_add _)
  exact ⟨a, kheapVirtualAddressLoop_mono (by omega) ha⟩

/-- With the hand below the end of the heap. -/
theorem kheapVirtualAddress_below (hhand : s.lastAllocatedKHpage < L.kernelHeapMax)
    (pa : BitVec 32) : ∃ a, s.kheapVirtualAddress L D fuel pa = some a := by
  obtain ⟨j, -, hj⟩ := h.hand
  rw [hj, L.addr_lt_max] at hhand
  obtain ⟨a, ha⟩ := kheapVirtualAddressLoop_returns (D := D) hj (L.addr_lt (j + 1) hhand)
    (fun i hi => ⟨_, fun translate =>
      getFrameInfo_page hd h translate (Nat.lt_of_le_of_lt hi hhand)⟩) pa (j + 1) 0 (Nat.zero_add _)
  exact ⟨a, kheapVirtualAddressLoop_mono (by omega) ha⟩

/-- A live page that is not above the hand is found. -/
theorem kheapVirtualAddress_page {i : Nat} (hi : (owner L s i).isSome)
    (hle : L.addr i ≤ s.lastAllocatedKHpage) :
    s.kheapVirtualAddress L D fuel (toPhysicalAddress (frameAt L s i)) = some (L.addr i) := by
  obtain ⟨t, ht⟩ := Option.isSome_iff_exists.1 hi
  have hlt := lt_pages_of_owner ht
  have hloop : s.kheapVirtualAddressLoop L D (0 + i + 1) (toPhysicalAddress (frameAt L s i))
      (L.addr 0) = some (L.addr i) :=
    kheapVirtualAddressLoop_found hd h hi hle 0 i 0 (Nat.zero_add _)
  exact kheapVirtualAddressLoop_mono (by omega) hloop

/-- The page of a block that is not above the hand is found. -/
theorem kheapVirtualAddress_found {t f : Nat} (hb : Holds L s t [f])
    (hle : L.addr t ≤ s.lastAllocatedKHpage) :
    s.kheapVirtualAddress L D fuel (toPhysicalAddress f) = some (L.addr t) := by
  have hframe : frameAt L s t = f := hb.2 0 Nat.one_pos
  rw [← hframe]
  exact kheapVirtualAddress_page hd h hfuel (Option.isSome_iff_exists.2 ⟨t, hb.1.owner_first⟩) hle

end Search

/-- In every state reached from boot the scan for a physical address ends exactly if the
hand is below the last page of the address space or the address is that of the frame of an
allocated page. -/
theorem scan_ends_iff {s₀ : KernelHeap} (h₀ : Boot L s₀) (hd : DirectoryBoot L D s₀)
    {calls : List Call} (hr : Machine.run (promptStep L) s₀ calls = some s) (pa : BitVec 32) :
    ScanEnds L D s pa ↔ s.lastAllocatedKHpage + pageSize < 4294967296 ∨
      ∃ i, i < L.pages ∧ NonEmpty s i ∧ toPhysicalAddress (frameAt L s i) = pa := by
  obtain ⟨h, hres⟩ := prompt_run_reserved h₀ hd hr
  exact scanEnds_iff hd h hres pa

/-- A heap of three pages that ends where the kernel's does. -/
def topLayout : KernelHeapLayout where
  kernelHeapStart := 0xFFFFC000
  kernelHeapMax := 0xFFFFF000
  numberOfFrames := 5
  start_lt_max := by decide
  max_le := by decide
  start_aligned := by decide
  max_aligned := by decide
  numberOfFrames_le := smallLayout.numberOfFrames_le

/-- The heap of `topLayout` at boot, with three free frames. -/
def topHeap : KernelHeap :=
  { smallHeap with
    lastAllocatedKHpage := 0xFFFFC000
    memory := { smallHeap.memory with freeFrameList := [3, 2, 1] } }

theorem topHeap_boot : Boot topLayout topHeap :=
  ⟨fun _ => rfl, rfl, rfl, fun _ _ => rfl, by decide, by decide, by decide⟩

theorem topDirectory_boot : DirectoryBoot topLayout smallDirectory topHeap where
  kernelBase_pos := by decide
  kernelBase_le := by decide
  present := by decide
  first := by decide
  last := by decide
  reserved := by decide

/-- With part of the heap allocated, the search for any frame ends. -/
theorem topHeap_scan_ends : ∃ s,
    Machine.run (promptStep topLayout) topHeap [.kmalloc 5000] = some s ∧
      ScanEnds topLayout smallDirectory s (toPhysicalAddress 4) := by
  have hrun : (Machine.run (promptStep topLayout) topHeap [.kmalloc 5000]).map
      KernelHeap.lastAllocatedKHpage = some 0xFFFFE000 := by decide
  obtain ⟨s, hs, hhand⟩ := Option.map_eq_some_iff.1 hrun
  refine ⟨s, hs, (scan_ends_iff topHeap_boot topDirectory_boot hs (toPhysicalAddress 4)).2
    (Or.inl ?_)⟩
  rw [hhand]
  decide

/-- With the heap allocated to its end, the search for a frame that backs no page of it does
not end. -/
theorem fullHeap_counterexample : ∃ s,
    Machine.run (promptStep topLayout) topHeap [.kmalloc 12288] = some s ∧
      ¬ScanEnds topLayout smallDirectory s (toPhysicalAddress 4) := by
  have hrun : (Machine.run (promptStep topLayout) topHeap [.kmalloc 12288]).map (fun s =>
      (s.lastAllocatedKHpage, (List.range 3).map (frameAt topLayout s))) =
      some (0xFFFFF000, [3, 2, 1]) := by decide
  obtain ⟨s, hs, hres⟩ := Option.map_eq_some_iff.1 hrun
  simp only [Prod.mk.injEq] at hres
  obtain ⟨hhand, hframes⟩ := hres
  obtain ⟨h, hr⟩ := prompt_run_reserved topHeap_boot topDirectory_boot hs
  refine ⟨s, hs, fun hends => ?_⟩
  rcases (scanEnds_iff topDirectory_boot h hr _).1 hends with hbelow | ⟨i, hi, -, hpa⟩
  · rw [hhand] at hbelow
    exact absurd hbelow (by decide)
  · have hi3 : i < 3 := hi
    have hmem : frameAt topLayout s i ∈ [3, 2, 1] := by
      rw [← hframes]
      exact List.mem_map_of_mem (List.mem_range.2 hi3)
    have hall : ∀ f ∈ [3, 2, 1], toPhysicalAddress f ≠ toPhysicalAddress 4 := by decide
    exact hall _ hmem hpa

end KernelHeap

end FosKernel
