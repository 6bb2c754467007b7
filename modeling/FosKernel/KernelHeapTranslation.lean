import FosKernel.KernelHeapRuns

/-!
# Address translation of the kernel heap

`kheap_physical_address` reads the page-table entry of a heap address, and
`kheap_virtual_address` searches the heap pages for the one mapped to a frame.
`get_page_table` calls the search for every address that is not a kernel address, so the
two are one recursion. The search has no value here if it does not return.

The search stops at `lastAllocatedKHpage`, which next fit moves down when it wraps
around and best fit when it reuses a low hole. `translation_iff` : in a state reached
from boot the two translations are inverse on the live pages exactly when no live page
lies above the hand.
-/

namespace FosKernel

/-- What `get_page_table` reads besides the kernel's page tables : the entries of
`ptr_page_directory`, and the words of the page tables that lie in the kernel heap. -/
structure KernelDirectory where
  /-- `CHECK_IF_KERNEL_ADDRESS(va)` is `kernelBase ≤ va`. -/
  kernelBase : Nat
  entries : Nat → Entry
  tableWord : Nat → Nat → Entry

/-- A `uint32 *ptr_page_table` : a table of the kernel, or the heap page at an address. -/
inductive TablePointer where
  | static (index : Nat)
  | heap (va : Nat)
  deriving DecidableEq, Repr

/-- The null pointer. -/
def TablePointer.null : TablePointer :=
  .heap 0

namespace KernelHeap

variable (L : KernelHeapLayout) (D : KernelDirectory) (s : KernelHeap)

/-- `get_page_table(ptr_page_directory, va, &ptr_page_table)`, with `translate` for
`kheap_virtual_address`. A table that is not in memory calls `fault_handler(NULL)`. -/
def getPageTable (translate : BitVec 32 → Option Nat) (va : Nat) : Option TablePointer :=
  let pageDirectoryEntry := D.entries (pdx va)
  let pointer :=
    if D.kernelBase ≤ va then some (TablePointer.static (pdx va))
    else (translate (extractAddress pageDirectoryEntry)).map TablePointer.heap
  pointer.bind fun ptrPageTable =>
    if IsPresent pageDirectoryEntry then some ptrPageTable
    else if pageDirectoryEntry ≠ 0#32 then none
    else some TablePointer.null

/-- `ptr_page_table[PTX(va)]`. -/
def tableEntry (ptrPageTable : TablePointer) (va : Nat) : Entry :=
  match ptrPageTable with
  | .static _ => s.kernelEntries (va / pageSize)
  | .heap h => D.tableWord h (ptx va)

/-- `get_frame_info` : the number of the frame mapped at `va`, if there is one. A panic of
`to_frame_info` if the entry names no frame. -/
def getFrameInfo (translate : BitVec 32 → Option Nat) (va : Nat) : Option (Option Nat) :=
  (getPageTable D translate va).bind fun ptrPageTable =>
    if ptrPageTable = TablePointer.null then some none
    else
      let e := tableEntry D s ptrPageTable va
      if e = 0#32 then some none
      else if frameNumber e < L.numberOfFrames then some (some (frameNumber e))
      else none

/-- The loop of `kheap_virtual_address` at address `i`. Its own recursion through
`get_page_table` starts the search over. No value if `fuel` is not enough. -/
def kheapVirtualAddressLoop : Nat → BitVec 32 → Nat → Option Nat
  | 0, _, _ => none
  | fuel + 1, physicalAddress, i =>
    if i ≤ s.lastAllocatedKHpage then
      (getFrameInfo L D s (fun pa => kheapVirtualAddressLoop fuel pa L.kernelHeapStart) i).bind
        fun frameInfo =>
          if frameInfo.map toPhysicalAddress = some physicalAddress then some i
          else kheapVirtualAddressLoop fuel physicalAddress (u32 (i + pageSize))
    else some 0

/-- `kheap_virtual_address(physical_address)`, within `fuel` trips. -/
def kheapVirtualAddress (fuel : Nat) (physicalAddress : BitVec 32) : Option Nat :=
  kheapVirtualAddressLoop L D s fuel physicalAddress L.kernelHeapStart

/-- `kheap_physical_address(va)`, within `fuel` trips of the search it may start. -/
def kheapPhysicalAddress (fuel : Nat) (va : Nat) : Option (BitVec 32) :=
  (getPageTable D (kheapVirtualAddress L D s fuel) va).map fun ptrPageTable =>
    if ptrPageTable = TablePointer.null then 0#32
    else (tableEntry D s ptrPageTable va >>> 12) * 4096#32

/-- `kheap_virtual_address(physical_address)` returns `va`. -/
def VirtualAddressReturns (physicalAddress : BitVec 32) (va : Nat) : Prop :=
  ∃ fuel, kheapVirtualAddress L D s fuel physicalAddress = some va

/-- The directory at boot : the kernel's page tables are present, the heap is in the
kernel's half, the first directory entry is the zero `initialize_kernel_VM` wrote, the page
after the heap is not mapped, and frame 0 is reserved. -/
structure DirectoryBoot (s₀ : KernelHeap) : Prop where
  kernelBase_pos : 0 < D.kernelBase
  kernelBase_le : D.kernelBase ≤ L.kernelHeapStart
  present : ∀ i, i ≤ L.pages → IsPresent (D.entries (pdx (L.addr i)))
  first : D.entries 0 = 0#32
  last : entry L s₀ L.pages = 0#32
  reserved : 0 ∉ s₀.memory.freeFrameList

variable {L D s} {s' : KernelHeap}

/-! ## What a run keeps -/

/-- The page after the heap stays unmapped and frame 0 stays out of use. -/
structure Reserved (L : KernelHeapLayout) (s : KernelHeap) : Prop where
  last : entry L s L.pages = 0#32
  free : 0 ∉ s.memory.freeFrameList
  used : ∀ i t, owner L s i = some t → frameAt L s i ≠ 0

theorem Unchanged.reserved (hr : Reserved L s) (h : Unchanged L s s') : Reserved L s' := by
  refine ⟨(h.entry _).trans hr.last, by rw [h.memory]; exact hr.free, fun i t hi => ?_⟩
  rw [h.owner] at hi
  rw [frameAt, h.entry]
  exact hr.used i t hi

theorem Allocated.reserved (hr : Reserved L s) {t n : Nat} (h : Allocated L s t n s') :
    Reserved L s' := by
  obtain ⟨taken, hlist, hlen, hframes⟩ := h.frames
  have hfits := h.fits
  have hfree := hr.free
  rw [hlist, List.mem_append, not_or] at hfree
  refine ⟨by rw [h.entries _ (by omega)]; exact hr.last, hfree.2, fun i u hi => ?_⟩
  by_cases hmem : t ≤ i ∧ i < t + n
  · intro hzero
    have hk : i - t < taken.length := by omega
    have hfr := hframes (i - t) hk
    rw [Nat.add_sub_cancel' hmem.1, hzero] at hfr
    exact hfree.1 (hfr ▸ List.getElem_mem hk)
  · rw [h.owner, BlockMap.claim_of_not_mem hmem] at hi
    rw [frameAt, h.entries i hmem]
    exact hr.used i u hi

theorem Unmapped.reserved (hr : Reserved L s) {t n : Nat}
    (hb : BlockMap.IsBlock (KernelHeap.owner L s) t n) (h : Unmapped L s t (t + n) s') :
    Reserved L s' := by
  have hpos := hb.1
  have hend := lt_pages_of_owner ((hb.2 (t + n - 1)).2 (by omega))
  refine ⟨by rw [h.entries _ (by omega)]; exact hr.last, ?_, fun i u hi => ?_⟩
  · rw [h.frames, List.mem_append, List.mem_reverse, List.mem_map, not_or]
    refine ⟨?_, hr.free⟩
    rintro ⟨i, hi, hzero⟩
    rw [List.mem_range'_1] at hi
    exact hr.used i t ((hb.2 i).2 (by omega)) hzero
  · rw [h.owner i] at hi
    split_ifs at hi with hmem
    rw [frameAt, h.entries i hmem]
    exact hr.used i u hi

theorem step_reserved (h : Invariant L s) (hr : Reserved L s) {c : Call}
    (hc : step L s c = some s') : Reserved L s' := by
  cases c with
  | kmalloc size =>
    obtain ⟨⟨p, s₁⟩, hk, rfl⟩ := Option.map_eq_some_iff.1 hc
    obtain ⟨-, ⟨-, hun⟩ | ⟨t, -, -, hal⟩⟩ := kmalloc_spec h hk
    · exact hun.reserved hr
    · exact hal.reserved hr
  | kfree va =>
    obtain ⟨-, hun | ⟨t, n, -, hb, hun⟩⟩ := kfree_spec h hc
    · exact hun.reserved hr
    · exact hun.reserved hr hb
  | setStrategy strategy =>
    obtain rfl := Option.some.inj hc
    exact ⟨hr.last, hr.free, hr.used⟩

theorem run_reserved {s₀ : KernelHeap} (h₀ : Boot L s₀) (hd : DirectoryBoot L D s₀)
    {calls : List Call} (hrun : Machine.run (step L) s₀ calls = some s) :
    Invariant L s ∧ Reserved L s := by
  refine Machine.run_induction (P := fun s => Invariant L s ∧ Reserved L s) ?_
    ⟨h₀.invariant, hd.last, hd.reserved, ?_⟩ hrun
  · rintro s c s' ⟨hinv, hr⟩ hc
    exact ⟨(step_invariant hinv hc).1, step_reserved hinv hr hc⟩
  · simp [owner_of_not_init h₀.uninitialized]

/-! ## The search -/

theorem pdx_kernel {s₀ : KernelHeap} (hd : DirectoryBoot L D s₀) (i : Nat) :
    D.kernelBase ≤ L.addr i :=
  hd.kernelBase_le.trans (Nat.le_add_right _ _)

/-- A heap address finds its table without a search. -/
theorem getPageTable_addr {s₀ : KernelHeap} (hd : DirectoryBoot L D s₀)
    (translate : BitVec 32 → Option Nat) {i : Nat} (hi : i ≤ L.pages) :
    getPageTable D translate (L.addr i) = some (.static (pdx (L.addr i))) := by
  simp [getPageTable, pdx_kernel hd i, hd.present i hi]

/-- What the search reads of an address of the heap. -/
theorem getFrameInfo_eq {s₀ : KernelHeap} (hd : DirectoryBoot L D s₀)
    (translate : BitVec 32 → Option Nat) {i : Nat} (hi : i ≤ L.pages) :
    getFrameInfo L D s translate (L.addr i) =
      if entry L s i = 0#32 then some none
      else if frameAt L s i < L.numberOfFrames then some (some (frameAt L s i)) else none := by
  have hnull : TablePointer.static (pdx (L.addr i)) ≠ TablePointer.null := by
    simp [TablePointer.null]
  unfold getFrameInfo
  rw [getPageTable_addr hd translate hi, Option.bind_some, if_neg hnull]
  rfl

/-- A page of the heap has the frame of its block, or none. -/
theorem getFrameInfo_page {s₀ : KernelHeap} (hd : DirectoryBoot L D s₀) (h : Invariant L s)
    (translate : BitVec 32 → Option Nat) {i : Nat} (hi : i < L.pages) :
    getFrameInfo L D s translate (L.addr i) =
      some (if (owner L s i).isSome then some (frameAt L s i) else none) := by
  rw [getFrameInfo_eq hd translate hi.le]
  cases hown : owner L s i with
  | none =>
    rw [if_pos (h.unmapped i hi hown)]
    rfl
  | some t =>
    obtain ⟨hf, he, -, -⟩ := h.frameAt_spec hown
    rw [if_neg (he ▸ heapEntry_ne_zero _), if_pos hf]
    rfl

theorem getFrameInfo_addr {s₀ : KernelHeap} (hd : DirectoryBoot L D s₀) (h : Invariant L s)
    (hr : Reserved L s) (translate : BitVec 32 → Option Nat) {i : Nat} (hi : i ≤ L.pages) :
    getFrameInfo L D s translate (L.addr i) =
      some (if (owner L s i).isSome then some (frameAt L s i) else none) := by
  rcases Nat.lt_or_eq_of_le hi with hlt | rfl
  · exact getFrameInfo_page hd h translate hlt
  · rw [getFrameInfo_eq hd translate le_rfl, if_pos hr.last, owner_eq_none_of_pages_le le_rfl]
    rfl

/-- The physical address of a live page. -/
theorem kheapPhysicalAddress_addr {s₀ : KernelHeap} (hd : DirectoryBoot L D s₀)
    (h : Invariant L s) (fuel : Nat) {i t : Nat} (hi : owner L s i = some t) :
    kheapPhysicalAddress L D s fuel (L.addr i) = some (toPhysicalAddress (frameAt L s i)) := by
  have hnull : TablePointer.static (pdx (L.addr i)) ≠ TablePointer.null := by
    simp [TablePointer.null]
  obtain ⟨hf, he, -, -⟩ := h.frameAt_spec hi
  have hshift : heapEntry (frameAt L s i) >>> 12 = BitVec.ofNat 32 (frameAt L s i) := by
    have hnum : (heapEntry (frameAt L s i) >>> 12).toNat = frameAt L s i := by
      rw [← extractAddress_ushiftRight]
      exact frameNumber_heapEntry hf
    have hn := L.numberOfFrames_le
    apply BitVec.eq_of_toNat_eq
    rw [hnum, BitVec.toNat_ofNat, Nat.mod_eq_of_lt (by omega)]
  unfold kheapPhysicalAddress
  rw [getPageTable_addr hd _ (lt_pages_of_owner hi).le, Option.map_some, if_neg hnull]
  change some ((entry L s i >>> 12) * 4096#32) = _
  rw [he, hshift]
  have hmul : BitVec.ofNat 32 (frameAt L s i) * 4096#32 = toPhysicalAddress (frameAt L s i) := by
    rw [toPhysicalAddress, BitVec.shiftLeft_eq_mul_twoPow]
    rfl
  rw [hmul]

/-- One trip of the search, at a page of the heap. -/
theorem kheapVirtualAddressLoop_page {s₀ : KernelHeap} (hd : DirectoryBoot L D s₀)
    (h : Invariant L s) (fuel : Nat) (pa : BitVec 32) {i : Nat} (hi : i < L.pages)
    (hle : L.addr i ≤ s.lastAllocatedKHpage) :
    kheapVirtualAddressLoop L D s (fuel + 1) pa (L.addr i) =
      if (owner L s i).isSome ∧ toPhysicalAddress (frameAt L s i) = pa then some (L.addr i)
      else kheapVirtualAddressLoop L D s fuel pa (L.addr (i + 1)) := by
  have hnext : u32 (L.addr i + pageSize) = L.addr (i + 1) := by
    rw [L.addr_succ, u32, Nat.mod_eq_of_lt (L.addr_lt (i + 1) hi)]
  rw [kheapVirtualAddressLoop, if_pos hle, getFrameInfo_page hd h _ hi, Option.bind_some, hnext]
  cases owner L s i <;> simp

/-- One trip of the search, at an address of the heap. -/
theorem kheapVirtualAddressLoop_addr {s₀ : KernelHeap} (hd : DirectoryBoot L D s₀)
    (h : Invariant L s) (hr : Reserved L s) {j : Nat} (hj : j ≤ L.pages)
    (hhand : s.lastAllocatedKHpage = L.addr j) (fuel : Nat) (pa : BitVec 32) {i : Nat}
    (hi : i ≤ j) :
    kheapVirtualAddressLoop L D s (fuel + 1) pa (L.addr i) =
      if (owner L s i).isSome ∧ toPhysicalAddress (frameAt L s i) = pa then some (L.addr i)
      else kheapVirtualAddressLoop L D s fuel pa (u32 (L.addr (i + 1))) := by
  have hle : L.addr i ≤ s.lastAllocatedKHpage := by
    rw [hhand]
    unfold KernelHeapLayout.addr pageSize
    omega
  rw [kheapVirtualAddressLoop, if_pos hle, getFrameInfo_addr hd h hr _ (hi.trans hj),
    Option.bind_some, L.addr_succ]
  cases owner L s i <;> simp

/-- Distinct live pages have distinct frames. -/
theorem Invariant.eq_of_physical (h : Invariant L s) {i k : Nat} (hi : (owner L s i).isSome)
    (hk : (owner L s k).isSome)
    (hpa : toPhysicalAddress (frameAt L s i) = toPhysicalAddress (frameAt L s k)) : i = k := by
  obtain ⟨t, ht⟩ := Option.isSome_iff_exists.1 hi
  obtain ⟨u, hu⟩ := Option.isSome_iff_exists.1 hk
  obtain ⟨hf, he, -, -⟩ := h.frameAt_spec ht
  obtain ⟨hf', he', -, -⟩ := h.frameAt_spec hu
  have hn := L.numberOfFrames_le
  have hff := toPhysicalAddress_injective (by omega) (by omega) hpa
  exact h.distinct i k hi hk (by rw [he, he', hff])

/-- A live page at or below the hand is found. -/
theorem kheapVirtualAddressLoop_found {s₀ : KernelHeap} (hd : DirectoryBoot L D s₀)
    (h : Invariant L s) {k : Nat} (hk : (owner L s k).isSome)
    (hhand : L.addr k ≤ s.lastAllocatedKHpage) (fuel : Nat) : ∀ (d i : Nat), i + d = k →
      kheapVirtualAddressLoop L D s (fuel + d + 1) (toPhysicalAddress (frameAt L s k))
        (L.addr i) = some (L.addr k)
  | 0, i, hid => by
    obtain rfl : i = k := hid
    obtain ⟨t, ht⟩ := Option.isSome_iff_exists.1 hk
    rw [kheapVirtualAddressLoop_page hd h _ _ (lt_pages_of_owner ht) hhand, if_pos ⟨hk, rfl⟩]
  | d + 1, i, hid => by
    obtain ⟨t, ht⟩ := Option.isSome_iff_exists.1 hk
    have hlt := lt_pages_of_owner ht
    have hle : L.addr i ≤ s.lastAllocatedKHpage := by
      unfold KernelHeapLayout.addr pageSize at *
      omega
    rw [kheapVirtualAddressLoop_page hd h _ _ (by omega) hle, if_neg]
    · exact kheapVirtualAddressLoop_found hd h hk hhand fuel d (i + 1) (by omega)
    · rintro ⟨hi, hpa⟩
      have := h.eq_of_physical hi hk hpa
      omega

/-- Past the top of the address space the search never returns : at address zero it looks
up the page table of the zero directory entry, which starts it over for frame 0. -/
theorem kheapVirtualAddressLoop_wrapped {s₀ : KernelHeap} (hd : DirectoryBoot L D s₀)
    (h : Invariant L s) (hr : Reserved L s) (hhand : s.lastAllocatedKHpage = L.addr L.pages)
    (htop : L.addr (L.pages + 1) = 4294967296) :
    ∀ fuel, (∀ pa, kheapVirtualAddressLoop L D s fuel pa 0 = none) ∧
      ∀ i, i ≤ L.pages → kheapVirtualAddressLoop L D s fuel 0#32 (L.addr i) = none
  | 0 => ⟨fun _ => rfl, fun _ _ => rfl⟩
  | fuel + 1 => by
    obtain ⟨ih₀, ih⟩ := kheapVirtualAddressLoop_wrapped hd h hr hhand htop fuel
    constructor
    · intro pa
      have hbase : ¬D.kernelBase ≤ 0 := by
        have := hd.kernelBase_pos
        omega
      have hzero : extractAddress (D.entries (pdx 0)) = 0#32 := by
        rw [show pdx 0 = 0 from rfl, hd.first]
        rfl
      have hstart : kheapVirtualAddressLoop L D s fuel 0#32 L.kernelHeapStart = none :=
        ih 0 (Nat.zero_le _)
      rw [kheapVirtualAddressLoop, if_pos (Nat.zero_le _), getFrameInfo, getPageTable]
      simp only [if_neg hbase, hzero, hstart, Option.map_none, Option.bind_none]
    · intro i hi
      rw [kheapVirtualAddressLoop_addr hd h hr le_rfl hhand _ _ hi, if_neg]
      · rcases Nat.lt_or_eq_of_le hi with hlt | rfl
        · rw [u32, Nat.mod_eq_of_lt (L.addr_lt _ hlt)]
          exact ih (i + 1) hlt
        · rw [htop]
          exact ih₀ 0#32
      · rintro ⟨hsome, hpa⟩
        obtain ⟨t, ht⟩ := Option.isSome_iff_exists.1 hsome
        have hn := L.numberOfFrames_le
        have hf := (h.frameAt_spec ht).1
        exact hr.used i t ht (toPhysicalAddress_injective (g := 0) (by omega) (by omega) hpa)

/-- If no page from `i` up to the hand is mapped to the frame, the search returns 0 if it
returns. -/
theorem kheapVirtualAddressLoop_not_found {s₀ : KernelHeap} (hd : DirectoryBoot L D s₀)
    (h : Invariant L s) (hr : Reserved L s) {j : Nat} (hj : j ≤ L.pages)
    (hhand : s.lastAllocatedKHpage = L.addr j) {pa : BitVec 32} {r : Nat} :
    ∀ (fuel i : Nat), i ≤ j →
      (∀ k, i ≤ k → k ≤ j → (owner L s k).isSome → toPhysicalAddress (frameAt L s k) ≠ pa) →
      kheapVirtualAddressLoop L D s fuel pa (L.addr i) = some r → r = 0
  | 0, _, _, _, hloop => by cases hloop
  | fuel + 1, i, hij, hno, hloop => by
    rw [kheapVirtualAddressLoop_addr hd h hr hj hhand _ _ hij,
      if_neg fun hm => hno i le_rfl hij hm.1 hm.2] at hloop
    rcases Nat.lt_or_eq_of_le hij with hlt | rfl
    · rw [u32, Nat.mod_eq_of_lt (L.addr_lt (i + 1) (by omega))] at hloop
      exact kheapVirtualAddressLoop_not_found hd h hr hj hhand fuel (i + 1) hlt
        (fun k hk => hno k (by omega)) hloop
    · by_cases htop : L.addr (i + 1) < 4294967296
      · rw [u32, Nat.mod_eq_of_lt htop] at hloop
        have hgt : ¬L.addr (i + 1) ≤ s.lastAllocatedKHpage := by
          rw [hhand]
          unfold KernelHeapLayout.addr pageSize
          omega
        cases fuel with
        | zero => cases hloop
        | succ fuel =>
          rw [kheapVirtualAddressLoop, if_neg hgt] at hloop
          exact (Option.some.inj hloop).symm
      · -- The hand is the last page of the address space.
        have hmax := L.max_le
        rw [L.max_eq_addr] at hmax
        have hip : i = L.pages ∧ L.addr (i + 1) = 4294967296 := by
          unfold KernelHeapLayout.addr pageSize at *
          omega
        obtain ⟨rfl, htop'⟩ := hip
        have hzero : u32 (L.addr (L.pages + 1)) = 0 := by rw [htop']; rfl
        rw [hzero, (kheapVirtualAddressLoop_wrapped hd h hr hhand htop' fuel).1] at hloop
        cases hloop

/-! ## The translations -/

/-- The claim about one state : every live page translates to its frame and back, and the
address of a frame behind no live page translates to 0 when the search returns. -/
def TranslationInverse (L : KernelHeapLayout) (D : KernelDirectory) (s : KernelHeap) : Prop :=
  (∀ i, i < L.pages → NonEmpty s i → ∃ fuel pa,
    kheapPhysicalAddress L D s fuel (L.addr i) = some pa ∧
      VirtualAddressReturns L D s pa (L.addr i)) ∧
  ∀ pa, (∀ i, i < L.pages → NonEmpty s i →
      ∀ fuel, kheapPhysicalAddress L D s fuel (L.addr i) ≠ some pa) →
    ∀ r, VirtualAddressReturns L D s pa r → r = 0

/-- A live page translates back to itself exactly when it is not above the hand. -/
theorem virtualAddressReturns_iff {s₀ : KernelHeap} (hd : DirectoryBoot L D s₀)
    (h : Invariant L s) (hr : Reserved L s) {i : Nat} (hi : (owner L s i).isSome) :
    VirtualAddressReturns L D s (toPhysicalAddress (frameAt L s i)) (L.addr i) ↔
      L.addr i ≤ s.lastAllocatedKHpage := by
  obtain ⟨j, hj, hhand⟩ := h.hand
  have hle : L.addr i ≤ s.lastAllocatedKHpage ↔ i ≤ j := by
    rw [hhand]
    unfold KernelHeapLayout.addr pageSize
    omega
  rw [hle]
  constructor
  · rintro ⟨fuel, hfuel⟩
    by_contra hij
    have hzero := kheapVirtualAddressLoop_not_found hd h hr hj hhand fuel 0 (Nat.zero_le j)
      (fun k _ hkj hk hpa => ?_) hfuel
    · have hpos := hd.kernelBase_pos
      have := pdx_kernel hd i
      omega
    · have := h.eq_of_physical hk hi hpa
      omega
  · intro hij
    exact ⟨0 + i + 1, kheapVirtualAddressLoop_found hd h hi (hle.2 hij) 0 i 0 (by omega)⟩

/-- In every state reached from boot the translations are inverse exactly when every live
page lies at or below the hand. -/
theorem translation_iff {s₀ : KernelHeap} (h₀ : Boot L s₀) (hd : DirectoryBoot L D s₀)
    {calls : List Call} (hrun : Machine.run (step L) s₀ calls = some s) :
    TranslationInverse L D s ↔
      ∀ i, i < L.pages → NonEmpty s i → L.addr i ≤ s.lastAllocatedKHpage := by
  obtain ⟨h, hr⟩ := run_reserved h₀ hd hrun
  obtain ⟨j, hj, hhand⟩ := h.hand
  have hphys : ∀ i, i < L.pages → NonEmpty s i → ∀ fuel,
      kheapPhysicalAddress L D s fuel (L.addr i) =
        some (toPhysicalAddress (frameAt L s i)) := by
    intro i hi hne fuel
    obtain ⟨t, ht⟩ := Option.isSome_iff_exists.1 ((owner_isSome_iff_nonEmpty hi).2 hne)
    exact kheapPhysicalAddress_addr hd h fuel ht
  constructor
  · rintro ⟨hlive, -⟩ i hi hne
    obtain ⟨fuel, pa, hpa, hret⟩ := hlive i hi hne
    rw [hphys i hi hne, Option.some.injEq] at hpa
    subst hpa
    exact (virtualAddressReturns_iff hd h hr ((owner_isSome_iff_nonEmpty hi).2 hne)).1 hret
  · intro hle
    refine ⟨fun i hi hne => ⟨0, _, hphys i hi hne 0, ?_⟩, fun pa hno r => ?_⟩
    · exact (virtualAddressReturns_iff hd h hr ((owner_isSome_iff_nonEmpty hi).2 hne)).2
        (hle i hi hne)
    · rintro ⟨fuel, hfuel⟩
      refine kheapVirtualAddressLoop_not_found hd h hr hj hhand fuel 0 (Nat.zero_le j) ?_ hfuel
      intro k _ _ hk hpa
      obtain ⟨t, ht⟩ := Option.isSome_iff_exists.1 hk
      have hlt := lt_pages_of_owner ht
      have hne := (owner_isSome_iff_nonEmpty hlt).1 hk
      exact hno k hlt hne 0 (by rw [hphys k hlt hne, hpa])

/-- A kernel directory with every kernel page table present and no user page table. -/
def smallDirectory : KernelDirectory where
  kernelBase := 0xF0000000
  entries i := if 960 ≤ i then constructEntry (toPhysicalAddress i) permPresent else 0#32
  tableWord _ _ := 0#32

theorem smallDirectory_boot : DirectoryBoot smallLayout smallDirectory smallHeap where
  kernelBase_pos := by decide
  kernelBase_le := by decide
  present := by decide
  first := by decide
  last := by decide
  reserved := by decide

theorem smallHeap_translation : ∃ s,
    Machine.run (step smallLayout) smallHeap [.kmalloc 12288] = some s ∧
      TranslationInverse smallLayout smallDirectory s := by
  have hrun : (Machine.run (step smallLayout) smallHeap [.kmalloc 12288]).map
      KernelHeap.lastAllocatedKHpage = some 0xF6003000 := by decide
  obtain ⟨s, hs, hhand⟩ := Option.map_eq_some_iff.1 hrun
  refine ⟨s, hs, (translation_iff smallHeap_boot smallDirectory_boot hs).2 fun i hi _ => ?_⟩
  have hi3 : i < 3 := hi
  rw [hhand, KernelHeapLayout.addr, show smallLayout.kernelHeapStart = 0xF6000000 from rfl]
  unfold pageSize
  omega

/-- Next fit reuses the first page and leaves the hand below the third, which is live and is
not found. -/
theorem translation_counterexample : ∃ s,
    Machine.run (step smallLayout) smallHeap [.setStrategy .nextFit, .kmalloc 4096,
      .kmalloc 8192, .kfree 0xF6000000, .kmalloc 4096] = some s ∧
    NonEmpty s 2 ∧
    (kheapPhysicalAddress smallLayout smallDirectory s 0 0xF6002000).bind
      (kheapVirtualAddress smallLayout smallDirectory s 3) = some 0 ∧
    ¬TranslationInverse smallLayout smallDirectory s := by
  have hrun : (Machine.run (step smallLayout) smallHeap [.setStrategy .nextFit, .kmalloc 4096,
      .kmalloc 8192, .kfree 0xF6000000, .kmalloc 4096]).map (fun s =>
        (s.lastAllocatedKHpage, s.isKHpageEmpty, (s.kernelHeapPages 2).isEmpty,
          (kheapPhysicalAddress smallLayout smallDirectory s 0 0xF6002000).bind
            (kheapVirtualAddress smallLayout smallDirectory s 3))) =
      some (0xF6001000, false, false, some 0) := by decide
  obtain ⟨s, hs, hres⟩ := Option.map_eq_some_iff.1 hrun
  simp only [Prod.mk.injEq] at hres
  obtain ⟨hhand, hinit, hemp, hzero⟩ := hres
  obtain ⟨h, hr⟩ := run_reserved smallHeap_boot smallDirectory_boot hs
  have hlive : NonEmpty s 2 := ⟨hinit, hemp⟩
  have hown : (owner smallLayout s 2).isSome := (owner_isSome_iff_nonEmpty (by decide)).2 hlive
  obtain ⟨t, ht⟩ := Option.isSome_iff_exists.1 hown
  refine ⟨s, hs, hlive, hzero, fun hinv => ?_⟩
  obtain ⟨fuel, pa, hpa, hret⟩ := hinv.1 2 (by decide) hlive
  rw [kheapPhysicalAddress_addr smallDirectory_boot h fuel ht, Option.some.injEq] at hpa
  subst hpa
  have hle := (virtualAddressReturns_iff smallDirectory_boot h hr hown).1 hret
  rw [hhand] at hle
  exact absurd hle (by decide)

end KernelHeap

end FosKernel
