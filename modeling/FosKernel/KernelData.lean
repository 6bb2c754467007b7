import FosKernel.HeapMemory
import FosKernel.TableLookup

/-!
# Kernel data and user memory

Kernel code has its data in blocks of the kernel heap, and writes it at kernel addresses, which
go through the entries of the heap. The page tables of the environments are blocks of the same
heap, and the frames come from the list that page faults take them from and give them back to.

`run_kept` : whatever the environments do, and wherever the kernel calls `kmalloc` and `kfree`
and writes to its blocks between their accesses, the blocks are arrays of their own, what is
known of user memory stays so, and no page table is behind a block of the kernel or a user page.
A page of the heap is always in a block of the kernel or is one page table.

`run_returns` : in such a state `kmalloc` fails for want of frames only, `kfree` and stores do not,
and `freeMem` returns, with `kheap_virtual_address` looking for the page tables, if none of them is
above `lastAllocatedKHpage` and that is below the end of the heap.

The blocks are those of a `BlockMemory`, in which the kernel is program 0.
-/

namespace FosKernel

namespace UserMemory

open KernelHeap (Holds Backs owner HeldFrame)

variable {P : Type} {pf : PageFile P} {s s' : UserMemory P} {flat : FlatMemory} {heap : KernelHeap}
  {f va t : Nat} {taken : List Nat}

/-! ## Kernel addresses -/

/-- The frame behind a kernel address. -/
def kernelFrame (s : UserMemory P) (va : Nat) : Nat :=
  frameNumber (s.heap.kernelEntries (va / pageSize))

/-- The byte at a kernel address. -/
def kernelByteAt (s : UserMemory P) (va : Nat) : BitVec 8 :=
  s.bytes (s.kernelFrame va) (va % pageSize)

/-- A store of kernel code : to a page that is not present it faults, and the kernel panics. -/
def storeKernelByte (s : UserMemory P) (va : Nat) (byte : BitVec 8) : Option (UserMemory P) :=
  if IsPresent (s.heap.kernelEntries (va / pageSize)) then
    some { s with
      bytes := Function.update s.bytes (s.kernelFrame va)
        (Function.update (s.bytes (s.kernelFrame va)) (va % pageSize) byte) }
  else none

/-- The pages of a block are in its frames. -/
theorem kernelFrame_of_holds {L : UserLayout} (h : Holds L.toKernelHeapLayout s.heap t taken)
    {i : Nat} (hi : i < taken.length * pageSize) :
    s.kernelFrame (L.addr t + i) = taken.getD (i / pageSize) 0 := by
  have hlt : i / pageSize < taken.length := Nat.div_lt_of_lt_mul (by rwa [Nat.mul_comm])
  have hpage : (L.addr t + i) / pageSize = L.addr (t + i / pageSize) / pageSize := by
    have := L.start_aligned
    unfold KernelHeapLayout.addr pageSize at *
    omega
  rw [kernelFrame, hpage, List.getD_eq_getElem?_getD, List.getElem?_eq_getElem hlt]
  exact h.2 _ hlt

theorem mod_of_block {L : UserLayout} (t i : Nat) : (L.addr t + i) % pageSize = i % pageSize := by
  have := L.start_aligned
  unfold KernelHeapLayout.addr pageSize at *
  omega

/-! ## Calls of the kernel -/

/-- `kmalloc`, `kfree` and the choice of the strategy change no page table. -/
theorem directories_heapCall {L : UserLayout} {c : KernelHeap.Call} (hs : s.NoBuffering)
    (hc : KernelHeap.step L.toKernelHeapLayout s.heap c = some heap) :
    heap.memory.directories = s.heap.memory.directories ∧ heap.memory.Unbuffered := by
  cases c with
  | kmalloc size =>
    obtain ⟨⟨p, heap'⟩, hmalloc, rfl⟩ := Option.map_eq_some_iff.1 hc
    exact (KernelHeap.keepsTables_kmalloc hmalloc hs).symm
  | kfree va =>
    have htables := KernelHeap.sameTables_kfreeLoop _ _ hc
    exact ⟨htables.directories, htables.unbuffered hs⟩
  | setStrategy strategy =>
    obtain rfl := Option.some.inj hc
    exact ⟨rfl, hs⟩

theorem frameOfTable_heapCall {L : UserLayout} {c : KernelHeap.Call} (h : FramesOwned L s)
    (hc : KernelHeap.step L.toKernelHeapLayout s.heap c = some heap) (env k : Nat) :
    frameOfTable { s with heap := heap } env k = s.frameOfTable env k :=
  congrArg (fun dir => (dir env k).map PageTable.frame) (directories_heapCall h.noBuffering hc).1

theorem FramesOwned.heapCall {L : UserLayout} {c : KernelHeap.Call} (h : FramesOwned L s)
    (hc : KernelHeap.step L.toKernelHeapLayout s.heap c = some heap) :
    FramesOwned L { s with heap := heap } := by
  obtain ⟨hdir, hun⟩ := directories_heapCall h.noBuffering hc
  refine h.of_sameFrames (.of_userEntry (KernelHeap.step_invariant h.heap hc).1 hun
    (fun _ _ => userEntry_congr hdir) fun f k hf => ?_)
  cases c with
  | kmalloc size =>
    obtain ⟨⟨p, heap'⟩, hmalloc, rfl⟩ := Option.map_eq_some_iff.1 hc
    exact hf.kmalloc h.heap hmalloc
  | kfree va => exact hf.kfree h.heap hc
  | setStrategy strategy =>
    obtain rfl := Option.some.inj hc
    exact ⟨hf.lt, hf.notFree, hf.notHeap, hf.references⟩

/-- The page tables, the user pages and their bytes are the same. -/
theorem Transparent.of_directories {L : FaultLayout} (h : Transparent L pf s flat)
    (hown : FramesOwned L.toUserLayout s')
    (hdir : s'.heap.memory.directories = s.heap.memory.directories) (henvs : s'.envs = s.envs)
    (hfile : s'.pageFile = s.pageFile) (halgo : s'.pageRepAlgoType = s.pageRepAlgoType)
    (hbytes : ∀ env va, s.Mapped env va →
      s'.bytes (s.frameOf env va) = s.bytes (s.frameOf env va)) :
    Transparent L pf s' flat := by
  have hentry : ∀ env va, s'.userEntry env va = s.userEntry env va := fun env va =>
    userEntry_congr hdir
  have hmapped : ∀ env va, s'.Mapped env va ↔ s.Mapped env va := fun env va => by
    rw [Mapped, hentry, Mapped]
  refine ⟨⟨hown, halgo.trans h.pageRepAlgoType, fun env => ?_⟩,
    faithful_of_eq h.faithful ?_ fun k => dirty_congr (hentry _ _)⟩
  · have hok := h.workingSets env
    have hres : s'.resident L.toUserLayout env = s.resident L.toUserLayout env :=
      resident_congr fun va => hmapped env va
    exact ⟨henvs ▸ hok.slots, hres ▸ henvs ▸ hok.tracks⟩
  · ext k : 2
    · exact cached_congr (hmapped _ _) (fun _ => by rw [frameOf, hentry, frameOf]) (hbytes _ _)
    · simp only [pages, hfile]

theorem Transparent.heapCall {L : FaultLayout} {c : KernelHeap.Call} (h : Transparent L pf s flat)
    (hc : KernelHeap.step L.toKernelHeapLayout s.heap c = some heap) :
    Transparent L pf { s with heap := heap } flat :=
  h.of_directories (h.owned.heapCall hc) (directories_heapCall h.owned.noBuffering hc).1 rfl rfl rfl
    fun _ _ _ => rfl

/-- A store behind the heap is to no user page. -/
theorem Transparent.storeKernel {L : FaultLayout} {byte : BitVec 8} (h : Transparent L pf s flat)
    (hf : Backs L.toKernelHeapLayout s.heap (s.kernelFrame va))
    (hstore : s.storeKernelByte va byte = some s') : Transparent L pf s' flat := by
  unfold storeKernelByte at hstore
  split_ifs at hstore
  obtain rfl := Option.some.inj hstore
  refine h.of_directories (h.owned.of_heap_eq rfl) rfl rfl rfl rfl fun env va' hm => ?_
  refine Function.update_of_ne (fun heq => ?_) _ _
  obtain ⟨i, hi, hat⟩ := hf
  exact (h.owned.held hm.ne_zero).notHeap i hi (hat.trans heq.symm)

end UserMemory

/-! ## The blocks of the kernel -/

/-- What happens : an attempt of an environment, or a call or a store of kernel code, at an offset
of a block. -/
inductive KernelEvent where
  | user (ev : UserMemory.Event)
  | kmalloc (size : Nat)
  | kfree (va : Nat)
  | setStrategy (strategy : KHeapPlacementStrategy)
  | store (p offset : Nat) (byte : BitVec 8)

/-- Memory, what it stands for to the environments, and the blocks of the kernel. -/
structure KernelData (P : Type) where
  memory : UserMemory P
  flat : FlatMemory
  blocks : BlockMemory

namespace KernelData

open UserMemory (BlocksOwned Transparent Managed)
open KernelHeap (Holds)

variable {P : Type}

/-- One event. The pages of a block are those of the size, rounded up. -/
def step (L : FaultLayout) (pf : PageFile P) (buffering : Bool) (d : KernelData P) :
    KernelEvent → Option (KernelData P)
  | .user ev =>
    (d.memory.attempt L pf buffering ev).map fun s =>
      ⟨s, UserMemory.after d.flat d.memory ev, d.blocks⟩
  | .kmalloc size =>
    (d.memory.heap.kmalloc L.toKernelHeapLayout size).map fun r =>
      ⟨{ d.memory with heap := r.2 }, d.flat,
        if r.1 = 0 ∨ roundUp size pageSize = 0 then d.blocks
        else d.blocks.malloc 0 r.1 (roundUp size pageSize)⟩
  | .kfree va =>
    (d.memory.heap.kfree L.toKernelHeapLayout va).map fun heap =>
      ⟨{ d.memory with heap := heap }, d.flat, d.blocks.free 0 va⟩
  | .setStrategy strategy =>
    some ⟨{ d.memory with heap := { d.memory.heap with kHeapPlacementStrategy := strategy } },
      d.flat, d.blocks⟩
  | .store p offset byte =>
    (d.memory.storeKernelByte (p + offset) byte).map fun s =>
      ⟨s, d.flat, d.blocks.store 0 (p + offset) byte⟩

/-- Environments allocate and free user memory, and the kernel frees its blocks and writes inside
them. -/
def Admissible (L : FaultLayout) (d : KernelData P) : KernelEvent → Prop
  | .user ev => ev.Proper L
  | .kmalloc _ => True
  | .kfree va => (d.blocks 0 va).isSome
  | .setStrategy _ => True
  | .store p offset _ => ((d.blocks 0 p).any fun b => offset < b.size) = true

instance (L : FaultLayout) (d : KernelData P) : ∀ ev, Decidable (Admissible L d ev)
  | .user ev => inferInstanceAs (Decidable (ev.Proper L))
  | .kmalloc _ => inferInstanceAs (Decidable True)
  | .kfree va => inferInstanceAs (Decidable ((d.blocks 0 va).isSome = true))
  | .setStrategy _ => inferInstanceAs (Decidable True)
  | .store p offset _ =>
    inferInstanceAs (Decidable (((d.blocks 0 p).any fun b => offset < b.size) = true))

/-- The blocks of the kernel are blocks of the heap, in the frames of `others`, with their bytes. -/
structure Placed (L : UserLayout) (s : UserMemory P) (m : BlockMemory)
    (others : Nat → Option (List Nat)) : Prop where
  block : ∀ {p b}, m 0 p = some b → ∃ t taken, p = L.addr t ∧ others t = some taken ∧
    b.size = taken.length * pageSize ∧ ∀ i < b.size, ∀ {x}, b.bytes i = some x →
      s.bytes (taken.getD (i / pageSize) 0) (i % pageSize) = x
  live : ∀ {t taken}, others t = some taken → (m 0 (L.addr t)).isSome

/-- User memory is in order, and the kernel has its blocks. -/
structure Implements (L : FaultLayout) (pf : PageFile P) (d : KernelData P) : Prop where
  transparent : Transparent L pf d.memory d.flat
  blocks : ∃ others, BlocksOwned L.toUserLayout d.memory others ∧
    Placed L.toUserLayout d.memory d.blocks others

variable {L : FaultLayout} {pf : PageFile P} {buffering : Bool} {d d' : KernelData P}
  {s s' : UserMemory P} {m : BlockMemory} {others : Nat → Option (List Nat)} {t : Nat}
  {taken : List Nat} {heap : KernelHeap}

theorem addr_injective {L : UserLayout} {t u : Nat} (h : L.addr t = L.addr u) : t = u :=
  L.addr_div_inj.1 (congrArg (· / pageSize) h)

theorem getD_mem {i : Nat} (hi : i < taken.length * pageSize) :
    taken.getD (i / pageSize) 0 ∈ taken := by
  have hlt : i / pageSize < taken.length := Nat.div_lt_of_lt_mul (by rwa [Nat.mul_comm])
  rw [List.getD_eq_getElem?_getD, List.getElem?_eq_getElem hlt]
  exact List.getElem_mem hlt

theorem malloc_kernel (p size q : Nat) :
    m.malloc 0 p size 0 q = if q = p then some ⟨size, fun _ => none⟩ else m 0 q :=
  if_congr (and_iff_right rfl) rfl rfl

theorem free_kernel (p q : Nat) : m.free 0 p 0 q = if q = p then none else m 0 q :=
  if_congr (and_iff_right rfl) rfl rfl

/-- The bytes behind the blocks are all that matters of memory. -/
theorem Placed.of_bytes {L : UserLayout} (h : Placed L s m others)
    (hbytes : ∀ t taken, others t = some taken → ∀ f ∈ taken, s'.bytes f = s.bytes f) :
    Placed L s' m others := by
  refine ⟨fun hb => ?_, h.live⟩
  obtain ⟨t, taken, hp, ht, hsize, hbyte⟩ := h.block hb
  refine ⟨t, taken, hp, ht, hsize, fun i hi x hx => ?_⟩
  rw [hbytes t taken ht _ (getD_mem (hsize ▸ hi))]
  exact hbyte i hi hx

/-! ## Environments -/

theorem Implements.user {ev : UserMemory.Event} (hstores : pf.StoresPages)
    (hremoves : pf.RemovesPages) (h : Implements L pf d) (hproper : ev.Proper L)
    (hattempt : d.memory.attempt L pf buffering ev = some s) :
    Implements L pf ⟨s, UserMemory.after d.flat d.memory ev, d.blocks⟩ := by
  obtain ⟨others, howned, hplaced⟩ := h.blocks
  refine ⟨UserMemory.attempt_transparent hstores hremoves hproper h.transparent hattempt, others,
    howned.attempt h.transparent.owned hattempt, hplaced.of_bytes fun t taken ht f hf => ?_⟩
  exact UserMemory.bytes_attempt h.transparent.owned hattempt ((howned.other ht).backs hf)

/-! ## Calls -/

/-- A call that changes no block. -/
theorem Implements.unchanged {c : KernelHeap.Call} (h : Implements L pf d)
    (hc : KernelHeap.step L.toKernelHeapLayout d.memory.heap c = some heap)
    (hholds : ∀ u frames, Holds L.toKernelHeapLayout heap u frames ↔
      Holds L.toKernelHeapLayout d.memory.heap u frames) :
    Implements L pf ⟨{ d.memory with heap := heap }, d.flat, d.blocks⟩ := by
  obtain ⟨others, howned, hplaced⟩ := h.blocks
  exact ⟨h.transparent.heapCall hc, others,
    howned.of_holds hholds (UserMemory.frameOfTable_heapCall h.transparent.owned hc),
    hplaced.of_bytes fun _ _ _ _ _ => rfl⟩

theorem Placed.malloc {L : UserLayout} (h : Placed L s m others) (hnone : others t = none) :
    Placed L s (m.malloc 0 (L.addr t) (taken.length * pageSize))
      (Function.update others t (some taken)) := by
  refine ⟨fun {p b} hb => ?_, fun {u frames} hu => ?_⟩
  · rw [malloc_kernel] at hb
    split_ifs at hb with hat
    · obtain rfl := Option.some.inj hb
      exact ⟨t, taken, hat, Function.update_self _ _ _, rfl, nofun⟩
    · obtain ⟨u, frames, hp, hu, hrest⟩ := h.block hb
      refine ⟨u, frames, hp, ?_, hrest⟩
      rw [Function.update_of_ne, hu]
      rintro rfl
      exact hat hp
  · rw [malloc_kernel]
    by_cases hut : u = t
    · rw [if_pos (congrArg L.addr hut)]
      rfl
    · rw [if_neg fun hat => hut (addr_injective hat)]
      rw [Function.update_of_ne hut] at hu
      exact h.live hu

theorem Placed.free {L : UserLayout} (h : Placed L s m others) :
    Placed L s (m.free 0 (L.addr t)) (Function.update others t none) := by
  refine ⟨fun {p b} hb => ?_, fun {u frames} hu => ?_⟩
  · rw [free_kernel] at hb
    split_ifs at hb with hat
    obtain ⟨u, frames, hp, hu, hrest⟩ := h.block hb
    refine ⟨u, frames, hp, ?_, hrest⟩
    rw [Function.update_of_ne, hu]
    rintro rfl
    exact hat hp
  · rw [Function.update_apply] at hu
    split_ifs at hu with hut
    rw [free_kernel, if_neg fun hat => hut (addr_injective hat)]
    exact h.live hu

theorem Implements.kmalloc {size : Nat} {r : Nat × KernelHeap} (h : Implements L pf d)
    (hk : d.memory.heap.kmalloc L.toKernelHeapLayout size = some r) :
    Implements L pf ⟨{ d.memory with heap := r.2 }, d.flat,
      if r.1 = 0 ∨ roundUp size pageSize = 0 then d.blocks
      else d.blocks.malloc 0 r.1 (roundUp size pageSize)⟩ := by
  obtain ⟨p, heap⟩ := r
  have hc : KernelHeap.step L.toKernelHeapLayout d.memory.heap (.kmalloc size) = some heap :=
    Option.map_eq_some_iff.2 ⟨_, hk, rfl⟩
  have hmod := roundUp_mod size pageSize
  rcases KernelHeap.kmalloc_blocks h.transparent.owned.heap hk with
    ⟨hnone, hholds⟩ | ⟨t, taken, rfl, hne, hpos, hlen, hnew⟩
  · rw [if_pos (hnone.imp_right fun hzero => ?_)]
    · exact h.unchanged hc hholds
    · unfold pageSize at hmod hzero ⊢
      omega
  · have hsize : roundUp size pageSize = taken.length * pageSize := by
      unfold pageSize at hmod hlen ⊢
      omega
    rw [if_neg, hsize]
    · obtain ⟨others, howned, hplaced⟩ := h.blocks
      obtain ⟨hnone, howned'⟩ := howned.newBlock
        (UserMemory.frameOfTable_heapCall h.transparent.owned hc) hnew
      exact ⟨h.transparent.heapCall hc, _, howned',
        (hplaced.malloc hnone).of_bytes fun _ _ _ _ _ => rfl⟩
    · rintro (hzero | hzero)
      · exact hne hzero
      · rw [hzero] at hlen
        exact absurd hlen.symm hpos.ne

/-- A block that is freed is the kernel's no longer. -/
theorem Implements.kfree {va : Nat} (h : Implements L pf d) (hlive : (d.blocks 0 va).isSome)
    (hk : d.memory.heap.kfree L.toKernelHeapLayout va = some heap) :
    Implements L pf ⟨{ d.memory with heap := heap }, d.flat, d.blocks.free 0 va⟩ := by
  have hc : KernelHeap.step L.toKernelHeapLayout d.memory.heap (.kfree va) = some heap := hk
  obtain ⟨others, howned, hplaced⟩ := h.blocks
  obtain ⟨b, hb⟩ := Option.isSome_iff_exists.1 hlive
  obtain ⟨t, taken, rfl, ht, -⟩ := hplaced.block hb
  have hholds : ∀ u frames, Holds L.toKernelHeapLayout heap u frames ↔
      Holds L.toKernelHeapLayout d.memory.heap u frames ∧ u ≠ t := fun _ _ =>
    KernelHeap.holds_kfree h.transparent.owned.heap (howned.other ht) hk
  exact ⟨h.transparent.heapCall hc, _, howned.freeBlock ht hholds
    (UserMemory.frameOfTable_heapCall h.transparent.owned hc),
    hplaced.free.of_bytes fun _ _ _ _ _ => rfl⟩

/-! ## Stores -/

theorem store_kernel {va p : Nat} {byte : BitVec 8} {b : Block}
    (hb : m.store 0 va byte 0 p = some b) : ∃ c, m 0 p = some c ∧ b.size = c.size ∧
      ∀ i < c.size, b.bytes i = if p + i = va then some byte else c.bytes i := by
  obtain ⟨c, hc, rfl⟩ := Option.map_eq_some_iff.1 hb
  refine ⟨c, hc, ?_, fun i hi => ?_⟩
  · split_ifs <;> rfl
  · split_ifs with hin hat hat
    · rw [← hat, Nat.add_sub_cancel_left]
      exact Function.update_self _ _ _
    · exact Function.update_of_ne (by omega) _ _
    · exact absurd ⟨rfl, by omega, by omega⟩ hin
    · rfl

/-- Where the byte of a block is, no other byte of a block is. -/
theorem frame_offset_inj {L : UserLayout} (h : BlocksOwned L s others)
    (hinv : KernelHeap.Invariant L.toKernelHeapLayout s.heap) {u i j : Nat} {frames : List Nat}
    (ht : others t = some taken) (hu : others u = some frames) (hi : i < taken.length * pageSize)
    (hj : j < frames.length * pageSize)
    (hframe : taken.getD (i / pageSize) 0 = frames.getD (j / pageSize) 0)
    (hoffset : i % pageSize = j % pageSize) : t = u ∧ i = j := by
  have hmem := getD_mem hj
  rw [← hframe] at hmem
  obtain rfl := (h.other ht).eq_of_mem hinv (h.other hu) (getD_mem hi) hmem
  obtain rfl := Option.some.inj (ht.symm.trans hu)
  have hlt : ∀ {k}, k < taken.length * pageSize → k / pageSize < taken.length := fun hk =>
    Nat.div_lt_of_lt_mul (by rwa [Nat.mul_comm])
  rw [List.getD_eq_getElem?_getD, List.getD_eq_getElem?_getD, List.getElem?_eq_getElem (hlt hi),
    List.getElem?_eq_getElem (hlt hj), Option.getD_some, Option.getD_some] at hframe
  have hpage := ((h.other ht).nodup hinv).getElem_inj_iff.1 hframe
  refine ⟨rfl, ?_⟩
  rw [← Nat.div_add_mod i pageSize, ← Nat.div_add_mod j pageSize, hpage, hoffset]

/-- A store at a kernel address changes the byte of that address, of the bytes of blocks. -/
theorem Placed.store {L : UserLayout} {offset : Nat} {byte : BitVec 8} (h : Placed L s m others)
    (howned : BlocksOwned L s others)
    (hinv : KernelHeap.Invariant L.toKernelHeapLayout s.heap) (ht : others t = some taken)
    (hlt : offset < taken.length * pageSize)
    (hstore : s.storeKernelByte (L.addr t + offset) byte = some s') :
    Placed L s' (m.store 0 (L.addr t + offset) byte) others := by
  have hframe := UserMemory.kernelFrame_of_holds (howned.other ht) hlt
  unfold UserMemory.storeKernelByte at hstore
  split_ifs at hstore
  obtain rfl := Option.some.inj hstore
  refine ⟨fun {q c} hc => ?_, fun {u frames} hu => ?_⟩
  · obtain ⟨a, ha, hsize, hbytes⟩ := store_kernel hc
    obtain ⟨u, frames, rfl, hu, hsize', hbytes'⟩ := h.block ha
    refine ⟨u, frames, rfl, hu, hsize.trans hsize', fun i hi x hx => ?_⟩
    rw [hsize] at hi
    have hframe' := UserMemory.kernelFrame_of_holds (howned.other hu) (hsize' ▸ hi)
    rw [hbytes i hi] at hx
    dsimp only
    split_ifs at hx with hat
    · obtain rfl := Option.some.inj hx
      rw [← hat, hframe', UserMemory.mod_of_block, Function.update_self, Function.update_self]
    · rw [← hbytes' i hi hx]
      by_cases hf : frames.getD (i / pageSize) 0 = s.kernelFrame (L.addr t + offset)
      · rw [hf, Function.update_self, Function.update_of_ne]
        -- The same offset of the same frame would be the same address.
        rw [UserMemory.mod_of_block]
        intro hmod
        obtain ⟨rfl, rfl⟩ := frame_offset_inj howned hinv hu ht (hsize' ▸ hi) hlt
          (hf.trans hframe) hmod
        exact hat rfl
      · rw [Function.update_of_ne hf]
  · obtain ⟨b, hb⟩ := Option.isSome_iff_exists.1 (h.live hu)
    rw [BlockMemory.store, hb]
    rfl

theorem Implements.store {p offset : Nat} {byte : BitVec 8} (h : Implements L pf d)
    (hin : ((d.blocks 0 p).any fun b => offset < b.size) = true)
    (hstore : d.memory.storeKernelByte (p + offset) byte = some s) :
    Implements L pf ⟨s, d.flat, d.blocks.store 0 (p + offset) byte⟩ := by
  obtain ⟨others, howned, hplaced⟩ := h.blocks
  obtain ⟨b, hb, hlt⟩ := (Option.any_eq_true _ _).1 hin
  have hlt := of_decide_eq_true hlt
  obtain ⟨t, taken, rfl, ht, hsize, -⟩ := hplaced.block hb
  rw [hsize] at hlt
  have hframe := UserMemory.kernelFrame_of_holds (howned.other ht) hlt
  have hbacks : KernelHeap.Backs L.toKernelHeapLayout d.memory.heap
      (d.memory.kernelFrame (L.addr t + offset)) := by
    rw [hframe]
    exact (howned.other ht).backs (getD_mem hlt)
  have hheap : s.heap = d.memory.heap := by
    unfold UserMemory.storeKernelByte at hstore
    split_ifs at hstore
    rw [← Option.some.inj hstore]
  exact ⟨h.transparent.storeKernel hbacks hstore, others,
    howned.same (UserMemory.sameBlocks_of_heap hheap),
    hplaced.store howned h.transparent.owned.heap ht hlt hstore⟩

/-! ## Runs -/

theorem step_implements {ev : KernelEvent} (hstores : pf.StoresPages) (hremoves : pf.RemovesPages)
    (h : Implements L pf d) (hok : Admissible L d ev)
    (hstep : step L pf buffering d ev = some d') : Implements L pf d' := by
  cases ev with
  | user ev =>
    obtain ⟨s, hattempt, rfl⟩ := Option.map_eq_some_iff.1 hstep
    exact h.user hstores hremoves hok hattempt
  | kmalloc size =>
    obtain ⟨r, hk, rfl⟩ := Option.map_eq_some_iff.1 hstep
    exact h.kmalloc hk
  | kfree va =>
    obtain ⟨heap, hk, rfl⟩ := Option.map_eq_some_iff.1 hstep
    exact h.kfree hok hk
  | setStrategy strategy =>
    obtain rfl := Option.some.inj hstep
    have hc : KernelHeap.step L.toKernelHeapLayout d.memory.heap (.setStrategy strategy) = _ := rfl
    exact h.unchanged hc fun _ _ => Iff.rfl
  | store p offset byte =>
    obtain ⟨s, hstore, rfl⟩ := Option.map_eq_some_iff.1 hstep
    exact h.store hok hstore

/-- What the environments and the kernel may rely on. -/
structure Kept (L : FaultLayout) (pf : PageFile P) (d : KernelData P) : Prop where
  /-- A known byte of an environment is in its page, resident or not. -/
  user : ∀ {env va x}, d.flat env va = some x →
    (∃ contents, d.memory.logicalContent pf env (roundDown va pageSize) = some contents ∧
      contents (va % pageSize) = x) ∧ (d.memory.Mapped env va → d.memory.byteAt env va = x)
  /-- A byte of a block is at its address. -/
  kernel : ∀ {p b}, d.blocks 0 p = some b → ∀ i < b.size, ∀ {x}, b.bytes i = some x →
    d.memory.kernelByteAt (p + i) = x
  /-- The blocks do not overlap. -/
  apart : ∀ {p b q c}, d.blocks 0 p = some b → d.blocks 0 q = some c → p ≠ q →
    p + b.size ≤ q ∨ q + c.size ≤ p
  /-- No page table is behind a block, or a user page. -/
  tables : ∀ {env k f}, d.memory.frameOfTable env k = some f →
    (∀ p b, d.blocks 0 p = some b → ∀ i < b.size, d.memory.kernelFrame (p + i) ≠ f) ∧
      ∀ env' va, d.memory.userEntry env' va ≠ 0#32 → d.memory.frameOf env' va ≠ f
  /-- A page of the heap is in a block, or is a page table. -/
  pages : ∀ {i t}, KernelHeap.owner L.toKernelHeapLayout d.memory.heap i = some t →
    (∃ b, d.blocks 0 (L.addr t) = some b ∧ L.addr t ≤ L.addr i ∧ L.addr i < L.addr t + b.size) ∨
      ∃ env k, d.memory.frameOfTable env k =
        some (KernelHeap.frameAt L.toKernelHeapLayout d.memory.heap i)

theorem Implements.apart (h : Implements L pf d) {p q : Nat} {b c : Block}
    (hb : d.blocks 0 p = some b) (hc : d.blocks 0 q = some c) (hne : p ≠ q) :
    p + b.size ≤ q ∨ q + c.size ≤ p := by
  obtain ⟨others, howned, hplaced⟩ := h.blocks
  obtain ⟨t, taken, rfl, ht, hsize, -⟩ := hplaced.block hb
  obtain ⟨u, frames, rfl, hu, hsize', -⟩ := hplaced.block hc
  have htu : t ≠ u := fun heq => hne (congrArg L.addr heq)
  have hht := (howned.other ht).1
  have hhu := (howned.other hu).1
  have hout : ∀ i, ¬((t ≤ i ∧ i < t + taken.length) ∧ (u ≤ i ∧ i < u + frames.length)) := by
    intro i hi
    have hown := (hht.2 i).2 hi.1
    rw [(hhu.2 i).2 hi.2] at hown
    exact htu (Option.some.inj hown).symm
  have hpos := hht.1
  have hpos' := hhu.1
  have hfirst := hout t
  have hsecond := hout u
  rw [hsize, hsize']
  unfold KernelHeapLayout.addr pageSize
  omega

theorem Implements.tables (h : Implements L pf d) {env k f : Nat}
    (hf : d.memory.frameOfTable env k = some f) :
    (∀ p b, d.blocks 0 p = some b → ∀ i < b.size, d.memory.kernelFrame (p + i) ≠ f) ∧
      ∀ env' va, d.memory.userEntry env' va ≠ 0#32 → d.memory.frameOf env' va ≠ f := by
  obtain ⟨others, howned, hplaced⟩ := h.blocks
  obtain ⟨u, hu, hnone⟩ := howned.table hf
  refine ⟨fun p b hb i hi heq => ?_, fun env' va hne heq => ?_⟩
  · obtain ⟨t, taken, rfl, ht, hsize, -⟩ := hplaced.block hb
    rw [hsize] at hi
    have hmem := getD_mem hi
    rw [← UserMemory.kernelFrame_of_holds (howned.other ht) hi, heq] at hmem
    obtain rfl := (howned.other ht).eq_of_mem h.transparent.owned.heap hu hmem
      List.mem_cons_self
    rw [ht] at hnone
    cases hnone
  · obtain ⟨i, hi, hat⟩ := hu.backs List.mem_cons_self
    exact (h.transparent.owned.held hne).notHeap i hi (hat.trans heq.symm)

theorem Implements.pages (h : Implements L pf d) {i t : Nat}
    (hi : KernelHeap.owner L.toKernelHeapLayout d.memory.heap i = some t) :
    (∃ b, d.blocks 0 (L.addr t) = some b ∧ L.addr t ≤ L.addr i ∧ L.addr i < L.addr t + b.size) ∨
      ∃ env k, d.memory.frameOfTable env k =
        some (KernelHeap.frameAt L.toKernelHeapLayout d.memory.heap i) := by
  obtain ⟨others, howned, hplaced⟩ := h.blocks
  obtain ⟨taken, hholds, hmem⟩ := h.transparent.owned.heap.exists_holds hi
  rcases howned.all hholds with ht | ⟨env, k, f, hf, rfl⟩
  · obtain ⟨b, hb⟩ := Option.isSome_iff_exists.1 (hplaced.live ht)
    obtain ⟨u, frames, haddr, hu, hsize, -⟩ := hplaced.block hb
    obtain rfl := addr_injective haddr
    obtain rfl := Option.some.inj (ht.symm.trans hu)
    have hin := (hholds.1.2 i).1 hi
    refine Or.inl ⟨b, hb, ?_⟩
    rw [hsize]
    unfold KernelHeapLayout.addr pageSize
    omega
  · exact Or.inr ⟨env, k, by rw [hf, List.mem_singleton.1 hmem]⟩

theorem Implements.kept (h : Implements L pf d) : Kept L pf d where
  user := h.transparent.known
  kernel := by
    obtain ⟨others, howned, hplaced⟩ := h.blocks
    intro p b hb i hi x hx
    obtain ⟨t, taken, rfl, ht, hsize, hbytes⟩ := hplaced.block hb
    rw [UserMemory.kernelByteAt, UserMemory.kernelFrame_of_holds (howned.other ht) (hsize ▸ hi),
      UserMemory.mod_of_block]
    exact hbytes i hi hx
  apart := h.apart
  tables := h.tables
  pages := h.pages

/-- The calls and stores that do not panic, and that return. -/
structure Returns (L : FaultLayout) (D : KernelDirectory) (fuel : Nat) (pf : PageFile P)
    (d : KernelData P) : Prop where
  /-- Each page table is found, and the search for one that is not there ends. -/
  freeMem : ∀ env va size, va + size ≤ L.userTop →
    UserMemory.ByLookup.TablesFound L.toUserLayout d.memory env →
    d.memory.heap.lastAllocatedKHpage < L.kernelHeapMax →
      (UserMemory.ByLookup.freeMem L.toUserLayout D fuel pf env va size d.memory).isSome
  kfree : ∀ p, (d.blocks 0 p).isSome → (d.memory.heap.kfree L.toKernelHeapLayout p).isSome
  store : ∀ p b, d.blocks 0 p = some b → ∀ i < b.size, ∀ byte,
    (d.memory.storeKernelByte (p + i) byte).isSome
  /-- There are frames for the pages of the block. -/
  kmalloc : ∀ size, roundUp size pageSize / pageSize ≤
    d.memory.heap.memory.freeFrameList.length →
      (d.memory.heap.kmalloc L.toKernelHeapLayout size).isSome

theorem Implements.store_isSome (h : Implements L pf d) {p i : Nat} {b : Block} (byte : BitVec 8)
    (hb : d.blocks 0 p = some b) (hi : i < b.size) :
    (d.memory.storeKernelByte (p + i) byte).isSome := by
  obtain ⟨others, howned, hplaced⟩ := h.blocks
  obtain ⟨t, taken, rfl, ht, hsize, -⟩ := hplaced.block hb
  have hpage : (L.addr t + i) / pageSize = L.addr (t + i / pageSize) / pageSize := by
    have := L.start_aligned
    unfold KernelHeapLayout.addr pageSize at *
    omega
  have hlt : i / pageSize < taken.length :=
    Nat.div_lt_of_lt_mul (by rw [Nat.mul_comm]; exact hsize ▸ hi)
  have hown : KernelHeap.owner L.toKernelHeapLayout d.memory.heap (t + i / pageSize) = some t :=
    ((howned.other ht).1.2 _).2 ⟨Nat.le_add_right _ _, Nat.add_lt_add_left hlt t⟩
  obtain ⟨f, -, hentry, -⟩ := h.transparent.owned.heap.mapped _ _ hown
  have hentry' : d.memory.heap.kernelEntries ((L.addr t + i) / pageSize) = _ :=
    (congrArg d.memory.heap.kernelEntries hpage).trans hentry
  unfold UserMemory.storeKernelByte
  rw [if_pos]
  · rfl
  · rw [hentry']
    exact isPresent_constructEntry _ _

theorem Implements.returns {D : KernelDirectory} {fuel : Nat} {heap₀ : KernelHeap}
    (hd : KernelHeap.DirectoryBoot L.toKernelHeapLayout D heap₀) (hfuel : L.pages + 2 ≤ fuel)
    (h : Implements L pf d) : Returns L D fuel pf d where
  freeMem env va size _ hfound hhand := by
    obtain ⟨others, howned, -⟩ := h.blocks
    have htables := howned.tablesOk h.transparent.owned
    rw [UserMemory.ByLookup.freeMem_eq hd hfuel ⟨h.transparent.owned, htables, hfound, hhand⟩]
    exact UserMemory.freeMem_isSome htables (h.transparent.workingSets env).tracks
      fun a ha => (h.transparent.owned.held ha.2.2.ne_zero).lt
  kfree p hlive := by
    obtain ⟨others, howned, hplaced⟩ := h.blocks
    obtain ⟨b, hb⟩ := Option.isSome_iff_exists.1 hlive
    obtain ⟨t, taken, rfl, ht, -⟩ := hplaced.block hb
    obtain ⟨s', hs', -⟩ := KernelHeap.kfree_holds h.transparent.owned.heap (howned.other ht)
    rw [hs']
    rfl
  store p b hb i hi byte := h.store_isSome byte hb hi
  kmalloc size hframes := by
    obtain ⟨p, s', hk⟩ := KernelHeap.kmalloc_returns h.transparent.owned.heap hframes
    rw [hk]
    rfl

theorem run_implements {s₀ : UserMemory P} {events : List KernelEvent} (hstores : pf.StoresPages)
    (hremoves : pf.RemovesPages) (hmanaged : Managed L s₀) (hclean : s₀.CleanCopies pf)
    (htables : BlocksOwned L.toUserLayout s₀ fun _ => none)
    (hok : Machine.Meets (step L pf buffering) (Admissible L)
      ⟨s₀, s₀.standsFor pf, fun _ _ => none⟩ events)
    (hrun : Machine.run (step L pf buffering) ⟨s₀, s₀.standsFor pf, fun _ _ => none⟩ events =
      some d) : Implements L pf d := by
  refine Machine.run_induction_of_meets (P := Implements L pf)
    (fun _ _ _ h hok hstep => step_implements hstores hremoves h hok hstep) ?_ hok hrun
  exact ⟨⟨hmanaged, UserMemory.standsFor_faithful hclean⟩, _, htables, nofun, nofun⟩

/-- In every state of such a run : `freeMem` of a range of user memory returns if its page tables
are found and the hand is below the end of the heap, `kfree` of a block and a store to it return,
and `kmalloc` if there are frames. -/
theorem run_returns {D : KernelDirectory} {fuel : Nat} {s₀ : UserMemory P}
    {events : List KernelEvent} (hd : KernelHeap.DirectoryBoot L.toKernelHeapLayout D s₀.heap)
    (hfuel : L.pages + 2 ≤ fuel) (hstores : pf.StoresPages) (hremoves : pf.RemovesPages)
    (hmanaged : Managed L s₀) (hclean : s₀.CleanCopies pf)
    (htables : BlocksOwned L.toUserLayout s₀ fun _ => none)
    (hok : Machine.Meets (step L pf buffering) (Admissible L)
      ⟨s₀, s₀.standsFor pf, fun _ _ => none⟩ events)
    (hrun : Machine.run (step L pf buffering) ⟨s₀, s₀.standsFor pf, fun _ _ => none⟩ events =
      some d) : Returns L D fuel pf d :=
  (run_implements hstores hremoves hmanaged hclean htables hok hrun).returns hd hfuel

/-- The kernel has a block on each side of a page table, and frees one of them. -/
def blocksAroundTable : List KernelEvent :=
  [.kmalloc 100, .store 0xF6000000 5 7#8, .user (.load 0 0xEEBFD123 0), .kmalloc 4096,
    .user (.store 0 0xEEBFD123 9#8 0), .store 0xF6002000 4095 3#8,
    .user (.store 0 0xEEBFD123 9#8 0), .kfree 0xF6000000, .user (.load 0 0xEEBFC000 0)]

theorem blocksAroundTable_meets :
    Machine.Meets (step VirtualMemory.smallFaultLayout UserMemory.mapPageFile false)
      (Admissible VirtualMemory.smallFaultLayout)
      ⟨UserMemory.smallUserMemory fun _ => 1,
        (UserMemory.smallUserMemory fun _ => 1).standsFor UserMemory.mapPageFile, fun _ _ => none⟩
      blocksAroundTable := by
  decide +kernel

theorem smallUserMemory_cleanCopies :
    (UserMemory.smallUserMemory fun _ => 1).CleanCopies UserMemory.mapPageFile :=
  fun _ _ _ hm => absurd hm not_isPresent_zero

/-- The kernel has a block, and environment 0 a page table and a page. -/
def blockAndTable : List KernelEvent :=
  [.kmalloc 100, .user (.load 0 0xEEBFD123 0), .user (.load 0 0xEEBFD123 0)]

theorem blockAndTable_returns : ∃ d,
    Machine.run (step VirtualMemory.smallFaultLayout UserMemory.mapPageFile false)
      ⟨UserMemory.smallUserMemory fun _ => 1,
        (UserMemory.smallUserMemory fun _ => 1).standsFor UserMemory.mapPageFile, fun _ _ => none⟩
      blockAndTable = some d ∧
    (UserMemory.ByLookup.freeMem UserMemory.smallUserLayout KernelHeap.smallDirectory 5
      UserMemory.mapPageFile 0 0xEEBFC000 8192 d.memory).isSome := by
  have hrun : ((Machine.run (step VirtualMemory.smallFaultLayout UserMemory.mapPageFile false)
      ⟨UserMemory.smallUserMemory fun _ => 1,
        (UserMemory.smallUserMemory fun _ => 1).standsFor UserMemory.mapPageFile, fun _ _ => none⟩
      blockAndTable).any fun d => d.memory.heap.lastAllocatedKHpage = 0xF6002000) = true := by
    decide +kernel
  obtain ⟨d, hd, hhand⟩ := (Option.any_eq_true _ _).1 hrun
  have hhand := of_decide_eq_true hhand
  have hmanaged := VirtualMemory.smallUserMemory_managed fun _ => 1
  have hmeets : Machine.Meets (step VirtualMemory.smallFaultLayout UserMemory.mapPageFile false)
      (Admissible VirtualMemory.smallFaultLayout)
      ⟨UserMemory.smallUserMemory fun _ => 1,
        (UserMemory.smallUserMemory fun _ => 1).standsFor UserMemory.mapPageFile, fun _ _ => none⟩
      blockAndTable := by
    decide +kernel
  have himplements := run_implements UserMemory.mapPageFile_storesPages
    UserMemory.mapPageFile_removesPages hmanaged smallUserMemory_cleanCopies
    (UserMemory.smallUserMemory_blocksOwned fun _ => 1) hmeets hd
  obtain ⟨others, hblocks, -⟩ := himplements.blocks
  have hfound : UserMemory.ByLookup.TablesFound UserMemory.smallUserLayout d.memory 0 := by
    refine .of_nonEmpty (hblocks.tablesOk himplements.transparent.owned) fun i hi _ => ?_
    have hi : i < 3 := hi
    rw [hhand, KernelHeapLayout.addr,
      show UserMemory.smallUserLayout.kernelHeapStart = 0xF6000000 from rfl]
    unfold pageSize
    omega
  have hreturns := run_returns (UserMemory.ByLookup.smallDirectory_boot fun _ => 1)
    (show 3 + 2 ≤ 5 by decide) UserMemory.mapPageFile_storesPages
    UserMemory.mapPageFile_removesPages hmanaged smallUserMemory_cleanCopies
    (UserMemory.smallUserMemory_blocksOwned fun _ => 1) hmeets hd
  exact ⟨d, hd, hreturns.freeMem 0 0xEEBFC000 8192 (by decide) hfound
    (by rw [hhand]; decide)⟩

end KernelData

end FosKernel
