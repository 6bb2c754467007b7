import FosKernel.Boot

/-!
# Boot memory is never handed out

`ptr_free_mem` goes up past everything `boot_allocate_space` returns, as long as the
physical frames cover the allocations (`Covers`) : `Follows` is what one boot function
keeps of that, and it composes along `boot_map_range` and along a run of boot calls.

`initialize_paging` fills the free frame list from two of its five ranges. The four
ends of the ranges meet (`initializePaging_spec`), so every frame is either reserved,
with one reference and off the list, or free, with none and on the list once.
`boot_memory_reserved` puts the two together, for both kernels.
-/

namespace FosKernel

namespace Boot

variable {l : Layout} {v : Variant} {n : Nat} {s s' t : State}

/-! ## The ranges of `initialize_paging` -/

theorem forRange_succ (f : Frames → Nat → Frames) {lo hi : Nat} (h : lo ≤ hi) (m : Frames) :
    forRange f lo (hi + 1) m = f (forRange f lo hi m) hi := by
  unfold forRange
  have hlen : hi + 1 - lo = hi - lo + 1 := by omega
  rw [hlen, List.range'_concat, List.foldl_append]
  simp only [List.foldl_cons, List.foldl_nil, Nat.one_mul]
  rw [Nat.add_sub_cancel' h]

theorem forRange_of_le (f : Frames → Nat → Frames) {lo hi : Nat} (h : hi ≤ lo) (m : Frames) :
    forRange f lo hi m = m := by
  simp [forRange, Nat.sub_eq_zero_of_le h]

/-- A reserving range gives one reference to its frames and leaves the list alone. -/
theorem forRange_reserve (lo hi : Nat) (m : Frames) :
    (forRange Frames.reserve lo hi m).freeFrameList = m.freeFrameList ∧
      ∀ f, ((forRange Frames.reserve lo hi m).framesInfo f).references =
        if lo ≤ f ∧ f < hi then 1 else (m.framesInfo f).references := by
  rcases Nat.le_total hi lo with h | h
  · rw [forRange_of_le _ h]
    exact ⟨rfl, fun f => by rw [if_neg (by omega)]⟩
  · induction hi, h using Nat.le_induction with
    | base =>
      rw [forRange_of_le _ (Nat.le_refl lo)]
      exact ⟨rfl, fun f => by rw [if_neg (by omega)]⟩
    | succ hi hle ih =>
      rw [forRange_succ _ hle]
      refine ⟨ih.1, fun f => ?_⟩
      simp only [Frames.reserve, Function.update_apply]
      by_cases hf : f = hi
      · rw [if_pos hf, if_pos (by omega)]
      · rw [if_neg hf, ih.2 f]
        congr 1
        exact propext (by omega)

/-- A releasing range puts each of its frames on the list once, with no reference. -/
theorem forRange_release (lo hi : Nat) (m : Frames) :
    (∀ f, (forRange (Frames.release v) lo hi m).freeFrameList.count f =
        m.freeFrameList.count f + if lo ≤ f ∧ f < hi then 1 else 0) ∧
      ∀ f, ((forRange (Frames.release v) lo hi m).framesInfo f).references =
        if lo ≤ f ∧ f < hi then 0 else (m.framesInfo f).references := by
  rcases Nat.le_total hi lo with h | h
  · rw [forRange_of_le _ h]
    exact ⟨fun f => by rw [if_neg (by omega), Nat.add_zero], fun f => by rw [if_neg (by omega)]⟩
  · induction hi, h using Nat.le_induction with
    | base =>
      rw [forRange_of_le _ (Nat.le_refl lo)]
      exact ⟨fun f => by rw [if_neg (by omega), Nat.add_zero], fun f => by rw [if_neg (by omega)]⟩
    | succ hi hle ih =>
      rw [forRange_succ _ hle]
      refine ⟨fun f => ?_, fun f => ?_⟩
      · simp only [Frames.release, List.count_cons, ih.1 f]
        by_cases hf : hi = f
        · subst hf
          have hlast : lo ≤ hi ∧ hi < hi + 1 := ⟨hle, Nat.lt_succ_self hi⟩
          simp [hlast]
        · have hiff : (lo ≤ f ∧ f < hi + 1) = (lo ≤ f ∧ f < hi) := propext (by omega)
          simp only [hiff]
          simp [hf]
      · simp only [Frames.release, Function.update_apply]
        by_cases hf : f = hi
        · rw [if_pos hf, if_pos (by omega), v.clear_references]
        · rw [if_neg hf, ih.2 f]
          congr 1
          exact propext (by omega)

/-- The frames `initialize_paging` keeps off the list, with boot memory ending at the
kernel address `bootEnd` : the low ones, the I/O hole, and extended memory up to the end
of boot memory, its last frame included. -/
def Reserved (l : Layout) (v : Variant) (bootEnd f : Nat) : Prop :=
  f < v.lowFrames ∨ (l.physIoMem ≤ f * pageSize ∧ f * pageSize < l.physExtendedMem) ∨
    (l.physExtendedMem ≤ f * pageSize ∧ f * pageSize < bootEnd - l.kernelBase)

instance (bootEnd f : Nat) : Decidable (Reserved l v bootEnd f) :=
  inferInstanceAs (Decidable (_ ∨ _))

/-- The frames below a size that is rounded up to a page. -/
theorem lt_roundUp_div {x f : Nat} (hx : x ≤ 2147483648) :
    f < roundUp x pageSize / pageSize ↔ f * pageSize < x := by
  unfold roundUp roundDown u32 pageSize
  omega

theorem kPhysicalAddress_eq_some {kva pa : Nat} :
    kPhysicalAddress l kva = some pa ↔ l.kernelBase ≤ kva ∧ pa = kva - l.kernelBase := by
  unfold kPhysicalAddress
  split
  · simp
    omega
  · simp
    omega

theorem kernelBase_le_of_initializePaging {bootEnd : Nat} {framesInfo : Nat → FrameInfo}
    {m : Frames} (h : initializePaging l v n bootEnd framesInfo = some m) :
    l.kernelBase ≤ bootEnd := by
  unfold initializePaging at h
  simp only [Option.bind_eq_bind, Option.bind_eq_some_iff, kPhysicalAddress_eq_some] at h
  obtain ⟨pa, ⟨hle, -⟩, -⟩ := h
  exact hle

/-- With boot memory ending inside extended memory and inside the frames there are,
every frame is either reserved or free. -/
theorem initializePaging_spec {bootEnd : Nat} {framesInfo : Nat → FrameInfo} {m : Frames}
    (hlo : l.kernelBase + l.physExtendedMem ≤ bootEnd) (hlt : bootEnd < 4294967296)
    (hhi : bootEnd ≤ l.kernelBase + n * pageSize)
    (h : initializePaging l v n bootEnd framesInfo = some m) (f : Nat) :
    m.freeFrameList.count f = (if f < n ∧ ¬ Reserved l v bootEnd f then 1 else 0) ∧
      (f < n → (m.framesInfo f).references = if Reserved l v bootEnd f then 1 else 0) := by
  have hbase := l.kernelBase_gt
  have hlow := v.lowFrames_le
  have hmem := l.lowMemory
  have hhole := l.ioHole
  -- each range end, as a condition on the frames below it
  have hio : f < roundUp l.physIoMem pageSize / pageSize ↔ f * pageSize < l.physIoMem :=
    lt_roundUp_div (by omega)
  have hio' : l.physIoMem / pageSize ≤ f ↔ l.physIoMem ≤ f * pageSize := by
    have := l.physIoMem_mod
    unfold pageSize
    omega
  have hext : f < l.physExtendedMem / pageSize ↔ f * pageSize < l.physExtendedMem := by
    have := l.physExtendedMem_mod
    unfold pageSize
    omega
  have hend : f < roundUp (bootEnd - l.kernelBase) pageSize / pageSize ↔
      f * pageSize < bootEnd - l.kernelBase := lt_roundUp_div (by omega)
  unfold initializePaging at h
  simp only [Option.bind_eq_bind, Option.bind_eq_some_iff, kPhysicalAddress_eq_some] at h
  obtain ⟨pa, ⟨-, rfl⟩, h⟩ := h
  obtain rfl := Option.some.inj h
  have hreserved : Reserved l v bootEnd f ↔ f < v.lowFrames ∨
      (l.physIoMem ≤ f * pageSize ∧ f * pageSize < l.physExtendedMem) ∨
      (l.physExtendedMem ≤ f * pageSize ∧ f * pageSize < bootEnd - l.kernelBase) := Iff.rfl
  unfold pageSize at *
  refine ⟨?_, fun hf => ?_⟩
  · rw [(forRange_release _ _ _).1, (forRange_reserve _ _ _).1, (forRange_reserve _ _ _).1,
      (forRange_release _ _ _).1, (forRange_reserve _ _ _).1, List.count_nil]
    simp only [hreserved]
    split_ifs <;> omega
  · rw [(forRange_release _ _ _).2, (forRange_reserve _ _ _).2, (forRange_reserve _ _ _).2,
      (forRange_release _ _ _).2, (forRange_reserve _ _ _).2]
    simp only [hreserved]
    split_ifs <;> omega

/-! ## Boot allocations -/

/-- The physical frames cover the blocks allocated, whose ends are 32-bit addresses. -/
def Covers (l : Layout) (n : Nat) (s : State) : Prop :=
  ∀ block ∈ s.allocated, l.kernelBase ≤ block.1 ∧
    block.1 + block.2 ≤ l.kernelBase + n * pageSize ∧ block.1 + block.2 < 4294967296

instance (s : State) : Decidable (Covers l n s) :=
  inferInstanceAs (Decidable (∀ block ∈ s.allocated, _))

/-- `ptr_free_mem` is the end of the last block, and no block goes past it. -/
structure AtEnd (l : Layout) (s : State) : Prop where
  le : l.endOfKernel ≤ s.ptrFreeMem
  last : ∃ block ∈ s.allocated, block.1 + block.2 = s.ptrFreeMem
  blocks : ∀ block ∈ s.allocated,
    l.endOfKernel ≤ block.1 ∧ block.1 + block.2 ≤ s.ptrFreeMem

/-- Either nothing was allocated, or `ptr_free_mem` is at the end. -/
def Rising (l : Layout) (s : State) : Prop :=
  (s.ptrFreeMem = 0 ∧ s.allocated = []) ∨ AtEnd l s

/-- What a boot function keeps : it only allocates, and as long as the frames cover the
blocks, `ptr_free_mem` rises. -/
structure Follows (l : Layout) (n : Nat) (s s' : State) : Prop where
  grows : ∀ block ∈ s.allocated, block ∈ s'.allocated
  rises : Covers l n s' → Rising l s → Rising l s'

theorem Follows.refl (s : State) : Follows l n s s :=
  ⟨fun _ h => h, fun _ h => h⟩

theorem Follows.trans (h : Follows l n s t) (h' : Follows l n t s') : Follows l n s s' :=
  ⟨fun block hb => h'.grows block (h.grows block hb), fun hc hr =>
    h'.rises hc (h.rises (fun block hb => hc block (h'.grows block hb)) hr)⟩

theorem follows_setWord (s : State) (f i : Nat) (e : Entry) : Follows l n s (s.setWord f i e) :=
  ⟨fun _ h => h, fun _ h => h.imp (fun h => h) fun h => ⟨h.le, h.last, h.blocks⟩⟩

/-- Rounding an address up does not go below it, unless it wraps to the bottom. -/
theorem le_roundUp_of_pos {x r : Nat} (hx : x < 4294967296) (h : 0 < roundUp x r) :
    x ≤ roundUp x r := by
  unfold roundUp roundDown u32 at *
  have hmod := Nat.mod_le ((x + (r - 1)) % 4294967296) r
  rcases Nat.lt_or_ge (x + (r - 1)) 4294967296 with hlt | hge
  · rw [Nat.mod_eq_of_lt hlt] at h hmod ⊢
    rcases Nat.eq_zero_or_pos r with rfl | hr
    · simp at h
    · have := Nat.mod_lt (x + (r - 1)) hr
      omega
  · -- the sum wraps : what is left is below `r`
    have hsmall : (x + (r - 1)) % 4294967296 < r := by
      rcases Nat.lt_or_ge 4294967296 r with hbig | hr
      · exact Nat.lt_trans (Nat.mod_lt _ (by decide)) hbig
      · omega
    rw [Nat.mod_eq_of_lt hsmall, Nat.sub_self] at h
    exact absurd h (Nat.lt_irrefl 0)

theorem follows_bootAllocateSpace {size align ptr : Nat}
    (h : bootAllocateSpace l v size align s = some (ptr, s')) : Follows l n s s' := by
  unfold bootAllocateSpace at h
  split at h
  · cases h
  · obtain ⟨rfl, rfl⟩ := Prod.mk.inj (Option.some.inj h)
    refine ⟨fun block hb => List.mem_cons_of_mem _ hb, fun hc hr => .inr ?_⟩
    have heok := l.endOfKernel_lt
    have hge := l.endOfKernel_ge
    have hbase := l.kernelBase_gt
    have hblock := hc _ List.mem_cons_self
    simp only at hblock
    generalize hptr : (if s.ptrFreeMem = 0 then l.endOfKernel else s.ptrFreeMem) = ptr at *
    -- the pointer before is at or past the kernel's end, and a 32-bit address
    have hlo : l.endOfKernel ≤ ptr ∧ ptr < 4294967296 ∧
        ∀ block ∈ s.allocated, l.endOfKernel ≤ block.1 ∧ block.1 + block.2 ≤ ptr := by
      rcases hr with ⟨h0, hnil⟩ | hend
      · rw [if_pos h0] at hptr
        exact ⟨by omega, by omega, fun block hb => by simp [hnil] at hb⟩
      · have hle := hend.le
        rw [if_neg (by omega)] at hptr
        obtain ⟨last, hlast, heq⟩ := hend.last
        have hlt := (hc last (List.mem_cons_of_mem _ hlast)).2.2
        exact ⟨by omega, by omega, fun block hb => hptr ▸ hend.blocks block hb⟩
    have hround := le_roundUp_of_pos hlo.2.1 (r := v.rounding align) (by omega)
    have hu32 : u32 (roundUp ptr (v.rounding align) + size) =
        roundUp ptr (v.rounding align) + size := Nat.mod_eq_of_lt hblock.2.2
    refine ⟨?_, ⟨_, List.mem_cons_self, ?_⟩, fun block hb => ?_⟩
    · simp only [hu32]
      omega
    · simp only [hu32]
    · simp only [hu32]
      rcases List.mem_cons.1 hb with rfl | hb
      · exact ⟨by simp only; omega, Nat.le_refl _⟩
      · have := hlo.2.2 block hb
        omega

theorem follows_bootGetPageTable {directory va : Nat} {create : Bool} {table : Option Nat}
    (h : bootGetPageTable l v n directory va create s = some (table, s')) : Follows l n s s' := by
  unfold bootGetPageTable at h
  dsimp only at h
  split at h
  · split at h
    · simp only [Option.bind_eq_bind, Option.bind_eq_some_iff] at h
      obtain ⟨⟨ptr, t⟩, halloc, pa, -, h⟩ := h
      obtain ⟨-, rfl⟩ := Prod.mk.inj (Option.some.inj h)
      exact (follows_bootAllocateSpace halloc).trans (follows_setWord t _ _ _)
    · obtain ⟨-, rfl⟩ := Prod.mk.inj (Option.some.inj h)
      exact .refl s
  · obtain ⟨f, -, h⟩ := Option.map_eq_some_iff.1 h
    obtain ⟨-, rfl⟩ := Prod.mk.inj h
    exact .refl s

theorem follows_bootMapRangeLoop {directory : Nat} {perm : BitVec 32} :
    ∀ (trips va pa : Nat) {s s' : State},
      bootMapRangeLoop l v n directory perm trips va pa s = some s' → Follows l n s s'
  | 0, _, _, s, s', h => by
    obtain rfl := Option.some.inj h
    exact .refl s
  | trips + 1, va, pa, s, s', h => by
    unfold bootMapRangeLoop at h
    simp only [Option.bind_eq_bind, Option.bind_eq_some_iff] at h
    obtain ⟨⟨ptr, t⟩, htable, table, -, h⟩ := h
    exact ((follows_bootGetPageTable htable).trans (follows_setWord t _ _ _)).trans
      (follows_bootMapRangeLoop trips _ _ h)

theorem follows_step {c : Call} (h : step l v n s c = some s') : Follows l n s s' := by
  cases c with
  | allocate size align =>
    obtain ⟨⟨ptr, t⟩, halloc, rfl⟩ := Option.map_eq_some_iff.1 h
    exact follows_bootAllocateSpace halloc
  | mapRange directory va size pa perm =>
    simp only [step, bootMapRange] at h
    split at h
    · exact follows_bootMapRangeLoop _ _ _ h
    · cases h

theorem follows_run {calls : List Call} (h : Machine.run (step l v n) s calls = some s') :
    Follows l n s s' :=
  Machine.run_induction (P := Follows l n s) (fun _ _ _ hs h => hs.trans (follows_step h))
    (.refl s) h

/-- Where the frames cover the blocks, `initialize_paging` returns once a block was
allocated; before that `ptr_free_mem` is zero, below the kernel. -/
theorem exists_initializePaging_iff {words : Words} {calls : List Call}
    {framesInfo : Nat → FrameInfo}
    (hrun : Machine.run (step l v n) (start words) calls = some s) (hcovers : Covers l n s) :
    (∃ m, initializePaging l v n s.ptrFreeMem framesInfo = some m) ↔ AtEnd l s := by
  have hbase := l.kernelBase_gt
  have hge := l.endOfKernel_ge
  constructor
  · rintro ⟨m, h⟩
    rcases (follows_run hrun).rises hcovers (.inl ⟨rfl, rfl⟩) with ⟨h0, -⟩ | hend
    · have hle := kernelBase_le_of_initializePaging h
      omega
    · exact hend
  · intro hend
    have hle := hend.le
    have hpa : kPhysicalAddress l s.ptrFreeMem = some (s.ptrFreeMem - l.kernelBase) :=
      kPhysicalAddress_eq_some.2 ⟨by omega, rfl⟩
    simp only [initializePaging, hpa, Option.bind_eq_bind, Option.bind_some]
    exact ⟨_, rfl⟩

/-- After any boot calls whose blocks the physical frames cover, `initialize_paging`
returns if there is a block, and then reserves the low frames, the I/O hole and boot
memory up to its end, and frees every other frame : a reserved frame has one reference
and is not on the list, a free one has none and is on it once; and no byte of a block is
in a frame of the list. -/
theorem boot_memory_reserved {words : Words} {calls : List Call}
    (framesInfo : Nat → FrameInfo)
    (hrun : Machine.run (step l v n) (start words) calls = some s) (hcovers : Covers l n s) :
    (s.allocated ≠ [] → ∃ m, initializePaging l v n s.ptrFreeMem framesInfo = some m) ∧
      ∀ m, initializePaging l v n s.ptrFreeMem framesInfo = some m →
        ∃ bootEnd, (∀ block ∈ s.allocated, block.1 + block.2 ≤ bootEnd) ∧
          (∃ block ∈ s.allocated, block.1 + block.2 = bootEnd) ∧
          (∀ f < n, (Reserved l v bootEnd f ∧ (m.framesInfo f).references = 1 ∧
              f ∉ m.freeFrameList) ∨
            (¬ Reserved l v bootEnd f ∧ (m.framesInfo f).references = 0 ∧
              m.freeFrameList.count f = 1)) ∧
          (∀ f ∈ m.freeFrameList, f < n) ∧
          ∀ block ∈ s.allocated, ∀ k < block.2,
            (block.1 + k - l.kernelBase) / pageSize ∉ m.freeFrameList := by
  refine ⟨fun hne => (exists_initializePaging_iff hrun hcovers).2 ?_, fun m h => ?_⟩
  · exact ((follows_run hrun).rises hcovers (.inl ⟨rfl, rfl⟩)).resolve_left
      fun hnil => hne hnil.2
  have hge := l.endOfKernel_ge
  have hend : AtEnd l s := (exists_initializePaging_iff hrun hcovers).1 ⟨m, h⟩
  obtain ⟨last, hlast, heq⟩ := hend.last
  obtain ⟨-, hhi, hlt⟩ := hcovers last hlast
  have hle := hend.le
  have hspec := initializePaging_spec (n := n) (by omega) (by omega) (by omega) h
  have hmem : ∀ f, f ∈ m.freeFrameList ↔ f < n ∧ ¬ Reserved l v s.ptrFreeMem f := fun f => by
    rw [← List.count_pos_iff, (hspec f).1]
    split <;> simp_all
  refine ⟨s.ptrFreeMem, fun block hb => (hend.blocks block hb).2, ⟨last, hlast, heq⟩,
    fun f hf => ?_, fun f hf => ((hmem f).1 hf).1, fun block hb k hk hfree => ?_⟩
  · by_cases hres : Reserved l v s.ptrFreeMem f
    · exact .inl ⟨hres, by rw [(hspec f).2 hf, if_pos hres], fun hfree => ((hmem f).1 hfree).2 hres⟩
    · exact .inr ⟨hres, by rw [(hspec f).2 hf, if_neg hres],
        by rw [(hspec f).1, if_pos ⟨hf, hres⟩]⟩
  · -- the byte lies between the kernel's end and the end of boot memory
    refine ((hmem _).1 hfree).2 (.inr (.inr ?_))
    obtain ⟨hlo, hhi⟩ := hend.blocks block hb
    have hmod := l.physExtendedMem_mod
    unfold pageSize
    omega

/-- The layout of FOS, with a kernel image of 96 KB. -/
def fosLayout : Layout where
  kernelBase := 0xF0000000
  physIoMem := 0xA0000
  physExtendedMem := 0x100000
  endOfKernel := 0xF0118000
  kernelBase_mod := by decide
  kernelBase_gt := by decide
  physIoMem_mod := by decide
  physExtendedMem_mod := by decide
  lowMemory := by decide
  ioHole := by decide
  endOfKernel_ge := by decide
  endOfKernel_lt := by decide

/-- The page directory is allocated and the kernel stack mapped, with one page table. -/
def stackMapping : List Call :=
  [.allocate 4096 4096, .mapRange 0x118 0xEFBF8000 0x8000 0x110000 permWriteable]

theorem stackMapping_reserved :
    ∃ s, Machine.run (step fosLayout .kern 1024) (start fun _ _ => 0#32) stackMapping = some s ∧
      s.allocated = [(0xF0119000, 4096), (0xF0118000, 4096)] ∧
      ∃ m, initializePaging fosLayout .kern 1024 s.ptrFreeMem (fun _ => initializeFrameInfo) =
        some m ∧ 0x118 ∉ m.freeFrameList ∧ 0x119 ∉ m.freeFrameList := by
  have hrun : (Machine.run (step fosLayout .kern 1024) (start fun _ _ => 0#32)
      stackMapping).map (fun s => s.allocated) =
      some [(0xF0119000, 4096), (0xF0118000, 4096)] := by decide
  obtain ⟨s, hs, hblocks⟩ := Option.map_eq_some_iff.1 hrun
  have hcovers : Covers fosLayout 1024 s := by
    unfold Covers
    rw [hblocks]
    decide
  obtain ⟨hreturns, hspec⟩ := boot_memory_reserved (fun _ => initializeFrameInfo) hs hcovers
  obtain ⟨m, hm⟩ := hreturns (by simp [hblocks])
  obtain ⟨bootEnd, -, -, -, -, hbytes⟩ := hspec m hm
  rw [hblocks] at hbytes
  exact ⟨s, hs, hblocks, m, hm, hbytes (0xF0118000, 4096) (by decide) 0 (by decide),
    hbytes (0xF0119000, 4096) (by decide) 0 (by decide)⟩

end Boot

end FosKernel
