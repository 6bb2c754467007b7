import FosKernel.ResidentCopies

/-!
# Programs and their heaps

A program has its memory from `malloc`, which reserves pages in a table of its own and has the
kernel add them to the page file; what it stores there goes through the fault handler, and `free`
gives the pages back. Several programs do so at once, and take frames from each other.

`BlockMemory` is what the programs may think of it : each block is an array of its own, and a
store is to the block that the address lies in. `run_blockMemory` : along every run the memory
that the kernel manages holds what the blocks do. So no block overlaps another, no page that is
evicted or freed takes a byte of another block with it, and a byte of a live block can always be
had again.
-/

namespace FosKernel

/-! ## Blocks -/

/-- The bytes of a block, as far as they were stored. -/
structure Block where
  size : Nat
  bytes : Nat → Option (BitVec 8)

/-- The live blocks, by program and address. -/
abbrev BlockMemory :=
  Nat → Nat → Option Block

namespace BlockMemory

variable (m : BlockMemory)

/-- A block of `size` bytes at `p`, of no known contents. -/
def malloc (env p size : Nat) : BlockMemory :=
  fun env' p' => if env' = env ∧ p' = p then some ⟨size, fun _ => none⟩ else m env' p'

/-- The block at `p` is gone. -/
def free (env p : Nat) : BlockMemory :=
  fun env' p' => if env' = env ∧ p' = p then none else m env' p'

/-- A store at offset `va - p` of the block at `p`. -/
def store (env va : Nat) (byte : BitVec 8) : BlockMemory :=
  fun env' p => (m env' p).map fun b =>
    if env' = env ∧ p ≤ va ∧ va < p + b.size
    then { b with bytes := Function.update b.bytes (va - p) (some byte) } else b

/-- The sizes of the live blocks of a program. -/
def live (env : Nat) : Nat → Option Nat :=
  fun p => (m env p).map Block.size

variable {m} {env p size va : Nat}

theorem live_malloc :
    (m.malloc env p size).live env = Function.update (m.live env) p (some size) := by
  ext q : 1
  simp only [live, malloc, Function.update_apply, true_and]
  split_ifs <;> rfl

theorem live_free : (m.free env p).live env = Function.update (m.live env) p none := by
  ext q : 1
  simp only [live, free, Function.update_apply, true_and]
  split_ifs <;> rfl

theorem live_malloc_of_ne {env' : Nat} (h : env' ≠ env) :
    (m.malloc env p size).live env' = m.live env' := by
  ext q : 1
  rw [live, malloc, if_neg fun hc => h hc.1, live]

theorem live_free_of_ne {env' : Nat} (h : env' ≠ env) : (m.free env p).live env' = m.live env' := by
  ext q : 1
  rw [live, free, if_neg fun hc => h hc.1, live]

theorem live_store (byte : BitVec 8) (env' : Nat) :
    (m.store env va byte).live env' = m.live env' := by
  ext q : 1
  simp only [live, store, Option.map_map]
  congr 1
  ext b
  simp only [Function.comp_apply]
  split_ifs <;> rfl

/-- The bytes of the blocks are those of a flat memory. -/
def Holds (m : BlockMemory) (flat : FlatMemory) : Prop :=
  ∀ {env p b}, m env p = some b → ∀ i < b.size, ∀ {x}, b.bytes i = some x →
    flat env (p + i) = some x

theorem Holds.store {flat : FlatMemory} (h : m.Holds flat) (env va : Nat) (byte : BitVec 8) :
    (m.store env va byte).Holds (flat.store env va byte) := by
  intro env' p b' hb' i hi x hx
  obtain ⟨b, hb, rfl⟩ := Option.map_eq_some_iff.1 hb'
  rw [FlatMemory.store]
  split_ifs at hi hx with hin
  · obtain ⟨rfl, hle, hlt⟩ := hin
    simp only [Function.update_apply] at hx
    split_ifs at hx with hat
    · rw [if_pos ⟨rfl, by omega⟩, hx]
    · rw [if_neg fun hc => hat (by omega)]
      exact h hb i hi hx
  · rw [if_neg fun hc => hin ⟨hc.1, by omega, by omega⟩]
    exact h hb i hi hx

/-- The other blocks are apart from a range of pages that is new or given back. -/
def Apart (m : BlockMemory) (env p length : Nat) : Prop :=
  p % pageSize = 0 ∧ length % pageSize = 0 ∧
    ∀ q b, q ≠ p → m env q = some b → p + length ≤ q ∨ q + b.size ≤ p

theorem Apart.forget {length q i : Nat} {b : Block} {flat : FlatMemory} (h : m.Apart env p length)
    (env' : Nat) (hat : ¬(env' = env ∧ q = p)) (hb : m env' q = some b) (hi : i < b.size) :
    flat.forget env p length env' (q + i) = flat env' (q + i) := by
  obtain ⟨hp, hlength, hapart⟩ := h
  refine if_neg fun hc => ?_
  obtain ⟨rfl, hle, hlt⟩ := hc
  have hother := hapart q b (fun hq => hat ⟨rfl, hq⟩) hb
  unfold pageSize at *
  omega

theorem Holds.malloc {length : Nat} {flat : FlatMemory} (h : m.Holds flat)
    (hapart : m.Apart env p length) :
    (m.malloc env p size).Holds (flat.forget env p length) := by
  intro env' q b hb i hi x hx
  rw [BlockMemory.malloc] at hb
  split_ifs at hb with hat
  · obtain rfl := Option.some.inj hb
    cases hx
  · rw [hapart.forget env' hat hb hi]
    exact h hb i hi hx

theorem Holds.free {length : Nat} {flat : FlatMemory} (h : m.Holds flat)
    (hapart : m.Apart env p length) : (m.free env p).Holds (flat.forget env p length) := by
  intro env' q b hb i hi x hx
  rw [BlockMemory.free] at hb
  split_ifs at hb with hat
  rw [hapart.forget env' hat hb hi]
  exact h hb i hi hx

end BlockMemory

/-! ## Programs -/

/-- The user heap lies below the stack and in user memory. -/
structure ProgramLayout extends UserHeapLayout, FaultLayout where
  userHeapStart_pos : 0 < userHeapStart
  userHeapMax_le : userHeapMax ≤ ustackBottom
  userHeapMax_user : userHeapMax ≤ userTop

/-- The programs, each with the table of its heap, and the kernel below them. -/
structure Programs (P : Type) where
  heap : Nat → UserHeap P
  kernel : UserMemory P

/-- What a program does. -/
inductive ProgramEvent where
  | load (env va unset : Nat)
  | store (env va : Nat) (byte : BitVec 8) (unset : Nat)
  | malloc (env size unset : Nat) (noSpace : Bool)
  | free (env va : Nat)

namespace Programs

variable {P : Type}

/-- Program `env` runs. -/
def enter (c : Programs P) (env : Nat) : UserHeap P :=
  { c.heap env with env := env, kernel := c.kernel }

/-- The heap of program `env` becomes that of `s`, and the kernel too. -/
def leave (c : Programs P) (env : Nat) (s : UserHeap P) : Programs P :=
  ⟨Function.update c.heap env s, s.kernel⟩

/-- A call of `uheap.c` : the address returned, and the programs after. -/
def call (L : UserHeapLayout) (pf : PageFile P) (c : Programs P) (env : Nat)
    (call : UserHeap.Call) : Option (Nat × Programs P) :=
  (UserHeap.step L pf (c.enter env) call).map fun r => (r.1, c.leave env r.2)

/-- The programs are loaded, and have no heap yet. -/
def loaded (L : UserHeapLayout) (kernel : UserMemory P) : Programs P :=
  ⟨fun env => (UserHeap.loaded L env kernel).heap, kernel⟩

end Programs

/-! ## What the calls do to the kernel -/

namespace UserHeap

variable {P : Type} {L : UserHeapLayout} {pf : PageFile P} {s s' : UserHeap P}
  {va size unset p : Nat} {noSpace : Bool}

theorem mallocLoop_frame {start : Nat} : ∀ (pages : Nat) {tmpstart : Nat} {s s' : UserHeap P},
    mallocLoop L start size pages tmpstart s = some s' → s'.kernel = s.kernel ∧ s'.env = s.env
  | 0, _, s, s', h => by
    obtain rfl := Option.some.inj h
    exact ⟨rfl, rfl⟩
  | pages + 1, tmpstart, s, s', h => by
    obtain ⟨s₁, hset, hloop⟩ := Option.bind_eq_some_iff.1 h
    unfold setPage at hset
    split_ifs at hset
    obtain rfl := Option.some.inj hset
    obtain ⟨hkernel, henv⟩ := mallocLoop_frame pages hloop
    exact ⟨hkernel, henv⟩

theorem freeLoop_frame : ∀ (pages : Nat) {va : Nat} {s s' : UserHeap P},
    freeLoop L pages va s = some s' → s'.kernel = s.kernel ∧ s'.env = s.env
  | 0, _, s, s', h => by
    obtain rfl := Option.some.inj h
    exact ⟨rfl, rfl⟩
  | pages + 1, va, s, s', h => by
    obtain ⟨s₁, hset, hloop⟩ := Option.bind_eq_some_iff.1 h
    unfold setPage at hset
    split_ifs at hset
    obtain rfl := Option.some.inj hset
    obtain ⟨hkernel, henv⟩ := freeLoop_frame pages hloop
    exact ⟨hkernel, henv⟩

/-- `malloc` returns null and leaves the kernel alone, or has it add the pages. -/
theorem malloc_kernel (h : s.malloc L pf size unset noSpace = some (p, s')) :
    s'.env = s.env ∧ (p = 0 ∧ s'.kernel = s.kernel ∨ p ≠ 0 ∧
      s.kernel.allocateMem pf s.env p (roundUp size pageSize) noSpace = some s'.kernel) := by
  obtain ⟨-, -, henv, hkernel⟩ := prepared_fields (L := L) (s := s)
  rw [malloc_eq rfl rfl] at h
  split_ifs at h with hzero
  · obtain ⟨rfl, rfl⟩ := Prod.mk.inj (Option.some.inj h)
    exact ⟨henv, Or.inl ⟨rfl, hkernel⟩⟩
  · simp only [Option.bind_eq_some_iff] at h
    obtain ⟨kernel, hallocate, s₁, hloop, hr⟩ := h
    obtain ⟨rfl, rfl⟩ := Prod.mk.inj (Option.some.inj hr)
    obtain ⟨hsame, hsame'⟩ := mallocLoop_frame _ hloop
    rw [henv, hkernel] at hallocate
    exact ⟨hsame'.trans henv, Or.inr ⟨hzero, hallocate.trans (congrArg some hsame.symm)⟩⟩

/-- `free` has the kernel free the size that the table has. -/
theorem free_kernel (h : s.free L pf va = some s') : s'.env = s.env ∧
    ∃ q, s.page L (userHeapPageIndex L va) = some q ∧
      s.kernel.freeMem L.toUserLayout pf s.env va q.size = some s'.kernel := by
  unfold free at h
  simp only [Option.bind_eq_bind, Option.bind_eq_some_iff] at h
  obtain ⟨q, hq, kernel, hfree, hloop⟩ := h
  obtain ⟨hsame, hsame'⟩ := freeLoop_frame _ hloop
  exact ⟨hsame', q, hq, hfree.trans (congrArg some hsame.symm)⟩

/-- A heap is not concerned with what pages of the stack are in the page file. -/
theorem Invariant.setKernel {c : Ledger P} (h : Invariant L pf c) (kernel : UserMemory P)
    (hfile : ∀ i < L.userHeapMaxPages, pf.Has kernel.pageFile c.heap.env (L.heapAddr i) ↔
      pf.Has c.heap.kernel.pageFile c.heap.env (L.heapAddr i)) :
    Invariant L pf ⟨{ c.heap with kernel := kernel }, c.live⟩ :=
  ⟨⟨h.hand, h.contiguous, h.live_block, h.tagged,
    fun i hi => (hfile i hi).trans (h.pageFile i hi)⟩, h.strategy⟩

end UserHeap

/-! ## The blocks are in memory -/

/-- The programs, and the blocks that they have. -/
structure HeapMemory (P : Type) where
  programs : Programs P
  blocks : BlockMemory

namespace HeapMemory

variable {P : Type}

/-- One event. A store to a page that is not resident is a fault. -/
def step (L : ProgramLayout) (pf : PageFile P) (buffering : Bool) (h : HeapMemory P) :
    ProgramEvent → Option (HeapMemory P)
  | .load env va unset =>
    (h.programs.kernel.attempt L.toFaultLayout pf buffering (.load env va unset)).map fun k =>
      ⟨{ h.programs with kernel := k }, h.blocks⟩
  | .store env va byte unset =>
    (h.programs.kernel.attempt L.toFaultLayout pf buffering (.store env va byte unset)).map fun k =>
      ⟨{ h.programs with kernel := k },
        if h.programs.kernel.Mapped env va then h.blocks.store env va byte else h.blocks⟩
  | .malloc env size unset noSpace =>
    (h.programs.call L.toUserHeapLayout pf env (.malloc size unset noSpace)).map fun r =>
      ⟨r.2, if r.1 = 0 then h.blocks else h.blocks.malloc env r.1 size⟩
  | .free env va =>
    (h.programs.call L.toUserHeapLayout pf env (.free va)).map fun r =>
      ⟨r.2, h.blocks.free env va⟩

/-- `malloc` is called with a 32-bit size, and `free` with a live block. -/
def Admissible (h : HeapMemory P) : ProgramEvent → Prop
  | .load _ _ _ => True
  | .store _ _ _ _ => True
  | .malloc _ size _ _ => size < 4294967296
  | .free env va => (h.blocks env va).isSome

instance (h : HeapMemory P) : ∀ ev, Decidable (Admissible h ev)
  | .load _ _ _ => inferInstanceAs (Decidable True)
  | .store _ _ _ _ => inferInstanceAs (Decidable True)
  | .malloc _ size _ _ => inferInstanceAs (Decidable (size < 4294967296))
  | .free env va => inferInstanceAs (Decidable ((h.blocks env va).isSome = true))

open UserMemory (Managed Transparent CopiesKept SameFile Accesses)

variable {L : ProgramLayout} {pf : PageFile P} {buffering : Bool} {h h' : HeapMemory P}
  {env p size va : Nat}

/-- The heap of a program, with the sizes of its blocks. -/
def ledger (h : HeapMemory P) (env : Nat) : UserHeap.Ledger P :=
  ⟨h.programs.enter env, h.blocks.live env⟩

/-- The blocks of all programs are in memory, and their heaps are in order. -/
structure Implements (L : ProgramLayout) (pf : PageFile P) (h : HeapMemory P) : Prop where
  flat : ∃ flat, Transparent L.toFaultLayout pf h.programs.kernel flat ∧ h.blocks.Holds flat
  copies : CopiesKept L.toUserLayout pf h.programs.kernel
  heaps : ∀ env, UserHeap.Invariant L.toUserHeapLayout pf (h.ledger env)

theorem isValidFaultVa_heapAddr {i : Nat} (hi : i < L.userHeapMaxPages) :
    UserMemory.isValidFaultVa L.toUserLayout (L.heapAddr i) = false := by
  have hmax := UserHeapLayout.userHeapMax_eq (L := L.toUserHeapLayout)
  have hle := L.userHeapMax_le
  have hlt : L.heapAddr i < L.userHeapMax := by
    rw [hmax]
    unfold UserHeapLayout.heapAddr pageSize
    omega
  exact decide_eq_false fun hstack => by omega

/-- A live block lies in user memory, and the others are apart from its pages. -/
theorem apart_of_agrees {c : UserHeap.Ledger P} {m : BlockMemory}
    (hagrees : UserHeap.Agrees L.toUserHeapLayout pf c) (hp : c.live p = some size)
    (hothers : ∀ q b, q ≠ p → m env q = some b → c.live q = some b.size) :
    m.Apart env p (roundUp size pageSize) ∧ p % pageSize = 0 ∧
      p + roundUp size pageSize ≤ L.userTop := by
  obtain ⟨hmod, -, hmax⟩ := hagrees.inside p size hp
  have htop := L.userHeapMax_user
  refine ⟨⟨hmod, roundUp_mod _ _, fun q b hq hb => ?_⟩, hmod, by omega⟩
  have hlive := hothers q b hq hb
  have hle := (hagrees.large q _ hlive).1
  have := hagrees.disjoint p q _ _ hp hlive (Ne.symm hq)
  omega

theorem live_of_blocks {m : BlockMemory} {b : Block} (hb : m env p = some b) :
    m.live env p = some b.size :=
  congrArg (Option.map Block.size) hb

/-- A load or a store, or the fault that it is. -/
theorem Implements.attempt {ev : UserMemory.Event} {k : UserMemory P} {m : BlockMemory}
    (hstores : pf.StoresPages) (hremoves : pf.RemovesPages) (hkeeps : pf.KeepsPages)
    (himpl : Implements L pf h) (hev : Accesses env va ev)
    (hattempt : h.programs.kernel.attempt L.toFaultLayout pf buffering ev = some k)
    (hblocks : ∀ flat, h.blocks.Holds flat →
      m.Holds (UserMemory.after flat h.programs.kernel ev))
    (hlive : ∀ env, m.live env = h.blocks.live env) :
    Implements L pf ⟨{ h.programs with kernel := k }, m⟩ := by
  obtain ⟨flat, htransparent, hholds⟩ := himpl.flat
  have hproper : ev.Proper L.toFaultLayout := by cases hev <;> exact trivial
  obtain ⟨hfile, hcopies⟩ :=
    himpl.copies.attempt hstores hkeeps htransparent.toManaged hev hattempt
  refine ⟨⟨_, UserMemory.attempt_transparent hstores hremoves hproper htransparent hattempt,
    hblocks flat hholds⟩, hcopies, fun env' => ?_⟩
  have hheap := (himpl.heaps env').setKernel k fun i hi =>
    hfile.has_iff (UserHeapLayout.heapAddr_aligned i) (isValidFaultVa_heapAddr hi)
  rw [ledger, hlive]
  exact hheap

/-- A program comes back from a call. -/
theorem Implements.leave {s : UserHeap P} {m : BlockMemory} (himpl : Implements L pf h)
    (hs : s.env = env) (hheap : UserHeap.Invariant L.toUserHeapLayout pf ⟨s, m.live env⟩)
    (hlive : ∀ env' ≠ env, m.live env' = h.blocks.live env')
    (hfile : ∀ env' ≠ env, ∀ a, a % pageSize = 0 →
      pf.readEnvPage s.kernel.pageFile env' a = pf.readEnvPage h.programs.kernel.pageFile env' a)
    (hflat : ∃ flat, Transparent L.toFaultLayout pf s.kernel flat ∧ m.Holds flat)
    (hcopies : CopiesKept L.toUserLayout pf s.kernel) :
    Implements L pf ⟨h.programs.leave env s, m⟩ := by
  refine ⟨hflat, hcopies, fun env' => ?_⟩
  by_cases henv : env' = env
  · subst henv
    have henter : (h.programs.leave env' s).enter env' = s := by
      simp only [Programs.enter, Programs.leave, Function.update_self, ← hs]
    rw [ledger, henter]
    exact hheap
  · have henter : (h.programs.leave env s).enter env' =
        { h.programs.enter env' with kernel := s.kernel } := by
      simp only [Programs.enter, Programs.leave, Function.update_of_ne henv]
    rw [ledger, henter, hlive env' henv]
    refine (himpl.heaps env').setKernel s.kernel fun i _ => ?_
    have hread := hfile env' henv (L.heapAddr i) (UserHeapLayout.heapAddr_aligned i)
    exact iff_of_eq (congrArg (fun o : Option PageBytes => o.isSome = true) hread)

theorem Implements.malloc {unset : Nat} {noSpace : Bool} {s : UserHeap P}
    (hfull : pf.NeverFull) (hkeeps : pf.KeepsPages) (hstores : pf.StoresPages)
    (hremoves : pf.RemovesPages) (himpl : Implements L pf h) (hsize : size < 4294967296)
    (hstep : UserHeap.step L.toUserHeapLayout pf (h.programs.enter env)
      (.malloc size unset noSpace) = some (p, s)) :
    Implements L pf ⟨h.programs.leave env s,
      if p = 0 then h.blocks else h.blocks.malloc env p size⟩ := by
  obtain ⟨flat, htransparent, hholds⟩ := himpl.flat
  obtain ⟨henv, hkernel⟩ := UserHeap.malloc_kernel hstep
  have hok : UserHeap.Admissible (h.ledger env) (.malloc size unset noSpace) := hsize
  obtain ⟨hheap, -⟩ := UserHeap.step_invariant hfull hkeeps (himpl.heaps env) hok
    (by rw [UserHeap.ledgerStep, ledger, hstep]; rfl)
  simp only [UserHeap.liveAfter] at hheap
  rcases hkernel with ⟨rfl, hkernel⟩ | ⟨hp, hallocate⟩
  · simp only [if_true] at hheap ⊢
    refine himpl.leave henv hheap (fun _ _ => rfl) (fun _ _ _ _ => ?_) ⟨flat, ?_, hholds⟩ ?_
    · rw [hkernel]
      rfl
    · exact hkernel ▸ htransparent
    · exact hkernel ▸ himpl.copies
  · simp only [if_neg hp] at hheap ⊢
    have hlast : Function.update (h.blocks.live env) p (some size) p = some size :=
      Function.update_self ..
    obtain ⟨hapart, hmod, htop⟩ := apart_of_agrees hheap.toRecords.agrees hlast fun q b hq hb =>
      (Function.update_of_ne hq ..).trans (live_of_blocks hb)
    have hproper : UserMemory.Event.Proper L.toFaultLayout
        (.allocateMem env p (roundUp size pageSize) noSpace) := ⟨hmod, htop⟩
    have hattempt : h.programs.kernel.attempt L.toFaultLayout pf false
        (.allocateMem env p (roundUp size pageSize) noSpace) = some s.kernel := hallocate
    refine himpl.leave henv (BlockMemory.live_malloc ▸ hheap)
      (fun _ => BlockMemory.live_malloc_of_ne) (fun env' henv' a ha => ?_)
      ⟨_, UserMemory.attempt_transparent hstores hremoves hproper htransparent hattempt,
        hholds.malloc hapart⟩ (himpl.copies.allocateMem hfull hkeeps hmod hallocate)
    exact (UserMemory.sameView_allocateMem hstores hmod hallocate henv').copies a ha

theorem Implements.free {s : UserHeap P} {r : Nat} {b : Block}
    (hfull : pf.NeverFull) (hkeeps : pf.KeepsPages) (hstores : pf.StoresPages)
    (hremoves : pf.RemovesPages) (himpl : Implements L pf h) (hb : h.blocks env va = some b)
    (hstep : UserHeap.step L.toUserHeapLayout pf (h.programs.enter env) (.free va) =
      some (r, s)) :
    Implements L pf ⟨h.programs.leave env s, h.blocks.free env va⟩ := by
  obtain ⟨flat, htransparent, hholds⟩ := himpl.flat
  have hlive := live_of_blocks hb
  have hok : UserHeap.Admissible (h.ledger env) (.free va) := Option.isSome_of_eq_some hlive
  obtain ⟨hheap, -⟩ := UserHeap.step_invariant hfull hkeeps (himpl.heaps env) hok
    (by rw [UserHeap.ledgerStep, ledger, hstep]; rfl)
  obtain ⟨s₁, hfree, hr⟩ := Option.map_eq_some_iff.1 hstep
  obtain ⟨-, rfl⟩ := Prod.mk.inj hr
  obtain ⟨henv, q, hq, hfreeMem⟩ := UserHeap.free_kernel hfree
  -- the size in the table is that of the block
  have hsize : q.size = roundUp b.size pageSize := by
    obtain ⟨t, n, rfl, hn, hblock, htable, -⟩ := (himpl.heaps env).toRecords.block_of_live hlive
    have ht : t < L.userHeapMaxPages :=
      UserHeap.lt_pages_of_owner (by rw [hblock.owner_first]; rfl)
    rw [UserHeapLayout.userHeapPageIndex_heapAddr ht.le, UserHeap.page, if_pos ht] at hq
    rw [← Option.some.inj hq, hn]
    exact htable
  rw [hsize] at hfreeMem
  obtain ⟨hapart, hmod, htop⟩ := apart_of_agrees (himpl.heaps env).toRecords.agrees hlive
    fun _ _ _ => live_of_blocks
  have hproper : UserMemory.Event.Proper L.toFaultLayout
      (.freeMem env va (roundUp b.size pageSize)) := ⟨hmod, htop⟩
  have hattempt : h.programs.kernel.attempt L.toFaultLayout pf false
      (.freeMem env va (roundUp b.size pageSize)) = some s₁.kernel := hfreeMem
  refine himpl.leave henv (BlockMemory.live_free ▸ hheap) (fun _ => BlockMemory.live_free_of_ne)
    (fun env' henv' a ha => ?_)
    ⟨_, UserMemory.attempt_transparent hstores hremoves hproper htransparent hattempt,
      hholds.free hapart⟩
    (himpl.copies.freeMem hremoves (htransparent.workingSets env) hmod (roundUp_mod _ _) htop
      hfreeMem)
  exact (UserMemory.sameView_freeMem hremoves hmod hfreeMem henv').copies a ha

/-- Every event keeps the blocks in memory. -/
theorem step_implements {ev : ProgramEvent} (hfull : pf.NeverFull) (hkeeps : pf.KeepsPages)
    (hstores : pf.StoresPages) (hremoves : pf.RemovesPages) (himpl : Implements L pf h)
    (hok : Admissible h ev) (hstep : step L pf buffering h ev = some h') : Implements L pf h' := by
  cases ev with
  | load env va unset =>
    obtain ⟨k, hattempt, rfl⟩ := Option.map_eq_some_iff.1 hstep
    exact himpl.attempt hstores hremoves hkeeps (.load unset) hattempt (fun _ hholds => hholds)
      fun _ => rfl
  | store env va byte unset =>
    obtain ⟨k, hattempt, rfl⟩ := Option.map_eq_some_iff.1 hstep
    refine himpl.attempt hstores hremoves hkeeps (.store byte unset) hattempt
      (fun flat hholds => ?_) fun env' => ?_
    · simp only [UserMemory.after]
      split_ifs
      · exact hholds.store env va byte
      · exact hholds
    · split_ifs
      · exact BlockMemory.live_store byte env'
      · rfl
  | malloc env size unset noSpace =>
    obtain ⟨⟨p, c⟩, hcall, rfl⟩ := Option.map_eq_some_iff.1 hstep
    obtain ⟨⟨p', s⟩, hmalloc, hr⟩ := Option.map_eq_some_iff.1 hcall
    obtain ⟨rfl, rfl⟩ := Prod.mk.inj hr
    exact himpl.malloc hfull hkeeps hstores hremoves hok hmalloc
  | free env va =>
    obtain ⟨b, hb⟩ := Option.isSome_iff_exists.1 hok
    obtain ⟨⟨p, c⟩, hcall, rfl⟩ := Option.map_eq_some_iff.1 hstep
    obtain ⟨⟨p', s⟩, hfree, hr⟩ := Option.map_eq_some_iff.1 hcall
    obtain ⟨rfl, rfl⟩ := Prod.mk.inj hr
    exact himpl.free hfull hkeeps hstores hremoves hb hfree

/-- No program has a heap yet. -/
theorem loaded_implements {kernel : UserMemory P} (hmanaged : Managed L.toFaultLayout kernel)
    (hclean : kernel.CleanCopies pf) (hcopies : CopiesKept L.toUserLayout pf kernel)
    (hempty : ∀ env, ∀ i < L.userHeapMaxPages, ¬pf.Has kernel.pageFile env (L.heapAddr i)) :
    Implements L pf ⟨Programs.loaded L.toUserHeapLayout kernel, fun _ _ => none⟩ :=
  ⟨⟨_, ⟨hmanaged, UserMemory.standsFor_faithful hclean⟩, fun hb => by cases hb⟩, hcopies,
    fun env => UserHeap.loaded_invariant (hempty env)⟩

/-- Along every run of programs that allocate, free, load and store, in whatever order : a byte
of a live block is in the page that it belongs to, resident or not, and the page can be had. -/
theorem run_blockMemory {kernel : UserMemory P} {events : List ProgramEvent}
    (hfull : pf.NeverFull) (hkeeps : pf.KeepsPages) (hstores : pf.StoresPages)
    (hremoves : pf.RemovesPages) (hmanaged : Managed L.toFaultLayout kernel)
    (hclean : kernel.CleanCopies pf) (hcopies : CopiesKept L.toUserLayout pf kernel)
    (hempty : ∀ env, ∀ i < L.userHeapMaxPages, ¬pf.Has kernel.pageFile env (L.heapAddr i))
    (hadm : Machine.Meets (step L pf buffering) Admissible
      ⟨Programs.loaded L.toUserHeapLayout kernel, fun _ _ => none⟩ events)
    (hrun : Machine.run (step L pf buffering)
      ⟨Programs.loaded L.toUserHeapLayout kernel, fun _ _ => none⟩ events = some h)
    {b : Block} (hb : h.blocks env p = some b) {i : Nat} (hi : i < b.size) :
    pf.Has h.programs.kernel.pageFile env (roundDown (p + i) pageSize) ∧
      ∀ x, b.bytes i = some x →
        (∃ contents, h.programs.kernel.logicalContent pf env (roundDown (p + i) pageSize) =
          some contents ∧ contents ((p + i) % pageSize) = x) ∧
        (h.programs.kernel.Mapped env (p + i) → h.programs.kernel.byteAt env (p + i) = x) := by
  have himpl := Machine.run_induction_of_meets (P := Implements L pf)
    (fun h ev h' himpl hok hstep =>
      step_implements hfull hkeeps hstores hremoves himpl hok hstep)
    (loaded_implements hmanaged hclean hcopies hempty) hadm hrun
  obtain ⟨flat, htransparent, hholds⟩ := himpl.flat
  refine ⟨?_, fun x hx => htransparent.known (hholds hb i hi hx)⟩
  have hagrees := (himpl.heaps env).toRecords.agrees
  have hlive : (h.ledger env).live p = some b.size := live_of_blocks hb
  obtain ⟨hp, hlo, hhi⟩ := hagrees.inside p _ hlive
  obtain ⟨hle, -⟩ := hagrees.large p _ hlive
  refine (hagrees.pageFile _ (roundDown_mod _ _) ?_ ?_).2 ⟨p, b.size, hlive, ?_, ?_⟩ <;>
  · unfold roundDown pageSize at *
    omega

/-- The heap of four pages, over the small kernel. -/
def smallProgramLayout : ProgramLayout where
  toUserHeapLayout := UserHeap.smallUserHeapLayout
  kernelStackTop := 0xF0000000
  kernelStackSize := 0x8000
  userLimit := 0xEF800000
  userHeapStart_pos := by decide
  userHeapMax_le := by decide
  userHeapMax_user := by decide

/-- The small kernel, with no block yet. -/
def firstProgram : HeapMemory (Nat → Nat → Option PageBytes) :=
  ⟨Programs.loaded UserHeap.smallUserHeapLayout (UserMemory.smallUserMemory fun _ => 1),
    fun _ _ => none⟩

/-- One slot : the second block is freed while the page of the first is out of memory. -/
def storeAndFree : List ProgramEvent :=
  [.malloc 0 5000 0 false, .malloc 0 1 0 false, .load 0 0x80000000 0,
    .store 0 0x80000010 7#8 0, .store 0 0x80000010 7#8 0, .store 0 0x80002000 9#8 0,
    .store 0 0x80002000 9#8 0, .free 0 0x80002000]

theorem storeAndFree_blockMemory : ∃ h, Machine.run
    (step smallProgramLayout UserMemory.mapPageFile false) firstProgram storeAndFree = some h ∧
    ¬h.programs.kernel.Mapped 0 0x80000010 ∧
    ∃ contents, h.programs.kernel.logicalContent UserMemory.mapPageFile 0 0x80000000 =
      some contents ∧ contents 16 = 7#8 := by
  have hrun : ((Machine.run (step smallProgramLayout UserMemory.mapPageFile false) firstProgram
      storeAndFree).any fun h => ¬h.programs.kernel.Mapped 0 0x80000010 ∧
        (h.blocks 0 0x80000000).any fun b => 16 < b.size ∧ b.bytes 16 = some 7#8) = true := by
    decide +kernel
  obtain ⟨h, hh, hfacts⟩ := (Option.any_eq_true _ _).1 hrun
  obtain ⟨hnon, hblock⟩ := of_decide_eq_true hfacts
  obtain ⟨b, hb, hbyte⟩ := (Option.any_eq_true _ _).1 hblock
  obtain ⟨hsize, hbyte⟩ := of_decide_eq_true hbyte
  have hadm : Machine.Meets (step smallProgramLayout UserMemory.mapPageFile false) Admissible
      firstProgram storeAndFree := by decide +kernel
  have hclean : (UserMemory.smallUserMemory fun _ => 1).CleanCopies UserMemory.mapPageFile :=
    fun _ _ _ hm => absurd hm not_isPresent_zero
  have hcopies : CopiesKept smallProgramLayout.toUserLayout UserMemory.mapPageFile
      (UserMemory.smallUserMemory fun _ => 1) := fun _ _ _ hm => absurd hm not_isPresent_zero
  obtain ⟨-, hknown⟩ := run_blockMemory UserHeap.mapPageFile_neverFull
    UserHeap.mapPageFile_keepsPages UserMemory.mapPageFile_storesPages
    UserMemory.mapPageFile_removesPages
    (VirtualMemory.smallUserMemory_managed fun _ => 1) hclean hcopies
    (fun _ _ _ hhas => by cases hhas) hadm hh hb hsize
  exact ⟨h, hh, hnon, (hknown _ hbyte).1⟩

end HeapMemory

end FosKernel
