import FosKernel.FrameOwnership
import FosKernel.MapFrameContract
import Mathlib.Data.Finset.Card

/-!
# `calculate_required_frames`

The two loops of `calculate_required_frames`, over the page tables and over the pages of a
range : `countMissing` adds up what is missing from one address to the next, in 32-bit
arithmetic. It ends if the bound leaves room for one more step below `2^32`
(`countMissing_eq`), and a loop that may take any address does not end otherwise
(`countMissing_eq_none`) : `requiredFrames_ends_iff`.

Below `USER_TOP` there is room, and the sum is what mapping the missing pages takes from the
free frames, in whatever order (`calculateRequiredFrames_eq`) : each page takes one, and the
first page of a missing table another (`NewPage`).
-/

namespace FosKernel

/-- The bytes that one page table maps. -/
def tableSpan : Nat :=
  pageSize * 1024

/-- A loop of `calculate_required_frames` : the addresses from `va` on, `step` apart, at which
something is `missing`. Without a value it is still running after its `trips`; the inner
`none` is a panic of the lookup. -/
def countMissing (missing : Nat → Option Bool) (bound step : Nat) :
    Nat → Nat → Nat → Option (Option Nat)
  | 0, va, count => if va < bound then none else some (some count)
  | trips + 1, va, count =>
    if va < bound then
      match missing va with
      | none => some none
      | some b =>
        countMissing missing bound step trips (u32 (va + step)) (if b then count + 1 else count)
    else some (some count)

/-- The addresses that such a loop looks at, if it ends. -/
def scanned (bound step va : Nat) : List Nat :=
  List.range' va ((bound - va + (step - 1)) / step) step

section loops

variable {missing : Nat → Option Bool} {unset : Nat → Bool} {bound step va a : Nat}

theorem scanned_of_le (hstep : 0 < step) (h : bound ≤ va) : scanned bound step va = [] := by
  have hzero : (bound - va + (step - 1)) / step = 0 := Nat.div_eq_of_lt (by omega)
  rw [scanned, hzero]
  rfl

theorem scanned_of_lt (hstep : 0 < step) (h : va < bound) :
    scanned bound step va = va :: scanned bound step (va + step) := by
  have hlen : (bound - va + (step - 1)) / step =
      (bound - (va + step) + (step - 1)) / step + 1 := by
    by_cases hlast : bound ≤ va + step
    · have hnone : bound - (va + step) + (step - 1) = step - 1 := by omega
      rw [hnone, Nat.div_eq_of_lt (a := step - 1) (by omega)]
      exact Nat.div_eq_of_lt_le (by omega) (by omega)
    · rw [← Nat.add_div_right _ hstep]
      congr 1
      omega
  rw [scanned, hlen, List.range'_succ]
  rfl

theorem nodup_scanned (hstep : 0 < step) : (scanned bound step va).Nodup :=
  List.nodup_range' step hstep

theorem mem_scanned (hstep : 0 < step) :
    a ∈ scanned bound step va ↔ a < bound ∧ ∃ i, a = va + step * i := by
  rw [scanned, List.mem_range']
  constructor
  · rintro ⟨i, hi, rfl⟩
    refine ⟨?_, i, rfl⟩
    have hmul := (Nat.lt_div_iff_mul_lt hstep).1 hi
    rw [Nat.mul_comm] at hmul
    omega
  · rintro ⟨hlt, i, rfl⟩
    refine ⟨i, (Nat.lt_div_iff_mul_lt hstep).2 ?_, rfl⟩
    rw [Nat.mul_comm]
    omega

/-- A loop with room for one more step ends. -/
theorem countMissing_eq (unset : Nat → Bool) (hstep : 0 < step)
    (hroom : bound + step ≤ 4294967296) :
    ∀ (trips va count : Nat), bound ≤ va + step * trips →
      (∀ a ∈ scanned bound step va, missing a = some (unset a)) →
      countMissing missing bound step trips va count =
        some (some (count + ((scanned bound step va).filter unset).length))
  | 0, va, count, hend, _ => by
    rw [countMissing, if_neg (by omega), scanned_of_le hstep (by omega)]
    rfl
  | trips + 1, va, count, hend, hall => by
    rw [countMissing]
    split
    · next hlt =>
      have hnext : u32 (va + step) = va + step := Nat.mod_eq_of_lt (by omega)
      rw [scanned_of_lt hstep hlt] at hall ⊢
      obtain ⟨hva, hrest⟩ := List.forall_mem_cons.1 hall
      rw [Nat.mul_succ] at hend
      simp only [hva, hnext]
      rw [countMissing_eq unset hstep hroom trips (va + step) _ (by omega) hrest, List.filter_cons]
      split
      · rw [List.length_cons, Nat.add_right_comm, Nat.add_assoc]
      · rfl
    · next hge =>
      rw [scanned_of_le hstep (by omega)]
      rfl

/-- It ends with the panic of a lookup, if there is one. -/
theorem countMissing_panics (hstep : 0 < step) (hroom : bound + step ≤ 4294967296) :
    ∀ (trips va count : Nat), bound ≤ va + step * trips →
      (∃ a ∈ scanned bound step va, missing a = none) →
      countMissing missing bound step trips va count = some none
  | 0, va, count, hend, hex => by
    rw [scanned_of_le hstep (by omega)] at hex
    obtain ⟨a, ha, -⟩ := hex
    cases ha
  | trips + 1, va, count, hend, hex => by
    rw [countMissing]
    split
    · next hlt =>
      have hnext : u32 (va + step) = va + step := Nat.mod_eq_of_lt (by omega)
      rw [scanned_of_lt hstep hlt, List.exists_mem_cons_iff] at hex
      rw [Nat.mul_succ] at hend
      cases hva : missing va with
      | none => rfl
      | some b =>
        have hrest := hex.resolve_left (by simp [hva])
        dsimp only
        rw [hnext]
        exact countMissing_panics hstep hroom trips (va + step) _ (by omega) hrest
    · next hge =>
      rw [scanned_of_le hstep (by omega)] at hex
      obtain ⟨a, ha, -⟩ := hex
      cases ha

/-- Without that room the address wraps before it gets to the bound. -/
theorem countMissing_eq_none (hdvd : step ∣ 4294967296) (hroom : 4294967296 < bound + step) :
    ∀ (trips va count : Nat), va < 4294967296 → step ∣ va →
      countMissing (fun a => some (unset a)) bound step trips va count = none := by
  have hbelow : ∀ {va}, va < 4294967296 → step ∣ va → va < bound := fun {va} hlt hva => by
    have hle := Nat.le_of_dvd (by omega) ((Nat.dvd_sub_iff_left (by omega) hva).2 hdvd)
    omega
  intro trips
  induction trips with
  | zero => exact fun va count hlt hva => if_pos (hbelow hlt hva)
  | succ trips ih =>
    intro va count hlt hva
    rw [countMissing, if_pos (hbelow hlt hva)]
    exact ih _ _ (Nat.mod_lt _ (by omega)) ((Nat.dvd_mod_iff hdvd).2 (Nat.dvd_add hva dvd_rfl))

/-- When a loop ends whose lookups do not panic. -/
theorem isSome_countMissing_iff (hstep : 0 < step) (hdvd : step ∣ 4294967296) {trips : Nat}
    (htrips : 4294967296 ≤ step * trips) (hva : va < 4294967296) (halign : step ∣ va) :
    (countMissing (fun a => some (unset a)) bound step trips va 0).isSome ↔
      bound + step ≤ 4294967296 := by
  constructor
  · intro hsome
    by_contra hroom
    rw [countMissing_eq_none hdvd (by omega) trips va 0 hva halign] at hsome
    cases hsome
  · intro hroom
    rw [countMissing_eq unset hstep hroom trips va 0 (by omega) fun _ _ => rfl]
    rfl

/-- A loop with room ends, with a panic or without. -/
theorem isSome_countMissing (hstep : 0 < step) (hroom : bound + step ≤ 4294967296) {trips : Nat}
    (htrips : bound ≤ va + step * trips) : (countMissing missing bound step trips va 0).isSome := by
  by_cases hex : ∃ a ∈ scanned bound step va, missing a = none
  · rw [countMissing_panics hstep hroom trips va 0 htrips hex]
    rfl
  · rw [countMissing_eq (fun a => missing a = some true) hstep hroom trips va 0 htrips]
    · rfl
    · intro a ha
      obtain ⟨b, hb⟩ := Option.ne_none_iff_exists'.1 fun hnone => hex ⟨a, ha, hnone⟩
      cases b <;> simp [hb]

end loops

namespace UserMemory

open KernelHeap (HeldFrame)

variable {P : Type} {L : UserLayout} {s s' s'' : UserMemory P} {env f va : Nat}
  {perm : BitVec 32} {t : PageTable}

/-- The first loop of `calculate_required_frames` : the page tables that are missing. -/
def requiredTables (s : UserMemory P) (env start size trips : Nat) : Option (Option Nat) :=
  countMissing (fun va => some (s.getPageTable env va).isNone) (u32 (start + size)) tableSpan trips
    (roundDown start tableSpan) 0

/-- The second : the pages without a frame. -/
def requiredPages (L : UserLayout) (s : UserMemory P) (env start size trips : Nat) :
    Option (Option Nat) :=
  countMissing (fun va => (s.getFrameInfo L env va).map Option.isNone) (u32 (start + size))
    pageSize trips (roundDown start pageSize) 0

/-- `calculate_required_frames(directory, start, size)`. Without a value one of the loops is
still running after its `trips`; the inner `none` is a panic. -/
def calculateRequiredFrames (L : UserLayout) (s : UserMemory P) (env start size trips : Nat) :
    Option (Option Nat) := do
  let tables ← s.requiredTables env start size trips
  let pages ← s.requiredPages L env start size trips
  some (Option.map₂ (· + ·) tables pages)

/-! ## When the loops end -/

/-- The end of a range is at most the address of the last page table. -/
def EndsBelow (start size : Nat) : Prop :=
  u32 (start + size) + tableSpan ≤ 4294967296

instance (start size : Nat) : Decidable (EndsBelow start size) :=
  inferInstanceAs (Decidable (_ ≤ _))

theorem roundDown_le (a n : Nat) : roundDown a n ≤ a :=
  Nat.sub_le a _

theorem isSome_requiredTables_iff {start size trips : Nat} (hstart : start < 4294967296)
    (htrips : 1024 ≤ trips) :
    (s.requiredTables env start size trips).isSome ↔ EndsBelow start size :=
  isSome_countMissing_iff (by decide) (by decide) (by unfold tableSpan pageSize; omega)
    (Nat.lt_of_le_of_lt (roundDown_le _ _) hstart) (Nat.dvd_of_mod_eq_zero (roundDown_mod _ _))

theorem isSome_requiredPages {start size trips : Nat} (h : EndsBelow start size)
    (htrips : 1048576 ≤ trips) : (s.requiredPages L env start size trips).isSome := by
  have hbound : u32 (start + size) < 4294967296 := Nat.mod_lt _ (by omega)
  refine isSome_countMissing (by decide) (Nat.le_trans ?_ h) ?_
  · exact Nat.add_le_add_left (by decide) _
  · unfold pageSize
    omega

/-- A frame is allocated and mapped for each of the pages `vas`. -/
def mapPages (L : UserLayout) (env : Nat) (perm : BitVec 32) :
    List Nat → UserMemory P → Option (UserMemory P)
  | [], s => some s
  | va :: vas, s => do
    let (f, m) ← s.heap.memory.allocateFrame
    let s ← (s.setMemory m).mapFrame L env f va perm
    mapPages L env perm vas s

/-- The number of free frames. -/
def freeFrames (s : UserMemory P) : Nat :=
  s.heap.memory.freeFrameList.length

/-- There is no page table `i`. -/
def NoTable (s : UserMemory P) (env i : Nat) : Prop :=
  (s.heap.memory.directories env i).isNone

instance (env : Nat) : DecidablePred (s.NoTable env) :=
  fun _ => inferInstanceAs (Decidable (_ = true))

theorem noTable_iff : s.NoTable env (pdx va) ↔ s.getPageTable env va = none :=
  Option.isNone_iff_eq_none

/-- Writing an entry makes no page table. -/
theorem noTable_setEntry {m : Memory} {e : Entry} (ht : s.getPageTable env va = some t)
    (hm : m.directories = s.heap.memory.directories) (i : Nat) :
    (s.setMemory (m.setEntry env va t e)).NoTable env i ↔ s.NoTable env i := by
  unfold NoTable setMemory Memory.setEntry
  dsimp only
  rw [Function.update_self, Function.update_apply, hm]
  split
  · next hi =>
    rw [hi, ← getPageTable, ht]
    rfl
  · rfl

/-- One page is mapped that was not : a frame for it, and one for its page table if that is
missing. -/
structure NewPage (L : UserLayout) (env va : Nat) (s s' : UserMemory P) : Prop where
  heap : KernelHeap.Invariant L.toKernelHeapLayout s'.heap
  entry : ∀ va', va' / pageSize ≠ va / pageSize → s'.userEntry env va' = s.userEntry env va'
  noTable : ∀ i, s'.NoTable env i ↔ i ≠ pdx va ∧ s.NoTable env i
  free : s.freeFrames = s'.freeFrames + 1 + if s.NoTable env (pdx va) then 1 else 0

/-- The page table that `map_frame` writes to takes a frame if it is missing. -/
theorem FindsPageTable.frames (h : KernelHeap.Invariant L.toKernelHeapLayout s.heap)
    (hfinds : FindsPageTable L s env va t s') :
    KernelHeap.Invariant L.toKernelHeapLayout s'.heap ∧
      (∀ {f k}, HeldFrame L.toKernelHeapLayout s.heap f k →
        HeldFrame L.toKernelHeapLayout s'.heap f k) ∧
      (∀ i, s'.NoTable env i ↔ i ≠ pdx va ∧ s.NoTable env i) ∧
      s.freeFrames = s'.freeFrames + if s.NoTable env (pdx va) then 1 else 0 := by
  cases hfinds with
  | found ht =>
    have hthere : ¬s.NoTable env (pdx va) := noTable_iff.not.2 (by simp [ht])
    refine ⟨h, fun hf => hf, fun i => ⟨fun hi => ⟨fun heq => hthere (heq ▸ hi), hi⟩, And.right⟩, ?_⟩
    rw [if_neg hthere, Nat.add_zero]
  | made hnone hmalloc hne =>
    obtain ⟨hdir, ⟨g, hlist, -⟩, -⟩ := KernelHeap.kmalloc_pageSize h hmalloc hne
    have hmissing : s.NoTable env (pdx va) := noTable_iff.2 hnone
    refine ⟨invariant_directories (KernelHeap.kmalloc_spec h hmalloc).1 _,
      fun hf => heldFrame_directories (hf.kmalloc h hmalloc) _, fun i => ?_, ?_⟩
    · unfold NoTable withPageTable
      dsimp only
      rw [Function.update_self, Function.update_apply, hdir]
      by_cases hi : i = pdx va <;> simp [hi]
    · rw [if_pos hmissing, freeFrames, hlist]
      rfl

/-- Allocating a frame for a page and mapping it. -/
theorem newPage_mapFrame {m : Memory} (h : KernelHeap.Invariant L.toKernelHeapLayout s.heap)
    (hzero : s.userEntry env va = 0#32) (ha : s.heap.memory.allocateFrame = some (f, m))
    (hmap : (s.setMemory m).mapFrame L env f va perm = some s') : NewPage L env va s s' := by
  obtain ⟨rest, hl, rfl⟩ := (Memory.allocateFrame_of_framesOk h.frames).1 ha
  obtain ⟨hheap, hf⟩ := h.taken hl
  obtain ⟨t, s₁, e, m, htable, hentry, rfl⟩ := mapFrame_eq_some hmap
  obtain ⟨hheap₁, hheld, hnone, hfree⟩ := htable.frames hheap
  obtain ⟨ht, hsame, -⟩ := htable.made_spec hheap
  have hentry₁ : t.entries (ptx va) = 0#32 :=
    (userEntry_of_some ht).symm.trans ((hsame env va).trans hzero)
  rw [hentry₁, Memory.mapEntry_zero] at hentry
  obtain ⟨rfl, rfl⟩ := Prod.mk.inj (Option.some.inj hentry)
  refine ⟨invariant_directories (hheap₁.setReferences (hheld hf) _) _, fun va' hne => ?_,
    fun i => (noTable_setEntry ht rfl i).trans (hnone i), ?_⟩
  · rw [userEntry_setEntry ht (Memory.setReferences_directories f _),
      if_neg fun hat => hne hat.2, hsame]
    rfl
  · have hlen : s.freeFrames = (s.setMemory (s.heap.memory.taken f rest)).freeFrames + 1 := by
      rw [freeFrames, hl]
      rfl
    rw [hlen, hfree, Nat.add_right_comm]
    rfl

/-- The page tables that the pages `vas` miss. -/
def missingTables (s : UserMemory P) (env : Nat) (vas : List Nat) : Finset Nat :=
  (vas.map pdx).toFinset.filter (s.NoTable env)

/-- The first page takes the page table that it misses from those that the others miss. -/
theorem NewPage.card_missingTables {vas : List Nat} (h : NewPage L env va s s') :
    (s.missingTables env (va :: vas)).card =
      (s'.missingTables env vas).card + if s.NoTable env (pdx va) then 1 else 0 := by
  have hrest : s'.missingTables env vas = (s.missingTables env vas).erase (pdx va) := by
    ext i
    simp only [missingTables, Finset.mem_filter, Finset.mem_erase, h.noTable]
    tauto
  have hcons : s.missingTables env (va :: vas) =
      if s.NoTable env (pdx va) then insert (pdx va) (s.missingTables env vas)
      else s.missingTables env vas := by
    rw [missingTables, List.map_cons, List.toFinset_cons, Finset.filter_insert]
    rfl
  rw [hrest, hcons]
  split
  · have hinsert : insert (pdx va) (s.missingTables env vas) =
        insert (pdx va) ((s.missingTables env vas).erase (pdx va)) := by grind
    rw [hinsert, Finset.card_insert_of_notMem (Finset.notMem_erase _ _)]
  · next hthere =>
    have hnot : pdx va ∉ s.missingTables env vas := fun hmem => hthere (Finset.mem_filter.1 hmem).2
    rw [Finset.erase_eq_of_notMem hnot, Nat.add_zero]

/-- Mapping pages that are not mapped takes a frame for each, and one for each page table
that they miss. -/
theorem freeFrames_mapPages :
    ∀ (vas : List Nat) {s s' : UserMemory P}, KernelHeap.Invariant L.toKernelHeapLayout s.heap →
      (∀ va ∈ vas, s.userEntry env va = 0#32) → (vas.map (· / pageSize)).Nodup →
      mapPages L env perm vas s = some s' →
      s.freeFrames = s'.freeFrames + (vas.length + (s.missingTables env vas).card)
  | [], s, s', _, _, _, hmap => by
    obtain rfl := Option.some.inj hmap
    rfl
  | va :: vas, s, s', h, hzero, hnodup, hmap => by
    obtain ⟨⟨f, m⟩, ha, hmap⟩ := Option.bind_eq_some_iff.1 hmap
    obtain ⟨s₁, hplace, hmap⟩ := Option.bind_eq_some_iff.1 hmap
    obtain ⟨hva, hrest⟩ := List.forall_mem_cons.1 hzero
    rw [List.map_cons, List.nodup_cons] at hnodup
    have hnew := newPage_mapFrame h hva ha hplace
    have hother : ∀ a ∈ vas, a / pageSize ≠ va / pageSize := fun a ha heq =>
      hnodup.1 (heq ▸ List.mem_map_of_mem ha)
    have hrun := freeFrames_mapPages vas hnew.heap
      (fun a ha => (hnew.entry a (hother a ha)).trans (hrest a ha)) hnodup.2 hmap
    rw [hnew.free, hrun, hnew.card_missingTables, List.length_cons]
    omega

/-! ## The number that the call returns -/

/-- The page `va` overlaps the `size` bytes from `start` on. -/
def Overlaps (start size va : Nat) : Prop :=
  va % pageSize = 0 ∧ va < start + size ∧ start < va + pageSize

variable {start size trips : Nat} {vas : List Nat}

theorem mem_scanned_pages {va : Nat} :
    va ∈ scanned (start + size) pageSize (roundDown start pageSize) ↔ Overlaps start size va := by
  rw [mem_scanned (by decide)]
  unfold Overlaps roundDown pageSize
  constructor
  · rintro ⟨hlt, i, rfl⟩
    omega
  · rintro ⟨halign, hlt, hstart⟩
    exact ⟨hlt, (va - (start - start % 4096)) / 4096, by omega⟩

/-- The page tables that the first loop looks at are those of the pages. -/
theorem exists_scanned_tables (hsize : 0 < size) {i : Nat} :
    (∃ a ∈ scanned (start + size) tableSpan (roundDown start tableSpan), pdx a = i) ↔
      ∃ va, Overlaps start size va ∧ pdx va = i := by
  unfold Overlaps pdx pageSize
  constructor
  · rintro ⟨a, ha, rfl⟩
    obtain ⟨hlt, j, rfl⟩ := (mem_scanned (by decide)).1 ha
    unfold roundDown tableSpan pageSize at hlt ⊢
    -- the first page of the table, or of the range
    by_cases hj : j = 0
    · exact ⟨start - start % 4096, by omega⟩
    · exact ⟨start - start % (4096 * 1024) + 4096 * 1024 * j, by omega⟩
  · rintro ⟨va, ⟨halign, hlt, hstart⟩, rfl⟩
    refine ⟨va / 4194304 * 4194304, (mem_scanned (by decide)).2 ⟨by omega,
      (va / 4194304 - start / 4194304), ?_⟩, by omega⟩
    unfold roundDown tableSpan pageSize
    omega

theorem getFrameInfo_eq_none_iff {va : Nat} :
    s.getFrameInfo L env va = some none ↔ s.userEntry env va = 0#32 := by
  unfold getFrameInfo
  dsimp only
  split_ifs with h0 hlt <;> simp [h0]

/-- The first loop counts the page tables that the unmapped pages miss. -/
theorem length_scanned_tables (hsize : 0 < size)
    (hvas : ∀ va, va ∈ vas ↔ Overlaps start size va ∧ s.getFrameInfo L env va = some none) :
    ((scanned (start + size) tableSpan (roundDown start tableSpan)).filter
      fun va => (s.getPageTable env va).isNone).length = (s.missingTables env vas).card := by
  have hnodup : (((scanned (start + size) tableSpan (roundDown start tableSpan)).filter
      fun va => (s.getPageTable env va).isNone).map pdx).Nodup := by
    refine ((nodup_scanned (by decide)).filter _).map_on fun a ha b hb heq => ?_
    obtain ⟨-, i, rfl⟩ := (mem_scanned (by decide)).1 (List.mem_filter.1 ha).1
    obtain ⟨-, j, rfl⟩ := (mem_scanned (by decide)).1 (List.mem_filter.1 hb).1
    unfold pdx tableSpan pageSize roundDown at *
    omega
  have heq : (((scanned (start + size) tableSpan (roundDown start tableSpan)).filter
      fun va => (s.getPageTable env va).isNone).map pdx).toFinset = s.missingTables env vas := by
    ext i
    simp only [List.mem_toFinset, List.mem_map, List.mem_filter, missingTables, Finset.mem_filter]
    constructor
    · rintro ⟨a, ⟨ha, hnone⟩, rfl⟩
      have hmissing : s.NoTable env (pdx a) := hnone
      obtain ⟨va, hva, hpdx⟩ := (exists_scanned_tables hsize).1 ⟨a, ha, rfl⟩
      refine ⟨⟨va, (hvas va).2 ⟨hva, getFrameInfo_eq_none_iff.2 ?_⟩, hpdx⟩, hmissing⟩
      exact userEntry_of_none (noTable_iff.1 (hpdx.symm ▸ hmissing))
    · rintro ⟨⟨va, hva, rfl⟩, hmissing⟩
      obtain ⟨a, ha, hpdx⟩ := (exists_scanned_tables hsize).2 ⟨va, ((hvas va).1 hva).1, rfl⟩
      refine ⟨a, ⟨ha, ?_⟩, hpdx⟩
      rw [← hpdx] at hmissing
      exact hmissing
  rw [← heq, List.toFinset_card_of_nodup hnodup, List.length_map]

/-- The second loop counts the unmapped pages. -/
theorem length_scanned_pages (hnodup : vas.Nodup)
    (hvas : ∀ va, va ∈ vas ↔ Overlaps start size va ∧ s.getFrameInfo L env va = some none) :
    ((scanned (start + size) pageSize (roundDown start pageSize)).filter
      fun va => s.userEntry env va = 0#32).length = vas.length := by
  refine List.Perm.length_eq ((List.perm_ext_iff_of_nodup
    ((nodup_scanned (by decide)).filter _) hnodup).2 fun va => ?_)
  rw [List.mem_filter, mem_scanned_pages, hvas, getFrameInfo_eq_none_iff, decide_eq_true_eq]

/-- The pages of a range have different numbers. -/
theorem nodup_pages (hnodup : vas.Nodup)
    (hvas : ∀ va, va ∈ vas ↔ Overlaps start size va ∧ s.getFrameInfo L env va = some none) :
    (vas.map (· / pageSize)).Nodup := by
  refine hnodup.map_on fun a ha b hb heq => ?_
  have haligna := ((hvas a).1 ha).1.1
  have halignb := ((hvas b).1 hb).1.1
  unfold pageSize at *
  omega

/-- What the call returns is what mapping the unmapped pages of the range takes from the free
frames, in whatever order; it panics where an entry of the range names no frame. -/
theorem calculateRequiredFrames_eq (h : KernelHeap.Invariant L.toKernelHeapLayout s.heap)
    (htop : L.userTop ≤ 0xFFC00000) (hsize : 0 < size) (hend : start + size ≤ L.userTop)
    (htrips : 1048576 ≤ trips) (hnodup : vas.Nodup)
    (hvas : ∀ va, va ∈ vas ↔ Overlaps start size va ∧ s.getFrameInfo L env va = some none)
    (hmap : mapPages L env perm vas s = some s') :
    ∃ o, s.calculateRequiredFrames L env start size trips = some o ∧
      (o = none ↔ ∃ va, Overlaps start size va ∧ s.getFrameInfo L env va = none) ∧
      ∀ r, o = some r → s.freeFrames = s'.freeFrames + r := by
  have hbound : u32 (start + size) = start + size := Nat.mod_eq_of_lt (by omega)
  have htables : s.requiredTables env start size trips =
      some (some (s.missingTables env vas).card) := by
    rw [requiredTables, hbound, countMissing_eq _ (by decide)
      (by unfold tableSpan pageSize; omega) trips _ 0 (by unfold tableSpan pageSize; omega)
      fun _ _ => rfl, length_scanned_tables hsize hvas, Nat.zero_add]
  by_cases hpanic : ∃ va, Overlaps start size va ∧ s.getFrameInfo L env va = none
  · have hpages : s.requiredPages L env start size trips = some none := by
      rw [requiredPages, hbound]
      refine countMissing_panics (by decide) (by unfold pageSize; omega) trips _ 0
        (by unfold pageSize; omega) ?_
      obtain ⟨va, hva, hnone⟩ := hpanic
      exact ⟨va, mem_scanned_pages.2 hva, by rw [hnone]; rfl⟩
    refine ⟨none, ?_, iff_of_true rfl hpanic, fun r hr => by cases hr⟩
    simp [calculateRequiredFrames, htables, hpages]
  · have hpages : s.requiredPages L env start size trips = some (some vas.length) := by
      rw [requiredPages, hbound, countMissing_eq (fun va => s.userEntry env va = 0#32) (by decide)
        (by unfold pageSize; omega) trips _ 0 (by unfold pageSize; omega),
        length_scanned_pages hnodup hvas, Nat.zero_add]
      intro va hva
      have hinfo : s.getFrameInfo L env va ≠ none := fun hnone =>
        hpanic ⟨va, mem_scanned_pages.1 hva, hnone⟩
      obtain ⟨info, hinfo⟩ := Option.ne_none_iff_exists'.1 hinfo
      rw [hinfo, Option.map_some]
      congr 1
      rw [Bool.eq_iff_iff, decide_eq_true_eq, ← getFrameInfo_eq_none_iff (L := L), hinfo]
      cases info <;> simp
    refine ⟨some ((s.missingTables env vas).card + vas.length), ?_, iff_of_false (by simp) hpanic,
      fun r hr => ?_⟩
    · simp [calculateRequiredFrames, htables, hpages]
    · obtain rfl := Option.some.inj hr
      rw [freeFrames_mapPages vas h (fun va hva =>
        getFrameInfo_eq_none_iff.1 ((hvas va).1 hva).2) (nodup_pages hnodup hvas) hmap]
      omega

/-- Two bytes, the last of a page table that is there and the first of one that is missing :
a frame for the page, and one for its page table. -/
theorem acrossTables_required :
    ∃ s', mapPages smallMapLayout 0 6#32 [0xC00000] (withEntry 0x1007#32) = some s' ∧
      ∃ o, (withEntry 0x1007#32).calculateRequiredFrames smallMapLayout 0 0xBFFFFF 2 1048576 =
          some o ∧
        (o = none ↔ ∃ va, Overlaps 0xBFFFFF 2 va ∧
          (withEntry 0x1007#32).getFrameInfo smallMapLayout 0 va = none) ∧
        ∀ r, o = some r → (withEntry 0x1007#32).freeFrames = s'.freeFrames + r := by
  have hsome : (mapPages smallMapLayout 0 6#32 [0xC00000] (withEntry 0x1007#32)).isSome = true := by
    decide
  obtain ⟨s', hs'⟩ := Option.isSome_iff_exists.1 hsome
  have hmapped : (withEntry 0x1007#32).getFrameInfo smallMapLayout 0 0xBFF000 = some (some 1) := rfl
  have hunmapped : (withEntry 0x1007#32).getFrameInfo smallMapLayout 0 0xC00000 = some none := rfl
  refine ⟨s', hs', calculateRequiredFrames_eq (withEntry_invariant _) (by decide) (by decide)
    (by decide) le_rfl (List.nodup_singleton _) (fun va => ?_) hs'⟩
  rw [List.mem_singleton]
  constructor
  · rintro rfl
    exact ⟨by unfold Overlaps pageSize; omega, hunmapped⟩
  · rintro ⟨⟨halign, hlt, hstart⟩, hnone⟩
    unfold pageSize at halign hstart
    have hva : va = 0xBFF000 ∨ va = 0xC00000 := by omega
    refine hva.resolve_left fun heq => ?_
    rw [heq, hmapped] at hnone
    cases hnone

end UserMemory

end FosKernel
