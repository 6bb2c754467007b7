import FosKernel.BootMapRange
import FosKernel.SysAllocatePage

/-!
# Address spaces

The page directories of `kern/memory_manager.c` and their page tables are in the frames that the
user pages are in too. A user program stores through its own tables, at any address
(`storeUser`), and the kernel calls `map_frame` and the others on any directory in between.

`Spaces` is what keeps the address spaces apart : next to the reference counts, no frame is both
a page table and a user page, and no page that a user can write to is one of the kernel part.
A call for one directory writes the user half of that directory, its page tables, and frames that
were free (`Footprint`). So the kernel part of every address space stays, and a store gets to no
page table, no directory and nothing that is reserved (`run_protected`); and an address space
that nobody makes a call for reads the same (`run_undisturbed`).
-/

set_option linter.unusedSectionVars false

namespace FosKernel

namespace KernMemory

/-! ## The processor in user mode -/

/-- The entry lets a user read. -/
def AllowsUser (e : Entry) : Prop :=
  IsPresent e ∧ e &&& permUser = permUser

instance (e : Entry) : Decidable (AllowsUser e) :=
  inferInstanceAs (Decidable (_ ∧ _))

/-- The entry lets a user write. -/
def AllowsWrite (e : Entry) : Prop :=
  AllowsUser e ∧ e &&& permWriteable = permWriteable

instance (e : Entry) : Decidable (AllowsWrite e) :=
  inferInstanceAs (Decidable (_ ∧ _))

/-- The page-table entry that the processor gets to for `va`. -/
def pteOf (w : Words) (d va : Nat) : Entry :=
  w (frameNumber (w d (pdx va))) (ptx va)

/-- The word that a user reads at `va`, `none` for a page fault. -/
def loadUser (w : Words) (d va : Nat) : Option Entry :=
  if AllowsUser (w d (pdx va)) ∧ AllowsUser (pteOf w d va) then
    some (w (frameNumber (pteOf w d va)) (va % pageSize / 4))
  else none

/-- The frame that a user can write to at `va`. -/
def storeFrame (w : Words) (d va : Nat) : Option Nat :=
  if AllowsWrite (w d (pdx va)) ∧ AllowsWrite (pteOf w d va) then
    some (frameNumber (pteOf w d va))
  else none

/-- A user stores a word at `va`. A page fault changes nothing. -/
def storeUser (m : KernMemory) (d va : Nat) (value : Entry) : KernMemory :=
  match storeFrame m.words d va with
  | some f => m.setWord f (va % pageSize / 4) value
  | none => m

/-! ## The invariant -/

/-- A user page table maps the frame. -/
def Maps (tables : Nat) (w : Words) (d f : Nat) : Prop :=
  ∃ i < tables, ∃ j < 1024, mappedAt w d i j = some f

/-- What keeps the address spaces apart. A directory is its own page table in a window, and there
a user does not write. -/
structure Spaces (n : Nat) (dirs : Finset Nat) (tables : Nat) (reserved : Nat → Prop)
    (m : KernMemory) : Prop extends Inv n dirs tables reserved m where
  separate : ∀ d ∈ dirs, ∀ f, Maps tables m.words d f → tableUses dirs tables m.words f = 0
  kernel : ∀ d ∈ dirs, ∀ i, tables ≤ i → i < 1024 → IsPresent (m.words d i) →
    reserved (frameNumber (m.words d i)) ∧
      (frameNumber (m.words d i) ∈ dirs → frameNumber (m.words d i) = d) ∧
      (AllowsWrite (m.words d i) → frameNumber (m.words d i) ∉ dirs ∧
        ∀ j < 1024, ¬AllowsWrite (m.words (frameNumber (m.words d i)) j))

/-- New page tables are made out of free frames, and `new` is the one frame that is mapped. -/
structure Grows (dirs : Finset Nat) (tables : Nat) (new : Option Nat) (m m' : KernMemory) :
    Prop where
  table : ∀ d ∈ dirs, ∀ i < tables, ∀ t, tableOf m'.words d i = some t →
    tableOf m.words d i = some t ∨ t ∈ m.freeFrameList
  mapped : ∀ d ∈ dirs, ∀ i < tables, ∀ j < 1024, ∀ f, mappedAt m'.words d i j = some f →
    mappedAt m.words d i j = some f ∨ new = some f

/-- The words that a call for directory `d` may write. -/
def Own (tables : Nat) (m : KernMemory) (d g i : Nat) : Prop :=
  (g = d ∧ i < tables) ∨ g ∈ m.freeFrameList ∨ ∃ k < tables, tableOf m.words d k = some g

/-- What a call for directory `d` may change. -/
structure Footprint (dirs : Finset Nat) (tables d : Nat) (new : Option Nat) (m m' : KernMemory) :
    Prop extends Grows dirs tables new m m' where
  words : ∀ g i, m'.words g i ≠ m.words g i → Own tables m d g i

variable {n tables d d' f va : Nat} {dirs : Finset Nat} {reserved : Nat → Prop}
  {m m' : KernMemory} {perm : BitVec 32} {new : Option Nat} {status : Status} {rest : List Nat}

theorem Footprint.refl (h : m'.words = m.words) : Footprint dirs tables d new m m' :=
  ⟨⟨fun _ _ _ _ _ ht => Or.inl (h ▸ ht), fun _ _ _ _ _ _ _ hf => Or.inl (h ▸ hf)⟩,
    fun g i hne => absurd (congrFun (congrFun h g) i) hne⟩

theorem exists_table_of_mappedAt {w : Words} {i j : Nat} (h : mappedAt w d i j = some f) :
    ∃ t, tableOf w d i = some t ∧ mappedBy (w t j) = some f := by
  cases ht : tableOf w d i with
  | none =>
    rw [mappedAt_of_none ht] at h
    cases h
  | some t => exact ⟨t, rfl, by rwa [mappedAt, entryAt_of_some ht] at h⟩

/-! ## The calls -/

theorem mem_of_madeTable {t : Nat} (h : m.madeTable d va = some t) : t ∈ m.freeFrameList := by
  unfold madeTable at h
  split at h
  · cases h
  · exact List.mem_of_mem_head? h

/-- Whatever `map_frame` does to the entry, it maps the frame after. -/
theorem mappedBy_of_mapEffect {made : Option Nat} {e e' : Entry} {refs refs' : Nat → Int}
    {free' : List Nat} (h : MapEffect n f perm made e e' refs refs' free') (hf : f < 1048576)
    (hp : IsPerm perm) : mappedBy e' = some f := by
  have hperm : IsPerm (perm ||| permPresent) := hp.or (by decide)
  have hnew : mappedBy (constructEntry (toPhysicalAddress f) (perm ||| permPresent)) = some f := by
    rw [mappedBy, if_pos (isPresent_constructEntry _ _), frameNumber_constructEntry hf hperm]
  cases h with
  | same hpresent hframe he => rw [he, mappedBy, if_pos hpresent, hframe]
  | replaced _ _ _ he => rw [he, hnew]
  | inserted _ he => rw [he, hnew]

section Mapped

variable (hdirs : ∀ d ∈ dirs, reserved d) (h : Inv n dirs tables reserved m)
  (hinv : Inv n dirs tables reserved m') (hd : d ∈ dirs) (hi : pdx va < tables)
  (hwords : ∀ g i, ¬(tableOf m'.words d (pdx va) = some g ∧ i = ptx va) →
    (∀ t, m.madeTable d va = some t → g ≠ t ∧ ¬(g = d ∧ i = pdx va)) → m'.words g i = m.words g i)
  (hmade : ∀ t, m.madeTable d va = some t → tableOf m'.words d (pdx va) = some t ∧
    ∀ i, i ≠ ptx va → m'.words t i = 0#32)

include hdirs h hinv hd hi hwords hmade

/-- The page tables are those before, and the one that is made. -/
theorem tableOf_mapFrame (hd' : d' ∈ dirs) {i t : Nat} (ht : tableOf m'.words d' i = some t) :
    tableOf m.words d' i = some t ∨ m.madeTable d va = some t ∧ d' = d ∧ i = pdx va := by
  by_cases hat : m.madeTable d va ≠ none ∧ d' = d ∧ i = pdx va
  · obtain ⟨hne, rfl, rfl⟩ := hat
    obtain ⟨t', ht'⟩ := Option.ne_none_iff_exists'.1 hne
    exact Or.inr ⟨ht'.trans ((hmade t' ht').1.symm.trans ht), rfl, rfl⟩
  · -- neither a page table nor a frame made into one is reserved
    have hword : m'.words d' i = m.words d' i := by
      refine hwords d' i (fun hat' => ?_) fun t' ht' =>
        ⟨fun heq => ?_, fun hat' => hat ⟨?_, hat'⟩⟩
      · exact (hinv.slots.table d hd _ hi d' hat'.1).2 (hdirs d' hd')
      · exact (h.free t' (mem_of_madeTable ht')).2.1 (heq ▸ hdirs d' hd')
      · rw [ht']
        exact Option.some_ne_none t'
    exact Or.inl (by rwa [tableOf, hword] at ht)

/-- A page of another entry was there before. -/
theorem mappedAt_mapFrame (hd' : d' ∈ dirs) {i j : Nat} (hi' : i < tables)
    (hother : ¬(d' = d ∧ i = pdx va ∧ j = ptx va)) (hf : mappedAt m'.words d' i j = some f) :
    mappedAt m.words d' i j = some f := by
  obtain ⟨t, ht, hby⟩ := exists_table_of_mappedAt hf
  have hkept : tableOf m.words d' i = some t → m'.words t j = m.words t j →
      mappedAt m.words d' i j = some f := fun hold hsame => by
    rwa [mappedAt, entryAt_of_some hold, ← hsame]
  by_cases hcall : tableOf m'.words d (pdx va) = some t
  · obtain ⟨rfl, rfl⟩ := hinv.slots.apart d' hd' i hi' d hd _ hi t ht hcall
    have hj : j ≠ ptx va := fun hj => hother ⟨rfl, rfl, hj⟩
    cases hnone : m.madeTable d' va with
    | some t' =>
      -- a page table that is made has no other page
      obtain ⟨ht', hzero⟩ := hmade t' hnone
      obtain rfl := Option.some.inj (ht'.symm.trans hcall)
      rw [hzero j hj, mappedBy_zero] at hby
      cases hby
    | none =>
      refine hkept ?_ (hwords t j (fun hat => hj hat.2) fun t' ht' => ?_)
      · refine (tableOf_mapFrame hdirs h hinv hd hi hwords hmade hd' ht).resolve_right fun hc => ?_
        cases hnone.symm.trans hc.1
      · cases hnone.symm.trans ht'
  · refine hkept ?_ (hwords t j (fun hat => hcall hat.1) fun t' ht' =>
      ⟨fun heq => ?_, fun hat => ?_⟩)
    · exact (tableOf_mapFrame hdirs h hinv hd hi hwords hmade hd' ht).resolve_right fun hc =>
        hcall (hmade t hc.1).1
    · exact hcall (heq ▸ (hmade t' ht').1)
    · exact (hinv.slots.table d' hd' i hi' t ht).2 (hat.1 ▸ hdirs d hd)

end Mapped

section Calls

variable (hdirs : ∀ d ∈ dirs, reserved d) (hn : n ≤ 1048576) (hpos : 0 < n)

include hdirs

theorem Inv.directoryOk (h : Inv n dirs tables reserved m) (hd : d ∈ dirs) (hi : pdx va < tables) :
    DirectoryOk n d va m :=
  ⟨fun hmem => (h.free d hmem).2.1 (hdirs d hd), fun g hg => (h.free g hg).1, fun t ht => by
    obtain ⟨hlt, hres⟩ := h.slots.table d hd _ hi t ht
    exact ⟨hlt, fun heq => hres (heq ▸ hdirs d hd)⟩⟩

include hn hpos

/-- `map_frame` writes one entry, and makes at most one page table, out of a free frame. -/
theorem mapFrame_footprint (h : Inv n dirs tables reserved m) (hd : d ∈ dirs)
    (hi : pdx va < tables) (hp : IsPerm perm) (hf : Allocated n reserved m f)
    (hmap : m.mapFrame n d f va perm = some (status, m')) :
    Footprint dirs tables d (some f) m m' := by
  rcases mapFrame_spec hdirs hn hpos h hd hi hp hf with ⟨-, -, heq⟩ | ⟨-, m₁, heq, hinv⟩
  · obtain ⟨-, rfl⟩ := Prod.mk.inj (Option.some.inj (heq.symm.trans hmap))
    exact .refl rfl
  obtain ⟨rfl, rfl⟩ := Prod.mk.inj (Option.some.inj (heq.symm.trans hmap))
  obtain ⟨heffect, hwords, hmade⟩ :=
    mapFrame_effect hn (h.directoryOk hdirs hd hi) hf.lt hf.notFree hmap
  have htable : ∀ d' ∈ dirs, ∀ i t, tableOf m₁.words d' i = some t →
      tableOf m.words d' i = some t ∨ m.madeTable d va = some t ∧ d' = d ∧ i = pdx va :=
    fun d' hd' i t => tableOf_mapFrame hdirs h hinv hd hi hwords hmade hd'
  refine ⟨⟨fun d' hd' i _ t ht => ?_, fun d' hd' i hi' j _ g hg => ?_⟩, fun g i hne => ?_⟩
  · exact (htable d' hd' i t ht).imp_right fun hat => mem_of_madeTable hat.1
  · by_cases hat : d' = d ∧ i = pdx va ∧ j = ptx va
    · obtain ⟨rfl, rfl, rfl⟩ := hat
      exact Or.inr ((mappedBy_of_mapEffect heffect (Nat.lt_of_lt_of_le hf.lt hn) hp).symm.trans hg)
    · exact Or.inl (mappedAt_mapFrame hdirs h hinv hd hi hwords hmade hd' hi' hat hg)
  · by_cases hat : tableOf m₁.words d (pdx va) = some g ∧ i = ptx va
    · rcases htable d hd _ g hat.1 with ht | ⟨ht, -⟩
      · exact Or.inr (Or.inr ⟨_, hi, ht⟩)
      · exact Or.inr (Or.inl (mem_of_madeTable ht))
    · have hother : ¬∀ t, m.madeTable d va = some t → g ≠ t ∧ ¬(g = d ∧ i = pdx va) :=
        fun hother => hne (hwords g i hat hother)
      push Not at hother
      obtain ⟨t, ht, hor⟩ := hother
      by_cases hgt : g = t
      · exact Or.inr (Or.inl (hgt ▸ mem_of_madeTable ht))
      · obtain ⟨rfl, rfl⟩ := hor hgt
        exact Or.inl ⟨rfl, hi⟩

/-- `unmap_frame` clears one entry at most. -/
theorem unmapFrame_footprint (h : Inv n dirs tables reserved m) (hd : d ∈ dirs)
    (hi : pdx va < tables) (hun : m.unmapFrame n d va = some m') :
    Footprint dirs tables d none m m' := by
  cases ht : tableOf m.words d (pdx va) with
  | none =>
    have hget := getPageTable_false hdirs hn hpos h hd hi ht
    obtain rfl : m = m' := by simpa [unmapFrame, getFrameInfo, hget] using hun
    exact .refl rfl
  | some t =>
    by_cases h0 : m.words t (ptx va) = 0#32
    · have hget : m.getPageTable n d va false = some ((.ok, some t), m) :=
        getPageTable_of_some hdirs hn hpos h hd hi ht
      obtain rfl : m = m' := by simpa [unmapFrame, getFrameInfo, hget, h0] using hun
      exact .refl rfl
    · obtain ⟨-, heq⟩ := unmapFrame_of_mapped hdirs hn hpos h hd hi ht h0
      obtain rfl := Option.some.inj (heq.symm.trans hun)
      have hwords : ((m.decrementReferences (frameNumber (m.words t (ptx va)))).setWord t (ptx va)
          0#32).words = writeWord m.words t (ptx va) 0#32 := by
        rw [setWord, Inv.decrementReferences_words]
      refine ⟨⟨fun d' hd' i _ t' ht' => ?_, fun d' hd' i hi' j _ g hg => ?_⟩, fun g i hne => ?_⟩
      · rw [hwords, tableOf_writeEntry hdirs h.slots hd hi ht hd'] at ht'
        exact Or.inl ht'
      · rw [hwords, mappedAt, entryAt_writeEntry hdirs h.slots hd hi ht hd' hi'] at hg
        split at hg
        · cases hg
        · exact Or.inl hg
      · rw [hwords, writeWord_apply] at hne
        split at hne
        · next hat => exact Or.inr (Or.inr ⟨_, hi, hat.1 ▸ ht⟩)
        · exact absurd rfl hne

end Calls

/-! ## What the calls keep -/

section Kept

variable {reserved' : Nat → Prop} (hdirs : ∀ d ∈ dirs, reserved d)

include hdirs

omit hdirs in
/-- What is reserved is written for the user half of a directory only. -/
theorem Own.of_reserved {g i : Nat} (hown : Own tables m d g i)
    (h : Inv n dirs tables reserved m) (hd : d ∈ dirs) (hg : reserved g) : g = d ∧ i < tables := by
  rcases hown with hhalf | hfree | ⟨k, hk, ht⟩
  · exact hhalf
  · exact absurd hg (h.free g hfree).2.1
  · exact absurd hg (h.slots.table d hd k hk g ht).2

/-- Neither a page table nor a free frame is mapped, and what is reserved is written for the user
half of a directory only. -/
theorem Spaces.of_grows (h : Spaces n dirs tables reserved m)
    (hinv : Inv n dirs tables reserved' m') (hres : ∀ g, reserved g → reserved' g)
    (hgrows : Grows dirs tables new m m')
    (hnew : ∀ f, new = some f → f ∉ m.freeFrameList ∧ tableUses dirs tables m.words f = 0)
    (hkept : ∀ g i, reserved g → ¬(g ∈ dirs ∧ i < tables) → m'.words g i = m.words g i) :
    Spaces n dirs tables reserved' m' := by
  refine ⟨hinv, fun d hd f ⟨i, hi, j, hj, hf⟩ => ?_, fun d hd i hi hlt hpresent => ?_⟩
  · -- a page mapped is not free, and was no page table before
    have hold : f ∉ m.freeFrameList ∧ tableUses dirs tables m.words f = 0 := by
      rcases hgrows.mapped d hd i hi j hj f hf with hf | hf
      · exact ⟨(h.allocated_of_mapped hd hi hj hf).1.notFree,
          h.separate d hd f ⟨i, hi, j, hj, hf⟩⟩
      · exact hnew f hf
    refine RefCount.refs_eq_zero_iff.2 fun x hx ht => ?_
    obtain ⟨hd', hi'⟩ := mem_directorySlots.1 hx
    rcases hgrows.table _ hd' _ hi' f ht with ht | ht
    · exact RefCount.refs_eq_zero_iff.1 hold.2 x hx ht
    · exact hold.1 ht
  · have hword : m'.words d i = m.words d i := hkept d i (hdirs d hd) fun hat => by omega
    rw [hword] at hpresent ⊢
    obtain ⟨htable, hwindow, hwrite⟩ := h.kernel d hd i hi hlt hpresent
    refine ⟨hres _ htable, hwindow, fun hallow => ⟨(hwrite hallow).1, fun j hj => ?_⟩⟩
    rw [hkept _ j htable fun hat => (hwrite hallow).1 hat.1]
    exact (hwrite hallow).2 j hj

omit hdirs in
theorem Spaces.of_words (h : Spaces n dirs tables reserved m)
    (hinv : Inv n dirs tables reserved m') (hwords : m'.words = m.words) :
    Spaces n dirs tables reserved m' :=
  ⟨hinv, hwords ▸ h.separate, hwords ▸ h.kernel⟩

omit hdirs in
/-- A frame to be mapped is no page table. -/
theorem Spaces.tableUses_of_mappable (h : Spaces n dirs tables reserved m)
    (hf : Mappable n dirs tables reserved m f) : tableUses dirs tables m.words f = 0 := by
  rcases hf with hspare | hpages
  · exact hspare.notTable
  · obtain ⟨⟨⟨d, i⟩, j⟩, hx⟩ := Finset.card_pos.1 hpages
    obtain ⟨hslot, hat⟩ := Finset.mem_filter.1 hx
    obtain ⟨⟨hd, hi⟩, hj⟩ := mem_entrySlots.1 hslot
    exact h.separate d hd f ⟨i, hi, j, hj, hat⟩

theorem Spaces.of_footprint (h : Spaces n dirs tables reserved m)
    (hinv : Inv n dirs tables reserved' m') (hres : ∀ g, reserved g → reserved' g) (hd : d ∈ dirs)
    (hfoot : Footprint dirs tables d new m m')
    (hnew : ∀ f, new = some f → f ∉ m.freeFrameList ∧ tableUses dirs tables m.words f = 0) :
    Spaces n dirs tables reserved' m' :=
  h.of_grows hdirs hinv hres hfoot.toGrows hnew fun g i hg hnot => by
    by_contra hne
    obtain ⟨rfl, hi⟩ := (hfoot.words g i hne).of_reserved h.toInv hd hg
    exact hnot ⟨hd, hi⟩

omit hdirs in
/-- A user writes to the pages that its tables map. -/
theorem Spaces.maps_of_storeFrame (h : Spaces n dirs tables reserved m) (hd : d ∈ dirs)
    (hva : va < 4294967296) (hf : storeFrame m.words d va = some f) : Maps tables m.words d f := by
  unfold storeFrame at hf
  split at hf
  · next hallow =>
    have hpresent := hallow.1.1.1
    have hj : ptx va < 1024 := Nat.mod_lt _ (by decide)
    by_cases hi : pdx va < tables
    · have ht : tableOf m.words d (pdx va) = some (frameNumber (m.words d (pdx va))) :=
        if_neg hpresent.ne_zero
      refine ⟨pdx va, hi, ptx va, hj, ?_⟩
      rw [mappedAt, entryAt_of_some ht, ← hf]
      exact if_pos hallow.2.1.1
    · obtain ⟨-, -, hwrite⟩ := h.kernel d hd _ (by omega) (Boot.pdx_lt hva) hpresent
      exact absurd hallow.2 ((hwrite hallow.1).2 _ hj)
  · cases hf

omit hdirs in
/-- A page is no page table and not free, and nothing reserved. -/
theorem Spaces.of_maps (h : Spaces n dirs tables reserved m) (hd : d ∈ dirs)
    (hf : Maps tables m.words d f) : Allocated n reserved m f ∧
      ∀ d' ∈ dirs, ∀ i < tables, tableOf m.words d' i ≠ some f := by
  have hzero := h.separate d hd f hf
  obtain ⟨i, hi, j, hj, hat⟩ := hf
  exact ⟨(h.allocated_of_mapped hd hi hj hat).1, fun d' hd' i' hi' =>
    RefCount.refs_eq_zero_iff.1 hzero (d', i') (mem_directorySlots.2 ⟨hd', hi'⟩)⟩

omit hdirs in
theorem storeUser_words {g i : Nat} {value : Entry}
    (hne : (storeUser m d va value).words g i ≠ m.words g i) :
    storeFrame m.words d va = some g := by
  unfold storeUser at hne
  split at hne
  · next f hf =>
    obtain rfl : g = f := by
      by_contra hgf
      exact hne ((writeWord_apply _ _ _ _ _ _).trans (if_neg fun hat => hgf hat.1))
    exact hf
  · exact absurd rfl hne

/-- A store is no change for the page tables. -/
theorem Spaces.storeUser (h : Spaces n dirs tables reserved m) (hd : d ∈ dirs)
    (hva : va < 4294967296) (value : Entry) :
    Spaces n dirs tables reserved (storeUser m d va value) := by
  have hkept : ∀ g, ¬Maps tables m.words d g → ∀ i,
      (KernMemory.storeUser m d va value).words g i = m.words g i := fun g hnot i => by
    by_contra hne
    exact hnot (h.maps_of_storeFrame hd hva (storeUser_words hne))
  have hreserved : ∀ g, reserved g → ∀ i,
      (KernMemory.storeUser m d va value).words g i = m.words g i := fun g hg =>
    hkept g fun hf => (h.of_maps hd hf).1.notReserved hg
  have htab : ∀ d' ∈ dirs, ∀ i, tableOf (KernMemory.storeUser m d va value).words d' i =
      tableOf m.words d' i := fun d' hd' i => by
    rw [tableOf, hreserved d' (hdirs d' hd'), tableOf]
  have hent : ∀ d' ∈ dirs, ∀ i < tables, ∀ j,
      entryAt (KernMemory.storeUser m d va value).words d' i j = entryAt m.words d' i j :=
    fun d' hd' i hi j => by
      cases ht : tableOf m.words d' i with
      | none => rw [entryAt, entryAt, htab d' hd', ht]
      | some t =>
        rw [entryAt_of_some ht, entryAt_of_some ((htab d' hd' i).trans ht)]
        exact hkept t (fun hf => (h.of_maps hd hf).2 d' hd' i hi ht) j
  have heq : KernMemory.storeUser m d va value =
      { m with words := (KernMemory.storeUser m d va value).words } := by
    unfold KernMemory.storeUser
    split <;> rfl
  have hgrows : Grows dirs tables none m (KernMemory.storeUser m d va value) := by
    refine ⟨fun d' hd' i _ t ht => ?_, fun d' hd' i hi j _ f hf => ?_⟩
    · exact Or.inl (htab d' hd' i ▸ ht)
    · exact Or.inl (by rwa [mappedAt, hent d' hd' i hi] at hf)
  refine h.of_grows hdirs ?_ (fun _ hg => hg) hgrows (fun f hf => ?_) fun g i hg _ =>
    hreserved g hg i
  · rw [heq]
    exact h.toInv.changeWords _ htab hent
  · cases hf

end Kept

/-! ## An address space that is left alone -/

/-- The directory, its page tables and its pages are as they were. -/
structure SameSpace (d tables : Nat) (w w' : Words) : Prop where
  directory : ∀ i, w' d i = w d i
  table : ∀ i t, tableOf w d i = some t → i < tables ∨ i < 1024 ∧ IsPresent (w d i) →
    ∀ j, w' t j = w t j
  pages : ∀ f, Maps tables w d f → ∀ j, w' f j = w f j

theorem tableOf_of_present {w : Words} {i : Nat} (h : IsPresent (w d i)) :
    tableOf w d i = some (frameNumber (w d i)) :=
  if_neg h.ne_zero

namespace SameSpace

variable {w w' w'' : Words}

theorem refl (d tables : Nat) (w : Words) : SameSpace d tables w w :=
  ⟨fun _ => rfl, fun _ _ _ _ _ => rfl, fun _ _ _ => rfl⟩

theorem tableOf_eq (h : SameSpace d tables w w') (i : Nat) : tableOf w' d i = tableOf w d i := by
  rw [tableOf, h.directory, tableOf]

theorem maps (h : SameSpace d tables w w') (hf : Maps tables w d f) : Maps tables w' d f := by
  obtain ⟨i, hi, j, hj, hat⟩ := hf
  obtain ⟨t, ht, hby⟩ := exists_table_of_mappedAt hat
  refine ⟨i, hi, j, hj, ?_⟩
  rwa [mappedAt, entryAt_of_some ((h.tableOf_eq i).trans ht), h.table i t ht (Or.inl hi)]

theorem trans (h : SameSpace d tables w w') (h' : SameSpace d tables w' w'') :
    SameSpace d tables w w'' := by
  refine ⟨fun i => (h'.directory i).trans (h.directory i), fun i t ht hi j => ?_, fun f hf j => ?_⟩
  · have hi' : i < tables ∨ i < 1024 ∧ IsPresent (w' d i) :=
      hi.imp_right fun hi => ⟨hi.1, h.directory i ▸ hi.2⟩
    exact (h'.table i t ((h.tableOf_eq i).trans ht) hi' j).trans (h.table i t ht hi j)
  · exact (h'.pages f (h.maps hf) j).trans (h.pages f hf j)

theorem table_of_present (h : SameSpace d tables w w') (hva : va < 4294967296)
    (hpresent : IsPresent (w d (pdx va))) (j : Nat) :
    w' (frameNumber (w d (pdx va))) j = w (frameNumber (w d (pdx va))) j :=
  h.table _ _ (tableOf_of_present hpresent) (Or.inr ⟨Boot.pdx_lt hva, hpresent⟩) j

/-- Every address is translated as it was. -/
theorem walk_eq (h : SameSpace d tables w w') (hva : va < 4294967296) :
    Boot.walk w' d va = Boot.walk w d va := by
  unfold Boot.walk
  rw [h.directory]
  by_cases hpresent : IsPresent (w d (pdx va))
  · rw [if_pos hpresent, if_pos hpresent, h.table_of_present hva hpresent]
  · rw [if_neg hpresent, if_neg hpresent]

/-- A user reads what was there. -/
theorem loadUser_eq (h : SameSpace d tables w w') (hva : va < 4294967296)
    (hi : pdx va < tables) : loadUser w' d va = loadUser w d va := by
  unfold loadUser
  rw [h.directory]
  by_cases hpde : AllowsUser (w d (pdx va))
  · have hpte' : pteOf w' d va = pteOf w d va := by
      rw [pteOf, h.directory, h.table_of_present hva hpde.1, pteOf]
    rw [hpte']
    by_cases hpte : AllowsUser (pteOf w d va)
    · have hmaps : Maps tables w d (frameNumber (pteOf w d va)) := by
        refine ⟨pdx va, hi, ptx va, Nat.mod_lt _ (by decide), ?_⟩
        rw [mappedAt, entryAt_of_some (tableOf_of_present hpde.1)]
        exact if_pos hpte.1
      rw [if_pos ⟨hpde, hpte⟩, if_pos ⟨hpde, hpte⟩, h.pages _ hmaps]
    · rw [if_neg fun hc => hpte hc.2, if_neg fun hc => hpte hc.2]
  · rw [if_neg fun hc => hpde hc.1, if_neg fun hc => hpde hc.1]

end SameSpace

/-- A frame that is none of the address space of `d`. -/
def Foreign (dirs : Finset Nat) (tables : Nat) (reserved : Nat → Prop) (w : Words) (d g : Nat) :
    Prop :=
  (g ∈ dirs ∧ g ≠ d) ∨
    (¬reserved g ∧ (∀ i < tables, tableOf w d i ≠ some g) ∧ ¬Maps tables w d g)

section Left

variable (hdirs : ∀ d ∈ dirs, reserved d) (h : Spaces n dirs tables reserved m) (hd : d ∈ dirs)

include hdirs h hd

theorem Spaces.sameSpace
    (hforeign : ∀ g i, m'.words g i ≠ m.words g i → Foreign dirs tables reserved m.words d g) :
    SameSpace d tables m.words m'.words := by
  have hkept : ∀ g, ¬Foreign dirs tables reserved m.words d g → ∀ i,
      m'.words g i = m.words g i := fun g hnot i => by
    by_contra hne
    exact hnot (hforeign g i hne)
  refine ⟨hkept d ?_, fun i t ht hi => hkept t ?_, fun f hf => hkept f ?_⟩
  · rintro (⟨-, hne⟩ | ⟨hres, -⟩)
    · exact hne rfl
    · exact hres (hdirs d hd)
  · by_cases hlt : i < tables
    · have hres := (h.slots.table d hd i hlt t ht).2
      rintro (⟨hmem, -⟩ | ⟨-, hnot, -⟩)
      · exact hres (hdirs t hmem)
      · exact hnot i hlt ht
    · obtain ⟨hlt', hpresent⟩ := hi.resolve_left hlt
      obtain rfl := Option.some.inj ((tableOf_of_present hpresent).symm.trans ht)
      obtain ⟨hres, hwindow, -⟩ := h.kernel d hd i (by omega) hlt' hpresent
      rintro (⟨hmem, hne⟩ | ⟨hnot, -⟩)
      · exact hne (hwindow hmem)
      · exact hnot hres
  · have hres := (h.of_maps hd hf).1.notReserved
    rintro (⟨hmem, -⟩ | ⟨-, -, hnot⟩)
    · exact hres (hdirs f hmem)
    · exact hnot hf

/-- A call for another directory. -/
theorem Own.foreign {g i : Nat} (hown : Own tables m d' g i) (hd' : d' ∈ dirs) (hne : d' ≠ d) :
    Foreign dirs tables reserved m.words d g := by
  rcases hown with ⟨rfl, -⟩ | hfree | ⟨k, hk, ht⟩
  · exact Or.inl ⟨hd', hne⟩
  · exact Or.inr ⟨(h.free g hfree).2.1, h.fresh hfree d hd, fun hf =>
      (h.of_maps hd hf).1.notFree hfree⟩
  · exact Or.inr ⟨(h.slots.table d' hd' k hk g ht).2, fun i hi hti =>
      hne (h.slots.apart d' hd' k hk d hd i hi g ht hti).1, fun hf =>
        (h.of_maps hd hf).2 d' hd' k hk ht⟩

/-- A store that gets to no page of `d`. -/
theorem Spaces.foreign_of_storeFrame (hd' : d' ∈ dirs) (hva : va < 4294967296)
    (hf : storeFrame m.words d' va = some f) (hnot : ¬Maps tables m.words d f) :
    Foreign dirs tables reserved m.words d f := by
  obtain ⟨halloc, htable⟩ := h.of_maps hd' (h.maps_of_storeFrame hd' hva hf)
  exact Or.inr ⟨halloc.notReserved, htable d hd, hnot⟩

end Left

/-! ## `sys_allocate_page` -/

section AllocatePage

variable {userTop : Nat} (hdirs : ∀ d ∈ dirs, reserved d)
  (h : Spaces n dirs (userTables userTop) reserved m) (hl : m.freeFrameList = f :: rest)

include hdirs h hl

/-- Clearing the frame that is taken is within what a call may do. -/
theorem footprint_cleared (d : Nat) :
    Footprint dirs (userTables userTop) d none m (m.cleared f rest) := by
  refine ⟨⟨fun d' hd' i _ t ht => Or.inl ?_, fun d' hd' i hi j _ g hg => Or.inl ?_⟩,
    fun g i hne => Or.inr (Or.inl ?_)⟩
  · rwa [tableOf_cleared hdirs h.toInv hl hd'] at ht
  · rwa [mappedAt, entryAt_cleared hdirs h.toInv hl hd' hi] at hg
  · have hword : (m.cleared f rest).words g i = if g = f then 0#32 else m.words g i :=
      clearWords_apply _ _ _ _
    rw [hword] at hne
    split at hne
    · next heq => exact heq ▸ hl ▸ List.mem_cons_self
    · exact absurd rfl hne

theorem Spaces.cleared (hd : d ∈ dirs) :
    Spaces n dirs (userTables userTop) reserved (m.cleared f rest) :=
  h.of_footprint hdirs (inv_cleared hdirs h.toInv hl) (fun _ hg => hg) hd
    (footprint_cleared hdirs h hl d) fun _ hf => by cases hf

/-- What a call writes after the frame is taken. -/
theorem own_of_cleared {g i : Nat} (hown : Own (userTables userTop) (m.cleared f rest) d g i)
    (hd : d ∈ dirs) : Own (userTables userTop) m d g i := by
  rcases hown with hhalf | hfree | ⟨k, hk, ht⟩
  · exact Or.inl hhalf
  · exact Or.inr (Or.inl (hl ▸ List.mem_cons_of_mem f hfree))
  · rw [tableOf_cleared hdirs h.toInv hl hd] at ht
    exact Or.inr (Or.inr ⟨k, hk, ht⟩)

end AllocatePage

/-- `sys_allocate_page` keeps the address spaces apart, with the frame that it may lose among the
reserved. -/
theorem sysAllocatePage_spaces {userTop : Nat} (hdirs : ∀ d ∈ dirs, reserved d)
    (hn : n ≤ 1048576) (hpos : 0 < n) (h : Spaces n dirs (userTables userTop) reserved m)
    (hd : d ∈ dirs) (va : Nat) (perm : BitVec 32) :
    ∃ status m', m.sysAllocatePage n userTop d va perm = some (status, m') ∧
      Spaces n dirs (userTables userTop)
        (fun g => reserved g ∨ status ≠ .success ∧ m.freeFrameList.head? = some g) m' ∧
      ∀ g i, m'.words g i ≠ m.words g i → Own (userTables userTop) m d g i := by
  cases hl : m.freeFrameList with
  | nil =>
    exact ⟨.noMem, m, sysAllocatePage_nil hl, by simpa using h, fun g i hne => absurd rfl hne⟩
  | cons f rest =>
    have hcleared := h.cleared hdirs hl hd
    have hfoot := footprint_cleared hdirs h hl d
    by_cases hvalid : ValidPage userTop va perm
    · by_cases hroom : tableOf m.words d (pdx va) ≠ none ∨ rest ≠ []
      · -- the frame is mapped
        have hf := allocated_cleared h.toInv hl
        have hzero : tableUses dirs (userTables userTop) (m.cleared f rest).words f = 0 := by
          refine RefCount.refs_eq_zero_iff.2 fun x hx => ?_
          obtain ⟨hd', hi'⟩ := mem_directorySlots.1 hx
          rw [tableOf_cleared hdirs h.toInv hl hd']
          exact h.fresh (hl ▸ List.mem_cons_self) _ hd' _ hi'
        have hi := pdx_lt_userTables hvalid.1
        rcases mapFrame_spec hdirs hn hpos hcleared.toInv hd hi hvalid.isPerm hf with
          ⟨ht, hnil, -⟩ | ⟨-, m', hmap, hinv⟩
        · rw [tableOf_cleared hdirs h.toInv hl hd] at ht
          exact absurd hnil (hroom.resolve_left (not_not.2 ht))
        have hmapped := mapFrame_footprint hdirs hn hpos hcleared.toInv hd hi hvalid.isPerm hf hmap
        refine ⟨.success, m', ?_, ?_, fun g i hne => ?_⟩
        · rw [sysAllocatePage_eq hn h.toInv hl hvalid, hmap]
          rfl
        · have hspaces := hcleared.of_footprint hdirs hinv (fun _ hg => hg) hd hmapped
            fun g hg => by
              obtain rfl := Option.some.inj hg
              exact ⟨hf.notFree, hzero⟩
          simpa using hspaces
        · by_cases hsame : (m.cleared f rest).words g i = m.words g i
          · exact own_of_cleared hdirs h hl (hmapped.words g i (hsame ▸ hne)) hd
          · exact hfoot.words g i hsame
      · push Not at hroom
        refine ⟨.noMem, _, sysAllocatePage_noTable hdirs hn hpos h.toInv hd hl hvalid hroom.1
          hroom.2, ?_, hfoot.words⟩
        have hlost : Footprint dirs (userTables userTop) d none m
            ((m.cleared f rest).setReferences f (-1)) :=
          ⟨⟨hfoot.table, hfoot.mapped⟩, hfoot.words⟩
        have hspaces := h.of_footprint hdirs (inv_lost_cleared hdirs h.toInv hl)
          (fun _ hg => Or.inl hg) hd hlost fun _ hf => by cases hf
        simpa [eq_comm] using hspaces
    · refine ⟨.inval, _, sysAllocatePage_inval hl hvalid, ?_, fun g i hne => absurd rfl hne⟩
      have hlost : Footprint dirs (userTables userTop) d none m
          { m.setReferences f 0 with freeFrameList := rest } := .refl rfl
      have hspaces := h.of_footprint hdirs (h.toInv.lose hl 0) (fun _ hg => Or.inl hg) hd hlost
        fun _ hf => by cases hf
      simpa [eq_comm] using hspaces

/-! ## The kernel and the programs -/

/-- The memory, and the frames that `sys_allocate_page` has lost. -/
structure Kern where
  memory : KernMemory
  lost : List Nat

/-- What the kernel calls itself, a system call, and a store of a user program. -/
inductive Request where
  | call (c : Call)
  | allocatePage (d va : Nat) (perm : BitVec 32)
  | store (d va : Nat) (value : Entry)

namespace Kern

/-- One request; a system call that fails leaves what it leaves. -/
def serve (n userTop : Nat) (s : Kern) : Request → Option Kern
  | .call c => (s.memory.step n c).map fun m => { s with memory := m }
  | .allocatePage d va perm =>
    (s.memory.sysAllocatePage n userTop d va perm).map fun (status, m) =>
      { memory := m
        lost := if status = .success then s.lost else s.memory.freeFrameList.take 1 ++ s.lost }
  | .store d va value => some { s with memory := storeUser s.memory d va value }

/-- The frames that nobody can get hold of. -/
def OutOfReach (reserved : Nat → Prop) (s : Kern) (f : Nat) : Prop :=
  reserved f ∨ f ∈ s.lost

/-- Calls are made as before, system calls with any arguments, and stores at any address. -/
def Admissible (n : Nat) (dirs : Finset Nat) (userTop : Nat) (reserved : Nat → Prop) (s : Kern) :
    Request → Prop
  | .call c => KernMemory.Admissible n dirs userTop (s.OutOfReach reserved) s.memory c
  | .allocatePage d _ _ => d ∈ dirs
  | .store d va _ => d ∈ dirs ∧ va < 4294967296

/-- The words that a request may write. -/
def Writes (tables : Nat) (s : Kern) (g i : Nat) : Request → Prop
  | .call .allocate => False
  | .call (.map d _ _ _) => Own tables s.memory d g i
  | .call (.unmap d _) => Own tables s.memory d g i
  | .call (.free _) => False
  | .allocatePage d _ _ => Own tables s.memory d g i
  | .store d va _ => storeFrame s.memory.words d va = some g

/-- No call for `d`, and no store to one of its pages. -/
def LeavesAlone (tables d : Nat) (s : Kern) : Request → Prop
  | .call .allocate => True
  | .call (.map d' _ _ _) => d' ≠ d
  | .call (.unmap d' _) => d' ≠ d
  | .call (.free _) => True
  | .allocatePage d' _ _ => d' ≠ d
  | .store d' va _ =>
    ∀ f, storeFrame s.memory.words d' va = some f → ¬Maps tables s.memory.words d f

variable {userTop : Nat} {s s' t : Kern} {r : Request} {rs : List Request}

/-- The address spaces are apart, with what was lost among the reserved. -/
def Apart (n : Nat) (dirs : Finset Nat) (userTop : Nat) (reserved : Nat → Prop) (s : Kern) : Prop :=
  Spaces n dirs (userTables userTop) (s.OutOfReach reserved) s.memory

section Serve

variable (hdirs : ∀ d ∈ dirs, reserved d) (hn : n ≤ 1048576) (hpos : 0 < n)
  (h : s.Apart n dirs userTop reserved) (hr : s.Admissible n dirs userTop reserved r)

include hdirs hn hpos h hr

/-- Every request is served, keeps the address spaces apart, and writes no more than it may. -/
theorem exists_serve : ∃ s', s.serve n userTop r = some s' ∧ s'.Apart n dirs userTop reserved ∧
    ∀ g i, s'.memory.words g i ≠ s.memory.words g i → s.Writes (userTables userTop) g i r := by
  have hreach : ∀ d ∈ dirs, s.OutOfReach reserved d := fun d hd => Or.inl (hdirs d hd)
  have hid : ∀ g, s.OutOfReach reserved g → s.OutOfReach reserved g := fun _ hg => hg
  cases r with
  | call c =>
    obtain ⟨m', hstep, hinv⟩ := step_spec hreach hn hpos h.toInv hr
    refine ⟨{ s with memory := m' }, by rw [serve, hstep, Option.map_some], ?_⟩
    cases c with
    | allocate =>
      have hwords : m'.words = s.memory.words := by
        obtain rfl := Option.some.inj hstep
        cases hl : s.memory.freeFrameList with
        | nil => simp [allocateFrame, hl]
        | cons f rest => simp [allocateFrame, hl, setReferences]
      exact ⟨h.of_words hinv hwords, fun g i hne => hne (congrFun (congrFun hwords g) i)⟩
    | map d f va perm =>
      obtain ⟨hd, hva, hf⟩ := hr
      obtain ⟨⟨status, m₁⟩, hmap, rfl⟩ := Option.map_eq_some_iff.1 hstep
      have halloc := h.toInv.allocated_of_mappable hf
      have hfoot := mapFrame_footprint hreach hn hpos h.toInv hd (pdx_lt_userTables hva)
        (isPerm_setWidth perm) halloc hmap
      refine ⟨h.of_footprint hreach hinv hid hd hfoot fun g hg => ?_, hfoot.words⟩
      obtain rfl := Option.some.inj hg
      exact ⟨halloc.notFree, h.tableUses_of_mappable hf⟩
    | unmap d va =>
      have hfoot := unmapFrame_footprint hreach hn hpos h.toInv hr.1 (pdx_lt_userTables hr.2) hstep
      exact ⟨h.of_footprint hreach hinv hid hr.1 hfoot (fun g hg => by cases hg), hfoot.words⟩
    | free f =>
      obtain rfl := Option.some.inj hstep
      exact ⟨h.of_words hinv rfl, fun g i hne => hne rfl⟩
  | allocatePage d va perm =>
    obtain ⟨status, m', hsys, hspaces, hown⟩ := sysAllocatePage_spaces hreach hn hpos h hr va perm
    refine ⟨⟨m', if status = .success then s.lost else s.memory.freeFrameList.take 1 ++ s.lost⟩,
      by rw [serve, hsys, Option.map_some], ?_, hown⟩
    have heq : (fun g => s.OutOfReach reserved g ∨
        status ≠ .success ∧ s.memory.freeFrameList.head? = some g) =
        OutOfReach reserved ⟨m', if status = .success then s.lost
          else s.memory.freeFrameList.take 1 ++ s.lost⟩ := by
      funext g
      cases hl : s.memory.freeFrameList <;> by_cases hs : status = .success <;>
        simp [OutOfReach, hs, or_comm, or_left_comm, eq_comm]
    rw [Apart, ← heq]
    exact hspaces
  | store d va value =>
    refine ⟨_, rfl, h.storeUser hreach hr.1 hr.2 value, fun g i hne => ?_⟩
    exact storeUser_words hne

omit hn hpos in
/-- What is out of reach is written for the user half of a directory only. -/
theorem Writes.half {g i : Nat} (hw : s.Writes (userTables userTop) g i r)
    (hg : s.OutOfReach reserved g) : g ∈ dirs ∧ i < userTables userTop := by
  have hown : ∀ d ∈ dirs, Own (userTables userTop) s.memory d g i →
      g ∈ dirs ∧ i < userTables userTop := fun d hd hown => by
    obtain ⟨rfl, hi⟩ := hown.of_reserved h.toInv hd hg
    exact ⟨hd, hi⟩
  cases r with
  | call c =>
    cases c with
    | allocate => exact hw.elim
    | map d f va perm => exact hown d hr.1 hw
    | unmap d va => exact hown d hr.1 hw
    | free f => exact hw.elim
  | allocatePage d va perm => exact hown d hr hw
  | store d va value =>
    exact absurd hg (h.of_maps hr.1 (h.maps_of_storeFrame hr.1 hr.2 hw)).1.notReserved

omit hn hpos in
/-- What is written is none of an address space that is left alone. -/
theorem Writes.foreign {d g i : Nat} (hd : d ∈ dirs) (hw : s.Writes (userTables userTop) g i r)
    (halone : s.LeavesAlone (userTables userTop) d r) :
    Foreign dirs (userTables userTop) (s.OutOfReach reserved) s.memory.words d g := by
  have hreach : ∀ d ∈ dirs, s.OutOfReach reserved d := fun d hd => Or.inl (hdirs d hd)
  cases r with
  | call c =>
    cases c with
    | allocate => exact hw.elim
    | map d' f va perm => exact Own.foreign hreach h hd hw hr.1 halone
    | unmap d' va => exact Own.foreign hreach h hd hw hr.1 halone
    | free f => exact hw.elim
  | allocatePage d' va perm => exact Own.foreign hreach h hd hw hr halone
  | store d' va value => exact h.foreign_of_storeFrame hreach hd hr.1 hr.2 hw (halone g hw)

end Serve

theorem lost_subset (h : s.serve n userTop r = some s') : s.lost ⊆ s'.lost := by
  cases r with
  | call c =>
    obtain ⟨m, -, rfl⟩ := Option.map_eq_some_iff.1 h
    exact List.Subset.refl _
  | allocatePage d va perm =>
    obtain ⟨⟨status, m⟩, -, rfl⟩ := Option.map_eq_some_iff.1 h
    dsimp only
    split
    · exact List.Subset.refl _
    · exact List.subset_append_right _ _
  | store d va value =>
    obtain rfl := Option.some.inj h
    exact List.Subset.refl _

/-! ## Runs -/

section Runs

variable (hdirs : ∀ d ∈ dirs, reserved d) (hn : n ≤ 1048576) (hpos : 0 < n)
  (h : s.Apart n dirs userTop reserved)

include hdirs hn hpos h

theorem Apart.run (hmeets : Machine.Meets (serve n userTop)
      (Admissible n dirs userTop reserved) s rs)
    (hrun : Machine.run (serve n userTop) s rs = some t) : t.Apart n dirs userTop reserved := by
  refine Machine.run_induction_of_meets (fun s r s' hs hr hserve => ?_) h hmeets hrun
  obtain ⟨u, hu, hapart, -⟩ := exists_serve hdirs hn hpos hs hr
  exact Option.some.inj (hu.symm.trans hserve) ▸ hapart

/-- What nobody can get hold of is written for the user half of a directory only. -/
theorem words_run (hmeets : Machine.Meets (serve n userTop)
      (Admissible n dirs userTop reserved) s rs)
    (hrun : Machine.run (serve n userTop) s rs = some t) {g i : Nat}
    (hg : s.OutOfReach reserved g) (hnot : ¬(g ∈ dirs ∧ i < userTables userTop)) :
    t.memory.words g i = s.memory.words g i := by
  have hall : t.Apart n dirs userTop reserved ∧ t.OutOfReach reserved g ∧
      t.memory.words g i = s.memory.words g i := by
    refine Machine.run_induction_of_meets (P := fun u => u.Apart n dirs userTop reserved ∧
      u.OutOfReach reserved g ∧ u.memory.words g i = s.memory.words g i)
      (fun u r u' hu hr hserve => ?_) ⟨h, hg, rfl⟩ hmeets hrun
    obtain ⟨hapart, hout, hsame⟩ := hu
    obtain ⟨v, hv, hapart', hwrites⟩ := exists_serve hdirs hn hpos hapart hr
    obtain rfl := Option.some.inj (hv.symm.trans hserve)
    refine ⟨hapart', hout.imp_right fun hmem => lost_subset hserve hmem, ?_⟩
    by_contra hne
    exact hnot ((hwrites g i fun heq => hne (heq.trans hsame)).half hdirs hapart hr hout)
  exact hall.2.2

/-- Along every run every request that is admissible is served. What nobody can get hold of is not
written, but for the user half of a directory; so the kernel part of every address space stays as
it is outside the windows. And wherever a user can write there is an allocated frame, which is not
reserved and no page table. -/
theorem run_protected (hmeets : Machine.Meets (serve n userTop)
      (Admissible n dirs userTop reserved) s rs)
    (hrun : Machine.run (serve n userTop) s rs = some t) :
    (∀ r, t.Admissible n dirs userTop reserved r → ∃ u, t.serve n userTop r = some u) ∧
      (∀ g, s.OutOfReach reserved g → g ∉ dirs → t.memory.words g = s.memory.words g) ∧
      (∀ d ∈ dirs, ∀ va < 4294967296, userTables userTop ≤ pdx va →
        frameNumber (s.memory.words d (pdx va)) ≠ d →
        Boot.walk t.memory.words d va = Boot.walk s.memory.words d va) ∧
      ∀ d ∈ dirs, ∀ va < 4294967296, ∀ f, storeFrame t.memory.words d va = some f →
        Allocated n (t.OutOfReach reserved) t.memory f ∧
          ∀ d' ∈ dirs, ∀ i < userTables userTop, tableOf t.memory.words d' i ≠ some f := by
  have hapart := h.run hdirs hn hpos hmeets hrun
  have hkept : ∀ {g i}, s.OutOfReach reserved g → ¬(g ∈ dirs ∧ i < userTables userTop) →
      t.memory.words g i = s.memory.words g i := words_run hdirs hn hpos h hmeets hrun
  refine ⟨fun r hr => ?_, fun g hg hnot => ?_, fun d hd va hva hi hwindow => ?_,
    fun d hd va hva f hf => ?_⟩
  · obtain ⟨u, hu, -⟩ := exists_serve hdirs hn hpos hapart hr
    exact ⟨u, hu⟩
  · exact funext fun i => hkept hg fun hat => hnot hat.1
  · have hword : t.memory.words d (pdx va) = s.memory.words d (pdx va) :=
      hkept (Or.inl (hdirs d hd)) fun hat => by omega
    unfold Boot.walk
    rw [hword]
    by_cases hpresent : IsPresent (s.memory.words d (pdx va))
    · obtain ⟨hres, hdir, -⟩ := h.kernel d hd _ hi (Boot.pdx_lt hva) hpresent
      rw [if_pos hpresent, if_pos hpresent, hkept hres fun hat => hwindow (hdir hat.1)]
    · rw [if_neg hpresent, if_neg hpresent]
  · exact hapart.of_maps hd (hapart.maps_of_storeFrame hd hva hf)

/-- An address space for which no call is made, and to whose pages nobody stores, is translated as
before, and a user of it reads the same. -/
theorem run_undisturbed {d : Nat} (hd : d ∈ dirs) (hmeets : Machine.Meets (serve n userTop)
      (fun s r => s.Admissible n dirs userTop reserved r ∧
        s.LeavesAlone (userTables userTop) d r) s rs)
    (hrun : Machine.run (serve n userTop) s rs = some t) :
    (∀ va < 4294967296, Boot.walk t.memory.words d va = Boot.walk s.memory.words d va) ∧
      ∀ va < userTop, va < 4294967296 →
        loadUser t.memory.words d va = loadUser s.memory.words d va := by
  have hall : t.Apart n dirs userTop reserved ∧
      SameSpace d (userTables userTop) s.memory.words t.memory.words := by
    refine Machine.run_induction_of_meets (P := fun u => u.Apart n dirs userTop reserved ∧
      SameSpace d (userTables userTop) s.memory.words u.memory.words)
      (fun u r u' hu hr hserve => ?_) ⟨h, .refl _ _ _⟩ hmeets hrun
    obtain ⟨v, hv, hapart', hwrites⟩ := exists_serve hdirs hn hpos hu.1 hr.1
    obtain rfl := Option.some.inj (hv.symm.trans hserve)
    refine ⟨hapart', hu.2.trans (Spaces.sameSpace (fun d hd => Or.inl (hdirs d hd)) hu.1 hd
      fun g i hne => ?_)⟩
    exact (hwrites g i hne).foreign hdirs hu.1 hr.1 hd hr.2
  exact ⟨fun va hva => hall.2.walk_eq hva, fun va htop hva =>
    hall.2.loadUser_eq hva (pdx_lt_userTables htop)⟩

end Runs

/-- After `initialize_paging`, with directories whose user half is zero. -/
theorem apart_start (frames : Boot.Frames) {w : Words} (hlist : ∀ f ∈ frames.freeFrameList,
      f < n ∧ frames.freeFrameList.count f = 1 ∧ (frames.framesInfo f).references = 0)
    (hzero : ∀ d ∈ dirs, ∀ i < userTables userTop, w d i = 0#32)
    (hkernel : ∀ d ∈ dirs, ∀ i, userTables userTop ≤ i → i < 1024 → IsPresent (w d i) →
      frameNumber (w d i) ∉ frames.freeFrameList ∧
        (frameNumber (w d i) ∈ dirs → frameNumber (w d i) = d) ∧
        (AllowsWrite (w d i) → frameNumber (w d i) ∉ dirs ∧
          ∀ j < 1024, ¬AllowsWrite (w (frameNumber (w d i)) j))) :
    Apart n dirs userTop (fun f => f ∉ frames.freeFrameList) ⟨ofFrames frames w, []⟩ := by
  have heq : OutOfReach (fun f => f ∉ frames.freeFrameList) ⟨ofFrames frames w, []⟩ =
      fun f => f ∉ frames.freeFrameList := by
    funext f
    simp [OutOfReach]
  rw [Apart, heq]
  refine ⟨inv_start hlist hzero, fun d hd f ⟨i, hi, j, _, hat⟩ => ?_, hkernel⟩
  cases hat.symm.trans (mappedAt_of_none (if_pos (hzero d hd i hi)))

/-- The directories in frames 3 and 4 are empty. -/
def smallKern : Kern :=
  ⟨ofFrames smallFrames smallBoot.words, []⟩

theorem smallKern_apart :
    smallKern.Apart 10 {3, 4} 0x400000 (fun f => f ∉ smallFrames.freeFrameList) := by
  have hboot : Machine.run (Boot.step smallLayout .kern 10) (Boot.start fun _ _ => 0#32)
      [.allocate 4096 4096] = some smallBoot := rfl
  have hpaging : Boot.initializePaging smallLayout .kern 10 smallBoot.ptrFreeMem
      (fun _ => initializeFrameInfo) = some smallFrames := rfl
  exact apart_start smallFrames (freeFrameList_of_boot hboot (by decide) hpaging).2
    (fun _ _ _ _ => rfl) fun _ _ _ _ _ hpresent => absurd hpresent not_isPresent_zero

/-- A page of directory 3, with a word in it. -/
def smallPage : Kern :=
  (Machine.run (serve 10 0x400000) smallKern
    [.allocatePage 3 0x1000 6#32, .store 3 0x1000 7#32]).getD smallKern

theorem run_smallPage : Machine.run (serve 10 0x400000) smallKern
    [.allocatePage 3 0x1000 6#32, .store 3 0x1000 7#32] = some smallPage :=
  rfl

theorem smallPage_admissible : Machine.Meets (serve 10 0x400000)
    (Admissible 10 {3, 4} 0x400000 fun f => f ∉ smallFrames.freeFrameList) smallKern
    [.allocatePage 3 0x1000 6#32, .store 3 0x1000 7#32] := by
  have hmem : 3 ∈ ({3, 4} : Finset Nat) := by decide
  exact ⟨hmem, fun _ _ => ⟨⟨hmem, by decide⟩, fun _ _ => trivial⟩⟩

theorem smallFrames_reserved : ∀ d ∈ ({3, 4} : Finset Nat), d ∉ smallFrames.freeFrameList := by
  decide

/-- The page of directory 3 is frame 9. -/
theorem smallPage_protected : storeFrame smallPage.memory.words 3 0x1000 = some 9 ∧
    ∀ i < 1, tableOf smallPage.memory.words 4 i ≠ some 9 := by
  have hf : storeFrame smallPage.memory.words 3 0x1000 = some 9 := by decide
  obtain ⟨-, -, -, hpages⟩ := run_protected smallFrames_reserved (by decide) (by decide)
    smallKern_apart smallPage_admissible run_smallPage
  exact ⟨hf, (hpages 3 (by decide) 0x1000 (by decide) 9 hf).2 4 (by decide)⟩

/-- A page of directory 4 is allocated and written, and the word of directory 3 is there. -/
theorem smallPage_undisturbed : ∃ t, Machine.run (serve 10 0x400000) smallPage
    [.allocatePage 4 0x1000 6#32, .store 4 0x1000 5#32] = some t ∧
      loadUser t.memory.words 3 0x1000 = some 7#32 := by
  have hload : loadUser smallPage.memory.words 3 0x1000 = some 7#32 := by decide
  have hpages : ((serve 10 0x400000 smallPage (.allocatePage 4 0x1000 6#32)).map fun s =>
      (storeFrame s.memory.words 4 0x1000, (List.range 1024).all fun j =>
        mappedAt s.memory.words 3 0 j != some 7)) = some (some 7, true) := by decide +kernel
  have hmeets : Machine.Meets (serve 10 0x400000)
      (fun s r => s.Admissible 10 {3, 4} 0x400000 (fun f => f ∉ smallFrames.freeFrameList) r ∧
        s.LeavesAlone (userTables 0x400000) 3 r) smallPage
      [.allocatePage 4 0x1000 6#32, .store 4 0x1000 5#32] := by
    have hmem : 4 ∈ ({3, 4} : Finset Nat) := by decide
    have hne : 4 ≠ 3 := by decide
    refine ⟨⟨hmem, hne⟩, fun s hs => ⟨⟨⟨hmem, by decide⟩, fun f hf => ?_⟩, fun _ _ => trivial⟩⟩
    rw [hs, Option.map_some] at hpages
    obtain ⟨hframe, hnone⟩ := Prod.mk.inj (Option.some.inj hpages)
    obtain rfl := Option.some.inj (hframe.symm.trans hf)
    rintro ⟨i, hi, j, hj, hat⟩
    obtain rfl : i = 0 := by
      have htables : userTables 0x400000 = 1 := rfl
      omega
    simpa [hat] using List.all_eq_true.1 hnone j (List.mem_range.2 hj)
  obtain ⟨t, ht⟩ : ∃ t, Machine.run (serve 10 0x400000) smallPage
      [.allocatePage 4 0x1000 6#32, .store 4 0x1000 5#32] = some t := ⟨_, rfl⟩
  have hapart := smallKern_apart.run smallFrames_reserved (by decide) (by decide)
    smallPage_admissible run_smallPage
  have hsame := (run_undisturbed smallFrames_reserved (by decide) (by decide) hapart
    (d := 3) (by decide) hmeets ht).2 0x1000 (by decide) (by decide)
  exact ⟨t, ht, hsame.trans hload⟩

end Kern

end KernMemory

end FosKernel
