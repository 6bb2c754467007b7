import FosKernel.BootPaging
import FosKernel.KernMemory
import FosKernel.RefCount

/-!
# Reference counts of `kern/memory_manager.c`

The user half of the page directories is a family of slots : `tableOf` is the table a
directory entry uses, `mappedAt` the frame a present page-table entry maps, and `uses`
counts the slots that hold a frame. `Tables` is what keeps the slots apart from each
other in physical memory : the tables are distinct frames, none of them reserved, and
the directories are reserved. So a word written in one table or one directory changes
one slot (`mappedAt_writeEntry`, `tableOf_createTable`).

`Inv` says that the counters are the number of uses and that the list holds unused
frames. `map_frame` is made of three changes that keep it : a table is created, an
entry is cleared, an entry is inserted. `reference_counts` is the invariant along every
run from `initialize_paging`, with what `map_frame` answers.
-/

set_option linter.unusedSectionVars false

namespace FosKernel

namespace KernMemory

open RefCount

/-! ## The slots -/

/-- The table a directory entry uses. -/
def tableOf (w : Words) (d i : Nat) : Option Nat :=
  if w d i = 0#32 then none else some (frameNumber (w d i))

/-- The page-table entry `j` of the table for `i`, zero without a table. -/
def entryAt (w : Words) (d i j : Nat) : Entry :=
  match tableOf w d i with
  | some t => w t j
  | none => 0#32

/-- The frame a present page-table entry maps. -/
def mappedBy (e : Entry) : Option Nat :=
  if IsPresent e then some (frameNumber e) else none

/-- The frame that entry `j` of the table of directory entry `i` maps. -/
def mappedAt (w : Words) (d i j : Nat) : Option Nat :=
  mappedBy (entryAt w d i j)

/-- The directory entries below the user's top. -/
def directorySlots (dirs : Finset Nat) (tables : Nat) : Finset (Nat × Nat) :=
  dirs ×ˢ Finset.range tables

/-- The entries of the user page tables. -/
def entrySlots (dirs : Finset Nat) (tables : Nat) : Finset ((Nat × Nat) × Nat) :=
  directorySlots dirs tables ×ˢ Finset.range 1024

/-- How many user directory entries use `f` as a page table. -/
def tableUses (dirs : Finset Nat) (tables : Nat) (w : Words) (f : Nat) : Nat :=
  refs (directorySlots dirs tables) (fun x => tableOf w x.1 x.2) f

/-- How many present user page-table entries map `f`. -/
def pageUses (dirs : Finset Nat) (tables : Nat) (w : Words) (f : Nat) : Nat :=
  refs (entrySlots dirs tables) (fun x => mappedAt w x.1.1 x.1.2 x.2) f

variable {n tables : Nat} {dirs : Finset Nat} {reserved : Nat → Prop} {w w' : Words}
  {d d' i i' j j' f g t : Nat} {e : Entry}

theorem mem_directorySlots : (d, i) ∈ directorySlots dirs tables ↔ d ∈ dirs ∧ i < tables := by
  simp [directorySlots]

theorem mem_entrySlots :
    ((d, i), j) ∈ entrySlots dirs tables ↔ (d ∈ dirs ∧ i < tables) ∧ j < 1024 := by
  rw [entrySlots, Finset.mem_product, mem_directorySlots, Finset.mem_range]

@[simp] theorem mappedBy_zero : mappedBy 0#32 = none :=
  if_neg not_isPresent_zero

theorem entryAt_of_some (h : tableOf w d i = some t) : entryAt w d i j = w t j := by
  simp [entryAt, h]

theorem mappedAt_of_none (h : tableOf w d i = none) : mappedAt w d i j = none := by
  simp [mappedAt, entryAt, h]

/-- What keeps the slots apart in physical memory. -/
structure Tables (n : Nat) (dirs : Finset Nat) (tables : Nat) (reserved : Nat → Prop)
    (w : Words) : Prop where
  table : ∀ d ∈ dirs, ∀ i < tables, ∀ t, tableOf w d i = some t → t < n ∧ ¬ reserved t
  apart : ∀ d ∈ dirs, ∀ i < tables, ∀ d' ∈ dirs, ∀ i' < tables, ∀ t,
    tableOf w d i = some t → tableOf w d' i' = some t → d = d' ∧ i = i'
  entry : ∀ d ∈ dirs, ∀ i < tables, ∀ j < 1024, entryAt w d i j ≠ 0#32 →
    IsPresent (entryAt w d i j) ∧ frameNumber (entryAt w d i j) < n ∧
      ¬ reserved (frameNumber (entryAt w d i j))

/-! ## Writing an entry -/

section WriteEntry

variable (hdirs : ∀ d ∈ dirs, reserved d) (h : Tables n dirs tables reserved w)
  (hd : d ∈ dirs) (hi : i < tables) (ht : tableOf w d i = some t)

include hdirs h hd hi ht

/-- A word of a table is a word of no directory. -/
theorem tableOf_writeEntry (hd' : d' ∈ dirs) :
    tableOf (writeWord w t j e) d' i' = tableOf w d' i' := by
  have hne : d' ≠ t := fun heq => (h.table d hd i hi t ht).2 (heq ▸ hdirs d' hd')
  have hword : writeWord w t j e d' i' = w d' i' := by
    rw [writeWord_apply, if_neg fun hc => hne hc.1]
  rw [tableOf, hword, tableOf]

/-- A word of a table is one entry of one table. -/
theorem entryAt_writeEntry (hd' : d' ∈ dirs) (hi' : i' < tables) :
    entryAt (writeWord w t j e) d' i' j' =
      if d' = d ∧ i' = i ∧ j' = j then e else entryAt w d' i' j' := by
  unfold entryAt
  rw [tableOf_writeEntry hdirs h hd hi ht hd']
  cases htab : tableOf w d' i' with
  | none =>
    have hne : ¬ (d' = d ∧ i' = i ∧ j' = j) := by
      rintro ⟨rfl, rfl, -⟩
      rw [ht] at htab
      cases htab
    rw [if_neg hne]
  | some t' =>
    simp only [writeWord_apply]
    by_cases heq : t' = t
    · subst heq
      obtain ⟨rfl, rfl⟩ := h.apart d hd i hi d' hd' i' hi' t' ht htab
      simp
    · have hne : ¬ (d' = d ∧ i' = i ∧ j' = j) := by
        rintro ⟨rfl, rfl, -⟩
        exact heq (Option.some.inj (htab.symm.trans ht))
      rw [if_neg fun hc => heq hc.1, if_neg hne]

/-- Writing an entry that is zero or maps a frame that is not reserved. -/
theorem Tables.writeEntry
    (he : e ≠ 0#32 → IsPresent e ∧ frameNumber e < n ∧ ¬ reserved (frameNumber e)) :
    Tables n dirs tables reserved (writeWord w t j e) := by
  have htab : ∀ d' ∈ dirs, ∀ i', tableOf (writeWord w t j e) d' i' = tableOf w d' i' :=
    fun d' hd' i' => tableOf_writeEntry hdirs h hd hi ht hd'
  refine ⟨fun d' hd' i' hi' t' ht' => ?_, fun d₁ hd₁ i₁ hi₁ d₂ hd₂ i₂ hi₂ t' h₁ h₂ => ?_,
    fun d' hd' i' hi' j' hj' => ?_⟩
  · exact h.table d' hd' i' hi' t' (htab d' hd' i' ▸ ht')
  · exact h.apart d₁ hd₁ i₁ hi₁ d₂ hd₂ i₂ hi₂ t' (htab d₁ hd₁ i₁ ▸ h₁) (htab d₂ hd₂ i₂ ▸ h₂)
  · rw [entryAt_writeEntry hdirs h hd hi ht hd' hi']
    split
    · exact he
    · exact h.entry d' hd' i' hi' j' hj'

/-- One mapping is written : the counts move from the old frame to the new one. -/
theorem uses_writeEntry (hj : j < 1024) (g : Nat) :
    tableUses dirs tables (writeWord w t j e) g = tableUses dirs tables w g ∧
      pageUses dirs tables (writeWord w t j e) g + holds (mappedAt w d i j) g =
        pageUses dirs tables w g + holds (mappedBy e) g := by
  refine ⟨refs_congr (fun x hx => ?_) g, ?_⟩
  · exact tableOf_writeEntry hdirs h hd hi ht (mem_directorySlots.1 hx).1
  · have hslot : ((d, i), j) ∈ entrySlots dirs tables := mem_entrySlots.2 ⟨⟨hd, hi⟩, hj⟩
    have hself : mappedAt (writeWord w t j e) d i j = mappedBy e := by
      rw [mappedAt, entryAt_writeEntry hdirs h hd hi ht hd hi, if_pos ⟨rfl, rfl, rfl⟩]
    have hcount := refs_update (fun x => mappedAt w x.1.1 x.1.2 x.2)
      (fun x => mappedAt (writeWord w t j e) x.1.1 x.1.2 x.2) hslot
      (fun x hx hne => by
        obtain ⟨⟨d', i'⟩, j'⟩ := x
        obtain ⟨⟨hd', hi'⟩, -⟩ := mem_entrySlots.1 hx
        simp only [mappedAt]
        rw [entryAt_writeEntry hdirs h hd hi ht hd' hi', if_neg]
        rintro ⟨rfl, rfl, rfl⟩
        exact hne rfl) g
    rw [hself] at hcount
    exact hcount

end WriteEntry

/-! ## Creating a table -/

section CreateTable

variable (hdirs : ∀ d ∈ dirs, reserved d) (h : Tables n dirs tables reserved w)
  (hd : d ∈ dirs) (hi : i < tables) (hnone : tableOf w d i = none)
  (hfresh : ∀ d ∈ dirs, ∀ i < tables, tableOf w d i ≠ some f) (hf : f < n ∧ ¬ reserved f)
  (he0 : e ≠ 0#32) (hef : frameNumber e = f)

include hdirs h hd hi hnone hfresh hf he0 hef

theorem tableOf_createTable (hd' : d' ∈ dirs) :
    tableOf (writeWord (clearWords w f) d i e) d' i' =
      if d' = d ∧ i' = i then some f else tableOf w d' i' := by
  have hne : d' ≠ f := fun heq => hf.2 (heq ▸ hdirs d' hd')
  have hword : writeWord (clearWords w f) d i e d' i' =
      if d' = d ∧ i' = i then e else w d' i' := by
    rw [writeWord_apply, clearWords_apply, if_neg hne]
  rw [tableOf, hword]
  by_cases hat : d' = d ∧ i' = i
  · rw [if_pos hat, if_pos hat, if_neg he0, hef]
  · rw [if_neg hat, if_neg hat, tableOf]

/-- A new table is empty, so no entry changes. -/
theorem entryAt_createTable (hd' : d' ∈ dirs) (hi' : i' < tables) :
    entryAt (writeWord (clearWords w f) d i e) d' i' j' = entryAt w d' i' j' := by
  have hfd : f ≠ d := fun heq => hf.2 (heq ▸ hdirs d hd)
  unfold entryAt
  rw [tableOf_createTable hdirs h hd hi hnone hfresh hf he0 hef hd']
  by_cases hat : d' = d ∧ i' = i
  · obtain ⟨rfl, rfl⟩ := hat
    simp [hnone, writeWord_apply, clearWords_apply, hfd]
  · rw [if_neg hat]
    cases htab : tableOf w d' i' with
    | none => rfl
    | some t' =>
      have htf : t' ≠ f := fun heq => hfresh d' hd' i' hi' (heq ▸ htab)
      have htd : t' ≠ d := fun heq => (h.table d' hd' i' hi' t' htab).2 (heq ▸ hdirs d hd)
      simp [writeWord_apply, clearWords_apply, htf, htd]

theorem Tables.createTable :
    Tables n dirs tables reserved (writeWord (clearWords w f) d i e) := by
  have htab : ∀ d' ∈ dirs, ∀ i', tableOf (writeWord (clearWords w f) d i e) d' i' =
      if d' = d ∧ i' = i then some f else tableOf w d' i' :=
    fun d' hd' i' => tableOf_createTable hdirs h hd hi hnone hfresh hf he0 hef hd'
  have hent : ∀ d' ∈ dirs, ∀ i' < tables, ∀ j',
      entryAt (writeWord (clearWords w f) d i e) d' i' j' = entryAt w d' i' j' :=
    fun d' hd' i' hi' j' => entryAt_createTable hdirs h hd hi hnone hfresh hf he0 hef hd' hi'
  refine ⟨fun d' hd' i' hi' t' ht' => ?_, fun d₁ hd₁ i₁ hi₁ d₂ hd₂ i₂ hi₂ t' h₁ h₂ => ?_,
    fun d' hd' i' hi' j' hj' => hent d' hd' i' hi' j' ▸ h.entry d' hd' i' hi' j' hj'⟩
  · rw [htab d' hd' i'] at ht'
    split at ht'
    · exact Option.some.inj ht' ▸ hf
    · exact h.table d' hd' i' hi' t' ht'
  · rw [htab d₁ hd₁ i₁] at h₁
    rw [htab d₂ hd₂ i₂] at h₂
    split at h₁ <;> split at h₂
    · next h₁' h₂' => exact ⟨h₁'.1.trans h₂'.1.symm, h₁'.2.trans h₂'.2.symm⟩
    · exact absurd (h₂.trans h₁.symm) (hfresh d₂ hd₂ i₂ hi₂)
    · exact absurd (h₁.trans h₂.symm) (hfresh d₁ hd₁ i₁ hi₁)
    · exact h.apart d₁ hd₁ i₁ hi₁ d₂ hd₂ i₂ hi₂ t' h₁ h₂

/-- The new table is one use of its frame. -/
theorem uses_createTable (g : Nat) :
    tableUses dirs tables (writeWord (clearWords w f) d i e) g =
        tableUses dirs tables w g + holds (some f) g ∧
      pageUses dirs tables (writeWord (clearWords w f) d i e) g = pageUses dirs tables w g := by
  refine ⟨?_, refs_congr (fun x hx => ?_) g⟩
  · have hslot : (d, i) ∈ directorySlots dirs tables := mem_directorySlots.2 ⟨hd, hi⟩
    have hcount := refs_update (fun x => tableOf w x.1 x.2)
      (fun x => tableOf (writeWord (clearWords w f) d i e) x.1 x.2) hslot
      (fun x hx hne => by
        rw [tableOf_createTable hdirs h hd hi hnone hfresh hf he0 hef (mem_directorySlots.1 hx).1,
          if_neg fun hc => hne (Prod.ext hc.1 hc.2)]) g
    simp only [tableOf_createTable hdirs h hd hi hnone hfresh hf he0 hef hd, and_self, if_true,
      hnone, holds_none, Nat.add_zero] at hcount
    exact hcount
  · obtain ⟨⟨d', i'⟩, j'⟩ := x
    obtain ⟨⟨hd', hi'⟩, -⟩ := mem_entrySlots.1 hx
    simp only [mappedAt]
    rw [entryAt_createTable hdirs h hd hi hnone hfresh hf he0 hef hd' hi']

end CreateTable

/-! ## The invariant -/

/-- The counters are the uses, and the free frames are the unused ones of the list. -/
structure Inv (n : Nat) (dirs : Finset Nat) (tables : Nat) (reserved : Nat → Prop)
    (m : KernMemory) : Prop where
  slots : Tables n dirs tables reserved m.words
  nodup : m.freeFrameList.Nodup
  free : ∀ f ∈ m.freeFrameList, f < n ∧ ¬ reserved f ∧ m.references f = 0
  counts : ∀ f < n, ¬ reserved f →
    m.references f = (tableUses dirs tables m.words f + pageUses dirs tables m.words f : Nat)

/-- A frame handed out by `allocate_frame` and not given back. -/
structure Allocated (n : Nat) (reserved : Nat → Prop) (m : KernMemory) (f : Nat) : Prop where
  lt : f < n
  notReserved : ¬ reserved f
  notFree : f ∉ m.freeFrameList

variable {m m' : KernMemory} {rest : List Nat} {va : Nat} {perm : BitVec 32}

namespace Inv

/-- A free frame is used by no slot. -/
theorem unused (h : Inv n dirs tables reserved m) (hf : f ∈ m.freeFrameList) :
    tableUses dirs tables m.words f = 0 ∧ pageUses dirs tables m.words f = 0 := by
  obtain ⟨hlt, hres, href⟩ := h.free f hf
  have hcount := h.counts f hlt hres
  omega

theorem fresh (h : Inv n dirs tables reserved m) (hf : f ∈ m.freeFrameList) :
    ∀ d ∈ dirs, ∀ i < tables, tableOf m.words d i ≠ some f := fun d hd i hi =>
  refs_eq_zero_iff.1 (h.unused hf).1 (d, i) (mem_directorySlots.2 ⟨hd, hi⟩)

/-- A frame with a reference is not free. -/
theorem notFree (h : Inv n dirs tables reserved m) (hf : 0 < m.references f) :
    f ∉ m.freeFrameList := fun hfree => by
  have href := (h.free f hfree).2.2
  omega

/-- A frame that a user page maps is allocated. -/
theorem allocated_of_mapped (h : Inv n dirs tables reserved m) (hd : d ∈ dirs) (hi : i < tables)
    (hj : j < 1024) (hf : mappedAt m.words d i j = some f) :
    Allocated n reserved m f ∧ 0 < m.references f := by
  unfold mappedAt mappedBy at hf
  split at hf
  · next hpresent =>
    obtain rfl := Option.some.inj hf
    obtain ⟨-, hlt, hres⟩ := h.slots.entry d hd i hi j hj hpresent.ne_zero
    have hpos : 0 < pageUses dirs tables m.words (frameNumber (entryAt m.words d i j)) :=
      refs_pos (s := ((d, i), j)) (mem_entrySlots.2 ⟨⟨hd, hi⟩, hj⟩) (if_pos hpresent)
    have hcount := h.counts _ hlt hres
    exact ⟨⟨hlt, hres, h.notFree (by omega)⟩, by omega⟩
  · cases hf

/-- A frame with one reference that a user page maps is no page table. -/
theorem tableOf_ne_of_mapped (h : Inv n dirs tables reserved m) (hd : d ∈ dirs) (hi : i < tables)
    (hj : j < 1024) (hf : mappedAt m.words d i j = some f) (hone : m.references f = 1) :
    ∀ d' ∈ dirs, ∀ i' < tables, tableOf m.words d' i' ≠ some f := by
  have halloc := (h.allocated_of_mapped hd hi hj hf).1
  have hpage : 0 < pageUses dirs tables m.words f :=
    refs_pos (s := ((d, i), j)) (mem_entrySlots.2 ⟨⟨hd, hi⟩, hj⟩) hf
  have hcount := h.counts f halloc.lt halloc.notReserved
  have hnone : tableUses dirs tables m.words f = 0 := by omega
  exact fun d' hd' i' hi' => refs_eq_zero_iff.1 hnone (d', i') (mem_directorySlots.2 ⟨hd', hi'⟩)

theorem allocated_of_pageUses (h : Inv n dirs tables reserved m)
    (hf : 0 < pageUses dirs tables m.words f) : Allocated n reserved m f := by
  obtain ⟨⟨⟨d, i⟩, j⟩, hx⟩ := Finset.card_pos.1 hf
  obtain ⟨hslot, hmap⟩ := Finset.mem_filter.1 hx
  obtain ⟨⟨hd, hi⟩, hj⟩ := mem_entrySlots.1 hslot
  exact (h.allocated_of_mapped hd hi hj hmap).1

/-- The head of the list is handed out. -/
theorem allocate (h : Inv n dirs tables reserved m) (hl : m.freeFrameList = f :: rest) :
    Inv n dirs tables reserved { m.setReferences f 0 with freeFrameList := rest } := by
  have hmem : ∀ g ∈ rest, g ∈ m.freeFrameList := fun g hg => hl ▸ List.mem_cons_of_mem f hg
  have hself : (m.setReferences f 0).references = m.references := by
    refine Function.update_eq_self_iff.2 ?_
    exact (h.free f (hl ▸ List.mem_cons_self)).2.2.symm
  refine ⟨h.slots, ?_, fun g hg => ?_, fun g hlt hres => ?_⟩
  · have hnd := h.nodup
    rw [hl] at hnd
    exact (List.nodup_cons.1 hnd).2
  · exact hself ▸ h.free g (hmem g hg)
  · exact hself ▸ h.counts g hlt hres

/-- An allocated frame that nothing uses is given back. -/
theorem release (h : Inv n dirs tables reserved m) (hf : Allocated n reserved m f)
    (href : m.references f = 0) : Inv n dirs tables reserved (m.freeFrame f) := by
  refine ⟨h.slots, List.nodup_cons.2 ⟨hf.notFree, h.nodup⟩, fun g hg => ?_, h.counts⟩
  rcases List.mem_cons.1 hg with rfl | hg
  · exact ⟨hf.lt, hf.notReserved, href⟩
  · exact h.free g hg

/-- A table is created in the head of the list. -/
theorem createTable (hdirs : ∀ d ∈ dirs, reserved d) (h : Inv n dirs tables reserved m)
    (hd : d ∈ dirs) (hi : i < tables) (hnone : tableOf m.words d i = none)
    (hl : m.freeFrameList = f :: rest) (he0 : e ≠ 0#32) (hef : frameNumber e = f) :
    Inv n dirs tables reserved
      (((({ m.setReferences f 0 with freeFrameList := rest } : KernMemory).clearFrame
        f).setReferences f 1).setWord d i e) := by
  have hmem : f ∈ m.freeFrameList := hl ▸ List.mem_cons_self
  obtain ⟨hlt, hres, href⟩ := h.free f hmem
  have ha := h.allocate hl
  have hnd := h.nodup
  rw [hl, List.nodup_cons] at hnd
  refine ⟨?_, ha.nodup, fun g hg => ?_, fun g hglt hgres => ?_⟩
  · exact h.slots.createTable hdirs hd hi hnone (h.fresh hmem) ⟨hlt, hres⟩ he0 hef
  · have hne : g ≠ f := fun heq => hnd.1 (heq ▸ hg)
    have hg' := ha.free g hg
    simp only [setReferences, setWord, clearFrame, Function.update_of_ne hne] at hg' ⊢
    exact hg'
  · obtain ⟨htable, hpage⟩ := uses_createTable hdirs h.slots hd hi hnone (h.fresh hmem)
      ⟨hlt, hres⟩ he0 hef g
    have hcount := h.counts g hglt hgres
    simp only [setReferences, setWord, clearFrame]
    rw [htable, hpage]
    by_cases hne : g = f
    · subst hne
      rw [Function.update_self, holds_self]
      omega
    · rw [Function.update_of_ne hne, Function.update_of_ne hne, holds_of_ne (Ne.symm hne)]
      omega

theorem decrementReferences_cases (m : KernMemory) (f : Nat) :
    (m.references f = 1 ∧
        m.decrementReferences f = (m.setReferences f (m.references f - 1)).freeFrame f) ∨
      (m.references f ≠ 1 ∧
        m.decrementReferences f = m.setReferences f (m.references f - 1)) := by
  have hself : (m.setReferences f (m.references f - 1)).references f = m.references f - 1 :=
    Function.update_self _ _ _
  unfold decrementReferences
  simp only [hself]
  by_cases h1 : m.references f = 1
  · exact .inl ⟨h1, if_pos (by omega)⟩
  · exact .inr ⟨h1, if_neg (by omega)⟩

theorem decrementReferences_words (m : KernMemory) (f : Nat) :
    (m.decrementReferences f).words = m.words := by
  rcases decrementReferences_cases m f with ⟨-, heq⟩ | ⟨-, heq⟩ <;> rw [heq] <;> rfl

theorem decrementReferences_references (m : KernMemory) (f : Nat) :
    (m.decrementReferences f).references = Function.update m.references f (m.references f - 1) := by
  rcases decrementReferences_cases m f with ⟨-, heq⟩ | ⟨-, heq⟩ <;> rw [heq] <;> rfl

/-- The mapping of an entry is cleared, and its frame freed if that was its last use. -/
theorem clearEntry (hdirs : ∀ d ∈ dirs, reserved d) (h : Inv n dirs tables reserved m)
    (hd : d ∈ dirs) (hi : i < tables) (hj : j < 1024) (ht : tableOf m.words d i = some t)
    (hf : mappedAt m.words d i j = some f) :
    Inv n dirs tables reserved ((m.decrementReferences f).setWord t j 0#32) := by
  obtain ⟨hall, hpos⟩ := h.allocated_of_mapped hd hi hj hf
  have hwords : ((m.decrementReferences f).setWord t j 0#32).words =
      writeWord m.words t j 0#32 := by
    rw [setWord, decrementReferences_words]
  have hrefs : ((m.decrementReferences f).setWord t j 0#32).references =
      Function.update m.references f (m.references f - 1) := decrementReferences_references m f
  have hlist : ((m.decrementReferences f).setWord t j 0#32).freeFrameList =
      (m.decrementReferences f).freeFrameList := rfl
  have hne : ∀ g ∈ m.freeFrameList, g ≠ f := fun g hg heq => hall.notFree (heq ▸ hg)
  have hold : ∀ g ∈ m.freeFrameList, g < n ∧ ¬ reserved g ∧
      Function.update m.references f (m.references f - 1) g = 0 := fun g hg => by
    rw [Function.update_of_ne (hne g hg)]
    exact h.free g hg
  refine ⟨?_, ?_, ?_, fun g hlt hres => ?_⟩
  · rw [hwords]
    exact h.slots.writeEntry hdirs hd hi ht fun h0 => absurd rfl h0
  · rw [hlist]
    rcases decrementReferences_cases m f with ⟨-, heq⟩ | ⟨-, heq⟩ <;> rw [heq]
    · exact List.nodup_cons.2 ⟨hall.notFree, h.nodup⟩
    · exact h.nodup
  · rw [hlist, hrefs]
    rcases decrementReferences_cases m f with ⟨h1, heq⟩ | ⟨-, heq⟩ <;> rw [heq]
    · intro g hg
      rcases List.mem_cons.1 hg with rfl | hg
      · exact ⟨hall.lt, hall.notReserved, by rw [Function.update_self]; omega⟩
      · exact hold g hg
    · exact hold
  · rw [hwords, hrefs]
    obtain ⟨htable, hpage⟩ := uses_writeEntry (e := 0#32) hdirs h.slots hd hi ht hj g
    have hcount := h.counts g hlt hres
    rw [hf, mappedBy_zero, holds_none] at hpage
    rw [htable]
    by_cases hgf : g = f
    · subst hgf
      rw [holds_self] at hpage
      rw [Function.update_self]
      omega
    · rw [holds_of_ne (Ne.symm hgf)] at hpage
      rw [Function.update_of_ne hgf]
      omega

/-- An allocated frame is mapped by an entry that mapped none. -/
theorem insertEntry (hdirs : ∀ d ∈ dirs, reserved d) (hn : n ≤ 1048576)
    (h : Inv n dirs tables reserved m) (hd : d ∈ dirs) (hi : pdx va < tables)
    (ht : tableOf m.words d (pdx va) = some t)
    (hnone : mappedAt m.words d (pdx va) (ptx va) = none) (hf : Allocated n reserved m f)
    (hp : IsPerm perm) : Inv n dirs tables reserved (m.insertEntry t va f perm) := by
  have hj : ptx va < 1024 := Nat.mod_lt _ (by decide)
  have hpp : IsPerm (perm ||| permPresent) := hp.or (by decide)
  have hpresent := isPresent_constructEntry (toPhysicalAddress f) perm
  have hframe : frameNumber (constructEntry (toPhysicalAddress f) (perm ||| permPresent)) = f :=
    frameNumber_constructEntry (Nat.lt_of_lt_of_le hf.lt hn) hpp
  have hmapped : mappedBy (constructEntry (toPhysicalAddress f) (perm ||| permPresent)) =
      some f := by
    rw [mappedBy, if_pos hpresent, hframe]
  refine ⟨?_, h.nodup, fun g hg => ?_, fun g hlt hres => ?_⟩
  · exact h.slots.writeEntry hdirs hd hi ht fun _ =>
      ⟨hpresent, hframe.symm ▸ hf.lt, hframe.symm ▸ hf.notReserved⟩
  · have hne : g ≠ f := fun heq => hf.notFree (heq ▸ hg)
    have hg' := h.free g hg
    simp only [KernMemory.insertEntry, setReferences, setWord, Function.update_of_ne hne]
    exact hg'
  · obtain ⟨htable, hpage⟩ := uses_writeEntry
      (e := constructEntry (toPhysicalAddress f) (perm ||| permPresent)) hdirs h.slots hd hi ht hj g
    have hcount := h.counts g hlt hres
    rw [hnone, hmapped, holds_none, Nat.add_zero] at hpage
    simp only [KernMemory.insertEntry, setReferences, setWord]
    rw [htable, hpage]
    by_cases hgf : g = f
    · subst hgf
      rw [Function.update_self, holds_self]
      omega
    · rw [Function.update_of_ne hgf, holds_of_ne (Ne.symm hgf)]
      omega

end Inv

/-! ## The functions -/

section Functions

variable (hdirs : ∀ d ∈ dirs, reserved d) (hn : n ≤ 1048576) (hpos : 0 < n)
  (h : Inv n dirs tables reserved m) (hd : d ∈ dirs) (hi : pdx va < tables)

include hdirs hn hpos h hd hi

theorem kVirtualFrame_directory :
    ∃ t, Boot.kVirtualFrame n (extractAddress (m.words d (pdx va))) = some t ∧
      ∀ t', tableOf m.words d (pdx va) = some t' → t' = t := by
  unfold Boot.kVirtualFrame
  by_cases h0 : m.words d (pdx va) = 0#32
  · refine ⟨0, ?_, fun t' ht' => ?_⟩
    · rw [h0]
      exact if_pos hpos
    · simp [tableOf, h0] at ht'
  · have ht : tableOf m.words d (pdx va) = some (frameNumber (m.words d (pdx va))) := if_neg h0
    have hlt := (h.slots.table d hd _ hi _ ht).1
    refine ⟨frameNumber (m.words d (pdx va)), if_pos hlt, fun t' ht' => ?_⟩
    exact Option.some.inj (ht'.symm.trans ht)

/-- `get_page_table` finds the table that is there. -/
theorem getPageTable_of_some {create : Bool} (ht : tableOf m.words d (pdx va) = some t) :
    m.getPageTable n d va create = some ((.ok, some t), m) := by
  obtain ⟨t', ht', hall⟩ := kVirtualFrame_directory hdirs hn hpos h hd hi
  obtain rfl := hall t ht
  have h0 : m.words d (pdx va) ≠ 0#32 := fun h0 => by simp [tableOf, h0] at ht
  simp [getPageTable, ht', h0]

/-- The directory entry of a missing table is zero, which reads as frame zero. -/
theorem kVirtualFrame_of_none (ht : tableOf m.words d (pdx va) = none) :
    m.words d (pdx va) = 0#32 ∧ ∃ t, Boot.kVirtualFrame n (extractAddress 0#32) = some t := by
  obtain ⟨t, ht', -⟩ := kVirtualFrame_directory hdirs hn hpos h hd hi
  have h0 : m.words d (pdx va) = 0#32 := by
    by_contra h0
    simp [tableOf, h0] at ht
  exact ⟨h0, t, h0 ▸ ht'⟩

/-- Without a table and without `create`, there is none. -/
theorem getPageTable_false (ht : tableOf m.words d (pdx va) = none) :
    m.getPageTable n d va false = some ((.ok, none), m) := by
  obtain ⟨h0, t', ht'⟩ := kVirtualFrame_of_none hdirs hn hpos h hd hi ht
  simp [getPageTable, ht', h0]

/-- Without a table and without a free frame, `get_page_table` returns `E_NO_MEM`. -/
theorem getPageTable_noMem (ht : tableOf m.words d (pdx va) = none)
    (hl : m.freeFrameList = []) : m.getPageTable n d va true = some ((.noMem, none), m) := by
  obtain ⟨h0, t', ht'⟩ := kVirtualFrame_of_none hdirs hn hpos h hd hi ht
  simp [getPageTable, ht', h0, allocateFrame, hl]

/-- Without a table, the head of the list becomes an empty one. -/
theorem getPageTable_create (ht : tableOf m.words d (pdx va) = none)
    (hl : m.freeFrameList = f :: rest) :
    ∃ m', m.getPageTable n d va true = some ((.ok, some f), m') ∧
      Inv n dirs tables reserved m' ∧ tableOf m'.words d (pdx va) = some f ∧
      mappedAt m'.words d (pdx va) (ptx va) = none ∧ m'.freeFrameList = rest := by
  obtain ⟨h0, t', ht'⟩ := kVirtualFrame_of_none hdirs hn hpos h hd hi ht
  obtain ⟨hlt, hres, -⟩ := h.free f (hl ▸ List.mem_cons_self)
  have hf : f < 1048576 := Nat.lt_of_lt_of_le hlt hn
  have hphys : Boot.kVirtualFrame n (toPhysicalAddress f) = some f := by
    rw [Boot.kVirtualFrame, ppn_toPhysicalAddress hf, if_pos hlt]
  -- the entry of the new table
  have hp : IsPerm (permPresent ||| permUser ||| permWriteable) := by decide
  have hperm : permPresent ||| permUser ||| permWriteable =
      (permUser ||| permWriteable) ||| permPresent := by decide
  have hef := frameNumber_constructEntry hf hp
  have he0 : constructEntry (toPhysicalAddress f) (permPresent ||| permUser ||| permWriteable) ≠
      0#32 := by
    rw [hperm]
    exact (isPresent_constructEntry _ _).ne_zero
  have hinv := h.createTable hdirs hd hi ht hl he0 hef
  have hfresh := h.fresh (hl ▸ List.mem_cons_self : f ∈ m.freeFrameList)
  refine ⟨_, ?_, hinv, ?_, ?_, rfl⟩
  · simp [getPageTable, ht', h0, allocateFrame, hl, hphys]
  · simp only [setWord, setReferences, clearFrame]
    rw [tableOf_createTable hdirs h.slots hd hi ht hfresh ⟨hlt, hres⟩ he0 hef hd,
      if_pos ⟨rfl, rfl⟩]
  · simp only [setWord, setReferences, clearFrame, mappedAt]
    rw [entryAt_createTable hdirs h.slots hd hi ht hfresh ⟨hlt, hres⟩ he0 hef hd hi]
    exact mappedAt_of_none ht

/-- `unmap_frame` clears a mapping. -/
theorem unmapFrame_of_mapped (ht : tableOf m.words d (pdx va) = some t)
    (h0 : m.words t (ptx va) ≠ 0#32) :
    mappedAt m.words d (pdx va) (ptx va) = some (frameNumber (m.words t (ptx va))) ∧
      m.unmapFrame n d va = some
        ((m.decrementReferences (frameNumber (m.words t (ptx va)))).setWord t (ptx va) 0#32) := by
  have hget : m.getPageTable n d va false = some ((.ok, some t), m) :=
    getPageTable_of_some hdirs hn hpos h hd hi ht
  have hent := h.slots.entry d hd _ hi (ptx va) (Nat.mod_lt _ (by decide))
    (by rwa [entryAt_of_some ht])
  rw [entryAt_of_some ht] at hent
  have hframe : toFrameInfo n (extractAddress (m.words t (ptx va))) =
      some (frameNumber (m.words t (ptx va))) := if_pos hent.2.1
  refine ⟨?_, by simp [unmapFrame, getFrameInfo, hget, h0, hframe]⟩
  rw [mappedAt, entryAt_of_some ht, mappedBy, if_pos hent.1]

/-- `unmap_frame` clears a mapping, and does nothing where there is none. -/
theorem unmapFrame_spec :
    ∃ m', m.unmapFrame n d va = some m' ∧ Inv n dirs tables reserved m' := by
  cases ht : tableOf m.words d (pdx va) with
  | none =>
    have hget := getPageTable_false hdirs hn hpos h hd hi ht
    exact ⟨m, by simp [unmapFrame, getFrameInfo, hget], h⟩
  | some t =>
    by_cases h0 : m.words t (ptx va) = 0#32
    · have hget : m.getPageTable n d va false = some ((.ok, some t), m) :=
        getPageTable_of_some hdirs hn hpos h hd hi ht
      exact ⟨m, by simp [unmapFrame, getFrameInfo, hget, h0], h⟩
    · obtain ⟨hmap, hun⟩ := unmapFrame_of_mapped hdirs hn hpos h hd hi ht h0
      exact ⟨_, hun, h.clearEntry hdirs hd hi (Nat.mod_lt _ (by decide)) ht hmap⟩

/-- The end of `map_frame`, once the table is there : the entry is left if it maps the
frame, and written otherwise, after the old frame is unmapped. -/
theorem mapFrame_of_table (hp : IsPerm perm) (hf : Allocated n reserved m f)
    (ht : tableOf m.words d (pdx va) = some t) {m₀ : KernMemory}
    (hget : m₀.getPageTable n d va true = some ((.ok, some t), m)) :
    ∃ m', m₀.mapFrame n d f va perm = some (.ok, m') ∧ Inv n dirs tables reserved m' := by
  by_cases hpresent : IsPresent (m.words t (ptx va))
  · by_cases hsame : extractAddress (m.words t (ptx va)) = toPhysicalAddress f
    · exact ⟨m, by simp [mapFrame, hget, hpresent, hsame], h⟩
    · obtain ⟨hmap, hun⟩ := unmapFrame_of_mapped hdirs hn hpos h hd hi ht hpresent.ne_zero
      have hj : ptx va < 1024 := Nat.mod_lt _ (by decide)
      have hinv := h.clearEntry hdirs hd hi hj ht hmap
      -- the frame unmapped is another one
      have hne : f ≠ frameNumber (m.words t (ptx va)) := fun heq =>
        hsame (heq ▸ (toPhysicalAddress_frameNumber _).symm)
      have hwords : ((m.decrementReferences (frameNumber (m.words t (ptx va)))).setWord t (ptx va)
          0#32).words = writeWord m.words t (ptx va) 0#32 := by
        rw [setWord, Inv.decrementReferences_words]
      refine ⟨_, ?_, hinv.insertEntry hdirs hn hd hi (t := t) (f := f) ?_ ?_ ?_ hp⟩
      · simp [mapFrame, hget, hpresent, hsame, hun]
      · rw [hwords, tableOf_writeEntry hdirs h.slots hd hi ht hd, ht]
      · rw [hwords, mappedAt, entryAt_writeEntry hdirs h.slots hd hi ht hd hi,
          if_pos ⟨rfl, rfl, rfl⟩, mappedBy_zero]
      · refine ⟨hf.lt, hf.notReserved, fun hfree => ?_⟩
        rcases Inv.decrementReferences_cases m (frameNumber (m.words t (ptx va))) with
          ⟨-, heq⟩ | ⟨-, heq⟩ <;> rw [setWord, heq] at hfree
        · exact (List.mem_cons.1 hfree).elim hne hf.notFree
        · exact hf.notFree hfree
  · refine ⟨_, ?_, h.insertEntry hdirs hn hd hi ht ?_ hf hp⟩
    · simp [mapFrame, hget, hpresent]
    rw [mappedAt, entryAt_of_some ht, mappedBy, if_neg hpresent]

/-- `map_frame` returns `E_NO_MEM` when the table is missing and no frame is free, with
nothing changed, and succeeds otherwise. -/
theorem mapFrame_spec (hp : IsPerm perm) (hf : Allocated n reserved m f) :
    (tableOf m.words d (pdx va) = none ∧ m.freeFrameList = [] ∧
        m.mapFrame n d f va perm = some (.noMem, m)) ∨
      (¬ (tableOf m.words d (pdx va) = none ∧ m.freeFrameList = []) ∧
        ∃ m', m.mapFrame n d f va perm = some (.ok, m') ∧ Inv n dirs tables reserved m') := by
  cases ht : tableOf m.words d (pdx va) with
  | some t =>
    exact .inr ⟨fun hc => Option.some_ne_none t hc.1,
      mapFrame_of_table hdirs hn hpos h hd hi hp hf ht
        (getPageTable_of_some hdirs hn hpos h hd hi ht)⟩
  | none =>
    cases hl : m.freeFrameList with
    | nil =>
      have hget := getPageTable_noMem hdirs hn hpos h hd hi ht hl
      exact .inl ⟨rfl, rfl, by simp [mapFrame, hget]⟩
    | cons g rest =>
      obtain ⟨m', hget, hinv, ht', -, hl'⟩ := getPageTable_create hdirs hn hpos h hd hi ht hl
      have hf' : Allocated n reserved m' f :=
        ⟨hf.lt, hf.notReserved, fun hfree => hf.notFree (by
          rw [hl]
          exact List.mem_cons_of_mem g (hl' ▸ hfree))⟩
      exact .inr ⟨fun hc => List.cons_ne_nil g rest hc.2,
        mapFrame_of_table hdirs hn hpos hinv hd hi hp hf' ht' hget⟩

end Functions

/-! ## Runs -/

/-- The directory entries that have an address below `USER_TOP`. -/
def userTables (userTop : Nat) : Nat :=
  (userTop + 4194303) / 4194304

theorem pdx_lt_userTables {userTop : Nat} (h : va < userTop) : pdx va < userTables userTop := by
  unfold pdx userTables
  omega

/-- An allocated frame that is not mapped, and that no directory uses as a page table. -/
structure Spare (n : Nat) (dirs : Finset Nat) (tables : Nat) (reserved : Nat → Prop)
    (m : KernMemory) (f : Nat) : Prop extends Allocated n reserved m f where
  notTable : tableUses dirs tables m.words f = 0
  notMapped : pageUses dirs tables m.words f = 0

/-- The frames `map_frame` is called with : spare, or mapped by a user page. -/
def Mappable (n : Nat) (dirs : Finset Nat) (tables : Nat) (reserved : Nat → Prop)
    (m : KernMemory) (f : Nat) : Prop :=
  Spare n dirs tables reserved m f ∨ 0 < pageUses dirs tables m.words f

/-- The calls are made on the directories at user addresses, with such frames. -/
def Admissible (n : Nat) (dirs : Finset Nat) (userTop : Nat) (reserved : Nat → Prop)
    (m : KernMemory) : Call → Prop
  | .allocate => True
  | .map d f va _ => d ∈ dirs ∧ va < userTop ∧ Mappable n dirs (userTables userTop) reserved m f
  | .unmap d va => d ∈ dirs ∧ va < userTop
  | .free f => Spare n dirs (userTables userTop) reserved m f

theorem Inv.allocated_of_mappable (h : Inv n dirs tables reserved m)
    (hf : Mappable n dirs tables reserved m f) : Allocated n reserved m f :=
  hf.elim (fun hspare => hspare.toAllocated) h.allocated_of_pageUses

/-- An admissible call returns and keeps the invariant. -/
theorem step_spec {userTop : Nat} (hdirs : ∀ d ∈ dirs, reserved d) (hn : n ≤ 1048576)
    (hpos : 0 < n) (h : Inv n dirs (userTables userTop) reserved m) {c : Call}
    (hc : Admissible n dirs userTop reserved m c) :
    ∃ m', m.step n c = some m' ∧ Inv n dirs (userTables userTop) reserved m' := by
  cases c with
  | allocate =>
    cases hl : m.freeFrameList with
    | nil => exact ⟨m, by simp [step, allocateFrame, hl], h⟩
    | cons f rest => exact ⟨_, by simp [step, allocateFrame, hl], h.allocate hl⟩
  | map d f va perm =>
    obtain ⟨hd, hva, hf⟩ := hc
    rcases mapFrame_spec hdirs hn hpos h hd (pdx_lt_userTables hva) (isPerm_setWidth perm)
      (h.allocated_of_mappable hf) with ⟨-, -, hmap⟩ | ⟨-, m', hmap, hinv⟩
    · exact ⟨m, by simp [step, hmap], h⟩
    · exact ⟨m', by simp [step, hmap], hinv⟩
  | unmap d va => exact unmapFrame_spec hdirs hn hpos h hc.1 (pdx_lt_userTables hc.2)
  | free f =>
    have href : m.references f = 0 := by
      rw [h.counts f hc.lt hc.notReserved, hc.notTable, hc.notMapped]
      rfl
    exact ⟨_, rfl, h.release hc.toAllocated href⟩

/-- The frames on the list `initialize_paging` leaves are there once, without references. -/
theorem freeFrameList_of_boot {l : Layout} {words : Words} {bootCalls : List Boot.Call}
    {b : Boot.State} {framesInfo : Nat → FrameInfo} {frames : Boot.Frames}
    (hboot : Machine.run (Boot.step l .kern n) (Boot.start words) bootCalls = some b)
    (hcovers : Boot.Covers l n b)
    (hpaging : Boot.initializePaging l .kern n b.ptrFreeMem framesInfo = some frames) :
    0 < n ∧ ∀ f ∈ frames.freeFrameList,
      f < n ∧ frames.freeFrameList.count f = 1 ∧ (frames.framesInfo f).references = 0 := by
  have hend : Boot.AtEnd l b :=
    (Boot.exists_initializePaging_iff hboot hcovers).1 ⟨frames, hpaging⟩
  obtain ⟨last, hlast, heq⟩ := hend.last
  obtain ⟨-, hhi, hlt⟩ := hcovers last hlast
  have hle := hend.le
  have hge := l.endOfKernel_ge
  have hmem := l.lowMemory
  have hhole := l.ioHole
  have hspec := Boot.initializePaging_spec (n := n) (by omega) (by omega) (by omega) hpaging
  refine ⟨?_, fun f hf => ?_⟩
  · unfold pageSize at hhi
    omega
  · have hpos := List.count_pos_iff.2 hf
    rw [(hspec f).1] at hpos
    split at hpos
    · next hfree => exact ⟨hfree.1, by rw [(hspec f).1, if_pos hfree],
        by rw [(hspec f).2 hfree.1, if_neg hfree.2]⟩
    · exact absurd hpos (by decide)

/-- `initialize_paging` leaves the invariant, with the frames off its list reserved. -/
theorem inv_start {frames : Boot.Frames} (hlist : ∀ f ∈ frames.freeFrameList,
      f < n ∧ frames.freeFrameList.count f = 1 ∧ (frames.framesInfo f).references = 0)
    (hzero : ∀ d ∈ dirs, ∀ i < tables, w d i = 0#32) :
    Inv n dirs tables (fun f => f ∉ frames.freeFrameList) (ofFrames frames w) := by
  have hnone : ∀ d ∈ dirs, ∀ i < tables, tableOf w d i = none := fun d hd i hi =>
    if_pos (hzero d hd i hi)
  refine ⟨⟨fun d hd i hi t ht => ?_, fun d hd i hi d' _ i' _ t ht => ?_,
    fun d hd i hi j _ hent => ?_⟩, ?_, fun f hf => ?_, fun f hlt hres => ?_⟩
  · cases (hnone d hd i hi).symm.trans ht
  · cases (hnone d hd i hi).symm.trans ht
  · exact absurd (by simp [ofFrames, entryAt, hnone d hd i hi]) hent
  · refine List.nodup_iff_count_le_one.2 fun f => ?_
    by_cases hf : f ∈ frames.freeFrameList
    · exact (hlist f hf).2.1.le
    · exact (List.count_eq_zero_of_not_mem hf).le.trans (by decide)
  · exact ⟨(hlist f hf).1, not_not.2 hf, (hlist f hf).2.2⟩
  · have htable : tableUses dirs tables w f = 0 := refs_eq_zero_iff.2 fun x hx => by
      obtain ⟨hd, hi⟩ := mem_directorySlots.1 hx
      simp [hnone _ hd _ hi]
    have hpage : pageUses dirs tables w f = 0 := refs_eq_zero_iff.2 fun x hx => by
      obtain ⟨⟨hd, hi⟩, -⟩ := mem_entrySlots.1 hx
      simp [mappedAt_of_none (hnone _ hd _ hi)]
    rw [ofFrames, htable, hpage]
    exact (hlist f (not_not.1 hres)).2.2

/-- The reference counts of `kern/memory_manager.c`. After any boot calls that the frames
cover, and `initialize_paging`, take user directories in reserved frames whose user half
is zero. Along every run of admissible calls the free frame list has no duplicates and
holds frames that nothing uses, the counter of every frame that is not reserved is the
number of its uses, every admissible call returns, and `map_frame` returns `E_NO_MEM`
exactly when the table is missing and the list is empty, with nothing changed. -/
theorem reference_counts {l : Layout} {userTop : Nat} {words : Words} {bootCalls : List Boot.Call}
    {b : Boot.State} {framesInfo : Nat → FrameInfo} {frames : Boot.Frames} {calls : List Call}
    (hn : n ≤ 1048576)
    (hboot : Machine.run (Boot.step l .kern n) (Boot.start words) bootCalls = some b)
    (hcovers : Boot.Covers l n b)
    (hpaging : Boot.initializePaging l .kern n b.ptrFreeMem framesInfo = some frames)
    (hdirs : ∀ d ∈ dirs, d < n ∧ d ∉ frames.freeFrameList)
    (hzero : ∀ d ∈ dirs, ∀ i < userTables userTop, b.words d i = 0#32)
    (hcalls : Machine.Meets (step n)
      (Admissible n dirs userTop fun f => f ∉ frames.freeFrameList) (ofFrames frames b.words) calls)
    (hrun : Machine.run (step n) (ofFrames frames b.words) calls = some m) :
    m.freeFrameList.Nodup ∧
      (∀ f ∈ m.freeFrameList, m.references f = 0 ∧
        tableUses dirs (userTables userTop) m.words f = 0 ∧
        pageUses dirs (userTables userTop) m.words f = 0) ∧
      (∀ f ∈ frames.freeFrameList, m.references f =
        (tableUses dirs (userTables userTop) m.words f +
          pageUses dirs (userTables userTop) m.words f : Nat)) ∧
      (∀ c, Admissible n dirs userTop (fun f => f ∉ frames.freeFrameList) m c →
        ∃ m', m.step n c = some m') ∧
      ∀ d ∈ dirs, ∀ va < userTop, ∀ f,
        Mappable n dirs (userTables userTop) (fun f => f ∉ frames.freeFrameList) m f →
        ∀ perm : BitVec 12, ∃ status m',
          m.mapFrame n d f va (perm.setWidth 32) = some (status, m') ∧
          (status = .noMem ↔ tableOf m.words d (pdx va) = none ∧ m.freeFrameList = []) ∧
          (status = .noMem → m' = m) := by
  obtain ⟨hpos, hlist⟩ := freeFrameList_of_boot hboot hcovers hpaging
  have hinv : Inv n dirs (userTables userTop) (fun f => f ∉ frames.freeFrameList) m := by
    refine Machine.run_induction_of_meets (fun s c s' hs hc hstep => ?_)
      (inv_start hlist hzero) hcalls hrun
    obtain ⟨t, ht, hinv⟩ := step_spec (fun d hd => (hdirs d hd).2) hn hpos hs hc
    exact Option.some.inj (ht.symm.trans hstep) ▸ hinv
  refine ⟨hinv.nodup, fun f hf => ⟨(hinv.free f hf).2.2, hinv.unused hf⟩, fun f hf => ?_,
    fun c hc => ?_, fun d hd va hva f hf perm => ?_⟩
  · exact hinv.counts f (hlist f hf).1 (not_not.2 hf)
  · obtain ⟨m', hm', -⟩ := step_spec (fun d hd => (hdirs d hd).2) hn hpos hinv hc
    exact ⟨m', hm'⟩
  · rcases mapFrame_spec (fun d hd => (hdirs d hd).2) hn hpos hinv hd (pdx_lt_userTables hva)
      (isPerm_setWidth perm) (hinv.allocated_of_mappable hf) with
      ⟨htable, hnil, hmap⟩ | ⟨hnot, m', hmap, -⟩
    · exact ⟨.noMem, m, hmap, iff_of_true rfl ⟨htable, hnil⟩, fun _ => rfl⟩
    · exact ⟨.ok, m', hmap, iff_of_false (by decide) hnot, fun hc => absurd hc (by decide)⟩

/-- A kernel of no length, on memory with an I/O hole of one frame. -/
def smallLayout : Layout where
  kernelBase := 0xF0000000
  physIoMem := 0x3000
  physExtendedMem := 0x4000
  endOfKernel := 0xF0004000
  kernelBase_mod := Boot.fosLayout.kernelBase_mod
  kernelBase_gt := Boot.fosLayout.kernelBase_gt
  physIoMem_mod := by decide
  physExtendedMem_mod := by decide
  lowMemory := by decide
  ioHole := by decide
  endOfKernel_ge := by decide
  endOfKernel_lt := by decide

/-- The page directory is allocated, in frame 4. -/
def smallBoot : Boot.State :=
  { ptrFreeMem := 0xF0005000, words := fun _ _ => 0#32, allocated := [(0xF0004000, 4096)] }

/-- What `initialize_paging` leaves of ten frames. -/
def smallFrames : Boot.Frames :=
  (Boot.initializePaging smallLayout .kern 10 smallBoot.ptrFreeMem
    fun _ => initializeFrameInfo).getD ⟨fun _ => initializeFrameInfo, []⟩

/-- Frame 9 is allocated and mapped, with a page table in frame 8. -/
theorem smallFrames_references :
    ∃ m, Machine.run (step 10) (ofFrames smallFrames smallBoot.words)
        [.allocate, .map 4 9 0x1000 6] = some m ∧ m.references 9 = 1 ∧
      tableUses {4} 1 m.words 9 + pageUses {4} 1 m.words 9 = 1 ∧ m.references 8 = 1 ∧
      tableUses {4} 1 m.words 8 + pageUses {4} 1 m.words 8 = 1 := by
  have hlist : smallFrames.freeFrameList = [9, 8, 7, 6, 5, 2, 1] := by decide
  have hrun : (Machine.run (step 10) (ofFrames smallFrames smallBoot.words)
      [.allocate, .map 4 9 0x1000 6]).map (fun m => (m.references 9, m.references 8)) =
      some (1, 1) := by decide
  obtain ⟨m, hm, hrefs⟩ := Option.map_eq_some_iff.1 hrun
  obtain ⟨h9, h8⟩ := Prod.mk.inj hrefs
  have hmeets : Machine.Meets (step 10)
      (Admissible 10 {4} 0x400000 fun f => f ∉ smallFrames.freeFrameList)
      (ofFrames smallFrames smallBoot.words) [.allocate, .map 4 9 0x1000 6] := by
    refine ⟨trivial, fun s hs => ⟨⟨by decide, by decide, .inl ?_⟩, fun _ _ => trivial⟩⟩
    obtain rfl := Option.some.inj hs
    refine ⟨⟨by decide, not_not.2 (by rw [hlist]; decide), ?_⟩, ?_, ?_⟩
    · simp [allocateFrame, ofFrames, hlist]
    · exact refs_eq_zero_iff.2 fun x _ => by
        simp [allocateFrame, ofFrames, hlist, tableOf, setReferences, smallBoot]
    · exact refs_eq_zero_iff.2 fun x _ => by
        simp [allocateFrame, ofFrames, hlist, mappedAt, entryAt, tableOf, setReferences, smallBoot]
  have hboot : Machine.run (Boot.step smallLayout .kern 10) (Boot.start fun _ _ => 0#32)
      [.allocate 4096 4096] = some smallBoot := rfl
  have hpaging : Boot.initializePaging smallLayout .kern 10 smallBoot.ptrFreeMem
      (fun _ => initializeFrameInfo) = some smallFrames := rfl
  obtain ⟨-, -, hcounts, -⟩ := reference_counts (by decide) hboot (by decide) hpaging
    (by rw [hlist]; decide) (fun _ _ _ _ => rfl) hmeets hm
  have hc9 := hcounts 9 (by rw [hlist]; decide)
  have hc8 := hcounts 8 (by rw [hlist]; decide)
  have htables : userTables 0x400000 = 1 := rfl
  rw [htables] at hc9 hc8
  exact ⟨m, hm, h9, by omega, h8, by omega⟩

end KernMemory

end FosKernel
