import FosKernel.MapFrameContract
import FosKernel.PageWalkers

/-!
# `ConnectPageToFrame`

The entries of the pages after a command that writes to a page table. A command finds the page
table or makes it (`FindsTable`), in a free frame that is none (`NotTable`), and then writes a
word of it. A page that is not the command's has another entry afterwards in two cases only :
its directory entry names the same page table (`SameEntry`), or the page is one of a window, a
directory entry that names the directory, and shows the entry of the page table that was made
(`ShowsTable`).

`connectPageToFrame_connects` : the page is found by `FindPhysicalAddress` and by
`FindVirtualOfFrameNum`, with these pages left out, and no counter is changed but the one of a
new page table. Neither the pages nor the two conditions can be left out
(`connects_counterexample`) : a frame that is taken while it is a page table is cleared, and
`FindVirtualOfFrameNum` panics at a directory entry that names no frame of memory.
-/

namespace FosKernel

namespace KernMemory

variable {n d t i j k g : Nat} {rest : List Nat} {m m' : KernMemory} {va : BitVec 32} {e : Entry}

/-! ## Making a page table -/

/-- The directory entry of a page table that is made in frame `g`. -/
def newTable (g : Nat) : Entry :=
  constructEntry (toPhysicalAddress g) (permPresent ||| permUser ||| permWriteable)

/-- The page table for directory entry `i` is made in frame `g`. -/
def withTable (m : KernMemory) (d i g : Nat) (rest : List Nat) : KernMemory :=
  ((({ m.setReferences g 0 with freeFrameList := rest } : KernMemory).clearFrame
    g).setReferences g 1).setWord d i (newTable g)

/-- A frame of memory that is neither the directory nor one of its page tables. -/
structure NotTable (n d : Nat) (m : KernMemory) (g : Nat) : Prop where
  lt : g < n
  ne : g ≠ d
  notTable : ∀ i < 1024, tableOf m.words d i ≠ some g

/-- The page table of directory entry `i` is there, or the next free frame can be made it. -/
def HasTable (n d : Nat) (m : KernMemory) (i : Nat) : Prop :=
  (∃ t < n, tableOf m.words d i = some t) ∨
    tableOf m.words d i = none ∧ ∃ g rest, m.freeFrameList = g :: rest ∧ NotTable n d m g

/-- Frame `t` is the page table of directory entry `i`, found or made. -/
inductive FindsTable (n d : Nat) (m : KernMemory) (i t : Nat) : KernMemory → Prop
  | found (ht : tableOf m.words d i = some t) : FindsTable n d m i t m
  | made (ht : tableOf m.words d i = none) {rest : List Nat} (hl : m.freeFrameList = t :: rest)
      (hnot : NotTable n d m t) : FindsTable n d m i t (m.withTable d i t rest)

theorem newTable_ne_zero (g : Nat) : newTable g ≠ 0#32 :=
  (isPresent_constructEntry _ (permUser ||| permWriteable)).ne_zero

theorem frameNumber_newTable (hg : g < 1048576) : frameNumber (newTable g) = g :=
  frameNumber_constructEntry hg (by decide)

theorem tableOf_eq_none {w : Words} : tableOf w d i = none ↔ w d i = 0#32 := by
  unfold tableOf
  split <;> simp_all

theorem words_withTable (m : KernMemory) (d i g : Nat) (rest : List Nat) (f k : Nat) :
    (m.withTable d i g rest).words f k =
      if f = d ∧ k = i then newTable g else if f = g then 0#32 else m.words f k := by
  refine (words_setWord _ _ _ _ _ _).trans ?_
  split
  · rfl
  · exact words_clearFrame _ _ _ _

theorem references_withTable {f : Nat} (hf : f ≠ g) :
    (m.withTable d i g rest).references f = m.references f :=
  (Function.update_of_ne hf _ _).trans (Function.update_of_ne hf _ _)

theorem tableOf_withTable (hn : n ≤ 1048576) (hnot : NotTable n d m g) (k : Nat) :
    tableOf (m.withTable d i g rest).words d k =
      if k = i then some g else tableOf m.words d k := by
  have hword : (m.withTable d i g rest).words d k = if k = i then newTable g else m.words d k := by
    rw [words_withTable]
    simp [hnot.ne.symm]
  rw [tableOf, hword]
  split
  · rw [if_neg (newTable_ne_zero g), frameNumber_newTable (Nat.lt_of_lt_of_le hnot.lt hn)]
  · rfl

/-- The pages of a window show the new entry of the directory; the new page table is empty. -/
theorem entryAt_withTable (hn : n ≤ 1048576) (hnot : NotTable n d m g)
    (hnone : tableOf m.words d i = none) (hk : k < 1024) (j : Nat) :
    entryAt (m.withTable d i g rest).words d k j =
      if tableOf m.words d k = some d ∧ j = i then newTable g else entryAt m.words d k j := by
  unfold entryAt
  rw [tableOf_withTable hn hnot]
  by_cases hki : k = i
  · subst hki
    rw [if_pos rfl, hnone, if_neg fun hc => Option.some_ne_none d hc.1.symm]
    dsimp only
    rw [words_withTable, if_neg fun hc => hnot.ne hc.1, if_pos rfl]
  · rw [if_neg hki]
    cases ht : tableOf m.words d k with
    | none => rw [if_neg fun hc => Option.some_ne_none d hc.1.symm]
    | some t =>
      have htg : t ≠ g := fun heq => hnot.notTable k hk (heq ▸ ht)
      simp only [words_withTable, if_neg htg, Option.some_inj]

/-- A word of a page table is no word of the directory. -/
theorem tableOf_setWord (htd : t ≠ d) (e : Entry) (i j : Nat) :
    tableOf (m.setWord t j e).words d i = tableOf m.words d i := by
  have hword : (m.setWord t j e).words d i = m.words d i := by
    rw [words_setWord, if_neg fun hc => htd hc.1.symm]
  rw [tableOf, hword, tableOf]

/-- A word of a page table is an entry of each directory entry that names it. -/
theorem entryAt_setWord (htd : t ≠ d) (e : Entry) (i j k : Nat) :
    entryAt (m.setWord t j e).words d i k =
      if tableOf m.words d i = some t ∧ k = j then e else entryAt m.words d i k := by
  unfold entryAt
  rw [tableOf_setWord htd]
  cases ht : tableOf m.words d i with
  | none => rw [if_neg fun hc => Option.some_ne_none t hc.1.symm]
  | some t' =>
    simp only [words_setWord, Option.some_inj]

theorem frameNumber_zero : frameNumber 0#32 = 0 := by
  decide

/-- The lookup that creates. -/
theorem exists_findsTable (hn : n ≤ 1048576) (htable : HasTable n d m (pdx va.toNat)) :
    ∃ t m', t < n ∧ FindsTable n d m (pdx va.toNat) t m' ∧
      m.getPageTableVA n d va true = some (some t, m') := by
  rcases htable with ⟨t, hlt, ht⟩ | ⟨hnone, g, rest, hl, hnot⟩
  · refine ⟨t, m, hlt, .found ht, ?_⟩
    rw [getPageTableVA, getPageTable_found ht hlt]
    rfl
  · have hzero := tableOf_eq_none.1 hnone
    have hvirtual : Boot.kVirtualFrame n (extractAddress 0#32) = some 0 := by
      have hpos : 0 < n := Nat.zero_lt_of_lt hnot.lt
      exact if_pos (frameNumber_zero ▸ hpos)
    have hvirtual' : Boot.kVirtualFrame n (toPhysicalAddress g) = some g := by
      rw [Boot.kVirtualFrame, ppn_toPhysicalAddress (Nat.lt_of_lt_of_le hnot.lt hn),
        if_pos hnot.lt]
    refine ⟨g, m.withTable d (pdx va.toNat) g rest, hnot.lt, .made hnone hl hnot, ?_⟩
    simp only [getPageTableVA, getPageTable, hzero, hvirtual, hvirtual', allocateFrame, hl,
      if_true, Option.bind_eq_bind, Option.bind_some, Option.map_some, Option.some.injEq,
      Prod.mk.injEq, true_and]
    rfl

namespace FindsTable

variable (h : FindsTable n d m i t m')

include h

theorem tableOf_eq (hn : n ≤ 1048576) :
    tableOf m'.words d k = some t ↔ k = i ∨ tableOf m.words d k = some t := by
  cases h with
  | found ht => exact ⟨Or.inr, fun hor => hor.elim (fun heq => heq ▸ ht) id⟩
  | made ht hl hnot =>
    rw [tableOf_withTable hn hnot]
    split
    · next hki => exact iff_of_true rfl (Or.inl hki)
    · next hki => exact ⟨Or.inr, fun hor => hor.resolve_left hki⟩

theorem tableOf_of_ne (hn : n ≤ 1048576) (hki : k ≠ i) :
    tableOf m'.words d k = tableOf m.words d k := by
  cases h with
  | found ht => rfl
  | made ht hl hnot => rw [tableOf_withTable hn hnot, if_neg hki]

theorem tableOf_of_some {t' : Nat} (hn : n ≤ 1048576) (ht' : tableOf m.words d k = some t') :
    tableOf m'.words d k = some t' := by
  cases h with
  | found ht => exact ht'
  | made ht hl hnot =>
    rw [tableOf_withTable hn hnot, if_neg, ht']
    rintro rfl
    cases ht.symm.trans ht'

theorem freeFrameList_of_some {t' : Nat} (ht' : tableOf m.words d i = some t') :
    m'.freeFrameList = m.freeFrameList := by
  cases h with
  | found ht => rfl
  | made ht hl hnot => cases ht.symm.trans ht'

theorem entryAt_eq (hn : n ≤ 1048576) (hk : k < 1024) (j : Nat) :
    entryAt m'.words d k j =
      if tableOf m.words d i = none ∧ tableOf m.words d k = some d ∧ j = i then newTable t
      else entryAt m.words d k j := by
  cases h with
  | found ht =>
    rw [if_neg fun hc => Option.some_ne_none t (ht.symm.trans hc.1)]
  | made ht hl hnot =>
    rw [entryAt_withTable hn hnot ht hk]
    simp only [ht, true_and]

theorem references_eq (va : Nat) (hi : i = pdx va) (hg : m.madeTable d va ≠ some g) :
    m'.references g = m.references g := by
  subst hi
  cases h with
  | found ht => rfl
  | made ht hl hnot =>
    refine references_withTable fun heq => hg ?_
    simp [madeTable, ht, hl, heq]

/-- A lookup panics where it did. -/
theorem lt_iff (hn : n ≤ 1048576) (k : Nat) :
    frameNumber (m'.words d k) < n ↔ frameNumber (m.words d k) < n := by
  cases h with
  | found ht => rfl
  | made ht hl hnot =>
    rw [words_withTable, if_neg hnot.ne.symm]
    split
    · next hat =>
      rw [frameNumber_newTable (Nat.lt_of_lt_of_le hnot.lt hn), hat.2, tableOf_eq_none.1 ht,
        frameNumber_zero]
      exact iff_of_true hnot.lt (Nat.zero_lt_of_lt hnot.lt)
    · rfl

end FindsTable

/-! ## The entries after a write -/

/-- The page of `va'` has the entry of `va`, or one directory entry for both page tables. -/
def SameEntry (d : Nat) (m : KernMemory) (va va' : BitVec 32) : Prop :=
  (pdx va'.toNat = pdx va.toNat ∨ ∃ t, tableOf m.words d (pdx va.toNat) = some t ∧
    tableOf m.words d (pdx va'.toNat) = some t) ∧ ptx va'.toNat = ptx va.toNat

/-- The page of `va'` is the one of a window that shows the page table made for `va`. -/
def ShowsTable (d : Nat) (m : KernMemory) (va va' : BitVec 32) : Prop :=
  tableOf m.words d (pdx va.toNat) = none ∧ tableOf m.words d (pdx va'.toNat) = some d ∧
    ptx va'.toNat = pdx va.toNat

/-- The table found for a page that is not in a window is not the directory. -/
theorem FindsTable.ne (h : FindsTable n d m i t m') (hwindow : tableOf m.words d i ≠ some d) :
    t ≠ d := by
  cases h with
  | found ht => exact fun heq => hwindow (heq ▸ ht)
  | made ht hl hnot => exact hnot.ne

/-- The directory entry of the page names the page table that is written. -/
theorem FindsTable.lt_setWord (h : FindsTable n d m i t m') (hn : n ≤ 1048576) (htd : t ≠ d)
    (hlt : t < n) : frameNumber ((m'.setWord t j e).words d i) < n := by
  have ht : tableOf (m'.setWord t j e).words d i = some t := by
    rw [tableOf_setWord htd, h.tableOf_eq hn]
    exact Or.inl rfl
  rwa [(tableOf_eq_some.1 ht).2]

section Write

variable (hn : n ≤ 1048576) (h : FindsTable n d m (pdx va.toNat) t m') (htd : t ≠ d)

include hn h htd

theorem pageEntryOf_write : (m'.setWord t (ptx va.toNat) e).pageEntryOf d va = e := by
  have ht := (h.tableOf_eq hn).2 (Or.inl rfl)
  rw [pageEntryOf, entryAt_setWord htd, if_pos ⟨ht, rfl⟩]

/-- The pages that share the entry. -/
theorem pageEntryOf_write_same {va' : BitVec 32} (hsame : SameEntry d m va va') :
    (m'.setWord t (ptx va.toNat) e).pageEntryOf d va' = e := by
  have ht : tableOf m'.words d (pdx va'.toNat) = some t := by
    refine (h.tableOf_eq hn).2 (hsame.1.imp_right fun ⟨t', hold, hold'⟩ => ?_)
    cases h with
    | found ht => exact hold'.trans (hold.symm.trans ht)
    | made ht hl hnot => cases ht.symm.trans hold
  rw [pageEntryOf, entryAt_setWord htd, if_pos ⟨ht, hsame.2⟩]

/-- The pages that a write leaves alone. -/
theorem pageEntryOf_write_other {va' : BitVec 32} (hsame : ¬SameEntry d m va va')
    (hshows : ¬ShowsTable d m va va') :
    (m'.setWord t (ptx va.toNat) e).pageEntryOf d va' = m.pageEntryOf d va' := by
  have hnot : ¬(tableOf m'.words d (pdx va'.toNat) = some t ∧ ptx va'.toNat = ptx va.toNat) := by
    rintro ⟨ht', hptx⟩
    have hor := (h.tableOf_eq hn).1 ht'
    refine hsame ⟨hor.imp_right fun hold => ?_, hptx⟩
    cases h with
    | found ht => exact ⟨t, ht, hold⟩
    | made ht hl hnot => exact absurd hold (hnot.notTable _ (pdx_lt va'))
  rw [pageEntryOf, entryAt_setWord htd, if_neg hnot, h.entryAt_eq hn (pdx_lt va')]
  exact if_neg hshows

theorem lt_write_iff (k : Nat) :
    frameNumber ((m'.setWord t (ptx va.toNat) e).words d k) < n ↔
      frameNumber (m.words d k) < n := by
  rw [words_setWord, if_neg fun hc => htd hc.1.symm, h.lt_iff hn]

end Write

/-- The translation goes through the directory entry and the entry of the page. -/
theorem findPhysicalAddress_congr
    (hlt : frameNumber (m'.words d (pdx va.toNat)) < n ↔ frameNumber (m.words d (pdx va.toNat)) < n)
    (he : m'.pageEntryOf d va = m.pageEntryOf d va) :
    m'.findPhysicalAddress n d va = m.findPhysicalAddress n d va := by
  rw [findPhysicalAddress_eq, findPhysicalAddress_eq, he]
  simp only [hlt]

/-! ## The command -/

variable {p f : Nat} {writePerm userPerm : Char} {result : BitVec 32}

/-- The permissions that `ConnectPageToFrame` gives a page. -/
def connectPerm (writePerm userPerm : Char) : BitVec 32 :=
  permAvailable ||| (if writePerm = 'w' then permWriteable else 0#32) |||
    (if userPerm ≠ 's' then permUser else 0#32) ||| permPresent

theorem isPerm_connectPerm (writePerm userPerm : Char) :
    IsPerm (connectPerm writePerm userPerm) := by
  unfold connectPerm
  split_ifs <;> decide

/-- The address of a frame has no permission to be cleared. -/
theorem toPhysicalAddress_and_not (f : Nat) (perm : BitVec 32)
    (hperm : ~~~permMask &&& ~~~perm = ~~~permMask) :
    toPhysicalAddress f &&& ~~~perm = toPhysicalAddress f := by
  have haddress : toPhysicalAddress f &&& ~~~permMask = toPhysicalAddress f :=
    extractAddress_toPhysicalAddress f
  rw [← haddress, BitVec.and_assoc, hperm]

/-- The product and the bit operations of `ConnectPageToFrame` construct an entry. -/
theorem connectEntry_eq (f : Nat) (writePerm userPerm : Char) :
    connectEntry (BitVec.ofNat 32 f) writePerm userPerm =
      constructEntry (toPhysicalAddress f) (connectPerm writePerm userPerm) := by
  have hpow : BitVec.twoPow 32 12 = 4096#32 := by decide
  have hmul : BitVec.ofNat 32 f * 4096#32 = toPhysicalAddress f := by
    rw [toPhysicalAddress, BitVec.shiftLeft_eq_mul_twoPow, hpow]
  have hmodified := toPhysicalAddress_and_not f permModified (by decide)
  have hwriteable := toPhysicalAddress_and_not f permWriteable (by decide)
  unfold connectEntry connectPerm constructEntry
  rw [hmul]
  split_ifs <;> simp only [or_and_right, hmodified, hwriteable, BitVec.or_assoc] <;> rfl

/-- `vaOfPage` is the address of the page. -/
theorem vaOfPage_eq (hp : p < 1048576) : vaOfPage (BitVec.ofNat 32 p) = pageAddress p := by
  have hmsb : (BitVec.ofNat 32 p).msb = false := by
    rw [BitVec.msb_eq_false_iff_two_mul_lt, BitVec.toNat_ofNat]
    omega
  have hmsb' : (1024#32).msb = false := by decide
  have h1024 : (1024#32).toNat = 1024 := rfl
  apply BitVec.eq_of_toNat_eq
  rw [vaOfPage, BitVec.srem_eq, BitVec.sdiv_eq, hmsb, hmsb', toNat_pageAddress hp]
  simp only [BitVec.toNat_add, BitVec.toNat_shiftLeft, BitVec.toNat_umod, BitVec.udiv_eq,
    BitVec.toNat_udiv, BitVec.toNat_ofNat, h1024, Nat.shiftLeft_eq]
  omega

/-- Page `p` is connected with frame `f`, as both lookups see, and the pages that are not
`shared` with it are as they were. -/
structure Connects (n d : Nat) (m : KernMemory) (p f : Nat) (writePerm userPerm : Char)
    (shared : BitVec 32 → Prop) (result : BitVec 32) (m' : KernMemory) : Prop where
  physical : ∀ va : BitVec 32, va.toNat / 4096 = p →
    m'.findPhysicalAddress n d va = some (BitVec.ofNat 32 (4096 * f + va.toNat % 4096))
  virtual : ∃ va, m'.findVirtualOfFrameNum n d (BitVec.ofNat 32 f) = some va ∧ va.toNat ≤ 4096 * p
  stored : m'.pageEntryOf d (pageAddress p) = result
  entry : result = constructEntry (toPhysicalAddress f) (connectPerm writePerm userPerm)
  others : ∀ va : BitVec 32, va.toNat / 4096 ≠ p → ¬shared va →
    m'.findPhysicalAddress n d va = m.findPhysicalAddress n d va
  references : ∀ g, m.madeTable d (4096 * p) ≠ some g → m'.references g = m.references g

theorem pdx_of_page {va : BitVec 32} (hva : va.toNat / 4096 = p) : pdx va.toNat = p / 1024 := by
  unfold pdx
  omega

theorem ptx_of_page {va : BitVec 32} (hva : va.toNat / 4096 = p) : ptx va.toNat = p % 1024 := by
  unfold ptx
  rw [hva]

theorem pageAddress_page (hp : p < 1048576) : (pageAddress p).toNat / 4096 = p := by
  rw [toNat_pageAddress hp]
  omega

/-- All the addresses of a page have one entry. -/
theorem pageEntryOf_of_page {va va' : BitVec 32} (hva : va.toNat / 4096 = p)
    (hva' : va'.toNat / 4096 = p) : m.pageEntryOf d va = m.pageEntryOf d va' := by
  rw [pageEntryOf, pageEntryOf, pdx_of_page hva, pdx_of_page hva', ptx_of_page hva,
    ptx_of_page hva']

/-- No lookup panics below page `p`, but after a page that maps the frame. -/
def Searchable (n d : Nat) (m : KernMemory) (p : Nat) (pfn : BitVec 32) : Prop :=
  ∀ k < p, m.NoMemoryAt n d (pageAddress k) → ∃ j < k, MapsNumber n d m (pageAddress j) pfn

/-- A page that maps the frame is found, or one before it. -/
theorem findVirtualOfFrameNum_le (hp : p < 1048576) {pfn : BitVec 32}
    (hsearch : Searchable n d m p pfn) (hmaps : MapsNumber n d m (pageAddress p) pfn) :
    ∃ va, m.findVirtualOfFrameNum n d pfn = some va ∧ va.toNat ≤ 4096 * p := by
  obtain ⟨j, hj, hstop, hpast, hfind⟩ :=
    exists_first_stop hp (Or.inr hmaps.getpageFrameNumber_eq)
  have hsome : m.getpageFrameNumber n d (pageAddress j) = some pfn := by
    refine hstop.resolve_left fun hnone => ?_
    rcases Nat.lt_or_eq_of_le hj with hlt | rfl
    · obtain ⟨i, hi, hbefore⟩ := hsearch j hlt (getpageFrameNumber_eq_none.1 hnone)
      exact hpast i hi (Or.inr hbefore.getpageFrameNumber_eq)
    · cases hnone.symm.trans hmaps.getpageFrameNumber_eq
  rw [hsome, Option.map_some] at hfind
  refine ⟨pageAddress j, hfind, ?_⟩
  rw [toNat_pageAddress (Nat.lt_of_le_of_lt hj hp)]
  omega

/-- The frame that is written stays where it was mapped. -/
theorem MapsNumber.write {pfn : BitVec 32} {va' : BitVec 32} (hn : n ≤ 1048576)
    (h : FindsTable n d m (pdx va.toNat) t m') (htd : t ≠ d) (he : IsPresent e ∧ e >>> 12 = pfn)
    (hmaps : MapsNumber n d m va' pfn) :
    MapsNumber n d (m'.setWord t (ptx va.toNat) e) va' pfn := by
  refine ⟨?_, ?_⟩
  · rw [NoMemoryAt, not_le, lt_write_iff hn h htd]
    exact not_le.1 hmaps.1
  · by_cases hsame : SameEntry d m va va'
    · rw [pageEntryOf_write_same hn h htd hsame]
      exact he
    · rw [pageEntryOf_write_other hn h htd hsame fun hshows => ?_]
      · exact hmaps.2
      · -- the window shows a page table that was not there
        have hzero : m.pageEntryOf d va' = 0#32 := by
          rw [pageEntryOf, entryAt_of_some hshows.2.1, hshows.2.2]
          exact tableOf_eq_none.1 hshows.1
        exact not_isPresent_zero (hzero ▸ hmaps.2.1)

/-- What `ConnectPageToFrame` does for a page outside the windows whose page table is there, or
can be made, where no directory entry below it makes the search panic. -/
theorem connectPageToFrame_connects (hn : n ≤ 1048576) (hp : p < 1048576) (hf : f < 1048576)
    (hsearch : Searchable n d m p (BitVec.ofNat 32 f))
    (hwindow : tableOf m.words d (p / 1024) ≠ some d) (htable : HasTable n d m (p / 1024))
    (writePerm userPerm : Char) :
    ∃ result m', m.connectPageToFrame n d (BitVec.ofNat 32 p) (BitVec.ofNat 32 f) writePerm
        userPerm = .ok (result, m') ∧
      Connects n d m p f writePerm userPerm
        (fun va => SameEntry d m (pageAddress p) va ∨ ShowsTable d m (pageAddress p) va)
        result m' := by
  have hpage := pageAddress_page hp
  have hpdx := pdx_of_page hpage
  have hhas : HasTable n d m (pdx (pageAddress p).toNat) := hpdx ▸ htable
  obtain ⟨t, m₁, hlt, hfinds, hget⟩ := exists_findsTable hn hhas
  have htd := hfinds.ne (hpdx.symm ▸ hwindow)
  have hconnect := connectEntry_eq f writePerm userPerm
  generalize hresult : connectEntry (BitVec.ofNat 32 f) writePerm userPerm = result at hconnect
  have hframe : frameNumber result = f := by
    rw [hconnect, frameNumber_constructEntry hf (isPerm_connectPerm writePerm userPerm)]
  have hpresent : IsPresent result := by
    rw [hconnect]
    exact isPresent_constructEntry _ _
  have hnumber : result >>> 12 = BitVec.ofNat 32 f := by
    rw [ushiftRight_eq, hframe]
  have hself := pageEntryOf_write (e := result) hn hfinds htd
  have hmem : ∀ va : BitVec 32, va.toNat / 4096 = p → frameNumber ((m₁.setWord t
      (ptx (pageAddress p).toNat) result).words d (pdx va.toNat)) < n := fun va hva => by
    rw [pdx_of_page hva, ← hpdx]
    exact hfinds.lt_setWord hn htd hlt
  have hmaps : MapsNumber n d (m₁.setWord t (ptx (pageAddress p).toNat) result) (pageAddress p)
      (BitVec.ofNat 32 f) := by
    refine ⟨not_le.2 (hmem _ hpage), ?_⟩
    rw [hself]
    exact ⟨hpresent, hnumber⟩
  have hsearch' : Searchable n d (m₁.setWord t (ptx (pageAddress p).toNat) result) p
      (BitVec.ofNat 32 f) := fun k hk hpanic => by
    rw [NoMemoryAt, ← not_lt, lt_write_iff hn hfinds htd, not_lt] at hpanic
    obtain ⟨j, hj, hbefore⟩ := hsearch k hk hpanic
    exact ⟨j, hj, hbefore.write hn hfinds htd ⟨hpresent, hnumber⟩⟩
  refine ⟨result, m₁.setWord t (ptx (pageAddress p).toNat) result, ?_, ?_⟩
  · unfold connectPageToFrame
    simp only [vaOfPage_eq hp, hget, hresult]
  · refine ⟨fun va hva => ?_, findVirtualOfFrameNum_le hp hsearch' hmaps, hself, hconnect,
      fun va hva hshared => ?_, fun g hg => ?_⟩
    · rw [findPhysicalAddress_eq, if_pos (hmem va hva), pageEntryOf_of_page hva hpage, hself,
        if_pos hpresent]
      refine congrArg some (BitVec.eq_of_toNat_eq ?_)
      rw [BitVec.toNat_add, toNat_extractAddress, toNat_offset, hframe, BitVec.toNat_ofNat]
    · obtain ⟨hsame, hshows⟩ := not_or.1 hshared
      exact findPhysicalAddress_congr (lt_write_iff hn hfinds htd _)
        (pageEntryOf_write_other hn hfinds htd hsame hshows)
    · refine hfinds.references_eq (4096 * p) ?_ hg
      rw [toNat_pageAddress hp]

theorem smallWindow_tableOf (i : Nat) : tableOf smallWindow.words 4 i =
    if i = 0 then some 9 else if i = 3 then some 4 else none := by
  have hword : smallWindow.words 4 i =
      if i = 0 then 0x9007#32 else if i = 3 then 0x4007#32 else 0#32 := by
    simp [smallWindow]
  rw [tableOf, hword]
  split_ifs <;> simp_all <;> decide

theorem smallWindow_hasTable (i : Nat) : HasTable 10 4 smallWindow i := by
  by_cases h0 : i = 0
  · exact Or.inl ⟨9, by omega, by rw [smallWindow_tableOf, if_pos h0]⟩
  · by_cases h3 : i = 3
    · exact Or.inl ⟨4, by omega, by rw [smallWindow_tableOf, if_neg h0, if_pos h3]⟩
    · refine Or.inr ⟨by rw [smallWindow_tableOf, if_neg h0, if_neg h3], 8, [], rfl,
        ⟨by omega, by omega, fun k _ => ?_⟩⟩
      rw [smallWindow_tableOf]
      split_ifs <;> simp

theorem smallWindow_searchable (p : Nat) (pfn : BitVec 32) :
    Searchable 10 4 smallWindow p pfn := by
  refine fun k _ hpanic => absurd hpanic (not_le.2 ?_)
  have hword : ∀ i, smallWindow.words 4 i =
      if i = 0 then 0x9007#32 else if i = 3 then 0x4007#32 else 0#32 := fun i => by
    simp [smallWindow]
  rw [hword]
  split_ifs <;> decide

/-- Page 1024 is connected with frame 7, and its page table made. -/
theorem smallWindow_connects :
    ∃ result m', smallWindow.connectPageToFrame 10 4 (BitVec.ofNat 32 1024) (BitVec.ofNat 32 7) 'w'
        'u' = .ok (result, m') ∧
      Connects 10 4 smallWindow 1024 7 'w' 'u'
        (fun va => SameEntry 4 smallWindow (pageAddress 1024) va ∨
          ShowsTable 4 smallWindow (pageAddress 1024) va) result m' :=
  connectPageToFrame_connects (by omega) (by omega) (by omega) (smallWindow_searchable _ _)
    (by simp [smallWindow_tableOf]) (smallWindow_hasTable _) 'w' 'u'

/-- Two entries of the directory in frame 4 name the page table in frame 9. -/
def smallShared : KernMemory where
  references _ := 0
  freeFrameList := [8]
  words f i := if f = 4 ∧ (i = 0 ∨ i = 1) then 0x9007#32 else 0#32

/-- The first free frame is the page table of page 0, which is mapped; the second is no table. -/
def smallTaken : KernMemory where
  references _ := 0
  freeFrameList := [9, 8]
  words f i := if f = 4 ∧ i = 0 then 0x9007#32 else if f = 9 ∧ i = 0 then 0x5007#32 else 0#32

/-- The first directory entry names frame 10, which is none of the ten of memory. -/
def smallOutside : KernMemory where
  references _ := 0
  freeFrameList := [8]
  words f i := if f = 4 ∧ i = 0 then 0xA007#32 else 0#32

/-- What a command that returns has done, from what is evaluated. -/
theorem ok_of_toOption_map {α β : Type} {x : Except Fault α} {g : α → β} {b : β}
    (h : x.toOption.map g = some b) : ∃ a, x = .ok a ∧ g a = b := by
  cases x with
  | error => cases h
  | ok a => exact ⟨a, rfl, Option.some.inj h⟩

/-- The window has a new page when a page table is made; page 1024 is mapped with page 0 when
their directory entries name one page table; page 0 is no longer mapped when its page table is
taken for another, though a frame is free that is none; and the search panics at a directory
entry that names no frame of memory. -/
theorem connects_counterexample :
    (tableOf smallWindow.words 4 (1024 / 1024) ≠ some 4 ∧ HasTable 10 4 smallWindow (1024 / 1024) ∧
      ∃ result m', smallWindow.connectPageToFrame 10 4 1024#32 7#32 'w' 'u' = .ok (result, m') ∧
        smallWindow.findPhysicalAddress 10 4 0xC01000#32 = some (-1#32) ∧
        m'.findPhysicalAddress 10 4 0xC01000#32 = some 0x8000#32 ∧
        ¬Connects 10 4 smallWindow 1024 7 'w' 'u' (fun _ => False) result m') ∧
    (tableOf smallShared.words 4 (0 / 1024) = some 9 ∧
      ∃ result m', smallShared.connectPageToFrame 10 4 0#32 7#32 'w' 'u' = .ok (result, m') ∧
        smallShared.findPhysicalAddress 10 4 0x400000#32 = some (-1#32) ∧
        m'.findPhysicalAddress 10 4 0x400000#32 = some 0x7000#32 ∧
        ¬Connects 10 4 smallShared 0 7 'w' 'u' (fun _ => False) result m') ∧
    (8 ∈ smallTaken.freeFrameList ∧ (∀ i < 1024, tableOf smallTaken.words 4 i ≠ some 8) ∧
      ∃ result m', smallTaken.connectPageToFrame 10 4 1025#32 7#32 'w' 'u' = .ok (result, m') ∧
        smallTaken.findPhysicalAddress 10 4 0#32 = some 0x5000#32 ∧
        m'.findPhysicalAddress 10 4 0#32 = some (-1#32) ∧
        ¬Connects 10 4 smallTaken 1025 7 'w' 'u'
          (fun va => SameEntry 4 smallTaken (pageAddress 1025) va ∨
            ShowsTable 4 smallTaken (pageAddress 1025) va) result m') ∧
    (HasTable 10 4 smallOutside (1024 / 1024) ∧
      ∃ result m', smallOutside.connectPageToFrame 10 4 1024#32 7#32 'w' 'u' = .ok (result, m') ∧
        m'.findVirtualOfFrameNum 10 4 7#32 = none ∧
        ¬Connects 10 4 smallOutside 1024 7 'w' 'u' (fun _ => True) result m') := by
  refine ⟨⟨by simp [smallWindow_tableOf], smallWindow_hasTable _, ?_⟩, ⟨by decide, ?_⟩,
    ⟨by decide, fun i _ => ?_, ?_⟩, ⟨?_, ?_⟩⟩
  · have hold : smallWindow.findPhysicalAddress 10 4 0xC01000#32 = some (-1#32) := by decide
    have hrun : (smallWindow.connectPageToFrame 10 4 1024#32 7#32 'w' 'u').toOption.map
        (fun r => r.2.findPhysicalAddress 10 4 0xC01000#32) = some (some 0x8000#32) := by decide
    obtain ⟨⟨result, m'⟩, hok, hnew⟩ := ok_of_toOption_map hrun
    refine ⟨result, m', hok, hold, hnew, fun hconnects => ?_⟩
    cases hnew.symm.trans ((hconnects.others 0xC01000#32 (by decide) id).trans hold)
  · have hold : smallShared.findPhysicalAddress 10 4 0x400000#32 = some (-1#32) := by decide
    have hrun : (smallShared.connectPageToFrame 10 4 0#32 7#32 'w' 'u').toOption.map
        (fun r => r.2.findPhysicalAddress 10 4 0x400000#32) = some (some 0x7000#32) := by decide
    obtain ⟨⟨result, m'⟩, hok, hnew⟩ := ok_of_toOption_map hrun
    refine ⟨result, m', hok, hold, hnew, fun hconnects => ?_⟩
    cases hnew.symm.trans ((hconnects.others 0x400000#32 (by decide) id).trans hold)
  · have hword : smallTaken.words 4 i = if i = 0 then 0x9007#32 else 0#32 := by
      simp [smallTaken]
    rw [tableOf, hword]
    split_ifs <;> decide
  · have hold : smallTaken.findPhysicalAddress 10 4 0#32 = some 0x5000#32 := by decide
    have hrun : (smallTaken.connectPageToFrame 10 4 1025#32 7#32 'w' 'u').toOption.map
        (fun r => r.2.findPhysicalAddress 10 4 0#32) = some (some (-1#32)) := by decide
    have hdistinct : ¬(SameEntry 4 smallTaken (pageAddress 1025) 0#32 ∨
        ShowsTable 4 smallTaken (pageAddress 1025) 0#32) := by
      rintro (⟨-, hptx⟩ | ⟨-, -, hptx⟩) <;> cases hptx
    obtain ⟨⟨result, m'⟩, hok, hnew⟩ := ok_of_toOption_map hrun
    refine ⟨result, m', hok, hold, hnew, fun hconnects => ?_⟩
    cases hnew.symm.trans ((hconnects.others 0#32 (by decide) hdistinct).trans hold)
  · refine Or.inr ⟨by decide, 8, [], rfl, by omega, by omega, fun i _ => ?_⟩
    have hword : smallOutside.words 4 i = if i = 0 then 0xA007#32 else 0#32 := by
      simp [smallOutside]
    rw [tableOf, hword]
    split_ifs <;> decide
  · have hrun : (smallOutside.connectPageToFrame 10 4 1024#32 7#32 'w' 'u').toOption.map
        (fun r => r.2.getpageFrameNumber 10 4 (pageAddress 0)) = some none := by decide
    obtain ⟨⟨result, m'⟩, hok, hpanic⟩ := ok_of_toOption_map hrun
    have hfind : m'.findVirtualOfFrameNum 10 4 7#32 = none := by
      rw [findVirtualOfFrameNum_first (k := 0) (by decide) (fun j hj => by omega) (Or.inl hpanic),
        hpanic, Option.map_none]
    refine ⟨result, m', hok, hfind, fun hconnects => ?_⟩
    obtain ⟨va, hfound, -⟩ := hconnects.virtual
    cases hfind.symm.trans hfound

end KernMemory

end FosKernel
