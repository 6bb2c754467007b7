import FosKernel.ShareRange

/-!
# The mapping commands and the null page table

`getPageTableVA` returns a null table for a page without one, and when `get_page_table` has no
frame for a new one. `ConnectPageToFrame` writes through what it gets. `ShareRangeWithPermissions`
looks at the tables of its first two pages, and then at none of those that the loop gets.

`noNullAccess_iff` says when the commands have no access through the null table : for the second
one, when at each page that the loop comes to both tables are there (`TablesThere`). Outside the
windows that is a condition on the directory and the number of free frames (`TablesSuffice`).
-/

namespace FosKernel

namespace KernMemory

variable {n d i N : Nat} {m m' : KernMemory} {va va1 va2 : BitVec 32} {premission : Char}
  {table : Option Nat}

/-- The command has no access through a null page table. -/
def NoNullAccess {α : Type} : Except Fault α → Prop
  | .error .nullTable => False
  | _ => True

/-- The page of `va` has a page table, or there is a frame for one. -/
def TableOrFrame (d : Nat) (m : KernMemory) (va : BitVec 32) : Prop :=
  tableOf m.words d (pdx va.toNat) ≠ none ∨ m.freeFrameList ≠ []

/-- The page of `va1` has a page table, and the page of `va2` has one or can have one. -/
def BothTables (d : Nat) (m : KernMemory) (va1 va2 : BitVec 32) : Prop :=
  tableOf m.words d (pdx va1.toNat) ≠ none ∧ TableOrFrame d m va2

@[simp] theorem noNullAccess_ok {α : Type} (a : α) : NoNullAccess (.ok a : Except Fault α) :=
  trivial

@[simp] theorem noNullAccess_panic {α : Type} : NoNullAccess (.error .panic : Except Fault α) :=
  trivial

@[simp] theorem not_noNullAccess_nullTable {α : Type} :
    ¬NoNullAccess (.error .nullTable : Except Fault α) :=
  id

/-! ## The lookups -/

/-- The lookup that creates returns the null table only without a table and without a frame. -/
theorem getPageTableVA_null (hget : m.getPageTableVA n d va true = some (table, m')) :
    table = none ↔ ¬TableOrFrame d m va := by
  unfold getPageTableVA getPageTable at hget
  obtain ⟨⟨⟨status, table⟩, m'⟩, hget, hpair⟩ := Option.map_eq_some_iff.1 hget
  cases hpair
  obtain ⟨t, -, hget⟩ := Option.bind_eq_some_iff.1 hget
  unfold TableOrFrame
  split at hget
  · next hzero =>
    rw [if_pos rfl] at hget
    have hnone : tableOf m.words d (pdx va.toNat) = none := tableOf_eq_none.2 hzero
    cases hl : m.freeFrameList with
    | nil =>
      simp only [allocateFrame, hl] at hget
      cases hget
      simp [hnone]
    | cons f rest =>
      simp only [allocateFrame, hl] at hget
      obtain ⟨t', -, hget⟩ := Option.bind_eq_some_iff.1 hget
      cases hget
      simp
  · next hsome =>
    cases hget
    simp [tableOf_eq_none, hsome]

/-! ## One page -/

/-- `ConnectPageToFrame` writes through the table that the lookup gave. -/
theorem connectPageToFrame_noNullAccess (n d : Nat) (m : KernMemory) (page frame : BitVec 32)
    (writePerm userPerm : Char) :
    NoNullAccess (m.connectPageToFrame n d page frame writePerm userPerm) ↔
      m.getPageTableVA n d (vaOfPage page) true = none ∨ TableOrFrame d m (vaOfPage page) := by
  unfold connectPageToFrame
  dsimp only
  cases hget : m.getPageTableVA n d (vaOfPage page) true with
  | none => simp
  | some r =>
    obtain ⟨table, m'⟩ := r
    have hnull := getPageTableVA_null hget
    cases table with
    | none => simp [hnull.1 rfl]
    | some t => simp [not_not.1 fun hnot => Option.some_ne_none t (hnull.2 hnot)]

/-- A trip of the loop has its two page tables, or panics. -/
def PageTablesThere (n d : Nat) (m : KernMemory) (va1 va2 : BitVec 32) : Prop :=
  m.getPageTableVA n d va1 false = none ∨ m.getPageTableVA n d va2 true = none ∨
    BothTables d m va1 va2

theorem sharePage_noNullAccess (premission : Char) :
    NoNullAccess (m.sharePage n d premission va1 va2) ↔ PageTablesThere n d m va1 va2 := by
  unfold sharePage PageTablesThere BothTables
  cases hget1 : m.getPageTableVA n d va1 false with
  | none => simp
  | some r =>
    obtain ⟨table1, m₁⟩ := r
    obtain ⟨htable1, rfl⟩ := getPageTableVA_false hget1
    dsimp only
    cases hget2 : m₁.getPageTableVA n d va2 true with
    | none => simp
    | some r =>
      obtain ⟨table2, m₂⟩ := r
      have hnull := getPageTableVA_null hget2
      rw [← htable1]
      cases table1 with
      | none => cases table2 <;> simp
      | some t1 =>
        cases table2 with
        | none => simp [hnull.1 rfl]
        | some t2 => simp [not_not.1 fun hnot => Option.some_ne_none t2 (hnull.2 hnot)]

/-! ## The loop -/

/-- The loop has both page tables at each page that it comes to. -/
def TablesThere (n d : Nat) (premission : Char) :
    Nat → BitVec 32 → BitVec 32 → KernMemory → Prop
  | 0, _, _, _ => True
  | pagesRange + 1, va1, va2, m =>
    PageTablesThere n d m va1 va2 ∧ ∀ m', m.sharePage n d premission va1 va2 = .ok m' →
      TablesThere n d premission pagesRange (va1 + 4096#32) (va2 + 4096#32) m'

theorem sharePages_noNullAccess : ∀ (N : Nat) (va1 va2 : BitVec 32) (m : KernMemory),
    NoNullAccess (sharePages n d premission N va1 va2 m) ↔ TablesThere n d premission N va1 va2 m
  | 0, _, _, m => iff_of_true (noNullAccess_ok m) trivial
  | N + 1, va1, va2, m => by
    rw [sharePages, TablesThere, ← sharePage_noNullAccess premission]
    cases m.sharePage n d premission va1 va2 with
    | error fault => cases fault <;> simp [Except.bind]
    | ok m' =>
      simp only [Except.bind, noNullAccess_ok, true_and, Except.ok.injEq, forall_eq']
      exact sharePages_noNullAccess N _ _ m'

/-! ## The page tables that the loop needs -/

/-- No lookup in a directory panics. -/
theorem Directory.pageTablesThere_iff (hn : n ≤ 1048576) (h : Directory n d m) :
    PageTablesThere n d m va1 va2 ↔ BothTables d m va1 va2 := by
  obtain ⟨table, m', hget, -⟩ := exists_getPageTableVA hn (fun _ => h.freeFrames 1)
    (h.memory _ (pdx_lt va2))
  rw [PageTablesThere, h.getPageTableVA_lookup, hget]
  simp

/-- The directory entry of the page `k` pages after `va`. -/
def entryOf (va : BitVec 32) (k : Nat) : Nat :=
  pdx (va + BitVec.ofNat 32 (4096 * k)).toNat

/-- The directory entries for `N` pages from `va` on that have no page table. -/
def tablesToMake (d : Nat) (m : KernMemory) (va : BitVec 32) (N : Nat) : Finset Nat :=
  ((Finset.range N).image (entryOf va)).filter fun i => tableOf m.words d i = none

/-- The page tables of the sources are there, or are made for a destination before them, and the
frames are enough for the page tables of the destinations. -/
structure TablesSuffice (d : Nat) (m : KernMemory) (va1 va2 : BitVec 32) (N : Nat) : Prop where
  sources : ∀ k < N, tableOf m.words d (entryOf va1 k) ≠ none ∨
    ∃ l < k, entryOf va2 l = entryOf va1 k
  frames : (tablesToMake d m va2 N).card ≤ m.freeFrameList.length

/-- The pages of the two ranges are outside the windows. -/
def OutsideWindows (d : Nat) (m : KernMemory) (va1 va2 : BitVec 32) (N : Nat) : Prop :=
  ∀ k < N, tableOf m.words d (entryOf va1 k) ≠ some d ∧ tableOf m.words d (entryOf va2 k) ≠ some d

theorem entryOf_zero (va : BitVec 32) : entryOf va 0 = pdx va.toNat := by
  rw [entryOf, Nat.mul_zero, BitVec.add_zero]

theorem entryOf_succ (va : BitVec 32) (k : Nat) :
    entryOf va (k + 1) = entryOf (va + 4096#32) k := by
  have hadd : BitVec.ofNat 32 (4096 * (k + 1)) = 4096#32 + BitVec.ofNat 32 (4096 * k) := by
    rw [← BitVec.ofNat_add]
    congr 1
    omega
  rw [entryOf, entryOf, hadd, BitVec.add_assoc]

theorem mem_tablesToMake : i ∈ tablesToMake d m va N ↔
    (∃ k < N, entryOf va k = i) ∧ tableOf m.words d i = none := by
  simp [tablesToMake]

theorem mem_tablesToMake_succ : i ∈ tablesToMake d m va (N + 1) ↔
    (i = pdx va.toNat ∨ ∃ k < N, entryOf (va + 4096#32) k = i) ∧ tableOf m.words d i = none := by
  rw [mem_tablesToMake, Nat.exists_lt_succ_left, entryOf_zero, eq_comm]
  simp only [entryOf_succ]

theorem tablesSuffice_zero : TablesSuffice d m va1 va2 0 :=
  ⟨fun k hk => absurd hk (Nat.not_lt_zero k), by simp [tablesToMake]⟩

/-- The first page has its page table, or a frame for it. -/
theorem TablesSuffice.first (h : TablesSuffice d m va1 va2 (N + 1)) :
    BothTables d m va1 va2 := by
  refine ⟨?_, or_iff_not_imp_left.2 fun hsome => ?_⟩
  · obtain hsome | ⟨l, hl, -⟩ := h.sources 0 (Nat.succ_pos N)
    · rwa [entryOf_zero] at hsome
    · exact absurd hl (Nat.not_lt_zero l)
  · have hmem : pdx va2.toNat ∈ tablesToMake d m va2 (N + 1) :=
      mem_tablesToMake_succ.2 ⟨Or.inl rfl, not_not.1 hsome⟩
    rw [← List.length_pos_iff_ne_nil]
    exact (Finset.card_pos.2 ⟨_, hmem⟩).trans_le h.frames

namespace SharesPage

variable (hs : SharesPage n d premission va1 va2 m m')

include hs

/-- The page counts its page table. -/
theorem card_tablesToMake (N : Nat) : (tablesToMake d m va2 (N + 1)).card =
    (tablesToMake d m' (va2 + 4096#32) N).card +
      if tableOf m.words d (pdx va2.toNat) = none then 1 else 0 := by
  have hmem : ∀ i, i ∈ tablesToMake d m' (va2 + 4096#32) N ↔
      (∃ k < N, entryOf (va2 + 4096#32) k = i) ∧ tableOf m.words d i = none ∧
        i ≠ pdx va2.toNat := fun i => by
    rw [mem_tablesToMake, hs.tableOf_eq_none]
  split
  · next hnone =>
    have hnot : pdx va2.toNat ∉ tablesToMake d m' (va2 + 4096#32) N := fun hin =>
      ((hmem _).1 hin).2.2 rfl
    rw [← Finset.card_insert_of_notMem hnot]
    refine congrArg Finset.card (Finset.ext fun i => ?_)
    rw [mem_tablesToMake_succ, Finset.mem_insert, hmem]
    by_cases hi : i = pdx va2.toNat
    · simp [hi, hnone]
    · simp [hi]
  · next hsome =>
    refine (congrArg Finset.card (Finset.ext fun i => ?_)).trans (Nat.add_zero _).symm
    rw [mem_tablesToMake_succ, hmem]
    by_cases hi : i = pdx va2.toNat
    · simp [hi, hsome]
    · simp [hi]

/-- The tables suffice after the page as they did before it. -/
theorem tablesSuffice (hsource : tableOf m.words d (pdx va1.toNat) ≠ none) :
    TablesSuffice d m va1 va2 (N + 1) ↔
      TablesSuffice d m' (va1 + 4096#32) (va2 + 4096#32) N := by
  have hsources : ∀ k, (tableOf m.words d (entryOf va1 (k + 1)) ≠ none ∨
      ∃ l < k + 1, entryOf va2 l = entryOf va1 (k + 1)) ↔
      (tableOf m'.words d (entryOf (va1 + 4096#32) k) ≠ none ∨
        ∃ l < k, entryOf (va2 + 4096#32) l = entryOf (va1 + 4096#32) k) := fun k => by
    rw [ne_eq, ne_eq, hs.tableOf_eq_none, not_and_or, not_not, Nat.exists_lt_succ_left,
      entryOf_zero, or_assoc, eq_comm (a := pdx va2.toNat)]
    simp only [entryOf_succ]
  have hlength := hs.length_freeFrameList
  have hcard := hs.card_tablesToMake N
  constructor
  · intro h
    refine ⟨fun k hk => (hsources k).1 (h.sources (k + 1) (Nat.succ_lt_succ hk)), ?_⟩
    have hframes := h.frames
    omega
  · intro h
    refine ⟨fun k hk => ?_, ?_⟩
    · cases k with
      | zero => exact Or.inl ((entryOf_zero va1).symm ▸ hsource)
      | succ k => exact (hsources k).2 (h.sources k (Nat.lt_of_succ_lt_succ hk))
    · have hframes := h.frames
      omega

/-- No page gets into a window. -/
theorem outsideWindows (h : OutsideWindows d m va1 va2 (N + 1)) :
    OutsideWindows d m' (va1 + 4096#32) (va2 + 4096#32) N := fun k hk => by
  have hold := h (k + 1) (Nat.succ_lt_succ hk)
  rw [entryOf_succ, entryOf_succ] at hold
  exact ⟨fun heq => hold.1 (hs.window heq), fun heq => hold.2 (hs.window heq)⟩

end SharesPage

/-- Outside the windows the loop has its page tables exactly if they suffice. -/
theorem sharePages_tablesSuffice (premission : Char) (hn : n ≤ 1048576) :
    ∀ (N : Nat) (va1 va2 : BitVec 32) (m : KernMemory), Directory n d m →
      OutsideWindows d m va1 va2 N →
        (NoNullAccess (sharePages n d premission N va1 va2 m) ↔ TablesSuffice d m va1 va2 N)
  | 0, _, _, m, _, _ => iff_of_true (noNullAccess_ok m) tablesSuffice_zero
  | N + 1, va1, va2, m, h, hwindows => by
    by_cases hfirst : BothTables d m va1 va2
    · have hwindow := hwindows 0 (Nat.succ_pos N)
      rw [entryOf_zero, entryOf_zero] at hwindow
      obtain ⟨m', hok, hs⟩ := sharePage_sharesPage premission va1 va2 hn
        (h.exists_lt (pdx_lt va1) hfirst.1) hwindow.1 (h.hasTable (pdx_lt va2) hfirst.2) hwindow.2
      rw [sharePages, hok, hs.tablesSuffice hfirst.1]
      exact sharePages_tablesSuffice premission hn N _ _ m' (hs.directory h)
        (hs.outsideWindows hwindows)
    · refine iff_of_false (fun hnull => hfirst ?_) fun hsuffice => hfirst hsuffice.first
      rw [sharePages_noNullAccess, TablesThere] at hnull
      exact (Directory.pageTablesThere_iff hn h).1 hnull.1

/-! ## The command -/

/-- The check before the loop goes through, and leaves `m'`. -/
def CheckPasses (n d : Nat) (m : KernMemory) (va1 va2 : BitVec 32) (m' : KernMemory) : Prop :=
  ∃ t1 t2, m.getPageTableVA n d va1 false = some (some t1, m) ∧
    m.getPageTableVA n d va2 true = some (some t2, m')

theorem shareRangeWithPermissions_noNullAccess (n d : Nat) (m : KernMemory)
    (va1 va2 size : BitVec 32) (premission : Char) :
    NoNullAccess (m.shareRangeWithPermissions n d va1 va2 size premission) ↔
      ∀ m', CheckPasses n d m va1 va2 m' →
        TablesThere n d premission (pagesRangeOf size).toNat va1 va2 m' := by
  unfold shareRangeWithPermissions CheckPasses
  cases hget1 : m.getPageTableVA n d va1 false with
  | none => simp
  | some r =>
    obtain ⟨table1, m₁⟩ := r
    obtain ⟨-, rfl⟩ := getPageTableVA_false hget1
    dsimp only
    cases hget2 : m₁.getPageTableVA n d va2 true with
    | none => simp
    | some r =>
      obtain ⟨table2, m₂⟩ := r
      cases table1 with
      | none => simp
      | some t1 =>
        cases table2 with
        | none => simp
        | some t2 => simp [sharePages_noNullAccess]

/-- Outside the windows, the condition on the directory before the command. -/
theorem shareRangeWithPermissions_tablesSuffice (hn : n ≤ 1048576) (h : Directory n d m)
    {size : BitVec 32} (hwindows : OutsideWindows d m va1 va2 (pagesRangeOf size).toNat) :
    NoNullAccess (m.shareRangeWithPermissions n d va1 va2 size premission) ↔
      (BothTables d m va1 va2 → TablesSuffice d m va1 va2 (pagesRangeOf size).toNat) := by
  rw [← sharePages_tablesSuffice premission hn _ va1 va2 m h hwindows]
  by_cases hboth : BothTables d m va1 va2
  · rw [imp_iff_right hboth]
    rcases Nat.eq_zero_or_pos (pagesRangeOf size).toNat with hzero | hpos
    · obtain ⟨m', hok, -⟩ := shareRangeWithPermissions_zero premission hn (fun _ => h.freeFrames 1)
        (h.memory _ (pdx_lt va1)) (h.memory _ (pdx_lt va2)) hzero
      rw [hok, hzero]
      exact iff_of_true trivial trivial
    · rw [shareRangeWithPermissions_eq hn (h.exists_lt (pdx_lt va1) hboth.1)
        (h.hasTable (pdx_lt va2) hboth.2) hpos]
  · refine iff_of_true ?_ fun hc => absurd hc hboth
    rw [shareRangeWithPermissions_noNullAccess]
    rintro m' ⟨t1, t2, hget1, hget2⟩
    refine absurd ⟨?_, ?_⟩ hboth
    · exact (getPageTableVA_false hget1).1 ▸ Option.some_ne_none t1
    · exact not_not.1 fun hnot => Option.some_ne_none t2 ((getPageTableVA_null hget2).2 hnot)

/-- A page table that is made shows in the windows, where there was no entry. -/
theorem FindsTable.pageEntryOf_eq {t : Nat} (hn : n ≤ 1048576) (h : FindsTable n d m i t m')
    (hpresent : IsPresent (m.pageEntryOf d va)) : m'.pageEntryOf d va = m.pageEntryOf d va := by
  rw [pageEntryOf, h.entryAt_eq hn (pdx_lt va), if_neg, pageEntryOf]
  rintro ⟨hnone, hwindow, hptx⟩
  have hentry : m.pageEntryOf d va = 0#32 := by
    rw [pageEntryOf, entryAt_of_some hwindow, hptx, tableOf_eq_none.1 hnone]
  exact not_isPresent_zero (hentry ▸ hpresent)

/-- Where the check before the loop fails, the present entries are as they were. -/
theorem shareRangeWithPermissions_kept (hn : n ≤ 1048576) (h : Directory n d m)
    (hboth : ¬BothTables d m va1 va2) (size : BitVec 32) (premission : Char) :
    ∃ m', m.shareRangeWithPermissions n d va1 va2 size premission = .ok m' ∧
      ∀ va, IsPresent (m.pageEntryOf d va) → m'.pageEntryOf d va = m.pageEntryOf d va := by
  unfold shareRangeWithPermissions
  rw [h.getPageTableVA_lookup va1]
  by_cases hor : TableOrFrame d m va2
  · obtain ⟨t, m', -, hfinds, hget⟩ := exists_findsTable hn (h.hasTable (pdx_lt va2) hor)
    have hnone : tableOf m.words d (pdx va1.toNat) = none := not_not.1 fun hsome =>
      hboth ⟨hsome, hor⟩
    refine ⟨m', ?_, fun va => hfinds.pageEntryOf_eq hn⟩
    simp [hnone, hget]
  · obtain ⟨hnone, hnil⟩ := not_or.1 hor
    refine ⟨m, ?_, fun _ _ => rfl⟩
    simp [getPageTableVA_noMem (h.memory _ (pdx_lt va2)) (not_not.1 hnone) (not_not.1 hnil)]

/-- When the mapping commands have no access through a null page table : for `ConnectPageToFrame`,
where the page has a page table or there is a frame for one; for `ShareRangeWithPermissions`, where
the check before its loop fails, or the loop has both page tables at each page that it comes to.
Where the check fails in a directory, no present entry is changed; and outside the windows the loop
has both page tables exactly if those of the directory and the free frames suffice. -/
theorem noNullAccess_iff (n d : Nat) (m : KernMemory) :
    (∀ page frame writePerm userPerm,
      NoNullAccess (m.connectPageToFrame n d page frame writePerm userPerm) ↔
        m.getPageTableVA n d (vaOfPage page) true = none ∨ TableOrFrame d m (vaOfPage page)) ∧
    ∀ va1 va2 size premission,
      (NoNullAccess (m.shareRangeWithPermissions n d va1 va2 size premission) ↔
        ∀ m', CheckPasses n d m va1 va2 m' →
          TablesThere n d premission (pagesRangeOf size).toNat va1 va2 m') ∧
      (n ≤ 1048576 → Directory n d m →
        (¬BothTables d m va1 va2 →
          ∃ m', m.shareRangeWithPermissions n d va1 va2 size premission = .ok m' ∧
            ∀ va, IsPresent (m.pageEntryOf d va) → m'.pageEntryOf d va = m.pageEntryOf d va) ∧
        (OutsideWindows d m va1 va2 (pagesRangeOf size).toNat →
          (NoNullAccess (m.shareRangeWithPermissions n d va1 va2 size premission) ↔
            (BothTables d m va1 va2 →
              TablesSuffice d m va1 va2 (pagesRangeOf size).toNat)))) :=
  ⟨connectPageToFrame_noNullAccess n d m, fun va1 va2 size premission =>
    ⟨shareRangeWithPermissions_noNullAccess n d m va1 va2 size premission, fun hn h =>
      ⟨fun hboth => shareRangeWithPermissions_kept hn h hboth size premission,
        shareRangeWithPermissions_tablesSuffice hn h⟩⟩⟩

theorem entryOf_pageAddress (p k : Nat) : entryOf (pageAddress p) k = (p + k) % 1048576 / 1024 := by
  rw [entryOf, pageAddress, pdx, BitVec.toNat_add, BitVec.toNat_ofNat, BitVec.toNat_ofNat]
  omega

theorem smallRanges_outsideWindows (va1 va2 : BitVec 32) (N : Nat) :
    OutsideWindows 4 smallRanges va1 va2 N := by
  have hne : ∀ i, tableOf smallRanges.words 4 i ≠ some 4 := fun i => by
    rw [smallRanges_tableOf]
    split_ifs <;> simp
  exact fun k _ => ⟨hne _, hne _⟩

/-- The four megabytes from address 0 on have a page table, and so have the next four. -/
theorem smallRanges_tablesSuffice {N : Nat} (hN : N ≤ 1024) :
    TablesSuffice 4 smallRanges (pageAddress 0) (pageAddress 1024) N := by
  refine ⟨fun k hk => Or.inl ?_, ?_⟩
  · rw [entryOf_pageAddress, smallRanges_tableOf, if_pos (by omega)]
    exact Option.some_ne_none 9
  · have hempty : tablesToMake 4 smallRanges (pageAddress 1024) N = ∅ := by
      refine Finset.eq_empty_of_forall_notMem fun i hi => ?_
      obtain ⟨⟨k, hk, rfl⟩, hnone⟩ := mem_tablesToMake.1 hi
      rw [entryOf_pageAddress, smallRanges_tableOf, if_neg (by omega), if_pos (by omega)] at hnone
      cases hnone
    rw [hempty, Finset.card_empty]
    exact Nat.zero_le _

/-- Page 0 is connected, and one megabyte is shared, with no null table on the way. -/
theorem smallRanges_noNullAccess :
    NoNullAccess (smallRanges.connectPageToFrame 10 4 0#32 7#32 'w' 'u') ∧
      NoNullAccess (smallRanges.shareRangeWithPermissions 10 4 (pageAddress 0) (pageAddress 1024)
        1#32 'r') := by
  obtain ⟨hconnect, hshare⟩ := noNullAccess_iff 10 4 smallRanges
  refine ⟨(hconnect 0#32 7#32 'w' 'u').2 (Or.inr (Or.inl (by decide))), ?_⟩
  have hiff := ((hshare (pageAddress 0) (pageAddress 1024) 1#32 'r').2 (by omega)
    smallRanges_directory).2
  have hpages : (pagesRangeOf 1#32).toNat = 257 := by decide
  rw [hiff (smallRanges_outsideWindows _ _ _), hpages]
  exact fun _ => smallRanges_tablesSuffice (by omega)

/-- Without a free frame page 2048 has no page table, and `ConnectPageToFrame` writes through the
null one. The second page of the range at 0x7FF000 has none either, and the loop reads through it
with the check before it passed. -/
theorem smallRanges_counterexample :
    Directory 10 4 smallRanges ∧
      ¬NoNullAccess (smallRanges.connectPageToFrame 10 4 2048#32 7#32 'w' 'u') ∧
      ¬NoNullAccess (smallRanges.shareRangeWithPermissions 10 4 0x7FF000#32 0#32 1#32 'r') := by
  have hboth : BothTables 4 smallRanges 0x7FF000#32 0#32 :=
    ⟨by decide, Or.inl (by decide)⟩
  have hsuffice : ¬TablesSuffice 4 smallRanges 0x7FF000#32 0#32 257 := fun h => by
    rcases h.sources 1 (by omega) with hsome | ⟨l, hl, heq⟩
    · exact hsome (by decide)
    · obtain rfl : l = 0 := by omega
      revert heq
      decide
  refine ⟨smallRanges_directory, id, fun hnull => hsuffice ?_⟩
  have hpages : (pagesRangeOf 1#32).toNat = 257 := by decide
  rw [← hpages]
  exact (shareRangeWithPermissions_tablesSuffice (by omega) smallRanges_directory
    (smallRanges_outsideWindows _ _ _)).1 hnull hboth

end KernMemory

end FosKernel
