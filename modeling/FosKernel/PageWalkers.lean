import FosKernel.CommandPrompt

/-!
# `FindPhysicalAddress` and `check_va2pa`

Two walkers of the same page tables. `check_va2pa` reads a directory entry for present if it
has `PERM_PRESENT`, `get_page_table` if it is not zero; and the `-1` of `FindPhysicalAddress`
is also the address of the last byte of frame `0xFFFFF`. `walkersAgree_iff` : these are the
places where the two differ.

A directory is `Walkable` if none of its entries is of either kind. `CommandOk` is when a command
leaves it so : it clears no entry of the directory, puts no other in it than a page table with
nothing of that frame, and connects no page with it (`walkers_agree`).
-/

namespace FosKernel

namespace KernMemory

variable {n d t i j f : Nat} {m m' : KernMemory} {va : BitVec 32} {e : Entry}

/-! ## The two walkers -/

/-- `check_va2pa`. -/
def checkVa2pa (n d : Nat) (m : KernMemory) (va : BitVec 32) : Option (BitVec 32) :=
  let pde := m.words d (pdx va.toNat)
  if ¬IsPresent pde then some (~~~0#32)
  else do
    let p ← Boot.kVirtualFrame n (extractAddress pde)
    if ¬IsPresent (m.words p (ptx va.toNat)) then some (~~~0#32)
    else some (extractAddress (m.words p (ptx va.toNat)))

/-- The walkers agree : both panic, or both report the page unmapped, or one gives the address
and the other its page. -/
def WalkersAgree (n d : Nat) (m : KernMemory) (va : BitVec 32) : Prop :=
  match m.findPhysicalAddress n d va, m.checkVa2pa n d va with
  | some pa, some page =>
    (pa = -1#32 ↔ page = ~~~0#32) ∧ (page ≠ ~~~0#32 → pa = page + (va &&& 0xFFF#32))
  | none, none => True
  | _, _ => False

/-- A present entry of the last frame of the address space. -/
def LastFrame (e : Entry) : Prop :=
  IsPresent e ∧ frameNumber e = 1048575

instance (e : Entry) : Decidable (LastFrame e) :=
  inferInstanceAs (Decidable (_ ∧ _))

/-- The physical address is `-1`. -/
def LastByte (e : Entry) (va : BitVec 32) : Prop :=
  LastFrame e ∧ va &&& 0xFFF#32 = 0xFFF#32

/-- The directory entry is zero; or it is present, and the address is not the last of all; or
it is neither, and the page is not mapped. -/
def CanAgree (n d : Nat) (m : KernMemory) (va : BitVec 32) : Prop :=
  let pde := m.words d (pdx va.toNat)
  let e := m.pageEntryOf d va
  pde = 0#32 ∨ (IsPresent pde ∧ (frameNumber pde < n → ¬LastByte e va)) ∨
    (¬IsPresent pde ∧ frameNumber pde < n ∧ (IsPresent e → LastByte e va))

/-- The address of the frame that an entry maps. -/
theorem ushiftRight_mul (e : Entry) : e >>> 12 * 4096#32 = extractAddress e := by
  have hpow : BitVec.twoPow 32 12 = 4096#32 := by decide
  rw [← toPhysicalAddress_frameNumber, ushiftRight_eq, toPhysicalAddress,
    BitVec.shiftLeft_eq_mul_twoPow, hpow]

theorem toNat_extractAddress (e : Entry) : (extractAddress e).toNat = 4096 * frameNumber e := by
  have hlt := frameNumber_lt e
  rw [← ushiftRight_mul, ushiftRight_eq, BitVec.toNat_mul, BitVec.toNat_ofNat, BitVec.toNat_ofNat]
  omega

theorem toNat_offset (va : BitVec 32) : (va &&& 0xFFF#32).toNat = va.toNat % 4096 := by
  have hmask : (0xFFF#32).toNat = 2 ^ 12 - 1 := rfl
  rw [BitVec.toNat_and, hmask, Nat.and_two_pow_sub_one_eq_mod]

/-- No page is the one that `check_va2pa` reports unmapped. -/
theorem extractAddress_ne (e : Entry) : extractAddress e ≠ ~~~0#32 := by
  intro heq
  have htoNat := congrArg BitVec.toNat heq
  rw [toNat_extractAddress] at htoNat
  have hmax : (~~~0#32).toNat = 4294967295 := rfl
  omega

/-- The address that is returned for a page that is not there. -/
theorem extractAddress_add_eq_iff (hpresent : IsPresent e) :
    extractAddress e + (va &&& 0xFFF#32) = -1#32 ↔ LastByte e va := by
  have hlt := frameNumber_lt e
  have hmax : (-1#32).toNat = 4294967295 := rfl
  have hoffset : (0xFFF#32).toNat = 4095 := rfl
  unfold LastByte LastFrame
  rw [← BitVec.toNat_inj, ← BitVec.toNat_inj (x := va &&& 0xFFF#32), BitVec.toNat_add,
    toNat_extractAddress, toNat_offset, hmax, hoffset]
  constructor
  · intro heq
    exact ⟨⟨hpresent, by omega⟩, by omega⟩
  · rintro ⟨⟨-, hframe⟩, hbyte⟩
    omega

theorem findPhysicalAddress_eq (n d : Nat) (m : KernMemory) (va : BitVec 32) :
    m.findPhysicalAddress n d va = if frameNumber (m.words d (pdx va.toNat)) < n then
      some (if IsPresent (m.pageEntryOf d va) then
        extractAddress (m.pageEntryOf d va) + (va &&& 0xFFF#32) else -1#32) else none := by
  unfold findPhysicalAddress getPhysicalAddress
  rw [getpageFrameNumber_eq]
  split
  · by_cases hpresent : IsPresent (m.pageEntryOf d va)
    · have hframe : pageFrame (m.pageEntryOf d va) = m.pageEntryOf d va >>> 12 := if_pos hpresent
      rw [if_pos hpresent, hframe, ← ushiftRight_mul]
      exact if_pos (ushiftRight_ne _)
    · have hframe : pageFrame (m.pageEntryOf d va) = -1#32 := if_neg hpresent
      simp [hpresent, hframe]
  · rfl

theorem checkVa2pa_of_present (hpresent : IsPresent (m.words d (pdx va.toNat))) :
    m.checkVa2pa n d va = if frameNumber (m.words d (pdx va.toNat)) < n then
      some (if IsPresent (m.pageEntryOf d va) then extractAddress (m.pageEntryOf d va)
        else ~~~0#32) else none := by
  have ht : tableOf m.words d (pdx va.toNat) = some (frameNumber (m.words d (pdx va.toNat))) :=
    if_neg hpresent.ne_zero
  have hvirtual : Boot.kVirtualFrame n (extractAddress (m.words d (pdx va.toNat))) =
      if frameNumber (m.words d (pdx va.toNat)) < n
      then some (frameNumber (m.words d (pdx va.toNat))) else none := rfl
  unfold checkVa2pa
  dsimp only
  rw [if_neg (not_not.2 hpresent), hvirtual, pageEntryOf, entryAt_of_some ht]
  split
  · simp only [Option.bind_eq_bind, Option.bind_some, ite_not]
    split <;> rfl
  · rfl

/-- The walkers read the same entry, through a directory entry that is present. -/
theorem walkersAgree_of_present (hpde : IsPresent (m.words d (pdx va.toNat))) :
    WalkersAgree n d m va ↔
      (frameNumber (m.words d (pdx va.toNat)) < n → ¬LastByte (m.pageEntryOf d va) va) := by
  unfold WalkersAgree
  rw [findPhysicalAddress_eq, checkVa2pa_of_present hpde]
  by_cases hlt : frameNumber (m.words d (pdx va.toNat)) < n
  · rw [if_pos hlt, if_pos hlt]
    by_cases he : IsPresent (m.pageEntryOf d va)
    · rw [if_pos he, if_pos he]
      refine ⟨fun hagree _ hlast => ?_, fun hnot => ⟨?_, fun _ => rfl⟩⟩
      · exact extractAddress_ne _ (hagree.1.1 ((extractAddress_add_eq_iff he).2 hlast))
      · exact iff_of_false (fun heq => hnot hlt ((extractAddress_add_eq_iff he).1 heq))
          (extractAddress_ne _)
    · rw [if_neg he, if_neg he]
      exact iff_of_true ⟨iff_of_true rfl rfl, fun hne => absurd rfl hne⟩
        fun _ hlast => he hlast.1.1
  · rw [if_neg hlt, if_neg hlt]
    exact iff_of_true trivial fun hc => absurd hc hlt

/-- Through a directory entry that is not present `check_va2pa` finds no page. -/
theorem walkersAgree_of_not_present (hpde : ¬IsPresent (m.words d (pdx va.toNat))) :
    WalkersAgree n d m va ↔ frameNumber (m.words d (pdx va.toNat)) < n ∧
      (IsPresent (m.pageEntryOf d va) → LastByte (m.pageEntryOf d va) va) := by
  have hcheck : m.checkVa2pa n d va = some (~~~0#32) := if_pos hpde
  unfold WalkersAgree
  rw [findPhysicalAddress_eq, hcheck]
  by_cases hlt : frameNumber (m.words d (pdx va.toNat)) < n
  · rw [if_pos hlt]
    by_cases he : IsPresent (m.pageEntryOf d va)
    · rw [if_pos he]
      refine ⟨fun hagree => ⟨hlt, fun _ => (extractAddress_add_eq_iff he).1 (hagree.1.2 rfl)⟩,
        fun hlast => ⟨iff_of_true ((extractAddress_add_eq_iff he).2 (hlast.2 he)) rfl,
          fun hne => absurd rfl hne⟩⟩
    · rw [if_neg he]
      exact iff_of_true ⟨iff_of_true rfl rfl, fun hne => absurd rfl hne⟩
        ⟨hlt, fun hc => absurd hc he⟩
  · rw [if_neg hlt]
    exact iff_of_false id fun hc => hlt hc.1

/-- When the two walkers agree. -/
theorem walkersAgree_iff (hpos : 0 < n) : WalkersAgree n d m va ↔ CanAgree n d m va := by
  unfold CanAgree
  dsimp only
  by_cases hpde : IsPresent (m.words d (pdx va.toNat))
  · rw [walkersAgree_of_present hpde]
    simp [hpde, hpde.ne_zero]
  · rw [walkersAgree_of_not_present hpde]
    by_cases h0 : m.words d (pdx va.toNat) = 0#32
    · have he : ¬IsPresent (m.pageEntryOf d va) := by
        rw [pageEntryOf, entryAt, tableOf, if_pos h0]
        exact not_isPresent_zero
      have hlt : frameNumber (m.words d (pdx va.toNat)) < n := by
        rw [h0]
        exact hpos
      exact iff_of_true ⟨hlt, fun hc => absurd hc he⟩ (Or.inl h0)
    · simp [hpde, h0]

/-! ## Directories that can be walked -/

/-- The directory entries are zero or present, and no page table has an entry of the last
frame. -/
structure Walkable (n d : Nat) (m : KernMemory) : Prop where
  directory : ∀ i < 1024, m.words d i = 0#32 ∨ IsPresent (m.words d i)
  entries : ∀ i < 1024, ∀ t, tableOf m.words d i = some t → ∀ j < 1024, ¬LastFrame (m.words t j)
  free : ∀ f ∈ m.freeFrameList, f < n

theorem pdx_lt (va : BitVec 32) : pdx va.toNat < 1024 := by
  have := va.isLt
  unfold pdx
  omega

theorem ptx_lt (va : Nat) : ptx va < 1024 :=
  Nat.mod_lt _ (by decide)

theorem Walkable.canAgree (h : Walkable n d m) (va : BitVec 32) : CanAgree n d m va := by
  rcases h.directory _ (pdx_lt va) with h0 | hpresent
  · exact Or.inl h0
  · refine Or.inr (Or.inl ⟨hpresent, fun _ hlast => ?_⟩)
    have ht : tableOf m.words d (pdx va.toNat) = some (frameNumber (m.words d (pdx va.toNat))) :=
      if_neg hpresent.ne_zero
    have hentry := hlast.1
    rw [pageEntryOf, entryAt_of_some ht] at hentry
    exact h.entries _ (pdx_lt va) _ ht _ (ptx_lt _) hentry

/-- The words `e` of a page table, and of the directory, that leave it so. -/
def WriteOk (d : Nat) (m : KernMemory) (t : Nat) (e : Entry) : Prop :=
  ¬LastFrame e ∧
    (t = d → e = 0#32 ∨ IsPresent e ∧ ∀ j < 1024, ¬LastFrame (m.words (frameNumber e) j))

theorem not_lastFrame_zero : ¬LastFrame 0#32 := by
  decide

theorem writeOk_zero : WriteOk d m t 0#32 :=
  ⟨not_lastFrame_zero, fun _ => Or.inl rfl⟩

theorem words_setWord (m : KernMemory) (t j f k : Nat) (e : Entry) :
    (m.setWord t j e).words f k = if f = t ∧ k = j then e else m.words f k :=
  writeWord_apply _ _ _ _ _ _

theorem words_clearFrame (m : KernMemory) (g f k : Nat) :
    (m.clearFrame g).words f k = if f = g then 0#32 else m.words f k :=
  clearWords_apply _ _ _ _

theorem tableOf_eq_some {w : Words} : tableOf w d i = some t ↔
    w d i ≠ 0#32 ∧ frameNumber (w d i) = t := by
  unfold tableOf
  split <;> simp_all

theorem Walkable.setWord (h : Walkable n d m) (hok : WriteOk d m t e) (j : Nat) :
    Walkable n d (m.setWord t j e) := by
  refine ⟨fun i hi => ?_, fun i hi f hf k hk => ?_, h.free⟩
  · rw [words_setWord]
    split
    · next hat => exact (hok.2 hat.1.symm).imp_right And.left
    · exact h.directory i hi
  · obtain ⟨hne, hframe⟩ := tableOf_eq_some.1 hf
    have hold : ¬LastFrame (m.words f k) := by
      rw [words_setWord] at hne hframe
      split at hne
      · next hat =>
        rw [if_pos hat] at hframe
        exact hframe ▸ ((hok.2 hat.1.symm).resolve_left hne).2 k hk
      · next hat =>
        rw [if_neg hat] at hframe
        exact h.entries i hi f (tableOf_eq_some.2 ⟨hne, hframe⟩) k hk
    rw [words_setWord]
    split
    · exact hok.1
    · exact hold

theorem Walkable.clearFrame (h : Walkable n d m) (f : Nat) : Walkable n d (m.clearFrame f) := by
  refine ⟨fun i hi => ?_, fun i hi t ht k hk => ?_, h.free⟩
  · rw [words_clearFrame]
    split
    · exact Or.inl rfl
    · exact h.directory i hi
  · obtain ⟨hne, hframe⟩ := tableOf_eq_some.1 ht
    rw [words_clearFrame] at hne hframe ⊢
    split
    · exact not_lastFrame_zero
    · split at hne
      · exact absurd rfl hne
      · next hdf =>
        rw [if_neg hdf] at hframe
        exact h.entries i hi t (tableOf_eq_some.2 ⟨hne, hframe⟩) k hk

/-- Counters and the list of free frames do not matter. -/
theorem Walkable.of_words (h : Walkable n d m) (m' : KernMemory) (hwords : m'.words = m.words)
    (hfree : ∀ f ∈ m'.freeFrameList, f < n) : Walkable n d m' := by
  refine ⟨?_, ?_, hfree⟩
  · rw [hwords]
    exact h.directory
  · rw [hwords]
    exact h.entries

/-- Words that changed are not entries of the last frame. -/
def Cleaner (m m' : KernMemory) : Prop :=
  ∀ f j, m'.words f j = m.words f j ∨ ¬LastFrame (m'.words f j)

theorem Cleaner.not_lastFrame (h : Cleaner m m') (hold : ¬LastFrame (m.words f j)) :
    ¬LastFrame (m'.words f j) :=
  (h f j).elim (fun heq => heq.symm ▸ hold) id

theorem WriteOk.cleaner (hok : WriteOk d m t e) (h : Cleaner m m') : WriteOk d m' t e :=
  ⟨hok.1, fun htd => (hok.2 htd).imp_right fun hp =>
    ⟨hp.1, fun j hj => h.not_lastFrame (hp.2 j hj)⟩⟩

/-- What looking up a page table, or making one, leaves. -/
structure LookupSpec (n d : Nat) (va : Nat) (m : KernMemory) (table : Option Nat)
    (m' : KernMemory) : Prop where
  walkable : Walkable n d m'
  cleaner : Cleaner m m'
  found : ∀ t, tableOf m.words d (pdx va) = some t → table = some t ∧ m' = m
  made : ∀ t, tableOf m.words d (pdx va) = none → table = some t → m.freeFrameList.head? = some t
  table : ∀ t, table = some t → tableOf m'.words d (pdx va) = some t

/-- Without a table made nothing is changed. -/
theorem Walkable.lookup_refl (h : Walkable n d m) {va : Nat} {table : Option Nat}
    (heq : table = tableOf m.words d (pdx va)) : LookupSpec n d va m table m := by
  refine ⟨h, fun _ _ => Or.inl rfl, fun t ht => ⟨heq.trans ht, rfl⟩, fun t hnone ht => ?_,
    fun t ht => heq.symm.trans ht⟩
  rw [heq, hnone] at ht
  cases ht

/-- A page table is made in the first free frame. -/
theorem Walkable.create (hn : n < 1048576) (h : Walkable n d m) {va g : Nat} {rest : List Nat}
    (hl : m.freeFrameList = g :: rest) (hnone : tableOf m.words d (pdx va) = none) :
    LookupSpec n d va m (some g)
      (((({ m.setReferences g 0 with freeFrameList := rest } : KernMemory).clearFrame
        g).setReferences g 1).setWord d (pdx va) (constructEntry (toPhysicalAddress g)
          (permPresent ||| permUser ||| permWriteable))) := by
  have hg := h.free g (hl ▸ List.mem_cons_self)
  have hperm : IsPerm (permPresent ||| permUser ||| permWriteable) := by decide
  have hnumber := frameNumber_constructEntry (f := g) (by omega) hperm
  have hpresent : IsPresent (constructEntry (toPhysicalAddress g)
      (permPresent ||| permUser ||| permWriteable)) :=
    isPresent_constructEntry _ (permUser ||| permWriteable)
  have hcleared : Walkable n d ((({ m.setReferences g 0 with
      freeFrameList := rest } : KernMemory).clearFrame g).setReferences g 1) := by
    have hrest := h.of_words { m.setReferences g 0 with freeFrameList := rest } rfl
      fun f hf => h.free f (hl ▸ List.mem_cons_of_mem g hf)
    exact (hrest.clearFrame g).of_words _ rfl hrest.free
  have hwords : ∀ f k, ((({ m.setReferences g 0 with
      freeFrameList := rest } : KernMemory).clearFrame g).setReferences g 1).words f k =
      if f = g then 0#32 else m.words f k := fun f k => words_clearFrame _ _ _ _
  have hlast : ¬LastFrame (constructEntry (toPhysicalAddress g)
      (permPresent ||| permUser ||| permWriteable)) := fun hlast => by
    have hframe := hlast.2
    omega
  refine ⟨hcleared.setWord ⟨hlast, fun _ => Or.inr ⟨hpresent, fun j _ => ?_⟩⟩ (pdx va),
    fun f j => ?_, fun t ht => ?_, fun t _ ht => ?_, fun t ht => ?_⟩
  · rw [hnumber, hwords, if_pos rfl]
    exact not_lastFrame_zero
  · rw [words_setWord]
    split
    · exact Or.inr hlast
    · rw [hwords]
      split
      · exact Or.inr not_lastFrame_zero
      · exact Or.inl rfl
  · rw [hnone] at ht
    cases ht
  · rw [hl, ← ht]
    rfl
  · rw [← ht, tableOf_eq_some, words_setWord, if_pos ⟨rfl, rfl⟩]
    exact ⟨hpresent.ne_zero, hnumber⟩

theorem Walkable.lookup (hn : n < 1048576) (h : Walkable n d m) {va : Nat} {create : Bool}
    {status : Status} {table : Option Nat}
    (hget : m.getPageTable n d va create = some ((status, table), m')) :
    LookupSpec n d va m table m' := by
  unfold getPageTable at hget
  obtain ⟨frame, hframe, hget⟩ := Option.bind_eq_some_iff.1 hget
  by_cases h0 : m.words d (pdx va) = 0#32
  · have hnone : tableOf m.words d (pdx va) = none := if_pos h0
    rw [if_pos h0] at hget
    cases create with
    | false =>
      obtain ⟨hst, rfl⟩ := Prod.mk.inj (Option.some.inj hget)
      obtain ⟨-, rfl⟩ := Prod.mk.inj hst
      exact h.lookup_refl hnone.symm
    | true =>
      cases hl : m.freeFrameList with
      | nil =>
        simp only [allocateFrame, hl, if_true] at hget
        obtain ⟨hst, rfl⟩ := Prod.mk.inj (Option.some.inj hget)
        obtain ⟨-, rfl⟩ := Prod.mk.inj hst
        exact h.lookup_refl hnone.symm
      | cons g rest =>
        have hg := h.free g (hl ▸ List.mem_cons_self)
        have hvirtual : Boot.kVirtualFrame n (toPhysicalAddress g) = some g := by
          rw [Boot.kVirtualFrame, ppn_toPhysicalAddress (by omega), if_pos hg]
        simp only [allocateFrame, hl, if_true, hvirtual, Option.bind_eq_bind,
          Option.bind_some] at hget
        obtain ⟨hst, rfl⟩ := Prod.mk.inj (Option.some.inj hget)
        obtain ⟨-, rfl⟩ := Prod.mk.inj hst
        exact h.create hn hl hnone
  · have hsome : tableOf m.words d (pdx va) = some (frameNumber (m.words d (pdx va))) := if_neg h0
    have heq : some frame = tableOf m.words d (pdx va) := by
      rw [Boot.kVirtualFrame] at hframe
      split at hframe
      · exact hframe.symm.trans hsome.symm
      · cases hframe
    rw [if_neg h0] at hget
    obtain ⟨hst, rfl⟩ := Prod.mk.inj (Option.some.inj hget)
    obtain ⟨-, rfl⟩ := Prod.mk.inj hst
    exact h.lookup_refl heq

/-! ## The commands -/

/-- The commands on the mappings of the kernel. -/
inductive Command where
  | cvp (va pa : BitVec 32)
  | dvp (va : BitVec 32)
  | srp (va1 va2 size : BitVec 32) (premission : Char)
  | cpf (pageNumber frame : BitVec 32) (writePerm userPerm : Char)

/-- One command, if it returns. -/
def commandStep (n d : Nat) (m : KernMemory) : Command → Option KernMemory
  | .cvp va pa => m.commandCvp n d va pa
  | .dvp va => m.commandDvp n d va
  | .srp va1 va2 size premission =>
    (m.shareRangeWithPermissions n d va1 va2 size premission).toOption
  | .cpf pageNumber frame writePerm userPerm =>
    (m.connectPageToFrame n d pageNumber frame writePerm userPerm).toOption.map Prod.snd

/-- An entry written through a window, into the directory, is zero or that of a page table
that has no entry of the last frame. -/
def WindowOk (d : Nat) (m : KernMemory) (va : BitVec 32) (e : Entry) : Prop :=
  tableOf m.words d (pdx va.toNat) = some d →
    e = 0#32 ∨ IsPresent e ∧ ∀ j < 1024, ¬LastFrame (m.words (frameNumber e) j)

/-- The directory is not made the page table. -/
def NotMade (d : Nat) (m : KernMemory) (va : BitVec 32) : Prop :=
  tableOf m.words d (pdx va.toNat) = none → m.freeFrameList.head? ≠ some d

/-- The pages that are shared leave a directory that can be walked. -/
def PagesOk (n d : Nat) (premission : Char) :
    Nat → BitVec 32 → BitVec 32 → KernMemory → Prop
  | 0, _, _, _ => True
  | pagesRange + 1, va1, va2, m =>
    NotMade d m va2 ∧ WindowOk d m va2 (withPremission premission (m.pageEntryOf d va1)) ∧
      ∀ m', m.sharePage n d premission va1 va2 = .ok m' →
        PagesOk n d premission pagesRange (va1 + 4096#32) (va2 + 4096#32) m'

/-- The command leaves a directory that can be walked. -/
def CommandOk (n d : Nat) (m : KernMemory) : Command → Prop
  | .cvp va pa => NotMade d m va ∧
      WindowOk d m va (constructEntry (toPhysicalAddress (ppn pa)) (3#32 ||| permPresent))
  | .dvp va => WindowOk d m va (m.pageEntryOf d va &&& ~~~permPresent)
  | .srp va1 va2 size premission => NotMade d m va2 ∧
      ∀ table m', m.getPageTableVA n d va2 true = some (table, m') →
        PagesOk n d premission (pagesRangeOf size).toNat va1 va2 m'
  | .cpf pageNumber frame writePerm userPerm =>
      ¬LastFrame (connectEntry frame writePerm userPerm) ∧ NotMade d m (vaOfPage pageNumber) ∧
      WindowOk d m (vaOfPage pageNumber) (connectEntry frame writePerm userPerm)

variable {va1 va2 size pageNumber frame pa : BitVec 32} {premission writePerm userPerm : Char}

/-- The entry may be written to the page table that was looked up. -/
theorem LookupSpec.writeOk {table : Option Nat} (h : LookupSpec n d va.toNat m table m')
    (hlast : ¬LastFrame e) (hmade : NotMade d m va) (hok : WindowOk d m va e)
    (ht : table = some t) : WriteOk d m' t e := by
  refine ⟨hlast, fun htd => ?_⟩
  cases hold : tableOf m.words d (pdx va.toNat) with
  | none => exact absurd (htd ▸ h.made t hold ht) (hmade hold)
  | some t' =>
    obtain ⟨hsame, rfl⟩ := h.found t' hold
    obtain rfl := Option.some.inj (ht.symm.trans hsame)
    exact hok (htd ▸ hold)

theorem Walkable.lookupVA (hn : n < 1048576) (h : Walkable n d m) {write : Bool}
    {table : Option Nat} (hget : m.getPageTableVA n d va write = some (table, m')) :
    LookupSpec n d va.toNat m table m' := by
  obtain ⟨⟨⟨status, table'⟩, m''⟩, hlookup, heq⟩ := Option.map_eq_some_iff.1 hget
  obtain ⟨rfl, rfl⟩ := Prod.mk.inj heq
  exact h.lookup hn hlookup

/-- The lookup without creation. -/
theorem getPageTableVA_false {table : Option Nat}
    (hget : m.getPageTableVA n d va false = some (table, m')) :
    table = tableOf m.words d (pdx va.toNat) ∧ m' = m := by
  rw [getPageTableVA, getPageTable_lookup] at hget
  split at hget
  · obtain ⟨rfl, rfl⟩ := Prod.mk.inj (Option.some.inj hget)
    exact ⟨rfl, rfl⟩
  · cases hget

/-- The word that is shared is written twice. -/
theorem setPremission_setWord (m : KernMemory) (t j : Nat) (e : Entry) :
    (m.setWord t j e).setPremission premission t j =
      m.setWord t j (withPremission premission e) := by
  have hword : (m.setWord t j e).words t j = e := by
    rw [words_setWord, if_pos ⟨rfl, rfl⟩]
  rw [setPremission, hword]
  unfold KernMemory.setWord
  congr 1
  ext f k : 2
  simp only [writeWord_apply]
  split <;> rfl

theorem isPresent_withPremission : IsPresent (withPremission premission e) ↔ IsPresent e := by
  unfold withPremission IsPresent
  have hw : permWriteable &&& permPresent = 0#32 := by decide
  have hnw : ~~~permWriteable &&& permPresent = permPresent := by decide
  split
  · rw [or_and_right, hw, BitVec.or_zero]
  · rw [BitVec.and_assoc, hnw]

theorem frameNumber_withPremission : frameNumber (withPremission premission e) = frameNumber e := by
  unfold withPremission frameNumber extractAddress
  have hw : permWriteable &&& ~~~permMask = 0#32 := by decide
  have hnw : ~~~permWriteable &&& ~~~permMask = ~~~permMask := by decide
  split
  · rw [or_and_right, hw, BitVec.or_zero]
  · rw [BitVec.and_assoc, hnw]

theorem lastFrame_withPremission : LastFrame (withPremission premission e) ↔ LastFrame e := by
  rw [LastFrame, isPresent_withPremission, frameNumber_withPremission, LastFrame]

/-- An entry without `PERM_PRESENT` is not present. -/
theorem not_isPresent_and (e : Entry) : ¬IsPresent (e &&& ~~~permPresent) := by
  have hmask : ~~~permPresent &&& permPresent = 0#32 := by decide
  unfold IsPresent
  rw [BitVec.and_assoc, hmask, BitVec.and_zero]
  decide

theorem Walkable.commandDvp (hn : n < 1048576) (h : Walkable n d m)
    (hok : WindowOk d m va (m.pageEntryOf d va &&& ~~~permPresent))
    (hstep : m.commandDvp n d va = some m') : Walkable n d m' := by
  obtain ⟨⟨table, m₁⟩, hget, hstep⟩ := Option.bind_eq_some_iff.1 hstep
  have hspec := h.lookupVA hn hget
  obtain ⟨htable, rfl⟩ := getPageTableVA_false hget
  cases table with
  | none =>
    obtain rfl := Option.some.inj hstep
    exact hspec.walkable
  | some t =>
    obtain rfl := Option.some.inj hstep
    rw [pageEntryOf, entryAt_of_some htable.symm] at hok
    refine h.setWord ⟨fun hlast => not_isPresent_and _ hlast.1, fun htd => ?_⟩ _
    exact hok (htd ▸ htable.symm)

/-- `unmap_frame` clears a word, or none. -/
theorem Walkable.unmapFrame {va : Nat} (h : Walkable n d m) (hun : m.unmapFrame n d va = some m') :
    Walkable n d m' ∧ Cleaner m m' := by
  obtain ⟨⟨frame, table⟩, hinfo, hun⟩ := Option.bind_eq_some_iff.1 hun
  have hsame : ∀ m', some m = some m' → Walkable n d m' ∧ Cleaner m m' := fun m' heq => by
    obtain rfl := Option.some.inj heq
    exact ⟨h, fun _ _ => Or.inl rfl⟩
  cases frame with
  | none => exact hsame m' hun
  | some f =>
    cases table with
    | none => exact hsame m' hun
    | some t =>
      obtain rfl := Option.some.inj hun
      have hf : f < n := by
        obtain ⟨⟨⟨status, table⟩, m₁⟩, -, hinfo⟩ := Option.bind_eq_some_iff.1 hinfo
        cases table with
        | none => cases hinfo
        | some t' =>
          dsimp only at hinfo
          split at hinfo
          · obtain ⟨g, hg, heq⟩ := Option.bind_eq_some_iff.1 hinfo
            obtain ⟨hgf, -⟩ := Prod.mk.inj (Option.some.inj heq)
            obtain rfl := Option.some.inj hgf
            unfold toFrameInfo at hg
            split at hg
            · next hlt => exact Option.some.inj hg ▸ hlt
            · cases hg
          · cases hinfo
      have hdec : Walkable n d (m.decrementReferences f) := by
        refine h.of_words _ (Inv.decrementReferences_words m f) fun g hg => ?_
        rcases Inv.decrementReferences_cases m f with ⟨-, heq⟩ | ⟨-, heq⟩ <;> rw [heq] at hg
        · exact (List.mem_cons.1 hg).elim (fun heq => heq ▸ hf) (h.free g)
        · exact h.free g hg
      refine ⟨hdec.setWord writeOk_zero _, fun g j => ?_⟩
      rw [words_setWord, Inv.decrementReferences_words]
      split
      · exact Or.inr not_lastFrame_zero
      · exact Or.inl rfl

/-- The end of `map_frame`. -/
theorem Walkable.insertEntry {va : Nat} {perm : BitVec 32} (h : Walkable n d m)
    (hok : WriteOk d m t (constructEntry (toPhysicalAddress f) (perm ||| permPresent))) :
    Walkable n d (m.insertEntry t va f perm) :=
  (h.of_words (m.setReferences f (m.references f + 1)) rfl h.free).setWord hok (ptx va)

theorem Walkable.commandCvp (hn : n < 1048576) (h : Walkable n d m) (hmade : NotMade d m va)
    (hok : WindowOk d m va (constructEntry (toPhysicalAddress (ppn pa)) (3#32 ||| permPresent)))
    (hstep : m.commandCvp n d va pa = some m') : Walkable n d m' := by
  obtain ⟨f, hf, hstep⟩ := Option.bind_eq_some_iff.1 hstep
  obtain ⟨⟨status, m''⟩, hmap, rfl⟩ := Option.map_eq_some_iff.1 hstep
  obtain ⟨hlt, rfl⟩ : ppn pa < n ∧ ppn pa = f := by
    unfold toFrameInfo at hf
    split at hf
    · next hlt => exact ⟨hlt, Option.some.inj hf⟩
    · cases hf
  have hlast : ¬LastFrame (constructEntry (toPhysicalAddress (ppn pa)) (3#32 ||| permPresent)) := by
    intro hlast
    have hframe := hlast.2
    rw [frameNumber_constructEntry (by omega) (by decide)] at hframe
    omega
  obtain ⟨⟨⟨status', table⟩, m₁⟩, hget, hmap⟩ := Option.bind_eq_some_iff.1 hmap
  have hspec := h.lookup hn hget
  cases status' with
  | noMem =>
    obtain ⟨-, rfl⟩ := Prod.mk.inj (Option.some.inj hmap)
    exact hspec.walkable
  | ok =>
    cases table with
    | none =>
      obtain ⟨-, rfl⟩ := Prod.mk.inj (Option.some.inj hmap)
      exact hspec.walkable
    | some t =>
      have hwrite := hspec.writeOk hlast hmade hok rfl
      dsimp only at hmap
      split at hmap
      · split at hmap
        · obtain ⟨-, rfl⟩ := Prod.mk.inj (Option.some.inj hmap)
          exact hspec.walkable
        · obtain ⟨m₂, hun, hmap⟩ := Option.bind_eq_some_iff.1 hmap
          obtain ⟨-, rfl⟩ := Prod.mk.inj (Option.some.inj hmap)
          obtain ⟨hwalk, hclean⟩ := hspec.walkable.unmapFrame hun
          exact hwalk.insertEntry (hwrite.cleaner hclean)
      · obtain ⟨-, rfl⟩ := Prod.mk.inj (Option.some.inj hmap)
        exact hspec.walkable.insertEntry hwrite

theorem Walkable.connectPageToFrame (hn : n < 1048576) (h : Walkable n d m)
    (hlast : ¬LastFrame (connectEntry frame writePerm userPerm))
    (hmade : NotMade d m (vaOfPage pageNumber))
    (hok : WindowOk d m (vaOfPage pageNumber) (connectEntry frame writePerm userPerm))
    {result : BitVec 32}
    (hstep : m.connectPageToFrame n d pageNumber frame writePerm userPerm = .ok (result, m')) :
    Walkable n d m' := by
  unfold KernMemory.connectPageToFrame at hstep
  dsimp only at hstep
  split at hstep
  · cases hstep
  · next table m₁ hget =>
    have hspec := h.lookupVA hn hget
    split at hstep
    · next t =>
      obtain ⟨-, rfl⟩ := Prod.mk.inj (Except.ok.inj hstep)
      exact hspec.walkable.setWord (hspec.writeOk hlast hmade hok rfl) _
    · cases hstep

theorem Walkable.sharePage (hn : n < 1048576) (h : Walkable n d m) (hmade : NotMade d m va2)
    (hok : WindowOk d m va2 (withPremission premission (m.pageEntryOf d va1)))
    (hstep : m.sharePage n d premission va1 va2 = .ok m') : Walkable n d m' := by
  unfold KernMemory.sharePage at hstep
  split at hstep
  · cases hstep
  · next table1 m₁ hget1 =>
    obtain ⟨htable1, rfl⟩ := getPageTableVA_false hget1
    split at hstep
    · cases hstep
    · next table2 m₂ hget2 =>
      have hspec := h.lookupVA hn hget2
      split at hstep
      · next t1 t2 =>
        obtain rfl := Except.ok.inj hstep
        -- the word of the source page is not of the last frame
        have hlast : ¬LastFrame (withPremission premission (m₂.words t1 (ptx va1.toNat))) := by
          rw [lastFrame_withPremission]
          exact hspec.cleaner.not_lastFrame
            (h.entries _ (pdx_lt va1) t1 htable1.symm _ (ptx_lt _))
        have hwrite : WriteOk d m₂ t2
            (withPremission premission (m₂.words t1 (ptx va1.toNat))) := by
          refine ⟨hlast, fun htd => ?_⟩
          cases hold : tableOf m₁.words d (pdx va2.toNat) with
          | none => exact absurd (htd ▸ hspec.made t2 hold rfl) (hmade hold)
          | some t' =>
            obtain ⟨hsame, rfl⟩ := hspec.found t' hold
            obtain rfl := Option.some.inj hsame
            rw [pageEntryOf, entryAt_of_some htable1.symm] at hok
            exact hok (htd ▸ hold)
        rw [setPremission_setWord]
        exact hspec.walkable.setWord hwrite (ptx va2.toNat)
      · cases hstep

theorem Walkable.sharePages (hn : n < 1048576) :
    ∀ (pagesRange : Nat) {va1 va2 : BitVec 32} {m m' : KernMemory}, Walkable n d m →
      PagesOk n d premission pagesRange va1 va2 m →
      sharePages n d premission pagesRange va1 va2 m = .ok m' → Walkable n d m'
  | 0, va1, va2, m, m', h, _, hstep => by
    obtain rfl := Except.ok.inj hstep
    exact h
  | pagesRange + 1, va1, va2, m, m', h, hok, hstep => by
    rw [KernMemory.sharePages] at hstep
    cases hpage : m.sharePage n d premission va1 va2 with
    | error fault =>
      rw [hpage] at hstep
      cases hstep
    | ok m₁ =>
      rw [hpage] at hstep
      exact Walkable.sharePages hn pagesRange (h.sharePage hn hok.1 hok.2.1 hpage)
        (hok.2.2 m₁ hpage) hstep

theorem Walkable.shareRangeWithPermissions (hn : n < 1048576) (h : Walkable n d m)
    (hok : CommandOk n d m (.srp va1 va2 size premission))
    (hstep : m.shareRangeWithPermissions n d va1 va2 size premission = .ok m') :
    Walkable n d m' := by
  unfold KernMemory.shareRangeWithPermissions at hstep
  split at hstep
  · cases hstep
  · next table1 m₁ hget1 =>
    obtain ⟨-, rfl⟩ := getPageTableVA_false hget1
    split at hstep
    · cases hstep
    · next table2 m₂ hget2 =>
      have hspec := h.lookupVA hn hget2
      split at hstep
      · exact Walkable.sharePages hn _ hspec.walkable (hok.2 table2 m₂ hget2) hstep
      · obtain rfl := Except.ok.inj hstep
        exact hspec.walkable

/-- A command that meets its condition leaves a directory that can be walked. -/
theorem Walkable.commandStep (hn : n < 1048576) (h : Walkable n d m) {c : Command}
    (hok : CommandOk n d m c) (hstep : commandStep n d m c = some m') : Walkable n d m' := by
  cases c with
  | cvp va pa => exact h.commandCvp hn hok.1 hok.2 hstep
  | dvp va => exact h.commandDvp hn hok hstep
  | srp va1 va2 size premission =>
    refine h.shareRangeWithPermissions hn hok ?_
    rw [KernMemory.commandStep] at hstep
    cases hr : m.shareRangeWithPermissions n d va1 va2 size premission with
    | error fault =>
      rw [hr] at hstep
      cases hstep
    | ok m₁ =>
      rw [hr] at hstep
      exact congrArg Except.ok (Option.some.inj hstep)
  | cpf pageNumber frame writePerm userPerm =>
    obtain ⟨hlast, hmade, hwindow⟩ := hok
    rw [KernMemory.commandStep] at hstep
    cases hr : m.connectPageToFrame n d pageNumber frame writePerm userPerm with
    | error fault =>
      rw [hr] at hstep
      cases hstep
    | ok result =>
      rw [hr] at hstep
      obtain rfl := Option.some.inj hstep
      exact h.connectPageToFrame hn hlast hmade hwindow hr

/-- `FindPhysicalAddress` and `check_va2pa` agree exactly so, and so in every state that
commands which meet their conditions lead to, from a directory that can be walked. -/
theorem walkers_agree (hpos : 0 < n) (hn : n < 1048576) (d : Nat) :
    (∀ m va, WalkersAgree n d m va ↔ CanAgree n d m va) ∧
      ∀ m commands m', Walkable n d m →
        Machine.Meets (commandStep n d) (CommandOk n d) m commands →
        Machine.run (commandStep n d) m commands = some m' → ∀ va, WalkersAgree n d m' va := by
  refine ⟨fun m va => walkersAgree_iff hpos, fun m commands m' h hmeets hrun va => ?_⟩
  have hwalk : Walkable n d m' := Machine.run_induction_of_meets
    (fun _ _ _ hs hc hstep => hs.commandStep hn hc hstep) h hmeets hrun
  exact (walkersAgree_iff hpos).2 (hwalk.canAgree va)

/-- Page 1 is connected to frame 7. -/
theorem connected_walkers_agree :
    ∃ m', Machine.run (commandStep 10 4) (ofFrames smallFrames smallBoot.words)
        [.cpf 1#32 7#32 'w' 'u'] = some m' ∧ ∀ va, WalkersAgree 10 4 m' va := by
  have hlist : (ofFrames smallFrames smallBoot.words).freeFrameList = [9, 8, 7, 6, 5, 2, 1] := by
    decide
  have hnone : ∀ i, tableOf (ofFrames smallFrames smallBoot.words).words 4 i = none :=
    fun i => if_pos rfl
  have hwalk : Walkable 10 4 (ofFrames smallFrames smallBoot.words) := by
    refine ⟨fun _ _ => Or.inl rfl, fun i _ t ht => ?_, fun f hf => ?_⟩
    · cases (hnone i).symm.trans ht
    · rw [hlist] at hf
      revert f
      decide
  have hmeets : Machine.Meets (commandStep 10 4) (CommandOk 10 4)
      (ofFrames smallFrames smallBoot.words) [.cpf 1#32 7#32 'w' 'u'] := by
    refine ⟨⟨by decide, fun _ => ?_, fun ht => ?_⟩, fun _ _ => trivial⟩
    · rw [hlist]
      decide
    · cases (hnone _).symm.trans ht
  have hsome : (Machine.run (commandStep 10 4) (ofFrames smallFrames smallBoot.words)
      [.cpf 1#32 7#32 'w' 'u']).isSome = true := by decide
  obtain ⟨m', hrun⟩ := Option.isSome_iff_exists.1 hsome
  exact ⟨m', hrun, (walkers_agree (by decide) (by decide) 4).2 _ _ m' hwalk hmeets hrun⟩

/-- The directory in frame 4 has its window at entry 3, and page 1 mapped by the page table in
frame 9. -/
def smallWindow : KernMemory where
  references _ := 0
  freeFrameList := [8]
  words f i :=
    if f = 4 ∧ i = 0 then 0x9007#32
    else if f = 4 ∧ i = 3 then 0x4007#32
    else if f = 9 ∧ i = 1 then 0x7007#32
    else 0#32

/-- The last byte of a page connected to frame `0xFFFFF` is not found; and where the directory
entry of a page table was cleared through the window, a page is found that is not mapped. -/
theorem walkers_counterexample :
    (∃ m', Machine.run (commandStep 10 4) (ofFrames smallFrames smallBoot.words)
        [.cpf 1#32 1048575#32 'w' 'u'] = some m' ∧
      m'.findPhysicalAddress 10 4 0x1FFF#32 = some (-1#32) ∧
      m'.checkVa2pa 10 4 0x1FFF#32 = some 0xFFFFF000#32 ∧ ¬WalkersAgree 10 4 m' 0x1FFF#32) ∧
    ∃ m', Machine.run (commandStep 10 4) smallWindow [.dvp 0xC00000#32] = some m' ∧
      m'.findPhysicalAddress 10 4 0x1000#32 = some 0x7000#32 ∧
      m'.checkVa2pa 10 4 0x1000#32 = some (~~~0#32) ∧ ¬WalkersAgree 10 4 m' 0x1000#32 := by
  have hlast : (Machine.run (commandStep 10 4) (ofFrames smallFrames smallBoot.words)
      [.cpf 1#32 1048575#32 'w' 'u']).map (fun m => (m.findPhysicalAddress 10 4 0x1FFF#32,
        m.checkVa2pa 10 4 0x1FFF#32)) = some (some (-1#32), some 0xFFFFF000#32) := by decide
  have hwindow : (Machine.run (commandStep 10 4) smallWindow [.dvp 0xC00000#32]).map
      (fun m => (m.findPhysicalAddress 10 4 0x1000#32, m.checkVa2pa 10 4 0x1000#32)) =
      some (some 0x7000#32, some (~~~0#32)) := by decide
  constructor
  · obtain ⟨m', hrun, heq⟩ := Option.map_eq_some_iff.1 hlast
    obtain ⟨hfind, hcheck⟩ := Prod.mk.inj heq
    refine ⟨m', hrun, hfind, hcheck, fun hagree => ?_⟩
    rw [WalkersAgree, hfind, hcheck] at hagree
    exact absurd (hagree.1.1 rfl) (by decide)
  · obtain ⟨m', hrun, heq⟩ := Option.map_eq_some_iff.1 hwindow
    obtain ⟨hfind, hcheck⟩ := Prod.mk.inj heq
    refine ⟨m', hrun, hfind, hcheck, fun hagree => ?_⟩
    rw [WalkersAgree, hfind, hcheck] at hagree
    exact absurd (hagree.1.2 rfl) (by decide)

end KernMemory

end FosKernel
