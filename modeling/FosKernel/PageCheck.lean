import FosKernel.AddressSpaces
import FosKernel.KernelVM
import FosKernel.PageWalkers

/-!
# `page_check`

At boot `page_check` tries `map_frame` and `unmap_frame` on the directory of the kernel, with three
frames and an assertion after every call.

Between the assertions the memory is that before, but for one page table : `trial` is the memory
with the counters, the free frames and the pages that a step leaves, and each call takes one trial
to the next (`mapFrame_trial`, `unmapFrame_trial`). No assertion fails, and all that is left is one
frame that is clear and the order of three on the list (`pageCheck_eq`).
-/

set_option linter.unusedSectionVars false

namespace FosKernel

namespace KernMemory

/-- `page_check`, on the directory of the kernel : no value if an assertion fails. -/
def pageCheck (n d : Nat) (m : KernMemory) : Option KernMemory := do
  let (pp0, m) ← m.allocateFrame
  let (pp1, m) ← m.allocateFrame
  let (pp2, m) ← m.allocateFrame
  guard (pp1 ≠ pp0)
  guard (pp2 ≠ pp1 ∧ pp2 ≠ pp0)
  -- the rest of the free frames are stolen
  let fl := m.freeFrameList
  let m := { m with freeFrameList := [] }
  guard m.allocateFrame.isNone
  let (status, m) ← m.mapFrame n d pp1 0 0#32
  guard (status = .noMem)
  -- `pp0` is used for the page table
  let m := m.freeFrame pp0
  let (status, m) ← m.mapFrame n d pp1 0 0#32
  guard (status = .ok)
  guard (extractAddress (m.words d 0) = toPhysicalAddress pp0)
  guard (m.checkVa2pa n d 0#32 = some (toPhysicalAddress pp1))
  guard (m.references pp1 = 1)
  guard (m.references pp0 = 1)
  let (status, m) ← m.mapFrame n d pp2 4096 0#32
  guard (status = .ok)
  guard (m.checkVa2pa n d 4096#32 = some (toPhysicalAddress pp2))
  guard (m.references pp2 = 1)
  guard m.allocateFrame.isNone
  -- `pp2` is there already
  let (status, m) ← m.mapFrame n d pp2 4096 0#32
  guard (status = .ok)
  guard (m.checkVa2pa n d 4096#32 = some (toPhysicalAddress pp2))
  guard (m.references pp2 = 1)
  guard m.allocateFrame.isNone
  -- there is no frame for a second page table
  let (status, m) ← m.mapFrame n d pp0 4194304 0#32
  guard (status = .noMem)
  -- `pp1` replaces `pp2`
  let (status, m) ← m.mapFrame n d pp1 4096 0#32
  guard (status = .ok)
  guard (m.checkVa2pa n d 0#32 = some (toPhysicalAddress pp1))
  guard (m.checkVa2pa n d 4096#32 = some (toPhysicalAddress pp1))
  guard (m.references pp1 = 2)
  guard (m.references pp2 = 0)
  let (pp, m) ← m.allocateFrame
  guard (pp = pp2)
  let m ← m.unmapFrame n d 0
  guard (m.checkVa2pa n d 0#32 = some (~~~0#32))
  guard (m.checkVa2pa n d 4096#32 = some (toPhysicalAddress pp1))
  guard (m.references pp1 = 1)
  guard (m.references pp2 = 0)
  let m ← m.unmapFrame n d 4096
  guard (m.checkVa2pa n d 0#32 = some (~~~0#32))
  guard (m.checkVa2pa n d 4096#32 = some (~~~0#32))
  guard (m.references pp1 = 0)
  guard (m.references pp2 = 0)
  let (pp, m) ← m.allocateFrame
  guard (pp = pp1)
  guard m.allocateFrame.isNone
  -- `pp0` is taken back, and the list
  guard (extractAddress (m.words d 0) = toPhysicalAddress pp0)
  let m := m.setWord d 0 0#32
  guard (m.references pp0 = 1)
  let m := m.setReferences pp0 0
  let m := { m with freeFrameList := fl }
  some (((m.freeFrame pp0).freeFrame pp1).freeFrame pp2)

/-! ## The trials -/

/-- The entry of a page that is mapped with no permission but `PERM_PRESENT`. -/
def trialEntry : Option Nat → Entry
  | some f => constructEntry (toPhysicalAddress f) (0#32 ||| permPresent)
  | none => 0#32

/-- The entry of a page table of `map_frame`. -/
def tableEntry (t : Nat) : Entry :=
  constructEntry (toPhysicalAddress t) (permPresent ||| permUser ||| permWriteable)

/-- The memory `m` with these counters and free frames, and the page table `t` with these pages
under the first entry of the directory `d`. -/
def trial (m : KernMemory) (d t : Nat) (refs : Nat → Int) (free : List Nat)
    (pages : Nat → Option Nat) : KernMemory where
  references := refs
  freeFrameList := free
  words := fun g i => if g = d ∧ i = 0 then tableEntry t
    else if g = t then trialEntry (pages i) else m.words g i

variable {n d t f g va : Nat} {m : KernMemory} {refs : Nat → Int} {free : List Nat}
  {pages : Nat → Option Nat}

theorem extractAddress_trialEntry (f : Nat) :
    extractAddress (trialEntry (some f)) = toPhysicalAddress f :=
  extractAddress_constructEntry f (by decide)

theorem isPresent_trialEntry (f : Nat) : IsPresent (trialEntry (some f)) :=
  isPresent_constructEntry _ _

theorem frameNumber_trialEntry (hf : f < 1048576) : frameNumber (trialEntry (some f)) = f :=
  frameNumber_constructEntry hf (by decide)

theorem isPresent_tableEntry (t : Nat) : IsPresent (tableEntry t) := by
  have hperm : permPresent ||| permUser ||| permWriteable =
      (permUser ||| permWriteable) ||| permPresent := by decide
  rw [tableEntry, hperm]
  exact isPresent_constructEntry _ _

theorem frameNumber_tableEntry (ht : t < 1048576) : frameNumber (tableEntry t) = t :=
  frameNumber_constructEntry ht (by decide)

/-- One entry of the page table is written. -/
theorem setWord_trial (htd : t ≠ d) (i : Nat) (page : Option Nat) :
    (trial m d t refs free pages).setWord t i (trialEntry page) =
      trial m d t refs free (Function.update pages i page) := by
  refine congrArg (fun w => KernMemory.mk refs free w) ?_
  funext g j
  refine (writeWord_apply _ _ _ _ _ _).trans ?_
  by_cases hg : g = t
  · subst hg
    by_cases hj : j = i
    · subst hj
      simp [htd]
    · simp [trial, htd, hj]
  · simp [trial, hg]

section Trial

variable (hn : n ≤ 1048576) (ht : t < n) (htd : t ≠ d) (hva : va < 4194304)

include hn ht htd hva

theorem tableOf_trial : tableOf (trial m d t refs free pages).words d (pdx va) = some t := by
  have hi : pdx va = 0 := Nat.div_eq_of_lt hva
  have hword : (trial m d t refs free pages).words d (pdx va) = tableEntry t :=
    if_pos ⟨rfl, hi⟩
  rw [tableOf, hword, if_neg (isPresent_tableEntry t).ne_zero,
    frameNumber_tableEntry (Nat.lt_of_lt_of_le ht hn)]

omit hn ht hva in
theorem words_trial (i : Nat) :
    (trial m d t refs free pages).words t i = trialEntry (pages i) := by
  simp [trial, htd]

/-- `check_va2pa` finds the page. -/
theorem checkVa2pa_trial : (trial m d t refs free pages).checkVa2pa n d (BitVec.ofNat 32 va) =
    some (match pages (ptx va) with
      | some f => toPhysicalAddress f
      | none => ~~~0#32) := by
  have hi : pdx va = 0 := Nat.div_eq_of_lt hva
  have hnat : (BitVec.ofNat 32 va).toNat = va := by
    rw [BitVec.toNat_ofNat, Nat.mod_eq_of_lt (by omega)]
  have hpde : (trial m d t refs free pages).words d (pdx va) = tableEntry t := if_pos ⟨rfl, hi⟩
  have hframe : Boot.kVirtualFrame n (extractAddress (tableEntry t)) = some t := by
    rw [Boot.kVirtualFrame, ← frameNumber, frameNumber_tableEntry (Nat.lt_of_lt_of_le ht hn),
      if_pos ht]
  unfold checkVa2pa
  rw [hnat, hpde]
  simp only [isPresent_tableEntry, not_true_eq_false, if_false, hframe, Option.bind_eq_bind,
    Option.bind_some, words_trial htd]
  cases pages (ptx va) with
  | none => rfl
  | some f =>
    simp only [isPresent_trialEntry, not_true_eq_false, if_false, extractAddress_trialEntry]

omit hn ht hva in
theorem insertEntry_trial : (trial m d t refs free pages).insertEntry t va f 0#32 =
    trial m d t (Function.update refs f (refs f + 1)) free
      (Function.update pages (ptx va) (some f)) :=
  setWord_trial htd (ptx va) (some f)

omit hn ht hva htd in
theorem decrementReferences_trial : (trial m d t refs free pages).decrementReferences f =
    trial m d t (Function.update refs f (refs f - 1)) (if refs f = 1 then f :: free else free)
      pages := by
  rcases Inv.decrementReferences_cases (trial m d t refs free pages) f with
    ⟨hone, heq⟩ | ⟨hmany, heq⟩
  · rw [heq, if_pos (show refs f = 1 from hone)]
    rfl
  · rw [heq, if_neg (show refs f ≠ 1 from hmany)]
    rfl

/-- `unmap_frame` of a page of the trial. -/
theorem unmapFrame_trial (hpage : pages (ptx va) = some f) (hf : f < n) :
    (trial m d t refs free pages).unmapFrame n d va =
      some (trial m d t (Function.update refs f (refs f - 1))
        (if refs f = 1 then f :: free else free) (Function.update pages (ptx va) none)) := by
  have hframe : frameNumber (trialEntry (some f)) = f :=
    frameNumber_trialEntry (Nat.lt_of_lt_of_le hf hn)
  have hword : (trial m d t refs free pages).words t (ptx va) = trialEntry (some f) := by
    rw [words_trial htd, hpage]
  have hget : (trial m d t refs free pages).getPageTable n d va false =
      some ((.ok, some t), trial m d t refs free pages) :=
    getPageTable_found (tableOf_trial hn ht htd hva) ht false
  have hinfo : toFrameInfo n (extractAddress (trialEntry (some f))) = some f := by
    rw [toFrameInfo, ← frameNumber, hframe, if_pos hf]
  have hset : (trial m d t (Function.update refs f (refs f - 1))
      (if refs f = 1 then f :: free else free) pages).setWord t (ptx va) 0#32 = _ :=
    setWord_trial htd (ptx va) none
  simp [unmapFrame, getFrameInfo, hget, hword, (isPresent_trialEntry f).ne_zero, hinfo,
    decrementReferences_trial, hset]

/-- `map_frame` where no page is mapped. -/
theorem mapFrame_trial (hpage : pages (ptx va) = none) :
    (trial m d t refs free pages).mapFrame n d f va 0#32 =
      some (.ok, trial m d t (Function.update refs f (refs f + 1)) free
        (Function.update pages (ptx va) (some f))) := by
  have hget : (trial m d t refs free pages).getPageTable n d va true =
      some ((.ok, some t), trial m d t refs free pages) :=
    getPageTable_found (tableOf_trial hn ht htd hva) ht true
  have hnot : ¬IsPresent ((trial m d t refs free pages).words t (ptx va)) := by
    rw [words_trial htd, hpage]
    exact not_isPresent_zero
  simp [mapFrame, hget, hnot, insertEntry_trial htd]

/-- `map_frame` of a page that is there. -/
theorem mapFrame_trial_same (hpage : pages (ptx va) = some f) :
    (trial m d t refs free pages).mapFrame n d f va 0#32 =
      some (.ok, trial m d t refs free pages) := by
  have hget : (trial m d t refs free pages).getPageTable n d va true =
      some ((.ok, some t), trial m d t refs free pages) :=
    getPageTable_found (tableOf_trial hn ht htd hva) ht true
  have hword : (trial m d t refs free pages).words t (ptx va) = trialEntry (some f) := by
    rw [words_trial htd, hpage]
  simp [mapFrame, hget, hword, isPresent_trialEntry, extractAddress_trialEntry]

/-- `map_frame` in place of another page. -/
theorem mapFrame_trial_replace (hpage : pages (ptx va) = some g) (hg : g < n) (hf : f < n)
    (hne : g ≠ f) : (trial m d t refs free pages).mapFrame n d f va 0#32 =
      some (.ok, trial m d t
        (Function.update (Function.update refs g (refs g - 1)) f (refs f + 1))
        (if refs g = 1 then g :: free else free) (Function.update pages (ptx va) (some f))) := by
  have hget : (trial m d t refs free pages).getPageTable n d va true =
      some ((.ok, some t), trial m d t refs free pages) :=
    getPageTable_found (tableOf_trial hn ht htd hva) ht true
  have hword : (trial m d t refs free pages).words t (ptx va) = trialEntry (some g) := by
    rw [words_trial htd, hpage]
  have hother : toPhysicalAddress g ≠ toPhysicalAddress f := fun heq =>
    hne (toPhysicalAddress_injective (Nat.lt_of_lt_of_le hg hn) (Nat.lt_of_lt_of_le hf hn) heq)
  simp [mapFrame, hget, hword, isPresent_trialEntry, extractAddress_trialEntry, hother,
    unmapFrame_trial hn ht htd hva hpage hg, insertEntry_trial htd, Function.update_of_ne hne.symm]

end Trial

/-! ## The check -/

/-- Where there is no page table and no frame for one. -/
theorem mapFrame_noTable {m : KernMemory} (hpos : 0 < n) (h0 : m.words d (pdx va) = 0#32)
    (hnil : m.freeFrameList = []) : m.mapFrame n d f va 0#32 = some (.noMem, m) := by
  have hframe : Boot.kVirtualFrame n (extractAddress 0#32) = some 0 := if_pos hpos
  simp [mapFrame, getPageTable, h0, hframe, allocateFrame, hnil]

/-- The page table of the trial is made. -/
theorem createTable_trial (m : KernMemory) :
    ((((m.setReferences t 0).clearFrame t).setReferences t 1).setWord d 0 (tableEntry t)).words =
      (trial m d t refs free fun _ => none).words := by
  funext g i
  refine (writeWord_apply _ _ _ _ _ _).trans (if_congr Iff.rfl rfl ?_)
  exact clearWords_apply _ _ _ _

/-- The first page of the trial, with its page table. -/
theorem mapFrame_first {m : KernMemory} (hn : n ≤ 1048576) (ht : t < n) (htd : t ≠ d)
    (htf : f ≠ t) (hva : va < 4194304) (h0 : m.words d 0 = 0#32) :
    KernMemory.mapFrame { m with freeFrameList := [t] } n d f va 0#32 =
      some (.ok, trial m d t (Function.update (Function.update m.references t 1) f
        (m.references f + 1)) [] (Function.update (fun _ => none) (ptx va) (some f))) := by
  have hi : pdx va = 0 := Nat.div_eq_of_lt hva
  have hframe : Boot.kVirtualFrame n (extractAddress 0#32) = some 0 :=
    if_pos (Nat.zero_lt_of_lt ht)
  have hphys : Boot.kVirtualFrame n (toPhysicalAddress t) = some t := by
    rw [Boot.kVirtualFrame, ppn_toPhysicalAddress (Nat.lt_of_lt_of_le ht hn), if_pos ht]
  have hmade : ((({ m.setReferences t 0 with freeFrameList := [] } : KernMemory).clearFrame
      t).setReferences t 1).setWord d 0 (tableEntry t) =
      trial m d t (Function.update m.references t 1) [] fun _ => none := by
    have hrefs : Function.update (Function.update m.references t 0) t 1 =
        Function.update m.references t 1 := Function.update_idem _ _ _
    have hwords : _ = (trial m d t (Function.update m.references t 1) [] fun _ => none).words :=
      createTable_trial m
    exact congr (congrArg (fun r w => KernMemory.mk r [] w) hrefs) hwords
  have hget : KernMemory.getPageTable { m with freeFrameList := [t] } n d va true =
      some ((.ok, some t), trial m d t (Function.update m.references t 1) [] fun _ => none) := by
    rw [← hmade]
    simp [getPageTable, hi, h0, hframe, allocateFrame, hphys, tableEntry, setReferences]
  have hnot : ¬IsPresent ((trial m d t (Function.update m.references t 1) []
      fun _ => none).words t (ptx va)) := by
    rw [words_trial htd]
    exact not_isPresent_zero
  simp [mapFrame, hget, hnot, insertEntry_trial htd, Function.update_of_ne htf]

/-- The counters of the frames of the check. -/
def counts (m : KernMemory) (pp0 pp1 pp2 : Nat) (r1 r2 : Int) : Nat → Int :=
  Function.update (Function.update (Function.update m.references pp0 1) pp1 r1) pp2 r2

/-- The first two pages. -/
def pagesOfTrial (page0 page1 : Option Nat) : Nat → Option Nat :=
  Function.update (Function.update (fun _ => none) 0 page0) 1 page1

theorem update_pagesOfTrial_zero (a b c : Option Nat) :
    Function.update (pagesOfTrial a b) 0 c = pagesOfTrial c b := by
  rw [pagesOfTrial, Function.update_comm (by decide), Function.update_idem, pagesOfTrial]

theorem update_pagesOfTrial_one (a b c : Option Nat) :
    Function.update (pagesOfTrial a b) 1 c = pagesOfTrial a c :=
  Function.update_idem _ _ _

/-- Three free frames for `page_check`. -/
structure Frames3 (n d : Nat) (m : KernMemory) (pp0 pp1 pp2 : Nat) (fl : List Nat) : Prop where
  list : m.freeFrameList = pp0 :: pp1 :: pp2 :: fl
  ne01 : pp1 ≠ pp0
  ne02 : pp2 ≠ pp0
  ne12 : pp2 ≠ pp1
  lt : pp0 < n ∧ pp1 < n ∧ pp2 < n
  ne : pp0 ≠ d
  zero : m.references pp0 = 0 ∧ m.references pp1 = 0 ∧ m.references pp2 = 0

section Check

variable {pp0 pp1 pp2 : Nat} {fl : List Nat} (h : Frames3 n d m pp0 pp1 pp2 fl) (r1 r2 c : Int)

include h

theorem counts_pp0 : counts m pp0 pp1 pp2 r1 r2 pp0 = 1 := by
  rw [counts, Function.update_of_ne h.ne02.symm, Function.update_of_ne h.ne01.symm,
    Function.update_self]

theorem counts_pp1 : counts m pp0 pp1 pp2 r1 r2 pp1 = r1 := by
  rw [counts, Function.update_of_ne h.ne12.symm, Function.update_self]

omit h in
theorem counts_pp2 : counts m pp0 pp1 pp2 r1 r2 pp2 = r2 :=
  Function.update_self _ _ _

theorem update_counts_pp1 : Function.update (counts m pp0 pp1 pp2 r1 r2) pp1 c =
    counts m pp0 pp1 pp2 c r2 := by
  rw [counts, Function.update_comm h.ne12, Function.update_idem, counts]

omit h in
theorem update_counts_pp2 : Function.update (counts m pp0 pp1 pp2 r1 r2) pp2 c =
    counts m pp0 pp1 pp2 r1 c :=
  Function.update_idem _ _ _

/-- The counters with the first page. -/
theorem counts_first : Function.update (Function.update m.references pp0 1) pp1
    (m.references pp1 + 1) = counts m pp0 pp1 pp2 1 0 := by
  have hpp2 : Function.update (Function.update m.references pp0 1) pp1 1 pp2 = 0 := by
    rw [Function.update_of_ne h.ne12, Function.update_of_ne h.ne02, h.zero.2.2]
  rw [counts, h.zero.2.1, Int.zero_add, ← hpp2, Function.update_eq_self]

/-- The counters when `pp0` is taken back. -/
theorem counts_last : Function.update (counts m pp0 pp1 pp2 0 0) pp0 0 = m.references := by
  obtain ⟨hzero0, hzero1, hzero2⟩ := h.zero
  funext g
  simp only [counts, Function.update_apply]
  split_ifs with hg0 hg2 hg1
  · rw [hg0, hzero0]
  · rw [hg2, hzero2]
  · rw [hg1, hzero1]
  · rfl

/-- The memory between two assertions : how often `pp1` and `pp2` are mapped, the free frames, and
the first two pages. -/
def checked (m : KernMemory) (d pp0 pp1 pp2 : Nat) (r1 r2 : Int) (free : List Nat)
    (page0 page1 : Option Nat) : KernMemory :=
  trial m d pp0 (counts m pp0 pp1 pp2 r1 r2) free (pagesOfTrial page0 page1)

variable {r1 r2 : Int} {a b : Option Nat} {free : List Nat} (hn : n ≤ 1048576)

include hn

theorem checkVa2pa_checked_zero :
    (checked m d pp0 pp1 pp2 r1 r2 free a b).checkVa2pa n d 0#32 =
      some (match a with
        | some f => toPhysicalAddress f
        | none => ~~~0#32) :=
  checkVa2pa_trial hn h.lt.1 h.ne (show 0 < 4194304 by decide)

theorem checkVa2pa_checked_one :
    (checked m d pp0 pp1 pp2 r1 r2 free a b).checkVa2pa n d 4096#32 =
      some (match b with
        | some f => toPhysicalAddress f
        | none => ~~~0#32) :=
  checkVa2pa_trial hn h.lt.1 h.ne (show 4096 < 4194304 by decide)

/-- `pp1` at 0, with `pp0` for the page table. -/
theorem mapFrame_checked_first (h0 : m.words d 0 = 0#32) :
    KernMemory.mapFrame { m with freeFrameList := [pp0] } n d pp1 0 0#32 =
      some (.ok, checked m d pp0 pp1 pp2 1 0 [] (some pp1) none) := by
  have hpages : Function.update (fun _ => none) (ptx 0) (some pp1) =
      pagesOfTrial (some pp1) none := (Function.update_eq_self_iff.2 rfl).symm
  rw [mapFrame_first hn h.lt.1 h.ne h.ne01 (by decide) h0, counts_first h, hpages, checked]

/-- `pp2` at 4096. -/
theorem mapFrame_checked_one :
    (checked m d pp0 pp1 pp2 r1 0 free a none).mapFrame n d pp2 4096 0#32 =
      some (.ok, checked m d pp0 pp1 pp2 r1 1 free a (some pp2)) := by
  have hmap : (checked m d pp0 pp1 pp2 r1 0 free a none).mapFrame n d pp2 4096 0#32 = _ :=
    mapFrame_trial hn h.lt.1 h.ne (by decide) rfl
  rw [counts_pp2, update_counts_pp2] at hmap
  rwa [show ptx 4096 = 1 from rfl, update_pagesOfTrial_one] at hmap

/-- `pp1` at 4096, in place of `pp2`. -/
theorem mapFrame_checked_replace :
    (checked m d pp0 pp1 pp2 1 1 free a (some pp2)).mapFrame n d pp1 4096 0#32 =
      some (.ok, checked m d pp0 pp1 pp2 2 0 (pp2 :: free) a (some pp1)) := by
  have hmap : (checked m d pp0 pp1 pp2 1 1 free a (some pp2)).mapFrame n d pp1 4096 0#32 = _ :=
    mapFrame_trial_replace hn h.lt.1 h.ne (by decide) rfl h.lt.2.2 h.lt.2.1 h.ne12
  rw [counts_pp2, counts_pp1 h, update_counts_pp2, update_counts_pp1 h, if_pos rfl] at hmap
  rwa [show ptx 4096 = 1 from rfl, update_pagesOfTrial_one] at hmap

/-- `pp1` at 4096 only. -/
theorem unmapFrame_checked_zero :
    (checked m d pp0 pp1 pp2 2 r2 free (some pp1) b).unmapFrame n d 0 =
      some (checked m d pp0 pp1 pp2 1 r2 free none b) := by
  have hun : (checked m d pp0 pp1 pp2 2 r2 free (some pp1) b).unmapFrame n d 0 = _ :=
    unmapFrame_trial hn h.lt.1 h.ne (by decide) rfl h.lt.2.1
  rw [counts_pp1 h, update_counts_pp1 h, if_neg (by decide)] at hun
  rwa [show ptx 0 = 0 from rfl, update_pagesOfTrial_zero] at hun

/-- `pp1` nowhere. -/
theorem unmapFrame_checked_one :
    (checked m d pp0 pp1 pp2 1 r2 free a (some pp1)).unmapFrame n d 4096 =
      some (checked m d pp0 pp1 pp2 0 r2 (pp1 :: free) a none) := by
  have hun : (checked m d pp0 pp1 pp2 1 r2 free a (some pp1)).unmapFrame n d 4096 = _ :=
    unmapFrame_trial hn h.lt.1 h.ne (by decide) rfl h.lt.2.1
  rw [counts_pp1 h, update_counts_pp1 h, if_pos rfl] at hun
  rwa [show ptx 4096 = 1 from rfl, update_pagesOfTrial_one] at hun

end Check

theorem allocateFrame_cons {m : KernMemory} {f : Nat} {rest : List Nat}
    (hl : m.freeFrameList = f :: rest) (hzero : m.references f = 0) :
    m.allocateFrame = some (f, { m with freeFrameList := rest }) := by
  have hrefs : Function.update m.references f 0 = m.references :=
    Function.update_eq_self_iff.2 hzero.symm
  simp [allocateFrame, hl, setReferences, hrefs]

/-- What the check leaves in memory. -/
theorem words_last (htd : t ≠ d) (h0 : m.words d 0 = 0#32) :
    writeWord (trial m d t refs free (pagesOfTrial none none)).words d 0 0#32 =
      clearWords m.words t := by
  funext g i
  have hnone : pagesOfTrial none none i = none := by
    simp [pagesOfTrial, Function.update_apply]
  rw [writeWord_apply, clearWords_apply]
  by_cases hat : g = d ∧ i = 0
  · rw [if_pos hat, hat.1, hat.2, if_neg htd.symm, h0]
  · have hword : (trial m d t refs free (pagesOfTrial none none)).words g i =
        if g = t then trialEntry (pagesOfTrial none none i) else m.words g i := if_neg hat
    rw [if_neg hat, hword, hnone]
    rfl

/-- No assertion of `page_check` fails, and the memory is as before, but for one frame that is
clear and the order of three on the list. -/
theorem pageCheck_eq {pp0 pp1 pp2 : Nat} {fl : List Nat} (hn : n ≤ 1048576)
    (h : Frames3 n d m pp0 pp1 pp2 fl) (h0 : m.words d 0 = 0#32) (h1 : m.words d 1 = 0#32) :
    m.pageCheck n d = some { m with
      freeFrameList := pp2 :: pp1 :: pp0 :: fl
      words := clearWords m.words pp0 } := by
  obtain ⟨hlt0, hlt1, hlt2⟩ := h.lt
  obtain ⟨hzero0, hzero1, hzero2⟩ := h.zero
  have hpos : 0 < n := Nat.zero_lt_of_lt hlt0
  have halloc0 := allocateFrame_cons h.list hzero0
  have halloc1 := allocateFrame_cons (m := { m with freeFrameList := pp1 :: pp2 :: fl }) rfl hzero1
  have halloc2 := allocateFrame_cons (m := { m with freeFrameList := pp2 :: fl }) rfl hzero2
  have hnone : ({ m with freeFrameList := [] } : KernMemory).allocateFrame = none := rfl
  have hnoMem : ({ m with freeFrameList := [] } : KernMemory).mapFrame n d pp1 0 0#32 =
      some (.noMem, { m with freeFrameList := [] }) := mapFrame_noTable hpos h0 rfl
  have hrelease : ({ m with freeFrameList := [] } : KernMemory).freeFrame pp0 =
      { m with freeFrameList := [pp0] } := rfl
  have hword : ∀ {r1 r2 free a b},
      extractAddress ((checked m d pp0 pp1 pp2 r1 r2 free a b).words d 0) =
        toPhysicalAddress pp0 := fun {r1 r2 free a b} => by
    rw [show (checked m d pp0 pp1 pp2 r1 r2 free a b).words d 0 = tableEntry pp0 from
      if_pos ⟨rfl, rfl⟩]
    exact extractAddress_constructEntry pp0 (by decide)
  have hrefs : ∀ {r1 r2 free a b}, (checked m d pp0 pp1 pp2 r1 r2 free a b).references =
      counts m pp0 pp1 pp2 r1 r2 := rfl
  have hsame : (checked m d pp0 pp1 pp2 1 1 [] (some pp1) (some pp2)).mapFrame n d pp2 4096 0#32 =
      some (.ok, checked m d pp0 pp1 pp2 1 1 [] (some pp1) (some pp2)) :=
    mapFrame_trial_same hn hlt0 h.ne (by decide) rfl
  have hother : (checked m d pp0 pp1 pp2 1 1 [] (some pp1) (some pp2)).words d (pdx 4194304) =
      0#32 := by
    have hi : pdx 4194304 = 1 := rfl
    rw [hi, ← h1]
    exact (if_neg fun hat => by cases hat.2).trans (if_neg h.ne.symm)
  have hsecond := mapFrame_noTable (f := pp0) hpos hother rfl
  have hnil : ∀ {r1 r2 a b}, (checked m d pp0 pp1 pp2 r1 r2 [] a b).allocateFrame = none := rfl
  have halloc3 : ∀ {free a b}, (checked m d pp0 pp1 pp2 2 0 (pp2 :: free) a b).allocateFrame =
      some (pp2, checked m d pp0 pp1 pp2 2 0 free a b) := fun {free a b} =>
    allocateFrame_cons rfl (counts_pp2 2 0)
  have halloc4 : ∀ {free a b}, (checked m d pp0 pp1 pp2 0 0 (pp1 :: free) a b).allocateFrame =
      some (pp1, checked m d pp0 pp1 pp2 0 0 free a b) := fun {free a b} =>
    allocateFrame_cons rfl (counts_pp1 h 0 0)
  unfold pageCheck
  simp only [halloc0, halloc1, halloc2, hnone, hnoMem, hrelease, hnil, hword, hrefs,
    mapFrame_checked_first h hn h0, checkVa2pa_checked_zero h hn, checkVa2pa_checked_one h hn,
    counts_pp0 h, counts_pp1 h, counts_pp2, mapFrame_checked_one h hn, hsame, hsecond,
    mapFrame_checked_replace h hn, halloc3, halloc4, unmapFrame_checked_zero h hn,
    unmapFrame_checked_one h hn, Option.bind_eq_bind, Option.bind_some, Option.isNone_none,
    guard, h.ne01, h.ne02, h.ne12, ne_eq, not_false_eq_true, and_self, if_true, Option.pure_def]
  -- `pp0` is taken back
  have hlast : ((checked m d pp0 pp1 pp2 0 0 [] none none).setWord d 0 0#32).references pp0 = 1 :=
    counts_pp0 h 0 0
  have hcounts : (((checked m d pp0 pp1 pp2 0 0 [] none none).setWord d 0 0#32).setReferences pp0
      0).references = m.references := counts_last h
  have hwords : (((checked m d pp0 pp1 pp2 0 0 [] none none).setWord d 0 0#32).setReferences pp0
      0).words = clearWords m.words pp0 := words_last h.ne h0
  rw [if_pos hlast, hcounts, hwords]
  rfl

end KernMemory

end FosKernel
