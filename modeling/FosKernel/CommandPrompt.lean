import FosKernel.KernReferences
import Mathlib.Data.Nat.Find

/-!
# The mapping commands of the command prompt

`kern/command_prompt.c` reads and writes the page tables of the kernel from the command
prompt, through helpers over `get_page_table`. An `int` or a `uint32` is its 32 bits, and
`-1` is what a helper returns for a page that is not there. A lookup has no value where
`K_VIRTUAL_ADDRESS` panics; a command that goes through a null table has a fault of its own.

`getpageFrameNumber_eq` is the lookup in terms of the slots of `KernReferences`.
`FindVirtualOfFrameNum` compares what the lookup returns with its argument : for the argument
`-1` it finds the first page that is not there (`findVirtualOfFrameNum_iff`).
-/

namespace FosKernel

namespace KernMemory

/-- How a command ends that does not return. -/
inductive Fault where
  /-- A panic of `K_VIRTUAL_ADDRESS`. -/
  | panic
  /-- An access through a null page table. -/
  | nullTable
  deriving DecidableEq

/-! ## The helpers -/

section Helpers

variable (n d : Nat) (m : KernMemory)

/-- `getPageTableVA(va, write)`, with the directory in frame `d`. -/
def getPageTableVA (va : BitVec 32) (write : Bool) : Option (Option Nat × KernMemory) :=
  (m.getPageTable n d va.toNat write).map fun ((_, pageTable), m) => (pageTable, m)

/-- `getpageFrameNumber`. -/
def getpageFrameNumber (va : BitVec 32) : Option (BitVec 32) := do
  let (pageTable, _) ← m.getPageTableVA n d va false
  match pageTable with
  | some t =>
    let pageEntry := m.words t (ptx va.toNat)
    if IsPresent pageEntry then some (pageEntry >>> 12) else some (-1#32)
  | none => some (-1#32)

/-- `getPhysicalAddress`. -/
def getPhysicalAddress (va : BitVec 32) : Option (BitVec 32) := do
  let pageFrameNumber ← m.getpageFrameNumber n d va
  if pageFrameNumber ≠ -1#32 then some (pageFrameNumber * 4096#32 + (va &&& 0xFFF#32))
  else some (-1#32)

/-- `isTrueVA`. -/
def isTrueVA (address pageFrameNumber : BitVec 32) : Option Bool :=
  (m.getpageFrameNumber n d address).map fun number => number = pageFrameNumber

/-- `FindPhysicalAddress`, of the address that its argument names. -/
def findPhysicalAddress (va : BitVec 32) : Option (BitVec 32) :=
  m.getPhysicalAddress n d va

/-- `maxSize`. -/
def maxSize : Nat :=
  4 * 1024 * 1024

/-- The loop of `get_VA_of_frame_number`. -/
def getVAOfFrameNumberLoop (pageFrameNumber : BitVec 32) : Nat → BitVec 32 → Option (BitVec 32)
  | 0, _ => some (-1#32)
  | itrations + 1, va => do
    if ← m.isTrueVA n d va pageFrameNumber then some va
    else getVAOfFrameNumberLoop pageFrameNumber itrations (va + 4096#32)

/-- `get_VA_of_frame_number`. -/
def getVAOfFrameNumber (pageFrameNumber : BitVec 32) : Option (BitVec 32) :=
  m.getVAOfFrameNumberLoop n d pageFrameNumber maxSize 0#32

/-- `FindVirtualOfFrameNum`, of the number that its argument names. -/
def findVirtualOfFrameNum (pageFrameNumber : BitVec 32) : Option (BitVec 32) :=
  m.getVAOfFrameNumber n d pageFrameNumber

/-! ## The commands that write -/

/-- `command_cvp`. -/
def commandCvp (va pa : BitVec 32) : Option KernMemory := do
  let f ← toFrameInfo n pa
  (m.mapFrame n d f va.toNat 3#32).map Prod.snd

/-- `command_dvp`. -/
def commandDvp (va : BitVec 32) : Option KernMemory := do
  let (ptrTable, m) ← m.getPageTableVA n d va false
  match ptrTable with
  | some t =>
    some (m.setWord t (ptx va.toNat) (m.words t (ptx va.toNat) &&& ~~~permPresent))
  | none => some m

/-- What `setPremission` makes of an entry. -/
def withPremission (premission : Char) (e : Entry) : Entry :=
  if premission = 'w' then e ||| permWriteable else e &&& ~~~permWriteable

/-- `setPremission`. -/
def setPremission (premission : Char) (pageTable pageTableIndex : Nat) : KernMemory :=
  m.setWord pageTable pageTableIndex (withPremission premission (m.words pageTable pageTableIndex))

/-- A trip of the loop of `ShareRangeWithPermissions`. -/
def sharePage (premission : Char) (va1 va2 : BitVec 32) : Except Fault KernMemory :=
  match m.getPageTableVA n d va1 false with
  | none => .error .panic
  | some (pageTable1, m) =>
    match m.getPageTableVA n d va2 true with
    | none => .error .panic
    | some (pageTable2, m) =>
      match pageTable1, pageTable2 with
      | some t1, some t2 =>
        .ok ((m.setWord t2 (ptx va2.toNat) (m.words t1 (ptx va1.toNat))).setPremission premission
          t2 (ptx va2.toNat))
      | _, _ => .error .nullTable

/-- The loop of `ShareRangeWithPermissions`. -/
def sharePages (premission : Char) :
    Nat → BitVec 32 → BitVec 32 → KernMemory → Except Fault KernMemory
  | 0, _, _, m => .ok m
  | pagesRange + 1, va1, va2, m =>
    (m.sharePage n d premission va1 va2).bind
      (sharePages premission pagesRange (va1 + 4096#32) (va2 + 4096#32))

/-- `pagesRange`, for a size in megabytes. -/
def pagesRangeOf (size : BitVec 32) : BitVec 32 :=
  (size * 1024#32).sdiv 4#32 + if size.srem 4#32 = 0#32 then 0#32 else 1#32

/-- `ShareRangeWithPermissions`, of the values that its arguments name. -/
def shareRangeWithPermissions (va1 va2 size : BitVec 32) (premission : Char) :
    Except Fault KernMemory :=
  match m.getPageTableVA n d va1 false with
  | none => .error .panic
  | some (pageTable1Va, m) =>
    match m.getPageTableVA n d va2 true with
    | none => .error .panic
    | some (pageTable2Va, m) =>
      if pageTable1Va.isSome ∧ pageTable2Va.isSome then
        sharePages n d premission (pagesRangeOf size).toNat va1 va2 m
      else .ok m

/-- The entry that `ConnectPageToFrame` writes. -/
def connectEntry (frame : BitVec 32) (writePerm userPerm : Char) : Entry :=
  let result := frame * 4096#32
  let result := if userPerm ≠ 's' then result ||| permUser else result
  let result := result ||| permPresent
  let result := result &&& ~~~permModified
  let result := result ||| permAvailable
  if writePerm = 'w' then result ||| permWriteable else result &&& ~~~permWriteable

/-- `vaOfPage` in `ConnectPageToFrame`. -/
def vaOfPage (pageNumber : BitVec 32) : BitVec 32 :=
  let entry := pageNumber.srem 1024#32
  let directoryIndex := pageNumber.sdiv 1024#32
  let pageIndex := entry <<< 12
  (directoryIndex <<< 22) + pageIndex

/-- `ConnectPageToFrame`, of the values that its arguments name. -/
def connectPageToFrame (pageNumber frame : BitVec 32) (writePerm userPerm : Char) :
    Except Fault (BitVec 32 × KernMemory) :=
  let va := vaOfPage pageNumber
  match m.getPageTableVA n d va true with
  | none => .error .panic
  | some (pageTableVa, m) =>
    let result := connectEntry frame writePerm userPerm
    match pageTableVa with
    | some t => .ok (result, m.setWord t (ptx va.toNat) result)
    | none => .error .nullTable

/-! ## The entries -/

/-- The page-table entry of `va`, zero without a page table. -/
def pageEntryOf (va : BitVec 32) : Entry :=
  entryAt m.words d (pdx va.toNat) (ptx va.toNat)

/-- `K_VIRTUAL_ADDRESS` panics for the page table of `va`. -/
def NoMemoryAt (va : BitVec 32) : Prop :=
  n ≤ frameNumber (m.words d (pdx va.toNat))

end Helpers

/-! ## The lookup -/

variable {n d : Nat} {m : KernMemory} {va pfn : BitVec 32} {e : Entry}

/-- What `getpageFrameNumber` returns for an entry. -/
def pageFrame (e : Entry) : BitVec 32 :=
  if IsPresent e then e >>> 12 else -1#32

/-- The number of a frame, as an `int`. -/
theorem ushiftRight_eq (e : Entry) : e >>> 12 = BitVec.ofNat 32 (frameNumber e) := by
  rw [frameNumber, ppn, extractAddress_ushiftRight, BitVec.ofNat_toNat, BitVec.setWidth_eq]

theorem frameNumber_lt (e : Entry) : frameNumber e < 1048576 := by
  rw [frameNumber, ppn, extractAddress_ushiftRight, BitVec.toNat_ushiftRight,
    Nat.shiftRight_eq_div_pow]
  have := e.isLt
  omega

/-- No frame has the number `-1`. -/
theorem ushiftRight_ne (e : Entry) : e >>> 12 ≠ -1#32 := by
  intro heq
  have hlt := frameNumber_lt e
  have htoNat := congrArg BitVec.toNat heq
  rw [ushiftRight_eq, BitVec.toNat_ofNat, Nat.mod_eq_of_lt (by omega)] at htoNat
  have hmax : (-1#32).toNat = 4294967295 := rfl
  omega

theorem pageFrame_eq_iff : pageFrame e = -1#32 ↔ ¬IsPresent e := by
  unfold pageFrame
  split
  · next h => exact iff_of_false (ushiftRight_ne e) (not_not.2 h)
  · next h => exact iff_of_true rfl h

/-- The lookup without creation leaves everything as it is. -/
theorem getPageTable_lookup (va : Nat) :
    m.getPageTable n d va false = if frameNumber (m.words d (pdx va)) < n
      then some ((.ok, tableOf m.words d (pdx va)), m) else none := by
  have hvirtual : Boot.kVirtualFrame n (extractAddress (m.words d (pdx va))) =
      if frameNumber (m.words d (pdx va)) < n then some (frameNumber (m.words d (pdx va)))
      else none := rfl
  unfold getPageTable tableOf
  dsimp only
  rw [hvirtual]
  split
  · by_cases h0 : m.words d (pdx va) = 0#32 <;> simp [h0]
  · rfl

/-- The lookup, by the entry of the page. -/
theorem getpageFrameNumber_eq (n d : Nat) (m : KernMemory) (va : BitVec 32) :
    m.getpageFrameNumber n d va =
      if frameNumber (m.words d (pdx va.toNat)) < n then some (pageFrame (m.pageEntryOf d va))
      else none := by
  unfold getpageFrameNumber getPageTableVA pageEntryOf entryAt
  rw [getPageTable_lookup]
  split
  · cases tableOf m.words d (pdx va.toNat) with
    | none => simp [pageFrame, not_isPresent_zero]
    | some t =>
      simp only [Option.map_some, Option.bind_eq_bind, Option.bind_some, pageFrame]
      split <;> rfl
  · rfl

theorem getpageFrameNumber_eq_none : m.getpageFrameNumber n d va = none ↔ m.NoMemoryAt n d va := by
  rw [getpageFrameNumber_eq, NoMemoryAt, ← not_lt]
  split <;> simp_all

/-- The present entry of the page names the frame. -/
def MapsNumber (n d : Nat) (m : KernMemory) (va pfn : BitVec 32) : Prop :=
  ¬m.NoMemoryAt n d va ∧ IsPresent (m.pageEntryOf d va) ∧ m.pageEntryOf d va >>> 12 = pfn

theorem MapsNumber.getpageFrameNumber_eq (h : MapsNumber n d m va pfn) :
    m.getpageFrameNumber n d va = some pfn := by
  rw [KernMemory.getpageFrameNumber_eq, if_pos (not_le.1 h.1), pageFrame, if_pos h.2.1, h.2.2]

theorem MapsNumber.ne (h : MapsNumber n d m va pfn) : pfn ≠ -1#32 :=
  h.2.2 ▸ ushiftRight_ne _

/-- What the lookup returns is the number of the frame mapped, unless it is `-1`. -/
theorem mapsNumber_of_getpageFrameNumber (h : m.getpageFrameNumber n d va = some pfn)
    (hne : pfn ≠ -1#32) : MapsNumber n d m va pfn := by
  rw [getpageFrameNumber_eq] at h
  split at h
  · next hlt =>
    obtain rfl := Option.some.inj h
    have hpresent := not_not.1 (pageFrame_eq_iff.not.1 hne)
    exact ⟨not_le.2 hlt, hpresent, (if_pos hpresent).symm⟩
  · cases h

theorem not_present_of_getpageFrameNumber (h : m.getpageFrameNumber n d va = some (-1#32)) :
    ¬IsPresent (m.pageEntryOf d va) := by
  rw [getpageFrameNumber_eq] at h
  split at h
  · exact pageFrame_eq_iff.1 (Option.some.inj h)
  · cases h

/-- A frame's physical address is returned with the offset of the address. -/
theorem MapsNumber.findPhysicalAddress_eq (h : MapsNumber n d m va pfn) :
    m.findPhysicalAddress n d va = some (pfn * 4096#32 + (va &&& 0xFFF#32)) := by
  unfold findPhysicalAddress getPhysicalAddress
  rw [h.getpageFrameNumber_eq]
  exact if_pos h.ne

/-! ## The search -/

/-- The address of page `k`. -/
def pageAddress (k : Nat) : BitVec 32 :=
  BitVec.ofNat 32 (4096 * k)

theorem pageAddress_add (k : Nat) : pageAddress k + 4096#32 = pageAddress (k + 1) := by
  rw [pageAddress, pageAddress, Nat.mul_succ, BitVec.ofNat_add]

theorem pageAddress_mod (k : Nat) : pageAddress (k % 1048576) = pageAddress k := by
  apply BitVec.eq_of_toNat_eq
  rw [pageAddress, pageAddress, BitVec.toNat_ofNat, BitVec.toNat_ofNat]
  omega

theorem toNat_pageAddress {k : Nat} (hk : k < 1048576) : (pageAddress k).toNat = 4096 * k := by
  rw [pageAddress, BitVec.toNat_ofNat]
  omega

theorem pageAddress_and (k : Nat) : pageAddress k &&& 0xFFF#32 = 0#32 := by
  apply BitVec.eq_of_toNat_eq
  have hmask : (0xFFF#32).toNat = 2 ^ 12 - 1 := rfl
  rw [BitVec.toNat_and, hmask, Nat.and_two_pow_sub_one_eq_mod, pageAddress, BitVec.toNat_ofNat]
  have hzero : (0#32).toNat = 0 := rfl
  omega

/-- The search stops at page `k` : the lookup panics, or returns the number. -/
def Stops (n d : Nat) (m : KernMemory) (pfn : BitVec 32) (k : Nat) : Prop :=
  m.getpageFrameNumber n d (pageAddress k) = none ∨
    m.getpageFrameNumber n d (pageAddress k) = some pfn

theorem stops_mod (k : Nat) : Stops n d m pfn (k % 1048576) ↔ Stops n d m pfn k := by
  rw [Stops, pageAddress_mod, Stops]

/-- The loop goes past a page where it does not stop. -/
theorem getVAOfFrameNumberLoop_next {itrations k : Nat} (h : ¬Stops n d m pfn k) :
    m.getVAOfFrameNumberLoop n d pfn (itrations + 1) (pageAddress k) =
      m.getVAOfFrameNumberLoop n d pfn itrations (pageAddress (k + 1)) := by
  unfold Stops at h
  push Not at h
  obtain ⟨number, hnumber⟩ := Option.ne_none_iff_exists'.1 h.1
  have hne : number ≠ pfn := fun heq => h.2 (heq ▸ hnumber)
  rw [getVAOfFrameNumberLoop, isTrueVA, hnumber, pageAddress_add]
  simp [hne]

theorem getVAOfFrameNumberLoop_stop {itrations k : Nat} (h : Stops n d m pfn k) :
    m.getVAOfFrameNumberLoop n d pfn (itrations + 1) (pageAddress k) =
      (m.getpageFrameNumber n d (pageAddress k)).map fun _ => pageAddress k := by
  rw [getVAOfFrameNumberLoop, isTrueVA]
  rcases h with h | h <;> simp [h]

theorem getVAOfFrameNumberLoop_first {j itrations k : Nat} (hlt : j < itrations)
    (hpast : ∀ i < j, ¬Stops n d m pfn (k + i)) (hstop : Stops n d m pfn (k + j)) :
    m.getVAOfFrameNumberLoop n d pfn itrations (pageAddress k) =
      (m.getpageFrameNumber n d (pageAddress (k + j))).map fun _ => pageAddress (k + j) := by
  induction j generalizing itrations k with
  | zero =>
    obtain ⟨rest, rfl⟩ := Nat.exists_eq_add_of_lt hlt
    exact getVAOfFrameNumberLoop_stop hstop
  | succ j ih =>
    obtain ⟨rest, rfl⟩ := Nat.exists_eq_add_of_lt hlt
    have hsucc : k + (j + 1) = k + 1 + j := by omega
    have hnext := hpast 0 (by omega)
    rw [Nat.add_zero] at hnext
    rw [getVAOfFrameNumberLoop_next hnext, hsucc]
    refine ih (by omega) (fun i hi => ?_) (hsucc ▸ hstop)
    rw [Nat.add_right_comm]
    exact hpast (i + 1) (by omega)

theorem getVAOfFrameNumberLoop_none (h : ∀ k, ¬Stops n d m pfn k) :
    ∀ itrations k : Nat,
      m.getVAOfFrameNumberLoop n d pfn itrations (pageAddress k) = some (-1#32)
  | 0, _ => rfl
  | itrations + 1, k =>
    (getVAOfFrameNumberLoop_next (h k)).trans (getVAOfFrameNumberLoop_none h itrations (k + 1))

/-- The search returns the first page where it stops. -/
theorem findVirtualOfFrameNum_first {k : Nat} (hk : k < 1048576)
    (hpast : ∀ j < k, ¬Stops n d m pfn j) (hstop : Stops n d m pfn k) :
    m.findVirtualOfFrameNum n d pfn =
      (m.getpageFrameNumber n d (pageAddress k)).map fun _ => pageAddress k := by
  have hsize : k < maxSize := Nat.lt_trans hk (by decide)
  have hfirst := getVAOfFrameNumberLoop_first (k := 0) hsize
    (fun i hi => by rw [Nat.zero_add]; exact hpast i hi) (by rwa [Nat.zero_add])
  rwa [Nat.zero_add] at hfirst

/-- Over the whole address space, four times. -/
theorem findVirtualOfFrameNum_none (h : ∀ k < 1048576, ¬Stops n d m pfn k) :
    m.findVirtualOfFrameNum n d pfn = some (-1#32) :=
  getVAOfFrameNumberLoop_none (fun k => (stops_mod k).not.1 (h _ (Nat.mod_lt k (by decide))))
    maxSize 0

theorem exists_first_stop {k : Nat} (hk : k < 1048576) (hstop : Stops n d m pfn k) :
    ∃ j ≤ k, Stops n d m pfn j ∧ (∀ i < j, ¬Stops n d m pfn i) ∧
      m.findVirtualOfFrameNum n d pfn =
        (m.getpageFrameNumber n d (pageAddress j)).map fun _ => pageAddress j := by
  classical
  have hex : ∃ k, Stops n d m pfn k := ⟨k, hstop⟩
  have hle : Nat.find hex ≤ k := Nat.find_min' hex hstop
  exact ⟨Nat.find hex, hle, Nat.find_spec hex, fun i hi => Nat.find_min hex hi,
    findVirtualOfFrameNum_first (Nat.lt_of_le_of_lt hle hk) (fun i hi => Nat.find_min hex hi)
      (Nat.find_spec hex)⟩

/-- The search finds the first page that maps the frame, or none. -/
structure FindsFirst (n d : Nat) (m : KernMemory) (pfn : BitVec 32) : Prop where
  found : ∀ k < 1048576, MapsNumber n d m (pageAddress k) pfn →
    (∀ j < k, ¬MapsNumber n d m (pageAddress j) pfn) →
      m.findVirtualOfFrameNum n d pfn = some (pageAddress k) ∧
        m.findPhysicalAddress n d (pageAddress k) = some (pfn * 4096#32)
  notFound : (∀ k < 1048576, ¬MapsNumber n d m (pageAddress k) pfn) →
    m.findVirtualOfFrameNum n d pfn = some (-1#32)

/-- No page panics before the frame is found, and for `-1` every page is there. -/
def CanFind (n d : Nat) (m : KernMemory) (pfn : BitVec 32) : Prop :=
  (∀ k < 1048576, m.NoMemoryAt n d (pageAddress k) →
      ∃ j < k, MapsNumber n d m (pageAddress j) pfn) ∧
    (pfn = -1#32 → ∀ k < 1048576, IsPresent (m.pageEntryOf d (pageAddress k)))

theorem FindsFirst.canFind (h : FindsFirst n d m pfn) : CanFind n d m pfn := by
  -- a stop that is no page of the frame gives neither answer
  have hstop : ∀ k < 1048576, Stops n d m pfn k →
      ∃ j ≤ k, MapsNumber n d m (pageAddress j) pfn := by
    intro k hk hstop
    obtain ⟨j, hj, hstopj, hpast, hfind⟩ := exists_first_stop hk hstop
    refine ⟨j, hj, ?_⟩
    by_contra hnot
    by_cases hex : ∃ i < 1048576, MapsNumber n d m (pageAddress i) pfn
    · have hne : pfn ≠ -1#32 := hex.elim fun i hi => hi.2.ne
      have hnone := hstopj.resolve_right fun hsome =>
        hnot (mapsNumber_of_getpageFrameNumber hsome hne)
      rw [hnone] at hfind
      classical
      have hspec := Nat.find_spec hex
      have hfound := (h.found (Nat.find hex) hspec.1 hspec.2 fun i hi hmaps =>
        Nat.find_min hex hi ⟨Nat.lt_trans hi hspec.1, hmaps⟩).1
      cases hfind.symm.trans hfound
    · push Not at hex
      rw [h.notFound hex] at hfind
      obtain ⟨number, -, heq⟩ := Option.map_eq_some_iff.1 hfind.symm
      have htoNat := congrArg BitVec.toNat heq
      rw [toNat_pageAddress (Nat.lt_of_le_of_lt hj hk)] at htoNat
      have hmax : (-1#32).toNat = 4294967295 := rfl
      omega
  refine ⟨fun k hk hnone => ?_, fun hpfn k hk => ?_⟩
  · obtain ⟨j, hj, hmaps⟩ := hstop k hk (Or.inl (getpageFrameNumber_eq_none.2 hnone))
    refine ⟨j, Nat.lt_of_le_of_ne hj fun heq => ?_, hmaps⟩
    exact hmaps.1 (heq ▸ hnone)
  · by_contra hpresent
    have hstopk : Stops n d m pfn k := by
      unfold Stops
      rw [getpageFrameNumber_eq, pageFrame_eq_iff.2 hpresent, hpfn]
      split
      · exact Or.inr rfl
      · exact Or.inl rfl
    obtain ⟨j, -, hmaps⟩ := hstop k hk hstopk
    exact hmaps.ne hpfn

theorem CanFind.findsFirst (h : CanFind n d m pfn) : FindsFirst n d m pfn := by
  have hstop : ∀ k < 1048576, (∀ j ≤ k, ¬MapsNumber n d m (pageAddress j) pfn) →
      ¬Stops n d m pfn k := by
    intro k hk hnot hstop
    rcases hstop with hnone | hsome
    · obtain ⟨j, hj, hmaps⟩ := h.1 k hk (getpageFrameNumber_eq_none.1 hnone)
      exact hnot j hj.le hmaps
    · by_cases hpfn : pfn = -1#32
      · exact not_present_of_getpageFrameNumber (hpfn ▸ hsome) (h.2 hpfn k hk)
      · exact hnot k le_rfl (mapsNumber_of_getpageFrameNumber hsome hpfn)
  refine ⟨fun k hk hmaps hfirst => ⟨?_, ?_⟩, fun hnone => ?_⟩
  · rw [findVirtualOfFrameNum_first hk (fun j hj => hstop j (Nat.lt_trans hj hk) fun i hi =>
      hfirst i (Nat.lt_of_le_of_lt hi hj)) (Or.inr hmaps.getpageFrameNumber_eq),
      hmaps.getpageFrameNumber_eq]
    rfl
  · rw [hmaps.findPhysicalAddress_eq, pageAddress_and, BitVec.add_zero]
  · exact findVirtualOfFrameNum_none fun k hk => hstop k hk fun j hj =>
      hnone j (Nat.lt_of_le_of_lt hj hk)

/-- When `FindVirtualOfFrameNum` finds the first page of a frame. -/
theorem findVirtualOfFrameNum_iff (n d : Nat) (m : KernMemory) (pfn : BitVec 32) :
    FindsFirst n d m pfn ↔ CanFind n d m pfn :=
  ⟨FindsFirst.canFind, CanFind.findsFirst⟩

/-- In an empty directory page 0 is found for the frame `-1`. -/
theorem minusOne_counterexample :
    (∀ k < 1048576, ¬MapsNumber 10 4 (ofFrames smallFrames smallBoot.words) (pageAddress k)
        (-1#32)) ∧
      (ofFrames smallFrames smallBoot.words).findVirtualOfFrameNum 10 4 (-1#32) = some 0#32 ∧
      ¬FindsFirst 10 4 (ofFrames smallFrames smallBoot.words) (-1#32) := by
  have hnone : ∀ k < 1048576, ¬MapsNumber 10 4 (ofFrames smallFrames smallBoot.words)
      (pageAddress k) (-1#32) := fun k _ hmaps => hmaps.ne rfl
  have hlookup : (ofFrames smallFrames smallBoot.words).getpageFrameNumber 10 4 (pageAddress 0) =
      some (-1#32) := rfl
  have hfind : (ofFrames smallFrames smallBoot.words).findVirtualOfFrameNum 10 4 (-1#32) =
      some 0#32 := by
    rw [findVirtualOfFrameNum_first (k := 0) (by decide) (fun j hj => by omega) (Or.inr hlookup),
      hlookup]
    rfl
  refine ⟨hnone, hfind, fun h => ?_⟩
  cases hfind.symm.trans (h.notFound hnone)

end KernMemory

end FosKernel
