import Mathlib.Data.Nat.Basic
import Mathlib.Tactic.SplitIfs

/-!
# Addresses and page-table entries

Addresses and sizes are natural numbers below `2^32`, with `u32` written where the C
arithmetic can wrap. A page-table entry is a 32-bit word : the number of a frame in its
upper 20 bits and the permissions in its lower 12. `frameNumber_constructEntry` and
`extractAddress_constructEntry` read an entry back.
-/

namespace FosKernel

/-! ## Addresses -/

/-- The value a `uint32` holds. -/
def u32 (n : Nat) : Nat :=
  n % 4294967296

/-- `PAGE_SIZE`. -/
def pageSize : Nat :=
  4096

/-- `ROUNDDOWN(a, n)`. -/
def roundDown (a n : Nat) : Nat :=
  a - a % n

/-- `ROUNDUP(a, n)` : the sum `a + n - 1` wraps before it is rounded down. -/
def roundUp (a n : Nat) : Nat :=
  roundDown (u32 (a + (n - 1))) n

theorem roundDown_mod (a n : Nat) : roundDown a n % n = 0 := by
  unfold roundDown
  rw [Nat.sub_mod_eq_zero_of_mod_eq]
  simp

theorem roundUp_mod (a n : Nat) : roundUp a n % n = 0 :=
  roundDown_mod _ _

/-- A size rounded up is a number of pages. -/
theorem exists_pages (size : Nat) :
    ∃ n, roundUp size pageSize = pageSize * n ∧ pageSize * n / pageSize = n := by
  obtain ⟨n, hn⟩ := Nat.dvd_of_mod_eq_zero (roundUp_mod size pageSize)
  exact ⟨n, hn, Nat.mul_div_cancel_left n (by decide)⟩

/-- A size whose round-up does not wrap is at most its round-up. -/
theorem le_roundUp_pageSize {a : Nat} (h : a ≤ 4294967296 - 4096) : a ≤ roundUp a pageSize := by
  unfold roundUp roundDown u32 pageSize
  omega

/-- A size whose round-up wraps is rounded to zero. -/
theorem roundUp_pageSize_eq_zero {a : Nat} (h : 4294967296 - 4096 < a) (h' : a < 4294967296) :
    roundUp a pageSize = 0 := by
  unfold roundUp roundDown u32 pageSize
  omega

/-! ## Page-table entries -/

/-- A page-table entry or a directory entry. -/
abbrev Entry := BitVec 32

/-- `PERM_PRESENT`. -/
def permPresent : BitVec 32 :=
  0x001#32

/-- `PERM_WRITEABLE`. -/
def permWriteable : BitVec 32 :=
  0x002#32

/-- `PERM_USER`. -/
def permUser : BitVec 32 :=
  0x004#32

/-- `PERM_USED`, the accessed bit of the processor. -/
def permUsed : BitVec 32 :=
  0x020#32

/-- `PERM_MODIFIED`, the dirty bit of the processor. -/
def permModified : BitVec 32 :=
  0x040#32

/-- `PERM_AVAILABLE`, the bits left to software. -/
def permAvailable : BitVec 32 :=
  0xE00#32

/-- The twelve bits that are not the address of an entry. -/
def permMask : BitVec 32 :=
  0xFFF#32

/-- `CONSTRUCT_ENTRY(physical_address, perm)`. -/
def constructEntry (physicalAddress perm : BitVec 32) : Entry :=
  physicalAddress ||| perm

/-- `EXTRACT_ADDRESS(entry)`. -/
def extractAddress (e : Entry) : BitVec 32 :=
  e &&& ~~~permMask

/-- `to_physical_address` of the frame with the given number. -/
def toPhysicalAddress (f : Nat) : BitVec 32 :=
  BitVec.ofNat 32 f <<< 12

/-- `PPN(physical_address)`, the frame number `to_frame_info` looks up. -/
def ppn (pa : BitVec 32) : Nat :=
  (pa >>> 12).toNat

/-- The number of the frame that an entry maps. -/
def frameNumber (e : Entry) : Nat :=
  ppn (extractAddress e)

/-- The entry has `PERM_PRESENT`. -/
def IsPresent (e : Entry) : Prop :=
  e &&& permPresent = permPresent

instance (e : Entry) : Decidable (IsPresent e) :=
  inferInstanceAs (Decidable (_ = _))

/-- The permissions fit in the low twelve bits. -/
def IsPerm (p : BitVec 32) : Prop :=
  p &&& ~~~permMask = 0#32

instance (p : BitVec 32) : Decidable (IsPerm p) :=
  inferInstanceAs (Decidable (_ = _))

theorem or_and_right (x y z : BitVec 32) : (x ||| y) &&& z = x &&& z ||| y &&& z := by
  rw [BitVec.and_comm, BitVec.and_or_distrib_left, BitVec.and_comm z, BitVec.and_comm z]

theorem IsPerm.or {p q : BitVec 32} (hp : IsPerm p) (hq : IsPerm q) : IsPerm (p ||| q) := by
  unfold IsPerm at *
  rw [or_and_right, hp, hq]
  rfl

/-- Every twelve-bit value is a permission. -/
theorem isPerm_setWidth (p : BitVec 12) : IsPerm (p.setWidth 32) := by
  have hmask : ∀ i : Fin 32, (~~~permMask).getLsbD i = decide (12 ≤ i.1) := by decide
  apply BitVec.eq_of_getLsbD_eq
  intro i hi
  have hm := hmask ⟨i, hi⟩
  simp only at hm
  rw [BitVec.getLsbD_and, hm, BitVec.getLsbD_setWidth]
  by_cases h : 12 ≤ i
  · simp [BitVec.getLsbD_of_ge p i h]
  · simp [h]

theorem ppn_toPhysicalAddress {f : Nat} (hf : f < 1048576) : ppn (toPhysicalAddress f) = f := by
  unfold ppn toPhysicalAddress
  simp only [BitVec.toNat_ushiftRight, BitVec.toNat_shiftLeft, BitVec.toNat_ofNat,
    Nat.shiftLeft_eq, Nat.shiftRight_eq_div_pow]
  omega

/-- The physical address of a frame has no permission bits. -/
theorem extractAddress_toPhysicalAddress (f : Nat) :
    extractAddress (toPhysicalAddress f) = toPhysicalAddress f := by
  have hmask : ∀ i : Fin 32, (~~~permMask).getLsbD i = decide (12 ≤ i.1) := by decide
  apply BitVec.eq_of_getLsbD_eq
  intro i hi
  have hm := hmask ⟨i, hi⟩
  simp only at hm
  simp only [extractAddress, toPhysicalAddress, BitVec.getLsbD_and, BitVec.getLsbD_shiftLeft, hm]
  by_cases h : i < 12
  · simp [h]
  · simp [h, Nat.le_of_not_lt h]

theorem toPhysicalAddress_injective {f g : Nat} (hf : f < 1048576) (hg : g < 1048576)
    (h : toPhysicalAddress f = toPhysicalAddress g) : f = g := by
  rw [← ppn_toPhysicalAddress hf, h, ppn_toPhysicalAddress hg]

/-- Reading back the address an entry was built from. -/
theorem extractAddress_constructEntry (f : Nat) {perm : BitVec 32} (hp : IsPerm perm) :
    extractAddress (constructEntry (toPhysicalAddress f) perm) = toPhysicalAddress f := by
  unfold constructEntry
  rw [extractAddress, or_and_right, hp]
  exact (BitVec.or_zero).trans (extractAddress_toPhysicalAddress f)

theorem frameNumber_constructEntry {f : Nat} (hf : f < 1048576) {perm : BitVec 32}
    (hp : IsPerm perm) : frameNumber (constructEntry (toPhysicalAddress f) perm) = f := by
  rw [frameNumber, extractAddress_constructEntry f hp, ppn_toPhysicalAddress hf]

/-- Shifting the permissions out of an entry leaves the frame number. -/
theorem extractAddress_ushiftRight (e : Entry) : extractAddress e >>> 12 = e >>> 12 := by
  have hmask : ∀ i : Fin 32, (~~~permMask).getLsbD i = decide (12 ≤ i.1) := by decide
  apply BitVec.eq_of_getLsbD_eq
  intro i hi
  simp only [extractAddress, BitVec.getLsbD_ushiftRight, BitVec.getLsbD_and]
  by_cases h : 12 + i < 32
  · have hm := hmask ⟨12 + i, h⟩
    simp only at hm
    simp [hm]
  · rw [BitVec.getLsbD_of_ge e _ (by omega)]
    rfl

/-- An entry's address is that of the frame it maps. -/
theorem toPhysicalAddress_frameNumber (e : Entry) :
    toPhysicalAddress (frameNumber e) = extractAddress e := by
  have hmask : ∀ i : Fin 32, (~~~permMask).getLsbD i = decide (12 ≤ i.1) := by decide
  unfold toPhysicalAddress frameNumber ppn
  rw [BitVec.ofNat_toNat, BitVec.setWidth_eq, extractAddress_ushiftRight]
  apply BitVec.eq_of_getLsbD_eq
  intro i hi
  have hm := hmask ⟨i, hi⟩
  simp only at hm
  rw [extractAddress, BitVec.getLsbD_and, hm, BitVec.getLsbD_shiftLeft,
    BitVec.getLsbD_ushiftRight]
  by_cases h : i < 12
  · simp [h]
  · simp [h, hi, Nat.le_of_not_lt h, Nat.add_sub_cancel' (Nat.le_of_not_lt h)]

theorem isPresent_constructEntry (pa perm : BitVec 32) :
    IsPresent (constructEntry pa (perm ||| permPresent)) := by
  apply BitVec.eq_of_getLsbD_eq
  intro i hi
  simp only [constructEntry, BitVec.getLsbD_and, BitVec.getLsbD_or]
  cases permPresent.getLsbD i <;> simp

theorem IsPresent.ne_zero {e : Entry} (h : IsPresent e) : e ≠ 0#32 := by
  rintro rfl
  exact absurd h (by decide)

theorem not_isPresent_zero : ¬IsPresent 0#32 := by
  decide

end FosKernel
