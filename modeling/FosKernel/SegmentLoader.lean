import FosKernel.Words
import Mathlib.Data.List.Basic
import Mathlib.Tactic.SplitIfs

/-!
# The segments of a program

`PROGRAM_SEGMENT_FOREACH` goes over the program headers of an ELF image with a cursor, the
`segment_id` of the segment that it updates in place. `PROGRAM_SEGMENT_FIRST` and
`PROGRAM_SEGMENT_NEXT` have one loop each that skips the headers that are not loadable
(`skipSegments`), and it looks at the type of a header before it compares its index with
`e_phnum`. Each function is given with the indices of the headers that it reads.

`programSegmentForeach_eq` : the iteration ends and visits the loadable segments in the order of
the file. But its last search always reads the header after the last one
(`programSegmentForeach_iff`).
-/

namespace FosKernel

/-- `struct Proghdr`, as far as it is read. -/
structure Proghdr where
  pType : BitVec 32
  pOffset : BitVec 32
  pVa : BitVec 32
  pFilesz : BitVec 32
  pMemsz : BitVec 32

/-- `struct Elf` at the start of a program, and what is in memory from `e_phoff` on. -/
structure Elf where
  eMagic : BitVec 32
  ePhnum : BitVec 16
  /-- The program headers, and past `e_phnum` what follows them. -/
  ph : ℕ → Proghdr

/-- `struct ProgramSegment`. -/
structure ProgramSegment where
  ptrStart : BitVec 32
  sizeInFile : BitVec 32
  sizeInMemory : BitVec 32
  virtualAddress : BitVec 32
  segmentId : BitVec 32
  deriving DecidableEq

/-- `ELF_MAGIC`. -/
def elfMagic : BitVec 32 :=
  0x464C457F#32

/-- `ELF_PROG_LOAD`. -/
def elfProgLoad : BitVec 32 :=
  1#32

namespace Elf

variable (elf : Elf) (ptrProgramStart : BitVec 32)

/-- The loop over the headers that are not loadable : the `segment_id` it stops at, and the
headers that it reads. -/
def skipSegments : ℕ → BitVec 32 → Option (BitVec 32 × List ℕ)
  | 0, _ => none
  | fuel + 1, segmentId =>
    if (elf.ph segmentId.toNat).pType ≠ elfProgLoad ∧ segmentId.toNat < elf.ePhnum.toNat then
      (skipSegments fuel (segmentId + 1)).map fun (stop, reads) => (stop, segmentId.toNat :: reads)
    else some (segmentId, [segmentId.toNat])

/-- The segment of the header with the given index. -/
def segment (index : BitVec 32) : ProgramSegment where
  ptrStart := ptrProgramStart + (elf.ph index.toNat).pOffset
  sizeInMemory := (elf.ph index.toNat).pMemsz
  sizeInFile := (elf.ph index.toNat).pFilesz
  virtualAddress := (elf.ph index.toNat).pVa
  segmentId := index

/-- `PROGRAM_SEGMENT_NEXT` : the segment updated, `none` for the null pointer. It has no value
where the source panics. -/
def programSegmentNext (fuel : ℕ) (seg : ProgramSegment) :
    Option (Option ProgramSegment × List ℕ) :=
  if elf.eMagic ≠ elfMagic then none
  else
    (elf.skipSegments fuel (seg.segmentId + 1)).map fun (index, reads) =>
      if index.toInt < elf.ePhnum.toNat then
        (some (elf.segment ptrProgramStart index), reads ++ [index.toNat])
      else (none, reads)

/-- `PROGRAM_SEGMENT_FIRST`, with what the fields of `seg` hold before they are set. -/
def programSegmentFirst (fuel : ℕ) (unset : ProgramSegment) :
    Option (ProgramSegment × List ℕ) :=
  if elf.eMagic ≠ elfMagic then none
  else
    (elf.skipSegments fuel 0#32).map fun (index, reads) =>
      if index.toInt < elf.ePhnum.toNat then
        (elf.segment ptrProgramStart index, reads ++ [index.toNat])
      else ({ unset with segmentId := -1#32 }, reads)

/-- The loop of `PROGRAM_SEGMENT_FOREACH` : the segments it visits, and the headers read. -/
def foreachLoop : ℕ → Option ProgramSegment → Option (List ProgramSegment × List ℕ)
  | _, none => some ([], [])
  | 0, some _ => none
  | fuel + 1, some seg =>
    (elf.programSegmentNext ptrProgramStart (fuel + 1) seg).bind fun (next, reads) =>
      (foreachLoop fuel next).map fun (segments, reads') => (seg :: segments, reads ++ reads')

/-- `PROGRAM_SEGMENT_FOREACH`. -/
def programSegmentForeach (fuel : ℕ) (unset : ProgramSegment) :
    Option (List ProgramSegment × List ℕ) :=
  (elf.programSegmentFirst ptrProgramStart fuel unset).bind fun (first, reads) =>
    (elf.foreachLoop ptrProgramStart fuel
      (if first.segmentId = -1#32 then none else some first)).map
        fun (segments, reads') => (segments, reads ++ reads')

/-! ## The loadable headers -/

/-- The header with index `i` is of type `ELF_PROG_LOAD`. -/
def IsLoadable (i : ℕ) : Prop :=
  (elf.ph i).pType = elfProgLoad

instance (i : ℕ) : Decidable (elf.IsLoadable i) :=
  inferInstanceAs (Decidable (_ = _))

/-- The indices of the loadable headers from `i` on, in the order of the file. -/
def loadableFrom (i : ℕ) : List ℕ :=
  (List.range' i (elf.ePhnum.toNat - i)).filter elf.IsLoadable

/-- The segments of the loadable headers from `i` on. -/
def segmentsFrom (i : ℕ) : List ProgramSegment :=
  (elf.loadableFrom i).map fun j => elf.segment ptrProgramStart (BitVec.ofNat 32 j)

/-- `k` is the first loadable header from `i` on, or `e_phnum` if there is none. -/
structure StopsAt (i k : ℕ) : Prop where
  le : i ≤ k
  le_phnum : k ≤ elf.ePhnum.toNat
  skipped : ∀ j, i ≤ j → j < k → ¬elf.IsLoadable j
  stop : k < elf.ePhnum.toNat → elf.IsLoadable k

variable {elf ptrProgramStart} {i k fuel : ℕ} {unset : ProgramSegment}

theorem toNat_ofNat_of_le (h : i ≤ elf.ePhnum.toNat) : (BitVec.ofNat 32 i).toNat = i := by
  have hlt := elf.ePhnum.isLt
  rw [BitVec.toNat_ofNat]
  omega

theorem toInt_lt_iff (h : i ≤ elf.ePhnum.toNat) :
    (BitVec.ofNat 32 i).toInt < elf.ePhnum.toNat ↔ i < elf.ePhnum.toNat := by
  have hlt := elf.ePhnum.isLt
  rw [BitVec.toInt_eq_toNat_of_lt (by rw [toNat_ofNat_of_le h]; omega), toNat_ofNat_of_le h]
  exact Int.ofNat_lt

/-- The loop stops at the next loadable header, or at `e_phnum`, and reads the header that it
stops at too. -/
theorem skipSegments_eq : ∀ (fuel i : ℕ), i ≤ elf.ePhnum.toNat → elf.ePhnum.toNat - i < fuel →
    ∃ k, elf.StopsAt i k ∧ elf.skipSegments fuel (BitVec.ofNat 32 i) =
      some (BitVec.ofNat 32 k, List.range' i (k + 1 - i))
  | 0, i, _, hfuel => absurd hfuel (Nat.not_lt_zero _)
  | fuel + 1, i, hi, hfuel => by
    rw [skipSegments, toNat_ofNat_of_le hi]
    split_ifs with hskip
    · obtain ⟨hload, hlt⟩ := hskip
      obtain ⟨k, hk, hrun⟩ := skipSegments_eq fuel (i + 1) hlt (by omega)
      have hle := hk.le
      refine ⟨k, ⟨by omega, hk.le_phnum, fun j hij hjk => ?_, hk.stop⟩, ?_⟩
      · rcases Nat.eq_or_lt_of_le hij with rfl | hlt'
        · exact hload
        · exact hk.skipped j hlt' hjk
      · have hreads : List.range' i (k + 1 - i) = i :: List.range' (i + 1) (k + 1 - (i + 1)) := by
          rw [show k + 1 - i = k + 1 - (i + 1) + 1 by omega, List.range'_succ]
        have hnext : BitVec.ofNat 32 i + 1 = BitVec.ofNat 32 (i + 1) := (BitVec.ofNat_add i 1).symm
        rw [hreads, hnext, hrun]
        rfl
    · refine ⟨i, ⟨le_rfl, hi, fun j hij hji => absurd hji (Nat.not_lt.2 hij), fun hlt => ?_⟩, ?_⟩
      · by_contra hload
        exact hskip ⟨hload, hlt⟩
      · rw [Nat.add_sub_cancel_left, List.range'_one]

theorem StopsAt.loadableFrom (h : elf.StopsAt i k) : elf.loadableFrom i =
    if k < elf.ePhnum.toNat then k :: elf.loadableFrom (k + 1) else [] := by
  have hle := h.le
  have hle' := h.le_phnum
  have hsplit : List.range' i (elf.ePhnum.toNat - i) =
      List.range' i (k - i) ++ List.range' k (elf.ePhnum.toNat - k) := by
    have happend := @List.range'_append_1 i (k - i) (elf.ePhnum.toNat - k)
    rw [Nat.add_sub_cancel' hle] at happend
    rw [happend]
    congr 1
    omega
  have hskipped : (List.range' i (k - i)).filter elf.IsLoadable = [] := by
    refine List.filter_eq_nil_iff.2 fun j hj => ?_
    obtain ⟨hij, hjk⟩ := List.mem_range'_1.1 hj
    rw [decide_eq_true_eq]
    exact h.skipped j hij (by omega)
  rw [Elf.loadableFrom, hsplit, List.filter_append, hskipped, List.nil_append]
  split
  · next hlt =>
    have hcons : List.range' k (elf.ePhnum.toNat - k) =
        k :: List.range' (k + 1) (elf.ePhnum.toNat - (k + 1)) := by
      rw [show elf.ePhnum.toNat - k = elf.ePhnum.toNat - (k + 1) + 1 by omega, List.range'_succ]
    rw [hcons, List.filter_cons_of_pos (by simpa using h.stop hlt), Elf.loadableFrom]
  · next hge =>
    rw [Nat.sub_eq_zero_of_le (Nat.not_lt.1 hge)]
    rfl

/-! ## The iteration -/

/-- The headers that are read are those from `i` on, and the one after the last among them. -/
structure ReadsPast (elf : Elf) (i : ℕ) (reads : List ℕ) : Prop where
  le : ∀ j ∈ reads, i ≤ j ∧ j ≤ elf.ePhnum.toNat
  past : elf.ePhnum.toNat ∈ reads

/-- A search that stops at the end. -/
theorem StopsAt.readsPast (h : elf.StopsAt i k) (hk : ¬k < elf.ePhnum.toNat) :
    elf.ReadsPast i (List.range' i (k + 1 - i)) := by
  have hle := h.le
  have hle' := h.le_phnum
  refine ⟨fun j hj => ?_, List.mem_range'_1.2 ⟨by omega, by omega⟩⟩
  have hmem := List.mem_range'_1.1 hj
  omega

/-- A search that stops at a loadable header, and what comes after it. -/
theorem StopsAt.readsPast_append {reads : List ℕ} (h : elf.StopsAt i k)
    (hreads : elf.ReadsPast (k + 1) reads) :
    elf.ReadsPast i (List.range' i (k + 1 - i) ++ [k] ++ reads) := by
  have hle := h.le
  have hle' := h.le_phnum
  refine ⟨fun j hj => ?_, List.mem_append_right _ hreads.past⟩
  rcases List.mem_append.1 hj with hj | hj
  · rcases List.mem_append.1 hj with hj | hj
    · have hmem := List.mem_range'_1.1 hj
      omega
    · rw [List.mem_singleton.1 hj]
      omega
  · have hmem := hreads.le j hj
    omega

/-- The loop from a segment on visits it and the loadable segments after it. -/
theorem foreachLoop_eq (hmagic : elf.eMagic = elfMagic) : ∀ (fuel i : ℕ),
    i < elf.ePhnum.toNat → elf.ePhnum.toNat - i ≤ fuel →
      ∃ reads, elf.foreachLoop ptrProgramStart fuel
          (some (elf.segment ptrProgramStart (BitVec.ofNat 32 i))) =
        some (elf.segment ptrProgramStart (BitVec.ofNat 32 i) ::
          elf.segmentsFrom ptrProgramStart (i + 1), reads) ∧ elf.ReadsPast (i + 1) reads
  | 0, i, hi, hfuel => absurd hi (by omega)
  | fuel + 1, i, hi, hfuel => by
    obtain ⟨k, hk, hskip⟩ := skipSegments_eq (fuel + 1) (i + 1) hi (by omega)
    have hle := hk.le
    have hnext : (elf.segment ptrProgramStart (BitVec.ofNat 32 i)).segmentId + 1 =
        BitVec.ofNat 32 (i + 1) := (BitVec.ofNat_add i 1).symm
    rw [foreachLoop, programSegmentNext, if_neg (not_not.2 hmagic), hnext, hskip, segmentsFrom,
      hk.loadableFrom]
    simp only [Option.map_some, Option.bind_some, toInt_lt_iff hk.le_phnum,
      toNat_ofNat_of_le hk.le_phnum]
    split_ifs with hlt
    · obtain ⟨reads, hloop, hreads⟩ := foreachLoop_eq hmagic fuel k hlt (by omega)
      refine ⟨_, ?_, hk.readsPast_append hreads⟩
      rw [hloop]
      rfl
    · refine ⟨_, ?_, hk.readsPast hlt⟩
      rw [foreachLoop, Option.map_some, List.append_nil]
      rfl

/-- The iteration ends, visits the loadable segments in the order of the file, and reads no
header past the one after the last. -/
theorem programSegmentForeach_eq (ptrProgramStart : BitVec 32) (hmagic : elf.eMagic = elfMagic)
    (unset : ProgramSegment) (hfuel : elf.ePhnum.toNat < fuel) :
    ∃ reads, elf.programSegmentForeach ptrProgramStart fuel unset =
      some (elf.segmentsFrom ptrProgramStart 0, reads) ∧ elf.ReadsPast 0 reads := by
  obtain ⟨k, hk, hskip⟩ := skipSegments_eq fuel 0 (Nat.zero_le _) (by omega)
  have hle' := hk.le_phnum
  have hbound := elf.ePhnum.isLt
  rw [programSegmentForeach, programSegmentFirst, if_neg (not_not.2 hmagic), hskip, segmentsFrom,
    hk.loadableFrom]
  simp only [Option.map_some, Option.bind_some, toInt_lt_iff hk.le_phnum,
    toNat_ofNat_of_le hk.le_phnum]
  split_ifs with hlt hid hid
  · have htoNat := congrArg BitVec.toNat hid
    rw [segment, toNat_ofNat_of_le hle'] at htoNat
    have hmax : (-1#32).toNat = 4294967295 := rfl
    omega
  · obtain ⟨reads, hloop, hreads⟩ := @foreachLoop_eq _ ptrProgramStart hmagic fuel k hlt (by omega)
    refine ⟨_, ?_, hk.readsPast_append hreads⟩
    rw [hloop]
    rfl
  · refine ⟨_, ?_, hk.readsPast hlt⟩
    rw [foreachLoop, Option.map_some, List.append_nil]
    rfl
  · exact absurd rfl hid

/-- The iteration ends, visits the loadable segments in the order of the file, each once, and
reads no header but those of the image. -/
def VisitsExactly (elf : Elf) (ptrProgramStart : BitVec 32) (unset : ProgramSegment) : Prop :=
  ∀ fuel, elf.ePhnum.toNat < fuel → ∃ reads,
    elf.programSegmentForeach ptrProgramStart fuel unset =
      some (elf.segmentsFrom ptrProgramStart 0, reads) ∧ ∀ i ∈ reads, i < elf.ePhnum.toNat

/-- The iteration visits the right segments, and on every image it reads the header after the
last one, and none after it. -/
theorem programSegmentForeach_reads_past (elf : Elf) (ptrProgramStart : BitVec 32)
    (unset : ProgramSegment) (hmagic : elf.eMagic = elfMagic) :
    (∀ fuel, elf.ePhnum.toNat < fuel → ∃ reads,
      elf.programSegmentForeach ptrProgramStart fuel unset =
          some (elf.segmentsFrom ptrProgramStart 0, reads) ∧
        (∀ i ∈ reads, i ≤ elf.ePhnum.toNat) ∧ elf.ePhnum.toNat ∈ reads) ∧
      ¬elf.VisitsExactly ptrProgramStart unset := by
  refine ⟨fun fuel hfuel => ?_, fun hexact => ?_⟩
  · obtain ⟨reads, heq, hreads⟩ := programSegmentForeach_eq ptrProgramStart hmagic unset hfuel
    exact ⟨reads, heq, fun i hi => (hreads.le i hi).2, hreads.past⟩
  · obtain ⟨reads, heq, hlt⟩ := hexact _ (Nat.lt_succ_self _)
    obtain ⟨reads', heq', hreads⟩ :=
      programSegmentForeach_eq ptrProgramStart hmagic unset (Nat.lt_succ_self _)
    obtain rfl := (Prod.mk.inj (Option.some.inj (heq.symm.trans heq'))).2
    exact Nat.lt_irrefl _ (hlt _ hreads.past)

/-- Three headers, of which the one in the middle is loadable. -/
def smallImage : Elf where
  eMagic := elfMagic
  ePhnum := 3#16
  ph i := ⟨if i = 1 then elfProgLoad else 0#32, 0x1000#32, 0x800020#32, 0x30#32, 0x50#32⟩

theorem smallImage_reads_past :
    (∀ fuel, 3 < fuel → ∃ reads,
      smallImage.programSegmentForeach 0xF0200000#32 fuel ⟨0#32, 0#32, 0#32, 0#32, 0#32⟩ =
          some (smallImage.segmentsFrom 0xF0200000#32 0, reads) ∧
        (∀ i ∈ reads, i ≤ 3) ∧ 3 ∈ reads) ∧
      ¬smallImage.VisitsExactly 0xF0200000#32 ⟨0#32, 0#32, 0#32, 0#32, 0#32⟩ :=
  programSegmentForeach_reads_past smallImage 0xF0200000#32 ⟨0#32, 0#32, 0#32, 0#32, 0#32⟩ rfl

/-- The search after the one segment goes through header 2 to header 3, which is not there. -/
theorem smallImage_counterexample :
    smallImage.eMagic = elfMagic ∧
      smallImage.programSegmentForeach 0xF0200000#32 4 ⟨0#32, 0#32, 0#32, 0#32, 0#32⟩ =
        some ([⟨0xF0201000#32, 0x30#32, 0x50#32, 0x800020#32, 1#32⟩], [0, 1, 1, 2, 3]) ∧
      ¬smallImage.VisitsExactly 0xF0200000#32 ⟨0#32, 0#32, 0#32, 0#32, 0#32⟩ := by
  have hrun : smallImage.programSegmentForeach 0xF0200000#32 4 ⟨0#32, 0#32, 0#32, 0#32, 0#32⟩ =
      some ([⟨0xF0201000#32, 0x30#32, 0x50#32, 0x800020#32, 1#32⟩], [0, 1, 1, 2, 3]) := by
    decide
  refine ⟨rfl, hrun, fun hexact => ?_⟩
  obtain ⟨reads, heq, hlt⟩ := hexact 4 (by decide)
  obtain rfl := (Prod.mk.inj (Option.some.inj (heq.symm.trans hrun))).2
  exact absurd (hlt 3 (by decide)) (by decide)

end Elf

end FosKernel
