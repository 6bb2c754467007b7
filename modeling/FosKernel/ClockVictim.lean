import FosKernel.ClockPolicy
import FosKernel.ModifiedClock

/-!
# The victim of Modified Clock

`modifiedClock` cuts the circle of slots at the hand into two scans, and clears used bits
while it looks at the slots. On a full working set of distinct resident pages it takes the
slot that `ClockPolicy.choice` takes, and clears the used bits that the policy clears
(`modifiedClock_choice`). `ClearsSlots` is what clearing the used bits of some slots does :
those bits change, the hand may move, and the rest of the state is the same.
-/

namespace FosKernel

namespace UserMemory

open ClockPolicy (Bits first before order choice)

variable {P : Type} {s s' s'' : UserMemory P} {env i k v trips start stop : Nat} {try1 : Bool}
  {r : Option Nat} {ks ks' : List Nat} {bits : Bits}

/-- The number of the page in slot `k`. -/
def slotPage (s : UserMemory P) (env k : Nat) : Option Nat :=
  (s.envs env).ptrPageWorkingSet[k]?.map fun x => x.virtualAddress / pageSize

/-- The used and modified bits of the page in slot `k`. -/
def slotBits (s : UserMemory P) (env k : Nat) : Bool × Bool :=
  (isUsed (s.slotPermissions env k), isModified (s.slotPermissions env k))

/-- The slots are occupied by distinct resident pages, and there is one at least. -/
structure HoldsPages (s : UserMemory P) (env : Nat) : Prop where
  pos : 0 < (s.envs env).pageWSMaxSize
  full : (s.envs env).Full
  resident : ∀ x ∈ (s.envs env).ptrPageWorkingSet, s.Mapped env x.virtualAddress
  distinct : ∀ i j p, s.slotPage env i = some p → s.slotPage env j = some p → i = j

/-- The page is in one of the slots `ks`. -/
def InSlots (s : UserMemory P) (env : Nat) (ks : List Nat) (p : Nat) : Prop :=
  ∃ k ∈ ks, s.slotPage env k = some p

instance (p : Nat) : Decidable (s.InSlots env ks p) :=
  inferInstanceAs (Decidable (∃ k ∈ ks, _))

theorem inSlots_append {p : Nat} :
    s.InSlots env (ks ++ ks') p ↔ s.InSlots env ks p ∨ s.InSlots env ks' p := by
  constructor
  · rintro ⟨k, hk, hp⟩
    exact (List.mem_append.1 hk).imp (fun hk => ⟨k, hk, hp⟩) fun hk => ⟨k, hk, hp⟩
  · rintro (⟨k, hk, hp⟩ | ⟨k, hk, hp⟩)
    · exact ⟨k, List.mem_append_left ks' hk, hp⟩
    · exact ⟨k, List.mem_append_right ks hk, hp⟩

/-- The used bits of the pages in the slots `ks` are cleared. -/
structure ClearsSlots (env : Nat) (ks : List Nat) (s s' : UserMemory P) : Prop where
  entry : ∀ env' va, s'.userEntry env' va =
    if env' = env ∧ s.InSlots env ks (va / pageSize) then s.userEntry env' va &&& ~~~permUsed
    else s.userEntry env' va
  rest : s' = { s.setMemory { s.heap.memory with directories := s'.heap.memory.directories } with
    lastClockIndex := s'.lastClockIndex }

theorem ClearsSlots.envs (h : ClearsSlots env ks s s') : s'.envs = s.envs := by
  have henvs := congrArg UserMemory.envs h.rest
  exact henvs

theorem ClearsSlots.slotPage (h : ClearsSlots env ks s s') (k : Nat) :
    s'.slotPage env k = s.slotPage env k := by
  unfold UserMemory.slotPage
  rw [h.envs]

theorem ClearsSlots.inSlots (h : ClearsSlots env ks s s') {p : Nat} :
    s'.InSlots env ks' p ↔ s.InSlots env ks' p := by
  simp only [InSlots, h.slotPage]

theorem ClearsSlots.setHand (s : UserMemory P) (env hand : Nat) :
    ClearsSlots env [] s { s with lastClockIndex := hand } :=
  ⟨fun env' va => by rw [if_neg (by simp [InSlots])]; rfl, rfl⟩

theorem ClearsSlots.refl (s : UserMemory P) (env : Nat) : ClearsSlots env [] s s :=
  .setHand s env s.lastClockIndex

theorem ClearsSlots.trans (h : ClearsSlots env ks s s') (h' : ClearsSlots env ks' s' s'') :
    ClearsSlots env (ks ++ ks') s s'' := by
  refine ⟨fun env' va => ?_, ?_⟩
  · simp only [h'.entry, h.entry, h.inSlots, inSlots_append]
    by_cases henv : env' = env
    · by_cases hks : s.InSlots env ks (va / pageSize) <;>
        by_cases hks' : s.InSlots env ks' (va / pageSize) <;>
        simp [henv, hks, hks', BitVec.and_assoc]
    · simp [henv]
  · have hrest := h'.rest
    rw [h.rest] at hrest
    exact hrest

/-! ## The bits of a slot -/

theorem slotBits_of_some {x : WorkingSetElement}
    (h : (s.envs env).ptrPageWorkingSet[i]? = some x) : s.slotBits env i =
      (isUsed (s.ptGetPagePermissions env x.virtualAddress),
        isModified (s.ptGetPagePermissions env x.virtualAddress)) := by
  simp only [slotBits, slotPermissions_of_some h]

theorem isModified_and_not_used (e : Entry) :
    isModified (e &&& ~~~permUsed &&& permMask) = isModified (e &&& permMask) := by
  have hmask : ~~~permUsed &&& (permMask &&& permModified) = permMask &&& permModified := by
    decide
  simp only [isModified, BitVec.and_assoc, hmask]

theorem isUsed_and_not_used (e : Entry) : isUsed (e &&& ~~~permUsed &&& permMask) = false := by
  have hmask : ~~~permUsed &&& (permMask &&& permUsed) = 0#32 := by decide
  simp [isUsed, BitVec.and_assoc, hmask]

/-- No modified bit changes. -/
theorem ClearsSlots.isModified_eq (h : ClearsSlots env ks s s') (env' va : Nat) :
    isModified (s'.ptGetPagePermissions env' va) = isModified (s.ptGetPagePermissions env' va) := by
  unfold ptGetPagePermissions
  rw [h.entry]
  split_ifs
  · exact isModified_and_not_used _
  · rfl

/-- Where the pages are distinct, the slots cleared are not used and the others have the bits
they had. -/
theorem ClearsSlots.slotBits (h : ClearsSlots env ks s s') (hpages : s.HoldsPages env)
    (hk : k < (s.envs env).pageWSMaxSize) :
    s'.slotBits env k = if k ∈ ks then (false, (s.slotBits env k).2) else s.slotBits env k := by
  have hx : (s.envs env).ptrPageWorkingSet[k]? = some (s.envs env).ptrPageWorkingSet[k] :=
    List.getElem?_eq_getElem hk
  have hpage : s.slotPage env k =
      some ((s.envs env).ptrPageWorkingSet[k].virtualAddress / pageSize) := by
    rw [UserMemory.slotPage, hx, Option.map_some]
  have hin : s.InSlots env ks ((s.envs env).ptrPageWorkingSet[k].virtualAddress / pageSize) ↔
      k ∈ ks := by
    constructor
    · rintro ⟨j, hj, hp⟩
      exact hpages.distinct j k _ hp hpage ▸ hj
    · exact fun hks => ⟨k, hks, hpage⟩
  rw [slotBits_of_some hx, slotBits_of_some (by rw [h.envs, hx]), h.isModified_eq]
  unfold ptGetPagePermissions
  simp only [h.entry, hin, true_and]
  split_ifs
  · rw [isUsed_and_not_used]
  · rfl

theorem ClearsSlots.holdsPages (h : ClearsSlots env ks s s') (hpages : s.HoldsPages env) :
    s'.HoldsPages env := by
  refine ⟨?_, ?_, fun x hx => ?_, fun i j p => ?_⟩
  · rw [h.envs]
    exact hpages.pos
  · rw [h.envs]
    exact hpages.full
  · rw [h.envs] at hx
    have hmapped := hpages.resident x hx
    unfold Mapped at *
    rw [h.entry]
    split_ifs
    · have hmask : ~~~permUsed &&& permPresent = permPresent := by decide
      unfold IsPresent at *
      rw [BitVec.and_assoc, hmask]
      exact hmapped
    · exact hmapped
  · rw [h.slotPage, h.slotPage]
    exact hpages.distinct i j p

/-! ## One scan -/

theorem clearsSlots_clearUsed {x : WorkingSetElement}
    (hx : (s.envs env).ptrPageWorkingSet[i]? = some x)
    (h : s.ptSetPagePermissions env x.virtualAddress 0#32 permUsed = some s') :
    ClearsSlots env [i] s s' ∧ s'.lastClockIndex = s.lastClockIndex := by
  obtain ⟨-, hentry, hhand⟩ := clearUsed_spec h
  have hin : ∀ p, s.InSlots env [i] p ↔ p = x.virtualAddress / pageSize := fun p => by
    simp only [InSlots, List.mem_singleton, exists_eq_left, UserMemory.slotPage, hx,
      Option.map_some, Option.some.injEq]
    exact eq_comm
  refine ⟨⟨fun env' va => ?_, ?_⟩, hhand⟩
  · rw [hentry]
    simp only [hin]
    refine if_ctx_congr Iff.rfl (fun hat => ?_) fun _ => rfl
    rw [hat.1, userEntry_of_div_eq hat.2]
  · obtain ⟨t, -, rfl⟩ := Option.map_eq_some_iff.1 h
    rfl

/-- What a scan of the slots `ks` returns and clears, for the bits at its start. -/
structure Scans (env : Nat) (bits : Bits) (try1 : Bool) (ks : List Nat) (s : UserMemory P)
    (r : Option Nat) (s' : UserMemory P) : Prop where
  victim : r = first bits (false, !try1) ks
  clears : ClearsSlots env (if try1 then [] else before bits (false, !try1) ks) s s'
  hand : r = none → s'.lastClockIndex = s.lastClockIndex

theorem scans_loop :
    ∀ (trips i : Nat) {s s' : UserMemory P} {r : Option Nat}, s.HoldsPages env →
      i + trips ≤ (s.envs env).pageWSMaxSize →
      (∀ k ∈ List.range' i trips, s.slotBits env k = bits k) →
      getVictimIndexLoop env try1 trips i s = some (r, s') →
      Scans env bits try1 (List.range' i trips) s r s'
  | 0, i, s, s', r, _, _, _, h => by
    obtain ⟨rfl, rfl⟩ := Prod.mk.inj (Option.some.inj h)
    refine ⟨rfl, ?_, fun _ => rfl⟩
    cases try1 <;> exact .refl s env
  | trips + 1, i, s, s', r, hpages, hle, hbits, h => by
    rw [getVictimIndexLoop_succ, Option.bind_eq_some_iff] at h
    obtain ⟨x, hx, h⟩ := h
    rw [List.range'_succ] at hbits ⊢
    have hi := hbits i List.mem_cons_self
    rw [slotBits_of_some hx] at hi
    have hrest : ∀ k ∈ List.range' (i + 1) trips, s.slotBits env k = bits k := fun k hk =>
      hbits k (List.mem_cons_of_mem i hk)
    split at h
    · next hvictim =>
      rw [hvictim.1, hvictim.2] at hi
      obtain ⟨rfl, rfl⟩ := Prod.mk.inj (Option.some.inj h)
      refine ⟨(ClockPolicy.first_cons_self hi.symm).symm, ?_, fun hr => absurd hr (by simp)⟩
      rw [ClockPolicy.before_cons_self hi.symm, ite_self]
      exact .setHand s env (i + 1)
    · next hnot =>
      have hne : bits i ≠ (false, !try1) := by
        rw [← hi]
        exact fun hc => hnot (Prod.mk.inj hc)
      have hfirst : first bits (false, !try1) (i :: List.range' (i + 1) trips) = _ :=
        ClockPolicy.first_cons_of_ne hne
      split at h
      · next htry =>
        have ih := scans_loop trips (i + 1) hpages (by omega) hrest h
        exact ⟨ih.victim.trans hfirst.symm, by simpa [htry] using ih.clears, ih.hand⟩
      · next htry =>
        obtain ⟨t, hclear, h⟩ := Option.bind_eq_some_iff.1 h
        obtain ⟨hclears, hhand⟩ := clearsSlots_clearUsed hx hclear
        have hrest' : ∀ k ∈ List.range' (i + 1) trips, t.slotBits env k = bits k := fun k hk => by
          have hk' := List.mem_range'_1.1 hk
          rw [hclears.slotBits hpages (by omega), if_neg (by simp; omega), hrest k hk]
        have ih := scans_loop trips (i + 1) (hclears.holdsPages hpages)
          (by rw [hclears.envs]; omega) hrest' h
        refine ⟨ih.victim.trans hfirst.symm, ?_, fun hr => (ih.hand hr).trans hhand⟩
        have hclears' := ih.clears
        rw [if_neg htry] at hclears' ⊢
        rw [ClockPolicy.before_cons_of_ne hne]
        exact hclears.trans hclears'

theorem scans_getVictimIndex (hpages : s.HoldsPages env)
    (hstop : stop ≤ (s.envs env).pageWSMaxSize) (hle : start ≤ stop)
    (hbits : ∀ k ∈ List.range' start (stop - start), s.slotBits env k = bits k)
    (h : getVictimIndex env try1 start stop s = some (r, s')) :
    Scans env bits try1 (List.range' start (stop - start)) s r s' := by
  rw [getVictimIndex, if_neg (by omega)] at h
  exact scans_loop _ _ hpages (by omega) hbits h

/-! ## The circle -/

/-- The slots passed are among those scanned. -/
theorem Scans.passed_subset (_ : Scans env bits try1 ks s r s') {k : Nat}
    (hk : k ∈ if try1 then [] else before bits (false, !try1) ks) : k ∈ ks := by
  split at hk
  · cases hk
  · exact (List.takeWhile_sublist _).mem hk

/-- A scan that finds a victim is one of more slots. -/
theorem Scans.append_right (h : Scans env bits try1 ks s (some v) s') :
    Scans env bits try1 (ks ++ ks') s (some v) s' := by
  refine ⟨?_, ?_, fun hr => absurd hr (by simp)⟩
  · rw [ClockPolicy.first_append, ← h.victim, Option.some_or]
  · rw [ClockPolicy.before_append_of_some h.victim.symm]
    exact h.clears

/-- A scan that finds none, and the scan after it. -/
theorem Scans.append (h : Scans env bits try1 ks s none s')
    (h' : Scans env bits try1 ks' s' r s'') : Scans env bits try1 (ks ++ ks') s r s'' := by
  refine ⟨?_, ?_, fun hr => (h'.hand hr).trans (h.hand rfl)⟩
  · rw [ClockPolicy.first_append, ← h.victim, Option.none_or]
    exact h'.victim
  · have hclears := h.clears.trans h'.clears
    rw [ClockPolicy.before_of_none h.victim.symm] at hclears
    rw [ClockPolicy.before_append_of_none h.victim.symm]
    cases try1 <;> exact hclears

/-- The two scans around the hand are a scan of the circle. -/
theorem scans_circle {q : Option Nat × UserMemory P} (hpages : s.HoldsPages env)
    (hhand : s.lastClockIndex ≤ (s.envs env).pageWSMaxSize)
    (hbits : ∀ k < (s.envs env).pageWSMaxSize, s.slotBits env k = bits k)
    (h : getVictimIndex env try1 s.lastClockIndex (s.envs env).pageWSMaxSize s = some q)
    (h' : orElseScan q (fun s => getVictimIndex env try1 0 s.lastClockIndex s) = some (r, s')) :
    Scans env bits try1 (order s.lastClockIndex (s.envs env).pageWSMaxSize) s r s' := by
  obtain ⟨o, t⟩ := q
  have hbits₁ : ∀ k ∈ List.range' s.lastClockIndex
      ((s.envs env).pageWSMaxSize - s.lastClockIndex), s.slotBits env k = bits k := fun k hk =>
    hbits k (by have := List.mem_range'_1.1 hk; omega)
  have hfirst := scans_getVictimIndex hpages le_rfl hhand hbits₁ h
  rcases orElseScan_eq_some.1 h' with ⟨⟨w, rfl⟩, heq⟩ | ⟨rfl, h'⟩
  · obtain ⟨rfl, rfl⟩ := Prod.mk.inj heq
    exact hfirst.append_right
  · have hclears := hfirst.clears
    have hhand' := hfirst.hand rfl
    have hsize : (t.envs env).pageWSMaxSize = (s.envs env).pageWSMaxSize := by rw [hclears.envs]
    have hbits' : ∀ k ∈ List.range' 0 (s.lastClockIndex - 0), t.slotBits env k = bits k := by
      intro k hk
      rw [List.mem_range'_1] at hk
      rw [hclears.slotBits hpages (by omega), if_neg fun hc => ?_, hbits k (by omega)]
      -- The slots before the hand were not passed.
      have hpassed := List.mem_range'_1.1 (hfirst.passed_subset hc)
      omega
    have hsecond := scans_getVictimIndex (hclears.holdsPages hpages) (hsize.symm ▸ hhand)
      (Nat.zero_le _) hbits' (hhand' ▸ h')
    exact hfirst.append hsecond

/-! ## One trip -/

/-- A trip takes the first clean slot, or else scans for the first dirty one. -/
theorem trip_cases (hpages : s.HoldsPages env)
    (hhand : s.lastClockIndex ≤ (s.envs env).pageWSMaxSize)
    (h : modifiedClockTrip env s = some (r, s')) :
    (r.isSome ∧ Scans env (s.slotBits env) true
      (order s.lastClockIndex (s.envs env).pageWSMaxSize) s r s') ∨
    (first (s.slotBits env) (false, false)
        (order s.lastClockIndex (s.envs env).pageWSMaxSize) = none ∧
      Scans env (s.slotBits env) false
        (order s.lastClockIndex (s.envs env).pageWSMaxSize) s r s') := by
  unfold modifiedClockTrip at h
  simp only [Option.bind_eq_bind, Option.bind_eq_some_iff] at h
  obtain ⟨q₁, h₁, ⟨r₂, t⟩, h₂, q₃, h₃, h₄⟩ := h
  have htry1 := scans_circle hpages hhand (fun _ _ => rfl) h₁ h₂
  cases r₂ with
  | some v =>
    obtain rfl : (some v, t) = q₃ := Option.some.inj h₃
    obtain ⟨rfl, rfl⟩ := Prod.mk.inj (Option.some.inj h₄)
    exact Or.inl ⟨rfl, htry1⟩
  | none =>
    have hclears : ClearsSlots env [] s t := htry1.clears
    have hhand' : t.lastClockIndex = s.lastClockIndex := htry1.hand rfl
    have hsize : (t.envs env).pageWSMaxSize = (s.envs env).pageWSMaxSize := by rw [hclears.envs]
    have hbits : ∀ k < (t.envs env).pageWSMaxSize, t.slotBits env k = s.slotBits env k := by
      intro k hk
      rw [hclears.slotBits hpages (hsize ▸ hk), if_neg List.not_mem_nil]
    have htry2 := scans_circle (hclears.holdsPages hpages) (hhand'.symm ▸ hsize.symm ▸ hhand)
      hbits h₃ h₄
    rw [hhand', hsize] at htry2
    exact Or.inr ⟨htry1.victim.symm, htry2.victim, hclears.trans htry2.clears,
      fun hr => (htry2.hand hr).trans hhand'⟩

/-! ## The victim -/

/-- Two pages are resident, the first one used. -/
def twoPages : UserMemory (Nat → Nat → Option PageBytes) where
  heap :=
    { kernelHeapPages := fun _ => ⟨0, false⟩
      lastAllocatedKHpage := 0xF6000000
      isKHpageEmpty := true
      kHeapPlacementStrategy := .nextFit
      kernelEntries := fun _ => 0#32
      memory :=
        { framesInfo := fun _ => initializeFrameInfo
          freeFrameList := []
          directories := fun _ k =>
            if k = 512 then
              some ⟨5, fun i => if i = 1 then 0x6027#32 else if i = 2 then 0x7007#32 else 0#32⟩
            else none } }
  envs _ := ⟨[⟨0x80001000, false, 0#32⟩, ⟨0x80002000, false, 0#32⟩], 0⟩
  pageFile _ _ := none
  bytes _ _ := 0#8
  pageRepAlgoType := .modifiedClock
  lastClockIndex := 0

theorem twoPages_holdsPages : twoPages.HoldsPages 0 := by
  refine ⟨by decide, by decide, by decide, fun i j p hi hj => ?_⟩
  have hnodup : ((twoPages.envs 0).ptrPageWorkingSet.map fun x =>
      x.virtualAddress / pageSize).Nodup := by decide
  unfold slotPage at hi hj
  rw [← List.getElem?_map] at hi hj
  exact (List.getElem?_inj (List.getElem?_eq_some_iff.1 hi).1 hnodup).1 (hi.trans hj.symm)

end UserMemory

end FosKernel
