import FosKernel.KernelHeapRuns
import FosKernel.ModifiedClock
import FosKernel.RecentHistory

/-!
# Aging stamps

With LRU, every clock interrupt calls `update_WS_time_stamps` : the stamp of each page of the
working set is shifted by two bits, and bit 31 is set if the page was used. A stamp is 16 digits
of two bits each, and `AgingLedger` keeps what they stand for : when the page in a slot was found
used, or placed.

`stamps_right` : after any placements, clears and ticks, and whatever else is done to the page
tables, the stamps are the histories (`Ages`), and a tick clears the used bit of the pages of the
working set and no other bit of an entry.
-/

namespace FosKernel

/-- What `update_WS_time_stamps` works on. -/
structure ClockState (P : Type) where
  memory : UserMemory P
  /-- `__ptr_tws`. -/
  ptrTws : ℕ → List WorkingSetElement
  /-- The words of the page directories. -/
  directory : ℕ → ℕ → Entry
  curenv : Option ℕ

namespace UserMemory

variable {P : Type} (s : UserMemory P) (env : ℕ)

/-- `ptr_pageWorkingSet[i].time_stamp = timeStamp`. -/
def setTimeStamp (i : ℕ) (timeStamp : BitVec 32) : UserMemory P :=
  s.setEnv env
    { s.envs env with
      ptrPageWorkingSet :=
        (s.envs env).ptrPageWorkingSet.modify i fun x => { x with timeStamp := timeStamp } }

/-- The body of the loop over the pages. -/
def updatePageStamp (i : ℕ) (s : UserMemory P) : Option (UserMemory P) :=
  match (s.envs env).ptrPageWorkingSet[i]? with
  | none => some s
  | some x =>
    if x.empty then some s
    else
      let pageVa := x.virtualAddress
      let perm := s.ptGetPagePermissions env pageVa
      let oldTimeStamp := x.timeStamp
      if isUsed perm then
        let s := s.setTimeStamp env i ((oldTimeStamp >>> 2) ||| 0x80000000#32)
        s.ptSetPagePermissions env pageVa 0#32 permUsed
      else
        some (s.setTimeStamp env i (oldTimeStamp >>> 2))

/-- The loop over the pages, with its trips to go. -/
def updatePageStamps : ℕ → ℕ → UserMemory P → Option (UserMemory P)
  | 0, _, s => some s
  | trips + 1, i, s => (updatePageStamp env i s).bind (updatePageStamps trips (i + 1))

end UserMemory

namespace ClockState

variable {P : Type} (s : ClockState P) (env : ℕ)

/-- `pd_is_table_used`. -/
def pdIsTableUsed (va : ℕ) : Bool :=
  s.directory env (pdx va) &&& permUsed = permUsed

/-- `pd_set_table_unused`. -/
def pdSetTableUnused (va : ℕ) : ClockState P :=
  { s with
    directory := Function.update s.directory env
      (Function.update (s.directory env) (pdx va) (s.directory env (pdx va) &&& ~~~permUsed)) }

/-- `__ptr_tws[t].time_stamp = timeStamp`. -/
def setTableTimeStamp (t : ℕ) (timeStamp : BitVec 32) : ClockState P :=
  { s with
    ptrTws := Function.update s.ptrTws env
      ((s.ptrTws env).modify t fun x => { x with timeStamp := timeStamp }) }

/-- The body of the loop over the page tables. -/
def updateTableStamp (t : ℕ) (s : ClockState P) : ClockState P :=
  match (s.ptrTws env)[t]? with
  | none => s
  | some x =>
    if x.empty then s
    else
      let tableVa := x.virtualAddress
      let oldTimeStamp := x.timeStamp
      if s.pdIsTableUsed env tableVa then
        let s := s.setTableTimeStamp env t ((oldTimeStamp >>> 2) ||| 0x80000000#32)
        s.pdSetTableUnused env tableVa
      else
        s.setTableTimeStamp env t (oldTimeStamp >>> 2)

/-- The loop over the page tables, with its trips to go. -/
def updateTableStamps : ℕ → ℕ → ClockState P → ClockState P
  | 0, _, s => s
  | trips + 1, t, s => updateTableStamps trips (t + 1) (updateTableStamp env t s)

/-- `update_WS_time_stamps`. -/
def updateWSTimeStamps : Option (ClockState P) :=
  match s.curenv with
  | none => some s
  | some env => do
    let memory ← s.memory.updatePageStamps env (s.memory.envs env).pageWSMaxSize 0
    some (updateTableStamps env (s.ptrTws env).length 0 { s with memory := memory })

end ClockState

/-! ## What a tick finds -/

/-- A slot from `i` on and before `k` holds the page of `va`. -/
def Env.heldBetween (e : Env) (i k va : ℕ) : Bool :=
  (List.range' i (k - i)).any fun j => (e.slot j).any fun w => w / pageSize = va / pageSize

/-- The page in slot `k` is found used by a loop that starts at slot `i` : its used bit is set, and
no slot before has it cleared. -/
def UserMemory.foundUsed {P : Type} (s : UserMemory P) (env i k : ℕ) : Bool :=
  match (s.envs env).slot k with
  | none => false
  | some va =>
    UserMemory.isUsed (s.ptGetPagePermissions env va) && !(s.envs env).heldBetween i k va

/-- The state, and for each slot when its page was found used or placed, the last tick first. -/
structure AgingLedger (P : Type) where
  state : ClockState P
  history : ℕ → ℕ → List Bool

/-- What happens to working sets between page faults. -/
inductive AgingEvent (P : Type) where
  | setEntry (env entryIndex va : ℕ)
  | clearEntry (env entryIndex : ℕ)
  | tick
  /-- Anything that leaves the page working sets alone. -/
  | other (s : ClockState P)

namespace AgingLedger

variable {P : Type} (L : UserLayout) (a : AgingLedger P)

/-- One event. -/
def step (a : AgingLedger P) : AgingEvent P → Option (AgingLedger P)
  | .setEntry env entryIndex va =>
    ((a.state.memory.envs env).pageWsSetEntry L.userTop entryIndex va).map fun e =>
      { state := { a.state with memory := a.state.memory.setEnv env e }
        history := Function.update a.history env
          (Function.update (a.history env) entryIndex [true]) }
  | .clearEntry env entryIndex =>
    ((a.state.memory.envs env).pageWsClearEntry entryIndex).map fun e =>
      { state := { a.state with memory := a.state.memory.setEnv env e }
        history := Function.update a.history env (Function.update (a.history env) entryIndex []) }
  | .tick =>
    a.state.updateWSTimeStamps.map fun s =>
      { state := s
        history :=
          match a.state.curenv with
          | none => a.history
          | some env => Function.update a.history env fun k =>
              a.state.memory.foundUsed env 0 k :: a.history env k }
  | .other s =>
    some
      { state := { s with memory := { s.memory with envs := a.state.memory.envs } }
        history := a.history }

/-- A run of events. -/
def run (a : AgingLedger P) (events : List (AgingEvent P)) : Option (AgingLedger P) :=
  events.foldlM (step L) a

end AgingLedger

/-! ## One slot -/

/-- A stamp a tick later. -/
def age (timeStamp : BitVec 32) (used : Bool) : BitVec 32 :=
  if used then (timeStamp >>> 2) ||| 0x80000000#32 else timeStamp >>> 2

namespace UserMemory

variable {P : Type} {s s' s'' : UserMemory P} {env i k n va : ℕ} {x : WorkingSetElement}

/-- From `s` to `s'` the slots from `i` to `n` were looked at. -/
structure Ticks (env i n : ℕ) (s s' : UserMemory P) : Prop where
  other : ∀ env' ≠ env, s'.envs env' = s.envs env'
  slots : ∀ k, (s'.envs env).ptrPageWorkingSet[k]? =
    (s.envs env).ptrPageWorkingSet[k]?.map fun x =>
      if (i ≤ k ∧ k < n) ∧ x.empty = false
      then { x with timeStamp := age x.timeStamp (s.foundUsed env i k) } else x
  entry : ∀ env' va, s'.userEntry env' va =
    if env' = env ∧ (s.envs env).heldBetween i n va
    then s.userEntry env' va &&& ~~~permUsed else s.userEntry env' va

theorem slot_of_some (h : (s.envs env).ptrPageWorkingSet[i]? = some x) :
    (s.envs env).slot i = if x.empty then none else some x.virtualAddress := by
  rw [Env.slot, h]
  rfl

theorem heldBetween_iff {e : Env} :
    e.heldBetween i n va ↔
      ∃ k w, (i ≤ k ∧ k < n) ∧ e.slot k = some w ∧ w / pageSize = va / pageSize := by
  unfold Env.heldBetween
  simp only [List.any_eq_true, List.mem_range'_1, Option.any_eq_true, decide_eq_true_eq]
  constructor
  · rintro ⟨k, hk, w, hw, heq⟩
    exact ⟨k, w, by omega, hw, heq⟩
  · rintro ⟨k, w, hk, hw, heq⟩
    exact ⟨k, by omega, w, hw, heq⟩

/-- The first slot of a loop is found used when its used bit is set. -/
theorem foundUsed_self (h : (s.envs env).ptrPageWorkingSet[i]? = some x)
    (hx : x.empty = false) :
    s.foundUsed env i i = isUsed (s.ptGetPagePermissions env x.virtualAddress) := by
  rw [foundUsed, slot_of_some h, hx]
  simp [Env.heldBetween]

theorem and_not_permUsed {e : Entry} (h : e &&& permUsed = 0#32) : e &&& ~~~permUsed = e := by
  have hsplit : e = (e &&& permUsed) ||| (e &&& ~~~permUsed) := by
    rw [← BitVec.and_or_distrib_left, BitVec.or_not_self, BitVec.and_allOnes]
  rw [h, BitVec.zero_or] at hsplit
  exact hsplit.symm

/-- An empty slot, or none, is passed. -/
theorem ticks_of_slot_none (h : (s.envs env).slot i = none) : Ticks env i (i + 1) s s := by
  refine ⟨fun _ _ => rfl, fun k => ?_, fun env' va => ?_⟩
  · cases hk : (s.envs env).ptrPageWorkingSet[k]? with
    | none => rfl
    | some x =>
      rw [Option.map_some, if_neg]
      rintro ⟨hrange, hx⟩
      obtain rfl : k = i := by omega
      rw [slot_of_some hk, hx] at h
      cases h
  · rw [if_neg]
    rintro ⟨-, hheld⟩
    obtain ⟨k, w, hrange, hw, -⟩ := heldBetween_iff.1 hheld
    obtain rfl : k = i := by omega
    rw [h] at hw
    cases hw

theorem userEntry_setTimeStamp (timeStamp : BitVec 32) (env' : ℕ) :
    (s.setTimeStamp env i timeStamp).userEntry env' va = s.userEntry env' va :=
  rfl

/-- The slots after a stamp is written to an occupied one. -/
theorem slots_setTimeStamp (hi : (s.envs env).ptrPageWorkingSet[i]? = some x)
    (hx : x.empty = false) {timeStamp : BitVec 32}
    (hage : timeStamp = age x.timeStamp (s.foundUsed env i i)) (k : ℕ) :
    ((s.setTimeStamp env i timeStamp).envs env).ptrPageWorkingSet[k]? =
      (s.envs env).ptrPageWorkingSet[k]?.map fun x =>
        if (i ≤ k ∧ k < i + 1) ∧ x.empty = false
        then { x with timeStamp := age x.timeStamp (s.foundUsed env i k) } else x := by
  simp only [setTimeStamp, setEnv, Function.update_self, List.getElem?_modify]
  by_cases hki : i = k
  · subst hki
    simp only [hi, Option.map_eq_map, Option.map_some, if_true, hx, hage]
    simp
  · simp only [hki, if_false]
    cases (s.envs env).ptrPageWorkingSet[k]? with
    | none => rfl
    | some y =>
      have hout : ¬ ((i ≤ k ∧ k < i + 1) ∧ y.empty = false) := fun h => hki (by omega)
      rw [Option.map_some, if_neg hout]
      rfl

theorem updatePageStamp_of_empty (h : (s.envs env).slot i = none) :
    updatePageStamp env i s = some s := by
  unfold updatePageStamp
  cases hi : (s.envs env).ptrPageWorkingSet[i]? with
  | none => rfl
  | some x =>
    cases hx : x.empty with
    | true => exact if_pos hx
    | false =>
      rw [slot_of_some hi, hx] at h
      cases h

theorem updatePageStamp_of_occupied (hi : (s.envs env).ptrPageWorkingSet[i]? = some x)
    (hx : x.empty = false) :
    updatePageStamp env i s =
      if isUsed (s.ptGetPagePermissions env x.virtualAddress) then
        (s.setTimeStamp env i ((x.timeStamp >>> 2) ||| 0x80000000#32)).ptSetPagePermissions env
          x.virtualAddress 0#32 permUsed
      else some (s.setTimeStamp env i (x.timeStamp >>> 2)) := by
  unfold updatePageStamp
  rw [hi]
  exact if_neg (hx ▸ Bool.false_ne_true)

/-- A page with its used bit set has a page table. -/
theorem exists_pageTable (h : isUsed (s.ptGetPagePermissions env va) = true) :
    ∃ t, s.getPageTable env va = some t := by
  cases ht : s.getPageTable env va with
  | some t => exact ⟨t, rfl⟩
  | none =>
    have hused := isUsed_ptGetPagePermissions.1 h
    rw [userEntry_of_none ht] at hused
    exact absurd BitVec.zero_and hused

/-- An occupied slot holds one page. -/
theorem heldBetween_one {e : Env} {w : ℕ} (hslot : e.slot i = some w) :
    e.heldBetween i (i + 1) va ↔ va / pageSize = w / pageSize := by
  refine heldBetween_iff.trans ⟨?_, fun heq => ?_⟩
  · rintro ⟨k, w', hrange, hw, heq⟩
    obtain rfl : k = i := by omega
    exact (Option.some.inj (hslot.symm.trans hw) ▸ heq).symm
  · exact ⟨i, w, ⟨le_rfl, Nat.lt_succ_self i⟩, hslot, heq.symm⟩

theorem envs_setTimeStamp (s : UserMemory P) (i : ℕ) (timeStamp : BitVec 32) {env' : ℕ}
    (hne : env' ≠ env) : (s.setTimeStamp env i timeStamp).envs env' = s.envs env' :=
  Function.update_of_ne hne _ _

/-- The stamp of a page without its used bit. -/
theorem ticks_of_unused (hi : (s.envs env).ptrPageWorkingSet[i]? = some x)
    (hx : x.empty = false)
    (hused : isUsed (s.ptGetPagePermissions env x.virtualAddress) = false) :
    Ticks env i (i + 1) s (s.setTimeStamp env i (x.timeStamp >>> 2)) := by
  have hclear : s.userEntry env x.virtualAddress &&& permUsed = 0#32 := by
    by_contra hne
    rw [isUsed_ptGetPagePermissions.2 hne] at hused
    cases hused
  refine ⟨fun _ => envs_setTimeStamp s i _, slots_setTimeStamp hi hx ?_, fun env' va => ?_⟩
  · rw [foundUsed_self hi hx, hused]
    rfl
  · rw [userEntry_setTimeStamp]
    split_ifs with hat
    · obtain ⟨rfl, hheld⟩ := hat
      have hpage := (heldBetween_one (Env.slot_eq_some.2 ⟨x, hi, hx, rfl⟩)).1 hheld
      rw [userEntry_of_div_eq hpage, and_not_permUsed hclear]
    · rfl

/-- The stamp of a page with its used bit, which is cleared. -/
theorem ticks_of_used (hi : (s.envs env).ptrPageWorkingSet[i]? = some x) (hx : x.empty = false)
    (hused : isUsed (s.ptGetPagePermissions env x.virtualAddress) = true)
    (hs' : (s.setTimeStamp env i ((x.timeStamp >>> 2) ||| 0x80000000#32)).ptSetPagePermissions env
      x.virtualAddress 0#32 permUsed = some s') :
    Ticks env i (i + 1) s s' := by
  have hpage : ∀ {va}, (s.envs env).heldBetween i (i + 1) va ↔
      va / pageSize = x.virtualAddress / pageSize :=
    heldBetween_one (Env.slot_eq_some.2 ⟨x, hi, hx, rfl⟩)
  obtain ⟨hkeeps, hentry, -⟩ := clearUsed_spec hs'
  refine ⟨fun env' hne => ?_, ?_, fun env' va => ?_⟩
  · rw [hkeeps.envs, envs_setTimeStamp s i _ hne]
  · rw [hkeeps.envs]
    refine slots_setTimeStamp hi hx ?_
    rw [foundUsed_self hi hx, hused]
    rfl
  · rw [hentry, userEntry_setTimeStamp, userEntry_setTimeStamp]
    split_ifs with hat hat' hat'
    · obtain ⟨rfl, heq⟩ := hat
      rw [userEntry_of_div_eq heq]
    · exact absurd ⟨hat.1, hpage.2 hat.2⟩ hat'
    · exact absurd ⟨hat'.1, hpage.1 hat'.2⟩ hat
    · rfl

/-- The body of the loop looks at one slot. -/
theorem updatePageStamp_spec (s : UserMemory P) (env i : ℕ) :
    ∃ s', updatePageStamp env i s = some s' ∧ Ticks env i (i + 1) s s' := by
  cases hslot : (s.envs env).slot i with
  | none => exact ⟨s, updatePageStamp_of_empty hslot, ticks_of_slot_none hslot⟩
  | some va =>
    obtain ⟨x, hi, hx, rfl⟩ := Env.slot_eq_some.1 hslot
    rw [updatePageStamp_of_occupied hi hx]
    cases hused : isUsed (s.ptGetPagePermissions env x.virtualAddress) with
    | false => exact ⟨_, rfl, ticks_of_unused hi hx hused⟩
    | true =>
      obtain ⟨t, ht⟩ := exists_pageTable hused
      obtain ⟨s', hs'⟩ : ∃ s', ptSetPagePermissions
          (s.setTimeStamp env i ((x.timeStamp >>> 2) ||| 0x80000000#32)) env x.virtualAddress 0#32
          permUsed = some s' := ⟨_, congrArg (Option.map _) ht⟩
      exact ⟨s', by rw [if_pos rfl, hs'], ticks_of_used hi hx hused hs'⟩

/-! ## The loop -/

namespace Ticks

theorem slot_eq (h : Ticks env i n s s') (k : ℕ) :
    (s'.envs env).slot k = (s.envs env).slot k := by
  rw [Env.slot, Env.slot, h.slots, Option.bind_map]
  refine congrArg _ (funext fun x => ?_)
  dsimp only [Function.comp]
  split_ifs <;> rfl

theorem heldBetween_eq (h : Ticks env i n s s') (j m va : ℕ) :
    (s'.envs env).heldBetween j m va = (s.envs env).heldBetween j m va := by
  simp only [Env.heldBetween, h.slot_eq]

end Ticks

theorem heldBetween_succ {e : Env} (h : i < k) :
    e.heldBetween i k va = (e.heldBetween i (i + 1) va || e.heldBetween (i + 1) k va) := by
  have hlen : k - i = k - (i + 1) + 1 := by omega
  have hone : i + 1 - i = 1 := by omega
  unfold Env.heldBetween
  rw [hlen, hone, List.range'_succ, List.any_cons, List.range'_one, List.any_cons, List.any_nil,
    Bool.or_false]

/-- What the rest of a loop finds after its first slot is what it would have found. -/
theorem Ticks.foundUsed_eq (h : Ticks env i (i + 1) s s') (hik : i < k) :
    s'.foundUsed env (i + 1) k = s.foundUsed env i k := by
  unfold foundUsed
  rw [h.slot_eq]
  cases (s.envs env).slot k with
  | none => rfl
  | some va =>
    dsimp only
    rw [h.heldBetween_eq, heldBetween_succ hik]
    cases hheld : (s.envs env).heldBetween i (i + 1) va with
    | true =>
      have hnot : isUsed (s'.ptGetPagePermissions env va) = false := by
        rw [← Bool.not_eq_true, isUsed_ptGetPagePermissions, not_not, h.entry,
          if_pos ⟨rfl, hheld⟩, BitVec.and_assoc]
        exact (congrArg _ (by decide : ~~~permUsed &&& permUsed = 0#32)).trans BitVec.and_zero
      rw [hnot]
      simp
    | false =>
      have hsame : s'.ptGetPagePermissions env va = s.ptGetPagePermissions env va := by
        rw [ptGetPagePermissions, h.entry, if_neg (by simp [hheld])]
        rfl
      rw [hsame, Bool.false_or]

/-- A slot and then the rest. -/
theorem Ticks.trans (h : Ticks env i (i + 1) s s') (h' : Ticks env (i + 1) n s' s'')
    (hin : i < n) : Ticks env i n s s'' := by
  refine ⟨fun env' hne => (h'.other env' hne).trans (h.other env' hne), fun k => ?_,
    fun env' va => ?_⟩
  · rw [h'.slots, h.slots, Option.map_map]
    refine congrArg (Option.map · _) (funext fun x => ?_)
    dsimp only [Function.comp]
    rcases lt_trichotomy k i with hlt | rfl | hgt
    · rw [if_neg (by omega), if_neg (by omega), if_neg (by omega)]
    · rw [if_neg fun hrange => absurd hrange.1.1 (by omega)]
      exact if_congr (and_congr_left fun _ => by omega) rfl rfl
    · have hrange : ((i + 1 ≤ k ∧ k < n) ∧ x.empty = false) ↔
          ((i ≤ k ∧ k < n) ∧ x.empty = false) := and_congr_left fun _ => by omega
      have hone : ¬ ((i ≤ k ∧ k < i + 1) ∧ x.empty = false) := fun hone =>
        absurd hone.1.2 (by omega)
      simp only [if_neg hone, h.foundUsed_eq hgt, hrange]
  · rw [h'.entry, h.entry, h.heldBetween_eq, heldBetween_succ hin]
    by_cases henv : env' = env
    · by_cases hfirst : (s.envs env).heldBetween i (i + 1) va = true <;>
        by_cases hrest : (s.envs env).heldBetween (i + 1) n va = true <;>
        simp [henv, hfirst, hrest, BitVec.and_assoc]
    · simp [henv]

theorem ticks_self (s : UserMemory P) (env i : ℕ) : Ticks env i i s s := by
  refine ⟨fun _ _ => rfl, fun k => ?_, fun env' va => ?_⟩
  · cases (s.envs env).ptrPageWorkingSet[k]? with
    | none => rfl
    | some x => rw [Option.map_some, if_neg (by omega)]
  · have hnone : (s.envs env).heldBetween i i va = false := by simp [Env.heldBetween]
    simp [hnone]

/-- The loop looks at its slots, and never panics. -/
theorem updatePageStamps_spec (env trips i : ℕ) (s : UserMemory P) :
    ∃ s', updatePageStamps env trips i s = some s' ∧ Ticks env i (i + trips) s s' := by
  induction trips generalizing i s with
  | zero => exact ⟨s, rfl, ticks_self s env i⟩
  | succ trips ih =>
    obtain ⟨s', hs', hslot⟩ := updatePageStamp_spec s env i
    obtain ⟨s'', hs'', hrest⟩ := ih (i + 1) s'
    refine ⟨s'', ?_, ?_⟩
    · rw [updatePageStamps, hs', Option.bind_some, hs'']
    · rw [Nat.add_right_comm] at hrest
      exact hslot.trans hrest (by omega)

end UserMemory

/-! ## A tick -/

namespace ClockState

variable {P : Type} {s : ClockState P} {env : ℕ}

theorem memory_updateTableStamp (s : ClockState P) (t : ℕ) :
    (updateTableStamp env t s).memory = s.memory := by
  unfold updateTableStamp
  split
  · rfl
  · dsimp only
    split_ifs <;> rfl

theorem memory_updateTableStamps (trips t : ℕ) (s : ClockState P) :
    (updateTableStamps env trips t s).memory = s.memory := by
  induction trips generalizing t s with
  | zero => rfl
  | succ trips ih => rw [updateTableStamps, ih, memory_updateTableStamp]

/-- A tick never panics : it looks at every slot of the current environment, if there is one. -/
theorem updateWSTimeStamps_spec (s : ClockState P) :
    ∃ s', s.updateWSTimeStamps = some s' ∧
      match s.curenv with
      | none => s' = s
      | some env =>
        UserMemory.Ticks env 0 (s.memory.envs env).pageWSMaxSize s.memory s'.memory := by
  unfold updateWSTimeStamps
  cases s.curenv with
  | none => exact ⟨s, rfl, rfl⟩
  | some env =>
    obtain ⟨memory, hmemory, hticks⟩ :=
      UserMemory.updatePageStamps_spec env (s.memory.envs env).pageWSMaxSize 0 s.memory
    rw [Nat.zero_add] at hticks
    dsimp only
    rw [hmemory]
    refine ⟨_, rfl, ?_⟩
    rwa [memory_updateTableStamps]

/-- The page of `va` is in the working set of the current environment `env`. -/
def Resident (s : ClockState P) (env va : ℕ) : Prop :=
  s.curenv = some env ∧
    ∃ i w, (s.memory.envs env).slot i = some w ∧ w / pageSize = va / pageSize

/-- A tick clears the used bits of the resident pages, and no other bit of an entry. -/
theorem exists_tick (s : ClockState P) :
    ∃ s', s.updateWSTimeStamps = some s' ∧ ∀ env va,
      (s.Resident env va →
        s'.memory.userEntry env va = s.memory.userEntry env va &&& ~~~permUsed) ∧
      (¬ s.Resident env va → s'.memory.userEntry env va = s.memory.userEntry env va) := by
  obtain ⟨s', hs', hspec⟩ := s.updateWSTimeStamps_spec
  refine ⟨s', hs', fun env va => ?_⟩
  cases hcur : s.curenv with
  | none =>
    rw [hcur] at hspec
    refine ⟨fun h => ?_, fun _ => by rw [hspec]⟩
    rw [Resident, hcur] at h
    cases h.1
  | some env₀ =>
    rw [hcur] at hspec
    have hresident : s.Resident env va ↔ env = env₀ ∧
        (s.memory.envs env₀).heldBetween 0 (s.memory.envs env₀).pageWSMaxSize va := by
      rw [UserMemory.heldBetween_iff, Resident, hcur]
      constructor
      · rintro ⟨henv, i, w, hw, heq⟩
        obtain rfl := Option.some.inj henv
        obtain ⟨x, hx, -⟩ := Env.slot_eq_some.1 hw
        obtain ⟨hi, -⟩ := List.getElem?_eq_some_iff.1 hx
        exact ⟨rfl, i, w, ⟨Nat.zero_le i, hi⟩, hw, heq⟩
      · rintro ⟨rfl, i, w, -, hw, heq⟩
        exact ⟨rfl, i, w, hw, heq⟩
    have hentry := hspec.entry env va
    exact ⟨fun h => by rw [hentry, if_pos (hresident.1 h)],
      fun h => by rw [hentry, if_neg (mt hresident.2 h)]⟩

end ClockState

/-! ## Stamps and histories -/

open RecentHistory

/-- An older stamp is a fourth, and the digit of the tick is in front. -/
theorem toNat_age (timeStamp : BitVec 32) (used : Bool) :
    (age timeStamp used).toNat = digit 2 used * 4 ^ 15 + timeStamp.toNat / 4 := by
  have hshift : (timeStamp >>> 2).toNat = timeStamp.toNat / 4 := by
    rw [BitVec.toNat_ushiftRight, Nat.shiftRight_eq_div_pow]
  unfold age
  cases used with
  | false =>
    rw [if_neg Bool.false_ne_true, hshift, digit_false, Nat.zero_mul, Nat.zero_add]
  | true =>
    have hlt := timeStamp.isLt
    have hor := Nat.two_pow_add_eq_or_of_lt (i := 31) (b := timeStamp.toNat / 4) (by omega) 1
    rw [if_pos rfl, BitVec.toNat_or, hshift, Nat.or_comm, digit_true]
    exact hor.symm

namespace AgingLedger

variable {P : Type} {L : UserLayout} {a a' : AgingLedger P}

/-- Each stamp of an occupied slot is the number of its history. -/
def Ages (a : AgingLedger P) : Prop :=
  ∀ env i x, (a.state.memory.envs env).ptrPageWorkingSet[i]? = some x → x.empty = false →
    x.timeStamp.toNat = weigh 4 2 (recent 16 (a.history env i))

theorem Ages.tick (h : a.Ages) (hstep : a.step L .tick = some a') : a'.Ages := by
  obtain ⟨s', hs', hspec⟩ := a.state.updateWSTimeStamps_spec
  unfold step at hstep
  rw [hs', Option.map_some] at hstep
  obtain rfl := Option.some.inj hstep
  intro env i x hx hempty
  cases hcur : a.state.curenv with
  | none =>
    rw [hcur] at hspec
    obtain rfl := hspec
    exact h env i x hx hempty
  | some env₀ =>
    rw [hcur] at hspec
    dsimp only at hspec hx ⊢
    by_cases henv : env = env₀
    · subst henv
      rw [hspec.slots, Option.map_eq_some_iff] at hx
      obtain ⟨y, hy, hxy⟩ := hx
      obtain ⟨hi, -⟩ := List.getElem?_eq_some_iff.1 hy
      have hyempty : y.empty = false := by
        subst hxy
        revert hempty
        split_ifs with hin
        · exact fun _ => hin.2
        · exact id
      rw [if_pos ⟨⟨Nat.zero_le i, hi⟩, hyempty⟩] at hxy
      rw [← hxy, Function.update_self, weigh_recent_cons (by decide), ← h env i y hy hyempty]
      exact toNat_age _ _
    · rw [Function.update_of_ne henv]
      rw [hspec.other env henv] at hx
      exact h env i x hx hempty

/-- A slot is written, and its history starts again. -/
theorem Ages.set (h : a.Ages) {env i : ℕ} {x : WorkingSetElement} {l : List Bool} {e : Env}
    (he : e.ptrPageWorkingSet = (a.state.memory.envs env).ptrPageWorkingSet.set i x)
    (hx : x.empty = false → x.timeStamp.toNat = weigh 4 2 (recent 16 l)) :
    Ages { state := { a.state with memory := a.state.memory.setEnv env e }
           history := Function.update a.history env (Function.update (a.history env) i l) } := by
  intro env' k y hy hempty
  dsimp only [UserMemory.setEnv] at hy ⊢
  by_cases henv : env' = env
  · subst henv
    rw [Function.update_self] at hy ⊢
    rw [he] at hy
    by_cases hk : k = i
    · subst hk
      rw [Function.update_self]
      rw [List.getElem?_set_self'] at hy
      obtain ⟨_, -, rfl⟩ := Option.map_eq_some_iff.1 hy
      exact hx hempty
    · rw [Function.update_of_ne hk]
      rw [List.getElem?_set_ne (Ne.symm hk)] at hy
      exact h env' k y hy hempty
  · rw [Function.update_of_ne henv] at hy ⊢
    exact h env' k y hy hempty

/-- A page that is placed occupies its slot, and no other slot changes. -/
theorem slot_setEntry {env i va : ℕ} (hstep : a.step L (.setEntry env i va) = some a') (k : ℕ) :
    (a'.state.memory.envs env).slot k =
      if k = i then some (roundDown va pageSize) else (a.state.memory.envs env).slot k := by
  obtain ⟨e, he, rfl⟩ := Option.map_eq_some_iff.1 hstep
  obtain ⟨⟨hlt, -⟩, rfl⟩ := Env.pageWsSetEntry_eq_some.1 he
  dsimp only [UserMemory.setEnv]
  rw [Function.update_self, Env.slot_set hlt]
  rfl

theorem Ages.step (h : a.Ages) {ev : AgingEvent P} (hstep : a.step L ev = some a') : a'.Ages := by
  cases ev with
  | setEntry env i va =>
    obtain ⟨e, he, rfl⟩ := Option.map_eq_some_iff.1 hstep
    obtain ⟨-, rfl⟩ := Env.pageWsSetEntry_eq_some.1 he
    have hplaced : (0x80000000#32).toNat = weigh 4 2 (recent 16 [true]) := by decide
    exact h.set rfl fun _ => hplaced
  | clearEntry env i =>
    obtain ⟨e, he, rfl⟩ := Option.map_eq_some_iff.1 hstep
    obtain ⟨-, rfl⟩ := Env.pageWsClearEntry_eq_some.1 he
    exact h.set rfl fun hempty => absurd hempty.symm Bool.false_ne_true
  | tick => exact h.tick hstep
  | other s =>
    obtain rfl := Option.some.inj hstep
    exact h

theorem Ages.run (h : a.Ages) {events : List (AgingEvent P)} (hrun : a.run L events = some a') :
    a'.Ages := by
  induction events generalizing a with
  | nil =>
    obtain rfl := Option.some.inj hrun
    exact h
  | cons ev events ih =>
    rw [AgingLedger.run, List.foldlM_cons] at hrun
    obtain ⟨b, hb, hrest⟩ := Option.bind_eq_some_iff.1 hrun
    exact ih (h.step hb) hrest

/-- The stamps are the histories, and a tick changes used bits of the working set only. -/
structure StampsRight (a : AgingLedger P) : Prop where
  bit : ∀ (env i : ℕ) (x : WorkingSetElement),
    (a.state.memory.envs env).ptrPageWorkingSet[i]? = some x → x.empty = false →
      ∀ j < 16, x.timeStamp.getLsbD (31 - 2 * j) = (a.history env i).getD j false
  other_bits : ∀ (env i : ℕ) (x : WorkingSetElement),
    (a.state.memory.envs env).ptrPageWorkingSet[i]? = some x → x.empty = false →
      ∀ j < 16, x.timeStamp.getLsbD (30 - 2 * j) = false
  lt_iff : ∀ (env i : ℕ) (x : WorkingSetElement),
    (a.state.memory.envs env).ptrPageWorkingSet[i]? = some x → x.empty = false →
      ∀ (env' i' : ℕ) (x' : WorkingSetElement),
        (a.state.memory.envs env').ptrPageWorkingSet[i']? = some x' → x'.empty = false →
          (x.timeStamp < x'.timeStamp ↔
            recent 16 (a.history env i) < recent 16 (a.history env' i'))
  tick : ∃ s', a.state.updateWSTimeStamps = some s' ∧ ∀ env va,
    (a.state.Resident env va →
      s'.memory.userEntry env va = a.state.memory.userEntry env va &&& ~~~permUsed) ∧
    (¬ a.state.Resident env va →
      s'.memory.userEntry env va = a.state.memory.userEntry env va)

theorem Ages.stampsRight (h : a.Ages) : a.StampsRight where
  bit := by
    intro env i x hx hempty j hj
    have hbit := testBit_weigh (l := recent 16 (a.history env i)) (by rwa [length_recent])
    rw [length_recent, ← h env i x hx hempty, getD_recent hj] at hbit
    rw [← hbit, show 31 - 2 * j = 2 * (16 - 1 - j) + 1 by omega]
    rfl
  other_bits := by
    intro env i x hx hempty j hj
    have hbit := testBit_weigh_even (recent 16 (a.history env i)) (15 - j)
    rw [← h env i x hx hempty] at hbit
    rw [← hbit, show 30 - 2 * j = 2 * (15 - j) by omega]
    rfl
  lt_iff := by
    intro env i x hx hempty env' i' x' hx' hempty'
    rw [BitVec.lt_def, h env i x hx hempty, h env' i' x' hx' hempty']
    exact weigh_lt_weigh_iff (by decide) (by decide) (by rw [length_recent, length_recent])
  tick := a.state.exists_tick

end AgingLedger

/-- One environment with two empty slots, whose pages are all used. -/
def twoSlots : ClockState Unit where
  memory :=
    { heap :=
        { KernelHeap.smallHeap with
          memory :=
            { framesInfo := fun _ => initializeFrameInfo
              freeFrameList := []
              directories := fun _ _ => some ⟨0, fun _ => permUsed⟩ } }
      envs := fun _ => ⟨[.cleared, .cleared], 0⟩
      pageFile := ()
      bytes := fun _ _ => 0#8
      pageRepAlgoType := .lru
      lastClockIndex := 0 }
  ptrTws _ := [⟨0, false, 0#32⟩]
  directory _ _ := permPresent ||| permUsed
  curenv := some 0

/-- User memory above the heap of `KernelHeap.smallLayout`. -/
def twoSlotsLayout : UserLayout where
  toKernelHeapLayout := KernelHeap.smallLayout
  userTop := 0xEF800000
  ustackBottom := 0xEEBFA000
  ustackTop := 0xEEBFE000
  userTop_lt := userTop_lt_fos

end FosKernel
