import FosKernel.WorkingSetInvariant

/-!
# The hand of Modified Clock

`lastClockIndex` is left by one environment where another finds it. `page_WS_max_size` is
each environment's own, so the hand may be above it, and then the loop of `modifiedClock`
does not return. `modifiedClock_terminates_iff` : in a state reached by any run the loop
returns on a full working set exactly when the hand is not above its size.
-/

namespace FosKernel

namespace UserMemory

variable {P : Type} {L : UserLayout} {pf : PageFile P} {s : UserMemory P} {env va : Nat}

/-- The slots of a full working set hold resident pages, which have page tables. -/
theorem WorkingSetOk.tables (hok : WorkingSetOk L s env) (hfull : (s.envs env).Full) :
    ∀ x ∈ (s.envs env).ptrPageWorkingSet, (s.getPageTable env x.virtualAddress).isSome := by
  intro x hx
  obtain ⟨i, hi⟩ := List.mem_iff_getElem?.1 hx
  have hslot : (s.envs env).slot i = some x.virtualAddress :=
    Env.slot_eq_some.2 ⟨x, hi, hfull x hx, rfl⟩
  exact isSome_getPageTable_of_mapped ((hok.tracks.mem_iff _).2 ⟨i, hslot⟩).2.2

/-- A page fault is at a page that is not resident. -/
def NonResident (s : UserMemory P) : Call → Prop
  | .fault env faultVa _ => ¬ s.Mapped env faultVa
  | _ => True

instance : (c : Call) → Decidable (NonResident s c)
  | .fault env faultVa _ => inferInstanceAs (Decidable (¬ s.Mapped env faultVa))
  | .allocateMem _ _ _ _ | .freeMem _ _ _ | .access _ _ _ => inferInstanceAs (Decidable True)

theorem NonResident.admissible {c : Call} (h : NonResident s c) (env : Nat) :
    Admissible env s c := by
  cases c with
  | fault env' faultVa unset => exact fun henv => henv ▸ h
  | _ => trivial

/-- In every state reached by page faults of any environments, with their accesses and
system calls in between, the loop of `modifiedClock` returns a slot of a full working set
exactly when the hand is not above the size of that working set. -/
theorem modifiedClock_terminates_iff {s₀ : UserMemory P} {calls : List Call}
    (hs : s₀.NoBuffering) (halgo : s₀.pageRepAlgoType = .modifiedClock)
    (hok : ∀ env, WorkingSetOk L s₀ env) (hpos : ∀ env, 0 < (s₀.envs env).pageWSMaxSize)
    (hcalls : Machine.Meets (step L pf) NonResident s₀ calls)
    (hrun : Machine.run (step L pf) s₀ calls = some s) (env : Nat)
    (hfull : (s.envs env).Full) :
    (∃ fuel v s', modifiedClockLoop env fuel s = some (v, s') ∧
        v < (s.envs env).pageWSMaxSize) ↔
      s.lastClockIndex ≤ (s.envs env).pageWSMaxSize := by
  obtain ⟨hrunning, hok'⟩ := run_workingSetOk hs halgo (hok env)
    (hcalls.mono fun _ _ h => h.admissible env) hrun
  have hpos' : 0 < (s.envs env).pageWSMaxSize := by
    rw [hrunning.pageWSMaxSize]
    exact hpos env
  rw [← modifiedClock_returns_iff hpos' (hok'.tables hfull)]
  constructor
  · rintro ⟨fuel, v, s', h, -⟩
    exact ⟨v, s', modifiedClock_eq_some_iff.2 ⟨fuel, h⟩⟩
  · rintro ⟨v, s', h⟩
    obtain ⟨fuel, hfuel⟩ := modifiedClock_eq_some_iff.1 h
    exact ⟨fuel, v, s', hfuel, (modifiedClock_spec h).2⟩

/-- Environment 0 has three slots and the others one. -/
def threeAndOne (env : Nat) : Nat :=
  if env = 0 then 3 else 1

/-- Each of two environments faults, and the smaller one's slot is taken. -/
theorem threeAndOne_terminates : ∃ s, Machine.run (step smallUserLayout mapPageFile)
      (smallUserMemory threeAndOne) [.fault 1 0xEEBFD000 0, .fault 0 0xEEBFD000 0] = some s ∧
    (s.envs 1).Full ∧
    ∃ fuel v s', modifiedClockLoop 1 fuel s = some (v, s') ∧ v < (s.envs 1).pageWSMaxSize := by
  have hrun : (Machine.run (step smallUserLayout mapPageFile) (smallUserMemory threeAndOne)
      [.fault 1 0xEEBFD000 0, .fault 0 0xEEBFD000 0]).map
        (fun s => (s.envs 1, s.lastClockIndex)) =
      some (⟨[⟨0xEEBFD000, false, 0x80000000#32⟩], 0⟩, 1) := by decide +kernel
  obtain ⟨s, hs, h⟩ := Option.map_eq_some_iff.1 hrun
  obtain ⟨henv, hhand⟩ := Prod.mk.inj h
  have hpos : ∀ env, 0 < ((smallUserMemory threeAndOne).envs env).pageWSMaxSize := fun env => by
    simp only [smallUserMemory, Env.pageWSMaxSize, List.length_replicate, threeAndOne]
    split <;> decide
  have hfull : (s.envs 1).Full := by
    rw [henv]
    decide
  refine ⟨s, hs, hfull, (modifiedClock_terminates_iff (fun _ => rfl) rfl
    (smallUserMemory_ok threeAndOne) hpos (by decide +kernel) hs 1 hfull).2 ?_⟩
  rw [henv, hhand]
  decide

/-- The larger environment faults once more and leaves the hand at 2. The smaller one's
next page fault never returns. -/
theorem staleHand_never_returns : ∃ s, Machine.run (step smallUserLayout mapPageFile)
      (smallUserMemory threeAndOne)
      [.fault 1 0xEEBFD000 0, .fault 0 0xEEBFD000 0, .fault 0 0xEEBFC000 0] = some s ∧
    Machine.Meets (step smallUserLayout mapPageFile) NonResident (smallUserMemory threeAndOne)
      [.fault 1 0xEEBFD000 0, .fault 0 0xEEBFD000 0, .fault 0 0xEEBFC000 0] ∧
    (s.envs 1).Full ∧ (s.envs 1).pageWSMaxSize = 1 ∧ ¬ s.Mapped 1 0xEEBFC000 ∧
    ∀ fuel, modifiedClockLoop 1 fuel s = none := by
  have hrun : (Machine.run (step smallUserLayout mapPageFile) (smallUserMemory threeAndOne)
      [.fault 1 0xEEBFD000 0, .fault 0 0xEEBFD000 0, .fault 0 0xEEBFC000 0]).map
        (fun s => (s.envs 1, s.lastClockIndex, decide (s.Mapped 1 0xEEBFC000))) =
      some (⟨[⟨0xEEBFD000, false, 0x80000000#32⟩], 0⟩, 2, false) := by decide +kernel
  obtain ⟨s, hs, h⟩ := Option.map_eq_some_iff.1 hrun
  simp only [Prod.mk.injEq, decide_eq_false_iff_not] at h
  obtain ⟨henv, hhand, hmapped⟩ := h
  have hsize : (s.envs 1).pageWSMaxSize = 1 := by
    rw [henv]
    rfl
  refine ⟨s, hs, by decide +kernel, by rw [henv]; decide, hsize, hmapped,
    modifiedClockLoop_refused ?_⟩
  rw [hsize, hhand]
  decide

end UserMemory

end FosKernel
