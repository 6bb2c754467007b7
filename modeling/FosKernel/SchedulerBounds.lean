import FosKernel.Machine
import FosKernel.SchedulerSteps

/-!
# `indexToEnqueue` across reconfiguration

`indexToEnqueue` is set by a selection only, and not by one of the last level. With
two levels or more an environment runs, or waits above level 0, only after a selection
of level 0, which brought the index inside the array : `IndexOk` is that invariant, and
`step_indexOk` its step lemma.

With one level no selection touches the index : `sched_init_MLFQ` must then meet it at
0 (`Call.FindsIndex`). `index_in_bounds` is the bound along every run that does so from
the state `sched_init` leaves, and `overflows_of_stale_index` shows that nothing less
will do : a single level met by another index sends the second selection outside the
array.
-/

set_option linter.unusedSectionVars false

namespace FosKernel

namespace Sched

open Queues

variable {Env : Type*} [DecidableEq Env] {envId : Env → BitVec 32} {s s' t : Sched Env}

/-- `env_ready_queues[indexToEnqueue]` exists whenever it can be written. -/
structure IndexOk (s : Sched Env) : Prop where
  pos : 0 < s.numOfReadyQueues
  single : s.schedulerMethod = .mlfq → s.numOfReadyQueues = 1 → s.indexToEnqueue = 0
  inside : s.schedulerMethod = .mlfq →
    s.curenv ≠ none ∨ (∃ i ≥ 1, queueAt s.envReadyQueues i ≠ []) →
      s.indexToEnqueue < s.numOfReadyQueues

/-- No environment runs and none is ready. -/
def Idle (s : Sched Env) : Prop :=
  s.curenv = none ∧ s.envReadyQueues.flatten = []

instance : Decidable s.Idle :=
  inferInstanceAs (Decidable (_ ∧ _))

/-- A reconfiguration finds the scheduler idle and asks for a level at least. -/
def Call.Reconfigures (s : Sched Env) : Call Env → Prop
  | .initMLFQ n _ => s.Idle ∧ 0 < n
  | .initRR _ => s.Idle
  | _ => True

/-- A reconfiguration to one MLFQ level finds `indexToEnqueue` at 0. -/
def Call.FindsIndex (s : Sched Env) : Call Env → Prop
  | .initMLFQ n _ => n = 1 → s.indexToEnqueue = 0
  | _ => True

instance decidableReconfigures : (c : Call Env) → Decidable (c.Reconfigures s)
  | .initMLFQ n _ => inferInstanceAs (Decidable (s.Idle ∧ 0 < n))
  | .initRR _ => inferInstanceAs (Decidable s.Idle)
  | .insertNew _ | .insertReady _ | .removeReady _ | .runEnv _ | .exitEnv _ | .schedule
  | .depart => inferInstanceAs (Decidable True)

instance decidableFindsIndex : (c : Call Env) → Decidable (c.FindsIndex s)
  | .initMLFQ n _ => inferInstanceAs (Decidable (n = 1 → s.indexToEnqueue = 0))
  | .initRR _ | .insertNew _ | .insertReady _ | .removeReady _ | .runEnv _ | .exitEnv _
  | .schedule | .depart => inferInstanceAs (Decidable True)

namespace IndexOk

/-- What leaves the method and the index alone, and only empties what it empties, keeps
the bound. -/
theorem mono (h : IndexOk s) (hm : s'.schedulerMethod = s.schedulerMethod)
    (hi : s'.indexToEnqueue = s.indexToEnqueue) (hn : s'.numOfReadyQueues = s.numOfReadyQueues)
    (hcur : s'.curenv ≠ none → s.curenv ≠ none)
    (hq : ∀ i ≥ 1, queueAt s'.envReadyQueues i ≠ [] → queueAt s.envReadyQueues i ≠ []) :
    IndexOk s' := by
  refine ⟨hn ▸ h.pos, ?_, ?_⟩
  · rw [hm, hn, hi]
    exact h.single
  · rw [hm, hn, hi]
    rintro hmlfq (hc | ⟨i, hi1, hne⟩)
    · exact h.inside hmlfq (.inl (hcur hc))
    · exact h.inside hmlfq (.inr ⟨i, hi1, hq i hi1 hne⟩)

theorem schedInsertReady {env : Env} (h : IndexOk s) (hs : s.schedInsertReady env = some s') :
    IndexOk s' := by
  obtain ⟨hpos, rfl⟩ := schedInsertReady_eq_some hs
  refine h.mono rfl rfl length_push id fun i hi hne => ?_
  rwa [queueAt_push hpos, if_neg (by omega)] at hne

theorem removeReadyAt {env : Env} {i : ℕ} (h : IndexOk s) : IndexOk (s.removeReadyAt i env) := by
  refine h.mono rfl rfl length_drop id fun j _ hne hnil => hne ?_
  have hj : queueAt (drop i env s.envReadyQueues) j =
      if i = j ∧ j < s.envReadyQueues.length then (queueAt s.envReadyQueues j).erase env
      else queueAt s.envReadyQueues j := queueAt_modify _
  rw [Sched.removeReadyAt, hj, hnil]
  simp

theorem schedRemoveReady {env : Env} (h : IndexOk s) : IndexOk (s.schedRemoveReady envId env) := by
  unfold Sched.schedRemoveReady
  split
  · exact h.removeReadyAt.mono rfl rfl rfl id fun _ _ => id
  · exact h

theorem clearedNew {eid : BitVec 32} (h : IndexOk s) : IndexOk (s.clearedNew envId eid) := by
  have hfold : ∀ (envs : List Env) {s : Sched Env}, IndexOk s →
      IndexOk (envs.foldl (fun s env => s.schedRemoveNew env) s) := fun envs => by
    induction envs with
    | nil => exact fun h => h
    | cons env envs ih => exact fun h => ih (h.mono rfl rfl rfl id fun _ _ => id)
  exact hfold _ h

theorem insertedExit {iterator : Option Env} (h : IndexOk s) :
    IndexOk (s.insertedExit iterator) := by
  cases iterator with
  | none => exact h
  | some env => exact h.mono rfl rfl rfl id fun _ _ => id

/-- A selection leaves behind an index inside the array. -/
theorem fosScheduler (h : IndexOk s) (hs : s.fosScheduler = some s') : IndexOk s' := by
  obtain ⟨-, ⟨level, env, hl, -, rfl⟩ | ⟨hl, rfl⟩⟩ := fosScheduler_cases hs
  · have hnum : (s.runs (s.placedRow s.placeIndex) level env).numOfReadyQueues =
        s.numOfReadyQueues := length_pop.trans length_placedRow
    refine ⟨hnum ▸ h.pos, fun hm h1 => ?_, fun hm _ => ?_⟩
    all_goals
      replace hm : s.schedulerMethod = .mlfq := hm
      rw [hnum] at *
      simp only [levelOf, hm] at hl
      have hlevel : level < s.numOfReadyQueues := by
        simpa using lt_length_of_firstNonEmpty hl
      simp only [runs, indexAfter, hm, updateIndexToEnqueue]
    · rw [if_neg (by omega), h.single hm h1]
    · split
      · omega
      · -- the last level is selected and the index is kept : it was inside before
        by_cases h1 : s.numOfReadyQueues = 1
        · rw [h.single hm h1]
          exact h.pos
        · refine h.inside hm ?_
          by_cases hcur : s.curenv = none
          · rw [placedRow_none hcur] at hl
            exact .inr ⟨level, by omega, (firstNonEmpty_eq_some_iff.1 hl).1⟩
          · exact .inl hcur
  · have hnum : (s.idles (s.placedRow s.placeIndex)).numOfReadyQueues = s.numOfReadyQueues :=
      length_placedRow
    refine ⟨hnum ▸ h.pos, fun hm h1 => h.single hm (hnum ▸ h1), ?_⟩
    rintro hm (hc | ⟨i, -, hne⟩)
    · exact absurd rfl hc
    · replace hm : s.schedulerMethod = .mlfq := hm
      simp only [levelOf, hm] at hl
      exact absurd (firstNonEmpty_eq_none_iff.1 hl i) hne

theorem exitFound {eid : BitVec 32} {iterator : Option Env} (h : IndexOk s)
    (hs : s.exitFound envId eid iterator = some s') : IndexOk s' := by
  obtain ⟨cur, -, ⟨-, hs⟩ | ⟨-, rfl⟩⟩ := exitFound_cases hs
  · refine IndexOk.fosScheduler ?_ hs
    exact h.insertedExit.mono rfl rfl rfl (fun hc => absurd rfl hc) fun _ _ => id
  · exact h.insertedExit

theorem schedRunEnv {eid : BitVec 32} (h : IndexOk s) (hs : s.schedRunEnv envId eid = some s') :
    IndexOk s' := by
  obtain rfl | ⟨env, t, -, ht, hs⟩ := schedRunEnv_cases hs
  · exact h
  · have hremove : IndexOk (s.schedRemoveNew env) := h.mono rfl rfl rfl id fun _ _ => id
    have ht := hremove.schedInsertReady ht
    rcases hs with rfl | hs
    · exact ht
    · exact ht.fosScheduler hs

theorem schedExitEnv {eid : BitVec 32} (h : IndexOk s) (hs : s.schedExitEnv envId eid = some s') :
    IndexOk s' := by
  rcases schedExitEnv_cases hs with
    ⟨-, hs⟩ | ⟨-, ⟨i, env, -, hs⟩ | ⟨-, cur, -, ⟨-, hs⟩ | ⟨-, rfl⟩⟩⟩
  · exact h.clearedNew.exitFound hs
  · exact h.removeReadyAt.exitFound hs
  · exact h.exitFound hs
  · exact h

theorem schedInitMLFQ {n : ℕ} {q : ℕ → UInt8} (hidle : s.Idle) (hn : 0 < n)
    (h1 : n = 1 → s.indexToEnqueue = 0) : IndexOk (s.schedInitMLFQ n q) := by
  have hnil : ∀ i, queueAt (List.replicate n ([] : List Env)) i = [] := fun i => by
    by_cases hi : i < n <;> simp [queueAt, hi]
  have hnum : (s.schedInitMLFQ n q).numOfReadyQueues = n := List.length_replicate
  refine ⟨by rwa [hnum], fun _ h => h1 (by rwa [hnum] at h), ?_⟩
  rintro - (hc | ⟨i, -, hne⟩)
  · exact absurd hidle.1 hc
  · exact absurd (hnil i) hne

theorem schedInitRR (q : UInt8) : IndexOk (s.schedInitRR q) :=
  ⟨Nat.zero_lt_one, fun h => absurd h (by simp [Sched.schedInitRR]),
    fun h => absurd h (by simp [Sched.schedInitRR])⟩

end IndexOk

/-- Every call keeps the bound, a reconfiguration under its condition. -/
theorem step_indexOk {c : Call Env} (h : IndexOk s) (hc : c.Reconfigures s ∧ c.FindsIndex s)
    (hs : s.step envId c = some s') : IndexOk s' := by
  cases c with
  | initMLFQ n q =>
    obtain rfl := Option.some.inj hs
    exact .schedInitMLFQ hc.1.1 hc.1.2 hc.2
  | initRR q =>
    obtain rfl := Option.some.inj hs
    exact .schedInitRR q
  | insertNew env =>
    obtain rfl := Option.some.inj hs
    exact h.mono rfl rfl rfl id fun _ _ => id
  | insertReady env => exact h.schedInsertReady hs
  | removeReady env =>
    obtain rfl := Option.some.inj hs
    exact h.schedRemoveReady
  | runEnv eid => exact h.schedRunEnv hs
  | exitEnv eid => exact h.schedExitEnv hs
  | schedule => exact h.fosScheduler hs
  | depart =>
    obtain rfl := Option.some.inj hs
    exact h.mono rfl rfl rfl (fun hc => absurd rfl hc) fun _ _ => id

/-- Along every run from `sched_init` whose reconfigurations are made while idle, and to
a single MLFQ level only with `indexToEnqueue` at 0, the level `fos_scheduler_MLFQ`
would enqueue `curenv` in exists. -/
theorem index_in_bounds {clockInterval : UInt8} {calls : List (Call Env)}
    (hok : Machine.Meets (step envId) (fun s c => c.Reconfigures s ∧ c.FindsIndex s)
      (schedInit clockInterval) calls)
    (hrun : Machine.run (step envId) (schedInit clockInterval) calls = some s) :
    s.schedulerMethod = .mlfq → s.curenv ≠ none → s.indexToEnqueue < s.numOfReadyQueues := by
  have h : IndexOk s := Machine.run_induction_of_meets (P := IndexOk)
    (fun _ _ _ h hc hs => step_indexOk h hc hs) (.schedInitRR clockInterval) hok hrun
  exact fun hm hcur => h.inside hm (.inl hcur)

/-- An environment runs on one level, leaves, and runs again on three. -/
def oneThenThree : List (Call (Fin 1)) :=
  [.initMLFQ 1 fun _ => 10, .insertReady 0, .schedule, .depart,
    .initMLFQ 3 fun _ => 10, .insertReady 0, .schedule]

theorem oneThenThree_in_bounds :
    ∃ s : Sched (Fin 1), Machine.run (step fun _ => 7#32) (schedInit 10) oneThenThree = some s ∧
      s.curenv = some 0 ∧ s.indexToEnqueue < s.numOfReadyQueues := by
  have hrun : (Machine.run (step fun _ => 7#32) (schedInit 10) oneThenThree).map
      (fun s => (s.curenv, s.schedulerMethod)) = some (some 0, .mlfq) := by decide
  obtain ⟨s, hs, hobs⟩ := Option.map_eq_some_iff.1 hrun
  obtain ⟨hcur, hm⟩ := Prod.mk.inj hobs
  exact ⟨s, hs, hcur, index_in_bounds (by decide) hs hm (by simp [hcur])⟩

/-- An environment runs on three levels, leaves, and runs again on one. -/
def threeThenOne : List (Call (Fin 1)) :=
  [.initMLFQ 3 fun _ => 10, .insertReady 0, .schedule, .depart,
    .initMLFQ 1 fun _ => 10, .insertReady 0, .schedule]

/-- Three levels leave `indexToEnqueue` at 1, and the single level keeps it. -/
theorem threeThenOne_out_of_bounds :
    Machine.Meets (step fun _ => 7#32) (fun s c => c.Reconfigures s) (schedInit 10) threeThenOne ∧
      ∃ s, Machine.run (step fun _ => 7#32) (schedInit 10) threeThenOne = some s ∧
        s.schedulerMethod = .mlfq ∧ s.curenv ≠ none ∧
        ¬ s.indexToEnqueue < s.numOfReadyQueues := by
  have hrun : (Machine.run (step fun _ => 7#32) (schedInit 10) threeThenOne).map
      (fun s => (s.schedulerMethod, s.curenv, s.indexToEnqueue, s.numOfReadyQueues)) =
      some (.mlfq, some 0, 1, 1) := by decide
  obtain ⟨s, hs, hobs⟩ := Option.map_eq_some_iff.1 hrun
  simp only [Prod.mk.injEq] at hobs
  obtain ⟨hm, hcur, hi, hn⟩ := hobs
  exact ⟨by decide, s, hs, hm, by simp [hcur], by omega⟩

/-- A single level met by another index : the environment selected next goes outside
the array when it is put back. -/
theorem overflows_of_stale_index {env : Env} (hidle : s.Idle) (hi : s.indexToEnqueue ≠ 0)
    (q : ℕ → UInt8) :
    ∃ s', Machine.run (step envId) s [.initMLFQ 1 q, .insertReady env, .schedule] = some s' ∧
      s'.schedulerMethod = .mlfq ∧ s'.curenv = some env ∧
      ¬ s'.indexToEnqueue < s'.numOfReadyQueues ∧ s'.fosScheduler = none := by
  -- the state in which the only environment of the only level is selected
  let t := { (s.schedInitMLFQ 1 q).setStatus env .ready with envReadyQueues := [[env]] }
  have hsched : t.fosScheduler = some (t.runs [[env]] 0 env) := by
    have hplace : t.CanPlace t.placeIndex := fun hc => absurd hidle.1 hc
    rw [fosScheduler_of_canPlace hplace, placedRow_none (s := t) hidle.1]
    rfl
  have hover : ¬ (t.runs [[env]] 0 env).indexToEnqueue < 1 := by
    have hidx : (t.runs [[env]] 0 env).indexToEnqueue = s.indexToEnqueue := rfl
    omega
  refine ⟨t.runs [[env]] 0 env, ?_, rfl, rfl, hover, ?_⟩
  · exact (Machine.run_cons_eq_some _).2 ⟨s.schedInitMLFQ 1 q, rfl,
      (Machine.run_cons_eq_some _).2 ⟨t, rfl,
        (Machine.run_cons_eq_some _).2 ⟨_, hsched, rfl⟩⟩⟩
  · exact fosScheduler_of_not_canPlace fun hc => hover (hc (by simp [runs]))

end Sched

end FosKernel
