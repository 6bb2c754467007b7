import FosKernel.Scheduler
import Mathlib.Logic.Basic

/-!
# What one call of the scheduler does

One spec lemma for each function of `sched.c`, so that the invariants of the later
files never open the functions again. `fosScheduler_cases` is the main one : after the
running environment is back in its queue (`placedRow`), either the oldest environment
of the selected level runs next, or every queue looked at is empty and the scheduler
stops.
-/

set_option linter.unusedSectionVars false

namespace FosKernel

namespace Sched

open Queues

variable {Env : Type*} {s s' t : Sched Env} {i : ℕ} {env : Env}

/-! ## `fos_scheduler` -/

/-- The queue `curenv` goes back to. -/
def placeIndex (s : Sched Env) : ℕ :=
  match s.schedulerMethod with
  | .rr => 0
  | .mlfq => s.indexToEnqueue

/-- The READY queues with `curenv` back in queue `i`. -/
def placedRow (i : ℕ) (s : Sched Env) : List (List Env) :=
  match s.curenv with
  | some env => push i env s.envReadyQueues
  | none => s.envReadyQueues

/-- The level the next environment is taken from. -/
def levelOf (s : Sched Env) (row : List (List Env)) : Option ℕ :=
  match s.schedulerMethod with
  | .rr => if queueAt row 0 = [] then none else some 0
  | .mlfq => firstNonEmpty row

/-- `indexToEnqueue` once `level` is selected. -/
def indexAfter (s : Sched Env) (level : ℕ) : ℕ :=
  match s.schedulerMethod with
  | .rr => s.indexToEnqueue
  | .mlfq => updateIndexToEnqueue s.indexToEnqueue level s.numOfReadyQueues

/-- The clock's quantum once no level is selected. -/
def idleQuantum (s : Sched Env) : UInt8 :=
  match s.schedulerMethod with
  | .rr => s.quantum 0
  | .mlfq => s.clockQuantum

@[simp] theorem length_placedRow : (s.placedRow i).length = s.numOfReadyQueues := by
  unfold placedRow numOfReadyQueues
  split <;> simp

theorem placedRow_none (h : s.curenv = none) : s.placedRow i = s.envReadyQueues := by
  simp [placedRow, h]

theorem placedRow_some (h : s.curenv = some env) :
    s.placedRow i = push i env s.envReadyQueues := by
  simp [placedRow, h]

/-- The environment put back needs its queue to be there. -/
def CanPlace (s : Sched Env) (i : ℕ) : Prop :=
  s.curenv ≠ none → i < s.numOfReadyQueues

theorem enqueueCurenv_of_canPlace (h : s.CanPlace i) :
    s.enqueueCurenv i = some { s with envReadyQueues := s.placedRow i } := by
  unfold enqueueCurenv enqueueReady
  split
  · next env hcur => rw [if_pos (h (by simp [hcur])), placedRow_some hcur]
  · next hcur => rw [placedRow_none hcur]

theorem enqueueCurenv_of_not_canPlace (h : ¬ s.CanPlace i) : s.enqueueCurenv i = none := by
  unfold CanPlace at h
  push Not at h
  obtain ⟨env, hcur⟩ := Option.ne_none_iff_exists'.1 h.1
  unfold enqueueCurenv enqueueReady
  simp only [hcur]
  rw [if_neg (by omega)]

theorem enqueueCurenv_eq_some (h : s.enqueueCurenv i = some t) :
    s.CanPlace i ∧ t = { s with envReadyQueues := s.placedRow i } := by
  by_cases hc : s.CanPlace i
  · rw [enqueueCurenv_of_canPlace hc] at h
    exact ⟨hc, (Option.some.inj h).symm⟩
  · rw [enqueueCurenv_of_not_canPlace hc] at h
    cases h

/-- The state `fos_scheduler` ends in when level `level` gives it `env`. -/
def runs (s : Sched Env) (row : List (List Env)) (level : ℕ) (env : Env) : Sched Env :=
  { s with
    envReadyQueues := pop level row
    clockQuantum := s.quantum level
    indexToEnqueue := s.indexAfter level
    curenv := some env
    schedulerStatus := .started }

/-- The state `fos_scheduler` ends in when it finds no environment. -/
def idles (s : Sched Env) (row : List (List Env)) : Sched Env :=
  { s with
    envReadyQueues := row
    clockQuantum := s.idleQuantum
    curenv := none
    schedulerStatus := .stopped }

theorem exists_getLast_of_levelOf {row : List (List Env)} {level : ℕ}
    (h : s.levelOf row = some level) : ∃ env, (queueAt row level).getLast? = some env := by
  have hne : queueAt row level ≠ [] := by
    unfold levelOf at h
    split at h
    · split at h
      · cases h
      · rwa [← Option.some.inj h]
    · exact (firstNonEmpty_eq_some_iff.1 h).1
  exact ⟨_, List.getLast?_eq_some_getLast hne⟩

/-- The selection, from the READY queues `row` that `curenv` is back in. -/
def select (s : Sched Env) (row : List (List Env)) : Sched Env :=
  match s.levelOf row with
  | some level => match (queueAt row level).getLast? with
    | some env => s.runs row level env
    | none => s.idles row
  | none => s.idles row

theorem pop_of_queueAt_nil {row : List (List Env)} (h : queueAt row i = []) : pop i row = row := by
  unfold pop
  ext1 j
  rw [List.getElem?_modify]
  by_cases hij : i = j
  · subst hij
    cases hj : row[i]? with
    | none => simp
    | some q =>
      have hq : q = [] := by simpa [queueAt, hj] using h
      simp [hq]
  · cases row[j]? <;> simp [hij]

theorem switchTo_selectRR {row : List (List Env)} (h : s.schedulerMethod = .rr) :
    switchTo (selectRR { s.started with envReadyQueues := row }) =
      s.select row := by
  unfold selectRR dequeueReady select levelOf started
  by_cases h0 : queueAt row 0 = []
  · simp [h, h0, pop_of_queueAt_nil h0, switchTo, idles, idleQuantum, kclockSetQuantum, quantum]
  · obtain ⟨env, henv⟩ : ∃ env, (queueAt row 0).getLast? = some env :=
      ⟨_, List.getLast?_eq_some_getLast h0⟩
    simp [h, h0, henv, switchTo, runs, indexAfter, kclockSetQuantum, quantum]

theorem switchTo_selectMLFQ {row : List (List Env)} (h : s.schedulerMethod = .mlfq)
    (hrow : row.length = s.numOfReadyQueues) :
    switchTo (selectMLFQ { s.started with envReadyQueues := row }) =
      s.select row := by
  unfold selectMLFQ getSelectedLevel select levelOf started
  rw [h]
  cases hl : firstNonEmpty row with
  | none => simp [switchTo, idles, idleQuantum, h]
  | some level =>
    obtain ⟨env, henv⟩ : ∃ env, (queueAt row level).getLast? = some env :=
      ⟨_, List.getLast?_eq_some_getLast (firstNonEmpty_eq_some_iff.1 hl).1⟩
    simp [henv, dequeueReady, switchTo, runs, indexAfter, h, kclockSetQuantum, quantum,
      numOfReadyQueues, hrow]

/-- `fos_scheduler` puts `curenv` back and selects, where its queue exists. -/
theorem fosScheduler_of_canPlace (h : s.CanPlace s.placeIndex) :
    s.fosScheduler = some (s.select (s.placedRow s.placeIndex)) := by
  have hplace := enqueueCurenv_of_canPlace (s := s.started) h
  unfold fosScheduler
  split
  · next hm =>
    have hi : s.placeIndex = 0 := by simp [placeIndex, hm]
    rw [hi] at hplace ⊢
    rw [hplace]
    exact congrArg some (switchTo_selectRR hm)
  · next hm =>
    have hi : s.placeIndex = s.indexToEnqueue := by simp [placeIndex, hm]
    rw [hi] at hplace ⊢
    have hq : s.started.indexToEnqueue = s.indexToEnqueue := rfl
    rw [fosSchedulerMLFQ, hq, hplace]
    exact congrArg some (switchTo_selectMLFQ hm length_placedRow)

theorem fosScheduler_of_not_canPlace (h : ¬ s.CanPlace s.placeIndex) : s.fosScheduler = none := by
  have hplace := enqueueCurenv_of_not_canPlace (s := s.started) h
  unfold fosScheduler
  split
  · next hm =>
    have hi : s.placeIndex = 0 := by simp [placeIndex, hm]
    rw [hi] at hplace
    rw [hplace, Option.map_none, Option.map_none]
  · next hm =>
    have hi : s.placeIndex = s.indexToEnqueue := by simp [placeIndex, hm]
    rw [hi] at hplace
    have hq : s.started.indexToEnqueue = s.indexToEnqueue := rfl
    rw [fosSchedulerMLFQ, hq, hplace, Option.map_none, Option.map_none]

theorem select_cases (s : Sched Env) (row : List (List Env)) :
    (∃ level env, s.levelOf row = some level ∧ (queueAt row level).getLast? = some env ∧
      s.select row = s.runs row level env) ∨
    (s.levelOf row = none ∧ s.select row = s.idles row) := by
  unfold select
  cases hl : s.levelOf row with
  | none => exact .inr ⟨rfl, rfl⟩
  | some level =>
    obtain ⟨env, henv⟩ := exists_getLast_of_levelOf hl
    exact .inl ⟨level, env, rfl, henv, by simp [henv]⟩

/-- `fos_scheduler` either runs the oldest environment of the selected level, or stops. -/
theorem fosScheduler_cases (h : s.fosScheduler = some s') :
    s.CanPlace s.placeIndex ∧
      ((∃ level env, s.levelOf (s.placedRow s.placeIndex) = some level ∧
          (queueAt (s.placedRow s.placeIndex) level).getLast? = some env ∧
          s' = s.runs (s.placedRow s.placeIndex) level env) ∨
        (s.levelOf (s.placedRow s.placeIndex) = none ∧
          s' = s.idles (s.placedRow s.placeIndex))) := by
  have hc : s.CanPlace s.placeIndex := by
    by_contra hc
    rw [fosScheduler_of_not_canPlace hc] at h
    cases h
  rw [fosScheduler_of_canPlace hc] at h
  obtain rfl := Option.some.inj h
  exact ⟨hc, select_cases s _⟩

theorem exists_fosScheduler (h : s.CanPlace s.placeIndex) : ∃ s', s.fosScheduler = some s' :=
  ⟨_, fosScheduler_of_canPlace h⟩

/-! ## The moves of one environment -/

section Moves

variable [DecidableEq Env] {envId : Env → BitVec 32} {id : BitVec 32} {iterator : Option Env}

theorem schedInsertReady_eq_some (h : s.schedInsertReady env = some s') :
    0 < s.numOfReadyQueues ∧
      s' = { s.setStatus env .ready with envReadyQueues := push 0 env s.envReadyQueues } := by
  unfold schedInsertReady enqueueReady at h
  split at h
  · next h0 => exact ⟨h0, (Option.some.inj h).symm⟩
  · cases h

theorem findEnvInQueue_eq_some {queue : List Env} (h : findEnvInQueue envId queue id = some env) :
    env ∈ queue ∧ envId env = id :=
  ⟨List.mem_of_find?_eq_some h, by simpa using List.find?_some h⟩

theorem findReady_eq_some (h : s.findReady envId id = some (i, env)) :
    env ∈ queueAt s.envReadyQueues i ∧ envId env = id := by
  unfold findReady at h
  obtain ⟨j, -, h⟩ := Option.bind_eq_some_iff.1 h
  obtain ⟨env', hfind, h⟩ := Option.map_eq_some_iff.1 h
  obtain ⟨rfl, rfl⟩ := Prod.mk.inj h
  exact findEnvInQueue_eq_some hfind

theorem findReady_eq_none (h : s.findReady envId id = none) :
    ∀ env ∈ s.envReadyQueues.flatten, envId env ≠ id := by
  intro env henv hid
  obtain ⟨q, hq, henv⟩ := List.mem_flatten.1 henv
  have hsome : (findEnvInQueue envId q id).isSome := by
    rw [findEnvInQueue, List.find?_isSome]
    exact ⟨env, henv, by simpa using hid⟩
  have hidx : (s.envReadyQueues.findIdx? fun q => (findEnvInQueue envId q id).isSome).isSome =
      s.envReadyQueues.any fun q => (findEnvInQueue envId q id).isSome := List.findIdx?_isSome
  rw [List.any_eq_true.2 ⟨q, hq, hsome⟩] at hidx
  obtain ⟨i, hi⟩ := Option.isSome_iff_exists.1 hidx
  obtain ⟨hlt, hp, -⟩ := List.findIdx?_eq_some_iff_getElem.1 hi
  unfold findReady at h
  rw [hi, Option.bind_some, Option.map_eq_none_iff, queueAt_eq_getElem hlt] at h
  simp [h] at hp

/-- `sched_run_env` moves an environment of NEW to level 0, and starts a stopped
scheduler. -/
theorem schedRunEnv_cases (h : s.schedRunEnv envId id = some s') :
    s' = s ∨ ∃ env t, env ∈ s.envNewQueue ∧ (s.schedRemoveNew env).schedInsertReady env = some t ∧
      (s' = t ∨ t.fosScheduler = some s') := by
  unfold schedRunEnv at h
  split at h
  · next env hfind =>
    obtain ⟨t, ht, h⟩ := Option.bind_eq_some_iff.1 h
    refine .inr ⟨env, t, (findEnvInQueue_eq_some hfind).1, ht, ?_⟩
    split at h
    · exact .inr h
    · exact .inl (Option.some.inj h).symm
  · exact .inl (Option.some.inj h).symm

/-- The state in which `sched_exit_env` looks at `curenv`. -/
def insertedExit (iterator : Option Env) (s : Sched Env) : Sched Env :=
  match iterator with
  | some env => s.schedInsertExit env
  | none => s

@[simp] theorem insertedExit_curenv : (s.insertedExit iterator).curenv = s.curenv := by
  cases iterator <;> rfl

theorem exitFound_eq :
    s.exitFound envId id iterator =
      match (s.insertedExit iterator).curenv with
      | some cur =>
        if envId cur = id then { s.insertedExit iterator with curenv := none }.fosScheduler
        else some (s.insertedExit iterator)
      | none => none := by
  cases iterator <;> rfl

theorem exitFound_cases (h : s.exitFound envId id iterator = some s') :
    ∃ cur, s.curenv = some cur ∧
      ((envId cur = id ∧ { s.insertedExit iterator with curenv := none }.fosScheduler = some s') ∨
        (envId cur ≠ id ∧ s' = s.insertedExit iterator)) := by
  rw [exitFound_eq, insertedExit_curenv] at h
  split at h
  · next cur hcur =>
    refine ⟨cur, hcur, ?_⟩
    split at h
    · next hid => exact .inl ⟨hid, h⟩
    · next hid => exact .inr ⟨hid, (Option.some.inj h).symm⟩
  · cases h

/-- The environments of NEW that the loop of `sched_exit_env` takes out. -/
def clearedNew (envId : Env → BitVec 32) (id : BitVec 32) (s : Sched Env) : Sched Env :=
  (s.envNewQueue.filter fun env => envId env == id).foldl (fun s env => s.schedRemoveNew env) s

/-- The loop over NEW changes NEW and the statuses only. -/
theorem clearedNew_frame (s : Sched Env) :
    (s.clearedNew envId id).curenv = s.curenv ∧
      (s.clearedNew envId id).envReadyQueues = s.envReadyQueues ∧
      (s.clearedNew envId id).envExitQueue = s.envExitQueue := by
  have hfold : ∀ (envs : List Env) (s : Sched Env),
      let t := envs.foldl (fun s env => s.schedRemoveNew env) s
      t.curenv = s.curenv ∧ t.envReadyQueues = s.envReadyQueues ∧
        t.envExitQueue = s.envExitQueue := fun envs => by
    induction envs with
    | nil => exact fun s => ⟨rfl, rfl, rfl⟩
    | cons env envs ih => exact fun s => ih (s.schedRemoveNew env)
  exact hfold _ s

/-- Where `sched_exit_env` finds the environment : NEW, a READY level, `curenv`, or nowhere. -/
theorem schedExitEnv_cases (h : s.schedExitEnv envId id = some s') :
    ((∃ env ∈ s.envNewQueue, envId env = id) ∧
        (s.clearedNew envId id).exitFound envId id none = some s') ∨
      (∀ env ∈ s.envNewQueue, envId env ≠ id) ∧
        ((∃ i env, s.findReady envId id = some (i, env) ∧
            (s.removeReadyAt i env).exitFound envId id (some env) = some s') ∨
          s.findReady envId id = none ∧
            ∃ cur, s.curenv = some cur ∧
              ((envId cur = id ∧ s.exitFound envId id (some cur) = some s') ∨
                (envId cur ≠ id ∧ s' = s))) := by
  unfold schedExitEnv at h
  by_cases hnew : ∃ env ∈ s.envNewQueue, envId env = id
  · refine .inl ⟨hnew, ?_⟩
    obtain ⟨env, henv, hid⟩ := hnew
    have hmem : env ∈ s.envNewQueue.filter fun env => envId env == id :=
      List.mem_filter.2 ⟨henv, by simpa using hid⟩
    rwa [if_pos (List.ne_nil_of_mem hmem)] at h
  · refine .inr ?_
    push Not at hnew
    refine ⟨hnew, ?_⟩
    have hnil : (s.envNewQueue.filter fun env => envId env == id) = [] :=
      List.filter_eq_nil_iff.2 fun env henv => by simpa using hnew env henv
    rw [if_neg (not_not.2 hnil)] at h
    split at h
    · next i env hfind => exact .inl ⟨i, env, hfind, h⟩
    · next hfind =>
      refine .inr ⟨hfind, ?_⟩
      split at h
      · next cur hcur =>
        refine ⟨cur, hcur, ?_⟩
        split at h
        · next hid => exact .inl ⟨hid, h⟩
        · next hid => exact .inr ⟨hid, (Option.some.inj h).symm⟩
      · cases h

end Moves

end Sched

end FosKernel
