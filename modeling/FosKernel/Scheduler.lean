import FosKernel.Queues
import Mathlib.Data.Option.Basic

/-!
# The CPU scheduler (`sched.c`)

An environment waits in the NEW queue, in one of the READY queues, or in the EXIT
queue, or it is the running one, `curenv`. A queue is a list with its newest element
first : `enqueue` is `LIST_INSERT_HEAD`, `dequeue` takes `LIST_LAST`.

`fos_scheduler` puts `curenv` back and takes the next environment : from the single
READY queue under round robin, from the lowest non-empty level under MLFQ, where
`curenv` goes to the level `indexToEnqueue` that the last selection left behind.

A call has no value where the source writes outside `env_ready_queues` or reads
through a `curenv` that is `NULL`. `env_run` and the command prompt do not return
in the source; here the call ends in the state they start from.
-/

namespace FosKernel

/-- The values of `scheduler_method`. -/
inductive SchedulerMethod where
  | rr
  | mlfq
  deriving DecidableEq

/-- The values of `scheduler_status`. -/
inductive SchedulerStatus where
  | stopped
  | started
  deriving DecidableEq

/-- The values of `env_status` that the scheduler sets. -/
inductive EnvStatus where
  | unknown
  | new
  | ready
  | exit
  deriving DecidableEq

/-- The scheduler's globals. -/
structure Sched (Env : Type*) where
  envNewQueue : List Env
  /-- `env_ready_queues`, of `num_of_ready_queues` queues. -/
  envReadyQueues : List (List Env)
  envExitQueue : List Env
  quantums : List UInt8
  /-- The quantum the clock was last programmed with. -/
  clockQuantum : UInt8
  indexToEnqueue : ℕ
  curenv : Option Env
  schedulerMethod : SchedulerMethod
  schedulerStatus : SchedulerStatus
  envStatus : Env → EnvStatus

namespace Sched

variable {Env : Type*}

/-- `num_of_ready_queues`. -/
def numOfReadyQueues (s : Sched Env) : ℕ :=
  s.envReadyQueues.length

/-- `quantums[level]`. -/
def quantum (s : Sched Env) (level : ℕ) : UInt8 :=
  s.quantums[level]?.getD 0

/-- `kclock_set_quantum`. -/
def kclockSetQuantum (s : Sched Env) (q : UInt8) : Sched Env :=
  { s with clockQuantum := q }

/-! ## Initialisation -/

/-- `sched_init_MLFQ` : `numOfLevels` empty queues with the given quantums. -/
def schedInitMLFQ (numOfLevels : ℕ) (quantumOfEachLevel : ℕ → UInt8) (s : Sched Env) :
    Sched Env :=
  { s with
    schedulerStatus := .stopped
    schedulerMethod := .mlfq
    envReadyQueues := List.replicate numOfLevels []
    quantums := (List.range numOfLevels).map quantumOfEachLevel
    clockQuantum := quantumOfEachLevel 0 }

/-- `sched_init_RR` : one empty queue. -/
def schedInitRR (quantum : UInt8) (s : Sched Env) : Sched Env :=
  { s with
    schedulerStatus := .stopped
    schedulerMethod := .rr
    envReadyQueues := [[]]
    quantums := [quantum]
    clockQuantum := quantum }

/-- `sched_init` on the globals as the program starts, with `CLOCK_INTERVAL_IN_MS`. -/
def schedInit (clockInterval : UInt8) : Sched Env :=
  schedInitRR clockInterval
    { envNewQueue := []
      envReadyQueues := []
      envExitQueue := []
      quantums := []
      clockQuantum := 0
      indexToEnqueue := 0
      curenv := none
      schedulerMethod := .rr
      schedulerStatus := .stopped
      envStatus := fun _ => .unknown }

/-! ## Selection -/

/-- `enqueue(&env_ready_queues[i], env)`. -/
def enqueueReady (i : ℕ) (env : Env) (s : Sched Env) : Option (Sched Env) :=
  if i < s.numOfReadyQueues then
    some { s with envReadyQueues := Queues.push i env s.envReadyQueues }
  else
    none

/-- `dequeue(&env_ready_queues[i])` : the element taken out, `none` for `NULL`. -/
def dequeueReady (i : ℕ) (s : Sched Env) : Option Env × Sched Env :=
  ((Queues.queueAt s.envReadyQueues i).getLast?,
    { s with envReadyQueues := Queues.pop i s.envReadyQueues })

/-- The running environment, if any, goes to queue `i`. -/
def enqueueCurenv (i : ℕ) (s : Sched Env) : Option (Sched Env) :=
  match s.curenv with
  | some env => s.enqueueReady i env
  | none => some s

/-- The first level whose queue has an element, `none` for `-1`. -/
def getSelectedLevel (s : Sched Env) : Option ℕ :=
  Queues.firstNonEmpty s.envReadyQueues

/-- The index for the next call, once `selected_level` is chosen. -/
def updateIndexToEnqueue (indexToEnqueue selectedLevel numOfReadyQueues : ℕ) : ℕ :=
  if selectedLevel + 1 ≠ numOfReadyQueues then selectedLevel + 1 else indexToEnqueue

/-- Steps [2] and [3] of `fos_scheduler_MLFQ`, once `curenv` is back in a queue. -/
def selectMLFQ (s : Sched Env) : Option Env × Sched Env :=
  match s.getSelectedLevel with
  | some selectedLevel =>
    let (selectedEnv, t) := s.dequeueReady selectedLevel
    let index := updateIndexToEnqueue s.indexToEnqueue selectedLevel s.numOfReadyQueues
    (selectedEnv, { t.kclockSetQuantum (s.quantum selectedLevel) with indexToEnqueue := index })
  | none => (none, s)

/-- `fos_scheduler_MLFQ`. -/
def fosSchedulerMLFQ (s : Sched Env) : Option (Option Env × Sched Env) :=
  (s.enqueueCurenv s.indexToEnqueue).map selectMLFQ

/-- The round robin branch of `fos_scheduler`, once `curenv` is back in its queue. -/
def selectRR (s : Sched Env) : Option Env × Sched Env :=
  let (nextEnv, t) := s.dequeueReady 0
  (nextEnv, t.kclockSetQuantum (s.quantum 0))

/-- The end of `fos_scheduler` : run the next environment, or stop. -/
def switchTo : Option Env × Sched Env → Sched Env
  | (some env, s) => { s with curenv := some env }
  | (none, s) => { s with curenv := none, schedulerStatus := .stopped }

/-- `scheduler_status = SCH_STARTED`. -/
def started (s : Sched Env) : Sched Env :=
  { s with schedulerStatus := .started }

/-- `fos_scheduler`. -/
def fosScheduler (s : Sched Env) : Option (Sched Env) :=
  match s.schedulerMethod with
  | .rr => ((s.started.enqueueCurenv 0).map selectRR).map switchTo
  | .mlfq => s.started.fosSchedulerMLFQ.map switchTo

/-! ## Moving one environment -/

section Moves

variable [DecidableEq Env]

/-- `env->env_status = status`. -/
def setStatus (env : Env) (status : EnvStatus) (s : Sched Env) : Sched Env :=
  { s with envStatus := Function.update s.envStatus env status }

/-- `sched_insert_ready` : to level 0. -/
def schedInsertReady (env : Env) (s : Sched Env) : Option (Sched Env) :=
  (s.setStatus env .ready).enqueueReady 0 env

/-- `sched_insert_new`. -/
def schedInsertNew (env : Env) (s : Sched Env) : Sched Env :=
  { s.setStatus env .new with envNewQueue := env :: s.envNewQueue }

/-- `sched_remove_new`. -/
def schedRemoveNew (env : Env) (s : Sched Env) : Sched Env :=
  { s.setStatus env .unknown with envNewQueue := s.envNewQueue.erase env }

/-- `sched_insert_exit`. -/
def schedInsertExit (env : Env) (s : Sched Env) : Sched Env :=
  { s.setStatus env .exit with envExitQueue := env :: s.envExitQueue }

variable (envId : Env → BitVec 32)

/-- `find_env_in_queue`. -/
def findEnvInQueue (queue : List Env) (id : BitVec 32) : Option Env :=
  queue.find? fun env => envId env == id

/-- The loop of `sched_remove_ready` and of `sched_exit_env` over the READY queues :
the first level holding an environment with that id, and that environment. -/
def findReady (id : BitVec 32) (s : Sched Env) : Option (ℕ × Env) :=
  (s.envReadyQueues.findIdx? fun q => (findEnvInQueue envId q id).isSome).bind fun i =>
    (findEnvInQueue envId (Queues.queueAt s.envReadyQueues i) id).map fun env => (i, env)

/-- `env` is taken out of READY queue `i`. -/
def removeReadyAt (i : ℕ) (env : Env) (s : Sched Env) : Sched Env :=
  { s with envReadyQueues := Queues.drop i env s.envReadyQueues }

/-- `sched_remove_ready`. -/
def schedRemoveReady (env : Env) (s : Sched Env) : Sched Env :=
  match s.findReady envId (envId env) with
  | some (i, _) => (s.removeReadyAt i env).setStatus env .unknown
  | none => s

/-- `sched_run_env`. -/
def schedRunEnv (id : BitVec 32) (s : Sched Env) : Option (Sched Env) :=
  match findEnvInQueue envId s.envNewQueue id with
  | some env =>
    ((s.schedRemoveNew env).schedInsertReady env).bind fun t =>
      if t.schedulerStatus = .stopped then t.fosScheduler else some t
  | none => some s

/-- The end of `sched_exit_env`, once `found` is set, with the iterator it is left with. -/
def exitFound (id : BitVec 32) (iterator : Option Env) (s : Sched Env) : Option (Sched Env) :=
  let s := match iterator with
    | some env => s.schedInsertExit env
    | none => s
  match s.curenv with
  | some cur =>
    if envId cur = id then { s with curenv := none }.fosScheduler else some s
  | none => none

/-- `sched_exit_env`. The loop over NEW runs to its end, so its iterator is `NULL` when
`sched_insert_exit` is called with it. -/
def schedExitEnv (id : BitVec 32) (s : Sched Env) : Option (Sched Env) :=
  let inNew := s.envNewQueue.filter fun env => envId env == id
  if inNew ≠ [] then
    (inNew.foldl (fun s env => s.schedRemoveNew env) s).exitFound envId id none
  else
    match s.findReady envId id with
    | some (i, env) => (s.removeReadyAt i env).exitFound envId id (some env)
    | none =>
      match s.curenv with
      | some cur => if envId cur = id then s.exitFound envId id (some cur) else some s
      | none => none

/-! ## Calls -/

/-- What the rest of the kernel asks of the scheduler. `depart` is the running
environment leaving with `curenv` set to `NULL`. -/
inductive Call (Env : Type*) where
  | initMLFQ (numOfLevels : ℕ) (quantumOfEachLevel : ℕ → UInt8)
  | initRR (quantum : UInt8)
  | insertNew (env : Env)
  | insertReady (env : Env)
  | removeReady (env : Env)
  | runEnv (id : BitVec 32)
  | exitEnv (id : BitVec 32)
  | schedule
  | depart

/-- A call of the scheduler. -/
def step (s : Sched Env) : Call Env → Option (Sched Env)
  | .initMLFQ n q => some (s.schedInitMLFQ n q)
  | .initRR q => some (s.schedInitRR q)
  | .insertNew env => some (s.schedInsertNew env)
  | .insertReady env => s.schedInsertReady env
  | .removeReady env => some (s.schedRemoveReady envId env)
  | .runEnv id => s.schedRunEnv envId id
  | .exitEnv id => s.schedExitEnv envId id
  | .schedule => s.fosScheduler
  | .depart => some { s with curenv := none }

end Moves

end Sched

end FosKernel
