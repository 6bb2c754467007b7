import FosKernel.SchedulerPlaces

/-!
# `sched_kill_env`

A kill looks for its environment in NEW, the READY levels, EXIT and `curenv`, in this
order, takes it out and frees it. The last stage asserts that the `env_id` is
`ENV_RUNNABLE`, a value of `env_status`, and whatever was found the end of the function
reads through `curenv`.

So with every environment in one queue at most, the kill does what it should exactly when
some environment runs and the one to kill is not the running one, unless a queue holds
that one too or its `env_id` is equal to `ENV_RUNNABLE` (`kills_iff`).
-/

set_option linter.unusedSectionVars false

namespace FosKernel

namespace Sched

open Queues

variable {Env : Type*} [DecidableEq Env]

/-- `sched_remove_exit`. -/
def schedRemoveExit (env : Env) (s : Sched Env) : Sched Env :=
  { s.setStatus env .unknown with envExitQueue := s.envExitQueue.erase env }

section Code

variable (envId : Env → BitVec 32) (envRunnable : BitVec 32)

/-- The end of `sched_kill_env`, with the environments given to `start_env_free` so far. -/
def killEnd (id : BitVec 32) (freed : List Env) (s : Sched Env) :
    Option (Sched Env × List Env) :=
  match s.curenv with
  | some cur =>
    if envId cur = id then { s with curenv := none }.fosScheduler.map fun t => (t, freed)
    else some (s, freed)
  | none => none

/-- `sched_kill_env`, with the environments given to `start_env_free`. The loops over NEW and
EXIT run to their end, the one over the READY levels stops at the first match. There is
no value where the assertion fails. -/
def schedKillEnv (id : BitVec 32) (s : Sched Env) : Option (Sched Env × List Env) :=
  let inNew := s.envNewQueue.filter fun env => envId env == id
  let inExit := s.envExitQueue.filter fun env => envId env == id
  if inNew ≠ [] then
    (inNew.foldl (fun s env => s.schedRemoveNew env) s).killEnd envId id inNew
  else
    match s.findReady envId id with
    | some (i, env) => (s.removeReadyAt i env).killEnd envId id [env]
    | none =>
      if inExit ≠ [] then
        (inExit.foldl (fun s env => s.schedRemoveExit env) s).killEnd envId id inExit
      else
        match s.curenv with
        | some cur =>
          if envId cur = id then
            if envId cur = envRunnable then s.killEnd envId id [cur] else none
          else s.killEnd envId id []
        | none => none

/-- The scheduler without the environments of that id. -/
def without (id : BitVec 32) (s : Sched Env) : Sched Env :=
  { s with
    envNewQueue := s.envNewQueue.filter fun env => envId env != id
    envReadyQueues := s.envReadyQueues.map (·.filter fun env => envId env != id)
    envExitQueue := s.envExitQueue.filter fun env => envId env != id
    curenv := s.curenv.filter fun env => envId env != id }

end Code

/-- The environments in the queues. -/
def queued (s : Sched Env) : List Env :=
  s.envNewQueue ++ (s.envReadyQueues.flatten ++ s.envExitQueue)

/-- The queues and `curenv` are the same. -/
structure SamePlaces (s t : Sched Env) : Prop where
  new : s.envNewQueue = t.envNewQueue
  ready : s.envReadyQueues = t.envReadyQueues
  exit : s.envExitQueue = t.envExitQueue
  curenv : s.curenv = t.curenv

variable {envId : Env → BitVec 32} {envRunnable id : BitVec 32} {s s' t : Sched Env}
  {env : Env} {freed : List Env} {i : ℕ}

variable (envId id) in
/-- The environment of that id is freed, once, if a queue or `curenv` holds it, and every
other stays. After the kill of the running one the scheduler goes on from there. -/
structure Killed (s s' : Sched Env) (freed : List Env) : Prop where
  freed : ∀ e, freed.count e =
    if envId e = id ∧ (e ∈ s.queued ∨ s.curenv = some e) then 1 else 0
  stays : (∀ cur, s.curenv = some cur → envId cur ≠ id) → SamePlaces s' (s.without envId id)
  reschedules : ∀ cur, s.curenv = some cur → envId cur = id →
    ∃ status, { s.without envId id with envStatus := status }.fosScheduler = some s'

variable (envId envRunnable id s) in
/-- The kill returns, and is right. -/
def Kills : Prop :=
  ∃ s' freed, s.schedKillEnv envId envRunnable id = some (s', freed) ∧ Killed envId id s s' freed

/-! ## Queues with and without the environment -/

section Queue

variable {queue : List Env}

theorem filter_keep (h : ∀ e ∈ queue, envId e ≠ id) :
    (queue.filter fun env => envId env != id) = queue :=
  List.filter_eq_self.2 fun e he => bne_iff_ne.2 (h e he)

theorem filter_found_nil (h : ∀ e ∈ queue, envId e ≠ id) :
    (queue.filter fun env => envId env == id) = [] :=
  List.filter_eq_nil_iff.2 fun e he heq => h e he (beq_iff_eq.1 heq)

/-- Environments are equal when their ids are. -/
theorem beq_id (hinj : Function.Injective envId) (hid : envId env = id) (e : Env) :
    (envId e == id) = (e == env) := by
  rw [← hid, Bool.eq_iff_iff, beq_iff_eq, beq_iff_eq, hinj.eq_iff]

theorem filter_found (hinj : Function.Injective envId) (hid : envId env = id)
    (hnodup : queue.Nodup) (henv : env ∈ queue) :
    (queue.filter fun env => envId env == id) = [env] := by
  rw [List.filter_congr fun e _ => beq_id hinj hid e, List.filter_beq,
    List.count_eq_one_of_mem hnodup henv]
  rfl

theorem filter_left (hinj : Function.Injective envId) (hid : envId env = id)
    (hnodup : queue.Nodup) : (queue.filter fun env => envId env != id) = queue.erase env := by
  rw [hnodup.erase_eq_filter]
  exact List.filter_congr fun e _ => congrArg not (beq_id hinj hid e)

theorem ne_of_count_eq_zero (hinj : Function.Injective envId) (hid : envId env = id)
    (h : queue.count env = 0) : ∀ e ∈ queue, envId e ≠ id := by
  intro e he heq
  obtain rfl := hinj (heq.trans hid.symm)
  exact List.count_eq_zero.1 h he

end Queue

/-! ## Where the environment is found -/

theorem count_queued (s : Sched Env) (e : Env) : s.queued.count e =
    s.envNewQueue.count e + s.envReadyQueues.flatten.count e + s.envExitQueue.count e := by
  rw [queued, List.count_append, List.count_append, Nat.add_assoc]

/-- Each environment is in one queue at most. -/
theorem count_le_one (honce : s.queued.Nodup) (e : Env) : s.envNewQueue.count e +
    s.envReadyQueues.flatten.count e + s.envExitQueue.count e ≤ 1 := by
  rw [← count_queued]
  exact List.nodup_iff_count_le_one.1 honce e

theorem nodup_new (honce : s.queued.Nodup) : s.envNewQueue.Nodup :=
  List.nodup_iff_count_le_one.2 fun e => by
    have hle := count_le_one honce e
    omega

theorem nodup_ready (honce : s.queued.Nodup) : s.envReadyQueues.flatten.Nodup :=
  List.nodup_iff_count_le_one.2 fun e => by
    have hle := count_le_one honce e
    omega

theorem nodup_exit (honce : s.queued.Nodup) : s.envExitQueue.Nodup :=
  List.nodup_iff_count_le_one.2 fun e => by
    have hle := count_le_one honce e
    omega

/-- The stage of `sched_kill_env` that finds the environment, or that none does but the last. -/
theorem schedKillEnv_cases (hinj : Function.Injective envId) (honce : s.queued.Nodup) :
    (∃ env ∈ s.envNewQueue, envId env = id ∧
      s.schedKillEnv envId envRunnable id = (s.schedRemoveNew env).killEnd envId id [env]) ∨
    (∃ i, ∃ env ∈ queueAt s.envReadyQueues i, envId env = id ∧
      s.schedKillEnv envId envRunnable id = (s.removeReadyAt i env).killEnd envId id [env]) ∨
    (∃ env ∈ s.envExitQueue, envId env = id ∧
      s.schedKillEnv envId envRunnable id = (s.schedRemoveExit env).killEnd envId id [env]) ∨
    ((∀ e ∈ s.queued, envId e ≠ id) ∧ s.schedKillEnv envId envRunnable id =
      s.curenv.bind fun cur =>
        if envId cur = id then if envId cur = envRunnable then s.killEnd envId id [cur] else none
        else s.killEnd envId id []) := by
  unfold schedKillEnv
  by_cases hnew : ∃ env ∈ s.envNewQueue, envId env = id
  · obtain ⟨env, henv, hid⟩ := hnew
    refine Or.inl ⟨env, henv, hid, ?_⟩
    rw [filter_found hinj hid (nodup_new honce) henv, if_pos (List.cons_ne_nil env [])]
    rfl
  push Not at hnew
  rw [filter_found_nil hnew, if_neg (not_not.2 rfl)]
  refine Or.inr ?_
  cases hready : s.findReady envId id with
  | some found =>
    obtain ⟨i, env⟩ := found
    obtain ⟨henv, hid⟩ := findReady_eq_some hready
    exact Or.inl ⟨i, env, henv, hid, rfl⟩
  | none =>
    refine Or.inr ?_
    by_cases hexit : ∃ env ∈ s.envExitQueue, envId env = id
    · obtain ⟨env, henv, hid⟩ := hexit
      refine Or.inl ⟨env, henv, hid, ?_⟩
      rw [filter_found hinj hid (nodup_exit honce) henv, if_pos (List.cons_ne_nil env [])]
      rfl
    · push Not at hexit
      refine Or.inr ⟨?_, ?_⟩
      · rw [queued, List.forall_mem_append, List.forall_mem_append]
        exact ⟨hnew, findReady_eq_none hready, hexit⟩
      · rw [filter_found_nil hexit, if_neg (not_not.2 rfl)]
        cases s.curenv <;> rfl

/-! ## What is left -/

theorem ready_keep (h : ∀ e ∈ s.envReadyQueues.flatten, envId e ≠ id) :
    s.envReadyQueues.map (·.filter fun env => envId env != id) = s.envReadyQueues :=
  (List.map_congr_left fun _ hq => filter_keep fun e he =>
    h e (List.mem_flatten_of_mem hq he)).trans (List.map_id _)

theorem curenv_keep (h : ∀ cur, s.curenv = some cur → envId cur ≠ id) :
    (s.curenv.filter fun env => envId env != id) = s.curenv := by
  cases hcur : s.curenv with
  | none => rfl
  | some cur => exact if_pos (bne_iff_ne.2 (h cur hcur))

theorem drop_left (hinj : Function.Injective envId) (honce : s.queued.Nodup)
    (hid : envId env = id) (henv : env ∈ queueAt s.envReadyQueues i) :
    drop i env s.envReadyQueues =
      s.envReadyQueues.map (·.filter fun env => envId env != id) := by
  have hnodup := nodup_ready honce
  have hgone : env ∉ (drop i env s.envReadyQueues).flatten := by
    have hone := List.nodup_iff_count_le_one.1 hnodup env
    rw [← count_drop henv, List.count_singleton_self] at hone
    exact List.count_eq_zero.1 (by omega)
  ext1 j
  rw [drop, List.getElem?_modify, List.getElem?_map]
  cases hj : s.envReadyQueues[j]? with
  | none => rfl
  | some q =>
    have hq : q.Nodup := (List.nodup_flatten.1 hnodup).1 q (List.mem_of_getElem? hj)
    refine congrArg some (Eq.trans ?_ (filter_left hinj hid hq).symm)
    by_cases hij : i = j
    · exact if_pos hij
    · refine (if_neg hij).trans (List.erase_of_not_mem fun hmem => ?_).symm
      refine hgone (mem_flatten_iff.2 ⟨j, ?_⟩)
      rw [queueAt_drop, if_neg hij, queueAt, hj]
      exact hmem

variable (envId id) in
/-- The queues of `t` are those of `s` without the environments of that id, and `curenv` is
as it was. -/
def LeavesQueues (s t : Sched Env) : Prop :=
  ∃ status, t = { s.without envId id with envStatus := status, curenv := s.curenv }

/-- What the environment is taken out of holds it no longer, and nothing else did. -/
theorem leavesQueues_of_new (hinj : Function.Injective envId) (honce : s.queued.Nodup)
    (hid : envId env = id) (henv : env ∈ s.envNewQueue) :
    LeavesQueues envId id s (s.schedRemoveNew env) := by
  have hpos := List.count_pos_iff.2 henv
  have hle := count_le_one honce env
  have hready : s.envReadyQueues.flatten.count env = 0 := by omega
  have hexit : s.envExitQueue.count env = 0 := by omega
  refine ⟨(s.schedRemoveNew env).envStatus, ?_⟩
  rw [without, filter_left hinj hid (nodup_new honce),
    ready_keep (ne_of_count_eq_zero hinj hid hready),
    filter_keep (ne_of_count_eq_zero hinj hid hexit)]
  rfl

theorem leavesQueues_of_ready (hinj : Function.Injective envId) (honce : s.queued.Nodup)
    (hid : envId env = id) (henv : env ∈ queueAt s.envReadyQueues i) :
    LeavesQueues envId id s (s.removeReadyAt i env) := by
  have hpos := List.count_pos_iff.2 (mem_flatten_iff.2 ⟨i, henv⟩)
  have hle := count_le_one honce env
  have hnew : s.envNewQueue.count env = 0 := by omega
  have hexit : s.envExitQueue.count env = 0 := by omega
  refine ⟨(s.removeReadyAt i env).envStatus, ?_⟩
  rw [without, filter_keep (ne_of_count_eq_zero hinj hid hnew),
    ← drop_left hinj honce hid henv, filter_keep (ne_of_count_eq_zero hinj hid hexit)]
  rfl

theorem leavesQueues_of_exit (hinj : Function.Injective envId) (honce : s.queued.Nodup)
    (hid : envId env = id) (henv : env ∈ s.envExitQueue) :
    LeavesQueues envId id s (s.schedRemoveExit env) := by
  have hpos := List.count_pos_iff.2 henv
  have hle := count_le_one honce env
  have hnew : s.envNewQueue.count env = 0 := by omega
  have hready : s.envReadyQueues.flatten.count env = 0 := by omega
  refine ⟨(s.schedRemoveExit env).envStatus, ?_⟩
  rw [without, filter_keep (ne_of_count_eq_zero hinj hid hnew),
    ready_keep (ne_of_count_eq_zero hinj hid hready), filter_left hinj hid (nodup_exit honce)]
  rfl

/-- No environment in a queue has that id. -/
theorem leavesQueues_refl (hqueued : ∀ e ∈ s.queued, envId e ≠ id) :
    LeavesQueues envId id s s := by
  rw [queued, List.forall_mem_append, List.forall_mem_append] at hqueued
  obtain ⟨hnew, hready, hexit⟩ := hqueued
  refine ⟨s.envStatus, ?_⟩
  rw [without, filter_keep hnew, ready_keep hready, filter_keep hexit]

/-! ## When a kill is right -/

/-- One environment is freed, the one of that id. -/
theorem freed_one (hinj : Function.Injective envId) (hid : envId env = id)
    (hheld : env ∈ s.queued ∨ s.curenv = some env) (e : Env) :
    [env].count e = if envId e = id ∧ (e ∈ s.queued ∨ s.curenv = some e) then 1 else 0 := by
  by_cases he : env = e
  · subst he
    rw [if_pos ⟨hid, hheld⟩, List.count_singleton_self]
  · rw [if_neg fun hc => he (hinj (hid.trans hc.1.symm)), List.count_singleton,
      beq_false_of_ne he]
    rfl

/-- The end of the function, once the environments freed are out of the queues. -/
theorem exists_killEnd {cur : Env} (hgone : LeavesQueues envId id s t)
    (hcur : s.curenv = some cur) (hfreed : ∀ e, freed.count e =
      if envId e = id ∧ (e ∈ s.queued ∨ s.curenv = some e) then 1 else 0) :
    ∃ s' freed', t.killEnd envId id freed = some (s', freed') ∧ Killed envId id s s' freed' := by
  obtain ⟨status, rfl⟩ := hgone
  unfold killEnd
  dsimp only
  rw [hcur]
  by_cases hid : envId cur = id
  · -- the scheduler goes on without an environment running
    have hnone : (s.without envId id).curenv = none := by
      rw [without, hcur]
      simp [hid]
    obtain ⟨s', hsched⟩ := exists_fosScheduler
      (s := { s.without envId id with envStatus := status, curenv := none }) fun hc => absurd rfl hc
    refine ⟨s', freed, ?_, hfreed, fun hother => absurd hid (hother cur hcur), fun _ _ _ =>
      ⟨status, ?_⟩⟩
    · dsimp only
      rw [if_pos hid, hsched]
      rfl
    · rw [← hsched, ← hnone]
  · have hother : ∀ cur', s.curenv = some cur' → envId cur' ≠ id := fun cur' hcur' => by
      rw [hcur] at hcur'
      exact Option.some.inj hcur' ▸ hid
    refine ⟨_, freed, if_neg hid, hfreed, fun _ => ⟨rfl, rfl, rfl, ?_⟩, fun cur' hcur' heq =>
      absurd heq (hother cur' hcur')⟩
    exact hcur.symm.trans (curenv_keep hother).symm

/-- An environment found in a queue is freed and its place given up, if some environment
runs. -/
theorem kills_of_queue (hinj : Function.Injective envId) (hid : envId env = id)
    (hmem : env ∈ s.queued) (hgone : LeavesQueues envId id s t)
    (hkill : s.schedKillEnv envId envRunnable id = t.killEnd envId id [env]) :
    Kills envId envRunnable id s ↔ s.curenv ≠ none ∧
      ∀ cur, s.curenv = some cur → envId cur = id → id = envRunnable ∨ cur ∈ s.queued := by
  unfold Kills
  rw [hkill]
  cases hcur : s.curenv with
  | none =>
    obtain ⟨status, rfl⟩ := hgone
    refine iff_of_false (fun ⟨s', freed, hsome, _⟩ => ?_) fun hsome => hsome.1 rfl
    rw [killEnd, hcur] at hsome
    cases hsome
  | some cur =>
    refine iff_of_true (exists_killEnd hgone hcur (freed_one hinj hid (Or.inl hmem)))
      ⟨Option.some_ne_none cur, fun cur' _ hid' => Or.inr ?_⟩
    exact hinj (hid.trans hid'.symm) ▸ hmem

/-- With every environment in one queue at most, a kill is right exactly when some environment
runs and the one to kill is not that one, or is in a queue too, or its `env_id` is
`ENV_RUNNABLE`. -/
theorem kills_iff (hinj : Function.Injective envId) (honce : s.queued.Nodup) :
    Kills envId envRunnable id s ↔ s.curenv ≠ none ∧
      ∀ cur, s.curenv = some cur → envId cur = id → id = envRunnable ∨ cur ∈ s.queued := by
  rcases schedKillEnv_cases hinj honce with ⟨env, henv, hid, hkill⟩ |
    ⟨i, env, henv, hid, hkill⟩ | ⟨env, henv, hid, hkill⟩ | ⟨hqueued, hkill⟩
  · have hmem : env ∈ s.queued := List.mem_append_left _ henv
    exact kills_of_queue hinj hid hmem (leavesQueues_of_new hinj honce hid henv) hkill
  · have hmem : env ∈ s.queued :=
      List.mem_append_right _ (List.mem_append_left _ (mem_flatten_iff.2 ⟨i, henv⟩))
    exact kills_of_queue hinj hid hmem (leavesQueues_of_ready hinj honce hid henv) hkill
  · have hmem : env ∈ s.queued := List.mem_append_right _ (List.mem_append_right _ henv)
    exact kills_of_queue hinj hid hmem (leavesQueues_of_exit hinj honce hid henv) hkill
  · -- only `curenv` is left to have that id
    unfold Kills
    rw [hkill]
    cases hcur : s.curenv with
    | none => exact iff_of_false (fun ⟨_, _, hnone, _⟩ => nomatch hnone) fun hsome => hsome.1 rfl
    | some cur =>
      rw [Option.bind_some]
      have hgone := leavesQueues_refl hqueued
      by_cases hid : envId cur = id
      · rw [if_pos hid]
        by_cases hrun : id = envRunnable
        · rw [if_pos (hid.trans hrun)]
          exact iff_of_true (exists_killEnd hgone hcur (freed_one hinj hid (Or.inr hcur)))
            ⟨Option.some_ne_none cur, fun _ _ _ => Or.inl hrun⟩
        · rw [if_neg (hid ▸ hrun)]
          refine iff_of_false (fun ⟨_, _, hnone, _⟩ => nomatch hnone) fun hcond => ?_
          exact (hcond.2 cur rfl hid).elim hrun fun hmem => hqueued cur hmem hid
      · rw [if_neg hid]
        refine iff_of_true (exists_killEnd hgone hcur fun e => ?_)
          ⟨Option.some_ne_none cur, fun cur' heq hid' => absurd (Option.some.inj heq ▸ hid') hid⟩
        refine (if_neg fun hc => ?_).symm
        rcases hc.2 with hmem | hrunning
        · exact hqueued e hmem hc.1
        · rw [hcur] at hrunning
          exact hid (Option.some.inj hrunning ▸ hc.1)

/-- One environment runs, one is in NEW and one in EXIT; the ids are 1, 2 and 3. -/
def threePlaces : Sched (Fin 3) :=
  { schedInit 10 with envNewQueue := [1], envExitQueue := [2], curenv := some 0 }

/-- The ids of the three environments. -/
def fewIds (env : Fin 3) : BitVec 32 :=
  BitVec.ofNat 32 (env + 1)

theorem threePlaces_kills : Kills fewIds 2#32 3#32 threePlaces := by
  have hinj : ∀ a b, fewIds a = fewIds b → a = b := by decide
  exact (kills_iff (fun a b => hinj a b) (by decide)).2 (by decide)

/-- From the command prompt with no environment running, a kill does not return. -/
theorem nothingRuns_counterexample :
    { threePlaces with curenv := none }.queued.Nodup ∧
      ¬ Kills fewIds 2#32 3#32 { threePlaces with curenv := none } := by
  refine ⟨by decide, fun ⟨s', freed, hkill, _⟩ => ?_⟩
  have hnone : schedKillEnv fewIds 2#32 3#32 { threePlaces with curenv := none } = none := by
    rfl
  rw [hnone] at hkill
  cases hkill

end Sched

end FosKernel
