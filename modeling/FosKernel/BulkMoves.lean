import FosKernel.IntrusiveLists
import FosKernel.SchedulerSteps

/-!
# Moves of a whole queue

`sched_run_all` and `sched_exit_all_ready_envs` go through a queue with `LIST_FOREACH`
and move each environment to another queue inside the loop, through the same links. The
macros of `inc/queue.h` are not in the repository : the queues are any intrusive lists
here (`LinkedSched`), which represent those of `Sched`.

An environment moved is followed by what was the first of the queue it was moved to. So
the loop moves one environment if that queue was empty, and never ends if it was not :
`sched_run_all` is right exactly when NEW is empty or holds one environment and READY
queue 0 none, and `sched_exit_all_ready_envs` when no environment is ready, or one and
EXIT is empty (`bulkMoves_iff`).
-/

set_option linter.unusedSectionVars false

namespace FosKernel

open Queues Intrusive

/-- The queues of the scheduler. -/
inductive EnvQueue where
  | new
  | ready (i : ℕ)
  | exit
  deriving DecidableEq

/-- The scheduler's queues as they are linked. -/
structure LinkedSched (Env M : Type*) where
  lists : M
  numOfReadyQueues : ℕ
  envStatus : Env → EnvStatus

variable {Env M : Type*} [DecidableEq Env]

/-- What each queue holds. -/
def Sched.contents (s : Sched Env) : EnvQueue → List Env
  | .new => s.envNewQueue
  | .ready i => queueAt s.envReadyQueues i
  | .exit => s.envExitQueue

namespace LinkedSched

variable (L : Lists EnvQueue Env M)

/-- `env->env_status = status`. -/
def setStatus (env : Env) (status : EnvStatus) (x : LinkedSched Env M) : LinkedSched Env M :=
  { x with envStatus := Function.update x.envStatus env status }

/-- `enqueue`. -/
def enqueue (q : EnvQueue) (env : Env) (x : LinkedSched Env M) : LinkedSched Env M :=
  { x with lists := L.insertHead q env x.lists }

/-- `LIST_REMOVE`. -/
def remove (q : EnvQueue) (env : Env) (x : LinkedSched Env M) : LinkedSched Env M :=
  { x with lists := L.remove q env x.lists }

/-- `sched_remove_new`. -/
def schedRemoveNew (env : Env) (x : LinkedSched Env M) : LinkedSched Env M :=
  (x.remove L .new env).setStatus env .unknown

/-- There is no value where there is no READY queue 0. -/
def schedInsertReady (env : Env) (x : LinkedSched Env M) : Option (LinkedSched Env M) :=
  if 0 < x.numOfReadyQueues then some ((x.setStatus env .ready).enqueue L (.ready 0) env)
  else none

/-- `sched_insert_exit`. -/
def schedInsertExit (env : Env) (x : LinkedSched Env M) : LinkedSched Env M :=
  (x.setStatus env .exit).enqueue L .exit env

/-- The body of the loop of `sched_run_all`. -/
def runBody (env : Env) (x : LinkedSched Env M) : Option (LinkedSched Env M) :=
  (x.schedRemoveNew L env).schedInsertReady L env

/-- The loop of `sched_run_all`, up to the test of `scheduler_status`. -/
def schedRunAllLoop (fuel : ℕ) (x : LinkedSched Env M) : Option (LinkedSched Env M) :=
  L.foreach lists (runBody L) fuel (L.first x.lists .new) x

/-- The body of the inner loop of `sched_exit_all_ready_envs`. -/
def exitBody (i : ℕ) (env : Env) (x : LinkedSched Env M) : Option (LinkedSched Env M) :=
  some ((x.remove L (.ready i) env).schedInsertExit L env)

/-- The outer loop of `sched_exit_all_ready_envs`, over the levels given. -/
def exitLevels (fuel : ℕ) : List ℕ → LinkedSched Env M → Option (LinkedSched Env M)
  | [], x => some x
  | i :: levels, x =>
    match L.first x.lists (.ready i) with
    | none => exitLevels fuel levels x
    | some env =>
      (L.foreach lists (exitBody L i) fuel (some env) x).bind (exitLevels fuel levels)

/-- `sched_exit_all_ready_envs`, up to the test of `scheduler_status`. -/
def schedExitAllReadyEnvs (fuel : ℕ) (x : LinkedSched Env M) : Option (LinkedSched Env M) :=
  exitLevels L fuel (List.range x.numOfReadyQueues) x

/-- The linked queues are those of the scheduler. -/
structure Represents (x : LinkedSched Env M) (s : Sched Env) : Prop where
  lists : L.Holds x.lists s.contents
  numOfReadyQueues : x.numOfReadyQueues = s.numOfReadyQueues
  envStatus : x.envStatus = s.envStatus

/-- `sched_run_all` moves NEW to READY queue 0 : it ends with NEW empty, each environment of
it once in READY queue 0, the other queues as they were, and every list well linked. -/
def RunsAll (x : LinkedSched Env M) (s : Sched Env) : Prop :=
  ∃ fuel x' s', x.schedRunAllLoop L fuel = some x' ∧ x'.Represents L s' ∧
    s'.envNewQueue = [] ∧
    (queueAt s'.envReadyQueues 0).Perm (s.envNewQueue ++ queueAt s.envReadyQueues 0) ∧
    (∀ i, i ≠ 0 → queueAt s'.envReadyQueues i = queueAt s.envReadyQueues i) ∧
    s'.envExitQueue = s.envExitQueue

/-- `sched_exit_all_ready_envs` moves every READY queue to EXIT. -/
def ExitsAll (x : LinkedSched Env M) (s : Sched Env) : Prop :=
  ∃ fuel x' s', x.schedExitAllReadyEnvs L fuel = some x' ∧ x'.Represents L s' ∧
    s'.envReadyQueues.flatten = [] ∧
    s'.envExitQueue.Perm (s.envReadyQueues.flatten ++ s.envExitQueue) ∧
    s'.envNewQueue = s.envNewQueue

variable {L} {x x' y : LinkedSched Env M} {s s' : Sched Env} {env : Env} {i fuel : ℕ}

/-! ## One move -/

theorem moves_runBody : Lists.Moves L lists (runBody L) (.ready 0) := by
  intro env x x' hbody
  unfold runBody schedInsertReady at hbody
  split at hbody
  · obtain rfl := Option.some.inj hbody
    refine ⟨L.first_insertHead _ _ env, (L.next_insertHead _ _ env).trans ?_⟩
    exact L.first_remove _ _ (by simp)
  · cases hbody

theorem moves_exitBody (i : ℕ) : Lists.Moves L lists (exitBody L i) .exit := by
  intro env x x' hbody
  obtain rfl := Option.some.inj hbody
  refine ⟨L.first_insertHead _ _ env, (L.next_insertHead _ _ env).trans ?_⟩
  exact L.first_remove _ _ (by simp)

theorem Represents.first (h : x.Represents L s) (q : EnvQueue) :
    L.first x.lists q = (s.contents q).head? :=
  L.first_eq h.lists q

/-- The body of `sched_run_all` moves an environment of NEW to READY queue 0. -/
theorem Represents.exists_runBody (h : x.Represents L s) (henv : env ∈ s.envNewQueue)
    (hpos : 0 < s.numOfReadyQueues) :
    ∃ x' s', runBody L env x = some x' ∧ (s.schedRemoveNew env).schedInsertReady env = some s' ∧
      x'.Represents L s' := by
  have hmem : env ∈ s.contents .new := henv
  have hmove := L.holds_move h.lists hmem (.ready 0)
  have hx : 0 < x.numOfReadyQueues := h.numOfReadyQueues ▸ hpos
  refine ⟨_, _, if_pos hx, if_pos hpos, ⟨?_, ?_, ?_⟩⟩
  · refine cast (congrArg _ (funext fun q => ?_)) hmove
    cases q with
    | new => rfl
    | ready i =>
      refine Eq.trans ?_ (queueAt_push (i := 0) (j := i) hpos).symm
      by_cases hi : i = 0
      · subst hi
        rw [Function.update_self, if_pos rfl]
        rfl
      · rw [Function.update_of_ne (by simpa using hi), if_neg (Ne.symm hi)]
        rfl
    | exit => rfl
  · exact h.numOfReadyQueues.trans length_push.symm
  · exact congrArg (fun st => Function.update (Function.update st env _) env _) h.envStatus

/-- The body of `sched_exit_all_ready_envs` moves an environment of READY queue `i` to EXIT. -/
theorem Represents.removeReady_insertExit (h : x.Represents L s)
    (henv : env ∈ queueAt s.envReadyQueues i) :
    Represents L ((x.remove L (.ready i) env).schedInsertExit L env)
      ((s.removeReadyAt i env).schedInsertExit env) := by
  have hmem : env ∈ s.contents (.ready i) := henv
  have hmove := L.holds_move h.lists hmem .exit
  refine ⟨?_, h.numOfReadyQueues.trans length_drop.symm, ?_⟩
  · refine cast (congrArg _ (funext fun q => ?_)) hmove
    cases q with
    | new => rfl
    | ready j =>
      refine Eq.trans ?_ queueAt_drop.symm
      by_cases hj : j = i
      · subst hj
        rw [Function.update_of_ne (by simp), Function.update_self, if_pos rfl]
        rfl
      · rw [Function.update_of_ne (by simp), Function.update_of_ne (by simpa using hj),
          if_neg (Ne.symm hj)]
        rfl
    | exit => rfl
  · exact congrArg (fun st => Function.update st env _) h.envStatus

/-! ## `sched_run_all` -/

theorem Represents.pos_of_runBody (h : x.Represents L s) (hbody : runBody L env x = some x') :
    0 < s.numOfReadyQueues := by
  unfold runBody LinkedSched.schedInsertReady at hbody
  split at hbody
  · next hpos => exact h.numOfReadyQueues ▸ hpos
  · cases hbody

/-- `sched_run_all` moves every environment of NEW exactly when there is none, or one and
READY queue 0 is empty. -/
theorem runsAll_iff (h : x.Represents L s) :
    RunsAll L x s ↔ s.envNewQueue = [] ∨
      s.envNewQueue.length = 1 ∧ queueAt s.envReadyQueues 0 = [] ∧ 0 < s.numOfReadyQueues := by
  cases hnew : s.envNewQueue with
  | nil =>
    have hfirst : L.first x.lists .new = none := (h.first .new).trans (congrArg _ hnew)
    have hloop : x.schedRunAllLoop L 0 = some x := by
      rw [schedRunAllLoop, hfirst]
      rfl
    refine iff_of_true ⟨0, x, s, hloop, h, hnew, ?_, fun _ _ => rfl, rfl⟩ (Or.inl rfl)
    rw [hnew, List.nil_append]
  | cons env rest =>
    have hfirst : L.first x.lists .new = some env := (h.first .new).trans (congrArg _ hnew)
    have hmem : env ∈ s.envNewQueue := hnew ▸ List.mem_cons_self
    have herase : s.envNewQueue.erase env = rest := by rw [hnew, List.erase_cons_head]
    have hloop : ∀ {fuel y}, x.schedRunAllLoop L fuel = some y ↔
        L.first x.lists (.ready 0) = none ∧ 0 < fuel ∧ runBody L env x = some y := by
      intro fuel y
      rw [schedRunAllLoop, hfirst]
      exact Lists.foreach_eq_some_iff moves_runBody
    refine ⟨fun ⟨fuel, x', s', hrun, hrep, hempty, _⟩ => Or.inr ?_, fun hcond => ?_⟩
    · obtain ⟨htarget, -, hbody⟩ := hloop.1 hrun
      have hpos := h.pos_of_runBody hbody
      obtain ⟨x₁, s₁, hbody₁, hs₁, hrep₁⟩ := h.exists_runBody hmem hpos
      obtain rfl := Option.some.inj (hbody.symm.trans hbody₁)
      obtain ⟨-, rfl⟩ := Sched.schedInsertReady_eq_some hs₁
      -- the queue that is left is the rest of NEW
      have hrest : rest.head? = none := by
        rw [← herase]
        exact (hrep₁.first .new).symm.trans ((hrep.first .new).trans (congrArg _ hempty))
      rw [h.first, List.head?_eq_none_iff] at htarget
      refine ⟨?_, htarget, hpos⟩
      rw [List.head?_eq_none_iff.1 hrest]
      rfl
    · obtain ⟨hlength, htarget, hpos⟩ := hcond.resolve_left (List.cons_ne_nil env rest)
      obtain rfl : rest = [] := List.length_eq_zero_iff.1 (Nat.succ.inj hlength)
      obtain ⟨x₁, s₁, hbody, hs₁, hrep⟩ := h.exists_runBody hmem hpos
      have hready : L.first x.lists (.ready 0) = none := by
        rw [h.first]
        exact List.head?_eq_none_iff.2 htarget
      obtain ⟨-, rfl⟩ := Sched.schedInsertReady_eq_some hs₁
      have hqueue : ∀ j, queueAt (push 0 env s.envReadyQueues) j =
          if 0 = j then env :: queueAt s.envReadyQueues j else queueAt s.envReadyQueues j :=
        fun j => queueAt_push hpos
      refine ⟨1, x₁, _, hloop.2 ⟨hready, Nat.one_pos, hbody⟩, hrep, herase, ?_, fun i hi => ?_, rfl⟩
      · rw [hnew]
        exact List.Perm.of_eq ((hqueue 0).trans (if_pos rfl))
      · exact (hqueue i).trans (if_neg (Ne.symm hi))

/-! ## `sched_exit_all_ready_envs` -/

/-- A level with no environment is passed over. -/
theorem exitLevels_of_nil {levels : List ℕ} (h : x.Represents L s)
    (hq : queueAt s.envReadyQueues i = []) :
    exitLevels L fuel (i :: levels) x = exitLevels L fuel levels x := by
  rw [exitLevels, (h.first (.ready i)).trans (congrArg _ hq)]
  rfl

/-- A level with an environment is left only if EXIT is empty, with one environment moved. -/
theorem exitLevels_of_cons {levels : List ℕ} {rest : List Env} (h : x.Represents L s)
    (hq : queueAt s.envReadyQueues i = env :: rest) :
    exitLevels L fuel (i :: levels) x = some y ↔ s.envExitQueue = [] ∧ 0 < fuel ∧
      exitLevels L fuel levels ((x.remove L (.ready i) env).schedInsertExit L env) = some y := by
  have hexit : L.first x.lists .exit = none ↔ s.envExitQueue = [] := by
    rw [h.first]
    exact List.head?_eq_none_iff
  rw [exitLevels, (h.first (.ready i)).trans (congrArg _ hq)]
  change Option.bind _ _ = _ ↔ _
  rw [Option.bind_eq_some_iff]
  constructor
  · rintro ⟨z, hz, hrest⟩
    obtain ⟨htarget, hfuel, hbody⟩ := (Lists.foreach_eq_some_iff (moves_exitBody i)).1 hz
    obtain rfl := Option.some.inj hbody
    exact ⟨hexit.1 htarget, hfuel, hrest⟩
  · rintro ⟨hempty, hfuel, hrest⟩
    exact ⟨_, (Lists.foreach_eq_some_iff (moves_exitBody i)).2 ⟨hexit.2 hempty, hfuel, rfl⟩,
      hrest⟩

/-- A level with an environment is the one beside which all are empty. -/
theorem eq_of_others_nil {queues : List (List Env)} {k : ℕ} {env' : Env} {rest : List Env}
    (hq : queueAt queues i = env :: rest) (hhead : (queueAt queues k).head? = some env')
    (hothers : i ≠ k → queueAt queues i = []) : k = i ∧ env' = env := by
  have hki : k = i := by
    by_contra hne
    exact List.cons_ne_nil env rest (hq.symm.trans (hothers (Ne.symm hne)))
  rw [hki, hq] at hhead
  exact ⟨hki, (Option.some.inj hhead).symm⟩

/-- The outer loop ends in two cases : the levels are empty, or one of them is not and EXIT
is. -/
theorem exitLevels_eq_some_iff {levels : List ℕ} (hnodup : levels.Nodup) (h : x.Represents L s) :
    exitLevels L fuel levels x = some y ↔
      ((∀ j ∈ levels, queueAt s.envReadyQueues j = []) ∧ y = x) ∨
        ∃ i env, i ∈ levels ∧ (queueAt s.envReadyQueues i).head? = some env ∧
          s.envExitQueue = [] ∧ 0 < fuel ∧
          (∀ j ∈ levels, j ≠ i → queueAt s.envReadyQueues j = []) ∧
          y = (x.remove L (.ready i) env).schedInsertExit L env := by
  induction levels generalizing x s with
  | nil =>
    rw [exitLevels, Option.some.injEq]
    exact ⟨fun heq => Or.inl ⟨fun j hj => absurd hj List.not_mem_nil, heq.symm⟩, fun hcases =>
      hcases.elim (fun hnone => hnone.2.symm) fun ⟨_, _, hmem, _⟩ => absurd hmem List.not_mem_nil⟩
  | cons i levels ih =>
    obtain ⟨hi, hlevels⟩ := List.nodup_cons.1 hnodup
    cases hq : queueAt s.envReadyQueues i with
    | nil =>
      rw [exitLevels_of_nil h hq]
      refine (ih hlevels h).trans (or_congr (and_congr_left' ?_) ?_)
      · rw [List.forall_mem_cons]
        exact (and_iff_right hq).symm
      · constructor
        · rintro ⟨k, env, hk, hhead, hexit, hfuel, hothers, hy⟩
          exact ⟨k, env, List.mem_cons_of_mem i hk, hhead, hexit, hfuel,
            List.forall_mem_cons.2 ⟨fun _ => hq, hothers⟩, hy⟩
        · rintro ⟨k, env, hk, hhead, hexit, hfuel, hothers, hy⟩
          refine ⟨k, env, (List.mem_cons.1 hk).resolve_left fun heq => ?_, hhead, hexit, hfuel,
            (List.forall_mem_cons.1 hothers).2, hy⟩
          rw [heq, hq] at hhead
          cases hhead
    | cons env rest =>
      have hrep := h.removeReady_insertExit (hq ▸ List.mem_cons_self)
      have hothers : ∀ j ∈ levels, queueAt (drop i env s.envReadyQueues) j =
          queueAt s.envReadyQueues j := fun j hj => by
        have hij : i ≠ j := fun heq => hi (heq ▸ hj)
        rw [queueAt_drop, if_neg hij]
      rw [exitLevels_of_cons h hq]
      constructor
      · rintro ⟨hexit, hfuel, hrest⟩
        -- EXIT holds the environment moved, so no second one is moved
        rcases (ih hlevels hrep).1 hrest with ⟨hempty, rfl⟩ | ⟨_, _, _, _, hfull, _⟩
        · exact Or.inr ⟨i, env, List.mem_cons_self, by rw [hq]; rfl, hexit, hfuel,
            List.forall_mem_cons.2 ⟨fun hne => absurd rfl hne, fun j hj _ =>
              (hothers j hj).symm.trans (hempty j hj)⟩, rfl⟩
        · exact absurd hfull (List.cons_ne_nil env _)
      · rintro (⟨hempty, -⟩ | ⟨k, env', hk, hhead, hexit, hfuel, hempty, rfl⟩)
        · exact absurd (hempty i List.mem_cons_self) (by simp [hq])
        · obtain ⟨rfl, rfl⟩ := eq_of_others_nil hq hhead (hempty i List.mem_cons_self)
          refine ⟨hexit, hfuel, (ih hlevels hrep).2 (Or.inl ⟨fun j hj => ?_, rfl⟩)⟩
          exact (hothers j hj).trans
            (hempty j (List.mem_cons_of_mem k hj) fun heq => hi (heq ▸ hj))

/-- `sched_exit_all_ready_envs` moves every ready environment exactly when there is none, or
one and EXIT is empty. -/
theorem exitsAll_iff (h : x.Represents L s) :
    ExitsAll L x s ↔ s.envReadyQueues.flatten = [] ∨
      s.envReadyQueues.flatten.length = 1 ∧ s.envExitQueue = [] := by
  have hrange : ∀ {j}, j ∈ List.range x.numOfReadyQueues ↔ j < s.envReadyQueues.length := by
    intro j
    rw [List.mem_range, h.numOfReadyQueues]
    rfl
  constructor
  · rintro ⟨fuel, x', s', hrun, hrep, hempty, -⟩
    rcases (exitLevels_eq_some_iff List.nodup_range h).1 hrun with
      ⟨hlevels, -⟩ | ⟨i, env, -, hhead, hexit, -, -, rfl⟩
    · refine Or.inl (flatten_eq_nil_iff.2 fun j => ?_)
      by_cases hj : j < s.envReadyQueues.length
      · exact hlevels j (hrange.2 hj)
      · exact queueAt_of_length_le (Nat.le_of_not_lt hj)
    · have hmem := List.mem_of_mem_head? hhead
      have hrep₁ := h.removeReady_insertExit hmem
      -- what is left in READY is what the move left there
      have hleft : (drop i env s.envReadyQueues).flatten = [] := flatten_eq_nil_iff.2 fun j => by
        have hfirst := (hrep₁.first (.ready j)).symm.trans (hrep.first (.ready j))
        rw [Sched.contents, Sched.contents, flatten_eq_nil_iff.1 hempty j] at hfirst
        exact List.head?_eq_none_iff.1 hfirst
      have hperm := drop_perm hmem
      rw [hleft] at hperm
      exact Or.inr ⟨hperm.length_eq, hexit⟩
  · rintro (hempty | ⟨hlength, hexit⟩)
    · have hlevels := flatten_eq_nil_iff.1 hempty
      have hloop : x.schedExitAllReadyEnvs L 0 = some x :=
        (exitLevels_eq_some_iff List.nodup_range h).2 (Or.inl ⟨fun j _ => hlevels j, rfl⟩)
      exact ⟨0, x, s, hloop, h, hempty, by rw [hempty, List.nil_append], rfl⟩
    · obtain ⟨env, hflat⟩ := List.length_eq_one_iff.1 hlength
      obtain ⟨i, hone, hothers⟩ := exists_queueAt_of_flatten hflat
      have hmem : env ∈ queueAt s.envReadyQueues i := hone ▸ List.mem_singleton_self env
      have hloop : x.schedExitAllReadyEnvs L 1 =
          some ((x.remove L (.ready i) env).schedInsertExit L env) :=
        (exitLevels_eq_some_iff List.nodup_range h).2 (Or.inr ⟨i, env,
          hrange.2 (lt_length_of_mem_queueAt hmem), by rw [hone]; rfl, hexit, Nat.one_pos,
          fun j _ hj => hothers j hj, rfl⟩)
      refine ⟨1, _, _, hloop, h.removeReady_insertExit hmem, ?_, ?_, rfl⟩
      · have hperm := drop_perm hmem
        rw [hflat] at hperm
        exact List.length_eq_zero_iff.1 (Nat.succ.inj hperm.length_eq.symm)
      · rw [hflat]
        exact List.Perm.refl _

/-- When the bulk moves take every environment. -/
theorem bulkMoves_iff (h : x.Represents L s) :
    (RunsAll L x s ↔ s.envNewQueue = [] ∨
      s.envNewQueue.length = 1 ∧ queueAt s.envReadyQueues 0 = [] ∧ 0 < s.numOfReadyQueues) ∧
    (ExitsAll L x s ↔ s.envReadyQueues.flatten = [] ∨
      s.envReadyQueues.flatten.length = 1 ∧ s.envExitQueue = []) :=
  ⟨runsAll_iff h, exitsAll_iff h⟩

/-- Queues with these contents, and no environment running. -/
def queues (new : List (Fin 4)) (ready : List (List (Fin 4))) (exit : List (Fin 4)) :
    Sched (Fin 4) :=
  { Sched.schedInit 10 with envNewQueue := new, envReadyQueues := ready, envExitQueue := exit }

/-- One environment in NEW and one in READY queue 1, linked. -/
def fewEnvs : LinkedSched (Fin 4) (Links EnvQueue (Fin 4)) :=
  ⟨Links.build [(.new, 0), (.ready 1, 1)], 2, fun _ => .unknown⟩

theorem fewEnvs_bulkMoves :
    RunsAll Links.lists fewEnvs (queues [0] [[], [1]] []) ∧
      ExitsAll Links.lists fewEnvs (queues [0] [[], [1]] []) := by
  have hcontents : (queues [0] [[], [1]] []).contents = fun q =>
      ([(EnvQueue.new, (0 : Fin 4)), (.ready 1, 1)].filter (·.1 = q)).map Prod.snd := by
    ext q : 1
    match q with
    | .new | .exit | .ready 0 | .ready 1 | .ready (_ + 2) => rfl
  have hrep : fewEnvs.Represents Links.lists (queues [0] [[], [1]] []) :=
    ⟨hcontents ▸ Links.holds_build (by decide), rfl, rfl⟩
  obtain ⟨hrun, hexit⟩ := bulkMoves_iff hrep
  exact ⟨hrun.2 (Or.inr (by decide)), hexit.2 (Or.inr (by decide))⟩

/-- Two environments in NEW, one in READY queue 0 and one in EXIT, linked. -/
def manyEnvs : LinkedSched (Fin 4) (Links EnvQueue (Fin 4)) :=
  ⟨Links.build [(.new, 0), (.new, 1), (.ready 0, 2), (.exit, 3)], 1, fun _ => .unknown⟩

/-- Neither loop ends there : the first environment moved leads into the other queue. -/
theorem manyEnvs_counterexample :
    manyEnvs.Represents Links.lists (queues [0, 1] [[2]] [3]) ∧
      ¬ RunsAll Links.lists manyEnvs (queues [0, 1] [[2]] [3]) ∧
      ¬ ExitsAll Links.lists manyEnvs (queues [0, 1] [[2]] [3]) := by
  have hcontents : (queues [0, 1] [[2]] [3]).contents = fun q =>
      ([(EnvQueue.new, (0 : Fin 4)), (.new, 1), (.ready 0, 2), (.exit, 3)].filter
        (·.1 = q)).map Prod.snd := by
    ext q : 1
    match q with
    | .new | .exit | .ready 0 | .ready (_ + 1) => rfl
  have hrep : manyEnvs.Represents Links.lists (queues [0, 1] [[2]] [3]) :=
    ⟨hcontents ▸ Links.holds_build (by decide), rfl, rfl⟩
  refine ⟨hrep, fun hrun => ?_, fun hexit => ?_⟩
  · exact absurd ((runsAll_iff hrep).1 hrun) (by decide)
  · exact absurd ((exitsAll_iff hrep).1 hexit) (by decide)

end LinkedSched

end FosKernel
