import FosKernel.Machine
import FosKernel.RotatingQueue
import FosKernel.SchedulerSteps

/-!
# Round robin

Under `SCH_RR` the running environment and READY queue 0 are a rotating queue
(`Sched.wheel`) : `fos_scheduler` is a turn of it, `sched_insert_ready` an arrival, and
`curenv` set to `NULL` a departure (`step_wheel`). So an environment with `j`
environments ahead of it is selected by the `j + 1`-th selection that follows, and
with no arrival and no departure the selections go round the environments
(`roundRobin_fair`).
-/

set_option linter.unusedSectionVars false

namespace FosKernel

namespace Sched

open Queues RotatingQueue

variable {Env : Type*} {s s' t : Sched Env} {env : Env}

/-- `curenv` and the one READY queue. -/
def wheel (s : Sched Env) : Wheel Env :=
  ⟨s.curenv, queueAt s.envReadyQueues 0⟩

/-- Round robin, with its queue. -/
structure RoundRobin (s : Sched Env) : Prop where
  method : s.schedulerMethod = .rr
  pos : 0 < s.numOfReadyQueues

theorem roundRobin_schedInitRR (q : UInt8) : RoundRobin (s.schedInitRR q) :=
  ⟨rfl, Nat.zero_lt_one⟩

theorem RoundRobin.placeIndex (h : RoundRobin s) : s.placeIndex = 0 := by
  simp [Sched.placeIndex, h.method]

theorem RoundRobin.queueAt_placedRow (h : RoundRobin s) :
    queueAt (s.placedRow 0) 0 = s.wheel.all := by
  cases hcur : s.curenv with
  | none => simp [placedRow_none hcur, wheel, Wheel.all, hcur]
  | some env =>
    rw [placedRow_some hcur, queueAt_push h.pos, if_pos rfl]
    simp [wheel, Wheel.all, hcur]

/-- `fos_scheduler` is a turn. -/
theorem RoundRobin.fosScheduler (h : RoundRobin s) :
    ∃ t, s.fosScheduler = some t ∧ RoundRobin t ∧ t.wheel = s.wheel.turn := by
  have hplace : s.CanPlace s.placeIndex := fun _ => by
    rw [h.placeIndex]
    exact h.pos
  refine ⟨_, fosScheduler_of_canPlace hplace, ?_⟩
  rw [h.placeIndex]
  have hlength : 0 < (s.placedRow 0).length := by
    rw [length_placedRow]
    exact h.pos
  rcases select_cases s (s.placedRow 0) with
    ⟨level, env, hlevel, henv, hselect⟩ | ⟨hlevel, hselect⟩
  all_goals simp only [levelOf, h.method, h.queueAt_placedRow] at hlevel
  · split at hlevel
    · cases hlevel
    · obtain rfl := Option.some.inj hlevel
      rw [h.queueAt_placedRow] at henv
      refine ⟨⟨hselect ▸ h.method, ?_⟩, ?_⟩
      · rw [hselect]
        exact hlength.trans_eq length_pop.symm
      · rw [hselect, wheel, Wheel.turn, henv, runs, queueAt_pop, if_pos rfl, h.queueAt_placedRow]
  · split at hlevel
    · next hnil =>
      refine ⟨⟨hselect ▸ h.method, hselect ▸ hlength⟩, ?_⟩
      rw [hselect, wheel, Wheel.turn, hnil, idles, h.queueAt_placedRow, hnil]
      rfl
    · cases hlevel

/-! ## Calls -/

section Calls

variable [DecidableEq Env] {envId : Env → BitVec 32} {calls : List (Call Env)}

/-- The calls whose interleaving is looked at. -/
def Call.Rotates : Call Env → Prop
  | .schedule | .insertReady _ | .depart => True
  | _ => False

/-- What arrives neither waits nor runs. -/
def Call.New (s : Sched Env) : Call Env → Prop
  | .insertReady env => env ∉ queueAt s.envReadyQueues 0 ∧ s.curenv ≠ some env
  | _ => True

instance decidableRotates : (c : Call Env) → Decidable c.Rotates
  | .schedule | .insertReady _ | .depart => inferInstanceAs (Decidable True)
  | .initMLFQ _ _ | .initRR _ | .insertNew _ | .removeReady _ | .runEnv _ | .exitEnv _ =>
    inferInstanceAs (Decidable False)

instance decidableNew {s : Sched Env} : (c : Call Env) → Decidable (c.New s)
  | .insertReady env => inferInstanceAs
      (Decidable (env ∉ queueAt s.envReadyQueues 0 ∧ s.curenv ≠ some env))
  | .initMLFQ _ _ | .initRR _ | .insertNew _ | .removeReady _ | .runEnv _ | .exitEnv _
  | .schedule | .depart => inferInstanceAs (Decidable True)

/-- The call is one of `fos_scheduler`. -/
def Call.isSchedule : Call Env → Bool
  | .schedule => true
  | _ => false

/-- What a call is to the wheel. -/
def Call.event : Call Env → Event Env
  | .schedule => .turn
  | .insertReady env => .arrive env
  | _ => .leave

/-- Each call is its event on the wheel. -/
theorem step_wheel {c : Call Env} (h : RoundRobin s) (hc : c.Rotates) :
    ∃ t, s.step envId c = some t ∧ RoundRobin t ∧ t.wheel = s.wheel.step c.event := by
  cases c with
  | schedule => exact h.fosScheduler
  | insertReady env =>
    refine ⟨_, if_pos h.pos, ⟨h.method, h.pos.trans_eq length_push.symm⟩, ?_⟩
    change (⟨s.curenv, queueAt (push 0 env s.envReadyQueues) 0⟩ : Wheel Env) = _
    rw [queueAt_push h.pos, if_pos rfl]
    rfl
  | depart => exact ⟨_, rfl, ⟨h.method, h.pos⟩, rfl⟩
  | _ => exact hc.elim

/-- A run is a run of the wheel. -/
theorem run_wheel (envId : Env → BitVec 32) (h : RoundRobin s) (hc : ∀ c ∈ calls, c.Rotates) :
    ∃ t, Machine.run (step envId) s calls = some t ∧ RoundRobin t ∧
      t.wheel = s.wheel.run (calls.map Call.event) := by
  induction calls generalizing s with
  | nil => exact ⟨s, rfl, h, rfl⟩
  | cons c calls ih =>
    obtain ⟨t, ht, hrr, hwheel⟩ := step_wheel h (hc c List.mem_cons_self)
    obtain ⟨u, hu, hrr', hwheel'⟩ := ih hrr fun c' hc' => hc c' (List.mem_cons_of_mem c hc')
    refine ⟨u, (Machine.run_cons_eq_some _).2 ⟨t, ht, hu⟩, hrr', ?_⟩
    rw [hwheel', hwheel]
    rfl

theorem turns_map_event (calls : List (Call Env)) :
    Wheel.turns (calls.map Call.event) = calls.countP Call.isSchedule := by
  induction calls with
  | nil => rfl
  | cons c calls ih =>
    rw [List.map_cons, List.countP_cons]
    cases c with
    | schedule => exact congrArg (· + 1) ih
    | _ => exact ih

/-- No call makes two of an environment. -/
theorem nodup_step {c : Call Env} (h : RoundRobin s ∧ s.wheel.all.Nodup)
    (hc : c.Rotates ∧ c.New s) (hs : s.step envId c = some s') :
    RoundRobin s' ∧ s'.wheel.all.Nodup := by
  obtain ⟨t, ht, hrr, hwheel⟩ := step_wheel h.1 hc.1
  obtain rfl := Option.some.inj (hs.symm.trans ht)
  refine ⟨hrr, hwheel ▸ Wheel.nodup_all_step h.2 fun env heq => ?_⟩
  cases c with
  | insertReady env' =>
    obtain rfl := Event.arrive.inj heq
    rw [Wheel.all, List.mem_append, Option.mem_toList]
    exact not_or.2 ⟨hc.2.2, hc.2.1⟩
  | _ => cases heq

/-- The environment that the last of `i + 1` selections in a row runs. -/
def selection (envId : Env → BitVec 32) (s : Sched Env) (i : ℕ) : Option Env :=
  (Machine.run (step envId) s (List.replicate (i + 1) .schedule)).bind curenv

theorem selection_eq (h : RoundRobin s) (i : ℕ) :
    s.selection envId i = (Wheel.turn^[i + 1] s.wheel).running := by
  have hc : ∀ c ∈ List.replicate (i + 1) (Call.schedule : Call Env), c.Rotates := fun c hc => by
    rw [List.eq_of_mem_replicate hc]
    trivial
  have hiterate : ∀ (n : ℕ) (w : Wheel Env), w.run (List.replicate n .turn) = Wheel.turn^[n] w :=
    fun n => by
      induction n with
      | zero => exact fun w => rfl
      | succ n ih => exact fun w => ih w.turn
  obtain ⟨t, ht, -, hwheel⟩ := run_wheel envId h hc
  rw [List.map_replicate] at hwheel
  rw [selection, ht, Option.bind_some, ← hiterate]
  exact congrArg Wheel.running hwheel

/-- The environments in the order in which they will be selected : the oldest of READY
queue 0 first, the running one last. -/
def ring (s : Sched Env) : List Env :=
  s.wheel.ring

/-- An environment with `j` environments ahead of it in the queue is selected by the
`j + 1`-th selection, whatever arrives and leaves. -/
theorem RoundRobin.bounded_waiting {newer older : List Env} (h : RoundRobin s)
    (hc : ∀ c ∈ calls, c.Rotates) (hqueue : queueAt s.envReadyQueues 0 = newer ++ env :: older)
    (hmany : older.length < calls.countP Call.isSchedule) :
    ∃ before after t, calls = before ++ .schedule :: after ∧
      before.countP Call.isSchedule = older.length ∧
      Machine.run (step envId) s (before ++ [.schedule]) = some t ∧ t.curenv = some env := by
  rw [← turns_map_event] at hmany
  obtain ⟨before, after, hsplit, hturns, hrunning⟩ :=
    Wheel.exists_turn (w := s.wheel) _ ⟨newer, older, hqueue, rfl⟩ hmany
  obtain ⟨before, rest, rfl, rfl, hrest⟩ := List.map_eq_append_iff.1 hsplit
  obtain ⟨c, after, rfl, hturn, rfl⟩ := List.map_eq_cons_iff.1 hrest
  have hschedule : c = .schedule := by
    cases c <;> first | rfl | cases hturn
  subst hschedule
  rw [turns_map_event] at hturns
  have hupto : ∀ c ∈ before ++ [.schedule], c.Rotates := fun c hmem => by
    refine hc c ?_
    rw [List.append_cons]
    exact List.mem_append_left _ hmem
  obtain ⟨t, ht, -, hwheel⟩ := run_wheel envId h hupto
  refine ⟨before, after, t, rfl, hturns, ht, ?_⟩
  rw [List.map_append, Wheel.run, List.foldl_append] at hwheel
  exact (congrArg Wheel.running hwheel).trans hrunning

/-- Round robin from `sched_init_RR` on, with selections, arrivals of new environments and
departures : an environment with `j` environments ahead of it is selected by the
`j + 1`-th selection that follows, whatever arrives; selections alone run the `k`
environments round and round, each of them once in every `k` in a row. -/
theorem roundRobin_fair {s₀ : Sched Env} {q : UInt8}
    (hcalls : Machine.Meets (step envId) (fun s c => c.Rotates ∧ c.New s) (s₀.schedInitRR q) calls)
    (hrun : Machine.run (step envId) (s₀.schedInitRR q) calls = some s) :
    (∀ later : List (Call Env), (∀ c ∈ later, c.Rotates) → ∀ newer env older,
      queueAt s.envReadyQueues 0 = newer ++ env :: older →
      older.length < later.countP Call.isSchedule →
      ∃ before after t, later = before ++ .schedule :: after ∧
        before.countP Call.isSchedule = older.length ∧
        Machine.run (step envId) s (before ++ [.schedule]) = some t ∧ t.curenv = some env) ∧
    (∀ i, s.selection envId i = s.ring[i % s.ring.length]?) ∧
    ∀ env ∈ s.ring, ∀ m, ∃! i,
      (m ≤ i ∧ i < m + s.ring.length) ∧ s.selection envId i = some env := by
  have hstart : (s₀.schedInitRR q).wheel.all.Nodup := by
    change (s₀.curenv.toList ++ []).Nodup
    cases s₀.curenv with
    | none => exact List.nodup_nil
    | some env => exact List.nodup_singleton env
  have hinv : RoundRobin s ∧ s.wheel.all.Nodup :=
    Machine.run_induction_of_meets (P := fun s => RoundRobin s ∧ s.wheel.all.Nodup)
      (fun _ _ _ h hc hs => nodup_step h hc hs) ⟨roundRobin_schedInitRR q, hstart⟩ hcalls hrun
  obtain ⟨h, hnodup⟩ := hinv
  refine ⟨fun later hlater newer env older hqueue hmany =>
    h.bounded_waiting hlater hqueue hmany, fun i => ?_, fun env henv m => ?_⟩
  · rw [selection_eq h, Wheel.running_iterate_turn, ring]
  · simp only [selection_eq h]
    exact Wheel.existsUnique_turn hnodup henv m

/-- Three environments arrive and the first of them runs. -/
def threeArrivals : List (Call (Fin 3)) :=
  (List.finRange 3).map .insertReady ++ [.schedule]

theorem threeArrivals_fair :
    ∃ s : Sched (Fin 3), s.curenv = some 0 ∧ s.ring = [1, 2, 0] ∧
      (∃ before after t, [Call.schedule, .insertReady 0, .depart, .schedule] =
          before ++ .schedule :: after ∧ before.countP Call.isSchedule = 1 ∧
        Machine.run (step fun _ => 7#32) s (before ++ [.schedule]) = some t ∧
        t.curenv = some 2) ∧
      ∃! i, (5 ≤ i ∧ i < 8) ∧ s.selection (fun _ => 7#32) i = some 1 := by
  have hcalls : Machine.Meets (step fun _ => 7#32) (fun s c => c.Rotates ∧ c.New s)
      ((schedInit 10).schedInitRR 10) threeArrivals := by
    decide
  have hrun : (Machine.run (step fun _ => 7#32) ((schedInit 10).schedInitRR 10)
      threeArrivals).map (fun s => (s.curenv, queueAt s.envReadyQueues 0)) =
        some (some 0, [2, 1]) := by
    decide
  obtain ⟨s, hs, hobs⟩ := Option.map_eq_some_iff.1 hrun
  obtain ⟨hcur, hqueue⟩ := Prod.mk.inj hobs
  have hring : s.ring = [1, 2, 0] := by
    rw [ring, wheel, hcur, hqueue]
    rfl
  obtain ⟨hwaiting, -, honce⟩ := roundRobin_fair hcalls hs
  refine ⟨s, hcur, hring, hwaiting _ (by decide) [] 2 [1] hqueue (by decide), ?_⟩
  have h1 := honce 1 (by rw [hring]; decide) 5
  rwa [hring] at h1

end Calls

end Sched

end FosKernel
