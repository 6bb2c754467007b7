import FosKernel.SchedulerBounds
import Mathlib.Data.Finset.Insert
import Mathlib.Data.Finset.Erase

/-!
# No environment is lost or duplicated

`places s e` counts the places that hold `e` : NEW, the READY queues, EXIT, `curenv`.
Each move of `sched.c` takes an environment out of one place and puts it in another, so
the count is kept by a selection (`places_fosScheduler`) and by `sched_run_env`, and
`Ledger` adds what the calls insert and take out : along a run every environment held
is in one place, once, and every other in none (`held_once`).

`sched_exit_env` is the exception. Its loop over NEW goes on to the end of the queue, so
it inserts the `NULL` it is left with in EXIT, and its last test reads through `curenv`.
`schedExitEnv_moves_iff` : on a state reached by a run, it moves the environment to EXIT
exactly when that environment is not in NEW and some environment runs.
-/

set_option linter.unusedSectionVars false

namespace FosKernel

namespace Sched

open Queues

variable {Env : Type*} [DecidableEq Env] {envId : Env → BitVec 32} {s s' t : Sched Env}
  {e env : Env} {eid : BitVec 32}

/-- How many places hold `e`. -/
def places (s : Sched Env) (e : Env) : ℕ :=
  s.envNewQueue.count e + s.envReadyQueues.flatten.count e + s.envExitQueue.count e +
    s.curenv.toList.count e

theorem count_placedRow {i : ℕ} (h : s.CanPlace i) :
    (s.placedRow i).flatten.count e =
      s.envReadyQueues.flatten.count e + s.curenv.toList.count e := by
  cases hcur : s.curenv with
  | none => rw [placedRow_none hcur, Option.toList_none, List.count_nil, Nat.add_zero]
  | some env => rw [placedRow_some hcur, count_push (h (by simp [hcur])), Option.toList_some]

/-- A selection moves environments between the READY queues and `curenv` only. -/
theorem places_fosScheduler (h : s.fosScheduler = some s') :
    s'.places e = s.places e ∧ s'.envNewQueue = s.envNewQueue ∧
      s'.envExitQueue = s.envExitQueue := by
  obtain ⟨hc, ⟨level, env, -, henv, rfl⟩ | ⟨-, rfl⟩⟩ := fosScheduler_cases h
  · have hrow := count_placedRow (e := e) hc
    have hpop := count_pop (b := e) henv
    refine ⟨?_, rfl, rfl⟩
    simp only [places, runs, Option.toList_some]
    omega
  · have hrow := count_placedRow (e := e) hc
    refine ⟨?_, rfl, rfl⟩
    simp only [places, idles, Option.toList_none, List.count_nil]
    omega

theorem places_schedInsertReady (h : s.schedInsertReady env = some s') :
    s'.places e = s.places e + [env].count e := by
  obtain ⟨hpos, rfl⟩ := schedInsertReady_eq_some h
  have hpush := count_push (a := env) (b := e) hpos
  simp only [places, setStatus]
  omega

theorem places_schedInsertNew : (s.schedInsertNew env).places e = s.places e + [env].count e := by
  have hcons := count_cons_eq (a := env) (b := e) s.envNewQueue
  simp only [places, schedInsertNew, setStatus]
  omega

theorem places_schedInsertExit :
    (s.schedInsertExit env).places e = s.places e + [env].count e := by
  have hcons := count_cons_eq (a := env) (b := e) s.envExitQueue
  simp only [places, schedInsertExit, setStatus]
  omega

theorem places_schedRemoveNew (h : env ∈ s.envNewQueue) :
    (s.schedRemoveNew env).places e + [env].count e = s.places e := by
  have herase : s.envNewQueue.count e = [env].count e + (s.envNewQueue.erase env).count e := by
    rw [(List.perm_cons_erase h).count_eq, count_cons_eq]
  simp only [places, schedRemoveNew, setStatus]
  omega

theorem places_removeReadyAt {i : ℕ} (h : env ∈ queueAt s.envReadyQueues i) :
    (s.removeReadyAt i env).places e + [env].count e = s.places e := by
  have hdrop := count_drop (b := e) h
  simp only [places, removeReadyAt]
  omega

theorem places_curenv_none (h : s.curenv = some env) :
    { s with curenv := none }.places e + [env].count e = s.places e := by
  simp [places, h]

theorem exists_schedInsertReady (h : 0 < s.numOfReadyQueues) :
    ∃ s', s.schedInsertReady env = some s' :=
  ⟨_, if_pos h⟩

/-- Where `indexToEnqueue` is in bounds, the running environment can be put back. -/
theorem IndexOk.canPlace (h : IndexOk s) : s.CanPlace s.placeIndex := by
  intro hcur
  unfold placeIndex
  split
  · exact h.pos
  · next hm => exact h.inside hm (.inl hcur)

theorem exists_schedRunEnv (h : IndexOk s) : ∃ s', s.schedRunEnv envId eid = some s' := by
  unfold schedRunEnv
  split
  · next env _ =>
    have hremove : IndexOk (s.schedRemoveNew env) :=
      h.mono rfl rfl rfl (fun hc => hc) fun _ _ hq => hq
    obtain ⟨t, ht⟩ : ∃ t, (s.schedRemoveNew env).schedInsertReady env = some t :=
      exists_schedInsertReady hremove.pos
    rw [ht, Option.bind_some]
    split
    · exact exists_fosScheduler (hremove.schedInsertReady ht).canPlace
    · exact ⟨t, rfl⟩
  · exact ⟨s, rfl⟩

/-- `sched_run_env` moves an environment from NEW to READY. -/
theorem places_schedRunEnv (h : s.schedRunEnv envId eid = some s') : s'.places e = s.places e := by
  obtain rfl | ⟨env, t, hmem, ht, hs⟩ := schedRunEnv_cases h
  · rfl
  · have hremove := places_schedRemoveNew (e := e) hmem
    have hinsert := places_schedInsertReady (e := e) ht
    rcases hs with rfl | hs
    · omega
    · have hsched := (places_fosScheduler (e := e) hs).1
      omega

/-- `sched_remove_ready` takes a ready environment out, and does nothing to another. -/
theorem schedRemoveReady_cases (hinj : Function.Injective envId) (s : Sched Env) (env : Env) :
    (env ∈ s.envReadyQueues.flatten ∧ ∃ i, env ∈ queueAt s.envReadyQueues i ∧
        s.schedRemoveReady envId env = (s.removeReadyAt i env).setStatus env .unknown) ∨
      (env ∉ s.envReadyQueues.flatten ∧ s.schedRemoveReady envId env = s) := by
  unfold schedRemoveReady
  cases hfind : s.findReady envId (envId env) with
  | none => exact .inr ⟨fun hmem => findReady_eq_none hfind env hmem rfl, rfl⟩
  | some found =>
    obtain ⟨i, env'⟩ := found
    obtain ⟨hi, hid⟩ := findReady_eq_some hfind
    obtain rfl := hinj hid
    exact .inl ⟨mem_flatten_iff.2 ⟨i, hi⟩, i, hi, rfl⟩

/-! ## `sched_exit_env` -/

theorem one_le_places_of_new (h : e ∈ s.envNewQueue) : 1 ≤ s.envNewQueue.count e :=
  List.count_pos_iff.2 h

theorem one_le_places_of_ready {i : ℕ} (h : e ∈ queueAt s.envReadyQueues i) :
    1 ≤ s.envReadyQueues.flatten.count e :=
  List.count_pos_iff.2 (mem_flatten_iff.2 ⟨i, h⟩)

/-- An environment held once is not both ready and running. -/
theorem curenv_ne_of_ready {i : ℕ} (honce : s.places e ≤ 1)
    (h : e ∈ queueAt s.envReadyQueues i) : s.curenv ≠ some e := by
  intro hcur
  have hready := one_le_places_of_ready h
  simp only [places, hcur, Option.toList_some, List.count_singleton_self] at honce
  omega

theorem exists_exitFound {iterator : Option Env} (h : s.curenv ≠ none) :
    ∃ s', s.exitFound envId eid iterator = some s' := by
  obtain ⟨cur, hcur⟩ := Option.ne_none_iff_exists'.1 h
  obtain ⟨t, ht⟩ := exists_fosScheduler (s := { s.insertedExit iterator with curenv := none })
    fun hc => absurd rfl hc
  rw [exitFound_eq, insertedExit_curenv, hcur]
  by_cases hid : envId cur = eid
  · exact ⟨t, by simpa [hid] using ht⟩
  · exact ⟨s.insertedExit iterator, by simp [hid]⟩

/-- With an environment running, `sched_exit_env` returns. -/
theorem exists_schedExitEnv (h : s.curenv ≠ none) : ∃ s', s.schedExitEnv envId eid = some s' := by
  obtain ⟨cur, hcur⟩ := Option.ne_none_iff_exists'.1 h
  unfold schedExitEnv
  dsimp only
  split
  · exact exists_exitFound (by rwa [← clearedNew, (clearedNew_frame s).1])
  · split
    · exact exists_exitFound h
    · rw [hcur]
      dsimp only
      split
      · exact exists_exitFound h
      · exact ⟨s, rfl⟩

/-- An exit out of READY or of `curenv` keeps every environment. -/
theorem places_schedExitEnv (hinj : Function.Injective envId) (honce : ∀ e, s.places e ≤ 1)
    (hnew : ∀ env ∈ s.envNewQueue, envId env ≠ eid) (h : s.schedExitEnv envId eid = some s') :
    s'.places e = s.places e := by
  rcases schedExitEnv_cases h with
    ⟨⟨env, henv, hid⟩, -⟩ | ⟨-, ⟨i, env, hfind, hs⟩ | ⟨-, cur, hcur, ⟨hid, hs⟩ | ⟨-, rfl⟩⟩⟩
  · exact absurd hid (hnew env henv)
  · obtain ⟨hready, hid⟩ := findReady_eq_some hfind
    obtain ⟨cur, hcur, ⟨hcid, -⟩ | ⟨-, rfl⟩⟩ := exitFound_cases hs
    · obtain rfl := hinj (hcid.trans hid.symm)
      exact absurd hcur (curenv_ne_of_ready (s := s) (honce cur) hready)
    · have hremove := places_removeReadyAt (e := e) hready
      have hinsert : ((s.removeReadyAt i env).schedInsertExit env).places e =
          (s.removeReadyAt i env).places e + [env].count e := places_schedInsertExit
      exact hinsert.trans hremove
  · obtain ⟨cur', hcur', ⟨-, hs⟩ | ⟨hne, -⟩⟩ := exitFound_cases hs
    · have hsched := (places_fosScheduler (e := e) hs).1
      have hinsert : (s.schedInsertExit cur).places e = s.places e + [cur].count e :=
        places_schedInsertExit
      have hleave := places_curenv_none (s := s.schedInsertExit cur) (e := e) hcur
      exact hsched.trans (by simp only [insertedExit]; omega)
    · rw [hcur] at hcur'
      obtain rfl := Option.some.inj hcur'
      exact absurd hid hne
  · rfl

/-- `e` is in EXIT, once, and in no other place. -/
structure Exited (s : Sched Env) (e : Env) : Prop where
  exit : s.envExitQueue.count e = 1
  new : e ∉ s.envNewQueue
  ready : e ∉ s.envReadyQueues.flatten
  curenv : s.curenv ≠ some e

theorem exited_of_places (h : s.places e = 1) (hexit : e ∈ s.envExitQueue) : Exited s e := by
  have hpos : 1 ≤ s.envExitQueue.count e := List.count_pos_iff.2 hexit
  unfold places at h
  refine ⟨by omega, ?_, ?_, ?_⟩
  · exact List.count_eq_zero.1 (by omega)
  · exact List.count_eq_zero.1 (by omega)
  · intro hcur
    rw [hcur, Option.toList_some, List.count_singleton_self] at h
    omega

/-- The environment is in EXIT after an exit out of READY or of `curenv`. -/
theorem mem_exit_of_schedExitEnv (hinj : Function.Injective envId) (honce : ∀ e, s.places e ≤ 1)
    (hnew : ∀ env ∈ s.envNewQueue, envId env ≠ envId e)
    (he : e ∈ s.envReadyQueues.flatten ∨ s.curenv = some e)
    (h : s.schedExitEnv envId (envId e) = some s') : e ∈ s'.envExitQueue := by
  rcases schedExitEnv_cases h with
    ⟨⟨env, henv, hid⟩, -⟩ | ⟨-, ⟨i, env, hfind, hs⟩ | ⟨hnone, cur, hcur, ⟨hid, hs⟩ | ⟨hne, -⟩⟩⟩
  · exact absurd hid (hnew env henv)
  · obtain ⟨hready, hid⟩ := findReady_eq_some hfind
    obtain rfl := hinj hid
    obtain ⟨cur, hcur, ⟨hcid, -⟩ | ⟨-, rfl⟩⟩ := exitFound_cases hs
    · obtain rfl := hinj hcid
      exact absurd hcur (curenv_ne_of_ready (s := s) (honce cur) hready)
    · exact List.mem_cons_self
  · obtain rfl := hinj hid
    obtain ⟨cur', hcur', ⟨-, hs⟩ | ⟨hne, -⟩⟩ := exitFound_cases hs
    · rw [(places_fosScheduler (e := cur) hs).2.2]
      exact List.mem_cons_self
    · rw [hcur] at hcur'
      obtain rfl := Option.some.inj hcur'
      exact absurd rfl hne
  · rcases he with hready | he
    · exact absurd rfl (findReady_eq_none hnone e hready)
    · rw [he] at hcur
      obtain rfl := Option.some.inj hcur
      exact absurd rfl hne

/-- An environment found in NEW does not get to EXIT. -/
theorem not_mem_exit_of_new (honce : s.places e ≤ 1) (hnew : e ∈ s.envNewQueue)
    (h : s.schedExitEnv envId (envId e) = some s') : e ∉ s'.envExitQueue := by
  have hexit : e ∉ s.envExitQueue := fun hexit => by
    have hpos := one_le_places_of_new hnew
    have hpos' : 1 ≤ s.envExitQueue.count e := List.count_pos_iff.2 hexit
    unfold places at honce
    omega
  rcases schedExitEnv_cases h with ⟨-, hs⟩ | ⟨hne, -⟩
  · obtain ⟨cur, -, ⟨-, hs⟩ | ⟨-, rfl⟩⟩ := exitFound_cases hs
    · rw [(places_fosScheduler (e := e) hs).2.2]
      exact (clearedNew_frame s).2.2 ▸ hexit
    · exact (clearedNew_frame s).2.2 ▸ hexit
  · exact absurd rfl (hne e hnew)

/-- With no environment running, an exit that finds its environment does not return. -/
theorem schedExitEnv_eq_none (hcur : s.curenv = none) : s.schedExitEnv envId eid = none := by
  by_contra hne
  obtain ⟨s', hs⟩ := Option.ne_none_iff_exists'.1 hne
  have hfound : ∀ {t : Sched Env} {iterator}, t.curenv = none →
      t.exitFound envId eid iterator ≠ some s' := fun ht hs => by
    obtain ⟨cur, hcur, -⟩ := exitFound_cases hs
    rw [ht] at hcur
    cases hcur
  rcases schedExitEnv_cases hs with ⟨-, hs⟩ | ⟨-, ⟨i, env, -, hs⟩ | ⟨-, cur, hcur', -⟩⟩
  · exact hfound ((clearedNew_frame s).1.trans hcur) hs
  · exact hfound (t := s.removeReadyAt i env) hcur hs
  · rw [hcur] at hcur'
    cases hcur'

/-- Where every environment is held once at most, `sched_exit_env` returns and moves an
environment of NEW, of READY or `curenv` to EXIT exactly when some environment runs
and the one to exit is not in NEW. -/
theorem schedExitEnv_moves_iff (hinj : Function.Injective envId) (honce : ∀ e, s.places e ≤ 1)
    (he : e ∈ s.envNewQueue ∨ e ∈ s.envReadyQueues.flatten ∨ s.curenv = some e) :
    (∃ s', s.schedExitEnv envId (envId e) = some s' ∧ Exited s' e) ↔
      s.curenv ≠ none ∧ e ∉ s.envNewQueue := by
  constructor
  · rintro ⟨s', hs, hexit⟩
    refine ⟨fun hcur => ?_, fun hnew => ?_⟩
    · rw [schedExitEnv_eq_none hcur] at hs
      cases hs
    · refine not_mem_exit_of_new (honce e) hnew hs (List.count_pos_iff.1 ?_)
      rw [hexit.exit]
      exact Nat.one_pos
  · rintro ⟨hcur, hnew⟩
    have hids : ∀ env ∈ s.envNewQueue, envId env ≠ envId e := fun env henv hid =>
      hnew (hinj hid ▸ henv)
    have he := he.resolve_left hnew
    obtain ⟨s', hs⟩ : ∃ s', s.schedExitEnv envId (envId e) = some s' := exists_schedExitEnv hcur
    refine ⟨s', hs, exited_of_places ?_ (mem_exit_of_schedExitEnv hinj honce hids he hs)⟩
    rw [places_schedExitEnv hinj honce hids hs]
    refine Nat.le_antisymm (honce e) ?_
    unfold places
    rcases he with hready | he
    · have hpos : 1 ≤ s.envReadyQueues.flatten.count e := List.count_pos_iff.2 hready
      omega
    · rw [he, Option.toList_some, List.count_singleton_self]
      omega

/-! ## Runs -/

/-- The scheduler with the environments inserted and not taken out. -/
structure Ledger (Env : Type*) where
  sched : Sched Env
  held : Finset Env

namespace Ledger

variable {x x' : Ledger Env}

/-- `sched_remove_ready` takes a ready environment out, a departure the running one. -/
def heldAfter (x : Ledger Env) : Call Env → Finset Env
  | .insertNew env | .insertReady env => insert env x.held
  | .removeReady env =>
    if env ∈ x.sched.envReadyQueues.flatten then x.held.erase env else x.held
  | .depart => match x.sched.curenv with
    | some env => x.held.erase env
    | none => x.held
  | _ => x.held

variable (envId) in
/-- A call, with the environments held after it. -/
def step (x : Ledger Env) (c : Call Env) : Option (Ledger Env) :=
  (x.sched.step envId c).map fun s => ⟨s, x.heldAfter c⟩

/-- Every environment is in one place once if it is held, and in none otherwise. -/
structure Once (x : Ledger Env) : Prop where
  places : ∀ e, x.sched.places e = if e ∈ x.held then 1 else 0
  indexOk : IndexOk x.sched

variable (envId) in
/-- `sched_exit_env` is called with an environment running and not for one in NEW. -/
def Exits (x : Ledger Env) : Call Env → Prop
  | .exitEnv id => x.sched.curenv ≠ none ∧ ∀ env ∈ x.sched.envNewQueue, envId env ≠ id
  | _ => True

/-- An environment inserted is held nowhere; a reconfiguration is as in
`index_in_bounds`. -/
def Inserts (x : Ledger Env) : Call Env → Prop
  | .insertNew env | .insertReady env => x.sched.places env = 0
  | c => c.Reconfigures x.sched ∧ c.FindsIndex x.sched

variable (envId) in
/-- The calls that keep every environment in its place. -/
def Keeps (x : Ledger Env) (c : Call Env) : Prop :=
  x.Inserts c ∧ x.Exits envId c

instance decidableInserts : (c : Call Env) → Decidable (x.Inserts c)
  | .insertNew env | .insertReady env => inferInstanceAs (Decidable (x.sched.places env = 0))
  | .initMLFQ n q => inferInstanceAs (Decidable
      (Call.Reconfigures x.sched (.initMLFQ n q) ∧ Call.FindsIndex x.sched (.initMLFQ n q)))
  | .initRR q => inferInstanceAs (Decidable
      (Call.Reconfigures x.sched (.initRR q) ∧ Call.FindsIndex x.sched (.initRR q)))
  | .removeReady _ | .runEnv _ | .exitEnv _ | .schedule | .depart =>
    inferInstanceAs (Decidable (True ∧ True))

instance decidableExits : (c : Call Env) → Decidable (x.Exits envId c)
  | .exitEnv id => inferInstanceAs (Decidable
      (x.sched.curenv ≠ none ∧ ∀ env ∈ x.sched.envNewQueue, envId env ≠ id))
  | .initMLFQ _ _ | .initRR _ | .insertNew _ | .insertReady _ | .removeReady _ | .runEnv _
  | .schedule | .depart => inferInstanceAs (Decidable True)

instance (c : Call Env) : Decidable (Keeps envId x c) :=
  inferInstanceAs (Decidable (_ ∧ _))

theorem Inserts.reconfigures {c : Call Env} (h : x.Inserts c) :
    c.Reconfigures x.sched ∧ c.FindsIndex x.sched := by
  cases c <;> first | exact h | exact ⟨trivial, trivial⟩

theorem Once.le_one (h : Once x) (e : Env) : x.sched.places e ≤ 1 := by
  rw [h.places e]
  split <;> omega

/-- What was in one place and is taken out of it is in none. -/
theorem places_of_erase (h : Once x) (hout : s'.places e + [env].count e = x.sched.places e)
    (henv : 1 ≤ x.sched.places env) :
    s'.places e = if e ∈ x.held.erase env then 1 else 0 := by
  have he := h.places e
  by_cases heq : env = e
  · subst heq
    rw [List.count_singleton_self] at hout
    have hle := h.le_one env
    simp only [Finset.mem_erase, ne_eq, not_true_eq_false, false_and, if_false]
    omega
  · rw [List.count_singleton, beq_false_of_ne heq] at hout
    simp only [Finset.mem_erase, ne_eq, Ne.symm heq, not_false_eq_true, true_and]
    simpa [he] using hout

/-- What was in no place and is inserted is in one. -/
theorem places_of_insert (h : Once x) (hin : s'.places e = x.sched.places e + [env].count e)
    (henv : x.sched.places env = 0) :
    s'.places e = if e ∈ insert env x.held then 1 else 0 := by
  have he := h.places e
  by_cases heq : env = e
  · subst heq
    simpa [henv] using hin
  · rw [List.count_singleton, beq_false_of_ne heq] at hin
    simpa [Ne.symm heq, he] using hin

theorem places_of_idle {t : Sched Env} (hidle : s.Idle) (hnew : t.envNewQueue = s.envNewQueue)
    (hready : ∀ q ∈ t.envReadyQueues, q = []) (hexit : t.envExitQueue = s.envExitQueue)
    (hcur : t.curenv = s.curenv) : t.places e = s.places e := by
  have hflat : t.envReadyQueues.flatten = [] := List.flatten_eq_nil_iff.2 hready
  simp only [places, hnew, hexit, hcur, hflat, hidle.2]

/-- Every call within `Keeps` keeps `Once`. -/
theorem step_once (hinj : Function.Injective envId) {c : Call Env} (h : Once x)
    (hc : Keeps envId x c) (hx : x.step envId c = some x') : Once x' := by
  obtain ⟨s', hs, rfl⟩ := Option.map_eq_some_iff.1 hx
  refine ⟨fun e => ?_, step_indexOk h.indexOk hc.1.reconfigures hs⟩
  have he := h.places e
  cases c with
  | initMLFQ n q =>
    obtain rfl := Option.some.inj hs
    exact (places_of_idle (t := x.sched.schedInitMLFQ n q) hc.1.1.1 rfl
      (fun q hq => List.eq_of_mem_replicate hq) rfl rfl).trans he
  | initRR q =>
    obtain rfl := Option.some.inj hs
    exact (places_of_idle (t := x.sched.schedInitRR q) hc.1.1 rfl
      (fun q hq => List.mem_singleton.1 hq) rfl rfl).trans he
  | insertNew env =>
    obtain rfl := Option.some.inj hs
    exact places_of_insert h places_schedInsertNew hc.1
  | insertReady env => exact places_of_insert h (places_schedInsertReady hs) hc.1
  | removeReady env =>
    obtain rfl := Option.some.inj hs
    rcases schedRemoveReady_cases hinj x.sched env with ⟨hmem, i, hi, heq⟩ | ⟨hmem, heq⟩
    · have hremove := places_removeReadyAt (e := e) hi
      have hpos := one_le_places_of_ready hi
      simp only [heldAfter, if_pos hmem]
      refine places_of_erase h ?_ (by unfold places; omega)
      rw [heq]
      exact hremove
    · simp only [heldAfter, if_neg hmem]
      rw [heq]
      exact he
  | runEnv eid => exact (places_schedRunEnv hs).trans he
  | exitEnv eid => exact (places_schedExitEnv hinj h.le_one hc.2.2 hs).trans he
  | schedule => exact (places_fosScheduler hs).1.trans he
  | depart =>
    obtain rfl := Option.some.inj hs
    cases hcur : x.sched.curenv with
    | none =>
      simp only [heldAfter, hcur, ← he]
      simp [places, hcur]
    | some env =>
      simp only [heldAfter, hcur]
      refine places_of_erase h (places_curenv_none hcur) ?_
      simp only [places, hcur, Option.toList_some, List.count_singleton_self]
      omega

/-- Every call within `Keeps` returns. -/
theorem exists_step {c : Call Env} (h : IndexOk x.sched) (hc : Keeps envId x c) :
    ∃ x', x.step envId c = some x' := by
  have hstep : ∃ s', x.sched.step envId c = some s' := by
    cases c with
    | insertReady env => exact exists_schedInsertReady h.pos
    | runEnv eid => exact exists_schedRunEnv h
    | exitEnv eid => exact exists_schedExitEnv hc.2.1
    | schedule => exact exists_fosScheduler h.canPlace
    | _ => exact ⟨_, rfl⟩
  obtain ⟨s', hs⟩ := hstep
  exact ⟨_, Option.map_eq_some_iff.2 ⟨s', hs, rfl⟩⟩

/-- Along every run from `sched_init` within `Keeps`, every environment inserted and not
taken out is in one place, once, and every other in none; every such call returns; and
`sched_exit_env` moves an environment to EXIT exactly when one runs and this one is not
in NEW. -/
theorem held_once (hinj : Function.Injective envId) {clockInterval : UInt8}
    {calls : List (Call Env)}
    (hok : Machine.Meets (step envId) (Keeps envId) ⟨schedInit clockInterval, ∅⟩ calls)
    (hrun : Machine.run (step envId) ⟨schedInit clockInterval, ∅⟩ calls = some x) :
    (∀ e, x.sched.places e = if e ∈ x.held then 1 else 0) ∧
      (∀ c, Keeps envId x c → ∃ x', x.step envId c = some x') ∧
      ∀ e, e ∈ x.sched.envNewQueue ∨ e ∈ x.sched.envReadyQueues.flatten ∨
          x.sched.curenv = some e →
        ((∃ s', x.sched.schedExitEnv envId (envId e) = some s' ∧ Exited s' e) ↔
          x.sched.curenv ≠ none ∧ e ∉ x.sched.envNewQueue) := by
  have hstart : Once (⟨schedInit clockInterval, ∅⟩ : Ledger Env) :=
    ⟨fun e => rfl, .schedInitRR clockInterval⟩
  have h : Once x := Machine.run_induction_of_meets (P := Once)
    (fun _ _ _ h hc hs => step_once hinj h hc hs) hstart hok hrun
  exact ⟨h.places, fun c hc => exists_step h.indexOk hc,
    fun e he => schedExitEnv_moves_iff hinj h.le_one he⟩

/-- Two environments, told apart by their ids. -/
def twoIds (e : Fin 2) : BitVec 32 :=
  BitVec.ofNat 32 e

theorem twoIds_injective : Function.Injective twoIds := by
  unfold Function.Injective
  decide

/-- Both are inserted, the first is run, then the second, and the second exits. -/
def runBoth : List (Call (Fin 2)) :=
  (List.finRange 2).map .insertNew ++ [.runEnv 0#32, .runEnv 1#32, .exitEnv 1#32]

theorem runBoth_held_once :
    ∃ x, Machine.run (step twoIds) ⟨schedInit 10, ∅⟩ runBoth = some x ∧
      x.sched.envExitQueue = [1] ∧ ∀ e, x.sched.places e = if e ∈ x.held then 1 else 0 := by
  have hrun : (Machine.run (step twoIds) ⟨schedInit 10, ∅⟩ runBoth).map
      (fun x => x.sched.envExitQueue) = some [1] := by decide
  obtain ⟨x, hx, hexit⟩ := Option.map_eq_some_iff.1 hrun
  exact ⟨x, hx, hexit, (held_once twoIds_injective (by decide) hx).1⟩

/-- Both are inserted, the first is run, and the second exits out of NEW. -/
def exitFromNew : List (Call (Fin 2)) :=
  (List.finRange 2).map .insertNew ++ [.runEnv 0#32, .exitEnv 1#32]

/-- The environment that exits out of NEW is lost : it was inserted, and no place holds it. -/
theorem exitFromNew_loses :
    Machine.Meets (step twoIds) (fun x c => x.Inserts c) ⟨schedInit 10, ∅⟩ exitFromNew ∧
      ∃ x, Machine.run (step twoIds) ⟨schedInit 10, ∅⟩ exitFromNew = some x ∧
        (1 : Fin 2) ∈ x.held ∧ x.sched.places 1 = 0 := by
  have hrun : (Machine.run (step twoIds) ⟨schedInit 10, ∅⟩ exitFromNew).map
      (fun x => (decide (1 ∈ x.held), x.sched.places 1)) = some (true, 0) := by decide
  obtain ⟨x, hx, hobs⟩ := Option.map_eq_some_iff.1 hrun
  obtain ⟨hheld, hplaces⟩ := Prod.mk.inj hobs
  exact ⟨by decide, x, hx, of_decide_eq_true hheld, hplaces⟩

end Ledger

end Sched

end FosKernel
