import FosKernel.Machine
import FosKernel.SchedulerSteps

/-!
# The demotion law of MLFQ

An environment that `fos_scheduler_MLFQ` selects from level `i` and that is still
running at the next step should go to level `min (i + 1) (n - 1)` of the `n` levels.
The level of the running environment is in no field of it : it is what
`indexToEnqueue` was last set to. `Traced` carries beside the scheduler what its
globals forget, namely when and in which level each environment was last put in a
queue; `DemotionLaw` states the law of one step in these terms.

A selection of the last level leaves `indexToEnqueue` alone, which is right when the
environment selected is the one just put back there, and wrong when `curenv` was
`NULL` and the index is left over from another environment. `demotion_law` : along a
run in which that does not happen (`Event.KeepsIndex`), every step obeys the law and no
environment's level decreases between two of its arrivals. `passingBy_breaks_law` is a
run in which it happens, and an environment of the last level of three is put in the
second.
-/

set_option linter.unusedSectionVars false

namespace FosKernel

namespace Mlfq

open Queues Sched

variable {Env : Type*} [DecidableEq Env]

/-- A step of `fos_scheduler` under MLFQ, an arrival by `sched_insert_ready`, or the
running environment leaving with `curenv` set to `NULL`. -/
inductive Event (Env : Type*) where
  | schedule
  | arrive (env : Env)
  | depart
  deriving DecidableEq

/-- The scheduler, with the history of its queues. -/
structure Traced (Env : Type*) where
  sched : Sched Env
  /-- How many times an environment was put in a queue. -/
  now : ℕ
  /-- When each environment was last put in a queue. -/
  since : Env → ℕ
  /-- The level each environment was last put in. -/
  level : Env → Option ℕ

namespace Traced

/-- The history once `env` is put in level `i`. -/
def mark (env : Env) (i : ℕ) (x : Traced Env) : Traced Env :=
  { x with
    now := x.now + 1
    since := Function.update x.since env x.now
    level := Function.update x.level env (some i) }

/-- The history once `curenv` is back in a queue. -/
def markCurenv (x : Traced Env) : Traced Env :=
  match x.sched.curenv with
  | some env => x.mark env x.sched.indexToEnqueue
  | none => x

/-- An event, with its history. -/
def step (x : Traced Env) : Event Env → Option (Traced Env)
  | .schedule => x.sched.fosScheduler.map fun s => { x.markCurenv with sched := s }
  | .arrive env => (x.sched.schedInsertReady env).map fun s => { x.mark env 0 with sched := s }
  | .depart => some { x with sched := { x.sched with curenv := none } }

/-- No environment has been in a queue yet. -/
def start (s : Sched Env) : Traced Env :=
  { sched := s, now := 0, since := fun _ => 0, level := fun _ => none }

end Traced

/-- An arrival is of an environment that neither waits nor runs. -/
def Event.Arrives (x : Traced Env) : Event Env → Prop
  | .arrive env => env ∉ x.sched.envReadyQueues.flatten ∧ x.sched.curenv ≠ some env
  | _ => True

/-- A step with `curenv` at `NULL` that is to select the last level finds
`indexToEnqueue` at that level. -/
def Event.KeepsIndex (x : Traced Env) : Event Env → Prop
  | .schedule => x.sched.curenv = none →
      x.sched.getSelectedLevel = some (x.sched.numOfReadyQueues - 1) →
        x.sched.indexToEnqueue = x.sched.numOfReadyQueues - 1
  | _ => True

instance decidableArrives {x : Traced Env} : (ev : Event Env) → Decidable (ev.Arrives x)
  | .arrive env => inferInstanceAs
      (Decidable (env ∉ x.sched.envReadyQueues.flatten ∧ x.sched.curenv ≠ some env))
  | .schedule | .depart => inferInstanceAs (Decidable True)

instance decidableKeepsIndex {x : Traced Env} : (ev : Event Env) → Decidable (ev.KeepsIndex x)
  | .schedule => inferInstanceAs (Decidable (x.sched.curenv = none →
      x.sched.getSelectedLevel = some (x.sched.numOfReadyQueues - 1) →
        x.sched.indexToEnqueue = x.sched.numOfReadyQueues - 1))
  | .arrive _ | .depart => inferInstanceAs (Decidable True)

/-- `x'` runs the environment of level `i` of the queues `row` that has waited longest,
with the quantum of that level, and the lower-numbered levels are empty. -/
structure Selects (q : ℕ → UInt8) (row : List (List Env)) (x' : Traced Env) (i : ℕ) (env : Env) :
    Prop where
  mem : env ∈ queueAt row i
  lowest : ∀ j < i, queueAt row j = []
  longest : ∀ env' ∈ queueAt row i, env' ≠ env → x'.since env < x'.since env'
  curenv : x'.sched.curenv = some env
  quantum : x'.sched.clockQuantum = q i
  level : x'.level env = some i

/-- A step puts the running environment, last put in level `i`, one level down if there
is one. -/
def Demotes (n : ℕ) (x : Traced Env) : Prop :=
  ∀ env i, x.sched.curenv = some env → x.level env = some i →
    x.sched.enqueueCurenv x.sched.indexToEnqueue = some { x.sched with
      envReadyQueues := push (min (i + 1) (n - 1)) env x.sched.envReadyQueues }

/-- The law of one step of `fos_scheduler_MLFQ` with `n` levels and their quantums. -/
structure DemotionLaw (n : ℕ) (q : ℕ → UInt8) (x x' : Traced Env) : Prop where
  demotes : Demotes n x
  /-- Then the lowest non-empty level gives the environment that has waited longest. -/
  selects : ∃ t, x.sched.enqueueCurenv x.sched.indexToEnqueue = some t ∧
    ((∃ i env, Selects q t.envReadyQueues x' i env) ∨
      (t.envReadyQueues.flatten = [] ∧ x'.sched.curenv = none))

/-! ## The history of a row of queues -/

variable {x x' : Traced Env} {n : ℕ} {q : ℕ → UInt8} {row : List (List Env)}

/-- The history tells where each element of the row waits, and since when. -/
structure Recorded (x : Traced Env) (row : List (List Env)) : Prop where
  stamped : Stamped x.since x.now row
  level : ∀ i, ∀ env ∈ queueAt row i, x.level env = some i

namespace Recorded

theorem push {env : Env} {i : ℕ} (h : Recorded x row) (hi : i < row.length)
    (henv : env ∉ row.flatten) : Recorded (x.mark env i) (push i env row) := by
  refine ⟨h.stamped.push hi henv, fun j env' hmem => ?_⟩
  have hold : ∀ j, ∀ env' ∈ queueAt row j, (x.mark env i).level env' = some j :=
    fun j env' hmem => by
      have hne : env' ≠ env := fun heq => henv (mem_flatten_iff.2 ⟨j, heq ▸ hmem⟩)
      simp only [Traced.mark, Function.update_of_ne hne]
      exact h.level j env' hmem
  rw [queueAt_push hi] at hmem
  split at hmem
  · next hij =>
    rcases List.mem_cons.1 hmem with rfl | hmem
    · simp [Traced.mark, hij]
    · exact hold j env' hmem
  · exact hold j env' hmem

theorem pop {i : ℕ} (h : Recorded x row) : Recorded x (pop i row) := by
  refine ⟨h.stamped.pop, fun j env hmem => h.level j env ?_⟩
  rw [queueAt_pop] at hmem
  split at hmem
  · exact (List.dropLast_sublist _).mem hmem
  · exact hmem

/-- An environment taken out of its queue is in no queue. -/
theorem notMem_pop {i : ℕ} {env : Env} (h : Recorded x row)
    (henv : (queueAt row i).getLast? = some env) : env ∉ (Queues.pop i row).flatten := by
  intro hmem
  obtain ⟨j, hj⟩ := mem_flatten_iff.1 hmem
  have hi := h.level i env (List.mem_of_getLast? henv)
  obtain rfl : i = j := Option.some.inj (hi.symm.trans (h.pop.level j env hj))
  rw [queueAt_pop, if_pos rfl] at hj
  exact h.stamped.getLast_notMem_dropLast henv hj

end Recorded

/-! ## The invariant -/

/-- What holds of MLFQ with `n` levels between two events. -/
structure Inv (n : ℕ) (q : ℕ → UInt8) (x : Traced Env) : Prop where
  method : x.sched.schedulerMethod = .mlfq
  num : x.sched.numOfReadyQueues = n
  quantum : ∀ i < n, x.sched.quantum i = q i
  recorded : Recorded x x.sched.envReadyQueues
  level_lt : ∀ env i, x.level env = some i → i < n
  apart : ∀ env, x.sched.curenv = some env → env ∉ x.sched.envReadyQueues.flatten
  inside : x.sched.curenv ≠ none → x.sched.indexToEnqueue < n
  /-- The index is one level below the one the running environment came from. -/
  below : ∀ env i, x.sched.curenv = some env → x.level env = some i →
    x.sched.indexToEnqueue = min (i + 1) (n - 1)

namespace Inv

theorem start {s : Sched Env} (hidx : s.curenv ≠ none → s.indexToEnqueue < n) :
    Inv n q (Traced.start (s.schedInitMLFQ n q)) := by
  have hnil : ∀ i, queueAt (List.replicate n ([] : List Env)) i = [] := fun i => by
    by_cases hi : i < n <;> simp [queueAt, hi]
  have hflat : (List.replicate n ([] : List Env)).flatten = [] := flatten_eq_nil_iff.2 hnil
  refine ⟨rfl, List.length_replicate, fun i hi => ?_, ⟨Stamped.of_forall_nil hnil, ?_⟩, ?_,
    ?_, hidx, ?_⟩
  · simp [Traced.start, schedInitMLFQ, Sched.quantum, hi]
  · intro i env hmem
    simp only [Traced.start, schedInitMLFQ, hnil i] at hmem
    exact absurd hmem List.not_mem_nil
  · intro env i hlevel
    cases hlevel
  · intro env _
    simp only [Traced.start, schedInitMLFQ, hflat]
    exact List.not_mem_nil
  · intro env i _ hlevel
    cases hlevel

theorem depart (h : Inv n q x) :
    Inv n q { x with sched := { x.sched with curenv := none } } :=
  ⟨h.method, h.num, h.quantum, ⟨h.recorded.stamped, h.recorded.level⟩, h.level_lt,
    fun _ hcur => (Option.some_ne_none _ hcur.symm).elim, fun hc => (hc rfl).elim,
    fun _ _ hcur => (Option.some_ne_none _ hcur.symm).elim⟩

theorem mark_level_lt {env : Env} {i : ℕ} (h : Inv n q x) (hi : i < n) :
    ∀ env' j, (x.mark env i).level env' = some j → j < n := by
  intro env' j hj
  by_cases hne : env' = env
  · subst hne
    simp only [Traced.mark, Function.update_self] at hj
    exact Option.some.inj hj ▸ hi
  · simp only [Traced.mark, Function.update_of_ne hne] at hj
    exact h.level_lt env' j hj

theorem markCurenv_level_lt (h : Inv n q x) :
    ∀ env j, x.markCurenv.level env = some j → j < n := by
  unfold Traced.markCurenv
  cases hcur : x.sched.curenv with
  | none => exact h.level_lt
  | some env => exact h.mark_level_lt (h.inside (by simp [hcur]))

theorem arrive {env : Env} (h : Inv n q x) (harr : (Event.arrive env).Arrives x)
    (hs : x.step (.arrive env) = some x') : Inv n q x' := by
  obtain ⟨s, hins, rfl⟩ := Option.map_eq_some_iff.1 hs
  obtain ⟨hpos, rfl⟩ := schedInsertReady_eq_some hins
  have hrec := h.recorded.push hpos harr.1
  have hne : ∀ env', x.sched.curenv = some env' → env' ≠ env := fun env' hcur heq =>
    harr.2 (heq ▸ hcur)
  refine ⟨h.method, length_push.trans h.num, h.quantum, ⟨hrec.stamped, hrec.level⟩,
    h.mark_level_lt (h.num ▸ hpos), fun env' hcur hmem => ?_, h.inside,
    fun env' i hcur hlevel => ?_⟩
  · rcases List.mem_cons.1 ((push_perm hpos).mem_iff.1 hmem) with heq | hmem
    · exact hne env' hcur heq
    · exact h.apart env' hcur hmem
  · simp only [Traced.mark, Function.update_of_ne (hne env' hcur)] at hlevel
    exact h.below env' i hcur hlevel

/-- The history once `curenv` is back tells of the queues it is back in. -/
theorem recorded_placedRow (h : Inv n q x) :
    Recorded x.markCurenv (x.sched.placedRow x.sched.indexToEnqueue) := by
  unfold Traced.markCurenv
  cases hcur : x.sched.curenv with
  | none =>
    rw [placedRow_none hcur]
    exact h.recorded
  | some env =>
    rw [placedRow_some hcur]
    refine h.recorded.push ?_ (h.apart env hcur)
    have hlt := h.inside (by simp [hcur])
    rwa [← h.num] at hlt

/-- The index left behind by the selection of a level is one level below it. -/
theorem index_after {level : ℕ} (h : Inv n q x) (hk : Event.schedule.KeepsIndex x)
    (hl : firstNonEmpty (x.sched.placedRow x.sched.indexToEnqueue) = some level) :
    updateIndexToEnqueue x.sched.indexToEnqueue level n = min (level + 1) (n - 1) := by
  have hlevel : level < n := by
    have hlt := lt_length_of_firstNonEmpty hl
    rwa [length_placedRow, h.num] at hlt
  unfold updateIndexToEnqueue
  split
  · omega
  · -- the last level : the index is kept
    suffices hidx : x.sched.indexToEnqueue = n - 1 by omega
    cases hcur : x.sched.curenv with
    | none =>
      rw [placedRow_none hcur] at hl
      have hlast : x.sched.getSelectedLevel = some (x.sched.numOfReadyQueues - 1) := by
        rw [h.num, getSelectedLevel, hl]
        exact congrArg some (by omega)
      rw [hk hcur hlast, h.num]
    | some env =>
      -- `curenv` is back in the level of the index, so no higher one is the lowest
      have hlt := h.inside (by simp [hcur])
      have hle : ¬ x.sched.indexToEnqueue < level := fun hidx => by
        have hempty := (firstNonEmpty_eq_some_iff.1 hl).2 _ hidx
        have hlen : x.sched.indexToEnqueue < x.sched.envReadyQueues.length := by
          rwa [← h.num] at hlt
        rw [placedRow_some hcur, queueAt_push hlen, if_pos rfl] at hempty
        cases hempty
      omega

theorem placeIndex (h : Inv n q x) : x.sched.placeIndex = x.sched.indexToEnqueue := by
  simp [Sched.placeIndex, h.method]

/-- The running environment can be put back. -/
theorem canPlace (h : Inv n q x) : x.sched.CanPlace x.sched.indexToEnqueue := by
  intro hcur
  rw [h.num]
  exact h.inside hcur

theorem demotes (h : Inv n q x) : Demotes n x := fun env i hcur hlevel => by
  rw [enqueueCurenv_of_canPlace h.canPlace, placedRow_some hcur, ← h.below env i hcur hlevel]

/-- A step obeys the law, and leaves the invariant. -/
theorem schedule (h : Inv n q x) (hk : Event.schedule.KeepsIndex x)
    (hs : x.step .schedule = some x') : Inv n q x' ∧ DemotionLaw n q x x' := by
  obtain ⟨s, hsched, rfl⟩ := Option.map_eq_some_iff.1 hs
  have hrec := h.recorded_placedRow
  have hplace := enqueueCurenv_of_canPlace h.canPlace
  have hdemotes := h.demotes
  have hcases := fosScheduler_cases hsched
  rw [h.placeIndex] at hcases
  obtain ⟨-, ⟨level, env, hl, henv, rfl⟩ | ⟨hl, rfl⟩⟩ := hcases
  all_goals simp only [levelOf, h.method] at hl
  · have hlevel : level < n := by
      have hlt := lt_length_of_firstNonEmpty hl
      rwa [length_placedRow, h.num] at hlt
    have hindex : x.sched.indexAfter level = min (level + 1) (n - 1) := by
      rw [← h.index_after hk hl, indexAfter, h.method, h.num]
    have hat := hrec.level level env (List.mem_of_getLast? henv)
    refine ⟨⟨h.method, ?_, h.quantum, ⟨hrec.pop.stamped, hrec.pop.level⟩,
      h.markCurenv_level_lt, ?_, ?_, ?_⟩, hdemotes, _, hplace, .inl ⟨level, env, ?_⟩⟩
    · exact length_pop.trans (length_placedRow.trans h.num)
    · rintro env' hcur
      obtain rfl := Option.some.inj hcur
      exact hrec.notMem_pop henv
    · exact fun _ => Nat.lt_of_le_of_lt (Nat.le_of_eq hindex) (by omega)
    · rintro env' i hcur hi
      obtain rfl := Option.some.inj hcur
      obtain rfl := Option.some.inj (hat.symm.trans hi)
      exact hindex
    · exact {
        mem := List.mem_of_getLast? henv
        lowest := (firstNonEmpty_eq_some_iff.1 hl).2
        longest := fun env' hmem hne => hrec.stamped.getLast_lt henv
          (mem_dropLast_of_ne henv hmem hne)
        curenv := rfl
        quantum := h.quantum level hlevel
        level := hat }
  · have hempty := firstNonEmpty_eq_none_iff.1 hl
    refine ⟨⟨h.method, length_placedRow.trans h.num, h.quantum, ⟨hrec.stamped, hrec.level⟩,
      h.markCurenv_level_lt, fun _ hcur => (Option.some_ne_none _ hcur.symm).elim,
      fun hc => (hc rfl).elim, fun _ _ hcur => (Option.some_ne_none _ hcur.symm).elim⟩,
      hdemotes, _, hplace, .inr ⟨flatten_eq_nil_iff.2 hempty, rfl⟩⟩

theorem step {ev : Event Env} (h : Inv n q x) (hev : ev.Arrives x ∧ ev.KeepsIndex x)
    (hs : x.step ev = some x') : Inv n q x' := by
  cases ev with
  | schedule => exact (h.schedule hev.2 hs).1
  | arrive env => exact h.arrive hev.1 hs
  | depart =>
    obtain rfl := Option.some.inj hs
    exact h.depart

end Inv

/-! ## Levels -/

/-- One event keeps or raises the level of an environment it is not the arrival of. -/
theorem level_le_of_step {ev : Event Env} (h : Inv n q x) (hs : x.step ev = some x') {env : Env}
    (hev : ev ≠ .arrive env) {i : ℕ} (hi : x.level env = some i) :
    ∃ j ≥ i, x'.level env = some j := by
  cases ev with
  | schedule =>
    obtain ⟨s, -, rfl⟩ := Option.map_eq_some_iff.1 hs
    unfold Traced.markCurenv
    cases hcur : x.sched.curenv with
    | none => exact ⟨i, Nat.le_refl i, hi⟩
    | some cur =>
      by_cases heq : env = cur
      · subst heq
        have hlt := h.level_lt env i hi
        have hbelow := h.below env i hcur hi
        refine ⟨x.sched.indexToEnqueue, by omega, ?_⟩
        simp [Traced.mark]
      · exact ⟨i, Nat.le_refl i, by simpa [Traced.mark, Function.update_of_ne heq] using hi⟩
  | arrive env' =>
    obtain ⟨s, -, rfl⟩ := Option.map_eq_some_iff.1 hs
    have hne : env ≠ env' := fun heq => hev (heq ▸ rfl)
    exact ⟨i, Nat.le_refl i, by simpa [Traced.mark, Function.update_of_ne hne] using hi⟩
  | depart =>
    obtain rfl := Option.some.inj hs
    exact ⟨i, Nat.le_refl i, hi⟩

/-! ## Runs -/

theorem level_le_of_run {events : List (Event Env)} (h : Inv n q x)
    (hok : Machine.Meets Traced.step (fun x ev => ev.Arrives x ∧ ev.KeepsIndex x) x events)
    (hrun : Machine.run Traced.step x events = some x') {env : Env}
    (hev : .arrive env ∉ events) {i : ℕ} (hi : x.level env = some i) :
    ∃ j ≥ i, x'.level env = some j := by
  induction events generalizing x i with
  | nil =>
    obtain rfl := Option.some.inj hrun
    exact ⟨i, Nat.le_refl i, hi⟩
  | cons ev events ih =>
    obtain ⟨t, ht, hrun⟩ := (Machine.run_cons_eq_some _).1 hrun
    obtain ⟨hne, hev⟩ := List.ne_and_not_mem_of_not_mem_cons hev
    obtain ⟨j, hij, hj⟩ := level_le_of_step h ht (Ne.symm hne) hi
    obtain ⟨k, hjk, hk⟩ := ih (h.step hok.1 ht) (hok.2 t ht) hrun hev hj
    exact ⟨k, Nat.le_trans hij hjk, hk⟩

/-- After a step that selects the last level with another index, the environment selected
is not put back in the last level. -/
theorem not_demotes_of_stale_index (h : Inv n q x) (hk : ¬ Event.schedule.KeepsIndex x)
    (hs : x.step .schedule = some x') : ¬ Demotes n x' := by
  unfold Event.KeepsIndex at hk
  push Not at hk
  obtain ⟨hcur, hsel, hidx⟩ := hk
  obtain ⟨s, hsched, rfl⟩ := Option.map_eq_some_iff.1 hs
  have hrec := h.recorded_placedRow
  have hcases := fosScheduler_cases hsched
  rw [h.placeIndex] at hcases
  have hfirst : firstNonEmpty (x.sched.placedRow x.sched.indexToEnqueue) = some (n - 1) := by
    rw [placedRow_none hcur, ← h.num]
    exact hsel
  have hn : n - 1 < n := by
    have hlt := lt_length_of_firstNonEmpty hfirst
    rwa [length_placedRow, h.num] at hlt
  obtain ⟨-, ⟨level, env, hl, henv, rfl⟩ | ⟨hl, rfl⟩⟩ := hcases
  all_goals
    simp only [levelOf, h.method, hfirst] at hl
  · obtain rfl := Option.some.inj hl
    have hindex : x.sched.indexAfter (n - 1) = x.sched.indexToEnqueue := by
      simp only [indexAfter, h.method, updateIndexToEnqueue, h.num]
      rw [if_neg (by omega)]
    intro hdem
    obtain ⟨hplace, heq⟩ := enqueueCurenv_eq_some
      (hdem env (n - 1) rfl (hrec.level _ env (List.mem_of_getLast? henv)))
    have hrows := congrArg Sched.envReadyQueues heq
    have hlast := push_injective (hplace (Option.some_ne_none env)) hrows.symm
    simp only [runs, hindex] at hlast
    rw [h.num] at hidx
    omega
  · cases hl

/-- After `sched_init_MLFQ` with `n` levels, along every run whose steps find
`indexToEnqueue` at the last level when they are to select it with `curenv` at `NULL` :
`level` is the level each environment waits in; the next such step returns and obeys the
law; no level decreases between two arrivals; and the environment selected by any next
step is put back one level down exactly when that step finds the index so. -/
theorem demotion_law {s : Sched Env} (hidx : s.curenv ≠ none → s.indexToEnqueue < n)
    {before after : List (Event Env)} {y : Traced Env}
    (hok : Machine.Meets Traced.step (fun x ev => ev.Arrives x ∧ ev.KeepsIndex x)
      (Traced.start (s.schedInitMLFQ n q)) (before ++ after))
    (hx : Machine.run Traced.step (Traced.start (s.schedInitMLFQ n q)) before = some x)
    (hy : Machine.run Traced.step x after = some y) :
    (∀ i, ∀ env ∈ queueAt y.sched.envReadyQueues i, y.level env = some i) ∧
      (Event.schedule.KeepsIndex y → ∃ y', y.step .schedule = some y' ∧ DemotionLaw n q y y') ∧
      (∀ env, .arrive env ∉ after → ∀ i, x.level env = some i → ∃ j ≥ i, y.level env = some j) ∧
      ∀ y', y.step .schedule = some y' → (Demotes n y' ↔ Event.schedule.KeepsIndex y) := by
  have hx' : Inv n q x := Machine.run_induction_of_meets (P := Inv n q)
    (fun _ _ _ h hev hs => h.step hev hs) (.start hidx) hok.of_append hx
  have hok' := hok.append_right hx
  have h : Inv n q y := Machine.run_induction_of_meets (P := Inv n q)
    (fun _ _ _ h hev hs => h.step hev hs) hx' hok' hy
  refine ⟨h.recorded.level, fun hk => ?_, fun env hev i hi => ?_, fun y' hy' => ?_⟩
  · obtain ⟨s', hs'⟩ := exists_fosScheduler (h.placeIndex ▸ h.canPlace)
    have hstep : y.step .schedule = some { y.markCurenv with sched := s' } :=
      Option.map_eq_some_iff.2 ⟨s', hs', rfl⟩
    exact ⟨_, hstep, (h.schedule hk hstep).2⟩
  · exact level_le_of_run hx' hok' hy hev hi
  · refine ⟨fun hdem => ?_, fun hk => (h.schedule hk hy').1.demotes⟩
    by_contra hk
    exact not_demotes_of_stale_index h hk hy' hdem

/-- Three levels for two environments, as `sched_init` and `sched_init_MLFQ` leave them. -/
def threeLevels : Traced (Fin 2) :=
  Traced.start ((schedInit 10).schedInitMLFQ 3 fun i => UInt8.ofNat (10 * (i + 1)))

/-- An environment alone goes down to the last level and obeys the law there. -/
theorem demotion_law_alone :
    ∃ y, Machine.run Traced.step threeLevels [.arrive 0, .schedule, .schedule, .schedule] =
        some y ∧ y.level 0 = some 2 ∧
      ∃ y', y.step .schedule = some y' ∧
        DemotionLaw 3 (fun i => UInt8.ofNat (10 * (i + 1))) y y' := by
  have hrun : (Machine.run Traced.step threeLevels
      [.arrive 0, .schedule, .schedule, .schedule]).map
      (fun y => (y.sched.curenv, y.level 0)) = some (some 0, some 2) := by decide
  obtain ⟨y, hy, hobs⟩ := Option.map_eq_some_iff.1 hrun
  obtain ⟨hcur, hlevel⟩ := Prod.mk.inj hobs
  have hnil : Machine.run Traced.step threeLevels [] = some threeLevels := rfl
  have hlaw := demotion_law (fun hc => absurd rfl hc) (by decide) hnil hy
  exact ⟨y, hy, hlevel, hlaw.2.1 fun hc => absurd (hcur.symm.trans hc) (Option.some_ne_none _)⟩

/-- The first environment is in the last level when the second arrives, runs and leaves. -/
def passingBy : List (Event (Fin 2)) :=
  [.arrive 0, .schedule, .schedule, .schedule, .arrive 1, .schedule, .depart, .schedule]

/-- Selected from the last level again, the first environment is put back in level 1. -/
theorem passingBy_breaks_law :
    Machine.Meets Traced.step (fun x ev => ev.Arrives x) threeLevels passingBy ∧
      ∃ y y', Machine.run Traced.step threeLevels passingBy = some y ∧
        y.step .schedule = some y' ∧ y.level 0 = some 2 ∧ y'.level 0 = some 1 ∧
        ¬ Demotes 3 y := by
  have hrun : (Machine.run Traced.step threeLevels passingBy).map (fun y =>
      (y.sched.curenv, y.level 0, (y.step .schedule).map fun y' => y'.level 0)) =
      some (some 0, some 2, some (some 1)) := by decide
  have hrows : (Machine.run Traced.step threeLevels passingBy).map (fun y =>
      (y.sched.envReadyQueues, (y.sched.enqueueCurenv y.sched.indexToEnqueue).map
        fun s => s.envReadyQueues)) = some ([[], [], []], some [[], [0], []]) := by decide
  obtain ⟨y, hy, hobs⟩ := Option.map_eq_some_iff.1 hrun
  simp only [hy, Option.map_some, Option.some.injEq, Prod.mk.injEq] at hobs hrows
  obtain ⟨hcur, hlevel, hnext⟩ := hobs
  obtain ⟨y', hy', hlevel'⟩ := Option.map_eq_some_iff.1 hnext
  refine ⟨by decide, y, y', hy, hy', hlevel, hlevel', fun hdem => ?_⟩
  rw [hdem 0 2 hcur hlevel, hrows.1, Option.map_some] at hrows
  have hlast : push (min (2 + 1) (3 - 1)) (0 : Fin 2) [[], [], []] = [[], [0], []] :=
    Option.some.inj hrows.2
  exact absurd hlast (by decide)

end Mlfq

end FosKernel
