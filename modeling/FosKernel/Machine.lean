import Mathlib.Data.List.Basic

/-!
# Runs of a partial step function

A kernel call is a partial function of the state : it panics, faults, or never
returns on the states where it has no value. `run` makes a sequence of such calls,
and has a value when each of them has one.

`run_induction` is the invariant rule : what one step preserves, a run preserves.
`Meets` says that a condition on the state before each step holds along a run, and
`run_induction_of_meets` is the invariant rule for those runs.
-/

namespace Machine

variable {σ α : Type*} (step : σ → α → Option σ)

/-- The calls `as`, one after the other, from `s`. -/
def run : σ → List α → Option σ
  | s, [] => some s
  | s, a :: as => (step s a).bind fun s' => run s' as

@[simp] theorem run_nil (s : σ) : run step s [] = some s :=
  rfl

theorem run_cons (s : σ) (a : α) (as : List α) :
    run step s (a :: as) = (step s a).bind fun s' => run step s' as :=
  rfl

theorem run_cons_eq_some {s s' : σ} {a : α} {as : List α} :
    run step s (a :: as) = some s' ↔ ∃ t, step s a = some t ∧ run step t as = some s' := by
  rw [run_cons, Option.bind_eq_some_iff]

/-- The condition `ok` on the state and the call holds before each step of the run. -/
def Meets (ok : σ → α → Prop) : σ → List α → Prop
  | _, [] => True
  | s, a :: as => ok s a ∧ ∀ s', step s a = some s' → Meets ok s' as

/-- Whether a condition that can be checked holds along a run can be checked by running it. -/
instance decidableMeets (ok : σ → α → Prop) [∀ s a, Decidable (ok s a)] :
    (s : σ) → (as : List α) → Decidable (Meets step ok s as)
  | _, [] => isTrue trivial
  | s, a :: as =>
    match h : step s a with
    | none => decidable_of_iff (ok s a) (by simp [Meets, h])
    | some t =>
      have := decidableMeets ok t as
      decidable_of_iff (ok s a ∧ Meets step ok t as) (by simp [Meets, h])

variable {step}

theorem Meets.of_append {ok : σ → α → Prop} {s : σ} {as bs : List α}
    (h : Meets step ok s (as ++ bs)) : Meets step ok s as := by
  induction as generalizing s with
  | nil => trivial
  | cons a as ih => exact ⟨h.1, fun t ht => ih (h.2 t ht)⟩

theorem Meets.append_right {ok : σ → α → Prop} {s t : σ} {as bs : List α}
    (h : Meets step ok s (as ++ bs)) (hr : run step s as = some t) : Meets step ok t bs := by
  induction as generalizing s with
  | nil =>
    obtain rfl := Option.some.inj hr
    exact h
  | cons a as ih =>
    obtain ⟨u, hu, hr⟩ := (run_cons_eq_some step).1 hr
    exact ih (h.2 u hu) hr

theorem Meets.mono {ok ok' : σ → α → Prop} (hok : ∀ s a, ok s a → ok' s a) {s : σ} {as : List α}
    (h : Meets step ok s as) : Meets step ok' s as := by
  induction as generalizing s with
  | nil => trivial
  | cons a as ih => exact ⟨hok s a h.1, fun t ht => ih (h.2 t ht)⟩

theorem meets_of_forall {ok : α → Prop} {as : List α} (h : ∀ a ∈ as, ok a) (s : σ) :
    Meets step (fun _ a => ok a) s as := by
  induction as generalizing s with
  | nil => trivial
  | cons a as ih =>
    rw [List.forall_mem_cons] at h
    exact ⟨h.1, fun t _ => ih h.2 t⟩

/-- What each step meeting `ok` preserves, a run whose steps meet `ok` preserves. -/
theorem run_induction_of_meets {ok : σ → α → Prop} {P : σ → Prop}
    (hstep : ∀ s a s', P s → ok s a → step s a = some s' → P s') {s s' : σ} {as : List α}
    (h : P s) (hok : Meets step ok s as) (hr : run step s as = some s') : P s' := by
  induction as generalizing s with
  | nil =>
    obtain rfl := Option.some.inj hr
    exact h
  | cons a as ih =>
    obtain ⟨t, ht, hr⟩ := (run_cons_eq_some step).1 hr
    exact ih (hstep s a t h hok.1 ht) (hok.2 t ht) hr

theorem meets_true (s : σ) (as : List α) : Meets step (fun _ _ => True) s as :=
  meets_of_forall (fun _ _ => trivial) s

/-- What each step preserves, a run preserves. -/
theorem run_induction {P : σ → Prop} (hstep : ∀ s a s', P s → step s a = some s' → P s')
    {s s' : σ} {as : List α} (h : P s) (hr : run step s as = some s') : P s' :=
  run_induction_of_meets (fun s a s' hs _ => hstep s a s' hs) h (meets_true s as) hr

end Machine
