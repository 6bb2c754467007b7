import Mathlib.Data.List.Rotate
import Mathlib.Data.List.Nodup
import Mathlib.Data.Nat.ModEq
import Mathlib.Tactic.SplitIfs

/-!
# A queue that rotates

One element runs and the others wait, the newest of them first in the list. A `turn` puts the
running element back and runs the one that has waited longest; between turns elements
`arrive` and the running one may `leave`.

* An element with `j` elements ahead of it runs after `j + 1` turns, whatever arrives
  (`exists_turn`).
* Turns alone rotate the `ring` of all elements (`ring_turn`), so turn `i` runs element
  `i % k` of it (`running_iterate_turn`), and each element runs once in every `k`
  turns (`existsUnique_turn`).
-/

namespace RotatingQueue

variable {α : Type*} {a b : α} {i j k m n : ℕ}

/-- The running element, and those that wait with the newest first. -/
structure Wheel (α : Type*) where
  running : Option α
  waiting : List α

/-- What happens to a wheel. -/
inductive Event (α : Type*) where
  | turn
  | arrive (a : α)
  | leave

namespace Wheel

variable (w : Wheel α)

/-- All elements, the newest first. -/
def all : List α :=
  w.running.toList ++ w.waiting

/-- All elements in the order in which they will run. -/
def ring : List α :=
  w.all.reverse

/-- The running element goes back and the one that has waited longest runs. -/
def turn : Wheel α :=
  ⟨w.all.getLast?, w.all.dropLast⟩

/-- `a` comes in as the newest. -/
def arrive (a : α) : Wheel α :=
  ⟨w.running, a :: w.waiting⟩

/-- The running element leaves. -/
def leave : Wheel α :=
  ⟨none, w.waiting⟩

/-- An event of the wheel. -/
def step : Event α → Wheel α
  | .turn => w.turn
  | .arrive a => w.arrive a
  | .leave => w.leave

/-- The events one after the other. -/
def run (events : List (Event α)) : Wheel α :=
  events.foldl step w

/-- `a` waits with `j` elements ahead of it. -/
def Waits (a : α) (j : ℕ) : Prop :=
  ∃ newer older, w.waiting = newer ++ a :: older ∧ older.length = j

variable {w}

/-! ## Bounded waiting -/

theorem Waits.arrive (h : w.Waits a j) (b : α) : (w.arrive b).Waits a j := by
  obtain ⟨newer, older, hw, hj⟩ := h
  refine ⟨b :: newer, older, ?_, hj⟩
  rw [Wheel.arrive, hw, List.cons_append]

theorem Waits.leave (h : w.Waits a j) : w.leave.Waits a j :=
  h

/-- A turn runs the element with none ahead of it. -/
theorem Waits.running_turn (h : w.Waits a 0) : w.turn.running = some a := by
  obtain ⟨newer, older, hw, hj⟩ := h
  obtain rfl := List.length_eq_zero_iff.1 hj
  rw [turn, all, hw, ← List.append_assoc, List.getLast?_concat]

/-- A turn takes one of the elements ahead. -/
theorem Waits.turn (h : w.Waits a (j + 1)) : w.turn.Waits a j := by
  obtain ⟨newer, older, hw, hj⟩ := h
  have hne : older ≠ [] := List.ne_nil_of_length_eq_add_one hj
  refine ⟨w.running.toList ++ newer, older.dropLast, ?_, by rw [List.length_dropLast, hj]; rfl⟩
  change w.all.dropLast = _
  rw [all, hw, ← List.append_assoc, List.dropLast_append_of_ne_nil (List.cons_ne_nil a older),
    List.dropLast_cons_of_ne_nil hne]

/-- The number of turns among the events. -/
def turns : List (Event α) → ℕ
  | [] => 0
  | .turn :: events => turns events + 1
  | .arrive _ :: events => turns events
  | .leave :: events => turns events

/-- An element with `j` elements ahead of it is run by turn `j + 1`, whatever arrives and
leaves in the meantime. -/
theorem exists_turn : ∀ (events : List (Event α)) {w : Wheel α} {j : ℕ}, w.Waits a j →
    j < turns events → ∃ before after, events = before ++ .turn :: after ∧ turns before = j ∧
      (w.run before).turn.running = some a
  | [], w, j, _, hj => absurd hj (Nat.not_lt_zero j)
  | .turn :: events, w, 0, h, _ => ⟨[], events, rfl, rfl, h.running_turn⟩
  | .turn :: events, w, j + 1, h, hj => by
    have hlt : j < turns events := Nat.lt_of_succ_lt_succ hj
    obtain ⟨before, after, rfl, hturns, hrun⟩ := exists_turn events h.turn hlt
    exact ⟨.turn :: before, after, rfl, congrArg (· + 1) hturns, hrun⟩
  | .arrive b :: events, w, j, h, hj => by
    obtain ⟨before, after, rfl, hturns, hrun⟩ := exists_turn events (h.arrive b) hj
    exact ⟨.arrive b :: before, after, rfl, hturns, hrun⟩
  | .leave :: events, w, j, h, hj => by
    obtain ⟨before, after, rfl, hturns, hrun⟩ := exists_turn events h.leave hj
    exact ⟨.leave :: before, after, rfl, hturns, hrun⟩

/-! ## Distinct elements -/

/-- An event keeps the elements distinct, if what arrives is new. -/
theorem nodup_all_step {e : Event α} (h : w.all.Nodup) (hnew : ∀ a, e = .arrive a → a ∉ w.all) :
    (w.step e).all.Nodup := by
  cases e with
  | turn =>
    change (w.all.getLast?.toList ++ w.all.dropLast).Nodup
    rcases List.eq_nil_or_concat w.all with hnil | ⟨older, a, hall⟩
    · rw [hnil]
      exact List.nodup_nil
    · rw [List.concat_eq_append] at hall
      rw [hall] at h ⊢
      rw [List.getLast?_concat, List.dropLast_concat]
      exact List.perm_append_comm.nodup_iff.1 h
  | arrive a =>
    change (w.running.toList ++ a :: w.waiting).Nodup
    rw [List.perm_middle.nodup_iff]
    exact List.nodup_cons.2 ⟨hnew a rfl, h⟩
  | leave => exact h.sublist (List.sublist_append_right _ _)

/-! ## The cycle -/

theorem all_turn : w.turn.all = w.all.getLast?.toList ++ w.all.dropLast :=
  rfl

/-- A turn rotates the ring. -/
theorem ring_turn (w : Wheel α) : w.turn.ring = w.ring.rotate 1 := by
  rw [ring, all_turn, ring]
  rcases List.eq_nil_or_concat w.all with hnil | ⟨older, a, hall⟩
  · rw [hnil]
    rfl
  · rw [hall, List.concat_eq_append, List.getLast?_concat, List.dropLast_concat,
      List.reverse_concat, List.rotate_cons_succ, List.rotate_zero]
    exact List.reverse_cons

/-- A turn runs the first of the ring. -/
theorem running_turn (w : Wheel α) : w.turn.running = w.ring.head? := by
  rw [turn, ring, List.head?_reverse]

theorem ring_iterate_turn (w : Wheel α) : ∀ n : ℕ, (turn^[n] w).ring = w.ring.rotate n
  | 0 => (List.rotate_zero _).symm
  | n + 1 => by
    rw [Function.iterate_succ_apply', ring_turn, ring_iterate_turn w n, List.rotate_rotate]

/-- The turns run the elements of the ring in order, round and round. -/
theorem running_iterate_turn (w : Wheel α) (n : ℕ) :
    (turn^[n + 1] w).running = w.ring[n % w.ring.length]? := by
  rw [Function.iterate_succ_apply', running_turn, ring_iterate_turn, ← List.rotate_mod]
  rcases Nat.eq_zero_or_pos w.ring.length with hzero | hpos
  · rw [List.length_eq_zero_iff.1 hzero]
    rfl
  · exact List.head?_rotate (Nat.mod_lt n hpos)

/-- A window of `k` numbers has one with remainder `j`. -/
theorem existsUnique_mod (m : ℕ) (hj : j < k) : ∃! i, (m ≤ i ∧ i < m + k) ∧ i % k = j := by
  have hdiv := Nat.div_add_mod' m k
  have hmod := Nat.mod_lt m (Nat.zero_lt_of_lt hj)
  have hunique : ∀ i i', (m ≤ i ∧ i < m + k) ∧ i % k = j → (m ≤ i' ∧ i' < m + k) ∧ i' % k = j →
      i = i' := by
    rintro i i' ⟨hi, hmi⟩ ⟨hi', hmi'⟩
    have heq : i ≡ i' [MOD k] := hmi.trans hmi'.symm
    refine heq.eq_of_abs_lt ?_
    rw [abs_lt]
    constructor <;> omega
  have hexists : ∃ i, (m ≤ i ∧ i < m + k) ∧ i % k = j := by
    rcases Nat.lt_or_ge j (m % k) with hlt | hge
    · refine ⟨(m / k + 1) * k + j, ⟨?_, ?_⟩, Nat.mul_add_mod_of_lt hj⟩ <;> rw [Nat.add_one_mul] <;>
        omega
    · exact ⟨m / k * k + j, ⟨by omega, by omega⟩, Nat.mul_add_mod_of_lt hj⟩
  obtain ⟨i, hi⟩ := hexists
  exact ⟨i, hi, fun i' hi' => hunique i' i hi' hi⟩

/-- Each element of the ring runs once in every `k` consecutive turns. -/
theorem existsUnique_turn (h : w.all.Nodup) (ha : a ∈ w.ring) (m : ℕ) :
    ∃! i, (m ≤ i ∧ i < m + w.ring.length) ∧ (turn^[i + 1] w).running = some a := by
  have hnodup : w.ring.Nodup := List.nodup_reverse.2 h
  obtain ⟨j, hj, hget⟩ := List.getElem_of_mem ha
  have hiff : ∀ i, (turn^[i + 1] w).running = some a ↔ i % w.ring.length = j := fun i => by
    have hlt := Nat.mod_lt i (Nat.zero_lt_of_lt hj)
    rw [running_iterate_turn, List.getElem?_eq_getElem hlt, Option.some.injEq, ← hget,
      hnodup.getElem_inj_iff]
  simp only [hiff]
  exact existsUnique_mod m hj

end Wheel

end RotatingQueue
