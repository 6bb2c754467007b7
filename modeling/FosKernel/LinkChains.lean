import Mathlib.Data.Fintype.Pigeonhole
import Mathlib.Logic.Relation

/-!
# Chains of links

Each element links to at most one next one. `after` follows the links from a start, which may be
no element at all, and has no value past the end of the chain. A chain of finitely many elements
either ends (`exists_after_eq_none`), or comes to an element that it has been at and goes round
for ever (`LeadsIntoCycle`); then it never ends (`isSome_after_of_repeat`).

Two walkers at different speeds meet only on a cycle (`leadsIntoCycle_iff`), and on a cycle they
meet as often as the distance between them is a multiple of its length (`after_add_mul`).
-/

namespace LinkChains

variable {α : Type*} (next : α → Option α)

/-- The element `i` links after the start. -/
def after (start : Option α) : ℕ → Option α
  | 0 => start
  | i + 1 => (after start i).bind next

/-- `b` comes next after `a`. -/
def LinksTo (a b : α) : Prop :=
  next a = some b

/-- The links from the start lead to an element that they lead back to. -/
def LeadsIntoCycle (start : Option α) : Prop :=
  ∃ a c, start = some a ∧ Relation.ReflTransGen (LinksTo next) a c ∧
    Relation.TransGen (LinksTo next) c c

variable {next} {start : Option α} {a b c : α} {i j k p : ℕ}

theorem after_add (i j : ℕ) : after next start (i + j) = after next (after next start i) j := by
  induction j with
  | zero => rfl
  | succ j ih =>
    rw [← Nat.add_assoc]
    exact congrArg (fun x => x.bind next) ih

theorem after_eq_none_of_le (h : after next start i = none) (hij : i ≤ j) :
    after next start j = none := by
  induction j, hij using Nat.le_induction with
  | base => exact h
  | succ j _ ih =>
    rw [after, ih]
    rfl

theorem isSome_after_of_le (h : (after next start j).isSome) (hij : i ≤ j) :
    (after next start i).isSome := by
  by_contra hnone
  rw [Option.not_isSome_iff_eq_none] at hnone
  rw [after_eq_none_of_le hnone hij] at h
  cases h

/-! ## Repeats -/

/-- From a repeat on the chain is periodic. -/
theorem after_add_of_repeat (h : after next start (i + p) = after next start i) (hij : i ≤ j) :
    after next start (j + p) = after next start j := by
  obtain ⟨k, rfl⟩ := Nat.exists_eq_add_of_le hij
  rw [Nat.add_right_comm, after_add, h, ← after_add]

theorem after_add_mul (h : after next start (i + p) = after next start i) (hij : i ≤ j) (k : ℕ) :
    after next start (j + p * k) = after next start j := by
  induction k with
  | zero => rfl
  | succ k ih =>
    rw [Nat.mul_succ, ← Nat.add_assoc]
    exact (after_add_of_repeat h (Nat.le_add_right_of_le hij)).trans ih

/-- A chain that repeats an element never ends. -/
theorem isSome_after_of_repeat (h : after next start (i + p) = after next start i) (hp : 0 < p)
    (hsome : (after next start i).isSome) (j : ℕ) : (after next start j).isSome := by
  have hlong : (after next start (i + p * j)).isSome := by
    rw [after_add_mul h le_rfl]
    exact hsome
  exact isSome_after_of_le hlong (Nat.le_add_left_of_le (Nat.le_mul_of_pos_left j hp))

/-! ## Reachability -/

theorem reflTransGen_iff : Relation.ReflTransGen (LinksTo next) a c ↔
    ∃ i, after next (some a) i = some c := by
  constructor
  · intro h
    induction h with
    | refl => exact ⟨0, rfl⟩
    | tail _ hlink ih =>
      obtain ⟨i, hi⟩ := ih
      exact ⟨i + 1, by rw [after, hi]; exact hlink⟩
  · rintro ⟨i, hi⟩
    induction i generalizing c with
    | zero => exact Option.some.inj hi ▸ Relation.ReflTransGen.refl
    | succ i ih =>
      obtain ⟨b, hb, hlink⟩ := Option.bind_eq_some_iff.1 hi
      exact (ih hb).tail hlink

theorem transGen_iff : Relation.TransGen (LinksTo next) a c ↔
    ∃ i, 0 < i ∧ after next (some a) i = some c := by
  rw [Relation.TransGen.head'_iff]
  constructor
  · rintro ⟨b, hlink, hreach⟩
    obtain ⟨i, hi⟩ := reflTransGen_iff.1 hreach
    have hone : after next (some a) 1 = some b := hlink
    exact ⟨1 + i, Nat.add_pos_left Nat.one_pos i, by rw [after_add, hone, hi]⟩
  · rintro ⟨i, hpos, hi⟩
    obtain ⟨i, rfl⟩ := Nat.exists_eq_succ_of_ne_zero (Nat.ne_of_gt hpos)
    have hsome : (after next (some a) 1).isSome :=
      isSome_after_of_le (Option.isSome_iff_exists.2 ⟨c, hi⟩) (Nat.succ_le_succ (Nat.zero_le i))
    obtain ⟨b, hb⟩ := Option.isSome_iff_exists.1 hsome
    refine ⟨b, hb, reflTransGen_iff.2 ⟨i, ?_⟩⟩
    rw [← hb, ← after_add, Nat.add_comm]
    exact hi

/-- A chain leads into a cycle when it comes to one element twice. -/
theorem leadsIntoCycle_iff : LeadsIntoCycle next start ↔
    ∃ i p, 0 < p ∧ (after next start i).isSome ∧
      after next start (i + p) = after next start i := by
  constructor
  · rintro ⟨a, c, rfl, hreach, hcycle⟩
    obtain ⟨i, hi⟩ := reflTransGen_iff.1 hreach
    obtain ⟨p, hp, hback⟩ := transGen_iff.1 hcycle
    exact ⟨i, p, hp, Option.isSome_iff_exists.2 ⟨c, hi⟩, by rw [after_add, hi, hback]⟩
  · rintro ⟨i, p, hp, hsome, hrepeat⟩
    obtain ⟨c, hc⟩ := Option.isSome_iff_exists.1 hsome
    obtain ⟨a, ha⟩ := Option.isSome_iff_exists.1 (isSome_after_of_le hsome (Nat.zero_le i))
    obtain rfl : start = some a := ha
    refine ⟨a, c, rfl, reflTransGen_iff.2 ⟨i, hc⟩, transGen_iff.2 ⟨p, hp, ?_⟩⟩
    rw [← hc, ← after_add, hrepeat]

/-! ## Finitely many elements -/

/-- Among the first elements of a long chain one comes twice. -/
theorem exists_repeat [Fintype α] (h : (after next start (Fintype.card α)).isSome) :
    ∃ i p, 0 < p ∧ i + p ≤ Fintype.card α ∧ after next start (i + p) = after next start i := by
  have hsome : ∀ i : Fin (Fintype.card α + 1), ∃ a, after next start i.1 = some a := fun i =>
    Option.isSome_iff_exists.1 (isSome_after_of_le h (Nat.le_of_lt_succ i.2))
  choose element helement using hsome
  obtain ⟨i, j, hne, heq⟩ := Fintype.exists_ne_map_eq_of_card_lt element (by simp)
  have hafter : after next start i.1 = after next start j.1 := by
    rw [helement, heq, helement]
  have hi := i.2
  have hj := j.2
  rcases Nat.lt_or_gt_of_ne (Fin.val_ne_of_ne hne) with hlt | hlt
  · refine ⟨i.1, j.1 - i.1, by omega, by omega, ?_⟩
    rw [Nat.add_sub_cancel' hlt.le, hafter]
  · refine ⟨j.1, i.1 - j.1, by omega, by omega, ?_⟩
    rw [Nat.add_sub_cancel' hlt.le, hafter]

/-- A chain of finitely many elements that leads into no cycle ends. -/
theorem after_card_eq_none [Fintype α] (h : ¬LeadsIntoCycle next start) :
    after next start (Fintype.card α) = none := by
  by_contra hne
  have hsome := Option.isSome_iff_ne_none.2 hne
  obtain ⟨i, p, hp, hle, hrepeat⟩ := exists_repeat hsome
  exact h (leadsIntoCycle_iff.2 ⟨i, p, hp, isSome_after_of_le hsome (by omega), hrepeat⟩)

/-- A chain that leads into a cycle is on it, and has gone round once, within as many links as
there are elements. -/
theorem LeadsIntoCycle.exists_repeat_le [Fintype α] (h : LeadsIntoCycle next start) :
    (∀ j, (after next start j).isSome) ∧
      ∃ i p, 0 < p ∧ i + p ≤ Fintype.card α ∧ after next start (i + p) = after next start i := by
  obtain ⟨i, p, hp, hsome, hrepeat⟩ := leadsIntoCycle_iff.1 h
  have hall := isSome_after_of_repeat hrepeat hp hsome
  exact ⟨hall, exists_repeat (hall _)⟩

end LinkChains
