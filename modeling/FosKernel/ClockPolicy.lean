import Mathlib.Data.List.Basic
import Mathlib.Data.List.Nodup
import Mathlib.Data.List.TakeWhile

/-!
# The modified clock policy

Slots `0 .. n - 1` on a clock with a hand, each with a used and a modified bit. `order` is
the order in which the hand passes the slots. `choice` is the slot that the policy takes,
with the slots whose used bits it clears : the first slot that is neither used nor
modified, else the first one modified only, else the first one used only, else the one at
the hand.

`choice_of_clean`, `choice_of_dirty` and `choice_of_used` are the cases of `choice` in the
words of a policy that passes over the slots twice : the second time no slot is used.
-/

namespace ClockPolicy

/-- The slots from the hand on, and then those before it. -/
def order (hand n : Nat) : List Nat :=
  List.range' hand (n - hand) ++ List.range' 0 hand

/-- The used and modified bits of the slots. -/
abbrev Bits := Nat → Bool × Bool

/-- The first slot of `ks` with the given bits. -/
def first (bits : Bits) (b : Bool × Bool) (ks : List Nat) : Option Nat :=
  ks.find? fun k => bits k = b

/-- The slots of `ks` before the first one with the given bits. -/
def before (bits : Bits) (b : Bool × Bool) (ks : List Nat) : List Nat :=
  ks.takeWhile fun k => bits k ≠ b

/-- The slot taken, and the slots whose used bits are cleared. -/
def choice (bits : Bits) (hand n : Nat) : Nat × List Nat :=
  match first bits (false, false) (order hand n) with
  | some v => (v, [])
  | none =>
    match first bits (false, true) (order hand n) with
    | some v => (v, before bits (false, true) (order hand n))
    | none =>
      match first bits (true, false) (order hand n) with
      | some v => (v, order hand n)
      | none => (if hand = n then 0 else hand, order hand n)

variable {bits bits' : Bits} {b : Bool × Bool} {ks ks' : List Nat} {hand n k v : Nat}

theorem mem_order (hhand : hand ≤ n) : k ∈ order hand n ↔ k < n := by
  simp only [order, List.mem_append, List.mem_range'_1]
  omega

theorem head?_order (hhand : hand ≤ n) (hpos : 0 < n) :
    (order hand n).head? = some (if hand = n then 0 else hand) := by
  unfold order
  split_ifs with hend
  · obtain ⟨m, rfl⟩ : ∃ m, n = m + 1 := ⟨n - 1, by omega⟩
    simp [hend, List.range'_succ]
  · obtain ⟨m, hm⟩ : ∃ m, n - hand = m + 1 := ⟨n - hand - 1, by omega⟩
    rw [hm, List.range'_succ]
    rfl

/-! ## The first slot -/

theorem first_eq_none : first bits b ks = none ↔ ∀ k ∈ ks, bits k ≠ b := by
  simp [first]

theorem first_cons_self (h : bits k = b) : first bits b (k :: ks) = some k := by
  simp [first, h]

theorem first_cons_of_ne (h : bits k ≠ b) : first bits b (k :: ks) = first bits b ks := by
  simp [first, h]

theorem before_cons_self (h : bits k = b) : before bits b (k :: ks) = [] := by
  simp [before, h]

theorem before_cons_of_ne (h : bits k ≠ b) :
    before bits b (k :: ks) = k :: before bits b ks := by
  simp [before, h]

theorem first_append : first bits b (ks ++ ks') = (first bits b ks).or (first bits b ks') :=
  List.find?_append

theorem before_of_none (h : first bits b ks = none) : before bits b ks = ks :=
  List.takeWhile_eq_self_iff.2 fun k hk => by simpa using first_eq_none.1 h k hk

theorem before_append_of_none (h : first bits b ks = none) :
    before bits b (ks ++ ks') = ks ++ before bits b ks' :=
  List.takeWhile_append_of_pos fun k hk => by simpa using first_eq_none.1 h k hk

theorem before_append_of_some (h : first bits b ks = some v) :
    before bits b (ks ++ ks') = before bits b ks := by
  induction ks with
  | nil => cases h
  | cons k ks ih =>
    by_cases hk : bits k = b
    · rw [List.cons_append, before_cons_self hk, before_cons_self hk]
    · rw [first_cons_of_ne hk] at h
      rw [List.cons_append, before_cons_of_ne hk, before_cons_of_ne hk, ih h]

theorem first_congr {b' : Bool × Bool} (h : ∀ k ∈ ks, bits k = b ↔ bits' k = b') :
    first bits b ks = first bits' b' ks := by
  induction ks with
  | nil => rfl
  | cons k ks ih =>
    have hk := h k List.mem_cons_self
    have hks := ih fun j hj => h j (List.mem_cons_of_mem k hj)
    by_cases hb : bits k = b
    · rw [first_cons_self hb, first_cons_self (hk.1 hb)]
    · rw [first_cons_of_ne hb, first_cons_of_ne (mt hk.2 hb), hks]

/-- Where every slot has the bits, the first one is the head. -/
theorem first_of_forall (h : ∀ k ∈ ks, bits k = b) : first bits b ks = ks.head? := by
  cases ks with
  | nil => rfl
  | cons k ks => exact first_cons_self (h k List.mem_cons_self)

theorem before_of_head (h : ∀ k ∈ ks, bits k = b) : before bits b ks = [] := by
  cases ks with
  | nil => rfl
  | cons k ks => exact before_cons_self (h k List.mem_cons_self)

/-! ## The choice -/

theorem choice_of_clean (h : first bits (false, false) (order hand n) = some v) :
    choice bits hand n = (v, []) := by
  simp only [choice, h]

theorem choice_of_dirty (hclean : first bits (false, false) (order hand n) = none)
    (h : first bits (false, true) (order hand n) = some v) :
    choice bits hand n = (v, before bits (false, true) (order hand n)) := by
  simp only [choice, hclean, h]

section SecondRound

variable (hclean : first bits (false, false) (order hand n) = none)
  (hdirty : first bits (false, true) (order hand n) = none)
  (hround : ∀ k ∈ order hand n, bits' k = (false, (bits k).2))

include hclean hdirty

/-- A slot that is neither clean nor dirty is used. -/
theorem used_of_none (hk : k ∈ order hand n) : bits k = (true, (bits k).2) := by
  have h₁ := first_eq_none.1 hclean k hk
  have h₂ := first_eq_none.1 hdirty k hk
  generalize bits k = b at h₁ h₂
  obtain ⟨used, modified⟩ := b
  cases used
  · cases modified
    · exact absurd rfl h₁
    · exact absurd rfl h₂
  · rfl

include hround

theorem first_round : first bits' (false, false) (order hand n) =
    first bits (true, false) (order hand n) := by
  refine first_congr fun k hk => ?_
  rw [hround k hk, used_of_none hclean hdirty hk]
  simp

/-- In the second round a slot is clean if it was only used. -/
theorem choice_of_used (h : first bits' (false, false) (order hand n) = some v) :
    choice bits hand n = (v, order hand n) := by
  rw [first_round hclean hdirty hround] at h
  simp only [choice, hclean, hdirty, h]

/-- If there is none, every slot was used and modified, and the first one is taken. -/
theorem choice_of_last (hhand : hand ≤ n) (hpos : 0 < n)
    (hnone : first bits' (false, false) (order hand n) = none)
    (h : first bits' (false, true) (order hand n) = some v) :
    choice bits hand n = (v, order hand n) ∧ before bits' (false, true) (order hand n) = [] := by
  have hall : ∀ k ∈ order hand n, bits' k = (false, true) := fun k hk => by
    have hk' := first_eq_none.1 hnone k hk
    rw [hround k hk] at hk' ⊢
    simpa using hk'
  rw [first_of_forall hall, head?_order hhand hpos, Option.some.injEq] at h
  rw [first_round hclean hdirty hround] at hnone
  simp only [choice, hclean, hdirty, hnone, h, before_of_head hall, and_self]

end SecondRound

end ClockPolicy
