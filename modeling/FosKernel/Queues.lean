import Mathlib.Data.List.Basic
import Mathlib.Data.List.Nodup
import Mathlib.Data.List.Pairwise
import Mathlib.Logic.Function.Basic

/-!
# Rows of first-in first-out queues

A row `qs : List (List α)` of queues, each with its newest element first : `push i a`
puts `a` in queue `i`, `pop i` takes the oldest element of queue `i` out, `drop i a`
takes `a` out of queue `i`, and `firstNonEmpty` is the lowest non-empty queue.

Two accounts of a row are kept through the operations :

* what it holds, as a permutation of `qs.flatten` (`push_perm`, `pop_perm`, `drop_perm`);
* how long each element has waited : `Stamped` says that the queues are ordered by the
  stamps their elements got when they were put in, so the last element of a queue is
  the one that has waited longest (`Stamped.getLast_lt`).
-/

namespace Queues

variable {α : Type*}

/-- Queue `i` of the row (no element when the row has no queue `i`). -/
def queueAt (qs : List (List α)) (i : ℕ) : List α :=
  qs[i]?.getD []

/-- `a` joins queue `i`. -/
def push (i : ℕ) (a : α) (qs : List (List α)) : List (List α) :=
  qs.modify i (a :: ·)

/-- The oldest element of queue `i` leaves. -/
def pop (i : ℕ) (qs : List (List α)) : List (List α) :=
  qs.modify i List.dropLast

/-- `a` leaves queue `i`, wherever it stands. -/
def drop [DecidableEq α] (i : ℕ) (a : α) (qs : List (List α)) : List (List α) :=
  qs.modify i (·.erase a)

/-- The lowest queue that has an element. -/
def firstNonEmpty (qs : List (List α)) : Option ℕ :=
  qs.findIdx? fun q => !q.isEmpty

variable {qs : List (List α)} {i j : ℕ} {a b : α}

@[simp] theorem length_push : (push i a qs).length = qs.length := by
  simp [push]

@[simp] theorem length_pop : (pop i qs).length = qs.length := by
  simp [pop]

@[simp] theorem length_drop [DecidableEq α] : (drop i a qs).length = qs.length := by
  simp [drop]

theorem queueAt_of_length_le (h : qs.length ≤ i) : queueAt qs i = [] := by
  simp [queueAt, h]

theorem lt_length_of_mem_queueAt (h : a ∈ queueAt qs i) : i < qs.length := by
  by_contra hi
  rw [queueAt_of_length_le (by omega)] at h
  exact List.not_mem_nil h

theorem queueAt_eq_getElem (h : i < qs.length) : queueAt qs i = qs[i] := by
  simp [queueAt, h]

theorem queueAt_modify (f : List α → List α) :
    queueAt (qs.modify i f) j =
      if i = j ∧ j < qs.length then f (queueAt qs j) else queueAt qs j := by
  unfold queueAt
  rw [List.getElem?_modify]
  by_cases hj : j < qs.length
  · by_cases hij : i = j <;> simp [hj, hij]
  · simp [hj]

theorem queueAt_push (h : i < qs.length) :
    queueAt (push i a qs) j = if i = j then a :: queueAt qs j else queueAt qs j := by
  rw [push, queueAt_modify]
  by_cases hij : i = j
  · subst hij
    simp [h]
  · simp [hij]

/-- An element joins one queue only. -/
theorem push_injective (hi : i < qs.length) (h : push i a qs = push j a qs) : i = j := by
  by_contra hij
  have hq := congrArg (fun qs => (queueAt qs i).length) h
  rw [queueAt_push hi, if_pos rfl, push, queueAt_modify, if_neg fun hc => hij hc.1.symm] at hq
  simp at hq

theorem queueAt_pop :
    queueAt (pop i qs) j = if i = j then (queueAt qs j).dropLast else queueAt qs j := by
  rw [pop, queueAt_modify]
  by_cases hij : i = j
  · by_cases hj : j < qs.length
    · simp [hij, hj]
    · simp [hij, queueAt_of_length_le (Nat.le_of_not_lt hj)]
  · simp [hij]

theorem queueAt_drop [DecidableEq α] :
    queueAt (drop i a qs) j = if i = j then (queueAt qs j).erase a else queueAt qs j := by
  rw [drop, queueAt_modify]
  by_cases hij : i = j
  · by_cases hj : j < qs.length
    · simp [hij, hj]
    · simp [hij, queueAt_of_length_le (Nat.le_of_not_lt hj)]
  · simp [hij]

theorem mem_flatten_iff : a ∈ qs.flatten ↔ ∃ i, a ∈ queueAt qs i := by
  rw [List.mem_flatten]
  constructor
  · rintro ⟨q, hq, ha⟩
    obtain ⟨i, hi, rfl⟩ := List.mem_iff_getElem.1 hq
    exact ⟨i, by rwa [queueAt_eq_getElem hi]⟩
  · rintro ⟨i, ha⟩
    have hi := lt_length_of_mem_queueAt ha
    rw [queueAt_eq_getElem hi] at ha
    exact ⟨qs[i], List.getElem_mem hi, ha⟩

theorem flatten_eq_nil_iff : qs.flatten = [] ↔ ∀ i, queueAt qs i = [] := by
  simp only [List.eq_nil_iff_forall_not_mem, mem_flatten_iff, not_exists]
  exact forall_comm

/-! ## The lowest non-empty queue -/

theorem firstNonEmpty_eq_some_iff :
    firstNonEmpty qs = some i ↔ queueAt qs i ≠ [] ∧ ∀ j < i, queueAt qs j = [] := by
  rw [firstNonEmpty, List.findIdx?_eq_some_iff_getElem]
  constructor
  · rintro ⟨hi, hne, hlt⟩
    refine ⟨?_, fun j hj => ?_⟩
    · rw [queueAt_eq_getElem hi]
      simpa using hne
    · rw [queueAt_eq_getElem (Nat.lt_trans hj hi)]
      simpa using hlt j hj
  · rintro ⟨hne, hlt⟩
    have hi : i < qs.length := by
      by_contra hi
      exact hne (queueAt_of_length_le (by omega))
    refine ⟨hi, ?_, fun j hj => ?_⟩
    · rw [queueAt_eq_getElem hi] at hne
      simpa using hne
    · have hj0 := hlt j hj
      rw [queueAt_eq_getElem (Nat.lt_trans hj hi)] at hj0
      simpa using hj0

theorem firstNonEmpty_eq_none_iff : firstNonEmpty qs = none ↔ ∀ i, queueAt qs i = [] := by
  rw [firstNonEmpty, List.findIdx?_eq_none_iff, ← flatten_eq_nil_iff, List.flatten_eq_nil_iff]
  simp

theorem lt_length_of_firstNonEmpty (h : firstNonEmpty qs = some i) : i < qs.length := by
  by_contra hi
  exact (firstNonEmpty_eq_some_iff.1 h).1 (queueAt_of_length_le (by omega))

/-! ## What a row holds -/

/-- A row holds what queue `i` holds and a rest that a change of queue `i` leaves. -/
theorem exists_flatten_perm (hi : i < qs.length) :
    ∃ rest, qs.flatten.Perm (qs[i] ++ rest) ∧
      ∀ f : List α → List α, (qs.modify i f).flatten.Perm (f qs[i] ++ rest) := by
  have hqs : qs = qs.take i ++ qs[i] :: qs.drop (i + 1) := by simp
  refine ⟨(qs.take i).flatten ++ (qs.drop (i + 1)).flatten, ?_, fun f => ?_⟩
  · conv_lhs => rw [hqs]
    rw [List.flatten_append, List.flatten_cons]
    exact List.perm_append_comm_assoc _ _ _
  · rw [List.modify_eq_take_cons_drop hi, List.flatten_append, List.flatten_cons]
    exact List.perm_append_comm_assoc _ _ _

/-- Taking one element out of one queue takes it out of the row. -/
theorem perm_flatten_modify {f : List α → List α} (hi : i < qs.length)
    (h : qs[i].Perm (a :: f qs[i])) : qs.flatten.Perm (a :: (qs.modify i f).flatten) := by
  obtain ⟨rest, hqs, hmodify⟩ := exists_flatten_perm hi
  exact (hqs.trans (h.append_right rest)).trans ((hmodify f).symm.cons a)

theorem push_perm (hi : i < qs.length) : (push i a qs).flatten.Perm (a :: qs.flatten) := by
  obtain ⟨rest, hqs, hmodify⟩ := exists_flatten_perm hi
  exact (hmodify _).trans (hqs.symm.cons a)

theorem perm_dropLast {q : List α} (h : q.getLast? = some a) : q.Perm (a :: q.dropLast) := by
  obtain ⟨r, rfl⟩ := List.getLast?_eq_some_iff.1 h
  rw [List.dropLast_concat]
  exact List.perm_append_singleton a r

theorem mem_dropLast_of_ne {q : List α} (h : q.getLast? = some a) (hb : b ∈ q) (hne : b ≠ a) :
    b ∈ q.dropLast := by
  rcases List.mem_cons.1 ((perm_dropLast h).mem_iff.1 hb) with hb | hb
  · exact absurd hb hne
  · exact hb

theorem pop_perm (h : (queueAt qs i).getLast? = some a) :
    qs.flatten.Perm (a :: (pop i qs).flatten) := by
  have hi := lt_length_of_mem_queueAt (List.mem_of_getLast? h)
  rw [queueAt_eq_getElem hi] at h
  exact perm_flatten_modify hi (perm_dropLast h)

theorem drop_perm [DecidableEq α] (h : a ∈ queueAt qs i) :
    qs.flatten.Perm (a :: (drop i a qs).flatten) := by
  have hi := lt_length_of_mem_queueAt h
  rw [queueAt_eq_getElem hi] at h
  exact perm_flatten_modify hi (List.perm_cons_erase h)

/-- A single element is alone in its queue, and the others are empty. -/
theorem exists_queueAt_of_flatten [DecidableEq α] (h : qs.flatten = [a]) :
    ∃ i, queueAt qs i = [a] ∧ ∀ j, j ≠ i → queueAt qs j = [] := by
  obtain ⟨i, hmem⟩ := mem_flatten_iff.1 (h ▸ List.mem_singleton_self a)
  have hperm := drop_perm hmem
  rw [h] at hperm
  have hleft := flatten_eq_nil_iff.1
    (List.length_eq_zero_iff.1 (Nat.succ.inj hperm.length_eq.symm))
  refine ⟨i, ?_, fun j hj => ?_⟩
  · have herase := hleft i
    rw [queueAt_drop, if_pos rfl] at herase
    have hq := List.perm_cons_erase hmem
    rw [herase] at hq
    exact List.perm_singleton.1 hq
  · exact (queueAt_drop.trans (if_neg (Ne.symm hj))).symm.trans (hleft j)

section Count

variable [DecidableEq α]

theorem count_cons_eq (l : List α) : (a :: l).count b = [a].count b + l.count b := by
  rw [← List.count_append, List.singleton_append]

theorem count_push (hi : i < qs.length) :
    (push i a qs).flatten.count b = qs.flatten.count b + [a].count b := by
  rw [(push_perm hi).count_eq, count_cons_eq, Nat.add_comm]

theorem count_pop (h : (queueAt qs i).getLast? = some a) :
    (pop i qs).flatten.count b + [a].count b = qs.flatten.count b := by
  rw [(pop_perm h).count_eq, count_cons_eq (pop i qs).flatten, Nat.add_comm]

theorem count_drop (h : a ∈ queueAt qs i) :
    (drop i a qs).flatten.count b + [a].count b = qs.flatten.count b := by
  rw [(drop_perm h).count_eq, count_cons_eq (drop i a qs).flatten, Nat.add_comm]

end Count

/-! ## How long the elements have waited -/

/-- The elements of each queue joined it in the order of their stamps, all before `now`. -/
structure Stamped (stamp : α → ℕ) (now : ℕ) (qs : List (List α)) : Prop where
  lt_now : ∀ i, ∀ a ∈ queueAt qs i, stamp a < now
  sorted : ∀ i, (queueAt qs i).Pairwise fun a b => stamp b < stamp a

namespace Stamped

variable {stamp : α → ℕ} {now : ℕ}

/-- The last element of a queue has waited longer than every other. -/
theorem getLast_lt (h : Stamped stamp now qs) (ha : (queueAt qs i).getLast? = some a)
    (hb : b ∈ (queueAt qs i).dropLast) : stamp a < stamp b := by
  obtain ⟨r, hr⟩ := List.getLast?_eq_some_iff.1 ha
  have hs := h.sorted i
  rw [hr, List.dropLast_concat] at hb
  rw [hr] at hs
  exact (List.pairwise_append.1 hs).2.2 b hb a (List.mem_singleton_self a)

/-- The last element of a queue stands there once. -/
theorem getLast_notMem_dropLast (h : Stamped stamp now qs)
    (ha : (queueAt qs i).getLast? = some a) : a ∉ (queueAt qs i).dropLast :=
  fun hmem => Nat.lt_irrefl _ (h.getLast_lt ha hmem)

/-- An element that was in no queue joins queue `i` now. -/
theorem push [DecidableEq α] (h : Stamped stamp now qs) (hi : i < qs.length)
    (ha : a ∉ qs.flatten) : Stamped (Function.update stamp a now) (now + 1) (push i a qs) := by
  have hne : ∀ j, ∀ b ∈ queueAt qs j, b ≠ a := by
    rintro j b hb rfl
    exact ha (mem_flatten_iff.2 ⟨j, hb⟩)
  have hold : ∀ j, ∀ b ∈ queueAt qs j, Function.update stamp a now b < now := fun j b hb => by
    rw [Function.update_of_ne (hne j b hb)]
    exact h.lt_now j b hb
  have hsorted : ∀ j, (queueAt qs j).Pairwise
      fun b c => Function.update stamp a now c < Function.update stamp a now b := fun j =>
    (h.sorted j).imp_of_mem fun hb hc hbc => by
      rwa [Function.update_of_ne (hne j _ hb), Function.update_of_ne (hne j _ hc)]
  refine ⟨fun j b hb => ?_, fun j => ?_⟩
  · rw [queueAt_push hi] at hb
    split at hb
    · rcases List.mem_cons.1 hb with rfl | hb
      · simp
      · exact Nat.lt_succ_of_lt (hold j b hb)
    · exact Nat.lt_succ_of_lt (hold j b hb)
  · rw [queueAt_push hi]
    split
    · refine List.pairwise_cons.2 ⟨fun b hb => ?_, hsorted j⟩
      rw [Function.update_self]
      exact hold j b hb
    · exact hsorted j

/-- The oldest element of a queue leaves. -/
theorem pop (h : Stamped stamp now qs) : Stamped stamp now (pop i qs) := by
  refine ⟨fun j b hb => ?_, fun j => ?_⟩
  · rw [queueAt_pop] at hb
    split at hb
    · exact h.lt_now j b ((List.dropLast_sublist _).mem hb)
    · exact h.lt_now j b hb
  · rw [queueAt_pop]
    split
    · exact (h.sorted j).sublist (List.dropLast_sublist _)
    · exact h.sorted j

theorem of_forall_nil (h : ∀ i, queueAt qs i = []) : Stamped stamp now qs :=
  ⟨fun i a ha => by simp [h i] at ha, fun i => by simp [h i]⟩

end Stamped

end Queues
