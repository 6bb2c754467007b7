import Mathlib.Data.List.Nodup
import Mathlib.Logic.Function.Basic
import Mathlib.Tactic.SplitIfs

/-!
# Intrusive lists

Lists threaded through their elements : an element has one pair of links, so it is in one
list at most. `Lists` states what a family of such lists promises, and `Links.lists` is
the usual one, with the first and the last element of each list.

`foreach` goes through a list and reads the link of an element once its body has run. A
body that moves the element to the head of another list goes on in that list : it moves
one element if that list was empty and never ends otherwise (`foreach_eq_some_iff`).
-/

namespace Intrusive

open Function

set_option linter.unusedSectionVars false

variable {Q α M X : Type*} [DecidableEq Q] [DecidableEq α]

/-- Lists named by `Q` of elements `α` in a memory `M`. -/
structure Lists (Q α M : Type*) [DecidableEq Q] [DecidableEq α] where
  first : M → Q → Option α
  next : M → α → Option α
  insertHead : Q → α → M → M
  remove : Q → α → M → M
  /-- The links of the memory are those of the lists. -/
  Holds : M → (Q → List α) → Prop
  nodup : ∀ {m c}, Holds m c → ∀ q, (c q).Nodup
  disjoint : ∀ {m c}, Holds m c → ∀ {a q q'}, a ∈ c q → a ∈ c q' → q = q'
  first_eq : ∀ {m c}, Holds m c → ∀ q, first m q = (c q).head?
  next_eq : ∀ {m c}, Holds m c → ∀ {q l a r}, c q = l ++ a :: r → next m a = r.head?
  holds_insertHead : ∀ {m c}, Holds m c → ∀ {a} (q), (∀ q', a ∉ c q') →
    Holds (insertHead q a m) (update c q (a :: c q))
  holds_remove : ∀ {m c}, Holds m c → ∀ {a q}, a ∈ c q →
    Holds (remove q a m) (update c q ((c q).erase a))
  first_insertHead : ∀ m q a, first (insertHead q a m) q = some a
  next_insertHead : ∀ m q a, next (insertHead q a m) a = first m q
  first_remove : ∀ m a {q q'}, q' ≠ q → first (remove q a m) q' = first m q'

/-! ## The usual links -/

/-- The ends of every list, and the neighbours of every element. -/
structure Links (Q α : Type*) where
  first : Q → Option α
  last : Q → Option α
  next : α → Option α
  prev : α → Option α

namespace Links

variable {m : Links Q α} {c : Q → List α} {a b : α} {q q' : Q} {l r : List α} {p n : Option α}

/-- `n` comes after `p`, or first in list `q`. -/
def setFollowing (q : Q) (p n : Option α) (m : Links Q α) : Links Q α :=
  match p with
  | some b => { m with next := update m.next b n }
  | none => { m with first := update m.first q n }

/-- `p` comes before `n`, or last in list `q`. -/
def setPreceding (q : Q) (n p : Option α) (m : Links Q α) : Links Q α :=
  match n with
  | some b => { m with prev := update m.prev b p }
  | none => { m with last := update m.last q p }

/-- `LIST_INSERT_HEAD`. -/
def insertHead (q : Q) (a : α) (m : Links Q α) : Links Q α :=
  let t := (m.setFollowing q none (some a)).setPreceding q (m.first q) (some a)
  { t with
    next := update t.next a (m.first q)
    prev := update t.prev a none }

/-- `LIST_REMOVE`. -/
def remove (q : Q) (a : α) (m : Links Q α) : Links Q α :=
  (m.setFollowing q (m.prev a) (m.next a)).setPreceding q (m.next a) (m.prev a)

@[simp] theorem setFollowing_next :
    (m.setFollowing q p n).next b = if p = some b then n else m.next b := by
  cases p with
  | none => simp [setFollowing]
  | some c => simp [setFollowing, update_apply, eq_comm]

@[simp] theorem setFollowing_first :
    (m.setFollowing q p n).first q' = if p = none ∧ q' = q then n else m.first q' := by
  cases p with
  | none => simp [setFollowing, update_apply]
  | some c => simp [setFollowing]

@[simp] theorem setFollowing_prev : (m.setFollowing q p n).prev = m.prev := by
  cases p <;> rfl

@[simp] theorem setFollowing_last : (m.setFollowing q p n).last = m.last := by
  cases p <;> rfl

@[simp] theorem setPreceding_prev :
    (m.setPreceding q n p).prev b = if n = some b then p else m.prev b := by
  cases n with
  | none => simp [setPreceding]
  | some c => simp [setPreceding, update_apply, eq_comm]

@[simp] theorem setPreceding_last :
    (m.setPreceding q n p).last q' = if n = none ∧ q' = q then p else m.last q' := by
  cases n with
  | none => simp [setPreceding, update_apply]
  | some c => simp [setPreceding]

@[simp] theorem setPreceding_next : (m.setPreceding q n p).next = m.next := by
  cases n <;> rfl

@[simp] theorem setPreceding_first : (m.setPreceding q n p).first = m.first := by
  cases n <;> rfl

theorem insertHead_next :
    (m.insertHead q a).next b = if b = a then m.first q else m.next b := by
  simp [insertHead, update_apply]

theorem insertHead_prev : (m.insertHead q a).prev b =
    if b = a then none else if m.first q = some b then some a else m.prev b := by
  simp [insertHead, update_apply]

theorem insertHead_first :
    (m.insertHead q a).first q' = if q' = q then some a else m.first q' := by
  simp [insertHead]

theorem insertHead_last : (m.insertHead q a).last q' =
    if m.first q = none ∧ q' = q then some a else m.last q' := by
  simp [insertHead]

theorem remove_next :
    (m.remove q a).next b = if m.prev a = some b then m.next a else m.next b := by
  simp [remove]

theorem remove_prev :
    (m.remove q a).prev b = if m.next a = some b then m.prev a else m.prev b := by
  simp [remove]

theorem remove_first : (m.remove q a).first q' =
    if m.prev a = none ∧ q' = q then m.next a else m.first q' := by
  simp [remove]

theorem remove_last : (m.remove q a).last q' =
    if m.next a = none ∧ q' = q then m.prev a else m.last q' := by
  simp [remove]

/-! ## Lists that the links thread -/

/-- The links of the elements of `xs` are those of the list. -/
def Threaded (m : Links Q α) (xs : List α) : Prop :=
  ∀ l a r, xs = l ++ a :: r → m.next a = r.head? ∧ m.prev a = l.getLast?

variable {m' : Links Q α} {xs : List α}

theorem Threaded.congr (h : m.Threaded xs)
    (hsame : ∀ b ∈ xs, m'.next b = m.next b ∧ m'.prev b = m.prev b) : m'.Threaded xs := by
  intro l b r hsplit
  have hb : b ∈ xs := hsplit ▸ List.mem_append_right l List.mem_cons_self
  rw [(hsame b hb).1, (hsame b hb).2]
  exact h l b r hsplit

theorem Threaded.insertHead (h : m.Threaded xs) (hnodup : (a :: xs).Nodup)
    (hfirst : m.first q = xs.head?) : (m.insertHead q a).Threaded (a :: xs) := by
  intro l b r hsplit
  rw [insertHead_next, insertHead_prev, hfirst]
  obtain ⟨ha, hnodup⟩ := List.nodup_cons.1 hnodup
  rcases List.cons_eq_append_iff.1 hsplit with ⟨rfl, hcons⟩ | ⟨l, rfl, rfl⟩
  · obtain ⟨rfl, rfl⟩ := List.cons.inj hcons
    rw [if_pos rfl, if_pos rfl]
    exact ⟨rfl, rfl⟩
  · have hb : b ≠ a := fun heq => ha (heq ▸ List.mem_append_right l List.mem_cons_self)
    obtain ⟨hnext, hprev⟩ := h l b r rfl
    rw [if_neg hb, if_neg hb]
    refine ⟨hnext, ?_⟩
    cases l with
    | nil => exact if_pos rfl
    | cons d l =>
      have hd : d ≠ b := fun heq =>
        (List.nodup_cons.1 hnodup).1 (heq ▸ List.mem_append_right l List.mem_cons_self)
      rw [List.cons_append, List.head?_cons, if_neg fun hhead => hd (Option.some.inj hhead), hprev]
      exact List.getLast?_cons_cons.symm

theorem Threaded.remove (h : m.Threaded (l ++ a :: r)) (hnodup : (l ++ a :: r).Nodup) :
    (m.remove q a).Threaded (l ++ r) := by
  obtain ⟨hnext, hprev⟩ := h l a r rfl
  have hapart : ∀ b ∈ l, b ∉ r := fun b hl hr =>
    (List.nodup_append.1 hnodup).2.2 b hl b (List.mem_cons_of_mem a hr) rfl
  intro l' b r' hsplit
  rw [remove_next, remove_prev, hnext, hprev]
  -- the element comes after the one removed, or before it
  have hafter : ∀ mid, l' = l ++ mid → r = mid ++ b :: r' →
      (if l.getLast? = some b then r.head? else m.next b) = r'.head? ∧
        (if r.head? = some b then l.getLast? else m.prev b) = l'.getLast? := by
    rintro mid rfl rfl
    have hbr : b ∈ mid ++ b :: r' := List.mem_append_right mid List.mem_cons_self
    obtain ⟨hnextb, hprevb⟩ := h (l ++ a :: mid) b r' (by simp)
    rw [if_neg fun hlast => hapart b (List.mem_of_getLast? hlast) hbr]
    refine ⟨hnextb, ?_⟩
    cases mid with
    | nil => rw [List.nil_append, List.head?_cons, if_pos rfl, List.append_nil]
    | cons d mid =>
      have hd : d ≠ b := fun heq => by
        have hnodup := (List.nodup_cons.1 (List.nodup_append.1 hnodup).2.1).2
        exact (List.nodup_cons.1 hnodup).1 (heq ▸ List.mem_append_right mid List.mem_cons_self)
      rw [List.cons_append, List.head?_cons, if_neg fun hhead => hd (Option.some.inj hhead),
        hprevb, List.getLast?_append_cons, List.getLast?_append_cons, List.getLast?_cons_cons]
  rcases List.append_eq_append_iff.1 hsplit with ⟨mid, hl', hr⟩ | ⟨mid, hl, hmid⟩
  · exact hafter mid hl' hr
  · rcases List.cons_eq_append_iff.1 hmid with ⟨rfl, hr⟩ | ⟨mid, rfl, rfl⟩
    · exact hafter [] (by rw [hl]; simp) hr
    · subst hl
      have hbl : b ∈ l' ++ b :: mid := List.mem_append_right l' List.mem_cons_self
      obtain ⟨hnextb, hprevb⟩ := h l' b (mid ++ a :: r) (by simp)
      have hhead : r.head? ≠ some b := fun hhead => hapart b hbl (List.mem_of_mem_head? hhead)
      rw [if_neg hhead]
      refine ⟨?_, hprevb⟩
      cases mid with
      | nil => rw [List.getLast?_concat, if_pos rfl, List.nil_append]
      | cons d mid =>
        have hlast : (l' ++ b :: d :: mid).getLast? ≠ some b := fun hlast => by
          rw [List.getLast?_append_cons, List.getLast?_cons_cons] at hlast
          have hnodup := (List.nodup_append.1 (List.nodup_append.1 hnodup).1).2.1
          exact (List.nodup_cons.1 hnodup).1 (List.mem_of_getLast? hlast)
        rw [if_neg hlast, hnextb]
        rfl

/-- The ends of each list and the links of its elements. -/
structure Holds (m : Links Q α) (c : Q → List α) : Prop where
  nodup : ∀ q, (c q).Nodup
  disjoint : ∀ {a q q'}, a ∈ c q → a ∈ c q' → q = q'
  first : ∀ q, m.first q = (c q).head?
  last : ∀ q, m.last q = (c q).getLast?
  threaded : ∀ q, m.Threaded (c q)

namespace Holds

theorem insertHead (h : Holds m c) (q : Q) (ha : ∀ q', a ∉ c q') :
    Holds (m.insertHead q a) (update c q (a :: c q)) := by
  have hcons : (a :: c q).Nodup := List.nodup_cons.2 ⟨ha q, h.nodup q⟩
  have hmem : ∀ {b q'}, b ∈ update c q (a :: c q) q' → b ∈ c q' ∨ b = a ∧ q' = q := by
    intro b q' hb
    by_cases hq : q' = q
    · subst hq
      rw [update_self] at hb
      exact (List.mem_cons.1 hb).symm.imp_right fun hb => ⟨hb, rfl⟩
    · rw [update_of_ne hq] at hb
      exact Or.inl hb
  constructor
  case nodup =>
    exact (forall_update_iff c fun _ xs => xs.Nodup).2 ⟨hcons, fun q' _ => h.nodup q'⟩
  case disjoint =>
    intro b q₁ q₂ h₁ h₂
    rcases hmem h₁ with hb₁ | ⟨rfl, rfl⟩ <;> rcases hmem h₂ with hb₂ | ⟨hb, rfl⟩
    · exact h.disjoint hb₁ hb₂
    · exact absurd hb₁ (hb ▸ ha q₁)
    · exact absurd hb₂ (ha q₂)
    · rfl
  case first =>
    refine (forall_update_iff c fun q' xs => (m.insertHead q a).first q' = xs.head?).2
      ⟨insertHead_first.trans (if_pos rfl), fun q' hq => ?_⟩
    rw [insertHead_first, if_neg hq, h.first]
  case last =>
    refine (forall_update_iff c fun q' xs => (m.insertHead q a).last q' = xs.getLast?).2
      ⟨?_, fun q' hq => ?_⟩
    · rw [insertHead_last, h.first, h.last]
      cases c q with
      | nil => exact if_pos ⟨rfl, rfl⟩
      | cons d xs =>
        rw [if_neg fun hnone => Option.some_ne_none d hnone.1]
        exact List.getLast?_cons_cons.symm
    · rw [insertHead_last, if_neg fun hboth => hq hboth.2, h.last]
  case threaded =>
    refine (forall_update_iff c fun _ => (m.insertHead q a).Threaded).2
      ⟨(h.threaded q).insertHead hcons (h.first q), fun q' hq => ?_⟩
    refine (h.threaded q').congr fun b hb => ?_
    have hba : b ≠ a := fun heq => ha q' (heq ▸ hb)
    have hfirst : m.first q ≠ some b := fun hfirst => by
      rw [h.first] at hfirst
      exact hq (h.disjoint hb (List.mem_of_mem_head? hfirst))
    rw [insertHead_next, insertHead_prev, if_neg hba, if_neg hba, if_neg hfirst]
    exact ⟨rfl, rfl⟩

theorem remove (h : Holds m c) (ha : a ∈ c q) :
    Holds (m.remove q a) (update c q ((c q).erase a)) := by
  obtain ⟨l, r, hsplit⟩ := List.append_of_mem ha
  have hnodup := h.nodup q
  rw [hsplit] at hnodup
  have hal : a ∉ l := fun hal =>
    (List.nodup_append.1 hnodup).2.2 a hal a List.mem_cons_self rfl
  have herase : (c q).erase a = l ++ r := by
    rw [hsplit, List.erase_append_right _ hal, List.erase_cons_head]
  obtain ⟨hnext, hprev⟩ := h.threaded q l a r hsplit
  have hmem : ∀ {b q'}, b ∈ update c q ((c q).erase a) q' → b ∈ c q' := by
    intro b q' hb
    by_cases hq : q' = q
    · subst hq
      rw [update_self] at hb
      exact List.mem_of_mem_erase hb
    · rwa [update_of_ne hq] at hb
  constructor
  case nodup =>
    exact (forall_update_iff c fun _ xs => xs.Nodup).2
      ⟨(h.nodup q).erase a, fun q' _ => h.nodup q'⟩
  case disjoint => exact fun h₁ h₂ => h.disjoint (hmem h₁) (hmem h₂)
  case first =>
    rw [herase]
    refine (forall_update_iff c fun q' xs => (m.remove q a).first q' = xs.head?).2
      ⟨?_, fun q' hq => ?_⟩
    · rw [remove_first, hprev, hnext, h.first, hsplit]
      cases l with
      | nil => exact if_pos ⟨rfl, rfl⟩
      | cons d l => exact if_neg fun hnone => by simp at hnone
    · rw [remove_first, if_neg fun hboth => hq hboth.2, h.first]
  case last =>
    rw [herase]
    refine (forall_update_iff c fun q' xs => (m.remove q a).last q' = xs.getLast?).2
      ⟨?_, fun q' hq => ?_⟩
    · rw [remove_last, hprev, hnext, h.last, hsplit]
      cases r with
      | nil => rw [if_pos ⟨rfl, rfl⟩, List.append_nil]
      | cons d r =>
        rw [if_neg fun hnone => Option.some_ne_none d hnone.1, List.getLast?_append_cons,
          List.getLast?_append_cons, List.getLast?_cons_cons]
    · rw [remove_last, if_neg fun hboth => hq hboth.2, h.last]
  case threaded =>
    rw [herase]
    refine (forall_update_iff c fun _ => (m.remove q a).Threaded).2 ⟨?_, fun q' hq => ?_⟩
    · have hthreaded := h.threaded q
      rw [hsplit] at hthreaded
      exact hthreaded.remove hnodup
    · refine (h.threaded q').congr fun b hb => ?_
      have hlr : b ∉ l ++ a :: r := fun hlr => hq (h.disjoint hb (hsplit ▸ hlr))
      have hl : l.getLast? ≠ some b := fun hl =>
        hlr (List.mem_append_left _ (List.mem_of_getLast? hl))
      have hr : r.head? ≠ some b := fun hr =>
        hlr (List.mem_append_right l (List.mem_cons_of_mem a (List.mem_of_mem_head? hr)))
      rw [remove_next, remove_prev, hprev, hnext, if_neg hl, if_neg hr]
      exact ⟨rfl, rfl⟩

end Holds

/-- No element is in any list. -/
def empty : Links Q α :=
  ⟨fun _ => none, fun _ => none, fun _ => none, fun _ => none⟩

/-- Each element is in the list it is paired with, in this order. -/
def build (xs : List (Q × α)) : Links Q α :=
  xs.foldr (fun x m => m.insertHead x.1 x.2) empty

theorem holds_build {xs : List (Q × α)} (h : (xs.map Prod.snd).Nodup) :
    Holds (build xs) fun q => (xs.filter (·.1 = q)).map Prod.snd := by
  induction xs with
  | nil =>
    refine ⟨fun _ => List.nodup_nil, fun {a q q'} ha => ?_, fun _ => rfl, fun _ => rfl,
      fun q l a r hsplit => ?_⟩
    · exact absurd ha List.not_mem_nil
    · exact absurd hsplit (by simp)
  | cons x xs ih =>
    obtain ⟨hx, hnodup⟩ := List.nodup_cons.1 h
    have hnew : ∀ q, x.2 ∉ (xs.filter (·.1 = q)).map Prod.snd := fun q hmem =>
      hx ((List.filter_sublist.map _).mem hmem)
    refine cast (congrArg _ (funext fun q => ?_)) ((ih hnodup).insertHead x.1 hnew)
    by_cases hq : x.1 = q
    · subst hq
      simp
    · simp [update_of_ne (Ne.symm hq), hq]

/-- The usual links are such a family of lists. -/
def lists : Lists Q α (Links Q α) where
  first := Links.first
  next := Links.next
  insertHead := insertHead
  remove := remove
  Holds := Holds
  nodup := Holds.nodup
  disjoint := Holds.disjoint
  first_eq := Holds.first
  next_eq := fun {_ _} h {q l a r} hsplit => (h.threaded q l a r hsplit).1
  holds_insertHead := fun {_ _} h {_} q ha => h.insertHead q ha
  holds_remove := fun {_ _} h {_ _} ha => h.remove ha
  first_insertHead := fun _ _ _ => insertHead_first.trans (if_pos rfl)
  next_insertHead := fun _ _ _ => insertHead_next.trans (if_pos rfl)
  first_remove := fun _ _ _ _ hq => remove_first.trans (if_neg fun hboth => hq hboth.2)

end Links

/-! ## Moving an element -/

namespace Lists

/-- An element taken out of one list goes to the head of any. -/
theorem holds_move (L : Lists Q α M) {m : M} {c : Q → List α} {a : α} {q : Q} (h : L.Holds m c)
    (ha : a ∈ c q) (q' : Q) :
    L.Holds (L.insertHead q' a (L.remove q a m))
      (update (update c q ((c q).erase a)) q' (a :: update c q ((c q).erase a) q')) := by
  refine L.holds_insertHead (L.holds_remove h ha) q' fun p hp => ?_
  by_cases hpq : p = q
  · subst hpq
    rw [update_self] at hp
    exact (L.nodup h p).not_mem_erase hp
  · rw [update_of_ne hpq] at hp
    exact hpq (L.disjoint h hp ha)

end Lists

/-! ## A loop over a list that the body changes -/

namespace Lists

variable (L : Lists Q α M) (memory : X → M) (body : α → X → Option X)

/-- The loop over a list from the element `p` on : an element's next link is read once
its body has run. It may run for `fuel` elements. -/
def foreach : ℕ → Option α → X → Option X
  | _, none, x => some x
  | 0, some _, _ => none
  | fuel + 1, some a, x => (body a x).bind fun x' => foreach fuel (L.next (memory x') a) x'

variable {L memory body} {q : Q}

variable (L memory body) in
/-- The body ends with an insertion of its element at the head of `q`, and has not touched
the head of `q` before. -/
def Moves (q : Q) : Prop :=
  ∀ a x x', body a x = some x' →
    L.first (memory x') q = some a ∧ L.next (memory x') a = L.first (memory x) q

/-- If the list moved to is not empty, the loop goes on in it and never ends. -/
theorem foreach_eq_none (h : Moves L memory body q) :
    ∀ (fuel : ℕ) {a : α} {x : X}, L.first (memory x) q ≠ none →
      L.foreach memory body fuel (some a) x = none
  | 0, _, _, _ => rfl
  | fuel + 1, a, x, hfirst => by
    rw [foreach, Option.bind_eq_none_iff]
    intro x' hx'
    obtain ⟨hfirst', hnext⟩ := h a x x' hx'
    obtain ⟨b, hb⟩ := Option.ne_none_iff_exists'.1 hfirst
    rw [hnext, hb]
    exact foreach_eq_none h fuel (by simp [hfirst'])

/-- The loop over a list that is not empty ends if the list moved to is empty, and moves one
element. -/
theorem foreach_eq_some_iff (h : Moves L memory body q) {fuel : ℕ} {a : α} {x x' : X} :
    L.foreach memory body fuel (some a) x = some x' ↔
      L.first (memory x) q = none ∧ 0 < fuel ∧ body a x = some x' := by
  by_cases hfirst : L.first (memory x) q = none
  · cases fuel with
    | zero => simp [foreach]
    | succ fuel =>
      rw [foreach, Option.bind_eq_some_iff]
      refine ⟨fun ⟨y, hy, hrest⟩ => ⟨hfirst, Nat.succ_pos fuel, ?_⟩, fun ⟨_, _, hbody⟩ =>
        ⟨x', hbody, ?_⟩⟩
      · rw [(h a x y hy).2, hfirst, foreach] at hrest
        rwa [← hrest]
      · rw [(h a x x' hbody).2, hfirst, foreach]
  · rw [foreach_eq_none h fuel hfirst]
    exact ⟨fun hnone => (Option.some_ne_none x' hnone.symm).elim,
      fun hsome => absurd hsome.1 hfirst⟩

end Lists

end Intrusive
