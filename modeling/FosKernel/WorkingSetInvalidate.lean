import FosKernel.WorkingSet

/-!
# Invalidating a page of the working set

`env_page_ws_invalidate` clears the first slot that carries the address of the page. A
cleared slot carries address zero, so for the page at zero it may be an empty one
(`pageWsInvalidate_spec`).

`page_last_WS_index` stays where it is. In a working set with room it names an empty slot
before and after; in a full one it names the slot where the next search for a victim starts,
which is in general another one than the slot cleared. `usable_iff` says when a page can be
placed afterwards without overwriting another.
-/

namespace FosKernel

namespace Env

variable {e e' : Env} {i j va w : Nat} {x : WorkingSetElement}

/-- The loop of `env_page_ws_invalidate`, with its trips to go. -/
def pageWsInvalidateLoop (va : Nat) : Nat → Nat → Env → Option Env
  | 0, _, e => some e
  | trips + 1, i, e => do
    let x ← e.ptrPageWorkingSet[i]?
    if roundDown x.virtualAddress pageSize = roundDown va pageSize then e.pageWsClearEntry i
    else pageWsInvalidateLoop va trips (i + 1) e

/-- `env_page_ws_invalidate`. -/
def pageWsInvalidate (e : Env) (va : Nat) : Option Env :=
  pageWsInvalidateLoop va e.pageWSMaxSize 0 e

/-- Slot `i` is the first one that carries an address of the page. -/
def FirstCarries (e : Env) (va i : Nat) : Prop :=
  (∃ x, e.ptrPageWorkingSet[i]? = some x ∧
    roundDown x.virtualAddress pageSize = roundDown va pageSize) ∧
  ∀ j < i, ∀ x, e.ptrPageWorkingSet[j]? = some x →
    roundDown x.virtualAddress pageSize ≠ roundDown va pageSize

theorem pageWsInvalidateLoop_spec : ∀ (trips i : Nat), i + trips = e.pageWSMaxSize →
    (∀ j < i, ∀ x, e.ptrPageWorkingSet[j]? = some x →
      roundDown x.virtualAddress pageSize ≠ roundDown va pageSize) →
    (∃ k, e.FirstCarries va k ∧ pageWsInvalidateLoop va trips i e = e.pageWsClearEntry k) ∨
    (∀ (x : WorkingSetElement), x ∈ e.ptrPageWorkingSet →
        roundDown x.virtualAddress pageSize ≠ roundDown va pageSize) ∧
      pageWsInvalidateLoop va trips i e = some e
  | 0, i, hi, hbefore => by
    refine Or.inr ⟨fun x hx => ?_, rfl⟩
    obtain ⟨j, hj⟩ := List.mem_iff_getElem?.1 hx
    have hlt := (List.getElem?_eq_some_iff.1 hj).1
    exact hbefore j (by unfold pageWSMaxSize at hi; omega) x hj
  | trips + 1, i, hi, hbefore => by
    have hlt : i < e.ptrPageWorkingSet.length := by
      unfold pageWSMaxSize at hi
      omega
    have hx := List.getElem?_eq_getElem hlt
    simp only [pageWsInvalidateLoop, hx, Option.bind_eq_bind, Option.bind_some]
    split_ifs with hcarries
    · exact Or.inl ⟨i, ⟨⟨_, hx, hcarries⟩, hbefore⟩, rfl⟩
    · refine pageWsInvalidateLoop_spec trips (i + 1) (by omega) fun j hj y hy => ?_
      rcases Nat.lt_succ_iff_lt_or_eq.1 hj with hj | rfl
      · exact hbefore j hj y hy
      · exact Option.some.inj (hx.symm.trans hy) ▸ hcarries

/-- Slot `i` holds a page : it is occupied, with an address of the page. -/
def HoldsPage (e : Env) (va i : Nat) : Prop :=
  ∃ w, e.slot i = some w ∧ roundDown w pageSize = roundDown va pageSize

/-- What `env_page_ws_invalidate` does to the slots of distinct pages of which the occupied
ones come first : the slot of the page is cleared, if there is one. -/
theorem pageWsInvalidate_spec (va : Nat) (hslots : e.Full ∨ e.IsPrefix)
    (hdistinct : ∀ i j w w', e.slot i = some w → e.slot j = some w' →
      roundDown w pageSize = roundDown w' pageSize → i = j) :
    ∃ e', e.pageWsInvalidate va = some e' ∧ e'.pageLastWSIndex = e.pageLastWSIndex ∧
      e'.pageWSMaxSize = e.pageWSMaxSize ∧
      (∀ i, e.HoldsPage va i → e'.slot i = none) ∧
      ∀ i, ¬e.HoldsPage va i → e'.slot i = e.slot i := by
  rcases pageWsInvalidateLoop_spec e.pageWSMaxSize 0 (Nat.zero_add _)
    (fun j hj => absurd hj (Nat.not_lt_zero j)) with ⟨k, ⟨⟨x, hx, hcarries⟩, hbefore⟩, hloop⟩ |
      ⟨hnone, hloop⟩
  · have hlt := (List.getElem?_eq_some_iff.1 hx).1
    have hclear := (pageWsClearEntry_eq_some (e := e) (i := k)).2 ⟨hlt, rfl⟩
    refine ⟨_, hloop.trans hclear, rfl, List.length_set, fun i hi => ?_, fun i hi => ?_⟩
    · rw [slot_set hlt]
      split_ifs with hik
      · rfl
      · -- an occupied slot of the page comes before the first empty one
        exfalso
        obtain ⟨w, hw, hpage⟩ := hi
        obtain ⟨y, hy, hye, rfl⟩ := slot_eq_some.1 hw
        cases hempty : x.empty with
        | false =>
          have hk : e.slot k = some x.virtualAddress := slot_eq_some.2 ⟨x, hx, hempty, rfl⟩
          exact hik (hdistinct i k _ _ hw hk (hpage.trans hcarries.symm))
        | true =>
          have hupto := hslots.resolve_left fun hfull => by
            rw [hfull x (List.mem_of_getElem? hx)] at hempty
            cases hempty
          have hi' := (hupto i (List.getElem?_eq_some_iff.1 hy).1).1 (by rw [hw]; rfl)
          have hk' := (hupto k hlt).not.1 (by simp [slot, hx, WorkingSetElement.address?, hempty])
          exact hbefore i (by omega) y hy hpage
    · rw [slot_set hlt]
      split_ifs with hik
      · subst hik
        cases hempty : x.empty with
        | false => exact absurd ⟨_, slot_eq_some.2 ⟨x, hx, hempty, rfl⟩, hcarries⟩ hi
        | true => simp [slot, hx, WorkingSetElement.address?, WorkingSetElement.cleared, hempty]
      · rfl
  · refine ⟨e, hloop, rfl, rfl, fun i hi => ?_, fun _ _ => rfl⟩
    obtain ⟨w, hw, hpage⟩ := hi
    obtain ⟨y, hy, -, rfl⟩ := slot_eq_some.1 hw
    exact absurd hpage (hnone y (List.mem_of_getElem? hy))

/-- A page can be placed after an invalidation : no slot holds the page invalidated, the
others are as they were, and `page_last_WS_index` names an empty slot if there is one. -/
structure Usable (va : Nat) (e e' : Env) : Prop where
  gone : ∀ i, ¬e'.HoldsPage va i
  others : ∀ i w, roundDown w pageSize ≠ roundDown va pageSize →
    (e'.slot i = some w ↔ e.slot i = some w)
  room : (∃ i < e'.pageWSMaxSize, e'.slot i = none) →
    e'.pageLastWSIndex < e'.pageWSMaxSize ∧ e'.slot e'.pageLastWSIndex = none

theorem HoldsPage.lt (h : e.HoldsPage va i) : i < e.pageWSMaxSize := by
  obtain ⟨w, hw, -⟩ := h
  obtain ⟨x, hx, -⟩ := slot_eq_some.1 hw
  exact (List.getElem?_eq_some_iff.1 hx).1

/-- Invalidating a page of a working set of distinct pages leaves it usable exactly if it had
room, if no slot holds the page, or if the slot that does is the one `page_last_WS_index`
names. -/
theorem usable_iff (hslots : e.Full ∨ e.IsPrefix)
    (hdistinct : ∀ i j w w', e.slot i = some w → e.slot j = some w' →
      roundDown w pageSize = roundDown w' pageSize → i = j) :
    ∃ e', e.pageWsInvalidate va = some e' ∧
      (Usable va e e' ↔ ¬e.Full ∨ (∀ i, ¬e.HoldsPage va i) ∨ e.HoldsPage va e.pageLastWSIndex) := by
  obtain ⟨e', he', hindex, hsize, hcleared, hkept⟩ :=
    pageWsInvalidate_spec va hslots hdistinct
  refine ⟨e', he', fun husable => ?_,
    fun hcond => ⟨fun i hi => ?_, fun i w hw => ?_, fun hroom => ?_⟩⟩
  · by_contra hnot
    rw [not_or, not_or, not_not, not_forall] at hnot
    obtain ⟨hfull, ⟨i, hi⟩, hlast⟩ := hnot
    rw [not_not] at hi
    -- the slot named is still occupied
    obtain ⟨hlt, hempty⟩ := husable.room ⟨i, hsize ▸ hi.lt, hcleared i hi⟩
    rw [hindex, hkept _ hlast] at hempty
    rw [hindex, hsize] at hlt
    have hsome := hfull.slot_isSome hlt
    rw [hempty] at hsome
    cases hsome
  · by_cases hold : e.HoldsPage va i
    · obtain ⟨w, hw, -⟩ := hi
      rw [hcleared i hold] at hw
      cases hw
    · obtain ⟨w, hw, hpage⟩ := hi
      rw [hkept i hold] at hw
      exact hold ⟨w, hw, hpage⟩
  · by_cases hold : e.HoldsPage va i
    · obtain ⟨w', hw', hpage⟩ := hold
      rw [hcleared i ⟨w', hw', hpage⟩, hw']
      refine iff_of_false (fun hc => by cases hc) fun hc => hw ?_
      rw [← Option.some.inj hc, hpage]
    · rw [hkept i hold]
  · rw [hindex, hsize]
    obtain ⟨i, hi, hempty⟩ := hroom
    rw [hsize] at hi
    rcases hcond with hfull | hnone | hlast
    · obtain ⟨hlt, hlast⟩ := (hslots.resolve_left hfull).slot_index hfull
      refine ⟨hlt, ?_⟩
      rwa [hkept _ fun ⟨w, hw, _⟩ => by rw [hlast] at hw; cases hw]
    · have hfull : ¬e.Full := fun hfull => by
        have hsome := hfull.slot_isSome hi
        rw [← hkept i (hnone i), hempty] at hsome
        cases hsome
      obtain ⟨hlt, hlast⟩ := (hslots.resolve_left hfull).slot_index hfull
      exact ⟨hlt, (hkept _ (hnone _)).trans hlast⟩
    · exact ⟨hlast.lt, hcleared _ hlast⟩

/-- Two slots, both occupied; the next page goes to the first one. -/
def twoSlots : Env :=
  ⟨[⟨0x1000, false, 0#32⟩, ⟨0x2000, false, 0#32⟩], 0⟩

theorem twoSlots_slot (i w : Nat) : twoSlots.slot i = some w ↔ i = 0 ∧ w = 0x1000 ∨
    i = 1 ∧ w = 0x2000 := by
  match i with
  | 0 => simp [twoSlots, slot, WorkingSetElement.address?, eq_comm]
  | 1 => simp [twoSlots, slot, WorkingSetElement.address?, eq_comm]
  | i + 2 => simp [twoSlots, slot]

theorem twoSlots_distinct : ∀ i j w w', twoSlots.slot i = some w → twoSlots.slot j = some w' →
    roundDown w pageSize = roundDown w' pageSize → i = j := by
  intro i j w w' hi hj hpage
  rw [twoSlots_slot] at hi hj
  rcases hi with ⟨rfl, rfl⟩ | ⟨rfl, rfl⟩ <;> rcases hj with ⟨rfl, rfl⟩ | ⟨rfl, rfl⟩
  · rfl
  · exact absurd hpage (by decide)
  · exact absurd hpage (by decide)
  · rfl

/-- The page in the slot that `page_last_WS_index` names can go. -/
theorem twoSlots_usable : ∃ e', twoSlots.pageWsInvalidate 0x1000 = some e' ∧
    Usable 0x1000 twoSlots e' := by
  have hholds : twoSlots.HoldsPage 0x1000 twoSlots.pageLastWSIndex :=
    ⟨0x1000, (twoSlots_slot _ _).2 (Or.inl ⟨rfl, rfl⟩), rfl⟩
  obtain ⟨e', he', husable⟩ :=
    usable_iff (Or.inl (by decide : twoSlots.Full)) twoSlots_distinct
  exact ⟨e', he', husable.2 (Or.inr (Or.inr hholds))⟩

/-- The other page leaves an empty slot that `page_last_WS_index` does not name. -/
theorem secondSlot_counterexample : twoSlots.Full ∧ twoSlots.addresses = [0x1000, 0x2000] ∧
    twoSlots.pageWsInvalidate 0x2000 = some ⟨[⟨0x1000, false, 0#32⟩, .cleared], 0⟩ ∧
    ¬Usable 0x2000 twoSlots ⟨[⟨0x1000, false, 0#32⟩, .cleared], 0⟩ := by
  refine ⟨by decide, by decide, by decide, fun husable => ?_⟩
  exact absurd (husable.room ⟨1, by decide, by decide⟩).2 (by decide)

end Env

end FosKernel
