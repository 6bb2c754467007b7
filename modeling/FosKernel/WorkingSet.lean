import FosKernel.Words
import Mathlib.Data.List.Nodup
import Mathlib.Data.Set.Card

/-!
# The page working set

An environment keeps an array of `page_WS_max_size` slots with the addresses of its
resident pages, and `page_last_WS_index`, where the next page goes : `slot` is the address
a slot holds, and `addresses` all of them. `compacted` is the array after `freeMem` has
moved the pages it keeps to the front.

What the array is for is a set of pages, as many as the slots at most. `Tracks` says that
the slots hold a set, and `place`, `evict` and `compact` are the changes to the set that
the changes to the slots stand for.
-/

namespace FosKernel

/-- `struct WorkingSetElement`. -/
structure WorkingSetElement where
  virtualAddress : Nat
  empty : Bool
  timeStamp : BitVec 32
  deriving DecidableEq, Repr

/-- What `env_page_ws_clear_entry` leaves. -/
def WorkingSetElement.cleared : WorkingSetElement :=
  ⟨0, true, 0#32⟩

/-- The page working set of a `struct Env`. -/
structure Env where
  ptrPageWorkingSet : List WorkingSetElement
  pageLastWSIndex : Nat
  deriving DecidableEq, Repr

namespace Env

variable (e : Env)

/-- `page_WS_max_size` : the array has that many slots. -/
def pageWSMaxSize : Nat :=
  e.ptrPageWorkingSet.length

/-- `env_page_ws_get_size`. -/
def pageWsGetSize : Nat :=
  e.ptrPageWorkingSet.countP fun x => !x.empty

/-- `env_page_ws_set_entry` : an assertion fails outside the array and above `USER_TOP`. -/
def pageWsSetEntry (userTop entryIndex va : Nat) : Option Env :=
  if entryIndex < e.pageWSMaxSize ∧ va < userTop then
    some { e with ptrPageWorkingSet :=
      e.ptrPageWorkingSet.set entryIndex ⟨roundDown va pageSize, false, 0x80000000#32⟩ }
  else none

/-- `env_page_ws_clear_entry` : an assertion fails outside the array. -/
def pageWsClearEntry (entryIndex : Nat) : Option Env :=
  if entryIndex < e.pageWSMaxSize then
    some { e with ptrPageWorkingSet := e.ptrPageWorkingSet.set entryIndex .cleared }
  else none

/-- `page_last_WS_index` moves to the next slot. -/
def advance : Env :=
  { e with pageLastWSIndex := (e.pageLastWSIndex + 1) % e.pageWSMaxSize }

/-- The array with the slots of `kept` moved to the front and the others cleared. -/
def compacted (kept : List WorkingSetElement) : Env where
  ptrPageWorkingSet := kept ++ List.replicate (e.pageWSMaxSize - kept.length) .cleared
  pageLastWSIndex := kept.length % e.pageWSMaxSize

end Env

/-! ## The addresses of the occupied slots -/

/-- The address an occupied slot holds. -/
def WorkingSetElement.address? (x : WorkingSetElement) : Option Nat :=
  if x.empty then none else some x.virtualAddress

/-- The addresses in the occupied slots. -/
def Env.addresses (e : Env) : List Nat :=
  e.ptrPageWorkingSet.filterMap WorkingSetElement.address?

/-- The address slot `i` holds. -/
def Env.slot (e : Env) (i : Nat) : Option Nat :=
  e.ptrPageWorkingSet[i]?.bind WorkingSetElement.address?

/-- Every slot is occupied. -/
def Env.Full (e : Env) : Prop :=
  ∀ x ∈ e.ptrPageWorkingSet, x.empty = false

instance (e : Env) : Decidable e.Full :=
  inferInstanceAs (Decidable (∀ x ∈ e.ptrPageWorkingSet, _))

/-- The occupied slots are the first `page_last_WS_index` ones. -/
def Env.IsPrefix (e : Env) : Prop :=
  ∀ i < e.pageWSMaxSize, (e.slot i).isSome ↔ i < e.pageLastWSIndex

namespace Env

variable {e : Env} {i j va : Nat} {x : WorkingSetElement}

theorem address?_eq_some : x.address? = some va ↔ x.empty = false ∧ x.virtualAddress = va := by
  unfold WorkingSetElement.address?
  cases x.empty <;> simp

theorem slot_eq_some :
    e.slot i = some va ↔
      ∃ x, e.ptrPageWorkingSet[i]? = some x ∧ x.empty = false ∧ x.virtualAddress = va := by
  simp only [slot, Option.bind_eq_some_iff, address?_eq_some]

theorem mem_addresses : va ∈ e.addresses ↔ ∃ i, e.slot i = some va := by
  simp only [addresses, List.mem_filterMap, slot_eq_some, address?_eq_some]
  constructor
  · rintro ⟨x, hx, h⟩
    obtain ⟨i, hi⟩ := List.mem_iff_getElem?.1 hx
    exact ⟨i, x, hi, h⟩
  · rintro ⟨i, x, hi, h⟩
    exact ⟨x, List.mem_of_getElem? hi, h⟩

theorem length_addresses_le : e.addresses.length ≤ e.pageWSMaxSize :=
  List.length_filterMap_le _ _

theorem pageWsGetSize_le : e.pageWsGetSize ≤ e.pageWSMaxSize :=
  List.countP_le_length

/-- The size is `page_WS_max_size` exactly when the working set is full. -/
theorem full_iff : e.pageWSMaxSize ≤ e.pageWsGetSize ↔ e.Full := by
  have heq : e.pageWSMaxSize ≤ e.pageWsGetSize ↔ e.pageWsGetSize = e.pageWSMaxSize :=
    ⟨fun h => Nat.le_antisymm pageWsGetSize_le h, fun h => h.ge⟩
  rw [heq, pageWSMaxSize, pageWsGetSize, List.countP_eq_length]
  simp [Full]

theorem Full.slot_isSome (h : e.Full) (hi : i < e.pageWSMaxSize) : (e.slot i).isSome := by
  have hx := h _ (List.getElem_mem hi)
  rw [slot, List.getElem?_eq_getElem hi, Option.bind_some]
  simp [WorkingSetElement.address?, hx]

/-- The addresses are distinct exactly when no two slots hold the same. -/
theorem nodup_addresses_iff :
    e.addresses.Nodup ↔ ∀ i j va, e.slot i = some va → e.slot j = some va → i = j := by
  rw [addresses, List.Nodup, List.pairwise_filterMap, List.pairwise_iff_getElem]
  constructor
  · intro h i j va hi hj
    by_contra hne
    obtain ⟨x, hx, hxe, hxa⟩ := slot_eq_some.1 hi
    obtain ⟨y, hy, hye, hya⟩ := slot_eq_some.1 hj
    obtain ⟨hilt, hix⟩ := List.getElem?_eq_some_iff.1 hx
    obtain ⟨hjlt, hjy⟩ := List.getElem?_eq_some_iff.1 hy
    have hxs : e.ptrPageWorkingSet[i].address? = some va := hix ▸ address?_eq_some.2 ⟨hxe, hxa⟩
    have hys : e.ptrPageWorkingSet[j].address? = some va := hjy ▸ address?_eq_some.2 ⟨hye, hya⟩
    rcases Nat.lt_or_gt_of_ne hne with hlt | hlt
    · exact h i j hilt hjlt hlt va hxs va hys rfl
    · exact h j i hjlt hilt hlt va hys va hxs rfl
  · intro h i j hi hj hlt a ha b hb hab
    subst hab
    have hij := h i j a (by rw [slot, List.getElem?_eq_getElem hi, Option.bind_some, ha])
      (by rw [slot, List.getElem?_eq_getElem hj, Option.bind_some, hb])
    omega

/-! ## Writing slots -/

/-- Slot `i` is written. -/
theorem slot_set (hi : i < e.pageWSMaxSize) (k : Nat) :
    ({ e with ptrPageWorkingSet := e.ptrPageWorkingSet.set i x } : Env).slot k =
      if k = i then x.address? else e.slot k := by
  simp only [slot]
  by_cases hk : k = i
  · subst hk
    rw [if_pos rfl, List.getElem?_set_self hi, Option.bind_some]
  · rw [if_neg hk, List.getElem?_set_ne (Ne.symm hk)]

theorem pageWsSetEntry_eq_some {userTop : Nat} {e' : Env} :
    e.pageWsSetEntry userTop i va = some e' ↔ (i < e.pageWSMaxSize ∧ va < userTop) ∧
      { e with ptrPageWorkingSet :=
        e.ptrPageWorkingSet.set i ⟨roundDown va pageSize, false, 0x80000000#32⟩ } = e' := by
  unfold pageWsSetEntry
  split <;> simp_all

theorem pageWsClearEntry_eq_some {e' : Env} :
    e.pageWsClearEntry i = some e' ↔ i < e.pageWSMaxSize ∧
      { e with ptrPageWorkingSet := e.ptrPageWorkingSet.set i .cleared } = e' := by
  unfold pageWsClearEntry
  split <;> simp_all

theorem full_of_slots (h : ∀ i < e.pageWSMaxSize, (e.slot i).isSome) : e.Full := by
  intro x hx
  obtain ⟨i, hi, rfl⟩ := List.getElem_of_mem hx
  obtain ⟨va, hva⟩ := Option.isSome_iff_exists.1 (h i hi)
  obtain ⟨y, hy, hye, -⟩ := slot_eq_some.1 hva
  rw [List.getElem?_eq_getElem hi] at hy
  exact Option.some.inj hy ▸ hye

/-- After a page went into the only empty slot, or into the first one of a prefix, the
occupied slots are all the slots or the first ones. -/
theorem full_or_isPrefix_place {e' : Env} (hmax : e'.pageWSMaxSize = e.pageWSMaxSize)
    (hi : i < e.pageWSMaxSize) (hs : ∀ k, e'.slot k = if k = i then some va else e.slot k)
    (hindex : e'.pageLastWSIndex = (i + 1) % e.pageWSMaxSize)
    (hbefore : (∀ k < e.pageWSMaxSize, k ≠ i → (e.slot k).isSome) ∨
      e.IsPrefix ∧ i = e.pageLastWSIndex) : e'.Full ∨ e'.IsPrefix := by
  rcases hbefore with hall | ⟨hpre, rfl⟩
  · refine .inl (full_of_slots fun k hk => ?_)
    rw [hs]
    split
    · rfl
    · next hne => exact hall k (hmax ▸ hk) hne
  · have hslot : ∀ k < e.pageWSMaxSize, (e'.slot k).isSome ↔ k < e.pageLastWSIndex + 1 := by
      intro k hk
      rw [hs]
      split
      · next heq => exact iff_of_true rfl (by omega)
      · next hne => exact (hpre k hk).trans (by omega)
    rcases Nat.lt_or_ge (e.pageLastWSIndex + 1) e.pageWSMaxSize with hlt | hge
    · refine .inr fun k hk => ?_
      rw [hindex, Nat.mod_eq_of_lt hlt]
      exact hslot k (hmax ▸ hk)
    · refine .inl (full_of_slots fun k hk => (hslot k (hmax ▸ hk)).2 ?_)
      rw [hmax] at hk
      omega

/-- In a prefix that is not full, `page_last_WS_index` names an empty slot. -/
theorem IsPrefix.slot_index (h : e.IsPrefix) (hfull : ¬ e.Full) :
    e.pageLastWSIndex < e.pageWSMaxSize ∧ e.slot e.pageLastWSIndex = none := by
  have hlt : e.pageLastWSIndex < e.pageWSMaxSize := by
    by_contra hge
    exact hfull (full_of_slots fun k hk => (h k hk).2 (by omega))
  refine ⟨hlt, ?_⟩
  have hnot := (h e.pageLastWSIndex hlt).not.2 (Nat.lt_irrefl _)
  simpa using hnot

/-! ## Compacting -/

variable {kept : List WorkingSetElement}

theorem pageWSMaxSize_compacted (h : kept.length ≤ e.pageWSMaxSize) :
    (e.compacted kept).pageWSMaxSize = e.pageWSMaxSize := by
  simp only [pageWSMaxSize, compacted, List.length_append, List.length_replicate] at *
  omega

theorem addresses_compacted :
    (e.compacted kept).addresses = kept.filterMap WorkingSetElement.address? := by
  rw [addresses, compacted, List.filterMap_append]
  simp [WorkingSetElement.address?, WorkingSetElement.cleared]

/-- The kept slots come first. -/
theorem slot_compacted_isSome (hkept : ∀ x ∈ kept, x.empty = false) :
    ((e.compacted kept).slot i).isSome ↔ i < kept.length := by
  simp only [slot, compacted]
  rcases Nat.lt_or_ge i kept.length with hi | hi
  · rw [List.getElem?_append_left hi, List.getElem?_eq_getElem hi, Option.bind_some]
    simp [WorkingSetElement.address?, hkept _ (List.getElem_mem hi), hi]
  · rw [List.getElem?_append_right hi, List.getElem?_replicate]
    split <;> simp [WorkingSetElement.address?, WorkingSetElement.cleared, hi]

/-- After compacting, the occupied slots are all the slots or the first ones. -/
theorem full_or_isPrefix_compacted (hkept : ∀ x ∈ kept, x.empty = false)
    (h : kept.length ≤ e.pageWSMaxSize) :
    (e.compacted kept).Full ∨ (e.compacted kept).IsPrefix := by
  rcases Nat.lt_or_ge kept.length e.pageWSMaxSize with hlt | hge
  · refine .inr fun i _ => ?_
    rw [slot_compacted_isSome hkept, compacted, Nat.mod_eq_of_lt hlt]
  · refine .inl (full_of_slots fun i hi => (slot_compacted_isSome hkept).2 ?_)
    rw [pageWSMaxSize_compacted h] at hi
    omega

/-! ## The pages tracked -/

/-- The occupied slots hold the addresses of `R`, each once. -/
structure Tracks (e : Env) (R : Set Nat) : Prop where
  distinct : ∀ i j va, e.slot i = some va → e.slot j = some va → i = j
  mem_iff : ∀ va, va ∈ R ↔ ∃ i, e.slot i = some va

namespace Tracks

variable {R : Set Nat} {e' : Env}

/-- A page goes into an empty slot. -/
theorem place (h : e.Tracks R) (hslot : e.slot i = none) (hva : va ∉ R)
    (hs : ∀ k, e'.slot k = if k = i then some va else e.slot k) : e'.Tracks (insert va R) := by
  have hnot : ∀ k, e.slot k ≠ some va := fun k hk => hva ((h.mem_iff va).2 ⟨k, hk⟩)
  refine ⟨fun k k' w hk hk' => ?_, fun w => ?_⟩
  · rw [hs] at hk hk'
    split at hk <;> split at hk'
    · next h₁ h₂ => exact h₁.trans h₂.symm
    · obtain rfl := Option.some.inj hk
      exact absurd hk' (hnot k')
    · obtain rfl := Option.some.inj hk'
      exact absurd hk (hnot k)
    · exact h.distinct k k' w hk hk'
  · rw [Set.mem_insert_iff, h.mem_iff]
    constructor
    · rintro (rfl | ⟨k, hk⟩)
      · exact ⟨i, by rw [hs, if_pos rfl]⟩
      · refine ⟨k, ?_⟩
        rw [hs, if_neg fun hki => ?_, hk]
        rw [hki, hslot] at hk
        cases hk
    · rintro ⟨k, hk⟩
      rw [hs] at hk
      split at hk
      · exact .inl (Option.some.inj hk).symm
      · exact .inr ⟨k, hk⟩

/-- A page leaves its slot. -/
theorem evict (h : e.Tracks R) (hslot : e.slot i = some va)
    (hs : ∀ k, e'.slot k = if k = i then none else e.slot k) : e'.Tracks (R \ {va}) := by
  refine ⟨fun k k' w hk hk' => ?_, fun w => ?_⟩
  · rw [hs] at hk hk'
    split at hk <;> split at hk'
    · next h₁ h₂ => exact h₁.trans h₂.symm
    · cases hk
    · cases hk'
    · exact h.distinct k k' w hk hk'
  · rw [Set.mem_sdiff, Set.mem_singleton_iff, h.mem_iff]
    constructor
    · rintro ⟨⟨k, hk⟩, hne⟩
      refine ⟨k, ?_⟩
      rw [hs, if_neg fun hki => ?_, hk]
      rw [hki, hslot] at hk
      exact hne (Option.some.inj hk).symm
    · rintro ⟨k, hk⟩
      rw [hs] at hk
      split at hk
      · cases hk
      · next hki =>
        refine ⟨⟨k, hk⟩, fun heq => hki ?_⟩
        exact h.distinct k i va (heq ▸ hk) hslot

/-- The slots of some pages are kept and the others leave. -/
theorem compact (h : e.Tracks R) (p : Nat → Bool)
    (hkept : kept.filterMap WorkingSetElement.address? = e.addresses.filter p) :
    (e.compacted kept).Tracks {va | va ∈ R ∧ p va = true} := by
  refine ⟨nodup_addresses_iff.1 ?_, fun va => ?_⟩
  · rw [addresses_compacted, hkept]
    exact (nodup_addresses_iff.2 h.distinct).filter p
  · rw [← mem_addresses, addresses_compacted, hkept, List.mem_filter, mem_addresses,
      ← h.mem_iff]
    rfl

/-- The pages tracked are as many as the slots at most. -/
theorem ncard_le (h : e.Tracks R) : R.Finite ∧ R.ncard ≤ e.pageWSMaxSize := by
  have heq : R = (e.addresses.toFinset : Set Nat) := by
    ext va
    rw [h.mem_iff, ← mem_addresses, Finset.mem_coe, List.mem_toFinset]
  rw [heq, Set.ncard_coe_finset]
  exact ⟨Finset.finite_toSet _, (List.toFinset_card_le _).trans length_addresses_le⟩

end Tracks

end Env

end FosKernel
