import Mathlib.Data.Finset.Card
import Mathlib.Data.Finset.Prod
import Mathlib.Data.Finset.Range

/-!
# Counting references

A finite family `dom` of slots, each holding at most one object : `refs dom slots f` is
the number of slots that hold `f`. Writing one slot moves the count of the object it
held and of the object it holds by one each (`refs_update`), and leaves the others.
-/

set_option linter.unusedSectionVars false

namespace RefCount

variable {S F : Type*} [DecidableEq S] [DecidableEq F] {dom : Finset S}
  {slots slots' : S → Option F}

/-- How many slots hold `f`. -/
def refs (dom : Finset S) (slots : S → Option F) (f : F) : ℕ :=
  (dom.filter fun s => slots s = some f).card

/-- One for an object held, zero for another. -/
def holds (o : Option F) (f : F) : ℕ :=
  if o = some f then 1 else 0

@[simp] theorem holds_none (f : F) : holds none f = 0 :=
  rfl

@[simp] theorem holds_self (f : F) : holds (some f) f = 1 :=
  if_pos rfl

theorem holds_of_ne {f g : F} (h : f ≠ g) : holds (some f) g = 0 :=
  if_neg fun heq => h (Option.some.inj heq)

theorem refs_congr (h : ∀ s ∈ dom, slots s = slots' s) (f : F) :
    refs dom slots f = refs dom slots' f := by
  unfold refs
  rw [Finset.filter_congr fun s hs => by rw [h s hs]]

theorem refs_eq_zero_iff {f : F} : refs dom slots f = 0 ↔ ∀ s ∈ dom, slots s ≠ some f := by
  rw [refs, Finset.card_eq_zero, Finset.filter_eq_empty_iff]

theorem refs_pos {s : S} {f : F} (hs : s ∈ dom) (h : slots s = some f) : 0 < refs dom slots f :=
  Finset.card_pos.2 ⟨s, Finset.mem_filter.2 ⟨hs, h⟩⟩

/-- The slots other than `s` are counted apart from it. -/
theorem refs_eq_erase {s : S} (hs : s ∈ dom) (f : F) :
    refs dom slots f = refs (dom.erase s) slots f + holds (slots s) f := by
  unfold refs holds
  conv_lhs => rw [← Finset.insert_erase hs, Finset.filter_insert]
  split
  · rw [Finset.card_insert_of_notMem]
    simp
  · rw [Nat.add_zero]

/-- One slot is written : it held `slots s`, and holds `slots' s`. -/
theorem refs_update (slots slots' : S → Option F) {s : S} (hs : s ∈ dom)
    (h : ∀ x ∈ dom, x ≠ s → slots' x = slots x) (f : F) :
    refs dom slots' f + holds (slots s) f = refs dom slots f + holds (slots' s) f := by
  have herase : refs (dom.erase s) slots' f = refs (dom.erase s) slots f :=
    refs_congr (fun x hx => h x (Finset.mem_of_mem_erase hx) (Finset.ne_of_mem_erase hx)) f
  rw [refs_eq_erase hs, refs_eq_erase hs, herase]
  omega

end RefCount
