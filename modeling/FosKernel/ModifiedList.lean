import FosKernel.LinkChains

/-!
# `detect_modified_loop`

Two pointers go along `modified_frame_list` from its head, and the fast one is compared with the
slow one after each of its two steps. In trip `i` the slow pointer is `i` links from the head and
the fast one comes to `2 * i + 1` and `2 * i + 2` (`MeetsAt`). If they meet at a frame then the
links come to it twice; in a cycle of length `p` they meet in the trip before a multiple of `p`
(`exists_meetsAt`). Otherwise the fast pointer comes to the end (`detectModifiedLoopLoop_ends`).

`detectModifiedLoop_iff` : the function returns, and reports a loop exactly for a list that leads
into a cycle.
-/

namespace FosKernel

open LinkChains

/-- `modified_frame_list`, over a memory of `n` frames. -/
structure ModifiedList (n : ℕ) where
  /-- `LIST_FIRST`. -/
  first : Option (Fin n)
  /-- `LIST_NEXT`. -/
  next : Fin n → Option (Fin n)

namespace ModifiedList

variable {n : ℕ} (l : ModifiedList n)

/-- The loop of `detect_modified_loop` : whether it ends with a message. -/
def detectModifiedLoopLoop : ℕ → Option (Fin n) → Option (Fin n) → Option Bool
  | 0, _, _ => none
  | fuel + 1, slowPtr, fastPtr =>
    match slowPtr, fastPtr with
    | some slow, some fast =>
      let fastPtr := l.next fast
      if fastPtr = slowPtr then some true
      else
        match fastPtr with
        | none => some false
        | some fast =>
          let fastPtr := l.next fast
          if fastPtr = slowPtr then some true
          else detectModifiedLoopLoop fuel (l.next slow) fastPtr
    | _, _ => some false

/-- What it prints for a loop. -/
def loopDetected : String :=
  "loop detected in modiflist\n"

/-- `detect_modified_loop` : what it prints. -/
def detectModifiedLoop (fuel : ℕ) : Option (List String) :=
  (l.detectModifiedLoopLoop fuel l.first l.first).map fun found =>
    (if found then [loopDetected] else []) ++ ["finished modi loop detection\n"]

/-- The links from the head lead into a cycle. -/
def HasLoop : Prop :=
  LeadsIntoCycle l.next l.first

/-- The frame `i` links from the head. -/
def frame (i : ℕ) : Option (Fin n) :=
  after l.next l.first i

/-- The pointers meet in trip `i`. -/
def MeetsAt (i : ℕ) : Prop :=
  l.frame (2 * i + 1) = l.frame i ∨ l.frame (2 * i + 2) = l.frame i

instance (i : ℕ) : Decidable (l.MeetsAt i) :=
  inferInstanceAs (Decidable (_ ∨ _))

variable {l} {i k fuel : ℕ}

/-- One trip, with both pointers on the list. -/
theorem detectModifiedLoopLoop_succ (hslow : (l.frame i).isSome)
    (hfast : (l.frame (2 * i)).isSome) :
    l.detectModifiedLoopLoop (fuel + 1) (l.frame i) (l.frame (2 * i)) =
      if l.MeetsAt i then some true
      else if l.frame (2 * i + 1) = none then some false
      else l.detectModifiedLoopLoop fuel (l.frame (i + 1)) (l.frame (2 * (i + 1))) := by
  obtain ⟨slow, hs⟩ := Option.isSome_iff_exists.1 hslow
  obtain ⟨fast, hf⟩ := Option.isSome_iff_exists.1 hfast
  have hnext : l.next slow = l.frame (i + 1) := by
    rw [frame] at hs
    rw [frame, after, hs]
    rfl
  have hone : l.next fast = l.frame (2 * i + 1) := by
    rw [frame] at hf
    rw [frame, after, hf]
    rfl
  have htwo : l.frame (2 * (i + 1)) = (l.frame (2 * i + 1)).bind l.next := rfl
  have htwo' : l.frame (2 * i + 2) = (l.frame (2 * i + 1)).bind l.next := rfl
  rw [hs, hf, detectModifiedLoopLoop]
  simp only [hone, hnext, htwo, MeetsAt, htwo', hs]
  cases h1 : l.frame (2 * i + 1) with
  | none => simp
  | some f =>
    simp only [Option.bind_some]
    split_ifs <;> simp_all

/-- The pointers run on to the first trip in which they meet. -/
theorem detectModifiedLoopLoop_meets (hall : ∀ j, (l.frame j).isSome) (hmeet : l.MeetsAt k)
    (hfirst : ∀ j < k, ¬l.MeetsAt j) :
    ∀ i, i ≤ k → k - i < fuel →
      l.detectModifiedLoopLoop fuel (l.frame i) (l.frame (2 * i)) = some true := by
  induction fuel with
  | zero => exact fun i _ hfuel => absurd hfuel (Nat.not_lt_zero _)
  | succ fuel ih =>
    intro i hi hfuel
    rw [detectModifiedLoopLoop_succ (hall i) (hall (2 * i))]
    rcases Nat.lt_or_eq_of_le hi with hlt | rfl
    · rw [if_neg (hfirst i hlt), if_neg (Option.isSome_iff_ne_none.1 (hall _))]
      exact ih (i + 1) hlt (by omega)
    · rw [if_pos hmeet]

/-- A list that leads into no cycle ends, and the fast pointer comes to the end. -/
theorem detectModifiedLoopLoop_ends (hloop : ¬l.HasLoop) {m : ℕ} (hend : l.frame m = none) :
    ∀ i, m ≤ 2 * (i + fuel) →
      l.detectModifiedLoopLoop (fuel + 1) (l.frame i) (l.frame (2 * i)) = some false := by
  have hnever : ∀ j, (l.frame j).isSome → ¬l.MeetsAt j := by
    rintro j hsome (hmeet | hmeet)
    · rw [Nat.two_mul, Nat.add_assoc] at hmeet
      exact hloop (leadsIntoCycle_iff.2 ⟨j, j + 1, Nat.succ_pos j, hsome, hmeet⟩)
    · rw [Nat.two_mul, Nat.add_assoc] at hmeet
      exact hloop (leadsIntoCycle_iff.2 ⟨j, j + 2, Nat.succ_pos (j + 1), hsome, hmeet⟩)
  have hpast : ∀ j, m ≤ j → l.frame j = none := fun j hj => after_eq_none_of_le hend hj
  induction fuel with
  | zero =>
    intro i hi
    rw [hpast (2 * i) hi]
    cases l.frame i <;> rfl
  | succ fuel ih =>
    intro i hi
    cases hslow : l.frame i with
    | none => rfl
    | some slow =>
      cases hfast : l.frame (2 * i) with
      | none => rfl
      | some fast =>
        have hs := Option.isSome_iff_exists.2 ⟨slow, hslow⟩
        rw [← hslow, ← hfast, detectModifiedLoopLoop_succ hs
          (Option.isSome_iff_exists.2 ⟨fast, hfast⟩), if_neg (hnever i hs)]
        split
        · rfl
        · exact ih (i + 1) (by omega)

/-- In a cycle they meet, within as many trips as there are frames. -/
theorem exists_meetsAt (hloop : l.HasLoop) :
    (∀ j, (l.frame j).isSome) ∧ ∃ k < n, l.MeetsAt k := by
  obtain ⟨hall, i, p, hp, hle, hrepeat⟩ := hloop.exists_repeat_le
  rw [Fintype.card_fin] at hle
  refine ⟨hall, ?_⟩
  -- the trip before the first multiple of `p` above `i`
  have hmul : p * (i / p + 1) = p * (i / p) + p := Nat.mul_succ p _
  have hdiv := Nat.div_add_mod i p
  have hmod := Nat.mod_lt i hp
  refine ⟨p * (i / p + 1) - 1, by omega, Or.inl ?_⟩
  have htrip : 2 * (p * (i / p + 1) - 1) + 1 = p * (i / p + 1) - 1 + p * (i / p + 1) := by omega
  rw [htrip]
  exact after_add_mul hrepeat (by omega) _

/-- `detect_modified_loop` returns, and reports a loop exactly for a list that leads into a
cycle. -/
theorem detectModifiedLoop_iff (n : ℕ) (l : ModifiedList n) :
    ∃ printed, (∀ fuel, n < fuel → l.detectModifiedLoop fuel = some printed) ∧
      (loopDetected ∈ printed ↔ l.HasLoop) := by
  by_cases hloop : l.HasLoop
  · obtain ⟨hall, k, hk, hmeet⟩ := exists_meetsAt hloop
    have hfirst := Nat.find_spec (⟨k, hmeet⟩ : ∃ k, l.MeetsAt k)
    have hle := Nat.find_min' (⟨k, hmeet⟩ : ∃ k, l.MeetsAt k) hmeet
    refine ⟨[loopDetected, "finished modi loop detection\n"], fun fuel hfuel => ?_,
      iff_of_true List.mem_cons_self hloop⟩
    have hrun : l.detectModifiedLoopLoop fuel (l.frame 0) (l.frame 0) = some true :=
      detectModifiedLoopLoop_meets hall hfirst (fun j hj => Nat.find_min _ hj) 0 (Nat.zero_le _)
        (by omega)
    exact congrArg (Option.map _) hrun
  · refine ⟨["finished modi loop detection\n"], fun fuel hfuel => ?_,
      iff_of_false (by decide) hloop⟩
    obtain ⟨fuel, rfl⟩ := Nat.exists_eq_succ_of_ne_zero (Nat.ne_zero_of_lt hfuel)
    have hend : l.frame n = none := by
      have hcard := after_card_eq_none hloop
      rwa [Fintype.card_fin] at hcard
    exact congrArg (Option.map _) (detectModifiedLoopLoop_ends hloop hend 0 (by omega))

end ModifiedList

end FosKernel
