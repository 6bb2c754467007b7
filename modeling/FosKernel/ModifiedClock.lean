import FosKernel.UserMappings

/-!
# Modified Clock

`getVictimIndex` clears used bits and nothing else (`Clears`). A scan that finds no
victim says so of each slot it passed, and the scans of one trip of `modifiedClock` pass
every slot as long as the hand is not above `page_WS_max_size`. After a trip without a
victim no page of the working set is used, so the next trip finds one : two trips decide
(`modifiedClock_eq_some_iff`).

With the hand above `page_WS_max_size` both scans are refused and the loop never returns.
`modifiedClock_returns_iff` : on a full working set of pages with page tables it returns
exactly when the hand is not above.
-/

namespace FosKernel

namespace UserMemory

variable {P : Type} {L : UserLayout} {pf : PageFile P} {s s' s'' : UserMemory P}
  {env env' va va' i k v trips start stop fuel : Nat} {try1 : Bool} {r : Option Nat}
  {x : WorkingSetElement}

/-! ## Clearing used bits -/

/-- Only used bits are cleared, and the hand may move. -/
structure Clears (s s' : UserMemory P) : Prop extends Keeps s s' where
  entry : ∀ env va, s'.userEntry env va = s.userEntry env va ∨
    s'.userEntry env va = s.userEntry env va &&& ~~~permUsed
  table : ∀ env va, (s'.getPageTable env va).isSome = (s.getPageTable env va).isSome

theorem Clears.refl (s : UserMemory P) : Clears s s :=
  ⟨.refl s, fun _ _ => .inl rfl, fun _ _ => rfl⟩

theorem Clears.trans (h : Clears s s') (h' : Clears s' s'') : Clears s s'' := by
  refine ⟨h.toKeeps.trans h'.toKeeps, fun env va => ?_, fun env va =>
    (h'.table env va).trans (h.table env va)⟩
  rcases h.entry env va with he | he <;> rcases h'.entry env va with he' | he' <;>
    rw [he', he]
  · exact .inl rfl
  · exact .inr rfl
  · exact .inr rfl
  · exact .inr (by rw [BitVec.and_assoc, BitVec.and_self])

/-- The bits other than the used bit stay. -/
theorem Clears.and_eq (h : Clears s s') {mask : BitVec 32} (hmask : ~~~permUsed &&& mask = mask)
    (env va : Nat) : s'.userEntry env va &&& mask = s.userEntry env va &&& mask := by
  rcases h.entry env va with he | he <;> rw [he]
  rw [BitVec.and_assoc, hmask]

theorem Clears.mapped_iff (h : Clears s s') : s'.Mapped env va ↔ s.Mapped env va := by
  unfold Mapped IsPresent
  rw [h.and_eq (by decide)]

theorem isUsed_ptGetPagePermissions :
    isUsed (s.ptGetPagePermissions env va) = true ↔ s.userEntry env va &&& permUsed ≠ 0#32 := by
  have hmask : permMask &&& permUsed = permUsed := by decide
  simp [isUsed, ptGetPagePermissions, BitVec.and_assoc, hmask]

theorem Clears.isModified_eq (h : Clears s s') :
    isModified (s'.ptGetPagePermissions env va) = isModified (s.ptGetPagePermissions env va) := by
  have hmask : ~~~permUsed &&& (permMask &&& permModified) = permMask &&& permModified := by
    decide
  simp only [isModified, ptGetPagePermissions, BitVec.and_assoc, h.and_eq hmask]

/-- A page that is not used stays so. -/
theorem Clears.not_isUsed (h : Clears s s') (hu : isUsed (s.ptGetPagePermissions env va) = false) :
    isUsed (s'.ptGetPagePermissions env va) = false := by
  rw [← Bool.not_eq_true, isUsed_ptGetPagePermissions, not_not] at hu ⊢
  rcases h.entry env va with he | he <;> rw [he]
  · exact hu
  · rw [BitVec.and_assoc, BitVec.and_comm (~~~permUsed), ← BitVec.and_assoc, hu]
    exact BitVec.zero_and

theorem clears_setHand (s : UserMemory P) (hand : Nat) :
    Clears s { s with lastClockIndex := hand } :=
  ⟨⟨rfl, rfl, fun h => h⟩, fun _ _ => .inl rfl, fun _ _ => rfl⟩

theorem clears_clearUsed (h : s.ptSetPagePermissions env va 0#32 permUsed = some s') :
    Clears s s' ∧ isUsed (s'.ptGetPagePermissions env va) = false ∧
      s'.lastClockIndex = s.lastClockIndex := by
  obtain ⟨hkeeps, hentry, hhand⟩ := clearUsed_spec h
  refine ⟨⟨hkeeps, fun env' va' => ?_, fun env' va' => ?_⟩, ?_, hhand⟩
  · rw [hentry]
    split
    · next hat =>
      obtain ⟨rfl, hpage⟩ := hat
      obtain ⟨hpdx, hptx⟩ := pdx_ptx_iff.2 hpage
      refine .inr ?_
      simp only [userEntry, getPageTable, hpdx, hptx]
    · exact .inl rfl
  · obtain ⟨t, ht, rfl⟩ := Option.map_eq_some_iff.1 h
    simp only [getPageTable, setMemory, Memory.setEntry, Function.update_apply]
    split
    · next henv =>
      subst henv
      rw [Function.update_apply]
      split
      · next hpdx =>
        rw [Option.isSome_some, hpdx]
        exact (Option.isSome_iff_exists.2 ⟨t, ht⟩).symm
      · rfl
    · rfl
  · rw [← Bool.not_eq_true, isUsed_ptGetPagePermissions, hentry, if_pos ⟨rfl, rfl⟩, not_not,
      BitVec.and_assoc]
    exact (congrArg _ (by decide : ~~~permUsed &&& permUsed = 0#32)).trans BitVec.and_zero

/-! ## One scan -/

/-- The permissions of the page in slot `i`. -/
def slotPermissions (s : UserMemory P) (env i : Nat) : BitVec 32 :=
  match (s.envs env).ptrPageWorkingSet[i]? with
  | some x => s.ptGetPagePermissions env x.virtualAddress
  | none => 0#32

/-- What a scan looks for : a page not used, and not modified or modified. -/
def IsVictim (s : UserMemory P) (env : Nat) (try1 : Bool) (i : Nat) : Prop :=
  isUsed (s.slotPermissions env i) = false ∧ isModified (s.slotPermissions env i) = !try1

theorem slotPermissions_of_some (h : (s.envs env).ptrPageWorkingSet[i]? = some x) :
    s.slotPermissions env i = s.ptGetPagePermissions env x.virtualAddress := by
  simp [slotPermissions, h]

theorem Clears.slot_isModified (h : Clears s s') :
    isModified (s'.slotPermissions env i) = isModified (s.slotPermissions env i) := by
  unfold slotPermissions
  rw [h.envs]
  split
  · exact h.isModified_eq
  · rfl

theorem Clears.slot_not_isUsed (h : Clears s s') (hu : isUsed (s.slotPermissions env i) = false) :
    isUsed (s'.slotPermissions env i) = false := by
  unfold slotPermissions at *
  rw [h.envs]
  split
  · next x hx =>
    simp only [hx] at hu
    exact h.not_isUsed hu
  · rfl

theorem Clears.isVictim (h : Clears s s') (hv : s.IsVictim env try1 i) :
    s'.IsVictim env try1 i :=
  ⟨h.slot_not_isUsed hv.1, h.slot_isModified.trans hv.2⟩

/-- One step of a scan : the victim, or the next slot with the used bit cleared in the
second scan. -/
theorem getVictimIndexLoop_succ :
    getVictimIndexLoop env try1 (trips + 1) i s =
      (s.envs env).ptrPageWorkingSet[i]?.bind fun x =>
        if isUsed (s.ptGetPagePermissions env x.virtualAddress) = false ∧
            isModified (s.ptGetPagePermissions env x.virtualAddress) = !try1 then
          some (some i, { s with lastClockIndex := i + 1 })
        else if try1 then getVictimIndexLoop env try1 trips (i + 1) s
        else (s.ptSetPagePermissions env x.virtualAddress 0#32 permUsed).bind
          (getVictimIndexLoop env try1 trips (i + 1)) := by
  rw [getVictimIndexLoop]
  cases try1 <;> simp

/-- What a scan of the slots from `lo` to `hi` tells : only used bits change, and a victim
lies inside. Without a victim the hand stays and the slots passed held none; the first
scan has changed nothing, and the second has cleared every used bit. -/
structure Scanned (env : Nat) (try1 : Bool) (lo hi : Nat) (s : UserMemory P) (r : Option Nat)
    (s' : UserMemory P) : Prop where
  clears : Clears s s'
  inside : ∀ v, r = some v → lo ≤ v ∧ v < hi ∧ v < (s.envs env).pageWSMaxSize
  hand : r = none → s'.lastClockIndex = s.lastClockIndex
  passed : r = none → ∀ k, lo ≤ k → k < hi → ¬ s.IsVictim env try1 k
  same : r = none → try1 = true → s' = s
  cleared : r = none → try1 = false → ∀ k, lo ≤ k → k < hi →
    isUsed (s'.slotPermissions env k) = false

theorem scanned_loop :
    ∀ (trips i : Nat) {s s' : UserMemory P} {r : Option Nat},
      getVictimIndexLoop env try1 trips i s = some (r, s') →
      Scanned env try1 i (i + trips) s r s'
  | 0, i, s, s', r, h => by
    obtain ⟨rfl, rfl⟩ := Prod.mk.inj (Option.some.inj h)
    exact ⟨.refl s, fun v hv => absurd hv (by simp), fun _ => rfl,
      fun _ k hlo hhi => by omega, fun _ _ => rfl, fun _ _ k hlo hhi => by omega⟩
  | trips + 1, i, s, s', r, h => by
    rw [getVictimIndexLoop_succ, Option.bind_eq_some_iff] at h
    obtain ⟨x, hx, h⟩ := h
    have hslot := slotPermissions_of_some hx
    have hi : i < (s.envs env).pageWSMaxSize := (List.getElem?_eq_some_iff.1 hx).1
    split at h
    · obtain ⟨rfl, rfl⟩ := Prod.mk.inj (Option.some.inj h)
      refine ⟨clears_setHand s _, fun v hv => ?_, fun hr => absurd hr (by simp),
        fun hr => absurd hr (by simp), fun hr => absurd hr (by simp),
        fun hr => absurd hr (by simp)⟩
      obtain rfl := Option.some.inj hv
      exact ⟨Nat.le_refl _, by omega, hi⟩
    · next hnot =>
      rw [← hslot] at hnot
      split at h
      · next htry =>
        have ih := scanned_loop trips (i + 1) h
        refine ⟨ih.clears, fun v hv => ?_, ih.hand, fun hr k hlo hhi => ?_, ih.same, fun _ hc => ?_⟩
        · have hin := ih.inside v hv
          exact ⟨by omega, by omega, hin.2.2⟩
        · rcases Nat.eq_or_lt_of_le hlo with rfl | hlt
          · exact hnot
          · exact ih.passed hr k hlt (by omega)
        · rw [htry] at hc
          cases hc
      · next htry =>
        obtain ⟨t, hclear, h⟩ := Option.bind_eq_some_iff.1 h
        obtain ⟨hclears, hunused, hhand⟩ := clears_clearUsed hclear
        have ih := scanned_loop trips (i + 1) h
        refine ⟨hclears.trans ih.clears, fun v hv => ?_, fun hr => (ih.hand hr).trans hhand,
          fun hr k hlo hhi => ?_, fun _ hc => absurd hc htry, fun hr hf k hlo hhi => ?_⟩
        · have hin := ih.inside v hv
          rw [hclears.envs] at hin
          exact ⟨by omega, by omega, hin.2.2⟩
        · rcases Nat.eq_or_lt_of_le hlo with rfl | hlt
          · exact hnot
          · exact fun hv => ih.passed hr k hlt (by omega) (hclears.isVictim hv)
        · rcases Nat.eq_or_lt_of_le hlo with rfl | hlt
          · refine ih.clears.slot_not_isUsed ?_
            rw [slotPermissions_of_some (by rwa [hclears.envs])]
            exact hunused
          · exact ih.cleared hr hf k hlt (by omega)

/-- A scan returns where the slots have page tables. -/
theorem exists_loop :
    ∀ (trips i : Nat) {s : UserMemory P}, i + trips ≤ (s.envs env).pageWSMaxSize →
      (∀ x ∈ (s.envs env).ptrPageWorkingSet, (s.getPageTable env x.virtualAddress).isSome) →
      ∃ r s', getVictimIndexLoop env try1 trips i s = some (r, s')
  | 0, i, s, _, _ => ⟨none, s, rfl⟩
  | trips + 1, i, s, hle, htables => by
    have hi : i < (s.envs env).ptrPageWorkingSet.length := by
      unfold Env.pageWSMaxSize at hle
      omega
    rw [getVictimIndexLoop_succ, List.getElem?_eq_getElem hi, Option.bind_some]
    split
    · exact ⟨_, _, rfl⟩
    · split
      · exact exists_loop trips (i + 1) (by omega) htables
      · obtain ⟨t, ht⟩ := Option.isSome_iff_exists.1 (htables _ (List.getElem_mem hi))
        have hset : s.ptSetPagePermissions env
            ((s.envs env).ptrPageWorkingSet[i]).virtualAddress 0#32 permUsed = some _ :=
          Option.map_eq_some_iff.2 ⟨t, ht, rfl⟩
        obtain ⟨hclears, -⟩ := clears_clearUsed hset
        rw [hset, Option.bind_some]
        refine exists_loop trips (i + 1) ?_ fun x hx => ?_
        · rw [hclears.envs]
          omega
        · rw [hclears.table]
          exact htables x (hclears.envs ▸ hx)

theorem scanned_getVictimIndex (h : getVictimIndex env try1 start stop s = some (r, s'))
    (hstop : stop ≤ (s.envs env).pageWSMaxSize) (hle : start ≤ stop) :
    Scanned env try1 start stop s r s' := by
  rw [getVictimIndex, if_neg (by omega)] at h
  have hscan := scanned_loop _ _ h
  rwa [Nat.add_sub_cancel' hle] at hscan

/-! ## One trip -/

theorem orElseScan_eq_some {p : Option Nat × UserMemory P}
    {scan : UserMemory P → Option (Option Nat × UserMemory P)} :
    orElseScan p scan = some (r, s') ↔
      ((∃ v, p.1 = some v) ∧ p = (r, s')) ∨ (p.1 = none ∧ scan p.2 = some (r, s')) := by
  obtain ⟨_ | v, t⟩ := p <;> simp [orElseScan]

/-- What a trip of `modifiedClock` tells, with the hand not above `page_WS_max_size`. -/
structure Tripped (env : Nat) (s : UserMemory P) (r : Option Nat) (s' : UserMemory P) : Prop where
  clears : Clears s s'
  inside : ∀ v, r = some v → v < (s.envs env).pageWSMaxSize
  hand : r = none → s'.lastClockIndex = s.lastClockIndex
  passed : r = none → ∀ try1, ∀ k < (s.envs env).pageWSMaxSize, ¬ s.IsVictim env try1 k
  unused : r = none → ∀ k < (s.envs env).pageWSMaxSize,
    isUsed (s'.slotPermissions env k) = false

/-- A victim ends the trip. -/
theorem Tripped.found (h : Clears s s') (hv : v < (s.envs env).pageWSMaxSize) :
    Tripped env s (some v) s' :=
  ⟨h, fun _ hw => Option.some.inj hw ▸ hv, fun hr => absurd hr (by simp),
    fun hr => absurd hr (by simp), fun hr => absurd hr (by simp)⟩

/-- The two halves of a scan around the hand pass every slot. -/
theorem halves {p : Nat → Prop} {hand n : Nat} (h : ∀ k, hand ≤ k → k < n → p k)
    (h' : ∀ k, 0 ≤ k → k < hand → p k) : ∀ k < n, p k := fun k hk =>
  (Nat.lt_or_ge k hand).elim (h' k (Nat.zero_le k)) fun hle => h k hle hk

theorem tripped (hhand : s.lastClockIndex ≤ (s.envs env).pageWSMaxSize)
    (h : modifiedClockTrip env s = some (r, s')) : Tripped env s r s' := by
  unfold modifiedClockTrip at h
  simp only [Option.bind_eq_bind, Option.bind_eq_some_iff] at h
  obtain ⟨⟨r₁, s₁⟩, h₁, ⟨r₂, s₂⟩, h₂, ⟨r₃, s₃⟩, h₃, h₄⟩ := h
  have hscan₁ := scanned_getVictimIndex h₁ (Nat.le_refl _) hhand
  rcases orElseScan_eq_some.1 h₂ with ⟨⟨v, hv⟩, heq⟩ | ⟨hnone, h₂⟩
  · obtain ⟨rfl, rfl⟩ := Prod.mk.inj heq
    obtain rfl : r₁ = some v := hv
    obtain ⟨rfl, rfl⟩ := Prod.mk.inj (Option.some.inj h₃)
    obtain ⟨rfl, rfl⟩ := Prod.mk.inj (Option.some.inj h₄)
    exact .found hscan₁.clears (hscan₁.inside v rfl).2.2
  have hpassed₁ := hscan₁.passed hnone
  obtain rfl := hscan₁.same hnone rfl
  have hscan₂ := scanned_getVictimIndex h₂ hhand (Nat.zero_le _)
  rcases orElseScan_eq_some.1 h₃ with ⟨⟨v, hv⟩, heq⟩ | ⟨hnone, h₃⟩
  · obtain ⟨rfl, rfl⟩ := Prod.mk.inj heq
    obtain rfl : r₂ = some v := hv
    obtain ⟨rfl, rfl⟩ := Prod.mk.inj (Option.some.inj h₄)
    exact .found hscan₂.clears (hscan₂.inside v rfl).2.2
  have hpassed₂ := hscan₂.passed hnone
  obtain rfl := hscan₂.same hnone rfl
  have hscan₃ := scanned_getVictimIndex h₃ (Nat.le_refl _) hhand
  rcases orElseScan_eq_some.1 h₄ with ⟨⟨v, hv⟩, heq⟩ | ⟨hnone, h₄⟩
  · obtain ⟨rfl, rfl⟩ := Prod.mk.inj heq
    obtain rfl : r₃ = some v := hv
    exact .found hscan₃.clears (hscan₃.inside v rfl).2.2
  have hhand₃ : s₃.lastClockIndex = s₂.lastClockIndex := hscan₃.hand hnone
  have henv₃ : s₃.envs = s₂.envs := hscan₃.clears.envs
  have hscan₄ := scanned_getVictimIndex h₄ (by rw [hhand₃, henv₃]; exact hhand) (Nat.zero_le _)
  have hclears₃ : Clears s₂ s₃ := hscan₃.clears
  refine ⟨hclears₃.trans hscan₄.clears, fun v hv => ?_, fun hr => ?_, fun hr try1 => ?_,
    fun hr => ?_⟩
  · have hin := (hscan₄.inside v hv).2.2
    rwa [henv₃] at hin
  · exact (hscan₄.hand hr).trans hhand₃
  · cases try1 with
    | true => exact halves hpassed₁ hpassed₂
    | false =>
      exact halves (hscan₃.passed hnone) fun k hlo hhi hv =>
        hscan₄.passed hr k hlo (hhand₃ ▸ hhi) (hclears₃.isVictim hv)
  · exact halves
      (fun k hlo hhi => hscan₄.clears.slot_not_isUsed (hscan₃.cleared hnone rfl k hlo hhi))
      fun k hlo hhi => hscan₄.cleared hr rfl k hlo (hhand₃ ▸ hhi)

/-- With the hand above `page_WS_max_size` both ranges are refused. -/
theorem modifiedClockTrip_refused (hhand : (s.envs env).pageWSMaxSize < s.lastClockIndex) :
    modifiedClockTrip env s = some (none, s) := by
  have hzero : (s.envs env).pageWSMaxSize - s.lastClockIndex = 0 := by omega
  simp [modifiedClockTrip, getVictimIndex, getVictimIndexLoop, orElseScan, hzero, hhand]

/-- A trip returns where the pages have page tables. -/
theorem exists_modifiedClockTrip (hhand : s.lastClockIndex ≤ (s.envs env).pageWSMaxSize)
    (htables : ∀ x ∈ (s.envs env).ptrPageWorkingSet,
      (s.getPageTable env x.virtualAddress).isSome) :
    ∃ r s', modifiedClockTrip env s = some (r, s') := by
  let Ok (p : Option Nat × UserMemory P) : Prop :=
    Clears s p.2 ∧ (p.1 = none → p.2.lastClockIndex = s.lastClockIndex)
  -- a scan leaves the tables in place and the hand where it was, unless it finds a victim
  have hscan : ∀ (try1 : Bool) (start stop : Nat) (t : UserMemory P), Ok (none, t) →
      start ≤ stop → stop ≤ (s.envs env).pageWSMaxSize →
      ∃ q, getVictimIndex env try1 start stop t = some q ∧ Ok q := by
    intro try1 start stop t ⟨hc, hhand⟩ hle hstop
    have henvs : t.envs = s.envs := hc.envs
    rw [← henvs] at hstop htables
    have hend : start + (stop - start) ≤ (t.envs env).pageWSMaxSize := by omega
    obtain ⟨r, t', h⟩ := exists_loop (stop - start) start hend
      fun x hx => (hc.table env _).trans (htables x hx)
    have h' : getVictimIndex env try1 start stop t = some (r, t') := by
      rw [getVictimIndex, if_neg (by omega), h]
    have hspec := scanned_getVictimIndex h' hstop hle
    exact ⟨_, h', hc.trans hspec.clears, fun hr => (hspec.hand hr).trans (hhand rfl)⟩
  have hor : ∀ (p : Option Nat × UserMemory P)
      (scan : UserMemory P → Option (Option Nat × UserMemory P)), Ok p →
      (∀ t, Ok (none, t) → ∃ q, scan t = some q ∧ Ok q) →
      ∃ q, orElseScan p scan = some q ∧ Ok q := by
    rintro ⟨_ | v, t⟩ scan hp hnext
    · exact hnext t hp
    · exact ⟨_, rfl, hp⟩
  obtain ⟨q₁, h₁, hok₁⟩ := hscan true s.lastClockIndex _ s ⟨.refl s, fun _ => rfl⟩ hhand
    (Nat.le_refl _)
  obtain ⟨q₂, h₂, hok₂⟩ := hor q₁ (fun s => getVictimIndex env true 0 s.lastClockIndex s) hok₁
    fun t ht => hscan true 0 _ t ht (Nat.zero_le _) (ht.2 rfl ▸ hhand)
  obtain ⟨q₃, h₃, hok₃⟩ := hor q₂
    (fun s => getVictimIndex env false s.lastClockIndex (s.envs env).pageWSMaxSize s) hok₂
    fun t ht => hscan false _ _ t ht (by rw [ht.2 rfl, ht.1.envs]; exact hhand)
      (ht.1.envs ▸ Nat.le_refl _)
  obtain ⟨q₄, h₄, -⟩ := hor q₃ (fun s => getVictimIndex env false 0 s.lastClockIndex s) hok₃
    fun t ht => hscan false 0 _ t ht (Nat.zero_le _) (ht.2 rfl ▸ hhand)
  refine ⟨q₄.1, q₄.2, ?_⟩
  simp only [modifiedClockTrip, h₁, Option.bind_eq_bind, Option.bind_some, h₂, h₃, h₄]

/-- Where no page is used, a trip finds a victim. -/
theorem exists_victim_of_unused (hpos : 0 < (s.envs env).pageWSMaxSize)
    (hhand : s.lastClockIndex ≤ (s.envs env).pageWSMaxSize)
    (hunused : ∀ k < (s.envs env).pageWSMaxSize, isUsed (s.slotPermissions env k) = false) :
    modifiedClockTrip env s ≠ some (none, s') := by
  intro h
  refine (tripped hhand h).passed rfl (!isModified (s.slotPermissions env 0)) 0 hpos
    ⟨hunused 0 hpos, ?_⟩
  rw [Bool.not_not]

/-! ## The loop -/

theorem modifiedClockLoop_succ :
    modifiedClockLoop env (fuel + 1) s = (modifiedClockTrip env s).bind fun p =>
      match p with
      | (some victim, s) => some (victim, s)
      | (none, s) => modifiedClockLoop env fuel s := by
  rw [modifiedClockLoop]
  cases modifiedClockTrip env s with
  | none => rfl
  | some p => obtain ⟨_ | v, t⟩ := p <;> rfl

/-- A refused loop goes on for ever. -/
theorem modifiedClockLoop_refused (hhand : (s.envs env).pageWSMaxSize < s.lastClockIndex) :
    ∀ fuel, modifiedClockLoop env fuel s = none
  | 0 => rfl
  | fuel + 1 => by
    rw [modifiedClockLoop_succ, modifiedClockTrip_refused hhand]
    exact modifiedClockLoop_refused hhand fuel

/-- So does the loop of a working set without slots. -/
theorem modifiedClockLoop_noSlots (hzero : (s.envs env).pageWSMaxSize = 0)
    (hhand : s.lastClockIndex = 0) : ∀ fuel, modifiedClockLoop env fuel s = none
  | 0 => rfl
  | fuel + 1 => by
    have htrip : modifiedClockTrip env s = some (none, s) := by
      simp [modifiedClockTrip, getVictimIndex, getVictimIndexLoop, orElseScan, hzero, hhand]
    rw [modifiedClockLoop_succ, htrip]
    exact modifiedClockLoop_noSlots hzero hhand fuel

/-- The first trip finds a victim, or the second does. -/
theorem modifiedClockLoop_cases (hhand : s.lastClockIndex ≤ (s.envs env).pageWSMaxSize)
    (hpos : 0 < (s.envs env).pageWSMaxSize)
    (h : modifiedClockLoop env fuel s = some (v, s')) :
    modifiedClockTrip env s = some (some v, s') ∨ ∃ t, modifiedClockTrip env s = some (none, t) ∧
      modifiedClockTrip env t = some (some v, s') := by
  cases fuel with
  | zero => cases h
  | succ fuel =>
    rw [modifiedClockLoop_succ] at h
    obtain ⟨⟨_ | w, t⟩, htrip, h⟩ := Option.bind_eq_some_iff.1 h
    · have hspec := tripped hhand htrip
      refine .inr ⟨t, htrip, ?_⟩
      cases fuel with
      | zero => cases h
      | succ fuel =>
        dsimp only at h
        rw [modifiedClockLoop_succ] at h
        obtain ⟨⟨_ | w, u⟩, htrip', h⟩ := Option.bind_eq_some_iff.1 h
        · rw [← hspec.clears.envs] at hhand hpos
          refine absurd htrip' (exists_victim_of_unused hpos ?_ ?_)
          · rw [hspec.hand rfl]
            exact hhand
          · exact fun k hk => hspec.unused rfl k (hspec.clears.envs ▸ hk)
        · obtain ⟨rfl, rfl⟩ := Prod.mk.inj (Option.some.inj h)
          exact htrip'
    · obtain ⟨rfl, rfl⟩ := Prod.mk.inj (Option.some.inj h)
      exact .inl htrip

/-- A loop that returns returns within two trips. -/
theorem modifiedClock_eq_some_iff :
    modifiedClock env s = some (v, s') ↔ ∃ fuel, modifiedClockLoop env fuel s = some (v, s') := by
  refine ⟨fun h => ⟨2, h⟩, fun ⟨fuel, h⟩ => ?_⟩
  rcases Nat.lt_or_ge (s.envs env).pageWSMaxSize s.lastClockIndex with hlt | hhand
  · rw [modifiedClockLoop_refused hlt] at h
    cases h
  rcases Nat.eq_zero_or_pos (s.envs env).pageWSMaxSize with hzero | hpos
  · rw [modifiedClockLoop_noSlots hzero (by omega)] at h
    cases h
  rw [modifiedClock, modifiedClockLoop_succ]
  rcases modifiedClockLoop_cases hhand hpos h with htrip | ⟨t, htrip, htrip'⟩
  · rw [htrip, Option.bind_some]
  · rw [htrip, Option.bind_some]
    simp only [modifiedClockLoop_succ, htrip', Option.bind_some]

/-- The victim is a slot, and only used bits are cleared. -/
theorem modifiedClock_spec (h : modifiedClock env s = some (v, s')) :
    Clears s s' ∧ v < (s.envs env).pageWSMaxSize := by
  rcases Nat.lt_or_ge (s.envs env).pageWSMaxSize s.lastClockIndex with hlt | hhand
  · rw [modifiedClock, modifiedClockLoop_refused hlt] at h
    cases h
  rcases Nat.eq_zero_or_pos (s.envs env).pageWSMaxSize with hzero | hpos
  · rw [modifiedClock, modifiedClockLoop_noSlots hzero (by omega)] at h
    cases h
  rcases modifiedClockLoop_cases hhand hpos h with htrip | ⟨t, htrip, htrip'⟩
  · exact ⟨(tripped hhand htrip).clears, (tripped hhand htrip).inside v rfl⟩
  · have hspec := tripped hhand htrip
    rw [← hspec.clears.envs] at hhand ⊢
    have hspec' := tripped (hspec.hand rfl ▸ hhand) htrip'
    exact ⟨hspec.clears.trans hspec'.clears, hspec'.inside v rfl⟩

/-- Where the slots have page tables, the loop returns exactly when the hand is not above
`page_WS_max_size`. -/
theorem modifiedClock_returns_iff (hpos : 0 < (s.envs env).pageWSMaxSize)
    (htables : ∀ x ∈ (s.envs env).ptrPageWorkingSet,
      (s.getPageTable env x.virtualAddress).isSome) :
    (∃ v s', modifiedClock env s = some (v, s')) ↔
      s.lastClockIndex ≤ (s.envs env).pageWSMaxSize := by
  constructor
  · rintro ⟨v, s', h⟩
    by_contra hlt
    rw [modifiedClock, modifiedClockLoop_refused (by omega)] at h
    cases h
  · intro hhand
    obtain ⟨_ | v, t, htrip⟩ := exists_modifiedClockTrip hhand htables
    · have hspec := tripped hhand htrip
      have henvs : t.envs = s.envs := hspec.clears.envs
      obtain ⟨_ | v, u, htrip'⟩ : ∃ r u, modifiedClockTrip env t = some (r, u) := by
        refine exists_modifiedClockTrip ?_ fun x hx => ?_
        · rw [hspec.hand rfl, henvs]
          exact hhand
        · rw [hspec.clears.table]
          exact htables x (henvs ▸ hx)
      · refine absurd htrip' (exists_victim_of_unused (henvs ▸ hpos) ?_ ?_)
        · rw [hspec.hand rfl, henvs]
          exact hhand
        · exact fun k hk => hspec.unused rfl k (henvs ▸ hk)
      · refine ⟨v, u, ?_⟩
        simp only [modifiedClock, modifiedClockLoop_succ, htrip, htrip', Option.bind_some]
    · refine ⟨v, t, ?_⟩
      simp only [modifiedClock, modifiedClockLoop_succ, htrip, Option.bind_some]

end UserMemory

end FosKernel
