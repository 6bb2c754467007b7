import FosKernel.MapFrameContract

/-!
# `sys_allocate_page`

`sys_allocate_page` takes a frame from the free frame list before it looks at its arguments.
The frame goes back to the list on no path that fails : an address or permissions that are not
valid leave it without references and off the list, and so does a missing page table, with the
counter below zero (`sysAllocatePage_lost`). Nothing uses such a frame, so the counters of the
others are right in every state that can be reached (`Reachable.inv`), with the frames that were
lost among the reserved.

`sysAllocatePage_atomic_iff` : the call does all of its work, or changes nothing, where no
frame is free, or the arguments are valid and there is a frame for a page table that is missing.
-/

namespace FosKernel

/-- A frame that the entry did not map is mapped, and has one reference more. -/
theorem MapEffect.of_new {n f : Nat} {perm : BitVec 32} {made : Option Nat} {e e' : Entry}
    {refs refs' : Nat → Int} {free' : List Nat}
    (h : MapEffect n f perm made e e' refs refs' free') (hnew : KernMemory.mappedBy e ≠ some f) :
    e' = constructEntry (toPhysicalAddress f) (perm ||| permPresent) ∧ refs' f = refs f + 1 ∧
      ∀ g, KernMemory.mappedBy e = some g → refs' g = refs g - 1 := by
  cases h with
  | same hpresent hframe => exact absurd (hframe ▸ if_pos hpresent) hnew
  | replaced hpresent hframe hlt he hold hone =>
    refine ⟨he, hone, fun g hg => ?_⟩
    rw [KernMemory.mappedBy, if_pos hpresent] at hg
    obtain rfl := Option.some.inj hg
    exact hold.1
  | inserted hpresent he hone =>
    refine ⟨he, hone, fun g hg => ?_⟩
    rw [KernMemory.mappedBy, if_neg hpresent] at hg
    cases hg

namespace KernMemory

/-- What `sys_allocate_page` returns. -/
inductive SysStatus where
  | success
  | inval
  | noMem
  deriving DecidableEq

/-- `sys_allocate_page(va, perm)`, for an environment with its page directory in frame `d`. -/
def sysAllocatePage (n userTop : Nat) (m : KernMemory) (d va : Nat) (perm : BitVec 32) :
    Option (SysStatus × KernMemory) :=
  match m.allocateFrame with
  | none => some (.noMem, m)
  | some (f, m) =>
    if userTop ≤ va ∨ va % pageSize ≠ 0 then some (.inval, m)
    else if perm &&& (~~~permAvailable &&& ~~~permWriteable) ≠ permUser then some (.inval, m)
    else do
      let page ← Boot.kVirtualFrame n (toPhysicalAddress f)
      match ← (m.clearFrame page).mapFrame n d f va perm with
      | (.noMem, m) => some (.noMem, m.decrementReferences f)
      | (.ok, m) => some (.success, m)

/-- The address and the permissions are valid. -/
def ValidPage (userTop va : Nat) (perm : BitVec 32) : Prop :=
  va < userTop ∧ va % pageSize = 0 ∧ perm &&& (~~~permAvailable &&& ~~~permWriteable) = permUser

/-- Valid permissions are in the low twelve bits. -/
theorem ValidPage.isPerm {userTop va : Nat} {perm : BitVec 32} (h : ValidPage userTop va perm) :
    IsPerm perm := by
  have hmask : ~~~permAvailable &&& ~~~permWriteable &&& ~~~permMask = ~~~permMask := by decide
  have huser : permUser &&& ~~~permMask = 0#32 := by decide
  rw [IsPerm, ← hmask, ← BitVec.and_assoc, h.2.2, huser]

/-- The page is allocated, or nothing is changed. -/
structure Atomic (dirs : Finset Nat) (d va : Nat) (perm : BitVec 32) (m : KernMemory)
    (status : SysStatus) (m' : KernMemory) : Prop where
  error : status ≠ .success →
    (∀ f, f ∈ m'.freeFrameList ↔ f ∈ m.freeFrameList) ∧ m'.references = m.references ∧
      ∀ d' ∈ dirs, ∀ i j, tableOf m'.words d' i = tableOf m.words d' i ∧
        entryAt m'.words d' i j = entryAt m.words d' i j
  success : status = .success → ∃ f,
    entryAt m'.words d (pdx va) (ptx va) =
        constructEntry (toPhysicalAddress f) (perm ||| permPresent) ∧
      (∀ i, m'.words f i = 0#32) ∧ m'.references f = 1 ∧
      ∀ g, mappedAt m.words d (pdx va) (ptx va) = some g → m'.references g = m.references g - 1

/-- The states that the calls of `step` and `sys_allocate_page` lead to, with the frames that
nobody can get hold of : those reserved from the start, and those that were lost. -/
inductive Reachable (n : Nat) (dirs : Finset Nat) (userTop : Nat) (start : Nat → Prop)
    (m₀ : KernMemory) : (Nat → Prop) → KernMemory → Prop
  | start : Reachable n dirs userTop start m₀ start m₀
  | call {reserved : Nat → Prop} {m m' : KernMemory} {c : Call}
      (h : Reachable n dirs userTop start m₀ reserved m)
      (hc : Admissible n dirs userTop reserved m c) (hstep : m.step n c = some m') :
      Reachable n dirs userTop start m₀ reserved m'
  | allocatePage {reserved : Nat → Prop} {m m' : KernMemory} {status : SysStatus} {d va : Nat}
      {perm : BitVec 32} (h : Reachable n dirs userTop start m₀ reserved m) (hd : d ∈ dirs)
      (hsys : m.sysAllocatePage n userTop d va perm = some (status, m')) :
      Reachable n dirs userTop start m₀
        (fun f => reserved f ∨ status ≠ .success ∧ m.freeFrameList.head? = some f) m'

/-! ## A frame off the list -/

section Lost

variable {n tables : Nat} {dirs : Finset Nat} {reserved : Nat → Prop} {w w' : Words}
  {m m' : KernMemory} {d i j f : Nat} {rest : List Nat}

/-- What is in a frame that is neither a directory nor a page table. -/
theorem slots_congr (hdirs : ∀ d ∈ dirs, reserved d)
    (hfresh : ∀ d ∈ dirs, ∀ i < tables, tableOf w d i ≠ some f) (hres : ¬ reserved f)
    (hw : ∀ g, g ≠ f → w' g = w g) (hd : d ∈ dirs) :
    tableOf w' d i = tableOf w d i ∧ (i < tables → entryAt w' d i j = entryAt w d i j) := by
  have hdf : d ≠ f := fun heq => hres (heq ▸ hdirs d hd)
  have htab : tableOf w' d i = tableOf w d i := by
    rw [tableOf, tableOf, hw d hdf]
  refine ⟨htab, fun hi => ?_⟩
  unfold entryAt
  rw [htab]
  cases ht : tableOf w d i with
  | none => rfl
  | some t => exact congrFun (hw t fun heq => hfresh d hd i hi (heq ▸ ht)) j

/-- The invariant reads the words of the directories and the page tables only. -/
theorem Inv.changeWords (h : Inv n dirs tables reserved m) (w' : Words)
    (htab : ∀ d ∈ dirs, ∀ i, tableOf w' d i = tableOf m.words d i)
    (hent : ∀ d ∈ dirs, ∀ i < tables, ∀ j, entryAt w' d i j = entryAt m.words d i j) :
    Inv n dirs tables reserved { m with words := w' } := by
  have htableUses : ∀ g, tableUses dirs tables w' g = tableUses dirs tables m.words g := fun g =>
    RefCount.refs_congr (fun x hx => htab _ (mem_directorySlots.1 hx).1 _) g
  have hpageUses : ∀ g, pageUses dirs tables w' g = pageUses dirs tables m.words g := fun g =>
    RefCount.refs_congr (fun x hx => by
      obtain ⟨⟨hd, hi⟩, -⟩ := mem_entrySlots.1 hx
      rw [mappedAt, hent _ hd _ hi, mappedAt]) g
  refine ⟨⟨fun d hd i hi t ht => ?_, fun d hd i hi d' hd' i' hi' t ht ht' => ?_,
    fun d hd i hi j hj => ?_⟩, h.nodup, h.free, fun g hlt hres => ?_⟩
  · exact h.slots.table d hd i hi t (htab d hd i ▸ ht)
  · exact h.slots.apart d hd i hi d' hd' i' hi' t (htab d hd i ▸ ht) (htab d' hd' i' ▸ ht')
  · dsimp only
    rw [hent d hd i hi]
    exact h.slots.entry d hd i hi j hj
  · dsimp only
    rw [htableUses, hpageUses]
    exact h.counts g hlt hres

/-- A frame taken from the list that nobody keeps is as good as reserved. -/
theorem Inv.lose (h : Inv n dirs tables reserved m) (hl : m.freeFrameList = f :: rest) (k : Int) :
    Inv n dirs tables (fun g => reserved g ∨ g = f)
      { m.setReferences f k with freeFrameList := rest } := by
  have hmem : f ∈ m.freeFrameList := hl ▸ List.mem_cons_self
  have hunused := h.unused hmem
  have hnd := h.nodup
  rw [hl, List.nodup_cons] at hnd
  refine ⟨⟨fun d hd i hi t ht => ?_, h.slots.apart, fun d hd i hi j hj hne => ?_⟩, hnd.2,
    fun g hg => ?_, fun g hlt hres => ?_⟩
  · obtain ⟨hlt, hres⟩ := h.slots.table d hd i hi t ht
    exact ⟨hlt, not_or.2 ⟨hres, fun heq => h.fresh hmem d hd i hi (heq ▸ ht)⟩⟩
  · obtain ⟨hpresent, hlt, hres⟩ := h.slots.entry d hd i hi j hj hne
    have hmapped : mappedAt m.words d i j = some (frameNumber (entryAt m.words d i j)) :=
      if_pos hpresent
    refine ⟨hpresent, hlt, not_or.2 ⟨hres, fun heq => ?_⟩⟩
    exact (h.allocated_of_mapped hd hi hj hmapped).1.notFree (heq.symm ▸ hmem)
  · obtain ⟨hlt, hres, href⟩ := h.free g (hl ▸ List.mem_cons_of_mem f hg)
    have hne : g ≠ f := fun heq => hnd.1 (heq ▸ hg)
    exact ⟨hlt, not_or.2 ⟨hres, hne⟩, (Function.update_of_ne hne _ _).trans href⟩
  · obtain ⟨hres, hne⟩ := not_or.1 hres
    exact (Function.update_of_ne hne _ _).trans (h.counts g hlt hres)

end Lost

/-! ## The call -/

section Call

variable {n userTop : Nat} {dirs : Finset Nat} {reserved : Nat → Prop} {m m' : KernMemory}
  {d va f : Nat} {rest : List Nat} {perm : BitVec 32} {status : SysStatus}

/-- Without a free frame nothing is changed. -/
theorem sysAllocatePage_nil (hl : m.freeFrameList = []) :
    m.sysAllocatePage n userTop d va perm = some (.noMem, m) := by
  simp [sysAllocatePage, allocateFrame, hl]

/-- With arguments that are not valid the frame stays off the list. -/
theorem sysAllocatePage_inval (hl : m.freeFrameList = f :: rest)
    (hvalid : ¬ValidPage userTop va perm) :
    m.sysAllocatePage n userTop d va perm =
      some (.inval, { m.setReferences f 0 with freeFrameList := rest }) := by
  unfold ValidPage at hvalid
  unfold sysAllocatePage
  simp only [allocateFrame, hl]
  split
  · rfl
  · next haddress =>
    push Not at haddress
    rw [if_pos fun hperm => hvalid ⟨haddress.1, haddress.2, hperm⟩]

variable (hdirs : ∀ d ∈ dirs, reserved d) (hn : n ≤ 1048576) (hpos : 0 < n)
  (h : Inv n dirs (userTables userTop) reserved m) (hd : d ∈ dirs)
  (hl : m.freeFrameList = f :: rest) (hvalid : ValidPage userTop va perm)

/-- The frame is allocated and cleared. -/
def cleared (m : KernMemory) (f : Nat) (rest : List Nat) : KernMemory :=
  ({ m.setReferences f 0 with freeFrameList := rest } : KernMemory).clearFrame f

include hdirs h hl

theorem tableOf_cleared (hd : d ∈ dirs) (i : Nat) :
    tableOf (m.cleared f rest).words d i = tableOf m.words d i :=
  (slots_congr (j := 0) hdirs (h.fresh (hl ▸ List.mem_cons_self))
    (h.free f (hl ▸ List.mem_cons_self)).2.1 (fun _ hg => Function.update_of_ne hg _ _) hd).1

theorem entryAt_cleared (hd : d ∈ dirs) {i : Nat} (hi : i < userTables userTop) (j : Nat) :
    entryAt (m.cleared f rest).words d i j = entryAt m.words d i j :=
  (slots_congr hdirs (h.fresh (hl ▸ List.mem_cons_self))
    (h.free f (hl ▸ List.mem_cons_self)).2.1 (fun _ hg => Function.update_of_ne hg _ _) hd).2 hi

theorem inv_cleared : Inv n dirs (userTables userTop) reserved (m.cleared f rest) :=
  (h.allocate hl).changeWords _ (fun _ hd => tableOf_cleared hdirs h hl hd)
    fun _ hd _ => entryAt_cleared hdirs h hl hd

omit hdirs in
theorem allocated_cleared : Allocated n reserved (m.cleared f rest) f := by
  obtain ⟨hlt, hres, -⟩ := h.free f (hl ▸ List.mem_cons_self)
  have hnd := h.nodup
  rw [hl, List.nodup_cons] at hnd
  exact ⟨hlt, hres, hnd.1⟩

include hn hvalid

omit hdirs in
/-- With valid arguments the call maps the frame. -/
theorem sysAllocatePage_eq : m.sysAllocatePage n userTop d va perm =
    ((m.cleared f rest).mapFrame n d f va perm).bind fun r =>
      match r with
      | (.noMem, m) => some (.noMem, m.decrementReferences f)
      | (.ok, m) => some (.success, m) := by
  have hlt := (h.free f (hl ▸ List.mem_cons_self)).1
  have hpage : Boot.kVirtualFrame n (toPhysicalAddress f) = some f := by
    rw [Boot.kVirtualFrame, ppn_toPhysicalAddress (Nat.lt_of_lt_of_le hlt hn), if_pos hlt]
  obtain ⟨haddress, halign, hperm⟩ := hvalid
  unfold sysAllocatePage
  simp only [allocateFrame, hl]
  rw [if_neg (by omega), if_neg (not_not.2 hperm), hpage]
  rfl

include hpos hd

/-- Without a frame for the page table the counter of the page is below zero. -/
theorem sysAllocatePage_noTable (ht : tableOf m.words d (pdx va) = none) (hrest : rest = []) :
    m.sysAllocatePage n userTop d va perm =
      some (.noMem, (m.cleared f rest).setReferences f (-1)) := by
  have hmap : (m.cleared f rest).mapFrame n d f va perm = some (.noMem, m.cleared f rest) := by
    rcases mapFrame_spec hdirs hn hpos (inv_cleared hdirs h hl) hd (pdx_lt_userTables hvalid.1)
      hvalid.isPerm (allocated_cleared h hl) with ⟨-, -, hmap⟩ | ⟨hnot, -⟩
    · exact hmap
    · exact absurd ⟨(tableOf_cleared hdirs h hl hd _).trans ht, hrest⟩ hnot
  have hzero : (m.cleared f rest).references f = 0 := Function.update_self _ _ _
  rcases Inv.decrementReferences_cases (m.cleared f rest) f with ⟨hone, -⟩ | ⟨-, hdec⟩
  · rw [hzero] at hone
    cases hone
  · rw [hzero] at hdec
    rw [sysAllocatePage_eq hn h hl hvalid, hmap]
    exact congrArg (fun m => some (SysStatus.noMem, m)) hdec

/-- With a page table, or a frame for one, the page is mapped. -/
theorem sysAllocatePage_success (hroom : tableOf m.words d (pdx va) ≠ none ∨ rest ≠ []) :
    ∃ m', m.sysAllocatePage n userTop d va perm = some (.success, m') ∧
      Inv n dirs (userTables userTop) reserved m' ∧ Atomic dirs d va perm m .success m' := by
  have hinv := inv_cleared hdirs h hl
  have hf := allocated_cleared h hl
  have hi := pdx_lt_userTables hvalid.1
  have hj : ptx va < 1024 := Nat.mod_lt _ (by decide)
  obtain ⟨m', hmap, hinv'⟩ : ∃ m', (m.cleared f rest).mapFrame n d f va perm = some (.ok, m') ∧
      Inv n dirs (userTables userTop) reserved m' := by
    rcases mapFrame_spec hdirs hn hpos hinv hd hi hvalid.isPerm hf with ⟨ht, hnil, -⟩ | ⟨-, hok⟩
    · rw [tableOf_cleared hdirs h hl hd] at ht
      exact absurd hnil (hroom.resolve_left (not_not.2 ht))
    · exact hok
  have hdir : DirectoryOk n d va (m.cleared f rest) :=
    ⟨fun hmem => (hinv.free d hmem).2.1 (hdirs d hd), fun g hg => (hinv.free g hg).1, fun t ht => by
      obtain ⟨hlt, hres⟩ := hinv.slots.table d hd _ hi t ht
      exact ⟨hlt, fun heq => hres (heq ▸ hdirs d hd)⟩⟩
  obtain ⟨heffect, hwords, -⟩ := mapFrame_effect hn hdir hf.lt hf.notFree hmap
  rw [entryAt_cleared hdirs h hl hd hi] at heffect
  -- the frame is new to every page table
  have hnew : ∀ g, mappedAt m.words d (pdx va) (ptx va) = some g → g ≠ f := fun g hg heq =>
    (h.allocated_of_mapped hd hi hj hg).1.notFree (heq ▸ hl ▸ List.mem_cons_self)
  have hmade : (m.cleared f rest).madeTable d va ≠ some f := madeTable_ne hf.notFree
  obtain ⟨hentry, hone, hold⟩ := heffect.of_new fun heq => hnew f heq rfl
  rw [show (m.cleared f rest).references f = 0 from Function.update_self _ _ _] at hone
  have hnotTable : tableOf m'.words d (pdx va) ≠ some f := by
    have hperm : IsPerm (perm ||| permPresent) := hvalid.isPerm.or (by decide)
    have hmapped : mappedAt m'.words d (pdx va) (ptx va) = some f := by
      rw [mappedAt, hentry, mappedBy, if_pos (isPresent_constructEntry _ _),
        frameNumber_constructEntry (Nat.lt_of_lt_of_le hf.lt hn) hperm]
    exact hinv'.tableOf_ne_of_mapped hd hi hj hmapped hone d hd _ hi
  refine ⟨m', ?_, hinv', fun hc => absurd rfl hc,
    fun _ => ⟨f, hentry, fun i => ?_, hone, fun g hg => ?_⟩⟩
  · rw [sysAllocatePage_eq hn h hl hvalid, hmap]
    rfl
  · have hsame := hwords f i (fun hat => hnotTable hat.1) fun t ht =>
      ⟨fun heq => hmade (heq ▸ ht), fun hat => hf.notReserved (hat.1 ▸ hdirs d hd)⟩
    exact hsame.trans ((clearWords_apply _ _ _ _).trans (if_pos rfl))
  · have hrefs : (m.cleared f rest).references g = m.references g :=
      Function.update_of_ne (hnew g hg) _ _
    rw [hold g hg, hrefs]

omit hn hpos hd hvalid in
/-- The counter of a frame that was lost may be below zero, and its words cleared. -/
theorem inv_lost_cleared :
    Inv n dirs (userTables userTop) (fun g => reserved g ∨ g = f)
      ((m.cleared f rest).setReferences f (-1)) := by
  have hlost := (h.lose hl (-1)).changeWords (m.cleared f rest).words
    (fun _ hd => tableOf_cleared hdirs h hl hd) fun _ hd _ => entryAt_cleared hdirs h hl hd
  have heq : (m.cleared f rest).setReferences f (-1) =
      { ({ m.setReferences f (-1) with freeFrameList := rest } : KernMemory) with
        words := (m.cleared f rest).words } := by
    simp [setReferences, cleared, clearFrame]
  rwa [heq]

end Call

/-! ## Any call, from any state -/

section Reached

variable {n userTop : Nat} {dirs : Finset Nat} {start reserved : Nat → Prop} {m₀ m : KernMemory}
  {d va f : Nat} {rest : List Nat} {perm : BitVec 32}

/-- There is a frame for the page, if its arguments are valid, and one for its page table. -/
def CanAllocate (userTop : Nat) (m : KernMemory) (d va : Nat) (perm : BitVec 32) : Prop :=
  ValidPage userTop va perm ∧
    (tableOf m.words d (pdx va) ≠ none ∨ 2 ≤ m.freeFrameList.length)

/-- Where a frame is free the call succeeds or loses that frame. -/
theorem sysAllocatePage_lost (hdirs : ∀ d ∈ dirs, reserved d) (hn : n ≤ 1048576) (hpos : 0 < n)
    (h : Inv n dirs (userTables userTop) reserved m) (hd : d ∈ dirs)
    (hl : m.freeFrameList = f :: rest) (hcan : ¬CanAllocate userTop m d va perm) :
    ∃ status m', m.sysAllocatePage n userTop d va perm = some (status, m') ∧
      status ≠ .success ∧ m'.freeFrameList = rest ∧
      Inv n dirs (userTables userTop) (fun g => reserved g ∨ g = f) m' := by
  by_cases hvalid : ValidPage userTop va perm
  · have hroom : ¬(tableOf m.words d (pdx va) ≠ none ∨ 2 ≤ m.freeFrameList.length) := fun hroom =>
      hcan ⟨hvalid, hroom⟩
    push Not at hroom
    rw [hl, List.length_cons] at hroom
    have hrest : rest = [] := List.eq_nil_of_length_eq_zero (by omega)
    exact ⟨.noMem, _, sysAllocatePage_noTable hdirs hn hpos h hd hl hvalid hroom.1 hrest,
      by decide, rfl, inv_lost_cleared hdirs h hl⟩
  · exact ⟨.inval, _, sysAllocatePage_inval hl hvalid, by decide, rfl, h.lose hl 0⟩

/-- Where it can, the call succeeds. -/
theorem sysAllocatePage_can (hdirs : ∀ d ∈ dirs, reserved d) (hn : n ≤ 1048576) (hpos : 0 < n)
    (h : Inv n dirs (userTables userTop) reserved m) (hd : d ∈ dirs)
    (hl : m.freeFrameList = f :: rest) (hcan : CanAllocate userTop m d va perm) :
    ∃ m', m.sysAllocatePage n userTop d va perm = some (.success, m') ∧
      Inv n dirs (userTables userTop) reserved m' ∧ Atomic dirs d va perm m .success m' := by
  refine sysAllocatePage_success hdirs hn hpos h hd hl hcan.1 (hcan.2.imp id fun hlen hrest => ?_)
  rw [hl, hrest] at hlen
  simp at hlen

/-- The invariant in every state, with the frames lost so far among the reserved. -/
theorem Reachable.inv (hn : n ≤ 1048576) (hpos : 0 < n) (hdirs : ∀ d ∈ dirs, start d)
    (h₀ : Inv n dirs (userTables userTop) start m₀)
    (hreach : Reachable n dirs userTop start m₀ reserved m) :
    Inv n dirs (userTables userTop) reserved m ∧ ∀ d ∈ dirs, reserved d := by
  induction hreach with
  | start => exact ⟨h₀, hdirs⟩
  | call _ hc hstep ih =>
    obtain ⟨hinv, hres⟩ := ih
    obtain ⟨m', hm', hinv'⟩ := step_spec hres hn hpos hinv hc
    exact ⟨Option.some.inj (hm'.symm.trans hstep) ▸ hinv', hres⟩
  | @allocatePage reserved m m' status d va perm _ hd hsys ih =>
    obtain ⟨hinv, hres⟩ := ih
    refine ⟨?_, fun d hd => Or.inl (hres d hd)⟩
    cases hl : m.freeFrameList with
    | nil =>
      rw [sysAllocatePage_nil hl] at hsys
      obtain ⟨rfl, rfl⟩ := Prod.mk.inj (Option.some.inj hsys)
      simpa using hinv
    | cons f rest =>
      by_cases hcan : CanAllocate userTop m d va perm
      · obtain ⟨m₁, hm₁, hinv₁, -⟩ := sysAllocatePage_can hres hn hpos hinv hd hl hcan
        obtain ⟨rfl, rfl⟩ := Prod.mk.inj (Option.some.inj (hm₁.symm.trans hsys))
        simpa using hinv₁
      · obtain ⟨status₁, m₁, hm₁, hfails, -, hinv₁⟩ :=
          sysAllocatePage_lost hres hn hpos hinv hd hl hcan
        obtain ⟨rfl, rfl⟩ := Prod.mk.inj (Option.some.inj (hm₁.symm.trans hsys))
        simpa [hfails, eq_comm] using hinv₁

/-- When `sys_allocate_page` allocates the page or changes nothing. -/
theorem sysAllocatePage_atomic_iff {l : Layout} {words : Words} {bootCalls : List Boot.Call}
    {b : Boot.State} {framesInfo : Nat → FrameInfo} {frames : Boot.Frames} (hn : n ≤ 1048576)
    (hboot : Machine.run (Boot.step l .kern n) (Boot.start words) bootCalls = some b)
    (hcovers : Boot.Covers l n b)
    (hpaging : Boot.initializePaging l .kern n b.ptrFreeMem framesInfo = some frames)
    (hdirs : ∀ d ∈ dirs, d < n ∧ d ∉ frames.freeFrameList)
    (hzero : ∀ d ∈ dirs, ∀ i < userTables userTop, b.words d i = 0#32)
    (hreach : Reachable n dirs userTop (fun f => f ∉ frames.freeFrameList)
      (ofFrames frames b.words) reserved m) (hd : d ∈ dirs) (va : Nat) (perm : BitVec 32) :
    (∃ status m', m.sysAllocatePage n userTop d va perm = some (status, m') ∧
        Atomic dirs d va perm m status m') ↔
      m.freeFrameList = [] ∨ CanAllocate userTop m d va perm := by
  obtain ⟨hpos, hlist⟩ := freeFrameList_of_boot hboot hcovers hpaging
  obtain ⟨hinv, hres⟩ := hreach.inv hn hpos (fun d hd => (hdirs d hd).2) (inv_start hlist hzero)
  cases hl : m.freeFrameList with
  | nil =>
    refine iff_of_true ⟨.noMem, m, sysAllocatePage_nil hl, fun _ => ?_, fun hc => by cases hc⟩
      (Or.inl rfl)
    exact ⟨fun _ => Iff.rfl, rfl, fun _ _ _ _ => ⟨rfl, rfl⟩⟩
  | cons f rest =>
    by_cases hcan : CanAllocate userTop m d va perm
    · obtain ⟨m', hsys, -, hatomic⟩ := sysAllocatePage_can hres hn hpos hinv hd hl hcan
      exact iff_of_true ⟨.success, m', hsys, hatomic⟩ (Or.inr hcan)
    · obtain ⟨status, m', hsys, hfails, hlist', -⟩ :=
        sysAllocatePage_lost hres hn hpos hinv hd hl hcan
      refine iff_of_false ?_ (not_or.2 ⟨List.cons_ne_nil f rest, hcan⟩)
      rintro ⟨status', m'', hsys', hatomic⟩
      obtain ⟨rfl, rfl⟩ := Prod.mk.inj (Option.some.inj (hsys.symm.trans hsys'))
      -- the frame is not on the list any more
      have hmem := ((hatomic.error hfails).1 f).2 (hl ▸ List.mem_cons_self)
      have hnd := hinv.nodup
      rw [hl, List.nodup_cons] at hnd
      exact hnd.1 (hlist' ▸ hmem)

/-- A page is allocated once paging is initialized. -/
theorem smallFrames_allocatePage :
    ∃ status m', (ofFrames smallFrames smallBoot.words).sysAllocatePage 10 0x400000 4 0x1000
        6#32 = some (status, m') ∧
      Atomic {4} 4 0x1000 6#32 (ofFrames smallFrames smallBoot.words) status m' := by
  have hlist : smallFrames.freeFrameList = [9, 8, 7, 6, 5, 2, 1] := by decide
  have hboot : Machine.run (Boot.step smallLayout .kern 10) (Boot.start fun _ _ => 0#32)
      [.allocate 4096 4096] = some smallBoot := rfl
  have hpaging : Boot.initializePaging smallLayout .kern 10 smallBoot.ptrFreeMem
      (fun _ => initializeFrameInfo) = some smallFrames := rfl
  have hcan : CanAllocate 0x400000 (ofFrames smallFrames smallBoot.words) 4 0x1000 6#32 := by
    refine ⟨⟨by decide, rfl, rfl⟩, Or.inr ?_⟩
    rw [ofFrames, hlist]
    decide
  exact (sysAllocatePage_atomic_iff (by decide) hboot (by decide) hpaging
    (by rw [hlist]; decide) (fun _ _ _ _ => rfl) .start (Finset.mem_singleton_self 4) 0x1000
    6#32).2 (Or.inr hcan)

/-- For an address inside a page the call returns `E_INVAL`, and frame 9 is free no more. -/
theorem lostFrame_counterexample :
    ∃ m', (ofFrames smallFrames smallBoot.words).sysAllocatePage 10 0x400000 4 0x1001
        6#32 = some (.inval, m') ∧
      9 ∈ (ofFrames smallFrames smallBoot.words).freeFrameList ∧ 9 ∉ m'.freeFrameList ∧
      ¬Atomic {4} 4 0x1001 6#32 (ofFrames smallFrames smallBoot.words) .inval m' := by
  have hlist : (ofFrames smallFrames smallBoot.words).freeFrameList = [9, 8, 7, 6, 5, 2, 1] := by
    decide
  have hmem : 9 ∈ (ofFrames smallFrames smallBoot.words).freeFrameList := by
    rw [hlist]
    decide
  have hnot : 9 ∉ [8, 7, 6, 5, 2, 1] := by decide
  exact ⟨_, sysAllocatePage_inval hlist fun hvalid => absurd hvalid.2.1 (by decide), hmem, hnot,
    fun hatomic => hnot (((hatomic.error (by decide)).1 9).2 hmem)⟩

end Reached

end KernMemory

end FosKernel
