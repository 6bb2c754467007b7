import FosKernel.StabSearch

/-!
# The function at an address

`debuginfo_eip` searches the stab table for the source file of an address, and the part of that
file for the function. From the function it goes back to the stab that names the file the function
came from. Line numbers and arguments are left to be written.

`Tells` is what it tells for every address, when the searches do no harm (`debuginfoEip_tells`).
An address before the first function of its file is a case of its own : the search leaves the stab
of the file, and its name and address are given for those of the function.
-/

namespace FosKernel

/-- `struct Stab`, with the offset of its string. -/
structure NamedStab extends Stab where
  nStrx : BitVec 32

/-- `N_SO`, a source file. -/
def nSo : ℤ := 0x64

/-- `N_FUN`, a function. -/
def nFun : ℤ := 0x24

/-- `N_SOL`, a source file that is included. -/
def nSol : ℤ := 0x84

/-- The stab table and the string table, of the kernel or of a program. -/
structure StabTables where
  stabs : ℤ → NamedStab
  /-- `stab_end - stabs`. -/
  count : ℕ
  /-- The characters from `stabstr` to `stabstr_end`. -/
  stabstr : List (BitVec 8)

/-- A name is `"<unknown>"`, or a string of the string table. -/
inductive DebugName where
  | unknown
  | stabstr (offset : ℕ)
  deriving DecidableEq

/-- `struct Eipdebuginfo`. -/
structure EipDebugInfo where
  eipFile : DebugName
  eipLine : ℤ
  eipFnName : DebugName
  eipFnNamelen : ℕ
  eipFnAddr : BitVec 32
  eipFnNarg : ℤ
  deriving DecidableEq

/-- `*info` before anything is found. -/
def EipDebugInfo.initial (addr : BitVec 32) : EipDebugInfo where
  eipFile := .unknown
  eipLine := 0
  eipFnName := .unknown
  eipFnNamelen := 9
  eipFnAddr := addr
  eipFnNarg := 0

namespace StabTables

variable (T : StabTables)

/-- The table, as `stab_binsearch` reads it. -/
def table (i : ℤ) : Stab :=
  (T.stabs i).toStab

/-- The string of a stab, if it is inside the string table. -/
def nameOf (i : ℤ) : DebugName :=
  if (T.stabs i).nStrx.toNat < T.stabstr.length then .stabstr (T.stabs i).nStrx.toNat
  else .unknown

/-- `strfind(name, ':') - name`. -/
def namelen : DebugName → ℕ
  | .unknown => 9
  | .stabstr offset => ((T.stabstr.drop offset).takeWhile fun c => c ≠ 0x3A#8 ∧ c ≠ 0#8).length

/-- The stab names a source file. -/
def Names (i : ℤ) : Prop :=
  (T.stabs i).nType = nSol ∨ (T.stabs i).nType = nSo ∧ (T.stabs i).nValue ≠ 0#32

instance (i : ℤ) : Decidable (T.Names i) :=
  inferInstanceAs (Decidable (_ ∨ _))

/-- The loop back to a stab that names a source file : at most `trips` times. -/
def namingStab (lfile : ℤ) : ℕ → ℤ → ℤ
  | 0, lline => lline
  | trips + 1, lline =>
    if lline ≥ lfile ∧ (T.stabs lline).nType ≠ nSol ∧
        ((T.stabs lline).nType ≠ nSo ∨ (T.stabs lline).nValue = 0#32) then
      namingStab lfile trips (lline - 1)
    else lline

end StabTables

/-- `debuginfo_eip`, once it has the tables. -/
def StabTables.debuginfo (T : StabTables) (fuel : ℕ) (addr : BitVec 32) :
    Option (ℤ × EipDebugInfo) :=
  let info := EipDebugInfo.initial addr
  -- the string table is empty or does not end with a zero
  if T.stabstr.getLast? ≠ some 0#8 then some (-1, info)
  else do
    let (lfile, rfile) ← StabSearch.stabBinsearch T.table nSo fuel 0 (T.count - 1) addr
    if lfile = 0 then some (-1, info)
    else do
      let (lfun, rfun) ← StabSearch.stabBinsearch T.table nFun fuel lfile rfile addr
      let (info, lline) :=
        if lfun ≤ rfun then
          ({ info with eipFnName := T.nameOf lfun, eipFnAddr := (T.stabs lfun).nValue }, lfun)
        -- maybe an assembly file
        else ({ info with eipFnAddr := addr }, lfile)
      let info := { info with eipFnNamelen := T.namelen info.eipFnName }
      let lline := T.namingStab lfile (lline + 1 - lfile).toNat lline
      some (0, if lline ≥ lfile then { info with eipFile := T.nameOf lline } else info)

/-- `debuginfo_eip` : from `USER_LIMIT` on the tables are those of the kernel. -/
def debuginfoEip (kernel user : StabTables) (userLimit fuel : ℕ) (addr : BitVec 32) :
    Option (ℤ × EipDebugInfo) :=
  (if userLimit ≤ addr.toNat then kernel else user).debuginfo fuel addr

namespace StabSearch

variable {stabs : ℤ → Stab} {type left right : ℤ} {addr : BitVec 32} {s s' : StabSearch}
  {fuel : ℕ} {f e g r : ℤ}

/-! ## Where no entry is at or below the address -/

/-- What the search knows then. -/
structure Above (stabs : ℤ → Stab) (type left right : ℤ) (addr : BitVec 32) (s : StabSearch) :
    Prop where
  addr_eq : s.addr = addr
  left_eq : s.regionLeft = left
  right_eq : s.regionRight = s.r
  le_l : left ≤ s.l
  l_le : s.l ≤ s.r + 1
  r_le : s.r ≤ right
  none : ∀ i, left ≤ i → i < s.l → ¬Entry stabs type i
  right_end : s.r < right → Entry stabs type (s.r + 1)
  any : s.anyMatches = false ↔ s.r = right

theorem Above.step (habove : ∀ i, left ≤ i → i ≤ right → Entry stabs type i →
      addr.toNat < value stabs i) (s s' : StabSearch) (h : Above stabs type left right addr s)
    (hr : s.l ≤ s.r) (hstep : Step stabs type s s') : Above stabs type left right addr s' := by
  have hmid := mid_bounds hr
  have hle := h.le_l
  have hright := h.r_le
  have hnot : ∀ m, LastIn stabs type s.l s.mid m → s.addr.toNat < value stabs m := fun m hlast => by
    have hm := hlast.le
    have htop := hlast.le_top
    rw [h.addr_eq]
    exact habove m (by omega) (by omega) hlast.entry
  cases hstep with
  | skip hnone =>
    refine ⟨h.addr_eq, h.left_eq, h.right_eq, by dsimp only; omega, by dsimp only; omega, h.r_le,
      fun i hi hit => ?_, h.right_end, h.any⟩
    rcases lt_or_ge i s.l with hlt | hge
    · exact h.none i hi hlt
    · exact hnone i hge (by dsimp only at hit; omega)
  | below m hlast hlt => exact absurd hlt (hnot m hlast).asymm
  | above m hlast hlt =>
    have hm := hlast.le
    have htop := hlast.le_top
    refine ⟨h.addr_eq, h.left_eq, rfl, h.le_l, by dsimp only; omega, by dsimp only; omega, h.none,
      fun _ => ?_, iff_of_false (by simp) (by dsimp only; omega)⟩
    rw [sub_add_cancel]
    exact hlast.entry
  | exact m hlast heq => exact absurd heq (hnot m hlast).ne'

/-- The search leaves the left end where it was : the region is empty if it has no entry, and ends
before the first one otherwise. -/
theorem stabBinsearch_above (hleft : 0 ≤ left) (hregion : left ≤ right + 1)
    (habove : ∀ i, left ≤ i → i ≤ right → Entry stabs type i → addr.toNat < value stabs i)
    (hnot : ¬Entry stabs type left) (hfuel : 2 * (right + 1 - left).toNat + 1 ≤ fuel) :
    ((∀ i, left ≤ i → i ≤ right → ¬Entry stabs type i) ∧
        stabBinsearch stabs type fuel left right addr = some (left, left - 1)) ∨
      ∃ r, left ≤ r ∧ r < right ∧ Entry stabs type (r + 1) ∧
        stabBinsearch stabs type fuel left right addr = some (left, r) := by
  obtain ⟨s', hloop⟩ := exists_loop hleft addr hfuel
  have hstart : Above stabs type left right addr (initial left right addr) :=
    ⟨rfl, rfl, rfl, le_rfl, hregion, le_rfl, fun i hi hit => absurd hit (not_lt.2 hi),
      fun hlt => absurd hlt (lt_irrefl _), iff_of_true rfl rfl⟩
  obtain ⟨h, hend⟩ := loop_induction (Above.step habove) hleft hstart hloop
  have hle := h.l_le
  have hnone : ∀ i, left ≤ i → i ≤ s'.r → ¬Entry stabs type i := fun i hi hir =>
    h.none i hi (by omega)
  cases hany : s'.anyMatches with
  | false =>
    have hr := h.any.1 hany
    refine Or.inl ⟨fun i hi hir => hnone i hi (by omega), ?_⟩
    rw [stabBinsearch, hloop, Option.map_some, finish, hany, h.left_eq]
    rfl
  | true =>
    have hr : s'.r < right := by
      refine lt_of_le_of_ne h.r_le fun heq => ?_
      rw [h.any.2 heq] at hany
      cases hany
    have hentry := h.right_end hr
    have hlr : left ≤ s'.r := by
      have hl := h.le_l
      by_contra hlt
      have heq : s'.r + 1 = left := by omega
      exact hnot (heq ▸ hentry)
    refine Or.inr ⟨s'.r, hlr, hr, hentry, ?_⟩
    rw [stabBinsearch, hloop, Option.map_some, finish, hany, if_pos rfl, h.right_eq, h.left_eq,
      lastMatch_of_none (by omega) fun i hi hir => hnone i (by omega) hir, add_sub_cancel_right]

/-- The search finds the entry that contains the address. -/
theorem stabBinsearch_contained (hleft : 0 ≤ left) (hup : Increasing stabs type left right)
    (hharmless : HarmlessMatch stabs type left right addr)
    (hsome : Contained stabs type left right addr)
    (hfuel : 2 * (right + 1 - left).toNat + 1 ≤ fuel) :
    ∃ l r, stabBinsearch stabs type fuel left right addr = some (l, r) ∧
      Found stabs type left right addr (l, r) := by
  obtain ⟨s', hloop⟩ := exists_loop hleft addr hfuel
  obtain ⟨⟨l, r⟩, hp⟩ : ∃ p, finish stabs type s' = p := ⟨_, rfl⟩
  refine ⟨l, r, ?_, hp ▸ (found_finish_iff hleft hup hsome hloop).2 hharmless⟩
  rw [stabBinsearch, hloop, Option.map_some, hp]

end StabSearch

open StabSearch (Entry Found Increasing HarmlessMatch value stabBinsearch)

namespace StabTables

variable {T : StabTables} {addr : BitVec 32} {fuel : ℕ} {f e g k r : ℤ}

/-! ## The source file -/

/-- The source file is named by the last stab from `f` to `g` that names one. -/
def FileName (T : StabTables) (f g : ℤ) (name : DebugName) : Prop :=
  (∃ k, f ≤ k ∧ k ≤ g ∧ T.Names k ∧ (∀ i, k < i → i ≤ g → ¬T.Names i) ∧ name = T.nameOf k) ∨
    ((∀ i, f ≤ i → i ≤ g → ¬T.Names i) ∧ name = .unknown)

theorem not_names_iff (i : ℤ) : ¬T.Names i ↔ (T.stabs i).nType ≠ nSol ∧
    ((T.stabs i).nType ≠ nSo ∨ (T.stabs i).nValue = 0#32) := by
  rw [Names, not_or, not_and_or, not_not]

theorem namingStab_spec (T : StabTables) (f : ℤ) (trips : ℕ) (htrips : trips = (g + 1 - f).toNat)
    (hle : f ≤ g + 1) :
    (∀ i, T.namingStab f trips g < i → i ≤ g → ¬T.Names i) ∧
      (f ≤ T.namingStab f trips g → T.Names (T.namingStab f trips g)) ∧
      f ≤ T.namingStab f trips g + 1 ∧ T.namingStab f trips g ≤ g := by
  induction trips generalizing g with
  | zero =>
    rw [namingStab]
    exact ⟨fun i hi hig => absurd hi (not_lt.2 hig), fun hf => by omega, hle, le_rfl⟩
  | succ trips ih =>
    unfold namingStab
    split_ifs with hback
    · obtain ⟨hnone, hnames, hlow, htop⟩ := ih (g := g - 1) (by omega) (by omega)
      refine ⟨fun i hi hig => ?_, hnames, hlow, by omega⟩
      rcases eq_or_lt_of_le hig with rfl | hlt
      · exact (not_names_iff i).2 hback.2
      · exact hnone i hi (by omega)
    · refine ⟨fun i hi hig => absurd hi (not_lt.2 hig), fun hf => ?_, hle, le_rfl⟩
      by_contra hnot
      exact hback ⟨hf, (not_names_iff g).1 hnot⟩

/-- What is told at the end. -/
theorem fileName_spec (T : StabTables) (hle : f ≤ g) (info : EipDebugInfo)
    (hfile : info.eipFile = .unknown) :
    ∃ name, FileName T f g name ∧
      (if T.namingStab f (g + 1 - f).toNat g ≥ f then
        { info with eipFile := T.nameOf (T.namingStab f (g + 1 - f).toNat g) } else info) =
      { info with eipFile := name } := by
  obtain ⟨hnone, hnames, hlow, htop⟩ :=
    namingStab_spec T f (g + 1 - f).toNat rfl (Int.le_add_one hle)
  by_cases hf : f ≤ T.namingStab f (g + 1 - f).toNat g
  · exact ⟨_, Or.inl ⟨_, hf, htop, hnames hf, hnone, rfl⟩, if_pos hf⟩
  · refine ⟨.unknown, Or.inr ⟨fun i hi hig => hnone i (by omega) hig, rfl⟩, ?_⟩
    rw [if_neg hf, ← hfile]

/-! ## `debuginfo_eip` -/

/-- The tables are as the linker makes them : a string table that ends, a first stab that is
neither a file nor a function, files and functions in the order of their addresses. -/
structure Linked (T : StabTables) : Prop where
  strings : T.stabstr.getLast? = some 0#8
  header : ¬Entry T.table nSo 0
  files : Increasing T.table nSo 0 (T.count - 1)
  functions : Increasing T.table nFun 0 (T.count - 1)

/-- The stab `f` is that of the source file of the address, and `e` the last stab of its part. -/
def InFile (T : StabTables) (addr : BitVec 32) (f e : ℤ) : Prop :=
  Found T.table nSo 0 (T.count - 1) addr (f, e)

/-- No search does harm when it gets to the address itself. -/
def Harmless (T : StabTables) (addr : BitVec 32) : Prop :=
  HarmlessMatch T.table nSo 0 (T.count - 1) addr ∧
    ∀ f e, T.InFile addr f e → HarmlessMatch T.table nFun f e addr

/-- What is told of an address : the result, and the file and the function. -/
inductive Tells (T : StabTables) (addr : BitVec 32) : ℤ × EipDebugInfo → Prop
  /-- No source file starts at or below the address. -/
  | noFile (h : ∀ i : ℤ, 0 ≤ i → i ≤ T.count - 1 → Entry T.table nSo i →
      addr.toNat < value T.table i) : Tells T addr (-1, .initial addr)
  /-- The address is in the function of stab `g`. -/
  | function (f e g r : ℤ) (name : DebugName) (hfile : T.InFile addr f e)
      (hfun : Found T.table nFun f e addr (g, r)) (hname : FileName T f g name) :
      Tells T addr (0, ⟨name, 0, T.nameOf g, T.namelen (T.nameOf g), (T.stabs g).nValue, 0⟩)
  /-- The file has functions, and the address is before the first. -/
  | beforeFunctions (f e : ℤ) (name : DebugName) (hfile : T.InFile addr f e)
      (hsome : ∃ i, f ≤ i ∧ i ≤ e ∧ Entry T.table nFun i)
      (habove : ∀ i, f ≤ i → i ≤ e → Entry T.table nFun i → addr.toNat < value T.table i)
      (hname : FileName T f f name) :
      Tells T addr (0, ⟨name, 0, T.nameOf f, T.namelen (T.nameOf f), (T.stabs f).nValue, 0⟩)
  /-- The file has no functions. -/
  | noFunctions (f e : ℤ) (name : DebugName) (hfile : T.InFile addr f e)
      (hnone : ∀ i, f ≤ i → i ≤ e → ¬Entry T.table nFun i) (hname : FileName T f f name) :
      Tells T addr (0, ⟨name, 0, .unknown, 9, addr, 0⟩)

/-- What comes after the two searches. -/
theorem debuginfo_eq (hlinked : T.Linked) (hf : f ≠ 0)
    (hfile : stabBinsearch T.table nSo fuel 0 (T.count - 1) addr = some (f, e))
    (hfun : stabBinsearch T.table nFun fuel f e addr = some (g, r)) :
    T.debuginfo fuel addr = some (0,
      let lline := if g ≤ r then g else f
      let info : EipDebugInfo := if g ≤ r then
          ⟨.unknown, 0, T.nameOf g, T.namelen (T.nameOf g), (T.stabs g).nValue, 0⟩
        else ⟨.unknown, 0, .unknown, 9, addr, 0⟩
      if T.namingStab f (lline + 1 - f).toNat lline ≥ f then
        { info with eipFile := T.nameOf (T.namingStab f (lline + 1 - f).toNat lline) }
      else info) := by
  have hstrings := not_not.2 hlinked.strings
  unfold debuginfo
  simp only [if_neg hstrings, hfile, hfun, if_neg hf, Option.bind_eq_bind, Option.bind_some,
    EipDebugInfo.initial]
  split_ifs <;> rfl

/-- The search for the function, in the part of the file. -/
theorem debuginfo_inFile (hlinked : T.Linked) (hharmless : T.Harmless addr)
    (hfuel : 2 * T.count + 1 ≤ fuel) (hfile : T.InFile addr f e)
    (hsearch : stabBinsearch T.table nSo fuel 0 (T.count - 1) addr = some (f, e)) :
    ∃ out, T.debuginfo fuel addr = some out ∧ Tells T addr out := by
  have hf : 0 ≤ f := hfile.left_le
  have hfe : f ≤ e := hfile.le_right
  have he : e ≤ T.count - 1 := hfile.right_le
  have hne : f ≠ 0 := fun heq => hlinked.header (heq ▸ hfile.entry)
  have hup : Increasing T.table nFun f e := hlinked.functions.mono hf he
  have hregion : 2 * (e + 1 - f).toNat + 1 ≤ fuel := by omega
  by_cases hsome : StabSearch.Contained T.table nFun f e addr
  · obtain ⟨g, r, hfun, hfound⟩ :=
      StabSearch.stabBinsearch_contained hf hup (hharmless.2 f e hfile) hsome hregion
    have hgr : g ≤ r := hfound.le_right
    obtain ⟨name, hname, hinfo⟩ := fileName_spec T hfound.left_le
      ⟨.unknown, 0, T.nameOf g, T.namelen (T.nameOf g), (T.stabs g).nValue, 0⟩ rfl
    refine ⟨_, debuginfo_eq hlinked hne hsearch hfun, ?_⟩
    simp only [if_pos hgr, hinfo]
    exact Tells.function f e g r name hfile hfound hname
  · have habove : ∀ i, f ≤ i → i ≤ e → Entry T.table nFun i → addr.toNat < value T.table i :=
      fun i hi hie hentry => not_le.1 fun hle => hsome ⟨i, hi, hie, hentry, hle⟩
    have hnot : ¬Entry T.table nFun f := fun hentry => by
      have hso : (T.table f).nType = nSo := hfile.entry
      cases hso.symm.trans hentry
    rcases StabSearch.stabBinsearch_above hf (Int.le_add_one hfe) habove hnot hregion with
      ⟨hnone, hfun⟩ | ⟨r, hfr, hre, hentry, hfun⟩
    · obtain ⟨name, hname, hinfo⟩ := fileName_spec T (le_refl f)
        ⟨.unknown, 0, .unknown, 9, addr, 0⟩ rfl
      have hempty : ¬f ≤ f - 1 := by omega
      refine ⟨_, debuginfo_eq hlinked hne hsearch hfun, ?_⟩
      simp only [if_neg hempty, hinfo]
      exact Tells.noFunctions f e name hfile hnone hname
    · obtain ⟨name, hname, hinfo⟩ := fileName_spec T (le_refl f)
        ⟨.unknown, 0, T.nameOf f, T.namelen (T.nameOf f), (T.stabs f).nValue, 0⟩ rfl
      refine ⟨_, debuginfo_eq hlinked hne hsearch hfun, ?_⟩
      simp only [if_pos hfr, hinfo]
      exact Tells.beforeFunctions f e name hfile ⟨r + 1, by omega, by omega, hentry⟩ habove hname

/-- `debuginfo_eip` returns for every address, with what there is to tell. -/
theorem debuginfo_tells (hlinked : T.Linked) (hharmless : T.Harmless addr)
    (hfuel : 2 * T.count + 1 ≤ fuel) :
    ∃ out, T.debuginfo fuel addr = some out ∧ Tells T addr out := by
  have hregion : 2 * ((T.count : ℤ) - 1 + 1 - 0).toNat + 1 ≤ fuel := by omega
  by_cases hsome : StabSearch.Contained T.table nSo 0 (T.count - 1) addr
  · obtain ⟨f, e, hsearch, hfound⟩ :=
      StabSearch.stabBinsearch_contained le_rfl hlinked.files hharmless.1 hsome hregion
    exact debuginfo_inFile hlinked hharmless hfuel hfound hsearch
  · have habove : ∀ i, 0 ≤ i → i ≤ (T.count : ℤ) - 1 → Entry T.table nSo i →
        addr.toNat < value T.table i := fun i hi hie hentry =>
      not_le.1 fun hle => hsome ⟨i, hi, hie, hentry, hle⟩
    have hzero : ∃ r, stabBinsearch T.table nSo fuel 0 (T.count - 1) addr = some (0, r) := by
      rcases StabSearch.stabBinsearch_above le_rfl (by omega) habove hlinked.header hregion with
        ⟨-, hsearch⟩ | ⟨r, -, -, -, hsearch⟩
      · exact ⟨_, hsearch⟩
      · exact ⟨r, hsearch⟩
    obtain ⟨r, hsearch⟩ := hzero
    have hstrings := not_not.2 hlinked.strings
    refine ⟨_, ?_, Tells.noFile habove⟩
    unfold debuginfo
    simp only [if_neg hstrings, hsearch, Option.bind_eq_bind, Option.bind_some, if_true]

end StabTables

/-- `debuginfo_eip` returns for every address, and tells what is to be told of it. -/
theorem debuginfoEip_tells (kernel user T : StabTables) (userLimit : ℕ) (addr : BitVec 32)
    (hT : (if userLimit ≤ addr.toNat then kernel else user) = T) (hlinked : T.Linked)
    (hharmless : T.Harmless addr) (fuel : ℕ) (hfuel : 2 * T.count + 1 ≤ fuel) :
    ∃ out, debuginfoEip kernel user userLimit fuel addr = some out ∧ T.Tells addr out := by
  rw [debuginfoEip, hT]
  exact StabTables.debuginfo_tells hlinked hharmless hfuel

/-- A file `a` with two functions, `f:F` and one without a name. -/
def smallTables : StabTables where
  stabs i :=
    if i = 1 then ⟨⟨nSo, 0xf0100000#32⟩, 1#32⟩
    else if i = 2 then ⟨⟨nFun, 0xf0100000#32⟩, 3#32⟩
    else if i = 3 then ⟨⟨nFun, 0xf0100010#32⟩, 0#32⟩
    else ⟨⟨0, 0#32⟩, 0#32⟩
  count := 4
  stabstr := [0#8, 0x61#8, 0#8, 0x66#8, 0x3A#8, 0x46#8, 0#8]

theorem smallTables_file {i : ℤ} (h : Entry smallTables.table nSo i) : i = 1 := by
  by_contra hi
  simp only [Entry, StabTables.table, smallTables, if_neg hi] at h
  split_ifs at h <;> cases h

theorem smallTables_function {i : ℤ} (h : Entry smallTables.table nFun i) : i = 2 ∨ i = 3 := by
  simp only [Entry, StabTables.table, smallTables] at h
  split_ifs at h with h1 h2 h3
  · cases h
  · exact Or.inl h2
  · exact Or.inr h3
  · cases h

theorem smallTables_linked : smallTables.Linked := by
  refine ⟨rfl, fun h => ?_, fun i j _ hij _ hi hj => ?_, fun i j _ hij _ hi hj => ?_⟩
  · cases smallTables_file h
  · have hi := smallTables_file hi
    have hj := smallTables_file hj
    omega
  · rcases smallTables_function hi with rfl | rfl <;>
      rcases smallTables_function hj with rfl | rfl
    · exact absurd hij (lt_irrefl _)
    · decide
    · omega
    · exact absurd hij (lt_irrefl _)

theorem smallTables_harmless : smallTables.Harmless 0xf0100008#32 := by
  refine ⟨fun p _ _ hp hval => ?_, fun f e _ p _ _ hp hval => ?_⟩
  · obtain rfl := smallTables_file hp
    exact absurd hval (by decide)
  · rcases smallTables_function hp with rfl | rfl
    · exact absurd hval (by decide)
    · exact absurd hval (by decide)

/-- Inside `f`. -/
theorem smallTables_tells : ∃ out, debuginfoEip smallTables smallTables 0xef800000 9
      0xf0100008#32 = some out ∧ smallTables.Tells 0xf0100008#32 out ∧
        out = (0, ⟨.stabstr 1, 0, .stabstr 3, 1, 0xf0100000#32, 0⟩) := by
  obtain ⟨out, hout, htells⟩ := debuginfoEip_tells smallTables smallTables smallTables 0xef800000
    0xf0100008#32 (ite_self _) smallTables_linked smallTables_harmless 9 (by decide)
  have hvalue : debuginfoEip smallTables smallTables 0xef800000 9 0xf0100008#32 =
      some (0, ⟨.stabstr 1, 0, .stabstr 3, 1, 0xf0100000#32, 0⟩) := by decide
  exact ⟨out, hout, htells, Option.some.inj (hout.symm.trans hvalue)⟩

end FosKernel
