import FosKernel.Machine
import FosKernel.Words
import Mathlib.Algebra.Order.Group.Nat
import Mathlib.Data.List.Range
import Mathlib.Logic.Function.Basic

/-!
# The ids of environments

An `env_id` is a generation above the `ENVGENSHIFT` bits and the index of its slot below.
`complete_environment_initialization` counts the generation of the slot up, and starts again from
the first when the sign bit would be set : the id that a slot gets the `k`-th time is
`idAt i (k - 1)`, and the ids of a slot come back after `generations` times (`idAt_inj`).

`EnvLedger` adds the ids that each slot has been given, and how many of them were released.
`ids_fresh` : in every run from `env_init`, `envid2env` finds the environment of an id until it is
released, and rejects the id once it is, until its slot has been reused `generations` times.
-/

namespace FosKernel

/-- The constants of the environments. -/
structure EnvLayout where
  /-- `LOGNENV`. -/
  logNenv : ℕ
  logNenv_le : logNenv ≤ 12
  vpt : ℕ
  uvpt : ℕ
  gdUd : BitVec 16
  gdUt : BitVec 16
  ustackTop : BitVec 32

/-- `ENVGENSHIFT`. -/
def envGenShift : ℕ :=
  12

/-- The values of `env_status`. -/
inductive KernEnvStatus where
  | free
  | runnable
  deriving DecidableEq

/-- `struct Trapframe`, as far as it is set to other values than zero. -/
structure Trapframe where
  tfDs : BitVec 16
  tfEs : BitVec 16
  tfSs : BitVec 16
  tfEsp : BitVec 32
  tfCs : BitVec 16
  tfEip : BitVec 32
  deriving DecidableEq

/-- `struct Env` of `kern/user_environment.c`. -/
structure KernEnv where
  envTf : Trapframe
  envId : BitVec 32
  envParentId : BitVec 32
  envStatus : KernEnvStatus
  envRuns : BitVec 32
  envPgdir : ℕ → Entry
  envCr3 : BitVec 32

/-- The environments, as `kern/user_environment.c` keeps them. -/
structure EnvTable where
  envs : ℕ → KernEnv
  envFreeList : List ℕ
  curenv : Option ℕ

namespace EnvLayout

variable (L : EnvLayout)

/-- `NENV`. -/
def nenv : ℕ :=
  2 ^ L.logNenv

/-- `NENV - 1`, a mask. -/
def indexMask : BitVec 32 :=
  BitVec.ofNat 32 L.nenv - 1#32

/-- `ENVX(id)`. -/
def envx (id : BitVec 32) : ℕ :=
  (id &&& L.indexMask).toNat

/-- The `env_id` that `complete_environment_initialization` gives to slot `i`. -/
def nextId (i : ℕ) (envId : BitVec 32) : BitVec 32 :=
  let generation := (envId + (1#32 <<< envGenShift)) &&& ~~~L.indexMask
  let generation := if generation.toInt ≤ 0 then 1#32 <<< envGenShift else generation
  generation ||| BitVec.ofNat 32 i

/-- The registers of a new environment. -/
def initialTrapframe : Trapframe where
  tfDs := L.gdUd ||| 3#16
  tfEs := L.gdUd ||| 3#16
  tfSs := L.gdUd ||| 3#16
  tfEsp := L.ustackTop
  tfCs := L.gdUt ||| 3#16
  tfEip := 0#32

end EnvLayout

/-- What `envid2env` returns. -/
inductive EnvidStatus where
  | ok
  | badEnv
  deriving DecidableEq

namespace EnvTable

variable (L : EnvLayout) (s : EnvTable)

/-- Slot `i` becomes `e`. -/
def setEnv (i : ℕ) (e : KernEnv) : EnvTable :=
  { s with envs := Function.update s.envs i e }

/-- The loop of `env_init` over the slots below `k`, from the last one down. -/
def envInitLoop : ℕ → EnvTable → EnvTable
  | 0, s => s
  | iEnv + 1, s =>
    let e := { s.envs iEnv with envStatus := .free, envId := 0#32 }
    envInitLoop iEnv { s.setEnv iEnv e with envFreeList := iEnv :: s.envFreeList }

/-- `env_init`. -/
def envInit : EnvTable :=
  envInitLoop L.nenv s

/-- `complete_environment_initialization`, for slot `i`. -/
def completeEnvironmentInitialization (i : ℕ) : EnvTable :=
  let e := s.envs i
  let pgdir := Function.update e.envPgdir (L.vpt / 4194304)
    (e.envCr3 ||| permPresent ||| permWriteable)
  let pgdir := Function.update pgdir (L.uvpt / 4194304) (e.envCr3 ||| permPresent ||| permUser)
  { s.setEnv i
      { envTf := L.initialTrapframe
        envId := L.nextId i e.envId
        envParentId := 0#32
        envStatus := .runnable
        envRuns := 0#32
        envPgdir := pgdir
        envCr3 := e.envCr3 } with
    envFreeList := s.envFreeList.erase i }

/-- `free_environment`, of slot `i`. -/
def freeEnvironment (i : ℕ) : EnvTable :=
  { s.setEnv i { s.envs i with envStatus := .free } with
    envFreeList := i :: s.envFreeList
    curenv := none }

/-- `envid2env` : its status and the slot of the environment that it stores, `none` for null. It
has no value where `curenv` is null and its id is read. -/
def envid2env (envid : BitVec 32) (checkperm : Bool) : Option (EnvidStatus × Option ℕ) :=
  if envid = 0#32 then some (.ok, s.curenv)
  else
    let e := L.envx envid
    if (s.envs e).envStatus = .free ∨ (s.envs e).envId ≠ envid then some (.badEnv, none)
    else if checkperm = true ∧ s.curenv ≠ some e then
      s.curenv.map fun c =>
        if (s.envs e).envParentId ≠ (s.envs c).envId then (.badEnv, none) else (.ok, some e)
    else some (.ok, some e)

end EnvTable

/-! ## Generations -/

/-- How many generations there are. -/
def generations : ℕ :=
  2 ^ 19 - 1

/-- The id that slot `i` is given after `k` others. -/
def idAt (i k : ℕ) : BitVec 32 :=
  BitVec.ofNat 32 (4096 * (k % generations + 1) + i)

namespace EnvLayout

variable {L : EnvLayout} {i j k : ℕ}

theorem nenv_le (L : EnvLayout) : L.nenv ≤ 4096 :=
  Nat.pow_le_pow_right (by decide) L.logNenv_le

theorem indexMask_eq (L : EnvLayout) : L.indexMask = BitVec.ofNat 32 (2 ^ L.logNenv - 1) := by
  have hpos : 0 < 2 ^ L.logNenv := Nat.two_pow_pos _
  have hle := L.nenv_le
  apply BitVec.eq_of_toNat_eq
  rw [indexMask, nenv] at *
  simp only [BitVec.toNat_sub, BitVec.toNat_ofNat]
  omega

/-- The index of an id is its remainder. -/
theorem envx_eq (L : EnvLayout) (id : BitVec 32) : L.envx id = id.toNat % L.nenv := by
  have hle := L.nenv_le
  have hmask : (BitVec.ofNat 32 (2 ^ L.logNenv - 1)).toNat = 2 ^ L.logNenv - 1 := by
    rw [nenv] at hle
    rw [BitVec.toNat_ofNat]
    omega
  rw [envx, indexMask_eq, BitVec.toNat_and, hmask, Nat.and_two_pow_sub_one_eq_mod, nenv]

/-- The generation has no bit of the index. -/
theorem toNat_and_not_indexMask (L : EnvLayout) (x : BitVec 32) :
    (x &&& ~~~L.indexMask).toNat = x.toNat / L.nenv * L.nenv := by
  have hshift : x &&& ~~~L.indexMask = x >>> L.logNenv <<< L.logNenv := by
    apply BitVec.eq_of_getLsbD_eq
    intro i hi
    have hmask : L.indexMask.getLsbD i = decide (i < L.logNenv) := by
      rw [indexMask_eq, BitVec.getLsbD_ofNat, Nat.testBit_two_pow_sub_one]
      simp [hi]
    rw [BitVec.getLsbD_and, BitVec.getLsbD_not, hmask, BitVec.getLsbD_shiftLeft,
      BitVec.getLsbD_ushiftRight]
    by_cases h : i < L.logNenv
    · simp [h]
    · simp [h, hi, Nat.add_sub_cancel' (Nat.le_of_not_lt h)]
  have hle : x.toNat / 2 ^ L.logNenv * 2 ^ L.logNenv ≤ x.toNat := Nat.div_mul_le_self _ _
  have hlt := x.isLt
  rw [hshift, nenv, BitVec.toNat_shiftLeft, BitVec.toNat_ushiftRight, Nat.shiftRight_eq_div_pow,
    Nat.shiftLeft_eq]
  omega

theorem nenv_dvd (L : EnvLayout) (g : ℕ) : L.nenv ∣ 4096 * g :=
  Nat.dvd_mul_right_of_dvd (Nat.pow_dvd_pow 2 L.logNenv_le) g

/-- The generation of an id, one more and without the index. -/
theorem generation_eq (hj : j < L.nenv) {g : ℕ} (hg : g < 2 ^ 19) :
    (BitVec.ofNat 32 (4096 * g + j) + (1#32 <<< envGenShift)) &&& ~~~L.indexMask =
      BitVec.ofNat 32 (4096 * (g + 1)) := by
  have hle := L.nenv_le
  have hone : (1#32 <<< envGenShift) = 4096#32 := by decide
  have hsum : (BitVec.ofNat 32 (4096 * g + j) + (1#32 <<< envGenShift)).toNat =
      4096 * (g + 1) + j := by
    rw [hone, BitVec.toNat_add, BitVec.toNat_ofNat, BitVec.toNat_ofNat]
    omega
  obtain ⟨q, hq⟩ := L.nenv_dvd (g + 1)
  have hdiv : (4096 * (g + 1) + j) / L.nenv * L.nenv = 4096 * (g + 1) := by
    rw [hq, Nat.mul_add_div (Nat.zero_lt_of_lt hj), Nat.div_eq_of_lt hj, Nat.add_zero,
      Nat.mul_comm]
  apply BitVec.eq_of_toNat_eq
  rw [toNat_and_not_indexMask, hsum, hdiv, BitVec.toNat_ofNat, Nat.mod_eq_of_lt (by omega)]

/-- The index fits below the generation. -/
theorem generation_or_index (hi : i < L.nenv) (g : ℕ) :
    BitVec.ofNat 32 (4096 * g) ||| BitVec.ofNat 32 i = BitVec.ofNat 32 (4096 * g + i) := by
  have hle := L.nenv_le
  have hor : 4096 * g ||| i = 4096 * g + i :=
    (Nat.two_pow_add_eq_or_of_lt (show i < 2 ^ 12 by omega) g).symm
  rw [← BitVec.ofNat_or, hor]

/-- The first generation comes after the last one. -/
theorem nextId_eq (hi : i < L.nenv) (hj : j < L.nenv) {g : ℕ} (hg : g < 2 ^ 19) :
    L.nextId i (BitVec.ofNat 32 (4096 * g + j)) =
      BitVec.ofNat 32 (4096 * (if g = generations then 1 else g + 1) + i) := by
  have hone : (1#32 <<< envGenShift) = BitVec.ofNat 32 (4096 * 1) := by decide
  have hpos : (BitVec.ofNat 32 (4096 * (g + 1))).toInt ≤ 0 ↔ g = generations := by
    have htoNat : (BitVec.ofNat 32 (4096 * (g + 1))).toNat = 4096 * (g + 1) := by
      rw [BitVec.toNat_ofNat]
      omega
    rw [BitVec.toInt_eq_toNat_cond, htoNat, generations]
    split <;> omega
  rw [nextId, generation_eq hj hg, hone]
  simp only [hpos]
  split_ifs
  · exact generation_or_index hi 1
  · exact generation_or_index hi (g + 1)

theorem generations_eq : generations = 524287 :=
  rfl

/-- The first id of a slot. -/
theorem nextId_zero (hi : i < L.nenv) : L.nextId i 0#32 = idAt i 0 :=
  nextId_eq (g := 0) hi (Nat.zero_lt_of_lt hi) (by decide)

/-- The ids of a slot, one after the other. -/
theorem nextId_idAt (hi : i < L.nenv) (k : ℕ) : L.nextId i (idAt i k) = idAt i (k + 1) := by
  have hlt := Nat.mod_lt k (show 0 < generations by decide)
  have hgen := generations_eq
  have hnext : (if k % generations + 1 = generations then 1 else k % generations + 1 + 1) =
      (k + 1) % generations + 1 := by
    rw [hgen]
    split <;> omega
  rw [idAt, nextId_eq hi hi (by omega), hnext, idAt]

theorem toNat_idAt (hi : i < L.nenv) (k : ℕ) :
    (idAt i k).toNat = 4096 * (k % generations + 1) + i := by
  have hlt := Nat.mod_lt k (show 0 < generations by decide)
  have hle := L.nenv_le
  rw [generations_eq] at hlt ⊢
  rw [idAt, generations_eq, BitVec.toNat_ofNat]
  omega

/-- An id is positive, and names its slot. -/
theorem idAt_pos (hi : i < L.nenv) (k : ℕ) : 0 < (idAt i k).toInt ∧ L.envx (idAt i k) = i := by
  have hlt := Nat.mod_lt k (show 0 < generations by decide)
  have hle := L.nenv_le
  have hgen := generations_eq
  refine ⟨?_, ?_⟩
  · rw [BitVec.toInt_eq_toNat_cond, toNat_idAt hi]
    split <;> omega
  · rw [envx_eq, toNat_idAt hi, Nat.add_mod, Nat.mod_eq_zero_of_dvd (L.nenv_dvd _), Nat.zero_add,
      Nat.mod_mod, Nat.mod_eq_of_lt hi]

/-- The ids of a slot differ within one round of generations. -/
theorem idAt_inj (hi : i < L.nenv) (hjk : j ≤ k) (hlt : k - j < generations)
    (heq : idAt i j = idAt i k) : j = k := by
  have htoNat := congrArg BitVec.toNat heq
  rw [toNat_idAt hi, toNat_idAt hi] at htoNat
  rw [generations_eq] at htoNat hlt
  omega

end EnvLayout

/-! ## Runs -/

/-- The environments, the ids that each slot has been given, the oldest first, and how many of
these have been released. -/
structure EnvLedger where
  table : EnvTable
  given : ℕ → List (BitVec 32)
  released : ℕ → ℕ

/-- A slot without a live environment is initialized, or the environment of a slot is released. -/
inductive EnvCall where
  | complete (i : ℕ)
  | release (i : ℕ)

namespace EnvLedger

variable (L : EnvLayout)

/-- The environments after `env_init`. -/
def start (s : EnvTable) : EnvLedger :=
  ⟨s.envInit L, fun _ => [], fun _ => 0⟩

/-- One call. Whether an environment lives is what the ledger says, not `env_status`. -/
def step (x : EnvLedger) : EnvCall → Option EnvLedger
  | .complete i =>
    if i < L.nenv ∧ x.released i = (x.given i).length then
      let table := x.table.completeEnvironmentInitialization L i
      some ⟨table, Function.update x.given i (x.given i ++ [(table.envs i).envId]), x.released⟩
    else none
  | .release i =>
    if i < L.nenv ∧ x.released i < (x.given i).length then
      some ⟨x.table.freeEnvironment i, x.given,
        Function.update x.released i (x.released i + 1)⟩
    else none

/-- The ids given to slot `i` are the first ones of the slot, and its `env_id` is the last. All but
perhaps the last are released, and `env_status` says whether that one is. -/
structure Numbered (x : EnvLedger) (i : ℕ) : Prop where
  given : ∀ k id, (x.given i)[k]? = some id → id = idAt i k
  last : (x.table.envs i).envId =
    if (x.given i).length = 0 then 0#32 else idAt i ((x.given i).length - 1)
  released_le : x.released i ≤ (x.given i).length
  le_released : (x.given i).length ≤ x.released i + 1
  status : (x.table.envs i).envStatus = .free ↔ x.released i = (x.given i).length

variable {L} {x x' : EnvLedger} {i : ℕ} {c : EnvCall}

theorem envInitLoop_of_le : ∀ (k : ℕ) (s : EnvTable), k ≤ i →
    (EnvTable.envInitLoop k s).envs i = s.envs i
  | 0, s, _ => rfl
  | k + 1, s, hi => by
    rw [EnvTable.envInitLoop, envInitLoop_of_le k _ (Nat.le_of_succ_le hi)]
    exact Function.update_of_ne (Nat.ne_of_gt hi) _ _

theorem envInitLoop_of_lt : ∀ (k : ℕ) (s : EnvTable), i < k →
    ((EnvTable.envInitLoop k s).envs i).envId = 0#32 ∧
      ((EnvTable.envInitLoop k s).envs i).envStatus = .free
  | 0, s, hi => absurd hi (Nat.not_lt_zero i)
  | k + 1, s, hi => by
    rw [EnvTable.envInitLoop]
    rcases Nat.lt_succ_iff_lt_or_eq.1 hi with hlt | rfl
    · exact envInitLoop_of_lt k _ hlt
    · rw [envInitLoop_of_le i _ le_rfl]
      simp [EnvTable.setEnv]

theorem numbered_start (s : EnvTable) (hi : i < L.nenv) : (start L s).Numbered i := by
  obtain ⟨hid, hfree⟩ := envInitLoop_of_lt L.nenv s hi
  exact ⟨fun k id hk => (Option.some_ne_none id hk.symm).elim, hid, le_rfl, Nat.zero_le 1,
    iff_of_true hfree rfl⟩

/-- The next id of a slot. -/
theorem Numbered.complete (h : x.Numbered i) (hi : i < L.nenv) :
    L.nextId i (x.table.envs i).envId = idAt i (x.given i).length := by
  rw [h.last]
  split
  · next hzero =>
    rw [hzero]
    exact EnvLayout.nextId_zero hi
  · next hpos =>
    rw [EnvLayout.nextId_idAt hi, Nat.sub_add_cancel (Nat.pos_of_ne_zero hpos)]

/-- A slot that a call is not about. -/
theorem Numbered.congr (h : x.Numbered i) (henv : x'.table.envs i = x.table.envs i)
    (hgiven : x'.given i = x.given i) (hreleased : x'.released i = x.released i) :
    x'.Numbered i := by
  refine ⟨?_, ?_, ?_, ?_, ?_⟩
  · rw [hgiven]
    exact h.given
  · rw [henv, hgiven]
    exact h.last
  · rw [hgiven, hreleased]
    exact h.released_le
  · rw [hgiven, hreleased]
    exact h.le_released
  · rw [henv, hgiven, hreleased]
    exact h.status

/-- The slot of a new environment. -/
theorem Numbered.completed (h : x.Numbered i) (hi : i < L.nenv)
    (hall : x.released i = (x.given i).length) :
    Numbered ⟨x.table.completeEnvironmentInitialization L i, Function.update x.given i
      (x.given i ++ [((x.table.completeEnvironmentInitialization L i).envs i).envId]),
      x.released⟩ i := by
  have hid := h.complete hi
  refine ⟨fun k id hk => ?_, ?_, ?_, ?_, ?_⟩
  · simp only [Function.update_self, EnvTable.completeEnvironmentInitialization,
      EnvTable.setEnv] at hk
    rcases Nat.lt_or_ge k (x.given i).length with hlt | hge
    · rw [List.getElem?_append_left hlt] at hk
      exact h.given k id hk
    · rw [List.getElem?_append_right hge, List.getElem?_singleton] at hk
      split at hk
      · next hzero =>
        obtain rfl := Option.some.inj hk
        rw [hid, Nat.le_antisymm (Nat.sub_eq_zero_iff_le.1 hzero) hge]
      · cases hk
  · simp [EnvTable.completeEnvironmentInitialization, EnvTable.setEnv, hid]
  · simp [hall]
  · simp [hall]
  · simp [EnvTable.completeEnvironmentInitialization, EnvTable.setEnv, hall]

/-- The slot of an environment that is released. -/
theorem Numbered.freed (h : x.Numbered i) (hlive : x.released i < (x.given i).length) :
    Numbered ⟨x.table.freeEnvironment i, x.given,
      Function.update x.released i (x.released i + 1)⟩ i := by
  have hlast : x.released i + 1 = (x.given i).length := Nat.le_antisymm hlive h.le_released
  refine ⟨h.given, ?_, ?_, ?_, ?_⟩
  · simpa [EnvTable.freeEnvironment, EnvTable.setEnv] using h.last
  · simp [hlast]
  · simp [hlast]
  · simp [EnvTable.freeEnvironment, EnvTable.setEnv, hlast]

/-- One call. -/
theorem step_numbered (h : ∀ i < L.nenv, x.Numbered i) (hstep : step L x c = some x') :
    ∀ i < L.nenv, x'.Numbered i := by
  intro i hi
  cases c with
  | complete j =>
    rw [step] at hstep
    split at hstep
    · next hok =>
      obtain rfl := Option.some.inj hstep
      by_cases hij : i = j
      · subst hij
        exact (h i hi).completed hi hok.2
      · exact (h i hi).congr (Function.update_of_ne hij _ _) (Function.update_of_ne hij _ _) rfl
    · cases hstep
  | release j =>
    rw [step] at hstep
    split at hstep
    · next hok =>
      obtain rfl := Option.some.inj hstep
      by_cases hij : i = j
      · subst hij
        exact (h i hi).freed hok.2
      · exact (h i hi).congr (Function.update_of_ne hij _ _) rfl (Function.update_of_ne hij _ _)
    · cases hstep

theorem run_numbered (s : EnvTable) {calls : List EnvCall}
    (hrun : Machine.run (step L) (start L s) calls = some x) : ∀ i < L.nenv, x.Numbered i :=
  Machine.run_induction (fun _ _ _ h hstep => step_numbered h hstep)
    (fun _ hi => numbered_start s hi) hrun

/-- `env_status` is free exactly in the slots whose environments are all released. -/
theorem run_status (s : EnvTable) {calls : List EnvCall}
    (hrun : Machine.run (step L) (start L s) calls = some x) (hi : i < L.nenv) :
    (x.table.envs i).envStatus = .free ↔ x.released i = (x.given i).length :=
  (run_numbered s hrun i hi).status

/-- What the ids of a run are. -/
structure IdsFresh (L : EnvLayout) (x : EnvLedger) : Prop where
  /-- Every id given is positive and names its slot. -/
  positive : ∀ i < L.nenv, ∀ id ∈ x.given i, 0 < id.toInt ∧ L.envx id = i
  /-- The ids of a slot differ within one round of generations. -/
  distinct : ∀ i < L.nenv, ∀ j k id, (x.given i)[j]? = some id → (x.given i)[k]? = some id →
    j ≤ k → k - j < generations → j = k
  /-- An environment that is not released is found by its id. -/
  live : ∀ i < L.nenv, ∀ k id, (x.given i)[k]? = some id → x.released i ≤ k →
    x.table.envid2env L id false = some (.ok, some i)
  /-- The id of a released environment is rejected, until its slot has been reused so often. -/
  stale : ∀ i < L.nenv, ∀ k id, (x.given i)[k]? = some id → k < x.released i →
    (x.given i).length - (k + 1) < generations →
      x.table.envid2env L id false = some (.badEnv, none)

/-- An id that a slot has been given is not zero, and is looked up in the slot. -/
theorem Numbered.envid2env_eq (h : x.Numbered i) (hi : i < L.nenv) {k : ℕ} {id : BitVec 32}
    (hk : (x.given i)[k]? = some id) : x.table.envid2env L id false =
      if (x.table.envs i).envStatus = .free ∨ (x.table.envs i).envId ≠ id
      then some (.badEnv, none) else some (.ok, some i) := by
  obtain rfl := h.given k id hk
  obtain ⟨hpos, henvx⟩ := EnvLayout.idAt_pos hi k
  have hne : idAt i k ≠ 0#32 := fun hzero => by
    rw [hzero] at hpos
    exact absurd hpos (by decide)
  simp [EnvTable.envid2env, hne, henvx]

/-- In every run from `env_init` the ids are fresh. -/
theorem ids_fresh (L : EnvLayout) (s : EnvTable) {calls : List EnvCall}
    (hrun : Machine.run (step L) (start L s) calls = some x) : IdsFresh L x := by
  have hnum := run_numbered s hrun
  refine ⟨fun i hi id hmem => ?_, fun i hi j k id hj hk hjk hlt => ?_,
    fun i hi k id hk hlive => ?_, fun i hi k id hk hgone hlt => ?_⟩
  · obtain ⟨k, hk⟩ := List.mem_iff_getElem?.1 hmem
    rw [(hnum i hi).given k id hk]
    exact EnvLayout.idAt_pos hi k
  · have heq := ((hnum i hi).given j id hj).symm.trans ((hnum i hi).given k id hk)
    exact EnvLayout.idAt_inj hi hjk hlt heq
  · obtain ⟨hk', -⟩ := List.getElem?_eq_some_iff.1 hk
    have hle := (hnum i hi).le_released
    have hlast : (x.given i).length - 1 = k := by omega
    have hid := (hnum i hi).last
    rw [if_neg (by omega), hlast, ← (hnum i hi).given k id hk] at hid
    rw [(hnum i hi).envid2env_eq hi hk, if_neg]
    refine not_or.2 ⟨fun hfree => ?_, not_not.2 hid⟩
    have hall := (hnum i hi).status.1 hfree
    omega
  · rw [(hnum i hi).envid2env_eq hi hk, if_pos]
    refine or_iff_not_imp_left.2 fun hlive => ?_
    have hne : x.released i ≠ (x.given i).length := fun hall => hlive ((hnum i hi).status.2 hall)
    have hle := (hnum i hi).released_le
    -- the slot has had another id since
    obtain rfl := (hnum i hi).given k id hk
    rw [(hnum i hi).last, if_neg (by omega)]
    intro heq
    have hkk := EnvLayout.idAt_inj hi (by omega) (by omega) heq.symm
    omega

/-- Two slots. -/
def twoEnvs : EnvLayout where
  logNenv := 1
  logNenv_le := by decide
  vpt := 0xEFC00000
  uvpt := 0xEF400000
  gdUd := 0x20#16
  gdUt := 0x18#16
  ustackTop := 0xEEBFE000#32

/-- The environments before `env_init`. -/
def noEnvs : EnvTable where
  envs _ := ⟨⟨0#16, 0#16, 0#16, 0#32, 0#16, 0#32⟩, 0#32, 0#32, .free, 0#32, fun _ => 0#32, 0#32⟩
  envFreeList := []
  curenv := none

theorem twoEnvs_fresh : ∃ x, Machine.run (step twoEnvs) (start twoEnvs noEnvs)
      [.complete 1, .release 1, .complete 1] = some x ∧
    x.given 1 = [0x1001#32, 0x2001#32] ∧ x.released 1 = 1 ∧ IdsFresh twoEnvs x := by
  have hgiven : (Machine.run (step twoEnvs) (start twoEnvs noEnvs)
      [.complete 1, .release 1, .complete 1]).map (fun x => (x.given 1, x.released 1)) =
        some ([0x1001#32, 0x2001#32], 1) := by
    decide
  obtain ⟨x, hx, hids⟩ := Option.map_eq_some_iff.1 hgiven
  obtain ⟨hids, hreleased⟩ := Prod.mk.inj hids
  exact ⟨x, hx, hids, hreleased, ids_fresh twoEnvs noEnvs hx⟩

end EnvLedger

end FosKernel
