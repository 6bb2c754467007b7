import FosKernel.RingBuffer

/-!
# Console input

`cons_intr` puts the characters of a device into the ring of `kern/console.c`, and `cons_getc`
takes one from it, after it has polled both devices. `ConsoleLedger` adds the non-zero characters
that were delivered and those that were returned, and `Faithful` is what a queue owes its readers.

`cons_intr` never looks at the read position. `faithful_iff_hasRoom` : the console is faithful, at
every point of a run and to whoever reads it dry from there, exactly when at every step less than
`CONSBUFSIZE` characters wait. With as many the positions are equal, `cons_getc` returns 0, and
all of them are lost (`Lost`).
-/

namespace FosKernel

/-- `CONSBUFSIZE`. -/
def consBufSize : ℕ :=
  512

/-- The `cons` of `kern/console.c`. -/
abbrev Cons :=
  RingBuffer (BitVec 8)

/-- `cons_intr`, where `proc` returns the characters of the list and then -1. -/
def consIntr (cons : Cons) : List (BitVec 8) → Cons
  | [] => cons
  | c :: input => if c = 0 then consIntr cons input else consIntr (cons.put consBufSize c) input

/-- `kbd_intr`. -/
def kbdIntr (cons : Cons) (input : List (BitVec 8)) : Cons :=
  consIntr cons input

variable (serialExists : Bool)

/-- `serial_intr`. -/
def serialIntr (cons : Cons) (input : List (BitVec 8)) : Cons :=
  if serialExists then consIntr cons input else cons

/-- `cons_getc`, when the devices have `serial` and `kbd` pending. -/
def consGetc (cons : Cons) (serial kbd : List (BitVec 8)) : BitVec 8 × Cons :=
  let cons := serialIntr serialExists cons serial
  let cons := kbdIntr cons kbd
  match cons.get? consBufSize with
  | some (c, cons) => (c, cons)
  | none => (0, cons)

/-- What happens to the console. -/
inductive ConsoleEvent where
  | serialIntr (input : List (BitVec 8))
  | kbdIntr (input : List (BitVec 8))
  | consGetc (serial kbd : List (BitVec 8))

/-- The characters of the input that are not zero. -/
def nonzero (input : List (BitVec 8)) : List (BitVec 8) :=
  input.filter (· ≠ 0)

namespace ConsoleEvent

/-- The non-zero characters that an event delivers. -/
def received : ConsoleEvent → List (BitVec 8)
  | serialIntr input => if serialExists then nonzero input else []
  | kbdIntr input => nonzero input
  | consGetc serial kbd => (if serialExists then nonzero serial else []) ++ nonzero kbd

/-- The number of characters that an event asks for. -/
def asked : ConsoleEvent → ℕ
  | consGetc _ _ => 1
  | _ => 0

/-- `n` characters wait before the events : fewer than `CONSBUFSIZE` wait after each delivery. -/
def HasRoom : ℕ → List ConsoleEvent → Prop
  | _, [] => True
  | n, e :: events =>
    n + (e.received serialExists).length < consBufSize ∧
      HasRoom (n + (e.received serialExists).length - e.asked) events

end ConsoleEvent

/-- The console and what has gone through it. -/
structure ConsoleLedger where
  cons : Cons
  delivered : List (BitVec 8)
  returned : List (BitVec 8)
  /-- The last event was a call that returned 0. -/
  emptied : Bool

namespace ConsoleLedger

/-- The console at boot, when `cons` is zero. -/
def boot : ConsoleLedger where
  cons := { buf := fun _ => 0, rpos := 0, wpos := 0 }
  delivered := []
  returned := []
  emptied := false

/-- One event. -/
def step (s : ConsoleLedger) (e : ConsoleEvent) : ConsoleLedger :=
  match e with
  | .serialIntr input =>
    { cons := serialIntr serialExists s.cons input
      delivered := s.delivered ++ e.received serialExists
      returned := s.returned
      emptied := false }
  | .kbdIntr input =>
    { cons := kbdIntr s.cons input
      delivered := s.delivered ++ e.received serialExists
      returned := s.returned
      emptied := false }
  | .consGetc serial kbd =>
    let r := consGetc serialExists s.cons serial kbd
    { cons := r.2
      delivered := s.delivered ++ e.received serialExists
      returned := s.returned ++ nonzero [r.1]
      emptied := r.1 = 0 }

/-- A run of events. -/
def run (events : List ConsoleEvent) : ConsoleLedger :=
  events.foldl (step serialExists) boot

/-- Calls of `cons_getc` while the devices are silent. -/
def silentCalls (n : ℕ) : List ConsoleEvent :=
  List.replicate n (.consGetc [] [])

/-- The positions are inside the buffer, what is returned is what was delivered first, in that
order, and 0 says that all of it was returned. -/
structure Faithful (s : ConsoleLedger) : Prop where
  rpos_lt : s.cons.rpos < consBufSize
  wpos_lt : s.cons.wpos < consBufSize
  in_order : s.returned <+: s.delivered
  emptied_all : s.emptied = true → s.returned = s.delivered

/-! ## Deliveries and takes -/

/-- Deliver non-zero characters. -/
def deliver (s : ConsoleLedger) (l : List (BitVec 8)) : ConsoleLedger where
  cons := s.cons.putAll consBufSize l
  delivered := s.delivered ++ l
  returned := s.returned
  emptied := false

/-- Take a character. -/
def take (s : ConsoleLedger) : ConsoleLedger :=
  match s.cons.get? consBufSize with
  | some (c, cons) =>
    { s with cons := cons, returned := s.returned ++ nonzero [c], emptied := c = 0 }
  | none => { s with emptied := true }

variable {serialExists} {s : ConsoleLedger} {l : List (BitVec 8)} {n : ℕ}

theorem consIntr_eq (cons : Cons) (input : List (BitVec 8)) :
    consIntr cons input = cons.putAll consBufSize (nonzero input) := by
  induction input generalizing cons with
  | nil => rfl
  | cons c input ih =>
    unfold consIntr nonzero
    split_ifs with hc
    · rw [ih, List.filter_cons_of_neg (by simpa using hc)]
      rfl
    · rw [ih, List.filter_cons_of_pos (by simpa using hc)]
      rfl

theorem serialIntr_eq (cons : Cons) (input : List (BitVec 8)) :
    serialIntr serialExists cons input =
      cons.putAll consBufSize (if serialExists then nonzero input else []) := by
  unfold serialIntr
  split_ifs
  · exact consIntr_eq cons input
  · rfl

theorem putAll_append (cons : Cons) (l m : List (BitVec 8)) :
    cons.putAll consBufSize (l ++ m) = (cons.putAll consBufSize l).putAll consBufSize m :=
  List.foldl_append

theorem step_serialIntr (input : List (BitVec 8)) :
    s.step serialExists (.serialIntr input) =
      s.deliver ((ConsoleEvent.serialIntr input).received serialExists) := by
  simp only [step, deliver, serialIntr_eq, ConsoleEvent.received]

theorem step_kbdIntr (input : List (BitVec 8)) :
    s.step serialExists (.kbdIntr input) =
      s.deliver ((ConsoleEvent.kbdIntr input).received serialExists) := by
  simp only [step, deliver, kbdIntr, consIntr_eq, ConsoleEvent.received]

theorem step_consGetc (serial kbd : List (BitVec 8)) :
    s.step serialExists (.consGetc serial kbd) =
      (s.deliver ((ConsoleEvent.consGetc serial kbd).received serialExists)).take := by
  simp only [step, deliver, take, consGetc, kbdIntr, consIntr_eq, serialIntr_eq,
    ConsoleEvent.received, putAll_append]
  cases (((s.cons.putAll consBufSize (if serialExists then nonzero serial else [])).putAll
    consBufSize (nonzero kbd)).get? consBufSize) with
  | none => simp [nonzero]
  | some r => rfl

theorem take_deliver_nil : (s.deliver []).take = s.take := by
  unfold take deliver
  rw [RingBuffer.putAll_nil, List.append_nil]

theorem foldl_silentCalls (n : ℕ) :
    (silentCalls n).foldl (step serialExists) s = take^[n] s := by
  induction n generalizing s with
  | zero => rfl
  | succ n ih =>
    have hsilent : s.step serialExists (.consGetc [] []) = s.take := by
      have hnone : (ConsoleEvent.consGetc [] []).received serialExists = [] := by
        cases serialExists <;> rfl
      rw [step_consGetc, hnone, take_deliver_nil]
    rw [Function.iterate_succ_apply, ← ih, ← hsilent]
    rfl

/-! ## While there is room -/

/-- The characters of `q` wait. -/
structure Waits (s : ConsoleLedger) (q : List (BitVec 8)) : Prop where
  holds : s.cons.Holds consBufSize q
  delivered_eq : s.delivered = s.returned ++ q
  nonzero : ∀ c ∈ q, c ≠ 0
  emptied_nil : s.emptied = true → q = []

variable {q : List (BitVec 8)} {e : ConsoleEvent} {events : List ConsoleEvent}

theorem mem_nonzero {c : BitVec 8} {input : List (BitVec 8)} (h : c ∈ FosKernel.nonzero input) :
    c ≠ 0 := by
  simpa using (List.mem_filter.1 h).2

theorem ne_zero_of_mem_received {c : BitVec 8} (h : c ∈ e.received serialExists) : c ≠ 0 := by
  cases e with
  | serialIntr input =>
    unfold ConsoleEvent.received at h
    split_ifs at h
    · exact mem_nonzero h
    · cases h
  | kbdIntr input => exact mem_nonzero h
  | consGetc serial kbd =>
    unfold ConsoleEvent.received at h
    rcases List.mem_append.1 h with hserial | hkbd
    · split_ifs at hserial
      · exact mem_nonzero hserial
      · cases hserial
    · exact mem_nonzero hkbd

theorem waits_boot : boot.Waits [] where
  holds := ⟨by decide, by decide, rfl, fun i h => absurd h (Nat.not_lt_zero i)⟩
  delivered_eq := rfl
  nonzero := fun c h => absurd h List.not_mem_nil
  emptied_nil := fun _ => rfl

namespace Waits

theorem faithful (h : s.Waits q) : s.Faithful where
  rpos_lt := h.holds.rpos_lt
  wpos_lt := h.holds.wpos_lt
  in_order := ⟨q, h.delivered_eq.symm⟩
  emptied_all := by
    intro hemptied
    rw [h.delivered_eq, h.emptied_nil hemptied, List.append_nil]

theorem deliver (h : s.Waits q) (hl : ∀ c ∈ l, c ≠ 0) (hroom : q.length + l.length < consBufSize) :
    (s.deliver l).Waits (q ++ l) where
  holds := h.holds.putAll hroom
  delivered_eq := by rw [ConsoleLedger.deliver, h.delivered_eq, List.append_assoc]
  nonzero := fun c hc => (List.mem_append.1 hc).elim (h.nonzero c) (hl c)
  emptied_nil := fun hemptied => absurd hemptied Bool.false_ne_true

theorem take (h : s.Waits q) : s.take.Waits q.tail := by
  unfold ConsoleLedger.take
  cases q with
  | nil =>
    rw [h.holds.get?_nil]
    exact ⟨h.holds, h.delivered_eq, h.nonzero, fun _ => rfl⟩
  | cons c q =>
    obtain ⟨cons, hget, hholds⟩ := h.holds.get?_cons
    have hc : c ≠ 0 := h.nonzero c List.mem_cons_self
    rw [hget]
    refine ⟨hholds, ?_, fun c hc => h.nonzero c (List.mem_cons_of_mem _ hc), fun hzero => ?_⟩
    · have hkept : FosKernel.nonzero [c] = [c] := List.filter_cons_of_pos (by simpa using hc)
      dsimp only
      rw [h.delivered_eq, hkept, List.append_assoc]
      rfl
    · exact absurd (of_decide_eq_true hzero) hc

theorem iterate_take (h : s.Waits q) (n : ℕ) : ∃ q', (ConsoleLedger.take^[n] s).Waits q' := by
  induction n generalizing s q with
  | zero => exact ⟨q, h⟩
  | succ n ih => exact ih h.take

/-- With room for what it delivers, an event keeps what waits, less the character it takes. -/
theorem step (h : s.Waits q)
    (hroom : q.length + (e.received serialExists).length < consBufSize) :
    ∃ q', (s.step serialExists e).Waits q' ∧
      q'.length = q.length + (e.received serialExists).length - e.asked := by
  have hdeliver := h.deliver (fun c hc => ne_zero_of_mem_received hc) hroom
  cases e with
  | serialIntr input =>
    rw [step_serialIntr]
    exact ⟨_, hdeliver, List.length_append⟩
  | kbdIntr input =>
    rw [step_kbdIntr]
    exact ⟨_, hdeliver, List.length_append⟩
  | consGetc serial kbd =>
    rw [step_consGetc]
    refine ⟨_, hdeliver.take, ?_⟩
    rw [List.length_tail, List.length_append]
    rfl

theorem faithful_of_hasRoom (h : s.Waits q)
    (hroom : ConsoleEvent.HasRoom serialExists q.length events) {past rest : List ConsoleEvent}
    (hsplit : past ++ rest = events) (n : ℕ) :
    ((past ++ silentCalls n).foldl (ConsoleLedger.step serialExists) s).Faithful := by
  induction past generalizing s q events with
  | nil =>
    obtain ⟨q', hq'⟩ := h.iterate_take n
    rw [List.nil_append, foldl_silentCalls]
    exact hq'.faithful
  | cons e past ih =>
    subst hsplit
    obtain ⟨q', hq', hlen⟩ := h.step hroom.1
    exact ih hq' (hlen ▸ hroom.2) rfl

end Waits

/-! ## Without room -/

/-- The positions are `d` cells apart, and more than `d` characters were not returned. -/
structure Lost (s : ConsoleLedger) (d : ℕ) : Prop where
  rpos_lt : s.cons.rpos < consBufSize
  apart_lt : d < consBufSize
  wpos_eq : s.cons.wpos = (s.cons.rpos + d) % consBufSize
  short : s.returned.length + d < s.delivered.length

theorem Waits.lost_deliver (h : s.Waits q) (hfull : consBufSize ≤ q.length + l.length) :
    (s.deliver l).Lost ((q.length + l.length) % consBufSize) where
  rpos_lt := by
    rw [ConsoleLedger.deliver, RingBuffer.rpos_putAll]
    exact h.holds.rpos_lt
  apart_lt := Nat.mod_lt _ (by decide)
  wpos_eq := by
    rw [ConsoleLedger.deliver, RingBuffer.wpos_putAll h.holds.wpos_lt, RingBuffer.rpos_putAll,
      h.holds.wpos_eq, Nat.mod_add_mod, Nat.add_mod_mod, Nat.add_assoc]
  short := by
    have hlen := congrArg List.length h.delivered_eq
    have hmod := Nat.mod_lt (q.length + l.length) (show 0 < consBufSize by decide)
    rw [List.length_append] at hlen
    change s.returned.length + _ < (s.delivered ++ l).length
    rw [List.length_append]
    omega

namespace Lost

variable {d : ℕ}

/-- A call returns 0 too early, or it brings the positions closer. -/
theorem take (h : s.Lost d) : ¬ s.take.Faithful ∨ ∃ d', d = d' + 1 ∧ s.take.Lost d' := by
  have hshort := h.short
  cases d with
  | zero =>
    left
    intro hfaithful
    have hempty : s.cons.get? consBufSize = none := by
      have heq := h.wpos_eq
      rw [Nat.add_zero, Nat.mod_eq_of_lt h.rpos_lt] at heq
      rw [RingBuffer.get?, if_neg (not_not.2 heq.symm)]
    unfold ConsoleLedger.take at hfaithful
    rw [hempty] at hfaithful
    have hall := congrArg List.length (hfaithful.emptied_all rfl)
    dsimp only at hall
    omega
  | succ d =>
    have hne : s.cons.rpos ≠ s.cons.wpos := by
      intro heq
      refine RingBuffer.add_mod_ne (p := s.cons.rpos) (Nat.succ_pos d) h.apart_lt ?_
      rw [← h.wpos_eq, Nat.add_zero, Nat.mod_eq_of_lt h.rpos_lt, heq]
    have hget : s.cons.get? consBufSize = some (s.cons.buf s.cons.rpos,
        { s.cons with rpos := RingBuffer.next consBufSize s.cons.rpos }) := if_pos hne
    unfold ConsoleLedger.take
    rw [hget]
    have hone : (nonzero [s.cons.buf s.cons.rpos]).length ≤ 1 := List.length_filter_le _ _
    refine Or.inr ⟨d, rfl, RingBuffer.next_lt h.rpos_lt, by have := h.apart_lt; omega, ?_, ?_⟩
    · change s.cons.wpos = (RingBuffer.next consBufSize s.cons.rpos + d) % consBufSize
      rw [h.wpos_eq, RingBuffer.next_eq_mod h.rpos_lt, Nat.mod_add_mod]
      congr 1
      omega
    · rw [List.length_append]
      dsimp only
      omega

/-- Reading the console dry shows the loss. -/
theorem exists_unfaithful (h : s.Lost d) : ∃ n, ¬ (ConsoleLedger.take^[n] s).Faithful := by
  induction d generalizing s with
  | zero =>
    rcases h.take with hbad | ⟨d', hd', -⟩
    · exact ⟨1, hbad⟩
    · cases hd'
  | succ d ih =>
    rcases h.take with hbad | ⟨d', hd', hlost⟩
    · exact ⟨1, hbad⟩
    · obtain rfl : d = d' := Nat.succ.inj hd'
      obtain ⟨n, hn⟩ := ih hlost
      exact ⟨n + 1, hn⟩

end Lost

/-- Without room for what an event delivers, the reader who goes on from there is not served. -/
theorem Waits.exists_unfaithful_step (h : s.Waits q)
    (hfull : consBufSize ≤ q.length + (e.received serialExists).length) :
    ∃ n, ¬ (ConsoleLedger.take^[n] (s.step serialExists e)).Faithful := by
  have hlost := h.lost_deliver hfull
  cases e with
  | serialIntr input =>
    rw [step_serialIntr]
    exact hlost.exists_unfaithful
  | kbdIntr input =>
    rw [step_kbdIntr]
    exact hlost.exists_unfaithful
  | consGetc serial kbd =>
    rw [step_consGetc]
    rcases hlost.take with hbad | ⟨d, -, htaken⟩
    · exact ⟨0, hbad⟩
    · exact htaken.exists_unfaithful

theorem Waits.hasRoom_of_faithful (h : s.Waits q)
    (hfaithful : ∀ past rest, past ++ rest = events → ∀ n,
      ((past ++ silentCalls n).foldl (ConsoleLedger.step serialExists) s).Faithful) :
    ConsoleEvent.HasRoom serialExists q.length events := by
  induction events generalizing s q with
  | nil => trivial
  | cons e events ih =>
    have hlt : q.length + (e.received serialExists).length < consBufSize := by
      by_contra hfull
      obtain ⟨n, hn⟩ := h.exists_unfaithful_step (Nat.not_lt.1 hfull)
      refine hn ?_
      rw [← @foldl_silentCalls serialExists]
      exact hfaithful [e] events rfl n
    obtain ⟨q', hq', hlen⟩ := h.step hlt
    refine ⟨hlt, ?_⟩
    rw [← hlen]
    exact ih hq' fun past rest hsplit n => hfaithful (e :: past) rest (congrArg (e :: ·) hsplit) n

/-- In a run from boot, the console is faithful at every point, and to whoever calls `cons_getc`
from there while the devices are silent, if and only if fewer than `CONSBUFSIZE` characters wait
after every delivery. -/
theorem faithful_iff_hasRoom (serialExists : Bool) (events : List ConsoleEvent) :
    ConsoleEvent.HasRoom serialExists 0 events ↔
      ∀ past rest, past ++ rest = events → ∀ n,
        (run serialExists (past ++ silentCalls n)).Faithful :=
  ⟨fun hroom _ _ hsplit n => waits_boot.faithful_of_hasRoom hroom hsplit n,
    fun hfaithful => waits_boot.hasRoom_of_faithful hfaithful⟩

/-- After `CONSBUFSIZE` characters from the keyboard, the first call returns 0. -/
theorem full_counterexample :
    ¬ (run false [.kbdIntr (List.replicate consBufSize 97#8), .consGetc [] []]).Faithful := by
  have hlen : ([] : List (BitVec 8)).length + (List.replicate consBufSize 97#8).length =
      consBufSize := by
    rw [List.length_nil, List.length_replicate, Nat.zero_add]
  have hlost := waits_boot.lost_deliver hlen.ge
  rw [hlen, Nat.mod_self] at hlost
  have hkept : FosKernel.nonzero (List.replicate consBufSize 97#8) =
      List.replicate consBufSize 97#8 :=
    List.filter_replicate_of_pos (by decide)
  have hrun : run false [.kbdIntr (List.replicate consBufSize 97#8), .consGetc [] []] =
      (boot.deliver (List.replicate consBufSize 97#8)).take := by
    rw [run, List.foldl_cons, List.foldl_cons, List.foldl_nil, step_kbdIntr, step_consGetc]
    simp only [ConsoleEvent.received, hkept]
    exact take_deliver_nil
  rw [hrun]
  rcases hlost.take with hbad | ⟨d, hd, -⟩
  · exact hbad
  · cases hd

end ConsoleLedger

end FosKernel
