import FosKernel.ConsoleInput

/-!
# The keyboard

`kbd_proc_data` of `kern/console.c` takes the scan codes of the keyboard one by one, and keeps in
one word which modifiers are down, which locks are on, and whether the last code was the escape
`0xE0`. What it is for is said of key events : `keyEvents` reads the scan codes as presses and
releases of keys, and `typed` is what such events type, with a modifier down since its last event
was a press, and a lock on after an odd number of presses.

`kbdRun_eq_typed` : the characters of any scan codes are those that their key events type.
`run_typed` : what `cons_getc` returns of a keyboard is what was typed, in order.

The values of the special keys, in a header that is not with the sources, are a parameter.
-/

namespace FosKernel

/-! ## The code -/

/-- The `KEY_` constants. -/
structure KeyCodes where
  keyHome : BitVec 8
  keyUp : BitVec 8
  keyPgup : BitVec 8
  keyLf : BitVec 8
  keyRt : BitVec 8
  keyEnd : BitVec 8
  keyDn : BitVec 8
  keyPgdn : BitVec 8
  keyIns : BitVec 8
  keyDel : BitVec 8

namespace Keyboard

/-- `SHIFT`. -/
def Bit.shift : BitVec 32 := 1#32
/-- `CTL`. -/
def Bit.ctl : BitVec 32 := 2#32
/-- `ALT`. -/
def Bit.alt : BitVec 32 := 4#32
/-- `CAPSLOCK`. -/
def Bit.capslock : BitVec 32 := 8#32
/-- `NUMLOCK`. -/
def Bit.numlock : BitVec 32 := 16#32
/-- `SCROLLLOCK`. -/
def Bit.scrolllock : BitVec 32 := 32#32
/-- `E0ESC`. -/
def Bit.e0esc : BitVec 32 := 64#32

/-- `shiftcode[data]`. -/
def shiftcode (data : BitVec 8) : BitVec 32 :=
  match data.toNat with
  | 0x1D => Bit.ctl
  | 0x2A => Bit.shift
  | 0x36 => Bit.shift
  | 0x38 => Bit.alt
  | 0x9D => Bit.ctl
  | 0xB8 => Bit.alt
  | _ => 0#32

/-- `togglecode[data]`. -/
def togglecode (data : BitVec 8) : BitVec 32 :=
  match data.toNat with
  | 0x3A => Bit.capslock
  | 0x45 => Bit.numlock
  | 0x46 => Bit.scrolllock
  | _ => 0#32

/-- The character constants of a row of a map. -/
def chars (s : List Char) : List (BitVec 8) :=
  s.map fun c => BitVec.ofNat 8 c.toNat

/-- The rows of `normalmap`. -/
def normalRows : List (BitVec 8) :=
  [0, 0x1B] ++ chars ['1', '2', '3', '4', '5', '6', '7', '8', '9', '0', '-', '='] ++
    [8, 9] ++ chars ['q', 'w', 'e', 'r', 't', 'y', 'u', 'i', 'o', 'p', '[', ']'] ++
    [10, 0] ++ chars ['a', 's', 'd', 'f', 'g', 'h', 'j', 'k', 'l', ';'] ++ [0x27, 0x60] ++
    [0] ++ [0x5C] ++ chars ['z', 'x', 'c', 'v', 'b', 'n', 'm', ',', '.', '/'] ++
    [0] ++ chars ['*'] ++ [0] ++ chars [' '] ++ List.replicate 13 0 ++
    chars ['7', '8', '9', '-', '4', '5', '6', '+', '1', '2', '3', '0', '.'] ++ [0, 0, 0, 0]

/-- The rows of `shiftmap`. -/
def shiftRows : List (BitVec 8) :=
  [0, 0x1B] ++ chars ['!', '@', '#', '$', '%', '^', '&', '*', '(', ')', '_', '+'] ++
    [8, 9] ++ chars ['Q', 'W', 'E', 'R', 'T', 'Y', 'U', 'I', 'O', 'P'] ++ [0x7B, 0x7D] ++
    [10, 0] ++ chars ['A', 'S', 'D', 'F', 'G', 'H', 'J', 'K', 'L', ':'] ++ [0x22] ++ chars ['~'] ++
    [0] ++ chars ['|', 'Z', 'X', 'C', 'V', 'B', 'N', 'M', '<', '>', '?'] ++
    [0] ++ chars ['*'] ++ [0] ++ chars [' '] ++ List.replicate 13 0 ++
    chars ['7', '8', '9', '-', '4', '5', '6', '+', '1', '2', '3', '0', '.'] ++ [0, 0, 0, 0]

/-- `C(x)`. -/
def control (s : List Char) : List (BitVec 8) :=
  (chars s).map fun c => c - 0x40#8

/-- The rows of `ctlmap`. -/
def ctlRows : List (BitVec 8) :=
  List.replicate 16 0 ++ control ['Q', 'W', 'E', 'R', 'T', 'Y', 'U', 'I', 'O', 'P'] ++
    [0, 0, 13, 0] ++ control ['A', 'S', 'D', 'F', 'G', 'H', 'J', 'K', 'L'] ++ [0, 0, 0, 0] ++
    [0x1C] ++ control ['Z', 'X', 'C', 'V', 'B', 'N', 'M'] ++ [0, 0] ++ control ['/'] ++ [0, 0]

variable (K : KeyCodes)

/-- The initializers of a map that have an index, with the ones in which the maps differ. -/
def extended (kpEnter kpDiv data : BitVec 8) : BitVec 8 :=
  match data.toNat with
  | 0x97 => K.keyHome
  | 0x9C => kpEnter
  | 0xB5 => kpDiv
  | 0xC8 => K.keyUp
  | 0xC9 => K.keyPgup
  | 0xCB => K.keyLf
  | 0xCD => K.keyRt
  | 0xCF => K.keyEnd
  | 0xD0 => K.keyDn
  | 0xD1 => K.keyPgdn
  | 0xD2 => K.keyIns
  | 0xD3 => K.keyDel
  | _ => 0#8

/-- `normalmap[data]`. -/
def normalmap (data : BitVec 8) : BitVec 8 :=
  normalRows.getD data.toNat (extended K 10#8 0x2F#8 data)

/-- `shiftmap[data]`. -/
def shiftmap (data : BitVec 8) : BitVec 8 :=
  shiftRows.getD data.toNat (extended K 10#8 0x2F#8 data)

/-- `ctlmap[data]`. -/
def ctlmap (data : BitVec 8) : BitVec 8 :=
  ctlRows.getD data.toNat (extended K 0#8 (0x2F#8 - 0x40#8) data)

/-- `charcode[i][data]`. -/
def charcode (i : BitVec 32) (data : BitVec 8) : BitVec 8 :=
  if i = 0#32 then normalmap K data else if i = 1#32 then shiftmap K data else ctlmap K data

/-- What `CAPSLOCK` makes of a character. -/
def swapCase (c : BitVec 8) : BitVec 8 :=
  if 0x61#8 ≤ c ∧ c ≤ 0x7A#8 then c - 0x20#8
  else if 0x41#8 ≤ c ∧ c ≤ 0x5A#8 then c + 0x20#8 else c

/-- The end of `kbd_proc_data`, for the press of a key : the character, and whether it is to
reboot. -/
def pressed (shift : BitVec 32) (data : BitVec 8) : BitVec 8 × Bool :=
  let c := charcode K (shift &&& (Bit.ctl ||| Bit.shift)) data
  let c := if shift &&& Bit.capslock ≠ 0#32 then swapCase c else c
  (c, ~~~shift &&& (Bit.ctl ||| Bit.alt) = 0#32 ∧ c = K.keyDel)

/-- `kbd_proc_data`, with `data` in the keyboard's register : what it returns, whether it reboots,
and `shift` after. -/
def kbdProcData (shift : BitVec 32) (data : BitVec 8) : (BitVec 8 × Bool) × BitVec 32 :=
  if data = 0xE0#8 then ((0#8, false), shift ||| Bit.e0esc)
  else if data &&& 0x80#8 ≠ 0#8 then
    let data := if shift &&& Bit.e0esc ≠ 0#32 then data else data &&& 0x7F#8
    ((0#8, false), shift &&& ~~~(shiftcode data ||| Bit.e0esc))
  else
    let escaped := shift &&& Bit.e0esc ≠ 0#32
    let data := if escaped then data ||| 0x80#8 else data
    let shift := if escaped then shift &&& ~~~Bit.e0esc else shift
    let shift := (shift ||| shiftcode data) ^^^ togglecode data
    (pressed K shift data, shift)

/-- `kbd_proc_data` until there is no data : what the calls return, and `shift` after. -/
def kbdRun : BitVec 32 → List (BitVec 8) → List (BitVec 8 × Bool) × BitVec 32
  | shift, [] => ([], shift)
  | shift, data :: codes =>
    let r := kbdProcData K shift data
    let rest := kbdRun r.2 codes
    (r.1 :: rest.1, rest.2)

/-! ## Key events -/

/-- A key goes down, or comes up. -/
inductive KeyEvent where
  | press (key : BitVec 8)
  | release (key : BitVec 8)
  deriving DecidableEq

/-- The key events of the scan codes, after an escape or not. A key that is sent with an escape
has bit 7 set. -/
def keyEvents : Bool → List (BitVec 8) → List KeyEvent
  | _, [] => []
  | escaped, code :: codes =>
    if code = 0xE0#8 then keyEvents true codes
    else if code &&& 0x80#8 ≠ 0#8 then
      .release (if escaped then code else code &&& 0x7F#8) :: keyEvents false codes
    else .press (if escaped then code ||| 0x80#8 else code) :: keyEvents false codes

/-- Modifier `m` is down : the last event of one of its keys was a press. The events are the
newest first. -/
def down (m : BitVec 32) : List KeyEvent → Bool
  | [] => false
  | .press key :: past => shiftcode key = m ∨ down m past
  | .release key :: past => shiftcode key ≠ m ∧ down m past

/-- Lock `l` is on : its key was pressed an odd number of times. -/
def locked (l : BitVec 32) : List KeyEvent → Bool
  | [] => false
  | .press key :: past => (togglecode key = l) ≠ locked l past
  | .release _ :: past => locked l past

/-- The character of a key. -/
def charOf (shift ctl caps : Bool) (key : BitVec 8) : BitVec 8 :=
  let c := if ctl then ctlmap K key else if shift then shiftmap K key else normalmap K key
  if caps then swapCase c else c

/-- What the press of the last event types, and whether it is Ctrl-Alt-Del. -/
def typedBy (now : List KeyEvent) (key : BitVec 8) : BitVec 8 × Bool :=
  let c := charOf K (down Bit.shift now) (down Bit.ctl now) (locked Bit.capslock now) key
  (c, down Bit.ctl now ∧ down Bit.alt now ∧ c = K.keyDel)

/-- What the events type, after those of `past`. -/
def typed : List KeyEvent → List KeyEvent → List (BitVec 8 × Bool)
  | _, [] => []
  | past, .release key :: events => typed (.release key :: past) events
  | past, .press key :: events =>
    typedBy K (.press key :: past) key :: typed (.press key :: past) events

/-! ## The word of modifiers and locks -/

/-- The word with these modifiers down, and these locks on. -/
def bits (shift ctl alt caps num scroll escaped : Bool) : BitVec 32 :=
  (if shift then Bit.shift else 0#32) ||| (if ctl then Bit.ctl else 0#32) |||
    (if alt then Bit.alt else 0#32) ||| (if caps then Bit.capslock else 0#32) |||
    (if num then Bit.numlock else 0#32) ||| (if scroll then Bit.scrolllock else 0#32) |||
    (if escaped then Bit.e0esc else 0#32)

/-- The word after the events of `past`, and an escape or not. -/
def wordOf (escaped : Bool) (past : List KeyEvent) : BitVec 32 :=
  bits (down Bit.shift past) (down Bit.ctl past) (down Bit.alt past) (locked Bit.capslock past)
    (locked Bit.numlock past) (locked Bit.scrolllock past) escaped

variable {K} {s c a p n r e : Bool} {m l : BitVec 32} {code : BitVec 8}

theorem shiftcode_cases (key : BitVec 8) : shiftcode key = 0#32 ∨ shiftcode key = Bit.shift ∨
    shiftcode key = Bit.ctl ∨ shiftcode key = Bit.alt := by
  unfold shiftcode
  split <;> simp

theorem togglecode_cases (key : BitVec 8) : togglecode key = 0#32 ∨
    togglecode key = Bit.capslock ∨ togglecode key = Bit.numlock ∨
    togglecode key = Bit.scrolllock := by
  unfold togglecode
  split <;> simp

theorem bits_escape : bits s c a p n r e ||| Bit.e0esc = bits s c a p n r true := by
  revert s c a p n r e
  decide

theorem bits_unescape : bits s c a p n r e &&& ~~~Bit.e0esc = bits s c a p n r false := by
  revert s c a p n r e
  decide

theorem bits_escaped : bits s c a p n r e &&& Bit.e0esc ≠ 0#32 ↔ e = true := by
  revert s c a p n r e
  decide

theorem bits_release (hm : m = 0#32 ∨ m = Bit.shift ∨ m = Bit.ctl ∨ m = Bit.alt) :
    bits s c a p n r e &&& ~~~(m ||| Bit.e0esc) =
      bits (m ≠ Bit.shift ∧ s) (m ≠ Bit.ctl ∧ c) (m ≠ Bit.alt ∧ a) p n r false := by
  revert s c a p n r e
  rcases hm with rfl | rfl | rfl | rfl <;> decide

theorem bits_press (hm : m = 0#32 ∨ m = Bit.shift ∨ m = Bit.ctl ∨ m = Bit.alt) :
    bits s c a p n r false ||| m =
      bits (m = Bit.shift ∨ s) (m = Bit.ctl ∨ c) (m = Bit.alt ∨ a) p n r false := by
  revert s c a p n r
  rcases hm with rfl | rfl | rfl | rfl <;> decide

theorem bits_toggle (hl : l = 0#32 ∨ l = Bit.capslock ∨ l = Bit.numlock ∨ l = Bit.scrolllock) :
    bits s c a p n r e ^^^ l =
      bits s c a ((l = Bit.capslock) ≠ p) ((l = Bit.numlock) ≠ n) ((l = Bit.scrolllock) ≠ r) e := by
  revert s c a p n r e
  rcases hl with rfl | rfl | rfl | rfl <;> decide

theorem bits_map (key : BitVec 8) :
    charcode K (bits s c a p n r e &&& (Bit.ctl ||| Bit.shift)) key =
      if c then ctlmap K key else if s then shiftmap K key else normalmap K key := by
  have hand : bits s c a p n r e &&& (Bit.ctl ||| Bit.shift) =
      (if c then Bit.ctl else 0#32) ||| (if s then Bit.shift else 0#32) := by
    revert s c a p n r e
    decide
  rw [hand]
  cases c <;> cases s <;> rfl

theorem bits_caps : bits s c a p n r e &&& Bit.capslock ≠ 0#32 ↔ p = true := by
  revert s c a p n r e
  decide

theorem bits_reboot :
    ~~~(bits s c a p n r e) &&& (Bit.ctl ||| Bit.alt) = 0#32 ↔ c = true ∧ a = true := by
  revert s c a p n r e
  decide

/-! ## One scan code -/

variable {past : List KeyEvent}

theorem kbdProcData_escape :
    kbdProcData K (wordOf e past) 0xE0#8 = ((0#8, false), wordOf true past) := by
  unfold kbdProcData wordOf
  rw [if_pos rfl, bits_escape]

theorem kbdProcData_release (h0 : code ≠ 0xE0#8) (h7 : code &&& 0x80#8 ≠ 0#8) :
    kbdProcData K (wordOf e past) code =
      ((0#8, false), wordOf false (.release (if e then code else code &&& 0x7F#8) :: past)) := by
  unfold kbdProcData wordOf
  rw [if_neg h0, if_pos h7]
  simp only [bits_escaped]
  rw [bits_release (shiftcode_cases _)]
  rfl

theorem pressed_eq (now : List KeyEvent) (key : BitVec 8) :
    pressed K (wordOf e now) key = typedBy K now key := by
  unfold pressed typedBy wordOf charOf
  simp only [bits_map, bits_caps, bits_reboot, and_assoc]

theorem wordOf_escaped : wordOf e past &&& Bit.e0esc ≠ 0#32 ↔ e = true :=
  bits_escaped

theorem wordOf_unescape :
    (if e then wordOf e past &&& ~~~Bit.e0esc else wordOf e past) = wordOf false past := by
  cases e with
  | false => rfl
  | true => exact bits_unescape

theorem wordOf_press (key : BitVec 8) :
    (wordOf false past ||| shiftcode key) ^^^ togglecode key =
      wordOf false (.press key :: past) := by
  rw [wordOf, bits_press (shiftcode_cases key), bits_toggle (togglecode_cases key)]
  rfl

theorem kbdProcData_press (h0 : code ≠ 0xE0#8) (h7 : ¬ code &&& 0x80#8 ≠ 0#8) :
    kbdProcData K (wordOf e past) code =
      (typedBy K (.press (if e then code ||| 0x80#8 else code) :: past)
          (if e then code ||| 0x80#8 else code),
        wordOf false (.press (if e then code ||| 0x80#8 else code) :: past)) := by
  rw [kbdProcData, if_neg h0, if_neg h7]
  simp only [wordOf_escaped, wordOf_unescape, wordOf_press, pressed_eq]

/-! ## All of them -/

/-- What the calls return that is a character, or reboots. -/
def effects (out : List (BitVec 8 × Bool)) : List (BitVec 8 × Bool) :=
  out.filter (· ≠ (0#8, false))

/-- What the keyboard types, with the word of what happened before, is what the key events type. -/
theorem kbdRun_eq_typed (K : KeyCodes) (escaped : Bool) (past : List KeyEvent)
    (codes : List (BitVec 8)) :
    effects (kbdRun K (wordOf escaped past) codes).1 =
      effects (typed K past (keyEvents escaped codes)) := by
  induction codes generalizing escaped past with
  | nil => rfl
  | cons code codes ih =>
    unfold kbdRun keyEvents
    dsimp only
    by_cases h0 : code = 0xE0#8
    · subst h0
      rw [kbdProcData_escape, if_pos rfl]
      exact ih true past
    · rw [if_neg h0]
      by_cases h7 : code &&& 0x80#8 ≠ 0#8
      · rw [kbdProcData_release h0 h7, if_pos h7]
        exact ih false _
      · rw [kbdProcData_press h0 h7, if_neg h7, typed]
        unfold effects at ih ⊢
        rw [List.filter_cons, List.filter_cons, ih false _]

theorem kbdRun_append (shift : BitVec 32) (codes codes' : List (BitVec 8)) :
    (kbdRun K shift (codes ++ codes')).1 =
      (kbdRun K shift codes).1 ++ (kbdRun K (kbdRun K shift codes).2 codes').1 := by
  induction codes generalizing shift with
  | nil => rfl
  | cons code codes ih =>
    rw [List.cons_append, kbdRun, kbdRun]
    dsimp only
    rw [ih, List.cons_append]

/-! ## The console of a keyboard -/

/-- What happens to a console without a serial port : the scan codes are those that the keyboard
has for `kbd_intr`. -/
inductive Use where
  | kbdIntr (codes : List (BitVec 8))
  | consGetc (codes : List (BitVec 8))

/-- The scan codes of a use. -/
def Use.codes : Use → List (BitVec 8)
  | kbdIntr codes => codes
  | consGetc codes => codes

/-- The characters that the calls return. -/
def input (out : List (BitVec 8 × Bool)) : List (BitVec 8) :=
  out.map Prod.fst

/-- The uses as events of the console, from the word `shift`. -/
def consoleEvents (K : KeyCodes) : BitVec 32 → List Use → List ConsoleEvent
  | _, [] => []
  | shift, .kbdIntr codes :: uses =>
    .kbdIntr (input (kbdRun K shift codes).1) :: consoleEvents K (kbdRun K shift codes).2 uses
  | shift, .consGetc codes :: uses =>
    .consGetc [] (input (kbdRun K shift codes).1) :: consoleEvents K (kbdRun K shift codes).2 uses

/-- All the scan codes. -/
def allCodes (uses : List Use) : List (BitVec 8) :=
  uses.flatMap Use.codes

variable {uses : List Use} {events : List ConsoleEvent}

theorem nonzero_append (l l' : List (BitVec 8)) : nonzero (l ++ l') = nonzero l ++ nonzero l' :=
  List.filter_append l l'

/-- The characters that are not zero are those of the effects. -/
theorem nonzero_input (out : List (BitVec 8 × Bool)) :
    nonzero (input out) = nonzero (input (effects out)) := by
  induction out with
  | nil => rfl
  | cons r out ih =>
    unfold effects
    by_cases hr : r = (0#8, false)
    · subst hr
      exact ih
    · rw [List.filter_cons_of_pos (by simpa using hr)]
      unfold input nonzero at ih ⊢
      rw [List.map_cons, List.map_cons, List.filter_cons, List.filter_cons, ih]
      rfl

theorem received_consoleEvents (shift : BitVec 32) :
    (consoleEvents K shift uses).flatMap (ConsoleEvent.received false) =
      nonzero (input (kbdRun K shift (allCodes uses)).1) := by
  induction uses generalizing shift with
  | nil => rfl
  | cons use uses ih =>
    unfold allCodes at ih ⊢
    rw [List.flatMap_cons, kbdRun_append, input, List.map_append, nonzero_append]
    cases use with
    | kbdIntr codes =>
      rw [consoleEvents, List.flatMap_cons, ih]
      rfl
    | consGetc codes =>
      rw [consoleEvents, List.flatMap_cons, ih]
      rfl

theorem delivered_run (s : ConsoleLedger) :
    (events.foldl (ConsoleLedger.step false) s).delivered =
      s.delivered ++ events.flatMap (ConsoleEvent.received false) := by
  induction events generalizing s with
  | nil => exact (List.append_nil _).symm
  | cons e events ih =>
    rw [List.foldl_cons, ih, List.flatMap_cons, ← List.append_assoc]
    cases e <;> rfl

theorem wordOf_boot : wordOf false [] = 0#32 := by
  decide

theorem delivered_eq_typed (K : KeyCodes) (uses : List Use) :
    (ConsoleLedger.run false (consoleEvents K 0#32 uses)).delivered =
      nonzero (input (typed K [] (keyEvents false (allCodes uses)))) := by
  rw [ConsoleLedger.run, delivered_run, received_consoleEvents, nonzero_input, ← wordOf_boot,
    kbdRun_eq_typed, ← nonzero_input]
  rfl

/-- A call reboots. -/
def reboots (out : List (BitVec 8 × Bool)) : Prop :=
  ∃ r ∈ out, r.2 = true

theorem reboots_effects (out : List (BitVec 8 × Bool)) :
    reboots (effects out) ↔ reboots out := by
  unfold reboots effects
  constructor
  · rintro ⟨r, hr, hreboot⟩
    exact ⟨r, (List.mem_filter.1 hr).1, hreboot⟩
  · rintro ⟨r, hr, hreboot⟩
    refine ⟨r, List.mem_filter.2 ⟨hr, ?_⟩, hreboot⟩
    have hne : r ≠ (0#8, false) := by
      rintro rfl
      exact Bool.false_ne_true hreboot
    simpa using hne

/-- While fewer than `CONSBUFSIZE` characters wait, the calls of `cons_getc` return what the keys
type, in the order of the keys, and 0 when all that was typed is returned. The machine reboots when
Ctrl-Alt-Del is typed, and not else. -/
theorem run_typed (K : KeyCodes) (uses : List Use)
    (hroom : ConsoleEvent.HasRoom false 0 (consoleEvents K 0#32 uses)) :
    let s := ConsoleLedger.run false (consoleEvents K 0#32 uses)
    let out := typed K [] (keyEvents false (allCodes uses))
    s.returned <+: nonzero (input out) ∧ (s.emptied = true → s.returned = nonzero (input out)) ∧
      (reboots (kbdRun K 0#32 (allCodes uses)).1 ↔ reboots out) := by
  have hfaithful := ConsoleLedger.waits_boot.faithful_of_hasRoom hroom (List.append_nil _) 0
  rw [ConsoleLedger.silentCalls, List.replicate_zero, List.append_nil] at hfaithful
  have hreboot := reboots_effects (kbdRun K 0#32 (allCodes uses)).1
  rw [← wordOf_boot, kbdRun_eq_typed, reboots_effects, wordOf_boot] at hreboot
  dsimp only
  rw [← delivered_eq_typed]
  exact ⟨hfaithful.in_order, hfaithful.emptied_all, hreboot.symm⟩

/-- A keyboard's values of the special keys. -/
def someKeys : KeyCodes where
  keyHome := 0xE0#8
  keyUp := 0xE2#8
  keyPgup := 0xE6#8
  keyLf := 0xE4#8
  keyRt := 0xE5#8
  keyEnd := 0xE1#8
  keyDn := 0xE3#8
  keyPgdn := 0xE7#8
  keyIns := 0xE8#8
  keyDel := 0xE9#8

/-- Shift down, the key of `a` twice with the release of shift between, and two calls. -/
def shiftThenPlain : List Use :=
  [.kbdIntr [0x2A#8, 0x1E#8, 0x9E#8], .consGetc [0xAA#8, 0x1E#8], .consGetc []]

theorem run_typed_shift :
    nonzero (input (typed someKeys [] (keyEvents false (allCodes shiftThenPlain)))) = [65#8, 97#8] ∧
      (ConsoleLedger.run false (consoleEvents someKeys 0#32 shiftThenPlain)).returned <+:
        nonzero (input (typed someKeys [] (keyEvents false (allCodes shiftThenPlain)))) := by
  refine ⟨by decide +kernel, (run_typed someKeys shiftThenPlain ?_).1⟩
  refine ⟨?_, ?_, ?_, trivial⟩ <;> decide +kernel

end Keyboard

end FosKernel
