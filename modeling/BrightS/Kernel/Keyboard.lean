/-
The keyboard and the input method: `drivers/ps2kbd.c` and `drivers/im.c`.

An interrupt hands over a scancode.  What it types goes to a ring of characters, or while the
input method is on to the method, whose choices are written to the terminal.  The tables of the
method are a parameter; what it draws is left out.

Some keys send a prefix byte first, so the driver remembers it until the next interrupt, along with
the keys that are held.  The terminal takes the characters out of the ring, and has a line of its
own in cooked mode.
-/
import BrightS.Kernel.Tty

namespace BrightS

open Bytes

/-! ### The input method

Letters are collected, and the tables give what they may stand for.  A choice is made by number, or
with the blank and the return key; the arrows move a selection that none of these asks for.
-/

def imMaxPinyin : Nat := 16
def imMaxCandidates : Nat := 10

/-- `pinyin_map`, a row without the empty strings behind its characters, and `common_chars`. -/
structure ImTables where
  pinyinMap : List (List Byte × List (List Byte))
  commonChars : List (List Byte)

/-- The state of the method: the letters so far, what they may stand for, and the choice. -/
structure Im where
  active : Bool
  pinyin : List Byte
  candidates : List (List Byte)
  selected : Nat
  deriving DecidableEq

/-- `brights_im_init`. -/
def imStart : Im := { active := false, pinyin := [], candidates := [], selected := 0 }

/-- A row fits when its name begins with what was typed, or the other way around. -/
def imMatches (pinyin name : List Byte) : Bool :=
  name != [] && name.head? == pinyin.head? && (name.zip pinyin).all fun c => c.1 == c.2

/-- The candidates for what was typed: those of the rows that fit, or else common characters. -/
def imSearch (tables : ImTables) (pinyin : List Byte) : List (List Byte) :=
  if pinyin = [] then [] else
  let found := (tables.pinyinMap.filter fun row => imMatches pinyin row.1).flatMap fun row =>
    (row.2.take 9).map (·.take 15)
  let candidates := found.take imMaxCandidates
  if candidates = [] ∧ 2 ≤ pinyin.length then (tables.commonChars.take 50).take imMaxCandidates
  else candidates

/-- The candidates are looked up anew, and the first one is selected. -/
def Im.search (tables : ImTables) (im : Im) : Im :=
  { im with candidates := imSearch tables im.pinyin, selected := 0 }

/-- What was typed is given up. -/
def Im.clear (im : Im) : Im := { im with pinyin := [], candidates := [], selected := 0 }

/-- The method is switched on or off; off, it forgets what was typed. -/
def Im.toggle (im : Im) : Im :=
  let im := { im with active := !im.active }
  if im.active = false then im.clear else im

/-- A small letter. -/
def isLower (ch : Byte) : Prop := 97 ≤ ch ∧ ch ≤ 122

instance (ch : Byte) : Decidable (isLower ch) := inferInstanceAs (Decidable (_ ∧ _))

/-- The last letter goes. -/
def Im.backspace (tables : ImTables) (im : Im) : Im :=
  if 0 < im.pinyin.length then
    let im := { im with pinyin := im.pinyin.dropLast }
    if 0 < im.pinyin.length then im.search tables else { im with candidates := [] }
  else im

/-- The keyboard calls it with small letters and digits only. -/
def Im.handleChar (tables : ImTables) (im : Im) (ch : Byte) : Im :=
  if im.active = false then im
  else if isLower ch then
    if im.pinyin.length < imMaxPinyin - 1 then
      { im with pinyin := im.pinyin ++ [ch] }.search tables
    else im
  else im

/-- The two keys that move the selection.  Without candidates they divide by zero. -/
def Im.handleSpecial (im : Im) (key : Nat) : Option Im :=
  if im.active = false then some im
  else if im.candidates.length = 0 then none
  else if key = 1 then
    some { im with selected := (im.selected + 1) % im.candidates.length }
  else some { im with
    selected := (im.selected + im.candidates.length - 1) % im.candidates.length }

/-- The method after a choice and what is written to the terminal. -/
def Im.selectCandidate (im : Im) (index : Nat) : Im × List Byte :=
  match im.candidates[index]? with
  | none => (im, [])
  | some text => (im.clear, text)

/-- The letters are written as they were typed. -/
def Im.commit (im : Im) : Im × List Byte := (im.clear, im.pinyin)

/-- `punc_table` -/
def puncTable : List (Byte × List Byte) :=
  [(46, [0xE3, 0x80, 0x82]), (44, [0xEF, 0xBC, 0x8C]), (58, [0xEF, 0xBC, 0x9A]),
   (59, [0xEF, 0xBC, 0x9B]), (39, [0xE2, 0x80, 0x98]), (34, [0xE2, 0x80, 0x9D]),
   (60, [0xE3, 0x80, 0x8A]), (62, [0xE3, 0x80, 0x8B]), (63, [0xEF, 0xBC, 0x9F]),
   (33, [0xEF, 0xBC, 0x81]), (40, [0xEF, 0xBC, 0x88]), (41, [0xEF, 0xBC, 0x89]),
   (91, [0xE3, 0x80, 0x90]), (93, [0xE3, 0x80, 0x91]), (45, [0xE2, 0x80, 0x94]),
   (47, [0xE3, 0x80, 0x81])]

/-- The character that takes the place of a punctuation mark, if there is one. -/
def imConvertPunc (ch : Byte) : List Byte := (puncTable.lookup ch).getD []

/-! ### The driver

The handler keeps the modifiers and the prefix bytes between interrupts.  Keys are looked up in
tables, in the order of the source.
-/

def kbdBufSize : Nat := 256

/-- The statics of the driver, the method, and what was written to the terminal so far. -/
structure Keyboard where
  shift : Bool
  ctrl : Bool
  alt : Bool
  capsLock : Bool
  extended : Bool
  extended2 : Bool
  buf : Nat → Byte
  head : Nat
  tail : Nat
  im : Im
  written : List Byte

/-- `brights_ps2kbd_init` behind `brights_im_init`; the ring keeps what is in it. -/
def keyboardStart (buf : Nat → Byte) : Keyboard :=
  { shift := false, ctrl := false, alt := false, capsLock := false, extended := false
    extended2 := false, buf := buf, head := 0, tail := 0, im := imStart, written := [] }

/-- `kbd_buf_put` -/
def Keyboard.put (k : Keyboard) (ch : Byte) : Keyboard :=
  let next := (k.head + 1) % kbdBufSize
  if next ≠ k.tail then { k with buf := Function.update k.buf k.head ch, head := next } else k

/-- The keys with a symbol for shift. -/
def symbolKeys : List (Byte × Byte × Byte) :=
  [(0x02, 49, 33), (0x03, 50, 64), (0x04, 51, 35), (0x05, 52, 36), (0x06, 53, 37), (0x07, 54, 94),
   (0x08, 55, 38), (0x09, 56, 42), (0x0A, 57, 40), (0x0B, 48, 41), (0x0C, 45, 95), (0x0D, 61, 43),
   (0x1A, 91, 123), (0x1B, 93, 125), (0x27, 59, 58), (0x28, 39, 34), (0x29, 96, 126),
   (0x2B, 92, 124), (0x33, 44, 60), (0x34, 46, 62), (0x35, 47, 63)]

/-- The keys of the letters. -/
def letterKeys : List (Byte × Byte) :=
  [(0x10, 113), (0x11, 119), (0x12, 101), (0x13, 114), (0x14, 116), (0x15, 121), (0x16, 117),
   (0x17, 105), (0x18, 111), (0x19, 112), (0x1E, 97), (0x1F, 115), (0x20, 100), (0x21, 102),
   (0x22, 103), (0x23, 104), (0x24, 106), (0x25, 107), (0x26, 108), (0x2C, 122), (0x2D, 120),
   (0x2E, 99), (0x2F, 118), (0x30, 98), (0x31, 110), (0x32, 109)]

/-- The keys that shift does not change: enter, blank, backspace, tab and escape. -/
def plainKeys : List (Byte × Byte) := [(0x1C, 10), (0x39, 32), (0x0E, 8), (0x0F, 9), (0x01, 27)]

/-- Shift and the lock cancel each other. -/
def letterWithCase (shift capsLock : Bool) (base : Byte) : Byte :=
  if shift ^^ capsLock then base - 32 else base

/-- What a key types; some type nothing. -/
def scancodeToAscii (shift capsLock : Bool) (sc : Byte) : Option Byte :=
  match symbolKeys.lookup sc with
  | some (plain, shifted) => some (if shift then shifted else plain)
  | none =>
      match letterKeys.lookup sc with
      | some base => some (letterWithCase shift capsLock base)
      | none => plainKeys.lookup sc

/-- The keys behind the prefix `E0` that move the selection, with how they do it, and what they
type when the method is off. -/
def arrowKeys : List (Byte × Nat × Byte) :=
  [(0x48, 2, 0x80), (0x4B, 2, 0x82), (0x4D, 1, 0x83), (0x50, 1, 0x81)]

/-- The other keys behind the prefix. -/
def extendedKeys : List (Byte × Byte) :=
  [(0x1C, 10), (0x52, 0x88), (0x53, 0x89), (0x47, 0x84), (0x4F, 0x85), (0x49, 0x86), (0x51, 0x87),
   (0x5A, 10)]

/-- The keys F1 to F12. -/
def functionKeys : List (Byte × Byte) :=
  [(0x3B, 0x8A), (0x3C, 0x8B), (0x3D, 0x8C), (0x3E, 0x8D), (0x3F, 0x8E), (0x40, 0x8F),
   (0x41, 0x90), (0x42, 0x91), (0x43, 0x92), (0x44, 0x93), (0x57, 0x94), (0x58, 0x95)]

/-- The characters that are converted. -/
def isPunc (ch : Byte) : Bool :=
  [46, 44, 58, 59, 39, 34, 60, 62, 63, 33, 40, 41, 91, 93, 45, 95, 47].contains ch

/-- The method has made a choice. -/
def Keyboard.chosen (k : Keyboard) (r : Im × List Byte) : Keyboard :=
  { k with im := r.1, written := k.written ++ r.2 }

/-- A key behind `E0`. -/
def Keyboard.extendedKey (k : Keyboard) (sc : Byte) : Option Keyboard :=
  match arrowKeys.lookup sc with
  | some (key, ch) =>
      if k.im.active = true then (k.im.handleSpecial key).map fun im => { k with im := im }
      else some (k.put ch)
  | none =>
      match extendedKeys.lookup sc with
      | some ch => some (k.put ch)
      | none => some k

/-- A character that is typed while the method is on. -/
def Keyboard.imChar (tables : ImTables) (k : Keyboard) (ch : Byte) : Keyboard :=
  if isLower ch then { k with im := k.im.handleChar tables ch }
  else if ch = 8 then { k with im := k.im.backspace tables }
  else if ch = 10 then
    if 0 < k.im.candidates.length then
      k.chosen (k.im.selectCandidate (k.im.candidates.length - 1))
    else k.chosen k.im.commit
  else if ch = 32 then
    if 0 < k.im.candidates.length then k.chosen (k.im.selectCandidate 0)
    else k.chosen k.im.commit
  else if 49 ≤ ch ∧ ch ≤ 57 then { k with im := k.im.handleChar tables ch }
  else if isPunc ch = true then
    let k := k.chosen k.im.commit
    -- Two bytes of a character of three.
    match imConvertPunc ch with
    | [] => k.put ch
    | [first] => k.put first
    | first :: second :: _ => (k.put first).put second
  else (k.chosen k.im.commit).put ch

/-- A key that is neither released nor a modifier nor behind a prefix. -/
def Keyboard.plainKey (tables : ImTables) (k : Keyboard) (sc : Byte) : Keyboard :=
  match functionKeys.lookup sc with
  | some ch => k.put ch
  | none =>
      if k.im.active = true ∧ 0x02 ≤ sc ∧ sc ≤ 0x0A then
        let num := sc.toNat - 0x02 + 1
        if num ≤ k.im.candidates.length then k.chosen (k.im.selectCandidate (num - 1)) else k
      else
        match scancodeToAscii k.shift k.capsLock sc with
        | none => k
        | some ch => if k.im.active = true then k.imChar tables ch else k.put ch

/-- `brights_ps2kbd_irq_handler`; `none` is a division by zero. -/
def Keyboard.irqHandler (tables : ImTables) (k : Keyboard) (sc : Byte) : Option Keyboard :=
  if sc = 0xE0 then some { k with extended := true }
  else if sc = 0xE1 then some { k with extended2 := true }
  else if 0x80 ≤ sc then
    let make := sc - 0x80
    some { k with
      shift := if make = 0x2A ∨ make = 0x36 then false else k.shift
      ctrl := if make = 0x1D then false else k.ctrl
      alt := if make = 0x38 then false else k.alt
      extended := false, extended2 := false }
  else if sc = 0x2A ∨ sc = 0x36 then some { k with shift := true }
  else if sc = 0x1D then some { k with ctrl := true }
  else if sc = 0x38 then some { k with alt := true }
  else if sc = 0x3A then some { k with capsLock := !k.capsLock }
  else if sc = 0x39 ∧ k.shift = true then some { k with im := k.im.toggle }
  else if k.extended2 = true then some { k with extended2 := false }
  else if k.extended = true then { k with extended := false }.extendedKey sc
  else some (k.plainKey tables sc)

/-- `brights_ps2kbd_read_char` -/
def Keyboard.readChar (k : Keyboard) : Keyboard × Option Byte :=
  if k.head = k.tail then (k, none)
  else ({ k with tail := (k.tail + 1) % kbdBufSize }, some (k.buf k.tail))

/-! ### The terminal on the keyboard

The terminal takes its characters from the ring of the driver, one for each that it hands on.
-/

/-- The ring takes the place of the list of bytes from the keyboard. -/
structure Console where
  kbd : Keyboard
  tty : Tty

/-- `brights_tty_read_char` -/
def Console.readChar (c : Console) : Console × Option Byte :=
  match c.tty.mode with
  | .cooked =>
      match c.tty.takeChar with
      | (tty, some ch) => ({ c with tty := tty }, some ch)
      | (tty, none) =>
          let (kbd, raw) := c.kbd.readChar
          let r := (processNext (processNext (tty, raw)).readSerial).takeChar
          (⟨kbd, r.1⟩, r.2)
  | .raw =>
      match c.kbd.readChar with
      | (kbd, some ch) => ({ c with kbd := kbd }, some ch)
      | (kbd, none) =>
          let r := c.tty.readSerial
          (⟨kbd, r.1⟩, r.2)

end BrightS
