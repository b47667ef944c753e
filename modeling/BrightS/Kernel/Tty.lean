/-
The input side of the terminal: `drivers/tty.c`.

In cooked mode the bytes of the keyboard and of the serial line are edited into a line, and the
readers get the line once it is complete; until they have it all, no byte is asked for.  In raw
mode they get the bytes as they are.

`keyboard` and `serial` are the bytes that have
arrived and have not been asked for.  `cells` keeps the places of `line_buf` that were written.
-/
import BrightS.Lib.Bytes

namespace BrightS

open Bytes

def ttyLineBuf : Nat := 256

/-- `tty_mode`. -/
inductive TtyMode where
  | raw
  | cooked
  deriving DecidableEq

/-- The statics of the terminal, and what is around it. -/
structure Tty where
  mode : TtyMode
  lineBuf : Nat → Byte
  lineLen : Nat
  lineReady : Bool
  linePos : Nat
  keyboard : List Byte
  serial : List Byte
  echo : List Byte
  cells : List Nat

/-- After `brights_tty_init`. -/
def ttyStart : Tty :=
  { mode := .cooked, lineBuf := fun _ => 0, lineLen := 0, lineReady := false, linePos := 0
    keyboard := [], serial := [], echo := [], cells := [] }

/-- `line_buf[i] = c` -/
def Tty.store (t : Tty) (i : Nat) (c : Byte) : Tty :=
  { t with lineBuf := Function.update t.lineBuf i c, cells := t.cells ++ [i] }

/-- `brights_tty_write_char` -/
def Tty.writeChar (t : Tty) (c : Byte) : Tty := { t with echo := t.echo ++ [c] }

/-- A character at the end of the line, if there is room for it. -/
def Tty.append (t : Tty) (c : Byte) : Tty :=
  if t.lineLen < ttyLineBuf - 2 then
    ({ t.store t.lineLen c with lineLen := t.lineLen + 1 }).writeChar c
  else t

/-- The loop for a tab stops when there is no room. -/
def Tty.appendSpaces (t : Tty) : Nat → Tty
  | 0 => t
  | n + 1 => if t.lineLen < ttyLineBuf - 2 then (t.append 32).appendSpaces n else t

/-- `cooked_process_char`: a byte that erases, ends or gives up the line, a tab, or one that is
appended. -/
def cookedProcessChar (t : Tty) (ch : Byte) : Tty :=
  if ch = 8 ∨ ch = 0x7F then
    if 0 < t.lineLen then
      ((({ t with lineLen := t.lineLen - 1 }).writeChar 8).writeChar 32).writeChar 8
    else t
  else if ch = 10 ∨ ch = 13 then
    let t := { t.store t.lineLen 10 with lineLen := t.lineLen + 1 }
    ({ t.store t.lineLen 0 with lineReady := true, linePos := 0 }).writeChar 10
  else if ch = 27 then ({ t with lineLen := 0 }.store 0 0).writeChar 10
  else if ch = 9 then t.appendSpaces 4
  else t.append ch

/-- The next character of a complete line; the line is given up with its last one. -/
def Tty.takeChar (t : Tty) : Tty × Option Byte :=
  if t.lineReady = true ∧ t.linePos < t.lineLen then
    let ch := t.lineBuf t.linePos
    let t := { t with linePos := t.linePos + 1 }
    (if t.lineLen ≤ t.linePos then { t with lineReady := false, lineLen := 0, linePos := 0 } else t,
      some ch)
  else (t, none)

/-- The next byte of the keyboard, and of the serial line. -/
def Tty.readKeyboard (t : Tty) : Tty × Option Byte :=
  ({ t with keyboard := t.keyboard.tail }, t.keyboard.head?)

def Tty.readSerial (t : Tty) : Tty × Option Byte :=
  ({ t with serial := t.serial.tail }, t.serial.head?)

/-- A byte of one of the two sources, if there is one. -/
def processNext (r : Tty × Option Byte) : Tty :=
  match r.2 with
  | none => r.1
  | some ch => cookedProcessChar r.1 ch

/-- `brights_tty_read_char`: what is there, without waiting. -/
def ttyReadChar (t : Tty) : Tty × Option Byte :=
  match t.mode with
  | .cooked =>
      match t.takeChar with
      | (t, some ch) => (t, some ch)
      | (t, none) => (processNext (processNext t.readKeyboard).readSerial).takeChar
  | .raw =>
      match t.readKeyboard with
      | (t, some ch) => (t, some ch)
      | (t, none) => t.readSerial

/-! ### Runs in cooked mode

The reader's calls are what makes the terminal look at its sources.
-/

/-- What can happen in cooked mode. -/
inductive TtyEvent where
  | key (ch : Byte)
  | line (ch : Byte)
  | read

/-- `typed` are the bytes that were processed, and `returned` the characters the readers got. -/
structure TtyRun where
  tty : Tty
  typed : List Byte
  returned : List Byte

/-- The bytes that a call takes from the sources. -/
def Tty.taken (t : Tty) : List Byte :=
  if t.lineReady = true ∧ t.linePos < t.lineLen then []
  else t.keyboard.head?.toList ++ t.serial.head?.toList

/-- A byte arrives from the keyboard or the serial line, or a reader calls. -/
def TtyRun.next (r : TtyRun) : TtyEvent → TtyRun
  | .key ch => { r with tty := { r.tty with keyboard := r.tty.keyboard ++ [ch] } }
  | .line ch => { r with tty := { r.tty with serial := r.tty.serial ++ [ch] } }
  | .read =>
      { tty := (ttyReadChar r.tty).1
        typed := r.typed ++ r.tty.taken
        returned := r.returned ++ (ttyReadChar r.tty).2.toList }

/-- Nothing has arrived. -/
def ttyRunStart : TtyRun := { tty := ttyStart, typed := [], returned := [] }

end BrightS
