/-
The line editor of the shell: `history_add`, `tab_complete` and the loop of
`brights_lightshell_run` in `kernel/lightshell.c`.

A buffer is its bytes by index.  A string in one that has no end, a store behind its end and a row
of the history that does not exist make a step undefined.  What a line is handed to is a
parameter: `handle_line` prints, changes the state of the shell and says whether the loop goes on,
and the prompt shows that state.
-/
import BrightS.Kernel.Lightshell

namespace BrightS

def lightshellHistorySize : Nat := 32

/-- `commands`, in the order of the source. -/
def commandNames : List String :=
  ["help", "ls", "pwd", "cd", "mkdir", "rmdir", "whoami", "profile",
    "logout", "bst", "cat", "stat", "login", "passwd", "useradd", "setpf",
    "touch", "write", "append", "rm", "cp", "mv", "hexdump", "echo",
    "kill", "jobs", "fg", "bg", "netget"]

/-- The list for completion, which is not the command table. -/
def commands : List (List UInt8) := commandNames.map fun name => bytesOf name.toList

/-! ### Buffers

Lines and the rows of the history are buffers of one size.
-/

/-- A buffer of 256 bytes. -/
abbrev LineBuf := Nat → UInt8

/-- A store, which must be in the buffer. -/
def setByte (buf : LineBuf) (i : Nat) (b : UInt8) : Option LineBuf :=
  if i < lightshellMaxLine then some (Function.update buf i b) else none

/-- The string in a buffer, if it ends there. -/
def lineStr (buf : LineBuf) : Option (List UInt8) :=
  let bytes := (List.range lightshellMaxLine).map buf
  if 0 ∈ bytes then some (cStrOf bytes) else none

/-- `str_copy` to a whole buffer. -/
def lineCopy (buf : LineBuf) (src : List UInt8) : LineBuf :=
  storeBytes buf 0 (strCopy lightshellMaxLine src ++ [0])

/-- Store the bytes from index `i` on. -/
def setBytes (buf : LineBuf) : Nat → List UInt8 → Option LineBuf
  | _, [] => some buf
  | i, b :: rest => (setByte buf i b).bind fun buf => setBytes buf (i + 1) rest

/-! ### The editor

A key is one round of the loop.  What is typed goes to the buffer and to the serial port, and what
takes the place of a line is printed over it.
-/

/-- What the editor hands its lines to. -/
structure LineHandler (σ : Type) where
  /-- The state after the line, what was printed, and whether to go on. -/
  handleLine : σ → List UInt8 → σ × List UInt8 × Bool
  prompt : σ → List UInt8

/-- The local variables of the loop, the history, and what was printed. -/
structure LineEditor (σ : Type) where
  shell : σ
  line : LineBuf
  len : Nat
  escapeState : Nat
  history : Nat → LineBuf
  historyCount : Nat
  historyNavIndex : Int
  /-- What was written to the serial port. -/
  out : List UInt8
  running : Bool

/-- More is printed. -/
def LineEditor.print {σ : Type} (e : LineEditor σ) (text : List UInt8) : LineEditor σ :=
  { e with out := e.out ++ text }

/-- The string in a row of the history. -/
def historyRow (history : Nat → LineBuf) (i : Int) : Option (List UInt8) :=
  if 0 ≤ i ∧ i < lightshellHistorySize then lineStr (history i.toNat) else none

/-- The loop that moves the rows up, for the `rounds` that are left. -/
def shiftHistory : Nat → Nat → (Nat → LineBuf) → Option (Nat → LineBuf)
  | 0, _, history => some history
  | rounds + 1, i, history =>
      (historyRow history (i + 1)).bind fun text =>
        shiftHistory rounds (i + 1) (Function.update history i (lineCopy (history i) text))

/-- Whether the line is the one that was entered last. -/
def historyRepeats {σ : Type} (e : LineEditor σ) (text : List UInt8) : Option Bool :=
  if 0 < e.historyCount then
    (historyRow e.history (e.historyCount - 1)).map fun last => decide (last = text)
  else some false

/-- `history_add`: an empty line and a repeated one are not kept, and a full history loses its
oldest row. -/
def historyAdd {σ : Type} (e : LineEditor σ) (text : List UInt8) : Option (LineEditor σ) :=
  if text = [] then some e else
  (historyRepeats e text).bind fun same =>
    if same = true then some e
    else if e.historyCount < lightshellHistorySize then
      some { e with
        history := Function.update e.history e.historyCount
          (lineCopy (e.history e.historyCount) text)
        historyCount := e.historyCount + 1
        historyNavIndex := e.historyCount + 1 }
    else
      let last := lightshellHistorySize - 1
      (shiftHistory last 0 e.history).map fun history =>
        { e with
          history := Function.update history last (lineCopy (history last) text)
          historyNavIndex := e.historyCount }

/-- Back, over it, and back again. -/
def rubOut : List UInt8 := [8, 32, 8]

/-- A line of so many characters is rubbed out. -/
def clearLine (len : Nat) : List UInt8 := (List.replicate len rubOut).flatten

/-- How far two names agree. -/
def agreeLen : List UInt8 → List UInt8 → Nat
  | a :: as, b :: bs => if a = b then agreeLen as bs + 1 else 0
  | _, _ => 0

/-- The loop over the matches: the first one counts whole, each later one as far as it agrees with
the first. -/
def commonLen (first : List UInt8) (names : List (List UInt8)) : Nat :=
  names.foldl (fun common name => if common = 0 then name.length else agreeLen first name) 0

/-- The line and its length, and what is printed. -/
def tabComplete (prompt : List UInt8) (line : LineBuf) (len : Nat) :
    Option (LineBuf × Nat × List UInt8) :=
  if len = 0 then some (line, len, []) else
  (lineStr line).bind fun text =>
    match commands.filter fun name => text.isPrefixOf name with
    | [] => some (line, len, [])
    | [name] => do
        let line ← setByte (lineCopy line name) name.length 32
        let line ← setByte line (name.length + 1) 0
        let shown ← lineStr line
        some (line, name.length + 1, clearLine len ++ shown)
    | first :: others =>
        let common := commonLen first (first :: others)
        if len < common then do
          let line ← setBytes line 0 (first.take common)
          let line ← setByte line common 0
          let shown ← lineStr line
          some (line, common, clearLine len ++ shown)
        else
          some (line, len,
            [10] ++ (first :: others).flatMap (· ++ [32]) ++ [10] ++ prompt ++ text)

section Keys

variable {σ : Type} (h : LineHandler σ)

/-- The new line is shown in place of the old one. -/
def redraw (e : LineEditor σ) (nav : Int) (line : LineBuf) : Option (LineEditor σ) :=
  (lineStr line).map fun shown =>
    { e.print (clearLine e.len ++ shown) with
      line := line, len := shown.length, historyNavIndex := nav }

/-- A row of the history takes the place of the line. -/
def recallRow (e : LineEditor σ) (nav : Int) : Option (LineEditor σ) :=
  (historyRow e.history nav).bind fun text => redraw e nav (lineCopy e.line text)

/-- The down arrow goes one past the last row, to an empty line. -/
def recallNext (e : LineEditor σ) (nav : Int) : Option (LineEditor σ) :=
  if nav < e.historyCount then recallRow e nav
  else (setByte e.line 0 0).bind (redraw e nav)

/-- The line is handed on. -/
def handOn (e : LineEditor σ) (text : List UInt8) : LineEditor σ :=
  let (shell, printed, goOn) := h.handleLine e.shell text
  let e := { e.print printed with shell := shell }
  if goOn = true then { e.print (h.prompt shell) with len := 0, escapeState := 0 }
  else { e.print (bytesOf ['b', 'y', 'e', '\n']) with running := false }

/-- The end of a line. -/
def enter (e : LineEditor σ) : Option (LineEditor σ) :=
  (setByte e.line e.len 0).bind fun line =>
    (lineStr line).bind fun text =>
      let e := { e.print [10] with line := line }
      (if 0 < e.len then historyAdd e text else some e).map fun e => handOn h e text

/-- A key that is no part of a sequence for an arrow. -/
def plainKey (e : LineEditor σ) (ch : UInt8) : Option (LineEditor σ) :=
  if ch = 0x1B then some { e with escapeState := 1 }
  else if ch = 13 ∨ ch = 10 then enter h e
  else if (ch = 0x08 ∨ ch = 0x7F) ∧ 0 < e.len then
    some { e.print rubOut with len := e.len - 1 }
  else if ch = 0x09 then
    (setByte e.line e.len 0).bind fun line =>
      (tabComplete (h.prompt e.shell) line e.len).map fun r =>
        { e.print r.2.2 with line := r.1, len := r.2.1 }
  else if 32 ≤ ch ∧ ch < 127 ∧ e.len < lightshellMaxLine - 1 then
    (setByte e.line e.len ch).map fun line =>
      { e.print [ch] with line := line, len := e.len + 1 }
  else some e

/-- One round of the loop.  An arrow does nothing special while there is no history. -/
def LineEditor.key (e : LineEditor σ) (ch : UInt8) : Option (LineEditor σ) :=
  if e.running = false then some e
  else if e.escapeState = 1 ∧ ch = 91 then some { e with escapeState := 2 }
  else
    let arrow := e.escapeState = 2 ∧ 0 < e.historyCount
    let e := { e with escapeState := 0 }
    if arrow ∧ ch = 65 then
      if 0 < e.historyNavIndex then recallRow e (e.historyNavIndex - 1) else some e
    else if arrow ∧ ch = 66 then
      if e.historyNavIndex < e.historyCount then recallNext e (e.historyNavIndex + 1) else some e
    else plainKey h e ch

/-- The loop has just begun. -/
def LineEditor.start (shell : σ) (line : LineBuf) (history : Nat → LineBuf) (banner : List UInt8) :
    LineEditor σ where
  shell := shell
  line := line
  len := 0
  escapeState := 0
  history := history
  historyCount := 0
  historyNavIndex := -1
  out := banner ++ h.prompt shell
  running := true

end Keys

end BrightS
