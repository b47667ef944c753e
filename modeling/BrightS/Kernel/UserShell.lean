/-
The user shell: splitting a line into arguments, `sys/user/shell.c`.

Arguments are separated by blanks, and one that starts with a quote goes on to the next quote of
that kind.

The line is split where it stands: a null byte is written behind each argument, and an argument
is a pointer into the line.  A pointer is the distance from the start of the line, and behind
the bytes of the line there are only null bytes.
-/
import BrightS.Kernel.Strings

namespace BrightS

def shellMaxArgs : Nat := 64

def blankChar : UInt8 := 32
def tabChar : UInt8 := 9
def doubleQuote : UInt8 := 34
def singleQuote : UInt8 := 39

/-- A byte between two arguments. -/
def isBlank (c : UInt8) : Bool := c == blankChar || c == tabChar

/-- A byte that opens a quoted argument. -/
def isQuote (c : UInt8) : Bool := c == doubleQuote || c == singleQuote

/-- The loop that skips blanks, for at most `fuel` of them. -/
def skipBlanks (line : List UInt8) : Nat → Nat → Nat
  | 0, p => p
  | fuel + 1, p => if isBlank (line.getD p 0) = true then skipBlanks line fuel (p + 1) else p

/-- The loop that looks for the end of an argument and writes the terminator, for at most `fuel`
bytes; `quote` is zero outside of quotes. -/
def endArg (quote : UInt8) : Nat → List UInt8 → Nat → List UInt8 × Nat
  | 0, line, p => (line, p)
  | fuel + 1, line, p =>
      let c := line.getD p 0
      if c = 0 then (line, p)
      else if quote ≠ 0 then
        if c = quote then (line.set p 0, p + 1) else endArg quote fuel line (p + 1)
      else
        if isBlank c = true then (line.set p 0, p + 1) else endArg quote fuel line (p + 1)

/-- The main loop; `room` is how many arguments `argv` still takes.  Neither inner loop goes
past the end of the line, so its length is enough for both. -/
def parseArgsLoop : Nat → List UInt8 → Nat → List Nat → List UInt8 × List Nat
  | 0, line, _, argv => (line, argv)
  | room + 1, line, p, argv =>
      if line.getD p 0 = 0 then (line, argv) else
      let p := skipBlanks line line.length p
      let c := line.getD p 0
      if c = 0 then (line, argv) else
      let quote := if isQuote c = true then c else 0
      let p := if isQuote c = true then p + 1 else p
      let ended := endArg quote line.length line p
      parseArgsLoop room ended.1 ended.2 (argv ++ [p])

/-- The line after the call and the arguments, whose number is what is returned. -/
def parseArgs (line : List UInt8) : List UInt8 × List Nat :=
  parseArgsLoop (shellMaxArgs - 1) line 0 []

/-- The strings that `argv` leads to. -/
def argStrings (parsed : List UInt8 × List Nat) : List (List UInt8) :=
  parsed.2.map fun p => cStrOf (parsed.1.drop p)

end BrightS
