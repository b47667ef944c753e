/-
The command table of the shell, `kernel/lightshell.c`.

An entry is a name and a handler, and a pointer to one is its index.  `cmd_find` looks for a name
with a binary search, as if the table were sorted.
-/
import BrightS.Kernel.Strings

namespace BrightS

/-- The names as the source lists them, which is not in alphabetical order. -/
def cmdNames : List String :=
  ["append", "bst", "cat", "cd", "clear", "cp", "date", "echo", "halt", "help", "hexdump",
    "ifconfig", "jobs", "kill", "login", "logout", "ls", "mkdir", "mount", "netget", "mv",
    "passwd", "profile", "pwd", "reboot", "rm", "rmdir", "setpf", "stat", "touch", "uname",
    "useradd", "whoami", "wifi", "write", "free", "uptime", "ping", "history", "sleep", "env"]

/-- The names of the entries, in their order. -/
def cmdTable : List (List UInt8) := cmdNames.map fun name => bytesOf name.toList

/-- `CMD_COUNT`, from which the last index is computed. -/
def cmdCount : Int := cmdTable.length

/-- The loop of `cmd_find`, for at most `fuel` rounds. -/
def cmdFindLoop (table : List (List UInt8)) (name : List UInt8) : Nat → Int → Int → Option Nat
  | 0, _, _ => none
  | fuel + 1, lo, hi =>
      if lo ≤ hi then
        let mid := (lo + hi) / 2
        let cmp := kutilStrcmp (table.getD mid.toNat []) name
        if cmp = 0 then some mid.toNat
        else if cmp < 0 then cmdFindLoop table name fuel (mid + 1) hi
        else cmdFindLoop table name fuel lo (mid - 1)
      else none

/-- A round leaves an entry less at least, and the last one none. -/
def cmdFind (name : List UInt8) : Option Nat :=
  cmdFindLoop cmdTable name (cmdTable.length + 1) 0 (cmdCount - 1)

end BrightS
