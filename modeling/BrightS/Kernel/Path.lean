/-
Path normalisation, as `kernel/fs/ramfs.c`, `kernel/fs/vfs2.c` and `kernel/proc.c`
each have it.

The path is read character by character.  A segment that is complete goes to a stack of
at most `pathMaxSegs` of them, unless it is a dot, and two dots take the last one away;
at the root they do nothing.  What is on the stack at the end is written out again.

The three copies differ in two numbers only: the longest segment they have room for
and the size of the output buffer.  A path that does not fit is refused, never cut
off.
-/
import Mathlib

namespace BrightS

/-- A C string, without its terminator. -/
abbrev CStr := List Char

def pathMaxSegs : Nat := 16

/-- Put a complete segment on the stack. -/
def endSegment (segs : List CStr) (seg : CStr) : Option (List CStr) :=
  if seg = ['.'] then some segs
  else if seg = ['.', '.'] then some segs.dropLast
  else if pathMaxSegs ≤ segs.length then none
  else some (segs ++ [seg])

/-- The scanning loop.  `seg` is the segment being read, empty between two segments. -/
def pathSegments (segMax : Nat) : CStr → CStr → List CStr → Option (List CStr)
  | [], seg, segs => if seg = [] then some segs else endSegment segs seg
  | c :: rest, seg, segs =>
      if c = '/' then
        if seg = [] then pathSegments segMax rest [] segs
        else (endSegment segs seg).bind (pathSegments segMax rest [])
      else if segMax ≤ seg.length then none
      else pathSegments segMax rest (seg ++ [c]) segs

/-- The segments, each behind a slash. -/
def joinSegments (segs : List CStr) : CStr := '/' :: ['/'].intercalate segs

/-- The normal form of a path, if it fits into `cap` characters with its terminator. -/
def normalizePath (segMax cap : Nat) (path : CStr) : Option CStr :=
  (pathSegments segMax path [] []).bind fun segs =>
    if (joinSegments segs).length < cap then some (joinSegments segs) else none

end BrightS
