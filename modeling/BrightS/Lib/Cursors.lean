/-
Files as lists with a position.

`splice` writes into a list, behind its end too.  A `Cursor` is what a program has of an
open file: the items in it, at most `cap`, and where the next call takes place.  Its
operations are what the calls of a file system are meant to do: a read that goes as far
as there are items, a write that goes as far as there is room, and a seek that refuses to
leave the file at its front.
-/
import Mathlib

namespace Cursors

variable {α : Type}

/-- The list with `b` written at `off`; a gap in between is filled up. -/
def splice (pad : α) (c : List α) (off : Nat) (b : List α) : List α :=
  (c ++ List.replicate (off - c.length) pad).take off ++ b ++ c.drop (off + b.length)

section Splice

variable (pad : α) (c b : List α) (off : Nat)

@[simp] theorem length_splice : (splice pad c off b).length = max c.length (off + b.length) := by
  simp [splice]
  omega

/-- Behind the end of a list there is nothing but padding. -/
theorem getD_splice (o : Nat) :
    (splice pad c off b).getD o pad =
      if off ≤ o ∧ o < off + b.length then b.getD (o - off) pad else c.getD o pad := by
  have hfront : ((c ++ List.replicate (off - c.length) pad).take off).length = off := by
    simp
    omega
  simp only [splice, List.getD_eq_getElem?_getD, List.append_assoc]
  by_cases hlt : o < off
  · rw [if_neg (by omega), List.getElem?_append_left (by omega), List.getElem?_take_of_lt hlt]
    by_cases hc : o < c.length
    · rw [List.getElem?_append_left hc]
    · rw [List.getElem?_append_right (by omega), List.getElem?_replicate_of_lt (by omega),
        List.getElem?_eq_none (by omega)]
      rfl
  rw [List.getElem?_append_right (by omega), hfront]
  by_cases hin : o < off + b.length
  · rw [if_pos ⟨by omega, hin⟩, List.getElem?_append_left (by omega)]
  · rw [if_neg (by omega), List.getElem?_append_right (by omega), List.getElem?_drop]
    congr 2
    omega

/-- Lists are equal when they read the same. -/
theorem ext_getD {l l' : List α} (hlength : l.length = l'.length)
    (hsame : ∀ o, o < l.length → l.getD o pad = l'.getD o pad) : l = l' := by
  refine List.ext_getElem hlength fun o ho ho' => ?_
  rw [← List.getD_eq_getElem l pad ho, ← List.getD_eq_getElem l' pad ho']
  exact hsame o ho

theorem splice_nil (hoff : off ≤ c.length) : splice pad c off [] = c := by
  simp [splice, Nat.sub_eq_zero_of_le hoff]

end Splice

/-- What a program has of an open file. -/
structure Cursor (α : Type) (cap : Nat) where
  content : List α
  fits : content.length ≤ cap
  pos : Nat

namespace Cursor

variable {cap : Nat}

/-- The file is opened again, and perhaps emptied first. -/
def reopen (f : Cursor α cap) (trunc append : Bool) : Cursor α cap where
  content := if trunc then [] else f.content
  fits := by
    split
    · exact Nat.zero_le _
    · exact f.fits
  pos := if append then (if trunc then [] else f.content).length else 0

def read (f : Cursor α cap) (n : Nat) : Cursor α cap × List α :=
  ({ f with pos := f.pos + ((f.content.drop f.pos).take n).length },
    (f.content.drop f.pos).take n)

def write (pad : α) (f : Cursor α cap) (b : List α) : Cursor α cap × Int :=
  if h : cap ≤ f.pos then (f, -1) else
  if b = [] then (f, 0) else
  ({ content := splice pad f.content f.pos (b.take (cap - f.pos))
     fits := by
       have hfits := f.fits
       rw [length_splice, List.length_take]
       omega
     pos := f.pos + (b.take (cap - f.pos)).length }, (b.take (cap - f.pos)).length)

def seek (f : Cursor α cap) (target : Int) : Cursor α cap × Int :=
  if target < 0 then (f, -1) else ({ f with pos := target.toNat }, target)

section Write

variable {pad : α} {f : Cursor α cap} {b : List α}

theorem write_full (hpos : cap ≤ f.pos) : f.write pad b = (f, -1) := dif_pos hpos

theorem write_nil (hpos : f.pos < cap) : f.write pad [] = (f, 0) := by
  rw [write, dif_neg (by omega), if_pos rfl]

theorem write_room (pad : α) (hpos : f.pos < cap) (hb : b ≠ []) :
    (f.write pad b).1.content = splice pad f.content f.pos (b.take (cap - f.pos)) ∧
      (f.write pad b).1.pos = f.pos + (b.take (cap - f.pos)).length ∧
      (f.write pad b).2 = (b.take (cap - f.pos)).length := by
  rw [write, dif_neg (by omega), if_neg hb]
  exact ⟨rfl, rfl, rfl⟩

end Write

end Cursor

end Cursors
