/-
The row of a terminal in which the cursor stands.

A row is what lies left of the cursor and what lies right of it.  A byte is printed at the cursor
and moves it on; a backspace moves it back and erases nothing; a line feed starts an empty row.
Erasing is therefore three bytes: back, a blank over what was there, and back again.
-/
import Mathlib

namespace Rows

abbrev Byte := UInt8

structure Row where
  left : List Byte
  right : List Byte

def backspace : Byte := 8
def lineFeed : Byte := 10
def blank : Byte := 32

def Row.feed (r : Row) (b : Byte) : Row :=
  if b = lineFeed then ⟨[], []⟩
  else if b = backspace then
    match r.left.getLast? with
    | none => r
    | some c => ⟨r.left.dropLast, c :: r.right⟩
  else ⟨r.left ++ [b], r.right.tail⟩

def Row.write (r : Row) (bytes : List Byte) : Row := bytes.foldl Row.feed r

/-- Bytes that are only printed. -/
def Glyphs (bytes : List Byte) : Prop := ∀ b ∈ bytes, b ≠ backspace ∧ b ≠ lineFeed

/-- Nothing can be seen right of the cursor. -/
def Row.Clear (r : Row) : Prop := ∀ b ∈ r.right, b = blank

section Write

variable {r : Row} {bytes more : List Byte}

@[simp] theorem write_nil (r : Row) : r.write [] = r := rfl

theorem write_append (r : Row) (bytes more : List Byte) :
    r.write (bytes ++ more) = (r.write bytes).write more := List.foldl_append

theorem write_plain (r : Row) (h : Glyphs bytes) :
    r.write bytes = ⟨r.left ++ bytes, r.right.drop bytes.length⟩ := by
  induction bytes generalizing r with
  | nil => simp
  | cons b rest ih =>
      have hb := h b (by simp)
      have hfeed : r.feed b = ⟨r.left ++ [b], r.right.tail⟩ := by
        rw [Row.feed, if_neg hb.2, if_neg hb.1]
      rw [Row.write, List.foldl_cons, hfeed, ← Row.write,
        ih _ fun c hc => h c (List.mem_cons_of_mem _ hc)]
      simp

theorem Row.Clear.drop (h : r.Clear) (left : List Byte) (n : Nat) :
    Row.Clear ⟨left, r.right.drop n⟩ := fun b hb => h b (List.mem_of_mem_drop hb)

theorem Row.Clear.plain (h : r.Clear) (hplain : Glyphs bytes) : (r.write bytes).Clear := by
  rw [write_plain r hplain]
  exact h.drop _ _

/-- Nothing becomes visible right of the cursor while it never moves back. -/
theorem Row.Clear.forward (h : r.Clear) (hforward : ∀ b ∈ bytes, b ≠ backspace) :
    (r.write bytes).Clear := by
  induction bytes generalizing r with
  | nil => exact h
  | cons b rest ih =>
      refine ih (r := r.feed b) ?_ fun c hc => hforward c (List.mem_cons_of_mem _ hc)
      unfold Row.feed
      rw [if_neg (hforward b (by simp))]
      split_ifs
      · exact fun c hc => absurd hc List.not_mem_nil
      · exact fun c hc => h c (List.mem_of_mem_tail hc)

/-- **Erasing** the byte before the cursor. -/
theorem write_erase (left right : List Byte) (c : Byte) :
    Row.write ⟨left ++ [c], right⟩ [backspace, blank, backspace] = ⟨left, blank :: right⟩ := by
  have hback : backspace ≠ lineFeed := by decide
  have hblank : blank ≠ lineFeed ∧ blank ≠ backspace := by decide
  simp only [Row.write, List.foldl_cons, List.foldl_nil, Row.feed, if_neg hback, if_neg hblank.1,
    if_neg hblank.2, List.getLast?_concat, List.dropLast_concat, List.tail_cons, if_true]

theorem write_erases (left text : List Byte) : ∀ {right : List Byte},
    (∀ b ∈ right, b = blank) → ∃ right', (∀ b ∈ right', b = blank) ∧
      Row.write ⟨left ++ text, right⟩
        (List.replicate text.length [backspace, blank, backspace]).flatten = ⟨left, right'⟩ := by
  induction text using List.reverseRecOn with
  | nil => exact fun {right} h => ⟨right, h, by simp⟩
  | append_singleton text c ih =>
      intro right h
      obtain ⟨right', hright, hwrite⟩ := @ih (blank :: right) (by simpa using h)
      refine ⟨right', hright, ?_⟩
      rw [List.length_append, List.length_singleton, List.replicate_succ, List.flatten_cons,
        write_append, ← List.append_assoc, write_erase, hwrite]

end Write

end Rows
