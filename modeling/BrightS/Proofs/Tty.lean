/-
The readers of the terminal get whole lines.

A call edits the byte of the keyboard into the line and then the one of the serial line, and
the second one meets a line that the first one may have completed.  Apart from that, the
characters returned are the lines that an editor makes of all bytes taken, in their order.
-/
import BrightS.Lib.Runs
import BrightS.Kernel.Tty

namespace BrightS

open Bytes Runs

/-! ### The editor -/

def IsLineEnd (ch : Byte) : Prop := ch = 10 ∨ ch = 13

instance (ch : Byte) : Decidable (IsLineEnd ch) := inferInstanceAs (Decidable (_ ∨ _))

/-- What an editor has made of the bytes typed: the complete lines, each with its end, and the
line that is being edited. -/
structure Editor where
  lines : List (List Byte)
  line : List Byte

/-- The longest line that is edited. -/
def maxLine : Nat := ttyLineBuf - 2

def Editor.type (e : Editor) (ch : Byte) : Editor :=
  if ch = 8 ∨ ch = 0x7F then { e with line := e.line.dropLast }
  else if IsLineEnd ch then { lines := e.lines ++ [e.line ++ [10]], line := [] }
  else if ch = 27 then { e with line := [] }
  else if ch = 9 then { e with line := (e.line ++ List.replicate 4 32).take maxLine }
  else { e with line := (e.line ++ [ch]).take maxLine }

def edit (typed : List Byte) : Editor := typed.foldl Editor.type { lines := [], line := [] }

theorem edit_append (typed more : List Byte) :
    edit (typed ++ more) = more.foldl Editor.type (edit typed) := List.foldl_append

/-! ### The line buffer -/

/-- Only cells of the buffer were written. -/
def InBuffer (t : Tty) : Prop := ∀ i ∈ t.cells, i < ttyLineBuf

/-- A line is being edited. -/
structure Editing (t : Tty) (line : List Byte) : Prop where
  ready : t.lineReady = false
  pos : t.linePos = 0
  len_le : t.lineLen ≤ maxLine
  text : slice t.lineBuf 0 t.lineLen = line
  cells : InBuffer t

/-- Complete lines are being read, of which the given characters are left. -/
structure Reading (t : Tty) (left : List Byte) : Prop where
  ready : t.lineReady = true
  pos_lt : t.linePos < t.lineLen
  len_lt : t.lineLen < ttyLineBuf
  text : (slice t.lineBuf 0 t.lineLen).drop t.linePos = left
  cells : InBuffer t

theorem slice_store (m : Mem) (n : Nat) (c : Byte) :
    slice (Function.update m n c) 0 (n + 1) = slice m 0 n ++ [c] := by
  have hbefore : slice (Function.update m n c) 0 n = slice m 0 n :=
    slice_congr fun i _ hi => by rw [Function.update_of_ne (show i ≠ n by omega)]
  have hsnoc : slice (Function.update m n c) 0 (n + 1) =
      slice (Function.update m n c) 0 n ++ [Function.update m n c (0 + n)] := by
    unfold slice
    rw [List.range_succ, List.map_append, List.map_singleton]
  rw [hsnoc, hbefore, Nat.zero_add, Function.update_self]

theorem slice_store_after (m : Mem) (n k : Nat) (hk : n ≤ k) (c : Byte) :
    slice (Function.update m k c) 0 n = slice m 0 n :=
  slice_congr fun i _ hi => by rw [Function.update_of_ne (show i ≠ k by omega)]

theorem slice_pred (m : Mem) (n : Nat) : slice m 0 (n - 1) = (slice m 0 n).dropLast := by
  cases n with
  | zero => rfl
  | succ n =>
      unfold slice
      rw [List.range_succ, List.map_append, List.map_singleton, List.dropLast_concat,
        Nat.add_sub_cancel]

theorem InBuffer.store {t : Tty} (h : InBuffer t) {i : Nat} (hi : i < ttyLineBuf) (c : Byte) :
    InBuffer (t.store i c) := by
  intro j hj
  rcases List.mem_append.mp hj with hj | hj
  · exact h j hj
  · rw [List.mem_singleton.mp hj]
    exact hi

section Process

variable {t : Tty} {line left : List Byte} {ch : Byte}

theorem Editing.length (h : Editing t line) : line.length = t.lineLen := by
  rw [← h.text, length_slice]

theorem Editing.append (h : Editing t line) (c : Byte) :
    Editing (t.append c) ((line ++ [c]).take maxLine) := by
  have hlen := h.length
  unfold Tty.append
  split_ifs with hroom
  · have hlt : t.lineLen < maxLine := hroom
    refine ⟨h.ready, h.pos, hlt, ?_, h.cells.store (by unfold ttyLineBuf at *; omega) c⟩
    rw [List.take_of_length_le (by rw [List.length_append, hlen, List.length_singleton]; omega)]
    exact (slice_store t.lineBuf t.lineLen c).trans (by rw [h.text])
  · have hfull : t.lineLen = maxLine := le_antisymm h.len_le (Nat.not_lt.mp hroom)
    rw [List.take_append_of_le_length (by omega), List.take_of_length_le (by omega)]
    exact h

theorem Editing.appendSpaces (n : Nat) : ∀ {t : Tty} {line : List Byte}, Editing t line →
    Editing (t.appendSpaces n) ((line ++ List.replicate n 32).take maxLine) := by
  induction n with
  | zero =>
      intro t line h
      rw [List.replicate_zero, List.append_nil,
        List.take_of_length_le (by rw [h.length]; exact h.len_le)]
      exact h
  | succ n ih =>
      intro t line h
      have hlen := h.length
      unfold Tty.appendSpaces
      split_ifs with hroom
      · have hlt : t.lineLen < maxLine := hroom
        have hmore := h.append 32
        rw [List.take_of_length_le (by rw [List.length_append, hlen, List.length_singleton]; omega)]
          at hmore
        have hall := ih hmore
        rwa [List.append_assoc, List.singleton_append, ← List.replicate_succ] at hall
      · have hfull : t.lineLen = maxLine := le_antisymm h.len_le (Nat.not_lt.mp hroom)
        rw [List.take_append_of_le_length (by omega), List.take_of_length_le (by omega)]
        exact h

/-- A byte that does not end the line is edited into it. -/
theorem Editing.process (h : Editing t line) (hend : ¬ IsLineEnd ch) (lines : List (List Byte)) :
    Editing (cookedProcessChar t ch) (Editor.type { lines := lines, line := line } ch).line ∧
      (Editor.type { lines := lines, line := line } ch).lines = lines := by
  have hcode : ¬ (ch = 10 ∨ ch = 13) := hend
  have hlen := h.length
  unfold cookedProcessChar Editor.type
  rw [if_neg hcode, if_neg hend]
  split_ifs with hback hsome hescape htab
  · refine ⟨⟨h.ready, h.pos, (Nat.sub_le _ _).trans h.len_le, ?_, h.cells⟩, rfl⟩
    exact (slice_pred t.lineBuf t.lineLen).trans (by rw [h.text])
  · have hnil : line = [] := List.length_eq_zero_iff.mp (by omega)
    subst hnil
    exact ⟨h, rfl⟩
  · exact ⟨⟨h.ready, h.pos, Nat.zero_le _, rfl, h.cells.store (by decide) 0⟩, rfl⟩
  · exact ⟨h.appendSpaces 4, rfl⟩
  · exact ⟨h.append ch, rfl⟩

/-- The end of a line, behind what there is in the buffer. -/
theorem process_end (hend : IsLineEnd ch) (hroom : t.lineLen < ttyLineBuf - 1)
    (hcells : InBuffer t) :
    Reading (cookedProcessChar t ch) (slice t.lineBuf 0 t.lineLen ++ [10]) := by
  have hback : ¬ (ch = 8 ∨ ch = 0x7F) := by
    rcases hend with rfl | rfl <;> decide
  have hlen : t.lineLen + 1 < ttyLineBuf := by unfold ttyLineBuf at *; omega
  unfold cookedProcessChar
  rw [if_neg hback, if_pos (show ch = 10 ∨ ch = 13 from hend)]
  refine ⟨rfl, Nat.succ_pos _, hlen, ?_, ?_⟩
  · exact (slice_store_after _ _ _ (le_refl _) 0).trans (slice_store t.lineBuf t.lineLen 10)
  · exact (hcells.store (by omega) 10).store hlen 0

theorem Editing.complete (h : Editing t line) (hend : IsLineEnd ch) :
    Reading (cookedProcessChar t ch) (line ++ [10]) := by
  have hroom : t.lineLen < ttyLineBuf - 1 := by
    have hle := h.len_le
    unfold maxLine ttyLineBuf at *
    omega
  rw [← h.text]
  exact process_end hend hroom h.cells

/-- What is read comes out one character after another, and then a new line is edited. -/
theorem Reading.takeChar (h : Reading t left) :
    ∃ ch rest, left = ch :: rest ∧ t.takeChar.2 = some ch ∧
      (Reading t.takeChar.1 rest ∨ (rest = [] ∧ Editing t.takeChar.1 [])) := by
  have hlt : t.linePos < (slice t.lineBuf 0 t.lineLen).length := by
    rw [length_slice]
    exact h.pos_lt
  have hleft := h.text
  rw [List.drop_eq_getElem_cons hlt] at hleft
  have hch : (slice t.lineBuf 0 t.lineLen)[t.linePos] = t.lineBuf t.linePos := by
    simp [slice]
  rw [hch] at hleft
  refine ⟨_, _, hleft.symm, ?_, ?_⟩
  · unfold Tty.takeChar
    rw [if_pos ⟨h.ready, h.pos_lt⟩]
  · unfold Tty.takeChar
    rw [if_pos ⟨h.ready, h.pos_lt⟩]
    dsimp only
    split_ifs with hlast
    · refine .inr ⟨List.drop_eq_nil_of_le (by rw [length_slice]; exact hlast), rfl, rfl,
        Nat.zero_le _, rfl, h.cells⟩
    · exact .inl ⟨h.ready, Nat.not_le.mp hlast, h.len_lt, rfl, h.cells⟩

theorem Editing.takeChar (h : Editing t line) : t.takeChar = (t, none) := by
  unfold Tty.takeChar
  rw [if_neg]
  rw [h.ready]
  exact fun hready => absurd hready.1 (by decide)

end Process

/-! ### The characters returned -/

/-- The characters returned are the lines that the editor has completed, up to those that are
still being read. -/
inductive TtyShows (t : Tty) (typed returned : List Byte) : Prop where
  | editing (hediting : Editing t (edit typed).line)
      (hreturned : returned = (edit typed).lines.flatten)
  | reading (left : List Byte) (hreading : Reading t left) (hline : (edit typed).line = [])
      (hreturned : (edit typed).lines.flatten = returned ++ left)

section TtyShows

variable {t : Tty} {typed returned : List Byte} {ch : Byte}

/-- The sources are no part of it. -/
theorem TtyShows.sources (h : TtyShows t typed returned) (keyboard serial : List Byte) :
    TtyShows { t with keyboard := keyboard, serial := serial } typed returned := by
  cases h with
  | editing hediting hreturned =>
      exact .editing ⟨hediting.ready, hediting.pos, hediting.len_le, hediting.text, hediting.cells⟩
        hreturned
  | reading left hreading hline hreturned =>
      exact .reading left
        ⟨hreading.ready, hreading.pos_lt, hreading.len_lt, hreading.text, hreading.cells⟩
        hline hreturned

theorem edit_snoc (typed : List Byte) (ch : Byte) :
    edit (typed ++ [ch]) = (edit typed).type ch := edit_append typed [ch]

theorem Editor.type_end (e : Editor) (hend : IsLineEnd ch) :
    e.type ch = { lines := e.lines ++ [e.line ++ [10]], line := [] } := by
  have hback : ¬ (ch = 8 ∨ ch = 0x7F) := by
    rcases hend with rfl | rfl <;> decide
  unfold Editor.type
  rw [if_neg hback, if_pos hend]

/-- A byte that meets no complete line. -/
theorem TtyShows.process (hediting : Editing t (edit typed).line)
    (hreturned : returned = (edit typed).lines.flatten) (ch : Byte) :
    TtyShows (cookedProcessChar t ch) (typed ++ [ch]) returned := by
  by_cases hend : IsLineEnd ch
  · refine .reading _ (hediting.complete hend) ?_ ?_
    · rw [edit_snoc, Editor.type_end _ hend]
    · rw [edit_snoc, Editor.type_end _ hend, hreturned]
      simp
  · obtain ⟨hline, hlines⟩ := hediting.process hend (edit typed).lines
    refine .editing ?_ ?_
    · rw [edit_snoc]
      exact hline
    · rw [edit_snoc, hreturned]
      exact congrArg List.flatten hlines.symm

/-- The end of an empty line, right behind a complete one. -/
theorem TtyShows.process_empty {left : List Byte} (hreading : Reading t left)
    (hline : (edit typed).line = []) (hreturned : (edit typed).lines.flatten = returned ++ left)
    (hpos : t.linePos = 0) (hroom : t.lineLen < ttyLineBuf - 1) (hend : IsLineEnd ch) :
    TtyShows (cookedProcessChar t ch) (typed ++ [ch]) returned := by
  have htext := hreading.text
  rw [hpos, List.drop_zero] at htext
  refine .reading _ (process_end hend hroom hreading.cells) ?_ ?_
  · rw [edit_snoc, Editor.type_end _ hend]
  · rw [edit_snoc, Editor.type_end _ hend, hline, htext]
    simp [hreturned]

theorem TtyShows.takeChar (h : TtyShows t typed returned) :
    TtyShows t.takeChar.1 typed (returned ++ t.takeChar.2.toList) := by
  cases h with
  | editing hediting hreturned =>
      rw [hediting.takeChar]
      refine .editing hediting ?_
      rw [hreturned]
      exact List.append_nil _
  | reading left hreading hline hreturned =>
      obtain ⟨ch, rest, rfl, hch, hafter⟩ := hreading.takeChar
      rw [hch]
      have hmore : (edit typed).lines.flatten = returned ++ [ch] ++ rest := by
        rw [hreturned, List.append_assoc, List.singleton_append]
      rcases hafter with hafter | ⟨rfl, hafter⟩
      · exact .reading rest hafter hline hmore
      · refine .editing (hline ▸ hafter) ?_
        rw [hmore, List.append_nil]
        rfl

end TtyShows

/-! ### One call -/

/-- The parts that editing leaves alone. -/
structure SameSources (t t' : Tty) : Prop where
  mode : t'.mode = t.mode
  keyboard : t'.keyboard = t.keyboard
  serial : t'.serial = t.serial

theorem append_sources (t : Tty) (c : Byte) : SameSources t (t.append c) := by
  unfold Tty.append
  split_ifs
  · exact ⟨rfl, rfl, rfl⟩
  · exact ⟨rfl, rfl, rfl⟩

theorem appendSpaces_sources (n : Nat) : ∀ t : Tty, SameSources t (t.appendSpaces n) := by
  induction n with
  | zero => exact fun t => ⟨rfl, rfl, rfl⟩
  | succ n ih =>
      intro t
      unfold Tty.appendSpaces
      split_ifs
      · have hfirst := append_sources t 32
        have hrest := ih (t.append 32)
        exact ⟨hrest.mode.trans hfirst.mode, hrest.keyboard.trans hfirst.keyboard,
          hrest.serial.trans hfirst.serial⟩
      · exact ⟨rfl, rfl, rfl⟩

theorem cookedProcessChar_sources (t : Tty) (ch : Byte) :
    SameSources t (cookedProcessChar t ch) := by
  unfold cookedProcessChar
  split_ifs
  · exact ⟨rfl, rfl, rfl⟩
  · exact ⟨rfl, rfl, rfl⟩
  · exact ⟨rfl, rfl, rfl⟩
  · exact ⟨rfl, rfl, rfl⟩
  · exact appendSpaces_sources 4 t
  · exact append_sources t ch

theorem takeChar_mode (t : Tty) : t.takeChar.1.mode = t.mode := by
  unfold Tty.takeChar
  split_ifs
  · dsimp only
    split_ifs <;> rfl
  · rfl

/-- No call finds a byte on the serial line after the byte of the keyboard has completed the
line, unless it ends an empty line and there is room for that. -/
def TtyAllowed (r : TtyRun) : TtyEvent → Prop
  | .read =>
      r.tty.lineReady = true ∨
        ∀ k ∈ r.tty.keyboard.head?, ∀ s ∈ r.tty.serial.head?, IsLineEnd k →
          IsLineEnd s ∧ r.tty.lineLen + 1 < ttyLineBuf - 1
  | _ => True

/-- What holds at any time: the terminal is cooked, and shows what was returned. -/
structure TtyOk (r : TtyRun) : Prop where
  mode : r.tty.mode = .cooked
  shows : TtyShows r.tty r.typed r.returned

/-- The length and the place after the end of a line. -/
theorem process_end_at {t : Tty} {ch : Byte} (hend : IsLineEnd ch) :
    (cookedProcessChar t ch).linePos = 0 ∧ (cookedProcessChar t ch).lineLen = t.lineLen + 1 := by
  have hback : ¬ (ch = 8 ∨ ch = 0x7F) := by
    rcases hend with rfl | rfl <;> decide
  unfold cookedProcessChar
  rw [if_neg hback, if_pos (show ch = 10 ∨ ch = 13 from hend)]
  exact ⟨rfl, rfl⟩

section Call

variable {t : Tty} {typed returned : List Byte}

/-- The byte of the serial line, when no line is complete. -/
theorem TtyShows.process_serial (hediting : Editing t (edit typed).line)
    (hreturned : returned = (edit typed).lines.flatten) :
    TtyShows (processNext t.readSerial) (typed ++ t.serial.head?.toList) returned := by
  have hsource : Editing t.readSerial.1 (edit typed).line :=
    ⟨hediting.ready, hediting.pos, hediting.len_le, hediting.text, hediting.cells⟩
  unfold processNext
  cases hs : t.serial.head? with
  | none =>
      rw [show t.readSerial.2 = none from hs, Option.toList_none, List.append_nil]
      exact .editing hsource hreturned
  | some ch =>
      rw [show t.readSerial.2 = some ch from hs]
      exact .process hsource hreturned ch

/-- The two bytes that a call takes while a line is edited. -/
theorem TtyShows.process_both (hediting : Editing t (edit typed).line)
    (hreturned : returned = (edit typed).lines.flatten)
    (hallowed : ∀ k ∈ t.keyboard.head?, ∀ s ∈ t.serial.head?, IsLineEnd k →
      IsLineEnd s ∧ t.lineLen + 1 < ttyLineBuf - 1) :
    TtyShows (processNext (processNext t.readKeyboard).readSerial)
      (typed ++ (t.keyboard.head?.toList ++ t.serial.head?.toList)) returned := by
  have hsource : Editing t.readKeyboard.1 (edit typed).line :=
    ⟨hediting.ready, hediting.pos, hediting.len_le, hediting.text, hediting.cells⟩
  rw [← List.append_assoc]
  cases hk : t.keyboard.head? with
  | none =>
      have hfirst : processNext t.readKeyboard = t.readKeyboard.1 := by
        unfold processNext
        rw [show t.readKeyboard.2 = none from hk]
      rw [hfirst, Option.toList_none, List.append_nil]
      exact process_serial hsource hreturned
  | some k =>
      have hfirst : processNext t.readKeyboard = cookedProcessChar t.readKeyboard.1 k := by
        unfold processNext
        rw [show t.readKeyboard.2 = some k from hk]
      have hserial : (cookedProcessChar t.readKeyboard.1 k).serial = t.serial :=
        (cookedProcessChar_sources t.readKeyboard.1 k).serial
      rw [hfirst, Option.toList_some, ← hserial]
      by_cases hend : IsLineEnd k
      · -- The line is complete: only the end of an empty one may follow.
        have hreading := hsource.complete hend
        have hline : (edit (typed ++ [k])).line = [] := by rw [edit_snoc, Editor.type_end _ hend]
        have hlines : (edit (typed ++ [k])).lines.flatten =
            returned ++ ((edit typed).line ++ [10]) := by
          rw [edit_snoc, Editor.type_end _ hend, hreturned]
          simp
        obtain ⟨hpos, hlen⟩ := process_end_at (t := t.readKeyboard.1) hend
        unfold processNext
        cases hs : (cookedProcessChar t.readKeyboard.1 k).serial.head? with
        | none =>
            rw [show (cookedProcessChar t.readKeyboard.1 k).readSerial.2 = none from hs,
              Option.toList_none, List.append_nil]
            exact (TtyShows.reading _ hreading hline hlines).sources _ _
        | some ch =>
            rw [show (cookedProcessChar t.readKeyboard.1 k).readSerial.2 = some ch from hs]
            rw [hserial] at hs
            obtain ⟨hend', hroom⟩ := hallowed k hk ch hs hend
            refine .process_empty ?_ hline hlines hpos ?_ hend'
            · exact ⟨hreading.ready, hreading.pos_lt, hreading.len_lt, hreading.text,
                hreading.cells⟩
            · exact hlen.symm ▸ hroom
      · obtain ⟨hline, hlines⟩ := hsource.process hend (edit typed).lines
        refine process_serial ?_ ?_
        · rw [edit_snoc]
          exact hline
        · rw [edit_snoc, hreturned]
          exact congrArg List.flatten hlines.symm

theorem processNext_mode (r : Tty × Option Byte) : (processNext r).mode = r.1.mode := by
  unfold processNext
  split
  · rfl
  · exact (cookedProcessChar_sources _ _).mode

end Call

theorem ttyOk_next {r : TtyRun} {e : TtyEvent} (h : TtyOk r) (hallowed : TtyAllowed r e) :
    TtyOk (r.next e) := by
  cases e with
  | key ch => exact ⟨h.mode, h.shows.sources _ _⟩
  | line ch => exact ⟨h.mode, h.shows.sources _ _⟩
  | read =>
      have htake := h.shows.takeChar
      have hmode := takeChar_mode r.tty
      unfold TtyRun.next ttyReadChar
      rw [h.mode]
      dsimp only
      cases hshows : h.shows with
      | reading left hreading hline hreturned =>
          -- A complete line is read on, and nothing is taken from the sources.
          obtain ⟨ch, rest, -, hch, -⟩ := hreading.takeChar
          have hpair : r.tty.takeChar = (r.tty.takeChar.1, some ch) := Prod.ext rfl hch
          have hnothing : r.tty.taken = [] := if_pos ⟨hreading.ready, hreading.pos_lt⟩
          rw [hch] at htake
          rw [hnothing, List.append_nil, hpair]
          exact ⟨hmode.trans h.mode, htake⟩
      | editing hediting hreturned =>
          have hnot : ¬ (r.tty.lineReady = true ∧ r.tty.linePos < r.tty.lineLen) := by
            rw [hediting.ready]
            exact fun hready => absurd hready.1 (by decide)
          have htaken : r.tty.taken = r.tty.keyboard.head?.toList ++ r.tty.serial.head?.toList :=
            if_neg hnot
          have hboth := TtyShows.process_both hediting hreturned
            (hallowed.resolve_left (by rw [hediting.ready]; decide))
          rw [hediting.takeChar, htaken]
          dsimp only
          refine ⟨?_, hboth.takeChar⟩
          rw [takeChar_mode, processNext_mode]
          exact (processNext_mode _).trans h.mode

/-! ### Every run -/

/-- The stores stay in the buffer, the readers got the beginning of the lines completed, and all
of them when no line is being read. -/
structure CookedOk (r : TtyRun) : Prop where
  cells : ∀ i ∈ r.tty.cells, i < ttyLineBuf
  returned : r.returned <+: (edit r.typed).lines.flatten
  whole : r.tty.lineReady = false → r.returned = (edit r.typed).lines.flatten

theorem TtyOk.cooked {r : TtyRun} (h : TtyOk r) : CookedOk r := by
  cases h.shows with
  | editing hediting hreturned =>
      exact ⟨hediting.cells, hreturned ▸ List.prefix_refl _, fun _ => hreturned⟩
  | reading left hreading hline hreturned =>
      refine ⟨hreading.cells, ⟨left, hreturned.symm⟩, fun hready => ?_⟩
      exact absurd (hready.symm.trans hreading.ready) (by decide)

theorem ttyOk_start : TtyOk ttyRunStart :=
  ⟨rfl, .editing ⟨rfl, rfl, Nat.zero_le _, rfl, fun _ hi => absurd hi (List.not_mem_nil)⟩ rfl⟩

def TtyStep (r : TtyRun) (e : TtyEvent) (r' : TtyRun) : Prop := r' = r.next e

/-- **The readers get complete, edited lines and nothing else, as long as no byte of the serial
line meets a line that the same call has completed.** -/
theorem tty_lines_whole {events : List TtyEvent} {r : TtyRun}
    (hrun : Executes (Guarded TtyAllowed TtyStep) ttyRunStart events r) : CookedOk r := by
  have hstep : ∀ s e s', TtyOk s → Guarded TtyAllowed TtyStep s e s' → TtyOk s' := by
    rintro s e s' h ⟨hallowed, rfl⟩
    exact ttyOk_next h hallowed
  exact (hrun.invariant hstep ttyOk_start).cooked

/-- A line from the keyboard with a character taken back, and an empty line behind it. -/
theorem tty_lines_whole_edited :
    ∃ r, Executes (Guarded TtyAllowed TtyStep) ttyRunStart
        [.key 108, .line 116, .read, .key 8, .read, .key 115, .read, .key 10, .line 13, .read, .read,
          .read] r ∧ CookedOk r := by
  have hrun : Executes (Guarded TtyAllowed TtyStep) ttyRunStart
      [.key 108, .line 116, .read, .key 8, .read, .key 115, .read, .key 10, .line 13, .read, .read,
        .read] _ :=
    .cons ⟨trivial, rfl⟩ (.cons ⟨trivial, rfl⟩ (.cons ⟨.inr (by decide +kernel), rfl⟩
      (.cons ⟨trivial, rfl⟩ (.cons ⟨.inr (by decide +kernel), rfl⟩ (.cons ⟨trivial, rfl⟩
      (.cons ⟨.inr (by decide +kernel), rfl⟩ (.cons ⟨trivial, rfl⟩ (.cons ⟨trivial, rfl⟩
      (.cons ⟨.inr (by decide +kernel), rfl⟩ (.cons ⟨.inl (by decide +kernel), rfl⟩
      (.cons ⟨.inl (by decide +kernel), rfl⟩ (.nil _))))))))))))
  exact ⟨_, hrun, tty_lines_whole hrun⟩

/-- The keyboard completes a line, and the serial line sends the first character of another. -/
theorem tty_unfinished_read :
    ∃ r, Executes TtyStep ttyRunStart [.key 10, .line 120, .read, .read] r ∧
      r.returned = [10, 120] ∧ (edit r.typed).line = [120] ∧ ¬ CookedOk r := by
  refine ⟨_, .cons rfl (.cons rfl (.cons rfl (.cons rfl (.nil _)))), by decide +kernel,
    by decide +kernel, fun h => ?_⟩
  have hlong := h.returned.length_le
  exact absurd hlong (by decide +kernel)

end BrightS
