/-
The line editor as an editor of texts.

The loop works on a buffer, a length and rows of a history that are copied about; what it is for
can be said of texts alone (`Edit`).  `editor_refines` says that the loop is that editor: whatever
keys are pressed and whatever the lines do, it never stores outside a buffer and its buffer holds
the text.  The terminal shows the prompt and the text behind it as long as nothing that was
printed went back over it (`PrintsForward`), as some commands of the shell do.

What the history then is needs no buffers either: the last 32 lines that were entered, without
those that repeat the one before (`history_recent`).
-/
import BrightS.Kernel.LineEditor
import BrightS.Lib.Rows
import BrightS.Proofs.RamfsFiles
import BrightS.Proofs.Strings

namespace BrightS

open Rows

/-! ### Editing texts -/

structure Edit (σ : Type) where
  shell : σ
  text : List UInt8
  escape : Nat
  history : List (List UInt8)
  /-- The row of the history that was shown last. -/
  nav : Nat
  /-- The lines that were handed on. -/
  entered : List (List UInt8)
  running : Bool

/-- The newest rows that there is room for. -/
def newest (rows : List (List UInt8)) : List (List UInt8) :=
  rows.drop (rows.length - lightshellHistorySize)

/-- Nothing is remembered of an empty line or one that was entered just before. -/
def Forgets (history : List (List UInt8)) (text : List UInt8) : Prop :=
  text = [] ∨ history.getLast? = some text

instance (history : List (List UInt8)) (text : List UInt8) : Decidable (Forgets history text) :=
  inferInstanceAs (Decidable (_ ∨ _))

def remember (history : List (List UInt8)) (text : List UInt8) : List (List UInt8) :=
  if Forgets history text then history else newest (history ++ [text])

def matchesOf (text : List UInt8) : List (List UInt8) :=
  commands.filter fun name => text.isPrefixOf name

def complete (text : List UInt8) : List UInt8 :=
  if text = [] then text else
  match matchesOf text with
  | [] => text
  | [name] => name ++ [32]
  | first :: others =>
      if text.length < commonLen first (first :: others) then
        first.take (commonLen first (first :: others))
      else text

section Edit

variable {σ : Type} (h : LineHandler σ)

def Edit.enter (e : Edit σ) : Edit σ :=
  let (shell, _, goOn) := h.handleLine e.shell e.text
  let next : Edit σ := { e with
    shell := shell, history := remember e.history e.text
    nav := if Forgets e.history e.text then e.nav else (remember e.history e.text).length
    entered := e.entered ++ [e.text], running := goOn }
  if goOn = true then { next with text := [], escape := 0 } else next

def Edit.plainKey (e : Edit σ) (ch : UInt8) : Edit σ :=
  if ch = 0x1B then { e with escape := 1 }
  else if ch = 13 ∨ ch = 10 then e.enter h
  else if (ch = 0x08 ∨ ch = 0x7F) ∧ e.text ≠ [] then { e with text := e.text.dropLast }
  else if ch = 0x09 then { e with text := complete e.text }
  else if 32 ≤ ch ∧ ch < 127 ∧ e.text.length < lightshellMaxLine - 1 then
    { e with text := e.text ++ [ch] }
  else e

/-- Behind the last row there is an empty one. -/
def Edit.show (e : Edit σ) (nav : Nat) : Edit σ :=
  { e with text := e.history.getD nav [], nav := nav }

def Edit.key (e : Edit σ) (ch : UInt8) : Edit σ :=
  if e.running = false then e
  else if e.escape = 1 ∧ ch = 91 then { e with escape := 2 }
  else
    let arrow := e.escape = 2 ∧ e.history ≠ []
    let e := { e with escape := 0 }
    if arrow ∧ ch = 65 then if 0 < e.nav then e.show (e.nav - 1) else e
    else if arrow ∧ ch = 66 then if e.nav < e.history.length then e.show (e.nav + 1) else e
    else e.plainKey h ch

end Edit

/-! ### Texts in buffers -/

/-- What can be typed. -/
def Typed (text : List UInt8) : Prop := ∀ b ∈ text, 32 ≤ b ∧ b < 127

/-- A text that fits a line. -/
structure LineText (text : List UInt8) : Prop where
  typed : Typed text
  fits : text.length < lightshellMaxLine

section Buffers

variable {buf : LineBuf} {text : List UInt8}

theorem Typed.plain (h : Typed text) : Glyphs text := by
  intro b hb
  obtain ⟨hlo, -⟩ := h b hb
  constructor <;> rintro rfl <;> exact absurd hlo (by decide)

theorem Typed.nonzero (h : Typed text) : (0 : UInt8) ∉ text := fun hb =>
  absurd (h 0 hb).1 (by decide)

theorem LineText.nil : LineText [] := ⟨fun _ hb => absurd hb List.not_mem_nil, by decide⟩

theorem LineText.take (h : LineText text) (n : Nat) : LineText (text.take n) :=
  ⟨fun b hb => h.typed b (List.mem_of_mem_take hb),
    lt_of_le_of_lt (List.length_take_le' n text) h.fits⟩

/-- The buffer begins with the text. -/
def Begins (buf : LineBuf) (text : List UInt8) : Prop := (List.range text.length).map buf = text

theorem begins_iff : Begins buf text ↔ ∀ i (hi : i < text.length), buf i = text[i] := by
  unfold Begins
  constructor
  · intro h i hi
    have hat := List.getElem_of_eq h (by simpa using hi)
    simpa using hat
  · intro h
    refine List.ext_getElem (by simp) fun i _ hi => ?_
    simpa using h i hi

theorem lineStr_eq (htext : LineText text) (hbegins : Begins buf text)
    (hend : buf text.length = 0) : lineStr buf = some text := by
  have hfits := htext.fits
  obtain ⟨n, hlong⟩ : ∃ n, lightshellMaxLine = text.length + (1 + n) :=
    ⟨lightshellMaxLine - (text.length + 1), by omega⟩
  have hsplit : (List.range lightshellMaxLine).map buf =
      text ++ 0 :: (List.range n).map fun k => buf (text.length + (1 + k)) := by
    rw [hlong, List.range_add, List.range_add, List.map_append, List.map_map, List.map_append,
      hbegins]
    simp [hend, Function.comp_def]
  unfold lineStr
  dsimp only
  rw [hsplit, if_pos (by simp), cStrOf_append htext.typed.nonzero, cStrOf_zero, List.append_nil]

theorem begins_update (h : Begins buf text) (b : UInt8) :
    Begins (Function.update buf text.length b) text := by
  rw [begins_iff] at h ⊢
  intro i hi
  rw [Function.update_of_ne (by omega), h i hi]

theorem setByte_eq {i : Nat} (hi : i < lightshellMaxLine) (b : UInt8) :
    setByte buf i b = some (Function.update buf i b) := if_pos hi

/-- The end is put behind the text. -/
theorem lineStr_ended (htext : LineText text) (h : Begins buf text) :
    lineStr (Function.update buf text.length 0) = some text :=
  lineStr_eq htext (begins_update h 0) (Function.update_self ..)

theorem lineCopy_begins (buf : LineBuf) (htext : LineText text) :
    Begins (lineCopy buf text) text ∧ lineCopy buf text text.length = 0 := by
  have hfits := htext.fits
  have hcopy : strCopy lightshellMaxLine text = text :=
    List.take_of_length_le (by unfold lightshellMaxLine at *; omega)
  unfold lineCopy
  rw [hcopy, begins_iff]
  constructor
  · intro i hi
    rw [storeBytes_apply, if_pos (by simp; omega), List.getD_eq_getElem _ _ (by simp; omega),
      List.getElem_append_left (by omega)]
    rfl
  · rw [storeBytes_apply, if_pos (by simp), List.getD_eq_getElem _ _ (by simp)]
    simp

theorem lineStr_copy (htext : LineText text) : lineStr (lineCopy buf text) = some text :=
  lineStr_eq htext (lineCopy_begins buf htext).1 (lineCopy_begins buf htext).2

theorem begins_setBytes (bytes : List UInt8) : ∀ {buf : LineBuf} {text : List UInt8},
    Begins buf text → text.length + bytes.length ≤ lightshellMaxLine →
    ∃ buf', setBytes buf text.length bytes = some buf' ∧ Begins buf' (text ++ bytes) := by
  induction bytes with
  | nil =>
      intro buf text h _
      exact ⟨buf, rfl, by rwa [List.append_nil]⟩
  | cons b rest ih =>
      intro buf text h hlen
      rw [List.length_cons] at hlen
      have hnext : Begins (Function.update buf text.length b) (text ++ [b]) := by
        have hold := begins_update h b
        rw [begins_iff] at hold ⊢
        intro i hi
        by_cases hlt : i < text.length
        · rw [hold i hlt, List.getElem_append_left hlt]
        · rw [List.length_append, List.length_singleton] at hi
          have heq : i = text.length := by omega
          subst heq
          rw [Function.update_self]
          simp
      obtain ⟨buf', hset, hbegins⟩ := ih hnext (by simp; omega)
      rw [List.length_append, List.length_singleton] at hset
      refine ⟨buf', ?_, by simpa using hbegins⟩
      rw [setBytes, setByte_eq (by omega)]
      exact hset

end Buffers

/-! ### The history -/

/-- The rows hold these lines. -/
structure HistoryHolds (rows : Nat → LineBuf) (history : List (List UInt8)) : Prop where
  size : history.length ≤ lightshellHistorySize
  texts : ∀ text ∈ history, LineText text
  held : ∀ i (hi : i < history.length), lineStr (rows i) = some history[i]

section History

variable {rows : Nat → LineBuf} {history : List (List UInt8)} {text : List UInt8}

theorem HistoryHolds.row (h : HistoryHolds rows history) {i : Nat} (hi : i < history.length) :
    historyRow rows i = some history[i] := by
  have hsize := h.size
  unfold historyRow
  rw [if_pos (by omega), Int.toNat_natCast]
  exact h.held i hi

/-- Each row in turn takes what stands in the next one. -/
theorem shiftHistory_eq : ∀ (rounds i : Nat) (rows : Nat → LineBuf),
    i + rounds < lightshellHistorySize →
    (∀ k, i < k → k ≤ i + rounds → ∃ text, lineStr (rows k) = some text ∧ LineText text) →
    ∃ rows', shiftHistory rounds i rows = some rows' ∧
      (∀ k, k < i ∨ i + rounds ≤ k → rows' k = rows k) ∧
      ∀ k, i ≤ k → k < i + rounds → lineStr (rows' k) = lineStr (rows (k + 1)) := by
  intro rounds
  induction rounds with
  | zero => exact fun i rows _ _ => ⟨rows, rfl, fun _ _ => rfl, fun k hlo hhi => by omega⟩
  | succ rounds ih =>
      intro i rows hsize htexts
      obtain ⟨text, htext, hline⟩ := htexts (i + 1) (by omega) (by omega)
      have hnext : historyRow rows (i + 1) = some text := by
        have hrow : historyRow rows ((i + 1 : Nat) : Int) = some text := by
          unfold historyRow
          rw [if_pos (by omega), Int.toNat_natCast]
          exact htext
        exact_mod_cast hrow
      have hother : ∀ k, k ≠ i → Function.update rows i (lineCopy (rows i) text) k = rows k :=
        fun k hk => Function.update_of_ne hk _ _
      obtain ⟨rows', hrest, hkept, hmoved⟩ := ih (i + 1)
        (Function.update rows i (lineCopy (rows i) text)) (by omega) (fun k hlo hhi => by
          rw [hother k (by omega)]
          exact htexts k (by omega) (by omega))
      refine ⟨rows', ?_, fun k hk => ?_, fun k hlo hhi => ?_⟩
      · rw [shiftHistory, hnext]
        exact hrest
      · rw [hkept k (by omega), hother k (by omega)]
      · by_cases hk : k = i
        · rw [hk, hkept i (by omega), Function.update_self, lineStr_copy hline, htext]
        · rw [hmoved k (by omega) (by omega), hother (k + 1) (by omega)]

/-- **Remembering a line** is what `history_add` does. -/
theorem historyAdd_remembers {σ : Type} {e : LineEditor σ} (h : HistoryHolds e.history history)
    (hcount : e.historyCount = history.length) (htext : LineText text) :
    ∃ rows nav, historyAdd e text = some { e with
        history := rows, historyCount := (remember history text).length
        historyNavIndex := nav } ∧
      HistoryHolds rows (remember history text) ∧
      nav = if Forgets history text then e.historyNavIndex
        else ((remember history text).length : Int) := by
  by_cases hforgets : Forgets history text
  · have hsame : remember history text = history := if_pos hforgets
    rw [hsame, ← hcount, if_pos hforgets]
    refine ⟨e.history, e.historyNavIndex, ?_, h, rfl⟩
    unfold historyAdd
    by_cases hempty : text = []
    · rw [if_pos hempty]
    · rw [if_neg hempty]
      have hlast := hforgets.resolve_left hempty
      have hpos : 0 < history.length := by
        cases history with
        | nil => exact absurd hlast (by simp)
        | cons first rest => exact Nat.zero_lt_succ _
      have hrow : historyRow e.history ((e.historyCount : Int) - 1) = some text := by
        have hat := h.row (i := history.length - 1) (by omega)
        rw [List.getLast?_eq_getElem?, List.getElem?_eq_some_iff] at hlast
        rw [hlast.2] at hat
        rw [← hat]
        congr 1
        omega
      have hrepeats : historyRepeats e text = some true := by
        unfold historyRepeats
        rw [if_pos (by omega), hrow]
        simp
      rw [hrepeats]
      rfl
  · have hnew : remember history text = newest (history ++ [text]) := if_neg hforgets
    unfold Forgets at hforgets
    rw [not_or] at hforgets
    -- The last row, if there is one, holds another line.
    have hother : historyRepeats e text = some false := by
      unfold historyRepeats
      by_cases hpos : 0 < e.historyCount
      · rw [if_pos hpos]
        have hat := h.row (i := history.length - 1) (by omega)
        have hcast : ((e.historyCount : Int) - 1) = ((history.length - 1 : Nat) : Int) := by omega
        rw [hcast, hat, Option.map_some]
        have hlast := hforgets.2
        rw [List.getLast?_eq_getElem?, List.getElem?_eq_getElem (by omega)] at hlast
        simpa using hlast
      · rw [if_neg hpos]
    have htexts : ∀ t ∈ newest (history ++ [text]), LineText t := by
      intro t ht
      rcases List.mem_append.mp (List.mem_of_mem_drop ht) with hin | hin
      · exact h.texts t hin
      · rw [List.mem_singleton.mp hin]
        exact htext
    have hsize := h.size
    rw [hnew, if_neg (by unfold Forgets; rw [not_or]; exact hforgets)]
    unfold historyAdd
    rw [if_neg hforgets.1, hother]
    by_cases hroom : e.historyCount < lightshellHistorySize
    · have hnewest : newest (history ++ [text]) = history ++ [text] := by
        unfold newest
        rw [List.length_append, List.length_singleton,
          show history.length + 1 - lightshellHistorySize = 0 by omega, List.drop_zero]
      rw [hnewest] at htexts ⊢
      refine ⟨Function.update e.history e.historyCount
        (lineCopy (e.history e.historyCount) text), _, ?_, ⟨?_, htexts, fun i hi => ?_⟩, rfl⟩
      · rw [hcount] at hroom ⊢
        simp [hroom]
      · simp
        omega
      · rw [List.length_append, List.length_singleton] at hi
        by_cases hlast : i = history.length
        · subst hlast
          have hat : Function.update e.history e.historyCount
              (lineCopy (e.history e.historyCount) text) history.length =
              lineCopy (e.history e.historyCount) text := by
            rw [← hcount, Function.update_self]
          rw [hat, lineStr_copy htext]
          simp
        · rw [Function.update_of_ne (by omega), h.held i (by omega),
            List.getElem_append_left (by omega)]
    · have hfull : history.length = lightshellHistorySize := by omega
      obtain ⟨rows', hshift, hkept, hmoved⟩ := shiftHistory_eq (lightshellHistorySize - 1) 0
        e.history (by decide) (fun k _ hk => ⟨_,
            h.held k (by unfold lightshellHistorySize at *; omega),
          h.texts _ (List.getElem_mem _)⟩)
      have hlen : (newest (history ++ [text])).length = lightshellHistorySize := by
        unfold newest
        simp [hfull]
      refine ⟨Function.update rows' (lightshellHistorySize - 1)
        (lineCopy (rows' (lightshellHistorySize - 1)) text), _, ?_,
        ⟨hlen.le, htexts, fun i hi => ?_⟩, rfl⟩
      · rw [hlen]
        simp [hshift, hcount, hfull]
      · rw [hlen] at hi
        have hat : newest (history ++ [text]) = (history ++ [text]).drop 1 := by
          simp [newest, hfull]
        simp only [hat, List.getElem_drop, Nat.add_comm 1 i]
        by_cases hlast : i = lightshellHistorySize - 1
        · subst hlast
          rw [Function.update_self, lineStr_copy htext]
          simp only [List.getElem_append, hfull, lightshellHistorySize]
          simp
        · rw [Function.update_of_ne hlast, hmoved i (by omega) (by omega),
            h.held (i + 1) (by omega),
            List.getElem_append_left (by omega)]

end History

/-! ### Completion -/

section Completion

variable {text : List UInt8}

theorem commands_short : ∀ name ∈ commands, (∀ b ∈ name, 32 ≤ b ∧ b < 127) ∧ name.length < 32 := by
  have hall : (commands.all fun name =>
      (name.all fun b => decide (32 ≤ b ∧ b < 127)) && decide (name.length < 32)) = true := by
    decide +kernel
  intro name hname
  simpa using List.all_eq_true.mp hall name hname

theorem mem_matchesOf {name : List UInt8} :
    name ∈ matchesOf text ↔ name ∈ commands ∧ text <+: name := by
  unfold matchesOf
  rw [List.mem_filter, List.isPrefixOf_iff_prefix]

theorem matchesOf_line {name : List UInt8} (h : name ∈ matchesOf text) :
    LineText name ∧ name.length < 32 := by
  obtain ⟨htyped, hshort⟩ := commands_short name (mem_matchesOf.mp h).1
  exact ⟨⟨htyped, by unfold lightshellMaxLine; omega⟩, hshort⟩

/-- What two names agree in is their longest common beginning. -/
theorem take_agreeLen_begins : ∀ a b : List UInt8, a.take (agreeLen a b) <+: b := by
  intro a
  induction a with
  | nil => exact fun b => List.nil_prefix
  | cons c a ih =>
      intro b
      cases b with
      | nil => exact List.nil_prefix
      | cons d b =>
          unfold agreeLen
          split_ifs with hcd
          · rw [List.take_succ_cons, hcd]
            exact List.cons_prefix_cons.mpr ⟨rfl, ih b⟩
          · exact List.nil_prefix

theorem agreeLen_longest {q : List UInt8} : ∀ {a b : List UInt8}, q <+: a → q <+: b →
    q.length ≤ agreeLen a b := by
  induction q with
  | nil => exact fun _ _ => Nat.zero_le _
  | cons c q ih =>
      rintro a b ⟨ra, rfl⟩ ⟨rb, rfl⟩
      rw [List.cons_append, List.cons_append, agreeLen, if_pos rfl, List.length_cons]
      exact Nat.succ_le_succ (ih (List.prefix_append ..) (List.prefix_append ..))

theorem agreeLen_le (a b : List UInt8) : agreeLen a b ≤ a.length := by
  induction a generalizing b with
  | nil => exact Nat.le_refl _
  | cons c a ih =>
      cases b with
      | nil => exact Nat.zero_le _
      | cons d b =>
          unfold agreeLen
          split_ifs
          · exact Nat.succ_le_succ (ih b)
          · exact Nat.zero_le _

/-- The loop leaves what the first match and the last one agree in. -/
theorem commonLen_last (htext : text ≠ []) {first : List UInt8} (hfirst : text <+: first) :
    ∀ (others : List (List UInt8)), (∀ name ∈ others, text <+: name) →
      commonLen first (first :: others) =
        (others.getLast?.map (agreeLen first)).getD first.length := by
  have hpos : ∀ {name}, text <+: name → agreeLen first name ≠ 0 := by
    intro name hname hzero
    have hlong := agreeLen_longest hfirst hname
    exact htext (List.length_eq_zero_iff.mp (by omega))
  have hlen : first.length ≠ 0 := by
    intro hzero
    obtain ⟨rest, rfl⟩ := hfirst
    rw [List.length_append] at hzero
    exact htext (List.length_eq_zero_iff.mp (by omega))
  intro others
  induction others using List.reverseRecOn with
  | nil => exact fun _ => rfl
  | append_singleton others name ih =>
      intro hall
      have hrest := ih fun n hn => hall n (by simp [hn])
      have hstep : commonLen first (first :: (others ++ [name])) =
          if commonLen first (first :: others) = 0 then name.length else agreeLen first name := by
        unfold commonLen
        rw [← List.cons_append, List.foldl_append]
        rfl
      rw [hstep, hrest, List.getLast?_concat]
      rw [if_neg]
      · rfl
      · cases hlast : others.getLast? with
        | none => exact hlen
        | some last => exact hpos (hall last (by simp [List.mem_of_getLast? hlast]))

/-- In this list no match agrees less with the first one than the last one does. -/
theorem commands_last_least : ∀ name ∈ commands, ∀ k, k < name.length + 1 → 0 < k →
    ∀ other ∈ (matchesOf (name.take k)).tail,
      agreeLen ((matchesOf (name.take k)).headD []) ((matchesOf (name.take k)).getLastD []) ≤
        agreeLen ((matchesOf (name.take k)).headD []) other := by
  decide +kernel

/-- **Completion** by what all matches have in common. -/
theorem common_longest {first : List UInt8} {others : List (List UInt8)} (htext : text ≠ [])
    (hmatches : matchesOf text = first :: others) (hothers : others ≠ []) :
    (∀ name ∈ matchesOf text, first.take (commonLen first (first :: others)) <+: name) ∧
      (∀ q, (∀ name ∈ matchesOf text, q <+: name) →
        q <+: first.take (commonLen first (first :: others))) ∧
      text.length ≤ commonLen first (first :: others) ∧
      commonLen first (first :: others) ≤ first.length := by
  have hbegins : ∀ name ∈ first :: others, text <+: name := by
    intro name hname
    rw [← hmatches] at hname
    exact (mem_matchesOf.mp hname).2
  obtain ⟨last, hlast⟩ : ∃ last, others.getLast? = some last :=
    Option.isSome_iff_exists.mp (by simpa using hothers)
  have hlastmem := List.mem_of_getLast? hlast
  have hcommon : commonLen first (first :: others) = agreeLen first last := by
    rw [commonLen_last htext (hbegins first (by simp)) others fun n hn => hbegins n (by simp [hn]),
      hlast]
    rfl
  have hle := agreeLen_le first last
  rw [hcommon, hmatches]
  refine ⟨?_, ?_, agreeLen_longest (hbegins first (by simp)) (hbegins last (by simp [hlastmem])),
    hle⟩
  · -- The text begins the first match, so it is one of the finitely many beginnings of names.
    have hfirst : first ∈ commands ∧ text <+: first :=
      mem_matchesOf.mp (by rw [hmatches]; exact List.mem_cons_self ..)
    have htake : first.take text.length = text := List.prefix_iff_eq_take.mp hfirst.2 |>.symm
    have hleast := commands_last_least first hfirst.1 text.length
      (by have := hfirst.2.length_le; omega) (List.length_pos_of_ne_nil htext)
    rw [htake, hmatches] at hleast
    intro name hname
    rcases List.mem_cons.mp hname with rfl | hin
    · exact List.take_prefix ..
    · have hat : (first :: others).getLastD [] = last := by
        rw [List.getLastD_eq_getLast?, List.getLast?_cons, hlast]
        rfl
      have hless := hleast name hin
      rw [hat, List.headD_cons] at hless
      exact (List.take_prefix_take_left hless).trans (take_agreeLen_begins first name)
  · intro q hq
    have hqlast := agreeLen_longest (hq first (by simp)) (hq last (by simp [hlastmem]))
    rw [List.prefix_take_iff]
    exact ⟨hq first (by simp), hqlast⟩

theorem complete_none (htext : text ≠ []) (hmatches : matchesOf text = []) :
    complete text = text := by
  rw [complete, if_neg htext, hmatches]

theorem complete_one (htext : text ≠ []) (name : List UInt8) (hmatches : matchesOf text = [name]) :
    complete text = name ++ [32] := by
  rw [complete, if_neg htext, hmatches]

theorem complete_several (htext : text ≠ []) (hlen : 2 ≤ (matchesOf text).length) :
    (∀ name ∈ matchesOf text, complete text <+: name) ∧
      ∀ q, (∀ name ∈ matchesOf text, q <+: name) → q <+: complete text := by
  obtain ⟨first, second, others, hmatches⟩ : ∃ first second others,
      matchesOf text = first :: second :: others := by
    match hmatches : matchesOf text with
    | [] | [_] => simp [hmatches] at hlen
    | first :: second :: others => exact ⟨first, second, others, rfl⟩
  obtain ⟨hall, hlongest, hlong, -⟩ := common_longest htext hmatches (by simp)
  have hcomplete : complete text = first.take (commonLen first (first :: second :: others)) := by
    rw [complete, if_neg htext, hmatches]
    dsimp only
    split_ifs with hmore
    · rfl
    · -- The text itself is all there is in common.
      have hfirst : text <+: first := (mem_matchesOf.mp (by rw [hmatches]; simp)).2
      rw [show commonLen first (first :: second :: others) = text.length by omega]
      exact List.prefix_iff_eq_take.mp hfirst
  rw [hcomplete]
  exact ⟨hall, hlongest⟩

theorem complete_line (h : LineText text) : LineText (complete text) := by
  unfold complete
  split_ifs with hempty
  · exact h
  cases hmatches : matchesOf text with
  | nil => exact h
  | cons first others =>
      have hmem : first ∈ matchesOf text := by
        rw [hmatches]
        exact List.mem_cons_self ..
      obtain ⟨hfirst, hshort⟩ := matchesOf_line hmem
      cases others with
      | nil =>
          refine ⟨fun b hb => ?_, ?_⟩
          · rcases List.mem_append.mp hb with hin | hin
            · exact hfirst.typed b hin
            · rw [List.mem_singleton.mp hin]
              decide
          · rw [List.length_append, List.length_singleton, lightshellMaxLine]
            omega
      | cons second others =>
          dsimp only
          split_ifs
          · exact hfirst.take _
          · exact h

/-- The cursor stands behind the prompt and the text. -/
def ShowsText (prompt text : List UInt8) (r : Row) : Prop :=
  (∃ before, r.left = before ++ prompt ++ text) ∧ r.Clear

section ShowsText

variable {prompt : List UInt8} {r : Row}

theorem rubOut_eq : rubOut = [backspace, blank, backspace] := rfl

/-- The text is erased, and another one printed. -/
theorem ShowsText.replace (h : ShowsText prompt text r) {new : List UInt8} (hnew : Glyphs new) :
    ShowsText prompt new (r.write (clearLine text.length ++ new)) := by
  obtain ⟨⟨before, hleft⟩, hclear⟩ := h
  have hrow : r = ⟨(before ++ prompt) ++ text, r.right⟩ := by
    rw [← hleft]
  obtain ⟨right, hright, hwrite⟩ := write_erases (before ++ prompt) text hclear
  unfold clearLine
  rw [rubOut_eq, write_append, hrow, hwrite, write_plain _ hnew]
  exact ⟨⟨before, rfl⟩, fun b hb => hright b (List.mem_of_mem_drop hb)⟩

/-- More text is printed. -/
theorem ShowsText.append (h : ShowsText prompt text r) {new : List UInt8} (hnew : Glyphs new) :
    ShowsText prompt (text ++ new) (r.write new) := by
  obtain ⟨⟨before, hleft⟩, hclear⟩ := h
  refine ⟨⟨before, ?_⟩, hclear.plain hnew⟩
  rw [write_plain _ hnew, hleft]
  simp

/-- Whatever is printed without going back, the prompt comes behind it. -/
theorem shows_prompt {printed : List UInt8} (hclear : r.Clear)
    (hprinted : ∀ b ∈ printed, b ≠ backspace) (hprompt : Glyphs prompt) :
    ShowsText prompt [] (r.write (printed ++ prompt)) := by
  have hforward := hclear.forward hprinted
  rw [write_append]
  refine ⟨⟨(r.write printed).left, ?_⟩, hforward.plain hprompt⟩
  rw [write_plain _ hprompt, List.append_nil]

theorem write_newline (r : Row) (bytes : List UInt8) :
    r.write (lineFeed :: bytes) = Row.write ⟨[], []⟩ bytes := by
  rw [Row.write, List.foldl_cons, Row.feed, if_pos rfl]
  rfl

end ShowsText

/-- The buffer, its length and the terminal after a tab. -/
theorem tabComplete_completes (prompt : List UInt8) {line : LineBuf} (h : LineText text)
    (hbegins : Begins line text) (hend : line text.length = 0) :
    ∃ line' out, tabComplete prompt line text.length = some (line', (complete text).length, out) ∧
      Begins line' (complete text) ∧
      (Glyphs prompt → ∀ r, ShowsText prompt text r →
        ShowsText prompt (complete text) (r.write out)) := by
  have hline := complete_line h
  have hmax : lightshellMaxLine = 256 := rfl
  by_cases hempty : text = []
  · have hsame : complete text = text := if_pos hempty
    rw [hsame]
    refine ⟨line, [], ?_, hbegins, fun _ r hr => hr⟩
    rw [hempty]
    rfl
  have hlen : ¬ text.length = 0 := fun hzero => hempty (List.length_eq_zero_iff.mp hzero)
  unfold tabComplete
  rw [if_neg hlen, lineStr_eq h hbegins hend, Option.bind_some]
  have hfilter : (commands.filter fun name => text.isPrefixOf name) = matchesOf text := rfl
  rw [hfilter]
  unfold complete at hline ⊢
  rw [if_neg hempty] at hline ⊢
  match hmatches : matchesOf text with
  | [] => exact ⟨line, [], rfl, hbegins, fun _ r hr => hr⟩
  | [name] =>
      rw [hmatches] at hline
      have hmem : name ∈ matchesOf text := by
        rw [hmatches]
        exact List.mem_cons_self ..
      obtain ⟨hname, hshort⟩ := matchesOf_line hmem
      have hcopied := (lineCopy_begins line hname).1
      obtain ⟨line', hset, hbegins'⟩ := begins_setBytes [32] hcopied (by simp; omega)
      have hset' : setByte (lineCopy line name) name.length 32 = some line' := by
        rw [setBytes] at hset
        obtain ⟨buf, hbuf, hrest⟩ := Option.bind_eq_some_iff.mp hset
        rw [hbuf]
        exact hrest
      have hlength : (name ++ [32]).length = name.length + 1 := by simp
      dsimp only at hline ⊢
      refine ⟨Function.update line' (name.length + 1) 0,
        clearLine text.length ++ (name ++ [32]), ?_, ?_, fun _ r hr => hr.replace hline.typed.plain⟩
      · have hended := lineStr_ended hline hbegins'
        rw [hlength] at hended
        simp [hset', setByte_eq (show name.length + 1 < lightshellMaxLine by omega), hended]
      · have hupdate := begins_update hbegins' 0
        rwa [hlength] at hupdate
  | first :: second :: others =>
      rw [hmatches] at hline
      obtain ⟨-, -, hlong, hshort⟩ := common_longest hempty hmatches (by simp)
      have hmem : first ∈ matchesOf text := by
        rw [hmatches]
        exact List.mem_cons_self ..
      obtain ⟨hfirst, hfirstlen⟩ := matchesOf_line hmem
      dsimp only at hline ⊢
      by_cases hmore : text.length < commonLen first (first :: second :: others)
      · rw [if_pos hmore] at hline ⊢
        rw [if_pos hmore]
        have hlength : (first.take (commonLen first (first :: second :: others))).length =
            commonLen first (first :: second :: others) := by
          rw [List.length_take]
          omega
        have hnil : Begins line [] := rfl
        obtain ⟨line', hset, hbegins'⟩ := begins_setBytes
          (first.take (commonLen first (first :: second :: others))) hnil (by simp; omega)
        rw [List.nil_append] at hbegins'
        refine ⟨Function.update line' (commonLen first (first :: second :: others)) 0,
          clearLine text.length ++ first.take (commonLen first (first :: second :: others)), ?_, ?_,
          fun _ r hr => hr.replace hline.typed.plain⟩
        · have hended := lineStr_ended hline hbegins'
          rw [hlength] at hended
          rw [List.length_nil] at hset
          simp only [hset, Option.bind_eq_bind, Option.bind_some, setByte_eq (show commonLen first
            (first :: second :: others) < lightshellMaxLine by omega), hended, hlength]
        · have hupdate := begins_update hbegins' 0
          rwa [hlength] at hupdate
      · rw [if_neg hmore, if_neg hmore]
        refine ⟨line, _, rfl, hbegins, fun hprompt r hr => ?_⟩
        -- Everything is printed anew, in a row of its own.
        have hprint : ∀ names : List (List UInt8), (∀ n ∈ names, LineText n) →
            ∀ b ∈ names.flatMap (· ++ [32]), b ≠ backspace := by
          intro names hnames b hb
          obtain ⟨n, hn, hin⟩ := List.mem_flatMap.mp hb
          rcases List.mem_append.mp hin with hin | hin
          · exact ((hnames n hn).typed.plain b hin).1
          · rw [List.mem_singleton.mp hin]
            decide
        have hnames := hprint (first :: second :: others) fun n hn => by
          rw [← hmatches] at hn
          exact (matchesOf_line hn).1
        have hsplit : [10] ++ (first :: second :: others).flatMap (· ++ [32]) ++ [10] ++ prompt ++
            text = ((lineFeed :: (first :: second :: others).flatMap (· ++ [32])) ++
              (lineFeed :: [] ++ prompt)) ++ text := by
          simp [lineFeed]
        have hclear :
            (r.write (lineFeed :: (first :: second :: others).flatMap (· ++ [32]))).Clear := by
          rw [write_newline]
          exact Row.Clear.forward (fun b hb => absurd hb List.not_mem_nil) hnames
        rw [hsplit, write_append, write_append]
        exact (shows_prompt hclear (by simp [lineFeed, backspace]) hprompt).append h.typed.plain

end Completion

/-! ### The loop -/

section Loop

variable {σ : Type} {h : LineHandler σ} {banner : List UInt8} {first : σ} {e : LineEditor σ}
  {a : Edit σ}

/-- The shell after it was handed the lines. -/
def shellAfter (h : LineHandler σ) (shell : σ) (lines : List (List UInt8)) : σ :=
  lines.foldl (fun s text => (h.handleLine s text).1) shell

theorem shellAfter_concat (h : LineHandler σ) (shell : σ) (lines : List (List UInt8))
    (text : List UInt8) : shellAfter h shell (lines ++ [text]) =
      (h.handleLine (shellAfter h shell lines) text).1 :=
  List.foldl_concat ..

/-- Nothing that was printed up to the last of the lines goes back, and no prompt begins a row. -/
structure PrintsForward (h : LineHandler σ) (banner : List UInt8) (shell : σ)
    (lines : List (List UInt8)) : Prop where
  banner : ∀ b ∈ banner, b ≠ backspace
  prompt : ∀ earlier, earlier <+: lines → Glyphs (h.prompt (shellAfter h shell earlier))
  printed : ∀ earlier text, earlier ++ [text] <+: lines →
    ∀ b ∈ (h.handleLine (shellAfter h shell earlier) text).2.1, b ≠ backspace

theorem PrintsForward.before {lines : List (List UInt8)} {text : List UInt8}
    (hf : PrintsForward h banner first (lines ++ [text])) : PrintsForward h banner first lines where
  banner := hf.banner
  prompt := fun earlier he => hf.prompt earlier (he.trans (List.prefix_append ..))
  printed := fun earlier text he => hf.printed earlier text (he.trans (List.prefix_append ..))

/-- A terminal that has just been cleared. -/
def clearRow : Row := ⟨[], []⟩

/-- The buffers hold what is edited, and the terminal shows it if nothing was printed over it. -/
structure Mirrors (h : LineHandler σ) (banner : List UInt8) (first : σ) (e : LineEditor σ)
    (a : Edit σ) : Prop where
  shell : e.shell = a.shell
  reached : a.shell = shellAfter h first a.entered
  running : e.running = a.running
  escape : e.escapeState = a.escape
  text : LineText a.text
  len : e.len = a.text.length
  line : Begins e.line a.text
  history : HistoryHolds e.history a.history
  count : e.historyCount = a.history.length
  nav : a.history ≠ [] → e.historyNavIndex = a.nav ∧ a.nav ≤ a.history.length
  screen : PrintsForward h banner first a.entered → a.running = true →
    ShowsText (h.prompt a.shell) a.text (clearRow.write e.out)

theorem Mirrors.prompt_glyphs (hm : Mirrors h banner first e a)
    (hf : PrintsForward h banner first a.entered) : Glyphs (h.prompt a.shell) := by
  rw [hm.reached]
  exact hf.prompt a.entered (List.prefix_refl _)

theorem Mirrors.len_lt (hm : Mirrors h banner first e a) : e.len < lightshellMaxLine := by
  rw [hm.len]
  exact hm.text.fits

/-- A new text in place of the old one. -/
theorem Mirrors.redraws (hm : Mirrors h banner first e a) {nav : Nat} {line : LineBuf} {new : List UInt8}
    (hrun : a.running = true) (hnew : LineText new) (hline : Begins line new)
    (hend : line new.length = 0) (hnav : nav ≤ a.history.length) :
    ∃ e', redraw e nav line = some e' ∧
      Mirrors h banner first e' { a with text := new, nav := nav } := by
  refine ⟨_, by rw [redraw, lineStr_eq hnew hline hend]; rfl, ?_⟩
  refine ⟨hm.shell, hm.reached, hm.running, hm.escape, hnew, rfl, hline, hm.history, hm.count,
    fun _ => ⟨rfl, hnav⟩, fun hf _ => ?_⟩
  have hscreen := (hm.screen hf hrun).replace hnew.typed.plain
  rw [← write_append, ← hm.len] at hscreen
  exact hscreen

theorem Mirrors.recalls (hm : Mirrors h banner first e a) (hrun : a.running = true) {nav : Nat}
    (hrow : nav < a.history.length) :
    ∃ e', recallRow e nav = some e' ∧ Mirrors h banner first e' (a.show nav) := by
  have htext := hm.history.texts _ (List.getElem_mem hrow)
  unfold recallRow Edit.show
  rw [hm.history.row hrow, Option.bind_some, List.getD_eq_getElem _ _ hrow]
  exact hm.redraws hrun htext (lineCopy_begins e.line htext).1 (lineCopy_begins e.line htext).2
    hrow.le

theorem Mirrors.recallsNext (hm : Mirrors h banner first e a) (hrun : a.running = true) {nav : Nat}
    (hnav : nav ≤ a.history.length) :
    ∃ e', recallNext e nav = some e' ∧ Mirrors h banner first e' (a.show nav) := by
  unfold recallNext
  by_cases hrow : nav < a.history.length
  · rw [if_pos (by rw [hm.count]; exact_mod_cast hrow)]
    exact hm.recalls hrun hrow
  · unfold Edit.show
    rw [if_neg (by rw [hm.count]; exact_mod_cast hrow), setByte_eq (by decide), Option.bind_some,
      List.getD_eq_default _ _ (Nat.not_lt.mp hrow)]
    exact hm.redraws hrun .nil rfl (Function.update_self ..) hnav

theorem Mirrors.enters (hm : Mirrors h banner first e a) (hrun : a.running = true) :
    ∃ e', enter h e = some e' ∧ Mirrors h banner first e' (a.enter h) := by
  -- What `history_add` leaves; it is not called for an empty line.
  obtain ⟨rows, nav, hadd, hhistory, hnav⟩ : ∃ rows nav,
      (if 0 < e.len then
          historyAdd { e.print [10] with line := Function.update e.line e.len 0 } a.text
        else some { e.print [10] with line := Function.update e.line e.len 0 }) =
        some { e.print [10] with
          line := Function.update e.line e.len 0, history := rows
          historyCount := (remember a.history a.text).length, historyNavIndex := nav } ∧
      HistoryHolds rows (remember a.history a.text) ∧
      nav = if Forgets a.history a.text then e.historyNavIndex
        else ((remember a.history a.text).length : Int) := by
    by_cases hempty : a.text = []
    · have hforgets : Forgets a.history a.text := .inl hempty
      have hsame : remember a.history a.text = a.history := if_pos hforgets
      have hlen : ¬ 0 < e.len := by
        rw [hm.len, hempty]
        simp
      rw [if_neg hlen, hsame, if_pos hforgets, ← hm.count]
      exact ⟨e.history, e.historyNavIndex, rfl, hm.history, rfl⟩
    · have hlen : 0 < e.len := by
        rw [hm.len]
        exact List.length_pos_of_ne_nil hempty
      rw [if_pos hlen]
      exact historyAdd_remembers
        (e := { e.print [10] with line := Function.update e.line e.len 0 }) hm.history hm.count
        hm.text
  have hended := lineStr_ended hm.text hm.line
  rw [← hm.len] at hended
  unfold enter
  rw [setByte_eq hm.len_lt, Option.bind_some, hended, Option.bind_some]
  refine ⟨_, congrArg (Option.map fun e => handOn h e a.text) hadd, ?_⟩
  have hupdate := begins_update hm.line 0
  rw [← hm.len] at hupdate
  have hnavs : remember a.history a.text ≠ [] → nav = ((if Forgets a.history a.text then a.nav
      else (remember a.history a.text).length : Nat) : Int) ∧
      (if Forgets a.history a.text then a.nav else (remember a.history a.text).length) ≤
        (remember a.history a.text).length := by
    intro hne
    by_cases hforgets : Forgets a.history a.text
    · have hsame : remember a.history a.text = a.history := if_pos hforgets
      rw [hsame] at hne ⊢
      rw [hnav, if_pos hforgets, if_pos hforgets]
      exact hm.nav hne
    · rw [hnav, if_neg hforgets, if_neg hforgets]
      exact ⟨rfl, Nat.le_refl _⟩
  obtain ⟨⟨shell, printed, goOn⟩, hresult⟩ : ∃ result, h.handleLine a.shell a.text = result :=
    ⟨_, rfl⟩
  have hreached : shell = shellAfter h first (a.entered ++ [a.text]) := by
    rw [shellAfter_concat, ← hm.reached, hresult]
  simp only [handOn, Edit.enter, LineEditor.print, hm.shell, hresult]
  cases goOn with
  | true =>
      rw [if_pos rfl, if_pos rfl]
      refine ⟨rfl, hreached, hm.running.trans hrun, rfl, .nil, rfl, rfl, hhistory, rfl, hnavs,
        fun hf _ => ?_⟩
      -- The line ends, the handler prints, and the prompt comes behind that.
      have hclear : (clearRow.write (e.out ++ [10])).Clear := by
        rw [write_append]
        exact (hm.screen hf.before hrun).2.forward (by simp [backspace])
      have hprinted := hf.printed a.entered a.text (List.prefix_refl _)
      rw [← hm.reached, hresult] at hprinted
      have hprompt := hf.prompt _ (List.prefix_refl _)
      rw [← hreached] at hprompt
      have hshows := shows_prompt hclear hprinted hprompt
      rwa [← write_append, ← List.append_assoc] at hshows
  | false =>
      rw [if_neg (by simp), if_neg (by simp)]
      exact ⟨rfl, hreached, rfl, hm.escape, hm.text, hm.len, hupdate, hhistory, rfl, hnavs,
        fun _ hgo => absurd hgo (by simp)⟩

theorem Mirrors.plainKeys (hm : Mirrors h banner first e a)
    (hrun : a.running = true) (ch : UInt8) :
    ∃ e', plainKey h e ch = some e' ∧ Mirrors h banner first e' (a.plainKey h ch) := by
  have hlt := hm.len_lt
  unfold plainKey Edit.plainKey
  by_cases hesc : ch = 0x1B
  · rw [if_pos hesc, if_pos hesc]
    exact ⟨_, rfl, { hm with escape := rfl }⟩
  rw [if_neg hesc, if_neg hesc]
  by_cases hend : ch = 13 ∨ ch = 10
  · rw [if_pos hend, if_pos hend]
    exact hm.enters hrun
  rw [if_neg hend, if_neg hend]
  have hpos : 0 < e.len ↔ a.text ≠ [] := by
    rw [hm.len]
    exact List.length_pos_iff
  by_cases hback : (ch = 0x08 ∨ ch = 0x7F) ∧ a.text ≠ []
  · rw [if_pos ⟨hback.1, hpos.mpr hback.2⟩, if_pos hback]
    have htext := List.dropLast_append_getLast hback.2
    refine ⟨_, rfl, { hm with
      text := ⟨fun b hb => hm.text.typed b (List.mem_of_mem_dropLast hb), ?_⟩
      len := by simp [hm.len], line := ?_, screen := fun hf _ => ?_ }⟩
    · rw [List.length_dropLast]
      exact lt_of_le_of_lt (Nat.sub_le _ _) hm.text.fits
    · have hline := hm.line
      rw [begins_iff] at hline ⊢
      intro i hi
      rw [List.getElem_dropLast]
      exact hline i _
    · obtain ⟨⟨before, hleft⟩, hclear⟩ := hm.screen hf hrun
      have hrow : clearRow.write e.out =
          ⟨(before ++ h.prompt a.shell ++ a.text.dropLast) ++ [a.text.getLast hback.2],
            (clearRow.write e.out).right⟩ := by
        rw [List.append_assoc, htext, ← hleft]
      change ShowsText _ _ (clearRow.write (e.out ++ rubOut))
      rw [write_append, hrow, rubOut_eq, write_erase]
      refine ⟨⟨before, rfl⟩, fun b hb => ?_⟩
      rcases List.mem_cons.mp hb with rfl | hin
      · rfl
      · exact hclear b hin
  rw [if_neg fun hb => hback ⟨hb.1, hpos.mp hb.2⟩, if_neg hback]
  by_cases htab : ch = 0x09
  · rw [if_pos htab, if_pos htab, setByte_eq hlt, Option.bind_some, hm.len, hm.shell]
    have hupdate := begins_update hm.line 0
    obtain ⟨line', out, htabbed, hline, hshows⟩ := tabComplete_completes (h.prompt a.shell) hm.text
      hupdate (Function.update_self ..)
    rw [htabbed]
    refine ⟨_, rfl, { hm with
      text := complete_line hm.text, len := rfl, line := hline, screen := fun hf _ => ?_ }⟩
    have hscreen := hshows (hm.prompt_glyphs hf) _ (hm.screen hf hrun)
    rwa [← write_append] at hscreen
  rw [if_neg htab, if_neg htab, hm.len]
  by_cases hprint : 32 ≤ ch ∧ ch < 127 ∧ a.text.length < lightshellMaxLine - 1
  · rw [if_pos hprint, if_pos hprint, setByte_eq hm.text.fits]
    have hch : Typed [ch] := fun b hb => by
      rw [List.mem_singleton.mp hb]
      exact ⟨hprint.1, hprint.2.1⟩
    obtain ⟨line', hset, hline⟩ := begins_setBytes [ch] hm.line
      (by have := hm.text.fits; simp; omega)
    have hsame : Function.update e.line a.text.length ch = line' := by
      rw [setBytes, setByte_eq hm.text.fits, Option.bind_some] at hset
      exact Option.some.inj hset
    refine ⟨_, rfl, { hm with
      text := ⟨fun b hb => (List.mem_append.mp hb).elim (hm.text.typed b) (hch b), ?_⟩
      len := by simp, line := ?_, screen := fun hf _ => ?_ }⟩
    · rw [List.length_append, List.length_singleton]
      omega
    · rw [hsame]
      exact hline
    · have hscreen := (hm.screen hf hrun).append hch.plain
      rwa [← write_append] at hscreen
  · rw [if_neg hprint, if_neg hprint]
    exact ⟨e, rfl, hm⟩

/-- **One key.** -/
theorem Mirrors.key (hm : Mirrors h banner first e a) (ch : UInt8) :
    ∃ e', e.key h ch = some e' ∧ Mirrors h banner first e' (a.key h ch) := by
  unfold LineEditor.key Edit.key
  rw [hm.escape]
  by_cases hrun : a.running = false
  · rw [if_pos (hm.running.trans hrun), if_pos hrun]
    exact ⟨e, rfl, hm⟩
  rw [if_neg fun hstop => hrun (hm.running.symm.trans hstop), if_neg hrun]
  rw [Bool.not_eq_false] at hrun
  by_cases hbracket : a.escape = 1 ∧ ch = 91
  · rw [if_pos hbracket, if_pos hbracket]
    exact ⟨_, rfl, { hm with escape := rfl }⟩
  rw [if_neg hbracket, if_neg hbracket]
  have hquiet : Mirrors h banner first { e with escapeState := 0 } { a with escape := 0 } :=
    { hm with escape := rfl }
  have harrow : (a.escape = 2 ∧ 0 < e.historyCount) ↔ (a.escape = 2 ∧ a.history ≠ []) := by
    rw [hm.count, List.length_pos_iff]
  dsimp only
  simp only [harrow]
  by_cases hup : (a.escape = 2 ∧ a.history ≠ []) ∧ ch = 65
  · rw [if_pos hup, if_pos hup]
    obtain ⟨hnav, hle⟩ := hm.nav hup.1.2
    by_cases hpos : 0 < a.nav
    · have hcast : e.historyNavIndex - 1 = ((a.nav - 1 : Nat) : Int) := by omega
      rw [if_pos (by omega), if_pos hpos, hcast]
      exact hquiet.recalls hrun (by dsimp only; omega)
    · rw [if_neg (by omega), if_neg hpos]
      exact ⟨_, rfl, hquiet⟩
  rw [if_neg hup, if_neg hup]
  by_cases hdown : (a.escape = 2 ∧ a.history ≠ []) ∧ ch = 66
  · rw [if_pos hdown, if_pos hdown]
    obtain ⟨hnav, hle⟩ := hm.nav hdown.1.2
    have hcount := hm.count
    by_cases hmore : a.nav < a.history.length
    · have hcast : e.historyNavIndex + 1 = ((a.nav + 1 : Nat) : Int) := by omega
      rw [if_pos (by omega), if_pos hmore, hcast]
      exact hquiet.recallsNext hrun hmore
    · rw [if_neg (by omega), if_neg hmore]
      exact ⟨_, rfl, hquiet⟩
  rw [if_neg hdown, if_neg hdown]
  exact hquiet.plainKeys hrun ch

/-- Nothing has been typed yet. -/
def Edit.start (shell : σ) : Edit σ := ⟨shell, [], 0, [], 0, [], true⟩

theorem Mirrors.start (h : LineHandler σ) (shell : σ) (line : LineBuf) (rows : Nat → LineBuf)
    (banner : List UInt8) :
    Mirrors h banner shell (LineEditor.start h shell line rows banner) (Edit.start shell) where
  shell := rfl
  reached := rfl
  running := rfl
  escape := rfl
  text := .nil
  len := rfl
  line := rfl
  history := ⟨Nat.zero_le _, fun _ hin => absurd hin List.not_mem_nil,
    fun _ hi => absurd hi (Nat.not_lt_zero _)⟩
  count := rfl
  nav := fun hne => absurd rfl hne
  screen := fun hf _ => shows_prompt (fun _ hb => absurd hb List.not_mem_nil) hf.banner
    (hf.prompt [] (List.prefix_refl _))

end Loop

/-- The keys one after the other. -/
def LineEditor.keys {σ : Type} (h : LineHandler σ) (e : LineEditor σ) (chs : List UInt8) :
    Option (LineEditor σ) := chs.foldlM (LineEditor.key h) e

def Edit.keys {σ : Type} (h : LineHandler σ) (a : Edit σ) (chs : List UInt8) : Edit σ :=
  chs.foldl (Edit.key h) a

theorem Mirrors.keys {σ : Type} {h : LineHandler σ} {banner : List UInt8} {first : σ}
    {e : LineEditor σ} {a : Edit σ} (hm : Mirrors h banner first e a) (chs : List UInt8) :
    ∃ e', e.keys h chs = some e' ∧ Mirrors h banner first e' (a.keys h chs) := by
  induction chs generalizing e a with
  | nil => exact ⟨e, rfl, hm⟩
  | cons ch rest ih =>
      obtain ⟨e', hkey, hnext⟩ := hm.key ch
      obtain ⟨e'', hrest, hlast⟩ := ih hnext
      exact ⟨e'', by rw [LineEditor.keys, List.foldlM_cons, hkey]; exact hrest, hlast⟩

/--
**The loop is an editor of texts.**  Whatever was in the buffers before, whatever keys are pressed
and whatever the lines do, all stores are inside the buffers and the editor holds what the editing
of texts leads to; and the terminal shows the prompt and the text behind it, with nothing right of
the cursor, unless something that was printed went back.
-/
theorem editor_refines {σ : Type} (h : LineHandler σ) (shell : σ) (line : LineBuf)
    (rows : Nat → LineBuf) (banner chs : List UInt8) :
    ∃ e, (LineEditor.start h shell line rows banner).keys h chs = some e ∧
      Mirrors h banner shell e ((Edit.start shell).keys h chs) :=
  (Mirrors.start h shell line rows banner).keys chs

/-- A shell that notes its lines and stops at an empty one. -/
def notes : LineHandler (List (List UInt8)) where
  handleLine := fun s text => (s ++ [text], text ++ [10], text ≠ [])
  prompt := fun _ => [36, 32]

theorem notes_forward {lines : List (List UInt8)} (h : ∀ text ∈ lines, LineText text) :
    PrintsForward notes [] [] lines where
  banner := fun _ hb => absurd hb List.not_mem_nil
  prompt := fun _ _ => Typed.plain (by simp [Typed, notes])
  printed := by
    intro earlier text hprefix b hb
    have htext := h text (List.IsPrefix.subset hprefix (by simp))
    rcases List.mem_append.mp hb with hin | hin
    · exact (htext.typed.plain b hin).1
    · rw [List.mem_singleton.mp hin]
      decide

/-- A line, the same line from the history, and `l` with what a tab makes of it. -/
theorem editor_refines_notes :
    ∃ e, (LineEditor.start notes [] (fun _ => 7) (fun _ _ => 7) []).keys notes
        [108, 115, 13, 27, 91, 65, 13, 108, 111, 9] = some e ∧
      e.shell = [[108, 115], [108, 115]] ∧
      ShowsText [36, 32] [108, 111, 103] (clearRow.write e.out) := by
  obtain ⟨e, hkeys, hm⟩ := editor_refines notes [] (fun _ => 7) (fun _ _ => 7) []
    [108, 115, 13, 27, 91, 65, 13, 108, 111, 9]
  have hedit : ((Edit.start []).keys notes [108, 115, 13, 27, 91, 65, 13, 108, 111, 9]) =
      { shell := [[108, 115], [108, 115]], text := [108, 111, 103], escape := 0
        history := [[108, 115]], nav := 0, entered := [[108, 115], [108, 115]]
        running := true } := by rfl
  rw [hedit] at hm
  have hline : LineText [108, 115] := ⟨by simp [Typed], by decide⟩
  have hforward : PrintsForward notes [] [] [[108, 115], [108, 115]] :=
    notes_forward (by simp [hline])
  exact ⟨e, hkeys, hm.shell, hm.screen hforward rfl⟩

/-! ### What is remembered -/

/-- The lines that are not empty, without those that repeat the one before. -/
def distinctLines (lines : List (List UInt8)) : List (List UInt8) :=
  (lines.filter (· ≠ [])).destutter (· ≠ ·)

theorem destutter'_concat {lines : List (List UInt8)} {a last text : List UInt8}
    (hlast : (lines.destutter' (· ≠ ·) a).getLast? = some last) :
    (lines ++ [text]).destutter' (· ≠ ·) a =
      lines.destutter' (· ≠ ·) a ++ if last = text then [] else [text] := by
  induction lines generalizing a with
  | nil =>
      obtain rfl : a = last := Option.some.inj hlast
      rw [List.nil_append, List.destutter'_singleton]
      split_ifs <;> simp_all
  | cons b rest ih =>
      rw [List.cons_append]
      by_cases hab : a ≠ b
      · rw [List.destutter'_cons_pos _ hab] at hlast ⊢
        rw [List.destutter'_cons_pos _ hab]
        rw [List.getLast?_cons_of_ne_nil (List.destutter'_ne_nil _ _)] at hlast
        rw [ih hlast, List.cons_append]
      · rw [List.destutter'_cons_neg _ hab] at hlast ⊢
        rw [List.destutter'_cons_neg _ hab]
        exact ih hlast

/-- One more line. -/
theorem distinctLines_concat (lines : List (List UInt8)) (text : List UInt8) :
    distinctLines (lines ++ [text]) =
      if Forgets (distinctLines lines) text then distinctLines lines
      else distinctLines lines ++ [text] := by
  by_cases hempty : text = []
  · rw [if_pos (show Forgets _ text from .inl hempty)]
    simp [distinctLines, hempty]
  have hfilter : [text].filter (· ≠ []) = [text] := by simp [hempty]
  unfold distinctLines
  rw [List.filter_append, hfilter]
  cases lines.filter (· ≠ []) with
  | nil =>
      rw [if_neg (by simp [Forgets, hempty])]
      rfl
  | cons a rest =>
      rw [List.cons_append, List.destutter_cons', List.destutter_cons']
      obtain ⟨last, hlast⟩ : ∃ last, (rest.destutter' (· ≠ ·) a).getLast? = some last :=
        Option.isSome_iff_exists.mp (List.getLast?_isSome.mpr (List.destutter'_ne_nil _ _))
      have hforgets : Forgets (rest.destutter' (· ≠ ·) a) text ↔ last = text := by
        simp [Forgets, hempty, hlast]
      rw [destutter'_concat hlast]
      simp only [hforgets]
      split_ifs
      · exact List.append_nil _
      · rfl

theorem newest_getLast (rows : List (List UInt8)) : (newest rows).getLast? = rows.getLast? := by
  unfold newest lightshellHistorySize
  rw [List.getLast?_drop]
  split_ifs with hle
  · have hnil : rows = [] := List.length_eq_zero_iff.mp (by omega)
    rw [hnil]
    rfl
  · rfl

theorem newest_concat (rows : List (List UInt8)) (text : List UInt8) :
    newest (newest rows ++ [text]) = newest (rows ++ [text]) := by
  unfold newest lightshellHistorySize
  rw [← List.drop_append_of_le_length (Nat.sub_le ..), List.drop_drop]
  congr 1
  simp only [List.length_drop, List.length_append, List.length_singleton]
  omega

/-- Remembering in the rows there is room for. -/
theorem remember_newest (rows : List (List UInt8)) (text : List UInt8) :
    remember (newest rows) text = newest (if Forgets rows text then rows else rows ++ [text]) := by
  have hsame : Forgets (newest rows) text ↔ Forgets rows text := by
    unfold Forgets
    rw [newest_getLast]
  unfold remember
  simp only [hsame]
  split_ifs
  · rfl
  · exact newest_concat rows text

/-- The handler that also notes the lines that it is handed. -/
def LineHandler.noting {σ : Type} (h : LineHandler σ) : LineHandler (σ × List (List UInt8)) where
  handleLine := fun s text =>
    let r := h.handleLine s.1 text
    ((r.1, s.2 ++ [text]), r.2)
  prompt := fun s => h.prompt s.1

section Remembered

variable {σ : Type} {h : LineHandler σ} {a : Edit σ}

theorem shellAfter_noting (shell : σ) (lines : List (List UInt8)) :
    (shellAfter h.noting (shell, []) lines).2 = lines := by
  induction lines using List.reverseRecOn with
  | nil => rfl
  | append_singleton lines text ih =>
      rw [shellAfter_concat]
      change (shellAfter h.noting (shell, []) lines).2 ++ [text] = _
      rw [ih]

/-- The history is made of the lines that were handed on. -/
def Remembers (a : Edit σ) : Prop := a.history = newest (distinctLines a.entered)

/-- Only the end of a line hands anything on. -/
theorem key_quiet_or_enters (h : LineHandler σ) (a : Edit σ) (ch : UInt8) :
    ((a.key h ch).history = a.history ∧ (a.key h ch).entered = a.entered) ∨
      a.key h ch = Edit.enter h { a with escape := 0 } := by
  unfold Edit.key Edit.plainKey Edit.show
  dsimp only
  split_ifs <;> first | exact .inl ⟨rfl, rfl⟩ | exact .inr rfl

theorem enter_hands (h : LineHandler σ) (a : Edit σ) :
    (a.enter h).history = remember a.history a.text ∧
      (a.enter h).entered = a.entered ++ [a.text] := by
  unfold Edit.enter
  dsimp only
  split_ifs <;> exact ⟨rfl, rfl⟩

theorem Remembers.key (hr : Remembers a) (ch : UInt8) : Remembers (a.key h ch) := by
  unfold Remembers at hr ⊢
  rcases key_quiet_or_enters h a ch with ⟨hhistory, hentered⟩ | henters
  · rw [hhistory, hentered, hr]
  · obtain ⟨hhistory, hentered⟩ := enter_hands h { a with escape := 0 }
    rw [henters, hhistory, hentered, distinctLines_concat, ← remember_newest, ← hr]

theorem Remembers.keys (hr : Remembers a) (chs : List UInt8) : Remembers (a.keys h chs) := by
  induction chs generalizing a with
  | nil => exact hr
  | cons ch rest ih => exact ih (hr.key ch)

/--
**The history is of the newest lines.**  Whatever keys are pressed and whatever the lines do, the
rows of the history hold the last 32 of the lines that were handed on, without the empty ones and
those that repeat the one before.
-/
theorem history_recent (h : LineHandler σ) (shell : σ) (line : LineBuf) (rows : Nat → LineBuf)
    (banner chs : List UInt8) :
    ∃ e, (LineEditor.start h.noting (shell, []) line rows banner).keys h.noting chs = some e ∧
      e.historyCount = (newest (distinctLines e.shell.2)).length ∧
      ∀ i (hi : i < (newest (distinctLines e.shell.2)).length),
        lineStr (e.history i) = some (newest (distinctLines e.shell.2))[i] := by
  obtain ⟨e, hkeys, hm⟩ := (Mirrors.start h.noting (shell, []) line rows banner).keys chs
  have hr : Remembers ((Edit.start (shell, [])).keys h.noting chs) :=
    Remembers.keys (a := Edit.start (shell, [])) rfl chs
  have hlines : e.shell.2 = ((Edit.start (shell, [])).keys h.noting chs).entered := by
    rw [hm.shell, hm.reached, shellAfter_noting]
  refine ⟨e, hkeys, ?_, ?_⟩
  · rw [hlines, ← hr]
    exact hm.count
  · rw [hlines, ← hr]
    exact hm.history.held

/-- A line, the same line again, and another one: two rows. -/
theorem history_recent_notes :
    ∃ e, (LineEditor.start notes.noting ([], []) (fun _ => 7) (fun _ _ => 7) []).keys notes.noting
        [108, 115, 13, 27, 91, 65, 13, 99, 100, 13] = some e ∧
      e.shell.2 = [[108, 115], [108, 115], [99, 100]] ∧ e.historyCount = 2 ∧
      lineStr (e.history 1) = some [99, 100] := by
  obtain ⟨e, hkeys, hcount, hheld⟩ := history_recent notes [] (fun _ => 7) (fun _ _ => 7) []
    [108, 115, 13, 27, 91, 65, 13, 99, 100, 13]
  have hlines : e.shell.2 = [[108, 115], [108, 115], [99, 100]] := by
    obtain ⟨e', hkeys', hm⟩ := (Mirrors.start notes.noting ([], []) (fun _ => 7) (fun _ _ => 7)
      []).keys [108, 115, 13, 27, 91, 65, 13, 99, 100, 13]
    obtain rfl : e' = e := Option.some.inj (hkeys'.symm.trans hkeys)
    rw [hm.shell]
    rfl
  rw [hlines] at hcount hheld
  exact ⟨e, hkeys, hlines, hcount, hheld 1 (by decide)⟩

/--
**Completion.**  In whatever state the editor is, a tab behind a text leaves it alone if no name
begins with it, makes the one name of it that does, and else whatever all these names begin with.
-/
theorem tab_completes {shell : σ} {line : LineBuf} {rows : Nat → LineBuf}
    {banner chs : List UInt8} {e : LineEditor σ}
    (hkeys : (LineEditor.start h shell line rows banner).keys h chs = some e)
    (hrun : e.running = true) (hlen : 0 < e.len) :
    ∃ text new e', Begins e.line text ∧ text.length = e.len ∧ e.key h 9 = some e' ∧
      Begins e'.line new ∧ new.length = e'.len ∧
      (matchesOf text = [] → new = text) ∧
      (∀ name, matchesOf text = [name] → new = name ++ [32]) ∧
      (2 ≤ (matchesOf text).length →
        (∀ name ∈ matchesOf text, new <+: name) ∧
        ∀ q, (∀ name ∈ matchesOf text, q <+: name) → q <+: new) := by
  obtain ⟨e₁, hkeys₁, hm⟩ := (Mirrors.start h shell line rows banner).keys chs
  obtain rfl : e₁ = e := Option.some.inj (hkeys₁.symm.trans hkeys)
  generalize (Edit.start shell).keys h chs = a at hm
  obtain ⟨e', hkey, hm'⟩ := hm.key 9
  have hempty : a.text ≠ [] := by
    rw [hm.len] at hlen
    exact List.ne_nil_of_length_pos hlen
  have htab : (a.key h 9).text = complete a.text := by
    have hgo : ¬ a.running = false := by
      rw [← hm.running, hrun]
      simp
    unfold Edit.key Edit.plainKey
    simp [hgo]
  refine ⟨a.text, complete a.text, e', hm.line, hm.len.symm, hkey, htab ▸ hm'.line,
    htab ▸ hm'.len.symm, complete_none hempty, complete_one hempty, complete_several hempty⟩

/-- `m` begins `mkdir` and `mv`. -/
theorem tab_completes_notes :
    ∃ e text new e', (LineEditor.start notes [] (fun _ => 7) (fun _ _ => 7) []).keys notes [109] =
        some e ∧
      Begins e.line text ∧ text.length = e.len ∧ e.key notes 9 = some e' ∧
      Begins e'.line new ∧ new.length = e'.len ∧
      (matchesOf text = [] → new = text) ∧
      (∀ name, matchesOf text = [name] → new = name ++ [32]) ∧
      (2 ≤ (matchesOf text).length →
        (∀ name ∈ matchesOf text, new <+: name) ∧
        ∀ q, (∀ name ∈ matchesOf text, q <+: name) → q <+: new) := by
  obtain ⟨e, hkeys, hm⟩ := (Mirrors.start notes [] (fun _ => 7) (fun _ _ => 7) []).keys [109]
  have hlen : 0 < e.len := by
    rw [hm.len]
    decide
  obtain ⟨text, new, e', hcompleted⟩ := tab_completes hkeys hm.running hlen
  exact ⟨e, text, new, e', hkeys, hcompleted⟩

end Remembered

end BrightS
