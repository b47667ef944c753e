/-
The input method over whole runs.

What it offers is always what its tables have for the letters typed so far, and what it writes is
those letters or something it offers; the only step that fails is an arrow when it offers nothing
(`im_sound`).  The selection that the arrows move is shown and never asked for
(`arrows_choose_nothing`).
-/
import BrightS.Proofs.Keyboard

namespace BrightS

open Bytes Runs

/-! ### What holds of the method -/

structure ImOk (tables : ImTables) (im : Im) : Prop where
  off : im.active = false → im.pinyin = []
  letters : ∀ ch ∈ im.pinyin, isLower ch
  length : im.pinyin.length < imMaxPinyin
  found : im.candidates = imSearch tables im.pinyin
  selected : im.candidates ≠ [] → im.selected < im.candidates.length

section Im

variable {tables : ImTables} {im im' : Im} {ch : Byte}

theorem imSearch_nil (tables : ImTables) : imSearch tables [] = [] := if_pos rfl

theorem length_imSearch_le (tables : ImTables) (pinyin : List Byte) :
    (imSearch tables pinyin).length ≤ imMaxCandidates := by
  unfold imSearch
  dsimp only
  split_ifs
  · exact Nat.zero_le _
  · exact List.length_take_le _ _
  · exact List.length_take_le _ _

theorem imOk_start (tables : ImTables) : ImOk tables imStart :=
  ⟨fun _ => rfl, fun _ h => absurd h (List.not_mem_nil), by decide, (imSearch_nil tables).symm,
    fun h => absurd rfl h⟩

/-- The method with nothing typed. -/
theorem imOk_clear (tables : ImTables) (im : Im) : ImOk tables im.clear :=
  ⟨fun _ => rfl, fun _ h => absurd h (List.not_mem_nil), (by decide : 0 < imMaxPinyin),
    (imSearch_nil tables).symm, fun h => absurd rfl h⟩

/-- A new search begins with the first candidate. -/
theorem imOk_search (hactive : im.active = true) (hletters : ∀ ch ∈ im.pinyin, isLower ch)
    (hlength : im.pinyin.length < imMaxPinyin) : ImOk tables (im.search tables) where
  off h := absurd h (by rw [show (im.search tables).active = im.active from rfl, hactive]; simp)
  letters := hletters
  length := hlength
  found := rfl
  selected h := List.length_pos_iff.mpr h

theorem ImOk.toggle (h : ImOk tables im) : ImOk tables im.toggle := by
  unfold Im.toggle
  dsimp only
  split_ifs with hoff
  · exact imOk_clear tables _
  · exact ⟨fun hnot => absurd hnot hoff, h.letters, h.length, h.found, h.selected⟩

theorem ImOk.handleChar (h : ImOk tables im) (ch : Byte) : ImOk tables (im.handleChar tables ch) := by
  unfold Im.handleChar
  split_ifs with hoff hlower hroom
  · exact h
  · refine imOk_search (by simpa using hoff) (fun c hc => ?_) ?_
    · rcases List.mem_append.mp hc with hc | hc
      · exact h.letters c hc
      · rw [List.mem_singleton.mp hc]
        exact hlower
    · dsimp only
      rw [List.length_append, List.length_singleton]
      omega
  · exact h
  · exact h

theorem ImOk.backspace (h : ImOk tables im) : ImOk tables (im.backspace tables) := by
  have hmem : ∀ c ∈ im.pinyin.dropLast, isLower c := fun c hc =>
    h.letters c (List.dropLast_subset _ hc)
  have hlen : im.pinyin.dropLast.length < imMaxPinyin := by
    have hlength := h.length
    rw [List.length_dropLast]
    omega
  unfold Im.backspace
  dsimp only
  split_ifs with hsome hmore
  · refine imOk_search ?_ hmem hlen
    by_contra hoff
    have hnil := h.off (by simpa using hoff)
    rw [hnil] at hsome
    exact absurd hsome (by decide)
  · have hnil : im.pinyin.dropLast = [] := List.length_eq_zero_iff.mp (by omega)
    refine ⟨fun _ => hnil, hmem, hlen, ?_, fun hne => absurd rfl hne⟩
    rw [hnil, imSearch_nil]
  · exact h

theorem ImOk.handleSpecial (h : ImOk tables im) {key : Nat}
    (hspecial : im.handleSpecial key = some im') : ImOk tables im' := by
  unfold Im.handleSpecial at hspecial
  split_ifs at hspecial with hoff hnone hnext
  · exact Option.some.inj hspecial ▸ h
  all_goals
    obtain rfl := Option.some.inj hspecial
    exact ⟨h.off, h.letters, h.length, h.found, fun _ => Nat.mod_lt _ (by omega)⟩

/-- A choice writes a candidate or nothing. -/
theorem ImOk.selectCandidate (h : ImOk tables im) (index : Nat) :
    ImOk tables (im.selectCandidate index).1 ∧
      (im.selectCandidate index = (im, []) ∨
        (im.selectCandidate index).2 ∈ imSearch tables im.pinyin ∧
          (im.selectCandidate index).1.pinyin = []) := by
  unfold Im.selectCandidate
  cases hget : im.candidates[index]? with
  | none => exact ⟨h, .inl rfl⟩
  | some text =>
      refine ⟨imOk_clear tables im, .inr ⟨?_, rfl⟩⟩
      rw [← h.found]
      exact List.mem_of_getElem? hget

end Im

/-! ### What an interrupt does to it -/

/-- Nothing is written, or what was typed or is offered, and then the method begins anew. -/
def Chooses (tables : ImTables) (k k' : Keyboard) : Prop :=
  k'.written = k.written ∨ ∃ text, k'.written = k.written ++ text ∧
    (text = k.im.pinyin ∨ text ∈ imSearch tables k.im.pinyin) ∧ k'.im.pinyin = []

section Interrupt

variable {tables : ImTables} {k k' : Keyboard} {sc ch : Byte}

@[simp] theorem put_im (k : Keyboard) (ch : Byte) : (k.put ch).im = k.im := by
  unfold Keyboard.put
  dsimp only
  split_ifs <;> rfl

@[simp] theorem put_written (k : Keyboard) (ch : Byte) : (k.put ch).written = k.written := by
  unfold Keyboard.put
  dsimp only
  split_ifs <;> rfl

theorem Chooses.put (h : Chooses tables k k') (ch : Byte) : Chooses tables k (k'.put ch) := by
  unfold Chooses
  rw [put_im, put_written]
  exact h

theorem commit_chooses (tables : ImTables) (k : Keyboard) :
    ImOk tables (k.chosen k.im.commit).im ∧ Chooses tables k (k.chosen k.im.commit) :=
  ⟨imOk_clear tables k.im, .inr ⟨k.im.pinyin, rfl, .inl rfl, rfl⟩⟩

theorem select_chooses (h : ImOk tables k.im) (index : Nat) :
    ImOk tables (k.chosen (k.im.selectCandidate index)).im ∧
      Chooses tables k (k.chosen (k.im.selectCandidate index)) := by
  obtain ⟨hok, hchoice⟩ := h.selectCandidate index
  refine ⟨hok, ?_⟩
  rcases hchoice with hnothing | ⟨hfound, hclear⟩
  · rw [hnothing]
    exact .inl (List.append_nil _)
  · exact .inr ⟨_, rfl, .inr hfound, hclear⟩

theorem imChar_ok (h : ImOk tables k.im) (ch : Byte) :
    ImOk tables (k.imChar tables ch).im ∧ Chooses tables k (k.imChar tables ch) := by
  have hcommit := commit_chooses tables k
  unfold Keyboard.imChar
  split_ifs
  · exact ⟨h.handleChar ch, .inl rfl⟩
  · exact ⟨h.backspace, .inl rfl⟩
  · exact select_chooses h _
  · exact hcommit
  · exact select_chooses h _
  · exact hcommit
  · exact ⟨h.handleChar ch, .inl rfl⟩
  · dsimp only
    split
    · rw [put_im]
      exact ⟨hcommit.1, hcommit.2.put _⟩
    · rw [put_im]
      exact ⟨hcommit.1, hcommit.2.put _⟩
    · rw [put_im, put_im]
      exact ⟨hcommit.1, (hcommit.2.put _).put _⟩
  · rw [put_im]
    exact ⟨hcommit.1, hcommit.2.put _⟩

theorem plainKey_ok (h : ImOk tables k.im) (sc : Byte) :
    ImOk tables (k.plainKey tables sc).im ∧ Chooses tables k (k.plainKey tables sc) := by
  have hput : ∀ ch, ImOk tables (k.put ch).im ∧ Chooses tables k (k.put ch) := by
    intro ch
    rw [put_im]
    exact ⟨h, .inl (put_written k ch)⟩
  unfold Keyboard.plainKey
  cases functionKeys.lookup sc with
  | some ch => exact hput ch
  | none =>
      dsimp only
      split_ifs
      · exact select_chooses h _
      · exact ⟨h, .inl rfl⟩
      · cases scancodeToAscii k.shift k.capsLock sc with
        | none => exact ⟨h, .inl rfl⟩
        | some ch => exact imChar_ok h ch
      · cases scancodeToAscii k.shift k.capsLock sc with
        | none => exact ⟨h, .inl rfl⟩
        | some ch => exact hput ch

theorem extendedKey_ok (h : ImOk tables k.im) (hkey : k.extendedKey sc = some k') :
    ImOk tables k'.im ∧ Chooses tables k k' := by
  have hput : ∀ ch, k.put ch = k' → ImOk tables k'.im ∧ Chooses tables k k' := by
    rintro ch rfl
    rw [put_im]
    exact ⟨h, .inl (put_written k ch)⟩
  unfold Keyboard.extendedKey at hkey
  cases harrow : arrowKeys.lookup sc with
  | some arrow =>
      rw [harrow] at hkey
      dsimp only at hkey
      split_ifs at hkey
      · obtain ⟨im, hspecial, rfl⟩ := Option.map_eq_some_iff.mp hkey
        exact ⟨h.handleSpecial hspecial, .inl rfl⟩
      · exact hput _ (Option.some.inj hkey)
  | none =>
      rw [harrow] at hkey
      dsimp only at hkey
      cases hother : extendedKeys.lookup sc with
      | some ch =>
          rw [hother] at hkey
          exact hput ch (Option.some.inj hkey)
      | none =>
          rw [hother] at hkey
          exact Option.some.inj hkey ▸ ⟨h, .inl rfl⟩

/-- The keys whose scancodes only change flags. -/
theorem arrowKeys_plain : ∀ sc : Byte, sc = 0xE0 ∨ sc = 0xE1 ∨ 0x80 ≤ sc ∨ sc = 0x2A ∨ sc = 0x36 ∨
    sc = 0x1D ∨ sc = 0x38 ∨ sc = 0x3A ∨ sc = 0x39 → arrowKeys.lookup sc = none := by
  decide +kernel

/-- **What a scancode is for**: the flags, the switch of the method, or a key. -/
theorem irqHandler_cases (tables : ImTables) (k : Keyboard) (sc : Byte) :
    (∃ k', k.irqHandler tables sc = some k' ∧ k'.im = k.im ∧ k'.written = k.written ∧
        arrowKeys.lookup sc = none) ∨
      (k.irqHandler tables sc = some { k with im := k.im.toggle } ∧
        arrowKeys.lookup sc = none) ∨
      (k.extended2 = true ∧ k.irqHandler tables sc = some { k with extended2 := false }) ∨
      (k.extended2 = false ∧ k.extended = true ∧
        k.irqHandler tables sc = { k with extended := false }.extendedKey sc) ∨
      (k.extended2 = false ∧ k.extended = false ∧
        k.irqHandler tables sc = some (k.plainKey tables sc)) := by
  have harrow := arrowKeys_plain sc
  unfold Keyboard.irqHandler
  dsimp only
  by_cases h1 : sc = 0xE0
  · exact .inl ⟨_, if_pos h1, rfl, rfl, harrow (by simp [h1])⟩
  by_cases h2 : sc = 0xE1
  · exact .inl ⟨_, (if_neg h1).trans (if_pos h2), rfl, rfl, harrow (by simp [h2])⟩
  rw [if_neg h1, if_neg h2]
  by_cases h3 : 0x80 ≤ sc
  · exact .inl ⟨_, if_pos h3, rfl, rfl, harrow (.inr (.inr (.inl h3)))⟩
  rw [if_neg h3]
  by_cases h4 : sc = 0x2A ∨ sc = 0x36
  · exact .inl ⟨_, if_pos h4, rfl, rfl, harrow (by rcases h4 with h4 | h4 <;> simp [h4])⟩
  rw [if_neg h4]
  by_cases h5 : sc = 0x1D
  · exact .inl ⟨_, if_pos h5, rfl, rfl, harrow (by simp [h5])⟩
  rw [if_neg h5]
  by_cases h6 : sc = 0x38
  · exact .inl ⟨_, if_pos h6, rfl, rfl, harrow (by simp [h6])⟩
  rw [if_neg h6]
  by_cases h7 : sc = 0x3A
  · exact .inl ⟨_, if_pos h7, rfl, rfl, harrow (by simp [h7])⟩
  rw [if_neg h7]
  by_cases h8 : sc = 0x39 ∧ k.shift = true
  · exact .inr (.inl ⟨if_pos h8, harrow (by simp [h8.1])⟩)
  rw [if_neg h8]
  cases hext2 : k.extended2 with
  | true => exact .inr (.inr (.inl ⟨rfl, by rw [if_pos rfl]⟩))
  | false =>
      rw [if_neg Bool.false_ne_true]
      cases hext : k.extended with
      | true => exact .inr (.inr (.inr (.inl ⟨rfl, rfl, by rw [if_pos rfl]⟩)))
      | false =>
          rw [if_neg Bool.false_ne_true]
          exact .inr (.inr (.inr (.inr ⟨rfl, rfl, rfl⟩)))

theorem irqHandler_ok (h : ImOk tables k.im) (hirq : k.irqHandler tables sc = some k') :
    ImOk tables k'.im ∧ Chooses tables k k' := by
  rcases irqHandler_cases tables k sc with
    ⟨next, heq, him, hwritten, -⟩ | ⟨heq, -⟩ | ⟨-, heq⟩ | ⟨-, -, heq⟩ | ⟨-, -, heq⟩
  · rw [heq] at hirq
    obtain rfl := Option.some.inj hirq
    exact ⟨him ▸ h, .inl hwritten⟩
  · rw [heq] at hirq
    obtain rfl := Option.some.inj hirq
    exact ⟨h.toggle, .inl rfl⟩
  · rw [heq] at hirq
    obtain rfl := Option.some.inj hirq
    exact ⟨h, .inl rfl⟩
  · rw [heq] at hirq
    exact extendedKey_ok (k := { k with extended := false }) h hirq
  · rw [heq] at hirq
    obtain rfl := Option.some.inj hirq
    exact plainKey_ok h sc

/-- **The only step that fails is an arrow when nothing is offered.** -/
theorem irqHandler_none_iff (tables : ImTables) (k : Keyboard) (sc : Byte) :
    k.irqHandler tables sc = none ↔ k.im.active = true ∧ k.im.candidates = [] ∧
      k.extended = true ∧ k.extended2 = false ∧ (arrowKeys.lookup sc).isSome := by
  rcases irqHandler_cases tables k sc with
    ⟨next, heq, -, -, hnot⟩ | ⟨heq, hnot⟩ | ⟨hext2, heq⟩ | ⟨hext2, hext, heq⟩ | ⟨-, hext, heq⟩
  · simp [heq, hnot]
  · simp [heq, hnot]
  · simp [heq, hext2]
  · rw [heq]
    unfold Keyboard.extendedKey
    cases harrow : arrowKeys.lookup sc with
    | none =>
        dsimp only
        cases extendedKeys.lookup sc <;> simp
    | some arrow =>
        dsimp only
        unfold Im.handleSpecial
        cases hactive : k.im.active with
        | false => simp
        | true =>
            rw [if_pos rfl, Option.map_eq_none_iff, if_neg (by simp)]
            by_cases hnone : k.im.candidates.length = 0
            · simp [hext, hext2, List.length_eq_zero_iff.mp hnone]
            · rw [if_neg hnone]
              have hne : k.im.candidates ≠ [] := fun h => hnone (by rw [h]; rfl)
              simp only [hne, false_and, and_false, iff_false]
              split_ifs <;> simp
  · simp [heq, hext]

end Interrupt

/-! ### Runs -/

inductive KeyEvent where
  | scan (sc : Byte)
  | read

/-- An interrupt, or a reader takes a character from the ring. -/
def Keyboard.next (tables : ImTables) (k : Keyboard) : KeyEvent → Option Keyboard
  | .scan sc => k.irqHandler tables sc
  | .read => some k.readChar.1

def KeyStep (tables : ImTables) (k : Keyboard) (e : KeyEvent) (k' : Keyboard) : Prop :=
  k.next tables e = some k'

theorem readChar_im (k : Keyboard) :
    k.readChar.1.im = k.im ∧ k.readChar.1.written = k.written := by
  unfold Keyboard.readChar
  split_ifs <;> exact ⟨rfl, rfl⟩

/--
**The input method is sound.**  Whatever scancodes have come, in whatever order with readers, the
method holds at most fifteen letters and offers at most ten strings, and these are what its tables
have for the letters.  The next interrupt fails exactly if it is an arrow while the method is on
and offers nothing; and what it writes is the letters or one of the strings.
-/
theorem im_sound (tables : ImTables) (buf : Nat → Byte) {events : List KeyEvent} {k : Keyboard}
    (hrun : Executes (KeyStep tables) (keyboardStart buf) events k) :
    ImOk tables k.im ∧ k.im.candidates.length ≤ imMaxCandidates ∧
      ∀ sc, (k.irqHandler tables sc = none ↔ k.im.active = true ∧ k.im.candidates = [] ∧
          k.extended = true ∧ k.extended2 = false ∧ (arrowKeys.lookup sc).isSome) ∧
        ∀ k', k.irqHandler tables sc = some k' → Chooses tables k k' := by
  have hstep : ∀ k e k', ImOk tables k.im → KeyStep tables k e k' → ImOk tables k'.im := by
    intro k e k' h hnext
    cases e with
    | scan sc => exact (irqHandler_ok h hnext).1
    | read =>
        obtain rfl := Option.some.inj hnext
        rw [(readChar_im k).1]
        exact h
  have hok : ImOk tables k.im := hrun.invariant (P := fun k => ImOk tables k.im) hstep
    (imOk_start tables)
  refine ⟨hok, ?_, fun sc => ⟨irqHandler_none_iff tables k sc, fun k' h => (irqHandler_ok hok h).2⟩⟩
  rw [hok.found]
  exact length_imSearch_le tables _

def deTables : ImTables := ⟨[([100, 101], [[0xE7, 0x9A, 0x84], [0xE5, 0xBE, 0x97]])], []⟩

/-- The letters d and e, two candidates, and an arrow to the second one: no interrupt fails now. -/
theorem im_sound_de :
    ∃ k : Keyboard, ImOk deTables k.im ∧
      k.im.candidates = [[0xE7, 0x9A, 0x84], [0xE5, 0xBE, 0x97]] ∧ k.im.selected = 1 ∧
      ∀ sc, k.irqHandler deTables sc ≠ none ∧
        ∀ k', k.irqHandler deTables sc = some k' → Chooses deTables k k' := by
  let events : List KeyEvent :=
    [.scan 0x2A, .scan 0x39, .scan 0xAA, .scan 0x20, .scan 0x12, .read, .scan 0xE0, .scan 0x4D]
  have heval : (runAll (Keyboard.next deTables) (keyboardStart fun _ => 0) events).map
      (fun k => (k.im.candidates, k.im.selected)) =
        some ([[0xE7, 0x9A, 0x84], [0xE5, 0xBE, 0x97]], 1) := by decide +kernel
  obtain ⟨k, hk, hoffers⟩ := Option.map_eq_some_iff.mp heval
  obtain ⟨hcandidates, hselected⟩ := Prod.mk.inj hoffers
  have hrun : Executes (KeyStep deTables) (keyboardStart fun _ => 0) events k :=
    executes_runAll (fun _ _ _ h => h) hk
  obtain ⟨hok, -, hirq⟩ := im_sound deTables (fun _ => 0) hrun
  refine ⟨k, hok, hcandidates, hselected, fun sc => ⟨fun hnone => ?_, (hirq sc).2⟩⟩
  obtain ⟨-, hempty, -⟩ := (hirq sc).1.mp hnone
  rw [hcandidates] at hempty
  exact absurd hempty (by simp)

/-! ### The selection -/

/-- The keyboard without what the arrows have selected. -/
def Keyboard.forget (k : Keyboard) : Keyboard := { k with im := { k.im with selected := 0 } }

section Selection

variable {tables : ImTables} {k k' : Keyboard} {sc ch : Byte}

theorem forget_put (k : Keyboard) (ch : Byte) : (k.put ch).forget = k.forget.put ch := by
  have hput : k.forget.put ch = if (k.head + 1) % kbdBufSize ≠ k.tail then
      { k.forget with
        buf := Function.update k.buf k.head ch, head := (k.head + 1) % kbdBufSize }
      else k.forget := rfl
  rw [hput]
  unfold Keyboard.put
  dsimp only
  split_ifs <;> rfl

theorem forget_select (k : Keyboard) (index : Nat) :
    (k.forget.chosen (k.forget.im.selectCandidate index)).forget =
      (k.chosen (k.im.selectCandidate index)).forget := by
  show (k.forget.chosen (({ k.im with selected := 0 } : Im).selectCandidate index)).forget = _
  unfold Im.selectCandidate
  dsimp only
  cases k.im.candidates[index]? <;> rfl

theorem forget_handleChar (im : Im) (ch : Byte) :
    { Im.handleChar tables { im with selected := 0 } ch with selected := 0 } =
      { im.handleChar tables ch with selected := 0 } := by
  unfold Im.handleChar
  dsimp only
  split_ifs <;> rfl

theorem forget_backspace (im : Im) :
    { Im.backspace tables { im with selected := 0 } with selected := 0 } =
      { im.backspace tables with selected := 0 } := by
  unfold Im.backspace
  dsimp only
  split_ifs <;> rfl

theorem forget_imChar (k : Keyboard) (ch : Byte) :
    (k.forget.imChar tables ch).forget = (k.imChar tables ch).forget := by
  have hchar : ({ k.forget with im := k.forget.im.handleChar tables ch } : Keyboard).forget =
      ({ k with im := k.im.handleChar tables ch } : Keyboard).forget :=
    congrArg (fun im => { k with im := im }) (forget_handleChar k.im ch)
  have hback : ({ k.forget with im := k.forget.im.backspace tables } : Keyboard).forget =
      ({ k with im := k.im.backspace tables } : Keyboard).forget :=
    congrArg (fun im => { k with im := im }) (forget_backspace k.im)
  have hcommit : k.forget.chosen k.forget.im.commit = k.chosen k.im.commit := rfl
  have hlen : k.forget.im.candidates.length = k.im.candidates.length := rfl
  unfold Keyboard.imChar
  rw [hcommit, hlen]
  split_ifs
  · exact hchar
  · exact hback
  · exact forget_select k _
  · rfl
  · exact forget_select k _
  · rfl
  · exact hchar
  · rfl
  · rfl

theorem forget_plainKey (tables : ImTables) (k : Keyboard) (sc : Byte) :
    (k.forget.plainKey tables sc).forget = (k.plainKey tables sc).forget := by
  have hput : ∀ ch, (k.forget.put ch).forget = (k.put ch).forget := by
    intro ch
    rw [forget_put, forget_put]
    rfl
  have hshift : k.forget.shift = k.shift ∧ k.forget.capsLock = k.capsLock := ⟨rfl, rfl⟩
  have him : k.forget.im.active = k.im.active ∧ k.forget.im.candidates = k.im.candidates :=
    ⟨rfl, rfl⟩
  unfold Keyboard.plainKey
  cases functionKeys.lookup sc with
  | some ch => exact hput ch
  | none =>
      dsimp only
      rw [hshift.1, hshift.2, him.1, him.2]
      split_ifs
      · exact forget_select k _
      · rfl
      · cases scancodeToAscii k.shift k.capsLock sc with
        | none => rfl
        | some ch => exact forget_imChar k ch
      · cases scancodeToAscii k.shift k.capsLock sc with
        | none => rfl
        | some ch => exact hput ch

theorem forget_handleSpecial (im : Im) (key : Nat) :
    ((Im.handleSpecial { im with selected := 0 } key).map fun im => { im with selected := 0 }) =
      (im.handleSpecial key).map fun im => { im with selected := 0 } := by
  unfold Im.handleSpecial
  dsimp only
  split_ifs <;> rfl

theorem forget_extendedKey (k : Keyboard) (sc : Byte) :
    (k.forget.extendedKey sc).map Keyboard.forget = (k.extendedKey sc).map Keyboard.forget := by
  have hput : ∀ ch, (k.forget.put ch).forget = (k.put ch).forget := by
    intro ch
    rw [forget_put, forget_put]
    rfl
  unfold Keyboard.extendedKey
  cases arrowKeys.lookup sc with
  | some arrow =>
      dsimp only
      have hactive : k.forget.im.active = k.im.active := rfl
      rw [hactive]
      split_ifs
      · have hspecial := congrArg (Option.map fun im => { k with im := im })
          (forget_handleSpecial k.im arrow.1)
        rw [Option.map_map, Option.map_map] at hspecial ⊢
        exact hspecial
      · exact congrArg some (hput arrow.2)
  | none =>
      dsimp only
      cases extendedKeys.lookup sc with
      | some ch => exact congrArg some (hput ch)
      | none => rfl

theorem forget_toggle (k : Keyboard) :
    ({ k.forget with im := k.forget.im.toggle } : Keyboard).forget =
      ({ k with im := k.im.toggle } : Keyboard).forget := by
  have him : ({ k.forget.im.toggle with selected := 0 } : Im) =
      { k.im.toggle with selected := 0 } := by
    show ({ Im.toggle { k.im with selected := 0 } with selected := 0 } : Im) = _
    unfold Im.toggle
    dsimp only
    split_ifs <;> rfl
  exact congrArg (fun im => { k with im := im }) him

theorem same_ite {c : Prop} [Decidable c] {f : Keyboard → Keyboard} {a a' b b' : Option Keyboard}
    (ha : a.map f = a'.map f) (hb : b.map f = b'.map f) :
    (if c then a else b).map f = (if c then a' else b').map f := by
  by_cases hc : c
  · rw [if_pos hc, if_pos hc, ha]
  · rw [if_neg hc, if_neg hc, hb]

/-- An interrupt does not ask what is selected. -/
theorem forget_irqHandler (k : Keyboard) (sc : Byte) :
    (k.forget.irqHandler tables sc).map Keyboard.forget =
      (k.irqHandler tables sc).map Keyboard.forget := by
  have htoggle := congrArg some (forget_toggle k)
  have hplain := congrArg some (forget_plainKey tables k sc)
  have hextended := forget_extendedKey { k with extended := false } sc
  exact same_ite rfl <| same_ite rfl <| same_ite rfl <| same_ite rfl <| same_ite rfl <|
    same_ite rfl <| same_ite rfl <| same_ite htoggle <| same_ite rfl <| same_ite hextended hplain

theorem forget_next (k : Keyboard) (e : KeyEvent) :
    (k.forget.next tables e).map Keyboard.forget = (k.next tables e).map Keyboard.forget := by
  cases e with
  | scan sc => exact forget_irqHandler k sc
  | read =>
      have hread : k.forget.readChar.1.forget = k.readChar.1.forget := by
        have heq : k.forget.readChar = if k.head = k.tail then (k.forget, none) else
            ({ k.forget with tail := (k.tail + 1) % kbdBufSize }, some (k.buf k.tail)) := rfl
        rw [heq]
        unfold Keyboard.readChar
        split_ifs <;> rfl
      exact congrArg some hread

theorem forget_runAll (hsame : k.forget = k'.forget) (events : List KeyEvent) :
    (runAll (Keyboard.next tables) k events).map Keyboard.forget =
      (runAll (Keyboard.next tables) k' events).map Keyboard.forget := by
  induction events generalizing k k' with
  | nil => exact congrArg some hsame
  | cons e rest ih =>
      have hnext : (k.next tables e).map Keyboard.forget =
          (k'.next tables e).map Keyboard.forget := by
        rw [← forget_next k, ← forget_next k', hsame]
      unfold runAll
      cases hk : k.next tables e with
      | none =>
          rw [hk, Option.map_none] at hnext
          rw [Option.map_eq_none_iff.mp hnext.symm]
      | some next =>
          rw [hk, Option.map_some] at hnext
          obtain ⟨next', hk', heq⟩ := Option.map_eq_some_iff.mp hnext.symm
          rw [hk']
          exact ih heq.symm

/--
**Arrows choose nothing.**  While the method offers something, an arrow moves the selection and
does nothing else; and whatever keys are pressed and readers call after it, what is written, what
waits in the ring and what is offered is what it would have been without the arrow.
-/
theorem arrows_choose_nothing (tables : ImTables) {k : Keyboard} (hactive : k.im.active = true)
    (hoffers : k.im.candidates ≠ []) (hext : k.extended = false) (hext2 : k.extended2 = false)
    (arrow : Nat × Byte) (harrow : arrowKeys.lookup sc = some arrow) :
    ∃ k', runAll (Keyboard.irqHandler tables) k [0xE0, sc] = some k' ∧
      ∀ events, (runAll (Keyboard.next tables) k' events).map Keyboard.forget =
        (runAll (Keyboard.next tables) k events).map Keyboard.forget := by
  have hlen : ¬ k.im.candidates.length = 0 := fun h => hoffers (List.length_eq_zero_iff.mp h)
  obtain ⟨im, hspecial, him⟩ : ∃ im, k.im.handleSpecial arrow.1 = some im ∧
      { im with selected := 0 } = ({ k.im with selected := 0 } : Im) := by
    unfold Im.handleSpecial
    rw [hactive, if_neg (by simp), if_neg hlen]
    split_ifs <;> exact ⟨_, rfl, by simp [hactive]⟩
  have hkey : ({ k with extended := true } : Keyboard).irqHandler tables sc =
      some { k with im := im } := by
    rcases irqHandler_cases tables { k with extended := true } sc with
      ⟨-, -, -, -, hnot⟩ | ⟨-, hnot⟩ | ⟨hyes, -⟩ | ⟨-, -, heq⟩ | ⟨-, hno, -⟩
    · rw [harrow] at hnot
      cases hnot
    · rw [harrow] at hnot
      cases hnot
    · rw [show k.extended2 = true from hyes] at hext2
      cases hext2
    · rw [heq]
      unfold Keyboard.extendedKey
      rw [harrow]
      dsimp only
      rw [if_pos hactive, hspecial, ← hext]
      rfl
    · cases hno
  refine ⟨{ k with im := im }, ?_, fun events => forget_runAll ?_ events⟩
  · unfold runAll
    rw [show k.irqHandler tables 0xE0 = some { k with extended := true } from rfl, Option.bind_some]
    unfold runAll
    rw [hkey]
    rfl
  · exact congrArg (fun im => { k with im := im }) him

/-- The letters d and e, and the arrow to the right. -/
theorem arrows_choose_nothing_de :
    ∃ k k' : Keyboard, k.im.candidates.length = 2 ∧
      runAll (Keyboard.irqHandler deTables) k [0xE0, 0x4D] = some k' ∧
      ∀ events, (runAll (Keyboard.next deTables) k' events).map Keyboard.forget =
        (runAll (Keyboard.next deTables) k events).map Keyboard.forget := by
  let k : Keyboard := { keyboardStart fun _ => 0 with
    im := { active := true, pinyin := [100, 101]
            candidates := [[0xE7, 0x9A, 0x84], [0xE5, 0xBE, 0x97]], selected := 0 } }
  obtain ⟨k', hkeys, hsame⟩ := @arrows_choose_nothing 0x4D deTables k rfl (by decide) rfl rfl
    (1, 0x83) (by decide +kernel)
  exact ⟨k, k', rfl, hkeys, hsame⟩

end Selection

end BrightS
