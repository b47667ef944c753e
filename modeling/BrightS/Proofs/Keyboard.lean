/-
From the keys to the readers of the terminal.

An interrupt does not look at the ring: it types some characters, at most two, and whether they
find room is the ring's affair (`irqHandler_types`).  So what is typed is a matter of the scancodes
alone, the ring is a queue between two parties, and as long as it has room the readers get the
lines of what was typed, whenever they ask (`text_arrives`).
-/
import BrightS.Kernel.Keyboard
import BrightS.Lib.Queues
import BrightS.Proofs.Tty

namespace BrightS

open Bytes Runs Queues

/-! ### The ring -/

def Keyboard.ring (k : Keyboard) : RingBuf Byte where
  buf := k.buf
  rd := k.tail
  wr := k.head
  len := (k.head + kbdBufSize - k.tail) % kbdBufSize

/-- The characters that wait for a reader. -/
def Keyboard.pending (k : Keyboard) : List Byte := k.ring.stored kbdBufSize

/-- The indices are in the ring. -/
structure RingOk (k : Keyboard) : Prop where
  head : k.head < kbdBufSize
  tail : k.tail < kbdBufSize

section Ring

variable {k : Keyboard}

theorem RingOk.sound (h : RingOk k) : k.ring.Sound kbdBufSize := by
  have hhead := h.head
  have htail := h.tail
  unfold kbdBufSize at *
  refine ⟨htail, Nat.le_of_lt (Nat.mod_lt _ (by decide)), ?_⟩
  show k.head = (k.tail + (k.head + 256 - k.tail) % 256) % 256
  omega

theorem length_pending (k : Keyboard) :
    k.pending.length = (k.head + kbdBufSize - k.tail) % kbdBufSize := RingBuf.length_stored

/-- A character that finds room is the last one; another is dropped. -/
theorem RingOk.put (h : RingOk k) (ch : Byte) :
    RingOk (k.put ch) ∧ (k.put ch).pending =
      if k.pending.length < kbdBufSize - 1 then k.pending ++ [ch] else k.pending := by
  have hhead := h.head
  have htail := h.tail
  have hlen := length_pending k
  have hroom : (k.head + 1) % kbdBufSize ≠ k.tail ↔ k.pending.length < kbdBufSize - 1 := by
    rw [hlen]
    unfold kbdBufSize at *
    omega
  by_cases hfull : (k.head + 1) % kbdBufSize ≠ k.tail
  · have hput : k.put ch = { k with
        buf := Function.update k.buf k.head ch, head := (k.head + 1) % kbdBufSize } := if_pos hfull
    have hring : (k.put ch).ring = k.ring.put kbdBufSize ch := by
      rw [hput]
      unfold Keyboard.ring RingBuf.put
      congr 1
      dsimp only
      have hpending := hroom.mp hfull
      rw [hlen] at hpending
      unfold kbdBufSize at *
      omega
    refine ⟨?_, ?_⟩
    · rw [hput]
      exact ⟨Nat.mod_lt _ (by decide), htail⟩
    · rw [if_pos (hroom.mp hfull)]
      unfold Keyboard.pending
      rw [hring, RingBuf.stored_put h.sound]
      have hpending := hroom.mp hfull
      rw [hlen] at hpending
      exact Nat.lt_of_lt_of_le hpending (Nat.sub_le _ _)
  · have hput : k.put ch = k := if_neg hfull
    rw [hput, if_neg (fun hlt => hfull (hroom.mpr hlt))]
    exact ⟨h, rfl⟩

theorem RingOk.readChar (h : RingOk k) :
    RingOk k.readChar.1 ∧ k.readChar.2 = k.pending.head? ∧
      k.readChar.1.pending = k.pending.tail := by
  have hhead := h.head
  have htail := h.tail
  have hlen := length_pending k
  unfold Keyboard.readChar
  split_ifs with hempty
  · have hnil : k.pending = [] := by
      rw [← List.length_eq_zero_iff, hlen, hempty]
      unfold kbdBufSize at *
      omega
    exact ⟨h, by rw [hnil]; rfl, by rw [hnil]; rfl⟩
  · have hpos : 0 < k.ring.len := by
      show 0 < (k.head + kbdBufSize - k.tail) % kbdBufSize
      unfold kbdBufSize at *
      omega
    have hstored := RingBuf.stored_get h.sound hpos
    have hring : ({ k with tail := (k.tail + 1) % kbdBufSize } : Keyboard).ring =
        k.ring.get kbdBufSize := by
      unfold Keyboard.ring RingBuf.get
      congr 1
      dsimp only
      unfold kbdBufSize at *
      omega
    refine ⟨⟨hhead, Nat.mod_lt _ (by decide)⟩, ?_, ?_⟩
    · unfold Keyboard.pending
      rw [hstored]
      rfl
    · unfold Keyboard.pending
      rw [hring, hstored]
      rfl

end Ring

/-! ### What an interrupt types -/

/-- The same keyboard on another ring. -/
def Keyboard.onRing (k : Keyboard) (buf : Nat → Byte) (head tail : Nat) : Keyboard :=
  { k with buf := buf, head := head, tail := tail }

def Keyboard.puts (k : Keyboard) (text : List Byte) : Keyboard := text.foldl Keyboard.put k

/-- On every ring `f` leaves `after` and types `text`, at most two characters. -/
structure Types (f : Keyboard → Option Keyboard) (k after : Keyboard) (text : List Byte) : Prop where
  short : text.length ≤ 2
  same : ∀ buf head tail, f (k.onRing buf head tail) = some ((after.onRing buf head tail).puts text)

section Types

variable {tables : ImTables} {k : Keyboard} {sc : Byte}

theorem types_nil {f : Keyboard → Option Keyboard} (after : Keyboard)
    (h : ∀ buf head tail, f (k.onRing buf head tail) = some (after.onRing buf head tail)) :
    ∃ after text, Types f k after text := ⟨after, [], by simp, h⟩

theorem types_one {f : Keyboard → Option Keyboard} (after : Keyboard) (ch : Byte)
    (h : ∀ buf head tail, f (k.onRing buf head tail) =
      some ((after.onRing buf head tail).put ch)) : ∃ after text, Types f k after text :=
  ⟨after, [ch], by simp, h⟩

theorem imChar_types (tables : ImTables) (k : Keyboard) (ch : Byte) :
    ∃ after text, Types (fun k => some (k.imChar tables ch)) k after text := by
  unfold Keyboard.imChar
  by_cases hlower : isLower ch
  · exact types_nil { k with im := k.im.handleChar tables ch }
      fun _ _ _ => congrArg some (if_pos hlower)
  by_cases hback : ch = 8
  · exact types_nil { k with im := k.im.backspace tables }
      fun _ _ _ => by simp only [if_neg hlower, if_pos hback]; rfl
  by_cases henter : ch = 10
  · by_cases hsome : 0 < k.im.candidates.length
    · exact types_nil (k.chosen (k.im.selectCandidate (k.im.candidates.length - 1)))
        fun _ _ _ => by
          simp only [if_neg hlower, if_neg hback, if_pos henter]
          exact congrArg some (if_pos hsome)
    · exact types_nil (k.chosen k.im.commit) fun _ _ _ => by
        simp only [if_neg hlower, if_neg hback, if_pos henter]
        exact congrArg some (if_neg hsome)
  by_cases hblank : ch = 32
  · by_cases hsome : 0 < k.im.candidates.length
    · exact types_nil (k.chosen (k.im.selectCandidate 0)) fun _ _ _ => by
        simp only [if_neg hlower, if_neg hback, if_neg henter, if_pos hblank]
        exact congrArg some (if_pos hsome)
    · exact types_nil (k.chosen k.im.commit) fun _ _ _ => by
        simp only [if_neg hlower, if_neg hback, if_neg henter, if_pos hblank]
        exact congrArg some (if_neg hsome)
  simp only [if_neg hlower, if_neg hback, if_neg henter, if_neg hblank]
  split_ifs
  · exact types_nil { k with im := k.im.handleChar tables ch } fun _ _ _ => rfl
  · cases imConvertPunc ch with
    | nil => exact types_one (k.chosen k.im.commit) ch fun _ _ _ => rfl
    | cons first rest =>
        cases rest with
        | nil => exact types_one (k.chosen k.im.commit) first fun _ _ _ => rfl
        | cons second rest =>
            exact ⟨k.chosen k.im.commit, [first, second], by simp, fun _ _ _ => rfl⟩
  · exact types_one (k.chosen k.im.commit) ch fun _ _ _ => rfl

theorem plainKey_types (tables : ImTables) (k : Keyboard) (sc : Byte) :
    ∃ after text, Types (fun k => some (k.plainKey tables sc)) k after text := by
  unfold Keyboard.plainKey
  cases functionKeys.lookup sc with
  | some ch => exact types_one k ch fun _ _ _ => rfl
  | none =>
      dsimp only
      by_cases hnumber : k.im.active = true ∧ 0x02 ≤ sc ∧ sc ≤ 0x0A
      · by_cases hchoice : sc.toNat - 0x02 + 1 ≤ k.im.candidates.length
        · exact types_nil (k.chosen (k.im.selectCandidate (sc.toNat - 0x02 + 1 - 1)))
            fun _ _ _ => congrArg some ((if_pos hnumber).trans (if_pos hchoice))
        · exact types_nil k
            fun _ _ _ => congrArg some ((if_pos hnumber).trans (if_neg hchoice))
      · cases hch : scancodeToAscii k.shift k.capsLock sc with
        | none =>
            refine types_nil k fun _ _ _ => congrArg some ((if_neg hnumber).trans ?_)
            dsimp only [Keyboard.onRing]
            rw [hch]
        | some ch =>
            by_cases hactive : k.im.active = true
            · obtain ⟨after, text, hshort, hsame⟩ := imChar_types tables k ch
              refine ⟨after, text, hshort, fun buf head tail => ?_⟩
              rw [← hsame]
              refine congrArg some ((if_neg hnumber).trans ?_)
              dsimp only [Keyboard.onRing]
              rw [hch]
              exact if_pos hactive
            · refine types_one k ch fun _ _ _ => congrArg some
                ((if_neg hnumber).trans ?_)
              dsimp only [Keyboard.onRing]
              rw [hch]
              exact if_neg hactive

theorem extendedKey_types {k' : Keyboard} (hdef : k.extendedKey sc = some k') :
    ∃ after text, Types (fun k => k.extendedKey sc) k after text := by
  unfold Keyboard.extendedKey at hdef ⊢
  cases harrow : arrowKeys.lookup sc with
  | some arrow =>
      rw [harrow] at hdef
      dsimp only at hdef ⊢
      by_cases hactive : k.im.active = true
      · rw [if_pos hactive] at hdef
        obtain ⟨im, him, -⟩ := Option.map_eq_some_iff.mp hdef
        refine types_nil { k with im := im } fun _ _ _ => (if_pos hactive).trans ?_
        dsimp only [Keyboard.onRing]
        rw [him]
        rfl
      · exact types_one k arrow.2 fun _ _ _ => if_neg hactive
  | none =>
      dsimp only
      cases extendedKeys.lookup sc with
      | some ch => exact types_one k ch fun _ _ _ => rfl
      | none => exact types_nil k fun _ _ _ => rfl

/-- **An interrupt types at most two characters, the same on every ring.** -/
theorem irqHandler_types {k' : Keyboard} (hdef : k.irqHandler tables sc = some k') :
    ∃ after text, Types (fun k => k.irqHandler tables sc) k after text := by
  unfold Keyboard.irqHandler at hdef ⊢
  dsimp only at hdef ⊢
  by_cases h1 : sc = 0xE0
  · exact types_nil { k with extended := true } fun _ _ _ => if_pos h1
  rw [if_neg h1] at hdef
  simp only [if_neg h1]
  by_cases h2 : sc = 0xE1
  · exact types_nil { k with extended2 := true } fun _ _ _ => if_pos h2
  rw [if_neg h2] at hdef
  simp only [if_neg h2]
  by_cases h3 : 0x80 ≤ sc
  · rw [if_pos h3] at hdef
    exact types_nil k' fun _ _ _ =>
      (if_pos h3).trans (by rw [← Option.some.inj hdef]; rfl)
  rw [if_neg h3] at hdef
  simp only [if_neg h3]
  by_cases h4 : sc = 0x2A ∨ sc = 0x36
  · exact types_nil { k with shift := true } fun _ _ _ => if_pos h4
  rw [if_neg h4] at hdef
  simp only [if_neg h4]
  by_cases h5 : sc = 0x1D
  · exact types_nil { k with ctrl := true } fun _ _ _ => if_pos h5
  rw [if_neg h5] at hdef
  simp only [if_neg h5]
  by_cases h6 : sc = 0x38
  · exact types_nil { k with alt := true } fun _ _ _ => if_pos h6
  rw [if_neg h6] at hdef
  simp only [if_neg h6]
  by_cases h7 : sc = 0x3A
  · exact types_nil { k with capsLock := !k.capsLock } fun _ _ _ => if_pos h7
  rw [if_neg h7] at hdef
  simp only [if_neg h7]
  by_cases h8 : sc = 0x39 ∧ k.shift = true
  · exact types_nil { k with im := k.im.toggle } fun _ _ _ => if_pos h8
  rw [if_neg h8] at hdef
  by_cases h9 : k.extended2 = true
  · exact types_nil { k with extended2 := false }
      fun _ _ _ => (if_neg h8).trans (if_pos h9)
  rw [if_neg h9] at hdef
  by_cases h10 : k.extended = true
  · rw [if_pos h10] at hdef
    obtain ⟨after, text, hshort, hsame⟩ := extendedKey_types hdef
    exact ⟨after, text, hshort, fun buf head tail =>
      (if_neg h8).trans ((if_neg h9).trans ((if_pos h10).trans (hsame buf head tail)))⟩
  · obtain ⟨after, text, hshort, hsame⟩ := plainKey_types tables k sc
    exact ⟨after, text, hshort, fun buf head tail =>
      (if_neg h8).trans ((if_neg h9).trans ((if_neg h10).trans (hsame buf head tail)))⟩

end Types

/-- The keyboard on an empty ring. -/
def Keyboard.drained (k : Keyboard) : Keyboard := k.onRing (fun _ => 0) 0 0

/-- What a scancode types. -/
def Keyboard.typed (tables : ImTables) (k : Keyboard) (sc : Byte) : List Byte :=
  ((k.drained.irqHandler tables sc).map Keyboard.pending).getD []

def Keyboard.after (tables : ImTables) (k : Keyboard) (sc : Byte) : Keyboard :=
  (k.drained.irqHandler tables sc).getD k

/-- **What scancodes type**, whatever becomes of it. -/
def Keyboard.typeAll (tables : ImTables) (k : Keyboard) : List Byte → List Byte
  | [] => []
  | sc :: rest => k.typed tables sc ++ (k.after tables sc).typeAll tables rest

section Typed

variable {tables : ImTables} {k k' : Keyboard} {sc : Byte} {text : List Byte}

theorem drained_put (k : Keyboard) (ch : Byte) : (k.put ch).drained = k.drained := by
  unfold Keyboard.put
  dsimp only
  split_ifs <;> rfl

theorem drained_puts (k : Keyboard) (text : List Byte) : (k.puts text).drained = k.drained := by
  induction text generalizing k with
  | nil => rfl
  | cons ch rest ih => exact (ih (k.put ch)).trans (drained_put k ch)

theorem drained_onRing (k : Keyboard) (buf : Nat → Byte) (head tail : Nat) :
    (k.onRing buf head tail).drained = k.drained := rfl

theorem RingOk.puts (h : RingOk k) (text : List Byte)
    (hroom : k.pending.length + text.length ≤ kbdBufSize - 1) :
    RingOk (k.puts text) ∧ (k.puts text).pending = k.pending ++ text := by
  induction text generalizing k with
  | nil => exact ⟨h, (List.append_nil _).symm⟩
  | cons ch rest ih =>
      rw [List.length_cons] at hroom
      obtain ⟨hok, hput⟩ := h.put ch
      rw [if_pos (by omega)] at hput
      have hrest := ih hok (by
        rw [hput, List.length_append, List.length_singleton]
        omega)
      rw [hput, List.append_assoc] at hrest
      exact hrest

theorem ringOk_drained (k : Keyboard) : RingOk k.drained ∧ k.drained.pending = [] := by
  have hzero : (0 : Nat) < kbdBufSize := by decide
  refine ⟨⟨hzero, hzero⟩, ?_⟩
  rw [← List.length_eq_zero_iff, length_pending]
  exact (by decide : (0 + kbdBufSize - 0) % kbdBufSize = 0)

theorem Types.typed {after : Keyboard}
    (h : Types (fun k => k.irqHandler tables sc) k after text) :
    k.typed tables sc = text ∧ (k.after tables sc).drained = after.drained := by
  have hrun : k.drained.irqHandler tables sc = some (after.drained.puts text) := h.same _ 0 0
  obtain ⟨hok, hempty⟩ := ringOk_drained after
  refine ⟨?_, ?_⟩
  · unfold Keyboard.typed
    rw [hrun]
    show (after.drained.puts text).pending = text
    rw [(hok.puts text ?_).2, hempty, List.nil_append]
    have hshort := h.short
    rw [hempty, List.length_nil]
    unfold kbdBufSize
    omega
  · unfold Keyboard.after
    rw [hrun]
    exact drained_puts _ _

/-- An interrupt on a ring with room for two. -/
theorem irqHandler_pending (h : RingOk k) (hroom : k.pending.length ≤ kbdBufSize - 3)
    (hdef : k.irqHandler tables sc = some k') :
    RingOk k' ∧ k'.pending = k.pending ++ k.typed tables sc ∧
      k'.drained = (k.after tables sc).drained := by
  obtain ⟨after, text, htypes⟩ := irqHandler_types hdef
  obtain ⟨htyped, hafter⟩ := htypes.typed
  have hshort := htypes.short
  have hrun : k.irqHandler tables sc =
      some ((after.onRing k.buf k.head k.tail).puts text) := htypes.same k.buf k.head k.tail
  rw [hdef] at hrun
  obtain rfl := Option.some.inj hrun
  have hok : RingOk (after.onRing k.buf k.head k.tail) := ⟨h.head, h.tail⟩
  have hsame : (after.onRing k.buf k.head k.tail).pending = k.pending := rfl
  obtain ⟨hok', hpending⟩ := hok.puts text (by
    rw [hsame]
    unfold kbdBufSize at *
    omega)
  refine ⟨hok', ?_, ?_⟩
  · rw [hpending, hsame, htyped]
  · rw [hafter, drained_puts, drained_onRing]

theorem typeAll_congr (tables : ImTables) (h : k.drained = k'.drained) (scs : List Byte) :
    k.typeAll tables scs = k'.typeAll tables scs := by
  induction scs generalizing k k' with
  | nil => rfl
  | cons sc rest ih =>
      have htyped : k.typed tables sc = k'.typed tables sc := by
        unfold Keyboard.typed
        rw [h]
      have hafter : (k.after tables sc).drained = (k'.after tables sc).drained := by
        unfold Keyboard.after
        rw [h]
        cases k'.drained.irqHandler tables sc with
        | none => exact h
        | some next => rfl
      unfold Keyboard.typeAll
      rw [htyped, ih hafter]

end Typed

/-! ### The terminal on the ring -/

/-- The terminal with what waits in the ring. -/
def Console.view (c : Console) : Tty := { c.tty with keyboard := c.kbd.pending }

section View

variable {t : Tty} {c : Console} {keyboard : List Byte}

theorem takeChar_keyboard (t : Tty) (keyboard : List Byte) :
    { t with keyboard := keyboard }.takeChar =
      ({ t.takeChar.1 with keyboard := keyboard }, t.takeChar.2) := by
  unfold Tty.takeChar
  dsimp only
  split_ifs <;> rfl

theorem append_keyboard (t : Tty) (keyboard : List Byte) (ch : Byte) :
    { t with keyboard := keyboard }.append ch = { t.append ch with keyboard := keyboard } := by
  unfold Tty.append
  dsimp only
  split_ifs <;> rfl

theorem appendSpaces_keyboard (keyboard : List Byte) (n : Nat) : ∀ t : Tty,
    { t with keyboard := keyboard }.appendSpaces n =
      { t.appendSpaces n with keyboard := keyboard } := by
  induction n with
  | zero => exact fun t => rfl
  | succ n ih =>
      intro t
      unfold Tty.appendSpaces
      dsimp only
      split_ifs
      · rw [append_keyboard, ih]
      · rfl

theorem cookedProcessChar_keyboard (t : Tty) (keyboard : List Byte) (ch : Byte) :
    cookedProcessChar { t with keyboard := keyboard } ch =
      { cookedProcessChar t ch with keyboard := keyboard } := by
  unfold cookedProcessChar
  dsimp only
  split_ifs
  · rfl
  · rfl
  · rfl
  · rfl
  · exact appendSpaces_keyboard keyboard 4 t
  · exact append_keyboard t keyboard ch

theorem processNext_keyboard (t : Tty) (keyboard : List Byte) (raw : Option Byte) :
    processNext ({ t with keyboard := keyboard }, raw) =
      { processNext (t, raw) with keyboard := keyboard } := by
  cases raw with
  | none => rfl
  | some ch => exact cookedProcessChar_keyboard t keyboard ch

theorem readKeyboard_view (c : Console) :
    c.view.readKeyboard = ({ c.tty with keyboard := c.kbd.pending.tail }, c.kbd.pending.head?) := rfl

/-- **The ring is the list that the terminal reads from.** -/
theorem readChar_view (h : RingOk c.kbd) :
    RingOk c.readChar.1.kbd ∧ c.readChar.1.view = (ttyReadChar c.view).1 ∧
      c.readChar.2 = (ttyReadChar c.view).2 ∧ c.readChar.1.kbd.drained = c.kbd.drained := by
  obtain ⟨hok, hhead, htail⟩ := h.readChar
  have hdrained : c.kbd.readChar.1.drained = c.kbd.drained := by
    unfold Keyboard.readChar
    split_ifs <;> rfl
  unfold Console.readChar ttyReadChar
  cases hmode : c.tty.mode with
  | cooked =>
      rw [show c.view.mode = .cooked from hmode]
      dsimp only
      have htake : c.view.takeChar =
          ({ c.tty.takeChar.1 with keyboard := c.kbd.pending }, c.tty.takeChar.2) :=
        takeChar_keyboard c.tty c.kbd.pending
      rw [htake]
      cases hch : c.tty.takeChar with
      | mk tty ch =>
          cases ch with
          | some ch => exact ⟨h, rfl, rfl, rfl⟩
          | none =>
              dsimp only
              -- What is left of the line buffer is that of the call before.
              have hnext : processNext
                  ({ tty with keyboard := c.kbd.pending } : Tty).readKeyboard =
                  { processNext (tty, c.kbd.readChar.2) with
                    keyboard := c.kbd.readChar.1.pending } := by
                rw [hhead, htail]
                exact processNext_keyboard tty c.kbd.pending.tail c.kbd.pending.head?
              rw [hnext]
              generalize processNext (tty, c.kbd.readChar.2) = mid
              have hserial : processNext
                  ({ mid with keyboard := c.kbd.readChar.1.pending } : Tty).readSerial =
                  { processNext mid.readSerial with keyboard := c.kbd.readChar.1.pending } :=
                processNext_keyboard { mid with serial := mid.serial.tail } _ mid.serial.head?
              rw [hserial]
              have hlast := takeChar_keyboard (processNext mid.readSerial)
                c.kbd.readChar.1.pending
              exact ⟨hok, (congrArg Prod.fst hlast).symm, (congrArg Prod.snd hlast).symm, hdrained⟩
  | raw =>
      rw [show c.view.mode = .raw from hmode]
      dsimp only
      rw [readKeyboard_view, ← hhead, ← htail]
      cases hch : c.kbd.readChar with
      | mk kbd ch =>
          rw [hch] at hok hdrained
          cases ch with
          | some ch => exact ⟨hok, rfl, rfl, hdrained⟩
          | none => exact ⟨hok, rfl, rfl, hdrained⟩

end View

/-! ### Runs -/

/-- `typed` are the bytes that the terminal has taken, and `returned` what the readers got. -/
structure ConsoleRun where
  console : Console
  typed : List Byte
  returned : List Byte

inductive ConsoleEvent where
  | scan (sc : Byte)
  | read

def ConsoleEvent.scans : ConsoleEvent → List Byte
  | .scan sc => [sc]
  | .read => []

/-- A key interrupts, or a reader calls. -/
def ConsoleRun.next (tables : ImTables) (r : ConsoleRun) : ConsoleEvent → Option ConsoleRun
  | .scan sc => (r.console.kbd.irqHandler tables sc).map fun kbd =>
      { r with console := { r.console with kbd := kbd } }
  | .read => some
      { console := r.console.readChar.1
        typed := r.typed ++ r.console.view.taken
        returned := r.returned ++ r.console.readChar.2.toList }

def ConsoleStep (tables : ImTables) (r : ConsoleRun) (e : ConsoleEvent) (r' : ConsoleRun) : Prop :=
  r.next tables e = some r'

/-- The ring has room for what a key types. -/
def Roomy (r : ConsoleRun) : ConsoleEvent → Prop
  | .scan _ => r.console.kbd.pending.length ≤ kbdBufSize - 3
  | .read => True

def consoleStart (kbd : Keyboard) : ConsoleRun := ⟨⟨kbd, ttyStart⟩, [], []⟩

def ConsoleRun.view (r : ConsoleRun) : TtyRun := ⟨r.console.view, r.typed, r.returned⟩

/-- What holds at any time, when nothing comes over the serial line. -/
structure ConsoleOk (r : ConsoleRun) : Prop where
  ring : RingOk r.console.kbd
  serial : r.console.tty.serial = []
  tty : TtyOk r.view

/-- All that is typed in the end, if these scancodes are still to come. -/
def ConsoleRun.total (tables : ImTables) (r : ConsoleRun) (scs : List Byte) : List Byte :=
  r.typed ++ (r.console.kbd.pending ++ r.console.kbd.typeAll tables scs)

theorem takeChar_sources (t : Tty) : SameSources t t.takeChar.1 := by
  unfold Tty.takeChar
  split_ifs
  · dsimp only
    split_ifs <;> exact ⟨rfl, rfl, rfl⟩
  · exact ⟨rfl, rfl, rfl⟩

theorem processNext_sources (r : Tty × Option Byte) : SameSources r.1 (processNext r) := by
  unfold processNext
  split
  · exact ⟨rfl, rfl, rfl⟩
  · exact cookedProcessChar_sources _ _

/-- As long as something of a line is left, a call hands that on. -/
theorem ttyReadChar_ready {t : Tty} (hmode : t.mode = .cooked)
    (hready : t.lineReady = true ∧ t.linePos < t.lineLen) : ttyReadChar t = t.takeChar := by
  have hpair : t.takeChar = (t.takeChar.1, some (t.lineBuf t.linePos)) :=
    Prod.ext rfl (by unfold Tty.takeChar; rw [if_pos hready])
  unfold ttyReadChar
  rw [hmode]
  dsimp only
  rw [hpair]

/-- What a call has taken is gone from the keyboard, and no more. -/
theorem ttyReadChar_taken {t : Tty} (hmode : t.mode = .cooked) (hserial : t.serial = []) :
    (ttyReadChar t).1.serial = [] ∧ t.taken ++ (ttyReadChar t).1.keyboard = t.keyboard := by
  have htake := takeChar_sources t
  by_cases hready : t.lineReady = true ∧ t.linePos < t.lineLen
  · have hnothing : t.taken = [] := if_pos hready
    rw [ttyReadChar_ready hmode hready, hnothing]
    exact ⟨htake.serial.trans hserial, htake.keyboard⟩
  · unfold ttyReadChar
    rw [hmode]
    dsimp only
    have htaken : t.taken = t.keyboard.head?.toList ++ t.serial.head?.toList := if_neg hready
    have hnone : t.takeChar = (t, none) := if_neg hready
    rw [hnone, htaken, hserial]
    dsimp only
    have hfirst := processNext_sources t.readKeyboard
    have hsecond := processNext_sources (processNext t.readKeyboard).readSerial
    have hlast := takeChar_sources (processNext (processNext t.readKeyboard).readSerial)
    refine ⟨?_, ?_⟩
    · rw [hlast.serial, hsecond.serial]
      show (processNext t.readKeyboard).serial.tail = []
      rw [hfirst.serial]
      show t.serial.tail = []
      rw [hserial]
      rfl
    · rw [hlast.keyboard, hsecond.keyboard]
      show _ ++ (processNext t.readKeyboard).keyboard = _
      rw [hfirst.keyboard]
      show t.keyboard.head?.toList ++ [] ++ t.keyboard.tail = t.keyboard
      cases t.keyboard <;> rfl

section Runs

variable {tables : ImTables} {r r' : ConsoleRun} {e : ConsoleEvent}

/-- **A step.**  It changes when characters arrive, but not which ones. -/
theorem consoleOk_next (h : ConsoleOk r) (hroom : Roomy r e) (hstep : ConsoleStep tables r e r') :
    ConsoleOk r' ∧ ∀ scs, r'.total tables scs = r.total tables (e.scans ++ scs) := by
  cases e with
  | scan sc =>
      obtain ⟨kbd, hirq, rfl⟩ := Option.map_eq_some_iff.mp hstep
      obtain ⟨hok, hpending, hdrained⟩ := irqHandler_pending h.ring hroom hirq
      refine ⟨⟨hok, h.serial, ⟨h.tty.mode, h.tty.shows.sources _ _⟩⟩, fun scs => ?_⟩
      unfold ConsoleRun.total
      dsimp only
      rw [hpending, typeAll_congr tables hdrained, List.append_assoc]
      rfl
  | read =>
      obtain rfl := Option.some.inj hstep
      obtain ⟨hok, hview, hchar, hdrained⟩ := readChar_view h.ring
      have hmode : r.console.view.mode = .cooked := h.tty.mode
      obtain ⟨hserial, htaken⟩ := ttyReadChar_taken hmode h.serial
      have hallowed : TtyAllowed r.view .read := .inr fun k _ s hs => by
        rw [show r.view.tty.serial = [] from h.serial] at hs
        cases hs
      have hnext := ttyOk_next h.tty hallowed
      refine ⟨⟨hok, ?_, ?_⟩, fun scs => ?_⟩
      · rw [← hview] at hserial
        exact hserial
      · unfold ConsoleRun.view
        dsimp only
        rw [hview, hchar]
        exact hnext
      · have hpending : r.console.view.taken ++ r.console.readChar.1.kbd.pending =
            r.console.kbd.pending := by
          rw [← hview] at htaken
          exact htaken
        unfold ConsoleRun.total
        dsimp only [ConsoleEvent.scans, List.nil_append]
        rw [typeAll_congr tables hdrained, ← hpending]
        simp only [List.append_assoc]

theorem ConsoleOk.run (h : ConsoleOk r) {events : List ConsoleEvent}
    (hrun : Executes (Guarded Roomy (ConsoleStep tables)) r events r') :
    ConsoleOk r' ∧
      ∀ scs, r'.total tables scs = r.total tables (events.flatMap ConsoleEvent.scans ++ scs) := by
  induction hrun with
  | nil => exact ⟨h, fun scs => rfl⟩
  | cons hstep _ ih =>
      obtain ⟨hmid, hone⟩ := consoleOk_next h hstep.1 hstep.2
      obtain ⟨hlast, hrest⟩ := ih hmid
      refine ⟨hlast, fun scs => ?_⟩
      rw [hrest, hone, List.flatMap_cons, List.append_assoc]

theorem consoleOk_start {kbd : Keyboard} (hring : RingOk kbd) : ConsoleOk (consoleStart kbd) :=
  ⟨hring, rfl, ⟨rfl, .editing ⟨rfl, rfl, Nat.zero_le _, rfl,
    fun _ hi => absurd hi List.not_mem_nil⟩ rfl⟩⟩

/-! ### Everything arrives -/

/-- How much of the lines that were completed is still in the buffer. -/
def leftLen (t : Tty) : Nat := if t.lineReady = true then t.lineLen - t.linePos else 0

theorem TtyShows.leftLen_lt {t : Tty} {typed returned : List Byte}
    (h : TtyShows t typed returned) : leftLen t < ttyLineBuf := by
  unfold leftLen
  cases h with
  | editing hediting hreturned =>
      rw [hediting.ready, if_neg Bool.false_ne_true]
      decide
  | reading left hreading hline hreturned =>
      have hlen := hreading.len_lt
      split_ifs <;> omega

theorem leftLen_takeChar {t : Tty} (hready : t.lineReady = true ∧ t.linePos < t.lineLen) :
    leftLen t.takeChar.1 < leftLen t := by
  have hlt := hready.2
  have htake : t.takeChar.1 = if t.lineLen ≤ t.linePos + 1 then
      { t with lineReady := false, lineLen := 0, linePos := 0 }
      else { t with linePos := t.linePos + 1 } := by
    unfold Tty.takeChar
    rw [if_pos hready]
  rw [htake]
  unfold leftLen
  rw [if_pos hready.1]
  by_cases hlast : t.lineLen ≤ t.linePos + 1
  · simp only [if_pos hlast, if_neg Bool.false_ne_true]
    omega
  · simp only [if_neg hlast, if_pos hready.1]
    omega

/-- What there is still to be done for the readers. -/
def ConsoleRun.backlog (r : ConsoleRun) : Nat :=
  r.console.kbd.pending.length * ttyLineBuf + leftLen r.console.tty

theorem backlog_read (h : ConsoleOk r) (hbusy : 0 < r.backlog)
    (hstep : ConsoleStep tables r .read r') : r'.backlog < r.backlog := by
  have hok' := (consoleOk_next (e := .read) h trivial hstep).1
  obtain rfl := Option.some.inj hstep
  obtain ⟨-, hview, -, -⟩ := readChar_view h.ring
  have hmode : r.console.view.mode = .cooked := h.tty.mode
  obtain ⟨-, htaken⟩ := ttyReadChar_taken hmode h.serial
  rw [← hview] at htaken
  have hlen : r.console.view.taken.length + r.console.readChar.1.kbd.pending.length =
      r.console.kbd.pending.length := by
    rw [← List.length_append]
    exact congrArg List.length htaken
  have hleft := hok'.tty.shows.leftLen_lt
  have hleft' : leftLen r.console.readChar.1.tty < ttyLineBuf := hleft
  unfold ConsoleRun.backlog at hbusy ⊢
  dsimp only at hbusy ⊢
  by_cases hready : r.console.tty.lineReady = true ∧ r.console.tty.linePos < r.console.tty.lineLen
  · -- A character of the line is handed on, and the ring is left alone.
    have hnothing : r.console.view.taken = [] := if_pos hready
    have htake : leftLen r.console.readChar.1.tty < leftLen r.console.tty := by
      have hless := leftLen_takeChar (t := r.console.view) hready
      rw [← ttyReadChar_ready hmode hready, ← hview] at hless
      exact hless
    rw [hnothing, List.length_nil] at hlen
    have heq : r.console.readChar.1.kbd.pending.length = r.console.kbd.pending.length := by omega
    rw [heq]
    omega
  · -- Nothing of a line is left, so a byte is taken from the ring.
    have hnoline : leftLen r.console.tty = 0 := by
      cases h.tty.shows with
      | editing hediting hreturned =>
          have hnot : r.console.tty.lineReady = false := hediting.ready
          unfold leftLen
          rw [hnot, if_neg Bool.false_ne_true]
      | reading left hreading hline hreturned =>
          exact absurd ⟨hreading.ready, hreading.pos_lt⟩ hready
    have htakes : r.console.view.taken =
        r.console.kbd.pending.head?.toList ++ r.console.tty.serial.head?.toList := if_neg hready
    rw [h.serial] at htakes
    rw [hnoline] at hbusy ⊢
    cases hpending : r.console.kbd.pending with
    | nil =>
        rw [hpending] at hbusy
        exact absurd hbusy (by decide)
    | cons ch rest =>
        rw [hpending] at htakes hlen
        rw [htakes] at hlen
        simp only [List.head?_cons, Option.toList_some, List.head?_nil, Option.toList_none,
          List.append_nil, List.length_nil, List.length_cons] at hlen ⊢
        have heq : r.console.readChar.1.kbd.pending.length = rest.length := by omega
        rw [heq, Nat.add_mul]
        omega

/-- Readers who go on asking get everything. -/
theorem ConsoleOk.drains (tables : ImTables) (h : ConsoleOk r) :
    ∃ n r', Executes (Guarded Roomy (ConsoleStep tables)) r (List.replicate n .read) r' ∧
      r'.backlog = 0 := by
  induction hsize : r.backlog using Nat.strong_induction_on generalizing r with
  | _ size ih =>
      by_cases hbusy : 0 < r.backlog
      · obtain ⟨mid, hmid⟩ : ∃ mid, ConsoleStep tables r .read mid := ⟨_, rfl⟩
        have hless := backlog_read h hbusy hmid
        have hok := (consoleOk_next (e := .read) h trivial hmid).1
        obtain ⟨n, r', hrest, hdone⟩ := ih _ (hsize ▸ hless) hok rfl
        exact ⟨n + 1, r', .cons ⟨trivial, hmid⟩ hrest, hdone⟩
      · exact ⟨0, r, .nil r, by omega⟩

/-- The lines of a beginning are a beginning of the lines. -/
theorem edit_lines_begin (typed more : List Byte) :
    (edit typed).lines <+: (edit (typed ++ more)).lines := by
  rw [edit_append]
  generalize edit typed = e
  induction more generalizing e with
  | nil => exact List.prefix_refl _
  | cons ch rest ih =>
      refine List.IsPrefix.trans ?_ (ih (e.type ch))
      unfold Editor.type
      split_ifs
      · exact List.prefix_refl _
      · exact List.prefix_append _ _
      · exact List.prefix_refl _
      · exact List.prefix_refl _
      · exact List.prefix_refl _

theorem flatten_begins {l l' : List (List Byte)} (h : l <+: l') : l.flatten <+: l'.flatten := by
  obtain ⟨more, rfl⟩ := h
  rw [List.flatten_append]
  exact List.prefix_append _ _

/--
**What is typed is read.**  Whatever keys interrupt, when the readers call, and whether the input
method is on, as long as there is room in the ring the readers get the beginning of the lines that
an editor makes of what the scancodes type; and if they go on asking they get all of them.
-/
theorem console_lines {kbd : Keyboard} (hring : RingOk kbd) (hempty : kbd.pending = [])
    {events : List ConsoleEvent}
    (hrun : Executes (Guarded Roomy (ConsoleStep tables)) (consoleStart kbd) events r) :
    let lines := (edit (kbd.typeAll tables (events.flatMap ConsoleEvent.scans))).lines.flatten
    r.returned <+: lines ∧
      ∃ n r', Executes (Guarded Roomy (ConsoleStep tables)) r (List.replicate n .read) r' ∧
        r'.returned = lines := by
  obtain ⟨hok, htotal⟩ := (consoleOk_start hring).run hrun
  have hall : ∀ {r' : ConsoleRun} {n : Nat},
      Executes (Guarded Roomy (ConsoleStep tables)) r (List.replicate n .read) r' → ConsoleOk r' ∧
        r'.typed ++ r'.console.kbd.pending =
          kbd.typeAll tables (events.flatMap ConsoleEvent.scans) := by
    intro r' n hreads
    obtain ⟨hok', hsame⟩ := hok.run hreads
    have hscans : (List.replicate n ConsoleEvent.read).flatMap ConsoleEvent.scans = [] := by
      rw [List.flatMap_eq_nil_iff]
      intro e he
      rw [(List.mem_replicate.mp he).2]
      rfl
    refine ⟨hok', ?_⟩
    have heq := hsame []
    rw [hscans, List.nil_append, htotal []] at heq
    simp only [ConsoleRun.total, Keyboard.typeAll, List.append_nil, consoleStart, hempty,
      List.nil_append] at heq
    exact heq
  refine ⟨?_, ?_⟩
  · obtain ⟨-, htyped⟩ := hall (n := 0) (.nil r)
    rw [← htyped]
    exact hok.tty.cooked.returned.trans (flatten_begins (edit_lines_begin _ _))
  · obtain ⟨n, r', hreads, hdone⟩ := hok.drains tables
    obtain ⟨hok', htyped⟩ := hall hreads
    refine ⟨n, r', hreads, ?_⟩
    unfold ConsoleRun.backlog ttyLineBuf at hdone
    have hnone : r'.console.kbd.pending = [] := List.length_eq_zero_iff.mp (by omega)
    rw [hnone, List.append_nil] at htyped
    rw [← htyped]
    refine hok'.tty.cooked.whole ?_
    cases hok'.tty.shows with
    | editing hediting hreturned => exact hediting.ready
    | reading left hreading hline hreturned =>
        have hready : r'.console.tty.lineReady = true := hreading.ready
        have hlt : r'.console.tty.linePos < r'.console.tty.lineLen := hreading.pos_lt
        unfold leftLen at hdone
        rw [if_pos hready] at hdone
        omega

end Runs

/-! ### The keys of a text -/

/-- Shift or no shift, and a key. -/
def keyPresses : List (Bool × Byte) :=
  ((symbolKeys.map fun key => key.1) ++ (letterKeys.map fun key => key.1)).flatMap
    (fun sc => [(false, sc), (true, sc)]) ++ plainKeys.map fun key => (false, key.1)

/-- The press that types a character. -/
def keyOf (capsLock : Bool) (ch : Byte) : Option (Bool × Byte) :=
  keyPresses.find? fun press => scancodeToAscii press.1 capsLock press.2 == some ch

/-- The scancodes when the key of a character is pressed and released. -/
def keystrokes (capsLock : Bool) (ch : Byte) : List Byte :=
  match keyOf capsLock ch with
  | none => []
  | some (false, sc) => [sc, sc + 0x80]
  | some (true, sc) => [0x2A, sc, sc + 0x80, 0xAA]

/-- The printable characters, and those of backspace, tab, enter and escape. -/
def Typable (ch : Byte) : Prop := (32 ≤ ch ∧ ch ≤ 126) ∨ ch ∈ [8, 9, 10, 27]

instance (ch : Byte) : Decidable (Typable ch) := inferInstanceAs (Decidable (_ ∨ _))

theorem keyOf_isSome (capsLock : Bool) : ∀ ch, Typable ch → (keyOf capsLock ch).isSome := by
  cases capsLock <;> decide +kernel

/-- Neither a prefix nor a modifier nor a function key. -/
structure PlainCode (shift : Bool) (sc : Byte) : Prop where
  press : sc < 0x80
  notPrefix : sc + 0x80 ≠ 0xE0 ∧ sc + 0x80 ≠ 0xE1
  notShift : sc ≠ 0x2A ∧ sc ≠ 0x36
  notCtrl : sc ≠ 0x1D
  notAlt : sc ≠ 0x38
  notCaps : sc ≠ 0x3A
  notFunction : functionKeys.lookup sc = none
  notToggle : ¬ (sc = 0x39 ∧ shift = true)

instance (shift : Bool) (sc : Byte) : Decidable (PlainCode shift sc) :=
  decidable_of_iff (sc < 0x80 ∧ (sc + 0x80 ≠ 0xE0 ∧ sc + 0x80 ≠ 0xE1) ∧
      (sc ≠ 0x2A ∧ sc ≠ 0x36) ∧ sc ≠ 0x1D ∧ sc ≠ 0x38 ∧ sc ≠ 0x3A ∧
      functionKeys.lookup sc = none ∧ ¬ (sc = 0x39 ∧ shift = true))
    ⟨fun ⟨h1, h2, h3, h4, h5, h6, h7, h8⟩ => ⟨h1, h2, h3, h4, h5, h6, h7, h8⟩,
      fun h => ⟨h.press, h.notPrefix, h.notShift, h.notCtrl, h.notAlt, h.notCaps, h.notFunction,
        h.notToggle⟩⟩

theorem keyPresses_plain : ∀ press ∈ keyPresses, PlainCode press.1 press.2 := by
  have hall : keyPresses.all (fun press => PlainCode press.1 press.2) = true := by decide +kernel
  exact fun press hpress => of_decide_eq_true (List.all_eq_true.mp hall press hpress)

/-- No key is held, no prefix has come, and the method is off. -/
structure Idle (capsLock : Bool) (k : Keyboard) : Prop where
  shift : k.shift = false
  extended : k.extended = false
  extended2 : k.extended2 = false
  caps : k.capsLock = capsLock
  im : k.im.active = false

section Text

variable {tables : ImTables} {k : Keyboard} {sc ch : Byte} {shift capsLock : Bool}

theorem Types.typeAll {after : Keyboard} {text : List Byte}
    (h : Types (fun k => k.irqHandler tables sc) k after text) (rest : List Byte) :
    k.typeAll tables (sc :: rest) = text ++ after.typeAll tables rest := by
  obtain ⟨htyped, hafter⟩ := h.typed
  show k.typed tables sc ++ (k.after tables sc).typeAll tables rest = _
  rw [htyped, typeAll_congr tables hafter]

theorem press_types (tables : ImTables) (hplain : PlainCode shift sc) (hidle : Idle capsLock k)
    (hch : scancodeToAscii shift capsLock sc = some ch) :
    Types (fun k => k.irqHandler tables sc) { k with shift := shift } { k with shift := shift }
      [ch] where
  short := by simp
  same buf head tail := by
    have hlt := hplain.press
    have hnot : sc ≠ 0xE0 ∧ sc ≠ 0xE1 ∧ ¬ 0x80 ≤ sc := by bv_omega
    obtain ⟨h1, h2, h3⟩ := hnot
    have hoff : ¬ k.im.active = true := by rw [hidle.im]; exact Bool.false_ne_true
    have hext : ¬ k.extended = true := by rw [hidle.extended]; exact Bool.false_ne_true
    have hext2 : ¬ k.extended2 = true := by rw [hidle.extended2]; exact Bool.false_ne_true
    have hchar : scancodeToAscii ({ k with shift := shift }.onRing buf head tail).shift
        ({ k with shift := shift }.onRing buf head tail).capsLock sc = some ch :=
      (congrArg (scancodeToAscii shift · sc) hidle.caps).trans hch
    have hkey : ({ k with shift := shift }.onRing buf head tail).plainKey tables sc =
        ({ k with shift := shift }.onRing buf head tail).put ch := by
      unfold Keyboard.plainKey
      rw [hplain.notFunction]
      refine (if_neg fun h => hoff h.1).trans ?_
      rw [hchar]
      exact if_neg hoff
    exact (if_neg h1).trans <| (if_neg h2).trans <| (if_neg h3).trans <|
      (if_neg (not_or.mpr hplain.notShift)).trans <| (if_neg hplain.notCtrl).trans <|
      (if_neg hplain.notAlt).trans <| (if_neg hplain.notCaps).trans <|
      (if_neg hplain.notToggle).trans <| (if_neg hext2).trans <| (if_neg hext).trans <|
      congrArg some hkey

theorem release_types (tables : ImTables) (hplain : PlainCode shift sc) (hidle : Idle capsLock k) :
    Types (fun k => k.irqHandler tables (sc + 0x80)) { k with shift := shift }
      { k with shift := shift } [] where
  short := by simp
  same buf head tail := by
    have hlt := hplain.press
    have hmake : sc + 0x80 - 0x80 = sc ∧ 0x80 ≤ sc + 0x80 := by bv_omega
    refine (if_neg hplain.notPrefix.1).trans <| (if_neg hplain.notPrefix.2).trans <|
      (if_pos hmake.2).trans ?_
    dsimp only
    rw [hmake.1, if_neg (not_or.mpr hplain.notShift), if_neg hplain.notCtrl, if_neg hplain.notAlt]
    have hsame : ({ k with shift := shift, extended := false, extended2 := false } : Keyboard) =
        { k with shift := shift } := by simp [hidle.extended, hidle.extended2]
    exact congrArg some (congrArg (fun k => Keyboard.onRing k buf head tail) hsame)

theorem shift_types (k : Keyboard) :
    Types (fun k => k.irqHandler tables 0x2A) k { k with shift := true } [] :=
  ⟨by simp, fun _ _ _ => rfl⟩

theorem unshift_types (hidle : Idle capsLock k) :
    Types (fun k => k.irqHandler tables 0xAA) { k with shift := true } k [] where
  short := by simp
  same buf head tail := by
    have hsame : ({ k with shift := false, extended := false, extended2 := false } : Keyboard) =
        k := by
      obtain ⟨shift, ctrl, alt, caps, extended, extended2, _, _, _, im, written⟩ := k
      obtain ⟨rfl, rfl, rfl, -, -⟩ := hidle
      rfl
    exact congrArg some (congrArg (fun k => Keyboard.onRing k buf head tail) hsame)

/-- The keys of a character type it, and leave the keyboard as it was. -/
theorem typeAll_keystrokes (hidle : Idle capsLock k) (htypable : Typable ch) (rest : List Byte) :
    k.typeAll tables (keystrokes capsLock ch ++ rest) = ch :: k.typeAll tables rest := by
  obtain ⟨⟨shift, sc⟩, hkey⟩ := Option.isSome_iff_exists.mp (keyOf_isSome capsLock ch htypable)
  have hplain := keyPresses_plain _ (List.mem_of_find?_eq_some hkey)
  have hch : scancodeToAscii shift capsLock sc = some ch := by
    simpa using List.find?_some hkey
  have hpress := press_types tables hplain hidle hch
  have hrelease := release_types tables hplain hidle
  unfold keystrokes
  rw [hkey]
  cases shift with
  | false =>
      have hsame : ({ k with shift := false } : Keyboard) = k := by rw [← hidle.shift]
      rw [hsame] at hpress hrelease
      show k.typeAll tables (sc :: (sc + 0x80) :: rest) = _
      rw [hpress.typeAll, hrelease.typeAll]
      rfl
  | true =>
      show k.typeAll tables (0x2A :: sc :: (sc + 0x80) :: 0xAA :: rest) = _
      rw [(shift_types k).typeAll, hpress.typeAll, hrelease.typeAll,
        (unshift_types hidle).typeAll]
      rfl

theorem typeAll_text (hidle : Idle capsLock k) {text : List Byte}
    (htext : ∀ ch ∈ text, Typable ch) :
    k.typeAll tables (text.flatMap (keystrokes capsLock)) = text := by
  induction text with
  | nil => rfl
  | cons ch rest ih =>
      rw [List.flatMap_cons, typeAll_keystrokes hidle (htext ch (List.mem_cons_self ..)),
        ih fun c hc => htext c (List.mem_cons_of_mem _ hc)]

/--
**A text arrives.**  Whatever printable characters, tabs, ends of lines and corrections a text has
and however the lock stands, if its keys are pressed and released one after another with calls of
readers in between, the readers have got the beginning of the lines that an editor makes of the
text; and if they go on asking they get all of them.
-/
theorem text_arrives {kbd : Keyboard} (hidle : Idle capsLock kbd) (hring : RingOk kbd)
    (hempty : kbd.pending = []) {text : List Byte} (htext : ∀ ch ∈ text, Typable ch)
    {events : List ConsoleEvent} {r : ConsoleRun}
    (hkeys : events.flatMap ConsoleEvent.scans = text.flatMap (keystrokes capsLock))
    (hrun : Executes (Guarded Roomy (ConsoleStep tables)) (consoleStart kbd) events r) :
    r.returned <+: (edit text).lines.flatten ∧
      ∃ n r', Executes (Guarded Roomy (ConsoleStep tables)) r (List.replicate n .read) r' ∧
        r'.returned = (edit text).lines.flatten := by
  have hlines := console_lines hring hempty hrun
  rw [hkeys, typeAll_text hidle htext] at hlines
  exact hlines

instance (r : ConsoleRun) : (e : ConsoleEvent) → Decidable (Roomy r e)
  | .scan _ => inferInstanceAs (Decidable (_ ≤ _))
  | .read => inferInstanceAs (Decidable True)

/-- Big letters, a reader that asks while a key is held, and the end of the line. -/
theorem text_arrives_hi :
    ∃ r, r.returned <+: (edit [72, 73, 10]).lines.flatten ∧
      ∃ n r', Executes (Guarded Roomy (ConsoleStep ⟨[], []⟩)) r (List.replicate n .read) r' ∧
        r'.returned = (edit [72, 73, 10]).lines.flatten := by
  let next : ConsoleRun → ConsoleEvent → Option ConsoleRun := fun r e =>
    if Roomy r e then r.next ⟨[], []⟩ e else none
  let kbd := keyboardStart fun _ => 0
  let events : List ConsoleEvent := [.scan 0x2A, .scan 0x23, .read, .scan 0xA3, .scan 0xAA,
    .scan 0x2A, .scan 0x17, .scan 0x97, .read, .scan 0xAA, .scan 0x1C, .scan 0x9C]
  obtain ⟨r, hr⟩ : ∃ r, runAll next (consoleStart kbd) events = some r :=
    Option.isSome_iff_exists.mp (by decide +kernel)
  have hrun : Executes (Guarded Roomy (ConsoleStep ⟨[], []⟩)) (consoleStart kbd) events r := by
    refine executes_runAll (fun s e s' hnext => ?_) hr
    have hsome := (Option.ite_none_right_eq_some.mp hnext)
    exact hsome
  have hidle : Idle false kbd := ⟨rfl, rfl, rfl, rfl, rfl⟩
  have hempty : kbd.pending = [] := by decide +kernel
  exact ⟨r, text_arrives hidle ⟨by decide, by decide⟩ hempty (by decide +kernel)
    (by decide +kernel) hrun⟩

end Text

end BrightS
