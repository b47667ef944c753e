/-
Splitting a line gives the arguments back.

`IsLine` says how a list of arguments may be written: each bare or between quotes, with blanks
between them, and before and behind all of them.  The line that was read so far is never
written to again, and every argument in it ends at a null byte (`parseArgsLoop_line`).
-/
import BrightS.Kernel.UserShell
import BrightS.Proofs.Strings

namespace BrightS

/-- An argument as it may be written: bare, when it is not empty and has no blanks, or between
quotes. -/
def IsWritten (a w : List UInt8) : Prop :=
  (a ≠ [] ∧ (∀ c ∈ a, isBlank c = false) ∧ w = a) ∨ ∃ q, isQuote q = true ∧ w = q :: a ++ [q]

/-- A line of these arguments. -/
inductive IsLine : List (List UInt8) → List UInt8 → Prop
  | blank {gap} : (∀ c ∈ gap, isBlank c = true) → IsLine [] gap
  | cons {a args gap w text} : (∀ c ∈ gap, isBlank c = true) → IsWritten a w → IsLine args text →
      (∀ c ∈ text.head?, isBlank c = true) → IsLine (a :: args) (gap ++ w ++ text)

/-- An argument without quotes. -/
def PlainArg (a : List UInt8) : Prop := ∀ c ∈ a, c ≠ 0 ∧ isQuote c = false

section

variable {a gap text : List UInt8} {args : List (List UInt8)} {c q : UInt8} {fuel : Nat}

theorem getD_append_length (before text : List UInt8) :
    (before ++ text).getD before.length 0 = text.headD 0 := by
  rw [List.getD_eq_getElem?_getD, List.getElem?_append_right (le_refl _), Nat.sub_self]
  cases text <;> rfl

theorem set_append_length (before text : List UInt8) (c d : UInt8) :
    (before ++ c :: text).set before.length d = before ++ d :: text := by
  rw [List.set_append_right _ _ (le_refl _), Nat.sub_self]
  rfl

theorem ne_zero_of_isBlank (hc : isBlank c = true) : c ≠ 0 := by
  rintro rfl
  exact absurd hc (by decide)

theorem ne_zero_of_isQuote (hc : isQuote c = true) : c ≠ 0 := by
  rintro rfl
  exact absurd hc (by decide)

theorem not_isBlank_of_isQuote (hc : isQuote c = true) : isBlank c = false := by
  rcases Bool.or_eq_true_iff.mp hc with h | h
  · rw [beq_iff_eq.mp h]
    decide
  · rw [beq_iff_eq.mp h]
    decide

/-! ### The inner loops -/

theorem skipBlanks_gap (before rest : List UInt8) (hgap : ∀ c ∈ gap, isBlank c = true)
    (hrest : isBlank (rest.headD 0) = false) (hfuel : gap.length ≤ fuel) :
    skipBlanks (before ++ gap ++ rest) fuel before.length = (before ++ gap).length := by
  induction gap generalizing before fuel with
  | nil =>
      rw [List.append_nil]
      cases fuel with
      | zero => rfl
      | succ fuel =>
          rw [skipBlanks, getD_append_length, hrest]
          rfl
  | cons c gap ih =>
      cases fuel with
      | zero => exact absurd hfuel (Nat.not_succ_le_zero _)
      | succ fuel =>
          have hnext := ih (before ++ [c])
            (fun d hd => hgap d (List.mem_cons_of_mem c hd)) (Nat.le_of_succ_le_succ hfuel)
          have hline : before ++ c :: gap ++ rest = before ++ [c] ++ gap ++ rest := by simp
          have hblank : isBlank ((before ++ c :: gap ++ rest).getD before.length 0) = true := by
            rw [List.append_assoc, getD_append_length]
            exact hgap c (List.mem_cons_self ..)
          rw [skipBlanks, if_pos hblank, hline]
          rw [List.length_append, List.length_singleton] at hnext
          rw [hnext]
          simp

/-- The bytes at which the loop over an argument ends. -/
def EndsArg (quote c : UInt8) : Prop := c = 0 ∨ if quote ≠ 0 then c = quote else isBlank c = true

/-- The loop goes over the argument. -/
theorem endArg_walk (before rest : List UInt8) (fuel : Nat) (ha : ∀ c ∈ a, ¬ EndsArg q c) :
    endArg q (a.length + fuel) (before ++ a ++ rest) before.length =
      endArg q fuel (before ++ a ++ rest) (before ++ a).length := by
  induction a generalizing before with
  | nil => simp
  | cons c a ih =>
      have hnext := ih (before ++ [c]) fun d hd => ha d (List.mem_cons_of_mem c hd)
      have hline : before ++ c :: a ++ rest = before ++ [c] ++ a ++ rest := by simp
      have hat : (before ++ c :: a ++ rest).getD before.length 0 = c := by
        rw [List.append_assoc, getD_append_length]
        rfl
      obtain ⟨hzero, hstop⟩ := not_or.mp (ha c (List.mem_cons_self ..))
      have hstep : endArg q (a.length + fuel + 1) (before ++ c :: a ++ rest) before.length =
          endArg q (a.length + fuel) (before ++ c :: a ++ rest) (before.length + 1) := by
        rw [endArg, hat, if_neg hzero]
        by_cases hq : q ≠ 0
        · rw [if_pos hq] at hstop ⊢
          rw [if_neg hstop]
        · rw [if_neg hq] at hstop ⊢
          rw [if_neg hstop]
      rw [List.length_cons, show a.length + 1 + fuel = a.length + fuel + 1 by omega, hstep, hline]
      rw [List.length_append, List.length_singleton] at hnext
      rw [hnext]
      simp

/-- The terminator is written over the byte that ends the argument. -/
theorem endArg_stop (before rest : List UInt8) (hc : EndsArg q c) (hzero : c ≠ 0) :
    endArg q (fuel + 1) (before ++ c :: rest) before.length =
      (before ++ 0 :: rest, before.length + 1) := by
  have hstop := hc.resolve_left hzero
  rw [endArg, getD_append_length, List.headD_cons, if_neg hzero, set_append_length]
  by_cases hq : q ≠ 0
  · rw [if_pos hq] at hstop ⊢
    rw [if_pos hstop]
  · rw [if_neg hq] at hstop ⊢
    rw [if_pos hstop]

theorem endArg_last (before : List UInt8) :
    endArg q fuel before before.length = (before, before.length) := by
  cases fuel with
  | zero => rfl
  | succ fuel =>
      have hend : before.getD before.length 0 = 0 := by
        rw [List.getD_eq_getElem?_getD, List.getElem?_eq_none (le_refl _)]
        rfl
      rw [endArg, hend, if_pos rfl]

/-- An argument with something behind it, and one that ends the line. -/
theorem endArg_reads (before rest : List UInt8) (ha : ∀ c ∈ a, ¬ EndsArg q c) (hc : EndsArg q c)
    (hzero : c ≠ 0) (hfuel : a.length < fuel) :
    endArg q fuel (before ++ a ++ c :: rest) before.length =
      (before ++ a ++ [0] ++ rest, (before ++ a ++ [0]).length) := by
  obtain ⟨more, rfl⟩ := Nat.exists_eq_add_of_lt hfuel
  have hend : (before ++ a ++ [0]).length = (before ++ a).length + 1 := by
    rw [List.length_append, List.length_singleton]
  rw [Nat.add_assoc, endArg_walk _ _ _ ha, endArg_stop _ _ hc hzero, hend,
    List.append_assoc _ [0], List.singleton_append]

theorem endArg_reads_last (before : List UInt8) (ha : ∀ c ∈ a, ¬ EndsArg q c)
    (hfuel : a.length ≤ fuel) :
    endArg q fuel (before ++ a) before.length = (before ++ a, (before ++ a).length) := by
  obtain ⟨more, rfl⟩ := Nat.exists_eq_add_of_le hfuel
  have hwalk := endArg_walk before [] more ha
  rw [List.append_nil] at hwalk
  rw [hwalk, endArg_last]

/-! ### The line -/

/-- An argument begins with a byte that is neither the end of the line nor a blank. -/
theorem IsWritten.head {w : List UInt8} (hw : IsWritten a w) (ha : PlainArg a) (text : List UInt8) :
    (w ++ text).headD 0 ≠ 0 ∧ isBlank ((w ++ text).headD 0) = false := by
  rcases hw with ⟨hne, hblank, rfl⟩ | ⟨q, hq, rfl⟩
  · cases w with
    | nil => exact absurd rfl hne
    | cons d w =>
        exact ⟨(ha d (List.mem_cons_self ..)).1, hblank d (List.mem_cons_self ..)⟩
  · exact ⟨ne_zero_of_isQuote hq, not_isBlank_of_isQuote hq⟩

/-- The blank behind an argument may be left out of what follows. -/
theorem IsLine.drop_blank (hplain : ∀ a ∈ args, PlainArg a) (hline : IsLine args (c :: text))
    (hc : isBlank c = true) : IsLine args text := by
  cases args with
  | nil =>
      cases hline with
      | blank hgap => exact .blank fun d hd => hgap d (List.mem_cons_of_mem c hd)
  | cons a args =>
      have ha := hplain a (List.mem_cons_self ..)
      generalize hwhole : c :: text = whole at hline
      cases hline with
      | @cons _ _ gap w text' hgap hw hrest hnext =>
          cases gap with
          | nil =>
              -- A blank does not begin an argument.
              have hhead := (hw.head ha text').2
              rw [List.nil_append] at hwhole
              rw [← hwhole, List.headD_cons, hc] at hhead
              exact absurd hhead (by simp)
          | cons d gap =>
              obtain ⟨-, rfl⟩ := List.cons.inj hwhole
              exact .cons (fun e he => hgap e (List.mem_cons_of_mem d he)) hw hrest hnext

theorem argStrings_cons (line : List UInt8) (p : Nat) (argv : List Nat) :
    argStrings (line, p :: argv) = cStrOf (line.drop p) :: argStrings (line, argv) := rfl

/-- What the rest of the line gives, with the argument that was just read in front. -/
theorem argStrings_read {before lead : List UInt8} (term after : List UInt8) {argv : List Nat}
    {parsed : List UInt8 × List Nat} (ha : 0 ∉ a) (hterm : term = [0] ∨ term = [] ∧ after = [])
    (hrest : ∃ rest offs, rest.length = after.length ∧
      parsed = (before ++ lead ++ a ++ term ++ rest, argv ++ [(before ++ lead).length] ++ offs) ∧
      argStrings (before ++ lead ++ a ++ term ++ rest, offs) = args) :
    ∃ rest offs, rest.length = (lead ++ a ++ term ++ after).length ∧
      parsed = (before ++ rest, argv ++ offs) ∧ argStrings (before ++ rest, offs) = a :: args := by
  obtain ⟨rest, offs, hlen, rfl, hargs⟩ := hrest
  have hline : before ++ (lead ++ a ++ term ++ rest) = before ++ lead ++ a ++ term ++ rest := by
    simp
  have hend : cStrOf (term ++ rest) = [] := by
    rcases hterm with rfl | ⟨rfl, rfl⟩
    · exact cStrOf_zero
    · rw [List.length_eq_zero_iff.mp hlen]
      rfl
  refine ⟨lead ++ a ++ term ++ rest, (before ++ lead).length :: offs, ?_, ?_, ?_⟩
  · simp only [List.length_append, hlen]
  · rw [hline, List.append_assoc argv, List.singleton_append]
  · rw [argStrings_cons, hline, hargs]
    rw [List.append_assoc, List.append_assoc, List.drop_left, cStrOf_append ha, hend,
      List.append_nil]

/-- One argument, from its first byte on: `term` is the null byte that is written behind it, or
nothing at the end of the line, and `after` is left to be read. -/
theorem endArg_written {w : List UInt8} (before : List UInt8) (hw : IsWritten a w)
    (ha : PlainArg a) (hnext : ∀ c ∈ text.head?, isBlank c = true)
    (hfuel : w.length + text.length ≤ fuel) :
    ∃ quoted term after, (term = [0] ∨ term = [] ∧ after = []) ∧
      (after = text ∨ ∃ c, isBlank c = true ∧ text = c :: after) ∧
      (w ++ text).length = (quoted ++ a ++ term ++ after).length ∧
      (if isQuote ((w ++ text).headD 0) = true then before.length + 1 else before.length) =
        (before ++ quoted).length ∧
      endArg (if isQuote ((w ++ text).headD 0) = true then (w ++ text).headD 0 else 0) fuel
          (before ++ (w ++ text))
          (if isQuote ((w ++ text).headD 0) = true then before.length + 1 else before.length) =
        (before ++ quoted ++ a ++ term ++ after, (before ++ quoted ++ a ++ term).length) := by
  rcases hw with ⟨hne, hbare, rfl⟩ | ⟨q, hq, rfl⟩
  · -- A bare argument ends at a blank or with the line.
    have hnoquote : isQuote ((w ++ text).headD 0) = false := by
      cases w with
      | nil => exact absurd rfl hne
      | cons d w => exact (ha d (List.mem_cons_self ..)).2
    have hinside : ∀ c ∈ w, ¬ EndsArg 0 c := by
      intro c hc hend
      rcases hend with hend | hend
      · exact (ha c hc).1 hend
      · rw [if_neg (not_not.mpr rfl), hbare c hc] at hend
        exact absurd hend (by simp)
    rw [hnoquote, if_neg Bool.false_ne_true, if_neg Bool.false_ne_true]
    cases text with
    | nil =>
        refine ⟨[], [], [], .inr ⟨rfl, rfl⟩, .inl rfl, by simp, by simp, ?_⟩
        have hend := endArg_reads_last before hinside (show w.length ≤ fuel by simpa using hfuel)
        simpa only [List.append_nil] using hend
    | cons c text =>
        have hc := hnext c rfl
        have hend := endArg_reads before text hinside (.inr ((if_neg (not_not.mpr rfl)).symm ▸ hc))
          (ne_zero_of_isBlank hc) (show w.length < fuel by rw [List.length_cons] at hfuel; omega)
        refine ⟨[], [0], text, .inl rfl, .inr ⟨c, hc, rfl⟩, by simp, by simp, ?_⟩
        rw [← List.append_assoc, hend, List.append_nil]
  · -- A quoted argument ends at the second quote.
    have hinside : ∀ c ∈ a, ¬ EndsArg q c := by
      intro c hc hend
      rcases hend with hend | hend
      · exact (ha c hc).1 hend
      · rw [if_pos (ne_zero_of_isQuote hq)] at hend
        have hno := (ha c hc).2
        rw [hend, hq] at hno
        exact absurd hno (by simp)
    have hhead : (q :: a ++ [q] ++ text).headD 0 = q := rfl
    have hquoted : before ++ (q :: a ++ [q] ++ text) = before ++ [q] ++ a ++ q :: text := by simp
    have hopen : before.length + 1 = (before ++ [q]).length := by simp
    have hend := endArg_reads (before ++ [q]) text hinside
      (.inr ((if_pos (ne_zero_of_isQuote hq)).symm ▸ rfl)) (ne_zero_of_isQuote hq)
      (show a.length < fuel by simp at hfuel; omega)
    rw [hhead, hq, if_pos rfl, if_pos rfl, hquoted, hopen]
    exact ⟨[q], [0], text, .inl rfl, .inl rfl, by simp, rfl, hend⟩

/-- The loop reads the arguments of a line, and leaves what is before the line as it is. -/
theorem parseArgsLoop_line (hplain : ∀ a ∈ args, PlainArg a) (hline : IsLine args text)
    {room : Nat} (hroom : args.length ≤ room) (before : List UInt8) (argv : List Nat) :
    ∃ rest offs, rest.length = text.length ∧
      parseArgsLoop room (before ++ text) before.length argv = (before ++ rest, argv ++ offs) ∧
      argStrings (before ++ rest, offs) = args := by
  induction args generalizing text room before argv with
  | nil =>
      cases hline with
      | blank hgap =>
          refine ⟨text, [], rfl, ?_, rfl⟩
          rw [List.append_nil]
          cases room with
          | zero => rfl
          | succ room =>
              have hskip := skipBlanks_gap before [] hgap (by decide)
                (show text.length ≤ (before ++ text).length by simp)
              have hend : (before ++ text).getD (before ++ text).length 0 = 0 := by
                rw [List.getD_eq_getElem?_getD, List.getElem?_eq_none (le_refl _)]
                rfl
              rw [List.append_nil] at hskip
              rw [parseArgsLoop]
              dsimp only
              rw [hskip, hend, if_pos rfl, ite_self]
  | cons a args ih =>
      have ha := hplain a (List.mem_cons_self ..)
      have hrest : ∀ b ∈ args, PlainArg b := fun b hb => hplain b (List.mem_cons_of_mem a hb)
      have hzero : 0 ∉ a := fun hmem => (ha 0 hmem).1 rfl
      generalize hwhole : text = whole at hline
      cases hline with
      | @cons _ _ gap w text' hgap hw hargs hnext =>
          subst hwhole
          cases room with
          | zero => exact absurd hroom (Nat.not_succ_le_zero _)
          | succ room =>
              obtain ⟨hd, hblank⟩ := hw.head ha text'
              have hstart : (before ++ (gap ++ w ++ text')).getD before.length 0 ≠ 0 := by
                rw [getD_append_length]
                cases gap with
                | nil => exact hd
                | cons d gap => exact ne_zero_of_isBlank (hgap d (List.mem_cons_self ..))
              have hline : before ++ (gap ++ w ++ text') = before ++ gap ++ (w ++ text') := by
                simp
              have hskip := skipBlanks_gap before (w ++ text') hgap hblank
                (show gap.length ≤ (before ++ gap ++ (w ++ text')).length by simp; omega)
              obtain ⟨quoted, term, after, hterm, hafter, hlen, hopen, hend⟩ :=
                endArg_written (before ++ gap) hw ha hnext
                  (show w.length + text'.length ≤ (before ++ gap ++ (w ++ text')).length by
                    simp; omega)
              -- What is left to be read is a line of the other arguments.
              have hleft : IsLine args after := by
                rcases hafter with rfl | ⟨c, hc, rfl⟩
                · exact hargs
                · exact hargs.drop_blank hrest hc
              have hlen' : (gap ++ w ++ text').length =
                  (gap ++ quoted ++ a ++ term ++ after).length := by
                rw [List.append_assoc, List.length_append, hlen]
                simp
              rw [parseArgsLoop, if_neg hstart]
              dsimp only
              rw [hline, hskip, getD_append_length, if_neg hd, hend, hopen, hlen',
                List.append_assoc before gap]
              exact argStrings_read term after hzero hterm
                (ih hrest hleft (Nat.le_of_succ_le_succ hroom) _ _)

end

/-- **A line of arguments without quotes in them is split into these arguments, as long as `argv`
has room for them.** -/
theorem parseArgs_line {args : List (List UInt8)} {text : List UInt8}
    (hlen : args.length < shellMaxArgs) (hplain : ∀ a ∈ args, PlainArg a)
    (hline : IsLine args text) : argStrings (parseArgs text) = args := by
  obtain ⟨rest, offs, -, hparsed, hargs⟩ :=
    parseArgsLoop_line hplain hline (Nat.le_sub_one_of_lt hlen) [] []
  rw [List.nil_append, List.nil_append, List.nil_append] at hparsed
  unfold parseArgs
  rw [← hargs, List.nil_append]
  exact congrArg argStrings hparsed

/-- `ls  ""` and a blank: a bare argument, an empty one between quotes, and blanks around them. -/
theorem parseArgs_ls_empty :
    argStrings (parseArgs [108, 115, 32, 32, 34, 34, 32]) = [[108, 115], []] := by
  refine parseArgs_line (by decide) (by unfold PlainArg; decide +kernel) ?_
  have hblank : IsLine [] [blankChar] := .blank (by decide +kernel)
  have hquoted : IsWritten [] [34, 34] := .inr ⟨doubleQuote, by decide +kernel, rfl⟩
  have hempty : IsLine [[]] ([32, 32] ++ [34, 34] ++ [32]) :=
    .cons (by decide +kernel) hquoted hblank (by decide +kernel)
  have hbare : IsWritten [108, 115] [108, 115] :=
    .inl ⟨by decide +kernel, by decide +kernel, rfl⟩
  have hls : IsLine [[108, 115], []] ([] ++ [108, 115] ++ ([32, 32] ++ [34, 34] ++ [32])) :=
    .cons (by decide +kernel) hbare hempty (by decide +kernel)
  exact hls

end BrightS
