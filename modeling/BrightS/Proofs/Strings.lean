/-
The two searches for a substring.

The kernel compares from each position until the needle ends, the user library from each
position at which the needle has room, or one byte after the other when the needle has one
byte.  Both return the first position, so that they agree (`strstr_agree`).
-/
import BrightS.Lib.Substring
import BrightS.Kernel.Strings

namespace BrightS

open Substring

/-! ### The string at a pointer -/

section

variable {s a b h n : List UInt8} {c d : UInt8} {i k : Nat}

theorem cStrOf_zero : cStrOf (0 :: s) = [] := by
  simp [cStrOf]

theorem cStrOf_cons (hc : c ≠ 0) : cStrOf (c :: s) = c :: cStrOf s := by
  simp [cStrOf, hc]

/-- A text without a null byte is read before what stands behind it. -/
theorem cStrOf_append {text rest : List UInt8} (htext : 0 ∉ text) :
    cStrOf (text ++ rest) = text ++ cStrOf rest := by
  unfold cStrOf
  rw [List.takeWhile_append_of_pos]
  intro b hb
  have hne : b ≠ 0 := fun h => htext (h ▸ hb)
  simpa using hne

theorem cStrOf_eq_nil : cStrOf s = [] ↔ s.headD 0 = 0 := by
  cases s with
  | nil => simp [cStrOf]
  | cons c s =>
      by_cases hc : c = 0
      · subst hc
        simp [cStrOf_zero]
      · simp [cStrOf_cons hc, hc]

theorem strlen_eq : strlen s = (cStrOf s).length := by
  induction s with
  | nil => rfl
  | cons c s ih =>
      by_cases hc : c = 0
      · subst hc
        rw [cStrOf_zero]
        rfl
      · rw [strlen, if_neg hc, cStrOf_cons hc, ih, List.length_cons]

theorem getElem?_cStrOf (hk : k < (cStrOf s).length) : (cStrOf s)[k]? = some (s.getD k 0) := by
  induction s generalizing k with
  | nil => exact absurd hk (Nat.not_lt_zero k)
  | cons c s ih =>
      by_cases hc : c = 0
      · subst hc
        rw [cStrOf_zero] at hk
        exact absurd hk (Nat.not_lt_zero k)
      · rw [cStrOf_cons hc] at hk ⊢
        cases k with
        | zero => rfl
        | succ k => exact ih (Nat.lt_of_succ_lt_succ hk)

/-- Two strings compare equal exactly when they are the same. -/
theorem kutilStrcmp_eq_zero : kutilStrcmp a b = 0 ↔ cStrOf a = cStrOf b := by
  induction a generalizing b with
  | nil =>
      have hnil : cStrOf ([] : List UInt8) = [] := rfl
      rw [kutilStrcmp, hnil, eq_comm (b := cStrOf b), cStrOf_eq_nil, ← UInt8.toNat_inj]
      simp
  | cons c a ih =>
      cases b with
      | nil =>
          have hnil : cStrOf ([] : List UInt8) = [] := rfl
          rw [kutilStrcmp, hnil, cStrOf_eq_nil, List.headD_cons, ← UInt8.toNat_inj]
          simp
      | cons d b =>
          rw [kutilStrcmp]
          by_cases hc : c = 0
          · subst hc
            rw [if_neg (by simp), cStrOf_zero, eq_comm (b := cStrOf (d :: b)), cStrOf_eq_nil,
              List.headD_cons, ← UInt8.toNat_inj]
            simp
          · by_cases hd : d = 0
            · subst hd
              rw [if_neg (by simp), cStrOf_zero, cStrOf_eq_nil, List.headD_cons,
                ← UInt8.toNat_inj]
              simp
            · rw [if_pos ⟨hc, hd⟩, cStrOf_cons hc, cStrOf_cons hd]
              by_cases heq : c = d
              · subst heq
                rw [if_neg (by simp), ih]
                simp
              · have hne : c.toNat ≠ d.toNat := fun h => heq (UInt8.toNat_inj.mp h)
                rw [if_pos heq]
                simp only [List.cons.injEq, heq, false_and, iff_false]
                omega

/-! ### The kernel -/

theorem kutilStrstrHere_iff : kutilStrstrHere h n = true ↔ cStrOf n <+: cStrOf h := by
  induction n generalizing h with
  | nil =>
      have hnil : cStrOf ([] : List UInt8) = [] := rfl
      rw [hnil, kutilStrstrHere]
      simp
  | cons d n ih =>
      by_cases hd : d = 0
      · subst hd
        rw [kutilStrstrHere, cStrOf_zero]
        simp
      · rw [kutilStrstrHere, cStrOf_cons hd]
        cases h with
        | nil =>
            have hnil : cStrOf ([] : List UInt8) = [] := rfl
            rw [if_neg (fun hand => hd hand.2.symm), hnil]
            simp [hd]
        | cons c h =>
            by_cases hc : c = d
            · subst hc
              rw [if_pos ⟨hd, rfl⟩, cStrOf_cons hd, List.tail_cons, ih]
              simp
            · rw [if_neg (fun hand => hc hand.2)]
              by_cases hzero : c = 0
              · subst hzero
                rw [cStrOf_zero]
                simp [hd]
              · rw [cStrOf_cons hzero]
                have hne : d ≠ c := fun heq => hc heq.symm
                simp [hd, hne]

theorem kutilStrstrLoop_leftmost (hn : cStrOf n ≠ []) :
    Leftmost (cStrOf n) (cStrOf h) (kutilStrstrLoop n h) := by
  induction h with
  | nil => exact leftmost_empty hn
  | cons c h ih =>
      rw [kutilStrstrLoop]
      by_cases hc : c = 0
      · subst hc
        rw [if_pos rfl, cStrOf_zero]
        exact leftmost_empty hn
      · rw [if_neg hc]
        by_cases hhere : cStrOf n <+: cStrOf (c :: h)
        · have hfirst : c = n.headD 0 := by
            rw [cStrOf_cons hc] at hhere
            cases n with
            | nil => exact absurd rfl hn
            | cons d n =>
                have hd : d ≠ 0 := by
                  rintro rfl
                  exact hn cStrOf_zero
                rw [cStrOf_cons hd, List.cons_prefix_cons] at hhere
                exact hhere.1.symm
          rw [if_pos ⟨hfirst, kutilStrstrHere_iff.mpr hhere⟩]
          exact leftmost_here hhere
        · rw [if_neg (fun hand => hhere (kutilStrstrHere_iff.mp hand.2))]
          rw [cStrOf_cons hc] at hhere ⊢
          exact ih.cons hhere

theorem kutilStrstr_leftmost (h n : List UInt8) :
    Leftmost (cStrOf n) (cStrOf h) (kutilStrstr h n) := by
  unfold kutilStrstr
  by_cases hn : n.headD 0 = 0
  · rw [if_pos hn, cStrOf_eq_nil.mpr hn]
    exact leftmost_nil _
  · rw [if_neg hn]
    exact kutilStrstrLoop_leftmost (fun hnil => hn (cStrOf_eq_nil.mp hnil))

/-! ### The user library -/

theorem strchr_leftmost : Leftmost [c] (cStrOf s) (strchr s c) := by
  induction s with
  | nil => exact leftmost_empty (by simp)
  | cons b s ih =>
      rw [strchr]
      by_cases hb : b = 0
      · subst hb
        rw [if_pos rfl, cStrOf_zero]
        exact leftmost_empty (by simp)
      · rw [if_neg hb, cStrOf_cons hb]
        by_cases heq : b = c
        · subst heq
          rw [if_pos rfl]
          exact leftmost_here (by simp)
        · rw [if_neg heq]
          refine ih.cons fun hpre => heq ?_
          exact (List.cons_prefix_cons.mp hpre).1.symm

/-- The inner loop ends behind the needle exactly when all bytes are the same. -/
theorem strstrHere_iff (rounds : Nat) :
    strstrHere h n rounds i ≤ i + rounds ∧ (strstrHere h n rounds i = i + rounds ↔
      ∀ k, i ≤ k → k < i + rounds → h.getD k 0 = n.getD k 0) := by
  induction rounds generalizing i with
  | zero => exact ⟨le_refl _, iff_of_true rfl fun k hle hlt => absurd hlt (by omega)⟩
  | succ rounds ih =>
      rw [strstrHere]
      by_cases heq : h.getD i 0 = n.getD i 0
      · rw [if_neg (not_not.mpr heq), show i + (rounds + 1) = i + 1 + rounds by omega]
        refine ⟨ih.1, ih.2.trans ⟨fun hall k hle hlt => ?_, fun hall k hle hlt => ?_⟩⟩
        · rcases Nat.eq_or_lt_of_le hle with rfl | hgt
          · exact heq
          · exact hall k hgt hlt
        · exact hall k (by omega) hlt
      · rw [if_pos heq]
        refine ⟨by omega, iff_of_false (by omega) fun hall => ?_⟩
        exact heq (hall i (le_refl i) (by omega))

/-- The test at a position where the needle has room. -/
theorem strstr_test_iff (hlen : 0 < (cStrOf n).length)
    (hroom : i + (cStrOf n).length ≤ (cStrOf h).length) :
    h.getD i 0 = n.headD 0 ∧
        strstrHere (h.drop i) n ((cStrOf n).length - 1) 1 = (cStrOf n).length ↔
      OccursAt (cStrOf n) (cStrOf h) i := by
  have hhead : n.headD 0 = n.getD 0 0 := by cases n <;> rfl
  have hdrop : ∀ k, (h.drop i).getD k 0 = h.getD (i + k) 0 := by
    intro k
    rw [List.getD_eq_getElem?_getD, List.getElem?_drop, List.getD_eq_getElem?_getD]
  have hrest := (strstrHere_iff (h := h.drop i) (n := n) (i := 1) ((cStrOf n).length - 1)).2
  rw [show 1 + ((cStrOf n).length - 1) = (cStrOf n).length by omega] at hrest
  rw [hrest, hhead, occursAt_iff_getElem?]
  constructor
  · rintro ⟨hfirst, hall⟩
    refine ⟨hroom, fun k hk => ?_⟩
    rw [getElem?_cStrOf hk, getElem?_cStrOf (by omega)]
    cases k with
    | zero => exact congrArg some hfirst
    | succ k => exact congrArg some ((hdrop _).symm.trans (hall (k + 1) (by omega) hk))
  · rintro ⟨-, hall⟩
    have hsame : ∀ k, k < (cStrOf n).length → h.getD (i + k) 0 = n.getD k 0 := by
      intro k hk
      have hk' := hall k hk
      rw [getElem?_cStrOf hk, getElem?_cStrOf (by omega)] at hk'
      exact Option.some.inj hk'
    exact ⟨hsame 0 hlen, fun k _ hk => (hdrop k).trans (hsame k hk)⟩

theorem strstrLoop_eq {len : Int} {rounds : Nat} :
    strstrLoop h n len rounds i = (List.range' i rounds).find? fun hay =>
      decide (h.getD hay 0 = n.headD 0 ∧ strstrHere (h.drop hay) n (len - 1).toNat 1 = len) := by
  induction rounds generalizing i with
  | zero => rfl
  | succ rounds ih =>
      rw [strstrLoop, List.range'_succ, List.find?_cons, ih]
      split
      · rename_i hyes
        rw [decide_eq_true hyes]
      · rename_i hno
        rw [decide_eq_false hno]

theorem strstr_leftmost (h n : List UInt8) (hn : (cStrOf n).length < 2 ^ 31) :
    Leftmost (cStrOf n) (cStrOf h) (strstr h n) := by
  have hint : (BitVec.ofNat 32 (strlen n)).toInt = (cStrOf n).length := by
    rw [strlen_eq, BitVec.toInt_eq_toNat_of_lt]
    · rw [BitVec.toNat_ofNat, Nat.mod_eq_of_lt (by omega)]
    · rw [BitVec.toNat_ofNat, Nat.mod_eq_of_lt (by omega)]
      omega
  unfold strstr
  dsimp only
  rw [hint, strlen_eq]
  by_cases hempty : n.headD 0 = 0
  · rw [if_pos hempty, cStrOf_eq_nil.mpr hempty]
    exact leftmost_nil _
  · have hne : cStrOf n ≠ [] := fun hnil => hempty (cStrOf_eq_nil.mp hnil)
    have hpos := List.length_pos_of_ne_nil hne
    rw [if_neg hempty, if_neg (by omega)]
    by_cases hone : ((cStrOf n).length : Int) = 1
    · rw [if_pos hone]
      have hsingle : cStrOf n = [n.headD 0] := by
        cases n with
        | nil => exact absurd rfl hne
        | cons d n =>
            have hd : d ≠ 0 := hempty
            rw [cStrOf_cons hd, List.length_cons] at hone
            rw [cStrOf_cons hd, List.length_eq_zero_iff.mp (by omega : (cStrOf n).length = 0)]
            rfl
      rw [hsingle]
      exact strchr_leftmost
    · rw [if_neg hone, strstrLoop_eq, ← List.range_eq_range']
      refine leftmost_find? (fun i hi => ?_) fun i ho => ?_
      · rw [decide_eq_true_eq, ← strstr_test_iff hpos (i := i) (by omega)]
        rw [show ((cStrOf n).length - 1 : Int).toNat = (cStrOf n).length - 1 by omega,
          Int.natCast_inj]
      · have hle := ho.le
        omega

end

/-- **Both libraries find the first place at which the needle stands in the haystack, and fail
exactly when there is none.** -/
theorem strstr_agree (h n : List UInt8) (hn : (cStrOf n).length < 2 ^ 31) :
    strstr h n = kutilStrstr h n ∧ Leftmost (cStrOf n) (cStrOf h) (strstr h n) ∧
      (strstr h n = none ↔ ¬ cStrOf n <:+: cStrOf h) := by
  have hleft := strstr_leftmost h n hn
  exact ⟨hleft.unique (kutilStrstr_leftmost h n), hleft, hleft.none_iff⟩

/-- `an` in `banana`. -/
theorem strstr_agree_banana :
    strstr [98, 97, 110, 97, 110, 97, 0] [97, 110, 0] =
        kutilStrstr [98, 97, 110, 97, 110, 97, 0] [97, 110, 0] ∧
      Leftmost (cStrOf [97, 110, 0]) (cStrOf [98, 97, 110, 97, 110, 97, 0])
        (strstr [98, 97, 110, 97, 110, 97, 0] [97, 110, 0]) ∧
      (strstr [98, 97, 110, 97, 110, 97, 0] [97, 110, 0] = none ↔
        ¬ cStrOf [97, 110, 0] <:+: cStrOf [98, 97, 110, 97, 110, 97, 0]) :=
  strstr_agree [98, 97, 110, 97, 110, 97, 0] [97, 110, 0] (by decide)

end BrightS
