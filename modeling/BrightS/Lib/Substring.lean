/-
Searching for a list inside a list.

`Leftmost n h r` says what the result `r` of a search has to be: the first position at which
`n` stands in `h`, or nothing when it stands nowhere.  There is only one such result, so two
searches that both find it agree whatever they do on the way.
-/
import Mathlib.Data.List.Infix

namespace Substring

variable {α : Type} {n h : List α} {c : α} {i : Nat}

/-- `n` stands in `h` at this position. -/
def OccursAt (n h : List α) (i : Nat) : Prop := i ≤ h.length ∧ n <+: h.drop i

/-- The result of a search for the first position. -/
def Leftmost (n h : List α) : Option Nat → Prop
  | none => ∀ i, ¬ OccursAt n h i
  | some i => OccursAt n h i ∧ ∀ j, j < i → ¬ OccursAt n h j

theorem occursAt_nil (h : List α) : OccursAt [] h 0 := ⟨Nat.zero_le _, List.nil_prefix⟩

theorem occursAt_zero : OccursAt n h 0 ↔ n <+: h := by
  simp [OccursAt]

theorem occursAt_succ : OccursAt n (c :: h) (i + 1) ↔ OccursAt n h i := by
  simp [OccursAt]

theorem OccursAt.le (ho : OccursAt n h i) : i + n.length ≤ h.length := by
  obtain ⟨hi, hpre⟩ := ho
  have hlen := hpre.length_le
  rw [List.length_drop] at hlen
  omega

/-- Comparing element by element, as far as there is room. -/
theorem occursAt_iff_getElem? :
    OccursAt n h i ↔ i + n.length ≤ h.length ∧ ∀ k, k < n.length → h[i + k]? = n[k]? := by
  constructor
  · intro ho
    refine ⟨ho.le, fun k hk => ?_⟩
    obtain ⟨rest, hrest⟩ := ho.2
    rw [← List.getElem?_drop, ← hrest, List.getElem?_append_left hk]
  · rintro ⟨hle, hall⟩
    refine ⟨by omega, List.prefix_iff_getElem?.mpr ?_⟩
    intro k hk
    rw [List.getElem?_drop, hall k hk, List.getElem?_eq_getElem hk]

/-- `n` stands somewhere in `h` exactly when it is an infix. -/
theorem exists_occursAt_iff : (∃ i, OccursAt n h i) ↔ n <:+: h := by
  constructor
  · rintro ⟨i, -, rest, hrest⟩
    refine ⟨h.take i, rest, ?_⟩
    rw [List.append_assoc, hrest, List.take_append_drop]
  · rintro ⟨before, rest, rfl⟩
    refine ⟨before.length, by simp, ?_⟩
    rw [List.append_assoc, List.drop_left]
    exact List.prefix_append n rest

theorem Leftmost.none_iff {r : Option Nat} (hr : Leftmost n h r) : r = none ↔ ¬ n <:+: h := by
  rw [← exists_occursAt_iff]
  cases r with
  | none =>
      have hnone : ∀ i, ¬ OccursAt n h i := hr
      simp [hnone]
  | some i => simpa using ⟨i, hr.1⟩

/-- There is only one first position. -/
theorem Leftmost.unique {r r' : Option Nat} (hr : Leftmost n h r) (hr' : Leftmost n h r') :
    r = r' := by
  cases r with
  | none =>
      cases r' with
      | none => rfl
      | some j => exact absurd hr'.1 (hr j)
  | some i =>
      cases r' with
      | none => exact absurd hr.1 (hr' i)
      | some j =>
          rcases Nat.lt_trichotomy i j with hlt | heq | hgt
          · exact absurd hr.1 (hr'.2 i hlt)
          · rw [heq]
          · exact absurd hr'.1 (hr.2 j hgt)

theorem leftmost_nil (h : List α) : Leftmost [] h (some 0) :=
  ⟨occursAt_nil h, fun j hj => absurd hj (Nat.not_lt_zero j)⟩

/-- Nothing but the empty list stands in the empty list. -/
theorem leftmost_empty (hn : n ≠ []) : Leftmost n [] none := by
  intro i ho
  have hle := ho.le
  have hpos := List.length_pos_of_ne_nil hn
  simp only [List.length_nil] at hle
  omega

theorem leftmost_here (hpre : n <+: h) : Leftmost n h (some 0) :=
  ⟨occursAt_zero.mpr hpre, fun j hj => absurd hj (Nat.not_lt_zero j)⟩

/-- A search that fails at the first position goes on behind it. -/
theorem Leftmost.cons {r : Option Nat} (hno : ¬ n <+: c :: h) (hr : Leftmost n h r) :
    Leftmost n (c :: h) (r.map (· + 1)) := by
  cases r with
  | none =>
      intro i ho
      cases i with
      | zero => exact hno (occursAt_zero.mp ho)
      | succ i => exact hr i (occursAt_succ.mp ho)
  | some i =>
      refine ⟨occursAt_succ.mpr hr.1, fun j hj ho => ?_⟩
      cases j with
      | zero => exact hno (occursAt_zero.mp ho)
      | succ j => exact hr.2 j (Nat.lt_of_succ_lt_succ hj) (occursAt_succ.mp ho)

/-- A search that tries the positions in order, as many as there is room for. -/
theorem leftmost_find? {bound : Nat} {p : Nat → Bool}
    (hp : ∀ i, i < bound → (p i = true ↔ OccursAt n h i))
    (hbound : ∀ i, OccursAt n h i → i < bound) :
    Leftmost n h ((List.range bound).find? p) := by
  cases hfind : (List.range bound).find? p with
  | none =>
      intro i ho
      have hlt := hbound i ho
      have hno := List.find?_eq_none.mp hfind i (List.mem_range.mpr hlt)
      exact hno ((hp i hlt).mpr ho)
  | some i =>
      obtain ⟨hpi, hmem, hbefore⟩ := List.find?_range_eq_some.mp hfind
      have hlt := List.mem_range.mp hmem
      refine ⟨(hp i hlt).mp hpi, fun j hj ho => ?_⟩
      have hno := hbefore j hj
      rw [(hp j (by omega)).mpr ho] at hno
      exact absurd hno (by simp)

end Substring
