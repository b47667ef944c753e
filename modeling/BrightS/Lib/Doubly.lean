/-
Null-terminated lists threaded through a store in both directions.

`Linked next prev head tail l` says that the nodes of `l` are met in order from `head`, and in
reverse from `tail`.  A node is taken out with two stores in its neighbours, or in the end
pointers where it has none (`Linked.unlink`), and put in front with one (`Linked.push`).  What
each direction needs is the same fact about one segment, `Seg.unlink`, read once along the list
and once against it.
-/
import BrightS.Lib.Chains

namespace Chains

variable {next prev next' prev' : Nat → Nat} {head tail : Nat} {l l₁ l₂ : List Nat} {a : Nat}

/-! ### One direction -/

/-- The first node of a segment, or zero when it has none. -/
def firstNode (l : List Nat) : Nat := l.head?.getD 0

@[simp] theorem firstNode_nil : firstNode [] = 0 := rfl

@[simp] theorem firstNode_cons (a : Nat) (l : List Nat) : firstNode (a :: l) = a := rfl

theorem lastNode_reverse (l : List Nat) : lastNode l.reverse = firstNode l := by
  unfold lastNode firstNode
  rw [List.getLast?_reverse]

/-- A whole list starts at its first node. -/
theorem Seg.start_eq {p : Nat} (h : Seg next p l 0) : p = firstNode l := by
  cases l with
  | nil => exact h
  | cons a rest => exact h.1

/-- Taking a node out of a list: the link that leads to it leads past it. -/
theorem Seg.unlink {p : Nat} (h : Seg next p (l₁ ++ a :: l₂) 0) (hnd : (l₁ ++ a :: l₂).Nodup) :
    Seg (if lastNode l₁ = 0 then next else Function.update next (lastNode l₁) (next a))
      (if lastNode l₁ = 0 then next a else p) (l₁ ++ l₂) 0 := by
  obtain ⟨m, hfront, rfl, -, hback⟩ := seg_append.mp h
  have hnd' := List.nodup_append.mp hnd
  refine seg_append.mpr ⟨next m, hfront.redirect hnd'.1 (next m), hback.congr fun b hb => ?_⟩
  split_ifs with hlast
  · rfl
  · refine Function.update_of_ne ?_ _ _
    rintro rfl
    obtain ⟨init, c, rfl⟩ : ∃ init c, l₁ = init ++ [c] := by
      rcases List.eq_nil_or_concat' l₁ with rfl | hsplit
      · exact absurd rfl hlast
      · exact hsplit
    rw [lastNode_concat] at hb
    exact hnd'.2.2 c (by simp) c (by simp [hb]) rfl

/-! ### Both directions -/

structure Linked (next prev : Nat → Nat) (head tail : Nat) (l : List Nat) : Prop where
  forward : Seg next head l 0
  backward : Seg prev tail l.reverse 0
  nodup : l.Nodup

theorem linked_nil : Linked next prev 0 0 [] := ⟨rfl, rfl, List.nodup_nil⟩

namespace Linked

theorem ne_zero (h : Linked next prev head tail l) : ∀ b ∈ l, b ≠ 0 := h.forward.ne_zero

theorem congr (h : Linked next prev head tail l) (hnext : ∀ b ∈ l, next' b = next b)
    (hprev : ∀ b ∈ l, prev' b = prev b) : Linked next' prev' head tail l :=
  ⟨h.forward.congr hnext, h.backward.congr fun b hb => hprev b (List.mem_reverse.mp hb), h.nodup⟩

theorem head_eq (h : Linked next prev head tail l) : head = firstNode l := h.forward.start_eq

theorem tail_eq (h : Linked next prev head tail l) : tail = lastNode l := by
  rw [h.backward.start_eq, ← lastNode_reverse, List.reverse_reverse]

theorem next_eq (h : Linked next prev head tail (l₁ ++ a :: l₂)) : next a = firstNode l₂ := by
  obtain ⟨m, -, rfl, -, hback⟩ := seg_append.mp h.forward
  exact hback.start_eq

theorem prev_eq (h : Linked next prev head tail (l₁ ++ a :: l₂)) : prev a = lastNode l₁ := by
  have hback := h.backward
  rw [List.reverse_append, List.reverse_cons, List.append_assoc] at hback
  obtain ⟨m, -, rfl, -, hrest⟩ := seg_append.mp hback
  have hstart := Seg.start_eq (l := l₁.reverse) hrest
  rw [hstart, ← lastNode_reverse, List.reverse_reverse]

/-- A node leads to one other node only, and is led to by one only. -/
theorem prev_of_next (h : Linked next prev head tail l) {b : Nat} (hb : b ∈ l) (hnext : next b = a)
    (ha : a ≠ 0) : a ∈ l ∧ prev a = b := by
  obtain ⟨l₁, l₂, rfl⟩ := List.append_of_mem hb
  have hfirst := h.next_eq
  cases l₂ with
  | nil => exact absurd (hnext.symm.trans hfirst) ha
  | cons c rest =>
      obtain rfl : a = c := hnext.symm.trans hfirst
      have hsplit : l₁ ++ b :: a :: rest = (l₁ ++ [b]) ++ a :: rest := by simp
      rw [hsplit] at h
      rw [h.prev_eq, lastNode_concat]
      exact ⟨by simp, rfl⟩

theorem unlink (h : Linked next prev head tail (l₁ ++ a :: l₂)) :
    Linked (if prev a = 0 then next else Function.update next (prev a) (next a))
      (if next a = 0 then prev else Function.update prev (next a) (prev a))
      (if prev a = 0 then next a else head) (if next a = 0 then prev a else tail) (l₁ ++ l₂) where
  forward := by
    rw [h.prev_eq]
    exact h.forward.unlink h.nodup
  backward := by
    have hreverse : (l₁ ++ a :: l₂).reverse = l₂.reverse ++ a :: l₁.reverse := by simp
    have hback := h.backward
    have hnd := List.nodup_reverse.mpr h.nodup
    rw [hreverse] at hback hnd
    have hout := hback.unlink hnd
    rw [lastNode_reverse, ← h.next_eq] at hout
    rw [List.reverse_append]
    exact hout
  nodup := h.nodup.sublist (List.Sublist.append_left (List.sublist_cons_self a l₂) l₁)

theorem push (h : Linked next prev head tail l) (ha : a ≠ 0) (hnot : a ∉ l) :
    Linked (Function.update next a head)
      (if head = 0 then Function.update prev a 0
        else Function.update (Function.update prev a 0) head a)
      a (if tail = 0 then a else tail) (a :: l) where
  forward := by
    refine ⟨rfl, ha, ?_⟩
    rw [Function.update_self]
    refine h.forward.congr fun b hb => Function.update_of_ne ?_ _ _
    rintro rfl
    exact hnot hb
  backward := by
    rw [List.reverse_cons, seg_append]
    have hhead := h.head_eq
    have htail := h.tail_eq
    have hkeep : ∀ b ∈ l, Function.update prev a 0 b = prev b := by
      intro b hb
      refine Function.update_of_ne ?_ _ _
      rintro rfl
      exact hnot hb
    cases l with
    | nil =>
        rw [firstNode_nil] at hhead
        rw [lastNode_nil] at htail
        rw [if_pos hhead, if_pos htail]
        exact ⟨a, rfl, rfl, ha, Function.update_self ..⟩
    | cons c rest =>
        have hc : c ≠ 0 := h.ne_zero c (by simp)
        obtain rfl : head = c := hhead
        have htail0 : tail ≠ 0 := by
          rw [htail]
          intro hzero
          exact absurd (h.forward.lastNode_eq_zero.mp hzero) (by simp)
        have hne : a ≠ head := fun he => hnot (by simp [he])
        rw [if_neg hc, if_neg htail0]
        -- Only the last link of the way back, that of the old head, is stored.
        have hback := h.backward.congr fun b hb => hkeep b (List.mem_reverse.mp hb)
        have hnd := List.nodup_reverse.mpr h.nodup
        have hredirect := hback.redirect hnd a
        rw [lastNode_reverse, firstNode_cons, if_neg hc, if_neg hc] at hredirect
        refine ⟨a, hredirect, rfl, ha, ?_⟩
        rw [Function.update_of_ne hne, Function.update_self]
        rfl
  nodup := List.nodup_cons.mpr ⟨hnot, h.nodup⟩

end Linked

end Chains
