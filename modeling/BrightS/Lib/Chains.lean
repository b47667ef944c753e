/-
Null-terminated lists threaded through a store.

A C program keeps a list by storing, at each node's address, the address of the
next one, with zero for the end.  `Seg next p l q` says that following `next`
from `p` meets exactly the addresses of `l` and then arrives at `q`; a whole list
is a segment that arrives at zero.

The frame lemma is `Seg.congr`: a store that agrees on the nodes of a segment
holds the same segment.  The surgery every list operation is made of is
`Seg.redirect`: storing `q` in the link that leaves a segment, which is its last
node's, or the head pointer when it is empty, makes it arrive at `q`.
-/
import Mathlib

namespace Chains

/-- Following `next` from `p` meets the addresses `l` and arrives at `q`. -/
def Seg (next : Nat → Nat) : Nat → List Nat → Nat → Prop
  | p, [], q => p = q
  | p, a :: l, q => p = a ∧ a ≠ 0 ∧ Seg next (next a) l q

variable {next next' : Nat → Nat}

@[simp] theorem seg_nil {p q : Nat} : Seg next p [] q ↔ p = q := Iff.rfl

@[simp] theorem seg_cons {p q a : Nat} {l : List Nat} :
    Seg next p (a :: l) q ↔ p = a ∧ a ≠ 0 ∧ Seg next (next a) l q := Iff.rfl

/-- A store that agrees on the nodes holds the same segment. -/
theorem Seg.congr {l : List Nat} {q : Nat} : ∀ {p : Nat}, Seg next p l q →
    (∀ a ∈ l, next' a = next a) → Seg next' p l q := by
  induction l with
  | nil => intro p h _; exact h
  | cons a rest ih =>
      intro p h hagree
      obtain ⟨hp, ha, hrest⟩ := h
      refine ⟨hp, ha, ?_⟩
      rw [hagree a (by simp)]
      exact ih hrest fun b hb => hagree b (by simp [hb])

theorem Seg.ne_zero {l : List Nat} {q : Nat} :
    ∀ {p : Nat}, Seg next p l q → ∀ a ∈ l, a ≠ 0 := by
  induction l with
  | nil => intro p _ a ha; simp at ha
  | cons b rest ih =>
      intro p h a ha
      rcases List.mem_cons.mp ha with rfl | hmem
      · exact h.2.1
      · exact ih h.2.2 a hmem

theorem seg_append {l₁ l₂ : List Nat} {q : Nat} : ∀ {p : Nat},
    Seg next p (l₁ ++ l₂) q ↔ ∃ m, Seg next p l₁ m ∧ Seg next m l₂ q := by
  induction l₁ with
  | nil => intro p; simp
  | cons a rest ih =>
      intro p
      rw [List.cons_append, seg_cons, ih]
      constructor
      · rintro ⟨hp, ha, m, h₁, h₂⟩
        exact ⟨m, ⟨hp, ha, h₁⟩, h₂⟩
      · rintro ⟨m, ⟨hp, ha, h₁⟩, h₂⟩
        exact ⟨hp, ha, m, h₁, h₂⟩

/-- The store determines the list. -/
theorem Seg.unique {l : List Nat} : ∀ {p : Nat} {l' : List Nat},
    Seg next p l 0 → Seg next p l' 0 → l = l' := by
  induction l with
  | nil =>
      intro p l' h h'
      cases l' with
      | nil => rfl
      | cons a rest => exact absurd (h'.1.symm.trans h) h'.2.1
  | cons a rest ih =>
      intro p l' h h'
      cases l' with
      | nil => exact absurd (h.1.symm.trans h') h.2.1
      | cons b rest' =>
          have hab : a = b := h.1.symm.trans h'.1
          subst hab
          rw [ih h.2.2 h'.2.2]

/-! ### Searching a list -/

/-- `for (p = head; p; p = next(p)) if (test(p)) return p;` -/
def findNode (next : Nat → Nat) (test : Nat → Bool) : Nat → Nat → Option Nat
  | 0, _ => none
  | fuel + 1, p =>
      if p = 0 then none
      else if test p then some p
      else findNode next test fuel (next p)

/-- With fuel for every node, the loop finds the first that passes the test. -/
theorem Seg.findNode_eq {test : Nat → Bool} {l : List Nat} : ∀ {p fuel : Nat},
    Seg next p l 0 → l.length ≤ fuel → findNode next test fuel p = l.find? test := by
  induction l with
  | nil =>
      intro p fuel h _
      have hp : p = 0 := h
      subst hp
      cases fuel with
      | zero => rfl
      | succ fuel => simp [findNode]
  | cons a rest ih =>
      intro p fuel h hfuel
      obtain ⟨rfl, ha, hrest⟩ := h
      cases fuel with
      | zero => simp at hfuel
      | succ fuel =>
          rw [findNode, if_neg ha]
          by_cases ht : test p
          · simp [ht]
          · rw [if_neg ht, ih hrest (by simpa using hfuel), List.find?_cons_of_neg ht]

/-! ### Redirecting the link that leaves a segment -/

/-- The last node of a segment, or zero when it has none: what a loop calls `prev`. -/
def lastNode (l : List Nat) : Nat := l.getLast?.getD 0

@[simp] theorem lastNode_nil : lastNode [] = 0 := rfl

@[simp] theorem lastNode_concat (l : List Nat) (a : Nat) : lastNode (l ++ [a]) = a := by
  simp [lastNode]

theorem Seg.lastNode_eq_zero {l : List Nat} {p q : Nat} (h : Seg next p l q) :
    lastNode l = 0 ↔ l = [] := by
  constructor
  · intro hz
    rcases List.eq_nil_or_concat' l with rfl | ⟨init, a, rfl⟩
    · rfl
    · rw [lastNode_concat] at hz
      exact absurd hz (h.ne_zero a (by simp))
  · rintro rfl
    rfl

/-- Storing `q` in the link that leaves a segment makes the segment arrive at `q`. -/
theorem Seg.redirect {l : List Nat} {p m : Nat} (h : Seg next p l m) (hnd : l.Nodup) (q : Nat) :
    Seg (if lastNode l = 0 then next else Function.update next (lastNode l) q)
      (if lastNode l = 0 then q else p) l q := by
  rcases List.eq_nil_or_concat' l with rfl | ⟨init, a, rfl⟩
  · simp
  · have ha : a ≠ 0 := h.ne_zero a (by simp)
    rw [lastNode_concat, if_neg ha, if_neg ha, seg_append]
    obtain ⟨k, hinit, hka, -⟩ := seg_append.mp h
    subst hka
    have hnot : k ∉ init := by
      intro hmem
      exact (List.nodup_append.mp hnd).2.2 k hmem k (by simp) rfl
    refine ⟨k, hinit.congr fun b hb => Function.update_of_ne ?_ _ _, rfl, ha, by simp⟩
    intro hbk
    rw [hbk] at hb
    exact hnot hb

end Chains
