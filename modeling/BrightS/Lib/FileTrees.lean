/-
Trees of named nodes.

A node is reached by a list of names from the root; the root is always there and has no node of
its own.  `Closed` says that whatever has a node lies in the root or in a folder.  Adding below a
folder, removing what has nothing directly below it and changing what stays a folder keep that,
and in a closed tree nothing directly below means nothing below at all.
-/
import Mathlib

namespace FileTrees

variable {κ ν : Type}

abbrev Tree (κ ν : Type) := List κ → Option ν

/-- No node but the root. -/
def Tree.empty : Tree κ ν := fun _ => none

section Closed

variable (folder : ν → Prop) {t : Tree κ ν} {p : List κ} {k : κ} {v : ν}

/-- The root, or a node that may have others below it. -/
def IsFolder (t : Tree κ ν) (p : List κ) : Prop := p = [] ∨ ∃ v, t p = some v ∧ folder v

structure Closed (t : Tree κ ν) : Prop where
  root : t [] = none
  parent : ∀ p k, (t (p ++ [k])).isSome = true → IsFolder folder t p

/-- Nothing lies directly below. -/
def Childless (t : Tree κ ν) (p : List κ) : Prop := ∀ k, t (p ++ [k]) = none

variable {folder}

theorem closed_empty : Closed folder (Tree.empty : Tree κ ν) :=
  ⟨rfl, fun _ _ h => absurd h (by simp [Tree.empty])⟩

/-- All that lies on the way to a node is a folder. -/
theorem Closed.above (h : Closed folder t) : ∀ {q : List κ}, (t (p ++ q)).isSome = true → q ≠ [] →
    IsFolder folder t p := by
  intro q
  induction q using List.reverseRecOn with
  | nil => exact fun _ hne => absurd rfl hne
  | append_singleton q k ih =>
      intro hsome _
      rw [← List.append_assoc] at hsome
      have hparent := h.parent (p ++ q) k hsome
      by_cases hq : q = []
      · rw [hq, List.append_nil] at hparent
        exact hparent
      · rcases hparent with hroot | ⟨v, hv, -⟩
        · exact absurd (List.append_eq_nil_iff.mp hroot).2 hq
        · exact ih (by rw [hv]; rfl) hq

/-- **Nothing directly below, nothing below.** -/
theorem Closed.childless (h : Closed folder t) (hleaf : Childless t p) {q : List κ}
    (hq : q ≠ []) : t (p ++ q) = none := by
  obtain ⟨k, rest, rfl⟩ := List.exists_cons_of_ne_nil hq
  by_contra hsome
  rw [← ne_eq, Option.ne_none_iff_isSome] at hsome
  have hsplit : p ++ k :: rest = (p ++ [k]) ++ rest := by simp
  rw [hsplit] at hsome
  by_cases hrest : rest = []
  · rw [hrest, List.append_nil, hleaf k] at hsome
    exact absurd hsome (by simp)
  · rcases h.above hsome hrest with hnil | ⟨v, hv, -⟩
    · exact absurd hnil (by simp)
    · rw [hleaf k] at hv
      exact absurd hv (by simp)

variable [DecidableEq κ]

/-- A new node below a folder. -/
theorem Closed.add (h : Closed folder t) (hnew : t (p ++ [k]) = none)
    (hfolder : IsFolder folder t p) :
    Closed folder (Function.update t (p ++ [k]) (some v)) := by
  have hkept : ∀ {q}, IsFolder folder t q →
      IsFolder folder (Function.update t (p ++ [k]) (some v)) q := by
    rintro q (hroot | ⟨w, hw, hdir⟩)
    · exact .inl hroot
    · have hne : q ≠ p ++ [k] := by
        rintro rfl
        rw [hnew] at hw
        exact absurd hw (by simp)
      exact .inr ⟨w, by rw [Function.update_of_ne hne, hw], hdir⟩
  refine ⟨?_, fun q j hsome => ?_⟩
  · rw [Function.update_of_ne (by simp), h.root]
  · by_cases hq : q ++ [j] = p ++ [k]
    · obtain ⟨rfl, -⟩ := List.append_inj' hq rfl
      exact hkept hfolder
    · rw [Function.update_of_ne hq] at hsome
      exact hkept (h.parent q j hsome)

/-- A node goes that has nothing below it. -/
theorem Closed.remove (h : Closed folder t) (hleaf : ∀ v, t p = some v → folder v → Childless t p) :
    Closed folder (Function.update t p none) := by
  refine ⟨?_, fun q j hsome => ?_⟩
  · by_cases hp : p = []
    · rw [hp, Function.update_self]
    · rw [Function.update_of_ne (Ne.symm hp), h.root]
  · by_cases hq : q ++ [j] = p
    · rw [hq, Function.update_self] at hsome
      exact absurd hsome (by simp)
    · rw [Function.update_of_ne hq] at hsome
      rcases h.parent q j hsome with hroot | ⟨v, hv, hdir⟩
      · exact .inl hroot
      · have hne : q ≠ p := by
          rintro rfl
          rw [hleaf v hv hdir j] at hsome
          exact absurd hsome (by simp)
        exact .inr ⟨v, by rw [Function.update_of_ne hne, hv], hdir⟩

/-- A node changes and stays a folder, if it was one. -/
theorem Closed.change {w : ν} (h : Closed folder t) (hp : t p = some v)
    (hstays : folder v → folder w) : Closed folder (Function.update t p (some w)) := by
  have hroot : p ≠ [] := by
    rintro rfl
    rw [h.root] at hp
    exact absurd hp (by simp)
  refine ⟨by rw [Function.update_of_ne (Ne.symm hroot), h.root], fun q j hsome => ?_⟩
  have hold : (t (q ++ [j])).isSome = true := by
    by_cases hq : q ++ [j] = p
    · rw [hq, hp]
      rfl
    · rwa [Function.update_of_ne hq] at hsome
  rcases h.parent q j hold with hnil | ⟨u, hu, hdir⟩
  · exact .inl hnil
  · by_cases hq : q = p
    · rw [hq, hp] at hu
      obtain rfl := Option.some.inj hu
      exact .inr ⟨w, by rw [hq, Function.update_self], hstays hdir⟩
    · exact .inr ⟨u, by rw [Function.update_of_ne hq, hu], hdir⟩

end Closed

end FileTrees
