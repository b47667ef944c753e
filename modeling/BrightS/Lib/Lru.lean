/-
A store that remembers what was used last.

What is remembered is a value for some keys, and the order in which they were used, the last one
first.  `use` is a put as well as a hit; `remove` and `evict` forget a key, the latter the one
that was not used for the longest time.
-/
import Mathlib.Data.List.Nodup
import Mathlib.Logic.Function.Basic

namespace Lru

structure Store (κ ν : Type) where
  order : List κ
  value : κ → Option ν
  nodup : order.Nodup
  stored : ∀ k, value k ≠ none ↔ k ∈ order

namespace Store

variable {κ ν : Type} {t : Store κ ν} {k : κ} {v : ν}

theorem value_none_iff : t.value k = none ↔ k ∉ t.order := by
  rw [← t.stored, not_not]

def empty : Store κ ν where
  order := []
  value := fun _ => none
  nodup := List.nodup_nil
  stored := by simp

variable [DecidableEq κ]

def remove (t : Store κ ν) (k : κ) : Store κ ν where
  order := t.order.erase k
  value := Function.update t.value k none
  nodup := t.nodup.erase k
  stored := by
    intro k'
    by_cases hk : k' = k
    · rw [hk, Function.update_self]
      exact iff_of_false (by simp) fun hmem => (t.nodup.mem_erase_iff.mp hmem).1 rfl
    · rw [Function.update_of_ne hk, t.stored, List.mem_erase_of_ne hk]

def use (t : Store κ ν) (k : κ) (v : ν) : Store κ ν where
  order := k :: t.order.erase k
  value := Function.update t.value k (some v)
  nodup := List.nodup_cons.mpr ⟨fun hmem => (t.nodup.mem_erase_iff.mp hmem).1 rfl, t.nodup.erase k⟩
  stored := by
    intro k'
    by_cases hk : k' = k
    · rw [hk, Function.update_self]
      exact iff_of_true (by simp) (List.mem_cons_self ..)
    · rw [Function.update_of_ne hk, t.stored, List.mem_cons, List.mem_erase_of_ne hk]
      exact (or_iff_right hk).symm

/-- Forget the key that was used least recently. -/
def evict (t : Store κ ν) : Store κ ν :=
  match t.order.getLast? with
  | none => t
  | some k => t.remove k

theorem evict_of_last {init : List κ} (h : t.order = init ++ [k]) : t.evict = t.remove k := by
  unfold evict
  rw [h, List.getLast?_concat]

theorem evict_of_nil (h : t.order = []) : t.evict = t := by
  unfold evict
  rw [h]
  rfl

end Store

end Lru
