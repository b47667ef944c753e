/-
Resources that are taken and released.

A trace records which resources were taken and which were released, in order.  A release
is spent on a resource that was released before and not taken since; a trace without such
a release gives everything back at most once.  `Balanced` is the invariant that shows it:
whatever was released and not taken since is among the free resources, and a resource that
is not free may be released.
-/
import Mathlib

namespace Ledger

variable {α : Type}

inductive Event (α : Type) where
  | taken (xs : Set α)
  | released (x : α)

/-- The resource is not taken in this part of the trace. -/
def NotTaken (events : List (Event α)) (x : α) : Prop := ∀ xs, .taken xs ∈ events → x ∉ xs

/-- The resource was released, and has not been taken since. -/
def Spent (events : List (Event α)) (x : α) : Prop :=
  ∃ before after, events = before ++ .released x :: after ∧ NotTaken after x

/-- The resource was released twice, and not taken in between. -/
def ReleasedTwice (events : List (Event α)) (x : α) : Prop :=
  ∃ before between after,
    events = before ++ .released x :: (between ++ .released x :: after) ∧ NotTaken between x

theorem append_singleton_eq {β : Type} {es before after : List β} {e e' : β}
    (h : es ++ [e] = before ++ e' :: after) :
    (after = [] ∧ e = e' ∧ es = before) ∨
      ∃ rest, after = rest ++ [e] ∧ es = before ++ e' :: rest := by
  rcases List.eq_nil_or_concat after with rfl | ⟨rest, last, rfl⟩
  · obtain ⟨hes, he⟩ := List.append_inj' h rfl
    exact .inl ⟨rfl, (List.cons.inj he).1, hes⟩
  · rw [List.concat_eq_append, ← List.cons_append, ← List.append_assoc] at h
    obtain ⟨hes, he⟩ := List.append_inj' h rfl
    refine .inr ⟨rest, ?_, hes⟩
    rw [List.concat_eq_append, (List.cons.inj he).1]

theorem NotTaken.of_append {es es' : List (Event α)} {x : α} (h : NotTaken (es ++ es') x) :
    NotTaken es x := fun xs hxs => h xs (List.mem_append_left _ hxs)

/-- One more release. -/
theorem spent_released {es : List (Event α)} {x y : α} (h : Spent (es ++ [.released x]) y) :
    y = x ∨ Spent es y := by
  obtain ⟨before, after, heq, hnot⟩ := h
  rcases append_singleton_eq heq with ⟨-, he, -⟩ | ⟨rest, hafter, hes⟩
  · exact .inl (Event.released.inj he).symm
  · rw [hafter] at hnot
    exact .inr ⟨before, rest, hes, hnot.of_append⟩

theorem spent_taken {es : List (Event α)} {xs : Set α} {y : α} (h : Spent (es ++ [.taken xs]) y) :
    Spent es y ∧ y ∉ xs := by
  obtain ⟨before, after, heq, hnot⟩ := h
  rcases append_singleton_eq heq with ⟨-, he, -⟩ | ⟨rest, hafter, hes⟩
  · exact absurd he (by simp)
  · rw [hafter] at hnot
    exact ⟨⟨before, rest, hes, hnot.of_append⟩, hnot xs (by simp)⟩

theorem releasedTwice_snoc {es : List (Event α)} {e : Event α} {y : α}
    (h : ReleasedTwice (es ++ [e]) y) : ReleasedTwice es y ∨ e = .released y ∧ Spent es y := by
  obtain ⟨before, between, after, heq, hnot⟩ := h
  rcases append_singleton_eq heq with ⟨hnil, -, -⟩ | ⟨rest, hafter, hes⟩
  · exact absurd hnil (by simp)
  · rcases append_singleton_eq hafter.symm with ⟨-, he, hrest⟩ | ⟨rest', -, hrest⟩
    · exact .inr ⟨he, before, between, by rw [hes, hrest], hnot⟩
    · exact .inl ⟨before, between, rest', by rw [hes, hrest], hnot⟩

/-- Nothing was released twice, and what was released is free until it is taken. -/
structure Balanced (events : List (Event α)) (free : Set α) : Prop where
  once : ∀ x, ¬ ReleasedTwice events x
  spent : ∀ x, Spent events x → x ∈ free

namespace Balanced

variable {events : List (Event α)} {free free' : Set α}

theorem nil (free : Set α) : Balanced [] free := by
  refine ⟨fun x h => ?_, fun x h => ?_⟩
  · obtain ⟨_, _, _, heq, -⟩ := h
    exact absurd heq (by simp)
  · obtain ⟨_, _, heq, -⟩ := h
    exact absurd heq (by simp)

/-- A resource that is not free may be released. -/
theorem release (h : Balanced events free) {x : α} (hx : x ∉ free) (hmono : free ⊆ free')
    (hx' : x ∈ free') : Balanced (events ++ [.released x]) free' := by
  refine ⟨fun y hy => ?_, fun y hy => ?_⟩
  · rcases releasedTwice_snoc hy with htwice | ⟨he, hspent⟩
    · exact h.once y htwice
    · obtain rfl := Event.released.inj he
      exact hx (h.spent _ hspent)
  · rcases spent_released hy with rfl | hspent
    · exact hx'
    · exact hmono (h.spent y hspent)

/-- Resources are taken; the others stay free. -/
theorem take (h : Balanced events free) {xs : Set α} (hrest : ∀ x ∈ free, x ∉ xs → x ∈ free') :
    Balanced (events ++ [.taken xs]) free' := by
  refine ⟨fun y hy => ?_, fun y hy => ?_⟩
  · rcases releasedTwice_snoc hy with htwice | ⟨he, -⟩
    · exact h.once y htwice
    · exact absurd he (by simp)
  · obtain ⟨hspent, hnot⟩ := spent_taken hy
    exact hrest y (h.spent y hspent) hnot

/-- Several resources that are not free may be released, each once. -/
theorem releases (xs : List α) : ∀ {events : List (Event α)} {free free' : Set α},
    Balanced events free → xs.Nodup → (∀ x ∈ xs, x ∉ free) →
    (∀ x, x ∈ free' ↔ x ∈ free ∨ x ∈ xs) → Balanced (events ++ xs.map .released) free' := by
  induction xs with
  | nil =>
      intro events free free' h _ _ hfree
      rw [List.map_nil, List.append_nil]
      exact ⟨h.once, fun x hx => (hfree x).mpr (.inl (h.spent x hx))⟩
  | cons x rest ih =>
      intro events free free' h hnodup hnot hfree
      obtain ⟨hx, hrest⟩ := List.nodup_cons.mp hnodup
      have hone : Balanced (events ++ [.released x]) (free ∪ {x}) :=
        h.release (hnot x (by simp)) (fun y hy => .inl hy) (.inr rfl)
      rw [List.map_cons, List.append_cons]
      refine ih hone hrest (fun y hy hy' => ?_) fun y => ?_
      · rcases hy' with hy' | hy'
        · exact hnot y (by simp [hy]) hy'
        · rw [Set.mem_singleton_iff.mp hy'] at hy
          exact hx hy
      · rw [hfree y, List.mem_cons, Set.mem_union, Set.mem_singleton_iff, or_assoc]

end Balanced
end Ledger
