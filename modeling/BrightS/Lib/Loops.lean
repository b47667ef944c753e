/-
Loops that stop at the first failure.

A kernel function that fails in the middle of a loop returns at once and leaves the
state as it is at that point.  `attempt` runs a body over a list in this way.  It has
three rules: what every iteration preserves, whether it fails or not, holds in the end
(`attempt_invariant`, and `attempt_invariant_cons` for what the first iteration establishes);
if no iteration fails, an invariant that counts the iterations holds with the full count
(`attempt_range`); and a loop may be cut in two where it is known to get no further
(`attempt_append`).
-/
import Mathlib

namespace Loops

variable {σ α : Type}

/-- The state after the loop, and whether all iterations succeeded. -/
def attempt (body : σ → α → σ × Bool) : List α → σ → σ × Bool
  | [], s => (s, true)
  | a :: rest, s =>
      let r := body s a
      if r.2 then attempt body rest r.1 else (r.1, false)

@[simp] theorem attempt_nil (body : σ → α → σ × Bool) (s : σ) :
    attempt body [] s = (s, true) := rfl

theorem attempt_cons (body : σ → α → σ × Bool) (a : α) (rest : List α) (s : σ) :
    attempt body (a :: rest) s =
      if (body s a).2 then attempt body rest (body s a).1 else ((body s a).1, false) := rfl

/-- A result whose second part is known.  `Prod.ext rfl h` says the same, but it compares the first
parts, and that evaluates a closed `r`. -/
theorem eq_of_snd {β : Type} {r : σ × β} {b : β} (h : r.2 = b) : r = (r.1, b) := Prod.ext rfl h

/-- A loop goes on behind an iteration that succeeded. -/
theorem attempt_cons_of_ok {body : σ → α → σ × Bool} {a : α} {s s' : σ}
    (h : body s a = (s', true)) (rest : List α) :
    attempt body (a :: rest) s = attempt body rest s' := by
  rw [attempt_cons, h, if_pos rfl]

/-- A loop that succeeds goes through every iteration. -/
theorem attempt_cons_ok {body : σ → α → σ × Bool} {a : α} {rest : List α} {s s' : σ}
    (h : attempt body (a :: rest) s = (s', true)) :
    ∃ mid, body s a = (mid, true) ∧ attempt body rest mid = (s', true) := by
  rw [attempt_cons] at h
  split at h
  · rename_i hbody
    exact ⟨(body s a).1, eq_of_snd hbody, h⟩
  · exact absurd (Prod.mk.inj h).2 (by simp)

/-- What every iteration preserves holds after the loop.  The result of an iteration has a name: a
`body` that is a function term is not to be compared under a projection. -/
theorem attempt_invariant {body : σ → α → σ × Bool} {P : σ → Prop} (l : List α) :
    ∀ {s : σ}, P s → (∀ s, ∀ a ∈ l, P s → ∀ r, body s a = r → P r.1) →
      P (attempt body l s).1 := by
  induction l with
  | nil => exact fun hs _ => hs
  | cons a rest ih =>
      intro s hs hstep
      have hnext := hstep s a (List.mem_cons_self ..) hs _ rfl
      rw [attempt_cons]
      split
      · exact ih hnext fun s b hb => hstep s b (List.mem_cons_of_mem a hb)
      · exact hnext

/-- What the first iteration establishes and the others preserve holds after the loop. -/
theorem attempt_invariant_cons {body : σ → α → σ × Bool} {P : σ → Prop} {a : α} {rest : List α}
    {s : σ} (hfirst : ∀ r, body s a = r → P r.1)
    (hstep : ∀ s, ∀ b ∈ rest, P s → ∀ r, body s b = r → P r.1) :
    P (attempt body (a :: rest) s).1 := by
  have hnext := hfirst _ rfl
  rw [attempt_cons]
  split
  · exact attempt_invariant rest hnext hstep
  · exact hnext

/-- A loop stops at an iteration that failed. -/
theorem attempt_cons_of_failed {body : σ → α → σ × Bool} {a : α} {s s' : σ}
    (h : body s a = (s', false)) (rest : List α) : attempt body (a :: rest) s = (s', false) := by
  rw [attempt_cons, h, if_neg (by simp)]

/-- A loop over two lists goes on with the second one where the first one has succeeded. -/
theorem attempt_append (body : σ → α → σ × Bool) (l l' : List α) (s : σ) :
    attempt body (l ++ l') s =
      if (attempt body l s).2 then attempt body l' (attempt body l s).1 else attempt body l s := by
  induction l generalizing s with
  | nil => rfl
  | cons a rest ih =>
      rw [List.cons_append, attempt_cons, attempt_cons, ih]
      by_cases hbody : (body s a).2 = true
      · rw [if_pos hbody, if_pos hbody]
      · rw [if_neg hbody, if_neg hbody, if_neg (by simp)]

/-- A loop that succeeds has succeeded on every beginning of its list. -/
theorem attempt_append_ok {body : σ → α → σ × Bool} {l l' : List α} {s s' : σ}
    (h : attempt body (l ++ l') s = (s', true)) :
    ∃ mid, attempt body l s = (mid, true) ∧ attempt body l' mid = (s', true) := by
  rw [attempt_append] at h
  split at h
  next hfirst => exact ⟨_, eq_of_snd hfirst, h⟩
  next hfirst => exact absurd (congrArg Prod.snd h) hfirst

/-- The last iteration of a loop that succeeds. -/
theorem attempt_snoc_ok {body : σ → α → σ × Bool} {a : α} {l : List α} {s s' : σ}
    (h : attempt body (l ++ [a]) s = (s', true)) :
    ∃ mid, attempt body l s = (mid, true) ∧ body mid a = (s', true) := by
  obtain ⟨mid, hmid, hlast⟩ := attempt_append_ok h
  obtain ⟨last, hbody, hnil⟩ := attempt_cons_ok hlast
  exact ⟨mid, hmid, hbody.trans hnil⟩

/-- A loop over a range that succeeds: an invariant that counts the iterations. -/
theorem attempt_range {body : σ → Nat → σ × Bool} {P : Nat → σ → Prop} {s : σ} (hs : P 0 s) (n : Nat) :
    ∀ {s' : σ}, (∀ i s s', i < n → P i s → body s i = (s', true) → P (i + 1) s') →
      attempt body (List.range n) s = (s', true) → P n s' := by
  induction n with
  | zero =>
      intro s' _ h
      rw [← (Prod.mk.inj h).1]
      exact hs
  | succ n ih =>
      intro s' hstep h
      rw [List.range_succ] at h
      obtain ⟨mid, hmid, hlast⟩ := attempt_snoc_ok h
      have hn := ih (fun i s s' hi => hstep i s s' (by omega)) hmid
      exact hstep n mid s' (by omega) hn hlast

/-- A loop over a table that changes the entry of each round, and this one alone. -/
theorem foldl_range_entry {τ : Type} {body : σ → Nat → σ} (entry : σ → Nat → τ) {f : τ → τ}
    (hbody : ∀ s i j, entry (body s i) j = if j = i then f (entry s j) else entry s j)
    (s : σ) (j n : Nat) :
    entry ((List.range n).foldl body s) j = if j < n then f (entry s j) else entry s j := by
  induction n with
  | zero => simp
  | succ n ih =>
      rw [List.range_succ, List.foldl_append, List.foldl_cons, List.foldl_nil, hbody, ih]
      by_cases hj : j = n
      · rw [if_pos hj, if_neg (by omega), if_pos (by omega)]
      · rw [if_neg hj]
        by_cases hlt : j < n
        · rw [if_pos hlt, if_pos (by omega)]
        · rw [if_neg hlt, if_neg (by omega)]

end Loops
