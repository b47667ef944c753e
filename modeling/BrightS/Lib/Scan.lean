/-
Loops over a sequence that may stop early, or get stuck.

A body returns `none` where it gets stuck, `some none` to go on with the next element, and
`some (some r)` to leave the loop with `r`.  `scan` is the loop.  A loop over parts is the loop over
their elements (`scan_flatMap`), and it is stuck only in an element that it comes to
(`scan_range_isSome`).
-/
import Mathlib

namespace Scans

variable {β γ ρ : Type*}

/-- One body after another. -/
def andThen : Option (Option ρ) → Option (Option ρ) → Option (Option ρ)
  | none, _ => none
  | some none, next => next
  | some (some r), _ => some (some r)

def scan (body : β → Option (Option ρ)) : List β → Option (Option ρ)
  | [] => some none
  | b :: rest => andThen (body b) (scan body rest)

theorem andThen_assoc (a b c : Option (Option ρ)) :
    andThen (andThen a b) c = andThen a (andThen b c) := by
  cases a with
  | none => rfl
  | some r =>
      cases r with
      | none => rfl
      | some r => rfl

@[simp] theorem andThen_go (a : Option (Option ρ)) : andThen a (some none) = a := by
  cases a with
  | none => rfl
  | some r =>
      cases r with
      | none => rfl
      | some r => rfl

variable {body body' : β → Option (Option ρ)} {l : List β}

theorem scan_append (l l' : List β) :
    scan body (l ++ l') = andThen (scan body l) (scan body l') := by
  induction l with
  | nil => rfl
  | cons b rest ih =>
      rw [List.cons_append, scan, scan, ih, andThen_assoc]

/-- A loop over the elements of parts, part by part. -/
theorem scan_flatMap (parts : γ → List β) (l : List γ) :
    scan body (l.flatMap parts) = scan (fun c => scan body (parts c)) l := by
  induction l with
  | nil => rfl
  | cons c rest ih => rw [List.flatMap_cons, scan_append, ih, scan]

theorem scan_congr (hsame : ∀ b ∈ l, body b = body' b) : scan body l = scan body' l := by
  induction l with
  | nil => rfl
  | cons b rest ih =>
      rw [scan, scan, hsame b List.mem_cons_self,
        ih fun c hc => hsame c (List.mem_cons_of_mem _ hc)]

/-- A body that is stuck less often gives the same results. -/
theorem scan_mono (hmono : ∀ b ∈ l, ∀ r, body b = some r → body' b = some r) {r : Option ρ}
    (hscan : scan body l = some r) : scan body' l = some r := by
  induction l with
  | nil => exact hscan
  | cons b rest ih =>
      have ih := ih fun c hc => hmono c (List.mem_cons_of_mem _ hc)
      rw [scan] at hscan ⊢
      cases hb : body b with
      | none =>
          rw [hb] at hscan
          cases hscan
      | some s =>
          rw [hb] at hscan
          rw [hmono b List.mem_cons_self s hb]
          cases s with
          | none => exact ih hscan
          | some s => exact hscan

/-- The loop runs to its end. -/
theorem scan_eq_go_iff : scan body l = some none ↔ ∀ b ∈ l, body b = some none := by
  induction l with
  | nil => simp [scan]
  | cons b rest ih =>
      rw [scan, List.forall_mem_cons, ← ih]
      cases hb : body b with
      | none => simp [andThen]
      | some s =>
          cases s with
          | none => simp [andThen]
          | some s => simp [andThen]

/-- What the loop is left with comes from an element. -/
theorem mem_of_scan_ret {r : ρ} (hscan : scan body l = some (some r)) :
    ∃ b ∈ l, body b = some (some r) := by
  induction l with
  | nil => cases hscan
  | cons b rest ih =>
      rw [scan] at hscan
      cases hb : body b with
      | none =>
          rw [hb] at hscan
          cases hscan
      | some s =>
          rw [hb] at hscan
          cases s with
          | none =>
              obtain ⟨c, hc, hret⟩ := ih hscan
              exact ⟨c, List.mem_cons_of_mem _ hc, hret⟩
          | some s => exact ⟨b, List.mem_cons_self, hb.trans hscan⟩

/-- The first element that leaves the loop. -/
theorem scan_eq_findSome {pick : β → Option ρ} (hbody : ∀ b ∈ l, body b = some (pick b)) :
    scan body l = some (l.findSome? pick) := by
  induction l with
  | nil => rfl
  | cons b rest ih =>
      rw [scan, hbody b List.mem_cons_self, ih fun c hc => hbody c (List.mem_cons_of_mem _ hc),
        List.findSome?_cons]
      cases pick b with
      | none => rfl
      | some r => rfl

/-- A loop is stuck exactly in an element that it comes to. -/
theorem scan_isSome_cons {b : β} {rest : List β} :
    (scan body (b :: rest)).isSome ↔
      (body b).isSome ∧ (body b = some none → (scan body rest).isSome) := by
  rw [scan]
  cases hb : body b with
  | none => simp [andThen]
  | some s =>
      cases s with
      | none => simp [andThen]
      | some s => simp [andThen]

theorem scan_range_isSome {body : Nat → Option (Option ρ)} {n : Nat} :
    (scan body (List.range n)).isSome ↔
      ∀ i, i < n → (∀ j, j < i → body j = some none) → (body i).isSome := by
  induction n with
  | zero => simp [scan]
  | succ n ih =>
      rw [List.range_succ, scan_append]
      have hgo : scan body (List.range n) = some none ↔ ∀ i ∈ List.range n, body i = some none :=
        scan_eq_go_iff
      simp only [List.mem_range] at hgo
      cases hscan : scan body (List.range n) with
      | none =>
          rw [hscan] at ih
          refine iff_of_false (by simp [andThen]) fun h => ?_
          exact absurd (ih.mpr fun i hi => h i (by omega)) (by simp)
      | some s =>
          have ih := ih.mp (by rw [hscan]; rfl)
          cases s with
          | none =>
              have hall := hgo.mp hscan
              change (andThen (body n) (some none)).isSome ↔ _
              rw [andThen_go]
              constructor
              · intro hn i hi hbefore
                by_cases hlast : i = n
                · rw [hlast]
                  exact hn
                · exact ih i (by omega) hbefore
              · intro h
                exact h n (by omega) hall
          | some s =>
              refine iff_of_true rfl fun i hi hbefore => ?_
              by_cases hlast : i = n
              · rw [hlast] at hbefore
                rw [hgo.mpr hbefore] at hscan
                cases hscan
              · exact ih i (by omega) hbefore

end Scans
