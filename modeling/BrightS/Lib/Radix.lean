/-
Radix trees kept in numbered pages.

A page is a row of entries, one for each index.  On its level an entry is absent, a
leaf, or the number of a page of the next lower level.  A lookup follows one index
per level.

Nothing in such a memory says that two trees do not share a page.  That is what a
labelling says: it gives a page its owner, its level and the indexes that lead to
it, and a memory agrees with it (`Labelled`) when every entry of a labelled page
that refers to a page refers to one labelled accordingly.  A page has one label, so
two lookups that meet in a page followed the same indexes, and an entry can be
written without a thought for lookups along other indexes.
-/
import Mathlib

namespace Radix

variable {I E O : Type}

/-- What an entry is on its level. -/
inductive Slot where
  | absent
  | leaf
  | table (page : Nat)
  deriving DecidableEq, Repr

structure Label (I O : Type) where
  owner : O
  level : Nat
  path : List I

section Lookup

variable (slot : Nat → E → Slot)

/-- The leaf the indexes lead to from a page, with its level. -/
def lookup (m : Nat → I → E) (ix : Nat → I) : Nat → Nat → Option (Nat × E)
  | level, t =>
      match slot level (m t (ix level)) with
      | .absent => none
      | .leaf => some (level, m t (ix level))
      | .table p =>
          match level with
          | 0 => none
          | level + 1 => lookup m ix level p

/-- Following the indexes from page `t` leads through page `t'`. -/
inductive Visits (m : Nat → I → E) (ix : Nat → I) : Nat → Nat → Nat → Nat → Prop where
  | here (level t : Nat) : Visits m ix level t level t
  | down {level t p level' t' : Nat} : slot (level + 1) (m t (ix (level + 1))) = .table p →
      Visits m ix level p level' t' → Visits m ix (level + 1) t level' t'

/-- The leaf a single entry is. -/
def leafOf (level : Nat) (e : E) : Option (Nat × E) :=
  match slot level e with
  | .leaf => some (level, e)
  | _ => none

/-- The owner of what an entry refers to may depend on the level and the index. -/
structure Labelled (childOwner : O → Nat → I → O) (m : Nat → I → E)
    (lab : Nat → Option (Label I O)) : Prop where
  child : ∀ t o level path, lab t = some ⟨o, level, path⟩ → ∀ i p,
    slot level (m t i) = .table p →
      ∃ level', level = level' + 1 ∧ lab p = some ⟨childOwner o level i, level', path ++ [i]⟩

end Lookup

section Facts

variable {slot : Nat → E → Slot} {m m' : Nat → I → E} {ix jx : Nat → I}

/-- A lookup goes on in the page behind an entry. -/
theorem lookup_table {level t p : Nat} (h : slot (level + 1) (m t (ix (level + 1))) = .table p) :
    lookup slot m ix (level + 1) t = lookup slot m ix level p := by
  rw [lookup, h]

/-- A lookup reads the entries it visits and no others. -/
theorem lookup_congr : ∀ {level t : Nat},
    (∀ level' t', Visits slot m ix level t level' t' → m' t' (ix level') = m t' (ix level')) →
      lookup slot m' ix level t = lookup slot m ix level t := by
  intro level
  induction level with
  | zero =>
      intro t h
      rw [lookup, lookup, h 0 t (.here 0 t)]
  | succ level ih =>
      intro t h
      rw [lookup, lookup, h (level + 1) t (.here _ t)]
      cases hs : slot (level + 1) (m t (ix (level + 1))) with
      | absent => rfl
      | leaf => rfl
      | table p => exact ih fun level' t' hv => h level' t' (.down hs hv)

/-- What a lookup finds is a leaf on its level. -/
theorem lookup_slot {l : Nat} {e : E} : ∀ {level t : Nat},
    lookup slot m ix level t = some (l, e) → slot l e = .leaf := by
  intro level
  induction level with
  | zero =>
      intro t h
      rw [lookup] at h
      split at h
      · simp at h
      · rename_i hs
        rw [Option.some.injEq, Prod.mk.injEq] at h
        rw [← h.1, ← h.2]
        exact hs
      · simp at h
  | succ level ih =>
      intro t h
      rw [lookup] at h
      split at h
      · simp at h
      · rename_i hs
        rw [Option.some.injEq, Prod.mk.injEq] at h
        rw [← h.1, ← h.2]
        exact hs
      · exact ih h

theorem Visits.level_le {level t level' t' : Nat} (h : Visits slot m ix level t level' t') :
    level' ≤ level := by
  induction h with
  | here => exact le_refl _
  | down _ _ ih => exact ih.trans (Nat.le_succ _)

theorem Visits.same_level {level t t' : Nat} (h : Visits slot m ix level t level t') : t' = t := by
  cases h with
  | here => rfl
  | down _ h => exact absurd h.level_le (by omega)

/-- A lookup comes to one page of each level. -/
theorem Visits.unique {level t l u u' : Nat} (h : Visits slot m ix level t l u) :
    Visits slot m ix level t l u' → u' = u := by
  induction h with
  | here level t => exact fun h' => h'.same_level
  | down hs hv ih =>
      intro h'
      cases h' with
      | here => exact absurd hv.level_le (by omega)
      | down hs' hv' =>
          rw [hs] at hs'
          obtain rfl := Slot.table.inj hs'
          exact ih hv'

/-- A leaf that is visited is what the lookup finds. -/
theorem Visits.lookup {level t l u : Nat} (h : Visits slot m ix level t l u)
    (hleaf : slot l (m u (ix l)) = .leaf) :
    Radix.lookup slot m ix level t = some (l, m u (ix l)) := by
  induction h with
  | here level t =>
      rw [Radix.lookup.eq_def]
      dsimp only
      rw [hleaf]
  | down hs _ ih => rw [lookup_table hs, ih hleaf]

/-- Entries on the way down decide what is visited; the entry that is looked for does not. -/
theorem Visits.congr {level t level' t' : Nat} (h : Visits slot m ix level t level' t')
    (hsame : ∀ l u, Visits slot m ix level t l u → level' < l → m' u (ix l) = m u (ix l)) :
    Visits slot m' ix level t level' t' := by
  induction h with
  | here level t => exact .here level t
  | down hs hv ih =>
      have hlt := Nat.lt_succ_of_le hv.level_le
      refine .down ?_ (ih fun l u hu hl => hsame l u (.down hs hu) hl)
      rw [hsame _ _ (.here _ _) hlt]
      exact hs

/-- Only the indexes on the way down matter. -/
theorem Visits.of_agree {level t level' t' : Nat} (h : Visits slot m ix level t level' t')
    (hagree : ∀ k, level' < k → k ≤ level → jx k = ix k) : Visits slot m jx level t level' t' := by
  induction h with
  | here level t => exact .here level t
  | down hs hv ih =>
      have hlt := Nat.lt_succ_of_le hv.level_le
      refine .down ?_ (ih fun k hk hk' => hagree k hk (hk'.trans (Nat.le_succ _)))
      rw [hagree _ hlt (le_refl _)]
      exact hs

variable {childOwner : O → Nat → I → O} {lab : Nat → Option (Label I O)}

/-- Every visited page is labelled, behind the indexes that led there. -/
theorem Visits.label (hl : Labelled slot childOwner m lab) {level t level' t' : Nat}
    (hv : Visits slot m ix level t level' t') : ∀ {o : O} {path : List I},
      lab t = some ⟨o, level, path⟩ →
        ∃ o' path', lab t' = some ⟨o', level', path'⟩ ∧ path <+: path' := by
  induction hv with
  | here level t => exact fun {o path} h => ⟨o, path, h, List.prefix_refl _⟩
  | down hs _ ih =>
      intro o path h
      obtain ⟨level₁, heq, hp⟩ := hl.child _ _ _ _ h _ _ hs
      obtain rfl := Nat.succ.inj heq
      obtain ⟨o', path', hlab, hpre⟩ := ih hp
      exact ⟨o', path', hlab, (List.prefix_append path _).trans hpre⟩

/-- The owner stays the same along indexes that keep it. -/
theorem Visits.owner (hl : Labelled slot childOwner m lab) {level t level' t' : Nat}
    (hv : Visits slot m ix level t level' t') {o : O}
    (ho : ∀ l, l ≤ level → childOwner o l (ix l) = o) : ∀ {path : List I},
      lab t = some ⟨o, level, path⟩ → ∃ path', lab t' = some ⟨o, level', path'⟩ := by
  induction hv with
  | here level t => exact fun {path} h => ⟨path, h⟩
  | down hs _ ih =>
      intro path h
      obtain ⟨level₁, heq, hp⟩ := hl.child _ _ _ _ h _ _ hs
      obtain rfl := Nat.succ.inj heq
      rw [ho _ (le_refl _)] at hp
      exact ih (fun l hle => ho l (hle.trans (Nat.le_succ _))) hp

/-- Two branches of a page have no path in common. -/
theorem prefix_concat_inj {path path' : List I} {i j : I} (hi : path ++ [i] <+: path')
    (hj : path ++ [j] <+: path') : i = j := by
  have hcat := List.prefix_of_prefix_length_le hi hj (by simp)
  have := hcat.eq_of_length (by simp)
  simpa using this

/-- Two lookups that meet in a page followed the same indexes to it. -/
theorem Visits.agree (hl : Labelled slot childOwner m lab) {level t level' x : Nat}
    (hv : Visits slot m ix level t level' x) : ∀ {u level'' : Nat} {o o₂ : O} {path : List I},
      lab t = some ⟨o, level, path⟩ → lab u = some ⟨o₂, level, path⟩ →
      Visits slot m jx level u level'' x →
        level'' = level' ∧ ∀ k, level' < k → k ≤ level → ix k = jx k := by
  induction hv with
  | here level t =>
      intro u level'' o o₂ path ht hu hw
      obtain ⟨o', path', hlab, -⟩ := hw.label hl hu
      rw [ht, Option.some.injEq, Label.mk.injEq] at hlab
      exact ⟨hlab.2.1.symm, fun k hk hk' => by omega⟩
  | @down level t p level' x hs hv ih =>
      intro u level'' o o₂ path ht hu hw
      obtain ⟨level₁, heq, hp⟩ := hl.child _ _ _ _ ht _ _ hs
      obtain rfl := Nat.succ.inj heq
      obtain ⟨o', path', hlab, hpre⟩ := hv.label hl hp
      have hle := hv.level_le
      cases hw with
      | here =>
          rw [hu, Option.some.injEq, Label.mk.injEq] at hlab
          omega
      | @down _ _ q _ _ hs' hw =>
          obtain ⟨level₂, heq', hq⟩ := hl.child _ _ _ _ hu _ _ hs'
          obtain rfl := Nat.succ.inj heq'
          obtain ⟨o'', path'', hlab', hpre'⟩ := hw.label hl hq
          rw [hlab, Option.some.injEq, Label.mk.injEq] at hlab'
          obtain ⟨-, -, rfl⟩ := hlab'
          -- Both paths continue `path` by one index and are prefixes of the same path.
          have hix : ix (level + 1) = jx (level + 1) := prefix_concat_inj hpre hpre'
          rw [← hix] at hq
          obtain ⟨hll, hagree⟩ := ih hp hq hw
          refine ⟨hll, fun k hk hk' => ?_⟩
          by_cases hkl : k = level + 1
          · rw [hkl, hix]
          · exact hagree k hk (by omega)

/-- A lookup from a page depends on one entry of it and on the pages behind that entry. -/
theorem lookup_branch (hl : Labelled slot childOwner m lab) {level t : Nat} {o : O}
    {path : List I} (ht : lab t = some ⟨o, level + 1, path⟩)
    (hentry : m' t (ix (level + 1)) = m t (ix (level + 1)))
    (hsub : ∀ u o' level' path', lab u = some ⟨o', level', path'⟩ →
      path ++ [ix (level + 1)] <+: path' → ∀ j, m' u j = m u j) :
    lookup slot m' ix (level + 1) t = lookup slot m ix (level + 1) t := by
  rw [lookup, lookup, hentry]
  cases hs : slot (level + 1) (m t (ix (level + 1))) with
  | absent => rfl
  | leaf => rfl
  | table p =>
      obtain ⟨level₁, heq, hp⟩ := hl.child _ _ _ _ ht _ _ hs
      obtain rfl := Nat.succ.inj heq
      refine lookup_congr fun level' t' hv => ?_
      obtain ⟨o', path', hlab, hpre⟩ := hv.label hl hp
      exact hsub t' o' level' path' hlab hpre _

/-! ### Writing an entry -/

/-- Among the labelled pages, `m'` differs from `m` in entry `i` of page `t` at most. -/
def SameBut (lab : Nat → Option (Label I O)) (m m' : Nat → I → E) (t : Nat) (i : I) : Prop :=
  ∀ u j, lab u ≠ none → (u ≠ t ∨ j ≠ i) → m' u j = m u j

section Write

variable {t level : Nat} {i : I} {o : O} {path : List I}

theorem Labelled.write_leaf (hl : Labelled slot childOwner m lab)
    (ht : lab t = some ⟨o, level, path⟩) (hsame : SameBut lab m m' t i)
    (hleaf : ∀ p, slot level (m' t i) ≠ .table p) : Labelled slot childOwner m' lab := by
  refine ⟨fun u o' level' path' hu j p hp => ?_⟩
  by_cases hhit : u = t ∧ j = i
  · obtain ⟨rfl, rfl⟩ := hhit
    rw [ht, Option.some.injEq, Label.mk.injEq] at hu
    obtain ⟨-, rfl, -⟩ := hu
    exact absurd hp (hleaf p)
  · rw [hsame u j (by rw [hu]; simp) (by tauto)] at hp
    exact hl.child u o' level' path' hu j p hp

/-- A page that is visited strictly above level `level` is not the written one. -/
theorem Visits.above (hl : Labelled slot childOwner m lab) {level₀ t₀ l u : Nat} {o₀ : O}
    {path₀ : List I} (h₀ : lab t₀ = some ⟨o₀, level₀, path₀⟩)
    (ht : lab t = some ⟨o, level, path⟩) (hv : Visits slot m ix level₀ t₀ l u) (hlt : l ≠ level) :
    u ≠ t ∧ lab u ≠ none := by
  obtain ⟨o', path', hlab, -⟩ := hv.label hl h₀
  refine ⟨?_, by rw [hlab]; simp⟩
  rintro rfl
  rw [ht, Option.some.injEq, Label.mk.injEq] at hlab
  exact hlt hlab.2.1.symm

/-- A lookup that comes to the written entry finds what was written. -/
theorem lookup_write_hit (hl : Labelled slot childOwner m lab)
    (hsame : SameBut lab m m' t i) (hleaf : ∀ p, slot level (m' t i) ≠ .table p)
    {level₀ t₀ : Nat} (hv : Visits slot m ix level₀ t₀ level t) (hi : ix level = i) :
    ∀ {o₀ : O} {path₀ : List I}, lab t₀ = some ⟨o₀, level₀, path₀⟩ →
      lookup slot m' ix level₀ t₀ = leafOf slot level (m' t i) := by
  induction hv with
  | here level t =>
      intro o₀ path₀ _
      rw [lookup, hi, leafOf]
      cases hs : slot level (m' t i) with
      | absent => rfl
      | leaf => rfl
      | table p => exact absurd hs (hleaf p)
  | @down l u p level t hs hv ih =>
      intro o₀ path₀ h₀
      obtain ⟨level₁, heq, hp⟩ := hl.child _ _ _ _ h₀ _ _ hs
      obtain rfl := Nat.succ.inj heq
      obtain ⟨o', path', ht, -⟩ := hv.label hl hp
      have hle := hv.level_le
      have hhere : Visits slot m ix (l + 1) u (l + 1) u := .here _ u
      obtain ⟨hne, hlab⟩ := hhere.above hl h₀ ht (by omega)
      rw [lookup, hsame u _ hlab (Or.inl hne), hs]
      exact ih hsame hleaf hi hp

/-- Every other lookup finds what it found before. -/
theorem lookup_write_miss (hl : Labelled slot childOwner m lab)
    (ht : lab t = some ⟨o, level, path⟩) (hsame : SameBut lab m m' t i)
    {level₀ t₀ : Nat} {o₀ : O} {path₀ : List I} (h₀ : lab t₀ = some ⟨o₀, level₀, path₀⟩)
    (hmiss : ¬ (Visits slot m ix level₀ t₀ level t ∧ ix level = i)) :
    lookup slot m' ix level₀ t₀ = lookup slot m ix level₀ t₀ := by
  refine lookup_congr fun l u hv => ?_
  by_cases hll : l = level
  · subst hll
    obtain ⟨o', path', hlab, -⟩ := hv.label hl h₀
    refine hsame u _ (by rw [hlab]; simp) ?_
    by_contra hboth
    rw [not_or, not_not, not_not] at hboth
    obtain ⟨rfl, hi⟩ := hboth
    exact hmiss ⟨hv, hi⟩
  · obtain ⟨hne, hlab⟩ := hv.above hl h₀ ht hll
    exact hsame u _ hlab (Or.inl hne)

/-- The way to the written entry is the same after the write. -/
theorem Visits.write (hl : Labelled slot childOwner m lab)
    (ht : lab t = some ⟨o, level, path⟩) (hsame : SameBut lab m m' t i)
    {level₀ t₀ : Nat} {o₀ : O} {path₀ : List I} (h₀ : lab t₀ = some ⟨o₀, level₀, path₀⟩)
    (hv : Visits slot m ix level₀ t₀ level t) : Visits slot m' ix level₀ t₀ level t := by
  refine hv.congr fun l u hu hlt => ?_
  obtain ⟨hne, hlab⟩ := hu.above hl h₀ ht (by omega)
  exact hsame u _ hlab (Or.inl hne)

end Write

/-! ### Linking an empty page -/

section Link

variable {t new level : Nat} {i : I} {o : O} {path : List I}

theorem Labelled.link (hl : Labelled slot childOwner m lab)
    (ht : lab t = some ⟨o, level + 1, path⟩) (hfresh : lab new = none)
    (hsame : SameBut lab m m' t i) (hlink : slot (level + 1) (m' t i) = .table new)
    (hempty : ∀ j, slot level (m' new j) = .absent) :
    Labelled slot childOwner m'
      (Function.update lab new (some ⟨childOwner o (level + 1) i, level, path ++ [i]⟩)) := by
  refine ⟨fun u o' level' path' hu j p hp => ?_⟩
  by_cases hnew : u = new
  · subst hnew
    rw [Function.update_self, Option.some.injEq, Label.mk.injEq] at hu
    obtain ⟨-, rfl, -⟩ := hu
    rw [hempty j] at hp
    exact Slot.noConfusion hp
  · rw [Function.update_of_ne hnew] at hu
    by_cases hhit : u = t ∧ j = i
    · obtain ⟨rfl, rfl⟩ := hhit
      rw [ht, Option.some.injEq, Label.mk.injEq] at hu
      obtain ⟨rfl, rfl, rfl⟩ := hu
      rw [hlink] at hp
      obtain rfl := Slot.table.inj hp
      exact ⟨level, rfl, Function.update_self ..⟩
    · rw [hsame u j (by rw [hu]; simp) (by tauto)] at hp
      obtain ⟨level₁, heq, hlab⟩ := hl.child u o' level' path' hu j p hp
      refine ⟨level₁, heq, ?_⟩
      rw [Function.update_of_ne, hlab]
      rintro rfl
      rw [hfresh] at hlab
      simp at hlab

/-- An empty page behind an absent entry changes no lookup. -/
theorem lookup_link (hl : Labelled slot childOwner m lab)
    (ht : lab t = some ⟨o, level + 1, path⟩) (hsame : SameBut lab m m' t i)
    (habsent : slot (level + 1) (m t i) = .absent)
    (hlink : slot (level + 1) (m' t i) = .table new)
    (hempty : ∀ j, slot level (m' new j) = .absent) {level₀ t₀ : Nat} {o₀ : O} {path₀ : List I}
    (h₀ : lab t₀ = some ⟨o₀, level₀, path₀⟩) :
    lookup slot m' ix level₀ t₀ = lookup slot m ix level₀ t₀ := by
  induction level₀ generalizing t₀ o₀ path₀ with
  | zero =>
      have hne : t₀ ≠ t := by
        rintro rfl
        rw [h₀, Option.some.injEq, Label.mk.injEq] at ht
        omega
      rw [lookup, lookup, hsame t₀ _ (by rw [h₀]; simp) (Or.inl hne)]
  | succ l ih =>
      by_cases hhit : t₀ = t ∧ ix (l + 1) = i
      · obtain ⟨rfl, hi⟩ := hhit
        rw [h₀, Option.some.injEq, Label.mk.injEq] at ht
        obtain rfl := Nat.succ.inj ht.2.1
        have hnone : lookup slot m' ix l new = none := by
          cases l <;> rw [lookup, hempty]
        rw [lookup, lookup, hi, hlink, habsent]
        exact hnone
      · rw [lookup, lookup, hsame t₀ _ (by rw [h₀]; simp) (by tauto)]
        cases hs : slot (l + 1) (m t₀ (ix (l + 1))) with
        | absent => rfl
        | leaf => rfl
        | table p =>
            obtain ⟨level₁, heq, hp⟩ := hl.child _ _ _ _ h₀ _ _ hs
            obtain rfl := Nat.succ.inj heq
            exact ih hp

end Link

end Facts

end Radix
