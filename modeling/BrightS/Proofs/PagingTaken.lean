/-
What a mapping takes from the page allocator.

The walk that creates tables treats all four levels alike.  Above the lowest level a page that
it allocates becomes the missing table; on the lowest level it becomes the leaf, which the caller
overwrites, and the page is lost.
-/
import BrightS.Proofs.PagingConserve
import BrightS.Proofs.PagingMap

namespace BrightS

open Radix Words

attribute [local irreducible] pmemAllocPage

/-! ### Missing tables -/

/-- How many tables are missing on the way down for an address. -/
def missingTables (s : Paging) (virt : Nat) : Nat → Nat → Nat
  | 0, _ => 0
  | level + 1, t =>
      match pteSlot (level + 1) (readPte s t (ptIndex virt (level + 1))) with
      | .absent => level + 1
      | .leaf => 0
      | .table p => missingTables s virt level p

section Missing

variable {s s' : Paging} {virt level t : Nat}

theorem missingTables_table {p : Nat}
    (h : pteSlot (level + 1) (readPte s t (ptIndex virt (level + 1))) = .table p) :
    missingTables s virt (level + 1) t = missingTables s virt level p := by
  rw [missingTables, h]

/-- Behind an empty table everything is missing. -/
theorem missingTables_empty (virt level : Nat) (h : ∀ j, readPte s t j = 0) :
    missingTables s virt level t = level ∧
      lookup pteSlot (readPte s) (ptIndex virt) level t = none := by
  constructor
  · cases level with
    | zero => rfl
    | succ level => rw [missingTables, h, pteSlot_zero]
  · rw [lookup.eq_def]
    dsimp only
    rw [h, pteSlot_zero]

/-- Nothing is missing on the way to a leaf. -/
theorem missingTables_leaf : ∀ {level t : Nat},
    lookup pteSlot (readPte s) (ptIndex virt) level t ≠ none → missingTables s virt level t = 0 := by
  intro level
  induction level with
  | zero => exact fun _ => rfl
  | succ level ih =>
      intro t h
      cases hslot : pteSlot (level + 1) (readPte s t (ptIndex virt (level + 1))) with
      | absent =>
          rw [lookup, hslot] at h
          exact absurd rfl h
      | leaf => rw [missingTables, hslot]
      | table p =>
          rw [lookup_table hslot] at h
          rw [missingTables_table hslot]
          exact ih h

end Missing

/-! ### The walk -/

/-- Two lists of the pages that were handed out have the same pages. -/
theorem Takes.length_eq {pm pm' : Pmem} {xs ys : List Nat} (h : Takes pm pm' xs)
    (h' : Takes pm pm' ys) : xs.length = ys.length := by
  have hmem : ∀ {zs : List Nat}, Takes pm pm' zs → ∀ x, x ∈ zs ↔ AddrFree pm x ∧ ¬ AddrFree pm' x := by
    intro zs hz x
    rw [hz.free]
    exact ⟨fun hx => ⟨hz.fresh x hx, fun hfree => hfree.2 hx⟩,
      fun hx => by_contra fun hnot => hx.2 ⟨hx.1, hnot⟩⟩
  refine ((List.perm_ext_iff_of_nodup h.nodup h'.nodup).mpr fun x => ?_).length_eq
  rw [hmem h, hmem h']

/-- A missing entry is filled from one page, or the walk ends. -/
theorem TablesOk.ensure_takes {s : Paging} {lab : Labels} (h : TablesOk s lab) {t : Nat}
    {i : PtIndex} (hp : ¬ ptePresent (readPte s t i)) :
    walkEnsure s t i true = ({ s with allocFailed := true }, false) ∨
      ∃ s₁ new, FreshTable s s₁ lab new ∧ Takes s.pm s₁.pm [new] ∧
        walkEnsure s t i true =
          (writePte s₁ t i (new ||| pteFlagPresent ||| pteFlagWritable), true) := by
  have hens := walkEnsure_create hp
  have htakes := allocPtPage_takes h.pmem
  have halloc := h.alloc
  generalize allocPtPage s = res at halloc hens htakes
  rcases halloc with ⟨hnull, heq⟩ | hfresh
  · rw [if_pos hnull, heq] at hens
    exact .inl hens
  · have hne := hfresh.addr.1
    rw [if_neg hne] at hens
    exact .inr ⟨res.1, res.2, hfresh, htakes.resolve_left hne, hens⟩

/-- **What a creating walk takes**: the missing tables, and one page more if there is no leaf. -/
theorem TablesOk.walk_takes (virt : Nat) : ∀ (level : Nat) {s s' : Paging} {lab : Labels} {t : Nat}
    {o : Owner} {path : List PtIndex} {place : Nat × PtIndex}, TablesOk s lab →
    lab t = some ⟨o, level, path⟩ → walkFrom virt true false level s t = (s', some place) →
    ∃ xs, Takes s.pm s'.pm xs ∧ xs.length = missingTables s virt level t +
      if lookup pteSlot (readPte s) (ptIndex virt) level t = none then 1 else 0 := by
  intro level
  induction level with
  | zero =>
      intro s s' lab t o path place h ht hwalk
      by_cases hp : ptePresent (readPte s t (ptIndex virt 0))
      · rw [walkFrom_stop (walkEnsure_present hp) (by simp), Prod.mk.injEq] at hwalk
        obtain ⟨rfl, -⟩ := hwalk
        refine ⟨[], Takes.nil h.pmem, ?_⟩
        rw [lookup, pteSlot_leaf hp (.inr rfl)]
        rfl
      · rcases h.ensure_takes hp with hens | ⟨s₁, new, -, htakes, hens⟩
        · rw [walkFrom_missing hens] at hwalk
          exact absurd hwalk (by simp)
        · rw [walkFrom_stop hens (by simp), Prod.mk.injEq] at hwalk
          obtain ⟨rfl, -⟩ := hwalk
          refine ⟨[new], htakes, ?_⟩
          rw [lookup, pteSlot_absent hp]
          rfl
  | succ level ih =>
      intro s s' lab t o path place h ht hwalk
      by_cases hp : ptePresent (readPte s t (ptIndex virt (level + 1)))
      · by_cases hh : pteHuge (readPte s t (ptIndex virt (level + 1)))
        · have hslot : pteSlot (level + 1) (readPte s t (ptIndex virt (level + 1))) = .leaf :=
            pteSlot_leaf hp (.inl hh)
          rw [walkFrom_stop (walkEnsure_present hp) (.inr (.inl hh)), Prod.mk.injEq] at hwalk
          obtain ⟨rfl, -⟩ := hwalk
          refine ⟨[], Takes.nil h.pmem, ?_⟩
          rw [lookup, missingTables, hslot]
          rfl
        · have hslot := pteSlot_table hp hh level
          obtain ⟨level₁, heq, hchild⟩ := h.labelled.child _ _ _ _ ht _ _ hslot
          obtain rfl := Nat.succ.inj heq
          rw [walkFrom_down (walkEnsure_present hp) (by simp) hh] at hwalk
          rw [lookup_table hslot, missingTables_table hslot]
          exact ih h hchild hwalk
      · rcases h.ensure_takes hp with hens | ⟨s₁, new, hfresh, htakes, hens⟩
        · rw [walkFrom_missing hens] at hwalk
          exact absurd hwalk (by simp)
        · -- The new table is empty, so the walk takes a page on each level below.
          obtain ⟨hok, -, hnew⟩ := hfresh.linkNew h ht hp
          rw [walkFrom_down hens (by simp) hnew.notHuge, hnew.addr] at hwalk
          obtain ⟨xs, hrest, hlen⟩ := ih hok (Function.update_self ..) hwalk
          obtain ⟨hmissing, hnone⟩ := missingTables_empty virt level hnew.empty
          rw [hmissing, if_pos hnone] at hlen
          refine ⟨[new] ++ xs, htakes.trans hrest, ?_⟩
          have habsent := pteSlot_absent hp (level + 1)
          have hhere : missingTables s virt (level + 1) t = level + 1 := by
            rw [missingTables, habsent]
          have hgone : lookup pteSlot (readPte s) (ptIndex virt) (level + 1) t = none := by
            rw [lookup, habsent]
          rw [List.length_append, List.length_singleton, hlen, hhere, if_pos hgone]
          omega

/-! ### The result -/

/-- The mapping took one page for each missing table and no other, and each of them can be reached
from the top table. -/
def TookMissing (s s' : Paging) (virt : Nat) : Prop :=
  ∃ xs, Takes s.pm s'.pm xs ∧ xs.length = missingTables s virt ptLevelPml4 s.pml4Table ∧
    ∀ x ∈ xs, ∃ ix l, Visits pteSlot (readPte s') ix ptLevelPml4 s.pml4Table l x

theorem missingTables_congr {s : Paging} {v w : Nat} (h : ptIndex v = ptIndex w) :
    ∀ level t, missingTables s v level t = missingTables s w level t := by
  intro level
  induction level with
  | zero => exact fun _ => rfl
  | succ level ih =>
      intro t
      rw [missingTables, missingTables, h]
      split
      · rfl
      · rfl
      · exact ih _

/--
**When a mapping takes only the missing tables.**  A successful mapping takes exactly a page for
each table missing on its way, all of them reachable afterwards, if and only if the address was
mapped before.
-/
theorem paging_map_takes_missing_iff {s : Paging} (h : SpaceLoaded s) {virt : Nat}
    (hvirt : virt < 2 ^ 64) (phys flags : Nat) (hret : (pagingMap s virt phys flags).2 = 0) :
    TookMissing s (pagingMap s virt phys flags).1 virt ↔ (walkPageTable s virt false).2 ≠ none := by
  obtain ⟨lab, h, hroot⟩ := h
  have h0 := h.root_ne_zero hroot
  have hindex := ptIndex_alignDown hvirt
  have hlook : (walkPageTable s virt false).2 = none ↔
      lookup pteSlot (readPte s) (ptIndex virt) ptLevelPml4 s.pml4Table = none := walk_none_iff h0 virt
  unfold pagingMap at hret ⊢
  rw [if_neg h0] at hret ⊢
  dsimp only at hret ⊢
  rw [walkPageTable_loaded h0] at hret ⊢
  obtain ⟨res, hwalk⟩ : ∃ res, walkFrom (virt &&& lnot64 0xFFF) true false ptLevelPml4 s
      s.pml4Table = res := ⟨_, rfl⟩
  obtain ⟨s', place⟩ := res
  rw [hwalk] at hret ⊢
  cases place with
  | none => exact absurd hret (show ¬ (-1 : Int) = 0 by decide)
  | some place =>
      obtain ⟨xs, htakes, hlen⟩ := h.walk_takes _ _ hroot hwalk
      rw [missingTables_congr hindex, hindex] at hlen
      change TookMissing s (writePte s' place.1 place.2 _) virt ↔ _
      rw [ne_eq, hlook]
      constructor
      · rintro ⟨ys, htakes', hcount, -⟩ hnone
        have hsame := Takes.length_eq htakes htakes'
        rw [if_pos hnone] at hlen
        omega
      · intro hfound
        have hnone := missingTables_leaf hfound
        rw [if_neg hfound, hnone] at hlen
        obtain rfl := List.eq_nil_of_length_eq_zero hlen
        exact ⟨[], htakes, hnone.symm, by simp⟩

/-- A page that is mapped a second time. -/
theorem paging_map_takes_missing_again :
    TookMissing (pagingMap emptySpace 0x400000 0x800000 (permFlags true true)).1
      (pagingMap (pagingMap emptySpace 0x400000 0x800000 (permFlags true true)).1 0x400000 0x900000
        (permFlags true true)).1 0x400000 := by
  obtain ⟨hret, hagain, hfound⟩ :
      (pagingMap emptySpace 0x400000 0x800000 (permFlags true true)).2 = 0 ∧
      (pagingMap (pagingMap emptySpace 0x400000 0x800000 (permFlags true true)).1 0x400000 0x900000
        (permFlags true true)).2 = 0 ∧
      (walkPageTable (pagingMap emptySpace 0x400000 0x800000 (permFlags true true)).1 0x400000
        false).2 ≠ none := by
    decide +kernel
  have hloaded := (emptySpace_loaded.map (by decide) (by decide) (by decide)
    (emptyTables_not_huge freshPmem 0x400000) true true hret).1
  exact (paging_map_takes_missing_iff hloaded (by decide) _ _ hagain).mpr hfound

/-- In an empty space three tables are missing, and four pages are taken. -/
theorem paging_map_takes_more : ¬ ∀ (s : Paging) (virt phys flags : Nat), SpaceLoaded s →
    virt < 2 ^ 64 → (pagingMap s virt phys flags).2 = 0 →
      TookMissing s (pagingMap s virt phys flags).1 virt := by
  intro hall
  obtain ⟨hret, hafter⟩ :
      (pagingMap emptySpace 0x400000 0x800000 (permFlags true true)).2 = 0 ∧
      (pagingMap emptySpace 0x400000 0x800000 (permFlags true true)).1.pm.freePages = 60 := by
    decide +kernel
  obtain ⟨xs, htakes, hlen, -⟩ := hall emptySpace 0x400000 0x800000 (permFlags true true)
    emptySpace_loaded (by decide) hret
  have hcount := htakes.count
  have hmissing : missingTables emptySpace 0x400000 ptLevelPml4 emptySpace.pml4Table = 3 := by
    decide +kernel
  rw [hafter, hlen, hmissing] at hcount
  exact absurd hcount (by decide)

end BrightS
