/-
Which access the page tables allow.

The processor grants user (or write) access to an address if the user (or write) bit is set in
the entry of every level.  A mapping sets the bits it was asked for in the last entry; the
entries above it were there before, or were linked on the way with the write bit and without
the user bit.  So what a mapping achieves is decided by the tables it finds
(`pagingMap_permits`), and in a space without user tables it never achieves user access
(`map_without_user_access`).
-/
import BrightS.Lib.Runs
import BrightS.Proofs.ElfPages
import BrightS.Proofs.PagingClone

namespace BrightS

open Radix Runs Words

/-! ### Effective permission -/

/-- From a table of the given level down, every entry at these indexes is present and has the
bit; a 2 MB page ends the walk. -/
def permits (bit : Nat) (s : Paging) (ix : Nat → PtIndex) : Nat → Nat → Prop
  | 0, t => ptePresent (readPte s t (ix 0)) ∧ readPte s t (ix 0) &&& bit ≠ 0
  | level + 1, t =>
      let e := readPte s t (ix (level + 1))
      ptePresent e ∧ e &&& bit ≠ 0 ∧ (pteHuge e ∨ permits bit s ix level (pteAddr e))

/-- The loaded space grants the access that the bit stands for. -/
def Permits (bit : Nat) (s : Paging) (virt : Nat) : Prop :=
  permits bit s (ptIndex virt) ptLevelPml4 s.pml4Table

/-- A mapping gives what its flags ask for. -/
def AccessGranted (s : Paging) (virt flags : Nat) : Prop :=
  flags &&& pteFlagUser ≠ 0 → Permits pteFlagUser s virt ∧
    (flags &&& pteFlagWritable ≠ 0 → Permits pteFlagWritable s virt)

/-- Above the lowest level, every entry that is there has the bit, and so have new ones if any is
missing. -/
def upperAllows (bit : Nat) (s : Paging) (ix : Nat → PtIndex) : Nat → Nat → Prop
  | 0, _ => True
  | level + 1, t =>
      let e := readPte s t (ix (level + 1))
      if ptePresent e then e &&& bit ≠ 0 ∧ upperAllows bit s ix level (pteAddr e)
      else (pteFlagPresent ||| pteFlagWritable) &&& bit ≠ 0

/-- What the tables must be like before the mapping. -/
def UpperAllows (s : Paging) (virt flags : Nat) : Prop :=
  flags &&& pteFlagUser ≠ 0 →
    upperAllows pteFlagUser s (ptIndex virt) ptLevelPml4 s.pml4Table ∧
      (flags &&& pteFlagWritable ≠ 0 →
        upperAllows pteFlagWritable s (ptIndex virt) ptLevelPml4 s.pml4Table)

/-- The address lies in a page larger than 4 KB. -/
def InLargePage (s : Paging) (virt : Nat) : Prop :=
  ∃ l e, pageLookup s s.pml4Table (ptIndex virt) = some (l + 1, e)

/-- A new link has the bits of a link only. -/
theorem link_and {new bit : Nat} (halign : new % 4096 = 0)
    (hbit : bit = pteFlagUser ∨ bit = pteFlagWritable) :
    (new ||| pteFlagPresent ||| pteFlagWritable) &&& bit ≠ 0 ↔
      (pteFlagPresent ||| pteFlagWritable) &&& bit ≠ 0 := by
  have heq : new ||| pteFlagPresent ||| pteFlagWritable = new + 3 := by
    rw [Nat.or_assoc, or_eq_add halign (by decide)]
    rfl
  rw [heq]
  rcases hbit with rfl | rfl
  · rw [show pteFlagUser = 2 ^ 2 from rfl, and_two_pow_ne_zero, and_two_pow_ne_zero,
      show pteFlagPresent ||| pteFlagWritable = 3 from rfl]
    omega
  · rw [show pteFlagWritable = 2 ^ 1 from rfl, and_two_pow_ne_zero, and_two_pow_ne_zero,
      show pteFlagPresent ||| 2 ^ 1 = 3 from rfl]
    omega

/-- A walk that goes on below a table, and what is written where it ends, leave the table's entry
as it is. -/
theorem TablesOk.walk_keeps_above {s s' : Paging} {lab : Labels} (h : TablesOk s lab)
    {t c u level virt : Nat} {o o' : Owner} {path path' : List PtIndex} {i j : PtIndex}
    (ht : lab t = some ⟨o, level + 1, path⟩) (hc : lab c = some ⟨o', level, path'⟩)
    (hp : ptePresent (readPte s t j))
    (hwalk : walkFrom virt true false level s c = (s', some (u, i))) (e : Nat) :
    readPte (writePte s' u i e) t j = readPte s t j := by
  obtain ⟨s₁, lab₁, hext, -, hkeep, -, hres⟩ := h.walk_create virt false level hc
  rcases hres with ⟨hnone, -⟩ | ⟨l, x, hsome, hplace⟩
  · rw [hnone] at hwalk
    simp at hwalk
  · rw [hsome, Prod.mk.injEq, Option.some.injEq, Prod.mk.injEq] at hwalk
    obtain ⟨rfl, rfl, rfl⟩ := hwalk
    -- The page that is written to is of a lower level.
    have htx : t ≠ x := by
      rintro rfl
      obtain ⟨o', path', hlab⟩ := hplace.label
      rw [hext _ _ ht, Option.some.injEq, Label.mk.injEq] at hlab
      have := hplace.visits.level_le
      omega
    rw [readPte_writePte_of_ne s₁ (.inl htx)]
    exact hkeep t _ (by rw [ht]; simp) hp

section Walk

variable {bit : Nat} (hbit : bit = pteFlagUser ∨ bit = pteFlagWritable)

include hbit

/-- What a walk leaves above the entry it returns decides, together with the entry written there,
what is permitted. -/
theorem walk_permits (virt : Nat) : ∀ (level : Nat) {s s' : Paging} {lab : Labels} {t : Nat}
    {o : Owner} {path : List PtIndex} {u : Nat} {i : PtIndex}, TablesOk s lab →
    lab t = some ⟨o, level, path⟩ →
    (∀ l e, lookup pteSlot (readPte s) (ptIndex virt) level t ≠ some (l + 1, e)) →
    walkFrom virt true false level s t = (s', some (u, i)) → ∀ {e : Nat}, e < 2 ^ 64 →
      (permits bit (writePte s' u i e) (ptIndex virt) level t ↔
        upperAllows bit s (ptIndex virt) level t ∧ ptePresent e ∧ e &&& bit ≠ 0) := by
  intro level
  induction level with
  | zero =>
      intro s s' lab t o path u i h ht _ hwalk e he
      rcases h.ensure_lowest ht (ptIndex virt 0) with hens | ⟨s₁, hens, -⟩
      · rw [walkFrom_missing hens] at hwalk
        simp at hwalk
      · rw [walkFrom_stop hens (.inr (.inr rfl)), Prod.mk.injEq, Option.some.injEq,
          Prod.mk.injEq] at hwalk
        obtain ⟨rfl, rfl, rfl⟩ := hwalk
        rw [permits, upperAllows, readPte_writePte_self _ _ _ he, true_and]
  | succ level ih =>
      intro s s' lab t o path u i h ht hsmall hwalk e he
      -- Below: the walk goes on in state `s₁` from the table behind the entry.
      have hstep : ∀ {s₁ : Paging} {lab₁ : Labels}, TablesOk s₁ lab₁ →
          lab₁ t = some ⟨o, level + 1, path⟩ →
          walkEnsure s t (ptIndex virt (level + 1)) true = (s₁, true) →
          ptePresent (readPte s₁ t (ptIndex virt (level + 1))) →
          ¬ pteHuge (readPte s₁ t (ptIndex virt (level + 1))) →
          (∀ l e, lookup pteSlot (readPte s₁) (ptIndex virt) level
            (pteAddr (readPte s₁ t (ptIndex virt (level + 1)))) ≠ some (l + 1, e)) →
          (permits bit (writePte s' u i e) (ptIndex virt) (level + 1) t ↔
            (readPte s₁ t (ptIndex virt (level + 1)) &&& bit ≠ 0 ∧
              upperAllows bit s₁ (ptIndex virt) level
                (pteAddr (readPte s₁ t (ptIndex virt (level + 1))))) ∧
              ptePresent e ∧ e &&& bit ≠ 0) := by
        intro s₁ lab₁ h₁ ht₁ hens hp hh hsmall₁
        rw [walkFrom_down hens (by simp) hh] at hwalk
        obtain ⟨level₁, heq, hchild⟩ := h₁.labelled.child _ _ _ _ ht₁ _ _ (pteSlot_table hp hh level)
        obtain rfl := Nat.succ.inj heq
        rw [permits, h₁.walk_keeps_above ht₁ hchild hp hwalk e, ih h₁ hchild hsmall₁ hwalk he,
          and_assoc]
        simp only [hp, hh, true_and, false_or]
      by_cases hp : ptePresent (readPte s t (ptIndex virt (level + 1)))
      · have hh : ¬ pteHuge (readPte s t (ptIndex virt (level + 1))) := by
          intro hh
          refine hsmall level (readPte s t (ptIndex virt (level + 1))) ?_
          rw [lookup, pteSlot_leaf hp (.inl hh)]
        rw [hstep h ht (walkEnsure_present hp) hp hh, upperAllows]
        · rw [if_pos hp]
        · intro l e' hlook
          refine hsmall l e' ?_
          rw [lookup_table (pteSlot_table hp hh level)]
          exact hlook
      · rcases h.ensure_missing hp with hens | ⟨s₀, new, hfresh, hens⟩
        · rw [walkFrom_missing hens] at hwalk
          simp at hwalk
        · obtain ⟨hok, -, hnew⟩ := hfresh.linkNew h ht hp
          generalize writePte s₀ t (ptIndex virt (level + 1))
            (new ||| pteFlagPresent ||| pteFlagWritable) = s₁ at hens hok hnew
          rw [hstep hok (extends_update hfresh.unlabelled _ _ _ ht) hens hnew.present hnew.notHuge,
            hnew.addr, hnew.entry, link_and hfresh.addr.2.1 hbit, upperAllows, if_neg hp]
          · have hbelow : (pteFlagPresent ||| pteFlagWritable) &&& bit ≠ 0 →
                upperAllows bit s₁ (ptIndex virt) level new := by
              intro hlink
              cases level with
              | zero => trivial
              | succ level =>
                  rw [upperAllows, hnew.empty, if_neg (by decide)]
                  exact hlink
            exact and_congr_left fun _ => ⟨fun hall => hall.1, fun hlink => ⟨hlink, hbelow hlink⟩⟩
          · intro l e' hlook
            rw [hnew.addr, lookup, hnew.empty, pteSlot_zero] at hlook
            simp at hlook

/-- **What a mapping permits.** -/
theorem pagingMap_permits {s s' : Paging} (hloaded : SpaceLoaded s) {virt phys flags : Nat}
    (hv : virt < 2 ^ 64) (hp : phys < 2 ^ 64) (hf : flags < 2 ^ 64) (hsmall : ¬ InLargePage s virt)
    (hmap : pagingMap s virt phys flags = (s', 0)) (hflag : flags &&& bit ≠ 0) :
    Permits bit s' virt ↔ upperAllows bit s (ptIndex virt) ptLevelPml4 s.pml4Table := by
  obtain ⟨lab, h, hroot⟩ := hloaded
  have h0 := h.root_ne_zero hroot
  unfold pagingMap at hmap
  rw [if_neg h0] at hmap
  dsimp only at hmap
  obtain ⟨s₁, lab₁, -, -, -, hpml4, hres⟩ :=
    h.walk_create (virt &&& lnot64 0xFFF) false ptLevelPml4 hroot
  rw [walkPageTable_loaded h0] at hmap
  rcases hres with ⟨hnone, -⟩ | ⟨l, u, hsome, -⟩
  · rw [hnone] at hmap
    simp at hmap
  · rw [hsome] at hmap
    dsimp only at hmap
    obtain ⟨rfl, -⟩ := Prod.mk.inj hmap
    have hentry : (phys &&& lnot64 0xFFF) ||| pteFlagPresent ||| flags < 2 ^ 64 :=
      Nat.or_lt_two_pow (Nat.or_lt_two_pow (Nat.lt_of_le_of_lt Nat.and_le_left hp) (by decide)) hf
    have hix := ptIndex_alignDown hv
    have hpermits := walk_permits hbit (virt &&& lnot64 0xFFF) ptLevelPml4 h hroot (fun l e hlook =>
      hsmall ⟨l, e, by rw [← hix]; exact hlook⟩) hsome hentry
    have hpresent : ptePresent ((phys &&& lnot64 0xFFF) ||| pteFlagPresent ||| flags) := by
      rw [ptePresent, Nat.and_or_distrib_right, Nat.and_or_distrib_right, Ne, Nat.or_eq_zero_iff,
        Nat.or_eq_zero_iff]
      rintro ⟨⟨-, hone⟩, -⟩
      exact absurd hone (by decide)
    have hset : ((phys &&& lnot64 0xFFF) ||| pteFlagPresent ||| flags) &&& bit ≠ 0 := by
      rw [Nat.and_or_distrib_right, Ne, Nat.or_eq_zero_iff]
      exact fun hzero => hflag hzero.2
    show permits _ _ _ _ s₁.pml4Table ↔ _
    rw [hix] at hpermits ⊢
    rw [hpml4, hpermits]
    exact and_iff_left ⟨hpresent, hset⟩

end Walk

/-! ### Runs of mappings -/

structure MapArgs where
  (virt phys flags : Nat)

def mapArgsStep (s : Paging) (c : MapArgs) (s' : Paging) : Prop :=
  c.virt < 2 ^ 64 ∧ c.phys < 2 ^ 64 ∧ c.flags < 2 ^ 64 ∧
    s' = (pagingMap s c.virt c.phys c.flags).1

/-- No mapping goes into a page larger than 4 KB. -/
def OutsideLarge (s : Paging) (c : MapArgs) : Prop := ¬ InLargePage s c.virt

theorem spaceLoaded_mapArgs (s : Paging) (c : MapArgs) (s' : Paging) (hinv : SpaceLoaded s)
    (hstep : Guarded OutsideLarge mapArgsStep s c s') : SpaceLoaded s' := by
  obtain ⟨lab, h, hroot⟩ := hinv
  obtain ⟨hsmall, hv, hp, hf, rfl⟩ := hstep
  have h0 := h.root_ne_zero hroot
  have hix := ptIndex_alignDown hv
  obtain ⟨s₁, lab₁, hext, hok, -, hpml4, hres⟩ :=
    h.walk_create (c.virt &&& lnot64 0xFFF) false ptLevelPml4 hroot
  have hroot₁ : IsSpace lab₁ s₁.pml4Table := by
    rw [hpml4]
    exact hext _ _ hroot
  unfold pagingMap
  rw [if_neg h0]
  dsimp only
  rw [walkPageTable_loaded h0]
  rcases hres with ⟨hnone, -⟩ | ⟨l, u, hsome, hplace⟩
  · rw [hnone]
    exact ⟨lab₁, hok, hroot₁⟩
  · rw [hsome]
    -- The walk stops above the lowest level at a large page only.
    have hl : l = 0 := by
      rcases hplace.last with hl | hl | ⟨e, -, hl⟩
      · exact hl
      · simp at hl
      · rw [hix] at hl
        cases l with
        | zero => rfl
        | succ l => exact absurd ⟨l, e, hl⟩ hsmall
    subst hl
    obtain ⟨o, path, hlab⟩ := hplace.label
    have hentry : (c.phys &&& lnot64 0xFFF) ||| pteFlagPresent ||| c.flags < 2 ^ 64 :=
      Nat.or_lt_two_pow (Nat.or_lt_two_pow (Nat.lt_of_le_of_lt Nat.and_le_left hp) (by decide)) hf
    exact ⟨lab₁, hok.write_leaf hlab hentry (pteSlot_lowest _), hroot₁⟩

/--
**A mapping gives user access only under user tables.**  In every state such a run reaches, a
mapping that succeeds grants what its flags ask for exactly when the entries above the page allow
it, which a missing one never does for user access.
-/
theorem map_access_iff {s₀ : Paging} (h₀ : SpaceLoaded s₀) {calls : List MapArgs} {s : Paging}
    (hrun : Executes (Guarded OutsideLarge mapArgsStep) s₀ calls s) {virt phys flags : Nat}
    (hv : virt < 2 ^ 47) (hp : phys < 2 ^ 64) (hf : flags < 2 ^ 64) (hsmall : ¬ InLargePage s virt)
    {s' : Paging} (hmap : pagingMap s virt phys flags = (s', 0)) :
    AccessGranted s' virt flags ↔ UpperAllows s virt flags := by
  have hloaded := hrun.invariant spaceLoaded_mapArgs h₀
  have hv' : virt < 2 ^ 64 := lt_trans hv (by decide)
  refine imp_congr_right fun huser => and_congr ?_ (imp_congr_right fun hwrite => ?_)
  · exact pagingMap_permits (.inl rfl) hloaded hv' hp hf hsmall hmap huser
  · exact pagingMap_permits (.inr rfl) hloaded hv' hp hf hsmall hmap hwrite

/-- In the space with a user stack, the stack's page is mapped anew. -/
theorem map_access_stack :
    ∃ s', pagingMap stackSpace 0x7FFFFFFFF000 0x900000 6 = (s', 0) ∧
      AccessGranted s' 0x7FFFFFFFF000 6 := by
  have hok : (pagingMap stackSpace 0x7FFFFFFFF000 0x900000 6).2 = 0 := by decide +kernel
  have hsmall : ¬ InLargePage stackSpace 0x7FFFFFFFF000 := by
    rintro ⟨l, e, hlook⟩
    have hleaf : pageLookup stackSpace stackSpace.pml4Table (ptIndex 0x7FFFFFFFF000) =
        some (0, 0x800007) := by decide +kernel
    rw [hleaf] at hlook
    simp at hlook
  have hmap : pagingMap stackSpace 0x7FFFFFFFF000 0x900000 6 =
      ((pagingMap stackSpace 0x7FFFFFFFF000 0x900000 6).1, 0) := Prod.ext rfl hok
  have hloaded : SpaceLoaded stackSpace := ⟨stackLabels, stackSpace_tables, rfl⟩
  refine ⟨_, hmap, (map_access_iff hloaded (.nil _) (by decide) (by decide) (by decide) hsmall
    hmap).mpr ?_⟩
  -- The tables of the stack are user tables.
  have hentry : ∀ bit, 7 &&& bit ≠ 0 →
      upperAllows bit stackSpace (ptIndex 0x7FFFFFFFF000) ptLevelPml4 stackSpace.pml4Table := by
    intro bit hbit
    have hand : ∀ {e : Nat}, e &&& 7 = 7 → e &&& bit ≠ 0 := by
      intro e he hzero
      apply hbit
      rw [← he, Nat.and_right_comm, hzero, Nat.zero_and]
    have h3 : readPte stackSpace stackSpace.pml4Table (ptIndex 0x7FFFFFFFF000 3) = 0x2007 := by
      rw [readPte_stackSpace]
      decide +kernel
    have h2 : readPte stackSpace 0x2000 (ptIndex 0x7FFFFFFFF000 2) = 0x3007 := by
      rw [readPte_stackSpace]
      decide +kernel
    have h1 : readPte stackSpace 0x3000 (ptIndex 0x7FFFFFFFF000 1) = 0x4007 := by
      rw [readPte_stackSpace]
      decide +kernel
    rw [show ptLevelPml4 = 2 + 1 from rfl, upperAllows, h3, if_pos (by decide)]
    refine ⟨hand (by decide), ?_⟩
    rw [show pteAddr 0x2007 = 0x2000 by decide, upperAllows, h2, if_pos (by decide)]
    refine ⟨hand (by decide), ?_⟩
    rw [show pteAddr 0x3007 = 0x3000 by decide, upperAllows, h1, if_pos (by decide)]
    exact ⟨hand (by decide), trivial⟩
  exact fun _ => ⟨hentry pteFlagUser (by decide), fun _ => hentry pteFlagWritable (by decide)⟩

/-- In an empty space a page that was mapped for the user is out of the user's reach. -/
theorem map_without_user_access :
    ¬ ∀ (s₀ : Paging) (calls : List MapArgs) (s : Paging) (virt phys flags : Nat) (s' : Paging),
      SpaceLoaded s₀ → Executes (Guarded OutsideLarge mapArgsStep) s₀ calls s → virt < 2 ^ 47 →
        phys < 2 ^ 64 → flags < 2 ^ 64 → ¬ InLargePage s virt →
          pagingMap s virt phys flags = (s', 0) → AccessGranted s' virt flags := by
  intro hall
  have hroom := roomyMachine_room
  have hloaded : SpaceLoaded roomyMachine.paging := emptyTables_loaded roomyPmem_sane (by decide)
  have hfree : 4 ≤ freePageCount roomyMachine.paging.pm := by
    have hpages := hroom.pages
    omega
  have hok := pagingMap_ok hroom.loaded hroom.sane hfree 0x400000 0x200000 6
  have hsmall : ¬ InLargePage roomyMachine.paging 0x400000 := by
    rintro ⟨l, e, hlook⟩
    have hnone : pageLookup roomyMachine.paging roomyMachine.paging.pml4Table (ptIndex 0x400000) =
        none := by decide +kernel
    rw [hnone] at hlook
    simp at hlook
  have hread : readPte roomyMachine.paging roomyMachine.paging.pml4Table
      (ptIndex 0x400000 (2 + 1)) = 0 := by decide +kernel
  obtain ⟨s, hs⟩ : ∃ s, roomyMachine.paging = s := ⟨_, rfl⟩
  rw [hs] at hloaded hok hsmall hread
  obtain ⟨s', hs'⟩ : ∃ s', (pagingMap s 0x400000 0x200000 6).1 = s' := ⟨_, rfl⟩
  have hmap : pagingMap s 0x400000 0x200000 6 = (s', 0) := Prod.ext hs' hok
  have hgranted : AccessGranted s' 0x400000 6 :=
    hall s [] s 0x400000 0x200000 6 s' hloaded (.nil _) (by decide) (by decide) (by decide) hsmall
      hmap
  have hupper := (pagingMap_permits (.inl rfl) hloaded (by decide) (by decide) (by decide) hsmall
    hmap (by decide)).mp (hgranted (by decide)).1
  -- The first table on the way is missing, and a new one is no user table.
  rw [show ptLevelPml4 = 2 + 1 from rfl, upperAllows, hread, if_neg (by decide)] at hupper
  exact hupper (by decide)

end BrightS
