/-
What mapping and unmapping do to translations.

Each call writes one leaf, after a walk that may have linked new tables, so its effect
is a `LeafWritten`.  The exception is a 4 KB mapping at an address that lies in a 2 MB
page: there the walk stops one level early, the 4 KB entry is written into the page
directory, and the page it maps is taken for a page table (`paging_map_in_huge_page`).

Addresses are canonical: bits 47 to 63 are equal, as the processor demands.
-/
import BrightS.Lib.Runs
import BrightS.Proofs.PagingTables

namespace BrightS

open Radix Runs Words

/-! ### Translation -/

theorem and_fff (x : Nat) : x &&& 0xFFF = x % 4096 := Nat.and_two_pow_sub_one_eq_mod x 12

theorem physOf_small {e virt : Nat} (he : e < 2 ^ 64) (hh : ¬ pteHuge e) :
    physOf e virt = e / 4096 * 4096 + virt % 4096 := by
  rw [physOf, if_neg hh, and_not_fff he, and_fff, or_eq_add (by omega) (by omega)]

theorem physOf_huge {e virt : Nat} (he : e < 2 ^ 64) (hh : pteHuge e) :
    physOf e virt = e / 0x200000 * 0x200000 + virt % 0x200000 := by
  have hor := Nat.two_pow_add_eq_or_of_lt (i := 21) (Nat.mod_lt virt (by decide)) (e / 0x200000)
  rw [physOf, if_pos hh, and_not_1fffff he, Nat.and_two_pow_sub_one_eq_mod virt 21,
    Nat.mul_comm (e / 0x200000)]
  exact hor.symm

/-- The entry a walk finds is the leaf of the loaded space. -/
theorem walkPageTable_find {s : Paging} (h0 : s.pml4Table ≠ 0) (virt : Nat) :
    (walkPageTable s virt false = (s, none) ∧
        pageLookup s s.pml4Table (ptIndex virt) = none) ∨
      ∃ l u, walkPageTable s virt false = (s, some (u, ptIndex virt l)) ∧
        pageLookup s s.pml4Table (ptIndex virt) = some (l, readPte s u (ptIndex virt l)) ∧
        ptePresent (readPte s u (ptIndex virt l)) ∧
        Visits pteSlot (readPte s) (ptIndex virt) ptLevelPml4 s.pml4Table l u := by
  rw [walkPageTable_loaded h0]
  exact walkFrom_find s virt ptLevelPml4 s.pml4Table

/-- The physical address behind a leaf. -/
def leafPhys (leaf : Option (Nat × Nat)) (virt : Nat) : Nat :=
  match leaf with
  | none => 0
  | some (_, e) => physOf e virt

theorem virtToPhys_eq {s : Paging} (h0 : s.pml4Table ≠ 0) (virt : Nat) :
    virtToPhys s virt = leafPhys (pageLookup s s.pml4Table (ptIndex virt)) virt := by
  rw [virtToPhys, if_neg h0]
  rcases walkPageTable_find h0 virt with ⟨hnone, hlook⟩ | ⟨l, u, hsome, hlook, hp, -⟩
  · rw [hnone, hlook, leafPhys]
  · rw [hsome, hlook, leafPhys]
    dsimp only
    rw [if_pos hp]

theorem walk_none_iff {s : Paging} (h0 : s.pml4Table ≠ 0) (virt : Nat) :
    (walkPageTable s virt false).2 = none ↔ pageLookup s s.pml4Table (ptIndex virt) = none := by
  rcases walkPageTable_find h0 virt with ⟨hnone, hlook⟩ | ⟨l, u, hsome, hlook, -, -⟩
  · rw [hnone, hlook]
    simp
  · rw [hsome, hlook]
    simp

/-! ### Entries that are written -/

/-- A combination of the permission flags. -/
def permFlags (writable user : Bool) : Nat :=
  (if writable then pteFlagWritable else 0) ||| (if user then pteFlagUser else 0)

/-- The entry of a 4 KB mapping. -/
def mapEntry (phys : Nat) (writable user : Bool) : Nat :=
  (phys &&& lnot64 0xFFF) ||| pteFlagPresent ||| permFlags writable user

theorem mapEntry_eq {phys : Nat} (hp : phys < 2 ^ 64) (writable user : Bool) :
    mapEntry phys writable user =
      phys / 4096 * 4096 + (1 + (if writable then 2 else 0) + (if user then 4 else 0)) := by
  rw [mapEntry, and_not_fff hp, Nat.or_assoc, or_eq_add (by omega)]
  · cases writable <;> cases user <;> rfl
  · cases writable <;> cases user <;> decide

section MapEntry

variable {phys : Nat} (hp : phys < 2 ^ 64) (writable user : Bool)

include hp

theorem mapEntry_lt : mapEntry phys writable user < 2 ^ 64 := by
  rw [mapEntry_eq hp]
  cases writable <;> cases user <;> simp <;> omega

theorem mapEntry_present : ptePresent (mapEntry phys writable user) := by
  rw [ptePresent_iff, mapEntry_eq hp]
  cases writable <;> cases user <;> simp <;> omega

theorem mapEntry_not_huge : ¬ pteHuge (mapEntry phys writable user) := by
  rw [pteHuge_iff, mapEntry_eq hp]
  cases writable <;> cases user <;> simp <;> omega

theorem mapEntry_addr : mapEntry phys writable user / 4096 * 4096 = phys / 4096 * 4096 := by
  rw [mapEntry_eq hp]
  cases writable <;> cases user <;> simp <;> omega

end MapEntry

/-- The entry of a 2 MB mapping. -/
def map2mEntry (phys : Nat) (writable user : Bool) : Nat :=
  (phys &&& lnot64 0x1FFFFF) ||| pteFlagPresent ||| pteFlagHuge |||
    (permFlags writable user &&& lnot64 pteFlagHuge)

theorem map2mEntry_eq {phys : Nat} (hp : phys < 2 ^ 64) (writable user : Bool) :
    map2mEntry phys writable user =
      phys / 0x200000 * 0x200000 + (129 + (if writable then 2 else 0) + (if user then 4 else 0)) := by
  rw [map2mEntry, and_not_1fffff hp, Nat.or_assoc, Nat.or_assoc, or_eq_add (by omega)]
  · cases writable <;> cases user <;> rfl
  · cases writable <;> cases user <;> decide

section Map2mEntry

variable {phys : Nat} (hp : phys < 2 ^ 64) (writable user : Bool)

include hp

theorem map2mEntry_lt : map2mEntry phys writable user < 2 ^ 64 := by
  rw [map2mEntry_eq hp]
  cases writable <;> cases user <;> simp <;> omega

theorem map2mEntry_present : ptePresent (map2mEntry phys writable user) := by
  rw [ptePresent_iff, map2mEntry_eq hp]
  cases writable <;> cases user <;> simp <;> omega

theorem map2mEntry_addr : map2mEntry phys writable user / 0x200000 = phys / 0x200000 := by
  rw [map2mEntry_eq hp]
  cases writable <;> cases user <;> simp <;> omega

theorem map2mEntry_huge : pteHuge (map2mEntry phys writable user) := by
  rw [pteHuge_iff, map2mEntry_eq hp]
  cases writable <;> cases user <;> simp <;> omega

end Map2mEntry

/-! ### The effect of each call -/

/-- The walk for `virt` ends at a 2 MB page, or one of a higher level. -/
def MappedHuge (s : Paging) (virt : Nat) : Prop :=
  ∃ t i, (walkPageTable s virt false).2 = some (t, i) ∧ pteHuge (readPte s t i)

section Calls

variable {s : Paging} {lab : Labels}

theorem TablesOk.root_ne_zero (h : TablesOk s lab) (hroot : IsSpace lab s.pml4Table) :
    s.pml4Table ≠ 0 := (h.addr _ (by rw [hroot]; simp)).1

/-- Outside 2 MB pages a leaf is one of the lowest level. -/
theorem leaf_lowest {virt : Nat} (h0 : s.pml4Table ≠ 0) (hnot : ¬ MappedHuge s virt) {l e : Nat}
    (hlook : pageLookup s s.pml4Table (ptIndex virt) = some (l, e)) : l = 0 := by
  have hslot := lookup_slot hlook
  rcases walkPageTable_find h0 virt with ⟨-, hnone⟩ | ⟨k, u, hsome, hfound, -, -⟩
  · rw [hnone] at hlook
    simp at hlook
  · rw [hfound, Option.some.injEq, Prod.mk.injEq] at hlook
    obtain ⟨rfl, rfl⟩ := hlook
    have hh : ¬ pteHuge (readPte s u (ptIndex virt k)) := fun hh =>
      hnot ⟨u, _, by rw [hsome], hh⟩
    exact (pteSlot_eq_leaf hslot).2.resolve_left hh

theorem mappedHuge_iff (h0 : s.pml4Table ≠ 0) (virt : Nat) :
    MappedHuge s virt ↔ ∃ l e, pageLookup s s.pml4Table (ptIndex virt) = some (l, e) ∧ pteHuge e := by
  unfold MappedHuge
  rcases walkPageTable_find h0 virt with ⟨hnone, hlook⟩ | ⟨l, u, hsome, hlook, -, -⟩
  · rw [hnone, hlook]
    simp
  · rw [hsome, hlook]
    constructor
    · intro ⟨t, i, hplace, hh⟩
      obtain ⟨rfl, rfl⟩ := Prod.mk.inj (Option.some.inj hplace)
      exact ⟨l, _, rfl, hh⟩
    · intro ⟨k, e, hleaf, hh⟩
      obtain ⟨-, rfl⟩ := Prod.mk.inj (Option.some.inj hleaf)
      exact ⟨u, _, rfl, hh⟩

theorem ptIndex_alignDown {virt : Nat} (hv : virt < 2 ^ 64) :
    ptIndex (virt &&& lnot64 0xFFF) = ptIndex virt := by
  refine ptIndex_congr ?_
  rw [and_not_fff hv]
  omega

/-- A 4 KB mapping outside 2 MB pages fails without effect or writes the leaf it should. -/
theorem TablesOk.map (h : TablesOk s lab) (hroot : IsSpace lab s.pml4Table) {virt phys : Nat}
    (hv : virt < 2 ^ 64) (hp : phys < 2 ^ 64) (hnot : ¬ MappedHuge s virt)
    (writable user : Bool) :
    ∃ s' lab', Extends lab lab' ∧ TablesOk s' lab' ∧ s'.pml4Table = s.pml4Table ∧
      ((pagingMap s virt phys (permFlags writable user) = (s', -1) ∧ SameLookups lab s s') ∨
        (pagingMap s virt phys (permFlags writable user) = (s', 0) ∧
          LeafWritten s s' lab s.pml4Table (ptIndex virt) 0 (mapEntry phys writable user))) := by
  have h0 := h.root_ne_zero hroot
  have hix := ptIndex_alignDown hv
  obtain ⟨s', lab', hext, hok, -, hpml4, hres⟩ :=
    h.walk_create (virt &&& lnot64 0xFFF) false ptLevelPml4 hroot
  have hwalk := walkPageTable_loaded h0 (virt &&& lnot64 0xFFF) true
  rcases hres with ⟨hnone, hsame⟩ | ⟨l, u, hsome, hplace⟩
  · have hmap : pagingMap s virt phys (permFlags writable user) = (s', -1) := by
      rw [pagingMap, if_neg h0]
      dsimp only
      rw [hwalk, hnone]
    exact ⟨s', lab', hext, hok, hpml4, Or.inl ⟨hmap, hsame⟩⟩
  · have hmap : pagingMap s virt phys (permFlags writable user) =
        (writePte s' u (ptIndex virt l) (mapEntry phys writable user), 0) := by
      rw [pagingMap, if_neg h0]
      dsimp only
      rw [hwalk, hsome, hix]
      rfl
    have hl : l = 0 := by
      rcases hplace.last with hl | hl | ⟨e, -, hl⟩
      · exact hl
      · simp at hl
      · rw [hix] at hl
        exact leaf_lowest h0 hnot hl
    subst hl
    obtain ⟨o, path, hu⟩ := hplace.label
    have hvis := hplace.visits
    have hrest := hplace.rest
    rw [hix] at hvis hrest
    obtain ⟨hok', hwritten⟩ := hok.leafWritten hext hroot hu hvis hrest
      (mapEntry_lt hp writable user) (fun p hslot => by
        rw [pteSlot_leaf (mapEntry_present hp writable user) (Or.inr rfl)] at hslot
        exact Slot.noConfusion hslot)
    exact ⟨_, lab', hext, hok', hpml4, Or.inr ⟨hmap, hwritten⟩⟩

/-- A 2 MB mapping fails without effect or writes one leaf. -/
theorem TablesOk.map2m (h : TablesOk s lab) (hroot : IsSpace lab s.pml4Table) (virt : Nat)
    {phys : Nat} (hp : phys < 2 ^ 64) (writable user : Bool) :
    ∃ s' lab', Extends lab lab' ∧ TablesOk s' lab' ∧ s'.pml4Table = s.pml4Table ∧
      ((pagingMap2m s virt phys (permFlags writable user) = (s', -1) ∧ SameLookups lab s s') ∨
        (pagingMap2m s virt phys (permFlags writable user) = (s', 0) ∧
          ∃ l, LeafWritten s s' lab s.pml4Table (ptIndex virt) l
            (map2mEntry phys writable user))) := by
  have h0 := h.root_ne_zero hroot
  unfold pagingMap2m
  rw [if_neg h0]
  split
  · exact ⟨s, lab, .refl lab, h, rfl, Or.inl ⟨rfl, sameLookups_refl lab s⟩⟩
  · obtain ⟨s', lab', hext, hok, -, hpml4, hres⟩ := h.walk_create virt true ptLevelPml4 hroot
    rw [walkPageTableEx, if_neg h0]
    rcases hres with ⟨hnone, hsame⟩ | ⟨l, u, hsome, hplace⟩
    · rw [hnone]
      exact ⟨s', lab', hext, hok, hpml4, Or.inl ⟨rfl, hsame⟩⟩
    · rw [hsome]
      obtain ⟨o, path, hu⟩ := hplace.label
      obtain ⟨hok', hwritten⟩ := hok.leafWritten hext hroot hu hplace.visits hplace.rest
        (map2mEntry_lt hp writable user) (fun p hslot => by
          rw [pteSlot_leaf (map2mEntry_present hp writable user)
            (Or.inl (map2mEntry_huge hp writable user))] at hslot
          exact Slot.noConfusion hslot)
      exact ⟨_, lab', hext, hok', hpml4, Or.inr ⟨rfl, l, hwritten⟩⟩

/-- Where a walk found a leaf, another leaf or nothing may be written. -/
theorem TablesOk.rewrite (h : TablesOk s lab) (hroot : IsSpace lab s.pml4Table)
    {ix : Nat → PtIndex} {l u : Nat}
    (hv : Visits pteSlot (readPte s) ix ptLevelPml4 s.pml4Table l u) {e : Nat} (he : e < 2 ^ 64)
    (hleaf : ∀ p, pteSlot l e ≠ .table p) :
    TablesOk (writePte s u (ix l) e) lab ∧
      LeafWritten s (writePte s u (ix l) e) lab s.pml4Table ix l e := by
  obtain ⟨o, path, hu, -⟩ := hv.label h.labelled hroot
  exact h.leafWritten (.refl lab) hroot hu hv (fun _ _ _ _ _ _ _ => rfl) he hleaf

/-- Unmapping changes nothing or removes one leaf. -/
theorem TablesOk.unmap (h : TablesOk s lab) (hroot : IsSpace lab s.pml4Table) {virt : Nat}
    (hv : virt < 2 ^ 64) :
    pagingUnmap s virt = s ∨
      (TablesOk (pagingUnmap s virt) lab ∧ (pagingUnmap s virt).pml4Table = s.pml4Table ∧
        ∃ l, LeafWritten s (pagingUnmap s virt) lab s.pml4Table (ptIndex virt) l 0) := by
  have h0 := h.root_ne_zero hroot
  have hix := ptIndex_alignDown hv
  unfold pagingUnmap
  rw [if_neg h0]
  rcases walkPageTable_find h0 (virt &&& lnot64 0xFFF) with
    ⟨hnone, -⟩ | ⟨l, u, hsome, -, hp, hvis⟩
  · rw [hnone]
    exact Or.inl rfl
  · rw [hsome]
    dsimp only
    rw [if_pos hp]
    rw [hix] at hvis ⊢
    obtain ⟨hok, hwritten⟩ := h.rewrite hroot hvis (e := 0) (by decide)
      (fun p hslot => by rw [pteSlot_zero] at hslot; exact Slot.noConfusion hslot)
    exact Or.inr ⟨hok, rfl, l, hwritten⟩

end Calls

/-! ### Runs -/

/-- The tables of the loaded space are a tree of distinct pages, none of them free. -/
def SpaceLoaded (s : Paging) : Prop := ∃ lab, TablesOk s lab ∧ IsSpace lab s.pml4Table

def CanonicalAddr (v : Nat) : Prop := v < 2 ^ 47 ∨ (2 ^ 64 - 2 ^ 47 ≤ v ∧ v < 2 ^ 64)

inductive MapCall where
  | map (virt phys : Nat) (writable user : Bool)
  | map2m (virt phys : Nat) (writable user : Bool)
  | unmap (virt : Nat)

/-- One call of `map`, `map_2m` or `unmap`, with the table state after it. -/
def Paging.mapStep (s : Paging) (c : MapCall) (s' : Paging) : Prop :=
  match c with
  | .map virt phys writable user => CanonicalAddr virt ∧ phys < 2 ^ 64 ∧
      s' = (pagingMap s virt phys (permFlags writable user)).1
  | .map2m virt phys writable user => CanonicalAddr virt ∧ phys < 2 ^ 64 ∧
      s' = (pagingMap2m s virt phys (permFlags writable user)).1
  | .unmap virt => CanonicalAddr virt ∧ s' = pagingUnmap s virt

/-- 4 KB pages are not mapped into 2 MB pages. -/
def OutsideHuge (s : Paging) : MapCall → Prop
  | .map virt _ _ _ => ¬ MappedHuge s virt
  | _ => True

theorem CanonicalAddr.lt {v : Nat} (h : CanonicalAddr v) : v < 2 ^ 64 := by
  rcases h with h | h <;> omega

theorem spaceLoaded_step (s : Paging) (c : MapCall) (s' : Paging) (hinv : SpaceLoaded s)
    (hstep : Guarded OutsideHuge Paging.mapStep s c s') : SpaceLoaded s' := by
  obtain ⟨lab, h, hroot⟩ := hinv
  obtain ⟨hguard, hstep⟩ := hstep
  cases c with
  | map virt phys writable user =>
      obtain ⟨hv, hp, rfl⟩ := hstep
      obtain ⟨s', lab', hext, hok, hpml4, hres⟩ := h.map hroot hv.lt hp hguard writable user
      rcases hres with ⟨heq, -⟩ | ⟨heq, -⟩ <;>
      · rw [heq]
        exact ⟨lab', hok, by rw [hpml4]; exact hext _ _ hroot⟩
  | map2m virt phys writable user =>
      obtain ⟨hv, hp, rfl⟩ := hstep
      obtain ⟨s', lab', hext, hok, hpml4, hres⟩ := h.map2m hroot virt hp writable user
      rcases hres with ⟨heq, -⟩ | ⟨heq, -⟩ <;>
      · rw [heq]
        exact ⟨lab', hok, by rw [hpml4]; exact hext _ _ hroot⟩
  | unmap virt =>
      obtain ⟨hv, rfl⟩ := hstep
      rcases h.unmap hroot hv.lt with heq | ⟨hok, hpml4, -⟩
      · rw [heq]
        exact ⟨lab, h, hroot⟩
      · exact ⟨lab, hok, by rw [hpml4]; exact hroot⟩

/-- The indexes are the bits of an address from 12 to 47. -/
theorem same_bits {v w : Nat} (h : SameFrom 0 (ptIndex v) (ptIndex w)) :
    v / 4096 % 2 ^ 36 = w / 4096 % 2 ^ 36 := by
  have hlevel : ∀ k, k ≤ 3 → w / 2 ^ (12 + 9 * k) % 512 = v / 2 ^ (12 + 9 * k) % 512 := by
    intro k hk
    have := congrArg Fin.val (h k (Nat.zero_le _) hk)
    rwa [ptIndex_eq, ptIndex_eq] at this
  have h0 := hlevel 0 (by omega)
  have h1 := hlevel 1 (by omega)
  have h2 := hlevel 2 (by omega)
  have h3 := hlevel 3 (by omega)
  norm_num at h0 h1 h2 h3
  omega

/-- Canonical addresses with the same indexes lie in the same page. -/
theorem same_page {v w : Nat} (hv : CanonicalAddr v) (hw : CanonicalAddr w)
    (h : SameFrom 0 (ptIndex v) (ptIndex w)) : v / 4096 = w / 4096 := by
  have hbits := same_bits h
  rcases hv with hv | hv <;> rcases hw with hw | hw <;> omega

/-- A successful mapping outside 2 MB pages, on the addresses of its page and on the others. -/
theorem SpaceLoaded.map {s : Paging} (h : SpaceLoaded s) {v p : Nat} (hv : v < 2 ^ 64)
    (hp : p < 2 ^ 52) (hpalign : p % 4096 = 0) (hnot : ¬ MappedHuge s v) (writable user : Bool)
    (hret : (pagingMap s v p (permFlags writable user)).2 = 0) :
    SpaceLoaded (pagingMap s v p (permFlags writable user)).1 ∧
      (∀ x, SameFrom 0 (ptIndex v) (ptIndex x) →
        virtToPhys (pagingMap s v p (permFlags writable user)).1 x = p + x % 4096 ∧
          ¬ MappedHuge (pagingMap s v p (permFlags writable user)).1 x) ∧
      ∀ x, ¬ SameFrom 0 (ptIndex v) (ptIndex x) →
        virtToPhys (pagingMap s v p (permFlags writable user)).1 x = virtToPhys s x ∧
          (MappedHuge (pagingMap s v p (permFlags writable user)).1 x ↔ MappedHuge s x) := by
  obtain ⟨lab, h, hroot⟩ := h
  have h0 := h.root_ne_zero hroot
  have hp64 : p < 2 ^ 64 := by omega
  obtain ⟨s', lab', hext, hok, hpml4, hres⟩ := h.map hroot hv hp64 hnot writable user
  rcases hres with ⟨heq, -⟩ | ⟨heq, hwritten⟩
  · rw [heq] at hret
    exact absurd hret (by simp)
  · rw [heq]
    have h0' : s'.pml4Table ≠ 0 := by rw [hpml4]; exact h0
    refine ⟨⟨lab', hok, by rw [hpml4]; exact hext _ _ hroot⟩, fun x hsame => ?_, fun x hdiff => ?_⟩
    · have hlook := hwritten.hit _ hsame
      rw [leafOf, pteSlot_leaf (mapEntry_present hp64 writable user) (Or.inr rfl), ← hpml4] at hlook
      rw [virtToPhys_eq h0', mappedHuge_iff h0', hlook]
      refine ⟨?_, fun hhuge => ?_⟩
      · rw [leafPhys, physOf_small (mapEntry_lt hp64 writable user)
          (mapEntry_not_huge hp64 writable user), mapEntry_addr hp64]
        omega
      · obtain ⟨l, e, hleaf, hh⟩ := hhuge
        obtain ⟨-, rfl⟩ := Prod.mk.inj (Option.some.inj hleaf)
        exact mapEntry_not_huge hp64 writable user hh
    · rw [virtToPhys_eq h0', virtToPhys_eq h0, mappedHuge_iff h0', mappedHuge_iff h0, hpml4,
        hwritten.miss _ hdiff]
      exact ⟨rfl, Iff.rfl⟩

/--
**A mapping translates its page and nothing else.**  In every state such a run reaches, a
successful `map` outside 2 MB pages makes every address of the page translate to the physical
page, offset by offset, and leaves the translation of every other canonical address as it was.
-/
theorem paging_map_frame {s₀ : Paging} (h₀ : SpaceLoaded s₀) {calls : List MapCall} {s : Paging}
    (hrun : Executes (Guarded OutsideHuge Paging.mapStep) s₀ calls s)
    {v p : Nat} (hv : CanonicalAddr v) (hvalign : v % 4096 = 0) (hp : p < 2 ^ 52)
    (hpalign : p % 4096 = 0) (writable user : Bool)
    (hguard : OutsideHuge s (.map v p writable user))
    (hret : (pagingMap s v p (permFlags writable user)).2 = 0) :
    (∀ o, o < 4096 →
        virtToPhys (pagingMap s v p (permFlags writable user)).1 (v + o) = p + o) ∧
      ∀ x, CanonicalAddr x → ¬ (v ≤ x ∧ x < v + 4096) →
        virtToPhys (pagingMap s v p (permFlags writable user)).1 x = virtToPhys s x := by
  obtain ⟨-, hhit, hmiss⟩ := (hrun.invariant spaceLoaded_step h₀).map hv.lt hp hpalign hguard
    writable user hret
  constructor
  · intro o ho
    have hsame : SameFrom 0 (ptIndex v) (ptIndex (v + o)) := by
      intro k _ _
      rw [ptIndex_congr (show (v + o) / 4096 = v / 4096 by omega)]
    rw [(hhit _ hsame).1]
    omega
  · intro x hx hout
    have hdiff : ¬ SameFrom 0 (ptIndex v) (ptIndex x) := by
      intro hsame
      have := same_page hv hx hsame
      omega
    exact (hmiss x hdiff).1

/-- A page allocator with 64 free pages from the first megabyte on. -/
def freshPmem : Pmem :=
  { bitmap := fun i => if i = 0 then 0 else BitVec.allOnes 64, base := 0x100000,
    totalPages := 64, freePages := 64 }

theorem freshPmem_sane : PmemSane freshPmem := by
  refine ⟨by decide, by decide, fun i hi => ?_⟩
  have hlt : i < 64 := by
    by_contra hge
    have hbit := hi.2
    rw [bitmapTest, freshPmem] at hbit
    dsimp only at hbit
    rw [if_neg (by omega), bitTest_eq_getLsbD, BitVec.getLsbD_allOnes,
      decide_eq_true (by omega : i % 64 < 64)] at hbit
    exact Bool.noConfusion hbit
  rw [show freshPmem.base = 0x100000 from rfl, show pageSize = 4096 from rfl]
  omega

/-- An empty address space at `0x1000`. -/
def emptyTables (pm : Pmem) : Paging :=
  { pm := pm, mem := fun _ _ => 0, pml4Table := 0x1000, allocFailed := false }

theorem emptyTables_loaded {pm : Pmem} (hsane : PmemSane pm) (hbase : 0x1000 < pm.base) :
    SpaceLoaded (emptyTables pm) := by
  have hlab : ∀ t l, (if t = 0x1000 then some ⟨.space 0x1000, ptLevelPml4, []⟩ else none :
      Option (Label PtIndex Owner)) = some l → t = 0x1000 := by
    intro t l h
    split at h
    · assumption
    · simp at h
  refine ⟨fun t => if t = 0x1000 then some ⟨.space 0x1000, ptLevelPml4, []⟩ else none,
    ⟨⟨fun t o level path _ i p hp => ?_⟩, fun t ht => ?_, fun t ht => ?_, hsane⟩, rfl⟩
  · have hzero : readPte (emptyTables pm) t i = 0 := rfl
    rw [hzero, pteSlot_zero] at hp
    exact Slot.noConfusion hp
  · obtain ⟨l, hl⟩ := Option.ne_none_iff_exists'.mp ht
    obtain rfl := hlab t l hl
    rintro ⟨i, -, heq⟩
    have hpm : (emptyTables pm).pm.base = pm.base := rfl
    omega
  · obtain ⟨l, hl⟩ := Option.ne_none_iff_exists'.mp ht
    obtain rfl := hlab t l hl
    decide

theorem emptyTables_not_huge (pm : Pmem) (virt : Nat) : ¬ MappedHuge (emptyTables pm) virt := by
  intro ⟨t, i, hplace, hh⟩
  have hzero : readPte (emptyTables pm) t i = 0 := rfl
  rw [hzero] at hh
  exact hh rfl

/-- An empty address space that is no page of the allocator. -/
def emptySpace : Paging :=
  { pm := freshPmem, mem := fun _ _ => 0, pml4Table := 0x1000, allocFailed := false }

theorem emptySpace_loaded : SpaceLoaded emptySpace := emptyTables_loaded freshPmem_sane (by decide)

/-- One 2 MB page, at `0x200000`. -/
def oneHugePage : Paging := (pagingMap2m emptySpace 0x200000 0x400000 (permFlags true true)).1

theorem oneHugePage_step :
    Paging.mapStep emptySpace (.map2m 0x200000 0x400000 true true) oneHugePage :=
  ⟨Or.inl (by decide), by decide, rfl⟩

theorem oneHugePage_run : Executes (Guarded OutsideHuge Paging.mapStep) emptySpace
    [.map2m 0x200000 0x400000 true true] oneHugePage :=
  .cons ⟨trivial, oneHugePage_step⟩ (.nil _)

/-- Next to the 2 MB page a 4 KB page can be mapped. -/
theorem paging_map_frame_next_to_huge_page :
    Executes (Guarded OutsideHuge Paging.mapStep) emptySpace
        [.map2m 0x200000 0x400000 true true] oneHugePage ∧
      (∀ o, o < 4096 → virtToPhys
          (pagingMap oneHugePage 0x400000 0x800000 (permFlags true false)).1 (0x400000 + o) =
        0x800000 + o) ∧
      ∀ x, CanonicalAddr x → ¬ (0x400000 ≤ x ∧ x < 0x400000 + 4096) →
        virtToPhys (pagingMap oneHugePage 0x400000 0x800000 (permFlags true false)).1 x =
          virtToPhys oneHugePage x := by
  obtain ⟨hnot, hret⟩ : (walkPageTable oneHugePage 0x400000 false).2 = none ∧
      (pagingMap oneHugePage 0x400000 0x800000 (permFlags true false)).2 = 0 := by
    decide +kernel
  refine ⟨oneHugePage_run, ?_⟩
  exact paging_map_frame emptySpace_loaded oneHugePage_run (Or.inl (by decide)) (by decide)
    (by decide) (by decide) true false (by rintro ⟨t, i, h, -⟩; rw [hnot] at h; simp at h) hret

/-- A 4 KB page mapped into the 2 MB page succeeds, does not translate, and takes the translation
of the page behind it away. -/
theorem paging_map_in_huge_page :
    ∃ s, Executes Paging.mapStep emptySpace [.map2m 0x200000 0x400000 true true] s ∧
      (pagingMap s 0x201000 0x800000 (permFlags true false)).2 = 0 ∧
      virtToPhys (pagingMap s 0x201000 0x800000 (permFlags true false)).1 0x201000 ≠ 0x800000 ∧
      virtToPhys s 0x202000 = 0x402000 ∧
      virtToPhys (pagingMap s 0x201000 0x800000 (permFlags true false)).1 0x202000 = 0 := by
  refine ⟨oneHugePage, .cons oneHugePage_step (.nil _), ?_⟩
  decide +kernel

end BrightS
