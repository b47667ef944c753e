/-
Copy-on-write isolation of address spaces.

What a space maps in its user half is a `Sharing.View`: the frame behind each address and
the write bit of its entry.  A clone makes every 4 KB page read-only on both sides, but
`mark_writable` sets the write bit without asking who else maps the page, and 2 MB pages
are shared with their write bit (`paging_write_after_clone`).  Isolation holds as long as
the callers do what the code does not check; `CowRespected` is that condition, call by
call.
-/
import BrightS.Lib.Sharing
import BrightS.Proofs.PagingClone

namespace BrightS

open Radix Runs Sharing Words

/-! ### What a space maps -/

/-- The frame and the write bit behind an address of the user half. -/
def userView (s : Paging) : Sharing.View Nat Nat Nat := fun r v =>
  if 2 ^ 47 ≤ v then none else
  match (walkPageTable (loadSpace s r) v false).2 with
  | none => none
  | some (t, i) => some (physOf (readPte s t i) v / 4096, decide (pteWritable (readPte s t i)))

/-- The same of a leaf. -/
def leafView (leaf : Option (Nat × Nat)) (v : Nat) : Option (Nat × Bool) :=
  leaf.map fun p => (physOf p.2 v / 4096, decide (pteWritable p.2))

theorem userView_kernel (s : Paging) (r : Nat) {v : Nat} (hv : 2 ^ 47 ≤ v) :
    userView s r v = none := by
  rw [userView, if_pos hv]

theorem userView_eq {s : Paging} {r : Nat} (h0 : r ≠ 0) {v : Nat} (hv : v < 2 ^ 47) :
    userView s r v = leafView (pageLookup s r (ptIndex v)) v := by
  rw [userView, if_neg (by omega)]
  rcases walkPageTable_find (s := loadSpace s r) h0 v with ⟨hnone, hlook⟩ | ⟨l, u, hsome, hlook, -, -⟩
  · rw [hnone, show pageLookup s r (ptIndex v) = none from hlook]
    rfl
  · rw [hsome, show pageLookup s r (ptIndex v) = some (l, readPte s u (ptIndex v l)) from hlook]
    rfl

/-- Equal lookups give equal views. -/
theorem userView_congr {s s' : Paging} {r : Nat} (h0 : r ≠ 0)
    (h : ∀ ix, UserHalf ix → pageLookup s' r ix = pageLookup s r ix) (v : Nat) :
    userView s' r v = userView s r v := by
  by_cases hv : v < 2 ^ 47
  · rw [userView_eq h0 hv, userView_eq h0 hv, h _ (userHalf_ptIndex hv)]
  · rw [userView_kernel s' r (by omega), userView_kernel s r (by omega)]

/-! ### Destroying a space -/

/-- The labels that are left when a space is gone. -/
def dropOwner (lab : Labels) (r : Nat) : Labels := fun t =>
  if (lab t).map (·.owner) = some (.space r) then none else lab t

/-- Only the allocator changes, and only pages of the space `r` become free. -/
structure Freed (s s' : Paging) (lab : Labels) (r : Nat) : Prop where
  rest : s' = { s with pm := s'.pm }
  sane : PmemSane s'.pm
  free : ∀ x, AddrFree s'.pm x → AddrFree s.pm x ∨ ∃ level path, lab x = some ⟨.space r, level, path⟩

section Destroy

variable {s s' s'' : Paging} {lab : Labels} {r : Nat}

theorem Freed.refl (h : PmemSane s.pm) : Freed s s lab r := ⟨rfl, h, fun _ hx => Or.inl hx⟩

theorem Freed.trans (h : Freed s s' lab r) (h' : Freed s' s'' lab r) : Freed s s'' lab r := by
  refine ⟨?_, h'.sane, fun x hx => ?_⟩
  · rw [h'.rest, h.rest]
  · rcases h'.free x hx with hx | hx
    · exact h.free x hx
    · exact Or.inr hx

theorem Freed.tablesOk_mem (h : Freed s s' lab r) : readPte s' = readPte s := by
  rw [h.rest]
  rfl

/-- Freeing one table page. -/
theorem freed_page (h : TablesOk s lab) (hs : Freed s s' lab r) {t level : Nat}
    {path : List PtIndex} (ht : lab t = some ⟨.space r, level, path⟩) :
    Freed s { s' with pm := pmemFreePage s'.pm t } lab r := by
  obtain ⟨-, halign, hlt⟩ := h.addr t (by rw [ht]; simp)
  obtain ⟨hsane, hfree⟩ := pmemFreePage_addr hs.sane halign hlt
  refine hs.trans ⟨rfl, hsane, fun x hx => (hfree x hx).imp_right ?_⟩
  rintro rfl
  exact ⟨level, path, ht⟩

/-- Freeing a tree of tables frees pages of its owner only. -/
theorem freePtTree_freed (h : TablesOk s lab) : ∀ (level n : Nat), level ≤ ptLevelPml4 →
    (∀ i : PtIndex, i.val < n → childOwner (.space r) level i = .space r) →
    ∀ {t path s'}, lab t = some ⟨.space r, level, path⟩ → Freed s s' lab r →
      Freed s (freePtTree level n t s') lab r := by
  intro level
  induction level with
  | zero =>
      intro n _ _ t path s' ht hs
      exact freed_page h hs ht
  | succ level ih =>
      intro n hle hown t path s' ht hs
      rw [freePtTree]
      refine freed_page h ?_ ht
      have hloop : ∀ (l : List PtIndex) {s'}, (∀ i ∈ l, i.val < n) → Freed s s' lab r →
          Freed s (l.foldl (fun s i =>
            let e := readPte s t i
            if ¬ ptePresent e then s else
            if pteHuge e then s else freePtTree level 512 (pteAddr e) s) s') lab r := by
        intro l
        induction l with
        | nil => exact fun _ hs => hs
        | cons i rest ihl =>
            intro s' hl hs
            rw [List.foldl_cons]
            refine ihl (fun j hj => hl j (List.mem_cons_of_mem _ hj)) ?_
            dsimp only
            split
            · exact hs
            · rename_i hp
              split
              · exact hs
              · rename_i hh
                rw [not_not] at hp
                have hslot := pteSlot_table hp hh level
                rw [hs.tablesOk_mem] at hslot ⊢
                obtain ⟨level₁, heq, hchild⟩ := h.labelled.child _ _ _ _ ht _ _ hslot
                obtain rfl := Nat.succ.inj heq
                rw [hown i (hl i (by simp))] at hchild
                refine ih 512 (by omega) (fun j _ => ?_) hchild hs
                unfold childOwner
                rw [if_neg fun htop => by omega]
      exact hloop (ptIndexes n) (fun i hi => mem_ptIndexes.mp hi) hs

theorem dropOwner_eq_some {t : Nat} {l : Label PtIndex Owner} (h : dropOwner lab r t = some l) :
    lab t = some l ∧ l.owner ≠ .space r := by
  unfold dropOwner at h
  split at h
  · simp at h
  · rename_i hne
    refine ⟨h, fun howner => hne ?_⟩
    rw [h, Option.map_some, howner]

theorem dropOwner_of_ne {t : Nat} {l : Label PtIndex Owner} (h : lab t = some l)
    (hne : l.owner ≠ .space r) : dropOwner lab r t = some l := by
  unfold dropOwner
  rw [if_neg, h]
  rw [h, Option.map_some, Option.some.injEq]
  exact hne

/-- What is left after a space was destroyed. -/
theorem TablesOk.destroy (h : TablesOk s lab) {cr3 : Nat} (hr : IsSpace lab (cr3 &&& lnot64 0xFFF)) :
    TablesOk (pagingDestroyAddressSpace s cr3) (dropOwner lab (cr3 &&& lnot64 0xFFF)) ∧
      readPte (pagingDestroyAddressSpace s cr3) = readPte s ∧
      (pagingDestroyAddressSpace s cr3).pml4Table = s.pml4Table := by
  unfold pagingDestroyAddressSpace
  generalize cr3 &&& lnot64 0xFFF = r at hr
  have h0 : r ≠ 0 := (h.addr r (by rw [hr]; simp)).1
  dsimp only
  rw [if_pos h0]
  have hfreed := freePtTree_freed h ptLevelPml4 256 (le_refl _) (fun i hi => by
    unfold childOwner
    rw [if_neg fun hk => by omega]) hr (Freed.refl h.pmem)
  have hread := hfreed.tablesOk_mem
  refine ⟨⟨⟨fun t o level path ht i p hp => ?_⟩, fun t ht hfree => ?_, fun t ht => ?_, hfreed.sane⟩,
    hread, by rw [hfreed.rest]⟩
  · obtain ⟨ht, hne⟩ := dropOwner_eq_some ht
    rw [hread] at hp
    obtain ⟨level₁, heq, hchild⟩ := h.labelled.child t o level path ht i p hp
    refine ⟨level₁, heq, dropOwner_of_ne hchild ?_⟩
    unfold childOwner
    dsimp only
    split
    · exact Owner.noConfusion
    · exact hne
  · obtain ⟨l, hl⟩ := Option.ne_none_iff_exists'.mp ht
    obtain ⟨hlab, hne⟩ := dropOwner_eq_some hl
    rcases hfreed.free t hfree with hfree | ⟨level, path, ht⟩
    · exact h.used t (by rw [hlab]; simp) hfree
    · rw [hlab, Option.some.injEq] at ht
      rw [ht] at hne
      exact hne rfl
  · obtain ⟨l, hl⟩ := Option.ne_none_iff_exists'.mp ht
    obtain ⟨hlab, -⟩ := dropOwner_eq_some hl
    exact h.addr t (by rw [hlab]; simp)

end Destroy

/-! ### Changing one leaf -/

/-- Setting the write bit changes nothing else of an entry. -/
theorem or_writable_and (e : Nat) {mask : Nat} (h : pteFlagWritable &&& mask = 0) :
    (e ||| pteFlagWritable) &&& mask = e &&& mask := by
  rw [Nat.and_or_distrib_right, h, Nat.or_zero]

theorem or_writable_present (e : Nat) : ptePresent (e ||| pteFlagWritable) ↔ ptePresent e := by
  rw [ptePresent, ptePresent, or_writable_and e (by decide)]

theorem or_writable_huge (e : Nat) : pteHuge (e ||| pteFlagWritable) ↔ pteHuge e := by
  rw [pteHuge, pteHuge, or_writable_and e (by decide)]

theorem or_writable_physOf (e virt : Nat) : physOf (e ||| pteFlagWritable) virt = physOf e virt := by
  unfold physOf
  by_cases hh : pteHuge e
  · rw [if_pos hh, if_pos ((or_writable_huge e).mpr hh), or_writable_and e (by decide)]
  · rw [if_neg hh, if_neg (fun h => hh ((or_writable_huge e).mp h)), or_writable_and e (by decide)]

/-- The addresses whose walk ends at the same entry. -/
def SameLeaf (s : Paging) (virt v : Nat) : Prop :=
  (walkPageTable s v false).2 = (walkPageTable s (virt &&& lnot64 0xFFF) false).2

section Leaf

variable {s s' : Paging} {lab : Labels} {live : List Nat}

/-- Addresses that share the leaf's indexes share the leaf. -/
theorem walk_sameFrom {virt v l u : Nat} (h0 : s.pml4Table ≠ 0)
    (hv : Visits pteSlot (readPte s) (ptIndex virt) ptLevelPml4 s.pml4Table l u)
    (hleaf : pteSlot l (readPte s u (ptIndex virt l)) = .leaf)
    (hsame : SameFrom l (ptIndex virt) (ptIndex v)) :
    (walkPageTable s v false).2 = some (u, ptIndex virt l) ∧
      pageLookup s s.pml4Table (ptIndex v) = some (l, readPte s u (ptIndex virt l)) := by
  have hl := hsame l (le_refl _) hv.level_le
  have hv' : Visits pteSlot (readPte s) (ptIndex v) ptLevelPml4 s.pml4Table l u :=
    hv.of_agree fun k hk hk' => hsame k hk.le hk'
  have hlook := hv'.lookup (by rw [hl]; exact hleaf)
  rw [hl] at hlook
  refine ⟨?_, hlook⟩
  rcases walkPageTable_find h0 v with ⟨-, hnone⟩ | ⟨l', u', hsome, hfound, -, hv''⟩
  · rw [pageLookup, hlook] at hnone
    simp at hnone
  · rw [pageLookup, hlook, Option.some.injEq, Prod.mk.injEq] at hfound
    obtain ⟨rfl, -⟩ := hfound
    rw [hsome, hv'.unique hv'', hl]

/-- `mark_writable` changes nothing or sets the write bit of one leaf. -/
theorem TablesOk.markWritable (h : TablesOk s lab) (hroot : IsSpace lab s.pml4Table) (virt : Nat)
    (hvirt : virt < 2 ^ 64) :
    ((pagingMarkWritable s virt).1 = s ∧ pageLookup s s.pml4Table (ptIndex virt) = none) ∨
      ∃ l e, TablesOk (pagingMarkWritable s virt).1 lab ∧
        (pagingMarkWritable s virt).1.pml4Table = s.pml4Table ∧
        LeafWritten s (pagingMarkWritable s virt).1 lab s.pml4Table (ptIndex virt) l
          (e ||| pteFlagWritable) ∧
        ∀ v, SameFrom l (ptIndex virt) (ptIndex v) →
          SameLeaf s virt v ∧ pageLookup s s.pml4Table (ptIndex v) = some (l, e) := by
  have h0 := h.root_ne_zero hroot
  have hix := ptIndex_alignDown hvirt
  unfold pagingMarkWritable SameLeaf
  rcases walkPageTable_find h0 (virt &&& lnot64 0xFFF) with
    ⟨hnone, hlook⟩ | ⟨l, u, hsome, hlook, -, hvis⟩
  · left
    rw [hnone, ← hix]
    exact ⟨rfl, hlook⟩
  · right
    rw [hix] at hsome hlook hvis
    have hslot := lookup_slot hlook
    have hsame := fun v => walk_sameFrom (v := v) h0 hvis hslot
    have he := readPte_lt s u (ptIndex virt l)
    obtain ⟨hp', hl⟩ := pteSlot_eq_leaf hslot
    rw [hsome]
    dsimp only
    rw [if_neg (not_not_intro hp')]
    have hslot' := pteSlot_leaf (e := readPte s u (ptIndex virt l) ||| pteFlagWritable)
      ((or_writable_present _).mpr hp') (hl.imp_left (or_writable_huge _).mpr)
    obtain ⟨hok, hwritten⟩ := h.rewrite hroot hvis
      (e := readPte s u (ptIndex virt l) ||| pteFlagWritable) (Nat.or_lt_two_pow he (by decide))
      (fun p hslot => by rw [hslot'] at hslot; exact Slot.noConfusion hslot)
    exact ⟨l, _, hok, rfl, hwritten, hsame⟩

/-- Writing a leaf keeps isolation if what it maps in the user half may be mapped. -/
theorem LeafWritten.isolated {root l e : Nat} {ix : Nat → PtIndex}
    (hw : LeafWritten s s' lab root ix l e) (h : TablesOk s lab) (hroot : IsSpace lab root)
    (hlive : ∀ r ∈ live, IsSpace lab r) (hiso : Isolated (userView s) live)
    (hnew : UserHalf ix → ∀ v, v < 2 ^ 47 → SameFrom l ix (ptIndex v) → ptePresent e →
      MayMap (userView s) live root (physOf e v / 4096) (decide (pteWritable e))) :
    Isolated (userView s') live := by
  have hne : ∀ {r}, IsSpace lab r → r ≠ 0 := fun hr => (h.addr _ (by rw [hr]; simp)).1
  refine hiso.change root (fun r hr hrne v => ?_) (fun v f w hv => ?_)
  · exact userView_congr (hne (hlive r hr))
      (fun jx hjx => hw.apart r jx hrne (hlive r hr) (Or.inr hjx)) v
  · by_cases hlt : v < 2 ^ 47
    · rw [userView_eq (hne hroot) hlt] at hv
      by_cases hsame : SameFrom l ix (ptIndex v)
      · right
        rw [hw.hit _ hsame] at hv
        have huser : UserHalf ix := by
          rw [UserHalf, ← hsame ptLevelPml4 hw.level_le (le_refl _)]
          exact userHalf_ptIndex hlt
        cases hs : pteSlot l e with
        | leaf =>
            rw [leafOf, hs] at hv
            obtain ⟨rfl, rfl⟩ := Prod.mk.inj (Option.some.inj hv)
            exact hnew huser v hlt hsame (pteSlot_eq_leaf hs).1
        | absent =>
            rw [leafOf, hs] at hv
            simp [leafView] at hv
        | table p =>
            rw [leafOf, hs] at hv
            simp [leafView] at hv
      · left
        rw [userView_eq (hne hroot) hlt, ← hw.miss _ hsame]
        exact hv
    · rw [userView_kernel s' root (by omega)] at hv
      simp at hv

end Leaf

/-! ### Runs over any number of spaces -/

/-- The machine and the spaces that were created and not destroyed. -/
structure Spaces where
  paging : Paging
  live : List Nat

/-- A call that returns a space adds it unless it returned null. -/
def Spaces.added (m : Spaces) (res : Paging × Nat) : Spaces :=
  ⟨res.1, if res.2 = 0 then m.live else res.2 :: m.live⟩

inductive SpaceCall where
  | create
  | clone (cr3 : Nat)
  | destroy (cr3 : Nat)
  | load (cr3 : Nat)
  | map (virt phys : Nat) (writable user : Bool)
  | map2m (virt phys : Nat) (writable user : Bool)
  | unmap (virt : Nat)
  | markWritable (virt : Nat)

/-- One call.  Spaces are named by what a call returned; `load` is `brights_paging_init` after the
space was switched to. -/
def Spaces.step (m : Spaces) (c : SpaceCall) (m' : Spaces) : Prop :=
  match c with
  | .create => m' = m.added (pagingCreateAddressSpace m.paging)
  | .clone cr3 => cr3 &&& lnot64 0xFFF ∈ m.live ∧
      m' = m.added (pagingCloneAddressSpace m.paging cr3)
  | .destroy cr3 => cr3 &&& lnot64 0xFFF ∈ m.live ∧
      m' = ⟨pagingDestroyAddressSpace m.paging cr3, m.live.filter (· ≠ cr3 &&& lnot64 0xFFF)⟩
  | .load cr3 => cr3 &&& lnot64 0xFFF ∈ m.live ∧ m' = ⟨pagingInit m.paging cr3, m.live⟩
  | .map virt phys writable user => CanonicalAddr virt ∧ phys < 2 ^ 64 ∧
      m' = ⟨(pagingMap m.paging virt phys (permFlags writable user)).1, m.live⟩
  | .map2m virt phys writable user => CanonicalAddr virt ∧ phys < 2 ^ 64 ∧
      m' = ⟨(pagingMap2m m.paging virt phys (permFlags writable user)).1, m.live⟩
  | .unmap virt => CanonicalAddr virt ∧ m' = ⟨pagingUnmap m.paging virt, m.live⟩
  | .markWritable virt => CanonicalAddr virt ∧
      m' = ⟨(pagingMarkWritable m.paging virt).1, m.live⟩

/-- The loaded space may map the frame. -/
def Spaces.mayMap (m : Spaces) (f : Nat) (writable : Bool) : Prop :=
  MayMap (userView m.paging) m.live m.paging.pml4Table f writable

/-- No 2 MB page of the space is writable. -/
def HugeReadOnly (s : Paging) (r : Nat) : Prop :=
  ∀ v t i, v < 2 ^ 47 → (walkPageTable (loadSpace s r) v false).2 = some (t, i) →
    pteHuge (readPte s t i) → ¬ pteWritable (readPte s t i)

/-- No frame that the space maps writable is mapped at another page of it. -/
def WritableOnce (s : Paging) (r : Nat) : Prop :=
  ∀ v w f b, userView s r v = some (f, true) → userView s r w = some (f, b) → v / 4096 = w / 4096

/-- What the callers have to see to. -/
def CowRespected (m : Spaces) : SpaceCall → Prop
  | .clone cr3 => HugeReadOnly m.paging (cr3 &&& lnot64 0xFFF) ∧
      WritableOnce m.paging (cr3 &&& lnot64 0xFFF)
  | .destroy cr3 => cr3 &&& lnot64 0xFFF ≠ m.paging.pml4Table
  | .map virt phys writable _ => ¬ MappedHuge m.paging virt ∧
      (virt < 2 ^ 47 → m.mayMap (phys / 4096) writable)
  | .map2m virt phys writable _ => virt < 2 ^ 47 →
      ∀ f, f / 512 = phys / 0x200000 → m.mayMap f writable
  | .markWritable virt => ∀ v f w, SameLeaf m.paging virt v →
      userView m.paging m.paging.pml4Table v = some (f, w) → m.mayMap f true
  | _ => True

/-- The tables of all spaces are in order. -/
structure SpacesOk (m : Spaces) (lab : Labels) : Prop where
  tables : TablesOk m.paging lab
  loaded : LoadedOk m.paging lab
  live : ∀ r ∈ m.live, IsSpace lab r

/-- What every call keeps. -/
def CowInv (m : Spaces) : Prop := (∃ lab, SpacesOk m lab) ∧ Isolated (userView m.paging) m.live

section Calls

variable {m : Spaces} {lab lab' : Labels} {s' : Paging}

/-- A call that changes no lookup. -/
theorem SpacesOk.sameLookups (h : SpacesOk m lab) (hiso : Isolated (userView m.paging) m.live)
    (hext : Extends lab lab') (hok : TablesOk s' lab') (hpml4 : s'.pml4Table = m.paging.pml4Table)
    (hsame : SameLookups lab m.paging s') : CowInv ⟨s', m.live⟩ := by
  refine ⟨⟨lab', hok, ?_, fun r hr => hext _ _ (h.live r hr)⟩, hiso.subset fun r hr => Or.inl ⟨hr, ?_⟩⟩
  · rw [LoadedOk, hpml4]
    exact h.loaded.imp_right (hext _ _)
  · have hr' := h.live r hr
    exact userView_congr (h.tables.addr r (by rw [hr']; simp)).1 fun ix _ => hsame ix _ r _ _ hr'

/-- A call that writes one leaf of the loaded space. -/
theorem SpacesOk.leafWritten (h : SpacesOk m lab) (hiso : Isolated (userView m.paging) m.live)
    (hext : Extends lab lab') (hok : TablesOk s' lab') (hpml4 : s'.pml4Table = m.paging.pml4Table)
    (hroot : IsSpace lab m.paging.pml4Table) {ix : Nat → PtIndex} {l e : Nat}
    (hw : LeafWritten m.paging s' lab m.paging.pml4Table ix l e)
    (hnew : UserHalf ix → ∀ v, v < 2 ^ 47 → SameFrom l ix (ptIndex v) → ptePresent e →
      m.mayMap (physOf e v / 4096) (decide (pteWritable e))) : CowInv ⟨s', m.live⟩ :=
  ⟨⟨lab', hok, Or.inr (by rw [hpml4]; exact hext _ _ hroot), fun r hr => hext _ _ (h.live r hr)⟩,
    hw.isolated h.tables hroot h.live hiso hnew⟩

theorem SpacesOk.ne_zero (h : SpacesOk m lab) {r : Nat} (hr : r ∈ m.live) : r ≠ 0 :=
  (h.tables.addr r (by rw [h.live r hr]; simp)).1

theorem cowInv_create (h : SpacesOk m lab) (hiso : Isolated (userView m.paging) m.live) :
    CowInv (m.added (pagingCreateAddressSpace m.paging)) := by
  have halloc := h.tables.alloc
  obtain ⟨res, hres, hcases⟩ := pagingCreateAddressSpace_cases m.paging
  rw [hres] at halloc
  rcases halloc with ⟨hnull, hfailed⟩ | hfresh
  · obtain ⟨-, heq⟩ | ⟨hne, -⟩ := hcases
    · rw [heq, hfailed]
      exact h.sameLookups hiso (.refl lab) h.tables.failed.1 rfl h.tables.failed.2
    · exact absurd hnull hne
  · obtain ⟨hnull, -⟩ | ⟨-, heq⟩ := hcases
    · exact absurd hnull hfresh.addr.1
    rw [heq, Spaces.added, if_neg hfresh.addr.1]
    have hnew := hfresh.newSpace h.loaded
    have hext := extends_update hnew.unlabelled ⟨.space res.2, ptLevelPml4, []⟩
    have hsame := hnew.sameLookups h.tables.labelled
    refine ⟨⟨_, hnew.ok, ?_, ?_⟩, hiso.subset ?_⟩
    · rw [LoadedOk]
      dsimp only
      rw [hnew.pml4Table]
      exact h.loaded.imp_right (hext _ _)
    · intro r hr
      rcases List.mem_cons.mp hr with rfl | hr
      · exact Function.update_self ..
      · exact hext _ _ (h.live r hr)
    · intro r hr
      rcases List.mem_cons.mp hr with rfl | hr
      · -- The user half of the new space is empty.
        right
        intro v
        by_cases hv : v < 2 ^ 47
        · rw [userView_eq hfresh.addr.1 hv, pageLookup, lookup,
            hnew.empty _ (userHalf_ptIndex hv), pteSlot_zero]
          rfl
        · exact userView_kernel _ _ (by omega)
      · left
        exact ⟨hr, userView_congr (h.ne_zero hr) fun ix _ => hsame ix _ r _ _ (h.live r hr)⟩

/-- If huge leaves are read-only, copy-on-write makes every leaf so. -/
theorem leafView_cow {leaf : Option (Nat × Nat)} (v : Nat)
    (h : ∀ l e, leaf = some (l + 1, e) → ¬ pteWritable e) :
    leafView (cow leaf) v = readOnly (leafView leaf v) := by
  rcases leaf with _ | ⟨_ | l, e⟩
  · rfl
  · show some (physOf (cowEntry e) v / 4096, decide (pteWritable (cowEntry e))) = some (_, false)
    rw [cowEntry_physOf, decide_eq_false (cowEntry_not_writable e)]
  · show some (physOf e v / 4096, decide (pteWritable e)) = some (_, false)
    rw [decide_eq_false (h l e rfl)]

theorem HugeReadOnly.leaf {s : Paging} {r : Nat} (h : HugeReadOnly s r) (h0 : r ≠ 0) {v : Nat}
    (hv : v < 2 ^ 47) (l e : Nat) (hlook : pageLookup s r (ptIndex v) = some (l + 1, e)) :
    ¬ pteWritable e := by
  have hhuge := (pteSlot_eq_leaf (lookup_slot hlook)).2.resolve_right (by omega)
  rcases walkPageTable_find (s := loadSpace s r) h0 v with ⟨-, hnone⟩ | ⟨k, u, hsome, hfound, -, -⟩
  · rw [show pageLookup s r (ptIndex v) = none from hnone] at hlook
    simp at hlook
  · rw [show pageLookup s r (ptIndex v) = some (k, readPte s u (ptIndex v k)) from hfound,
      Option.some.injEq, Prod.mk.injEq] at hlook
    rw [← hlook.2] at hhuge ⊢
    exact h v u _ hv (by rw [hsome]) hhuge

theorem cowInv_clone (h : SpacesOk m lab) (hiso : Isolated (userView m.paging) m.live) {cr3 : Nat}
    (hsrc : cr3 &&& lnot64 0xFFF ∈ m.live) (hguard : CowRespected m (.clone cr3)) :
    CowInv (m.added (pagingCloneAddressSpace m.paging cr3)) := by
  rcases h.tables.clone h.loaded (h.live _ hsrc) with heq | ⟨s', dst, lab', heq, hne, hcloned⟩
  · rw [heq]
    exact h.sameLookups hiso (.refl lab) h.tables.failed.1 rfl h.tables.failed.2
  · rw [heq, Spaces.added, if_neg hne]
    obtain ⟨hhuge, honce⟩ := hguard
    generalize cr3 &&& lnot64 0xFFF = src at *
    have h0 := h.ne_zero hsrc
    refine ⟨⟨lab', hcloned.ok, ?_, ?_⟩, hiso.share hsrc ?_ ?_ ?_⟩
    · rw [LoadedOk]
      dsimp only
      rw [hcloned.pml4Table]
      exact h.loaded.imp_right (hcloned.labels _ _)
    · intro r hr
      rcases List.mem_cons.mp hr with rfl | hr
      · exact hcloned.space
      · exact hcloned.labels _ _ (h.live r hr)
    · intro r hr hrs
      exact userView_congr (h.ne_zero hr) fun ix _ => hcloned.apart r ix (h.live r hr) (Or.inl hrs)
    · intro v
      by_cases hv : v < 2 ^ 47
      · rw [userView_eq hne hv, userView_eq h0 hv, userView_eq h0 hv]
        rcases hcloned.copied _ (userHalf_ptIndex hv) with ⟨hd, hs⟩ | ⟨-, hd, hs⟩
        · left
          rw [hd, hs, leafView_cow v (hhuge.leaf h0 hv)]
          exact ⟨rfl, rfl⟩
        · right
          rw [hd, hs]
          exact ⟨rfl, rfl⟩
      · have hk : 2 ^ 47 ≤ v := by omega
        exact Or.inr ⟨userView_kernel s' dst hk, by rw [userView_kernel s' src hk, userView_kernel _ src hk]⟩
    · -- Both addresses lie in one page, so both are copied or neither is.
      intro a b f w ha hb hcopied
      have hpage := ptIndex_congr (honce a b f w ha hb)
      have hlt : ∀ {s r c}, userView s r c ≠ none → c < 2 ^ 47 := by
        intro s r c hc
        by_contra hge
        exact hc (userView_kernel s r (by omega))
      have hav := hlt (by rw [ha]; simp)
      rw [userView_eq hne (hlt hcopied)] at hcopied
      rw [userView_eq hne hav, hpage]
      intro hnone
      rw [leafView, Option.map_eq_none_iff] at hnone
      rw [hnone] at hcopied
      exact hcopied rfl

theorem cowInv_destroy (h : SpacesOk m lab) (hiso : Isolated (userView m.paging) m.live) {cr3 : Nat}
    (hr : cr3 &&& lnot64 0xFFF ∈ m.live) (hguard : CowRespected m (.destroy cr3)) :
    CowInv ⟨pagingDestroyAddressSpace m.paging cr3, m.live.filter (· ≠ cr3 &&& lnot64 0xFFF)⟩ := by
  obtain ⟨hok, hread, hpml4⟩ := h.tables.destroy (h.live _ hr)
  rw [CowRespected] at hguard
  generalize pagingDestroyAddressSpace m.paging cr3 = s' at *
  generalize cr3 &&& lnot64 0xFFF = r at *
  have hspace : ∀ {q}, IsSpace lab q → q ≠ r → IsSpace (dropOwner lab r) q := fun hq hne =>
    dropOwner_of_ne hq fun heq => hne (Owner.space.inj heq)
  refine ⟨⟨_, hok, ?_, fun q hq => ?_⟩, hiso.subset fun q hq => Or.inl ?_⟩
  · rw [LoadedOk]
    dsimp only
    rw [hpml4]
    exact h.loaded.imp_right fun hl => hspace hl hguard.symm
  · rw [List.mem_filter] at hq
    exact hspace (h.live q hq.1) (by simpa using hq.2)
  · rw [List.mem_filter] at hq
    refine ⟨hq.1, userView_congr (h.ne_zero hq.1) fun ix _ => ?_⟩
    rw [pageLookup, hread]
    rfl

theorem cowInv_load (h : SpacesOk m lab) (hiso : Isolated (userView m.paging) m.live) {cr3 : Nat}
    (hr : cr3 &&& lnot64 0xFFF ∈ m.live) : CowInv ⟨pagingInit m.paging cr3, m.live⟩ :=
  ⟨⟨lab, h.tables.of_eq rfl rfl, Or.inr (h.live _ hr), h.live⟩, hiso⟩

/-- A canonical address leads into the user half only if it lies below it. -/
theorem CanonicalAddr.lt_of_userHalf {v : Nat} (hv : CanonicalAddr v)
    (h : UserHalf (ptIndex v)) : v < 2 ^ 47 := by
  rw [UserHalf, ptIndex_eq, show 12 + 9 * ptLevelPml4 = 39 from rfl] at h
  rcases hv with hv | ⟨hlo, hhi⟩
  · exact hv
  · norm_num at h hlo hhi ⊢
    omega

theorem mapEntry_writable {phys : Nat} (hp : phys < 2 ^ 64) (writable user : Bool) :
    decide (pteWritable (mapEntry phys writable user)) = writable := by
  rw [Bool.eq_iff_iff, decide_eq_true_iff, pteWritable_iff, mapEntry_eq hp]
  cases writable <;> cases user <;> simp <;> omega

theorem map2mEntry_writable {phys : Nat} (hp : phys < 2 ^ 64) (writable user : Bool) :
    decide (pteWritable (map2mEntry phys writable user)) = writable := by
  rw [Bool.eq_iff_iff, decide_eq_true_iff, pteWritable_iff, map2mEntry_eq hp]
  cases writable <;> cases user <;> simp <;> omega

theorem cowInv_map (h : SpacesOk m lab) (hiso : Isolated (userView m.paging) m.live)
    {virt phys : Nat} {writable user : Bool} (hv : CanonicalAddr virt) (hp : phys < 2 ^ 64)
    (hguard : CowRespected m (.map virt phys writable user)) :
    CowInv ⟨(pagingMap m.paging virt phys (permFlags writable user)).1, m.live⟩ := by
  obtain ⟨hnot, hmay⟩ := hguard
  rcases h.loaded with h0 | hroot
  · rw [pagingMap, if_pos h0]
    exact ⟨⟨lab, h⟩, hiso⟩
  · obtain ⟨s', lab', hext, hok, hpml4, hres⟩ := h.tables.map hroot hv.lt hp hnot writable user
    rcases hres with ⟨heq, hsame⟩ | ⟨heq, hw⟩
    · rw [heq]
      exact h.sameLookups hiso hext hok hpml4 hsame
    · rw [heq]
      refine h.leafWritten hiso hext hok hpml4 hroot hw fun huser v _ _ _ => ?_
      have hf : physOf (mapEntry phys writable user) v / 4096 = phys / 4096 := by
        rw [physOf_small (mapEntry_lt hp writable user) (mapEntry_not_huge hp writable user),
          mapEntry_addr hp]
        omega
      rw [hf, mapEntry_writable hp]
      exact hmay (hv.lt_of_userHalf huser)

theorem cowInv_map2m (h : SpacesOk m lab) (hiso : Isolated (userView m.paging) m.live)
    {virt phys : Nat} {writable user : Bool} (hv : CanonicalAddr virt) (hp : phys < 2 ^ 64)
    (hguard : CowRespected m (.map2m virt phys writable user)) :
    CowInv ⟨(pagingMap2m m.paging virt phys (permFlags writable user)).1, m.live⟩ := by
  rcases h.loaded with h0 | hroot
  · rw [pagingMap2m, if_pos h0]
    exact ⟨⟨lab, h⟩, hiso⟩
  · obtain ⟨s', lab', hext, hok, hpml4, hres⟩ := h.tables.map2m hroot virt hp writable user
    rcases hres with ⟨heq, hsame⟩ | ⟨heq, l, hw⟩
    · rw [heq]
      exact h.sameLookups hiso hext hok hpml4 hsame
    · rw [heq]
      refine h.leafWritten hiso hext hok hpml4 hroot hw fun huser v _ _ _ => ?_
      rw [map2mEntry_writable hp]
      refine hguard (hv.lt_of_userHalf huser) _ ?_
      rw [physOf_huge (map2mEntry_lt hp writable user) (map2mEntry_huge hp writable user),
        map2mEntry_addr hp]
      omega

theorem cowInv_unmap (h : SpacesOk m lab) (hiso : Isolated (userView m.paging) m.live) {virt : Nat}
    (hv : CanonicalAddr virt) : CowInv ⟨pagingUnmap m.paging virt, m.live⟩ := by
  rcases h.loaded with h0 | hroot
  · rw [pagingUnmap, if_pos h0]
    exact ⟨⟨lab, h⟩, hiso⟩
  · rcases h.tables.unmap hroot hv.lt with heq | ⟨hok, hpml4, l, hw⟩
    · rw [heq]
      exact ⟨⟨lab, h⟩, hiso⟩
    · exact h.leafWritten hiso (.refl lab) hok hpml4 hroot hw fun _ _ _ _ hp =>
        absurd hp (by decide)

theorem cowInv_markWritable (h : SpacesOk m lab) (hiso : Isolated (userView m.paging) m.live)
    {virt : Nat} (hv : CanonicalAddr virt) (hguard : CowRespected m (.markWritable virt)) :
    CowInv ⟨(pagingMarkWritable m.paging virt).1, m.live⟩ := by
  have hsame : (pagingMarkWritable m.paging virt).1 = m.paging →
      CowInv ⟨(pagingMarkWritable m.paging virt).1, m.live⟩ := by
    intro heq
    rw [heq]
    exact ⟨⟨lab, h⟩, hiso⟩
  rcases h.loaded with h0 | hroot
  · refine hsame ?_
    rw [pagingMarkWritable, walkPageTable, walkPageTableEx, if_pos h0]
  · rcases h.tables.markWritable hroot virt hv.lt with ⟨heq, -⟩ | ⟨l, e, hok, hpml4, hw, hleaf⟩
    · exact hsame heq
    · refine h.leafWritten hiso (.refl lab) hok hpml4 hroot hw fun _ v hlt hfrom _ => ?_
      obtain ⟨hsl, hlook⟩ := hleaf v hfrom
      rw [or_writable_physOf]
      refine MayMap.weaken (hguard v _ (decide (pteWritable e)) hsl ?_) _
      rw [userView_eq (h.tables.root_ne_zero hroot) hlt, hlook]
      rfl

end Calls

theorem cowInv_step (m : Spaces) (c : SpaceCall) (m' : Spaces) (hinv : CowInv m)
    (hstep : Guarded CowRespected Spaces.step m c m') : CowInv m' := by
  obtain ⟨⟨lab, h⟩, hiso⟩ := hinv
  obtain ⟨hguard, hstep⟩ := hstep
  cases c with
  | create =>
      obtain rfl := hstep
      exact cowInv_create h hiso
  | clone cr3 =>
      obtain ⟨hsrc, rfl⟩ := hstep
      exact cowInv_clone h hiso hsrc hguard
  | destroy cr3 =>
      obtain ⟨hr, rfl⟩ := hstep
      exact cowInv_destroy h hiso hr hguard
  | load cr3 =>
      obtain ⟨hr, rfl⟩ := hstep
      exact cowInv_load h hiso hr
  | map virt phys writable user =>
      obtain ⟨hv, hp, rfl⟩ := hstep
      exact cowInv_map h hiso hv hp hguard
  | map2m virt phys writable user =>
      obtain ⟨hv, hp, rfl⟩ := hstep
      exact cowInv_map2m h hiso hv hp hguard
  | unmap virt =>
      obtain ⟨hv, rfl⟩ := hstep
      exact cowInv_unmap h hiso hv
  | markWritable virt =>
      obtain ⟨hv, rfl⟩ := hstep
      exact cowInv_markWritable h hiso hv hguard

/--
**No frame is writable in one space and mapped in another**, in every state a run reaches whose
callers respect what is shared: they map a frame only where that is allowed, make a page writable
only if no other space maps it, and clone no space with a writable 2 MB page or with a writable
frame that it maps twice.
-/
theorem paging_isolated {m₀ m : Spaces} {calls : List SpaceCall} (h₀ : ∃ lab, SpacesOk m₀ lab)
    (hiso : Isolated (userView m₀.paging) m₀.live)
    (hrun : Executes (Guarded CowRespected Spaces.step) m₀ calls m) :
    Isolated (userView m.paging) m.live :=
  (hrun.invariant cowInv_step ⟨h₀, hiso⟩).2

/-- One process, with its stack. -/
def oneProcess : Spaces := ⟨stackSpace, [0x1000]⟩

theorem oneProcess_ok : SpacesOk oneProcess stackLabels := by
  refine ⟨stackSpace_tables, Or.inr rfl, fun r hr => ?_⟩
  obtain rfl : r = 0x1000 := by simpa [oneProcess] using hr
  rfl

theorem oneProcess_isolated : Isolated (userView oneProcess.paging) oneProcess.live := by
  intro r hr r' hr' hne
  obtain rfl : r = 0x1000 := by simpa [oneProcess] using hr
  obtain rfl : r' = 0x1000 := by simpa [oneProcess] using hr'
  exact absurd rfl hne

/-- The stack is all that the space maps. -/
theorem stackSpace_lookup {ix : Nat → PtIndex} {l e : Nat}
    (h : pageLookup stackSpace 0x1000 ix = some (l, e)) :
    l = 0 ∧ e = 0x800007 ∧ ix 3 = 255 ∧ ix 2 = 511 ∧ ix 1 = 511 ∧ ix 0 = 511 := by
  have hnone : ∀ level t, readPte stackSpace t (ix level) = 0 →
      lookup pteSlot (readPte stackSpace) ix level t = none := by
    intro level t hzero
    cases level <;> rw [lookup, hzero, pteSlot_zero]
  have hgo : ∀ level t (i : PtIndex), (t, i) ∈ [(0x1000, (255 : PtIndex)), (0x2000, 511), (0x3000, 511)] →
      lookup pteSlot (readPte stackSpace) ix (level + 1) t = some (l, e) → ix (level + 1) = i := by
    intro level t i hin hlook
    by_contra hne
    rw [hnone _ _ (stackSpace_rest t i hin _ hne)] at hlook
    simp at hlook
  have h3 := hgo 2 0x1000 255 (by decide) h
  rw [pageLookup, ptLevelPml4, lookup_table (p := 0x2000) (by rw [h3]; rfl)] at h
  have h2 := hgo 1 0x2000 511 (by decide) h
  rw [lookup_table (p := 0x3000) (by rw [h2]; rfl)] at h
  have h1 := hgo 0 0x3000 511 (by decide) h
  rw [lookup_table (p := 0x4000) (by rw [h1]; rfl), lookup_lowest, readPte_stackSpace] at h
  by_cases h0 : ix 0 = 511
  · rw [h0] at h
    obtain ⟨rfl, rfl⟩ := Prod.mk.inj (Option.some.inj h)
    exact ⟨rfl, rfl, h3, h2, h1, h0⟩
  · simp [h0, leafOf, pteSlot_zero] at h

theorem userView_some {s : Paging} {r v f : Nat} {w : Bool} (h0 : r ≠ 0)
    (h : userView s r v = some (f, w)) :
    v < 2 ^ 47 ∧ ∃ l e, pageLookup s r (ptIndex v) = some (l, e) := by
  by_cases hv : v < 2 ^ 47
  · rw [userView_eq h0 hv, leafView, Option.map_eq_some_iff] at h
    obtain ⟨⟨l, e⟩, hlook, -⟩ := h
    exact ⟨hv, l, e, hlook⟩
  · rw [userView_kernel s r (by omega)] at h
    simp at h

theorem oneProcess_clone : CowRespected oneProcess (.clone 0x1000) := by
  show HugeReadOnly stackSpace 0x1000 ∧ WritableOnce stackSpace 0x1000
  constructor
  · intro v t i hv hwalk hhuge
    rcases walkPageTable_find (s := loadSpace stackSpace 0x1000) (by decide) v with
      ⟨hnone, -⟩ | ⟨l, u, hsome, hlook, -, -⟩
    · rw [hnone] at hwalk
      simp at hwalk
    · rw [hsome] at hwalk
      obtain ⟨rfl, rfl⟩ := Prod.mk.inj (Option.some.inj hwalk)
      have he : readPte stackSpace u (ptIndex v l) = 0x800007 := (stackSpace_lookup hlook).2.1
      rw [he] at hhuge
      exact absurd hhuge (by decide)
  · intro v w f b hv hw
    obtain ⟨hvlt, l, e, hvl⟩ := userView_some (by decide) hv
    obtain ⟨hwlt, l', e', hwl⟩ := userView_some (by decide) hw
    obtain ⟨-, -, h3, h2, h1, h0⟩ := stackSpace_lookup hvl
    obtain ⟨-, -, h3', h2', h1', h0'⟩ := stackSpace_lookup hwl
    refine same_page (Or.inl hvlt) (Or.inl hwlt) fun k _ hk => ?_
    match k, hk with
    | 0, _ => rw [h0, h0']
    | 1, _ => rw [h1, h1']
    | 2, _ => rw [h2, h2']
    | 3, _ => rw [h3, h3']

/-- The clone of the process, as `paging_clone_cow` describes it. -/
theorem oneProcess_cloned : ∃ s' dst lab', pagingCloneAddressSpace stackSpace 0x1000 = (s', dst) ∧
    dst ≠ 0 ∧ s'.allocFailed = false ∧ SpaceCloned stackSpace s' stackLabels lab' 0x1000 dst := by
  have hall := stackSpace_clone
  rcases stackSpace_tables.clone (Or.inr rfl) (show IsSpace stackLabels (0x1000 &&& lnot64 0xFFF) from rfl) with
    heq | ⟨s', dst, lab', heq, hne, hcloned⟩
  · rw [heq] at hall
    simp at hall
  · rw [heq] at hall
    exact ⟨s', dst, lab', heq, hne, hall, hcloned⟩

/-- When the clone is gone, the stack may be made writable again. -/
theorem paging_isolated_after_destroy : ∃ dst m,
    Executes (Guarded CowRespected Spaces.step) oneProcess
        [.clone 0x1000, .destroy dst, .markWritable 0x7FFFFFFFF000] m ∧
      Isolated (userView m.paging) m.live := by
  obtain ⟨s', dst, lab', hclone, hne, -, hcloned⟩ := oneProcess_cloned
  obtain ⟨-, halign, hlt⟩ := hcloned.ok.addr dst (by rw [hcloned.space]; simp)
  have hmask : dst &&& lnot64 0xFFF = dst := by
    rw [and_not_fff (by omega)]
    omega
  have hdst : dst ≠ 0x1000 := by
    rintro rfl
    exact absurd hcloned.fresh (by decide)
  have hpml4 : s'.pml4Table = 0x1000 := hcloned.pml4Table
  have hspace : IsSpace lab' (dst &&& lnot64 0xFFF) := by
    rw [hmask]
    exact hcloned.space
  obtain ⟨-, -, hpml4'⟩ := hcloned.ok.destroy hspace
  have hadded : (⟨s', dst :: [0x1000]⟩ : Spaces) =
      oneProcess.added (pagingCloneAddressSpace oneProcess.paging 0x1000) := by
    rw [oneProcess, Spaces.added, hclone, if_neg hne]
  have hlive : (dst :: [0x1000]).filter (· ≠ dst) = [0x1000] := by simp [hdst.symm]
  have hrun : Executes (Guarded CowRespected Spaces.step) oneProcess
      [.clone 0x1000, .destroy dst, .markWritable 0x7FFFFFFFF000]
      ⟨(pagingMarkWritable (pagingDestroyAddressSpace s' dst) 0x7FFFFFFFF000).1, [0x1000]⟩ := by
    have hdestroy : Guarded CowRespected Spaces.step ⟨s', dst :: [0x1000]⟩ (.destroy dst)
        ⟨pagingDestroyAddressSpace s' dst, [0x1000]⟩ := by
      refine ⟨?_, ?_, ?_⟩
      · rw [CowRespected, hmask, hpml4]
        exact hdst
      · rw [hmask]
        exact List.mem_cons_self
      · rw [hmask, hlive]
    refine .cons ⟨oneProcess_clone, by decide, hadded⟩ (.cons hdestroy
      (.cons ⟨?_, Or.inl (by decide), rfl⟩ (.nil _)))
    intro v f w _ _ r hr hroot
    obtain rfl : r = 0x1000 := by simpa using hr
    exact absurd (hpml4'.trans hpml4).symm hroot
  exact ⟨dst, _, hrun, paging_isolated ⟨_, oneProcess_ok⟩ oneProcess_isolated hrun⟩

/-- A write fault of the parent after a clone makes the shared stack writable, while the child
still maps it. -/
theorem paging_write_after_clone :
    Isolated (userView oneProcess.paging) oneProcess.live ∧
      ∃ m, Executes Spaces.step oneProcess [.clone 0x1000, .markWritable 0x7FFFFFFFF000] m ∧
        ∃ child ∈ m.live, child ≠ 0x1000 ∧ 0x1000 ∈ m.live ∧
          Writes (userView m.paging) 0x1000 0x800 ∧ Maps (userView m.paging) child 0x800 ∧
          ¬ Isolated (userView m.paging) m.live := by
  refine ⟨oneProcess_isolated, ?_⟩
  obtain ⟨s', dst, lab', hclone, hne, hall, hcloned⟩ := oneProcess_cloned
  have hdst : dst ≠ 0x1000 := by
    rintro rfl
    exact absurd hcloned.fresh (by decide)
  have hpml4 : s'.pml4Table = 0x1000 := hcloned.pml4Table
  have hroot : IsSpace lab' 0x1000 := hcloned.labels _ _ rfl
  -- Both sides have the page without write permission.
  have hstack : pageLookup stackSpace 0x1000 (ptIndex 0x7FFFFFFFF000) = some (0, 0x800007) := by
    decide +kernel
  obtain ⟨hchild, hparent⟩ := (hcloned.copied (ptIndex 0x7FFFFFFFF000) (by decide)).resolve_right
    (fun hgap => by rw [hall] at hgap; simp at hgap)
  rw [hstack, show cow (some (0, 0x800007)) = some (0, 0x800005) by decide] at hchild hparent
  rcases hcloned.ok.markWritable (by rw [hpml4]; exact hroot) 0x7FFFFFFFF000 (by decide)
    with ⟨-, hnone⟩ | ⟨l, e, -, -, hw, hleaf⟩
  · rw [hpml4, hparent] at hnone
    simp at hnone
  · obtain ⟨-, hlook⟩ := hleaf 0x7FFFFFFFF000 fun _ _ _ => rfl
    rw [hpml4, hparent] at hlook
    obtain ⟨rfl, rfl⟩ := Prod.mk.inj (Option.some.inj hlook)
    rw [hpml4] at hw
    have hwrites : Writes (userView (pagingMarkWritable s' 0x7FFFFFFFF000).1) 0x1000 0x800 := by
      refine ⟨0x7FFFFFFFF000, ?_⟩
      rw [userView_eq (by decide) (by decide), hw.hit _ fun _ _ _ => rfl]
      decide
    have hmaps : Maps (userView (pagingMarkWritable s' 0x7FFFFFFFF000).1) dst 0x800 := by
      refine ⟨0x7FFFFFFFF000, false, ?_⟩
      rw [userView_eq hne (by decide), hw.apart dst _ hdst hcloned.space (Or.inl (by decide)), hchild]
      decide
    have hadded : (⟨s', dst :: [0x1000]⟩ : Spaces) =
        oneProcess.added (pagingCloneAddressSpace oneProcess.paging 0x1000) := by
      rw [oneProcess, Spaces.added, hclone, if_neg hne]
    refine ⟨⟨_, dst :: [0x1000]⟩, .cons ⟨by decide, hadded⟩
      (.cons ⟨Or.inl (by decide), rfl⟩ (.nil _)), dst, by simp, hdst, by simp, hwrites, hmaps, ?_⟩
    exact fun hiso => hiso 0x1000 (by simp) dst (by simp) hdst.symm 0x800 hwrites hmaps

end BrightS
