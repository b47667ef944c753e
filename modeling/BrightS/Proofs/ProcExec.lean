/-
The program that exec loads goes into another address space.

`brights_proc_exec` makes a new address space for the process and then runs the ELF loader,
which maps into the loaded space, the one of `pml4_table`.  The two are different pages.
Whatever the image contains, the loader's walks start at the loaded space and only go to
tables it refers to, to tables they add and, where a 2 MB page was mapped, into a page of the
image (`Confined`).  None of these is the new top table, so its user half stays empty and the
process is left without its segments and its stack.
-/
import BrightS.Kernel.ProcMem
import BrightS.Proofs.ElfBounds
import BrightS.Proofs.PagingIsolation
import BrightS.Proofs.ProcMem

namespace BrightS

open Bytes Loops Radix Words

-- Unfolding the search through the bitmap is never of use here.
attribute [local irreducible] pmemAllocPage elfMapPage

/-! ### Exec with the ELF loader -/

/-- The loader on an image, with the physical memory it finds. -/
def execLoad (img : ElfImage) (data : Mem) (s : Paging) : Paging × Option (Nat × Nat) :=
  let res := elfLoad img { paging := s, data := data, trace := [] }
  (res.1.paging, res.2.map fun info => (info.entry.toNat, info.stackTop))

/-- The value of `brights_proc_exec`. -/
def memExecValue (m : ProcMem) (load : Paging → Paging × Option (Nat × Nat)) : Int :=
  match procGetCurrent m.procs with
  | none => -1
  | some i =>
      if (m.procs.table i).isUser = false then -1 else
      let space := pagingCreateAddressSpace (pagingDestroyAddressSpace m.paging (m.procs.table i).cr3)
      if space.2 = 0 then -1 else
      if (load space.1).2.isSome then 0 else -1

/-- The top table that a value of `cr3` refers to. -/
def cr3Root (cr3 : Nat) : Nat := cr3 &&& lnot64 0xFFF

/-- The address lies in a segment that is loaded or in the user stack. -/
def ElfImage.UsesAddr (img : ElfImage) (v : Nat) : Prop :=
  (∃ i, i < img.ehdr.phnum.toNat ∧ (img.phdr i).type = ptLoad ∧ (img.phdr i).vaddr.toNat ≤ v ∧
      v < (img.phdr i).vaddr.toNat + (img.phdr i).memsz.toNat) ∨
    (elfStackBase ≤ v ∧ v < elfStackBase + userStackPages * 4096)

/-- The tables behind a root lead to a present page. -/
def TranslatesIn (s : Paging) (root v : Nat) : Prop :=
  ∃ t i, (walkPageTable (loadSpace s root) v false).2 = some (t, i) ∧ ptePresent (readPte s t i)

/-- Every address of the image and of the stack is present in the process's own address space,
and the other spaces of `live` translate as before. -/
def LoadsOwnSpace (m m' : ProcMem) (img : ElfImage) (live : List Nat) : Prop :=
  ∃ i, procGetCurrent m.procs = some i ∧
    (∀ v, img.UsesAddr v → TranslatesIn m'.paging (cr3Root (m'.procs.table i).cr3) v) ∧
    ∀ r ∈ live, r ≠ cr3Root (m.procs.table i).cr3 → r ≠ cr3Root (m'.procs.table i).cr3 →
      ∀ v, pageLookup m'.paging r (ptIndex v) = pageLookup m.paging r (ptIndex v)

/-! ### Where the walks of the loaded space go -/

/-- The walks of the loaded space only meet pages that `lev` gives a level, and `r` has none. -/
structure Confined (s : Paging) (r : Nat) (lev : Nat → Option Nat) : Prop where
  top : lev s.pml4Table = some ptLevelPml4
  below : ∀ t level i, lev t = some (level + 1) → ptePresent (readPte s t i) →
    ¬ pteHuge (readPte s t i) → lev (pteAddr (readPte s t i)) = some level
  small : ∀ t level i, lev t = some level → ptLevelPd < level → ptePresent (readPte s t i) →
    ¬ pteHuge (readPte s t i)
  away : lev r = none
  used : ∀ t, lev t ≠ none ∨ t = r → ¬ AddrFree s.pm t
  sane : PmemSane s.pm

/-- From one state to a later one: levels stay, no page in use becomes free or is given a level,
and the page `r` is not written. -/
structure Grows (r : Nat) (s s' : Paging) (lev lev' : Nat → Option Nat) : Prop where
  kept : ∀ t l, lev t = some l → lev' t = some l
  used : ∀ t, ¬ AddrFree s.pm t → ¬ AddrFree s'.pm t ∧ (lev t = none → lev' t = none)
  same : readPte s' r = readPte s r

theorem Grows.refl (r : Nat) (s : Paging) (lev : Nat → Option Nat) : Grows r s s lev lev :=
  ⟨fun _ _ h => h, fun _ h => ⟨h, id⟩, rfl⟩

theorem Grows.trans {r : Nat} {s s' s'' : Paging} {lev lev' lev'' : Nat → Option Nat}
    (h : Grows r s s' lev lev') (h' : Grows r s' s'' lev' lev'') : Grows r s s'' lev lev'' := by
  refine ⟨fun t l ht => h'.kept t l (h.kept t l ht), fun t ht => ?_, h'.same.trans h.same⟩
  obtain ⟨hused, hnone⟩ := h.used t ht
  obtain ⟨hused', hnone'⟩ := h'.used t hused
  exact ⟨hused', fun hl => hnone' (hnone hl)⟩

section Confined

variable {s s' : Paging} {r : Nat} {lev : Nat → Option Nat}

/-- The allocator may be called in between. -/
theorem Confined.alloc (h : Confined s r lev) :
    pmemAllocPage s.pm = (s.pm, 0) ∨ ∃ pm q, pmemAllocPage s.pm = (pm, q) ∧ q ≠ 0 ∧
      AddrFree s.pm q ∧ lev q = none ∧ q ≠ r ∧ q % 4096 = 0 ∧ q + 4096 ≤ 2 ^ 52 ∧ ¬ AddrFree pm q ∧
      (∀ t, ¬ AddrFree s.pm t → ¬ AddrFree pm t) ∧ PmemSane pm := by
  have haddr := pmemAllocPage_addr h.sane
  obtain ⟨res, hres⟩ : ∃ res, pmemAllocPage s.pm = res := ⟨_, rfl⟩
  rw [hres] at haddr ⊢
  obtain ⟨pm, q⟩ := res
  rcases haddr with hnone | ⟨hfree, hne, halign, hlt, hsane, hrest⟩
  · exact .inl hnone
  · refine .inr ⟨pm, q, rfl, hne, hfree, ?_, ?_, halign, hlt, fun hf => ((hrest q).mp hf).2 rfl,
      fun t ht hf => ht ((hrest t).mp hf).1, hsane⟩
    · by_contra hl
      exact h.used q (.inl hl) hfree
    · intro hqr
      exact h.used q (.inr hqr) hfree

/-- Only the allocator's state changes. -/
theorem Confined.of_pm (h : Confined s r lev) {pm : Pmem} (hsane : PmemSane pm)
    (hused : ∀ t, ¬ AddrFree s.pm t → ¬ AddrFree pm t) : Confined { s with pm := pm } r lev :=
  ⟨h.top, h.below, h.small, h.away, fun t ht => hused t (h.used t ht), hsane⟩

/-- One entry of a confined page is written. -/
theorem Confined.write (h : Confined s r lev) {t level : Nat} (ht : lev t = some level)
    (i : PtIndex) {e : Nat} (he : e < 2 ^ 64)
    (hbelow : ∀ l, level = l + 1 → ptePresent e → ¬ pteHuge e → lev (pteAddr e) = some l)
    (hsmall : ptLevelPd < level → ptePresent e → ¬ pteHuge e) :
    Confined (writePte s t i e) r lev ∧ Grows r s (writePte s t i e) lev lev := by
  have htr : t ≠ r := by
    rintro rfl
    rw [h.away] at ht
    simp at ht
  have hread : ∀ u j, (u = t ∧ j = i ∧ readPte (writePte s t i e) u j = e) ∨
      readPte (writePte s t i e) u j = readPte s u j := by
    intro u j
    by_cases hu : u = t
    · by_cases hj : j = i
      · exact .inl ⟨hu, hj, by rw [hu, hj, readPte_writePte_self s t i he]⟩
      · exact .inr (readPte_writePte_of_ne s (.inr hj))
    · exact .inr (readPte_writePte_of_ne s (.inl hu))
  refine ⟨⟨h.top, fun u l j hu hp hh => ?_, fun u l j hu hl hp => ?_, h.away, h.used, h.sane⟩,
    fun _ _ hl => hl, fun _ hu => ⟨hu, id⟩, ?_⟩
  · rcases hread u j with ⟨rfl, -, heq⟩ | heq
    · rw [heq] at hp hh ⊢
      rw [ht, Option.some.injEq] at hu
      exact hbelow l hu hp hh
    · rw [heq] at hp hh ⊢
      exact h.below u l j hu hp hh
  · rcases hread u j with ⟨rfl, -, heq⟩ | heq
    · rw [heq] at hp ⊢
      rw [ht, Option.some.injEq] at hu
      exact hsmall (by omega) hp
    · rw [heq] at hp ⊢
      exact h.small u l j hu hl hp
  · funext j
    exact readPte_writePte_of_ne s (.inl htr.symm)

/-- A page in use gets a level; what it holds must fit it. -/
theorem Confined.label (h : Confined s r lev) {q level : Nat} (hq : lev q = none) (hqr : q ≠ r)
    (hused : ¬ AddrFree s.pm q)
    (hfit : level = 0 ∨ ∀ j, readPte s q j = 0) :
    Confined s r (Function.update lev q (some level)) := by
  have hold : ∀ t l, lev t = some l → Function.update lev q (some level) t = some l := by
    intro t l ht
    rw [Function.update_of_ne, ht]
    rintro rfl
    rw [hq] at ht
    simp at ht
  have hzero : ∀ j, level ≠ 0 → ¬ ptePresent (readPte s q j) := by
    intro j hlevel
    rw [hfit.resolve_left hlevel j]
    decide
  refine ⟨hold _ _ h.top, fun t l i ht hp hh => ?_, fun t l i ht hl hp => ?_, ?_, fun t ht => ?_,
    h.sane⟩
  · by_cases htq : t = q
    · rw [htq] at ht hp
      rw [Function.update_self, Option.some.injEq] at ht
      exact absurd hp (hzero i (by omega))
    · rw [Function.update_of_ne htq] at ht
      exact hold _ _ (h.below t l i ht hp hh)
  · by_cases htq : t = q
    · rw [htq] at ht hp
      rw [Function.update_self, Option.some.injEq] at ht
      exact absurd hp (hzero i (by omega))
    · rw [Function.update_of_ne htq] at ht
      exact h.small t l i ht hl hp
  · rw [Function.update_of_ne hqr.symm]
    exact h.away
  · by_cases htq : t = q
    · rw [htq]
      exact hused
    · rw [Function.update_of_ne htq] at ht
      exact h.used t ht

/-- A new page of absent entries. -/
theorem Confined.allocPtPage (h : Confined s r lev) :
    ∃ s' q, allocPtPage s = (s', q) ∧ Confined s' r lev ∧ Grows r s s' lev lev ∧
      s'.pml4Table = s.pml4Table ∧ (q ≠ 0 → AddrFree s.pm q ∧ lev q = none ∧ q ≠ r ∧
        q % 4096 = 0 ∧ q + 4096 ≤ 2 ^ 52 ∧ ¬ AddrFree s'.pm q ∧ (∀ j, readPte s' q j = 0) ∧
        ∀ t j, t ≠ q → readPte s' t j = readPte s t j) := by
  unfold BrightS.allocPtPage
  rcases h.alloc with hnone | ⟨pm, q, hsome, hne, hfree, hlev, hqr, halign, hlt, hused, hkept, hsane⟩
  · rw [hnone]
    exact ⟨{ s with allocFailed := true }, 0, rfl, ⟨h.top, h.below, h.small, h.away, h.used, h.sane⟩,
      ⟨fun _ _ hl => hl, fun _ ht => ⟨ht, id⟩, rfl⟩, rfl, fun h0 => absurd rfl h0⟩
  · rw [hsome]
    dsimp only
    rw [if_neg hne]
    have hothers : ∀ t j, t ≠ q →
        readPte { s with pm := pm, mem := Function.update s.mem q fun _ => 0 } t j =
          readPte s t j := by
      intro t j ht
      rw [readPte, readPte]
      dsimp only
      rw [Function.update_of_ne ht]
    have hlabelled : ∀ t l, lev t = some l → t ≠ q := by
      rintro t l ht rfl
      rw [hlev] at ht
      simp at ht
    refine ⟨_, q, rfl, ⟨h.top, fun t l i ht hp hh => ?_, fun t l i ht hl hp => ?_, h.away,
      fun t ht => hkept t (h.used t ht), hsane⟩, ⟨fun _ _ hl => hl, fun t ht => ⟨hkept t ht, id⟩, ?_⟩,
      rfl, fun _ => ⟨hfree, hlev, hqr, halign, hlt, hused, fun j => ?_, hothers⟩⟩
    · rw [hothers t i (hlabelled t _ ht)] at hp hh ⊢
      exact h.below t l i ht hp hh
    · rw [hothers t i (hlabelled t _ ht)] at hp ⊢
      exact h.small t l i ht hl hp
    · funext j
      exact hothers r j hqr.symm
    · rw [readPte]
      dsimp only
      rw [Function.update_self]
      rfl

theorem Confined.ensure (h : Confined s r lev) {t level : Nat} (ht : lev t = some level)
    (i : PtIndex) :
    ∃ s' ok lev', walkEnsure s t i true = (s', ok) ∧ Confined s' r lev' ∧ Grows r s s' lev lev' ∧
      s'.pml4Table = s.pml4Table ∧ (ok = true → ptePresent (readPte s' t i)) := by
  by_cases hp : ptePresent (readPte s t i)
  · exact ⟨s, true, lev, walkEnsure_present hp, h, .refl r s lev, rfl, fun _ => hp⟩
  obtain ⟨s₁, q, halloc, h₁, hgrows, hpml4, hnew⟩ := h.allocPtPage
  unfold walkEnsure
  rw [if_neg hp, if_neg (by simp), halloc]
  dsimp only
  by_cases hq : q = 0
  · rw [if_pos hq]
    exact ⟨s₁, false, lev, rfl, h₁, hgrows, hpml4, fun hok => Bool.noConfusion hok⟩
  · rw [if_neg hq]
    obtain ⟨hfree, hlev, hqr, halign, hlt, hused, hzero, -⟩ := hnew hq
    have htq : t ≠ q := by
      rintro rfl
      rw [hlev] at ht
      simp at ht
    have he := link_lt hlt
    have heq : q ||| pteFlagPresent ||| pteFlagWritable = q + 3 := by
      rw [Nat.or_assoc, or_eq_add halign (by decide)]
      rfl
    have hpresent : ptePresent (readPte (writePte s₁ t i (q ||| pteFlagPresent ||| pteFlagWritable))
        t i) := by
      rw [readPte_writePte_self s₁ t i he, heq, ptePresent_iff]
      omega
    have hnothuge : ¬ pteHuge (q ||| pteFlagPresent ||| pteFlagWritable) := by
      rw [heq, pteHuge_iff]
      omega
    have haddr : pteAddr (q ||| pteFlagPresent ||| pteFlagWritable) = q := by
      rw [heq, pteAddr_eq (by omega)]
      omega
    -- The new table is one level below the entry; behind the lowest level it is no table at all.
    have hfit : level - 1 = 0 ∨ ∀ j, readPte s₁ q j = 0 := .inr hzero
    have h₂ := h₁.label hlev hqr hused hfit
    have ht₂ : Function.update lev q (some (level - 1)) t = some level := by
      rw [Function.update_of_ne htq, ht]
    obtain ⟨h₃, hgrows'⟩ := h₂.write ht₂ i he (fun l hl _ _ => by
      rw [haddr, Function.update_self, hl]
      rfl) (fun _ _ => hnothuge)
    refine ⟨_, true, _, rfl, h₃, ⟨fun u l hu => ?_, fun u hu => ⟨(hgrows.used u hu).1, fun hl => ?_⟩,
      hgrows'.same.trans hgrows.same⟩, hpml4, fun _ => hpresent⟩
    · rw [Function.update_of_ne, hu]
      rintro rfl
      rw [hlev] at hu
      simp at hu
    · rw [Function.update_of_ne, hl]
      rintro rfl
      exact hu hfree

/-- A walk ends in a confined page, on one of the two lowest levels. -/
theorem Confined.walk (virt : Nat) (level : Nat) : ∀ {s : Paging} {lev : Nat → Option Nat} {t : Nat},
    Confined s r lev → lev t = some level →
    ∃ s' res lev', walkFrom virt true false level s t = (s', res) ∧ Confined s' r lev' ∧
      Grows r s s' lev lev' ∧ s'.pml4Table = s.pml4Table ∧
      ∀ u i, res = some (u, i) → ∃ l, l ≤ ptLevelPd ∧ lev' u = some l := by
  induction level with
  | zero =>
      intro s lev t h ht
      obtain ⟨s', ok, lev', hens, h', hgrows, hpml4, -⟩ := h.ensure ht (ptIndex virt 0)
      cases ok with
      | false =>
          exact ⟨s', none, lev', walkFrom_missing hens, h', hgrows, hpml4, fun _ _ hres => by
            simp at hres⟩
      | true =>
          refine ⟨s', _, lev', walkFrom_stop hens (.inr (.inr rfl)), h', hgrows, hpml4,
            fun u i hres => ?_⟩
          rw [Option.some.injEq, Prod.mk.injEq] at hres
          rw [← hres.1]
          exact ⟨0, Nat.zero_le _, hgrows.kept t 0 ht⟩
  | succ level ih =>
      intro s lev t h ht
      obtain ⟨s₁, ok, lev₁, hens, h₁, hgrows, hpml4, hpresent⟩ :=
        h.ensure ht (ptIndex virt (level + 1))
      cases ok with
      | false =>
          exact ⟨s₁, none, lev₁, walkFrom_missing hens, h₁, hgrows, hpml4, fun _ _ hres => by
            simp at hres⟩
      | true =>
          have ht₁ := hgrows.kept t _ ht
          by_cases hh : pteHuge (readPte s₁ t (ptIndex virt (level + 1)))
          · have hlevel : level + 1 ≤ ptLevelPd := by
              by_contra hlt
              exact h₁.small t _ _ ht₁ (by omega) (hpresent rfl) hh
            refine ⟨s₁, _, lev₁, walkFrom_stop hens (.inr (.inl hh)), h₁, hgrows, hpml4,
              fun u i hres => ?_⟩
            rw [Option.some.injEq, Prod.mk.injEq] at hres
            rw [← hres.1]
            exact ⟨level + 1, hlevel, ht₁⟩
          · obtain ⟨s', res, lev', hwalk, h', hgrows', hpml4', hplace⟩ :=
              ih h₁ (h₁.below t level _ ht₁ (hpresent rfl) hh)
            refine ⟨s', res, lev', ?_, h', hgrows.trans hgrows', hpml4'.trans hpml4, hplace⟩
            rw [walkFrom_down hens (by simp) hh, hwalk]

/-- **A page of the image is mapped.**  The new entry refers to it; where the entry of a 2 MB page
was replaced, later walks take it for a table of the lowest level. -/
theorem Confined.map (h : Confined s r lev) {q : Nat} (virt : Nat) {flags : Nat}
    (hflags : flags < 128) (hlev : lev q = none) (hqr : q ≠ r) (hused : ¬ AddrFree s.pm q)
    (halign : q % 4096 = 0) (hlt : q + 4096 ≤ 2 ^ 52) :
    ∃ lev', Confined (pagingMap s virt q flags).1 r lev' ∧
      readPte (pagingMap s virt q flags).1 r = readPte s r := by
  unfold pagingMap
  by_cases h0 : s.pml4Table = 0
  · rw [if_pos h0]
    exact ⟨lev, h, rfl⟩
  rw [if_neg h0]
  dsimp only
  rw [walkPageTable_loaded h0]
  obtain ⟨s', res, lev', hwalk, h', hgrows, -, hplace⟩ := Confined.walk (virt &&& lnot64 0xFFF) _ h h.top
  rw [hwalk]
  rcases res with - | ⟨u, i⟩
  · exact ⟨lev', h', hgrows.same⟩
  dsimp only
  obtain ⟨l, hl, hu⟩ := hplace u i rfl
  obtain ⟨hused', hnone'⟩ := hgrows.used q hused
  have hlow : 1 ||| flags < 128 := Nat.or_lt_two_pow (n := 7) (by decide) hflags
  have heq : (q &&& lnot64 0xFFF) ||| pteFlagPresent ||| flags = q + (1 ||| flags) := by
    have hq : q / 4096 * 4096 = q := by omega
    rw [and_not_fff (by omega), hq, Nat.or_assoc, or_eq_add halign]
    · rfl
    · exact lt_of_lt_of_le hlow (by decide)
  rw [heq]
  have haddr : pteAddr (q + (1 ||| flags)) = q := by
    rw [pteAddr_eq (by omega)]
    omega
  have huq : u ≠ q := by
    rintro rfl
    rw [hnone' hlev] at hu
    simp at hu
  have hfit : 0 = 0 ∨ ∀ j, readPte s' q j = 0 := .inl rfl
  have h₁ := h'.label (hnone' hlev) hqr hused' hfit
  have hu₁ : Function.update lev' q (some 0) u = some l := by rw [Function.update_of_ne huq, hu]
  obtain ⟨h₂, hgrows'⟩ := h₁.write hu₁ i
    (e := q + (1 ||| flags)) (by omega) (fun l' hl' _ _ => by
      have hzero : l' = 0 := by
        have : ptLevelPd = 1 := rfl
        omega
      rw [haddr, Function.update_self, hzero]) (fun hbig => by omega)
  exact ⟨_, h₂, hgrows'.same.trans hgrows.same⟩

end Confined

/-! ### Loading an image -/

/-- The user half of the table `r` is empty, and no walk of the loaded space comes to it. -/
def HalfEmpty (r : Nat) (s : Paging) : Prop :=
  (∃ lev, Confined s r lev) ∧ ∀ j : PtIndex, j.val < 256 → readPte s r j = 0

section Load

variable {r : Nat} {st : ElfLoad}

theorem HalfEmpty.mapPage (h : HalfEmpty r st.paging) (va : Nat) {flags : Nat} (hflags : flags < 128)
    {fill : ElfLoad → Nat → ElfLoad} (hfill : Fills fill) :
    HalfEmpty r (elfMapPage st va flags fill).1.paging := by
  obtain ⟨⟨lev, hconf⟩, hempty⟩ := h
  obtain ⟨res, hres, hcases⟩ := elfMapPage_cases st va flags fill
  rcases hconf.alloc with hnone | ⟨pm, q, hsome, hne, -, hlev, hqr, halign, hlt, hused, hkept, hsane⟩
  · obtain rfl := hres.symm.trans hnone
    rcases hcases with ⟨-, heq⟩ | ⟨hne, -⟩
    · rw [heq]
      exact ⟨⟨lev, hconf⟩, hempty⟩
    · exact absurd rfl hne
  · obtain rfl := hres.symm.trans hsome
    rcases hcases with ⟨hnull, -⟩ | ⟨-, heq⟩
    · exact absurd hnull hne
    · have hpaging : (fill (st.fresh (pm, q)) q).paging = { st.paging with pm := pm } :=
        hfill.paging _ _
      rw [heq, hpaging]
      obtain ⟨lev', hconf', hsame⟩ :=
        (hconf.of_pm hsane hkept).map va hflags hlev hqr hused halign hlt
      refine ⟨⟨lev', hconf'⟩, fun j hj => ?_⟩
      show readPte (pagingMap _ _ _ _).1 r j = 0
      rw [hsame]
      exact hempty j hj

theorem pteFlags_small (ph : ElfPhdr) : ph.pteFlags < 128 := by
  unfold ElfPhdr.pteFlags
  split <;> decide

theorem HalfEmpty.segment (h : HalfEmpty r st.paging) (img : ElfImage) (ph : ElfPhdr) :
    HalfEmpty r (elfSegment img st ph).1.paging := by
  unfold elfSegment
  split_ifs
  · exact h
  · exact h
  · exact h
  · exact attempt_invariant (P := fun (st : ElfLoad) => HalfEmpty r st.paging) _ h
      fun st pg _ hst _ hres =>
        hres ▸ HalfEmpty.mapPage hst _ (pteFlags_small ph) (fills_elfFill img ph _)

theorem HalfEmpty.segments (h : HalfEmpty r st.paging) (img : ElfImage) :
    HalfEmpty r (elfSegments img st).1.paging := by
  unfold elfSegments
  refine attempt_invariant (P := fun (st : ElfLoad) => HalfEmpty r st.paging) _ ?_ ?_
  · rw [looks_paging]
    exact h
  · intro st i _ hst res hres
    have hlooked : HalfEmpty r (st.look img i).paging := hst
    rw [← hres]
    exact hlooked.segment img _

theorem HalfEmpty.mapPhdrs (h : HalfEmpty r st.paging) (img : ElfImage) :
    HalfEmpty r (elfMapPhdrs img st).1.paging :=
  HalfEmpty.mapPage h _ (by decide) (fills_copy img (fun page => page) (fun _ => img.phdrOff 0)
    fun _ => img.ehdr.phnum.toNat * elfPhdrSize)

theorem HalfEmpty.stack (h : HalfEmpty r st.paging) : HalfEmpty r (elfMapStack st).1.paging :=
  attempt_invariant (P := fun (st : ElfLoad) => HalfEmpty r st.paging) _ h fun _ _ _ hst _ hres =>
    have hflags : pteFlagPresent ||| pteFlagWritable ||| pteFlagUser < 128 := by decide
    hres ▸ HalfEmpty.mapPage hst _ hflags fills_same

/-- **The loader leaves the table alone**, whether the image is good or not. -/
theorem HalfEmpty.load (h : HalfEmpty r st.paging) (img : ElfImage) :
    HalfEmpty r (elfLoad img st).1.paging := by
  obtain ⟨-, heq⟩ | ⟨-, -, heq⟩ | ⟨-, -, segs, hdrs, stack, hsegs, hhdrs, hstack, hcases⟩ :=
    elfLoad_cases img st
  · rw [heq]
    exact h
  · rw [heq]
    exact h
  have hnoted : HalfEmpty r (st.note (.read 0 elfEhdrSize)).paging := h
  have hsegsHalf := hnoted.segments img
  rw [hsegs] at hsegsHalf
  have hhdrsHalf := hsegsHalf.mapPhdrs img
  rw [hhdrs] at hhdrsHalf
  have hstackHalf := hhdrsHalf.stack
  rw [hstack] at hstackHalf
  obtain ⟨-, heq⟩ | ⟨-, -, heq⟩ | ⟨-, -, -, heq⟩ | ⟨-, -, -, info, heq⟩ := hcases
  · rw [heq]
    exact hsegsHalf
  · rw [heq]
    exact hhdrsHalf
  · rw [heq]
    exact hstackHalf
  · rw [heq]
    exact hstackHalf

end Load

/-! ### Exec -/

/-- No table of a space refers to a page larger than 2 MB. -/
def NoLargerPages (s : Paging) (lab : Labels) : Prop :=
  ∀ t o level path i, lab t = some ⟨o, level, path⟩ → ptLevelPd < level →
    ptePresent (readPte s t i) → ¬ pteHuge (readPte s t i)

/-- The tables of all spaces are in order; the current process has a space that is not the loaded
one, or none yet. -/
def ExecReady (m : ProcMem) : Prop :=
  ∃ lab, TablesOk m.paging lab ∧ IsSpace lab m.paging.pml4Table ∧ NoLargerPages m.paging lab ∧
    ∀ i, procGetCurrent m.procs = some i → cr3Root (m.procs.table i).cr3 = 0 ∨
      (IsSpace lab (cr3Root (m.procs.table i).cr3) ∧
        cr3Root (m.procs.table i).cr3 ≠ m.paging.pml4Table)

/-- The space of the process is destroyed; the loaded one stays in order. -/
theorem exec_destroyed {s : Paging} {lab : Labels} (h : TablesOk s lab)
    (hloaded : IsSpace lab s.pml4Table) (hlarge : NoLargerPages s lab) {cr3 : Nat}
    (hown : cr3Root cr3 = 0 ∨ (IsSpace lab (cr3Root cr3) ∧ cr3Root cr3 ≠ s.pml4Table)) :
    ∃ s₁ lab₁, pagingDestroyAddressSpace s cr3 = s₁ ∧ TablesOk s₁ lab₁ ∧
      IsSpace lab₁ s₁.pml4Table ∧ NoLargerPages s₁ lab₁ := by
  rcases hown with hnull | ⟨hspace, hne⟩
  · refine ⟨s, lab, ?_, h, hloaded, hlarge⟩
    unfold pagingDestroyAddressSpace
    rw [show cr3 &&& lnot64 0xFFF = 0 from hnull]
    exact if_neg (not_not_intro rfl)
  · obtain ⟨hok, hread, hpml4⟩ := h.destroy hspace
    refine ⟨_, _, rfl, hok, ?_, fun t o level path i ht hl => ?_⟩
    · rw [hpml4]
      exact dropOwner_of_ne hloaded fun heq => hne (Owner.space.inj heq).symm
    · rw [hread]
      exact hlarge t o level path i (dropOwner_eq_some ht).1 hl

/-- The new space has an empty user half and is out of the reach of the loaded one. -/
theorem exec_created {s : Paging} {lab : Labels} (h : TablesOk s lab)
    (hloaded : IsSpace lab s.pml4Table) (hlarge : NoLargerPages s lab) :
    (pagingCreateAddressSpace s).2 = 0 ∨
      (cr3Root (pagingCreateAddressSpace s).2 = (pagingCreateAddressSpace s).2 ∧
        HalfEmpty (pagingCreateAddressSpace s).2 (pagingCreateAddressSpace s).1) := by
  have halloc := h.alloc
  obtain ⟨res, hres, ⟨-, heq⟩ | ⟨hne, heq⟩⟩ := pagingCreateAddressSpace_cases s
  · rw [heq]
    exact .inl rfl
  rw [heq]
  right
  rw [hres] at halloc
  have hfresh := halloc.resolve_left fun hnull => hne hnull.1
  obtain ⟨-, halign, hlt⟩ := hfresh.addr
  have hnew := hfresh.newSpace (.inr hloaded)
  generalize copyKernelHalf res.1 res.2 = s' at hnew
  generalize res.2 = new at hnew halign hlt
  dsimp only
  have hlabelled : ∀ t o l path, lab t = some ⟨o, l, path⟩ → t ≠ new := by
    rintro t o l path ht rfl
    rw [hnew.unlabelled] at ht
    simp at ht
  have hlevel : ∀ t l, (lab t).map Label.level = some l → ∃ o path, lab t = some ⟨o, l, path⟩ := by
    intro t l ht
    obtain ⟨k, hk, rfl⟩ := Option.map_eq_some_iff.mp ht
    exact ⟨k.owner, k.path, hk⟩
  refine ⟨?_, ⟨fun t => (lab t).map Label.level, ?_, fun t l i ht hp hh => ?_,
    fun t l i ht hl hp => ?_, ?_, fun t ht => ?_, hnew.ok.pmem⟩, hnew.empty⟩
  · rw [cr3Root, and_not_fff (by omega)]
    omega
  · rw [hnew.pml4Table, hloaded]
    rfl
  · obtain ⟨o, path, ht⟩ := hlevel t _ ht
    rw [hnew.others t i (hlabelled t o _ path ht)] at hp hh ⊢
    obtain ⟨l', heq, hchild⟩ := h.labelled.child t o _ path ht i _ (pteSlot_table hp hh l)
    obtain rfl := Nat.succ.inj heq
    rw [hchild]
    rfl
  · obtain ⟨o, path, ht⟩ := hlevel t _ ht
    rw [hnew.others t i (hlabelled t o _ path ht)] at hp ⊢
    exact hlarge t o l path i ht hl hp
  · rw [hnew.unlabelled]
    rfl
  · refine hnew.ok.used t ?_
    by_cases htn : t = new
    · rw [htn, Function.update_self]
      simp
    · rw [Function.update_of_ne htn]
      rcases ht with ht | ht
      · simpa using ht
      · exact absurd ht htn

/-- The state after an exec that succeeds. -/
theorem memExec_ok {m : ProcMem} {load : Paging → Paging × Option (Nat × Nat)} (cr3 : Nat) {i : Nat}
    (hcur : procGetCurrent m.procs = some i) (hvalue : memExecValue m load = 0) :
    ∃ space, pagingCreateAddressSpace (pagingDestroyAddressSpace m.paging (m.procs.table i).cr3) =
        space ∧ space.2 ≠ 0 ∧ (memExec m load cr3).paging = (load space.1).1 ∧
      ((memExec m load cr3).procs.table i).cr3 = space.2 := by
  refine ⟨_, rfl, ?_⟩
  unfold memExecValue at hvalue
  unfold memExec
  rw [hcur] at hvalue ⊢
  dsimp only at hvalue ⊢
  generalize pagingCreateAddressSpace _ = space at hvalue ⊢
  by_cases huser : (m.procs.table i).isUser = false
  · rw [if_pos huser] at hvalue
    simp at hvalue
  rw [if_neg huser] at hvalue ⊢
  by_cases hnull : space.2 = 0
  · rw [if_pos hnull] at hvalue
    simp at hvalue
  rw [if_neg hnull] at hvalue ⊢
  generalize load space.1 = loaded at hvalue ⊢
  obtain ⟨s, entry⟩ := loaded
  cases entry with
  | none => simp at hvalue
  | some entry =>
      refine ⟨hnull, rfl, ?_⟩
      unfold procExec
      rw [hcur]
      dsimp only
      rw [if_neg huser, if_neg hnull]
      simp [ProcTable.put]

/-- **Nothing is mapped in the user half of the new space.** -/
theorem exec_user_half_empty {m : ProcMem} (hready : ExecReady m) {img : ElfImage} {data : Mem}
    (hvalue : memExecValue m (execLoad img data) = 0) (cr3 : Nat) {i : Nat}
    (hcur : procGetCurrent m.procs = some i) {v : Nat} (hv : v < 2 ^ 47) :
    ¬ TranslatesIn (memExec m (execLoad img data) cr3).paging
      (cr3Root ((memExec m (execLoad img data) cr3).procs.table i).cr3) v := by
  obtain ⟨lab, h, hloaded, hlarge, hown⟩ := hready
  obtain ⟨s₁, lab₁, hs₁, h₁, hloaded₁, hlarge₁⟩ := exec_destroyed h hloaded hlarge (hown i hcur)
  obtain ⟨space, hspace, hne, hpaging, hcr3⟩ := memExec_ok cr3 hcur hvalue
  rw [hs₁] at hspace
  rw [hpaging, hcr3, ← hspace]
  rw [← hspace] at hne
  obtain ⟨hroot, hempty⟩ := (exec_created h₁ hloaded₁ hlarge₁).resolve_left hne
  rw [hroot]
  generalize pagingCreateAddressSpace s₁ = new at hne hempty
  have hfresh : HalfEmpty new.2 (ElfLoad.paging ⟨new.1, data, []⟩) := hempty
  have hafter : HalfEmpty new.2 (execLoad img data new.1).1 := hfresh.load img
  rintro ⟨t, i, hwalk, -⟩
  have hnone : (walkPageTable (loadSpace (execLoad img data new.1).1 new.2) v false).2 = none := by
    rw [walk_none_iff (s := loadSpace _ new.2) hne]
    show pageLookup (execLoad img data new.1).1 new.2 (ptIndex v) = none
    rw [pageLookup, lookup, hafter.2 _ (userHalf_ptIndex hv), pteSlot_zero]
  rw [hnone] at hwalk
  simp at hwalk

/--
**Exec never loads into the process's own space.**  Whatever the image, when exec succeeds the
process is left in an address space that has neither its segments nor its stack.
-/
theorem exec_loads_elsewhere {m : ProcMem} (hready : ExecReady m) {img : ElfImage} {data : Mem}
    (hvalue : memExecValue m (execLoad img data) = 0) (cr3 : Nat) (live : List Nat) :
    ¬ LoadsOwnSpace m (memExec m (execLoad img data) cr3) img live := by
  rintro ⟨i, hcur, hall, -⟩
  have hstack : img.UsesAddr elfStackBase := .inr ⟨le_refl _, by decide⟩
  exact exec_user_half_empty hready hvalue cr3 hcur (by decide) (hall _ hstack)

/-- A user process with an empty space of its own at `0x2000`; the loaded space is at `0x1000`. -/
def execMachine : ProcMem where
  procs :=
    { blankProcs with
      table := fun i => { blankProcs.table i with
        pid := 1, state := .running, isUser := true, cr3 := 0x2000 }
      pidToIndex := fun _ => 0
      currentPid := 1 }
  paging := roomyMachine.paging

theorem execMachine_ready : ExecReady execMachine := by
  have hzero : ∀ t i, readPte execMachine.paging t i = 0 := fun _ _ => rfl
  have hbase : execMachine.paging.pm.base = 0x100000 := rfl
  have hlab : ∀ t, (if t = 0x1000 ∨ t = 0x2000 then some ⟨.space t, ptLevelPml4, []⟩ else none :
      Option (Label PtIndex Owner)) ≠ none → t = 0x1000 ∨ t = 0x2000 := by
    intro t ht
    by_contra hnot
    rw [if_neg hnot] at ht
    exact ht rfl
  refine ⟨fun t => if t = 0x1000 ∨ t = 0x2000 then some ⟨.space t, ptLevelPml4, []⟩ else none,
    ⟨⟨fun t o level path _ i p hp => ?_⟩, fun t ht => ?_, fun t ht => ?_, roomyPmem_sane⟩, rfl,
    fun t o level path i _ _ hp => ?_, fun i _ => .inr ?_⟩
  · rw [hzero, pteSlot_zero] at hp
    exact Slot.noConfusion hp
  · rintro ⟨j, -, heq⟩
    rcases hlab t ht with rfl | rfl <;> omega
  · rcases hlab t ht with rfl | rfl <;> decide
  · rw [hzero] at hp
    exact absurd rfl hp
  · have hroot : cr3Root (execMachine.procs.table i).cr3 = 0x2000 := by
      rw [show (execMachine.procs.table i).cr3 = 0x2000 from rfl]
      decide
    rw [hroot]
    exact ⟨rfl, by decide⟩

/-- The space at `0x2000` has no tables below it, and its page is not the allocator's. -/
theorem execMachine_destroyed :
    pagingDestroyAddressSpace execMachine.paging 0x2000 = execMachine.paging := by
  have hpages : ptTreePages execMachine.paging ptLevelPml4 256 0x2000 = [0x2000] := by
    rw [show ptLevelPml4 = 2 + 1 from rfl, ptTreePages]
    have habsent : ∀ t i, ¬ ptePresent (readPte execMachine.paging t i) := by
      intro t i
      rw [show readPte execMachine.paging t i = 0 from rfl]
      decide
    simp [habsent]
  unfold pagingDestroyAddressSpace
  rw [show (0x2000 : Nat) &&& lnot64 0xFFF = 0x2000 by decide]
  dsimp only
  rw [if_pos (by decide), freePtTree_eq, hpages]
  rfl

theorem execMachine_succeeds (data : Mem) :
    memExecValue execMachine (execLoad smallImage data) = 0 := by
  have hpages : smallImage.pagesUsed = 18 := smallImage_read.2.1
  have hroom := roomyMachine_room
  have hfree : 125 ≤ freePageCount execMachine.paging.pm := hroom.pages
  have hspace := allocPtPage_ok (s := execMachine.paging) hroom.sane (by omega)
  have htaken := allocPtPage_taken execMachine.paging
  have hcount := htaken.count
  have hcur : procGetCurrent execMachine.procs = some 0 := by decide
  unfold memExecValue
  rw [hcur]
  dsimp only
  rw [if_neg (by decide), show (execMachine.procs.table 0).cr3 = 0x2000 from rfl,
    execMachine_destroyed]
  unfold pagingCreateAddressSpace
  dsimp only
  have hpml4 := allocPtPage_pml4 execMachine.paging
  generalize allocPtPage execMachine.paging = res at hspace htaken hcount hpml4
  rw [if_neg hspace]
  dsimp only
  rw [if_neg hspace]
  have hroom' : RoomFor smallImage.pagesUsed
      { paging := copyKernelHalf res.1 res.2, data := data, trace := [] } := by
    have hcopy : (copyKernelHalf res.1 res.2).pm = res.1.pm ∧
        (copyKernelHalf res.1 res.2).pml4Table = res.1.pml4Table := by
      unfold copyKernelHalf
      split <;> exact ⟨rfl, rfl⟩
    refine ⟨?_, ?_, ?_⟩
    · rw [hcopy.2, hpml4]
      decide
    · rw [hcopy.1]
      exact htaken.sane hroom.sane
    · rw [hcopy.1, hpages]
      omega
  obtain ⟨st', info, hload⟩ := elfLoad_succeeds hroom' (by decide) smallImage_valid
    smallImage_checked
  rw [execLoad, hload]
  rfl

theorem exec_loads_elsewhere_small :
    ¬ LoadsOwnSpace execMachine (memExec execMachine (execLoad smallImage fun _ => 0) 0)
      smallImage [] :=
  exec_loads_elsewhere execMachine_ready (execMachine_succeeds _) 0 []

/-- After an exec that succeeded, the process's own tables do not lead to its stack. -/
theorem exec_stack_not_mapped :
    ¬ ∀ (m : ProcMem) (img : ElfImage) (data : Mem) (cr3 : Nat) (live : List Nat), ExecReady m →
      memExecValue m (execLoad img data) = 0 →
        LoadsOwnSpace m (memExec m (execLoad img data) cr3) img live := by
  intro hall
  have hvalue := execMachine_succeeds fun _ => 0
  obtain ⟨i, hcur, haddr, -⟩ := hall execMachine smallImage (fun _ => 0) 0 [] execMachine_ready hvalue
  exact exec_user_half_empty execMachine_ready hvalue 0 hcur (by decide)
    (haddr elfStackBase (.inr ⟨le_refl _, by decide⟩))

end BrightS
