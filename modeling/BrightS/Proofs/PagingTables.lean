/-
The page tables as radix trees.

Every page-table page gets a label: the address space it belongs to, or the kernel
for the tables of the kernel half, which all spaces share; its level; and the indexes
that lead to it.  `TablesOk` says that memory agrees with the labels and that no
labelled page is free.  A walk that creates tables links fresh pages one at a time,
and none of them changes a translation; what it changes last is the entry it returns.
-/
import BrightS.Lib.Radix
import BrightS.Proofs.PagingAlloc

namespace BrightS

open Radix Words

/-! ### Entries -/

theorem ptePresent_iff (e : Nat) : ptePresent e ↔ e % 2 = 1 := by
  rw [ptePresent, pteFlagPresent, Nat.and_one_is_mod]
  omega

theorem and_two_pow_ne_zero (e k : Nat) : e &&& 2 ^ k ≠ 0 ↔ e / 2 ^ k % 2 = 1 := by
  rw [Nat.and_two_pow, Nat.testBit_eq_decide_div_mod_eq]
  by_cases h : e / 2 ^ k % 2 = 1
  · simp [h]
  · simp [h]

theorem pteHuge_iff (e : Nat) : pteHuge e ↔ e / 128 % 2 = 1 := and_two_pow_ne_zero e 7

theorem pteWritable_iff (e : Nat) : pteWritable e ↔ e / 2 % 2 = 1 := and_two_pow_ne_zero e 1

theorem and_not_fff {x : Nat} (hx : x < 2 ^ 64) : x &&& lnot64 0xFFF = x / 4096 * 4096 :=
  and_lnot64_mask (k := 12) hx (by omega)

theorem and_not_1fffff {x : Nat} (hx : x < 2 ^ 64) :
    x &&& lnot64 0x1FFFFF = x / 0x200000 * 0x200000 :=
  and_lnot64_mask (k := 21) hx (by omega)

theorem pteAddr_eq {e : Nat} (he : e < 2 ^ 64) : pteAddr e = e / 4096 * 4096 := and_not_fff he

theorem readPte_lt (s : Paging) (t : Nat) (i : PtIndex) : readPte s t i < 2 ^ 64 := (s.mem t i).isLt

/-- An address and the flags below it do not overlap. -/
theorem or_eq_add {x f : Nat} (hx : x % 4096 = 0) (hf : f < 4096) : x ||| f = x + f := by
  have h := Nat.two_pow_add_eq_or_of_lt (i := 12) hf (x / 4096)
  rw [show 2 ^ 12 * (x / 4096) = x by omega] at h
  exact h.symm

/-- What an entry is on its level. -/
def pteSlot (level e : Nat) : Slot :=
  if ¬ ptePresent e then .absent
  else if pteHuge e ∨ level = 0 then .leaf
  else .table (pteAddr e)

theorem pteSlot_zero (level : Nat) : pteSlot level 0 = .absent := by
  unfold pteSlot
  rw [if_pos (by rw [ptePresent_iff]; decide)]

/-- The entry that links a new table. -/
theorem pteSlot_link {new : Nat} (halign : new % 4096 = 0) (hlt : new < 2 ^ 64) (level : Nat) :
    pteSlot (level + 1) (new ||| pteFlagPresent ||| pteFlagWritable) = .table new := by
  have he : new ||| pteFlagPresent ||| pteFlagWritable = new + 3 := by
    rw [Nat.or_assoc, or_eq_add halign (by decide)]
    rfl
  unfold pteSlot
  rw [he, if_neg (by rw [ptePresent_iff]; omega),
    if_neg (by rw [pteHuge_iff]; omega), pteAddr_eq (by omega)]
  congr 1
  omega

/-! ### Memory -/

theorem readPte_writePte (s : Paging) (t u : Nat) (i j : PtIndex) {e : Nat} (he : e < 2 ^ 64) :
    readPte (writePte s t i e) u j = if u = t ∧ j = i then e else readPte s u j := by
  unfold readPte writePte
  dsimp only
  by_cases hu : u = t
  · subst hu
    rw [Function.update_self]
    by_cases hj : j = i
    · subst hj
      rw [Function.update_self, if_pos ⟨rfl, rfl⟩, BitVec.toNat_ofNat, Nat.mod_eq_of_lt he]
    · rw [Function.update_of_ne hj, if_neg (fun h => hj h.2)]
  · rw [Function.update_of_ne hu, if_neg (fun h => hu h.1)]

theorem readPte_writePte_self (s : Paging) (t : Nat) (i : PtIndex) {e : Nat} (he : e < 2 ^ 64) :
    readPte (writePte s t i e) t i = e := by
  rw [readPte_writePte s t t i i he, if_pos ⟨rfl, rfl⟩]

theorem readPte_writePte_of_ne (s : Paging) {t u : Nat} {i j : PtIndex} {e : Nat}
    (h : u ≠ t ∨ j ≠ i) : readPte (writePte s t i e) u j = readPte s u j := by
  unfold readPte writePte
  dsimp only
  by_cases hu : u = t
  · subst hu
    rw [Function.update_self, Function.update_of_ne (h.resolve_left (fun hn => hn rfl))]
  · rw [Function.update_of_ne hu]

/-- Indexes do not depend on the offset in the page. -/
theorem ptIndex_eq (virt level : Nat) :
    (ptIndex virt level).val = virt / 2 ^ (12 + 9 * level) % 512 := by
  show (virt >>> ptShift level) % 512 = _
  rw [Nat.shiftRight_eq_div_pow, ptShift]

theorem ptIndex_congr {v w : Nat} (h : v / 4096 = w / 4096) : ptIndex v = ptIndex w := by
  funext level
  apply Fin.ext
  rw [ptIndex_eq, ptIndex_eq, Nat.pow_add, ← Nat.div_div_eq_div_mul, ← Nat.div_div_eq_div_mul,
    show 2 ^ 12 = 4096 from rfl, h]

/-! ### Labels -/

/-- Whose table a page is. -/
inductive Owner where
  | kernel
  | space (root : Nat)
  deriving DecidableEq

abbrev Labels := Nat → Option (Label PtIndex Owner)

/-- The upper half of the top table refers to the kernel's tables. -/
def childOwner (o : Owner) (level : Nat) (i : PtIndex) : Owner :=
  if level = ptLevelPml4 ∧ 256 ≤ i.val then .kernel else o

structure TablesOk (s : Paging) (lab : Labels) : Prop where
  labelled : Labelled pteSlot childOwner (readPte s) lab
  used : ∀ t, lab t ≠ none → ¬ AddrFree s.pm t
  addr : ∀ t, lab t ≠ none → t ≠ 0 ∧ t % 4096 = 0 ∧ t + 4096 ≤ 2 ^ 52
  pmem : PmemSane s.pm

/-- The labels of `lab` are those of `lab'` too. -/
def Extends (lab lab' : Labels) : Prop := ∀ t l, lab t = some l → lab' t = some l

theorem Extends.refl (lab : Labels) : Extends lab lab := fun _ _ h => h

theorem Extends.trans {lab lab' lab'' : Labels} (h : Extends lab lab') (h' : Extends lab' lab'') :
    Extends lab lab'' := fun t l ht => h' t l (h t l ht)

theorem Extends.ne_none {lab lab' : Labels} (h : Extends lab lab') {t : Nat} (ht : lab t ≠ none) :
    lab' t ≠ none := by
  obtain ⟨l, hl⟩ := Option.ne_none_iff_exists'.mp ht
  rw [h t l hl]
  simp

theorem extends_update {lab : Labels} {new : Nat} (hfresh : lab new = none)
    (l : Label PtIndex Owner) : Extends lab (Function.update lab new (some l)) := by
  intro t k hk
  rw [Function.update_of_ne, hk]
  rintro rfl
  rw [hfresh] at hk
  simp at hk

/-- Lookups from labelled pages are the same in both states. -/
def SameLookups (lab : Labels) (s s' : Paging) : Prop :=
  ∀ ix level t o path, lab t = some ⟨o, level, path⟩ →
    lookup pteSlot (readPte s') ix level t = lookup pteSlot (readPte s) ix level t

/-! ### Allocation -/

theorem TablesOk.of_eq {s s' : Paging} {lab : Labels} (h : TablesOk s lab) (hmem : s'.mem = s.mem)
    (hpm : s'.pm = s.pm) : TablesOk s' lab := by
  have hread : readPte s' = readPte s := by
    funext t i
    rw [readPte, readPte, hmem]
  exact ⟨by rw [hread]; exact h.labelled, by rw [hpm]; exact h.used, h.addr,
    by rw [hpm]; exact h.pmem⟩

/-- What a successful allocation of a table gives. -/
structure FreshTable (s s' : Paging) (lab : Labels) (new : Nat) : Prop where
  ok : TablesOk s' lab
  unlabelled : lab new = none
  addr : new ≠ 0 ∧ new % 4096 = 0 ∧ new + 4096 ≤ 2 ^ 52
  used : ¬ AddrFree s'.pm new
  empty : ∀ j, readPte s' new j = 0
  others : ∀ t j, t ≠ new → readPte s' t j = readPte s t j
  pml4Table : s'.pml4Table = s.pml4Table
  allocFailed : s'.allocFailed = s.allocFailed

/-- An allocation fails and changes nothing, or gives a fresh table. -/
theorem TablesOk.alloc {s : Paging} {lab : Labels} (h : TablesOk s lab) :
    ((allocPtPage s).2 = 0 ∧ (allocPtPage s).1 = { s with allocFailed := true }) ∨
      FreshTable s (allocPtPage s).1 lab (allocPtPage s).2 := by
  have hpage := pmemAllocPage_addr h.pmem
  obtain ⟨res, hres, hcases⟩ := allocPtPage_cases s
  rw [hres] at hpage
  rcases hpage with rfl | ⟨hfree, hne, halign, hlt, hsane, hrest⟩
  · obtain ⟨-, heq⟩ | ⟨hne, -⟩ := hcases
    · rw [heq]
      exact .inl ⟨rfl, rfl⟩
    · exact absurd rfl hne
  · right
    obtain ⟨hnone, -⟩ | ⟨-, heq⟩ := hcases
    · exact absurd hnone hne
    rw [heq]
    have hunl : lab res.2 = none := by
      by_contra hl
      exact h.used _ hl hfree
    have hothers : ∀ t, t ≠ res.2 → ∀ j,
        readPte { s with pm := res.1, mem := Function.update s.mem res.2 fun _ => 0 } t j =
          readPte s t j := by
      intro t ht j
      rw [readPte, readPte]
      dsimp only
      rw [Function.update_of_ne ht]
    have hnew : ∀ t, lab t ≠ none → t ≠ res.2 := by
      rintro t ht rfl
      exact ht hunl
    refine ⟨⟨⟨fun t o level path ht i p hp => ?_⟩, fun t ht hf => ?_, h.addr, hsane⟩, hunl,
      ⟨hne, halign, hlt⟩, fun hf => ((hrest _).mp hf).2 rfl, fun j => ?_,
      fun t j ht => hothers t ht j, rfl, rfl⟩
    · rw [hothers t (hnew t (by rw [ht]; simp))] at hp
      exact h.labelled.child t o level path ht i p hp
    · exact h.used t ht ((hrest t).mp hf).1
    · rw [readPte]
      dsimp only
      rw [Function.update_self]
      rfl

/-! ### Writing entries -/

section Write

variable {s s' : Paging} {lab : Labels} {t level : Nat} {o : Owner} {path : List PtIndex}
  {i : PtIndex}

theorem sameBut_writePte (lab : Labels) (s : Paging) (t : Nat) (i : PtIndex) (e : Nat) :
    SameBut lab (readPte s) (readPte (writePte s t i e)) t i :=
  fun _ _ _ h => readPte_writePte_of_ne s h

theorem TablesOk.write_leaf (h : TablesOk s lab) (ht : lab t = some ⟨o, level, path⟩) {e : Nat}
    (he : e < 2 ^ 64) (hleaf : ∀ p, pteSlot level e ≠ .table p) :
    TablesOk (writePte s t i e) lab := by
  refine ⟨h.labelled.write_leaf ht (sameBut_writePte lab s t i e) ?_, h.used, h.addr, h.pmem⟩
  rw [readPte_writePte_self s t i he]
  exact hleaf

/-- Linking a fresh table behind an absent entry. -/
theorem FreshTable.link {new : Nat} (hf : FreshTable s s' lab new)
    (hl : Labelled pteSlot childOwner (readPte s) lab) (ht : lab t = some ⟨o, level + 1, path⟩)
    (habsent : pteSlot (level + 1) (readPte s t i) = .absent) {e : Nat} (he : e < 2 ^ 64)
    (hlink : pteSlot (level + 1) e = .table new) :
    TablesOk (writePte s' t i e)
        (Function.update lab new (some ⟨childOwner o (level + 1) i, level, path ++ [i]⟩)) ∧
      SameLookups lab s (writePte s' t i e) := by
  have hne : ∀ u, lab u ≠ none → u ≠ new := by
    rintro u hu rfl
    exact hu hf.unlabelled
  have hsame : SameBut lab (readPte s) (readPte (writePte s' t i e)) t i := by
    intro u j hu hdiff
    rw [readPte_writePte_of_ne s' hdiff, hf.others u j (hne u hu)]
  have hlink' : pteSlot (level + 1) (readPte (writePte s' t i e) t i) = .table new := by
    rw [readPte_writePte_self s' t i he]
    exact hlink
  have hempty : ∀ j, pteSlot level (readPte (writePte s' t i e) new j) = .absent := by
    intro j
    have htn := hne t (by rw [ht]; simp)
    rw [readPte_writePte_of_ne s' (Or.inl htn.symm), hf.empty j, pteSlot_zero]
  refine ⟨⟨hl.link ht hf.unlabelled hsame hlink' hempty, fun u hu => ?_, fun u hu => ?_,
    hf.ok.pmem⟩, fun ix level₀ t₀ o₀ path₀ h₀ => ?_⟩
  · by_cases hun : u = new
    · rw [hun]
      exact hf.used
    · rw [Function.update_of_ne hun] at hu
      exact hf.ok.used u hu
  · by_cases hun : u = new
    · rw [hun]
      exact hf.addr
    · rw [Function.update_of_ne hun] at hu
      exact hf.ok.addr u hu
  · exact lookup_link hl ht hsame habsent hlink' hempty h₀

end Write

/-! ### The steps of a walk -/

section Walk

variable {s s' : Paging} {virt level t : Nat} {create stop : Bool}

theorem walkFrom_missing (h : walkEnsure s t (ptIndex virt level) create = (s', false)) :
    walkFrom virt create stop level s t = (s', none) := by
  cases level <;> rw [walkFrom, h] <;> rfl

theorem walkFrom_stop (h : walkEnsure s t (ptIndex virt level) create = (s', true))
    (hstop : (stop = true ∧ level = ptLevelPd) ∨ pteHuge (readPte s' t (ptIndex virt level)) ∨
      level = 0) :
    walkFrom virt create stop level s t = (s', some (t, ptIndex virt level)) := by
  cases level with
  | zero =>
      rw [walkFrom, h, if_neg (by simp)]
      split
      · rfl
      · split <;> rfl
  | succ level =>
      rw [walkFrom, h, if_neg (by simp)]
      split
      · rfl
      · rename_i hpd
        rw [if_pos ((hstop.resolve_left hpd).resolve_right (by omega))]

theorem walkFrom_down (h : walkEnsure s t (ptIndex virt (level + 1)) create = (s', true))
    (hpd : ¬ (stop = true ∧ level + 1 = ptLevelPd))
    (hhuge : ¬ pteHuge (readPte s' t (ptIndex virt (level + 1)))) :
    walkFrom virt create stop (level + 1) s t =
      walkFrom virt create stop level s' (pteAddr (readPte s' t (ptIndex virt (level + 1)))) := by
  rw [walkFrom, h, if_neg (by simp), if_neg hpd, if_neg hhuge]

theorem walkEnsure_present {i : PtIndex} (h : ptePresent (readPte s t i)) :
    walkEnsure s t i create = (s, true) := by
  rw [walkEnsure, if_pos h]

theorem walkEnsure_absent {i : PtIndex} (h : ¬ ptePresent (readPte s t i)) :
    walkEnsure s t i false = (s, false) := by
  rw [walkEnsure, if_neg h, if_pos rfl]

theorem walkEnsure_create {i : PtIndex} (h : ¬ ptePresent (readPte s t i)) :
    walkEnsure s t i true =
      if (allocPtPage s).2 = 0 then ((allocPtPage s).1, false)
      else (writePte (allocPtPage s).1 t i
        ((allocPtPage s).2 ||| pteFlagPresent ||| pteFlagWritable), true) := by
  rw [walkEnsure, if_neg h, if_neg (by simp)]

end Walk

theorem pteSlot_absent {e : Nat} (h : ¬ ptePresent e) (level : Nat) :
    pteSlot level e = .absent := by
  rw [pteSlot, if_pos h]

theorem pteSlot_leaf {e level : Nat} (h : ptePresent e) (hleaf : pteHuge e ∨ level = 0) :
    pteSlot level e = .leaf := by
  rw [pteSlot, if_neg (not_not_intro h), if_pos hleaf]

theorem pteSlot_lowest (e p : Nat) : pteSlot 0 e ≠ .table p := by
  by_cases h : ptePresent e
  · rw [pteSlot_leaf h (Or.inr rfl)]
    exact Slot.noConfusion
  · rw [pteSlot_absent h]
    exact Slot.noConfusion

theorem pteSlot_eq_leaf {e level : Nat} (h : pteSlot level e = .leaf) :
    ptePresent e ∧ (pteHuge e ∨ level = 0) := by
  unfold pteSlot at h
  split at h
  · exact Slot.noConfusion h
  · rename_i hp
    rw [not_not] at hp
    refine ⟨hp, ?_⟩
    by_contra hleaf
    rw [if_neg hleaf] at h
    exact Slot.noConfusion h

theorem pteSlot_table {e : Nat} (h : ptePresent e) (hh : ¬ pteHuge e) (level : Nat) :
    pteSlot (level + 1) e = .table (pteAddr e) := by
  rw [pteSlot, if_neg (not_not_intro h), if_neg (by simp [hh])]

theorem pteSlot_eq_table {e level p : Nat} (h : pteSlot level e = .table p) :
    ptePresent e ∧ ¬ pteHuge e ∧ pteAddr e = p := by
  unfold pteSlot at h
  split at h
  · exact Slot.noConfusion h
  · rename_i hp
    split at h
    · exact Slot.noConfusion h
    · rename_i hleaf
      exact ⟨not_not.mp hp, fun hh => hleaf (.inl hh), Slot.table.inj h⟩

/-- Without `create`, a walk finds the leaf the lookup finds and changes nothing. -/
theorem walkFrom_find (s : Paging) (virt : Nat) : ∀ level t,
    (walkFrom virt false false level s t = (s, none) ∧
        lookup pteSlot (readPte s) (ptIndex virt) level t = none) ∨
      ∃ l u, walkFrom virt false false level s t = (s, some (u, ptIndex virt l)) ∧
        lookup pteSlot (readPte s) (ptIndex virt) level t =
          some (l, readPte s u (ptIndex virt l)) ∧
        ptePresent (readPte s u (ptIndex virt l)) ∧
        Visits pteSlot (readPte s) (ptIndex virt) level t l u := by
  intro level
  induction level with
  | zero =>
      intro t
      by_cases hp : ptePresent (readPte s t (ptIndex virt 0))
      · refine Or.inr ⟨0, t, walkFrom_stop (walkEnsure_present hp) (by simp), ?_, hp, .here 0 t⟩
        rw [lookup, pteSlot_leaf hp (Or.inr rfl)]
      · refine Or.inl ⟨walkFrom_missing (walkEnsure_absent hp), ?_⟩
        rw [lookup, pteSlot_absent hp]
  | succ level ih =>
      intro t
      by_cases hp : ptePresent (readPte s t (ptIndex virt (level + 1)))
      · by_cases hh : pteHuge (readPte s t (ptIndex virt (level + 1)))
        · refine Or.inr ⟨level + 1, t,
            walkFrom_stop (walkEnsure_present hp) (Or.inr (Or.inl hh)), ?_, hp, .here _ t⟩
          rw [lookup, pteSlot_leaf hp (Or.inl hh)]
        · have hs := pteSlot_table hp hh level
          rw [walkFrom_down (walkEnsure_present hp) (by simp) hh, lookup, hs]
          refine (ih _).imp_right ?_
          rintro ⟨l, u, hwalk, hlook, hpres, hv⟩
          exact ⟨l, u, hwalk, hlook, hpres, .down hs hv⟩
      · refine Or.inl ⟨walkFrom_missing (walkEnsure_absent hp), ?_⟩
        rw [lookup, pteSlot_absent hp]

/-! ### Walking and creating -/

theorem link_lt {new : Nat} (h : new + 4096 ≤ 2 ^ 52) :
    new ||| pteFlagPresent ||| pteFlagWritable < 2 ^ 64 :=
  Nat.or_lt_two_pow (Nat.or_lt_two_pow (by omega) (by decide)) (by decide)

/-- Entries of labelled pages that were present are what they were. -/
def KeepsPresent (lab : Labels) (s s' : Paging) : Prop :=
  ∀ x j, lab x ≠ none → ptePresent (readPte s x j) → readPte s' x j = readPte s x j

/-- A missing entry that is filled from a fresh page touches nothing that was present. -/
theorem FreshTable.keepsPresent {s s' : Paging} {lab : Labels} {new t : Nat} {i : PtIndex}
    (hf : FreshTable s s' lab new) (hp : ¬ ptePresent (readPte s t i)) (e : Nat) :
    KeepsPresent lab s (writePte s' t i e) := by
  intro x j hx hpx
  have hne : x ≠ new := by
    rintro rfl
    exact hx hf.unlabelled
  rw [readPte_writePte_of_ne, hf.others x j hne]
  by_contra hsame
  rw [not_or, not_not, not_not] at hsame
  obtain ⟨rfl, rfl⟩ := hsame
  exact hp hpx

section Create

variable {s : Paging} {lab : Labels} {t level : Nat} {o : Owner} {path : List PtIndex}

theorem sameLookups_refl (lab : Labels) (s : Paging) : SameLookups lab s s :=
  fun _ _ _ _ _ _ => rfl

/-- The state after an allocation that failed. -/
theorem TablesOk.failed (h : TablesOk s lab) :
    TablesOk { s with allocFailed := true } lab ∧
      SameLookups lab s { s with allocFailed := true } :=
  ⟨h.of_eq rfl rfl, fun _ _ _ _ _ _ => rfl⟩

/-- Entry `i` of table `t` leads to a table that is new and empty. -/
structure LeadsToNew (s : Paging) (t : Nat) (i : PtIndex) (new : Nat) : Prop where
  entry : readPte s t i = new ||| pteFlagPresent ||| pteFlagWritable
  present : ptePresent (readPte s t i)
  notHuge : ¬ pteHuge (readPte s t i)
  addr : pteAddr (readPte s t i) = new
  empty : ∀ j, readPte s new j = 0

/-- A fresh table linked behind a missing entry. -/
theorem FreshTable.linkNew {s' : Paging} {new : Nat} {i : PtIndex} (hf : FreshTable s s' lab new)
    (h : TablesOk s lab) (ht : lab t = some ⟨o, level + 1, path⟩)
    (hp : ¬ ptePresent (readPte s t i)) :
    TablesOk (writePte s' t i (new ||| pteFlagPresent ||| pteFlagWritable))
        (Function.update lab new (some ⟨childOwner o (level + 1) i, level, path ++ [i]⟩)) ∧
      SameLookups lab s (writePte s' t i (new ||| pteFlagPresent ||| pteFlagWritable)) ∧
      LeadsToNew (writePte s' t i (new ||| pteFlagPresent ||| pteFlagWritable)) t i new := by
  obtain ⟨-, halign, hlt⟩ := hf.addr
  have hslot := pteSlot_link halign (by omega) level
  obtain ⟨hok, hsame⟩ := hf.link h.labelled ht (pteSlot_absent hp (level + 1)) (link_lt hlt) hslot
  have hread := readPte_writePte_self s' t i (link_lt hlt)
  rw [← hread] at hslot
  obtain ⟨hpresent, hnotHuge, haddr⟩ := pteSlot_eq_table hslot
  have htn : t ≠ new := by
    rintro rfl
    rw [hf.unlabelled] at ht
    exact absurd ht (by simp)
  refine ⟨hok, hsame, hread, hpresent, hnotHuge, haddr, fun j => ?_⟩
  rw [readPte_writePte_of_ne s' (.inl htn.symm), hf.empty]

/-- Where an entry is missing, the walk fails or takes a fresh page for it. -/
theorem TablesOk.ensure_missing (h : TablesOk s lab) {i : PtIndex}
    (hp : ¬ ptePresent (readPte s t i)) :
    walkEnsure s t i true = ({ s with allocFailed := true }, false) ∨
      ∃ s' new, FreshTable s s' lab new ∧ walkEnsure s t i true =
        (writePte s' t i (new ||| pteFlagPresent ||| pteFlagWritable), true) := by
  have hens := walkEnsure_create hp
  have halloc := h.alloc
  generalize allocPtPage s = res at halloc hens
  rcases halloc with ⟨hnull, heq⟩ | hfresh
  · rw [if_pos hnull, heq] at hens
    exact .inl hens
  · rw [if_neg hfresh.addr.1] at hens
    exact .inr ⟨res.1, res.2, hfresh, hens⟩

/-- Above the lowest level a missing table is linked, and no lookup changes. -/
theorem TablesOk.ensure_upper (h : TablesOk s lab) (ht : lab t = some ⟨o, level + 1, path⟩)
    (i : PtIndex) :
    walkEnsure s t i true = ({ s with allocFailed := true }, false) ∨
      ∃ s' lab', walkEnsure s t i true = (s', true) ∧ Extends lab lab' ∧ TablesOk s' lab' ∧
        SameLookups lab s s' ∧ KeepsPresent lab s s' ∧ s'.pml4Table = s.pml4Table ∧
        ptePresent (readPte s' t i) ∧ (pteHuge (readPte s' t i) → s' = s) := by
  by_cases hp : ptePresent (readPte s t i)
  · exact Or.inr ⟨s, lab, walkEnsure_present hp, .refl lab, h, sameLookups_refl lab s,
      fun _ _ _ _ => rfl, rfl, hp, fun _ => rfl⟩
  · rcases h.ensure_missing hp with hens | ⟨s', new, hfresh, hens⟩
    · exact .inl hens
    · obtain ⟨hok, hsame, hnew⟩ := hfresh.linkNew h ht hp
      exact .inr ⟨_, _, hens, extends_update hfresh.unlabelled _, hok, hsame,
        hfresh.keepsPresent hp _, hfresh.pml4Table, hnew.present,
        fun hhuge => absurd hhuge hnew.notHuge⟩

/-- On the lowest level a fresh page becomes the leaf. -/
theorem TablesOk.ensure_lowest (h : TablesOk s lab) (ht : lab t = some ⟨o, 0, path⟩)
    (i : PtIndex) :
    walkEnsure s t i true = ({ s with allocFailed := true }, false) ∨
      ∃ s', walkEnsure s t i true = (s', true) ∧ TablesOk s' lab ∧
        SameBut lab (readPte s) (readPte s') t i ∧ KeepsPresent lab s s' ∧
        s'.pml4Table = s.pml4Table := by
  by_cases hp : ptePresent (readPte s t i)
  · exact Or.inr ⟨s, walkEnsure_present hp, h, fun _ _ _ _ => rfl, fun _ _ _ _ => rfl, rfl⟩
  · rcases h.ensure_missing hp with hens | ⟨s', new, hfresh, hens⟩
    · exact .inl hens
    · obtain ⟨-, -, hlt⟩ := hfresh.addr
      refine .inr ⟨_, hens, hfresh.ok.write_leaf ht (link_lt hlt) (pteSlot_lowest _), ?_,
        hfresh.keepsPresent hp _, hfresh.pml4Table⟩
      intro u j hu hdiff
      rw [readPte_writePte_of_ne s' hdiff]
      refine hfresh.others u j ?_
      rintro rfl
      exact hu hfresh.unlabelled

/-- The place a creating walk returns: page `u` of level `l`.  Only lookups that come to its entry
may have changed, and the walk went down as far as it could. -/
structure WalkPlace (s s' : Paging) (lab lab' : Labels) (virt level t : Nat) (stop : Bool)
    (l u : Nat) : Prop where
  label : ∃ o path, lab' u = some ⟨o, l, path⟩
  visits : Visits pteSlot (readPte s') (ptIndex virt) level t l u
  last : l = 0 ∨ (stop = true ∧ l = ptLevelPd) ∨
    ∃ e, pteHuge e ∧ lookup pteSlot (readPte s) (ptIndex virt) level t = some (l, e)
  rest : ∀ ix level₀ t₀ o₀ path₀, lab t₀ = some ⟨o₀, level₀, path₀⟩ →
    ¬ (Visits pteSlot (readPte s') ix level₀ t₀ l u ∧ ix l = ptIndex virt l) →
      lookup pteSlot (readPte s') ix level₀ t₀ = lookup pteSlot (readPte s) ix level₀ t₀

/-- A creating walk leaves the tables in order; it fails without an effect on any translation,
or ends in a `WalkPlace`. -/
theorem TablesOk.walk_create (virt : Nat) (stop : Bool) : ∀ (level : Nat) {s : Paging}
    {lab : Labels} {t : Nat} {o : Owner} {path : List PtIndex}, TablesOk s lab →
    lab t = some ⟨o, level, path⟩ →
    ∃ s' lab', Extends lab lab' ∧ TablesOk s' lab' ∧ KeepsPresent lab s s' ∧
      s'.pml4Table = s.pml4Table ∧
      ((walkFrom virt true stop level s t = (s', none) ∧ SameLookups lab s s') ∨
        ∃ l u, walkFrom virt true stop level s t = (s', some (u, ptIndex virt l)) ∧
          WalkPlace s s' lab lab' virt level t stop l u) := by
  intro level
  induction level with
  | zero =>
      intro s lab t o path h ht
      rcases h.ensure_lowest ht (ptIndex virt 0) with hens | ⟨s', hens, hok, hsame, hkeep, hpml4⟩
      · exact ⟨_, lab, .refl lab, h.failed.1, fun _ _ _ _ => rfl, rfl,
          Or.inl ⟨walkFrom_missing hens, h.failed.2⟩⟩
      · refine ⟨s', lab, .refl lab, hok, hkeep, hpml4, Or.inr ⟨0, t, walkFrom_stop hens (by simp),
          ⟨o, path, ht⟩, .here 0 t, Or.inl rfl, fun ix level₀ t₀ o₀ path₀ h₀ hmiss => ?_⟩⟩
        refine lookup_write_miss h.labelled ht hsame h₀ fun hhit => hmiss ⟨?_, hhit.2⟩
        exact hhit.1.write h.labelled ht hsame h₀
  | succ level ih =>
      intro s lab t o path h ht
      rcases h.ensure_upper ht (ptIndex virt (level + 1)) with
        hens | ⟨s₁, lab₁, hens, hext, hok, hsame, hkeep, hpml4, hp, hhuge⟩
      · exact ⟨_, lab, .refl lab, h.failed.1, fun _ _ _ _ => rfl, rfl,
          Or.inl ⟨walkFrom_missing hens, h.failed.2⟩⟩
      · by_cases hpd : stop = true ∧ level + 1 = ptLevelPd
        · exact ⟨s₁, lab₁, hext, hok, hkeep, hpml4, Or.inr ⟨level + 1, t,
            walkFrom_stop hens (Or.inl hpd), ⟨o, path, hext t _ ht⟩, .here _ t,
            Or.inr (Or.inl hpd), fun ix level₀ t₀ o₀ path₀ h₀ _ => hsame ix level₀ t₀ o₀ path₀ h₀⟩⟩
        · by_cases hh : pteHuge (readPte s₁ t (ptIndex virt (level + 1)))
          · -- A huge entry was there before, since linked entries are not huge.
            obtain rfl := hhuge hh
            refine ⟨s₁, lab₁, hext, hok, hkeep, hpml4, Or.inr ⟨level + 1, t,
              walkFrom_stop hens (Or.inr (Or.inl hh)), ⟨o, path, hext t _ ht⟩, .here _ t,
              Or.inr (Or.inr ⟨_, hh, ?_⟩), fun ix level₀ t₀ o₀ path₀ h₀ _ => rfl⟩⟩
            rw [lookup, pteSlot_leaf hp (Or.inl hh)]
          · have hs := pteSlot_table hp hh level
            have ht₁ := hext t _ ht
            obtain ⟨level₁, heq, hlab⟩ := hok.labelled.child _ _ _ _ ht₁ _ _ hs
            obtain rfl := Nat.succ.inj heq
            obtain ⟨s', lab', hext', hok', hkeep', hpml4', hres⟩ := ih hok hlab
            rw [walkFrom_down hens hpd hh]
            refine ⟨s', lab', hext.trans hext', hok', fun x j hx hpx => ?_, hpml4'.trans hpml4, ?_⟩
            · have heq₁ := hkeep x j hx hpx
              rw [hkeep' x j (hext.ne_none hx) (by rw [heq₁]; exact hpx), heq₁]
            · rcases hres with ⟨hwalk, hsame'⟩ | ⟨l, u, hwalk, hplace⟩
              · refine Or.inl ⟨hwalk, fun ix level₀ t₀ o₀ path₀ h₀ => ?_⟩
                rw [hsame' ix level₀ t₀ o₀ path₀ (hext _ _ h₀), hsame ix level₀ t₀ o₀ path₀ h₀]
              · refine Or.inr ⟨l, u, hwalk, hplace.label, ?_, ?_, ?_⟩
                · refine .down ?_ hplace.visits
                  rw [hkeep' t _ (by rw [ht₁]; simp) hp]
                  exact hs
                · refine hplace.last.imp_right (Or.imp_right ?_)
                  rintro ⟨e, he, hlook⟩
                  refine ⟨e, he, ?_⟩
                  rw [← hsame _ _ t _ _ ht, lookup, hs]
                  exact hlook
                · intro ix level₀ t₀ o₀ path₀ h₀ hmiss
                  rw [hplace.rest ix level₀ t₀ o₀ path₀ (hext _ _ h₀) hmiss,
                    hsame ix level₀ t₀ o₀ path₀ h₀]

end Create

/-! ### One leaf changes -/

/-- The top table of an address space. -/
def IsSpace (lab : Labels) (r : Nat) : Prop := lab r = some ⟨.space r, ptLevelPml4, []⟩

/-- The indexes lead into the user half. -/
def UserHalf (ix : Nat → PtIndex) : Prop := (ix ptLevelPml4).val < 256

instance (ix : Nat → PtIndex) : Decidable (UserHalf ix) := inferInstanceAs (Decidable (_ < _))

/-- Whose pages these indexes lead through. -/
def halfOwner (root : Nat) (ix : Nat → PtIndex) : Owner :=
  if UserHalf ix then .space root else .kernel

theorem childOwner_root (root : Nat) (ix : Nat → PtIndex) :
    childOwner (.space root) ptLevelPml4 (ix ptLevelPml4) = halfOwner root ix := by
  unfold childOwner halfOwner
  by_cases hu : UserHalf ix
  · rw [if_pos hu, if_neg (fun hk => absurd hu (Nat.not_lt.mpr hk.2))]
  · rw [if_neg hu, if_pos ⟨rfl, Nat.not_lt.mp hu⟩]

/-- The leaf that a space has for these indexes. -/
def pageLookup (s : Paging) (r : Nat) (ix : Nat → PtIndex) : Option (Nat × Nat) :=
  lookup pteSlot (readPte s) ix ptLevelPml4 r

/-- The indexes agree from level `l` up. -/
def SameFrom (l : Nat) (ix jx : Nat → PtIndex) : Prop :=
  ∀ k, l ≤ k → k ≤ ptLevelPml4 → jx k = ix k

/-- In the space `root` the leaf for `ix` on level `l` is now `e`, and no other lookup changed,
except that the kernel half of other spaces may share it. -/
structure LeafWritten (s s' : Paging) (lab : Labels) (root : Nat) (ix : Nat → PtIndex)
    (l e : Nat) : Prop where
  level_le : l ≤ ptLevelPml4
  hit : ∀ jx, SameFrom l ix jx → pageLookup s' root jx = leafOf pteSlot l e
  miss : ∀ jx, ¬ SameFrom l ix jx → pageLookup s' root jx = pageLookup s root jx
  apart : ∀ r jx, r ≠ root → IsSpace lab r → UserHalf ix ∨ UserHalf jx →
    pageLookup s' r jx = pageLookup s r jx

section Leaf

variable {s s' : Paging} {lab lab' : Labels} {root l u : Nat} {ix jx : Nat → PtIndex}

/-- The pages a space visits are its own in the user half and the kernel's in the other, apart
from its top table. -/
theorem TablesOk.visits_owner (h : TablesOk s lab) (hr : IsSpace lab root)
    (hv : Visits pteSlot (readPte s) ix ptLevelPml4 root l u) :
    (u = root ∧ l = ptLevelPml4) ∨
      ∃ path, lab u = some ⟨halfOwner root ix, l, path⟩ := by
  cases hv with
  | here => exact Or.inl ⟨rfl, rfl⟩
  | @down level _ p _ _ hs hv =>
      right
      obtain ⟨level₁, heq, hp⟩ := h.labelled.child _ _ _ _ hr _ _ hs
      obtain rfl := Nat.succ.inj heq
      have hp' : lab p = some ⟨halfOwner root ix, 2, [ix ptLevelPml4]⟩ := by
        rw [← childOwner_root]
        exact hp
      refine hv.owner h.labelled (fun k hk => ?_) hp'
      unfold childOwner
      rw [if_neg]
      rintro ⟨rfl, -⟩
      exact absurd hk (by decide)

/-- Two spaces meet in a page only if both lookups go through the kernel half. -/
theorem TablesOk.visits_apart (h : TablesOk s lab) {r : Nat} (hroot : IsSpace lab root)
    (hr : IsSpace lab r) (hne : r ≠ root) (huser : UserHalf ix ∨ UserHalf jx)
    (hv : Visits pteSlot (readPte s) ix ptLevelPml4 root l u)
    (hw : Visits pteSlot (readPte s) jx ptLevelPml4 r l u) : False := by
  -- A page of the kernel half, or of another space, is no space's top table.
  have htop : ∀ {q r : Nat} {ix : Nat → PtIndex} {path : List PtIndex}, IsSpace lab q →
      lab q = some ⟨halfOwner r ix, l, path⟩ → r = q := by
    intro q r ix path hq hlab
    rw [IsSpace, hlab, Option.some.injEq, Label.mk.injEq, halfOwner] at hq
    split at hq
    · exact Owner.space.inj hq.1
    · exact Owner.noConfusion hq.1
  rcases h.visits_owner hroot hv with ⟨rfl, -⟩ | ⟨path, hlab⟩
  · rcases h.visits_owner hr hw with ⟨rfl, -⟩ | ⟨path', hlab'⟩
    · exact hne rfl
    · exact hne (htop hroot hlab')
  · rcases h.visits_owner hr hw with ⟨rfl, -⟩ | ⟨path', hlab'⟩
    · exact hne (htop hr hlab).symm
    · rw [hlab, Option.some.injEq, Label.mk.injEq, halfOwner, halfOwner] at hlab'
      have hown := hlab'.1
      by_cases hx : UserHalf ix <;> by_cases hy : UserHalf jx
      · rw [if_pos hx, if_pos hy] at hown
        exact hne (Owner.space.inj hown).symm
      · rw [if_pos hx, if_neg hy] at hown
        exact Owner.noConfusion hown
      · rw [if_neg hx, if_pos hy] at hown
        exact Owner.noConfusion hown
      · exact huser.elim hx hy

/-- Writing a leaf where a walk for `ix` led. -/
theorem TablesOk.leafWritten (hok : TablesOk s' lab') (hext : Extends lab lab')
    (hroot : IsSpace lab root) {o : Owner} {path : List PtIndex}
    (hu : lab' u = some ⟨o, l, path⟩) (hv : Visits pteSlot (readPte s') ix ptLevelPml4 root l u)
    (hrest : ∀ jx level₀ t₀ o₀ path₀, lab t₀ = some ⟨o₀, level₀, path₀⟩ →
      ¬ (Visits pteSlot (readPte s') jx level₀ t₀ l u ∧ jx l = ix l) →
        lookup pteSlot (readPte s') jx level₀ t₀ = lookup pteSlot (readPte s) jx level₀ t₀)
    {e : Nat} (he : e < 2 ^ 64) (hleaf : ∀ p, pteSlot l e ≠ .table p) :
    TablesOk (writePte s' u (ix l) e) lab' ∧
      LeafWritten s (writePte s' u (ix l) e) lab root ix l e := by
  have hroot' : IsSpace lab' root := hext _ _ hroot
  have hsame := sameBut_writePte lab' s' u (ix l) e
  have hread := readPte_writePte_self s' u (ix l) he
  have hmiss : ∀ jx r o₀ path₀, lab r = some ⟨o₀, ptLevelPml4, path₀⟩ →
      ¬ (Visits pteSlot (readPte s') jx ptLevelPml4 r l u ∧ jx l = ix l) →
        pageLookup (writePte s' u (ix l) e) r jx = pageLookup s r jx := by
    intro jx r o₀ path₀ hr hnot
    rw [pageLookup, lookup_write_miss hok.labelled hu hsame (hext _ _ hr) hnot,
      hrest jx _ r o₀ path₀ hr hnot]
    rfl
  have hl := hv.level_le
  refine ⟨hok.write_leaf hu he hleaf, hl, fun jx hjx => ?_, fun jx hjx => ?_,
    fun r jx hne hr huser => ?_⟩
  · rw [pageLookup, lookup_write_hit hok.labelled hsame (by rw [hread]; exact hleaf)
      (hv.of_agree fun k hk hk' => hjx k hk.le hk') (hjx l (le_refl _) hl) hroot', hread]
  · refine hmiss jx root _ _ hroot fun hhit => hjx fun k hk hk' => ?_
    rcases Nat.eq_or_lt_of_le hk with rfl | hlt
    · exact hhit.2
    · exact ((hv.agree hok.labelled hroot' hroot' hhit.1).2 k hlt hk').symm
  · refine hmiss jx r _ _ hr fun hhit => ?_
    exact hok.visits_apart hroot' (hext _ _ hr) hne huser hv hhit.1

end Leaf

end BrightS
