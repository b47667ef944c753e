/-
Cloning an address space and destroying the clone.

The clone allocates a page for its top table and one for every table it copies; whatever it
could not allocate is absent from the copy.  So the pages it took are the tables of the clone's
user half (`cloneTable_takes`, by induction on the level and then on the entries), which is what
the destruction walks through.  `Takes` says which pages the allocator has handed out between
two states, and giving them back restores what it had.
-/
import BrightS.Proofs.PagingClone
import BrightS.Proofs.PmemCount
import BrightS.Proofs.ProcMem

namespace BrightS

open Radix Words

attribute [local irreducible] pmemAllocPage

/-! ### Pages that were handed out -/

/-- The pages `xs` were handed out, each once, and nothing else has changed. -/
structure Takes (pm pm' : Pmem) (xs : List Nat) : Prop where
  nodup : xs.Nodup
  fresh : ∀ x ∈ xs, AddrFree pm x
  free : ∀ x, AddrFree pm' x ↔ AddrFree pm x ∧ x ∉ xs
  base : pm'.base = pm.base
  sane : PmemSane pm'
  count : (pm'.freePages + xs.length) % 2 ^ 64 = pm.freePages % 2 ^ 64
  word : pm.freePages < 2 ^ 64 → pm'.freePages < 2 ^ 64

namespace Takes

variable {pm pm' pm'' : Pmem} {xs ys : List Nat}

theorem nil (h : PmemSane pm) : Takes pm pm [] :=
  ⟨List.nodup_nil, by simp, by simp, rfl, h, rfl, id⟩

theorem trans (h : Takes pm pm' xs) (h' : Takes pm' pm'' ys) : Takes pm pm'' (xs ++ ys) := by
  have hfresh : ∀ y ∈ ys, AddrFree pm y ∧ y ∉ xs := fun y hy => (h.free y).mp (h'.fresh y hy)
  refine ⟨?_, ?_, fun x => ?_, h'.base.trans h.base, h'.sane, ?_, fun hlt => h'.word (h.word hlt)⟩
  · exact List.nodup_append'.mpr ⟨h.nodup, h'.nodup, fun x hx hy => (hfresh x hy).2 hx⟩
  · intro x hx
    rcases List.mem_append.mp hx with hx | hx
    · exact h.fresh x hx
    · exact (hfresh x hx).1
  · rw [h'.free, h.free, List.mem_append, not_or, and_assoc]
  · have hcount := h.count
    have hcount' := h'.count
    rw [List.length_append]
    omega

theorem perm (h : Takes pm pm' xs) (hperm : xs.Perm ys) : Takes pm pm' ys :=
  ⟨hperm.nodup_iff.mp h.nodup, fun x hx => h.fresh x (hperm.mem_iff.mpr hx),
    fun x => by rw [h.free, hperm.mem_iff], h.base, h.sane, by rw [← hperm.length_eq]; exact h.count,
    h.word⟩

theorem held (h : Takes pm pm' xs) (hsane : PmemSane pm) : ∀ x ∈ xs, PageHeld pm' x := by
  intro x hx
  refine ⟨?_, fun hfree => ((h.free x).mp hfree).2 hx⟩
  unfold Managed
  rw [h.base]
  exact (h.fresh x hx).managed hsane

end Takes

/-- An allocation fails without an effect or takes one page. -/
theorem pmemAllocPage_takes {pm : Pmem} (h : PmemSane pm) :
    pmemAllocPage pm = (pm, 0) ∨ Takes pm (pmemAllocPage pm).1 [(pmemAllocPage pm).2] := by
  have hbase := pmemAllocPage_base pm
  rcases pmemAllocPage_freePages pm with hnone | hcount
  · exact .inl hnone
  rcases pmemAllocPage_addr h with hnone | ⟨hfree, -, -, -, hsane, hrest⟩
  · exact .inl hnone
  refine .inr ⟨List.nodup_singleton _, ?_, fun x => ?_, hbase, hsane, ?_, fun _ => ?_⟩
  · intro x hx
    rw [List.mem_singleton.mp hx]
    exact hfree
  · rw [hrest, List.mem_singleton]
  · rw [hcount, List.length_singleton, sub64]
    omega
  · rw [hcount, sub64]
    exact Nat.mod_lt _ (by decide)

theorem allocPtPage_takes {s : Paging} (h : PmemSane s.pm) :
    (allocPtPage s).2 = 0 ∨ Takes s.pm (allocPtPage s).1.pm [(allocPtPage s).2] := by
  have hpage := pmemAllocPage_takes h
  obtain ⟨res, hres, hcases⟩ := allocPtPage_cases s
  rw [hres] at hpage
  obtain ⟨-, heq⟩ | ⟨hne, heq⟩ := hcases
  · rw [heq]
    exact .inl rfl
  · rw [heq]
    rcases hpage with rfl | htaken
    · exact absurd rfl hne
    · exact .inr htaken

theorem pmemFreePage_count {pm : Pmem} {x : Nat} (h : PmemSane pm) (hx : PageHeld pm x) :
    (pmemFreePage pm x).freePages = (pm.freePages + 1) % 2 ^ 64 := by
  obtain ⟨⟨i, hi, rfl, hbelow⟩, hused⟩ := hx
  have hpos := h.pos
  have hps : pageSize = 4096 := rfl
  have hset : bitmapTest pm i = true := by
    by_contra hclear
    rw [Bool.not_eq_true] at hclear
    exact hused ⟨i, ⟨hi, hclear⟩, rfl⟩
  unfold pmemFreePage
  rw [if_neg (by omega), if_neg (by omega)]
  dsimp only
  rw [pageIdx_addr pm i (by omega), if_neg (by omega), if_pos hset]

/-- What was taken and is given back was never gone. -/
theorem Takes.give {pm pm' : Pmem} {xs : List Nat} (h : Takes pm pm' xs) (hsane : PmemSane pm)
    (hword : pm.freePages < 2 ^ 64) :
    (∀ x, AddrFree (xs.foldl pmemFreePage pm') x ↔ AddrFree pm x) ∧
      (xs.foldl pmemFreePage pm').freePages = pm.freePages := by
  have hheld := h.held hsane
  refine ⟨fun x => ?_, ?_⟩
  · rw [(pmemFreePages_held xs h.sane h.nodup hheld).2.1, h.free]
    constructor
    · rintro (⟨hx, -⟩ | hx)
      · exact hx
      · exact h.fresh x hx
    · intro hx
      by_cases hin : x ∈ xs
      · exact .inr hin
      · exact .inl ⟨hx, hin⟩
  · have hcount : ∀ (ys : List Nat) {pm : Pmem}, PmemSane pm → ys.Nodup →
        (∀ y ∈ ys, PageHeld pm y) → pm.freePages < 2 ^ 64 →
          (ys.foldl pmemFreePage pm).freePages = (pm.freePages + ys.length) % 2 ^ 64 := by
      intro ys
      induction ys with
      | nil => exact fun _ _ _ hlt => (Nat.mod_eq_of_lt hlt).symm
      | cons y rest ih =>
          intro pm hsane hnodup hheld hlt
          obtain ⟨hnot, hrest⟩ := List.nodup_cons.mp hnodup
          obtain ⟨hsane', -, hkeep⟩ := pmemFreePage_held hsane (hheld y (by simp))
          have hone := pmemFreePage_count hsane (hheld y (by simp))
          have hlast := ih hsane' hrest (fun z hz =>
            hkeep z (fun heq => hnot (heq ▸ hz)) (hheld z (by simp [hz]))) (by rw [hone]; omega)
          rw [List.foldl_cons, hlast, hone, List.length_cons]
          omega
    have hcount' := h.count
    rw [hcount xs h.sane h.nodup hheld (h.word hword), hcount']
    exact Nat.mod_eq_of_lt hword

/-! ### The tables of a copy -/

/-- The tables behind one entry. -/
def entryPages (s : Paging) (level t : Nat) (i : PtIndex) : List Nat :=
  let e := readPte s t i
  if ¬ ptePresent e then [] else
  if pteHuge e then [] else ptTreePages s level 512 (pteAddr e)

/-- The tables below a table, behind its first `n` entries. -/
def pagesBelow (s : Paging) : Nat → Nat → Nat → List Nat
  | 0, _, _ => []
  | level + 1, n, t => (ptIndexes n).flatMap (entryPages s level t)

theorem ptTreePages_below (s : Paging) (level n t : Nat) :
    ptTreePages s level n t = pagesBelow s level n t ++ [t] := by
  cases level <;> rfl

section Copy

variable {level src dst : Nat} {o d : Owner} {path : List PtIndex} {s s' : Paging}
  {lab lab' : Labels}

theorem childOwner_below {l : Nat} (hl : l < ptLevelPml4) (q : Owner) (i : PtIndex) :
    childOwner q l i = q := by
  unfold childOwner
  rw [if_neg fun htop => by omega]

/-- A tree whose tables are not written is the same tree. -/
theorem ptTreePages_kept (h : TablesOk s lab)
    (hsame : ∀ t l path', lab t = some ⟨d, l + 1, path'⟩ → path <+: path' →
      ∀ j, readPte s' t j = readPte s t j) :
    ∀ {level t : Nat} {path'}, level < ptLevelPml4 → lab t = some ⟨d, level, path'⟩ →
      path <+: path' → ptTreePages s' level 512 t = ptTreePages s level 512 t := by
  intro level
  induction level with
  | zero => exact fun _ _ _ => rfl
  | succ level ih =>
      intro t path' hl ht hpre
      have hentry : entryPages s' level t = entryPages s level t := by
        funext i
        unfold entryPages
        dsimp only
        rw [hsame t _ path' ht hpre i]
        by_cases hp : ptePresent (readPte s t i)
        · by_cases hh : pteHuge (readPte s t i)
          · rw [if_pos hh, if_pos hh]
          · obtain ⟨level₁, heq, hchild⟩ :=
              h.labelled.child t d _ path' ht i _ (pteSlot_table hp hh level)
            obtain rfl := Nat.succ.inj heq
            rw [childOwner_below hl] at hchild
            rw [if_neg hh, if_neg hh, ih (by omega) hchild (hpre.trans (List.prefix_append ..))]
        · rw [if_pos hp, if_pos hp]
      rw [ptTreePages_below, ptTreePages_below, pagesBelow, pagesBelow, hentry]

/-- What one entry of the copy leads to is not touched while other entries are copied. -/
theorem entryPages_kept (h : TablesOk s lab) (hl : level < ptLevelPml4) (hod : o ≠ d)
    (hdst : lab dst = some ⟨d, level + 1, path⟩) {i : PtIndex}
    (hown : childOwner d (level + 1) i = d) {done : PtIndex → Prop}
    (hcloned : Cloned (level + 1) src dst o path s s' lab lab' done) (hi : ¬ done i) :
    entryPages s' level dst i = entryPages s level dst i := by
  unfold entryPages
  dsimp only
  rw [hcloned.rest i hi]
  by_cases hp : ptePresent (readPte s dst i)
  · by_cases hh : pteHuge (readPte s dst i)
    · rw [if_pos hh, if_pos hh]
    · obtain ⟨level₁, heq, hchild⟩ :=
        h.labelled.child dst d _ path hdst i _ (pteSlot_table hp hh level)
      obtain rfl := Nat.succ.inj heq
      rw [hown] at hchild
      rw [if_neg hh, if_neg hh]
      congr 1
      have hself : path ++ [i] <+: path ++ [i] := ⟨[], List.append_nil _⟩
      refine ptTreePages_kept h (fun t l path' ht hpre j => ?_) hl hchild hself
      refine hcloned.others t d (l + 1) path' ht ?_ (fun hin => hod hin.1.symm) j
      rintro rfl
      rw [hdst, Option.some.injEq, Label.mk.injEq] at ht
      have := hpre.length_le
      rw [← ht.2.2] at this
      simp at this
  · rw [if_pos hp, if_pos hp]

/-- The copy of an entry that refers to a table has a fresh table behind it, which is to be filled
from the table `child` of the source. -/
structure TableLinked (level dst : Nat) (o d : Owner) (path : List PtIndex) (i : PtIndex)
    (s s' : Paging) (lab lab' : Labels) (child new : Nat) : Prop where
  nonnull : new ≠ 0
  allocated : (allocPtPage s).2 = new ∧ (allocPtPage s).1.pm = s'.pm
  labels : Extends lab lab'
  ok : TablesOk s' lab'
  source : lab' child = some ⟨o, level, path ++ [i]⟩
  copy : lab' new = some ⟨d, level, path ++ [i]⟩
  empty : ∀ j, readPte s' new j = 0
  lookups : SameLookups lab s s'
  others : ∀ t, lab t ≠ none → t ≠ dst → ∀ j, readPte s' t j = readPte s t j
  link : pteSlot (level + 1) (readPte s' dst i) = .table new
  apart : dst ≠ new

/-- Copying an entry that refers to a table starts with a link to a fresh one, or leaves the entry
empty if there is no page. -/
theorem cloneUpper_table (below : Nat → Nat → Paging → Paging) (h : TablesOk s lab)
    (hsrc : lab src = some ⟨o, level + 1, path⟩) (hdst : lab dst = some ⟨d, level + 1, path⟩)
    {i : PtIndex} (hown : ∀ q, childOwner q (level + 1) i = q) (hzero : readPte s dst i = 0)
    {child : Nat} (htable : pteSlot (level + 1) (readPte s src i) = .table child) :
    ((allocPtPage s).2 = 0 ∧
        cloneUpper below src dst s i = writePte { s with allocFailed := true } dst i 0) ∨
      ∃ s' lab' new, cloneUpper below src dst s i = below child new s' ∧
        TableLinked level dst o d path i s s' lab lab' child new := by
  obtain ⟨hp, hh, rfl⟩ := pteSlot_eq_table htable
  unfold cloneUpper
  dsimp only
  rw [if_neg (not_not_intro hp), if_neg hh]
  have halloc := h.alloc
  obtain ⟨res, hres⟩ : ∃ res, allocPtPage s = res := ⟨_, rfl⟩
  rw [hres] at halloc ⊢
  rcases halloc with ⟨hnull, heq⟩ | hfresh
  · rw [if_pos hnull, heq]
    exact .inl ⟨hnull, rfl⟩
  · obtain ⟨hne, halign, hlt⟩ := hfresh.addr
    have hnew : ∀ {u}, lab u ≠ none → u ≠ res.2 := by
      rintro u hu rfl
      exact hu hfresh.unlabelled
    have hdst' : lab dst ≠ none := by rw [hdst]; simp
    rw [if_neg hne, hfresh.others src i (hnew (by rw [hsrc]; simp))]
    obtain ⟨hlink, hlt'⟩ := pteSlot_copy halign hlt hp hh level
    obtain ⟨hok, hlooks⟩ := hfresh.link h.labelled hdst (by rw [hzero, pteSlot_zero]) hlt' hlink
    rw [hown] at hok
    obtain ⟨level₁, heq, hchild⟩ := h.labelled.child _ _ _ _ hsrc _ _ htable
    obtain rfl := Nat.succ.inj heq
    rw [hown] at hchild
    have hext := extends_update hfresh.unlabelled ⟨d, level, path ++ [i]⟩
    refine .inr ⟨_, _, _, rfl, hne, by rw [hres]; exact ⟨rfl, rfl⟩, hext, hok, hext _ _ hchild,
      Function.update_self .., fun j => ?_, hlooks, fun t ht htd j => ?_, ?_, hnew hdst'⟩
    · rw [readPte_writePte_of_ne res.1 (.inl (hnew hdst').symm), hfresh.empty]
    · rw [readPte_writePte_of_ne res.1 (.inl htd), hfresh.others t j (hnew ht)]
    · rw [readPte_writePte_self res.1 dst i hlt']
      exact hlink

/-- The link is still there after the tables below were copied. -/
theorem TableLinked.link_kept {i : PtIndex} {s'' : Paging} {lab'' : Labels} {child new : Nat}
    (hl : TableLinked level dst o d path i s s' lab lab' child new)
    (hdst : lab dst = some ⟨d, level + 1, path⟩) {done : PtIndex → Prop}
    (hcloned : Cloned level child new o (path ++ [i]) s' s'' lab' lab'' done) :
    pteSlot (level + 1) (readPte s'' dst i) = .table new := by
  rw [hcloned.others dst d (level + 1) path (hl.labels _ _ hdst) hl.apart (by simp)]
  exact hl.link

theorem entryPages_table {i : PtIndex} {p : Nat}
    (h : pteSlot (level + 1) (readPte s src i) = .table p) :
    entryPages s level src i = ptTreePages s level 512 p := by
  obtain ⟨hp, hh, rfl⟩ := pteSlot_eq_table h
  unfold entryPages
  dsimp only
  rw [if_neg (not_not_intro hp), if_neg hh]

/-- Behind an entry that is absent or a huge page there are no tables. -/
theorem entryPages_nil {i : PtIndex} (h : ∀ p, pteSlot (level + 1) (readPte s src i) ≠ .table p) :
    entryPages s level src i = [] := by
  unfold entryPages
  dsimp only
  by_cases hp : ptePresent (readPte s src i)
  · by_cases hh : pteHuge (readPte s src i)
    · rw [if_pos hh, ite_self]
    · exact absurd (pteSlot_table hp hh level) (h _)
  · rw [if_pos hp]

/-- An entry that refers to no table is copied without an allocation. -/
theorem cloneUpper_entry (below : Nat → Nat → Paging → Paging) {i : PtIndex}
    (hnot : ∀ p, pteSlot (level + 1) (readPte s src i) ≠ .table p) (hzero : readPte s dst i = 0) :
    (cloneUpper below src dst s i).pm = s.pm ∧
      pteSlot (level + 1) (readPte (cloneUpper below src dst s i) dst i) =
        pteSlot (level + 1) (readPte s src i) := by
  unfold cloneUpper
  dsimp only
  by_cases hp : ptePresent (readPte s src i)
  · rw [if_neg (not_not_intro hp)]
    by_cases hh : pteHuge (readPte s src i)
    · rw [if_pos hh, readPte_writePte_self s dst i (readPte_lt s src i)]
      exact ⟨rfl, rfl⟩
    · exact absurd (pteSlot_table hp hh level) (hnot _)
  · rw [if_pos hp, hzero, pteSlot_zero, pteSlot_absent hp]
    exact ⟨rfl, rfl⟩

/-- Copying one entry takes the tables that the copy of the entry then leads to. -/
theorem cloneUpper_takes
    (hbelow : ∀ {s lab src dst path}, TablesOk s lab → lab src = some ⟨o, level, path⟩ →
      lab dst = some ⟨d, level, path⟩ → (∀ j, readPte s dst j = 0) →
        (∃ lab', Cloned level src dst o path s (cloneTable level 512 src dst s) lab lab'
            fun _ => True) ∧
          Takes s.pm (cloneTable level 512 src dst s).pm
            (pagesBelow (cloneTable level 512 src dst s) level 512 dst))
    (h : TablesOk s lab) (hsrc : lab src = some ⟨o, level + 1, path⟩)
    (hdst : lab dst = some ⟨d, level + 1, path⟩) {i : PtIndex}
    (hown : ∀ q, childOwner q (level + 1) i = q) (hzero : readPte s dst i = 0) :
    Takes s.pm (cloneUpper (cloneTable level 512) src dst s i).pm
      (entryPages (cloneUpper (cloneTable level 512) src dst s i) level dst i) := by
  by_cases htable : ∃ child, pteSlot (level + 1) (readPte s src i) = .table child
  · obtain ⟨child, htable⟩ := htable
    rcases cloneUpper_table (cloneTable level 512) h hsrc hdst hown hzero htable with
      ⟨-, heq⟩ | ⟨s₁, lab₁, new, heq, hlinked⟩
    · rw [heq, entryPages_nil fun p => by
        rw [readPte_writePte_self _ dst i (by decide), pteSlot_zero]
        exact Slot.noConfusion]
      exact Takes.nil h.pmem
    · obtain ⟨⟨lab', hcloned⟩, htakes⟩ :=
        hbelow hlinked.ok hlinked.source hlinked.copy hlinked.empty
      rw [heq, entryPages_table (hlinked.link_kept hdst hcloned), ptTreePages_below]
      obtain ⟨hnew, hpm⟩ := hlinked.allocated
      have hfirst := (allocPtPage_takes h.pmem).resolve_left (by rw [hnew]; exact hlinked.nonnull)
      rw [hnew, hpm] at hfirst
      exact (hfirst.trans htakes).perm List.perm_append_comm
  · have hnot := not_exists.mp htable
    obtain ⟨hpm, hslot⟩ := cloneUpper_entry (cloneTable level 512) hnot hzero
    rw [hpm, entryPages_nil fun p => by rw [hslot]; exact hnot p]
    exact Takes.nil h.pmem

/-- Below the top table the loops go through whole tables. -/
theorem cloneTable_cloned_all (hod : o ≠ d) (hl : level < ptLevelPml4) (h : TablesOk s lab)
    (hsrc : lab src = some ⟨o, level, path⟩) (hdst : lab dst = some ⟨d, level, path⟩)
    (hzero : ∀ j, readPte s dst j = 0) :
    ∃ lab', Cloned level src dst o path s (cloneTable level 512 src dst s) lab lab'
      fun _ => True := by
  obtain ⟨lab', hcloned⟩ := cloneTable_cloned hod level 512 hl.le
    (fun q i _ => childOwner_below hl q i) h hsrc hdst fun j _ => hzero j
  exact ⟨lab', hcloned.congr fun i => ⟨fun _ => trivial, fun _ => i.isLt⟩⟩

/-- **A copy takes its tables and nothing else**, whatever could not be allocated. -/
theorem cloneTable_takes (hod : o ≠ d) : ∀ (level n : Nat), level ≤ ptLevelPml4 →
    (∀ (q : Owner) (i : PtIndex), i.val < n → childOwner q level i = q) →
    ∀ {s lab src dst path}, TablesOk s lab → lab src = some ⟨o, level, path⟩ →
      lab dst = some ⟨d, level, path⟩ → (∀ j : PtIndex, j.val < n → readPte s dst j = 0) →
        Takes s.pm (cloneTable level n src dst s).pm
          (pagesBelow (cloneTable level n src dst s) level n dst) := by
  intro level
  induction level with
  | zero =>
      intro n _ _ s lab src dst path h _ _ _
      have hpm : ∀ (l : List PtIndex) (s : Paging), (l.foldl (clonePte src dst) s).pm = s.pm := by
        intro l
        induction l with
        | nil => exact fun _ => rfl
        | cons i rest ih =>
            intro s
            rw [List.foldl_cons, ih]
            rcases clonePte_eq src dst s i with ⟨heq, -⟩ | heq <;> rw [heq] <;> rfl
      rw [pagesBelow, cloneTable, hpm]
      exact Takes.nil h.pmem
  | succ level ih =>
      intro n hle hown s lab src dst path h hsrc hdst hzero
      have hbelow : ∀ {s lab src dst path}, TablesOk s lab → lab src = some ⟨o, level, path⟩ →
          lab dst = some ⟨d, level, path⟩ → (∀ j, readPte s dst j = 0) →
            (∃ lab', Cloned level src dst o path s (cloneTable level 512 src dst s) lab lab'
                fun _ => True) ∧
              Takes s.pm (cloneTable level 512 src dst s).pm
                (pagesBelow (cloneTable level 512 src dst s) level 512 dst) := fun hok hs hd hz =>
        ⟨cloneTable_cloned_all hod hle hok hs hd hz, ih 512 (by omega)
          (fun q i _ => childOwner_below hle q i) hok hs hd fun j _ => hz j⟩
      have hone : ∀ s lab i, TablesOk s lab → lab src = some ⟨o, level + 1, path⟩ →
          lab dst = some ⟨d, level + 1, path⟩ → i.val < n → readPte s dst i = 0 →
            ∃ lab', Cloned (level + 1) src dst o path s
              (cloneUpper (cloneTable level 512) src dst s i) lab lab' (· = i) :=
        fun s lab i hok hs hd hi hz => cloneUpper_cloned hod
          (fun hok hs hd hz => (hbelow hok hs hd hz).1) hok hs hd (fun q => hown q i hi) hz
      have hloop : ∀ (l : List PtIndex) {s : Paging} {lab : Labels}, TablesOk s lab →
          lab src = some ⟨o, level + 1, path⟩ → lab dst = some ⟨d, level + 1, path⟩ → l.Nodup →
          (∀ i ∈ l, i.val < n) → (∀ i ∈ l, readPte s dst i = 0) →
            Takes s.pm (l.foldl (cloneUpper (cloneTable level 512) src dst) s).pm
              (l.flatMap (entryPages (l.foldl (cloneUpper (cloneTable level 512) src dst) s)
                level dst)) := by
        intro l
        induction l with
        | nil => exact fun h _ _ _ _ _ => Takes.nil h.pmem
        | cons i rest ihl =>
            intro s lab h hsrc hdst hnodup hlt hzero
            rw [List.nodup_cons] at hnodup
            have hi := hlt i (by simp)
            have hfirst := cloneUpper_takes hbelow h hsrc hdst (fun q => hown q i hi)
              (hzero i (by simp))
            obtain ⟨lab₁, hcloned⟩ := hone s lab i h hsrc hdst hi (hzero i (by simp))
            rw [List.foldl_cons, List.flatMap_cons]
            generalize cloneUpper (cloneTable level 512) src dst s i = s₁ at hfirst hcloned
            have hsrc₁ := hcloned.labels _ _ hsrc
            have hdst₁ := hcloned.labels _ _ hdst
            have hlt₁ : ∀ j ∈ rest, j.val < n := fun j hj => hlt j (List.mem_cons_of_mem _ hj)
            have hzero₁ : ∀ j ∈ rest, readPte s₁ dst j = 0 := by
              intro j hj
              rw [hcloned.rest j (fun hji => hnodup.1 (hji ▸ hj))]
              exact hzero j (List.mem_cons_of_mem _ hj)
            obtain ⟨lab₂, hrest⟩ := Cloned.loop (d := d) (P := fun i => i.val < n) hone rest hcloned.ok
              hsrc₁ hdst₁ hnodup.2 hlt₁ hzero₁
            rw [entryPages_kept hcloned.ok (by omega) hod hdst₁ (hown d i hi) hrest hnodup.1]
            exact hfirst.trans (ihl hcloned.ok hsrc₁ hdst₁ hnodup.2 hlt₁ hzero₁)
      exact hloop (ptIndexes n) h hsrc hdst (ptIndexes_nodup n) (fun i hi => mem_ptIndexes.mp hi)
        fun i hi => hzero i (mem_ptIndexes.mp hi)

end Copy

/-! ### The clone of a space -/

/-- The pages a clone takes are the ones its destruction passes to the allocator. -/
theorem pagingClone_takes {s s' : Paging} {lab : Labels} (h : TablesOk s lab)
    (hloaded : LoadedOk s lab) {srcCr3 dst : Nat} (hsrc : IsSpace lab (srcCr3 &&& lnot64 0xFFF))
    (hclone : pagingCloneAddressSpace s srcCr3 = (s', dst)) :
    Takes s.pm s'.pm (spacePages s' dst) := by
  have halloc := h.alloc
  have htakes := allocPtPage_takes h.pmem
  unfold pagingCloneAddressSpace at hclone
  dsimp only at hclone
  generalize srcCr3 &&& lnot64 0xFFF = src at hsrc hclone
  generalize allocPtPage s = res at halloc htakes hclone
  rcases halloc with ⟨hnull, heq⟩ | hfresh
  · rw [if_pos hnull, Prod.mk.injEq, heq] at hclone
    obtain ⟨rfl, rfl⟩ := hclone
    exact Takes.nil h.pmem
  · obtain ⟨hne, halign, hlt⟩ := hfresh.addr
    rw [if_neg hne, Prod.mk.injEq] at hclone
    obtain ⟨rfl, rfl⟩ := hclone
    have hnew := hfresh.newSpace hloaded
    have hpm := copyKernelHalf_pm res.1 res.2
    generalize copyKernelHalf res.1 res.2 = s₁ at hnew hpm ⊢
    generalize res.2 = dst at *
    have hsd : src ≠ dst := by
      rintro rfl
      rw [IsSpace, hnew.unlabelled] at hsrc
      simp at hsrc
    have hext := extends_update hnew.unlabelled ⟨.space dst, ptLevelPml4, []⟩
    have htables := cloneTable_takes (o := .space src) (d := .space dst)
      (fun heq => hsd (Owner.space.inj heq)) ptLevelPml4 256 (le_refl _)
      (fun q i hi => by
        unfold childOwner
        rw [if_neg fun hk => by omega]) hnew.ok (hext _ _ hsrc) (Function.update_self ..) hnew.empty
    have haddr : dst &&& lnot64 0xFFF = dst := by
      rw [and_not_fff (by omega)]
      omega
    unfold spacePages
    rw [haddr]
    dsimp only
    rw [if_pos hne, ptTreePages_below]
    rw [hpm] at htables
    exact ((htakes.resolve_left hne).trans htables).perm List.perm_append_comm

/--
**Destroying a clone undoes the clone.**  Wherever the allocator runs out of pages, the
destruction frees the pages the clone took, each once, none of them a table of the source or of
the kernel, and the allocator has the free pages and the count it had before the clone.
-/
theorem paging_clone_destroy {s s' : Paging} {srcCr3 dst : Nat}
    (hok : SpaceOk s (srcCr3 &&& lnot64 0xFFF)) (hword : s.pm.freePages < 2 ^ 64)
    (hclone : pagingCloneAddressSpace s srcCr3 = (s', dst)) :
    pagingDestroyAddressSpace s' dst =
        { s' with pm := (spacePages s' dst).foldl pmemFreePage s'.pm } ∧
      (spacePages s' dst).Nodup ∧
      (∀ x, x ∈ spacePages s' dst ↔ AddrFree s.pm x ∧ ¬ AddrFree s'.pm x) ∧
      (∀ r ix l t, r = srcCr3 &&& lnot64 0xFFF ∨ (r = s.pml4Table ∧ r ≠ 0) →
        Visits pteSlot (readPte s) ix ptLevelPml4 r l t → t ∉ spacePages s' dst) ∧
      (∀ x, AddrFree (pagingDestroyAddressSpace s' dst).pm x ↔ AddrFree s.pm x) ∧
      (pagingDestroyAddressSpace s' dst).pm.freePages = s.pm.freePages := by
  obtain ⟨lab, h, hsrc, hloaded⟩ := hok
  have htakes := pagingClone_takes h hloaded hsrc hclone
  have hdestroy := pagingDestroyAddressSpace_eq s' dst
  obtain ⟨hfree, hcount⟩ := htakes.give h.pmem hword
  refine ⟨hdestroy, htakes.nodup, fun x => ?_, fun r ix l t hr hv ht => ?_, ?_, ?_⟩
  · rw [htakes.free, not_and, not_not]
    exact ⟨fun hx => ⟨htakes.fresh x hx, fun _ => hx⟩, fun hx => hx.2 hx.1⟩
  · have hspace : IsSpace lab r := by
      rcases hr with rfl | ⟨rfl, hne⟩
      · exact hsrc
      · exact hloaded.resolve_left hne
    obtain ⟨o, path, hlab, -⟩ := hv.label h.labelled hspace
    exact h.used t (by rw [hlab]; simp) (htakes.fresh t ht)
  · rw [hdestroy]
    exact hfree
  · rw [hdestroy]
    exact hcount

/-- The space with one page, cloned and the clone destroyed. -/
theorem paging_clone_destroy_stack :
    ∃ s' dst, pagingCloneAddressSpace stackSpace 0x1000 = (s', dst) ∧
      (spacePages s' dst).Nodup ∧ 0x4000 ∉ spacePages s' dst ∧
      (pagingDestroyAddressSpace s' dst).pm.freePages = 64 := by
  have hroot : (0x1000 : Nat) &&& lnot64 0xFFF = 0x1000 := by decide
  have hok : SpaceOk stackSpace (0x1000 &&& lnot64 0xFFF) := by
    rw [hroot]
    exact stackSpace_ok
  obtain ⟨res, hclone⟩ : ∃ res, pagingCloneAddressSpace stackSpace 0x1000 = res := ⟨_, rfl⟩
  obtain ⟨s', dst⟩ := res
  obtain ⟨-, hnodup, -, hsource, -, hcount⟩ := paging_clone_destroy hok (by decide) hclone
  refine ⟨s', dst, hclone, hnodup, ?_, hcount⟩
  -- The lowest table of the source.
  have htop : pteSlot 3 (readPte stackSpace 0x1000 255) = .table 0x2000 := by decide
  have hmid : pteSlot 2 (readPte stackSpace 0x2000 511) = .table 0x3000 := by decide
  have hlow : pteSlot 1 (readPte stackSpace 0x3000 511) = .table 0x4000 := by decide
  exact hsource 0x1000 (fun l => if l = 3 then 255 else 511) 0 0x4000 (.inl hroot.symm)
    (.down htop (.down hmid (.down hlow (.here 0 0x4000))))

end BrightS
