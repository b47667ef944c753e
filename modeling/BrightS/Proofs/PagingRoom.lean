/-
What is missing from a clone that ran out of pages.

The loops of the clone take a page for each table of the source, in the order in which they
come to it, and go on when there is none.  So a page of the source is in the clone if and only
if the free pages last up to the tables it needs: `tablesUpTo` counts them, and `CopyRoom`
relates the count to the copy of one table (`cloneTable_room`, by induction on the level).
-/
import BrightS.Proofs.PagingAlloc
import BrightS.Proofs.PagingConserve

namespace BrightS

open Radix Words

attribute [local irreducible] pmemAllocPage

/-! ### Allocating from the free pages -/

/-- An allocation fails exactly when nothing is free, and takes one of the free pages otherwise. -/
theorem pmemAllocPage_room {pm : Pmem} (h : PmemSane pm) :
    ((pmemAllocPage pm).2 = 0 ↔ freePageCount pm = 0) ∧
      freePageCount (pmemAllocPage pm).1 = freePageCount pm - 1 := by
  rcases pmemAllocPage_counts pm with ⟨hzero, hnone⟩ | ⟨hcount, -⟩
  · rw [hnone, hzero]
    exact ⟨⟨fun _ => rfl, fun _ => rfl⟩, rfl⟩
  · have hne := pmemAllocPage_ok h (by omega)
    exact ⟨⟨fun hnull => absurd hnull hne, fun hzero => by omega⟩, by omega⟩

theorem allocPtPage_room {s : Paging} (h : PmemSane s.pm) :
    ((allocPtPage s).2 = 0 ↔ freePageCount s.pm = 0) ∧
      freePageCount (allocPtPage s).1.pm = freePageCount s.pm - 1 := by
  have hroom := pmemAllocPage_room h
  obtain ⟨res, hres, hcases⟩ := allocPtPage_cases s
  rw [hres] at hroom
  obtain ⟨hnull, heq⟩ | ⟨-, heq⟩ := hcases
  · rw [heq]
    exact ⟨⟨fun _ => hroom.1.mp hnull, fun _ => rfl⟩, hroom.2⟩
  · rw [heq]
    exact hroom

/-! ### The tables before a page -/

/-- The tables that the loops take up to and with the last one on the way to a page: none if the
page is behind no further table. -/
def tablesUpTo (s : Paging) (ix : Nat → PtIndex) : Nat → Nat → Nat
  | 0, _ => 0
  | level + 1, t =>
      match pteSlot (level + 1) (readPte s t (ix (level + 1))) with
      | .table p => (pagesBelow s (level + 1) (ix (level + 1)).val t).length +
          (1 + tablesUpTo s ix level p)
      | _ => 0

theorem lt_tablesUpTo {s : Paging} {ix : Nat → PtIndex} {level t room : Nat} :
    room < tablesUpTo s ix (level + 1) t ↔
      ∃ p, pteSlot (level + 1) (readPte s t (ix (level + 1))) = .table p ∧
        room < (pagesBelow s (level + 1) (ix (level + 1)).val t).length +
          (1 + tablesUpTo s ix level p) := by
  rw [tablesUpTo]
  cases pteSlot (level + 1) (readPte s t (ix (level + 1))) with
  | absent => simp
  | leaf => simp
  | table p => simp

/-- The indexes before one of them come first. -/
theorem ptIndexes_split {n : Nat} {i : PtIndex} (hi : i.val < n) :
    ∃ rest, ptIndexes n = ptIndexes i.val ++ i :: rest := by
  have hsplit : ∀ l : List PtIndex, l.Pairwise (· < ·) → i ∈ l →
      ∃ rest, l = l.filter (·.val < i.val) ++ i :: rest := by
    intro l
    induction l with
    | nil => exact fun _ hin => absurd hin (by simp)
    | cons a l ih =>
        intro hsorted hin
        obtain ⟨hfirst, hsorted⟩ := List.pairwise_cons.mp hsorted
        rcases List.mem_cons.mp hin with rfl | hin
        · refine ⟨l, ?_⟩
          rw [List.filter_eq_nil_iff.mpr]
          · rfl
          · intro j hj
            rcases List.mem_cons.mp hj with rfl | hj
            · simp
            · have := Fin.lt_def.mp (hfirst j hj)
              simp only [decide_eq_true_eq, not_lt]
              exact this.le
        · obtain ⟨rest, hrest⟩ := ih hsorted hin
          have ha : decide (a.val < i.val) = true := decide_eq_true (Fin.lt_def.mp (hfirst i hin))
          refine ⟨rest, ?_⟩
          rw [List.filter_cons, if_pos ha, List.cons_append, ← hrest]
  obtain ⟨rest, hrest⟩ := hsplit (ptIndexes n)
    ((List.pairwise_lt_finRange 512).filter _) (mem_ptIndexes.mpr hi)
  refine ⟨rest, ?_⟩
  rw [show ptIndexes i.val = (ptIndexes n).filter (·.val < i.val) from ?_]
  · exact hrest
  · rw [ptIndexes, ptIndexes, List.filter_filter]
    refine List.filter_congr fun j _ => ?_
    rw [← Bool.decide_and, decide_eq_decide]
    omega

/-- The tables of an owner above the lowest level are the same in both states. -/
def UpperKept (o : Owner) (lab : Labels) (s s' : Paging) : Prop :=
  ∀ t l path, lab t = some ⟨o, l + 1, path⟩ → ∀ j, readPte s' t j = readPte s t j

section Copy

variable {level src dst : Nat} {o d : Owner} {path : List PtIndex} {s s' : Paging}
  {lab lab' : Labels}

theorem Cloned.upperKept {done : PtIndex → Prop}
    (hc : Cloned level src dst o path s s' lab lab' done) (hod : o ≠ d)
    (hdst : lab dst = some ⟨d, level, path⟩) : UpperKept o lab s s' := by
  intro t l path' ht j
  refine hc.others t o (l + 1) path' ht ?_ (fun hin => absurd hin.2.1 (by omega)) j
  rintro rfl
  rw [hdst, Option.some.injEq, Label.mk.injEq] at ht
  exact hod ht.1.symm

theorem TableLinked.upperKept {i : PtIndex} {child new : Nat}
    (hl : TableLinked level dst o d path i s s' lab lab' child new) (hod : o ≠ d)
    (hdst : lab dst = some ⟨d, level + 1, path⟩) : UpperKept o lab s s' := by
  intro t l path' ht j
  refine hl.others t (by rw [ht]; simp) ?_ j
  rintro rfl
  rw [hdst, Option.some.injEq, Label.mk.injEq] at ht
  exact hod ht.1.symm

theorem NewSpace.upperKept (hn : NewSpace s s' lab dst) : UpperKept o lab s s' := by
  intro t l path' ht j
  refine hn.others t j ?_
  rintro rfl
  rw [hn.unlabelled] at ht
  simp at ht

/-- The table behind an entry of the owner's part is the owner's. -/
theorem TablesOk.child_label (h : TablesOk s lab) (hsrc : lab src = some ⟨o, level + 1, path⟩)
    {i : PtIndex} (hown : childOwner o (level + 1) i = o) {p : Nat}
    (hp : pteSlot (level + 1) (readPte s src i) = .table p) :
    lab p = some ⟨o, level, path ++ [i]⟩ := by
  obtain ⟨level₁, heq, hchild⟩ := h.labelled.child _ _ _ _ hsrc _ _ hp
  obtain rfl := Nat.succ.inj heq
  rw [hown] at hchild
  exact hchild

theorem entryPages_upper (h : TablesOk s lab) (hk : UpperKept o lab s s')
    (hl : level < ptLevelPml4) (hsrc : lab src = some ⟨o, level + 1, path⟩) {i : PtIndex}
    (hown : childOwner o (level + 1) i = o) :
    entryPages s' level src i = entryPages s level src i := by
  have hread := hk src level path hsrc i
  by_cases htable : ∃ p, pteSlot (level + 1) (readPte s src i) = .table p
  · obtain ⟨p, hp⟩ := htable
    rw [entryPages_table hp, entryPages_table (by rw [hread]; exact hp)]
    exact ptTreePages_kept h (fun t l path' ht _ => hk t l path' ht) hl
      (h.child_label hsrc hown hp) List.nil_prefix
  · have hnot := not_exists.mp htable
    rw [entryPages_nil hnot, entryPages_nil (by rw [hread]; exact hnot)]

theorem pagesBelow_upper (h : TablesOk s lab) (hk : UpperKept o lab s s')
    (hl : level ≤ ptLevelPml4) (hsrc : lab src = some ⟨o, level, path⟩) {n : Nat}
    (hown : ∀ i : PtIndex, i.val < n → childOwner o level i = o) :
    pagesBelow s' level n src = pagesBelow s level n src := by
  cases level with
  | zero => rfl
  | succ level =>
      exact List.flatMap_congr fun i hi =>
        entryPages_upper h hk hl hsrc (hown i (mem_ptIndexes.mp hi))

theorem tablesUpTo_upper (h : TablesOk s lab) (hk : UpperKept o lab s s') (ix : Nat → PtIndex) :
    ∀ {level t : Nat} {path}, level ≤ ptLevelPml4 → lab t = some ⟨o, level, path⟩ →
      (∀ i : PtIndex, i.val ≤ (ix level).val → childOwner o level i = o) →
        tablesUpTo s' ix level t = tablesUpTo s ix level t := by
  intro level
  induction level with
  | zero => exact fun _ _ _ => rfl
  | succ level ih =>
      intro t path hl ht hown
      rw [tablesUpTo, tablesUpTo, hk t level path ht]
      cases hp : pteSlot (level + 1) (readPte s t (ix (level + 1))) with
      | absent => rfl
      | leaf => rfl
      | table p =>
          have hchild := h.child_label ht (hown _ (le_refl _)) hp
          dsimp only
          rw [pagesBelow_upper h hk hl ht fun i hi => hown i hi.le,
            ih (by omega) hchild fun i _ => childOwner_below (by omega) o i]

/-! ### Copies -/

/-- The copy of a table takes a page for each table of the source, as long as there are free
ones, and lacks the pages whose tables come later. -/
structure CopyRoom (level n src dst : Nat) (s s' : Paging) : Prop where
  pages : freePageCount s'.pm = freePageCount s.pm - (pagesBelow s level n src).length
  lookups : ∀ ix : Nat → PtIndex, (ix level).val < n →
    (lookup pteSlot (readPte s') ix level dst = none ↔
      lookup pteSlot (readPte s) ix level src = none ∨
        freePageCount s.pm < tablesUpTo s ix level src)

/-- The loop over a lowest table needs no page. -/
theorem clonePte_loop (src dst : Nat) : ∀ (l : List PtIndex) (s : Paging),
    (l.foldl (clonePte src dst) s).pm = s.pm ∧
      (∀ i ∉ l, ∀ t, readPte (l.foldl (clonePte src dst) s) t i = readPte s t i) ∧
      (l.Nodup → ∀ i ∈ l,
        readPte (l.foldl (clonePte src dst) s) dst i = cowLowest (readPte s src i)) := by
  intro l
  induction l with
  | nil => exact fun s => ⟨rfl, fun _ _ _ => rfl, fun _ i hi => absurd hi (by simp)⟩
  | cons a l ih =>
      intro s
      obtain ⟨hpm, hrest, hcopied⟩ := ih (clonePte src dst s a)
      have hone := readPte_clonePte src dst s a
      refine ⟨hpm.trans ?_, fun i hi t => ?_, fun hnodup i hi => ?_⟩
      · rcases clonePte_eq src dst s a with ⟨heq, -⟩ | heq <;> rw [heq] <;> rfl
      · rw [List.mem_cons, not_or] at hi
        rw [List.foldl_cons, hrest i hi.2, hone, if_neg fun hw => hi.1 hw.2]
      · obtain ⟨hnot, hnodup⟩ := List.nodup_cons.mp hnodup
        rw [List.foldl_cons]
        rcases List.mem_cons.mp hi with rfl | hi
        · rw [hrest i hnot, hone, if_pos ⟨.inr rfl, rfl⟩]
        · rw [hcopied hnodup i hi, hone, if_neg]
          exact fun hw => hnot (hw.2 ▸ hi)

theorem cloneTable_room_lowest (n src dst : Nat) (s : Paging) :
    CopyRoom 0 n src dst s (cloneTable 0 n src dst s) := by
  obtain ⟨hpm, -, hcopied⟩ := clonePte_loop src dst (ptIndexes n) s
  rw [cloneTable]
  refine ⟨by rw [hpm]; rfl, fun ix hix => ?_⟩
  rw [lookup_lowest, lookup_lowest, hcopied (ptIndexes_nodup n) _ (mem_ptIndexes.mpr hix),
    leafOf_cowLowest, cow_none_iff, tablesUpTo]
  simp

/-- What is known of the copies of tables a level below. -/
def CopiesBelow (o d : Owner) (level : Nat) : Prop :=
  ∀ {s lab src dst path}, TablesOk s lab → lab src = some ⟨o, level, path⟩ →
    lab dst = some ⟨d, level, path⟩ → (∀ j, readPte s dst j = 0) →
      (∃ lab', Cloned level src dst o path s (cloneTable level 512 src dst s) lab lab'
          fun _ => True) ∧
        CopyRoom level 512 src dst s (cloneTable level 512 src dst s)

/-- What the copy of one entry takes, and when its pages are missing. -/
theorem cloneUpper_room (hod : o ≠ d) (hbelow : CopiesBelow o d level) (h : TablesOk s lab)
    (hl : level < ptLevelPml4)
    (hsrc : lab src = some ⟨o, level + 1, path⟩)
    (hdst : lab dst = some ⟨d, level + 1, path⟩) {i : PtIndex}
    (hown : ∀ q, childOwner q (level + 1) i = q) (hzero : readPte s dst i = 0) :
    freePageCount (cloneUpper (cloneTable level 512) src dst s i).pm =
        freePageCount s.pm - (entryPages s level src i).length ∧
      ∀ ix : Nat → PtIndex, ix (level + 1) = i →
        (lookup pteSlot (readPte (cloneUpper (cloneTable level 512) src dst s i)) ix (level + 1)
            dst = none ↔
          lookup pteSlot (readPte s) ix (level + 1) src = none ∨
            ∃ p, pteSlot (level + 1) (readPte s src i) = .table p ∧
              freePageCount s.pm < 1 + tablesUpTo s ix level p) := by
  by_cases htable : ∃ child, pteSlot (level + 1) (readPte s src i) = .table child
  · obtain ⟨child, htable⟩ := htable
    obtain ⟨hnull, hcount⟩ := allocPtPage_room h.pmem
    have hsize : (entryPages s level src i).length = (pagesBelow s level 512 child).length + 1 := by
      rw [entryPages_table htable, ptTreePages_below, List.length_append, List.length_singleton]
    rcases cloneUpper_table (cloneTable level 512) h hsrc hdst hown hzero htable with
      ⟨hfail, heq⟩ | ⟨s₁, lab₁, new, heq, hlinked⟩
    · -- There is no page for the table, so everything behind the entry is missing.
      have hempty := hnull.mp hfail
      refine ⟨?_, ?_⟩
      · rw [heq, hsize]
        show freePageCount s.pm = _
        omega
      · rintro ix rfl
        have hnone : lookup pteSlot (readPte (writePte { s with allocFailed := true } dst
            (ix (level + 1)) 0)) ix (level + 1) dst = none := by
          rw [lookup, readPte_writePte_self _ dst _ (by decide), pteSlot_zero]
        rw [heq]
        exact ⟨fun _ => .inr ⟨child, htable, by omega⟩, fun _ => hnone⟩
    · obtain ⟨⟨lab', hcloned⟩, hroom⟩ :=
        hbelow hlinked.ok hlinked.source hlinked.copy hlinked.empty
      obtain ⟨hnew, hpm⟩ := hlinked.allocated
      have hpos : freePageCount s.pm ≠ 0 := by
        rw [← hnew] at hlinked
        exact fun hempty => hlinked.nonnull (hnull.mpr hempty)
      rw [hpm] at hcount
      have hchild := h.child_label hsrc (hown o) htable
      have hkept := hlinked.upperKept hod hdst
      have hkeeps : ∀ i, childOwner o level i = o := fun i => childOwner_below hl o i
      rw [heq]
      refine ⟨?_, ?_⟩
      · have hpages := hroom.pages
        rw [pagesBelow_upper h hkept hl.le hchild fun i _ => hkeeps i, hcount] at hpages
        rw [hpages, hsize]
        omega
      · rintro ix rfl
        have hlooks := hroom.lookups ix (ix level).isLt
        rw [hlinked.lookups ix level child _ _ hchild, hcount,
          tablesUpTo_upper h hkept ix hl.le hchild fun i _ => hkeeps i] at hlooks
        rw [lookup_table (hlinked.link_kept hdst hcloned), lookup_table htable, hlooks]
        refine or_congr_right ⟨fun hlt => ⟨child, htable, by omega⟩, ?_⟩
        rintro ⟨p, hp, hlt⟩
        rw [htable] at hp
        obtain rfl := Slot.table.inj hp
        omega
  · have hnot := not_exists.mp htable
    obtain ⟨hpm, hslot⟩ := cloneUpper_entry (cloneTable level 512) hnot hzero
    refine ⟨by rw [hpm, entryPages_nil hnot]; rfl, ?_⟩
    rintro ix rfl
    have hno : ¬ ∃ p, pteSlot (level + 1) (readPte s src (ix (level + 1))) = .table p ∧
        freePageCount s.pm < 1 + tablesUpTo s ix level p := by
      rintro ⟨p, hp, -⟩
      exact hnot p hp
    rw [or_iff_left hno, lookup, lookup, hslot]
    cases hs : pteSlot (level + 1) (readPte s src (ix (level + 1))) with
    | absent => rfl
    | leaf => simp
    | table p => exact absurd hs (hnot p)

theorem CopiesBelow.entry (hbelow : CopiesBelow o d level) (hod : o ≠ d) (h : TablesOk s lab)
    (hsrc : lab src = some ⟨o, level + 1, path⟩) (hdst : lab dst = some ⟨d, level + 1, path⟩)
    {i : PtIndex} (hown : ∀ q, childOwner q (level + 1) i = q) (hzero : readPte s dst i = 0) :
    ∃ lab', Cloned (level + 1) src dst o path s
      (cloneUpper (cloneTable level 512) src dst s i) lab lab' (· = i) :=
  cloneUpper_cloned hod (fun hok hs hd hz => (hbelow hok hs hd hz).1) h hsrc hdst hown hzero

/-- What the copy of several entries takes. -/
theorem cloneUpper_loop_room (hod : o ≠ d) (hbelow : CopiesBelow o d level)
    (hl : level < ptLevelPml4) :
    ∀ (l : List PtIndex) {s : Paging} {lab : Labels}, TablesOk s lab →
      lab src = some ⟨o, level + 1, path⟩ → lab dst = some ⟨d, level + 1, path⟩ → l.Nodup →
      (∀ i ∈ l, ∀ q, childOwner q (level + 1) i = q) → (∀ i ∈ l, readPte s dst i = 0) →
        freePageCount (l.foldl (cloneUpper (cloneTable level 512) src dst) s).pm =
          freePageCount s.pm - (l.flatMap (entryPages s level src)).length := by
  intro l
  induction l with
  | nil => exact fun _ _ _ _ _ _ => rfl
  | cons i rest ih =>
      intro s lab h hsrc hdst hnodup hown hzero
      rw [List.nodup_cons] at hnodup
      have hi := hown i (by simp)
      obtain ⟨hfirst, -⟩ := cloneUpper_room hod hbelow h hl hsrc hdst hi (hzero i (by simp))
      obtain ⟨lab₁, hcloned⟩ := hbelow.entry hod h hsrc hdst hi (hzero i (by simp))
      rw [List.foldl_cons, List.flatMap_cons]
      generalize cloneUpper (cloneTable level 512) src dst s i = s₁ at hfirst hcloned ⊢
      have hown₁ : ∀ j ∈ rest, ∀ q, childOwner q (level + 1) j = q :=
        fun j hj => hown j (List.mem_cons_of_mem _ hj)
      have hzero₁ : ∀ j ∈ rest, readPte s₁ dst j = 0 := by
        intro j hj
        rw [hcloned.rest j (fun hji => hnodup.1 (hji ▸ hj))]
        exact hzero j (List.mem_cons_of_mem _ hj)
      have hsame : rest.flatMap (entryPages s₁ level src) =
          rest.flatMap (entryPages s level src) :=
        List.flatMap_congr fun j hj => entryPages_upper h (hcloned.upperKept hod hdst) hl hsrc
          (hown₁ j hj o)
      rw [ih hcloned.ok (hcloned.labels _ _ hsrc) (hcloned.labels _ _ hdst) hnodup.2 hown₁ hzero₁,
        hsame, hfirst, List.length_append]
      omega

/-- **The free pages decide what a copy has**, entry by entry and level by level. -/
theorem cloneTable_room (hod : o ≠ d) : ∀ (level n : Nat), level ≤ ptLevelPml4 →
    (∀ (q : Owner) (i : PtIndex), i.val < n → childOwner q level i = q) →
    ∀ {s lab src dst path}, TablesOk s lab → lab src = some ⟨o, level, path⟩ →
      lab dst = some ⟨d, level, path⟩ → (∀ j : PtIndex, j.val < n → readPte s dst j = 0) →
        CopyRoom level n src dst s (cloneTable level n src dst s) := by
  intro level
  induction level with
  | zero => exact fun n _ _ s _ src dst _ _ _ _ _ => cloneTable_room_lowest n src dst s
  | succ level ih =>
      intro n hle hown s lab src dst path h hsrc hdst hzero
      have hbelow : CopiesBelow o d level := fun hok hs hd hz =>
        ⟨cloneTable_cloned_all hod hle hok hs hd hz, ih 512 (by omega)
          (fun q i _ => childOwner_below hle q i) hok hs hd fun j _ => hz j⟩
      have hone : ∀ s lab i, TablesOk s lab → lab src = some ⟨o, level + 1, path⟩ →
          lab dst = some ⟨d, level + 1, path⟩ → i.val < n → readPte s dst i = 0 →
            ∃ lab', Cloned (level + 1) src dst o path s
              (cloneUpper (cloneTable level 512) src dst s i) lab lab' (· = i) :=
        fun s lab i hok hs hd hi hz => hbelow.entry hod hok hs hd (fun q => hown q i hi) hz
      refine ⟨cloneUpper_loop_room hod hbelow hle (ptIndexes n) h hsrc hdst (ptIndexes_nodup n)
        (fun i hi q => hown q i (mem_ptIndexes.mp hi)) fun i hi => hzero i (mem_ptIndexes.mp hi),
        fun ix hix => ?_⟩
      -- The entries before the one for `ix`, this entry, and the others.
      obtain ⟨rest, hsplit⟩ := ptIndexes_split hix
      have hnodup := ptIndexes_nodup n
      have hlt : ∀ i ∈ ptIndexes n, i.val < n := fun i hi => mem_ptIndexes.mp hi
      rw [hsplit, List.nodup_append] at hnodup
      obtain ⟨hbefore, hafter, hapart⟩ := hnodup
      obtain ⟨hnot, hafter⟩ := List.nodup_cons.mp hafter
      rw [hsplit] at hlt
      rw [cloneTable, hsplit, List.foldl_append, List.foldl_cons]
      obtain ⟨lab₁, hc₁⟩ := Cloned.loop (d := d) (P := fun i => i.val < n) hone
        (ptIndexes (ix (level + 1)).val) h hsrc hdst hbefore (fun i hi => hlt i (by simp [hi]))
        fun i hi => hzero i (hlt i (by simp [hi]))
      have hcount := cloneUpper_loop_room hod hbelow hle (ptIndexes (ix (level + 1)).val) h hsrc
        hdst hbefore (fun i hi q => hown q i (hlt i (by simp [hi]))) fun i hi =>
          hzero i (hlt i (by simp [hi]))
      generalize (ptIndexes (ix (level + 1)).val).foldl (cloneUpper (cloneTable level 512) src dst)
        s = s₁ at hc₁ hcount ⊢
      have hfresh : ix (level + 1) ∉ ptIndexes (ix (level + 1)).val := by
        rw [mem_ptIndexes]
        exact lt_irrefl _
      have hzero₁ : ∀ i ∈ ix (level + 1) :: rest, readPte s₁ dst i = 0 := by
        intro i hi
        rw [hc₁.rest i fun hin => hapart i hin i hi rfl]
        exact hzero i (hlt i (by simp [List.mem_cons.mp hi]))
      have hsrc₁ := hc₁.labels _ _ hsrc
      have hdst₁ := hc₁.labels _ _ hdst
      obtain ⟨-, hlook⟩ := cloneUpper_room hod hbelow hc₁.ok hle hsrc₁ hdst₁
        (fun q => hown q _ hix) (hzero₁ _ (by simp))
      obtain ⟨lab₂, hc₂⟩ := hone s₁ lab₁ _ hc₁.ok hsrc₁ hdst₁ hix (hzero₁ _ (by simp))
      have hlook := hlook ix rfl
      generalize cloneUpper (cloneTable level 512) src dst s₁ (ix (level + 1)) = s₂ at hlook hc₂ ⊢
      obtain ⟨lab₃, hc₃⟩ := Cloned.loop (d := d) (P := fun i => i.val < n) hone rest hc₂.ok
        (hc₂.labels _ _ hsrc₁) (hc₂.labels _ _ hdst₁) hafter (fun i hi => hlt i (by simp [hi]))
        (fun i hi => by
          rw [hc₂.rest i fun heq => hnot (heq ▸ hi)]
          exact hzero₁ i (List.mem_cons_of_mem _ hi))
      have hkept := hc₁.upperKept hod hdst
      rw [hc₃.keptDst ix hnot, hlook, hc₁.keptSrc ix hfresh, hkept src level path hsrc]
      refine or_congr_right (Iff.trans (exists_congr fun p => and_congr_right fun hp => ?_)
        lt_tablesUpTo.symm)
      have hchild := h.child_label hsrc (hown o _ hix) hp
      rw [hcount, tablesUpTo_upper h hkept ix (by omega) hchild fun i _ => childOwner_below hle o i,
        pagesBelow]
      omega

end Copy

/-! ### The clone of a space -/

/-- Without a free page there is no clone; otherwise there is one, and it lacks the pages whose
tables do not fit into the free pages beside its own top table. -/
theorem pagingClone_room {s s' : Paging} {lab : Labels} (h : TablesOk s lab)
    (hloaded : LoadedOk s lab) {srcCr3 dst : Nat} (hsrc : IsSpace lab (srcCr3 &&& lnot64 0xFFF))
    (hclone : pagingCloneAddressSpace s srcCr3 = (s', dst)) :
    (freePageCount s.pm = 0 ∧ dst = 0 ∧ s'.pm = s.pm) ∨
      (freePageCount s.pm ≠ 0 ∧ dst ≠ 0 ∧ ∀ ix, UserHalf ix →
        (pageLookup s' dst ix = none ↔ pageLookup s (srcCr3 &&& lnot64 0xFFF) ix = none ∨
          freePageCount s.pm ≤ tablesUpTo s ix ptLevelPml4 (srcCr3 &&& lnot64 0xFFF))) := by
  have halloc := h.alloc
  obtain ⟨hnull, hcount⟩ := allocPtPage_room h.pmem
  unfold pagingCloneAddressSpace at hclone
  dsimp only at hclone
  generalize srcCr3 &&& lnot64 0xFFF = src at hsrc hclone ⊢
  generalize allocPtPage s = res at halloc hnull hcount hclone
  rcases halloc with ⟨hnone, heq⟩ | hfresh
  · rw [if_pos hnone, Prod.mk.injEq, heq] at hclone
    obtain ⟨rfl, rfl⟩ := hclone
    exact .inl ⟨hnull.mp hnone, rfl, rfl⟩
  · have hne := hfresh.addr.1
    rw [if_neg hne, Prod.mk.injEq] at hclone
    obtain ⟨rfl, rfl⟩ := hclone
    have hempty : freePageCount s.pm ≠ 0 := fun heq => hne (hnull.mpr heq)
    refine .inr ⟨hempty, hne, fun ix hix => ?_⟩
    have hnew := hfresh.newSpace hloaded
    have hpm := copyKernelHalf_pm res.1 res.2
    generalize copyKernelHalf res.1 res.2 = s₁ at hnew hpm ⊢
    generalize res.2 = dst at *
    have hsd : src ≠ dst := by
      rintro rfl
      rw [IsSpace, hnew.unlabelled] at hsrc
      simp at hsrc
    have hext := extends_update hnew.unlabelled ⟨.space dst, ptLevelPml4, []⟩
    have hown : ∀ (q : Owner) (i : PtIndex), i.val < 256 → childOwner q ptLevelPml4 i = q := by
      intro q i hi
      unfold childOwner
      rw [if_neg fun hk => by omega]
    have hroom := cloneTable_room (o := .space src) (d := .space dst)
      (fun heq => hsd (Owner.space.inj heq)) ptLevelPml4 256 (le_refl _) hown hnew.ok
      (hext _ _ hsrc) (Function.update_self ..) hnew.empty
    have hlooks := hroom.lookups ix hix
    rw [hnew.sameLookups h.labelled ix ptLevelPml4 src _ _ hsrc, hpm, hcount,
      tablesUpTo_upper h hnew.upperKept ix (le_refl _) hsrc fun i hi => hown _ i
        (lt_of_le_of_lt hi hix)] at hlooks
    rw [pageLookup, pageLookup, hlooks]
    refine or_congr_right ?_
    omega

/--
**When a clone that is returned is whole.**  A clone that is returned has every user page of the
source, at its address, and one that is refused has taken no page, if and only if no page was free
or the free pages are more than the tables up to any mapped user page: the loops skip what they
cannot allocate.
-/
theorem paging_clone_whole_iff {s s' : Paging} {srcCr3 dst : Nat}
    (hok : SpaceOk s (srcCr3 &&& lnot64 0xFFF))
    (hclone : pagingCloneAddressSpace s srcCr3 = (s', dst)) :
    ((dst ≠ 0 → ∀ v < 2 ^ 47,
          (walkPageTable (loadSpace s (srcCr3 &&& lnot64 0xFFF)) v false).2 ≠ none →
            (walkPageTable (loadSpace s' dst) v false).2 ≠ none ∧
              virtToPhys (loadSpace s' dst) v =
                virtToPhys (loadSpace s (srcCr3 &&& lnot64 0xFFF)) v) ∧
        (dst = 0 → s'.pm = s.pm)) ↔
      freePageCount s.pm = 0 ∨ ∀ v < 2 ^ 47,
        (walkPageTable (loadSpace s (srcCr3 &&& lnot64 0xFFF)) v false).2 ≠ none →
          tablesUpTo s (ptIndex v) ptLevelPml4 (srcCr3 &&& lnot64 0xFFF) <
            freePageCount s.pm := by
  obtain ⟨lab, h, hsrc, hloaded⟩ := hok
  have hcases := h.clone hloaded hsrc
  have hroom := pagingClone_room h hloaded hsrc hclone
  rw [hclone] at hcases
  generalize srcCr3 &&& lnot64 0xFFF = src at hsrc hcases hroom ⊢
  have hsrc0 : src ≠ 0 := (h.addr src (by rw [hsrc]; simp)).1
  rcases hroom with ⟨hempty, rfl, hpm⟩ | ⟨hempty, hne, hlooks⟩
  · exact ⟨fun _ => .inl hempty, fun _ => ⟨fun hne => absurd rfl hne, fun _ => hpm⟩⟩
  · rw [or_iff_right hempty, and_iff_left fun hnull => absurd hnull hne]
    have hwalk : ∀ v, ((walkPageTable (loadSpace s' dst) v false).2 = none ↔
        pageLookup s' dst (ptIndex v) = none) ∧
          ((walkPageTable (loadSpace s src) v false).2 = none ↔
            pageLookup s src (ptIndex v) = none) := fun v =>
      ⟨walk_none_iff (s := loadSpace s' dst) hne v, walk_none_iff (s := loadSpace s src) hsrc0 v⟩
    constructor
    · intro hwhole v hv hmapped
      obtain ⟨hpresent, -⟩ := hwhole hne v hv hmapped
      rw [Ne, (hwalk v).1, hlooks _ (userHalf_ptIndex hv), not_or, not_le] at hpresent
      exact hpresent.2
    · intro hfits _ v hv hmapped
      have hpresent : pageLookup s' dst (ptIndex v) ≠ none := by
        rw [Ne, hlooks _ (userHalf_ptIndex hv), not_or, not_le]
        exact ⟨fun hnone => hmapped ((hwalk v).2.mpr hnone), hfits v hv hmapped⟩
      refine ⟨fun hnone => hpresent ((hwalk v).1.mp hnone), ?_⟩
      rcases hcases with hnull | ⟨s₁, dst₁, lab', heq, -, hcloned⟩
      · exact absurd (Prod.mk.inj hnull).2 hne
      · obtain ⟨rfl, rfl⟩ := Prod.mk.inj heq
        have hcopied := (hcloned.copied _ (userHalf_ptIndex hv)).resolve_right
          fun hgap => hpresent hgap.2.1
        rw [virtToPhys_eq (s := loadSpace s' dst) hne, virtToPhys_eq (s := loadSpace s src) hsrc0]
        show leafPhys (pageLookup s' dst _) v = leafPhys (pageLookup s src _) v
        rw [hcopied.1, leafPhys_cow]

/-- The tables of the stack space lie behind each other. -/
theorem stackSpace_upTo {s : Paging} (hmem : s.mem = stackSpace.mem) (ix : Nat → PtIndex) :
    tablesUpTo s ix ptLevelPml4 0x1000 =
      if ix 3 = 255 then if ix 2 = 511 then if ix 1 = 511 then 3 else 2 else 1 else 0 := by
  have hread : ∀ t i, readPte s t i = readPte stackSpace t i := by
    intro t i
    rw [readPte, readPte, hmem]
  have hbelow : ∀ (level src : Nat) (i : PtIndex),
      (src, i) ∈ [(0x1000, (255 : PtIndex)), (0x2000, 511), (0x3000, 511)] →
        pagesBelow s (level + 1) i.val src = [] := by
    intro level src i hin
    rw [pagesBelow, List.flatMap_eq_nil_iff]
    intro j hj
    have hji : j ≠ i := by
      rintro rfl
      exact lt_irrefl _ (mem_ptIndexes.mp hj)
    refine entryPages_nil fun p => ?_
    rw [hread, stackSpace_rest src i hin j hji, pteSlot_zero]
    exact Slot.noConfusion
  have hstep : ∀ (level src child : Nat) (i : PtIndex),
      (src, i) ∈ [(0x1000, (255 : PtIndex)), (0x2000, 511), (0x3000, 511)] →
        pteSlot (level + 1) (readPte stackSpace src i) = .table child →
          tablesUpTo s ix (level + 1) src =
            if ix (level + 1) = i then 1 + tablesUpTo s ix level child else 0 := by
    intro level src child i hin hslot
    rw [tablesUpTo, hread]
    by_cases hix : ix (level + 1) = i
    · rw [if_pos hix, hix, hslot, hbelow level src i hin, List.length_nil]
      exact Nat.zero_add _
    · rw [if_neg hix, stackSpace_rest src i hin _ hix, pteSlot_zero]
  rw [show ptLevelPml4 = 2 + 1 from rfl, hstep 2 0x1000 0x2000 255 (by decide) (by decide),
    hstep 1 0x2000 0x3000 511 (by decide) (by decide),
    hstep 0 0x3000 0x4000 511 (by decide) (by decide), tablesUpTo]
  split_ifs <;> rfl

/-- The stack space has room for its three tables. -/
theorem paging_clone_whole_stack :
    ∃ s' dst, pagingCloneAddressSpace stackSpace 0x1000 = (s', dst) ∧
      (dst ≠ 0 → (walkPageTable (loadSpace s' dst) 0x7FFFFFFFF123 false).2 ≠ none ∧
        virtToPhys (loadSpace s' dst) 0x7FFFFFFFF123 = 0x800123) := by
  have hroot : (0x1000 : Nat) &&& lnot64 0xFFF = 0x1000 := by decide
  have hok : SpaceOk stackSpace (0x1000 &&& lnot64 0xFFF) := by
    rw [hroot]
    exact stackSpace_ok
  have hfree : freePageCount stackSpace.pm = 64 := by decide +kernel
  obtain ⟨res, hclone⟩ : ∃ res, pagingCloneAddressSpace stackSpace 0x1000 = res := ⟨_, rfl⟩
  obtain ⟨s', dst⟩ := res
  obtain ⟨hwhole, -⟩ := (paging_clone_whole_iff hok hclone).mpr (.inr fun v _ _ => by
    rw [hroot, stackSpace_upTo rfl, hfree]
    split_ifs <;> decide)
  refine ⟨s', dst, hclone, fun hne => ?_⟩
  obtain ⟨hmapped, hphys⟩ := hwhole hne 0x7FFFFFFFF123 (by decide) (by decide +kernel)
  rw [hroot] at hphys
  exact ⟨hmapped, hphys.trans (by decide +kernel)⟩

/-- An allocator with one page left. -/
def lastPage : Pmem :=
  { freshPmem with
    bitmap := fun i => if i = 0 then 0xFFFFFFFFFFFFFFFE else BitVec.allOnes 64
    freePages := 1 }

theorem lastPage_free {i : Nat} (hi : PageFree lastPage i) : PageFree freshPmem i := by
  refine ⟨hi.1, ?_⟩
  have hbit := hi.2
  rw [bitmapTest] at hbit ⊢
  by_cases hword : i / 64 = 0
  · rw [show freshPmem.bitmap (i / 64) = 0 by rw [hword]; rfl]
    rw [bitTest_eq_getLsbD]
    exact BitVec.getLsbD_zero
  · rw [show lastPage.bitmap (i / 64) = freshPmem.bitmap (i / 64) by
      rw [lastPage, freshPmem]
      dsimp only
      rw [if_neg hword, if_neg hword]] at hbit
    exact hbit

/-- The space with a stack page, with one free page for its clone. -/
def tightSpace : Paging := { stackSpace with pm := lastPage }

theorem tightSpace_tables : TablesOk tightSpace stackLabels := by
  refine ⟨stackSpace_tables.labelled, ?_, stackSpace_tables.addr, freshPmem_sane.aligned,
    freshPmem_sane.pos, fun i hi => freshPmem_sane.below i (lastPage_free hi)⟩
  rintro t ht ⟨i, hi, heq⟩
  exact stackSpace_tables.used t ht ⟨i, lastPage_free hi, heq⟩

/-- With one page left the clone is returned, and is without the stack. -/
theorem paging_clone_partial :
    SpaceOk tightSpace 0x1000 ∧ (walkPageTable tightSpace 0x7FFFFFFFF123 false).2 ≠ none ∧
      ∃ s' dst, pagingCloneAddressSpace tightSpace 0x1000 = (s', dst) ∧ dst ≠ 0 ∧
        (walkPageTable (loadSpace s' dst) 0x7FFFFFFFF123 false).2 = none := by
  have hroot : (0x1000 : Nat) &&& lnot64 0xFFF = 0x1000 := by decide
  have hspace : IsSpace stackLabels (0x1000 &&& lnot64 0xFFF) := by
    rw [hroot]
    rfl
  have hfree : freePageCount tightSpace.pm = 1 := by decide +kernel
  obtain ⟨res, hclone⟩ : ∃ res, pagingCloneAddressSpace tightSpace 0x1000 = res := ⟨_, rfl⟩
  obtain ⟨s', dst⟩ := res
  refine ⟨⟨stackLabels, tightSpace_tables, rfl, .inr rfl⟩, by decide +kernel, s', dst, hclone, ?_⟩
  rcases pagingClone_room tightSpace_tables (.inr rfl) hspace hclone with
    ⟨hempty, -⟩ | ⟨-, hne, hlooks⟩
  · rw [hfree] at hempty
    exact absurd hempty (by decide)
  · refine ⟨hne, (walk_none_iff (s := loadSpace s' dst) hne _).mpr ?_⟩
    refine (hlooks _ (userHalf_ptIndex (by decide))).mpr (.inr ?_)
    rw [hroot, hfree, stackSpace_upTo (show tightSpace.mem = stackSpace.mem from rfl)]
    decide +kernel

end BrightS
