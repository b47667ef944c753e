/-
Cloning an address space.

The nested loops of the clone go through the entries of a source table one at a time.
What one entry contributes is a `Cloned` for the single index; contributions of
different indexes compose (`Cloned.trans`), and the loop of a level is the contribution
of its entries (`cloneTable_cloned`, by induction on the level and then on the
indexes).  A page that cannot be allocated leaves a gap in the copy and nothing else.
-/
import BrightS.Proofs.PagingMap

namespace BrightS

open Radix Words

/-! ### Entries without write permission -/

/-- What copy-on-write makes of an entry. -/
def cowEntry (e : Nat) : Nat := e &&& lnot64 pteFlagWritable

theorem cowEntry_present (e : Nat) : ptePresent (cowEntry e) ↔ ptePresent e := by
  rw [ptePresent, ptePresent, cowEntry, Nat.and_assoc,
    show lnot64 pteFlagWritable &&& pteFlagPresent = pteFlagPresent by decide]

theorem cowEntry_huge (e : Nat) : pteHuge (cowEntry e) ↔ pteHuge e := by
  rw [pteHuge, pteHuge, cowEntry, Nat.and_assoc,
    show lnot64 pteFlagWritable &&& pteFlagHuge = pteFlagHuge by decide]

theorem cowEntry_not_writable (e : Nat) : ¬ pteWritable (cowEntry e) := by
  rw [pteWritable, cowEntry, Nat.and_assoc,
    show lnot64 pteFlagWritable &&& pteFlagWritable = 0 by decide]
  simp

theorem cowEntry_physOf (e virt : Nat) : physOf (cowEntry e) virt = physOf e virt := by
  unfold physOf
  by_cases hh : pteHuge e
  · rw [if_pos ((cowEntry_huge e).mpr hh), if_pos hh, cowEntry, Nat.and_assoc,
      show lnot64 pteFlagWritable &&& lnot64 0x1FFFFF = lnot64 0x1FFFFF by decide]
  · rw [if_neg (fun h => hh ((cowEntry_huge e).mp h)), if_neg hh, cowEntry, Nat.and_assoc,
      show lnot64 pteFlagWritable &&& lnot64 0xFFF = lnot64 0xFFF by decide]

theorem cowEntry_lt {e : Nat} (he : e < 2 ^ 64) : cowEntry e < 2 ^ 64 :=
  Nat.lt_of_le_of_lt Nat.and_le_left he

/-- Leaves of the lowest level lose write permission, larger ones are shared as they are. -/
def cow : Option (Nat × Nat) → Option (Nat × Nat)
  | some (0, e) => some (0, cowEntry e)
  | leaf => leaf

/-- The entry that links the copy of a table. -/
theorem pteSlot_copy {new e : Nat} (halign : new % 4096 = 0) (hlt : new + 4096 ≤ 2 ^ 52)
    (hp : ptePresent e) (hh : ¬ pteHuge e) (level : Nat) :
    pteSlot (level + 1) (new ||| (e &&& 0xFFF)) = .table new ∧ new ||| (e &&& 0xFFF) < 2 ^ 64 := by
  rw [ptePresent_iff] at hp
  rw [pteHuge_iff] at hh
  have heq : new ||| (e &&& 0xFFF) = new + e % 4096 := by
    rw [and_fff, or_eq_add halign (by omega)]
  rw [heq]
  refine ⟨?_, by omega⟩
  rw [pteSlot_table (by rw [ptePresent_iff]; omega) (by rw [pteHuge_iff]; omega),
    pteAddr_eq (by omega)]
  congr 1
  omega

/-! ### Copying entries -/

/-- `s'` is `s` after the entries `done` of the table `src` were copied into `dst`.  Outside
`dst`, only page tables of the source may differ, below `path`. -/
structure Cloned (level src dst : Nat) (o : Owner) (path : List PtIndex) (s s' : Paging)
    (lab lab' : Labels) (done : PtIndex → Prop) : Prop where
  labels : Extends lab lab'
  ok : TablesOk s' lab'
  pml4Table : s'.pml4Table = s.pml4Table
  failed : s.allocFailed = true → s'.allocFailed = true
  others : ∀ t o₁ level₁ path₁, lab t = some ⟨o₁, level₁, path₁⟩ → t ≠ dst →
    ¬ (o₁ = o ∧ level₁ = 0 ∧ path <+: path₁) → ∀ j, readPte s' t j = readPte s t j
  rest : ∀ j, ¬ done j → readPte s' dst j = readPte s dst j
  copied : ∀ ix, done (ix level) →
    (lookup pteSlot (readPte s') ix level dst = cow (lookup pteSlot (readPte s) ix level src) ∧
      lookup pteSlot (readPte s') ix level src = cow (lookup pteSlot (readPte s) ix level src)) ∨
    (s'.allocFailed = true ∧ lookup pteSlot (readPte s') ix level dst = none ∧
      lookup pteSlot (readPte s') ix level src = lookup pteSlot (readPte s) ix level src)
  keptSrc : ∀ ix, ¬ done (ix level) →
    lookup pteSlot (readPte s') ix level src = lookup pteSlot (readPte s) ix level src
  keptDst : ∀ ix, ¬ done (ix level) →
    lookup pteSlot (readPte s') ix level dst = lookup pteSlot (readPte s) ix level dst

section Copy

variable {level src dst : Nat} {o d : Owner} {path : List PtIndex} {s s' s'' : Paging}
  {lab lab' lab'' : Labels} {done done' : PtIndex → Prop}

theorem Cloned.refl (h : TablesOk s lab) (hnone : ∀ i, ¬ done i) :
    Cloned level src dst o path s s lab lab done :=
  ⟨.refl lab, h, rfl, id, fun _ _ _ _ _ _ _ _ => rfl, fun _ _ => rfl,
    fun _ hix => absurd hix (hnone _), fun _ _ => rfl, fun _ _ => rfl⟩

/-- The contributions of different indexes add up. -/
theorem Cloned.trans (h : Cloned level src dst o path s s' lab lab' done)
    (h' : Cloned level src dst o path s' s'' lab' lab'' done')
    (hdisj : ∀ i, done i → ¬ done' i) :
    Cloned level src dst o path s s'' lab lab'' (fun i => done i ∨ done' i) := by
  refine ⟨h.labels.trans h'.labels, h'.ok, h'.pml4Table.trans h.pml4Table,
    fun hf => h'.failed (h.failed hf), ?_, ?_, ?_, ?_, ?_⟩
  · intro t o₁ level₁ path₁ ht hne hout j
    rw [h'.others t o₁ level₁ path₁ (h.labels _ _ ht) hne hout, h.others t o₁ level₁ path₁ ht hne hout]
  · intro j hj
    rw [not_or] at hj
    rw [h'.rest j hj.2, h.rest j hj.1]
  · rintro ix (hix | hix)
    · -- Copied by the first part, and left alone by the second.
      have hnot := hdisj _ hix
      rw [h'.keptSrc ix hnot, h'.keptDst ix hnot]
      exact (h.copied ix hix).imp_right fun hgap => ⟨h'.failed hgap.1, hgap.2⟩
    · have hnot : ¬ done (ix level) := fun hd => hdisj _ hd hix
      rw [← h.keptSrc ix hnot]
      exact h'.copied ix hix
  · intro ix hix
    rw [not_or] at hix
    rw [h'.keptSrc ix hix.2, h.keptSrc ix hix.1]
  · intro ix hix
    rw [not_or] at hix
    rw [h'.keptDst ix hix.2, h.keptDst ix hix.1]

theorem Cloned.congr (h : Cloned level src dst o path s s' lab lab' done)
    (hiff : ∀ i, done i ↔ done' i) : Cloned level src dst o path s s' lab lab' done' :=
  ⟨h.labels, h.ok, h.pml4Table, h.failed, h.others, fun j hj => h.rest j (fun hd => hj ((hiff j).mp hd)),
    fun ix hix => h.copied ix ((hiff _).mpr hix),
    fun ix hix => h.keptSrc ix (fun hd => hix ((hiff _).mp hd)),
    fun ix hix => h.keptDst ix (fun hd => hix ((hiff _).mp hd))⟩

/-- The loop over the entries, given what one entry contributes. -/
theorem Cloned.loop {f : Paging → PtIndex → Paging} {P : PtIndex → Prop}
    (hstep : ∀ s lab i, TablesOk s lab → lab src = some ⟨o, level, path⟩ →
      lab dst = some ⟨d, level, path⟩ → P i → readPte s dst i = 0 →
        ∃ lab', Cloned level src dst o path s (f s i) lab lab' (· = i)) :
    ∀ (l : List PtIndex) {s : Paging} {lab : Labels}, TablesOk s lab →
      lab src = some ⟨o, level, path⟩ → lab dst = some ⟨d, level, path⟩ → l.Nodup →
      (∀ i ∈ l, P i) → (∀ i ∈ l, readPte s dst i = 0) →
        ∃ lab', Cloned level src dst o path s (l.foldl f s) lab lab' (· ∈ l) := by
  intro l
  induction l with
  | nil =>
      intro s lab h _ _ _ _ _
      exact ⟨lab, Cloned.refl h fun i hi => absurd hi (by simp)⟩
  | cons i rest ih =>
      intro s lab h hsrc hdst hnodup hP hzero
      rw [List.nodup_cons] at hnodup
      obtain ⟨lab₁, hone⟩ := hstep s lab i h hsrc hdst (hP i (by simp)) (hzero i (by simp))
      have hzero₁ : ∀ j ∈ rest, readPte (f s i) dst j = 0 := by
        intro j hj
        rw [hone.rest j (fun hji => hnodup.1 (hji ▸ hj))]
        exact hzero j (List.mem_cons_of_mem _ hj)
      obtain ⟨lab₂, hrest⟩ := ih hone.ok (hone.labels _ _ hsrc) (hone.labels _ _ hdst) hnodup.2
        (fun j hj => hP j (List.mem_cons_of_mem _ hj)) hzero₁
      refine ⟨lab₂, (hone.trans hrest ?_).congr fun j => List.mem_cons.symm⟩
      rintro j rfl hj
      exact hnodup.1 hj

theorem lookup_lowest (m : Nat → PtIndex → Nat) (ix : Nat → PtIndex) (t : Nat) :
    lookup pteSlot m ix 0 t = leafOf pteSlot 0 (m t (ix 0)) := by
  rw [lookup, leafOf]
  cases pteSlot 0 (m t (ix 0)) <;> rfl

theorem leafOf_absent {e : Nat} (h : ¬ ptePresent e) (level : Nat) :
    leafOf pteSlot level e = none := by
  rw [leafOf, pteSlot_absent h]

theorem leafOf_present {e level : Nat} (h : ptePresent e) (hleaf : pteHuge e ∨ level = 0) :
    leafOf pteSlot level e = some (level, e) := by
  rw [leafOf, pteSlot_leaf h hleaf]

/-- What the copy of an entry of a lowest table leaves on both sides. -/
def cowLowest (e : Nat) : Nat := if ptePresent e then cowEntry e else e

theorem cowLowest_lt {e : Nat} (he : e < 2 ^ 64) : cowLowest e < 2 ^ 64 := by
  unfold cowLowest
  split
  · exact cowEntry_lt he
  · exact he

theorem leafOf_cowLowest (e : Nat) :
    leafOf pteSlot 0 (cowLowest e) = cow (leafOf pteSlot 0 e) := by
  unfold cowLowest
  split
  · rename_i hp
    rw [leafOf_present hp (Or.inr rfl), leafOf_present ((cowEntry_present e).mpr hp) (Or.inr rfl)]
    rfl
  · rename_i hp
    rw [leafOf_absent hp]
    rfl

theorem clonePte_eq (src dst : Nat) (s : Paging) (i : PtIndex) :
    clonePte src dst s i = writePte s dst i (cowLowest (readPte s src i)) ∧
        cowLowest (readPte s src i) = readPte s src i ∨
      clonePte src dst s i = writePte (writePte s src i (cowLowest (readPte s src i))) dst i
        (cowLowest (readPte s src i)) := by
  unfold clonePte cowLowest
  by_cases hp : ptePresent (readPte s src i)
  · right
    rw [if_pos hp]
    dsimp only
    rw [if_neg (not_not_intro hp)]
    rfl
  · left
    rw [if_neg hp]
    dsimp only
    rw [if_pos hp]
    exact ⟨rfl, rfl⟩

/-- The copy writes entry `i` of both tables and nothing else. -/
theorem readPte_clonePte (src dst : Nat) (s : Paging) (i : PtIndex) (t : Nat) (j : PtIndex) :
    readPte (clonePte src dst s i) t j =
      if (t = src ∨ t = dst) ∧ j = i then cowLowest (readPte s src i) else readPte s t j := by
  have hc := cowLowest_lt (readPte_lt s src i)
  rcases clonePte_eq src dst s i with ⟨heq, hsame⟩ | heq
  · rw [heq, readPte_writePte s dst t i j hc]
    by_cases hj : j = i
    · by_cases ht : t = dst
      · rw [if_pos ⟨ht, hj⟩, if_pos ⟨Or.inr ht, hj⟩]
      · rw [if_neg (fun h => ht h.1)]
        by_cases hts : t = src
        · rw [if_pos ⟨Or.inl hts, hj⟩, hsame, hts, hj]
        · rw [if_neg (by tauto)]
    · rw [if_neg (fun h => hj h.2), if_neg (fun h => hj h.2)]
  · rw [heq, readPte_writePte _ dst t i j hc, readPte_writePte s src t i j hc]
    by_cases hj : j = i <;> by_cases ht : t = dst <;> by_cases hts : t = src <;> simp [hj, ht, hts]

/-- What one entry of a lowest table contributes. -/
theorem clonePte_cloned (h : TablesOk s lab) (hsrc : lab src = some ⟨o, 0, path⟩)
    (hdst : lab dst = some ⟨d, 0, path⟩) (i : PtIndex) :
    Cloned 0 src dst o path s (clonePte src dst s i) lab lab (· = i) := by
  have hc := cowLowest_lt (readPte_lt s src i)
  have hread := readPte_clonePte src dst s i
  have hkept : ∀ t j, j ≠ i → readPte (clonePte src dst s i) t j = readPte s t j := by
    intro t j hj
    rw [hread, if_neg (fun hw => hj hw.2)]
  refine ⟨.refl lab, ?_, ?_, ?_, ?_, fun j hj => hkept dst j hj, ?_, ?_, ?_⟩
  · rcases clonePte_eq src dst s i with ⟨heq, -⟩ | heq
    · rw [heq]
      exact h.write_leaf hdst hc (pteSlot_lowest _)
    · rw [heq]
      exact (h.write_leaf hsrc hc (pteSlot_lowest _)).write_leaf hdst hc (pteSlot_lowest _)
  · rcases clonePte_eq src dst s i with ⟨heq, -⟩ | heq <;> rw [heq] <;> rfl
  · rcases clonePte_eq src dst s i with ⟨heq, -⟩ | heq <;> rw [heq] <;> exact id
  · intro t o₁ level₁ path₁ ht hnd hout j
    have hns : t ≠ src := by
      rintro rfl
      rw [hsrc, Option.some.injEq, Label.mk.injEq] at ht
      obtain ⟨rfl, rfl, rfl⟩ := ht
      exact hout ⟨rfl, rfl, List.prefix_refl _⟩
    rw [hread, if_neg (by tauto)]
  · rintro ix rfl
    left
    rw [lookup_lowest, lookup_lowest, lookup_lowest, hread src, if_pos ⟨Or.inl rfl, rfl⟩,
      hread dst, if_pos ⟨Or.inr rfl, rfl⟩, leafOf_cowLowest]
    exact ⟨rfl, rfl⟩
  · intro ix hix
    rw [lookup_lowest, lookup_lowest, hkept _ _ hix]
  · intro ix hix
    rw [lookup_lowest, lookup_lowest, hkept _ _ hix]

/-- A shared huge page, or an entry that stays empty. -/
theorem TablesOk.cloned_leaf (h : TablesOk s lab) (hsrc : lab src = some ⟨o, level, path⟩)
    (hdst : lab dst = some ⟨d, level, path⟩) (hne : src ≠ dst) {i : PtIndex} {e : Nat}
    (he : e < 2 ^ 64) (hleaf : ∀ p, pteSlot level e ≠ .table p)
    (hcopy : ∀ ix : Nat → PtIndex, ix level = i →
      (leafOf pteSlot level e = cow (lookup pteSlot (readPte s) ix level src) ∧
        lookup pteSlot (readPte s) ix level src = cow (lookup pteSlot (readPte s) ix level src)) ∨
      (s.allocFailed = true ∧ leafOf pteSlot level e = none)) :
    Cloned level src dst o path s (writePte s dst i e) lab lab (· = i) := by
  have hsame := sameBut_writePte lab s dst i e
  have hlookSrc : ∀ ix, lookup pteSlot (readPte (writePte s dst i e)) ix level src =
      lookup pteSlot (readPte s) ix level src := fun ix =>
    lookup_write_miss h.labelled hdst hsame hsrc fun hhit => hne hhit.1.same_level.symm
  refine ⟨.refl lab, h.write_leaf hdst he hleaf, rfl, id,
    fun t _ _ _ _ ht _ j => readPte_writePte_of_ne s (Or.inl ht),
    fun j hj => readPte_writePte_of_ne s (Or.inr hj), ?_, fun ix _ => hlookSrc ix, ?_⟩
  · rintro ix hix
    have hread := readPte_writePte_self s dst i he
    have hlookDst : lookup pteSlot (readPte (writePte s dst i e)) ix level dst =
        leafOf pteSlot level e := by
      rw [lookup_write_hit h.labelled hsame (by rw [hread]; exact hleaf) (.here level dst) hix hdst,
        hread]
    rw [hlookSrc, hlookDst]
    rcases hcopy ix hix with ⟨hd, hs⟩ | ⟨hf, hd⟩
    · exact Or.inl ⟨hd, hs⟩
    · exact Or.inr ⟨hf, hd, rfl⟩
  · intro ix hix
    exact lookup_write_miss h.labelled hdst hsame hdst fun hhit => hix hhit.2

/-- A table behind a new link, after the tables below were copied. -/
theorem FreshTable.cloned_below {new child e : Nat} {i : PtIndex} (hf : FreshTable s s' lab new)
    (h : TablesOk s lab) (hsrc : lab src = some ⟨o, level + 1, path⟩)
    (hdst : lab dst = some ⟨d, level + 1, path⟩) (hod : o ≠ d)
    (hzero : readPte s dst i = 0)
    (htable : pteSlot (level + 1) (readPte s src i) = .table child)
    (he : e < 2 ^ 64) (hlink : pteSlot (level + 1) e = .table new)
    (hbelow : Cloned level child new o (path ++ [i]) (writePte s' dst i e) s''
      (Function.update lab new (some ⟨d, level, path ++ [i]⟩)) lab'' (fun _ => True)) :
    Cloned (level + 1) src dst o path s s'' lab lab'' (· = i) := by
  have hext := extends_update hf.unlabelled ⟨d, level, path ++ [i]⟩
  have hnew : ∀ {u}, lab u ≠ none → u ≠ new := by
    rintro u hu rfl
    exact hu hf.unlabelled
  obtain ⟨-, hlooks⟩ := hf.link h.labelled hdst (by rw [hzero, pteSlot_zero]) he hlink
  -- Below, only lowest tables of the source behind entry `i` change.
  have hbelow' : ∀ u o₁ level₁ path₁, lab u = some ⟨o₁, level₁, path₁⟩ →
      ¬ (o₁ = o ∧ level₁ = 0 ∧ path ++ [i] <+: path₁) →
        ∀ j, readPte s'' u j = readPte (writePte s' dst i e) u j := fun u o₁ level₁ path₁ hu hout =>
    hbelow.others u o₁ level₁ path₁ (hext _ _ hu) (hnew (by rw [hu]; simp)) hout
  have hkeep : ∀ u o₁ level₁ path₁, lab u = some ⟨o₁, level₁, path₁⟩ →
      ¬ (o₁ = o ∧ level₁ = 0 ∧ path ++ [i] <+: path₁) → ∀ j, u ≠ dst ∨ j ≠ i →
        readPte s'' u j = readPte s u j := by
    intro u o₁ level₁ path₁ hu hout j hdiff
    rw [hbelow' u o₁ level₁ path₁ hu hout, readPte_writePte_of_ne s' hdiff,
      hf.others u j (hnew (by rw [hu]; simp))]
  have hsd : src ≠ dst := by
    rintro rfl
    rw [hsrc, Option.some.injEq, Label.mk.injEq] at hdst
    exact hod hdst.1
  have hsrcRead : ∀ j, readPte s'' src j = readPte s src j := fun j =>
    hkeep src _ _ _ hsrc (by simp) j (Or.inl hsd)
  have hdstRead : ∀ j, j ≠ i → readPte s'' dst j = readPte s dst j := fun j hj =>
    hkeep dst _ _ _ hdst (by simp) j (Or.inr hj)
  -- The pages behind another entry are not touched.
  have hbranch : ∀ {ix : Nat → PtIndex}, ix (level + 1) ≠ i → ∀ u o₁ level₁ path₁,
      lab u = some ⟨o₁, level₁, path₁⟩ → path ++ [ix (level + 1)] <+: path₁ →
        ∀ j, readPte s'' u j = readPte s u j := by
    intro ix hix u o₁ level₁ path₁ hu hpre j
    refine hkeep u o₁ level₁ path₁ hu (fun hout => hix (prefix_concat_inj hpre hout.2.2)) j
      (Or.inl ?_)
    rintro rfl
    rw [hdst, Option.some.injEq, Label.mk.injEq] at hu
    obtain ⟨-, -, rfl⟩ := hu
    have := hpre.length_le
    simp at this
  refine ⟨hext.trans hbelow.labels, hbelow.ok, hbelow.pml4Table.trans hf.pml4Table,
    fun hfail => hbelow.failed (hf.allocFailed.trans hfail), ?_, hdstRead, ?_, ?_, ?_⟩
  · intro t o₁ level₁ path₁ ht hnd hout j
    refine hkeep t o₁ level₁ path₁ ht (fun hin => hout ⟨hin.1, hin.2.1, ?_⟩) j (Or.inl hnd)
    exact (List.prefix_append path [i]).trans hin.2.2
  · rintro ix rfl
    have hchild : lab child = some ⟨childOwner o (level + 1) (ix (level + 1)), level,
        path ++ [ix (level + 1)]⟩ := by
      obtain ⟨level₁, heq, hlab⟩ := h.labelled.child _ _ _ _ hsrc _ _ htable
      obtain rfl := Nat.succ.inj heq
      exact hlab
    have hdstEntry : readPte s'' dst (ix (level + 1)) = e := by
      rw [hbelow' dst _ _ _ hdst (by simp), readPte_writePte_self s' dst _ he]
    have hcopied := hbelow.copied ix trivial
    rw [hlooks ix level child _ _ hchild] at hcopied
    have hsrcTable : pteSlot (level + 1) (readPte s'' src (ix (level + 1))) = .table child := by
      rw [hsrcRead]
      exact htable
    have hdstTable : pteSlot (level + 1) (readPte s'' dst (ix (level + 1))) = .table new := by
      rw [hdstEntry]
      exact hlink
    rw [lookup_table htable, lookup_table hsrcTable, lookup_table hdstTable]
    exact hcopied
  · intro ix hix
    exact lookup_branch h.labelled hsrc (hsrcRead _) (hbranch hix)
  · intro ix hix
    exact lookup_branch h.labelled hdst (hdstRead _ hix) (hbranch hix)

/-- What one entry of a table above the lowest level contributes, given what the tables below
contribute. -/
theorem cloneUpper_cloned {below : Nat → Nat → Paging → Paging} (hod : o ≠ d)
    (hbelow : ∀ {s lab src dst path}, TablesOk s lab → lab src = some ⟨o, level, path⟩ →
      lab dst = some ⟨d, level, path⟩ → (∀ j, readPte s dst j = 0) →
        ∃ lab', Cloned level src dst o path s (below src dst s) lab lab' (fun _ => True))
    (h : TablesOk s lab) (hsrc : lab src = some ⟨o, level + 1, path⟩)
    (hdst : lab dst = some ⟨d, level + 1, path⟩) {i : PtIndex}
    (hown : ∀ o, childOwner o (level + 1) i = o) (hzero : readPte s dst i = 0) :
    ∃ lab', Cloned (level + 1) src dst o path s (cloneUpper below src dst s i) lab lab'
      (· = i) := by
  have hsd : src ≠ dst := by
    rintro rfl
    rw [hsrc, Option.some.injEq, Label.mk.injEq] at hdst
    exact hod hdst.1
  have he := readPte_lt s src i
  unfold cloneUpper
  dsimp only
  by_cases hp : ptePresent (readPte s src i)
  · rw [if_neg (not_not_intro hp)]
    by_cases hh : pteHuge (readPte s src i)
    · rw [if_pos hh]
      have hslot : pteSlot (level + 1) (readPte s src i) = .leaf := pteSlot_leaf hp (Or.inl hh)
      refine ⟨lab, h.cloned_leaf hsrc hdst hsd he (fun p => by rw [hslot]; exact Slot.noConfusion)
        ?_⟩
      rintro ix rfl
      rw [lookup, hslot, leafOf, hslot]
      exact Or.inl ⟨rfl, rfl⟩
    · rw [if_neg hh]
      have htable := pteSlot_table hp hh level
      have halloc := h.alloc
      generalize allocPtPage s = res at halloc
      rcases halloc with ⟨hnull, heq⟩ | hfresh
      · rw [if_pos hnull, heq]
        have hslot := pteSlot_zero (level + 1)
        have hgap : Cloned (level + 1) src dst o path { s with allocFailed := true }
            (writePte { s with allocFailed := true } dst i 0) lab lab (· = i) :=
          h.failed.1.cloned_leaf hsrc hdst hsd (by decide)
            (fun p => by rw [hslot]; exact Slot.noConfusion)
            (fun ix _ => Or.inr ⟨rfl, by rw [leafOf, hslot]⟩)
        exact ⟨lab, hgap.labels, hgap.ok, hgap.pml4Table, fun _ => rfl, hgap.others, hgap.rest,
          hgap.copied, hgap.keptSrc, hgap.keptDst⟩
      · obtain ⟨hne, halign, hlt⟩ := hfresh.addr
        rw [if_neg hne]
        have hread : readPte res.1 src i = readPte s src i := by
          refine hfresh.others src i ?_
          rintro rfl
          rw [hfresh.unlabelled] at hsrc
          simp at hsrc
        rw [hread]
        obtain ⟨hlink, hlt'⟩ := pteSlot_copy halign hlt hp hh level
        obtain ⟨hok, -⟩ := hfresh.link h.labelled hdst (by rw [hzero, pteSlot_zero]) hlt' hlink
        rw [hown] at hok
        obtain ⟨level₁, heq, hchild⟩ := h.labelled.child _ _ _ _ hsrc _ _ htable
        obtain rfl := Nat.succ.inj heq
        rw [hown] at hchild
        obtain ⟨lab', hcloned⟩ := hbelow hok (extends_update hfresh.unlabelled _ _ _ hchild)
          (Function.update_self ..) (fun j => by
            rw [readPte_writePte_of_ne res.1 (Or.inl ?_), hfresh.empty]
            rintro heq
            rw [← heq, hfresh.unlabelled] at hdst
            simp at hdst)
        exact ⟨lab', hfresh.cloned_below h hsrc hdst hod hzero htable hlt' hlink hcloned⟩
  · rw [if_pos hp]
    refine ⟨lab, .refl lab, h, rfl, id, fun _ _ _ _ _ _ _ _ => rfl, fun _ _ => rfl, ?_,
      fun _ _ => rfl, fun _ _ => rfl⟩
    rintro ix rfl
    left
    rw [lookup, hzero, pteSlot_zero, lookup, pteSlot_absent hp]
    exact ⟨rfl, rfl⟩

theorem mem_ptIndexes {n : Nat} {i : PtIndex} : i ∈ ptIndexes n ↔ i.val < n := by
  simp [ptIndexes]

theorem ptIndexes_nodup (n : Nat) : (ptIndexes n).Nodup :=
  (List.nodup_finRange 512).filter _

/-- The nested loops copy what is behind the first `n` entries.  Below the top table that is
everything, and all of it belongs to the space. -/
theorem cloneTable_cloned (hod : o ≠ d) : ∀ (level n : Nat), level ≤ ptLevelPml4 →
    (∀ (q : Owner) (i : PtIndex), i.val < n → childOwner q level i = q) →
    ∀ {s lab src dst path}, TablesOk s lab → lab src = some ⟨o, level, path⟩ →
      lab dst = some ⟨d, level, path⟩ → (∀ j : PtIndex, j.val < n → readPte s dst j = 0) →
        ∃ lab', Cloned level src dst o path s (cloneTable level n src dst s) lab lab'
          (fun i => i.val < n) := by
  intro level
  induction level with
  | zero =>
      intro n _ _ s lab src dst path h hsrc hdst hzero
      obtain ⟨lab', hcloned⟩ := Cloned.loop (f := clonePte src dst) (P := fun _ => True)
        (fun s lab i hok hs hd _ _ => ⟨lab, clonePte_cloned hok hs hd i⟩) (ptIndexes n) h hsrc hdst
        (ptIndexes_nodup n) (fun _ _ => trivial) (fun i hi => hzero i (mem_ptIndexes.mp hi))
      exact ⟨lab', hcloned.congr fun i => mem_ptIndexes⟩
  | succ level ih =>
      intro n hle hown s lab src dst path h hsrc hdst hzero
      have hbelow : ∀ {s lab src dst path}, TablesOk s lab → lab src = some ⟨o, level, path⟩ →
          lab dst = some ⟨d, level, path⟩ → (∀ j, readPte s dst j = 0) →
            ∃ lab', Cloned level src dst o path s (cloneTable level 512 src dst s) lab lab'
              (fun _ => True) := by
        intro s lab src dst path hok hs hd hz
        have hkeeps : ∀ (q : Owner) (i : PtIndex), i.val < 512 → childOwner q level i = q := by
          intro q i _
          unfold childOwner
          rw [if_neg fun htop => by omega]
        obtain ⟨lab', hcloned⟩ := ih 512 (by omega) hkeeps hok hs hd (fun j _ => hz j)
        exact ⟨lab', hcloned.congr fun i => ⟨fun _ => trivial, fun _ => i.isLt⟩⟩
      obtain ⟨lab', hcloned⟩ := Cloned.loop (f := cloneUpper (cloneTable level 512) src dst)
        (P := fun i => i.val < n)
        (fun s lab i hok hs hd hi hz =>
          cloneUpper_cloned hod hbelow hok hs hd (fun q => hown q i hi) hz)
        (ptIndexes n) h hsrc hdst (ptIndexes_nodup n) (fun i hi => mem_ptIndexes.mp hi)
        (fun i hi => hzero i (mem_ptIndexes.mp hi))
      exact ⟨lab', hcloned.congr fun i => mem_ptIndexes⟩

end Copy

/-! ### The kernel half -/

theorem readPte_copyKernelHalf {s : Paging} (h0 : s.pml4Table ≠ 0) (new t : Nat) (j : PtIndex) :
    readPte (copyKernelHalf s new) t j =
      if t = new ∧ 256 ≤ j.val then readPte s s.pml4Table j else readPte s t j := by
  unfold copyKernelHalf
  rw [if_neg h0]
  unfold readPte
  dsimp only
  by_cases ht : t = new
  · subst ht
    rw [Function.update_self]
    by_cases hj : 256 ≤ j.val
    · rw [if_pos hj, if_pos ⟨rfl, hj⟩]
    · rw [if_neg hj, if_neg (fun h => hj h.2)]
  · rw [Function.update_of_ne ht, if_neg (fun h => ht h.1)]

/-- Only memory changes when the kernel half is copied. -/
theorem copyKernelHalf_eq (s : Paging) (new : Nat) :
    copyKernelHalf s new = { s with mem := (copyKernelHalf s new).mem } := by
  unfold copyKernelHalf
  split <;> rfl

/-- A new top table: its user half is empty and its kernel half is that of the loaded space. -/
structure NewSpace (s s' : Paging) (lab : Labels) (new : Nat) : Prop where
  ok : TablesOk s' (Function.update lab new (some ⟨.space new, ptLevelPml4, []⟩))
  unlabelled : lab new = none
  empty : ∀ j : PtIndex, j.val < 256 → readPte s' new j = 0
  others : ∀ t j, t ≠ new → readPte s' t j = readPte s t j
  pml4Table : s'.pml4Table = s.pml4Table
  allocFailed : s'.allocFailed = s.allocFailed

/-- No space is loaded, or a proper one. -/
def LoadedOk (s : Paging) (lab : Labels) : Prop := s.pml4Table = 0 ∨ IsSpace lab s.pml4Table

theorem FreshTable.newSpace {s s' : Paging} {lab : Labels} {new : Nat} (hf : FreshTable s s' lab new)
    (hloaded : LoadedOk s lab) : NewSpace s (copyKernelHalf s' new) lab new := by
  have hne : s'.pml4Table ≠ new := by
    rw [hf.pml4Table]
    rintro rfl
    rcases hloaded with h0 | hspace
    · exact hf.addr.1 h0
    · rw [IsSpace, hf.unlabelled] at hspace
      simp at hspace
  -- The kernel half of the new table refers to tables of the kernel.
  obtain ⟨hread, hkernel⟩ :
      (∀ t j, t ≠ new ∨ j.val < 256 → readPte (copyKernelHalf s' new) t j = readPte s' t j) ∧
      ∀ (j : PtIndex) p, 256 ≤ j.val →
        pteSlot ptLevelPml4 (readPte (copyKernelHalf s' new) new j) = .table p →
          lab p = some ⟨.kernel, 2, [j]⟩ := by
    by_cases h0 : s'.pml4Table = 0
    · rw [copyKernelHalf, if_pos h0]
      refine ⟨fun _ _ _ => rfl, fun j p _ hp => ?_⟩
      rw [hf.empty, pteSlot_zero] at hp
      exact Slot.noConfusion hp
    · refine ⟨fun t j ht => ?_, fun j p hj hp => ?_⟩
      · rw [readPte_copyKernelHalf h0, if_neg]
        rintro ⟨rfl, hj⟩
        rcases ht with ht | ht
        · exact ht rfl
        · omega
      · rw [readPte_copyKernelHalf h0, if_pos ⟨rfl, hj⟩] at hp
        have hspace : IsSpace lab s'.pml4Table := by
          rw [hf.pml4Table] at h0 ⊢
          exact hloaded.resolve_left h0
        obtain ⟨level, hlevel, hlab⟩ := hf.ok.labelled.child _ _ _ _ hspace _ _ hp
        obtain rfl : 2 = level := Nat.succ.inj hlevel
        rw [hlab, childOwner, if_pos ⟨rfl, hj⟩]
        rfl
  have heq := copyKernelHalf_eq s' new
  have hpm := congrArg Paging.pm heq
  have hpml4 := congrArg Paging.pml4Table heq
  have hfail := congrArg Paging.allocFailed heq
  dsimp only at hpm hpml4 hfail
  have hnew : ∀ {u}, lab u ≠ none → u ≠ new := by
    rintro u hu rfl
    exact hu hf.unlabelled
  refine ⟨⟨⟨fun t o level path ht i p hp => ?_⟩, fun t ht => ?_, fun t ht => ?_, ?_⟩,
    hf.unlabelled, fun j hj => ?_, fun t j ht => ?_, hpml4.trans hf.pml4Table,
    hfail.trans hf.allocFailed⟩
  · by_cases htn : t = new
    · subst htn
      rw [Function.update_self, Option.some.injEq, Label.mk.injEq] at ht
      obtain ⟨rfl, rfl, rfl⟩ := ht
      by_cases hi : 256 ≤ i.val
      · have hlab := hkernel i p hi hp
        refine ⟨2, rfl, ?_⟩
        rw [Function.update_of_ne (hnew (by rw [hlab]; simp)), hlab, childOwner, if_pos ⟨rfl, hi⟩]
        rfl
      · rw [hread _ _ (Or.inr (by omega)), hf.empty, pteSlot_zero] at hp
        exact Slot.noConfusion hp
    · rw [Function.update_of_ne htn] at ht
      rw [hread _ _ (Or.inl htn)] at hp
      obtain ⟨level₁, hlevel, hlab⟩ := hf.ok.labelled.child t o level path ht i p hp
      refine ⟨level₁, hlevel, ?_⟩
      rw [Function.update_of_ne (hnew (by rw [hlab]; simp)), hlab]
  · rw [hpm]
    by_cases htn : t = new
    · rw [htn]
      exact hf.used
    · rw [Function.update_of_ne htn] at ht
      exact hf.ok.used t ht
  · by_cases htn : t = new
    · rw [htn]
      exact hf.addr
    · rw [Function.update_of_ne htn] at ht
      exact hf.ok.addr t ht
  · rw [hpm]
    exact hf.ok.pmem
  · rw [hread _ _ (Or.inr hj), hf.empty]
  · rw [hread _ _ (Or.inl ht), hf.others t j ht]

/-- Lookups from labelled pages do not come to the new table. -/
theorem NewSpace.sameLookups {s s' : Paging} {lab : Labels} {new : Nat} (hn : NewSpace s s' lab new)
    (hl : Labelled pteSlot childOwner (readPte s) lab) : SameLookups lab s s' := by
  intro ix level t o path ht
  refine lookup_congr fun level' t' hv => ?_
  obtain ⟨o', path', hlab, -⟩ := hv.label hl ht
  refine hn.others t' _ ?_
  rintro rfl
  rw [hn.unlabelled] at hlab
  simp at hlab

/-! ### The clone of a space -/

/-- `dst` is a new space whose user half is that of `src`, except for parts that could not be
allocated.  What was copied is without write permission in both. -/
structure SpaceCloned (s s' : Paging) (lab lab' : Labels) (src dst : Nat) : Prop where
  labels : Extends lab lab'
  ok : TablesOk s' lab'
  space : IsSpace lab' dst
  fresh : lab dst = none
  pml4Table : s'.pml4Table = s.pml4Table
  copied : ∀ ix, UserHalf ix →
    (pageLookup s' dst ix = cow (pageLookup s src ix) ∧
      pageLookup s' src ix = cow (pageLookup s src ix)) ∨
    (s'.allocFailed = true ∧ pageLookup s' dst ix = none ∧
      pageLookup s' src ix = pageLookup s src ix)
  apart : ∀ r ix, IsSpace lab r → r ≠ src ∨ ¬ UserHalf ix →
    pageLookup s' r ix = pageLookup s r ix

theorem NewSpace.clone {s s' : Paging} {lab : Labels} {src dst : Nat} (hn : NewSpace s s' lab dst)
    (h : TablesOk s lab) (hsrc : IsSpace lab src) :
    ∃ lab', SpaceCloned s (cloneTable ptLevelPml4 256 src dst s') lab lab' src dst := by
  have hext := extends_update hn.unlabelled ⟨.space dst, ptLevelPml4, []⟩
  have hlooks := hn.sameLookups h.labelled
  have hne : ∀ {r}, IsSpace lab r → r ≠ dst := by
    rintro r hr rfl
    rw [IsSpace, hn.unlabelled] at hr
    simp at hr
  have hown : ∀ (q : Owner) (i : PtIndex), i.val < 256 → childOwner q ptLevelPml4 i = q := by
    intro q i hi
    unfold childOwner
    rw [if_neg fun hk => by omega]
  obtain ⟨lab', hcloned⟩ := cloneTable_cloned (o := .space src) (d := .space dst)
    (fun heq => hne hsrc (Owner.space.inj heq)) ptLevelPml4 256 (le_refl _) hown hn.ok
    (hext _ _ hsrc) (Function.update_self ..) hn.empty
  refine ⟨lab', hext.trans hcloned.labels, hcloned.ok, hcloned.labels _ _ (Function.update_self ..),
    hn.unlabelled, hcloned.pml4Table.trans hn.pml4Table, fun ix hix => ?_, fun r ix hr hor => ?_⟩
  · have hcopied := hcloned.copied ix hix
    rw [hlooks ix _ src _ _ hsrc] at hcopied
    exact hcopied
  · by_cases hrs : r = src
    · subst hrs
      have hkept := hcloned.keptSrc ix (hor.resolve_left (fun hne => hne rfl))
      rw [hlooks ix _ r _ _ hsrc] at hkept
      exact hkept
    · -- Pages of other spaces, and of the kernel, are not written.
      rw [pageLookup, pageLookup, ← hlooks ix _ r _ _ hr]
      refine lookup_congr fun l u hv => ?_
      rcases hn.ok.visits_owner (hext _ _ hr) hv with ⟨rfl, rfl⟩ | ⟨path, hlab⟩
      · exact hcloned.others u _ _ _ (hext _ _ hr) (hne hr) (by simp [ptLevelPml4]) _
      · have howner : ∀ q, q ≠ r → halfOwner r ix ≠ .space q := by
          intro q hq heq
          unfold halfOwner at heq
          split at heq
          · exact hq (Owner.space.inj heq).symm
          · exact Owner.noConfusion heq
        refine hcloned.others u _ _ _ hlab ?_ (fun hin => howner src (Ne.symm hrs) hin.1) _
        rintro rfl
        rw [Function.update_self, Option.some.injEq, Label.mk.injEq] at hlab
        exact howner u (hne hr).symm hlab.1.symm

/-- A clone fails without effect, or gives a copy. -/
theorem TablesOk.clone {s : Paging} {lab : Labels} (h : TablesOk s lab) (hloaded : LoadedOk s lab)
    {srcCr3 : Nat} (hsrc : IsSpace lab (srcCr3 &&& lnot64 0xFFF)) :
    pagingCloneAddressSpace s srcCr3 = ({ s with allocFailed := true }, 0) ∨
      ∃ s' dst lab', pagingCloneAddressSpace s srcCr3 = (s', dst) ∧ dst ≠ 0 ∧
        SpaceCloned s s' lab lab' (srcCr3 &&& lnot64 0xFFF) dst := by
  have halloc := h.alloc
  unfold pagingCloneAddressSpace
  dsimp only
  generalize allocPtPage s = res at halloc
  rcases halloc with ⟨hnull, heq⟩ | hfresh
  · left
    rw [if_pos hnull, heq]
  · right
    rw [if_neg hfresh.addr.1]
    obtain ⟨lab', hcloned⟩ := (hfresh.newSpace hloaded).clone h hsrc
    exact ⟨_, _, lab', rfl, hfresh.addr.1, hcloned⟩

/-- The machine with the space `r` loaded. -/
def loadSpace (s : Paging) (r : Nat) : Paging := { s with pml4Table := r }

/-- The table pages of `r` and of the loaded space are distinct pages, none of them free. -/
def SpaceOk (s : Paging) (r : Nat) : Prop := ∃ lab, TablesOk s lab ∧ IsSpace lab r ∧ LoadedOk s lab

theorem userHalf_ptIndex {v : Nat} (hv : v < 2 ^ 47) : UserHalf (ptIndex v) := by
  rw [UserHalf, ptIndex_eq, show 12 + 9 * ptLevelPml4 = 39 from rfl]
  norm_num at hv ⊢
  omega

theorem cow_not_writable {leaf : Option (Nat × Nat)} {e : Nat} (h : cow leaf = some (0, e)) :
    ¬ pteWritable e := by
  unfold cow at h
  split at h
  · rw [Option.some.injEq, Prod.mk.injEq] at h
    rw [← h.2]
    exact cowEntry_not_writable _
  · rename_i hnot
    exact absurd h (hnot e)

theorem cow_none_iff (leaf : Option (Nat × Nat)) : cow leaf = none ↔ leaf = none := by
  unfold cow
  split <;> simp

/-- Copy-on-write changes no translation. -/
theorem leafPhys_cow (leaf : Option (Nat × Nat)) (virt : Nat) :
    leafPhys (cow leaf) virt = leafPhys leaf virt := by
  rcases leaf with _ | ⟨_ | l, e⟩
  · rfl
  · exact cowEntry_physOf e virt
  · rfl

/--
**A clone shares every user page read-only.**  If no allocation fails, every user address
translates in the clone as it did in the source, is mapped in the clone if and only if it was in
the source, and has no writable 4 KB entry in either of them afterwards.
-/
theorem paging_clone_cow {s s' : Paging} {srcCr3 dst : Nat}
    (hok : SpaceOk s (srcCr3 &&& lnot64 0xFFF))
    (hclone : pagingCloneAddressSpace s srcCr3 = (s', dst)) (hall : s'.allocFailed = false)
    {v : Nat} (hv : v < 2 ^ 47) :
    virtToPhys (loadSpace s' dst) v = virtToPhys (loadSpace s (srcCr3 &&& lnot64 0xFFF)) v ∧
      ((walkPageTable (loadSpace s' dst) v false).2 = none ↔
        (walkPageTable (loadSpace s (srcCr3 &&& lnot64 0xFFF)) v false).2 = none) ∧
      ∀ r e, r = srcCr3 &&& lnot64 0xFFF ∨ r = dst →
        pageLookup s' r (ptIndex v) = some (0, e) → ¬ pteWritable e := by
  obtain ⟨lab, h, hsrc, hloaded⟩ := hok
  rcases h.clone hloaded hsrc with heq | ⟨s₁, dst₁, lab', heq, hne, hcloned⟩
  · rw [hclone, Prod.mk.injEq] at heq
    rw [heq.1] at hall
    simp at hall
  · rw [hclone, Prod.mk.injEq] at heq
    obtain ⟨rfl, rfl⟩ := heq
    generalize srcCr3 &&& lnot64 0xFFF = src at hsrc hcloned
    have hsrc0 : src ≠ 0 := (h.addr src (by rw [hsrc]; simp)).1
    obtain ⟨hdst, hsrc'⟩ := (hcloned.copied _ (userHalf_ptIndex hv)).resolve_right
      (fun hgap => by rw [hall] at hgap; simp at hgap)
    refine ⟨?_, ?_, ?_⟩
    · rw [virtToPhys_eq (s := loadSpace s' dst) hne, virtToPhys_eq (s := loadSpace s src) hsrc0]
      show leafPhys (pageLookup s' dst _) v = leafPhys (pageLookup s src _) v
      rw [hdst, leafPhys_cow]
    · rw [walk_none_iff (s := loadSpace s' dst) hne, walk_none_iff (s := loadSpace s src) hsrc0]
      show pageLookup s' dst _ = none ↔ pageLookup s src _ = none
      rw [hdst, cow_none_iff]
    · rintro r e (rfl | rfl) hlook
      · exact cow_not_writable (hsrc'.symm.trans hlook)
      · exact cow_not_writable (hdst.symm.trans hlook)

/-- A space whose only page is the topmost one of the user half, a writable stack. -/
def stackSpace : Paging :=
  { emptySpace with
    mem := fun t i =>
      if t = 0x1000 ∧ i = 255 then 0x2007 else
      if t = 0x2000 ∧ i = 511 then 0x3007 else
      if t = 0x3000 ∧ i = 511 then 0x4007 else
      if t = 0x4000 ∧ i = 511 then 0x800007 else 0 }

/-- The labels of its tables. -/
def stackLabels : Labels := fun t =>
  if t = 0x1000 then some ⟨.space 0x1000, 3, []⟩ else
  if t = 0x2000 then some ⟨.space 0x1000, 2, [255]⟩ else
  if t = 0x3000 then some ⟨.space 0x1000, 1, [255, 511]⟩ else
  if t = 0x4000 then some ⟨.space 0x1000, 0, [255, 511, 511]⟩ else none

theorem stackLabels_mem {t : Nat} (h : stackLabels t ≠ none) :
    t = 0x1000 ∨ t = 0x2000 ∨ t = 0x3000 ∨ t = 0x4000 := by
  by_contra hnot
  simp only [not_or] at hnot
  obtain ⟨h1, h2, h3, h4⟩ := hnot
  exact h (by simp [stackLabels, h1, h2, h3, h4])

theorem readPte_stackSpace (t : Nat) (i : PtIndex) :
    readPte stackSpace t i =
      if t = 0x1000 ∧ i = 255 then 0x2007 else
      if t = 0x2000 ∧ i = 511 then 0x3007 else
      if t = 0x3000 ∧ i = 511 then 0x4007 else
      if t = 0x4000 ∧ i = 511 then 0x800007 else 0 := by
  unfold readPte stackSpace
  dsimp only
  split_ifs <;> rfl

theorem stackSpace_tables : TablesOk stackSpace stackLabels := by
  refine ⟨⟨fun t o level path ht i p hp => ?_⟩, fun t ht => ?_, fun t ht => ?_, freshPmem_sane⟩
  · rw [readPte_stackSpace] at hp
    split_ifs at hp with h1 h2 h3 h4
    · obtain ⟨rfl, rfl⟩ := h1
      obtain ⟨rfl, rfl, rfl⟩ := Label.mk.inj (Option.some.inj ht)
      obtain rfl := Slot.table.inj hp
      exact ⟨2, rfl, rfl⟩
    · obtain ⟨rfl, rfl⟩ := h2
      obtain ⟨rfl, rfl, rfl⟩ := Label.mk.inj (Option.some.inj ht)
      obtain rfl := Slot.table.inj hp
      exact ⟨1, rfl, rfl⟩
    · obtain ⟨rfl, rfl⟩ := h3
      obtain ⟨rfl, rfl, rfl⟩ := Label.mk.inj (Option.some.inj ht)
      obtain rfl := Slot.table.inj hp
      exact ⟨0, rfl, rfl⟩
    · obtain ⟨rfl, rfl⟩ := h4
      obtain ⟨rfl, rfl, rfl⟩ := Label.mk.inj (Option.some.inj ht)
      exact absurd hp (pteSlot_lowest _ _)
    · rw [pteSlot_zero] at hp
      exact Slot.noConfusion hp
  · rintro ⟨i, -, heq⟩
    rw [show stackSpace.pm.base = 0x100000 from rfl] at heq
    rcases stackLabels_mem ht with rfl | rfl | rfl | rfl <;> omega
  · rcases stackLabels_mem ht with rfl | rfl | rfl | rfl <;> decide

theorem stackSpace_ok : SpaceOk stackSpace 0x1000 :=
  ⟨stackLabels, stackSpace_tables, rfl, Or.inr rfl⟩

/-- If only the last of the copied entries is present, the loop goes down there. -/
theorem cloneTable_last {level n src dst : Nat} {s : Paging} {before : List PtIndex} {i : PtIndex}
    (hsplit : ptIndexes n = before ++ [i])
    (habsent : ∀ j : PtIndex, j ≠ i → readPte s src j = 0) (hp : ptePresent (readPte s src i))
    (hh : ¬ pteHuge (readPte s src i)) (hne : (allocPtPage s).2 ≠ 0) :
    cloneTable (level + 1) n src dst s =
      cloneTable level 512 (pteAddr (readPte s src i)) (allocPtPage s).2
        (writePte (allocPtPage s).1 dst i
          ((allocPtPage s).2 ||| (readPte (allocPtPage s).1 src i &&& 0xFFF))) := by
  have hskip : ∀ l : List PtIndex, (∀ j ∈ l, j ≠ i) →
      l.foldl (cloneUpper (cloneTable level 512) src dst) s = s := by
    intro l hl
    induction l with
    | nil => rfl
    | cons j rest ih =>
        have hj : cloneUpper (cloneTable level 512) src dst s j = s := by
          rw [cloneUpper, habsent j (hl j (by simp)), if_pos (by decide)]
        rw [List.foldl_cons, hj]
        exact ih fun k hk => hl k (List.mem_cons_of_mem _ hk)
  have hnodup := ptIndexes_nodup n
  rw [hsplit, List.nodup_append] at hnodup
  rw [cloneTable, hsplit, List.foldl_append, hskip before (fun j hj => ?_)]
  · rw [List.foldl_cons, List.foldl_nil, cloneUpper, if_neg (not_not_intro hp), if_neg hh]
    dsimp only
    rw [if_neg hne]
  · exact hnodup.2.2 j hj i (by simp)

theorem cloneTable_lowest (n src dst : Nat) (s : Paging) :
    (cloneTable 0 n src dst s).allocFailed = s.allocFailed := by
  have hone : ∀ (s : Paging) i, (clonePte src dst s i).allocFailed = s.allocFailed := by
    intro s i
    rcases clonePte_eq src dst s i with ⟨heq, -⟩ | heq <;> rw [heq] <;> rfl
  rw [cloneTable]
  generalize ptIndexes n = l
  induction l generalizing s with
  | nil => rfl
  | cons i rest ih => rw [List.foldl_cons, ih, hone]

/-- The page allocator after `k` pages were taken. -/
def pmemAfter (k : Nat) : Pmem := (fun pm => (pmemAllocPage pm).1)^[k] freshPmem

theorem pmemAfter_alloc : ∀ k < 4, 0x100000 ≤ (pmemAllocPage (pmemAfter k)).2 := by
  decide +kernel

/-- While the stack space is cloned: the tables of the source are as they were. -/
structure StackCopy (k : Nat) (s : Paging) : Prop where
  allocFailed : s.allocFailed = false
  pm : s.pm = pmemAfter k
  source : ∀ t j, t < 0x100000 → readPte s t j = readPte stackSpace t j

theorem StackCopy.alloc {k : Nat} {s : Paging} (h : StackCopy k s) (hk : k < 4) :
    0x100000 ≤ (allocPtPage s).2 ∧ StackCopy (k + 1) (allocPtPage s).1 := by
  have hpage := pmemAfter_alloc k hk
  have hsucc : pmemAfter (k + 1) = (pmemAllocPage (pmemAfter k)).1 :=
    Function.iterate_succ_apply' _ _ _
  rw [← h.pm] at hpage hsucc
  obtain ⟨res, hres, hcases⟩ := allocPtPage_cases s
  rw [hres] at hpage hsucc
  obtain ⟨hnone, -⟩ | ⟨-, heq⟩ := hcases
  · omega
  rw [heq]
  refine ⟨hpage, h.allocFailed, hsucc.symm, fun t j ht => ?_⟩
  rw [← h.source t j ht]
  unfold readPte
  dsimp only
  rw [Function.update_of_ne (by omega)]

theorem StackCopy.link {k dst e : Nat} {s : Paging} {i : PtIndex} (h : StackCopy k s)
    (hdst : 0x100000 ≤ dst) : StackCopy k (writePte s dst i e) :=
  ⟨h.allocFailed, h.pm, fun t j ht => by
    rw [readPte_writePte_of_ne s (Or.inl (by omega)), h.source t j ht]⟩

theorem StackCopy.kernelHalf {k new : Nat} {s : Paging} (h : StackCopy k s)
    (hnew : 0x100000 ≤ new) : StackCopy k (copyKernelHalf s new) := by
  by_cases h0 : s.pml4Table = 0
  · rw [copyKernelHalf, if_pos h0]
    exact h
  · have heq := copyKernelHalf_eq s new
    refine ⟨(congrArg Paging.allocFailed heq).trans h.allocFailed,
      (congrArg Paging.pm heq).trans h.pm, fun t j ht => ?_⟩
    rw [readPte_copyKernelHalf h0, if_neg (by omega), h.source t j ht]

theorem ptIndexes_last : ptIndexes 256 = ptIndexes 255 ++ [255] ∧ ptIndexes 512 = ptIndexes 511 ++ [511] := by
  decide +kernel

theorem stackSpace_rest (t : Nat) (i : PtIndex)
    (h : (t, i) ∈ [(0x1000, (255 : PtIndex)), (0x2000, 511), (0x3000, 511)]) (j : PtIndex)
    (hj : j ≠ i) : readPte stackSpace t j = 0 := by
  rw [readPte_stackSpace]
  simp at h
  rcases h with ⟨rfl, rfl⟩ | ⟨rfl, rfl⟩ | ⟨rfl, rfl⟩ <;> simp [hj]

/-- One level of the stack space. -/
theorem StackCopy.down {k n dst : Nat} {s : Paging} {before : List PtIndex} {i : PtIndex}
    (h : StackCopy k s) (level src : Nat) (hk : k < 4) (hsrc : src < 0x100000) (hdst : 0x100000 ≤ dst)
    (hsplit : ptIndexes n = before ++ [i]) (hzero : ∀ j, j ≠ i → readPte stackSpace src j = 0)
    (hp : ptePresent (readPte stackSpace src i)) (hh : ¬ pteHuge (readPte stackSpace src i)) :
    ∃ s' new, cloneTable (level + 1) n src dst s =
        cloneTable level 512 (pteAddr (readPte stackSpace src i)) new s' ∧
      0x100000 ≤ new ∧ StackCopy (k + 1) s' := by
  obtain ⟨hnew, hcopy⟩ := h.alloc hk
  rw [← h.source src i hsrc] at hp hh ⊢
  exact ⟨_, _, cloneTable_last hsplit (fun j hj => by rw [h.source src j hsrc, hzero j hj]) hp hh
    (by omega), hnew, hcopy.link hdst⟩

theorem stackSpace_clone : (pagingCloneAddressSpace stackSpace 0x1000).1.allocFailed = false := by
  have h0 : StackCopy 0 stackSpace := ⟨rfl, rfl, fun _ _ _ => rfl⟩
  obtain ⟨hdst, h1⟩ := h0.alloc (by omega)
  unfold pagingCloneAddressSpace
  rw [show 0x1000 &&& lnot64 0xFFF = 0x1000 by decide]
  generalize allocPtPage stackSpace = res at hdst h1
  dsimp only
  rw [if_neg (by omega)]
  obtain ⟨s₂, t₂, heq₂, ht₂, h2⟩ := (h1.kernelHalf hdst).down 2 0x1000 (by omega) (by omega)
    hdst ptIndexes_last.1 (stackSpace_rest 0x1000 255 (by decide)) (by decide) (by decide)
  obtain ⟨s₃, t₃, heq₃, ht₃, h3⟩ := h2.down 1 0x2000 (by omega) (by omega) ht₂
    ptIndexes_last.2 (stackSpace_rest 0x2000 511 (by decide)) (by decide) (by decide)
  obtain ⟨s₄, t₄, heq₄, ht₄, h4⟩ := h3.down 0 0x3000 (by omega) (by omega) ht₃
    ptIndexes_last.2 (stackSpace_rest 0x3000 511 (by decide)) (by decide) (by decide)
  have hlevel : ptLevelPml4 = 2 + 1 := rfl
  rw [hlevel, heq₂]
  show (cloneTable (1 + 1) 512 0x2000 t₂ s₂).allocFailed = false
  rw [heq₃]
  show (cloneTable (0 + 1) 512 0x3000 t₃ s₃).allocFailed = false
  rw [heq₄, cloneTable_lowest]
  exact h4.allocFailed

/-- The clone of the stack space. -/
theorem paging_clone_cow_stack :
    SpaceOk stackSpace 0x1000 ∧ virtToPhys stackSpace 0x7FFFFFFFF123 = 0x800123 ∧
      ∃ s' dst, pagingCloneAddressSpace stackSpace 0x1000 = (s', dst) ∧
        virtToPhys (loadSpace s' dst) 0x7FFFFFFFF123 = 0x800123 ∧
        ((walkPageTable (loadSpace s' dst) 0x7FFFFFFFF123 false).2 = none ↔
          (walkPageTable stackSpace 0x7FFFFFFFF123 false).2 = none) ∧
        ∀ r e, r = 0x1000 ∨ r = dst →
          pageLookup s' r (ptIndex 0x7FFFFFFFF123) = some (0, e) → ¬ pteWritable e := by
  have htrans : virtToPhys stackSpace 0x7FFFFFFFF123 = 0x800123 := by decide +kernel
  have hall := stackSpace_clone
  rcases hclone : pagingCloneAddressSpace stackSpace 0x1000 with ⟨s', dst⟩
  rw [hclone] at hall
  obtain ⟨hphys, hmapped, hentries⟩ :=
    paging_clone_cow stackSpace_ok hclone hall (v := 0x7FFFFFFFF123) (by decide)
  exact ⟨stackSpace_ok, htrans, s', dst, rfl, hphys.trans htrans, hmapped, hentries⟩

end BrightS
