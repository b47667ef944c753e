/-
An interval cut into blocks.

The blocks of a heap follow each other without gap or overlap from one end of it
to the other, and each is either free or in use.  `Tiles lo l hi` is that, written
as a recursion over the list so that splitting a block and joining two are both a
change in the middle of an append.

What a heap's users see of it follows from the tiling alone: every address of the
interval is in exactly one block (`countP_contains`), and when no two neighbours
are both free, any two free blocks have a gap between them
(`Coalesced.free_apart`).
-/
import BrightS.Lib.Chains

namespace Tilings

structure Block where
  addr : Nat
  size : Nat
  free : Bool
  deriving DecidableEq, Repr

/-- The block holds the address. -/
def Block.contains (a : Nat) (b : Block) : Bool :=
  decide (b.addr ≤ a) && decide (a < b.addr + b.size)

/-- The blocks follow each other from `lo` to `hi`. -/
def Tiles : Nat → List Block → Nat → Prop
  | lo, [], hi => lo = hi
  | lo, b :: rest, hi => b.addr = lo ∧ 0 < b.size ∧ Tiles (lo + b.size) rest hi

/-- No two neighbours are both free. -/
def Coalesced (l : List Block) : Prop :=
  l.IsChain fun a b => ¬ (a.free = true ∧ b.free = true)

@[simp] theorem tiles_nil {lo hi : Nat} : Tiles lo [] hi ↔ lo = hi := Iff.rfl

@[simp] theorem tiles_cons {lo hi : Nat} {b : Block} {l : List Block} :
    Tiles lo (b :: l) hi ↔ b.addr = lo ∧ 0 < b.size ∧ Tiles (lo + b.size) l hi := Iff.rfl

theorem tiles_append {l₁ l₂ : List Block} {hi : Nat} : ∀ {lo : Nat},
    Tiles lo (l₁ ++ l₂) hi ↔ ∃ m, Tiles lo l₁ m ∧ Tiles m l₂ hi := by
  induction l₁ with
  | nil => intro lo; simp
  | cons b rest ih =>
      intro lo
      rw [List.cons_append, tiles_cons, ih]
      constructor
      · rintro ⟨ha, hs, m, h₁, h₂⟩
        exact ⟨m, ⟨ha, hs, h₁⟩, h₂⟩
      · rintro ⟨m, ⟨ha, hs, h₁⟩, h₂⟩
        exact ⟨ha, hs, m, h₁, h₂⟩

/-- A block in the middle ends the blocks before it and starts the ones behind. -/
theorem tiles_mid {l₁ l₂ : List Block} {b : Block} {lo hi : Nat} :
    Tiles lo (l₁ ++ b :: l₂) hi ↔
      Tiles lo l₁ b.addr ∧ 0 < b.size ∧ Tiles (b.addr + b.size) l₂ hi := by
  rw [tiles_append]
  constructor
  · rintro ⟨m, h₁, rfl, hs, h₂⟩
    exact ⟨h₁, hs, h₂⟩
  · rintro ⟨h₁, hs, h₂⟩
    exact ⟨b.addr, h₁, rfl, hs, h₂⟩

theorem Tiles.le {l : List Block} {hi : Nat} : ∀ {lo : Nat}, Tiles lo l hi → lo ≤ hi := by
  induction l with
  | nil => intro lo h; exact Nat.le_of_eq h
  | cons b rest ih =>
      intro lo h
      have := ih h.2.2
      omega

/-- Every block lies inside the interval. -/
theorem Tiles.bounds {l : List Block} {hi : Nat} : ∀ {lo : Nat}, Tiles lo l hi →
    ∀ b ∈ l, lo ≤ b.addr ∧ 0 < b.size ∧ b.addr + b.size ≤ hi := by
  induction l with
  | nil => intro lo _ b hb; simp at hb
  | cons c rest ih =>
      intro lo h b hb
      obtain ⟨ha, hs, htl⟩ := h
      rcases List.mem_cons.mp hb with rfl | hmem
      · have := htl.le
        omega
      · have := ih htl b hmem
        omega

/-- An interval has no more blocks than addresses. -/
theorem Tiles.length_le {l : List Block} {hi : Nat} : ∀ {lo : Nat}, Tiles lo l hi →
    lo + l.length ≤ hi := by
  induction l with
  | nil => intro lo h; simpa using h.le
  | cons b rest ih =>
      intro lo h
      have := ih h.2.2
      have := h.2.1
      simp only [List.length_cons]
      omega

/-- Blocks come in the order of their addresses. -/
theorem Tiles.pairwise {l : List Block} {hi : Nat} : ∀ {lo : Nat}, Tiles lo l hi →
    l.Pairwise fun a b => a.addr + a.size ≤ b.addr := by
  induction l with
  | nil => intro lo _; exact List.Pairwise.nil
  | cons b rest ih =>
      intro lo h
      obtain ⟨ha, -, htl⟩ := h
      refine List.Pairwise.cons (fun c hc => ?_) (ih htl)
      have := (htl.bounds c hc).1
      omega

/-- Two blocks of a tiling do not meet. -/
theorem Tiles.apart {lo hi : Nat} {l : List Block} (h : Tiles lo l hi) {b c : Block} (hb : b ∈ l)
    (hc : c ∈ l) (hne : b ≠ c) : b.addr + b.size ≤ c.addr ∨ c.addr + c.size ≤ b.addr := by
  let Apart := fun b c : Block => b.addr + b.size ≤ c.addr ∨ c.addr + c.size ≤ b.addr
  have hsymm : Std.Symm Apart := ⟨fun _ _ hor => hor.symm⟩
  have hpair : l.Pairwise Apart := h.pairwise.imp Or.inl
  exact hpair.forall hb hc hne

/-- **Every address of the interval is in exactly one block, every other in none.** -/
theorem Tiles.countP_contains {l : List Block} {hi : Nat} (a : Nat) : ∀ {lo : Nat}, Tiles lo l hi →
    l.countP (Block.contains a) = if lo ≤ a ∧ a < hi then 1 else 0 := by
  induction l with
  | nil =>
      intro lo h
      have hlh : lo = hi := h
      have : ¬ (lo ≤ a ∧ a < hi) := by omega
      simp [this]
  | cons b rest ih =>
      intro lo h
      obtain ⟨ha, hs, htl⟩ := h
      have hle := htl.le
      rw [List.countP_cons, ih htl]
      by_cases h1 : b.addr ≤ a ∧ a < b.addr + b.size
      · have hin : Block.contains a b = true := by simpa [Block.contains] using h1
        rw [if_neg (by omega), if_pos hin, if_pos (by omega)]
      · have hout : Block.contains a b = false := by
          by_contra hc
          exact h1 (by simpa [Block.contains] using hc)
        have h2 : (lo + b.size ≤ a ∧ a < hi) ↔ (lo ≤ a ∧ a < hi) := by omega
        simp [hout, h2]

/-! ### The free and the used blocks of a tiling -/

/-- The addresses of the free blocks, in order. -/
def freeAddrs (l : List Block) : List Nat := (l.filter (·.free)).map (·.addr)

/-- The addresses of the blocks in use, in order. -/
def usedAddrs (l : List Block) : List Nat := (l.filter (!·.free)).map (·.addr)

@[simp] theorem freeAddrs_nil : freeAddrs [] = [] := rfl
@[simp] theorem usedAddrs_nil : usedAddrs [] = [] := rfl

@[simp] theorem freeAddrs_append (l₁ l₂ : List Block) :
    freeAddrs (l₁ ++ l₂) = freeAddrs l₁ ++ freeAddrs l₂ := by
  simp [freeAddrs]

@[simp] theorem usedAddrs_append (l₁ l₂ : List Block) :
    usedAddrs (l₁ ++ l₂) = usedAddrs l₁ ++ usedAddrs l₂ := by
  simp [usedAddrs]

theorem freeAddrs_cons (b : Block) (l : List Block) :
    freeAddrs (b :: l) = if b.free then b.addr :: freeAddrs l else freeAddrs l := by
  unfold freeAddrs
  by_cases h : b.free <;> simp [h]

theorem freeAddrs_cons_free {b : Block} (h : b.free = true) (l : List Block) :
    freeAddrs (b :: l) = b.addr :: freeAddrs l := by
  rw [freeAddrs_cons, if_pos h]

theorem freeAddrs_cons_used {b : Block} (h : b.free = false) (l : List Block) :
    freeAddrs (b :: l) = freeAddrs l := by
  rw [freeAddrs_cons, if_neg (by simp [h])]

theorem usedAddrs_cons (b : Block) (l : List Block) :
    usedAddrs (b :: l) = if b.free then usedAddrs l else b.addr :: usedAddrs l := by
  unfold usedAddrs
  by_cases h : b.free <;> simp [h]

/-- The blocks in use, in order. -/
def usedBlocks (l : List Block) : List Block := l.filter (!·.free)

theorem usedAddrs_eq (l : List Block) : usedAddrs l = (usedBlocks l).map (·.addr) := rfl

@[simp] theorem usedBlocks_append (l₁ l₂ : List Block) :
    usedBlocks (l₁ ++ l₂) = usedBlocks l₁ ++ usedBlocks l₂ := List.filter_append ..

theorem usedBlocks_cons (b : Block) (l : List Block) :
    usedBlocks (b :: l) = if b.free then usedBlocks l else b :: usedBlocks l := by
  unfold usedBlocks
  by_cases h : b.free <;> simp [h]

/-- The bytes in use. -/
def usedSize (l : List Block) : Nat := ((usedBlocks l).map (·.size)).sum

theorem usedSize_append (l₁ l₂ : List Block) :
    usedSize (l₁ ++ l₂) = usedSize l₁ + usedSize l₂ := by
  rw [usedSize, usedBlocks_append, List.map_append, List.sum_append]
  rfl

theorem usedSize_cons (b : Block) (l : List Block) :
    usedSize (b :: l) = (if b.free then 0 else b.size) + usedSize l := by
  unfold usedSize
  rw [usedBlocks_cons]
  by_cases h : b.free <;> simp [h]

theorem Tiles.usedSize_le {l : List Block} {hi : Nat} : ∀ {lo : Nat}, Tiles lo l hi →
    lo + usedSize l ≤ hi := by
  induction l with
  | nil => intro lo h; exact h.le
  | cons b rest ih =>
      intro lo h
      obtain ⟨-, -, hrest⟩ := h
      have hle := ih hrest
      rw [usedSize_cons]
      split <;> omega

theorem mem_freeAddrs {l : List Block} {a : Nat} (h : a ∈ freeAddrs l) :
    ∃ b ∈ l, b.free = true ∧ b.addr = a := by
  obtain ⟨b, hb, rfl⟩ := List.mem_map.mp h
  obtain ⟨hmem, hfree⟩ := List.mem_filter.mp hb
  exact ⟨b, hmem, hfree, rfl⟩

theorem freeAddrs_length_le (l : List Block) : (freeAddrs l).length ≤ l.length := by
  rw [freeAddrs, List.length_map]
  exact List.length_filter_le _ _

/-- A position in the list of free blocks is a position in the tiling. -/
theorem freeAddrs_split {d₂ : List Nat} {a : Nat} : ∀ {l : List Block} {d₁ : List Nat},
    freeAddrs l = d₁ ++ a :: d₂ →
    ∃ l₁ b l₂, l = l₁ ++ b :: l₂ ∧ b.free = true ∧ b.addr = a ∧
      freeAddrs l₁ = d₁ ∧ freeAddrs l₂ = d₂ := by
  intro l
  induction l with
  | nil => intro d₁ h; simp at h
  | cons c rest ih =>
      intro d₁ h
      rw [freeAddrs_cons] at h
      by_cases hc : c.free
      · rw [if_pos hc] at h
        cases d₁ with
        | nil =>
            simp only [List.nil_append, List.cons.injEq] at h
            exact ⟨[], c, rest, rfl, hc, h.1, rfl, h.2⟩
        | cons e d₁ =>
            simp only [List.cons_append, List.cons.injEq] at h
            obtain ⟨l₁, b, l₂, rfl, hb, hba, h₁, h₂⟩ := ih h.2
            refine ⟨c :: l₁, b, l₂, rfl, hb, hba, ?_, h₂⟩
            rw [freeAddrs_cons, if_pos hc, h₁, h.1]
      · rw [if_neg hc] at h
        obtain ⟨l₁, b, l₂, rfl, hb, hba, h₁, h₂⟩ := ih h
        refine ⟨c :: l₁, b, l₂, rfl, hb, hba, ?_, h₂⟩
        rw [freeAddrs_cons, if_neg hc, h₁]

/-- The same for the blocks in use. -/
theorem usedAddrs_split {a : Nat} : ∀ {l : List Block}, a ∈ usedAddrs l →
    ∃ l₁ b l₂, l = l₁ ++ b :: l₂ ∧ b.free = false ∧ b.addr = a := by
  intro l h
  obtain ⟨b, hb, rfl⟩ := List.mem_map.mp h
  obtain ⟨hmem, hfree⟩ := List.mem_filter.mp hb
  obtain ⟨l₁, l₂, rfl⟩ := List.append_of_mem hmem
  exact ⟨l₁, b, l₂, rfl, by simpa using hfree, rfl⟩

theorem freeAddrs_sublist (l : List Block) : (freeAddrs l).Sublist (l.map (·.addr)) :=
  (List.filter_sublist).map _

theorem Tiles.addr_nodup {l : List Block} {lo hi : Nat} (h : Tiles lo l hi) :
    (l.map (·.addr)).Nodup := by
  rw [List.Nodup, List.pairwise_map]
  refine h.pairwise.imp_of_mem ?_
  intro a b ha _ hab
  have := (h.bounds a ha).2.1
  omega

theorem Tiles.freeAddrs_nodup {l : List Block} {lo hi : Nat} (h : Tiles lo l hi) :
    (freeAddrs l).Nodup :=
  h.addr_nodup.sublist (freeAddrs_sublist l)

/-- The neighbours of a block in the middle are its only new constraints. -/
theorem coalesced_mid {l₁ l₂ : List Block} {b : Block} :
    Coalesced (l₁ ++ b :: l₂) ↔ Coalesced l₁ ∧ Coalesced l₂ ∧
      (b.free = true → (∀ a ∈ l₁.getLast?, a.free = false) ∧ ∀ c ∈ l₂.head?, c.free = false) := by
  unfold Coalesced
  rw [List.isChain_append, List.isChain_cons]
  simp only [List.head?_cons, Option.mem_def, Option.some.injEq, forall_eq', not_and,
    Bool.not_eq_true]
  constructor
  · rintro ⟨h₁, ⟨hb, h₂⟩, hl⟩
    refine ⟨h₁, h₂, fun hf => ⟨fun a ha => ?_, fun c hc => hb c hc hf⟩⟩
    by_contra hc
    have := hl a ha (by simpa using hc)
    rw [this] at hf
    simp at hf
  · rintro ⟨h₁, h₂, hb⟩
    refine ⟨h₁, ⟨fun c hc hf => (hb hf).2 c hc, h₂⟩, fun a ha haf => ?_⟩
    by_contra hc
    have := (hb (by simpa using hc)).1 a ha
    rw [this] at haf
    simp at haf

theorem coalesced_cons {l : List Block} {b : Block} :
    Coalesced (b :: l) ↔ Coalesced l ∧ (b.free = true → ∀ c ∈ l.head?, c.free = false) := by
  have hmid : Coalesced ([] ++ b :: l) ↔ _ := coalesced_mid
  simpa [Coalesced] using hmid

/-- With no two neighbours free, a free block and any later one have a gap between them. -/
theorem Coalesced.free_apart {l : List Block} {hi : Nat} : ∀ {lo : Nat}, Tiles lo l hi →
    Coalesced l → (l.filter (·.free)).Pairwise fun a b => a.addr + a.size < b.addr := by
  induction l with
  | nil => intro lo _ _; exact List.Pairwise.nil
  | cons b rest ih =>
      intro lo ht hc
      obtain ⟨hb, hs, htl⟩ := ht
      have hrest := ih htl hc.tail
      by_cases hfree : b.free
      · rw [List.filter_cons_of_pos hfree]
        refine List.Pairwise.cons (fun c hmem => ?_) hrest
        obtain ⟨hcr, hcf⟩ := List.mem_filter.mp hmem
        -- The next block is in use, so whatever is free starts behind it.
        cases rest with
        | nil => simp at hcr
        | cons d rest' =>
            have hd : d.free = false := by
              have := (List.isChain_cons_cons.mp hc).1
              simpa [hfree] using this
            rcases List.mem_cons.mp hcr with rfl | hmem'
            · rw [hd] at hcf
              simp at hcf
            · have h1 := (htl.2.2.bounds c hmem').1
              have h2 := htl.1
              have h3 := htl.2.1
              omega
      · rw [List.filter_cons_of_neg hfree]
        exact hrest

end Tilings
