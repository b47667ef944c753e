/-
The best-fit heap keeps its blocks in order.

`HeapLinked` ties the headers stored in the heap to a tiling of it: every block's
header records its size, and the free list threads exactly the free blocks, in
address order.  Allocation takes one free block out of the tiling, whole or split;
freeing puts one back and joins it with the neighbours it touches.  Each of these
is a change in the middle of the tiling, and the pointer updates the source makes
are shown to be that change.

Being fully coalesced is a separate fact about the tiling, because freeing breaks
it for a moment between inserting the block and joining it.
-/
import BrightS.Lib.Tilings
import BrightS.Kernel.Kmalloc

namespace BrightS

open Chains Tilings

/-! ### Headers in the store -/

/-- The link stored in each header. -/
def heapNext (heap : Nat → KmallocBlock) : Nat → Nat := fun a => (heap a).next

theorem heapNext_setNext (heap : Nat → KmallocBlock) (b q : Nat) :
    heapNext (setNext heap b q) = Function.update (heapNext heap) b q := by
  funext a
  by_cases h : a = b
  · subst h
    simp [heapNext, setNext]
  · simp [heapNext, setNext, h]

theorem heapNext_setSize (heap : Nat → KmallocBlock) (b n : Nat) :
    heapNext (setSize heap b n) = heapNext heap := by
  funext a
  by_cases h : a = b
  · subst h
    simp [heapNext, setSize]
  · simp [heapNext, setSize, h]

theorem setNext_size (heap : Nat → KmallocBlock) (b q a : Nat) :
    (setNext heap b q a).size = (heap a).size := by
  by_cases h : a = b
  · subst h
    simp [setNext]
  · simp [setNext, h]

theorem setSize_size (heap : Nat → KmallocBlock) (b n a : Nat) :
    (setSize heap b n a).size = if a = b then n else (heap a).size := by
  by_cases h : a = b
  · subst h
    simp [setSize]
  · simp [setSize, h]

/-! ### The heap and its tiling -/

/-- The headers in the store are those of the tiling, and the free list threads its free blocks. -/
structure HeapLinked (base : Nat) (heap : Nat → KmallocBlock) (freeList : Nat)
    (blocks : List Block) : Prop where
  pos : 0 < base
  tiles : Tiles base blocks (base + kmallocHeapSize)
  large : ∀ b ∈ blocks, kmallocMinBlock ≤ b.size
  sizes : ∀ b ∈ blocks, (heap b.addr).size = b.size
  links : Seg (heapNext heap) freeList (freeAddrs blocks) 0

namespace HeapLinked

variable {base freeList : Nat} {heap : Nat → KmallocBlock} {blocks l₁ l₂ : List Block} {b : Block}

theorem free_length_le (h : HeapLinked base heap freeList blocks) :
    (freeAddrs blocks).length ≤ heapFuel := by
  have h1 := h.tiles.length_le
  have h2 := freeAddrs_length_le blocks
  have h3 : heapFuel = kmallocHeapSize := rfl
  omega

/-- What is known of the two sides of a block. -/
theorem sides (h : HeapLinked base heap freeList (l₁ ++ b :: l₂)) :
    Tiles base l₁ b.addr ∧ 0 < b.size ∧
      Tiles (b.addr + b.size) l₂ (base + kmallocHeapSize) :=
  tiles_mid.mp h.tiles

theorem before_lt (h : HeapLinked base heap freeList (l₁ ++ b :: l₂)) {a : Block} (ha : a ∈ l₁) :
    a.addr + a.size ≤ b.addr ∧ 0 < a.size :=
  have := h.sides.1.bounds a ha
  ⟨this.2.2, this.2.1⟩

theorem behind_lt (h : HeapLinked base heap freeList (l₁ ++ b :: l₂)) {c : Block} (hc : c ∈ l₂) :
    b.addr + b.size ≤ c.addr :=
  (h.sides.2.2.bounds c hc).1

theorem freeAddrs_before (h : HeapLinked base heap freeList (l₁ ++ b :: l₂)) {a : Nat}
    (ha : a ∈ freeAddrs l₁) : a < b.addr := by
  obtain ⟨x, hx, -, rfl⟩ := mem_freeAddrs ha
  have := h.before_lt hx
  omega

theorem freeAddrs_behind (h : HeapLinked base heap freeList (l₁ ++ b :: l₂)) {a : Nat}
    (ha : a ∈ freeAddrs l₂) : b.addr + b.size ≤ a := by
  obtain ⟨x, hx, -, rfl⟩ := mem_freeAddrs ha
  exact h.behind_lt hx

end HeapLinked

/-! ### The best-fit search -/

/-- What the search has found among the nodes `l`: nothing, since none is large enough, or one
that is, with the node before it. -/
def FoundIn (heap : Nat → KmallocBlock) (totalSize : Nat) (l : List Nat) (best : BestFit) : Prop :=
  (best = { bestFit := 0, bestFitPrev := 0, bestFitSize := sizeMax } ∧
    ∀ a ∈ l, ¬ (totalSize ≤ (heap a).size ∧ (heap a).size < sizeMax)) ∨
    ∃ d₁ a d₂, l = d₁ ++ a :: d₂ ∧
      best = { bestFit := a, bestFitPrev := lastNode d₁, bestFitSize := (heap a).size } ∧
      totalSize ≤ (heap a).size

/-- One more node that the search does not take. -/
theorem FoundIn.skip {heap : Nat → KmallocBlock} {totalSize : Nat} {l : List Nat} {best : BestFit}
    (h : FoundIn heap totalSize l best) {a : Nat}
    (hskip : ¬ (totalSize ≤ (heap a).size ∧ (heap a).size < best.bestFitSize)) :
    FoundIn heap totalSize (l ++ [a]) best := by
  rcases h with ⟨rfl, hsmall⟩ | ⟨d₁, c, d₂, rfl, hb, hs⟩
  · refine Or.inl ⟨rfl, fun c hc => ?_⟩
    rcases List.mem_append.mp hc with hc | hc
    · exact hsmall c hc
    · rw [List.mem_singleton.mp hc]
      exact hskip
  · exact Or.inr ⟨d₁, c, d₂ ++ [a], by simp, hb, hs⟩

/-- The loop invariant: `done` has been searched, `rest` is still ahead. -/
theorem bestFitLoop_found (heap : Nat → KmallocBlock) (totalSize : Nat) :
    ∀ (rest done : List Nat) (fuel curr : Nat) (best : BestFit),
      Seg (heapNext heap) curr rest 0 → rest.length ≤ fuel → FoundIn heap totalSize done best →
      FoundIn heap totalSize (done ++ rest)
        (bestFitLoop heap totalSize fuel curr (lastNode done) best) := by
  intro rest
  induction rest with
  | nil =>
      intro done fuel curr best hseg _ hfound
      have hcurr : curr = 0 := hseg
      subst hcurr
      rw [List.append_nil]
      cases fuel with
      | zero => exact hfound
      | succ fuel => simpa [bestFitLoop] using hfound
  | cons a rest ih =>
      intro done fuel curr best hseg hfuel hfound
      obtain ⟨rfl, ha, hrest⟩ := hseg
      cases fuel with
      | zero => simp at hfuel
      | succ fuel =>
          have hstep : FoundIn heap totalSize (done ++ [curr])
              (if totalSize ≤ (heap curr).size ∧ (heap curr).size < best.bestFitSize then
                { bestFit := curr, bestFitPrev := lastNode done, bestFitSize := (heap curr).size }
              else best) := by
            split
            · rename_i hfit
              exact Or.inr ⟨done, curr, [], rfl, rfl, hfit.1⟩
            · rename_i hskip
              exact hfound.skip hskip
          have hfuel' : rest.length ≤ fuel := by simpa using hfuel
          have := ih (done ++ [curr]) fuel (heap curr).next _ hrest hfuel' hstep
          rw [lastNode_concat, ← List.append_cons] at this
          rw [bestFitLoop, if_neg ha]
          exact this

/-- The search over the whole free list. -/
theorem bestFit_spec {base freeList : Nat} {heap : Nat → KmallocBlock} {blocks : List Block}
    (h : HeapLinked base heap freeList blocks) (totalSize : Nat) :
    FoundIn heap totalSize (freeAddrs blocks)
      (bestFitLoop heap totalSize heapFuel freeList 0
        { bestFit := 0, bestFitPrev := 0, bestFitSize := sizeMax }) := by
  have := bestFitLoop_found heap totalSize (freeAddrs blocks) [] heapFuel freeList _
    h.links h.free_length_le (Or.inl ⟨rfl, by simp⟩)
  simpa using this

/-! ### Taking a block -/

/-- The blocks left when `totalSize` bytes of the free block `b` are taken. -/
def takeFrom (b : Block) (totalSize : Nat) (behind : List Block) : List Block :=
  if totalSize + kmallocMinBlock ≤ b.size then
    { b with size := totalSize, free := false } ::
      { addr := b.addr + totalSize, size := b.size - totalSize, free := true } :: behind
  else { b with free := false } :: behind

theorem usedAddrs_takeFrom {b : Block} {totalSize : Nat} {behind : List Block} :
    usedAddrs (takeFrom b totalSize behind) = b.addr :: usedAddrs behind := by
  unfold takeFrom
  split <;> simp [usedAddrs_cons]

/-- Unlink the node behind `d₁`: the pointer that led to it now leads to `after`. -/
theorem unlink_links {heap : Nat → KmallocBlock} {freeList after : Nat} {d₁ d₂ : List Nat} {m : Nat}
    (h₁ : Seg (heapNext heap) freeList d₁ m) (hnd : d₁.Nodup)
    (h₂ : Seg (heapNext heap) after d₂ 0) (hdisj : ∀ a ∈ d₂, a ∉ d₁) :
    Seg (heapNext (if lastNode d₁ ≠ 0 then setNext heap (lastNode d₁) after else heap))
      (if lastNode d₁ ≠ 0 then freeList else after) (d₁ ++ d₂) 0 := by
  rw [seg_append]
  refine ⟨after, ?_, ?_⟩
  · have := h₁.redirect hnd after
    by_cases hz : lastNode d₁ = 0
    · simpa [hz] using this
    · simpa [hz, heapNext_setNext] using this
  · refine h₂.congr fun a ha => ?_
    by_cases hz : lastNode d₁ = 0
    · simp [hz]
    · rw [if_pos hz, heapNext_setNext]
      refine Function.update_of_ne ?_ _ _
      rintro rfl
      -- The last node of `d₁` is one of its nodes.
      have hne : d₁ ≠ [] := fun hc => hz (h₁.lastNode_eq_zero.mpr hc)
      obtain ⟨init, x, hx⟩ := (List.eq_nil_or_concat' d₁).resolve_left hne
      exact hdisj _ ha (by rw [hx]; simp)

theorem heapNext_splitBlock (heap : Nat → KmallocBlock) (a totalSize : Nat) :
    heapNext (splitBlock heap a totalSize) =
      Function.update (Function.update (heapNext heap) (a + totalSize) (heap a).next)
        a (a + totalSize) := by
  have hnext : (setSize heap (a + totalSize) ((heap a).size - totalSize) a).next = (heap a).next :=
    congrFun (heapNext_setSize heap (a + totalSize) ((heap a).size - totalSize)) a
  simp only [splitBlock, heapNext_setNext, heapNext_setSize, hnext]

theorem splitBlock_size (heap : Nat → KmallocBlock) (a totalSize x : Nat) :
    (splitBlock heap a totalSize x).size =
      if x = a then totalSize
      else if x = a + totalSize then (heap a).size - totalSize else (heap x).size := by
  simp only [splitBlock, setNext_size, setSize_size]

/-- Storing a link changes no size. -/
theorem unlink_size (heap : Nat → KmallocBlock) (prev after x : Nat) :
    ((if prev ≠ 0 then setNext heap prev after else heap) x).size = (heap x).size := by
  by_cases hp : prev = 0
  · simp [hp]
  · rw [if_pos hp, setNext_size]

section Take

variable {base freeList totalSize : Nat} {heap : Nat → KmallocBlock} {l₁ l₂ : List Block} {b : Block}

/-- Taking a free block whole. -/
theorem HeapLinked.take_whole (h : HeapLinked base heap freeList (l₁ ++ b :: l₂))
    (hb : b.free = true) :
    HeapLinked base
      (if lastNode (freeAddrs l₁) ≠ 0 then
        setNext heap (lastNode (freeAddrs l₁)) (heap b.addr).next else heap)
      (if lastNode (freeAddrs l₁) ≠ 0 then freeList else (heap b.addr).next)
      (l₁ ++ { b with free := false } :: l₂) := by
  obtain ⟨ht₁, hs, ht₂⟩ := h.sides
  have hlinks := h.links
  rw [freeAddrs_append, freeAddrs_cons_free hb, seg_append] at hlinks
  obtain ⟨m, hseg₁, -, -, hseg₂⟩ := hlinks
  refine ⟨h.pos, tiles_mid.mpr ⟨ht₁, hs, ht₂⟩, ?_, ?_, ?_⟩
  · intro x hx
    rcases List.mem_append.mp hx with hx | hx
    · exact h.large x (by simp [hx])
    · rcases List.mem_cons.mp hx with rfl | hx
      · exact h.large b (by simp)
      · exact h.large x (by simp [hx])
  · intro x hx
    rw [unlink_size]
    rcases List.mem_append.mp hx with hx | hx
    · exact h.sizes x (by simp [hx])
    · rcases List.mem_cons.mp hx with rfl | hx
      · exact h.sizes b (by simp)
      · exact h.sizes x (by simp [hx])
  · rw [freeAddrs_append, freeAddrs_cons_used rfl]
    refine unlink_links hseg₁ ht₁.freeAddrs_nodup hseg₂ fun a ha hc => ?_
    have h1 := h.freeAddrs_behind ha
    have h2 := h.freeAddrs_before hc
    omega

/-- Taking the front of a free block and leaving the rest in its place. -/
theorem HeapLinked.take_split (h : HeapLinked base heap freeList (l₁ ++ b :: l₂))
    (hb : b.free = true) (hlo : kmallocMinBlock ≤ totalSize)
    (hhi : totalSize + kmallocMinBlock ≤ b.size) :
    HeapLinked base
      (if lastNode (freeAddrs l₁) ≠ 0 then
        setNext (splitBlock heap b.addr totalSize) (lastNode (freeAddrs l₁))
          (splitBlock heap b.addr totalSize b.addr).next
      else splitBlock heap b.addr totalSize)
      (if lastNode (freeAddrs l₁) ≠ 0 then freeList
      else (splitBlock heap b.addr totalSize b.addr).next)
      (l₁ ++ { b with size := totalSize, free := false } ::
        { addr := b.addr + totalSize, size := b.size - totalSize, free := true } :: l₂) := by
  have hmin : 0 < kmallocMinBlock := by decide
  obtain ⟨ht₁, hs, ht₂⟩ := h.sides
  have hlinks := h.links
  rw [freeAddrs_append, freeAddrs_cons_free hb, seg_append] at hlinks
  obtain ⟨m, hseg₁, -, hbz, hseg₂⟩ := hlinks
  have hnext : (splitBlock heap b.addr totalSize b.addr).next = b.addr + totalSize := by
    have := congrFun (heapNext_splitBlock heap b.addr totalSize) b.addr
    simpa [heapNext] using this
  -- Outside the two headers it writes, splitting changes no link.
  have hframe : ∀ a, a ≠ b.addr → a ≠ b.addr + totalSize →
      heapNext (splitBlock heap b.addr totalSize) a = heapNext heap a := by
    intro a h1 h2
    rw [heapNext_splitBlock, Function.update_of_ne h1, Function.update_of_ne h2]
  have hbehind : ∀ x ∈ l₂, b.addr + b.size ≤ x.addr := fun x hx => h.behind_lt hx
  refine ⟨h.pos, ?_, ?_, ?_, ?_⟩
  · rw [tiles_mid]
    refine ⟨ht₁, by show 0 < totalSize; omega, rfl, by show 0 < b.size - totalSize; omega, ?_⟩
    show Tiles (b.addr + totalSize + (b.size - totalSize)) l₂ _
    rw [show b.addr + totalSize + (b.size - totalSize) = b.addr + b.size by omega]
    exact ht₂
  · intro x hx
    rcases List.mem_append.mp hx with hx | hx
    · exact h.large x (by simp [hx])
    · rcases List.mem_cons.mp hx with rfl | hx
      · exact hlo
      · rcases List.mem_cons.mp hx with rfl | hx
        · show kmallocMinBlock ≤ b.size - totalSize
          omega
        · exact h.large x (by simp [hx])
  · intro x hx
    rw [unlink_size, splitBlock_size]
    rcases List.mem_append.mp hx with hx | hx
    · have := h.before_lt hx
      rw [if_neg (by omega), if_neg (by omega)]
      exact h.sizes x (by simp [hx])
    · rcases List.mem_cons.mp hx with rfl | hx
      · exact if_pos rfl
      · rcases List.mem_cons.mp hx with rfl | hx
        · show (if b.addr + totalSize = b.addr then _ else _) = _
          rw [if_neg (by omega), if_pos rfl, h.sizes b (by simp)]
        · have := hbehind x hx
          rw [if_neg (by omega), if_neg (by omega)]
          exact h.sizes x (by simp [hx])
  · rw [freeAddrs_append, freeAddrs_cons_used rfl, freeAddrs_cons_free rfl, hnext]
    refine unlink_links (m := m) ?_ ht₁.freeAddrs_nodup ?_ ?_
    · refine hseg₁.congr fun a ha => ?_
      have := h.freeAddrs_before ha
      exact hframe a (by omega) (by omega)
    · refine ⟨rfl, by show b.addr + totalSize ≠ 0; omega, ?_⟩
      show Seg _ (heapNext (splitBlock heap b.addr totalSize) (b.addr + totalSize)) _ _
      have hrest : heapNext (splitBlock heap b.addr totalSize) (b.addr + totalSize)
          = heapNext heap b.addr := by
        rw [heapNext_splitBlock, Function.update_of_ne (by omega), Function.update_self]
        rfl
      rw [hrest]
      refine hseg₂.congr fun a ha => ?_
      have := h.freeAddrs_behind ha
      exact hframe a (by omega) (by omega)
    · intro a ha hc
      have h2 := h.freeAddrs_before hc
      rcases List.mem_cons.mp ha with rfl | ha
      · simp at h2
      · have h1 := h.freeAddrs_behind ha
        omega

end Take

/-- A block fits in the heap. -/
theorem HeapLinked.size_le {base freeList : Nat} {heap : Nat → KmallocBlock} {blocks : List Block}
    (h : HeapLinked base heap freeList blocks) {b : Block} (hb : b ∈ blocks) :
    b.size ≤ kmallocHeapSize := by
  have := h.tiles.bounds b hb
  omega

/-- The state with another heap and `taken` more bytes in use. -/
def Kmalloc.withHeap (st : Kmalloc) (heap : Nat → KmallocBlock) (freeList taken : Nat) : Kmalloc :=
  { st with
    heap := heap
    freeList := freeList
    heapUsed := (st.heapUsed + taken) % 2 ^ 64
    totalUsed := (st.totalUsed + taken) % 2 ^ 64 }

/-- The size of the block that a request asks for, as the 64-bit arithmetic rounds it. -/
def heapTotal (size : Nat) : Nat :=
  if alignUp (size + blockHeader) kmallocAlign < kmallocMinBlock then kmallocMinBlock
  else alignUp (size + blockHeader) kmallocAlign

/--
What the heap allocator does: nothing, for a request that is too large or fits no free block, or it
takes one free block that the request fits out of the tiling and returns the address behind its
header.
-/
theorem heapAlloc_spec {base : Nat} {st : Kmalloc} {blocks : List Block}
    (h : HeapLinked base st.heap st.freeList blocks) (size : Nat) :
    (heapAlloc st size = (st, 0) ∧ (sizeMax - blockHeader < size ∨
        ∀ b ∈ blocks, b.free = true → b.size < heapTotal size)) ∨
      ∃ l₁ b l₂ heap freeList taken, blocks = l₁ ++ b :: l₂ ∧ b.free = true ∧
        size ≤ sizeMax - blockHeader ∧ heapTotal size ≤ b.size ∧
        HeapLinked base heap freeList (l₁ ++ takeFrom b (heapTotal size) l₂) ∧
        taken = (heap b.addr).size ∧
        heapAlloc st size = (st.withHeap heap freeList taken, b.addr + blockHeader) := by
  simp only [heapAlloc]
  split
  · rename_i hlarge
    exact Or.inl ⟨rfl, Or.inl hlarge⟩
  · rename_i hguard
    rw [show (if alignUp (size + blockHeader) kmallocAlign < kmallocMinBlock then kmallocMinBlock
      else alignUp (size + blockHeader) kmallocAlign) = heapTotal size from rfl]
    have hmin : kmallocMinBlock ≤ heapTotal size := by
      rw [heapTotal]
      split <;> omega
    generalize heapTotal size = total at hmin
    have hheap : kmallocHeapSize < 2 ^ 32 := by decide
    have hmax : sizeMax = 2 ^ 64 - 1 := rfl
    rcases bestFit_spec h total with ⟨hnone, hsmall⟩ | ⟨d₁, a, d₂, hfree, hbest, hfit⟩
    · rw [hnone]
      refine Or.inl ⟨rfl, Or.inr fun b hb hbfree => ?_⟩
      have hmem : b.addr ∈ freeAddrs blocks :=
        List.mem_map.mpr ⟨b, List.mem_filter.mpr ⟨hb, hbfree⟩, rfl⟩
      have hno := hsmall b.addr hmem
      rw [h.sizes b hb] at hno
      have := h.size_le hb
      omega
    · rw [hbest]
      obtain ⟨l₁, b, l₂, rfl, hb, rfl, rfl, rfl⟩ := freeAddrs_split hfree
      have hsize : (st.heap b.addr).size = b.size := h.sizes b (by simp)
      have hle : b.size ≤ kmallocHeapSize := h.size_le (by simp)
      have hne : b.addr ≠ 0 := by
        have := (h.tiles.bounds b (by simp)).1
        have := h.pos
        omega
      rw [hsize] at hfit
      have hmb : kmallocMinBlock = 32 := rfl
      have hmod : (total + kmallocMinBlock) % 2 ^ 64 = total + kmallocMinBlock :=
        Nat.mod_eq_of_lt (by omega)
      simp only [hmod, hsize, if_neg hne]
      refine Or.inr ⟨l₁, b, l₂, _, _, _, rfl, hb, by omega, hfit, ?_, rfl, rfl⟩
      by_cases hsplit : total + kmallocMinBlock ≤ b.size
      · rw [if_pos hsplit, takeFrom, if_pos hsplit]
        exact h.take_split hb hmin hsplit
      · rw [if_neg hsplit, takeFrom, if_neg hsplit]
        exact h.take_whole hb

/-- Taking a block leaves no two free neighbours. -/
theorem coalesced_takeFrom {l₁ l₂ : List Block} {b : Block} {totalSize : Nat}
    (hc : Coalesced (l₁ ++ b :: l₂)) (hb : b.free = true) :
    Coalesced (l₁ ++ takeFrom b totalSize l₂) := by
  obtain ⟨h₁, h₂, hn⟩ := coalesced_mid.mp hc
  unfold takeFrom
  split
  · refine coalesced_mid.mpr ⟨h₁, ?_, by simp⟩
    exact coalesced_mid.mpr ⟨List.isChain_nil, h₂, fun _ => ⟨by simp, (hn hb).2⟩⟩
  · exact coalesced_mid.mpr ⟨h₁, h₂, by simp⟩

/-! ### Giving a block back

Three steps: link the block into the list, join it with the block behind it, join
it into the block before it.
-/

/-- The search stops between the nodes below `block` and those above it. -/
theorem insertPoint_spec (heap : Nat → KmallocBlock) (block : Nat) :
    ∀ (before behind : List Nat) (fuel prev curr : Nat),
      Seg (heapNext heap) curr (before ++ behind) 0 → (∀ a ∈ before, a < block) →
      (∀ a ∈ behind.head?, block ≤ a) → before.length ≤ fuel →
      insertPoint heap block fuel prev curr =
        (if before = [] then prev else lastNode before, behind.head?.getD 0) := by
  intro before
  induction before with
  | nil =>
      intro behind fuel prev curr hseg _ hge _
      have hcurr : curr = behind.head?.getD 0 := by
        cases behind with
        | nil => exact hseg
        | cons a rest => exact hseg.1
      have hstop : ¬ (curr ≠ 0 ∧ curr < block) := by
        rintro ⟨hnz, hlt⟩
        cases behind with
        | nil => exact hnz hseg
        | cons a rest =>
            have := hge a (by simp)
            rw [hseg.1] at hlt
            omega
      cases fuel with
      | zero => simp [insertPoint, hcurr]
      | succ fuel => rw [insertPoint, if_neg hstop, hcurr]; simp
  | cons a rest ih =>
      intro behind fuel prev curr hseg hlt hge hfuel
      obtain ⟨rfl, hnz, htl⟩ := hseg
      cases fuel with
      | zero => simp at hfuel
      | succ fuel =>
          rw [insertPoint, if_pos ⟨hnz, hlt curr (by simp)⟩,
            ih behind fuel curr (heap curr).next htl (fun x hx => hlt x (by simp [hx])) hge
              (by simpa using hfuel)]
          cases rest with
          | nil => simp [lastNode]
          | cons b rest' => simp [lastNode, List.getLast?_cons_cons]

section Release

variable {base freeList : Nat} {heap : Nat → KmallocBlock} {l₁ l₂ : List Block} {b : Block}

/-- The heap with `b` linked between the free blocks before and behind it. -/
def linkBlock (heap : Nat → KmallocBlock) (block prev curr : Nat) : Nat → KmallocBlock :=
  let heap := setNext heap block curr
  if prev ≠ 0 then setNext heap prev block else heap

theorem HeapLinked.insertPoint_eq (h : HeapLinked base heap freeList (l₁ ++ b :: l₂))
    (hb : b.free = false) :
    insertPoint heap b.addr heapFuel 0 freeList =
      (lastNode (freeAddrs l₁), (freeAddrs l₂).head?.getD 0) := by
  have hlinks := h.links
  rw [freeAddrs_append, freeAddrs_cons_used hb] at hlinks
  have hlen : (freeAddrs l₁).length ≤ heapFuel := by
    have := h.free_length_le
    rw [freeAddrs_append, List.length_append] at this
    omega
  rw [insertPoint_spec heap b.addr _ _ _ _ _ hlinks (fun a ha => h.freeAddrs_before ha) ?_ hlen]
  · by_cases hnil : freeAddrs l₁ = []
    · simp [hnil]
    · simp [hnil]
  · intro a ha
    have := h.freeAddrs_behind (List.mem_of_mem_head? ha)
    omega

/-- Linking a block in makes it free. -/
theorem HeapLinked.link (h : HeapLinked base heap freeList (l₁ ++ b :: l₂)) (hb : b.free = false) :
    HeapLinked base
      (linkBlock heap b.addr (lastNode (freeAddrs l₁)) ((freeAddrs l₂).head?.getD 0))
      (if lastNode (freeAddrs l₁) ≠ 0 then freeList else b.addr)
      (l₁ ++ { b with free := true } :: l₂) := by
  obtain ⟨ht₁, hs, ht₂⟩ := h.sides
  have hlinks := h.links
  rw [freeAddrs_append, freeAddrs_cons_used hb, seg_append] at hlinks
  obtain ⟨m, hseg₁, hseg₂⟩ := hlinks
  have hm : m = (freeAddrs l₂).head?.getD 0 := by
    cases hf : freeAddrs l₂ with
    | nil => rw [hf] at hseg₂; exact hseg₂
    | cons a rest => rw [hf] at hseg₂; exact hseg₂.1
  have hbz : b.addr ≠ 0 := by
    have := (h.tiles.bounds b (by simp)).1
    have := h.pos
    omega
  rw [← hm]
  refine ⟨h.pos, tiles_mid.mpr ⟨ht₁, hs, ht₂⟩, ?_, ?_, ?_⟩
  · intro x hx
    rcases List.mem_append.mp hx with hx | hx
    · exact h.large x (by simp [hx])
    · rcases List.mem_cons.mp hx with rfl | hx
      · exact h.large b (by simp)
      · exact h.large x (by simp [hx])
  · intro x hx
    rw [linkBlock, unlink_size, setNext_size]
    rcases List.mem_append.mp hx with hx | hx
    · exact h.sizes x (by simp [hx])
    · rcases List.mem_cons.mp hx with rfl | hx
      · exact h.sizes b (by simp)
      · exact h.sizes x (by simp [hx])
  · rw [freeAddrs_append, freeAddrs_cons_free rfl]
    -- First `b` points to what followed, then what led there points to `b`.
    have hnext : heapNext (setNext heap b.addr m) b.addr = m := by
      rw [heapNext_setNext, Function.update_self]
    have hframe : ∀ a, a ≠ b.addr →
        heapNext (setNext heap b.addr m) a = heapNext heap a := by
      intro a ha
      rw [heapNext_setNext, Function.update_of_ne ha]
    refine unlink_links (m := m) ?_ ht₁.freeAddrs_nodup ⟨rfl, hbz, ?_⟩ ?_
    · refine hseg₁.congr fun a ha => hframe a ?_
      have := h.freeAddrs_before ha
      omega
    · rw [hnext]
      refine hseg₂.congr fun a ha => hframe a ?_
      have := h.freeAddrs_behind ha
      omega
    · intro a ha hc
      have h2 := h.freeAddrs_before hc
      rcases List.mem_cons.mp ha with rfl | ha
      · simp at h2
      · have h1 := h.freeAddrs_behind ha
        omega

/-- Joining two free neighbours whose second is unlinked: the first grows over it. -/
theorem HeapLinked.join {c : Block} (h : HeapLinked base heap freeList (l₁ ++ b :: c :: l₂))
    (hb : b.free = true) (hc : c.free = true) :
    HeapLinked base
      (setNext (setSize heap b.addr ((b.size + c.size) % 2 ^ 64)) b.addr (heap c.addr).next)
      freeList (l₁ ++ { b with size := b.size + c.size } :: l₂) := by
  obtain ⟨ht₁, hs, hca, hcs, ht₂⟩ := h.sides
  have hsum : b.size + c.size ≤ kmallocHeapSize := by
    have h1 := ht₁.le
    have h2 := ht₂.le
    omega
  have hheap : kmallocHeapSize < 2 ^ 64 := by decide
  have hlinks := h.links
  rw [freeAddrs_append, freeAddrs_cons_free hb, freeAddrs_cons_free hc, seg_append] at hlinks
  obtain ⟨m, hseg₁, hmb, hbz, -, -, hseg₂⟩ := hlinks
  refine ⟨h.pos, ?_, ?_, ?_, ?_⟩
  · refine tiles_mid.mpr ⟨ht₁, by show 0 < b.size + c.size; omega, ?_⟩
    show Tiles (b.addr + (b.size + c.size)) l₂ _
    rw [← Nat.add_assoc]
    exact ht₂
  · intro x hx
    rcases List.mem_append.mp hx with hx | hx
    · exact h.large x (by simp [hx])
    · rcases List.mem_cons.mp hx with rfl | hx
      · have := h.large b (by simp)
        show kmallocMinBlock ≤ b.size + c.size
        omega
      · exact h.large x (by simp [hx])
  · intro x hx
    rw [setNext_size, setSize_size]
    rcases List.mem_append.mp hx with hx | hx
    · have := h.before_lt hx
      rw [if_neg (by omega)]
      exact h.sizes x (by simp [hx])
    · rcases List.mem_cons.mp hx with rfl | hx
      · show (if b.addr = b.addr then _ else _) = b.size + c.size
        rw [if_pos rfl, Nat.mod_eq_of_lt (by omega)]
      · have := h.behind_lt (show x ∈ c :: l₂ by simp [hx])
        rw [if_neg (by omega)]
        exact h.sizes x (by simp [hx])
  · have hb' : ({ b with size := b.size + c.size } : Block).free = true := hb
    rw [freeAddrs_append, freeAddrs_cons_free hb', heapNext_setNext, heapNext_setSize, seg_append]
    have hframe : ∀ a, a ≠ b.addr →
        Function.update (heapNext heap) b.addr (heap c.addr).next a = heapNext heap a :=
      fun a ha => Function.update_of_ne ha _ _
    refine ⟨m, hseg₁.congr fun a ha => hframe a ?_, hmb, hbz, ?_⟩
    · have := h.freeAddrs_before ha
      omega
    · rw [Function.update_self]
      refine hseg₂.congr fun a ha => hframe a ?_
      have := h.freeAddrs_behind
        (show a ∈ freeAddrs (c :: l₂) by rw [freeAddrs_cons_free hc]; simp [ha])
      omega

/-- The link of a free block leads to the next free block, which touches it exactly when it is
its neighbour. -/
theorem HeapLinked.joinNext (h : HeapLinked base heap freeList (l₁ ++ b :: l₂))
    (hb : b.free = true) (hc₂ : Coalesced l₂) :
    ∃ b' l₂', HeapLinked base (joinNext heap b.addr) freeList (l₁ ++ b' :: l₂') ∧
      b'.addr = b.addr ∧ b'.free = true ∧ Coalesced l₂' ∧ (∀ c ∈ l₂'.head?, c.free = false) ∧
      usedBlocks l₂' = usedBlocks l₂ := by
  have hlinks := h.links
  rw [freeAddrs_append, freeAddrs_cons_free hb, seg_append] at hlinks
  obtain ⟨m, -, -, -, hseg₂⟩ := hlinks
  have hsize : (heap b.addr).size = b.size := h.sizes b (by simp)
  by_cases hn : ∃ c l₃, l₂ = c :: l₃ ∧ c.free = true
  · obtain ⟨c, l₃, rfl, hc⟩ := hn
    obtain ⟨-, -, hca, -, -⟩ := h.sides
    rw [freeAddrs_cons_free hc] at hseg₂
    obtain ⟨hnext, hcz, -⟩ := hseg₂
    have hnext' : (heap b.addr).next = c.addr := hnext
    have htouch : (heap b.addr).next ≠ 0 ∧ b.addr + (heap b.addr).size = (heap b.addr).next := by
      rw [hnext', hsize, hca]
      exact ⟨by rw [← hca]; exact hcz, rfl⟩
    have hcne : c.addr ≠ b.addr := by
      have := h.sides.2.1
      omega
    have hlast : ∀ n, (setSize heap b.addr n c.addr).next = (heap c.addr).next :=
      fun n => congrFun (heapNext_setSize heap b.addr n) c.addr
    have hc₃ := (@coalesced_mid [] l₃ c).mp hc₂
    refine ⟨{ b with size := b.size + c.size }, l₃, ?_, rfl, hb, hc₃.2.1, (hc₃.2.2 hc).2, ?_⟩
    · rw [BrightS.joinNext, if_pos htouch, hnext', hsize, h.sizes c (by simp)]
      simp only [hlast]
      exact h.join hb hc
    · rw [usedBlocks_cons, if_pos hc]
  · -- What is behind `b` is in use, so the next free block starts later.
    have hapart : ¬ ((heap b.addr).next ≠ 0 ∧ b.addr + (heap b.addr).size = (heap b.addr).next) := by
      rintro ⟨hnz, htouch⟩
      cases l₂ with
      | nil => exact hnz hseg₂
      | cons c l₃ =>
          have hc : c.free = false := by
            by_contra hc
            exact hn ⟨c, l₃, rfl, by simpa using hc⟩
          rw [freeAddrs_cons_used hc] at hseg₂
          obtain ⟨-, -, hca, hcs, ht₃⟩ := h.sides
          cases hf : freeAddrs l₃ with
          | nil => rw [hf] at hseg₂; exact hnz hseg₂
          | cons a rest =>
              rw [hf] at hseg₂
              obtain ⟨x, hx, -, hxa⟩ := mem_freeAddrs (l := l₃) (a := a) (by rw [hf]; simp)
              have h1 := (ht₃.bounds x hx).1
              have h2 : (heap b.addr).next = a := hseg₂.1
              omega
    refine ⟨b, l₂, ?_, rfl, hb, hc₂, ?_, rfl⟩
    · rw [BrightS.joinNext, if_neg hapart]
      exact h
    · intro c hc
      by_contra hcf
      cases l₂ with
      | nil => simp at hc
      | cons d l₃ =>
          have : d = c := by simpa using hc
          exact hn ⟨d, l₃, rfl, by rw [this]; simpa using hcf⟩

/-- The last free block before `b` touches it exactly when it is its neighbour. -/
theorem HeapLinked.joinPrev (h : HeapLinked base heap freeList (l₁ ++ b :: l₂))
    (hb : b.free = true) (hc₁ : Coalesced l₁) :
    ∃ b' l₁', HeapLinked base (joinPrev heap (lastNode (freeAddrs l₁)) b.addr) freeList
        (l₁' ++ b' :: l₂) ∧
      b'.free = true ∧ Coalesced l₁' ∧ (∀ a ∈ l₁'.getLast?, a.free = false) ∧
      usedBlocks l₁' = usedBlocks l₁ := by
  have hsize : (heap b.addr).size = b.size := h.sizes b (by simp)
  by_cases hp : ∃ l₀ a, l₁ = l₀ ++ [a] ∧ a.free = true
  · obtain ⟨l₀, a, rfl, ha⟩ := hp
    have hab := h.before_lt (show a ∈ l₀ ++ [a] by simp)
    have htile := h.sides.1
    obtain ⟨-, -, htouch⟩ := tiles_mid.mp htile
    rw [tiles_nil] at htouch
    have hlast : lastNode (freeAddrs (l₀ ++ [a])) = a.addr := by
      rw [freeAddrs_append, freeAddrs_cons_free ha, freeAddrs_nil, lastNode_concat]
    have haz : a.addr ≠ 0 := by
      have := (htile.bounds a (by simp)).1
      have := h.pos
      omega
    have hasize : (heap a.addr).size = a.size := h.sizes a (by simp)
    have hbn : ∀ n, (setSize heap a.addr n b.addr).next = (heap b.addr).next :=
      fun n => congrFun (heapNext_setSize heap a.addr n) b.addr
    have hc₀ := coalesced_mid.mp hc₁
    refine ⟨{ a with size := a.size + b.size }, l₀, ?_, ha, hc₀.1, (hc₀.2.2 ha).1, ?_⟩
    · rw [hlast, BrightS.joinPrev, if_pos ⟨haz, by rw [hasize]; exact htouch⟩, hasize, hsize]
      simp only [hbn]
      rw [List.append_assoc, List.singleton_append] at h
      exact h.join ha hb
    · rw [usedBlocks_append, usedBlocks_cons, if_pos ha]
      simp [usedBlocks]
  · have hapart : ¬ (lastNode (freeAddrs l₁) ≠ 0 ∧
        lastNode (freeAddrs l₁) + (heap (lastNode (freeAddrs l₁))).size = b.addr) := by
      rintro ⟨hnz, htouch⟩
      rcases List.eq_nil_or_concat' l₁ with rfl | ⟨l₀, a, rfl⟩
      · exact hnz rfl
      · have ha : a.free = false := by
          by_contra hc
          exact hp ⟨l₀, a, rfl, by simpa using hc⟩
        obtain ⟨ht₀, has, hta⟩ := tiles_mid.mp h.sides.1
        rw [tiles_nil] at hta
        have hfree : freeAddrs (l₀ ++ [a]) = freeAddrs l₀ := by
          rw [freeAddrs_append, freeAddrs_cons_used ha, freeAddrs_nil, List.append_nil]
        rw [hfree] at hnz htouch
        rcases List.eq_nil_or_concat' (freeAddrs l₀) with hnil | ⟨init, y, hy⟩
        · rw [hnil] at hnz
          exact hnz rfl
        · obtain ⟨x, hx, -, hxa⟩ := mem_freeAddrs (l := l₀) (a := y) (by rw [hy]; simp)
          rw [hy, lastNode_concat, ← hxa, h.sizes x (by simp [hx])] at htouch
          have := (ht₀.bounds x hx).2.2
          omega
    refine ⟨b, l₁, ?_, hb, hc₁, ?_, rfl⟩
    · rw [BrightS.joinPrev, if_neg hapart]
      exact h
    · intro a ha
      by_contra haf
      rcases List.eq_nil_or_concat' l₁ with rfl | ⟨l₀, x, rfl⟩
      · simp at ha
      · have hxa : x = a := by simpa using ha
        exact hp ⟨l₀, x, rfl, by rw [hxa]; simpa using haf⟩

/-- The state with another heap and `given` fewer bytes in use. -/
def Kmalloc.withoutBlock (st : Kmalloc) (heap : Nat → KmallocBlock) (freeList given : Nat) :
    Kmalloc :=
  { st with
    heap := heap
    freeList := freeList
    heapUsed := (st.heapUsed + (2 ^ 64 - given)) % 2 ^ 64
    totalUsed := (st.totalUsed + (2 ^ 64 - given)) % 2 ^ 64 }

/-- **Freeing a block in use puts it back into the tiling and joins it with what it touches.** -/
theorem heapRelease_spec {st : Kmalloc}
    (h : HeapLinked base st.heap st.freeList (l₁ ++ b :: l₂)) (hb : b.free = false)
    (hc : Coalesced (l₁ ++ b :: l₂)) :
    ∃ heap freeList blocks, HeapLinked base heap freeList blocks ∧ Coalesced blocks ∧
      usedBlocks blocks = usedBlocks l₁ ++ usedBlocks l₂ ∧
      heapRelease st (b.addr + blockHeader) = st.withoutBlock heap freeList b.size := by
  obtain ⟨hc₁, hc₂, -⟩ := coalesced_mid.mp hc
  obtain ⟨b₁, l₂', hnext, hb₁a, hb₁, hc₂', hn₂, hu₂⟩ := (h.link hb).joinNext rfl hc₂
  obtain ⟨b₂, l₁', hprev, hb₂, hc₁', hn₁, hu₁⟩ := hnext.joinPrev hb₁ hc₁
  refine ⟨_, _, _, hprev, coalesced_mid.mpr ⟨hc₁', hc₂', fun _ => ⟨hn₁, hn₂⟩⟩, ?_, ?_⟩
  · rw [usedBlocks_append, usedBlocks_cons, if_pos hb₂, hu₁, hu₂]
  · have hptr : b.addr + blockHeader - blockHeader = b.addr := by omega
    simp only [heapRelease, hptr, h.insertPoint_eq hb, h.sizes b (by simp)]
    rw [hb₁a]
    rfl

end Release

end BrightS
