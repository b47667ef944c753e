/-
The blocks of the user heap.

The headers in memory are those of a tiling of the heap, from its start to the break.  A call
changes a stretch of the tiling: `malloc` a free block or the end of the heap, `free` a block in
use and the neighbours it is joined to.  All that it writes lies in headers or in free blocks,
so what the program keeps in its blocks stays.
-/
import BrightS.Lib.Tilings
import BrightS.Kernel.UserHeap

namespace BrightS

open Bytes Tilings Words

/-! ### Headers -/

/-- The header of the block, as it is in memory. -/
structure IsHeader (m : Mem) (b : Block) : Prop where
  le : mallocHeaderSize ≤ b.size
  size : hdrSize m b.addr = b.size - mallocHeaderSize
  free : hdrFree m b.addr = if b.free then 1 else 0

section Header

variable {m m' : Mem} {b : Block}

theorem IsHeader.congr (h : IsHeader m b)
    (hsame : ∀ i, b.addr ≤ i → i < b.addr + mallocHeaderSize → m i = m' i) : IsHeader m' b := by
  unfold mallocHeaderSize at hsame
  refine ⟨h.le, ?_, ?_⟩
  · rw [← h.size]
    exact (word_congr fun i h₁ h₂ => hsame i h₁ (by omega)).symm
  · rw [← h.free]
    exact (word_congr fun i h₁ h₂ => hsame i (by omega) (by omega)).symm

theorem IsHeader.free_iff (h : IsHeader m b) : hdrFree m b.addr ≠ 0 ↔ b.free = true := by
  rw [h.free]
  cases b.free <;> simp

theorem IsHeader.next (h : IsHeader m b) (hlt : b.addr + b.size < 2 ^ 64) :
    hdrNext m b.addr = b.addr + b.size := by
  unfold hdrNext
  rw [h.size, Nat.add_sub_cancel' h.le, Nat.mod_eq_of_lt hlt]

/-- Only the word of the size changes, or only the one that says whether the block is free. -/
theorem isHeader_setSize (h : IsHeader m b) (size : Nat) (hle : mallocHeaderSize ≤ size)
    (hlt : size < 2 ^ 64) :
    IsHeader (setHdrSize m b.addr (size - mallocHeaderSize)) { b with size := size } where
  le := hle
  size := word_setWord m b.addr (by omega)
  free := by
    refine Eq.trans ?_ h.free
    exact word_setWord_of_ne (.inr (le_refl _))

theorem isHeader_setFree (h : IsHeader m b) (free : Bool) :
    IsHeader (setHdrFree m b.addr (if free then 1 else 0)) { b with free := free } where
  le := h.le
  size := by
    refine Eq.trans ?_ h.size
    exact word_setWord_of_ne (.inl (le_refl _))
  free := by
    refine word_setWord m (b.addr + 8) ?_
    cases free <;> decide

/-- Both words of a new header. -/
theorem isHeader_new (m : Mem) {a size : Nat} (hle : mallocHeaderSize ≤ size)
    (hlt : size < 2 ^ 64) (free : Bool) :
    IsHeader (setHdrFree (setHdrSize m a (size - mallocHeaderSize)) a (if free then 1 else 0))
      { addr := a, size := size, free := free } where
  le := hle
  size := (word_setWord_of_ne (.inl (le_refl _))).trans (word_setWord m a (by omega))
  free := by
    refine word_setWord _ (a + 8) ?_
    cases free <;> decide

theorem setHdrSize_outside {hdr size i : Nat} (h : i < hdr ∨ hdr + mallocHeaderSize ≤ i) :
    setHdrSize m hdr size i = m i :=
  setWord_outside (by unfold mallocHeaderSize at h; omega)

theorem setHdrFree_outside {hdr free i : Nat} (h : i < hdr ∨ hdr + mallocHeaderSize ≤ i) :
    setHdrFree m hdr free i = m i :=
  setWord_outside (by unfold mallocHeaderSize at h; omega)

end Header

/-! ### The heap and its tiling -/

/-- The headers from `lo` to `hi` are those of the blocks. -/
structure HeapRep (m : Mem) (lo : Nat) (l : List Block) (hi : Nat) : Prop where
  tiles : Tiles lo l hi
  hi_lt : hi < 2 ^ 64
  headers : ∀ b ∈ l, IsHeader m b

namespace HeapRep

variable {m m' : Mem} {lo hi : Nat} {l l₁ l₂ mid new : List Block} {b c : Block}

theorem append_iff (hlt : hi < 2 ^ 64) : HeapRep m lo (l₁ ++ l₂) hi ↔
    ∃ a, HeapRep m lo l₁ a ∧ HeapRep m a l₂ hi := by
  constructor
  · intro h
    obtain ⟨a, h₁, h₂⟩ := tiles_append.mp h.tiles
    have ha := h₂.le
    exact ⟨a, ⟨h₁, by omega, fun b hb => h.headers b (List.mem_append_left _ hb)⟩,
      ⟨h₂, hlt, fun b hb => h.headers b (List.mem_append_right _ hb)⟩⟩
  · rintro ⟨a, h₁, h₂⟩
    refine ⟨tiles_append.mpr ⟨a, h₁.tiles, h₂.tiles⟩, hlt, fun b hb => ?_⟩
    rcases List.mem_append.mp hb with hb | hb
    · exact h₁.headers b hb
    · exact h₂.headers b hb

/-- Memory that is the same from `lo` to `hi`. -/
theorem congr (h : HeapRep m lo l hi) (hsame : ∀ i, lo ≤ i → i < hi → m i = m' i) :
    HeapRep m' lo l hi := by
  refine ⟨h.tiles, h.hi_lt, fun b hb => (h.headers b hb).congr fun i h₁ h₂ => ?_⟩
  have hbounds := h.tiles.bounds b hb
  have hle := (h.headers b hb).le
  exact hsame i (by omega) (by omega)

/-- A stretch of blocks is replaced by another, and nothing is written outside of it. -/
theorem replace {a z : Nat} (h₁ : HeapRep m lo l₁ a) (h₂ : HeapRep m z l₂ hi)
    (hnew : HeapRep m' a new z) (hsame : ∀ i, i < a ∨ z ≤ i → m' i = m i) :
    HeapRep m' lo (l₁ ++ new ++ l₂) hi := by
  have hleft : HeapRep m' lo l₁ a := h₁.congr fun i _ hi => (hsame i (.inl hi)).symm
  have hright : HeapRep m' z l₂ hi := h₂.congr fun i hi _ => (hsame i (.inr hi)).symm
  rw [List.append_assoc]
  exact (append_iff h₂.hi_lt).mpr ⟨a, hleft, (append_iff h₂.hi_lt).mpr ⟨z, hnew, hright⟩⟩

theorem single (h : IsHeader m b) (hlt : b.addr + b.size < 2 ^ 64) :
    HeapRep m b.addr [b] (b.addr + b.size) := by
  refine ⟨⟨rfl, ?_, rfl⟩, hlt, fun c hc => List.mem_singleton.mp hc ▸ h⟩
  have hle := h.le
  unfold mallocHeaderSize at hle
  omega

/-- What lies before, in, and behind a block of the heap. -/
theorem around (h : HeapRep m lo (l₁ ++ b :: l₂) hi) :
    HeapRep m lo l₁ b.addr ∧ IsHeader m b ∧ b.addr + b.size < 2 ^ 64 ∧
      HeapRep m (b.addr + b.size) l₂ hi := by
  obtain ⟨h₁, hpos, h₂⟩ := tiles_mid.mp h.tiles
  have hle := h₂.le
  have hlt := h.hi_lt
  exact ⟨⟨h₁, by omega, fun c hc => h.headers c (List.mem_append_left _ hc)⟩,
    h.headers b (by simp), by omega,
    ⟨h₂, hlt, fun c hc => h.headers c (List.mem_append_right _ (List.mem_cons_of_mem b hc))⟩⟩

/-- What lies in the first block and behind it. -/
theorem first (h : HeapRep m lo (b :: l₂) hi) :
    IsHeader m b ∧ b.addr + b.size < 2 ^ 64 ∧ HeapRep m (b.addr + b.size) l₂ hi := by
  have hmid : HeapRep m lo ([] ++ b :: l₂) hi := h
  exact hmid.around.2

theorem length_le (h : HeapRep m lo l hi) : l.length * mallocHeaderSize ≤ hi - lo := by
  have hsum : ∀ {l : List Block} {lo : Nat}, HeapRep m lo l hi →
      lo + l.length * mallocHeaderSize ≤ hi := by
    intro l
    induction l with
    | nil =>
        intro lo h
        have heq : lo = hi := h.tiles
        simp [heq]
    | cons b rest ih =>
        intro lo h
        obtain ⟨hb, -, hrest⟩ := h.tiles
        have hle := (h.headers b (List.mem_cons_self ..)).le
        have htail : HeapRep m (lo + b.size) rest hi :=
          ⟨hrest, h.hi_lt, fun c hc => h.headers c (List.mem_cons_of_mem b hc)⟩
        have hmore := ih htail
        rw [List.length_cons, Nat.add_one_mul]
        omega
  have hle := hsum h
  omega

/-- The walks have enough rounds. -/
theorem rounds {start heapBrk : Nat} (h : HeapRep m start l heapBrk) :
    l.length < (heapBrk - start) / mallocHeaderSize + 1 := by
  have hle := h.length_le
  exact Nat.lt_succ_of_le ((Nat.le_div_iff_mul_le (by decide)).mpr hle)

end HeapRep

/-! ### The walks -/

section Walks

variable {m : Mem} {lo hi size : Nat} {l : List Block}

/-- The block can be taken for a request of the size. -/
def Fits (size : Nat) (b : Block) : Bool := b.free && decide (size ≤ b.size - mallocHeaderSize)

/-- The loop of `malloc` finds the first block that fits. -/
theorem mallocFind_eq (h : HeapRep m lo l hi) {rounds : Nat} (hrounds : l.length < rounds) :
    mallocFind m hi size rounds lo = some ((l.find? (Fits size)).map (·.addr)) := by
  induction l generalizing lo rounds with
  | nil =>
      obtain ⟨rounds, rfl⟩ := Nat.exists_eq_succ_of_ne_zero (Nat.ne_of_gt hrounds)
      have heq : lo = hi := h.tiles
      unfold mallocFind
      rw [if_neg (by omega)]
      rfl
  | cons b rest ih =>
      obtain ⟨rounds, rfl⟩ := Nat.exists_eq_succ_of_ne_zero (Nat.ne_of_gt (Nat.zero_lt_of_lt hrounds))
      obtain ⟨hheader, hlt, hrest⟩ := h.first
      obtain ⟨rfl, hpos, htiles⟩ := h.tiles
      have hle := htiles.le
      unfold mallocFind
      rw [if_pos (by omega)]
      have hfits : (hdrFree m b.addr ≠ 0 ∧ size ≤ hdrSize m b.addr) ↔ Fits size b = true := by
        rw [hheader.free_iff, hheader.size]
        simp [Fits]
      by_cases hfit : Fits size b = true
      · rw [if_pos (hfits.mpr hfit), List.find?_cons_of_pos hfit]
        rfl
      · rw [if_neg fun hc => hfit (hfits.mp hc), List.find?_cons_of_neg hfit, hheader.next hlt]
        exact ih hrest (by simpa using hrounds)

/-- The loop of `free` comes to the block before, and joins it if it is free. -/
theorem freePrev_eq (h : HeapRep m lo l hi) {rounds : Nat} (hrounds : l.length < rounds) :
    freePrev m hi rounds lo = some
      (match l.getLast? with
        | none => m
        | some a =>
            if a.free then
              setHdrSize m a.addr
                ((hdrSize m a.addr + (mallocHeaderSize + hdrSize m hi)) % 2 ^ 64)
            else m) := by
  induction l generalizing lo rounds with
  | nil =>
      obtain ⟨rounds, rfl⟩ := Nat.exists_eq_succ_of_ne_zero (Nat.ne_of_gt hrounds)
      have heq : lo = hi := h.tiles
      unfold freePrev
      rw [if_neg (by omega)]
      rfl
  | cons b rest ih =>
      obtain ⟨rounds, rfl⟩ := Nat.exists_eq_succ_of_ne_zero (Nat.ne_of_gt (Nat.zero_lt_of_lt hrounds))
      obtain ⟨hheader, hlt, hrest⟩ := h.first
      obtain ⟨rfl, hpos, htiles⟩ := h.tiles
      have hle := htiles.le
      have hmore := ih hrest (Nat.lt_of_succ_lt_succ hrounds)
      unfold freePrev
      rw [if_pos (by omega), hheader.next hlt]
      cases rest with
      | nil =>
          have hend : b.addr + b.size = hi := htiles
          rw [List.getLast?_singleton]
          dsimp only
          by_cases hfree : b.free = true
          · rw [if_pos ⟨hend, hheader.free_iff.mpr hfree⟩, if_pos hfree]
          · rw [if_neg fun hc => hfree (hheader.free_iff.mp hc.2), if_neg hfree, hmore]
            rfl
      | cons c rest =>
          have hnot : b.addr + b.size ≠ hi := by
            have hc := (htiles.bounds c (List.mem_cons_self ..)).2
            have hstart := htiles.1
            omega
          rw [if_neg fun hc => hnot hc.1, hmore, List.getLast?_cons_cons]

end Walks

/-! ### The heap between two calls -/

/-- The blocks are those of the heap, no two neighbours are free, and the break has not been moved
below them. -/
structure HeapOk (h : UserHeap) (l : List Block) : Prop where
  rep : HeapRep h.mem h.heapStart l h.heapBrk
  coalesced : Coalesced l
  unused : h.heapStart = 0 → l = [] ∧ h.heapBrk = 0
  brk_le : h.heapBrk ≤ h.systemBreak
  brk_pos : 0 < h.systemBreak
  brk_lt : h.systemBreak < 2 ^ 64

/-- What the program keeps in the blocks that are in use is still there. -/
def Kept (l : List Block) (m m' : Mem) : Prop :=
  ∀ b ∈ usedBlocks l, ∀ i, b.addr + mallocHeaderSize ≤ i → i < b.addr + b.size → m' i = m i

theorem mem_usedBlocks {l : List Block} {b : Block} :
    b ∈ usedBlocks l ↔ b ∈ l ∧ b.free = false := by
  unfold usedBlocks
  rw [List.mem_filter, Bool.not_eq_true']

/-- Whatever is written in a free block. -/
theorem kept_of_free {l : List Block} {lo hi : Nat} (h : Tiles lo l hi) {b : Block} (hb : b ∈ l)
    (hfree : b.free = true) {m m' : Mem}
    (hsame : ∀ i, i < b.addr ∨ b.addr + b.size ≤ i → m' i = m i) : Kept l m m' := by
  intro c hc i hlo hhi
  obtain ⟨hc, hused⟩ := mem_usedBlocks.mp hc
  have hne : b ≠ c := by
    rintro rfl
    exact absurd (hfree.symm.trans hused) (by decide)
  apply hsame
  rcases Tiles.apart h hb hc hne with happart | happart
  · unfold mallocHeaderSize at hlo
    omega
  · omega

/-- Nothing is written outside the headers of the blocks. -/
def InHeaders (l : List Block) (m m' : Mem) : Prop :=
  ∀ i, (∀ b ∈ l, i < b.addr ∨ b.addr + mallocHeaderSize ≤ i) → m' i = m i

theorem InHeaders.trans {l : List Block} {m m' m'' : Mem} (h : InHeaders l m m')
    (h' : InHeaders l m' m'') : InHeaders l m m'' :=
  fun i hi => (h' i hi).trans (h i hi)

theorem InHeaders.mono {l l' : List Block} {m m' : Mem} (h : InHeaders l m m')
    (hsub : ∀ b ∈ l, b ∈ l') : InHeaders l' m m' :=
  fun i hi => h i fun b hb => hi b (hsub b hb)

/-- Whatever is written in the headers. -/
theorem kept_of_headers {m : Mem} {lo hi : Nat} {l : List Block} (h : HeapRep m lo l hi) {m' : Mem}
    (hin : InHeaders l m m') : Kept l m m' := by
  intro c hc i hlo hhi
  obtain ⟨hc, -⟩ := mem_usedBlocks.mp hc
  refine hin i fun b hb => ?_
  have hle := (h.headers b hb).le
  by_cases hne : b = c
  · exact .inr (hne ▸ hlo)
  · unfold mallocHeaderSize at *
    rcases Tiles.apart h.tiles hb hc hne with happart | happart <;> omega

theorem Kept.trans {l l' : List Block} {m m' m'' : Mem} (h : Kept l m m') (h' : Kept l' m' m'')
    (hsub : ∀ b ∈ usedBlocks l, b ∈ usedBlocks l') : Kept l m m'' :=
  fun b hb i hlo hhi => (h' b (hsub b hb) i hlo hhi).trans (h b hb i hlo hhi)

/-! ### Taking a block -/

section Take

variable {m : Mem} {lo hi size : Nat} {l₁ l₂ : List Block} {b : Block}

/-- The two parts of a block that is split, or the whole block. -/
def takenParts (b : Block) (size : Nat) : List Block :=
  if mallocHeaderSize + mallocAlign < b.size - mallocHeaderSize - size then
    [{ b with size := mallocHeaderSize + size, free := false },
      { addr := b.addr + mallocHeaderSize + size
        size := b.size - mallocHeaderSize - size, free := true }]
  else [{ b with free := false }]

/-- What `malloc` does to the block that it found. -/
theorem mallocTake_rep (size : Nat) (hheader : IsHeader m b)
    (hlt : b.addr + b.size < 2 ^ 64) :
    HeapRep (mallocTake m b.addr size) b.addr (takenParts b size) (b.addr + b.size) ∧
      ∀ i, i < b.addr ∨ b.addr + b.size ≤ i → mallocTake m b.addr size i = m i := by
  have hle := hheader.le
  unfold mallocTake takenParts
  rw [hheader.size]
  dsimp only
  by_cases hsplit : mallocHeaderSize + mallocAlign < b.size - mallocHeaderSize - size
  · rw [if_pos hsplit, if_pos hsplit]
    obtain ⟨rest, hrest⟩ : ∃ rest, rest = b.size - mallocHeaderSize - size := ⟨_, rfl⟩
    obtain ⟨a, ha⟩ : ∃ a, a = b.addr + mallocHeaderSize + size := ⟨_, rfl⟩
    rw [← hrest] at hsplit ⊢
    rw [Nat.mod_eq_of_lt (show b.addr + mallocHeaderSize + size < 2 ^ 64 by omega), ← ha]
    -- The header of what remains, and then the header of the block itself.
    obtain ⟨m₁, hm₁⟩ : ∃ m₁, m₁ = setHdrFree (setHdrSize m a (rest - mallocHeaderSize)) a 1 :=
      ⟨_, rfl⟩
    have hnew : IsHeader m₁ { addr := a, size := rest, free := true } := by
      rw [hm₁]
      exact isHeader_new m (by omega) (by omega) true
    have hfar : ∀ i, i < a ∨ b.addr + b.size ≤ i → m₁ i = m i := by
      intro i hi
      rw [hm₁, setHdrFree_outside (by omega), setHdrSize_outside (by omega)]
    rw [← hm₁]
    obtain ⟨m₂, hm₂⟩ : ∃ m₂, m₂ = setHdrFree (setHdrSize m₁ b.addr size) b.addr 0 := ⟨_, rfl⟩
    have hout : ∀ i, i < b.addr ∨ b.addr + mallocHeaderSize ≤ i → m₂ i = m₁ i := by
      intro i hi
      rw [hm₂, setHdrFree_outside hi, setHdrSize_outside hi]
    have hown : IsHeader m₁ b := hheader.congr fun i _ hi => (hfar i (.inl (by omega))).symm
    have hused : IsHeader m₂ { b with size := mallocHeaderSize + size, free := false } := by
      have hresized := isHeader_setSize hown _ (Nat.le_add_right mallocHeaderSize size) (by omega)
      rw [Nat.add_sub_cancel_left] at hresized
      rw [hm₂]
      exact isHeader_setFree hresized false
    have hremains : IsHeader m₂ { addr := a, size := rest, free := true } := by
      refine hnew.congr fun i (hi : a ≤ i) _ => (hout i ?_).symm
      omega
    rw [← hm₂]
    refine ⟨⟨?_, hlt, fun c hc => ?_⟩, fun i hi => ?_⟩
    · refine ⟨rfl, show 0 < mallocHeaderSize + size from ?_, ?_⟩
      · unfold mallocHeaderSize
        omega
      · refine ⟨show a = b.addr + (mallocHeaderSize + size) by omega, show 0 < rest by omega, ?_⟩
        show b.addr + (mallocHeaderSize + size) + rest = b.addr + b.size
        omega
    · rcases List.mem_cons.mp hc with rfl | hc
      · exact hused
      · rw [List.mem_singleton.mp hc]
        exact hremains
    · exact (hout i (by omega)).trans (hfar i (by omega))
  · rw [if_neg hsplit, if_neg hsplit]
    have hused : IsHeader (setHdrFree m b.addr 0) { b with free := false } :=
      isHeader_setFree hheader false
    exact ⟨HeapRep.single hused hlt, fun i hi => setHdrFree_outside (by omega)⟩

theorem takenParts_head (hsize : size ≤ b.size - mallocHeaderSize) :
    ∃ nb, usedBlocks (takenParts b size) = [nb] ∧ nb.addr = b.addr ∧
      size ≤ nb.size - mallocHeaderSize := by
  unfold takenParts
  split_ifs with hsplit
  · exact ⟨_, rfl, rfl, by dsimp only; omega⟩
  · exact ⟨_, rfl, rfl, hsize⟩

/-- What follows the taken block is free only if what follows that is not. -/
theorem takenParts_coalesced (hco : Coalesced (l₁ ++ b :: l₂)) (hfree : b.free = true) :
    Coalesced (l₁ ++ takenParts b size ++ l₂) := by
  obtain ⟨h₁, h₂, hsides⟩ := coalesced_mid.mp hco
  obtain ⟨-, hnext⟩ := hsides hfree
  unfold takenParts
  split_ifs with hsplit
  · rw [List.append_assoc, List.cons_append, List.singleton_append]
    refine coalesced_mid.mpr ⟨h₁, ?_, fun hc => absurd hc Bool.false_ne_true⟩
    exact coalesced_cons.mpr ⟨h₂, fun _ => hnext⟩
  · rw [List.append_assoc, List.singleton_append]
    exact coalesced_mid.mpr ⟨h₁, h₂, fun hc => absurd hc Bool.false_ne_true⟩

end Take

/-! ### `malloc` -/

section Malloc

variable {h : UserHeap} {l : List Block} {size : Nat}

/-- A request that was granted: one more block is in use, large enough, and behind the pointer. -/
structure Granted (l l' : List Block) (ptr size : Nat) : Prop where
  used : ∃ u₁ nb u₂, usedBlocks l = u₁ ++ u₂ ∧ usedBlocks l' = u₁ ++ nb :: u₂ ∧
    ptr = nb.addr + mallocHeaderSize ∧ size ≤ nb.size - mallocHeaderSize

/-- What a call of `malloc` leaves: the pointer is null and no block has changed, or the request
was granted. -/
structure MallocOk (h : UserHeap) (l : List Block) (size : Nat) (r : UserHeap × Nat)
    (l' : List Block) : Prop where
  ok : HeapOk r.1 l'
  kept : Kept l h.mem r.1.mem
  result : (r.2 = 0 ∧ l' = l) ∨ Granted l l' r.2 size

theorem mallocAligned_ge (hsize : size < 2 ^ 63) :
    size ≤ mallocAligned size ∧ mallocAligned size < 2 ^ 63 + 8 := by
  unfold mallocAligned mallocAlign
  omega

/-- The first call sets up an empty heap where the break is. -/
theorem mallocInit_ok (brk : SystemBreak) (hok : HeapOk h l) :
    HeapOk (mallocInit brk h) l ∧ Kept l h.mem (mallocInit brk h).mem ∧
      (mallocInit brk h).heapStart ≠ 0 := by
  by_cases hstart : h.heapStart = 0
  · obtain ⟨rfl, -⟩ := hok.unused hstart
    have hpos := hok.brk_pos
    have hlt := hok.brk_lt
    obtain ⟨top, htop⟩ : ∃ top, top = (h.systemBreak + 4096) % 2 ^ 64 := ⟨_, rfl⟩
    obtain ⟨reached, hreached⟩ : ∃ reached, reached =
        if top ≠ 0 ∧ brk.answer h.systemBreak top = top then top else h.systemBreak := ⟨_, rfl⟩
    have hinit : mallocInit brk h =
        { heapStart := h.systemBreak, heapEnd := top, heapBrk := h.systemBreak
          mem := setHdrFree (setHdrSize h.mem h.systemBreak (4096 - mallocHeaderSize)) h.systemBreak 1
          systemBreak := reached } := by
      unfold mallocInit sysBrk
      rw [if_pos hstart]
      dsimp only
      rw [brk.query, if_neg fun hc : (0 : Nat) ≠ 0 ∧ _ => hc.1 rfl, ← htop, ← hreached]
    have hbounds : h.systemBreak ≤ reached ∧ reached < 2 ^ 64 := by
      rw [hreached]
      split_ifs with hgrant
      · exact ⟨brk.grows _ _ hgrant.1 hgrant.2, htop ▸ Nat.mod_lt _ (by decide)⟩
      · exact ⟨le_refl _, hlt⟩
    rw [hinit]
    refine ⟨⟨⟨rfl, hlt, ?_⟩, List.IsChain.nil, ?_, hbounds.1, hpos.trans_le hbounds.1, hbounds.2⟩,
      ?_, hpos.ne'⟩
    · exact fun b hb => absurd hb (List.not_mem_nil)
    · exact fun hzero => absurd hzero hpos.ne'
    · exact fun b hb => absurd hb (List.not_mem_nil)
  · have hsame : mallocInit brk h = h := if_neg hstart
    rw [hsame]
    exact ⟨hok, fun _ _ _ _ _ => rfl, hstart⟩

/-- A block behind the last one, as large as the break has grown. -/
theorem HeapOk.appended (hok : HeapOk h l) (hstart : h.heapStart ≠ 0) {extend : Nat}
    (hextend : size + mallocHeaderSize ≤ extend) (hlt : h.heapBrk + extend < 2 ^ 64) :
    MallocOk h l size
      ({ h with
          mem := setHdrFree (setHdrSize h.mem h.heapBrk (extend - mallocHeaderSize)) h.heapBrk 0
          heapBrk := h.heapBrk + extend
          systemBreak := h.heapBrk + extend }, h.heapBrk + mallocHeaderSize)
      (l ++ [{ addr := h.heapBrk, size := extend, free := false }]) := by
  have hheader : mallocHeaderSize = 16 := rfl
  obtain ⟨m, hm⟩ : ∃ m, m =
      setHdrFree (setHdrSize h.mem h.heapBrk (extend - mallocHeaderSize)) h.heapBrk 0 := ⟨_, rfl⟩
  have hnew : IsHeader m { addr := h.heapBrk, size := extend, free := false } := by
    rw [hm]
    exact isHeader_new h.mem (by omega) (by omega) false
  have hsame : ∀ i, i < h.heapBrk → m i = h.mem i := by
    intro i hi
    rw [hm, setHdrFree_outside (by omega), setHdrSize_outside (by omega)]
  rw [← hm]
  have hrep : HeapRep m h.heapStart (l ++ [{ addr := h.heapBrk, size := extend, free := false }])
      (h.heapBrk + extend) :=
    (HeapRep.append_iff hlt).mpr
      ⟨h.heapBrk, hok.rep.congr fun i _ hi => (hsame i hi).symm, HeapRep.single hnew hlt⟩
  refine ⟨⟨hrep, ?_, fun hzero => absurd hzero hstart, le_refl _,
    show 0 < h.heapBrk + extend by omega, hlt⟩, ?_, .inr ⟨?_⟩⟩
  · exact coalesced_mid.mpr
      ⟨hok.coalesced, List.IsChain.nil, fun hc => absurd hc Bool.false_ne_true⟩
  · intro b hb i _ hi
    have hbound := hok.rep.tiles.bounds b (mem_usedBlocks.mp hb).1
    exact hsame i (by omega)
  · refine ⟨usedBlocks l, { addr := h.heapBrk, size := extend, free := false }, [],
      (List.append_nil _).symm, ?_, rfl, ?_⟩
    · rw [usedBlocks_append]
      rfl
    · dsimp only
      omega

/-- The heap is extended by a block for the request. -/
theorem mallocExtend_ok (brk : SystemBreak) (hok : HeapOk h l) (hstart : h.heapStart ≠ 0)
    (hsize : size < 2 ^ 63 + 8) :
    ∃ l', MallocOk h l size (mallocExtend brk h size) l' := by
  have hlt := hok.brk_lt
  have hle := hok.brk_le
  obtain ⟨extend, hextend⟩ : ∃ extend, extend =
      if (size + mallocHeaderSize) % 2 ^ 64 < 4096 then 4096
      else (size + mallocHeaderSize) % 2 ^ 64 := ⟨_, rfl⟩
  have hbounds : size + mallocHeaderSize ≤ extend ∧ extend < 2 ^ 64 := by
    rw [hextend]
    unfold mallocHeaderSize
    split_ifs <;> omega
  obtain ⟨newBrk, hnewBrk⟩ : ∃ newBrk, newBrk = (h.heapBrk + extend) % 2 ^ 64 := ⟨_, rfl⟩
  have hextended : mallocExtend brk h size =
      if brk.answer h.systemBreak newBrk = newBrk then
        ({ h with
            mem := setHdrFree (setHdrSize h.mem h.heapBrk (sub64 extend mallocHeaderSize)) h.heapBrk 0
            heapBrk := newBrk
            systemBreak :=
              if newBrk ≠ 0 ∧ brk.answer h.systemBreak newBrk = newBrk then newBrk
              else h.systemBreak }, (sub64 newBrk extend + mallocHeaderSize) % 2 ^ 64)
      else
        ({ h with
            systemBreak :=
              if newBrk ≠ 0 ∧ brk.answer h.systemBreak newBrk = newBrk then newBrk
              else h.systemBreak }, 0) := by
    unfold mallocExtend sysBrk
    dsimp only
    rw [← hextend, ← hnewBrk]
  rw [hextended]
  by_cases hgrant : brk.answer h.systemBreak newBrk = newBrk
  · -- The break has grown, so the new end has not wrapped around.
    have hne : newBrk ≠ 0 := by
      intro hzero
      rw [hzero, brk.query] at hgrant
      exact absurd hgrant hok.brk_pos.ne'
    have hgrown := brk.grows _ _ hne hgrant
    have hwrap : newBrk = h.heapBrk + extend := by
      rw [hnewBrk] at hgrown ⊢
      omega
    rw [if_pos hgrant, if_pos ⟨hne, hgrant⟩]
    have hnewlt : newBrk < 2 ^ 64 := by
      rw [hnewBrk]
      exact Nat.mod_lt _ (by decide)
    have hsub : sub64 extend mallocHeaderSize = extend - mallocHeaderSize := by
      unfold sub64
      unfold mallocHeaderSize at *
      omega
    have hptr : (sub64 newBrk extend + mallocHeaderSize) % 2 ^ 64 =
        h.heapBrk + mallocHeaderSize := by
      unfold sub64
      unfold mallocHeaderSize at *
      omega
    rw [hsub, hptr, hwrap]
    exact ⟨_, hok.appended hstart hbounds.1 (hwrap ▸ hnewlt)⟩
  · rw [if_neg hgrant, if_neg fun hc => hgrant hc.2]
    exact ⟨l, hok, fun _ _ _ _ _ => rfl, .inl ⟨rfl, rfl⟩⟩

/-- **Every call of `malloc` returns, and grants the request or leaves the blocks as they are.** -/
theorem malloc_ok (brk : SystemBreak) (hok : HeapOk h l) (hsize : size < 2 ^ 63) :
    ∃ r l', malloc brk h size = some r ∧ MallocOk h l size r l' := by
  unfold malloc
  by_cases hzero : size = 0
  · rw [if_pos hzero]
    exact ⟨_, l, rfl, hok, fun _ _ _ _ _ => rfl, .inl ⟨rfl, rfl⟩⟩
  rw [if_neg hzero]
  dsimp only
  obtain ⟨hge, hlt⟩ := mallocAligned_ge hsize
  obtain ⟨hinit, hkept, hstart⟩ := mallocInit_ok brk hok
  have hrounds : l.length < mallocRounds (mallocInit brk h) := hinit.rep.rounds
  rw [mallocFind_eq hinit.rep hrounds]
  cases hfind : l.find? (Fits (mallocAligned size)) with
  | none =>
      obtain ⟨l', hext⟩ := mallocExtend_ok brk hinit hstart hlt
      refine ⟨_, l', rfl, hext.ok, hkept.trans hext.kept fun _ hb => hb, ?_⟩
      refine hext.result.imp id fun hgranted => ?_
      obtain ⟨u₁, nb, u₂, hbefore, hafter, hptr, hroom⟩ := hgranted.used
      exact ⟨u₁, nb, u₂, hbefore, hafter, hptr, hge.trans hroom⟩
  | some b =>
      obtain ⟨hfits, l₁, l₂, rfl, -⟩ := List.find?_eq_some_iff_append.mp hfind
      obtain ⟨hfree, hroom⟩ : b.free = true ∧ mallocAligned size ≤ b.size - mallocHeaderSize := by
        simpa [Fits] using hfits
      obtain ⟨h₁, hheader, hend, h₂⟩ := hinit.rep.around
      obtain ⟨htaken, hsame⟩ := mallocTake_rep (mallocAligned size) hheader hend
      obtain ⟨nb, hused, haddr, hlarge⟩ := takenParts_head hroom
      have hptr : (b.addr + mallocHeaderSize) % 2 ^ 64 = b.addr + mallocHeaderSize := by
        have hle := hheader.le
        exact Nat.mod_eq_of_lt (by omega)
      refine ⟨_, l₁ ++ takenParts b (mallocAligned size) ++ l₂, rfl, ⟨?_, ?_, ?_, ?_, ?_, ?_⟩, ?_,
        .inr ⟨usedBlocks l₁, nb, usedBlocks l₂, ?_, ?_, ?_, hge.trans hlarge⟩⟩
      · exact h₁.replace h₂ htaken hsame
      · exact takenParts_coalesced hinit.coalesced hfree
      · exact fun hc => absurd hc hstart
      · exact hinit.brk_le
      · exact hinit.brk_pos
      · exact hinit.brk_lt
      · exact hkept.trans (kept_of_free hinit.rep.tiles (by simp) hfree hsame) fun _ hc => hc
      · rw [usedBlocks_append, usedBlocks_cons, if_pos hfree]
      · rw [usedBlocks_append, usedBlocks_append, hused, List.append_assoc, List.singleton_append]
      · exact hptr.trans (by rw [haddr])

end Malloc

/-! ### `free` -/

section Free

variable {m : Mem} {lo hi : Nat} {l₁ l₂ : List Block} {b c : Block}

/-- One block takes the place of others. -/
theorem HeapRep.put {a z : Nat} {m' : Mem} {new : Block} (h₁ : HeapRep m lo l₁ a)
    (h₂ : HeapRep m z l₂ hi) (hnew : IsHeader m' new) (haddr : new.addr = a)
    (hend : a + new.size = z) (hlt : z < 2 ^ 64)
    (hsame : ∀ i, i < new.addr ∨ new.addr + mallocHeaderSize ≤ i → m' i = m i) :
    HeapRep m' lo (l₁ ++ new :: l₂) hi := by
  subst haddr
  subst hend
  have hle := hnew.le
  have hall := h₁.replace h₂ (HeapRep.single hnew hlt) fun i hi => hsame i (by omega)
  rwa [List.append_assoc, List.singleton_append] at hall

/-- A block takes in the one behind it. -/
theorem HeapRep.join (h : HeapRep m lo (l₁ ++ b :: c :: l₂) hi) :
    HeapRep (setHdrSize m b.addr ((hdrSize m b.addr + (mallocHeaderSize + hdrSize m c.addr)) % 2 ^ 64))
      lo (l₁ ++ { b with size := b.size + c.size } :: l₂) hi := by
  obtain ⟨h₁, hb, hlt, hrest⟩ := h.around
  obtain ⟨hc, hlt', h₂⟩ := hrest.first
  have haddr : c.addr = b.addr + b.size := hrest.tiles.1
  have hle := hb.le
  have hle' := hc.le
  have hsize : (hdrSize m b.addr + (mallocHeaderSize + hdrSize m c.addr)) % 2 ^ 64 =
      b.size + c.size - mallocHeaderSize := by
    rw [hb.size, hc.size]
    exact (Nat.mod_eq_of_lt (by omega)).trans (by omega)
  have hjoined := isHeader_setSize hb (b.size + c.size) (by omega) (by omega)
  rw [hsize]
  refine h₁.put h₂ hjoined rfl ?_ hlt' fun i hi => setHdrSize_outside hi
  dsimp only
  omega

/-- The block is marked as free. -/
theorem HeapRep.setFree (h : HeapRep m lo (l₁ ++ b :: l₂) hi) :
    HeapRep (setHdrFree m b.addr 1) lo (l₁ ++ { b with free := true } :: l₂) hi := by
  obtain ⟨h₁, hb, hlt, h₂⟩ := h.around
  have hfree : IsHeader (setHdrFree m b.addr 1) { b with free := true } := isHeader_setFree hb true
  exact h₁.put h₂ hfree rfl rfl hlt fun i hi => setHdrFree_outside hi

/-- The next block is taken in if it is free, so that none that is free follows. -/
theorem freeNext_ok (h : HeapRep m lo (l₁ ++ b :: l₂) hi) (hco : Coalesced l₂) :
    ∃ size l₂', HeapRep (freeNext m hi b.addr) lo (l₁ ++ { b with size := size } :: l₂') hi ∧
      Coalesced l₂' ∧ (∀ c ∈ l₂'.head?, c.free = false) ∧ usedBlocks l₂' = usedBlocks l₂ ∧
      InHeaders [b] m (freeNext m hi b.addr) := by
  obtain ⟨-, hb, hlt, hrest⟩ := h.around
  unfold freeNext
  dsimp only
  rw [hb.next hlt]
  cases l₂ with
  | nil =>
      have hend : b.addr + b.size = hi := hrest.tiles
      rw [if_neg fun hc => absurd hc.1 (by omega)]
      exact ⟨b.size, [], h, hco, fun c hc => absurd hc (by simp), rfl, fun _ _ => rfl⟩
  | cons c rest =>
      obtain ⟨hc, -, -⟩ := hrest.first
      have haddr : c.addr = b.addr + b.size := hrest.tiles.1
      have hbound := (hrest.tiles.bounds c (List.mem_cons_self ..)).2
      obtain ⟨hco', hnext⟩ := coalesced_cons.mp hco
      by_cases hfree : c.free = true
      · rw [← haddr, if_pos ⟨by omega, hc.free_iff.mpr hfree⟩]
        refine ⟨b.size + c.size, rest, h.join, hco', hnext hfree, ?_, fun i hi =>
          setHdrSize_outside (hi b (List.mem_cons_self ..))⟩
        rw [usedBlocks_cons, if_pos hfree]
      · rw [← haddr, if_neg fun hcond => hfree (hc.free_iff.mp hcond.2)]
        refine ⟨b.size, c :: rest, h, hco, fun d hd => ?_, rfl, fun _ _ => rfl⟩
        rw [← Option.some.inj hd]
        exact eq_false_of_ne_true hfree

/-- The free block is joined to the one before it, if that is free as well. -/
theorem freePrev_ok (h : HeapRep m lo (l₁ ++ b :: l₂) hi) (hfree : b.free = true)
    (hco₁ : Coalesced l₁) (hco₂ : Coalesced l₂) (hnext : ∀ c ∈ l₂.head?, c.free = false)
    {rounds : Nat} (hrounds : l₁.length < rounds) :
    ∃ m' l', freePrev m b.addr rounds lo = some m' ∧ HeapRep m' lo l' hi ∧ Coalesced l' ∧
      usedBlocks l' = usedBlocks l₁ ++ usedBlocks l₂ ∧ InHeaders l₁ m m' := by
  obtain ⟨h₁, -, -, -⟩ := h.around
  have hprev := freePrev_eq h₁ hrounds
  have hused : usedBlocks (b :: l₂) = usedBlocks l₂ := by rw [usedBlocks_cons, if_pos hfree]
  rcases List.eq_nil_or_concat l₁ with rfl | ⟨before, a, rfl⟩
  · refine ⟨m, b :: l₂, hprev, h, ?_, hused, fun _ _ => rfl⟩
    exact coalesced_cons.mpr ⟨hco₂, fun _ => hnext⟩
  · rw [List.concat_eq_append] at *
    rw [List.getLast?_concat] at hprev
    dsimp only at hprev
    have hsplit := coalesced_mid.mp hco₁
    by_cases hjoin : a.free = true
    · rw [if_pos hjoin] at hprev
      rw [List.append_assoc, List.singleton_append] at h
      refine ⟨_, before ++ { a with size := a.size + b.size } :: l₂, hprev, h.join, ?_, ?_, ?_⟩
      · exact coalesced_mid.mpr ⟨hsplit.1, hco₂, fun _ => ⟨(hsplit.2.2 hjoin).1, hnext⟩⟩
      · rw [usedBlocks_append, usedBlocks_append, usedBlocks_cons, if_pos hjoin, usedBlocks_cons,
          if_pos hjoin]
        simp [usedBlocks]
      · exact fun i hi => setHdrSize_outside (hi a (by simp))
    · rw [if_neg hjoin] at hprev
      refine ⟨m, before ++ [a] ++ b :: l₂, hprev, h, ?_, ?_, fun _ _ => rfl⟩
      · refine coalesced_mid.mpr ⟨hco₁, hco₂, fun _ => ⟨fun c hc => ?_, hnext⟩⟩
        rw [List.getLast?_concat] at hc
        rw [← Option.some.inj hc]
        exact eq_false_of_ne_true hjoin
      · rw [usedBlocks_append, hused]

/-- **A block in use is given back, and the others stay.** -/
theorem userFree_ok {h : UserHeap} {l : List Block} (hok : HeapOk h l) (hb : b ∈ usedBlocks l) :
    ∃ h' l', userFree h (b.addr + mallocHeaderSize) = some h' ∧ HeapOk h' l' ∧
      Kept l h.mem h'.mem ∧ ∃ u₁ u₂, usedBlocks l = u₁ ++ b :: u₂ ∧ usedBlocks l' = u₁ ++ u₂ := by
  obtain ⟨hmem, hused⟩ := mem_usedBlocks.mp hb
  obtain ⟨l₁, l₂, rfl⟩ := List.append_of_mem hmem
  obtain ⟨hco₁, hco₂, -⟩ := coalesced_mid.mp hok.coalesced
  obtain ⟨-, hheader, hlt, -⟩ := hok.rep.around
  have hle := hheader.le
  obtain ⟨size, l₂', hjoined, hco₂', hnext, hsame₂, hin⟩ := freeNext_ok hok.rep.setFree hco₂
  have hrounds : l₁.length < mallocRounds h := by
    have hall : (l₁ ++ b :: l₂).length < mallocRounds h := hok.rep.rounds
    rw [List.length_append] at hall
    omega
  obtain ⟨m', l', hprev, hrep, hco, hsame, hin'⟩ :=
    freePrev_ok hjoined rfl hco₁ hco₂' hnext hrounds
  have hhdr : sub64 (b.addr + mallocHeaderSize) mallocHeaderSize = b.addr := by
    unfold sub64
    unfold mallocHeaderSize at *
    omega
  refine ⟨{ h with mem := m' }, l', ?_, ⟨hrep, hco, ?_, hok.brk_le, hok.brk_pos, hok.brk_lt⟩, ?_,
    usedBlocks l₁, usedBlocks l₂, ?_, hsame.trans (by rw [hsame₂])⟩
  · have hfreed : userFree h (b.addr + mallocHeaderSize) =
        (freePrev (freeNext (setHdrFree h.mem b.addr 1) h.heapBrk b.addr) b.addr (mallocRounds h)
          h.heapStart).map fun m => { h with mem := m } := by
      unfold userFree
      rw [if_neg (show b.addr + mallocHeaderSize ≠ 0 by unfold mallocHeaderSize; omega), hhdr]
    exact hfreed.trans (congrArg (Option.map _) hprev)
  · intro hzero
    exact absurd (hok.unused hzero).1 (by simp)
  · -- All writes go to headers of blocks of the heap.
    have hmark : InHeaders (l₁ ++ b :: l₂) h.mem (setHdrFree h.mem b.addr 1) :=
      fun i hi => setHdrFree_outside (hi b (by simp))
    have hnextin : InHeaders (l₁ ++ b :: l₂) (setHdrFree h.mem b.addr 1)
        (freeNext (setHdrFree h.mem b.addr 1) h.heapBrk b.addr) :=
      fun i hi => hin i fun c hc => (List.mem_singleton.mp hc) ▸ hi b (by simp)
    have hprevin := hin'.mono fun c hc => List.mem_append_left (b :: l₂) hc
    exact kept_of_headers hok.rep ((hmark.trans hnextin).trans hprevin)
  · rw [usedBlocks_append, usedBlocks_cons, hused]
    rfl

end Free

end BrightS
