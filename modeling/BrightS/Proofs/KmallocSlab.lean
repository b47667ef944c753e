/-
The slab pages keep their free lists apart.

A slab page is cut into equal blocks behind its header, and its free list threads
some of them.  `SlabOk` states, for the page lists of all classes at once, that
the lists end, that no two pages overlap each other or the heap, and that every
page's free list is made of distinct blocks of that page.

Three things happen to a page: it is added to its class, it gives a block out, it
takes one back.  The last two overwrite a whole block, so what has to be seen each
time is that no other link lies in it.
-/
import BrightS.Lib.Tilings
import BrightS.Kernel.Kmalloc

namespace BrightS

open Chains

/-! ### Blocks of a page -/

theorem slabHeader_eq : slabHeader = 32 := by decide

/-- How many blocks a page of the class holds. -/
def slabCount (c : Nat) : Nat := (4096 - slabHeader) / slabSize c

theorem slabCount_le (c : Nat) : slabCount c ≤ 4064 := by
  rw [slabCount, slabHeader_eq]
  exact Nat.div_le_self _ _

/-- `p` is the start of a block of the page `sp`. -/
def IsBlock (c sp p : Nat) : Prop := ∃ k < slabCount c, p = sp + slabHeader + k * slabSize c

namespace IsBlock

variable {c sp p q : Nat}

theorem size_pos (h : IsBlock c sp p) : 0 < slabSize c := by
  obtain ⟨k, hk, -⟩ := h
  by_contra hz
  have hz' : slabSize c = 0 := by omega
  rw [slabCount, hz', Nat.div_zero] at hk
  omega

/-- A block lies behind the header and inside the page. -/
theorem bounds (h : IsBlock c sp p) : sp + 32 ≤ p ∧ p + slabSize c ≤ sp + 4096 := by
  obtain ⟨k, hk, rfl⟩ := h
  have h1 : (k + 1) * slabSize c ≤ slabCount c * slabSize c := Nat.mul_le_mul_right _ hk
  have h2 : slabCount c * slabSize c ≤ 4096 - slabHeader := Nat.div_mul_le_self _ _
  rw [Nat.add_mul] at h1
  rw [slabHeader_eq] at h2 ⊢
  omega

/-- Two blocks of a page are the same or do not overlap. -/
theorem apart (hp : IsBlock c sp p) (hq : IsBlock c sp q) (hne : p ≠ q) :
    p + slabSize c ≤ q ∨ q + slabSize c ≤ p := by
  obtain ⟨j, -, rfl⟩ := hp
  obtain ⟨k, -, rfl⟩ := hq
  rcases Nat.lt_trichotomy j k with hjk | rfl | hjk
  · left
    have := Nat.mul_le_mul_right (slabSize c) (show j + 1 ≤ k from hjk)
    rw [Nat.add_mul] at this
    omega
  · exact absurd rfl hne
  · right
    have := Nat.mul_le_mul_right (slabSize c) (show k + 1 ≤ j from hjk)
    rw [Nat.add_mul] at this
    omega

end IsBlock

/-- Distinct blocks of a page are no more than the page holds. -/
theorem length_le_slabCount {c sp : Nat} {l : List Nat} (hnd : l.Nodup)
    (h : ∀ p ∈ l, IsBlock c sp p) : l.length ≤ slabCount c := by
  by_cases hz : slabSize c = 0
  · cases l with
    | nil => simp
    | cons p rest => exact absurd hz (Nat.pos_iff_ne_zero.mp (h p (by simp)).size_pos)
  · -- Number the blocks by their index in the page.
    have hsub : l.map (fun p => (p - (sp + slabHeader)) / slabSize c) ⊆ List.range (slabCount c) := by
      intro i hi
      obtain ⟨p, hp, rfl⟩ := List.mem_map.mp hi
      obtain ⟨k, hk, rfl⟩ := h p hp
      rw [List.mem_range, Nat.add_sub_cancel_left, Nat.mul_div_cancel _ (Nat.pos_of_ne_zero hz)]
      exact hk
    have hinj : (l.map (fun p => (p - (sp + slabHeader)) / slabSize c)).Nodup := by
      refine List.Nodup.map_on ?_ hnd
      intro p hp q hq heq
      obtain ⟨j, -, rfl⟩ := h p hp
      obtain ⟨k, -, rfl⟩ := h q hq
      rw [Nat.add_sub_cancel_left, Nat.add_sub_cancel_left,
        Nat.mul_div_cancel _ (Nat.pos_of_ne_zero hz),
        Nat.mul_div_cancel _ (Nat.pos_of_ne_zero hz)] at heq
      rw [heq]
    have := (hinj.subperm hsub).length_le
    simpa using this

/-! ### The pages of all classes -/

/-- Two pages are the same page of the same class, or do not overlap. -/
def PagesApart (c sp c' sp' : Nat) : Prop :=
  (c = c' ∧ sp = sp') ∨ sp + 4096 ≤ sp' ∨ sp' + 4096 ≤ sp

/-- The page is on the list of its class. -/
def Held (pages : Nat → List Nat) (c sp : Nat) : Prop := c < slabClassCount ∧ sp ∈ pages c

/-- The page lies outside the static heap. -/
def OutsideHeap (base sp : Nat) : Prop := sp + 4096 ≤ base ∨ base + kmallocHeapSize ≤ sp

/-- The slab state holds the page lists `pages` and the free lists `free`. -/
structure SlabOk (base : Nat) (st : Kmalloc) (pages free : Nat → List Nat) : Prop where
  blockSize : ∀ c < slabClassCount, (st.slabClasses c).blockSize = slabSize c
  classLinks : ∀ c < slabClassCount, Seg (slabNext st) (st.slabClasses c).pages (pages c) 0
  nodup : ∀ c < slabClassCount, (pages c).Nodup
  apart : ∀ c sp c' sp', Held pages c sp → Held pages c' sp' → PagesApart c sp c' sp'
  outside : ∀ c sp, Held pages c sp → OutsideHeap base sp
  fits : ∀ c sp, Held pages c sp → sp + 4096 ≤ 2 ^ 64
  freeLinks : ∀ c sp, Held pages c sp → Seg st.slabFree (st.slabPage sp).freeList (free sp) 0
  freeBlocks : ∀ c sp, Held pages c sp → ∀ p ∈ free sp, IsBlock c sp p
  freeNodup : ∀ c sp, Held pages c sp → (free sp).Nodup
  freeCount : ∀ c sp, Held pages c sp → (st.slabPage sp).freeCount = (free sp).length
  recent : ∀ c < slabClassCount, st.recentPages c = 0 ∨ st.recentPages c ∈ pages c
  totalCount : ∀ c sp, Held pages c sp → (st.slabPage sp).totalCount = slabCount c

/-- A block that has been given out and not taken back. -/
def SlabLive (pages free : Nat → List Nat) (p : Nat) : Prop :=
  ∃ c sp, Held pages c sp ∧ IsBlock c sp p ∧ p ∉ free sp

namespace SlabOk

variable {base : Nat} {st : Kmalloc} {pages free : Nat → List Nat} {c sp p : Nat}

/-- The address space has room for `2^52` pages, so the loops over a class end. -/
theorem length_le (h : SlabOk base st pages free) (hc : c < slabClassCount) :
    (pages c).length ≤ slabFuel := by
  have hnd : ((pages c).map (· / 4096)).Nodup := by
    refine List.Nodup.map_on ?_ (h.nodup c hc)
    intro a ha b hb hab
    rcases h.apart c a c b ⟨hc, ha⟩ ⟨hc, hb⟩ with ⟨-, heq⟩ | hlt | hlt
    · exact heq
    · omega
    · omega
  have hsub : ((pages c).map (· / 4096)) ⊆ List.range slabFuel := by
    intro i hi
    obtain ⟨a, ha, rfl⟩ := List.mem_map.mp hi
    have := h.fits c a ⟨hc, ha⟩
    have hfuel : slabFuel = 2 ^ 52 := rfl
    rw [List.mem_range]
    omega
  have := (hnd.subperm hsub).length_le
  simpa using this

/-- A page that holds a block's address is the block's page. -/
theorem page_unique (h : SlabOk base st pages free) {c' sp' : Nat} (hsp : Held pages c sp)
    (hsp' : Held pages c' sp') (hp : IsBlock c sp p) (hin : inSlabPage p sp' = true) :
    c' = c ∧ sp' = sp := by
  have hb := hp.bounds
  have hpos := hp.size_pos
  simp only [inSlabPage, Bool.and_eq_true, decide_eq_true_eq] at hin
  rcases h.apart c' sp' c sp hsp' hsp with heq | hlt | hlt
  · exact heq
  · omega
  · omega

theorem inSlabPage_of_isBlock (hp : IsBlock c sp p) : inSlabPage p sp = true := by
  have hb := hp.bounds
  have hpos := hp.size_pos
  simp only [inSlabPage, Bool.and_eq_true, decide_eq_true_eq]
  omega

/-- `brights_kfree` finds the page of a block that was given out. -/
theorem slabOwner_of_block (h : SlabOk base st pages free) (hsp : Held pages c sp)
    (hp : IsBlock c sp p) : slabOwner st p = some (c, sp) := by
  have hpage : ∀ i < slabClassCount,
      slabPageOf st p (st.slabClasses i).pages = (pages i).find? (inSlabPage p) := fun i hi =>
    (h.classLinks i hi).findNode_eq (h.length_le hi)
  have hfound : (pages c).find? (inSlabPage p) = some sp := by
    cases hf : (pages c).find? (inSlabPage p) with
    | none =>
        have := List.find?_eq_none.mp hf sp hsp.2
        exact absurd (inSlabPage_of_isBlock hp) this
    | some sp' =>
        have hmem := List.mem_of_find?_eq_some hf
        have hin := List.find?_some hf
        rw [(h.page_unique hsp ⟨hsp.1, hmem⟩ hp hin).2]
  have hother : ∀ i < slabClassCount, i ≠ c → (pages i).find? (inSlabPage p) = none := by
    intro i hi hic
    rw [List.find?_eq_none]
    intro sp' hmem hin
    exact hic (h.page_unique hsp ⟨hi, hmem⟩ hp hin).1
  unfold slabOwner
  rw [List.findSome?_eq_some_iff]
  refine ⟨List.range c, c, (List.range (slabClassCount - (c + 1))).map (c + 1 + ·), ?_, ?_, ?_⟩
  · have hsplit : slabClassCount = c + 1 + (slabClassCount - (c + 1)) := by
      have := hsp.1
      omega
    conv_lhs => rw [hsplit, List.range_add, List.range_succ]
    simp
  · rw [hpage c hsp.1, hfound]
    rfl
  · intro i hi
    have hic : i < c := List.mem_range.mp hi
    have hi10 : i < slabClassCount := Nat.lt_trans hic hsp.1
    rw [hpage i hi10, hother i hi10 (by omega)]
    rfl

/-- A pointer into the heap is in no slab page. -/
theorem slabOwner_of_heap (h : SlabOk base st pages free) (hlo : base ≤ p)
    (hhi : p < base + kmallocHeapSize) : slabOwner st p = none := by
  unfold slabOwner
  rw [List.findSome?_eq_none_iff]
  intro i hi
  have hi10 : i < slabClassCount := List.mem_range.mp hi
  have hpage : slabPageOf st p (st.slabClasses i).pages = (pages i).find? (inSlabPage p) :=
    (h.classLinks i hi10).findNode_eq (h.length_le hi10)
  have hnone : (pages i).find? (inSlabPage p) = none := by
    rw [List.find?_eq_none]
    intro sp' hmem hin
    simp only [inSlabPage, Bool.and_eq_true, decide_eq_true_eq] at hin
    rcases h.outside i sp' ⟨hi10, hmem⟩ with hout | hout
    · omega
    · omega
  rw [hpage, hnone]
  rfl

/-- Only the slab fields of the state matter. -/
theorem of_eq (h : SlabOk base st pages free) {st' : Kmalloc}
    (hpage : st'.slabPage = st.slabPage) (hfree : st'.slabFree = st.slabFree)
    (hclass : st'.slabClasses = st.slabClasses) (hrec : st'.recentPages = st.recentPages) :
    SlabOk base st' pages free := by
  have hnext : slabNext st' = slabNext st := by
    unfold slabNext
    rw [hpage]
  refine ⟨?_, ?_, h.nodup, h.apart, h.outside, h.fits, ?_, h.freeBlocks, h.freeNodup, ?_, ?_, ?_⟩
  · rw [hclass]; exact h.blockSize
  · rw [hclass, hnext]; exact h.classLinks
  · rw [hfree, hpage]; exact h.freeLinks
  · rw [hpage]; exact h.freeCount
  · rw [hrec]; exact h.recent
  · rw [hpage]; exact h.totalCount

/-- Remembering a held page as the recent one. -/
theorem setRecent (h : SlabOk base st pages free) (hsp : Held pages c sp) :
    SlabOk base { st with recentPages := Function.update st.recentPages c sp } pages free := by
  refine ⟨h.blockSize, h.classLinks, h.nodup, h.apart, h.outside, h.fits, h.freeLinks,
    h.freeBlocks, h.freeNodup, h.freeCount, ?_, h.totalCount⟩
  intro i hi
  by_cases hic : i = c
  · subst hic
    right
    simpa using hsp.2
  · simp only [Function.update_of_ne hic]
    exact h.recent i hi

/-- Distinct held pages have distinct addresses. -/
theorem class_unique (h : SlabOk base st pages free) {c' : Nat} (hsp : Held pages c sp)
    (hsp' : Held pages c' sp) : c' = c := by
  rcases h.apart c' sp c sp hsp' hsp with ⟨heq, -⟩ | hlt | hlt
  · exact heq
  · omega
  · omega

/-! ### Changing the free list of one page -/

/-- A page's free list is replaced; the other pages' links are left alone. -/
theorem setFree (h : SlabOk base st pages free) (hsp : Held pages c sp) (links : Nat → Nat)
    (head n : Nat) (newFree : List Nat) (hlinks : Seg links head newFree 0)
    (hframe : ∀ c' sp', Held pages c' sp' → sp' ≠ sp → ∀ q ∈ free sp', links q = st.slabFree q)
    (hblocks : ∀ p ∈ newFree, IsBlock c sp p) (hnd : newFree.Nodup) (hn : n = newFree.length) :
    SlabOk base
      { st with
        slabFree := links
        slabPage := Function.update st.slabPage sp
          { st.slabPage sp with freeList := head, freeCount := n } }
      pages (Function.update free sp newFree) := by
  have hnext : ∀ a, (Function.update st.slabPage sp
      { st.slabPage sp with freeList := head, freeCount := n } a).next = (st.slabPage a).next := by
    intro a
    by_cases ha : a = sp
    · subst ha
      simp
    · rw [Function.update_of_ne ha]
  refine ⟨h.blockSize, fun i hi => (h.classLinks i hi).congr fun a _ => hnext a, h.nodup, h.apart,
    h.outside, h.fits, ?_, ?_, ?_, ?_, h.recent, ?_⟩
  · intro c' sp' hsp'
    by_cases hs : sp' = sp
    · subst hs
      simpa using hlinks
    · simp only [Function.update_of_ne hs]
      exact (h.freeLinks c' sp' hsp').congr fun q hq => hframe c' sp' hsp' hs q hq
  · intro c' sp' hsp' p hp
    by_cases hs : sp' = sp
    · subst hs
      rw [Function.update_self] at hp
      rw [h.class_unique hsp hsp']
      exact hblocks p hp
    · rw [Function.update_of_ne hs] at hp
      exact h.freeBlocks c' sp' hsp' p hp
  · intro c' sp' hsp'
    by_cases hs : sp' = sp
    · subst hs
      rw [Function.update_self]
      exact hnd
    · rw [Function.update_of_ne hs]
      exact h.freeNodup c' sp' hsp'
  · intro c' sp' hsp'
    by_cases hs : sp' = sp
    · subst hs
      simpa using hn
    · simp only [Function.update_of_ne hs]
      exact h.freeCount c' sp' hsp'
  · intro c' sp' hsp'
    by_cases hs : sp' = sp
    · subst hs
      simpa using h.totalCount c' sp' hsp'
    · simp only [Function.update_of_ne hs]
      exact h.totalCount c' sp' hsp'

/-- Overwriting one block leaves every other block's first word alone. -/
theorem fillMem_other (h : SlabOk base st pages free) (hsp : Held pages c sp)
    (hp : IsBlock c sp p) (value : Nat) {c' sp' q : Nat} (hsp' : Held pages c' sp')
    (hq : IsBlock c' sp' q) (hne : q ≠ p) :
    fillMem st.slabFree p (slabSize c) value q = st.slabFree q := by
  have hout : ¬ (p ≤ q ∧ q < p + slabSize c) := by
    have hpb := hp.bounds
    have hqb := hq.bounds
    have hqs := hq.size_pos
    rcases h.apart c' sp' c sp hsp' hsp with ⟨rfl, rfl⟩ | hlt | hlt
    · rcases hq.apart hp hne with hlt | hlt
      · omega
      · omega
    · omega
    · omega
  rw [fillMem, if_neg hout]

theorem free_length_lt (h : SlabOk base st pages free) (hsp : Held pages c sp) :
    (free sp).length < 2 ^ 16 := by
  have h1 := length_le_slabCount (h.freeNodup c sp hsp) (h.freeBlocks c sp hsp)
  have h2 := slabCount_le c
  omega

/-- A free block is not the block of another page. -/
theorem block_ne (h : SlabOk base st pages free) {c' sp' q : Nat} (hsp : Held pages c sp)
    (hsp' : Held pages c' sp') (hp : IsBlock c sp p) (hq : IsBlock c' sp' q) (hs : sp' ≠ sp) :
    q ≠ p := by
  rintro rfl
  exact hs (h.page_unique hsp hsp' hp (inSlabPage_of_isBlock hq)).2

/-- Giving out the first free block of a page. -/
theorem take (h : SlabOk base st pages free) (hsp : Held pages c sp)
    (hfree : (st.slabPage sp).hasFree = true) :
    ∃ block rest, free sp = block :: rest ∧ (slabTake st c sp).2 = block ∧
      SlabOk base (slabTake st c sp).1 pages (Function.update free sp rest) := by
  simp only [SlabPage.hasFree, Bool.and_eq_true, decide_eq_true_eq] at hfree
  have hlinks := h.freeLinks c sp hsp
  cases hf : free sp with
  | nil =>
      rw [hf] at hlinks
      exact absurd hlinks hfree.2
  | cons block rest =>
      rw [hf] at hlinks
      obtain ⟨hhead, -, hrest⟩ := hlinks
      have hnd : (block :: rest).Nodup := by
        rw [← hf]
        exact h.freeNodup c sp hsp
      have hblocks : ∀ p ∈ block :: rest, IsBlock c sp p := by
        rw [← hf]
        exact h.freeBlocks c sp hsp
      have hblock := hblocks block (by simp)
      have hcount : (st.slabPage sp).freeCount = rest.length + 1 := by
        rw [h.freeCount c sp hsp, hf, List.length_cons]
      have hlt := h.free_length_lt hsp
      rw [hf, List.length_cons] at hlt
      refine ⟨block, rest, rfl, hhead, ?_⟩
      refine of_eq (h.setFree hsp (zeroMem st.slabFree block (slabSize c))
        (st.slabFree block) rest.length rest ?_ ?_
        (fun p hp => hblocks p (by simp [hp])) (List.nodup_cons.mp hnd).2 rfl) ?_ ?_ rfl rfl
      · refine hrest.congr fun q hq => h.fillMem_other hsp hblock 0 hsp (hblocks q (by simp [hq])) ?_
        rintro rfl
        exact (List.nodup_cons.mp hnd).1 hq
      · intro c' sp' hsp' hs q hq
        have hqb := h.freeBlocks c' sp' hsp' q hq
        exact h.fillMem_other hsp hblock 0 hsp' hqb (h.block_ne hsp hsp' hblock hqb hs)
      · simp only [slabTake, hhead, hcount]
        rw [show (rest.length + 1 + (2 ^ 16 - 1)) % 2 ^ 16 = rest.length by omega]
      · simp only [slabTake, hhead, h.blockSize c hsp.1]

/-- Taking a block back. -/
theorem release (h : SlabOk base st pages free) (hsp : Held pages c sp) (hp : IsBlock c sp p)
    (hnot : p ∉ free sp) :
    SlabOk base (slabRelease st c sp p) pages (Function.update free sp (p :: free sp)) := by
  have hb := hp.bounds
  have hpos := hp.size_pos
  have hin : ¬ (p < sp + slabHeader ∨ sp + 4096 ≤ p) := by
    rw [slabHeader_eq]
    omega
  have hoff : ¬ ((p - (sp + slabHeader)) % slabSize c ≠ 0) := by
    obtain ⟨k, -, rfl⟩ := hp
    rw [Nat.add_sub_cancel_left, Nat.mul_mod_left]
    simp
  have hpz : p ≠ 0 := by omega
  have hblocks : ∀ q ∈ p :: free sp, IsBlock c sp q := by
    intro q hq
    rcases List.mem_cons.mp hq with rfl | hq
    · exact hp
    · exact h.freeBlocks c sp hsp q hq
  have hnd : (p :: free sp).Nodup := List.nodup_cons.mpr ⟨hnot, h.freeNodup c sp hsp⟩
  have hlen : (free sp).length + 1 < 2 ^ 16 := by
    have h1 := length_le_slabCount hnd hblocks
    have h2 := slabCount_le c
    rw [List.length_cons] at h1
    omega
  -- The freed block's own link is stored last, over the fill.
  have hlinks : ∀ q c' sp', Held pages c' sp' → IsBlock c' sp' q → q ≠ p →
      Function.update (fillMem st.slabFree p (slabSize c) 0xCCCCCCCCCCCCCCCC) p
        (st.slabPage sp).freeList q = st.slabFree q := by
    intro q c' sp' hsp' hq hne
    rw [Function.update_of_ne hne]
    exact h.fillMem_other hsp hp _ hsp' hq hne
  refine of_eq (h.setFree hsp
    (Function.update (fillMem st.slabFree p (slabSize c) 0xCCCCCCCCCCCCCCCC) p
      (st.slabPage sp).freeList) p ((free sp).length + 1) (p :: free sp)
    ⟨rfl, hpz, ?_⟩ ?_ hblocks hnd rfl) ?_ ?_ ?_ ?_
  · rw [Function.update_self]
    refine (h.freeLinks c sp hsp).congr fun q hq => ?_
    refine hlinks q c sp hsp (h.freeBlocks c sp hsp q hq) ?_
    rintro rfl
    exact hnot hq
  · intro c' sp' hsp' hs q hq
    have hqb := h.freeBlocks c' sp' hsp' q hq
    exact hlinks q c' sp' hsp' hqb (h.block_ne hsp hsp' hp hqb hs)
  · simp only [slabRelease, if_neg hin, if_neg hoff, h.freeCount c sp hsp]
    rw [Nat.mod_eq_of_lt hlen]
  · simp only [slabRelease, if_neg hin, if_neg hoff]
  · simp only [slabRelease, if_neg hin, if_neg hoff]
  · simp only [slabRelease, if_neg hin, if_neg hoff]

end SlabOk

/-! ### A new page -/

/-- The blocks of a fresh page in the order its free list has them, the last one first. -/
def threaded (data blockSize : Nat) : Nat → List Nat
  | 0 => []
  | n + 1 => (data + n * blockSize) :: threaded data blockSize n

theorem mem_threaded {data blockSize : Nat} {a : Nat} :
    ∀ {n : Nat}, a ∈ threaded data blockSize n ↔ ∃ k < n, a = data + k * blockSize := by
  intro n
  induction n with
  | zero => simp [threaded]
  | succ n ih =>
      rw [threaded, List.mem_cons, ih]
      constructor
      · rintro (rfl | ⟨k, hk, rfl⟩)
        · exact ⟨n, by omega, rfl⟩
        · exact ⟨k, by omega, rfl⟩
      · rintro ⟨k, hk, rfl⟩
        by_cases hkn : k = n
        · exact Or.inl (by rw [hkn])
        · exact Or.inr ⟨k, by omega, rfl⟩

theorem threaded_length (data blockSize n : Nat) : (threaded data blockSize n).length = n := by
  induction n with
  | zero => rfl
  | succ n ih => rw [threaded, List.length_cons, ih]

theorem threaded_nodup (data : Nat) {blockSize : Nat} (hbs : 0 < blockSize) (n : Nat) :
    (threaded data blockSize n).Nodup := by
  induction n with
  | zero => exact List.nodup_nil
  | succ n ih =>
      refine List.nodup_cons.mpr ⟨?_, ih⟩
      rw [mem_threaded]
      rintro ⟨k, hk, heq⟩
      have := Nat.eq_of_mul_eq_mul_right hbs (Nat.add_left_cancel heq)
      omega

/-- The initialisation loop threads exactly these blocks and stores no other link. -/
theorem slabThread_spec {data blockSize : Nat} (hdata : 0 < data) (hbs : 0 < blockSize)
    (links : Nat → Nat) (n : Nat) :
    Seg (slabThread data blockSize n links).1 (slabThread data blockSize n links).2
        (threaded data blockSize n) 0 ∧
      ∀ a, a ∉ threaded data blockSize n → (slabThread data blockSize n links).1 a = links a := by
  induction n with
  | zero => exact ⟨rfl, fun a _ => rfl⟩
  | succ n ih =>
      obtain ⟨hseg, hframe⟩ := ih
      have hnd := List.nodup_cons.mp (threaded_nodup data hbs (n + 1))
      have hstep : slabThread data blockSize (n + 1) links =
          (Function.update (slabThread data blockSize n links).1 (data + n * blockSize)
            (slabThread data blockSize n links).2, data + n * blockSize) := rfl
      rw [hstep]
      dsimp only
      refine ⟨⟨rfl, by omega, ?_⟩, ?_⟩
      · rw [Function.update_self]
        refine hseg.congr fun a ha => Function.update_of_ne ?_ _ _
        rintro rfl
        exact hnd.1 ha
      · intro a ha
        rw [threaded, List.mem_cons, not_or] at ha
        rw [Function.update_of_ne ha.1]
        exact hframe a ha.2

/-- What the page allocator promises of a page it hands out. -/
structure FreshPage (base : Nat) (pages : Nat → List Nat) (page : Nat) : Prop where
  pos : 0 < page
  fits : page + 4096 ≤ 2 ^ 64
  outside : OutsideHeap base page
  apart : ∀ c sp, Held pages c sp → page + 4096 ≤ sp ∨ sp + 4096 ≤ page

/-- The state after a fresh page was initialised and put at the head of its class. -/
def slabAddPage (st : Kmalloc) (c page : Nat) : Kmalloc :=
  let threads := slabThread (page + slabHeader) (slabSize c) (slabCount c) st.slabFree
  { st with
    slabFree := threads.1
    slabPage := Function.update st.slabPage page
      { next := (st.slabClasses c).pages, classIdx := c, freeCount := slabCount c,
        totalCount := slabCount c, freeList := threads.2 }
    slabClasses := Function.update st.slabClasses c { st.slabClasses c with pages := page } }

namespace SlabOk

variable {base : Nat} {st : Kmalloc} {pages free : Nat → List Nat} {c page : Nat}

theorem held_addPage {c' sp' : Nat} :
    Held (Function.update pages c (page :: pages c)) c' sp' ↔
      Held pages c' sp' ∨ (c < slabClassCount ∧ c' = c ∧ sp' = page) := by
  unfold Held
  by_cases hc : c' = c
  · subst hc
    rw [Function.update_self, List.mem_cons]
    tauto
  · rw [Function.update_of_ne hc]
    tauto

theorem addPage (h : SlabOk base st pages free) (hc : c < slabClassCount)
    (hfresh : FreshPage base pages page) (hcount : slabCount c ≠ 0) :
    SlabOk base (slabAddPage st c page) (Function.update pages c (page :: pages c))
      (Function.update free page (threaded (page + slabHeader) (slabSize c) (slabCount c))) := by
  have hbs : 0 < slabSize c := by
    by_contra hz
    exact hcount (by rw [slabCount, show slabSize c = 0 by omega, Nat.div_zero])
  have hblocks : ∀ p ∈ threaded (page + slabHeader) (slabSize c) (slabCount c),
      IsBlock c page p := by
    intro p hp
    exact mem_threaded.mp hp
  obtain ⟨hseg, hframe⟩ := slabThread_spec
    (show 0 < page + slabHeader by have := hfresh.pos; omega) hbs st.slabFree (slabCount c)
  have hne : ∀ c' sp', Held pages c' sp' → sp' ≠ page := by
    rintro c' sp' hsp' rfl
    rcases hfresh.apart c' sp' hsp' with hlt | hlt
    · omega
    · omega
  have hpage : ∀ a, a ≠ page → (slabAddPage st c page).slabPage a = st.slabPage a :=
    fun a ha => Function.update_of_ne ha _ _
  constructor
  case blockSize =>
    intro i hi
    by_cases hic : i = c
    · subst hic
      simpa [slabAddPage] using h.blockSize i hi
    · simpa [slabAddPage, hic] using h.blockSize i hi
  case classLinks =>
    intro i hi
    have hold : Seg (slabNext (slabAddPage st c page)) (st.slabClasses i).pages (pages i) 0 := by
      refine (h.classLinks i hi).congr fun a ha => ?_
      rw [slabNext, hpage a (hne i a ⟨hi, ha⟩)]
      rfl
    by_cases hic : i = c
    · subst hic
      have hp := hfresh.pos
      refine (show Seg _ _ (Function.update pages i (page :: pages i) i) 0 from ?_)
      rw [Function.update_self]
      refine ⟨by simp [slabAddPage], by omega, ?_⟩
      have : slabNext (slabAddPage st i page) page = (st.slabClasses i).pages := by
        simp [slabNext, slabAddPage]
      rw [this]
      exact hold
    · rw [Function.update_of_ne hic]
      have : (slabAddPage st c page).slabClasses i = st.slabClasses i := by
        simp [slabAddPage, hic]
      rw [this]
      exact hold
  case nodup =>
    intro i hi
    by_cases hic : i = c
    · subst hic
      rw [Function.update_self]
      refine List.nodup_cons.mpr ⟨fun hmem => ?_, h.nodup i hi⟩
      exact hne i page ⟨hi, hmem⟩ rfl
    · rw [Function.update_of_ne hic]
      exact h.nodup i hi
  case apart =>
    intro c₁ sp₁ c₂ sp₂ h₁ h₂
    rcases held_addPage.mp h₁ with hold₁ | ⟨-, hc₁, hs₁⟩
    · rcases held_addPage.mp h₂ with hold₂ | ⟨-, -, hs₂⟩
      · exact h.apart c₁ sp₁ c₂ sp₂ hold₁ hold₂
      · rw [hs₂]
        exact Or.inr (hfresh.apart c₁ sp₁ hold₁).symm
    · rcases held_addPage.mp h₂ with hold₂ | ⟨-, hc₂, hs₂⟩
      · rw [hs₁]
        exact Or.inr (hfresh.apart c₂ sp₂ hold₂)
      · exact Or.inl ⟨hc₁.trans hc₂.symm, hs₁.trans hs₂.symm⟩
  case outside =>
    intro c' sp' hsp'
    rcases held_addPage.mp hsp' with hsp' | ⟨-, rfl, rfl⟩
    · exact h.outside c' sp' hsp'
    · exact hfresh.outside
  case fits =>
    intro c' sp' hsp'
    rcases held_addPage.mp hsp' with hsp' | ⟨-, rfl, rfl⟩
    · exact h.fits c' sp' hsp'
    · exact hfresh.fits
  case freeLinks =>
    intro c' sp' hsp'
    rcases held_addPage.mp hsp' with hsp' | ⟨-, rfl, rfl⟩
    · rw [hpage sp' (hne c' sp' hsp'), Function.update_of_ne (hne c' sp' hsp')]
      refine (h.freeLinks c' sp' hsp').congr fun q hq => hframe q fun hmem => ?_
      -- A block of a page held before is not a block of the new one.
      have hqb := (h.freeBlocks c' sp' hsp' q hq).bounds
      have hqs := (h.freeBlocks c' sp' hsp' q hq).size_pos
      have hpb := (hblocks q hmem).bounds
      rcases hfresh.apart c' sp' hsp' with hlt | hlt
      · omega
      · omega
    · simpa [slabAddPage] using hseg
  case freeBlocks =>
    intro c' sp' hsp' p hp
    rcases held_addPage.mp hsp' with hsp' | ⟨-, rfl, rfl⟩
    · rw [Function.update_of_ne (hne c' sp' hsp')] at hp
      exact h.freeBlocks c' sp' hsp' p hp
    · rw [Function.update_self] at hp
      exact hblocks p hp
  case freeNodup =>
    intro c' sp' hsp'
    rcases held_addPage.mp hsp' with hsp' | ⟨-, rfl, rfl⟩
    · rw [Function.update_of_ne (hne c' sp' hsp')]
      exact h.freeNodup c' sp' hsp'
    · rw [Function.update_self]
      exact threaded_nodup _ hbs _
  case freeCount =>
    intro c' sp' hsp'
    rcases held_addPage.mp hsp' with hsp' | ⟨-, rfl, rfl⟩
    · rw [hpage sp' (hne c' sp' hsp'), Function.update_of_ne (hne c' sp' hsp')]
      exact h.freeCount c' sp' hsp'
    · rw [Function.update_self, threaded_length]
      simp [slabAddPage]
  case recent =>
    intro i hi
    have hrec : (slabAddPage st c page).recentPages i = st.recentPages i := rfl
    rw [hrec]
    rcases h.recent i hi with hz | hmem
    · exact Or.inl hz
    · right
      by_cases hic : i = c
      · subst hic
        rw [Function.update_self]
        exact List.mem_cons_of_mem _ hmem
      · rw [Function.update_of_ne hic]
        exact hmem
  case totalCount =>
    intro c' sp' hsp'
    rcases held_addPage.mp hsp' with hsp' | ⟨-, rfl, rfl⟩
    · rw [hpage sp' (hne c' sp' hsp')]
      exact h.totalCount c' sp' hsp'
    · simp [slabAddPage]

/-! ### Allocating from a class -/

/-- Giving out a free block makes it live, and changes nothing else. -/
theorem live_take {sp block p : Nat} {rest : List Nat} (h : SlabOk base st pages free)
    (hsp : Held pages c sp) (hfree : free sp = block :: rest) :
    SlabLive pages (Function.update free sp rest) p ↔ SlabLive pages free p ∨ p = block := by
  constructor
  · intro ⟨c', sp', hsp', hb, hnot⟩
    by_cases hp : p = block
    · exact .inr hp
    · refine .inl ⟨c', sp', hsp', hb, ?_⟩
      by_cases hs : sp' = sp
      · subst hs
        rw [Function.update_self] at hnot
        rw [hfree, List.mem_cons, not_or]
        exact ⟨hp, hnot⟩
      · rwa [Function.update_of_ne hs] at hnot
  · rintro (⟨c', sp', hsp', hb, hnot⟩ | rfl)
    · refine ⟨c', sp', hsp', hb, ?_⟩
      by_cases hs : sp' = sp
      · subst hs
        rw [Function.update_self]
        rw [hfree] at hnot
        exact fun hmem => hnot (List.mem_cons_of_mem _ hmem)
      · rw [Function.update_of_ne hs]
        exact hnot
    · have hnd := h.freeNodup c sp hsp
      rw [hfree] at hnd
      refine ⟨c, sp, hsp, h.freeBlocks c sp hsp p (by rw [hfree]; simp), ?_⟩
      rw [Function.update_self]
      exact (List.nodup_cons.mp hnd).1

/-- Taking a block back ends its life, and no other's. -/
theorem live_release {sp p q : Nat} (h : SlabOk base st pages free) (hsp : Held pages c sp)
    (hb : IsBlock c sp p) :
    SlabLive pages (Function.update free sp (p :: free sp)) q ↔ SlabLive pages free q ∧ q ≠ p := by
  constructor
  · intro ⟨c', sp', hsp', hb', hnot⟩
    by_cases hs : sp' = sp
    · subst hs
      rw [Function.update_self, List.mem_cons, not_or] at hnot
      exact ⟨⟨c', sp', hsp', hb', hnot.2⟩, hnot.1⟩
    · rw [Function.update_of_ne hs] at hnot
      exact ⟨⟨c', sp', hsp', hb', hnot⟩, h.block_ne hsp hsp' hb hb' hs⟩
  · intro ⟨⟨c', sp', hsp', hb', hnot⟩, hne⟩
    refine ⟨c', sp', hsp', hb', ?_⟩
    by_cases hs : sp' = sp
    · subst hs
      rw [Function.update_self, List.mem_cons, not_or]
      exact ⟨hne, hnot⟩
    · rwa [Function.update_of_ne hs]

/-- A free block is not live. -/
theorem not_live_of_free (h : SlabOk base st pages free) {sp p : Nat} (hsp : Held pages c sp)
    (hp : p ∈ free sp) : ¬ SlabLive pages free p := by
  rintro ⟨c', sp', hsp', hb, hnot⟩
  have hpb := h.freeBlocks c sp hsp p hp
  obtain ⟨-, hs⟩ := h.page_unique hsp' hsp hb (inSlabPage_of_isBlock hpb)
  rw [hs] at hp
  exact hnot hp

/-- The pages and free lists after a block of class `c` was given out. -/
structure BlockGiven (c : Nat) (pages free pages' free' : Nat → List Nat) (block : Nat) : Prop where
  isBlock : ∃ sp, Held pages' c sp ∧ IsBlock c sp block
  held : ∀ c' sp, Held pages c' sp → Held pages' c' sp
  live : ∀ p, SlabLive pages' free' p ↔ SlabLive pages free p ∨ p = block

/-- What giving out a block of a page means for the whole allocator. -/
structure Gave (base c : Nat) (pages free : Nat → List Nat) (st st' : Kmalloc) (block : Nat) :
    Prop where
  heap : st'.heap = st.heap
  freeList : st'.freeList = st.freeList
  heapUsed : st'.heapUsed = st.heapUsed
  slabUsed : st'.slabUsed = (st.slabUsed + slabSize c) % 2 ^ 64
  totalUsed : st'.totalUsed = (st.totalUsed + slabSize c) % 2 ^ 64
  ok : ∃ pages' free', SlabOk base st' pages' free' ∧ BlockGiven c pages free pages' free' block
  fresh : ¬ SlabLive pages free block

theorem gave_take (h : SlabOk base st pages free) {sp : Nat} (hsp : Held pages c sp)
    (hfree : (st.slabPage sp).hasFree = true) :
    Gave base c pages free st (slabTake st c sp).1 (slabTake st c sp).2 := by
  obtain ⟨block, rest, hf, hblock, hok⟩ := h.take hsp hfree
  have hmem : block ∈ free sp := by rw [hf]; simp
  have hsize : (st.slabClasses c).blockSize = slabSize c := h.blockSize c hsp.1
  rw [hblock]
  refine ⟨rfl, rfl, rfl, ?_, ?_, ⟨pages, _, hok, ?_⟩, h.not_live_of_free hsp hmem⟩
  · rw [← hsize]
    rfl
  · rw [← hsize]
    rfl
  · exact ⟨⟨sp, hsp, h.freeBlocks c sp hsp block hmem⟩, fun _ _ h => h,
      fun p => h.live_take hsp hf⟩

/-- The blocks of a fresh page are all free. -/
theorem live_addPage {p : Nat} (hfresh : FreshPage base pages page) :
    SlabLive (Function.update pages c (page :: pages c))
      (Function.update free page (threaded (page + slabHeader) (slabSize c) (slabCount c))) p ↔
      SlabLive pages free p := by
  have hne : ∀ c' sp', Held pages c' sp' → sp' ≠ page := by
    rintro c' sp' hsp' rfl
    rcases hfresh.apart c' sp' hsp' with hlt | hlt
    · omega
    · omega
  constructor
  · intro ⟨c', sp', hsp', hb, hnot⟩
    rcases held_addPage.mp hsp' with hold | ⟨-, rfl, rfl⟩
    · rw [Function.update_of_ne (hne c' sp' hold)] at hnot
      exact ⟨c', sp', hold, hb, hnot⟩
    · rw [Function.update_self] at hnot
      exact absurd (mem_threaded.mpr hb) hnot
  · intro ⟨c', sp', hsp', hb, hnot⟩
    refine ⟨c', sp', held_addPage.mpr (Or.inl hsp'), hb, ?_⟩
    rw [Function.update_of_ne (hne c' sp' hsp')]
    exact hnot

/-- A fresh page has a free block, and no block that was live before is one of its. -/
theorem gave_addPage (h : SlabOk base st pages free) (hc : c < slabClassCount)
    (hfresh : FreshPage base pages page) (hcount : slabCount c ≠ 0) :
    Gave base c pages free st (slabTake (slabAddPage st c page) c page).1
      (slabTake (slabAddPage st c page) c page).2 := by
  have hok := h.addPage hc hfresh hcount
  have hsp : Held (Function.update pages c (page :: pages c)) c page :=
    held_addPage.mpr (Or.inr ⟨hc, rfl, rfl⟩)
  have hthreads := hok.freeLinks c page hsp
  have hfree : ((slabAddPage st c page).slabPage page).hasFree = true := by
    have hcnt := hok.freeCount c page hsp
    obtain ⟨n, hn⟩ := Nat.exists_eq_succ_of_ne_zero hcount
    rw [Function.update_self, hn, threaded] at hthreads hcnt
    rw [List.length_cons] at hcnt
    simp only [SlabPage.hasFree, Bool.and_eq_true, decide_eq_true_eq]
    exact ⟨by omega, by rw [hthreads.1]; exact hthreads.2.1⟩
  obtain ⟨h₁, h₂, h₃, h₄, h₅, ⟨pages', free', hok', hblock, hheld, hlive⟩, hnew⟩ :=
    hok.gave_take hsp hfree
  have hsame : ∀ p, SlabLive (Function.update pages c (page :: pages c))
      (Function.update free page (threaded (page + slabHeader) (slabSize c) (slabCount c))) p ↔
      SlabLive pages free p := fun p => live_addPage hfresh
  refine ⟨h₁, h₂, h₃, h₄, h₅, ⟨pages', free', hok', hblock, fun c' sp' hsp' => ?_, fun p => ?_⟩,
    fun hp => hnew ((hsame _).mpr hp)⟩
  · exact hheld c' sp' (held_addPage.mpr (Or.inl hsp'))
  · rw [hlive, hsame]

/-- A class allocation gives out a block, or finds no page and leaves the state alone. -/
theorem slabAlloc_spec (h : SlabOk base st pages free) (hc : c < slabClassCount)
    (hpage : page = 0 ∨ FreshPage base pages page) :
    slabAlloc st c page = (st, none) ∨
      ∃ st' block, slabAlloc st c page = (st', some block) ∧ Gave base c pages free st st' block := by
  unfold slabAlloc
  by_cases hrec : st.recentPages c ≠ 0 ∧ (st.slabPage (st.recentPages c)).hasFree = true
  · rw [if_pos hrec]
    have hsp : Held pages c (st.recentPages c) :=
      ⟨hc, (h.recent c hc).resolve_left hrec.1⟩
    exact Or.inr ⟨_, _, rfl, h.gave_take hsp hrec.2⟩
  · rw [if_neg hrec]
    have hfind : slabFindPage st (st.slabClasses c).pages =
        (pages c).find? fun sp => (st.slabPage sp).hasFree :=
      (h.classLinks c hc).findNode_eq (h.length_le hc)
    rw [hfind]
    cases hf : (pages c).find? fun sp => (st.slabPage sp).hasFree with
    | some sp =>
        have hsp : Held pages c sp := ⟨hc, List.mem_of_find?_eq_some hf⟩
        have hfree := List.find?_some hf
        obtain ⟨h₁, h₂, h₃, h₄, h₅, h₆, h₇⟩ := (h.setRecent hsp).gave_take hsp hfree
        exact Or.inr ⟨_, _, rfl, h₁, h₂, h₃, h₄, h₅, h₆, h₇⟩
    | none =>
        simp only [slabPageInit]
        by_cases hz : page = 0
        · simp [hz]
        · rw [if_neg hz]
          by_cases hn : (4096 - slabHeader) / slabSize c = 0
          · simp [hn]
          · rw [if_neg hn]
            have hadd : ∀ threads, threads =
                slabThread (page + slabHeader) (slabSize c) (slabCount c) st.slabFree →
                slabAddPage st c page = { st with
                  slabFree := threads.1
                  slabPage := Function.update
                    (Function.update st.slabPage page
                      { next := 0, classIdx := c, freeCount := slabCount c,
                        totalCount := slabCount c, freeList := threads.2 }) page
                    { next := (st.slabClasses c).pages, classIdx := c, freeCount := slabCount c,
                      totalCount := slabCount c, freeList := threads.2 }
                  slabClasses := Function.update st.slabClasses c
                    { st.slabClasses c with pages := page } } := by
              rintro threads rfl
              rw [Function.update_idem]
              rfl
            have hgave := h.gave_addPage hc (hpage.resolve_left hz) hn
            rw [hadd _ rfl] at hgave
            simp only [ne_eq, hz, not_false_eq_true, if_true, Function.update_self]
            exact Or.inr ⟨_, _, rfl, hgave⟩

end SlabOk

end BrightS
