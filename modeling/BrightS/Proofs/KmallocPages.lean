/-
The pages that `kmalloc` takes.

A request that finds no free block in its class asks the page allocator for a page, and the
page goes to the head of the class's list.  That is the only way a list changes: giving out a
block and taking one back leave the links between pages alone (`SameLists`).  The two largest
classes have no room for a block behind the header of a page, so a page taken for them is on
no list, and no later call finds it.
-/
import BrightS.Proofs.Kmalloc

namespace BrightS

open Chains Runs

/-! ### Which page a call takes -/

/-- The request finds no free block and asks the page allocator. -/
def asksPage (st : Kmalloc) (size : Nat) : Bool :=
  match findSlabClass size with
  | none => false
  | some c =>
      !(decide (st.recentPages c ≠ 0) && (st.slabPage (st.recentPages c)).hasFree) &&
        (slabFindPage st (st.slabClasses c).pages).isNone

/-- The pages a call takes from the page allocator. -/
def pagesTaken (st : Kmalloc) : KmallocCall → List Nat
  | .kmalloc size page => if asksPage st size ∧ page ≠ 0 then [page] else []
  | .kfree _ => []

/-- The allocator and all pages it has taken. -/
structure PageRun where
  run : KmallocRun
  taken : List Nat

def PageRun.step (h : HeapArray) (r : PageRun) (c : KmallocCall) (r' : PageRun) : Prop :=
  KmallocRun.step h r.run c r'.run ∧ r'.taken = r.taken ++ pagesTaken r.run.st c

def PageRun.init (h : HeapArray) (st : Kmalloc) : PageRun := ⟨KmallocRun.init h st, []⟩

/-- The pages taken are the pages of the class lists. -/
def PagesKept (r : PageRun) : Prop :=
  ∃ pages : Nat → List Nat,
    (∀ c, c < slabClassCount →
      Seg (slabNext r.run.st) (r.run.st.slabClasses c).pages (pages c) 0) ∧
    r.taken.Perm ((List.range slabClassCount).flatMap pages)

/-- No page is asked for a block that does not fit into one. -/
def FitsPage : KmallocCall → Prop
  | .kmalloc size page => page = 0 ∨ ¬ (2048 < size ∧ size ≤ 8192)
  | .kfree _ => True

/-- The page asked for a block that does not fit into one. -/
def lostPages : KmallocCall → List Nat
  | .kmalloc size page => if page ≠ 0 ∧ 2048 < size ∧ size ≤ 8192 then [page] else []
  | .kfree _ => []

/-- The classes without blocks have no pages. -/
def NoEmptyPages (st : Kmalloc) : Prop :=
  ∀ c, c < slabClassCount → slabCount c = 0 → (st.slabClasses c).pages = 0 ∧ st.recentPages c = 0

/-! ### Sizes and classes -/

/-- The classes that cannot be filled serve 2049 to 8192 bytes. -/
theorem slabCount_eq_zero_iff {size c : Nat} (hc : findSlabClass size = some c) :
    slabCount c = 0 ↔ 2048 < size ∧ size ≤ 8192 := by
  have hlt := findSlabClass_lt hc
  unfold findSlabClass at hc
  split at hc
  · exact absurd hc (by simp)
  · rename_i hin
    have hmax : slabSize (slabClassCount - 1) = 8192 := rfl
    have htest := List.find?_some hc
    simp only [Bool.and_eq_true, Bool.or_eq_true, decide_eq_true_eq] at htest
    obtain ⟨hfits, hsmallest⟩ := htest
    have hclasses : slabClassCount = 10 := rfl
    have hcount : slabCount c = 0 ↔ 8 ≤ c := by
      clear hc hin hfits hsmallest
      revert c
      decide
    have hsizes : (c < 8 → slabSize c ≤ 2048) ∧ (8 ≤ c → 2048 ≤ slabSize (c - 1)) := by
      clear hc hin hfits hsmallest hcount
      revert c
      decide
    rw [hcount]
    constructor
    · intro hge
      have := hsizes.2 hge
      omega
    · intro hlarge
      by_contra hsmall
      have := hsizes.1 (by omega)
      omega

theorem findSlabClass_isSome {size : Nat} (hpos : 0 < size) (hle : size ≤ 8192) :
    (findSlabClass size).isSome := by
  have hmax : slabSize (slabClassCount - 1) = 8192 := rfl
  have hex : ∃ c, size ≤ slabSize c := ⟨slabClassCount - 1, by omega⟩
  have hleast : Nat.find hex < slabClassCount :=
    Nat.lt_of_le_of_lt (Nat.find_min' hex (show size ≤ slabSize (slabClassCount - 1) by omega))
      (by decide)
  unfold findSlabClass
  rw [if_neg (by omega), List.find?_isSome]
  refine ⟨Nat.find hex, List.mem_range.mpr hleast, ?_⟩
  simp only [Bool.and_eq_true, Bool.or_eq_true, decide_eq_true_eq]
  refine ⟨Nat.find_spec hex, ?_⟩
  by_cases hzero : Nat.find hex = 0
  · exact .inl hzero
  · exact .inr (Nat.lt_of_not_le (Nat.find_min hex (by omega)))

/-! ### What moves a page -/

/-- The page lists are the same. -/
structure SameLists (st st' : Kmalloc) : Prop where
  links : slabNext st' = slabNext st
  heads : ∀ c, (st'.slabClasses c).pages = (st.slabClasses c).pages

section Lists

variable {st st' st'' : Kmalloc} {c sp : Nat}

theorem SameLists.trans (h : SameLists st st') (h' : SameLists st' st'') : SameLists st st'' :=
  ⟨h'.links.trans h.links, fun c => (h'.heads c).trans (h.heads c)⟩

/-- A change of a page that leaves its link alone. -/
theorem slabNext_update {p : SlabPage} (hpage : st'.slabPage = Function.update st.slabPage sp p)
    (hnext : p.next = (st.slabPage sp).next) : slabNext st' = slabNext st := by
  funext a
  unfold slabNext
  rw [hpage]
  by_cases ha : a = sp
  · rw [ha, Function.update_self, hnext]
  · rw [Function.update_of_ne ha]

theorem sameLists_take (st : Kmalloc) (c sp : Nat) :
    SameLists st (slabTake st c sp).1 ∧ (slabTake st c sp).1.recentPages = st.recentPages := by
  have hpage : (slabTake st c sp).1.slabPage = Function.update st.slabPage sp
      { st.slabPage sp with
        freeList := st.slabFree (st.slabPage sp).freeList
        freeCount := ((st.slabPage sp).freeCount + (2 ^ 16 - 1)) % 2 ^ 16 } := by
    unfold slabTake
    rfl
  exact ⟨⟨slabNext_update hpage rfl, fun _ => rfl⟩, rfl⟩

theorem sameLists_release (st : Kmalloc) (c sp ptr : Nat) :
    SameLists st (slabRelease st c sp ptr) ∧
      (slabRelease st c sp ptr).recentPages = st.recentPages := by
  simp only [slabRelease]
  split
  · exact ⟨⟨rfl, fun _ => rfl⟩, rfl⟩
  · split
    · exact ⟨⟨rfl, fun _ => rfl⟩, rfl⟩
    · have hpage : ∀ p, Function.update st.slabPage sp p = Function.update st.slabPage sp p :=
        fun _ => rfl
      exact ⟨⟨slabNext_update (hpage _) rfl, fun _ => rfl⟩, rfl⟩

theorem sameLists_heapAlloc (st : Kmalloc) (size : Nat) :
    SameLists st (heapAlloc st size).1 ∧ (heapAlloc st size).1.recentPages = st.recentPages := by
  have hslabs : (heapAlloc st size).1.slabPage = st.slabPage ∧
      (heapAlloc st size).1.slabClasses = st.slabClasses ∧
      (heapAlloc st size).1.recentPages = st.recentPages := by
    unfold heapAlloc
    split
    · exact ⟨rfl, rfl, rfl⟩
    · dsimp only
      split
      all_goals
        split
        · exact ⟨rfl, rfl, rfl⟩
        · exact ⟨rfl, rfl, rfl⟩
  obtain ⟨hpage, hclasses, hrecent⟩ := hslabs
  refine ⟨⟨?_, fun c => by rw [hclasses]⟩, hrecent⟩
  unfold slabNext
  rw [hpage]

theorem sameLists_kfree (st : Kmalloc) (ptr : Nat) :
    SameLists st (kfree st ptr) ∧ (kfree st ptr).recentPages = st.recentPages := by
  unfold kfree
  split
  · exact ⟨⟨rfl, fun _ => rfl⟩, rfl⟩
  · split
    · exact sameLists_release st _ _ ptr
    · exact ⟨⟨rfl, fun _ => rfl⟩, rfl⟩

/-- A page was put at the head of the list of class `c`. -/
structure PageAdded (c page : Nat) (st st' : Kmalloc) : Prop where
  links : slabNext st' = Function.update (slabNext st) page (st.slabClasses c).pages
  heads : ∀ i, (st'.slabClasses i).pages = if i = c then page else (st.slabClasses i).pages
  recent : st'.recentPages = st.recentPages

/-- Without a page, or room for a block, nothing is initialised. -/
theorem slabPageInit_none (st : Kmalloc) {page : Nat} (h : page = 0 ∨ slabCount c = 0) :
    slabPageInit st c page = (st, 0) := by
  unfold slabPageInit
  rcases h with hpage | hcount
  · rw [if_pos hpage]
  · split
    · rfl
    · exact if_pos hcount

theorem slabPageInit_some (st : Kmalloc) {page : Nat} (hpage : page ≠ 0)
    (hcount : slabCount c ≠ 0) :
    slabPageInit st c page =
      ({ st with
          slabFree := (slabThread (page + slabHeader) (slabSize c) (slabCount c) st.slabFree).1
          slabPage := Function.update st.slabPage page
            { next := 0, classIdx := c, freeCount := slabCount c, totalCount := slabCount c
              freeList :=
                (slabThread (page + slabHeader) (slabSize c) (slabCount c) st.slabFree).2 } },
        page) := by
  unfold slabPageInit
  rw [if_neg hpage]
  exact if_neg hcount

/-- A new page is put at the head of its class, and a block is taken from it. -/
theorem pageAdded_take (st : Kmalloc) (c page : Nat) (links : Nat → Nat) (p : SlabPage) :
    PageAdded c page st (slabTake
      { st with
        slabFree := links
        slabPage := Function.update (Function.update st.slabPage page p) page
          { Function.update st.slabPage page p page with next := (st.slabClasses c).pages }
        slabClasses := Function.update st.slabClasses c
          { st.slabClasses c with pages := page } } c page).1 := by
  obtain ⟨hsame, hrecent⟩ := sameLists_take
    { st with
      slabFree := links
      slabPage := Function.update (Function.update st.slabPage page p) page
        { Function.update st.slabPage page p page with next := (st.slabClasses c).pages }
      slabClasses := Function.update st.slabClasses c
        { st.slabClasses c with pages := page } } c page
  refine ⟨?_, fun i => ?_, hrecent⟩
  · rw [hsame.links]
    funext a
    unfold slabNext
    dsimp only
    by_cases ha : a = page
    · subst ha
      simp
    · simp [ha]
  · rw [hsame.heads]
    dsimp only
    by_cases hi : i = c
    · rw [hi, Function.update_self, if_pos rfl]
    · rw [Function.update_of_ne hi, if_neg hi]

/-- What an allocation does with the page lists: it finds a free block, or asks for a page. -/
theorem kmalloc_lists (st : Kmalloc) {size : Nat} (hsize : size ≠ 0) (page : Nat) :
    (asksPage st size = false ∧ SameLists st (kmalloc st size page).1 ∧
      ∀ i, (st.slabClasses i).pages = 0 → st.recentPages i = 0 →
        (kmalloc st size page).1.recentPages i = 0) ∨
    ∃ c, asksPage st size = true ∧ findSlabClass size = some c ∧
      if page = 0 ∨ slabCount c = 0 then
        SameLists st (kmalloc st size page).1 ∧
          (kmalloc st size page).1.recentPages = st.recentPages
      else PageAdded c page st (kmalloc st size page).1 := by
  have hheap := sameLists_heapAlloc st size
  unfold kmalloc
  rw [if_neg hsize]
  cases hclass : findSlabClass size with
  | none =>
      refine .inl ⟨by simp [asksPage, hclass], hheap.1, fun i _ hrecent => ?_⟩
      dsimp only
      rw [hheap.2]
      exact hrecent
  | some c =>
      dsimp only
      unfold slabAlloc asksPage
      rw [hclass]
      dsimp only
      by_cases hrec : st.recentPages c ≠ 0 ∧ (st.slabPage (st.recentPages c)).hasFree
      · rw [if_pos hrec]
        obtain ⟨hsame, hrecent⟩ := sameLists_take st c (st.recentPages c)
        refine .inl ⟨by simp [hrec.1, hrec.2], hsame, fun i _ hi => ?_⟩
        show (slabTake st c (st.recentPages c)).1.recentPages i = 0
        rw [hrecent]
        exact hi
      · rw [if_neg hrec]
        cases hfind : slabFindPage st (st.slabClasses c).pages with
        | some sp =>
            obtain ⟨hsame, hrecent⟩ := sameLists_take
              { st with recentPages := Function.update st.recentPages c sp } c sp
            refine .inl ⟨by simp, ⟨hsame.links, hsame.heads⟩, fun i hpages hi => ?_⟩
            show (slabTake _ c sp).1.recentPages i = 0
            rw [hrecent]
            dsimp only
            by_cases hic : i = c
            · rw [hic] at hpages
              rw [slabFindPage, hpages] at hfind
              exact absurd hfind (by simp [slabFuel, findNode])
            · rw [Function.update_of_ne hic]
              exact hi
        | none =>
            have hasks : (!(decide (st.recentPages c ≠ 0) &&
                (st.slabPage (st.recentPages c)).hasFree) && (none : Option Nat).isNone) = true := by
              simpa using Decidable.or_iff_not_imp_left.mpr (by simpa using hrec)
            refine .inr ⟨c, hasks, rfl, ?_⟩
            dsimp only
            split
            · rename_i hnone
              rw [slabPageInit_none st hnone]
              exact hheap
            · rename_i hroom
              obtain ⟨hpage, hcount⟩ := not_or.mp hroom
              rw [slabPageInit_some st hpage hcount]
              dsimp only
              rw [if_pos hpage]
              exact pageAdded_take st c page _ _

end Lists

/-! ### The account of the pages -/

/-- A page more on one list is a page more on all lists together. -/
theorem flatMap_update_cons {classes : List Nat} (hnodup : classes.Nodup) {c : Nat}
    (hc : c ∈ classes) (pages : Nat → List Nat) (page : Nat) :
    (classes.flatMap (Function.update pages c (page :: pages c))).Perm
      (page :: classes.flatMap pages) := by
  induction classes with
  | nil => exact absurd hc (by simp)
  | cons a rest ih =>
      obtain ⟨ha, hrest⟩ := List.nodup_cons.mp hnodup
      rw [List.flatMap_cons, List.flatMap_cons]
      by_cases hac : a = c
      · subst hac
        have hsame : rest.flatMap (Function.update pages a (page :: pages a)) =
            rest.flatMap pages := by
          apply List.flatMap_congr
          intro i hi
          rw [Function.update_of_ne]
          rintro rfl
          exact ha hi
        rw [Function.update_self, hsame, List.cons_append]
      · have hmem : c ∈ rest := (List.mem_cons.mp hc).resolve_left (Ne.symm hac)
        rw [Function.update_of_ne hac]
        exact ((ih hrest hmem).append_left (pages a)).trans List.perm_middle

/-- The pages taken are those on the lists `pages` and those in `lost`. -/
structure PageAccount (r : PageRun) (pages : Nat → List Nat) (lost : List Nat) : Prop where
  lists : ∀ c, c < slabClassCount →
    Seg (slabNext r.run.st) (r.run.st.slabClasses c).pages (pages c) 0
  taken : r.taken.Perm ((List.range slabClassCount).flatMap pages ++ lost)

section Account

variable {h : HeapArray} {r r' : PageRun} {pages : Nat → List Nat} {lost : List Nat}

/-- A call that leaves the lists alone and loses what it takes. -/
theorem PageAccount.same (hacc : PageAccount r pages lost) (hlists : SameLists r.run.st r'.run.st)
    {more : List Nat} (htaken : r'.taken = r.taken ++ more) :
    PageAccount r' pages (lost ++ more) := by
  refine ⟨fun c hc => ?_, ?_⟩
  · rw [hlists.links, hlists.heads]
    exact hacc.lists c hc
  · rw [htaken, ← List.append_assoc]
    exact hacc.taken.append_right more

/-- A call that puts the page it takes on a list. -/
theorem PageAccount.added (hacc : PageAccount r pages lost) {c page : Nat}
    (hc : c < slabClassCount) (hadd : PageAdded c page r.run.st r'.run.st) (hpage : page ≠ 0)
    (hnew : ∀ i, i < slabClassCount → page ∉ pages i) (htaken : r'.taken = r.taken ++ [page]) :
    PageAccount r' (Function.update pages c (page :: pages c)) lost := by
  have hagree : ∀ i, i < slabClassCount →
      Seg (slabNext r'.run.st) (r.run.st.slabClasses i).pages (pages i) 0 := by
    intro i hi
    refine (hacc.lists i hi).congr fun a ha => ?_
    rw [hadd.links, Function.update_of_ne]
    rintro rfl
    exact hnew i hi ha
  refine ⟨fun i hi => ?_, ?_⟩
  · rw [hadd.heads]
    by_cases hic : i = c
    · rw [if_pos hic, hic, Function.update_self]
      refine ⟨rfl, hpage, ?_⟩
      rw [hadd.links, Function.update_self, ← hadd.links]
      exact hagree c hc
    · rw [if_neg hic, Function.update_of_ne hic]
      exact hagree i hi
  · have hmore := flatMap_update_cons List.nodup_range (List.mem_range.mpr hc) pages page
    have hall : r'.taken.Perm (page :: ((List.range slabClassCount).flatMap pages ++ lost)) := by
      rw [htaken]
      exact (List.perm_append_singleton page r.taken).trans (hacc.taken.cons page)
    exact hall.trans (hmore.symm.append_right lost)

/-- The lists are determined by the store, so the account tells what is lost. -/
theorem PageAccount.pagesKept_iff (hacc : PageAccount r pages lost) :
    PagesKept r ↔ lost = [] := by
  constructor
  · rintro ⟨pages', hlists, htaken⟩
    have hsame : (List.range slabClassCount).flatMap pages' =
        (List.range slabClassCount).flatMap pages := by
      apply List.flatMap_congr
      intro c hc
      have hlt := List.mem_range.mp hc
      exact (hlists c hlt).unique (hacc.lists c hlt)
    have hlen := (htaken.symm.trans hacc.taken).length_eq
    rw [hsame, List.length_append] at hlen
    exact List.eq_nil_of_length_eq_zero (by omega)
  · rintro rfl
    refine ⟨pages, hacc.lists, ?_⟩
    have htaken := hacc.taken
    rwa [List.append_nil] at htaken

/-- A page the allocator gives is on no list yet. -/
theorem PageAnswer.not_listed {st : Kmalloc} {page : Nat} (hans : PageAnswer h st page)
    (hpage : page ≠ 0) (hsp : OnClassList st page) : False := by
  rcases hans with hz | ⟨-, -, hapart⟩
  · exact hpage hz
  · have := hapart page hsp
    omega

/-- A request of the classes without blocks always asks for a page. -/
theorem NoEmptyPages.asks {st : Kmalloc} (hempty : NoEmptyPages st) {size c : Nat}
    (hclass : findSlabClass size = some c) (hcount : slabCount c = 0) : asksPage st size := by
  obtain ⟨hpages, hrecent⟩ := hempty c (findSlabClass_lt hclass) hcount
  unfold asksPage
  rw [hclass]
  dsimp only
  rw [hpages, hrecent]
  simp [slabFindPage, slabFuel, findNode]

/-- What a call that asks for no page takes and loses: nothing. -/
theorem NoEmptyPages.not_lost {st : Kmalloc} (hempty : NoEmptyPages st) {size : Nat}
    (hasks : asksPage st size = false) (page : Nat) :
    pagesTaken st (.kmalloc size page) = [] ∧ lostPages (.kmalloc size page) = [] := by
  constructor
  · simp [pagesTaken, hasks]
  · unfold lostPages
    apply if_neg
    rintro ⟨-, hlarge, hle⟩
    obtain ⟨c, hclass⟩ := Option.isSome_iff_exists.mp (findSlabClass_isSome (by omega) hle)
    have hcount := (slabCount_eq_zero_iff hclass).mpr ⟨hlarge, hle⟩
    rw [hempty.asks hclass hcount] at hasks
    exact absurd hasks (by simp)

/-- The lists and the lost pages account for all pages taken. -/
structure PagesInv (h : HeapArray) (r : PageRun) (calls : List KmallocCall) : Prop where
  empty : NoEmptyPages r.run.st
  ok : KmallocOk h r.run
  account : ∃ pages, PageAccount r pages (calls.flatMap lostPages)

theorem pagesInv_init (h : HeapArray) (st : Kmalloc) : PagesInv h (PageRun.init h st) [] := by
  have hzero : ∀ c, c < slabClassCount →
      ((PageRun.init h st).run.st.slabClasses c).pages = 0 := fun _ => init_pages h st
  refine ⟨fun c hc _ => ⟨hzero c hc, ?_⟩, kmallocOk_init h st, fun _ => [], ?_, ?_⟩
  · simp [PageRun.init, KmallocRun.init, kmallocInit, hc]
  · exact hzero
  · simp [PageRun.init]

/-- A call that leaves the lists alone keeps the classes without blocks empty. -/
theorem NoEmptyPages.same {st st' : Kmalloc} (hempty : NoEmptyPages st)
    (hlists : SameLists st st')
    (hrecent : ∀ i, (st.slabClasses i).pages = 0 → st.recentPages i = 0 → st'.recentPages i = 0) :
    NoEmptyPages st' := by
  intro c hc hcount
  obtain ⟨hpages, hrec⟩ := hempty c hc hcount
  exact ⟨(hlists.heads c).trans hpages, hrecent c hpages hrec⟩

theorem PagesInv.kmallocStep {calls : List KmallocCall} (hinv : PagesInv h r calls)
    {size page : Nat} (hstep : PageRun.step h r (.kmalloc size page) r') :
    NoEmptyPages r'.run.st ∧
      ∃ pages, PageAccount r' pages (calls.flatMap lostPages ++ lostPages (.kmalloc size page)) := by
  obtain ⟨⟨-, hans, hrun⟩, htaken⟩ := hstep
  obtain ⟨pages, hacc⟩ := hinv.account
  have hst : r'.run.st = (kmalloc r.run.st size page).1 := by rw [hrun]
  by_cases hsize : size = 0
  · subst hsize
    have hsame : r'.run.st = r.run.st := by
      rw [hst]
      simp [kmalloc]
    have hlists : SameLists r.run.st r'.run.st := by
      rw [hsame]
      exact ⟨rfl, fun _ => rfl⟩
    obtain ⟨hnone, hlost⟩ := hinv.empty.not_lost
      (by simp [asksPage, findSlabClass] : asksPage r.run.st 0 = false) page
    rw [hsame, hlost]
    exact ⟨hinv.empty, pages, hacc.same hlists (by rw [htaken, hnone])⟩
  · rcases kmalloc_lists r.run.st hsize page with ⟨hasks, hlists, hrecent⟩ | ⟨c, hasks, hclass, hadd⟩
    · obtain ⟨hnone, hlost⟩ := hinv.empty.not_lost hasks page
      rw [← hst] at hlists hrecent
      rw [hlost]
      exact ⟨hinv.empty.same hlists hrecent, pages, hacc.same hlists (by rw [htaken, hnone])⟩
    · have hlt := findSlabClass_lt hclass
      have hsize := slabCount_eq_zero_iff hclass
      rw [← hst] at hadd
      by_cases hnone : page = 0 ∨ slabCount c = 0
      · -- The page, if there is one, is put nowhere.
        rw [if_pos hnone] at hadd
        have hlost : pagesTaken r.run.st (.kmalloc size page) = lostPages (.kmalloc size page) := by
          simp only [pagesTaken, lostPages]
          by_cases hpage : page = 0
          · simp [hpage]
          · have hlarge := hsize.mp (hnone.resolve_left hpage)
            rw [if_pos ⟨hasks, hpage⟩, if_pos ⟨hpage, hlarge⟩]
        refine ⟨hinv.empty.same hadd.1 fun i _ hrec => ?_, pages, hacc.same hadd.1 ?_⟩
        · rw [hadd.2]
          exact hrec
        · rw [htaken, hlost]
      · rw [if_neg hnone] at hadd
        obtain ⟨hpage, hcount⟩ := not_or.mp hnone
        have hlost : lostPages (.kmalloc size page) = [] :=
          if_neg fun hlarge => hcount (hsize.mpr hlarge.2)
        have hnew : ∀ i, i < slabClassCount → page ∉ pages i := fun i hi hmem =>
          hans.not_listed hpage ⟨i, hi, pages i, hacc.lists i hi, hmem⟩
        refine ⟨fun i hi hzero => ?_, Function.update pages c (page :: pages c), ?_⟩
        · rw [hadd.heads, hadd.recent, if_neg (by rintro rfl; exact hcount hzero)]
          exact hinv.empty i hi hzero
        · rw [hlost, List.append_nil]
          refine hacc.added hlt hadd hpage hnew ?_
          rw [htaken, pagesTaken, if_pos ⟨hasks, hpage⟩]

theorem pagesInv_step (h : HeapArray) (r : PageRun) (calls : List KmallocCall) (c : KmallocCall)
    (r' : PageRun) (hinv : PagesInv h r calls) (hstep : PageRun.step h r c r') :
    PagesInv h r' (calls ++ [c]) := by
  have hok := kmallocOk_step h r.run c r'.run hinv.ok hstep.1
  have hlost : (calls ++ [c]).flatMap lostPages = calls.flatMap lostPages ++ lostPages c := by
    simp
  cases c with
  | kmalloc size page =>
      obtain ⟨hempty, hacc⟩ := hinv.kmallocStep hstep
      rw [← hlost] at hacc
      exact ⟨hempty, hok, hacc⟩
  | kfree ptr =>
      obtain ⟨⟨-, hrun⟩, htaken⟩ := hstep
      obtain ⟨pages, hacc⟩ := hinv.account
      have hst : r'.run.st = kfree r.run.st ptr := by rw [hrun]
      obtain ⟨hlists, hrecent⟩ := sameLists_kfree r.run.st ptr
      rw [← hst] at hlists hrecent
      refine ⟨hinv.empty.same hlists fun i _ hrec => ?_, hok, pages, ?_⟩
      · rw [hrecent]
        exact hrec
      · rw [hlost]
        exact hacc.same hlists htaken

theorem lostPages_eq_nil (c : KmallocCall) : lostPages c = [] ↔ FitsPage c := by
  cases c with
  | kmalloc size page =>
      simp only [lostPages, FitsPage]
      constructor
      · intro hnil
        by_contra hno
        obtain ⟨hpage, hlarge⟩ := not_or.mp hno
        rw [if_pos ⟨hpage, not_not.mp hlarge⟩] at hnil
        exact absurd hnil (by simp)
      · intro hfits
        exact if_neg fun hlost => hfits.elim hlost.1 fun hno => hno hlost.2
  | kfree ptr => exact ⟨fun _ => trivial, fun _ => rfl⟩

end Account

/-- **A run of the allocator keeps all pages it has taken on the lists of the classes, if and
only if no page was given to it for a block of more than 2048 bytes that the classes serve.** -/
theorem kmalloc_pages_kept_iff (h : HeapArray) (st : Kmalloc) {calls : List KmallocCall}
    {r : PageRun} (hrun : Executes (PageRun.step h) (PageRun.init h st) calls r) :
    PagesKept r ↔ ∀ c ∈ calls, FitsPage c := by
  have hinv := hrun.history (pagesInv_step h) (pagesInv_init h st)
  obtain ⟨pages, hacc⟩ := hinv.account
  rw [hacc.pagesKept_iff, List.flatMap_eq_nil_iff]
  exact forall₂_congr fun c _ => lostPages_eq_nil c

/-- One page serves two small requests, and the third comes from the heap. -/
theorem kmalloc_pages_kept_small :
    ∃ r, Executes (PageRun.step bootHeap) (PageRun.init bootHeap bootMemory)
        [.kmalloc 24 0x400000, .kmalloc 30 0, .kmalloc 3000 0] r ∧
      r.taken = [0x400000] ∧ PagesKept r := by
  let boot := KmallocRun.init bootHeap bootMemory
  let first := boot.got 24 0x400000
  let second := first.got 30 0
  obtain ⟨htaken, hnext, hlast⟩ : [0x400000] = pagesTaken boot.st (.kmalloc 24 0x400000) ∧
      [0x400000] = [0x400000] ++ pagesTaken first.st (.kmalloc 30 0) ∧
      [0x400000] = [0x400000] ++ pagesTaken second.st (.kmalloc 3000 0) := by decide +kernel
  have hfirst : PageRun.step bootHeap (PageRun.init bootHeap bootMemory) (.kmalloc 24 0x400000)
      ⟨first, [0x400000]⟩ := ⟨⟨by decide, bootPage, rfl⟩, htaken⟩
  have hsecond : PageRun.step bootHeap ⟨first, [0x400000]⟩ (.kmalloc 30 0)
      ⟨second, [0x400000]⟩ := ⟨⟨by decide, .inl rfl, rfl⟩, hnext⟩
  have hthird : PageRun.step bootHeap ⟨second, [0x400000]⟩ (.kmalloc 3000 0)
      ⟨second.got 3000 0, [0x400000]⟩ := ⟨⟨by decide, .inl rfl, rfl⟩, hlast⟩
  have hrun := Executes.cons hfirst (.cons hsecond (.cons hthird (.nil _)))
  refine ⟨_, hrun, rfl, (kmalloc_pages_kept_iff bootHeap bootMemory hrun).mpr ?_⟩
  intro c hc
  simp only [List.mem_cons, List.not_mem_nil, or_false] at hc
  rcases hc with rfl | rfl | rfl
  · exact .inr (by decide)
  · exact .inl rfl
  · exact .inl rfl

/-- A request of 3000 bytes takes a page, which no list holds. -/
theorem kmalloc_page_lost :
    ∃ r, Executes (PageRun.step bootHeap) (PageRun.init bootHeap bootMemory)
        [.kmalloc 3000 0x400000] r ∧
      r.taken = [0x400000] ∧ (∀ sp, ¬ OnClassList r.run.st sp) ∧ ¬ PagesKept r := by
  have hstep : PageRun.step bootHeap (PageRun.init bootHeap bootMemory)
      (.kmalloc 3000 0x400000) ⟨_, _⟩ := ⟨⟨by decide, bootPage, rfl⟩, rfl⟩
  have hinv := pagesInv_step _ _ _ _ _ (pagesInv_init bootHeap bootMemory) hstep
  obtain ⟨pages, hacc⟩ := hinv.account
  refine ⟨_, .cons hstep (.nil _), by decide +kernel, ?_, ?_⟩
  · apply not_onClassList
    decide +kernel
  · rw [hacc.pagesKept_iff]
    decide

end BrightS
