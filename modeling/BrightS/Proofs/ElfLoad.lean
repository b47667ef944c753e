/-
What a loaded program sees.

Above the page tables and the physical pages, an address space is a function from page
numbers to contents.  `Shows` connects a machine to such a view, for the pages that the
loader has mapped: the page is translated to a physical page that is not free, and that
page has the contents.  Mapping one more page is an update of the view.

Every page is mapped once per segment, and each time it is a new page of zeros that gets
the bytes of one segment.  So where two segments meet in a page, what the first one had
there is lost.
-/
import BrightS.Proofs.ElfBounds
import BrightS.Proofs.PagingMap

namespace BrightS

open Bytes Loops Radix Words

-- Unfolding the search through the bitmap is never of use here.
attribute [local irreducible] pmemAllocPage elfMapPage

/-! ### Views -/

/-- Contents of pages, by page number. -/
abbrev View := Nat → Option (Nat → Byte)

/-- `W` are the pages that may be mapped. -/
structure Shows (W : Nat → Prop) (st : ElfLoad) (view : View) : Prop where
  loaded : SpaceLoaded st.paging
  small : ∀ n, W n → ¬ MappedHuge st.paging (n * 4096)
  shown : ∀ n content, view n = some content → n < 2 ^ 36 ∧
    ∃ frame, ¬ AddrFree st.paging.pm frame ∧ frame % 4096 = 0 ∧
      ∀ o, o < 4096 → virtToPhys st.paging (n * 4096 + o) = frame + o ∧
        st.data (frame + o) = content o

/-- A page of zeros is filled with the content, and nothing else is touched. -/
def Places (fill : ElfLoad → Nat → ElfLoad) (content : Nat → Byte) : Prop :=
  ∀ st page, (∀ o, o < 4096 → st.data (page + o) = 0) →
    (∀ o, o < 4096 → (fill st page).data (page + o) = content o) ∧
      ∀ a, a < page ∨ page + 4096 ≤ a → (fill st page).data a = st.data a

theorem pageLookup_pm (s : Paging) (pm : Pmem) (r : Nat) (ix : Nat → PtIndex) :
    pageLookup { s with pm := pm } r ix = pageLookup s r ix := rfl

theorem SpaceLoaded.pml4 {s : Paging} (h : SpaceLoaded s) : s.pml4Table ≠ 0 := by
  obtain ⟨lab, hok, hroot⟩ := h
  exact hok.root_ne_zero hroot

theorem SpaceLoaded.sane {s : Paging} (h : SpaceLoaded s) : PmemSane s.pm := by
  obtain ⟨lab, hok, -⟩ := h
  exact hok.pmem

theorem SpaceLoaded.taken {s : Paging} (h : SpaceLoaded s) {n : Nat} {pm : Pmem}
    (htaken : Taken n s.pm pm) : SpaceLoaded { s with pm := pm } := by
  obtain ⟨lab, hok, hroot⟩ := h
  exact ⟨lab, ⟨hok.labelled, fun t ht hfree => hok.used t ht (htaken.addrFree hfree), hok.addr,
    htaken.sane hok.pmem⟩, hroot⟩

/-- Two flags for a present page. -/
theorem pagingMap_flags (s : Paging) (virt phys : Nat) (writable user : Bool) :
    pagingMap s virt phys (pteFlagPresent ||| permFlags writable user) =
      pagingMap s virt phys (permFlags writable user) := by
  have hor : ∀ x, x ||| pteFlagPresent ||| (pteFlagPresent ||| permFlags writable user) =
      x ||| pteFlagPresent ||| permFlags writable user := by
    intro x
    rw [← Nat.or_assoc, Nat.or_assoc x, Nat.or_self]
  unfold pagingMap
  simp only [hor]

/-- A page that was mapped: a free one was taken for it, zeroed and filled, and the translations
are the old ones elsewhere. -/
structure MapsFresh (st st' : ElfLoad) (va : Nat) (fill : ElfLoad → Nat → ElfLoad)
    (res : Pmem × Nat) : Prop where
  free : AddrFree st.paging.pm res.2
  align : res.2 % 4096 = 0
  below : res.2 + 4096 ≤ 2 ^ 52
  left : ∀ x, AddrFree st'.paging.pm x → AddrFree st.paging.pm x ∧ x ≠ res.2
  loaded : SpaceLoaded st'.paging
  hit : ∀ v, SameFrom 0 (ptIndex va) (ptIndex v) →
    virtToPhys st'.paging v = res.2 + v % 4096 ∧ ¬ MappedHuge st'.paging v
  miss : ∀ v, ¬ SameFrom 0 (ptIndex va) (ptIndex v) →
    virtToPhys st'.paging v = virtToPhys st.paging v ∧
      (MappedHuge st'.paging v ↔ MappedHuge st.paging v)
  data : st'.data = (fill (st.fresh res) res.2).data

theorem SpaceLoaded.mapsFresh {st st' : ElfLoad} (h : SpaceLoaded st.paging) {va : Nat}
    (hva : va < 2 ^ 64) (hsmall : ¬ MappedHuge st.paging va) {fill : ElfLoad → Nat → ElfLoad}
    (hfill : Fills fill) (writable user : Bool)
    (hmap : elfMapPage st va (pteFlagPresent ||| permFlags writable user) fill = (st', true)) :
    ∃ res, MapsFresh st st' va fill res := by
  have haddr := pmemAllocPage_addr h.sane
  have htaken := pmemAllocPage_taken st.paging.pm
  obtain ⟨res, hres, ⟨-, heq⟩ | ⟨hsome, heq⟩⟩ := elfMapPage_cases st va
    (pteFlagPresent ||| permFlags writable user) fill
  · rw [heq] at hmap
    exact absurd (Prod.mk.inj hmap).2 (by simp)
  rw [hres] at haddr htaken
  rcases haddr with hnull | ⟨hfree, -, halign, hbelow, -, hrest⟩
  · rw [hnull] at hsome
    exact absurd rfl hsome
  rw [heq, pagingMap_flags] at hmap
  obtain ⟨hst', hret⟩ := Prod.mk.inj hmap
  have hpaging : (fill (st.fresh res) res.2).paging = { st.paging with pm := res.1 } :=
    hfill.paging (st.fresh res) res.2
  rw [hpaging] at hret hst'
  have hloaded := h.taken htaken
  -- The tables are those of before, so the allocation changes neither walks nor translations.
  have hhuge : ∀ v, MappedHuge { st.paging with pm := res.1 } v ↔ MappedHuge st.paging v := by
    intro v
    rw [mappedHuge_iff hloaded.pml4, pageLookup_pm, ← mappedHuge_iff h.pml4]
  have hphys : ∀ v, virtToPhys { st.paging with pm := res.1 } v = virtToPhys st.paging v := by
    intro v
    rw [virtToPhys_eq hloaded.pml4, virtToPhys_eq h.pml4, pageLookup_pm]
  obtain ⟨hloaded', hhit, hmiss⟩ := hloaded.map hva (show res.2 < 2 ^ 52 by omega) halign
    (fun hh => hsmall ((hhuge va).mp hh)) writable user (of_decide_eq_true hret)
  have htaken' := pagingMap_taken { st.paging with pm := res.1 } va res.2 (permFlags writable user)
  rw [← hst']
  refine ⟨res, hfree, halign, hbelow, fun x hx => (hrest x).mp (htaken'.addrFree hx), hloaded', hhit,
    fun v hdiff => ?_, rfl⟩
  obtain ⟨hsamePhys, hsameHuge⟩ := hmiss v hdiff
  exact ⟨hsamePhys.trans (hphys v), hsameHuge.trans (hhuge v)⟩

theorem pageNum_ne {n m : Nat} (hn : n < 2 ^ 36) (hm : m < 2 ^ 36) (hne : m ≠ n) {o : Nat}
    (ho : o < 4096) : ¬ SameFrom 0 (ptIndex (n * 4096)) (ptIndex (m * 4096 + o)) := by
  intro hsame
  have hbits := same_bits hsame
  omega

theorem pageNum_same (n : Nat) {o : Nat} (ho : o < 4096) :
    SameFrom 0 (ptIndex (n * 4096)) (ptIndex (n * 4096 + o)) := by
  intro k _ _
  rw [ptIndex_congr (show (n * 4096 + o) / 4096 = n * 4096 / 4096 by omega)]

/-- A mapped page is an update of the view. -/
theorem Shows.mapPage {W : Nat → Prop} {st st' : ElfLoad} {view : View} (h : Shows W st view)
    (hW : ∀ m, W m → m < 2 ^ 36) {n : Nat} (hn : W n) {fill : ElfLoad → Nat → ElfLoad}
    (hfill : Fills fill) {content : Nat → Byte} (hplaces : Places fill content)
    (writable user : Bool)
    (hmap : elfMapPage st (n * 4096) (pteFlagPresent ||| permFlags writable user) fill =
      (st', true)) : Shows W st' (Function.update view n (some content)) := by
  have hn36 := hW n hn
  obtain ⟨res, hpage⟩ := h.loaded.mapsFresh (show n * 4096 < 2 ^ 64 by omega) (h.small n hn) hfill
    writable user hmap
  have hbelow := hpage.below
  have halign := hpage.align
  have hzero : ∀ o, o < 4096 → (st.fresh res).data (res.2 + o) = 0 := by
    intro o ho
    exact if_pos ⟨by omega, by omega⟩
  obtain ⟨hcontent, hother⟩ := hplaces (st.fresh res) res.2 hzero
  refine ⟨hpage.loaded, fun m hm => ?_, fun m c hm => ?_⟩
  · by_cases hmn : m = n
    · rw [hmn]
      exact (hpage.hit _ fun _ _ _ => rfl).2
    · have hdiff := pageNum_ne hn36 (hW m hm) hmn (o := 0) (by omega)
      rw [Nat.add_zero] at hdiff
      exact fun hhuge => h.small m hm ((hpage.miss _ hdiff).2.mp hhuge)
  · by_cases hmn : m = n
    · rw [hmn, Function.update_self] at hm
      rw [hmn]
      refine ⟨hn36, res.2, fun hx => (hpage.left _ hx).2 rfl, halign, fun o ho => ⟨?_, ?_⟩⟩
      · rw [(hpage.hit _ (pageNum_same n ho)).1]
        omega
      · rw [← Option.some.inj hm, hpage.data]
        exact hcontent o ho
    · rw [Function.update_of_ne hmn] at hm
      obtain ⟨hm36, frame, hused, hframe, hshown⟩ := h.shown m c hm
      refine ⟨hm36, frame, fun hx => hused (hpage.left _ hx).1, hframe, fun o ho => ⟨?_, ?_⟩⟩
      · rw [(hpage.miss _ (pageNum_ne hn36 hm36 hmn ho)).1]
        exact (hshown o ho).1
      · have hne : frame ≠ res.2 := by
          intro hsame
          rw [hsame] at hused
          exact hused hpage.free
        have hout : frame + o < res.2 ∨ res.2 + 4096 ≤ frame + o := by omega
        have hkeep : (st.fresh res).data (frame + o) = st.data (frame + o) :=
          if_neg (by omega)
        rw [hpage.data, hother _ hout, hkeep]
        exact (hshown o ho).2

theorem Shows.note {W : Nat → Prop} {st : ElfLoad} {view : View} (h : Shows W st view)
    (e : ElfEvent) : Shows W (st.note e) view := ⟨h.loaded, h.small, h.shown⟩

/-! ### The pages of a segment -/

/-- What the page at `va` gets from a segment. -/
def ElfPhdr.content (ph : ElfPhdr) (img : ElfImage) (va o : Nat) : Byte :=
  if ph.copyStart va ≤ va + o ∧ va + o < ph.copyEnd va then
    img.byte (ph.offset.toNat + (va + o - ph.vaddr.toNat))
  else 0

theorem copyStart_ge (ph : ElfPhdr) (va : Nat) :
    va ≤ ph.copyStart va ∧ ph.vaddr.toNat ≤ ph.copyStart va := by
  rw [copyStart_eq]
  omega

theorem byte_mod_add (img : ElfImage) (a b : Nat) : img.byte (a % 2 ^ 64 + b) = img.byte (a + b) := by
  unfold ElfImage.byte
  rw [Nat.mod_add_mod]

theorem places_same : Places (fun st _ => st) fun _ => 0 :=
  fun _ _ hzero => ⟨hzero, fun _ _ => rfl⟩

theorem places_copy (img : ElfImage) (skip off len : Nat) (hfits : skip + len ≤ 4096) :
    Places (fun st page => st.copy img (page + skip) off len) fun o =>
      if skip ≤ o ∧ o < skip + len then img.byte (off + (o - skip)) else 0 := by
  intro st page hzero
  refine ⟨fun o ho => ?_, fun a ha => if_neg (by omega)⟩
  show (if page + skip ≤ page + o ∧ page + o < page + skip + len then
    img.byte (off + (page + o - (page + skip))) else st.data (page + o)) =
      if skip ≤ o ∧ o < skip + len then img.byte (off + (o - skip)) else 0
  by_cases hin : skip ≤ o ∧ o < skip + len
  · rw [if_pos (by omega), if_pos hin, Nat.add_sub_add_left]
  · rw [if_neg (by omega), if_neg hin]
    exact hzero o ho

theorem places_elfFill (img : ElfImage) (ph : ElfPhdr) (va : Nat) :
    Places (elfFill img ph va) (ph.content img va) := by
  obtain ⟨hstart, hfirst⟩ := copyStart_ge ph va
  have hend := copyEnd_le ph va
  -- Either some bytes are copied, or the content is all zeros.
  by_cases hlt : ph.copyStart va < ph.copyEnd va
  · have hfilesz : ph.filesz ≠ 0 := by
      intro hzero
      have hv := ph.vaddr.isLt
      have hz : ph.filesz.toNat = 0 := by rw [hzero]; rfl
      have hlow := copyEnd_eq ph va
      rw [hz] at hlow
      omega
    have hcopy := places_copy img (ph.copyStart va - va)
      ((ph.offset.toNat + (ph.copyStart va - ph.vaddr.toNat)) % 2 ^ 64)
      (ph.copyEnd va - ph.copyStart va) (by omega)
    intro st page hzero
    unfold elfFill
    rw [if_neg hfilesz, if_pos hlt]
    obtain ⟨hbytes, hother⟩ := hcopy st page hzero
    refine ⟨fun o ho => (hbytes o ho).trans ?_, hother⟩
    unfold ElfPhdr.content
    dsimp only
    by_cases hin : ph.copyStart va ≤ va + o ∧ va + o < ph.copyEnd va
    · rw [if_pos hin, if_pos (by omega), byte_mod_add]
      congr 1
      omega
    · rw [if_neg hin, if_neg (by omega)]
  · intro st page hzero
    have hnothing : elfFill img ph va st page = st := by
      unfold elfFill
      rw [if_neg hlt, ite_self]
    rw [hnothing]
    refine ⟨fun o ho => ?_, fun _ _ => rfl⟩
    rw [hzero o ho]
    exact (if_neg (by omega)).symm

/-- The segment is loaded and has part of this page. -/
def ElfPhdr.OnPage (ph : ElfPhdr) (n : Nat) : Prop :=
  ph.type = ptLoad ∧ ph.memsz ≠ 0 ∧ ph.vaddr.toNat / 4096 ≤ n ∧
    n * 4096 < ph.vaddr.toNat + ph.memsz.toNat

instance (ph : ElfPhdr) (n : Nat) : Decidable (ph.OnPage n) :=
  inferInstanceAs (Decidable (_ ∧ _ ∧ _ ∧ _))

/-- The view after a segment. -/
def ElfPhdr.place (ph : ElfPhdr) (img : ElfImage) (view : View) : View := fun n =>
  if ph.OnPage n then some (ph.content img (n * 4096)) else view n

section UserHalf

variable {ph : ElfPhdr} (huser : ph.vaddr.toNat + ph.memsz.toNat ≤ 2 ^ 47)

include huser

theorem pageAddr_user {pg : Nat} (hpg : pg < ph.numPages) :
    ph.pageAddr pg = (ph.vaddr.toNat / 4096 + pg) * 4096 := by
  have hstart := pageStart_eq ph
  unfold ElfPhdr.numPages sub64 ElfPhdr.segEnd at hpg
  rw [alignUp4k_eq] at hpg
  unfold ElfPhdr.pageAddr
  omega

theorem numPages_user : ph.numPages =
    (ph.vaddr.toNat + ph.memsz.toNat + 4095) / 4096 - ph.vaddr.toNat / 4096 := by
  have hstart := pageStart_eq ph
  unfold ElfPhdr.numPages sub64 ElfPhdr.segEnd
  rw [alignUp4k_eq]
  omega

end UserHalf

theorem pteFlags_eq (ph : ElfPhdr) :
    ∃ writable, ph.pteFlags = pteFlagPresent ||| permFlags writable true := by
  unfold ElfPhdr.pteFlags
  split
  · exact ⟨true, rfl⟩
  · exact ⟨false, rfl⟩

/-- The view while a segment is loaded: its first `k` pages are there. -/
def ElfPhdr.placeFirst (ph : ElfPhdr) (img : ElfImage) (view : View) (k : Nat) : View := fun n =>
  if ph.vaddr.toNat / 4096 ≤ n ∧ n < ph.vaddr.toNat / 4096 + k then
    some (ph.content img (n * 4096))
  else view n

theorem placeFirst_succ (ph : ElfPhdr) (img : ElfImage) (view : View) (k : Nat) :
    Function.update (ph.placeFirst img view k) (ph.vaddr.toNat / 4096 + k)
        (some (ph.content img ((ph.vaddr.toNat / 4096 + k) * 4096))) =
      ph.placeFirst img view (k + 1) := by
  funext n
  unfold ElfPhdr.placeFirst
  by_cases hn : n = ph.vaddr.toNat / 4096 + k
  · rw [hn, Function.update_self, if_pos (by omega)]
  · rw [Function.update_of_ne hn]
    by_cases hin : ph.vaddr.toNat / 4096 ≤ n ∧ n < ph.vaddr.toNat / 4096 + k
    · rw [if_pos hin, if_pos (by omega)]
    · rw [if_neg hin, if_neg (by omega)]

theorem placeFirst_all {ph : ElfPhdr} (huser : ph.vaddr.toNat + ph.memsz.toNat ≤ 2 ^ 47)
    (htype : ph.type = ptLoad) (hmem : ph.memsz ≠ 0) (img : ElfImage) (view : View) :
    ph.placeFirst img view ph.numPages = ph.place img view := by
  have hpages := numPages_user huser
  funext n
  unfold ElfPhdr.placeFirst ElfPhdr.place
  refine if_congr ⟨fun hin => ⟨htype, hmem, hin.1, ?_⟩, fun hon => ⟨hon.2.2.1, ?_⟩⟩ rfl rfl
  · omega
  · have hlast := hon.2.2.2
    omega

/-- A segment that was loaded is placed in the view. -/
theorem Shows.segment {W : Nat → Prop} {st st' : ElfLoad} {view : View} {img : ElfImage}
    {ph : ElfPhdr} (h : Shows W st view) (hW : ∀ m, W m → m < 2 ^ 36)
    (huser : ph.type = ptLoad → ph.vaddr.toNat + ph.memsz.toNat ≤ 2 ^ 47)
    (hpages : ∀ n, ph.OnPage n → W n) (hload : elfSegment img st ph = (st', true)) :
    Shows W st' (ph.place img view) := by
  have hskip : ¬ (ph.type = ptLoad ∧ ph.memsz ≠ 0) → ph.place img view = view := by
    intro hnot
    funext n
    exact if_neg fun hon => hnot ⟨hon.1, hon.2.1⟩
  unfold elfSegment at hload
  by_cases htype : ph.type = ptLoad
  · rw [if_neg (not_not.mpr htype)] at hload
    by_cases hmem : ph.memsz = 0
    · rw [if_pos hmem] at hload
      rw [hskip fun hnot => hnot.2 hmem, ← (Prod.mk.inj hload).1]
      exact h
    · rw [if_neg hmem] at hload
      split at hload
      · exact absurd (Prod.mk.inj hload).2 (by simp)
      · have huser := huser htype
        have hcount := numPages_user huser
        obtain ⟨writable, hflags⟩ := pteFlags_eq ph
        have hfirst : Shows W st (ph.placeFirst img view 0) := by
          have hnone : ph.placeFirst img view 0 = view := by
            funext n
            exact if_neg (by omega)
          rw [hnone]
          exact h
        rw [← placeFirst_all huser htype hmem]
        refine attempt_range (P := fun k st => Shows W st (ph.placeFirst img view k)) hfirst _
          (fun pg mid mid' hpg hmid hmap => ?_) hload
        rw [pageAddr_user huser hpg, hflags] at hmap
        rw [← placeFirst_succ]
        exact hmid.mapPage hW (hpages _ ⟨htype, hmem, by omega, by omega⟩)
          (fills_elfFill img ph _) (places_elfFill img ph _) writable true hmap
  · rw [if_pos htype] at hload
    rw [hskip fun hnot => htype hnot.1, ← (Prod.mk.inj hload).1]
    exact h

/-! ### The whole image -/

/-- The view after the first `n` segments. -/
def ElfImage.placed (img : ElfImage) : Nat → View
  | 0 => fun _ => none
  | n + 1 => (img.phdr n).place img (img.placed n)

/-- A page of the user stack. -/
def StackPage (n : Nat) : Prop := 0x7FFFFFFEF ≤ n ∧ n < 0x7FFFFFFFF

instance (n : Nat) : Decidable (StackPage n) := inferInstanceAs (Decidable (_ ∧ _))

/-- The segments are apart from each other and lie in the user half. -/
structure UserImage (img : ElfImage) : Prop where
  userHalf : ∀ i, i < img.ehdr.phnum.toNat → (img.phdr i).type = ptLoad →
    (img.phdr i).vaddr.toNat + (img.phdr i).memsz.toNat ≤ 2 ^ 47
  apart : ∀ i j v, i < j → j < img.ehdr.phnum.toNat → (img.phdr i).type = ptLoad →
    (img.phdr j).type = ptLoad → (img.phdr i).vaddr.toNat ≤ v →
    v < (img.phdr i).vaddr.toNat + (img.phdr i).memsz.toNat →
    ¬ ((img.phdr j).vaddr.toNat ≤ v ∧
      v < (img.phdr j).vaddr.toNat + (img.phdr j).memsz.toNat)

/-- The page of the program headers. -/
def ElfImage.phdrPage (img : ElfImage) : Nat := elfPhdrVaddr (elfMaxVaddr img.phdrs) / 4096

/-- The pages that the loader maps. -/
def ElfImage.Maps (img : ElfImage) (n : Nat) : Prop :=
  (∃ i, i < img.ehdr.phnum.toNat ∧ (img.phdr i).OnPage n) ∨ n = img.phdrPage ∨ StackPage n

/-- No segment has more file than memory, the program headers fit a page, and no page that the
loader maps lies in a 2 MB page. -/
structure PlainImage (img : ElfImage) (s : Paging) : Prop where
  filesz : ∀ i, i < img.ehdr.phnum.toNat → (img.phdr i).type = ptLoad →
    (img.phdr i).filesz.toNat ≤ (img.phdr i).memsz.toNat
  onePage : img.ehdr.phnum.toNat ≤ 73
  small : ∀ n, img.Maps n → ¬ MappedHuge s (n * 4096)

theorem maxVaddr_fold (phdrs : List ElfPhdr) {bound : Nat}
    (hbound : ∀ ph ∈ phdrs, ph.type = ptLoad → ph.segEnd ≤ bound) : ∀ m, m ≤ bound →
    (∀ ph ∈ phdrs, ph.type = ptLoad → ph.segEnd ≤ phdrs.foldl (fun maxVaddr ph =>
      if ph.type ≠ ptLoad then maxVaddr else
      if maxVaddr < ph.segEnd then ph.segEnd else maxVaddr) m) ∧
    m ≤ phdrs.foldl (fun maxVaddr ph =>
      if ph.type ≠ ptLoad then maxVaddr else
      if maxVaddr < ph.segEnd then ph.segEnd else maxVaddr) m ∧
    phdrs.foldl (fun maxVaddr ph =>
      if ph.type ≠ ptLoad then maxVaddr else
      if maxVaddr < ph.segEnd then ph.segEnd else maxVaddr) m ≤ bound := by
  induction phdrs with
  | nil => exact fun m hm => ⟨fun ph hph => absurd hph List.not_mem_nil, le_refl m, hm⟩
  | cons ph rest ih =>
      intro m hm
      have hrest := ih fun q hq => hbound q (List.mem_cons_of_mem ph hq)
      have hfirst := hbound ph (List.mem_cons_self ..)
      rw [List.foldl_cons]
      have hstep : ∃ m', (if ph.type ≠ ptLoad then m else
          if m < ph.segEnd then ph.segEnd else m) = m' ∧ m ≤ m' ∧ m' ≤ bound ∧
          (ph.type = ptLoad → ph.segEnd ≤ m') := by
        refine ⟨_, rfl, ?_⟩
        by_cases htype : ph.type = ptLoad
        · have hend := hfirst htype
          rw [if_neg (not_not.mpr htype)]
          split
          · exact ⟨by omega, hend, fun _ => le_refl _⟩
          · exact ⟨le_refl m, hm, fun _ => by omega⟩
        · rw [if_pos htype]
          exact ⟨le_refl m, hm, fun h => absurd h htype⟩
      obtain ⟨m', hm', hle, hbelow, hseg⟩ := hstep
      rw [hm']
      obtain ⟨hall, hmono, hmax⟩ := hrest m' hbelow
      refine ⟨fun q hq htype => ?_, hle.trans hmono, hmax⟩
      rcases List.mem_cons.mp hq with rfl | hold
      · exact (hseg htype).trans hmono
      · exact hall q hold htype

/-- The program headers come behind all segments, not above the user half. -/
theorem phdrPage_spec {img : ElfImage} (huser : UserImage img) :
    elfPhdrVaddr (elfMaxVaddr img.phdrs) = img.phdrPage * 4096 ∧ img.phdrPage ≤ 2 ^ 35 ∧
      ∀ i, i < img.ehdr.phnum.toNat → (img.phdr i).type = ptLoad →
        (img.phdr i).vaddr.toNat + (img.phdr i).memsz.toNat ≤ img.phdrPage * 4096 := by
  have hsegEnd : ∀ i, i < img.ehdr.phnum.toNat → (img.phdr i).type = ptLoad →
      (img.phdr i).segEnd = (img.phdr i).vaddr.toNat + (img.phdr i).memsz.toNat := by
    intro i hi htype
    have := huser.userHalf i hi htype
    unfold ElfPhdr.segEnd
    omega
  have hbound : ∀ ph ∈ img.phdrs, ph.type = ptLoad → ph.segEnd ≤ 2 ^ 47 := by
    intro ph hph htype
    obtain ⟨i, hi, rfl⟩ := List.mem_map.mp hph
    rw [hsegEnd i (List.mem_range.mp hi) htype]
    exact huser.userHalf i (List.mem_range.mp hi) htype
  obtain ⟨hall, -, hmax⟩ := maxVaddr_fold img.phdrs hbound 0 (Nat.zero_le _)
  have hvaddr : elfPhdrVaddr (elfMaxVaddr img.phdrs) =
      (elfMaxVaddr img.phdrs + 4095) / 4096 * 4096 := by
    unfold elfPhdrVaddr
    dsimp only
    have hle : elfMaxVaddr img.phdrs ≤ 2 ^ 47 := hmax
    rw [alignUp4k_eq, alignUp4k_eq]
    split
    · omega
    · omega
  have hle : elfMaxVaddr img.phdrs ≤ 2 ^ 47 := hmax
  unfold ElfImage.phdrPage
  rw [hvaddr]
  refine ⟨by omega, by omega, fun i hi htype => ?_⟩
  have hseg : (img.phdr i).segEnd ≤ elfMaxVaddr img.phdrs :=
    hall _ (List.mem_map.mpr ⟨i, List.mem_range.mpr hi, rfl⟩) htype
  rw [hsegEnd i hi htype] at hseg
  omega

theorem maps_lt {img : ElfImage} (huser : UserImage img) {n : Nat} (hn : img.Maps n) : n < 2 ^ 36 := by
  rcases hn with ⟨i, hi, hon⟩ | rfl | hstack
  · have hend := huser.userHalf i hi hon.1
    have hlast := hon.2.2.2
    omega
  · have hle := (phdrPage_spec huser).2.1
    omega
  · have hlast := hstack.2
    omega

/-- The view after the load. -/
def ElfImage.finalView (img : ElfImage) : View := fun n =>
  if StackPage n then some fun _ => 0 else
  if n = img.phdrPage then some fun o =>
    if o < img.ehdr.phnum.toNat * elfPhdrSize then img.byte (img.phdrOff 0 + o) else 0
  else img.placed img.ehdr.phnum.toNat n

theorem shows_segments {W : Nat → Prop} {img : ElfImage} {st st' : ElfLoad}
    (h : Shows W st fun _ => none) (hW : ∀ m, W m → m < 2 ^ 36) (huser : UserImage img)
    (hmaps : ∀ n, img.Maps n → W n) (hload : elfSegments img st = (st', true)) :
    Shows W st' (img.placed img.ehdr.phnum.toNat) := by
  have hlooked := List.foldlRecOn (motive := fun st => Shows W st fun _ => none)
    (List.range img.ehdr.phnum.toNat) (fun (st : ElfLoad) i => st.look img i) h
    fun mid hmid i _ => hmid.note _
  refine attempt_range (P := fun n st => Shows W st (img.placed n)) hlooked _
    (fun i mid mid' hi hmid hseg => ?_) hload
  exact (hmid.note _).segment hW (huser.userHalf i hi) (fun n hon => hmaps n (.inl ⟨i, hi, hon⟩)) hseg

theorem shows_phdrs {W : Nat → Prop} {img : ElfImage} {st st' : ElfLoad} {view : View}
    (h : Shows W st view) (hW : ∀ m, W m → m < 2 ^ 36) (huser : UserImage img)
    (hone : img.ehdr.phnum.toNat ≤ 73) (hmaps : W img.phdrPage)
    (hload : elfMapPhdrs img st = (st', true)) :
    Shows W st' (Function.update view img.phdrPage (some fun o =>
      if o < img.ehdr.phnum.toNat * elfPhdrSize then img.byte (img.phdrOff 0 + o) else 0)) := by
  have hsize : elfPhdrSize = 56 := rfl
  have hplaces := places_copy img 0 (img.phdrOff 0) (img.ehdr.phnum.toNat * elfPhdrSize)
    (by rw [hsize]; omega)
  simp only [Nat.zero_add, Nat.zero_le, true_and, Nat.add_zero, Nat.sub_zero] at hplaces
  unfold elfMapPhdrs at hload
  rw [(phdrPage_spec huser).1] at hload
  exact h.mapPage hW hmaps (fills_copy img (fun page => page) (fun _ => img.phdrOff 0)
    fun _ => img.ehdr.phnum.toNat * elfPhdrSize) hplaces false true hload

/-- The view with the first `k` pages of the stack. -/
def stackFirst (view : View) (k : Nat) : View := fun n =>
  if 0x7FFFFFFEF ≤ n ∧ n < 0x7FFFFFFEF + k then some fun _ => 0 else view n

theorem stackFirst_succ (view : View) (k : Nat) :
    Function.update (stackFirst view k) (0x7FFFFFFEF + k) (some fun _ => 0) =
      stackFirst view (k + 1) := by
  funext n
  unfold stackFirst
  by_cases hn : n = 0x7FFFFFFEF + k
  · rw [hn, Function.update_self, if_pos (by omega)]
  · rw [Function.update_of_ne hn]
    by_cases hin : 0x7FFFFFFEF ≤ n ∧ n < 0x7FFFFFFEF + k
    · rw [if_pos hin, if_pos (by omega)]
    · rw [if_neg hin, if_neg (by omega)]

theorem shows_stack {W : Nat → Prop} {st st' : ElfLoad} {view : View} (h : Shows W st view)
    (hW : ∀ m, W m → m < 2 ^ 36) (hmaps : ∀ n, StackPage n → W n)
    (hload : elfMapStack st = (st', true)) : Shows W st' (stackFirst view 16) := by
  have hnone : stackFirst view 0 = view := by
    funext n
    exact if_neg (by omega)
  have hfirst : Shows W st (stackFirst view 0) := by
    rw [hnone]
    exact h
  have hbase : elfStackBase = 0x7FFFFFFEF * 4096 := by decide
  refine attempt_range (P := fun k st => Shows W st (stackFirst view k)) hfirst 16
    (fun i mid mid' hi hmid hmap => ?_) hload
  have haddr : elfStackBase + i * 4096 = (0x7FFFFFFEF + i) * 4096 := by
    rw [hbase]
    omega
  rw [haddr] at hmap
  rw [← stackFirst_succ]
  exact hmid.mapPage hW (hmaps _ ⟨by omega, by omega⟩) fills_same places_same true true hmap

theorem shows_load {img : ElfImage} {st st' : ElfLoad} {info : ElfLoadInfo}
    (hloaded : SpaceLoaded st.paging) (huser : UserImage img) (hplain : PlainImage img st.paging)
    (hload : elfLoad img st = (st', some info)) : Shows img.Maps st' img.finalView := by
  obtain ⟨segs, hdrs, -, -, hsegs, hhdrs, hstack⟩ := elfLoad_some hload
  have hW : ∀ m, img.Maps m → m < 2 ^ 36 := fun m hm => maps_lt huser hm
  have hfirst : Shows img.Maps (st.note (.read 0 elfEhdrSize)) fun _ => none :=
    ⟨hloaded, hplain.small, fun n c hc => by simp at hc⟩
  have h₁ := shows_segments hfirst hW huser (fun _ hn => hn) hsegs
  have h₂ := shows_phdrs h₁ hW huser hplain.onePage (.inr (.inl rfl)) hhdrs
  have h₃ := shows_stack h₂ hW (fun n hn => .inr (.inr hn)) hstack
  have hview : stackFirst (Function.update (img.placed img.ehdr.phnum.toNat) img.phdrPage
      (some fun o => if o < img.ehdr.phnum.toNat * elfPhdrSize then img.byte (img.phdrOff 0 + o)
        else 0)) 16 = img.finalView := by
    funext n
    unfold stackFirst ElfImage.finalView
    refine if_congr Iff.rfl rfl ?_
    by_cases hn : n = img.phdrPage
    · rw [hn, Function.update_self, if_pos rfl]
    · rw [Function.update_of_ne hn, if_neg hn]
  rw [← hview]
  exact h₃

/-! ### What is read back -/

/-- The byte that a program reads. -/
def ElfLoad.byteAt (st : ElfLoad) (v : Nat) : Byte := st.data (virtToPhys st.paging v)

theorem Shows.byteAt {W : Nat → Prop} {st : ElfLoad} {view : View} (h : Shows W st view) {v : Nat}
    {content : Nat → Byte} (hview : view (v / 4096) = some content) :
    st.byteAt v = content (v % 4096) := by
  obtain ⟨-, frame, -, -, hshown⟩ := h.shown _ _ hview
  obtain ⟨hphys, hdata⟩ := hshown (v % 4096) (Nat.mod_lt _ (by decide))
  rw [Nat.div_add_mod' v 4096] at hphys
  unfold ElfLoad.byteAt
  rw [hphys, hdata]

/-- The bytes of the file, and zeros behind them. -/
def ElfPhdr.expected (ph : ElfPhdr) (img : ElfImage) (k : Nat) : Byte :=
  if k < ph.filesz.toNat then img.byte (ph.offset.toNat + k) else 0

/-- A later one of the first `n` segments has part of the page. -/
def Covered (img : ElfImage) (n i page : Nat) : Prop :=
  ∃ j, i < j ∧ j < n ∧ (img.phdr j).OnPage page

section Bytes

variable {img : ElfImage} (huser : UserImage img)
  (hfilesz : ∀ i, i < img.ehdr.phnum.toNat → (img.phdr i).type = ptLoad →
    (img.phdr i).filesz.toNat ≤ (img.phdr i).memsz.toNat)

include huser hfilesz

theorem content_iff {i : Nat} (hi : i < img.ehdr.phnum.toNat) (htype : (img.phdr i).type = ptLoad)
    (v : Nat) : ((img.phdr i).copyStart (v / 4096 * 4096) ≤ v ∧
        v < (img.phdr i).copyEnd (v / 4096 * 4096)) ↔
      (img.phdr i).vaddr.toNat ≤ v ∧
        v < (img.phdr i).vaddr.toNat + (img.phdr i).filesz.toNat := by
  have hhalf := huser.userHalf i hi htype
  have hfile := hfilesz i hi htype
  rw [copyStart_eq, copyEnd_eq]
  constructor
  · omega
  · intro ⟨hlo, hhi⟩
    omega

/-- Its own content is what a segment expects. -/
theorem content_own {i : Nat} (hi : i < img.ehdr.phnum.toNat) (htype : (img.phdr i).type = ptLoad)
    (k : Nat) :
    (img.phdr i).content img (((img.phdr i).vaddr.toNat + k) / 4096 * 4096)
        (((img.phdr i).vaddr.toNat + k) % 4096) = (img.phdr i).expected img k := by
  have hiff := content_iff huser hfilesz hi htype ((img.phdr i).vaddr.toNat + k)
  unfold ElfPhdr.content ElfPhdr.expected
  rw [Nat.div_add_mod', Nat.add_sub_cancel_left]
  refine if_congr (hiff.trans ⟨fun h => ?_, fun h => ⟨?_, ?_⟩⟩) rfl rfl
  · omega
  · omega
  · omega

/-- The content of another segment is zero there. -/
theorem content_other {i j : Nat} (hij : i < j) (hj : j < img.ehdr.phnum.toNat)
    (hi : (img.phdr i).type = ptLoad) (htype : (img.phdr j).type = ptLoad) {k : Nat}
    (hk : k < (img.phdr i).memsz.toNat) :
    (img.phdr j).content img (((img.phdr i).vaddr.toNat + k) / 4096 * 4096)
      (((img.phdr i).vaddr.toNat + k) % 4096) = 0 := by
  have hiff := content_iff huser hfilesz hj htype ((img.phdr i).vaddr.toNat + k)
  have hfile := hfilesz j hj htype
  unfold ElfPhdr.content
  rw [Nat.div_add_mod']
  refine if_neg fun hin => ?_
  obtain ⟨hlo, hhi⟩ := hiff.mp hin
  exact huser.apart i j _ hij hj hi htype (by omega) (by omega) ⟨hlo, by omega⟩

/-- What the segments leave at byte `k` of segment `i`. -/
theorem placed_byte {i : Nat} (htype : (img.phdr i).type = ptLoad) {k : Nat}
    (hk : k < (img.phdr i).memsz.toNat) (n : Nat) :
    n ≤ img.ehdr.phnum.toNat → i < n →
    ∃ content, img.placed n (((img.phdr i).vaddr.toNat + k) / 4096) = some content ∧
      (Covered img n i (((img.phdr i).vaddr.toNat + k) / 4096) →
        content (((img.phdr i).vaddr.toNat + k) % 4096) = 0) ∧
      (¬ Covered img n i (((img.phdr i).vaddr.toNat + k) / 4096) →
        content (((img.phdr i).vaddr.toNat + k) % 4096) = (img.phdr i).expected img k) := by
  have hmem : (img.phdr i).memsz ≠ 0 := by
    intro hzero
    rw [hzero] at hk
    exact absurd hk (Nat.not_lt_zero k)
  induction n with
  | zero =>
      intro _ hi
      omega
  | succ n ih =>
      intro hn hi
      by_cases hon : (img.phdr n).OnPage (((img.phdr i).vaddr.toNat + k) / 4096)
      · refine ⟨_, if_pos hon, fun hcovered => ?_, fun hfree => ?_⟩
        · obtain ⟨j, hij, hjn, -⟩ := hcovered
          exact content_other huser hfilesz (by omega) (by omega) htype hon.1 hk
        · rcases Nat.lt_succ_iff_lt_or_eq.mp hi with hlt | rfl
          · exact absurd ⟨n, hlt, by omega, hon⟩ hfree
          · exact content_own huser hfilesz (by omega) htype k
      · have hne : i ≠ n := by
          intro hin
          rw [← hin] at hon
          refine hon ⟨htype, hmem, by omega, by omega⟩
        obtain ⟨content, hview, hcov, hown⟩ := ih (by omega) (by omega)
        have hsame : Covered img (n + 1) i (((img.phdr i).vaddr.toNat + k) / 4096) ↔
            Covered img n i (((img.phdr i).vaddr.toNat + k) / 4096) := by
          constructor
          · intro ⟨j, hij, hjn, hj⟩
            refine ⟨j, hij, ?_, hj⟩
            rcases Nat.lt_succ_iff_lt_or_eq.mp hjn with hlt | rfl
            · exact hlt
            · exact absurd hj hon
          · intro ⟨j, hij, hjn, hj⟩
            exact ⟨j, hij, by omega, hj⟩
        refine ⟨content, ?_, fun h => hcov (hsame.mp h), fun h => hown fun h' => h (hsame.mpr h')⟩
        show (img.phdr n).place img (img.placed n) _ = _
        unfold ElfPhdr.place
        rw [if_neg hon]
        exact hview

end Bytes

/-- The page of a segment is taken by a later segment or by the stack. -/
def Replaced (img : ElfImage) (i page : Nat) : Prop :=
  Covered img img.ehdr.phnum.toNat i page ∨ StackPage page

/-- What a program reads at byte `k` of segment `i`. -/
theorem loaded_byte {img : ElfImage} {st st' : ElfLoad} {info : ElfLoadInfo}
    (hloaded : SpaceLoaded st.paging) (huser : UserImage img) (hplain : PlainImage img st.paging)
    (hload : elfLoad img st = (st', some info)) {i : Nat} (hi : i < img.ehdr.phnum.toNat)
    (htype : (img.phdr i).type = ptLoad) {k : Nat} (hk : k < (img.phdr i).memsz.toNat) :
    (Replaced img i (((img.phdr i).vaddr.toNat + k) / 4096) →
      st'.byteAt ((img.phdr i).vaddr.toNat + k) = 0) ∧
    (¬ Replaced img i (((img.phdr i).vaddr.toNat + k) / 4096) →
      st'.byteAt ((img.phdr i).vaddr.toNat + k) = (img.phdr i).expected img k) := by
  have hshows := shows_load hloaded huser hplain hload
  by_cases hstack : StackPage (((img.phdr i).vaddr.toNat + k) / 4096)
  · have hview : img.finalView (((img.phdr i).vaddr.toNat + k) / 4096) = some fun _ => 0 :=
      if_pos hstack
    exact ⟨fun _ => hshows.byteAt hview, fun hfree => absurd (.inr hstack) hfree⟩
  · have hbefore := (phdrPage_spec huser).2.2 i hi htype
    have hview : img.finalView (((img.phdr i).vaddr.toNat + k) / 4096) =
        img.placed img.ehdr.phnum.toNat (((img.phdr i).vaddr.toNat + k) / 4096) := by
      unfold ElfImage.finalView
      rw [if_neg hstack, if_neg (by omega)]
    obtain ⟨content, hplaced, hcov, hown⟩ := placed_byte huser hplain.filesz htype hk _ le_rfl hi
    have hbyte := hshows.byteAt (hview.trans hplaced)
    rw [hbyte]
    refine ⟨fun hreplaced => ?_, fun hfree => ?_⟩
    · rcases hreplaced with hcovered | hon
      · exact hcov hcovered
      · exact absurd hon hstack
    · exact hown fun hcovered => hfree (.inl hcovered)

/-- Every segment is in memory: its bytes of the file, and zeros behind them. -/
def SegmentsLoaded (img : ElfImage) (st : ElfLoad) : Prop :=
  ∀ i, i < img.ehdr.phnum.toNat → (img.phdr i).type = ptLoad →
    (∀ k, k < (img.phdr i).filesz.toNat → st.byteAt ((img.phdr i).vaddr.toNat + k) =
      img.byte ((img.phdr i).offset.toNat + k)) ∧
    ∀ k, (img.phdr i).filesz.toNat ≤ k → k < (img.phdr i).memsz.toNat →
      st.byteAt ((img.phdr i).vaddr.toNat + k) = 0

/-- In a page that a later segment or the stack has part of, a segment has only zeros. -/
def SharedPagesZero (img : ElfImage) : Prop :=
  ∀ i k, i < img.ehdr.phnum.toNat → (img.phdr i).type = ptLoad → k < (img.phdr i).filesz.toNat →
    Replaced img i (((img.phdr i).vaddr.toNat + k) / 4096) →
    img.byte ((img.phdr i).offset.toNat + k) = 0

/--
**What the loader loads.**  After a successful load of an image whose segments are apart, every
segment is in memory as the file has it exactly when no byte but zero lies in a page that a
later segment, or the stack, has part of.
-/
theorem elf_segments_loaded_iff {img : ElfImage} {st st' : ElfLoad} {info : ElfLoadInfo}
    (hloaded : SpaceLoaded st.paging) (huser : UserImage img) (hplain : PlainImage img st.paging)
    (hload : elfLoad img st = (st', some info)) :
    SegmentsLoaded img st' ↔ SharedPagesZero img := by
  constructor
  · intro hall i k hi htype hk hreplaced
    have hmem := hplain.filesz i hi htype
    have hbyte := (loaded_byte hloaded huser hplain hload hi htype (by omega)).1 hreplaced
    rw [← (hall i hi htype).1 k hk, hbyte]
  · intro hzero i hi htype
    have hmem := hplain.filesz i hi htype
    refine ⟨fun k hk => ?_, fun k hle hk => ?_⟩
    · obtain ⟨hcov, hown⟩ := loaded_byte hloaded huser hplain hload hi htype (k := k) (by omega)
      by_cases hreplaced : Replaced img i (((img.phdr i).vaddr.toNat + k) / 4096)
      · rw [hcov hreplaced, hzero i k hi htype hk hreplaced]
      · rw [hown hreplaced]
        exact if_pos hk
    · obtain ⟨hcov, hown⟩ := loaded_byte hloaded huser hplain hload hi htype hk
      by_cases hreplaced : Replaced img i (((img.phdr i).vaddr.toNat + k) / 4096)
      · exact hcov hreplaced
      · rw [hown hreplaced]
        exact if_neg (by omega)

theorem roomyMachine_loaded : SpaceLoaded roomyMachine.paging :=
  emptyTables_loaded roomyPmem_sane (by decide)

theorem roomyMachine_not_huge (virt : Nat) : ¬ MappedHuge roomyMachine.paging virt :=
  emptyTables_not_huge roomyPmem virt

theorem elf_segments_loaded_small :
    ∃ st' info, elfLoad smallImage roomyMachine = (st', some info) ∧
      SegmentsLoaded smallImage st' := by
  obtain ⟨st', info, hload⟩ := elfLoad_succeeds smallImage_room (by decide) smallImage_valid
    smallImage_checked
  have huser : UserImage smallImage := by
    refine ⟨fun i hi _ => ?_, fun i j v hij hj => ?_⟩
    · rw [smallImage_phnum] at hi
      obtain rfl : i = 0 := by omega
      decide +kernel
    · rw [smallImage_phnum] at hj
      omega
  have hplain : PlainImage smallImage roomyMachine.paging := by
    refine ⟨fun i hi _ => ?_, by decide +kernel, fun n _ => roomyMachine_not_huge _⟩
    rw [smallImage_phnum] at hi
    obtain rfl : i = 0 := by omega
    decide +kernel
  refine ⟨st', info, hload, (elf_segments_loaded_iff roomyMachine_loaded huser hplain hload).mpr ?_⟩
  intro i k hi _ hk hreplaced
  rw [smallImage_phnum] at hi
  obtain rfl : i = 0 := by omega
  have hfile : (smallImage.phdr 0).filesz.toNat = 4 := by decide +kernel
  have hvaddr : (smallImage.phdr 0).vaddr.toNat = 0x400000 := by decide +kernel
  rw [hvaddr] at hreplaced
  rcases hreplaced with ⟨j, hij, hj, -⟩ | ⟨hstack, -⟩
  · rw [smallImage_phnum] at hj
    omega
  · omega

/-- Two segments of four bytes in one page. -/
def sharedPage : ElfImage where
  buf := onto (ehdrBytes 64 2 ++ phdrBytes 176 0x400000 4 4 ++ phdrBytes 180 0x400800 4 4 ++
    [1, 2, 3, 4, 5, 6, 7, 8]) fun _ => 0
  size := 184

theorem sharedPage_read : sharedPage.ehdr.phnum.toNat = 2 ∧ UserImage sharedPage ∧
    PlainImage sharedPage roomyMachine.paging := by
  have htwo : sharedPage.ehdr.phnum.toNat = 2 := by decide +kernel
  refine ⟨htwo, ⟨fun i hi _ => ?_, fun i j v hij hj _ _ hlo hhi => ?_⟩, fun i hi _ => ?_,
    by decide +kernel, fun n _ => roomyMachine_not_huge _⟩
  · rw [htwo] at hi
    obtain rfl | rfl : i = 0 ∨ i = 1 := by omega
    · decide +kernel
    · decide +kernel
  · rw [htwo] at hj
    obtain ⟨rfl, rfl⟩ : i = 0 ∧ j = 1 := by omega
    have hend : (sharedPage.phdr 0).vaddr.toNat + (sharedPage.phdr 0).memsz.toNat = 0x400004 := by
      decide +kernel
    have hnext : (sharedPage.phdr 1).vaddr.toNat = 0x400800 := by decide +kernel
    omega
  · rw [htwo] at hi
    obtain rfl | rfl : i = 0 ∨ i = 1 := by omega
    · decide +kernel
    · decide +kernel

theorem sharedPage_phnum : sharedPage.ehdr.phnum.toNat = 2 := sharedPage_read.1
theorem sharedPage_user : UserImage sharedPage := sharedPage_read.2.1
theorem sharedPage_plain : PlainImage sharedPage roomyMachine.paging := sharedPage_read.2.2

/-- The image is loaded, and the first byte of its first segment is zero instead of one. -/
theorem elf_shared_page_lost :
    ∃ st' info, elfLoad sharedPage roomyMachine = (st', some info) ∧ UserImage sharedPage ∧
      sharedPage.byte (sharedPage.phdr 0).offset.toNat = 1 ∧
      st'.byteAt (sharedPage.phdr 0).vaddr.toNat = 0 ∧ ¬ SegmentsLoaded sharedPage st' := by
  have hchecked : ∀ i, i < sharedPage.ehdr.phnum.toNat → (sharedPage.phdr i).Checked sharedPage := by
    intro i hi _ _
    rw [sharedPage_phnum] at hi
    obtain rfl | rfl : i = 0 ∨ i = 1 := by omega
    · decide +kernel
    · decide +kernel
  have hpages : sharedPage.pagesUsed = 19 := by decide +kernel
  have hroom : RoomFor sharedPage.pagesUsed roomyMachine :=
    roomyMachine_room.of_le (by rw [hpages]; decide)
  obtain ⟨st', info, hload⟩ := elfLoad_succeeds hroom (by decide) (by decide +kernel) hchecked
  have hfirst : 0 < sharedPage.ehdr.phnum.toNat := by rw [sharedPage_phnum]; decide
  have htype : (sharedPage.phdr 0).type = ptLoad := by decide +kernel
  have hmem : 0 < (sharedPage.phdr 0).memsz.toNat := by decide +kernel
  have hreplaced : Replaced sharedPage 0 (((sharedPage.phdr 0).vaddr.toNat + 0) / 4096) := by
    refine .inl ⟨1, by decide, by rw [sharedPage_phnum]; decide, ?_⟩
    decide +kernel
  have hlost := (loaded_byte roomyMachine_loaded sharedPage_user sharedPage_plain hload hfirst htype
    hmem).1 hreplaced
  have hone : sharedPage.byte (sharedPage.phdr 0).offset.toNat = 1 := by decide +kernel
  refine ⟨st', info, hload, sharedPage_user, hone, hlost, fun hall => ?_⟩
  have hbyte := (hall 0 hfirst htype).1 0 (by decide +kernel)
  rw [hlost, Nat.add_zero, hone] at hbyte
  exact absurd hbyte (by decide)

end BrightS
