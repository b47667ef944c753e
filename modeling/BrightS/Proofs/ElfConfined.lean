/-
Where the loader maps pages.

A load that succeeds maps the pages `ElfImage.mapCalls`, one after the other (`maps_load`):
those of the segments, the page of the program headers and the stack.  A page mapped in the
user half changes no translation of the kernel half.  The stack lies in the user half; the
other addresses come from the image, and `ElfImage.Low` is what it takes for them to lie
there as well.
-/
import BrightS.Proofs.ElfLoad

namespace BrightS

open Bytes Loops Radix Words

-- Unfolding the search through the bitmap is never of use here.
attribute [local irreducible] pmemAllocPage elfMapPage

/-! ### The pages of a load -/

/-- The addresses of the pages that are mapped for a segment. -/
def ElfPhdr.mapCalls (ph : ElfPhdr) : List Nat :=
  if ph.type ≠ ptLoad then [] else
  if ph.memsz = 0 then [] else (List.range ph.numPages).map ph.pageAddr

/-- The addresses of the pages that are mapped for an image. -/
def ElfImage.mapCalls (img : ElfImage) : List Nat :=
  (List.range img.ehdr.phnum.toNat).flatMap (fun i => (img.phdr i).mapCalls) ++
    [elfPhdrVaddr (elfMaxVaddr img.phdrs)] ++
    (List.range userStackPages).map fun i => elfStackBase + i * 4096

/-- The loader maps the pages at these addresses, in order. -/
inductive MapsPages : ElfLoad → List Nat → ElfLoad → Prop where
  | nil (st : ElfLoad) : MapsPages st [] st
  | note {st mid st' : ElfLoad} {vas : List Nat} (e : ElfEvent) :
      MapsPages st vas mid → st' = mid.note e → MapsPages st vas st'
  | page {st mid st' : ElfLoad} {vas : List Nat} {va : Nat} {fill : ElfLoad → Nat → ElfLoad}
      (writable user : Bool) : MapsPages st vas mid → Fills fill →
      elfMapPage mid va (pteFlagPresent ||| permFlags writable user) fill = (st', true) →
      MapsPages st (vas ++ [va]) st'

section Maps

variable {st mid st' : ElfLoad} {vas : List Nat}

theorem MapsPages.segment {img : ElfImage} {ph : ElfPhdr} (h : MapsPages st vas mid)
    (hseg : elfSegment img mid ph = (st', true)) : MapsPages st (vas ++ ph.mapCalls) st' := by
  unfold elfSegment at hseg
  unfold ElfPhdr.mapCalls
  split at hseg
  · rename_i htype
    rw [if_pos htype, List.append_nil, ← (Prod.mk.inj hseg).1]
    exact h
  · rename_i htype
    rw [if_neg htype]
    split at hseg
    · rename_i hmem
      rw [if_pos hmem, List.append_nil, ← (Prod.mk.inj hseg).1]
      exact h
    · rename_i hmem
      rw [if_neg hmem]
      split at hseg
      · exact absurd (Prod.mk.inj hseg).2 (by simp)
      · refine attempt_range
          (P := fun n st' => MapsPages st (vas ++ (List.range n).map ph.pageAddr) st') ?_ ph.numPages
          (fun pg before after _ hpages hmap => ?_) hseg
        · simpa using h
        · rw [List.range_succ, List.map_append, ← List.append_assoc]
          obtain ⟨writable, hflags⟩ := pteFlags_eq ph
          rw [hflags] at hmap
          exact .page writable true hpages (fills_elfFill img ph (ph.pageAddr pg)) hmap

/-- A load that succeeds maps the pages of the image. -/
theorem maps_load {img : ElfImage} {info : ElfLoadInfo}
    (hload : elfLoad img st = (st', some info)) : MapsPages st img.mapCalls st' := by
  obtain ⟨segs, hdrs, -, -, hsegs, hhdrs, hstack⟩ := elfLoad_some hload
  have hfirst : MapsPages st [] (st.note (.read 0 elfEhdrSize)) := .note _ (.nil st) rfl
  have hlooked := List.foldlRecOn (motive := fun mid => MapsPages st [] mid)
    (List.range img.ehdr.phnum.toNat) (fun (mid : ElfLoad) i => mid.look img i) hfirst
    fun mid hmid i _ => .note _ hmid rfl
  have hsegments : MapsPages st
      ((List.range img.ehdr.phnum.toNat).flatMap fun i => (img.phdr i).mapCalls) segs := by
    refine attempt_range (P := fun n mid => MapsPages st
      ((List.range n).flatMap fun i => (img.phdr i).mapCalls) mid) hlooked _
      (fun i mid mid' _ hmid hseg => ?_) hsegs
    rw [List.range_succ, List.flatMap_append]
    have hlook : MapsPages st _ (mid.look img i) := .note _ hmid rfl
    simpa using hlook.segment hseg
  have hheaders : MapsPages st (((List.range img.ehdr.phnum.toNat).flatMap fun i =>
      (img.phdr i).mapCalls) ++ [elfPhdrVaddr (elfMaxVaddr img.phdrs)]) hdrs :=
    .page false true hsegments (fills_copy img (fun page => page) (fun _ => img.phdrOff 0)
      fun _ => img.ehdr.phnum.toNat * elfPhdrSize) hhdrs
  refine attempt_range (P := fun n mid => MapsPages st (_ ++ _ ++
    (List.range n).map fun i => elfStackBase + i * 4096) mid) ?_ userStackPages
    (fun i mid mid' _ hmid hmap => ?_) hstack
  · simpa using hheaders
  · rw [List.range_succ, List.map_append, ← List.append_assoc]
    exact .page true true hmid fills_same hmap

end Maps

/-! ### The kernel half -/

def KernelAddr (v : Nat) : Prop := 2 ^ 64 - 2 ^ 47 ≤ v ∧ v < 2 ^ 64

/-- The pages of the kernel half that are mapped keep their translation. -/
def KernelKept (s s' : Paging) : Prop :=
  ∀ v, KernelAddr v → (walkPageTable s v false).2 ≠ none → virtToPhys s' v = virtToPhys s v

/-- One page is mapped: what changes is the page and nothing else. -/
theorem SpaceLoaded.mapPage {st st' : ElfLoad} (h : SpaceLoaded st.paging) {va : Nat}
    (hva : va < 2 ^ 64) (hsmall : ¬ MappedHuge st.paging va) {fill : ElfLoad → Nat → ElfLoad}
    (hfill : Fills fill) (writable user : Bool)
    (hmap : elfMapPage st va (pteFlagPresent ||| permFlags writable user) fill = (st', true)) :
    SpaceLoaded st'.paging ∧
      (∀ v, SameFrom 0 (ptIndex va) (ptIndex v) → ¬ MappedHuge st'.paging v) ∧
      ∀ v, ¬ SameFrom 0 (ptIndex va) (ptIndex v) →
        virtToPhys st'.paging v = virtToPhys st.paging v ∧
          (MappedHuge st'.paging v ↔ MappedHuge st.paging v) := by
  obtain ⟨res, hpage⟩ := h.mapsFresh hva hsmall hfill writable user hmap
  exact ⟨hpage.loaded, fun v hsame => (hpage.hit v hsame).2, hpage.miss⟩

theorem kernelAddr_apart {va v : Nat} (hva : va < 2 ^ 47) (hv : KernelAddr v) :
    ¬ SameFrom 0 (ptIndex va) (ptIndex v) := by
  intro hsame
  have hbits := same_bits hsame
  obtain ⟨hlow, hhigh⟩ := hv
  omega

/-- Pages mapped in the user half leave the kernel half alone. -/
theorem MapsPages.kernel {st st' : ElfLoad} {vas : List Nat} (h : MapsPages st vas st')
    (hloaded : SpaceLoaded st.paging) (hlow : ∀ va ∈ vas, va < 2 ^ 47)
    (hsmall : ∀ va ∈ vas, ¬ MappedHuge st.paging va) :
    SpaceLoaded st'.paging ∧ (∀ v, MappedHuge st'.paging v → MappedHuge st.paging v) ∧
      ∀ v, KernelAddr v → virtToPhys st'.paging v = virtToPhys st.paging v := by
  induction h with
  | nil => exact ⟨hloaded, fun _ h => h, fun _ _ => rfl⟩
  | note e hpages heq ih =>
      subst heq
      exact ih hlow hsmall
  | @page mid st' vas va fill writable user hpages hfill hmap ih =>
      obtain ⟨hmid, hhuge, hkept⟩ := ih (fun a ha => hlow a (List.mem_append_left _ ha))
        (fun a ha => hsmall a (List.mem_append_left _ ha))
      have hlast : va ∈ vas ++ [va] := List.mem_append_right _ (List.mem_singleton.mpr rfl)
      have hva := hlow va hlast
      obtain ⟨hloaded', hhit, hmiss⟩ := hmid.mapPage (by omega)
        (fun hh => hsmall va hlast (hhuge va hh)) hfill writable user hmap
      refine ⟨hloaded', fun v hv => ?_, fun v hv => ?_⟩
      · by_cases hsame : SameFrom 0 (ptIndex va) (ptIndex v)
        · exact absurd hv (hhit v hsame)
        · exact hhuge v ((hmiss v hsame).2.mp hv)
      · rw [(hmiss v (kernelAddr_apart hva hv)).1]
        exact hkept v hv

/-! ### Addresses from the image -/

/-- A segment with memory lies in the user half.  Two other kinds do no harm: when the end, rounded
up to a page, wraps around to the page of the start, nothing is mapped, and when it wraps to the
page behind it, only the page of the start. -/
def ElfPhdr.Low (ph : ElfPhdr) : Prop :=
  ph.vaddr.toNat + ph.memsz.toNat ≤ 2 ^ 47 ∨
    (2 ^ 64 ≤ ph.vaddr.toNat + ph.memsz.toNat + 4095 ∧
      ((ph.vaddr.toNat + ph.memsz.toNat + 4095) % 2 ^ 64 / 4096 = ph.vaddr.toNat / 4096 ∨
        ((ph.vaddr.toNat + ph.memsz.toNat + 4095) % 2 ^ 64 / 4096 = ph.vaddr.toNat / 4096 + 1 ∧
          ph.vaddr.toNat < 2 ^ 47)))

/-- The ends of the segments, which wrap around, leave a page below the end of the user half; or
one of them is in the last page of the address space, so that rounding it up gives zero. -/
def ElfImage.PhdrsLow (img : ElfImage) : Prop :=
  (∀ i, i < img.ehdr.phnum.toNat → (img.phdr i).type = ptLoad →
    (img.phdr i).segEnd ≤ 2 ^ 47 - 4096) ∨
  ∃ i, i < img.ehdr.phnum.toNat ∧ (img.phdr i).type = ptLoad ∧
    2 ^ 64 - 4096 < (img.phdr i).segEnd

/-- The image asks for pages in the user half only. -/
structure ElfImage.Low (img : ElfImage) : Prop where
  segments : ∀ i, i < img.ehdr.phnum.toNat → (img.phdr i).type = ptLoad → (img.phdr i).memsz ≠ 0 →
    (img.phdr i).Low
  phdrs : img.PhdrsLow

/-- The pages of a segment, in terms of its first page and their number. -/
theorem pageAddr_low_iff (ph : ElfPhdr) :
    (∀ pg, pg < ph.numPages → ph.pageAddr pg < 2 ^ 47) ↔
      ph.numPages = 0 ∨ ph.pageStart + ph.numPages * 4096 ≤ 2 ^ 47 := by
  have hstart := pageStart_eq ph
  have hv := ph.vaddr.isLt
  have hn := numPages_lt ph
  unfold ElfPhdr.pageAddr
  constructor
  · intro hall
    by_contra hno
    obtain ⟨hsome, hhigh⟩ := not_or.mp hno
    -- The first page above the user half is one of the segment.
    have hfirst := hall 0 (Nat.pos_of_ne_zero hsome)
    rw [Nat.zero_mul, Nat.add_zero] at hfirst
    have habove := hall ((2 ^ 47 - ph.pageStart) / 4096) (by omega)
    omega
  · rintro (hnone | hlow) pg hpg
    · omega
    · omega

theorem numPages_low_iff (ph : ElfPhdr) (hmem : ph.memsz ≠ 0) :
    (ph.numPages = 0 ∨ ph.pageStart + ph.numPages * 4096 ≤ 2 ^ 47) ↔ ph.Low := by
  have hstart := pageStart_eq ph
  have hv := ph.vaddr.isLt
  have hm := ph.memsz.isLt
  have hpos : 0 < ph.memsz.toNat := Nat.pos_of_ne_zero fun h =>
    hmem (BitVec.eq_of_toNat_eq (by simpa using h))
  unfold ElfPhdr.Low ElfPhdr.numPages ElfPhdr.segEnd sub64
  rw [hstart, alignUp4k_eq]
  generalize ph.vaddr.toNat = v at hv ⊢
  generalize ph.memsz.toNat = m at hm hpos ⊢
  omega

theorem segment_low_iff (ph : ElfPhdr) :
    (∀ va ∈ ph.mapCalls, va < 2 ^ 47) ↔ (ph.type = ptLoad → ph.memsz ≠ 0 → ph.Low) := by
  unfold ElfPhdr.mapCalls
  split
  · rename_i htype
    exact ⟨fun _ h => absurd h htype, fun _ va hva => absurd hva (by simp)⟩
  · rename_i htype
    split
    · rename_i hmem
      exact ⟨fun _ _ h => absurd hmem h, fun _ va hva => absurd hva (by simp)⟩
    · rename_i hmem
      rw [List.forall_mem_map]
      simp only [List.mem_range]
      rw [pageAddr_low_iff, numPages_low_iff ph hmem]
      exact ⟨fun h _ _ => h, fun h => h (not_not.mp htype) hmem⟩

/-- The greatest end of a segment is not above a bound if none of the ends is. -/
theorem maxVaddr_le_iff (phdrs : List ElfPhdr) (bound : Nat) :
    elfMaxVaddr phdrs ≤ bound ↔ ∀ ph ∈ phdrs, ph.type = ptLoad → ph.segEnd ≤ bound := by
  constructor
  · intro hle ph hph htype
    have hall : ∀ q ∈ phdrs, q.type = ptLoad → q.segEnd ≤ 2 ^ 64 := fun q _ _ => by
      unfold ElfPhdr.segEnd
      omega
    exact ((maxVaddr_fold phdrs hall 0 (Nat.zero_le _)).1 ph hph htype).trans hle
  · intro hall
    exact (maxVaddr_fold phdrs hall 0 (Nat.zero_le _)).2.2

/-- Rounding up twice is rounding up, and the last page of the address space gives zero. -/
theorem phdrVaddr_low_iff {m : Nat} (hm : m < 2 ^ 64) :
    elfPhdrVaddr m < 2 ^ 47 ↔ m ≤ 2 ^ 47 - 4096 ∨ 2 ^ 64 - 4096 < m := by
  unfold elfPhdrVaddr
  dsimp only
  rw [alignUp4k_eq, alignUp4k_eq]
  split
  · omega
  · omega

theorem phdrs_low_iff (img : ElfImage) :
    elfPhdrVaddr (elfMaxVaddr img.phdrs) < 2 ^ 47 ↔ img.PhdrsLow := by
  have hphdrs : ∀ bound, elfMaxVaddr img.phdrs ≤ bound ↔
      ∀ i, i < img.ehdr.phnum.toNat → (img.phdr i).type = ptLoad → (img.phdr i).segEnd ≤ bound := by
    intro bound
    rw [maxVaddr_le_iff, ElfImage.phdrs, List.forall_mem_map]
    simp only [List.mem_range]
  have hlt : elfMaxVaddr img.phdrs < 2 ^ 64 := by
    have hle := (hphdrs (2 ^ 64 - 1)).mpr fun i _ _ => by
      unfold ElfPhdr.segEnd
      omega
    omega
  rw [phdrVaddr_low_iff hlt, hphdrs]
  refine or_congr Iff.rfl ?_
  rw [← Nat.not_le, hphdrs]
  simp only [not_forall, Nat.not_le, exists_prop]

/-- The addresses lie in the user half exactly when the image asks for no others. -/
theorem mapCalls_low_iff (img : ElfImage) : (∀ va ∈ img.mapCalls, va < 2 ^ 47) ↔ img.Low := by
  have hstack : ∀ i, i < userStackPages → elfStackBase + i * 4096 < 2 ^ 47 := by
    intro i hi
    have hbase : elfStackBase = 0x7FFFFFFEF * 4096 := by decide
    have hpages : userStackPages = 16 := rfl
    omega
  have hsegments : (∀ va ∈ (List.range img.ehdr.phnum.toNat).flatMap fun i => (img.phdr i).mapCalls,
      va < 2 ^ 47) ↔ ∀ i, i < img.ehdr.phnum.toNat → (img.phdr i).type = ptLoad →
        (img.phdr i).memsz ≠ 0 → (img.phdr i).Low := by
    constructor
    · intro hall i hi
      refine (segment_low_iff (img.phdr i)).mp fun va hva => hall va ?_
      exact List.mem_flatMap.mpr ⟨i, List.mem_range.mpr hi, hva⟩
    · intro hall va hva
      obtain ⟨i, hi, hva⟩ := List.mem_flatMap.mp hva
      exact (segment_low_iff (img.phdr i)).mpr (hall i (List.mem_range.mp hi)) va hva
  constructor
  · intro hall
    refine ⟨hsegments.mp fun va hva => hall va ?_, (phdrs_low_iff img).mp (hall _ ?_)⟩
    · exact List.mem_append_left _ (List.mem_append_left _ hva)
    · exact List.mem_append_left _ (List.mem_append_right _ (List.mem_singleton.mpr rfl))
  · intro hlow va hva
    rcases List.mem_append.mp hva with hva | hva
    · rcases List.mem_append.mp hva with hva | hva
      · exact hsegments.mpr hlow.segments va hva
      · rw [List.mem_singleton.mp hva]
        exact (phdrs_low_iff img).mpr hlow.phdrs
    · obtain ⟨i, hi, rfl⟩ := List.mem_map.mp hva
      exact hstack i (List.mem_range.mp hi)

/-! ### Confinement -/

/-- All pages are mapped in the user half, and the kernel half is as it was. -/
def ElfImage.Confined (img : ElfImage) (st st' : ElfLoad) : Prop :=
  (∀ va ∈ img.mapCalls, va < 2 ^ 47) ∧ KernelKept st.paging st'.paging

/-- **An image that is accepted is confined to the user half if and only if its headers ask for
nothing else**, where no page that is mapped lies in a 2 MB page. -/
theorem elf_confined_iff {img : ElfImage} {st st' : ElfLoad} {info : ElfLoadInfo}
    (hloaded : SpaceLoaded st.paging) (hsmall : ∀ va ∈ img.mapCalls, ¬ MappedHuge st.paging va)
    (hload : elfLoad img st = (st', some info)) :
    MapsPages st img.mapCalls st' ∧ (img.Confined st st' ↔ img.Low) := by
  have hmaps := maps_load hload
  refine ⟨hmaps, fun hconf => (mapCalls_low_iff img).mp hconf.1, fun hlow => ?_⟩
  have hcalls := (mapCalls_low_iff img).mpr hlow
  exact ⟨hcalls, fun v hv _ => (hmaps.kernel hloaded hcalls hsmall).2.2 v hv⟩

/-- The small image lies in the user half, and is confined to it. -/
theorem elf_confined_small :
    ∃ st' info, elfLoad smallImage roomyMachine = (st', some info) ∧
      MapsPages roomyMachine smallImage.mapCalls st' ∧ smallImage.Confined roomyMachine st' := by
  obtain ⟨st', info, hload⟩ := elfLoad_succeeds smallImage_room (by decide) smallImage_valid
    smallImage_checked
  obtain ⟨hmaps, hiff⟩ := elf_confined_iff roomyMachine_loaded
    (fun va _ => roomyMachine_not_huge va) hload
  obtain ⟨hvaddr, hmemsz⟩ : (smallImage.phdr 0).vaddr.toNat = 0x400000 ∧
      (smallImage.phdr 0).memsz.toNat = 8 := by decide +kernel
  have hlow : smallImage.Low := by
    refine ⟨fun i hi _ _ => .inl ?_, .inl fun i hi _ => ?_⟩
    · rw [smallImage_phnum] at hi
      obtain rfl : i = 0 := by omega
      omega
    · rw [smallImage_phnum] at hi
      obtain rfl : i = 0 := by omega
      unfold ElfPhdr.segEnd
      omega
  exact ⟨st', info, hload, hmaps, hiff.mpr hlow⟩

/-- One segment at the start of a page of the kernel half. -/
def kernelImage : ElfImage where
  buf := onto (ehdrBytes 64 1 ++ phdrBytes 120 0xFFFF800000400000 4 8 ++ [1, 2, 3, 4]) fun _ => 0
  size := 124

/-- The image is accepted and its page is mapped in the kernel half. -/
theorem elf_maps_kernel_page :
    ∃ st' info, elfLoad kernelImage roomyMachine = (st', some info) ∧
      MapsPages roomyMachine kernelImage.mapCalls st' ∧
      0xFFFF800000400000 ∈ kernelImage.mapCalls ∧ ¬ kernelImage.Confined roomyMachine st' := by
  have hone : kernelImage.ehdr.phnum.toNat = 1 := by decide +kernel
  have hchecked : ∀ i, i < kernelImage.ehdr.phnum.toNat →
      (kernelImage.phdr i).Checked kernelImage := by
    intro i hi _ _
    obtain rfl : i = 0 := by omega
    decide +kernel
  have hpages : kernelImage.pagesUsed = 18 := by decide +kernel
  have hroom : RoomFor kernelImage.pagesUsed roomyMachine :=
    roomyMachine_room.of_le (by rw [hpages]; decide)
  obtain ⟨st', info, hload⟩ := elfLoad_succeeds hroom (by decide) (by decide +kernel) hchecked
  have hmem : 0xFFFF800000400000 ∈ kernelImage.mapCalls := by decide +kernel
  exact ⟨st', info, hload, maps_load hload, hmem, fun hconf => absurd (hconf.1 _ hmem) (by decide)⟩

end BrightS
