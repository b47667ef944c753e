/-
What the calls of the object cache do to the LRU list.

The list is well formed whatever the hash chains have become: they run along its links, so a
slot whose entry was not freed leads into the list, from there to its end.  Taking an entry out
of its chain stores in the same link as taking it out of the list, if it stores in one at all.
-/
import BrightS.Kernel.Cache
import BrightS.Lib.Doubly

namespace BrightS

open Bytes Chains

/-- The size of the entry at an address. -/
def Cache.sizeAt (s : Cache) (a : Nat) : Nat := ((s.entry a).map CacheEntry.size).getD 0

def Cache.sizes (s : Cache) (l : List Nat) : Nat := (l.map s.sizeAt).sum

def Cache.hasKey (s : Cache) (key : CacheKey) (a : Nat) : Bool :=
  (s.entry a).any fun e => decide (e.key = key)

/-- The entries of the LRU list, the last used first. -/
structure ListOk (s : Cache) (l : List Nat) : Prop where
  linked : Linked s.next s.prev s.lruHead s.lruTail l
  live : ∀ a ∈ l, s.entry a ≠ none
  zero : s.entry 0 = none
  slots : ∀ i, i < s.setup.tableSize → s.entry (s.table i) ≠ none → s.table i ∈ l
  size : s.sizeCurrent = BitVec.ofNat 64 (s.sizes l)
  count : s.entriesCurrent = BitVec.ofNat 64 l.length
  room : l.length ≤ s.setup.entriesMax
  bound : s.setup.entriesMax < 2 ^ 32
  slotted : 0 < s.setup.tableSize

/-- The slot leads to an entry that was not freed, or nowhere. -/
def SlotFresh (s : Cache) (i : Nat) : Prop := s.table i = 0 ∨ s.live (s.table i) = true

instance (s : Cache) (i : Nat) : Decidable (SlotFresh s i) := inferInstanceAs (Decidable (_ ∨ _))

variable {s : Cache} {l : List Nat} {a : Nat}

theorem live_iff : s.live a = true ↔ s.entry a ≠ none := by
  unfold Cache.live
  rw [Option.isSome_iff_ne_none]

/-- The slot of a key. -/
def Cache.slot (s : Cache) (key : CacheKey) : Nat := cacheHash key s.setup.tableSize

theorem ListOk.slot_lt (h : ListOk s l) (key : CacheKey) : s.slot key < s.setup.tableSize :=
  Nat.mod_lt _ h.slotted

theorem SlotFresh.mem (h : ListOk s l) {i : Nat} (hi : i < s.setup.tableSize)
    (hfresh : SlotFresh s i) : s.table i = 0 ∨ s.table i ∈ l :=
  hfresh.imp_right fun hlive => h.slots i hi (live_iff.mp hlive)

/-! ### Chains -/

/-- A node of the list leads along the rest of it. -/
theorem seg_from {next : Nat → Nat} {p : Nat} (h : Seg next p l 0) {b : Nat} (hb : b ∈ l) :
    ∃ c, c.Sublist l ∧ Seg next b c 0 := by
  obtain ⟨l₁, l₂, rfl⟩ := List.append_of_mem hb
  obtain ⟨m, -, rfl, hm, hback⟩ := seg_append.mp h
  exact ⟨m :: l₂, List.sublist_append_right .., rfl, hm, hback⟩

/-- The chain of a slot that leads to no freed entry is the rest of the list from there on. -/
theorem ListOk.chain (h : ListOk s l) {i : Nat} (hi : i < s.setup.tableSize)
    (hfresh : SlotFresh s i) :
    ∃ c, c.Sublist l ∧ Seg s.next (s.table i) c 0 ∧ c.length ≤ s.fuel := by
  rcases hfresh.mem h hi with hzero | hmem
  · exact ⟨[], List.nil_sublist l, hzero, Nat.zero_le _⟩
  · obtain ⟨c, hsub, hseg⟩ := seg_from h.linked.forward hmem
    exact ⟨c, hsub, hseg, hsub.length_le.trans h.room⟩

theorem chainFind_zero (key : CacheKey) (fuel : Nat) : chainFind s key fuel 0 = some 0 := by
  cases fuel with
  | zero => rfl
  | succ fuel => rw [chainFind, if_pos rfl]

theorem chainFind_eq {key : CacheKey} {c : List Nat} : ∀ {p fuel : Nat}, Seg s.next p c 0 →
    (∀ b ∈ c, s.entry b ≠ none) → c.length ≤ fuel →
      chainFind s key fuel p = some ((c.find? (s.hasKey key)).getD 0) := by
  induction c with
  | nil =>
      intro p fuel hseg _ _
      obtain rfl : p = 0 := hseg
      exact chainFind_zero key fuel
  | cons b rest ih =>
      intro p fuel hseg hlive hfuel
      obtain ⟨rfl, hp, hrest⟩ := hseg
      obtain ⟨e, he⟩ := Option.ne_none_iff_exists'.mp (hlive p (by simp))
      cases fuel with
      | zero => exact absurd hfuel (by simp)
      | succ fuel =>
          rw [chainFind, if_neg hp, he]
          dsimp only
          by_cases hkey : e.key = key
          · have hfound : s.hasKey key p = true := by simp [Cache.hasKey, he, hkey]
            rw [if_pos hkey, List.find?_cons_of_pos hfound]
            rfl
          · have hnot : ¬ s.hasKey key p = true := by simp [Cache.hasKey, he, hkey]
            rw [if_neg hkey, List.find?_cons_of_neg hnot,
              ih hrest (fun b hb => hlive b (by simp [hb])) (by simpa using hfuel)]

theorem chainUnlink_eq {c : List Nat} : ∀ {p fuel : Nat}, Seg s.next p (p :: c) 0 →
    (∀ b ∈ p :: c, s.entry b ≠ none) → c.length < fuel →
      ∃ N, chainUnlink s a fuel p = some { s with next := N } ∧
        (N = s.next ∨ ∃ b ∈ p :: c, s.next b = a ∧ N = Function.update s.next b (s.next a)) := by
  induction c with
  | nil =>
      intro p fuel hseg hlive hfuel
      obtain ⟨-, -, hend⟩ := hseg
      cases fuel with
      | zero => exact absurd hfuel (by simp)
      | succ fuel =>
          have hp := live_iff.mpr (hlive p (by simp))
          have hzero : s.next p = 0 := hend
          refine ⟨s.next, ?_, .inl rfl⟩
          rw [chainUnlink, if_neg (by simp [hp]), if_pos hzero]
  | cons b rest ih =>
      intro p fuel hseg hlive hfuel
      obtain ⟨-, -, hnext, hb, hrest⟩ := hseg
      cases fuel with
      | zero => exact absurd hfuel (by simp)
      | succ fuel =>
          have hp := live_iff.mpr (hlive p (by simp))
          rw [chainUnlink, if_neg (by simp [hp]), hnext, if_neg hb]
          by_cases hba : b = a
          · rw [if_pos hba]
            exact ⟨_, rfl, .inr ⟨p, by simp, hnext.trans hba, rfl⟩⟩
          · rw [if_neg hba]
            obtain ⟨N, hrun, hN⟩ := ih (p := b) ⟨rfl, hb, hrest⟩
              (fun c hc => hlive c (List.mem_cons_of_mem p hc)) (by simpa using hfuel)
            refine ⟨N, hrun, hN.imp_right ?_⟩
            rintro ⟨c, hc, hca, hNc⟩
            exact ⟨c, List.mem_cons_of_mem p hc, hca, hNc⟩

theorem ListOk.find (h : ListOk s l) {key : CacheKey} (hfresh : SlotFresh s (s.slot key)) :
    ∃ c, (∀ b ∈ c, b ∈ l) ∧ Seg s.next (s.table (s.slot key)) c 0 ∧
      cacheFindEntry s key = some ((c.find? (s.hasKey key)).getD 0) := by
  obtain ⟨c, hsub, hseg, hlen⟩ := h.chain (h.slot_lt key) hfresh
  have hlive : ∀ b ∈ c, s.entry b ≠ none := fun b hb => h.live b (hsub.subset hb)
  exact ⟨c, fun b hb => hsub.subset hb, hseg, chainFind_eq hseg hlive hlen⟩

/-- What is found is an entry of the list with the key, or nothing. -/
theorem ListOk.found (h : ListOk s l) {key : CacheKey} (hfresh : SlotFresh s (s.slot key)) :
    cacheFindEntry s key = some 0 ∨
      ∃ a e, cacheFindEntry s key = some a ∧ a ∈ l ∧ s.entry a = some e ∧ e.key = key := by
  obtain ⟨c, hsub, -, hfind⟩ := h.find hfresh
  cases hc : c.find? (s.hasKey key) with
  | none =>
      rw [hc] at hfind
      exact .inl hfind
  | some a =>
      rw [hc] at hfind
      have hmem := hsub a (List.mem_of_find?_eq_some hc)
      have hkey := List.find?_some hc
      obtain ⟨e, he⟩ := Option.ne_none_iff_exists'.mp (h.live a hmem)
      refine .inr ⟨a, e, hfind, hmem, he, ?_⟩
      simpa [Cache.hasKey, he] using hkey

/-! ### The LRU list -/

theorem erase_split {l₁ l₂ : List Nat} (hnd : (l₁ ++ a :: l₂).Nodup) :
    (l₁ ++ a :: l₂).erase a = l₁ ++ l₂ := by
  have hnot : a ∉ l₁ := fun hmem => (List.nodup_append.mp hnd).2.2 a hmem a (by simp) rfl
  rw [List.erase_append_right _ hnot, List.erase_cons_head]

/-- Taking an entry out, also if the link of its predecessor already leads past it. -/
theorem removeFromLru_eq {next : Nat → Nat} (h : Linked next s.prev s.lruHead s.lruTail l)
    (hlive : ∀ b ∈ l, s.entry b ≠ none) (ha : a ∈ l)
    (hnext : s.next = next ∨ s.prev a ≠ 0 ∧ s.next = Function.update next (s.prev a) (next a)) :
    ∃ N P H T, cacheRemoveFromLru s a =
        some { s with next := N, prev := P, lruHead := H, lruTail := T } ∧
      Linked N P H T (l.erase a) := by
  obtain ⟨l₁, l₂, rfl⟩ := List.append_of_mem ha
  have hnd := h.nodup
  have hprev := h.prev_eq
  have hfollow := h.next_eq
  have hout := h.unlink
  rw [erase_split hnd]
  have hnot : a ∉ l₁ ++ l₂ := by
    have := (List.nodup_middle.mp hnd)
    exact (List.nodup_cons.mp this).1
  have hprevmem : s.prev a ≠ 0 → s.prev a ∈ l₁ := by
    intro hne
    rw [hprev] at hne ⊢
    rcases List.eq_nil_or_concat' l₁ with rfl | ⟨init, c, rfl⟩
    · exact absurd rfl hne
    · rw [lastNode_concat]
      simp
  have hnextmem : next a ≠ 0 → next a ∈ l₂ := by
    intro hne
    rw [hfollow] at hne ⊢
    cases l₂ with
    | nil => exact absurd rfl hne
    | cons c rest => simp
  -- The stores in the neighbours do not touch the entry itself.
  have hsame : s.next a = next a := by
    rcases hnext with heq | ⟨hne, heq⟩
    · rw [heq]
    · rw [heq]
      refine Function.update_of_ne ?_ _ _
      intro hself
      exact hnot (List.mem_append_left l₂ (hself ▸ hprevmem hne))
  have hclear : ∀ N P, Linked N P (if s.prev a = 0 then next a else s.lruHead)
      (if next a = 0 then s.prev a else s.lruTail) (l₁ ++ l₂) →
      Linked (Function.update N a 0) (Function.update P a 0)
        (if s.prev a = 0 then next a else s.lruHead)
        (if next a = 0 then s.prev a else s.lruTail) (l₁ ++ l₂) := by
    intro N P hlinked
    have hne : ∀ b ∈ l₁ ++ l₂, b ≠ a := by
      rintro b hb rfl
      exact hnot hb
    exact hlinked.congr (fun b hb => Function.update_of_ne (hne b hb) _ _)
      fun b hb => Function.update_of_ne (hne b hb) _ _
  refine ⟨_, _, _, _, ?_, hclear _ _ hout⟩
  have hfirst : (if s.prev a = 0 then some { s with lruHead := s.next a }
      else s.setNext (s.prev a) (s.next a)) =
        some { s with
          next := if s.prev a = 0 then next else Function.update next (s.prev a) (next a)
          lruHead := if s.prev a = 0 then next a else s.lruHead } := by
    rw [hsame]
    by_cases hp : s.prev a = 0
    · have hkeep : s.next = next := hnext.resolve_right fun h => h.1 hp
      simp only [hp, hkeep, if_true]
    · have hlivep : s.live (s.prev a) = true := live_iff.mpr (hlive _ (by simp [hprevmem hp]))
      have hstore : Function.update s.next (s.prev a) (next a) =
          Function.update next (s.prev a) (next a) := by
        rcases hnext with heq | ⟨-, heq⟩
        · rw [heq]
        · rw [heq, Function.update_idem]
      simp only [hp, Cache.setNext, hlivep, hstore, if_true, if_false]
  have hself : (if s.prev a = 0 then next else Function.update next (s.prev a) (next a)) a =
      next a := by
    split_ifs with hp
    · rfl
    · refine Function.update_of_ne ?_ _ _
      intro he
      exact hnot (List.mem_append_left l₂ (he ▸ hprevmem hp))
  unfold cacheRemoveFromLru
  rw [hfirst, Option.bind_some]
  simp only [hself]
  by_cases hn : next a = 0
  · simp only [hn, if_true, Option.map_some]
  · have hliven : (s.entry (next a)).isSome = true :=
      live_iff.mpr (hlive _ (by simp [hnextmem hn]))
    simp only [hn, Cache.setPrev, Cache.live, hliven, if_true, if_false, Option.map_some]

theorem addToLru_eq (h : Linked s.next s.prev s.lruHead s.lruTail l)
    (hlive : ∀ b ∈ l, s.entry b ≠ none) (ha : a ≠ 0) (hnot : a ∉ l) :
    ∃ N P H T, cacheAddToLru s a =
        some { s with next := N, prev := P, lruHead := H, lruTail := T } ∧
      Linked N P H T (a :: l) := by
  refine ⟨_, _, _, _, ?_, h.push ha hnot⟩
  unfold cacheAddToLru
  dsimp only
  by_cases hhead : s.lruHead = 0
  · simp only [hhead, if_true, Option.map_some]
  · have hfirst : s.lruHead ∈ l := by
      have heq := h.head_eq
      cases l with
      | nil => exact absurd heq hhead
      | cons c rest =>
          rw [heq]
          simp
    have hlivehead : (s.entry s.lruHead).isSome = true := live_iff.mpr (hlive _ hfirst)
    simp only [hhead, Cache.setPrev, Cache.live, hlivehead, if_true, if_false, Option.map_some]

/-! ### Removal -/

/-- An entry left the cache: its slot, if it led to the entry, leads past it. -/
structure Removed (s : Cache) (a : Nat) (e : CacheEntry) (s' : Cache) : Prop where
  setup : s'.setup = s.setup
  entry : s'.entry = Function.update s.entry a none
  table : s'.table = if s.table (s.slot e.key) = a then
    Function.update s.table (s.slot e.key) (s.next a) else s.table

theorem unhash_eq (h : ListOk s l) (ha : a ∈ l) {e : CacheEntry}
    (hfresh : SlotFresh s (s.slot e.key)) :
    ∃ N, cacheUnhash s a e =
        some { s with
          table := if s.table (s.slot e.key) = a then
            Function.update s.table (s.slot e.key) (s.next a) else s.table
          next := N } ∧
      (N = s.next ∨ s.prev a ≠ 0 ∧ N = Function.update s.next (s.prev a) (s.next a)) := by
  have hzero := h.linked.ne_zero a ha
  unfold cacheUnhash
  show ∃ N, (if s.table (s.slot e.key) = 0 then some s
    else if s.table (s.slot e.key) = a then
      some { s with table := Function.update s.table (s.slot e.key) (s.next a) }
    else chainUnlink s a s.fuel (s.table (s.slot e.key))) = _ ∧ _
  by_cases hempty : s.table (s.slot e.key) = 0
  · rw [if_pos hempty, if_neg (by rw [hempty]; exact hzero.symm)]
    exact ⟨s.next, rfl, .inl rfl⟩
  rw [if_neg hempty]
  by_cases hfirst : s.table (s.slot e.key) = a
  · rw [if_pos hfirst, if_pos hfirst]
    exact ⟨s.next, rfl, .inl rfl⟩
  rw [if_neg hfirst, if_neg hfirst]
  obtain ⟨c, hsub, hseg, hlen⟩ := h.chain (h.slot_lt e.key) hfresh
  cases c with
  | nil => exact absurd hseg hempty
  | cons first rest =>
  obtain rfl : s.table (s.slot e.key) = first := hseg.1
  obtain ⟨N, hrun, hN⟩ := chainUnlink_eq (a := a) hseg
    (fun b hb => h.live b (hsub.subset hb)) hlen
  refine ⟨N, hrun, hN.imp_right ?_⟩
  rintro ⟨b, hb, hba, rfl⟩
  obtain ⟨-, hprev⟩ := h.linked.prev_of_next (hsub.subset hb) hba hzero
  rw [hprev]
  exact ⟨h.linked.ne_zero b (hsub.subset hb), rfl⟩

theorem sizes_erase (ha : a ∈ l) : s.sizes l = s.sizeAt a + s.sizes (l.erase a) := by
  unfold Cache.sizes
  rw [((List.perm_cons_erase ha).map s.sizeAt).sum_eq, List.map_cons, List.sum_cons]

theorem sizes_congr {s' : Cache} (h : ∀ b ∈ l, s'.entry b = s.entry b) : s'.sizes l = s.sizes l := by
  unfold Cache.sizes
  refine congrArg List.sum (List.map_congr_left fun b hb => ?_)
  unfold Cache.sizeAt
  rw [h b hb]

theorem ofNat_add_sub (x y : Nat) :
    BitVec.ofNat 64 (x + y) - BitVec.ofNat 64 x = BitVec.ofNat 64 y := by
  rw [BitVec.ofNat_add, BitVec.add_comm, BitVec.add_sub_cancel]

/-- A node that follows another one is in the list. -/
theorem next_mem (h : ListOk s l) (ha : a ∈ l) (hnext : s.next a ≠ 0) :
    s.next a ∈ l.erase a := by
  obtain ⟨l₁, l₂, rfl⟩ := List.append_of_mem ha
  rw [erase_split h.linked.nodup]
  have hfollow := h.linked.next_eq
  rw [hfollow] at hnext ⊢
  cases l₂ with
  | nil => exact absurd rfl hnext
  | cons c rest => simp

theorem Removed.entry_of_ne {e : CacheEntry} {s' : Cache} (hrem : Removed s a e s') {b : Nat}
    (hb : b ≠ a) : s'.entry b = s.entry b := by
  rw [hrem.entry, Function.update_of_ne hb]

/-- What the slots lead to when an entry is gone. -/
theorem Removed.table_cases {e : CacheEntry} {s' : Cache} (hrem : Removed s a e s') (i : Nat) :
    s'.table i = s.table i ∨ s.table i = a ∧ s'.table i = s.next a := by
  rw [hrem.table]
  split_ifs with hfirst
  · by_cases hi : i = s.slot e.key
    · rw [hi, Function.update_self]
      exact .inr ⟨hfirst, rfl⟩
    · rw [Function.update_of_ne hi]
      exact .inl rfl
  · exact .inl rfl

theorem ListOk.of_removed (h : ListOk s l) (ha : a ∈ l) {e : CacheEntry} (he : s.entry a = some e)
    {s' : Cache} (hrem : Removed s a e s')
    (hlinked : Linked s'.next s'.prev s'.lruHead s'.lruTail (l.erase a))
    (hsize : s'.sizeCurrent = s.sizeCurrent - BitVec.ofNat 64 e.size)
    (hcount : s'.entriesCurrent = s.entriesCurrent - 1) : ListOk s' (l.erase a) := by
  have hne : ∀ b ∈ l.erase a, b ≠ a := fun b hb => (h.linked.nodup.mem_erase_iff.mp hb).1
  have hsame : ∀ b ∈ l.erase a, s'.entry b = s.entry b := fun b hb => hrem.entry_of_ne (hne b hb)
  have hzero : s'.entry 0 = none := by
    rw [hrem.entry_of_ne (h.linked.ne_zero a ha).symm]
    exact h.zero
  refine ⟨hlinked, fun b hb => ?_, hzero, fun i hi hlive => ?_, ?_, ?_, ?_, ?_, ?_⟩
  · rw [hsame b hb]
    exact h.live b (List.mem_of_mem_erase hb)
  · rw [hrem.setup] at hi
    have hnot : s'.table i ≠ a := by
      intro heq
      rw [heq, hrem.entry, Function.update_self] at hlive
      exact hlive rfl
    rcases hrem.table_cases i with heq | ⟨hfirst, hnext⟩
    · rw [heq] at hlive hnot ⊢
      rw [hrem.entry_of_ne hnot] at hlive
      exact h.linked.nodup.mem_erase_iff.mpr ⟨hnot, h.slots i hi hlive⟩
    · rw [hnext] at hlive ⊢
      refine next_mem h ha fun hend => ?_
      rw [hend] at hlive
      exact hlive hzero
  · have hat : s.sizeAt a = e.size := by simp [Cache.sizeAt, he]
    rw [hsize, h.size, sizes_erase ha, hat, ofNat_add_sub, sizes_congr hsame]
  · have hlen := List.length_erase_of_mem ha
    have hpos := List.length_pos_of_mem ha
    have hsplit : l.length = 1 + (l.erase a).length := by omega
    rw [hcount, h.count, hsplit]
    exact ofNat_add_sub 1 _
  · rw [hrem.setup]
    exact (List.length_erase_le ..).trans h.room
  · rw [hrem.setup]
    exact h.bound
  · rw [hrem.setup]
    exact h.slotted

/-- **Taking an entry out** of the cache, if its slot leads to no freed entry. -/
theorem ListOk.removeEntry (h : ListOk s l) (ha : a ∈ l) {e : CacheEntry} (he : s.entry a = some e)
    (hfresh : SlotFresh s (s.slot e.key)) :
    ∃ s', cacheRemoveEntry s a = some s' ∧ ListOk s' (l.erase a) ∧ Removed s a e s' := by
  obtain ⟨N, hunhash, hN⟩ := unhash_eq h ha hfresh
  obtain ⟨T, hT⟩ : ∃ T, T = if s.table (s.slot e.key) = a then
      Function.update s.table (s.slot e.key) (s.next a) else s.table := ⟨_, rfl⟩
  rw [← hT] at hunhash
  obtain ⟨N', P, H, L, hlru, hlinked⟩ :=
    removeFromLru_eq (s := { s with table := T, next := N }) h.linked h.live ha hN
  have hrun : cacheRemoveEntry s a = some
      { s with
        table := T, next := N', prev := P, lruHead := H, lruTail := L
        sizeCurrent := s.sizeCurrent - BitVec.ofNat 64 e.size
        entriesCurrent := s.entriesCurrent - 1
        entry := Function.update s.entry a none } := by
    unfold cacheRemoveEntry
    rw [he]
    dsimp only
    rw [hunhash, Option.bind_some, hlru, Option.map_some]
  exact ⟨_, hrun, h.of_removed ha he ⟨rfl, rfl, hT⟩ hlinked rfl rfl, rfl, rfl, hT⟩

/-! ### Moving to the front -/

/-- A state whose entries and slots are those of another one, that of `a` apart. -/
structure Fronted (s : Cache) (a : Nat) (s' : Cache) : Prop where
  setup : s'.setup = s.setup
  table : s'.table = s.table
  entry : ∀ b, b ≠ a → s'.entry b = s.entry b

/-- **Moving an entry to the front**, with other data or the same. -/
theorem ListOk.front (h : ListOk s l) (ha : a ∈ l) {e : CacheEntry} (he : s.entry a = some e)
    (e' : CacheEntry) :
    ∃ N P H T, cacheRemoveFromLru s a =
        some { s with next := N, prev := P, lruHead := H, lruTail := T } ∧
      ∃ s', cacheAddToLru
          { s with
            next := N, prev := P, lruHead := H, lruTail := T
            entry := Function.update s.entry a (some e')
            sizeCurrent := s.sizeCurrent - BitVec.ofNat 64 e.size + BitVec.ofNat 64 e'.size } a =
          some s' ∧
        ListOk s' (a :: l.erase a) ∧ Fronted s a s' ∧ s'.entry a = some e' := by
  obtain ⟨N, P, H, T, hrun, hlinked⟩ := removeFromLru_eq h.linked h.live ha (.inl rfl)
  refine ⟨N, P, H, T, hrun, ?_⟩
  have hnot : a ∉ l.erase a := fun hmem => (h.linked.nodup.mem_erase_iff.mp hmem).1 rfl
  have hzero := h.linked.ne_zero a ha
  have hsame : ∀ b, b ≠ a → Function.update s.entry a (some e') b = s.entry b :=
    fun b hb => Function.update_of_ne hb _ _
  have hkeep : ∀ b ∈ l.erase a, Function.update s.entry a (some e') b = s.entry b :=
    fun b hb => hsame b (h.linked.nodup.mem_erase_iff.mp hb).1
  have hlive : ∀ b ∈ l, Function.update s.entry a (some e') b ≠ none := by
    intro b hb
    by_cases hba : b = a
    · rw [hba, Function.update_self]
      simp
    · rw [hsame b hba]
      exact h.live b hb
  obtain ⟨N', P', H', T', hadd, hlinked'⟩ := addToLru_eq
    (s := { s with
      next := N, prev := P, lruHead := H, lruTail := T
      entry := Function.update s.entry a (some e')
      sizeCurrent := s.sizeCurrent - BitVec.ofNat 64 e.size + BitVec.ofNat 64 e'.size })
    hlinked (fun b hb => hlive b (List.mem_of_mem_erase hb)) hzero hnot
  have hperm := (List.perm_cons_erase ha).symm
  refine ⟨_, hadd, ⟨hlinked', fun b hb => hlive b (hperm.mem_iff.mp hb), ?_, fun i hi hin => ?_,
    ?_, ?_, ?_, h.bound, h.slotted⟩, ⟨rfl, rfl, hsame⟩, Function.update_self ..⟩
  · exact (hsame 0 hzero.symm).trans h.zero
  · refine hperm.mem_iff.mpr (h.slots i hi ?_)
    have hin : Function.update s.entry a (some e') (s.table i) ≠ none := hin
    by_cases hia : s.table i = a
    · rw [hia]
      exact h.live a ha
    · rwa [hsame _ hia] at hin
  · have hat : s.sizeAt a = e.size := by simp [Cache.sizeAt, he]
    show s.sizeCurrent - BitVec.ofNat 64 e.size + BitVec.ofNat 64 e'.size = _
    rw [h.size, sizes_erase ha, hat, ofNat_add_sub, sizes_erase (List.mem_cons_self ..),
      List.erase_cons_head, BitVec.add_comm, ← BitVec.ofNat_add]
    congr 2
    · simp [Cache.sizeAt, Function.update_self]
    · exact (sizes_congr hkeep).symm
  · rw [hperm.length_eq]
    exact h.count
  · rw [hperm.length_eq]
    exact h.room

/-- A hit that is not expired. -/
theorem ListOk.touch (h : ListOk s l) (ha : a ∈ l) {e : CacheEntry} (he : s.entry a = some e) :
    ∃ s₁ s', cacheRemoveFromLru s a = some s₁ ∧ cacheAddToLru s₁ a = some s' ∧
      ListOk s' (a :: l.erase a) ∧ Fronted s a s' ∧ s'.entry a = some e := by
  obtain ⟨N, P, H, T, hout, s', hin, hok, hfront, he'⟩ := h.front ha he e
  refine ⟨_, s', hout, ?_, hok, hfront, he'⟩
  rw [← he, Function.update_eq_self, BitVec.sub_add_cancel] at hin
  exact hin

/-- New data for an entry, if there is memory for it or it takes none. -/
theorem ListOk.update (h : ListOk s l) (ha : a ∈ l) {e : CacheEntry} (he : s.entry a = some e)
    {data : List Byte} {room : CacheRoom} (hroom : e.size = data.length ∨ room.data = true) :
    ∃ s', cacheUpdate s a e data room = some (s', 0) ∧ ListOk s' (a :: l.erase a) ∧
      Fronted s a s' ∧ s'.entry a = some { e with data := data } := by
  obtain ⟨N, P, H, T, hout, s', hin, hok, hfront, he'⟩ :=
    h.front ha he { e with data := data }
  refine ⟨s', ?_, hok, hfront, he'⟩
  unfold cacheUpdate
  rw [hout, Option.bind_some]
  dsimp only
  rw [if_neg]
  · exact congrArg (Option.map _) hin
  · rintro ⟨hdiff, hno⟩
    rcases hroom with hsame | hyes
    · exact hdiff hsame
    · rw [hyes] at hno
      exact absurd hno (by decide)

/-! ### Insertion and eviction -/

theorem ListOk.entriesCurrent_toNat (h : ListOk s l) : s.entriesCurrent.toNat = l.length := by
  have hroom := h.room
  have hbound := h.bound
  rw [h.count, BitVec.toNat_ofNat, Nat.mod_eq_of_lt (by omega)]

/-- The block that a new entry is to get is none that is in use. -/
def CacheRoom.Grants (room : CacheRoom) (s : Cache) : Prop :=
  room.entry ≠ 0 ∧ s.live room.entry = false ∧ room.data = true

theorem insert_refused {key : CacheKey} {data : List Byte} {now : Millis} {room : CacheRoom}
    (hroom : ¬ room.Grants s) : cacheInsert s key data now room = some (s, -1) := by
  unfold cacheInsert
  dsimp only
  refine if_pos ?_
  unfold CacheRoom.Grants at hroom
  by_contra hnot
  rw [not_or, not_or, Bool.not_eq_true, Bool.not_eq_false] at hnot
  exact hroom hnot

/-- **A new entry** comes to the front of its slot and of the list. -/
theorem ListOk.insert (h : ListOk s l) (key : CacheKey) {data : List Byte} (now : Millis)
    {room : CacheRoom} (hroom : room.Grants s) (hfits : ¬ s.full data.length) :
    ∃ s', cacheInsert s key data now room = some (s', 0) ∧ ListOk s' (room.entry :: l) ∧
      s'.setup = s.setup ∧ s'.table = Function.update s.table (s.slot key) room.entry ∧
      s'.entry = Function.update s.entry room.entry
        (some { key := key, data := data, createTime := now }) := by
  obtain ⟨hzero, hlive, hdata⟩ := hroom
  obtain ⟨a, ha⟩ : ∃ a, a = room.entry := ⟨_, rfl⟩
  obtain ⟨e, he⟩ : ∃ e : CacheEntry, e = { key := key, data := data, createTime := now } :=
    ⟨_, rfl⟩
  rw [← ha] at hzero hlive
  rw [← ha, ← he]
  have hnone : s.entry a = none := by
    by_contra hsome
    rw [live_iff.mpr hsome] at hlive
    exact absurd hlive (by simp)
  have hnot : a ∉ l := fun hmem => h.live a hmem hnone
  have hsame : ∀ b, b ≠ a → Function.update s.entry a (some e) b = s.entry b :=
    fun b hb => Function.update_of_ne hb _ _
  have hne : ∀ b ∈ l, b ≠ a := by
    rintro b hb rfl
    exact hnot hb
  have hlives : ∀ b ∈ a :: l, Function.update s.entry a (some e) b ≠ none := by
    intro b hb
    rcases List.mem_cons.mp hb with rfl | hb
    · rw [Function.update_self]
      simp
    · rw [hsame b (hne b hb)]
      exact h.live b hb
  have hlinked : Linked (Function.update s.next a (s.table (s.slot key))) s.prev s.lruHead
      s.lruTail l :=
    h.linked.congr (fun b hb => Function.update_of_ne (hne b hb) _ _) fun _ _ => rfl
  obtain ⟨N, P, H, T, hadd, hlinked'⟩ := addToLru_eq
    (s := { s with
      entry := Function.update s.entry a (some e)
      next := Function.update s.next a (s.table (s.slot key))
      table := Function.update s.table (s.slot key) a })
    hlinked (fun b hb => hlives b (List.mem_cons_of_mem a hb)) hzero hnot
  have hrun : cacheInsert s key data now room = some
      ({ s with
        entry := Function.update s.entry a (some e)
        table := Function.update s.table (s.slot key) a
        next := N, prev := P, lruHead := H, lruTail := T
        entriesCurrent := s.entriesCurrent + 1
        sizeCurrent := s.sizeCurrent + BitVec.ofNat 64 data.length }, 0) := by
    unfold cacheInsert
    rw [← ha, ← he]
    dsimp only
    rw [if_neg (by simp [hzero, hlive, hdata])]
    exact congrArg (Option.map _) hadd
  refine ⟨_, hrun, ⟨hlinked', hlives, ?_, fun i hi hin => ?_, ?_, ?_, ?_, h.bound, h.slotted⟩,
    rfl, rfl, rfl⟩
  · exact (hsame 0 hzero.symm).trans h.zero
  · have hin : Function.update s.entry a (some e)
        (Function.update s.table (s.slot key) a i) ≠ none := hin
    show Function.update s.table (s.slot key) a i ∈ a :: l
    by_cases hslot : i = s.slot key
    · rw [hslot, Function.update_self]
      exact List.mem_cons_self ..
    · rw [Function.update_of_ne hslot] at hin ⊢
      by_cases hia : s.table i = a
      · rw [hia]
        exact List.mem_cons_self ..
      · rw [hsame _ hia] at hin
        exact List.mem_cons_of_mem a (h.slots i hi hin)
  · show s.sizeCurrent + BitVec.ofNat 64 data.length = _
    rw [h.size, sizes_erase (List.mem_cons_self ..), List.erase_cons_head, BitVec.add_comm,
      ← BitVec.ofNat_add]
    congr 2
    · simp [Cache.sizeAt, Function.update_self, he, CacheEntry.size]
    · exact (sizes_congr fun b hb => hsame b (hne b hb)).symm
  · show s.entriesCurrent + 1 = _
    rw [h.count, List.length_cons, BitVec.ofNat_add]
    rfl
  · have hcount := h.entriesCurrent_toNat
    have hmax : ¬ s.setup.entriesMax ≤ s.entriesCurrent.toNat := fun hle => hfits (.inl hle)
    show l.length + 1 ≤ s.setup.entriesMax
    omega

theorem ListOk.tail_mem (h : ListOk s l) (htail : s.lruTail ≠ 0) :
    s.lruTail ∈ l ∧ l.erase s.lruTail = l.dropLast := by
  have heq := h.linked.tail_eq
  have hnd := h.linked.nodup
  rcases List.eq_nil_or_concat' l with rfl | ⟨init, t, rfl⟩
  · exact absurd heq htail
  · rw [lastNode_concat] at heq
    rw [heq]
    refine ⟨by simp, ?_⟩
    rw [erase_split hnd, List.append_nil, List.dropLast_concat]

theorem ListOk.nil_of_tail (h : ListOk s l) (htail : s.lruTail = 0) : l = [] := by
  have heq := h.linked.tail_eq
  rw [htail] at heq
  exact h.linked.forward.lastNode_eq_zero.mp heq.symm

/-- **Eviction** takes out the last entry of the list, if there is one. -/
theorem ListOk.evict (h : ListOk s l)
    (hfresh : ∀ e, s.entry s.lruTail = some e → SlotFresh s (s.slot e.key)) :
    l = [] ∧ cacheEvictLru s = some s ∨
      ∃ e s', s.lruTail ∈ l ∧ s.entry s.lruTail = some e ∧ cacheEvictLru s = some s' ∧
        ListOk s' (l.erase s.lruTail) ∧ Removed s s.lruTail e s' := by
  by_cases htail : s.lruTail = 0
  · exact .inl ⟨h.nil_of_tail htail, if_pos htail⟩
  · obtain ⟨hmem, -⟩ := h.tail_mem htail
    obtain ⟨e, he⟩ := Option.ne_none_iff_exists'.mp (h.live _ hmem)
    obtain ⟨s', hrun, hok, hrem⟩ := h.removeEntry hmem he (hfresh e he)
    exact .inr ⟨e, s', hmem, he, by rw [cacheEvictLru, if_neg htail, hrun], hok, hrem⟩

/-! ### Clearing -/

/-- All slots but one are empty, and that one leads to no freed entry. -/
def OneSlot (s : Cache) : Prop :=
  ∃ i, (∀ j, j < s.setup.tableSize → j ≠ i → s.table j = 0) ∧ SlotFresh s i

theorem freeChain_zero (fuel : Nat) : freeChain s fuel 0 = some s := by
  cases fuel with
  | zero => rfl
  | succ fuel => rw [freeChain, if_pos rfl]

/-- The entries of a chain are all freed, once each. -/
theorem freeChain_eq {c : List Nat} : ∀ {E : Nat → Option CacheEntry} {p fuel : Nat},
    Seg s.next p c 0 → c.Nodup → (∀ b ∈ c, E b ≠ none) → c.length ≤ fuel →
      ∃ E', freeChain { s with entry := E } fuel p = some { s with entry := E' } ∧
        ∀ b, E' b = none ∨ E' b = E b := by
  induction c with
  | nil =>
      intro E p fuel hseg _ _ _
      obtain rfl : p = 0 := hseg
      exact ⟨E, freeChain_zero fuel, fun b => .inr rfl⟩
  | cons a rest ih =>
      intro E p fuel hseg hnd hlive hfuel
      obtain ⟨rfl, hp, hrest⟩ := hseg
      obtain ⟨hnot, hnd'⟩ := List.nodup_cons.mp hnd
      cases fuel with
      | zero => exact absurd hfuel (by simp)
      | succ fuel =>
          have hlive' : ∀ b ∈ rest, Function.update E p none b ≠ none := by
            intro b hb
            have hbp : b ≠ p := by
              rintro rfl
              exact hnot hb
            rw [Function.update_of_ne hbp]
            exact hlive b (List.mem_cons_of_mem p hb)
          obtain ⟨E', hrun, hE'⟩ := ih hrest hnd' hlive' (by simpa using hfuel)
          have hp' : (E p).isSome = true := Option.isSome_iff_ne_none.mpr (hlive p (by simp))
          refine ⟨E', ?_, fun b => ?_⟩
          · rw [freeChain, if_neg hp]
            simp only [Cache.live, hp', if_true]
            exact hrun
          · rcases hE' b with hb | hb
            · exact .inl hb
            · by_cases hbp : b = p
              · rw [hbp, Function.update_self] at hb
                rw [hbp]
                exact .inl hb
              · rw [Function.update_of_ne hbp] at hb
                exact .inr hb

theorem clearSlots_eq (h : ListOk s l) {i : Nat}
    (hempty : ∀ j, j < s.setup.tableSize → j ≠ i → s.table j = 0) (hfresh : SlotFresh s i) :
    ∀ n, n ≤ s.setup.tableSize → ∃ T E, clearSlots s n = some { s with table := T, entry := E } ∧
      (∀ j, T j = if j < n then 0 else s.table j) ∧ (∀ b, E b = none ∨ E b = s.entry b) ∧
      (n ≤ i → E = s.entry) := by
  intro n
  induction n with
  | zero => exact fun _ => ⟨s.table, s.entry, rfl, fun j => by simp, fun b => .inr rfl, fun _ => rfl⟩
  | succ n ih =>
      intro hn
      obtain ⟨T, E, hrun, hT, hE, hbefore⟩ := ih (by omega)
      have hslot : T n = s.table n := by
        rw [hT, if_neg (by omega)]
      have hT' : ∀ j, Function.update T n 0 j = if j < n + 1 then 0 else s.table j := by
        intro j
        by_cases hj : j = n
        · rw [hj, Function.update_self, if_pos (by omega)]
        · rw [Function.update_of_ne hj, hT]
          exact if_congr (by omega) rfl rfl
      by_cases hni : n = i
      · obtain ⟨c, hseg, hnd, hlive, hlen⟩ : ∃ c, Seg s.next (s.table n) c 0 ∧ c.Nodup ∧
            (∀ b ∈ c, E b ≠ none) ∧ c.length ≤ s.fuel := by
          rw [hbefore (by omega)]
          rw [← hni] at hfresh
          obtain ⟨c, hsub, hseg, hlen⟩ := h.chain (by omega) hfresh
          exact ⟨c, hseg, h.linked.nodup.sublist hsub, fun b hb => h.live b (hsub.subset hb), hlen⟩
        obtain ⟨E', hfree, hE'⟩ :=
          freeChain_eq (s := { s with table := T }) hseg hnd hlive hlen
        refine ⟨Function.update T n 0, E', ?_, hT', fun b => ?_, fun hle => by omega⟩
        · rw [clearSlots, hrun, Option.bind_some]
          dsimp only
          rw [hslot]
          exact congrArg (Option.map _) hfree
        · rcases hE' b with hb | hb
          · exact .inl hb
          · rw [hb]
            exact hE b
      · refine ⟨Function.update T n 0, E, ?_, hT', hE, fun hle => hbefore (by omega)⟩
        rw [clearSlots, hrun, Option.bind_some]
        dsimp only
        rw [hslot, hempty n (by omega) hni, freeChain_zero, Option.map_some]

/-- **Clearing** leaves the empty list, if no two chains can meet. -/
theorem ListOk.clear (h : ListOk s l) (hone : OneSlot s) :
    ∃ s', cacheClear s = some s' ∧ ListOk s' [] ∧ s'.setup = s.setup ∧
      ∀ i, i < s.setup.tableSize → s'.table i = 0 := by
  obtain ⟨i, hempty, hfresh⟩ := hone
  obtain ⟨T, E, hrun, hT, hE, -⟩ := clearSlots_eq h hempty hfresh s.setup.tableSize le_rfl
  have hclear : cacheClear s = some
      { s with
        table := T, entry := E
        lruHead := 0, lruTail := 0, sizeCurrent := 0, entriesCurrent := 0 } := by
    unfold cacheClear
    rw [hrun, Option.map_some]
  have hslots : ∀ j, j < s.setup.tableSize → T j = 0 := fun j hj => by rw [hT, if_pos hj]
  have hzero : E 0 = none := by
    rcases hE 0 with h0 | h0
    · exact h0
    · rw [h0]
      exact h.zero
  refine ⟨_, hclear, ⟨linked_nil, by simp, hzero, fun j hj hin => ?_, rfl, rfl, Nat.zero_le _,
    h.bound, h.slotted⟩, rfl, hslots⟩
  have hin : E (T j) ≠ none := hin
  rw [hslots j hj] at hin
  exact absurd hzero hin

end BrightS
