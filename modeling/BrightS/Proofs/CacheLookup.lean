/-
When the object cache finds what was put.

The hash chain of a slot runs along the LRU list, from the entry that the slot leads to.  So a
lookup finds all entries of its slot as long as the slot leads to the first of them, or to one in
front of them: an entry that moves to the front of the list while its slot leads elsewhere is
lost, and a slot is left behind by the removal of an entry of another key.

What the cache is for is a store that remembers what was used last (`rememberStep`); the calls
that keep its slots right simulate it.
-/
import BrightS.Proofs.CacheLimits
import BrightS.Lib.Lru

namespace BrightS

open Bytes Chains Runs Lru

/-! ### What the cache is for -/

/-- The data of the keys, and the time of their last put. -/
abbrev Remembered := Store CacheKey (List Byte × Millis)

def Remembered.size (t : Remembered) : Nat :=
  (t.order.map fun k => ((t.value k).map fun v => v.1.length).getD 0).sum

/-- The limits, with sizes added in 64 bits. -/
def Remembered.full (setup : CacheSetup) (t : Remembered) (size : Nat) : Prop :=
  setup.entriesMax ≤ t.order.length ∨
    setup.sizeMax < (BitVec.ofNat 64 (Remembered.size t) + BitVec.ofNat 64 size).toNat

instance (setup : CacheSetup) (t : Remembered) (size : Nat) :
    Decidable (Remembered.full setup t size) := inferInstanceAs (Decidable (_ ∨ _))

/-- At most one key is evicted for a new one; `block` and `room` say whether there is memory for an
entry and for its data. -/
def rememberPut (setup : CacheSetup) (block room : Bool) (t : Remembered) (key : CacheKey)
    (data : List Byte) (now : Millis) : Remembered × Int :=
  if data = [] then (t, -1) else
  match t.value key with
  | some v =>
      if v.1.length ≠ data.length ∧ room = false then (t, -1) else (t.use key (data, now), 0)
  | none =>
      let t := if Remembered.full setup t data.length then t.evict else t
      if Remembered.full setup t data.length ∨ block = false ∨ room = false then (t, -1)
      else (t.use key (data, now), 0)

/-- What was put too long ago is not found, and not kept. -/
def rememberGet (setup : CacheSetup) (t : Remembered) (key : CacheKey) (now : Millis) :
    Remembered × Option (List Byte) :=
  match t.value key with
  | none => (t, none)
  | some v =>
      if cacheExpired setup.ttlSeconds v.2 now then (t.remove key, none)
      else (t.use key v, some v.1)

def rememberStep (setup : CacheSetup) (block : Bool) (t : Remembered) :
    CacheCall → Remembered × CacheAnswer
  | .put key data now room =>
      let r := rememberPut setup block room.data t key data now
      (r.1, .status r.2)
  | .get key now =>
      let r := rememberGet setup t key now
      (r.1, .found r.2)
  | .contains key now =>
      (t, .isIn ((t.value key).any fun v => !cacheExpired setup.ttlSeconds v.2 now))
  | .remove key =>
      if t.value key = none then (t, .status (-1)) else (t.remove key, .status 0)
  | .clear => (.empty, .status 0)

/-- `kmalloc` has a block for an entry: the one proposed is not in use, once the entry that is
evicted is gone. -/
def Cache.blockFor (s : Cache) : CacheCall → Bool
  | .put _ data _ room =>
      room.entry != 0 &&
        (!s.live room.entry || (decide (s.full data.length) && room.entry == s.lruTail))
  | _ => true

/-! ### Calls that keep the slots right -/

/-- No slot but that of its key leads to the entry. -/
def Alone (s : Cache) (a : Nat) (key : CacheKey) : Prop :=
  ∀ i, i < s.setup.tableSize → i ≠ s.slot key → s.table i ≠ a

/-- An entry that is used is the first of its slot, one that is taken out is led to by no other
slot; an update has memory; and as long as the entry is there, it has not expired since its last
put unless it has since it was created and the call is a `get`. -/
def LookupSafe (s : Cache) (t : Remembered) : CacheCall → Prop
  | .put key data _ room => data ≠ [] →
      (∀ a e, cacheFindEntry s key = some a → s.entry a = some e →
        s.table (s.slot key) = a ∧ (e.size = data.length ∨ room.data = true)) ∧
      (cacheFindEntry s key = some 0 → s.full data.length →
        ∀ e, s.entry s.lruTail = some e → Alone s s.lruTail e.key)
  | .get key now => ∀ a e v, cacheFindEntry s key = some a → s.entry a = some e →
      t.value key = some v →
        cacheExpired s.setup.ttlSeconds e.createTime now =
            cacheExpired s.setup.ttlSeconds v.2 now ∧
          if cacheExpired s.setup.ttlSeconds e.createTime now then Alone s a key
          else s.table (s.slot key) = a
  | .contains key now => ∀ v, t.value key = some v →
      cacheExpired s.setup.ttlSeconds v.2 now = false
  | .remove key => ∀ a e, cacheFindEntry s key = some a → s.entry a = some e → Alone s a key
  | .clear => OneSlot s

/-! ### The invariant -/

/-- The key of the entry at an address. -/
def Cache.keyAt (s : Cache) (a : Nat) : CacheKey := ((s.entry a).map CacheEntry.key).getD 0

/-- The node `b` is met on the way from `c` to the end. -/
def Follows (l : List Nat) (c b : Nat) : Prop := ∃ l₁ l₂, l = l₁ ++ c :: l₂ ∧ b ∈ c :: l₂

/-- Every slot leads to an entry from which all entries of the slot are met. -/
structure ChainsOk (s : Cache) (l : List Nat) : Prop extends ListOk s l where
  reached : ∀ a ∈ l, Follows l (s.table (s.slot (s.keyAt a))) a
  fresh : ∀ i, i < s.setup.tableSize → SlotFresh s i

/-- The entries are those that are remembered, in this order. -/
structure CacheShows (s : Cache) (l : List Nat) (t : Remembered) : Prop where
  order : t.order = l.map s.keyAt
  value : ∀ a ∈ l, ∀ e, s.entry a = some e → ∃ time, t.value e.key = some (e.data, time)

section Follows

variable {l : List Nat} {a b c : Nat}

theorem follows_head (hb : b ∈ c :: l) : Follows (c :: l) c b := ⟨[], l, rfl, hb⟩

theorem Follows.cons (h : Follows l c b) (a : Nat) : Follows (a :: l) c b := by
  obtain ⟨l₁, l₂, rfl, hb⟩ := h
  exact ⟨a :: l₁, l₂, rfl, hb⟩

theorem Follows.erase (h : Follows l c b) (hc : c ≠ a) (hb : b ≠ a) : Follows (l.erase a) c b := by
  obtain ⟨l₁, l₂, rfl, hmem⟩ := h
  by_cases ha : a ∈ l₁
  · rw [List.erase_append_left _ ha]
    exact ⟨_, l₂, rfl, hmem⟩
  · rw [List.erase_append_right _ ha, List.erase_cons_tail (by simpa using hc)]
    refine ⟨l₁, _, rfl, ?_⟩
    rcases List.mem_cons.mp hmem with rfl | hrest
    · exact List.mem_cons_self ..
    · exact List.mem_cons_of_mem c ((List.mem_erase_of_ne hb).mpr hrest)

end Follows

section Lookup

variable {s s' : Cache} {l : List Nat} {t : Remembered} {a : Nat}

theorem keyAt_eq {e : CacheEntry} (he : s.entry a = some e) : s.keyAt a = e.key := by
  simp [Cache.keyAt, he]

theorem keyAt_congr {b : Nat} (h : s'.entry b = s.entry b) : s'.keyAt b = s.keyAt b := by
  unfold Cache.keyAt
  rw [h]

theorem CacheShows.key_inj (h : CacheShows s l t) {b : Nat} (ha : a ∈ l) (hb : b ∈ l)
    (hkey : s.keyAt a = s.keyAt b) : a = b := by
  have hnd := t.nodup
  rw [h.order] at hnd
  exact List.inj_on_of_nodup_map hnd ha hb hkey

theorem CacheShows.value_ne_none_iff (h : CacheShows s l t) {key : CacheKey} :
    t.value key ≠ none ↔ ∃ a ∈ l, s.keyAt a = key := by
  rw [t.stored, h.order, List.mem_map]

/-- **A lookup** finds the entry of a key that is remembered, and nothing else. -/
theorem ChainsOk.find_cases (h : ChainsOk s l) (hshow : CacheShows s l t) (key : CacheKey) :
    t.value key = none ∧ cacheFindEntry s key = some 0 ∨
      ∃ a e time, a ∈ l ∧ s.entry a = some e ∧ e.key = key ∧ t.value key = some (e.data, time) ∧
        cacheFindEntry s key = some a := by
  have hfresh := h.fresh _ (h.slot_lt key)
  obtain ⟨c, hsub, hseg, hfind⟩ := h.toListOk.find hfresh
  rcases h.toListOk.found hfresh with hnone | ⟨a, e, hsome, ha, he, hkey⟩
  · refine .inl ⟨?_, hnone⟩
    by_contra hvalue
    obtain ⟨a, ha, hkey⟩ := hshow.value_ne_none_iff.mp hvalue
    -- The entry lies on the chain, so the search does not end without a result.
    obtain ⟨l₁, l₂, hl, hmem⟩ := h.reached a ha
    rw [hkey] at hl hmem
    have hchain : Seg s.next (s.table (s.slot key)) (s.table (s.slot key) :: l₂) 0 := by
      have hforward := h.linked.forward
      rw [hl] at hforward
      obtain ⟨m, -, rfl, hm, hback⟩ := seg_append.mp hforward
      exact ⟨rfl, hm, hback⟩
    rw [← hseg.unique hchain] at hmem
    have hhas : s.hasKey key a = true := by
      obtain ⟨e, he⟩ := Option.ne_none_iff_exists'.mp (h.live a ha)
      rw [keyAt_eq he] at hkey
      simp [Cache.hasKey, he, hkey]
    rw [hfind] at hnone
    cases hc : c.find? (s.hasKey key) with
    | none => exact List.find?_eq_none.mp hc a hmem hhas
    | some b =>
        rw [hc] at hnone
        exact h.linked.ne_zero b (hsub b (List.mem_of_find?_eq_some hc)) (Option.some.inj hnone)
  · obtain ⟨time, htime⟩ := hshow.value a ha e he
    rw [hkey] at htime
    exact .inr ⟨a, e, time, ha, he, hkey, htime, hsome⟩

/-! ### Taking an entry out -/

theorem ChainsOk.of_removed (h : ChainsOk s l) (ha : a ∈ l) {e : CacheEntry}
    (halone : Alone s a e.key) (hok : ListOk s' (l.erase a))
    (hrem : Removed s a e s') : ChainsOk s' (l.erase a) := by
  have hslot : ∀ key, s'.slot key = s.slot key := fun key => by rw [Cache.slot, hrem.setup]; rfl
  -- A slot leads on as before, that of the entry past it.
  have htable : ∀ i, i < s.setup.tableSize →
      s.table i ≠ a ∧ s'.table i = s.table i ∨ s.table i = a ∧ s'.table i = s.next a := by
    intro i hi
    rcases hrem.table_cases i with hsame | hnext
    · by_cases hia : s.table i = a
      · have hi' : i = s.slot e.key := by
          by_contra hne
          exact halone i hi hne hia
        right
        rw [hrem.table, ← hi', if_pos hia, Function.update_self]
        exact ⟨hia, rfl⟩
      · exact .inl ⟨hia, hsame⟩
    · exact .inr hnext
  refine ⟨hok, fun b hb => ?_, fun i hi => ?_⟩
  · obtain ⟨hba, hbl⟩ := h.linked.nodup.mem_erase_iff.mp hb
    rw [hslot, keyAt_congr (hrem.entry_of_ne hba)]
    have hreach := h.reached b hbl
    rcases htable _ (h.slot_lt (s.keyAt b)) with ⟨hne, hsame⟩ | ⟨hfirst, hnext⟩
    · rw [hsame]
      exact hreach.erase hne hba
    · rw [hfirst] at hreach
      obtain ⟨l₁, l₂, rfl, hmem⟩ := hreach
      have hmem' := (List.mem_cons.mp hmem).resolve_left hba
      rw [hnext, h.linked.next_eq, erase_split h.linked.nodup]
      cases l₂ with
      | nil => exact absurd hmem' (by simp)
      | cons c rest => exact ⟨l₁, rest, rfl, hmem'⟩
  · rw [hrem.setup] at hi
    have hlives : ∀ b ∈ l.erase a, s'.live b = true := fun b hb => live_iff.mpr (hok.live b hb)
    rcases htable i hi with ⟨hne, hsame⟩ | ⟨-, hnext⟩
    · unfold SlotFresh
      rw [hsame]
      refine ((h.fresh i hi).mem h.toListOk hi).imp_right fun hmem => hlives _ ?_
      exact h.linked.nodup.mem_erase_iff.mpr ⟨hne, hmem⟩
    · unfold SlotFresh
      rw [hnext]
      by_cases hend : s.next a = 0
      · exact .inl hend
      · exact .inr (hlives _ (next_mem h.toListOk ha hend))

theorem map_erase_of_inj {f : Nat → CacheKey} (ha : a ∈ l)
    (hinj : ∀ b ∈ l, f b = f a → b = a) : (l.map f).erase (f a) = (l.erase a).map f := by
  induction l with
  | nil => exact absurd ha (by simp)
  | cons b rest ih =>
      by_cases hba : b = a
      · rw [hba, List.map_cons, List.erase_cons_head, List.erase_cons_head]
      · have hne : f b ≠ f a := fun heq => hba (hinj b (by simp) heq)
        have hmem := (List.mem_cons.mp ha).resolve_left (Ne.symm hba)
        rw [List.map_cons, List.erase_cons_tail (by simpa using hne),
          List.erase_cons_tail (by simpa using hba), List.map_cons,
          ih hmem fun c hc => hinj c (by simp [hc])]

theorem CacheShows.erase_order (h : CacheShows s l t) (ha : a ∈ l)
    (hsame : ∀ b ∈ l.erase a, s'.entry b = s.entry b) :
    t.order.erase (s.keyAt a) = (l.erase a).map s'.keyAt := by
  rw [h.order, map_erase_of_inj ha fun b hb heq => h.key_inj hb ha heq]
  exact List.map_congr_left fun b hb => (keyAt_congr (hsame b hb)).symm

theorem CacheShows.of_removed (h : CacheShows s l t) (hnd : l.Nodup) (ha : a ∈ l) {e : CacheEntry}
    (he : s.entry a = some e) (hrem : Removed s a e s') :
    CacheShows s' (l.erase a) (t.remove e.key) where
  order := by
    rw [← keyAt_eq he]
    exact h.erase_order ha fun b hb => hrem.entry_of_ne (hnd.mem_erase_iff.mp hb).1
  value := by
    intro b hb e' he'
    obtain ⟨hba, hbl⟩ := hnd.mem_erase_iff.mp hb
    rw [hrem.entry_of_ne hba] at he'
    obtain ⟨time, htime⟩ := h.value b hbl e' he'
    have hne : e'.key ≠ e.key := by
      intro hkey
      exact hba (h.key_inj hbl ha (by rw [keyAt_eq he, keyAt_eq he', hkey]))
    exact ⟨time, (Function.update_of_ne hne _ _).trans htime⟩

/-! ### Using an entry -/

theorem ChainsOk.of_fronted (h : ChainsOk s l) (ha : a ∈ l) {e e' : CacheEntry}
    (hfirst : s.table (s.slot e.key) = a)
    (hok : ListOk s' (a :: l.erase a)) (hfront : Fronted s a s') (he' : s'.entry a = some e')
    (hkey : e'.key = e.key) : ChainsOk s' (a :: l.erase a) := by
  have hslot : ∀ key, s'.slot key = s.slot key := fun key => by
    rw [Cache.slot, hfront.setup]
    rfl
  refine ⟨hok, fun b hb => ?_, fun i hi => ?_⟩
  · rw [hslot, hfront.table]
    by_cases hba : b = a
    · rw [hba, keyAt_eq he', hkey, hfirst]
      exact follows_head (List.mem_cons_self ..)
    · have hbl := List.mem_of_mem_erase ((List.mem_cons.mp hb).resolve_left hba)
      rw [keyAt_congr (hfront.entry b hba)]
      by_cases hslota : s.table (s.slot (s.keyAt b)) = a
      · rw [hslota]
        exact follows_head hb
      · exact ((h.reached b hbl).erase hslota hba).cons a
  · rw [hfront.setup] at hi
    unfold SlotFresh
    rw [hfront.table]
    refine ((h.fresh i hi).mem h.toListOk hi).imp_right fun hmem => ?_
    exact live_iff.mpr (hok.live _ ((List.perm_cons_erase ha).mem_iff.mp hmem))

theorem CacheShows.of_fronted (h : CacheShows s l t) (hnd : l.Nodup) (ha : a ∈ l) {e e' : CacheEntry}
    (he : s.entry a = some e) (hfront : Fronted s a s') (he' : s'.entry a = some e')
    (hkey : e'.key = e.key) (time : Millis) :
    CacheShows s' (a :: l.erase a) (t.use e.key (e'.data, time)) where
  order := by
    have hsame : ∀ b ∈ l.erase a, s'.entry b = s.entry b := fun b hb =>
      hfront.entry b (hnd.mem_erase_iff.mp hb).1
    rw [List.map_cons, keyAt_eq he', hkey, ← h.erase_order ha hsame, keyAt_eq he]
    rfl
  value := by
    intro b hb d hd
    by_cases hba : b = a
    · rw [hba, he'] at hd
      obtain rfl := Option.some.inj hd
      rw [hkey]
      exact ⟨time, Function.update_self ..⟩
    · have hbl := List.mem_of_mem_erase ((List.mem_cons.mp hb).resolve_left hba)
      rw [hfront.entry b hba] at hd
      obtain ⟨time', htime⟩ := h.value b hbl d hd
      have hne : d.key ≠ e.key := by
        intro hsame
        exact hba (h.key_inj hbl ha (by rw [keyAt_eq he, keyAt_eq hd, hsame]))
      exact ⟨time', (Function.update_of_ne hne _ _).trans htime⟩

/-! ### A new entry -/

theorem ChainsOk.of_inserted (h : ChainsOk s l) {e : CacheEntry} (hok : ListOk s' (a :: l))
    (hsetup : s'.setup = s.setup)
    (htable : s'.table = Function.update s.table (s.slot e.key) a)
    (hentry : s'.entry = Function.update s.entry a (some e)) : ChainsOk s' (a :: l) := by
  have hslot : ∀ key, s'.slot key = s.slot key := fun key => by
    rw [Cache.slot, hsetup]
    rfl
  have hnot := (List.nodup_cons.mp hok.linked.nodup).1
  refine ⟨hok, fun b hb => ?_, fun i hi => ?_⟩
  · rw [hslot]
    by_cases hba : b = a
    · have he : s'.entry a = some e := by rw [hentry, Function.update_self]
      rw [hba, keyAt_eq he, htable, Function.update_self]
      exact follows_head (List.mem_cons_self ..)
    · have hbl := (List.mem_cons.mp hb).resolve_left hba
      have hsame : s'.entry b = s.entry b := by rw [hentry, Function.update_of_ne hba]
      rw [keyAt_congr hsame, htable]
      by_cases hi : s.slot (s.keyAt b) = s.slot e.key
      · rw [hi, Function.update_self]
        exact follows_head hb
      · rw [Function.update_of_ne hi]
        exact (h.reached b hbl).cons a
  · rw [hsetup] at hi
    unfold SlotFresh
    rw [htable]
    by_cases hslota : i = s.slot e.key
    · rw [hslota, Function.update_self]
      exact .inr (live_iff.mpr (hok.live a (List.mem_cons_self ..)))
    · rw [Function.update_of_ne hslota]
      refine ((h.fresh i hi).mem h.toListOk hi).imp_right fun hmem => ?_
      exact live_iff.mpr (hok.live _ (List.mem_cons_of_mem a hmem))

theorem CacheShows.of_inserted (h : CacheShows s l t) {e : CacheEntry} (hnot : a ∉ l)
    (hnone : t.value e.key = none) (hentry : s'.entry = Function.update s.entry a (some e))
    (time : Millis) : CacheShows s' (a :: l) (t.use e.key (e.data, time)) where
  order := by
    have he : s'.entry a = some e := by rw [hentry, Function.update_self]
    have hnew : e.key ∉ t.order := Store.value_none_iff.mp hnone
    have hkeys : l.map s.keyAt = l.map s'.keyAt := by
      refine List.map_congr_left fun b hb => (keyAt_congr ?_).symm
      rw [hentry]
      refine Function.update_of_ne ?_ _ _
      rintro rfl
      exact hnot hb
    show e.key :: t.order.erase e.key = _
    rw [List.erase_of_not_mem hnew, h.order, List.map_cons, keyAt_eq he, hkeys]
  value := by
    intro b hb d hd
    by_cases hba : b = a
    · rw [hba, hentry, Function.update_self] at hd
      obtain rfl := Option.some.inj hd
      exact ⟨time, Function.update_self ..⟩
    · have hbl := (List.mem_cons.mp hb).resolve_left hba
      rw [hentry, Function.update_of_ne hba] at hd
      obtain ⟨time', htime⟩ := h.value b hbl d hd
      have hne : d.key ≠ e.key := by
        intro hsame
        rw [hsame, hnone] at htime
        exact absurd htime (by simp)
      exact ⟨time', (Function.update_of_ne hne _ _).trans htime⟩

theorem CacheShows.size_eq (h : CacheShows s l t) (hlive : ∀ b ∈ l, s.entry b ≠ none) :
    Remembered.size t = s.sizes l := by
  unfold Remembered.size Cache.sizes
  rw [h.order, List.map_map]
  refine congrArg List.sum (List.map_congr_left fun b hb => ?_)
  obtain ⟨e, he⟩ := Option.ne_none_iff_exists'.mp (hlive b hb)
  obtain ⟨time, htime⟩ := h.value b hb e he
  simp [keyAt_eq he, htime, Cache.sizeAt, he, CacheEntry.size]

theorem CacheShows.full_iff (h : CacheShows s l t) (hok : ListOk s l) (size : Nat) :
    Remembered.full s.setup t size ↔ s.full size := by
  unfold Remembered.full Cache.full
  rw [h.size_eq hok.live, h.order, List.length_map, hok.entriesCurrent_toNat, hok.size]

/-- **Eviction** takes out the key that was used least recently. -/
theorem ChainsOk.evict (h : ChainsOk s l) (hshow : CacheShows s l t)
    (halone : ∀ e, s.entry s.lruTail = some e → Alone s s.lruTail e.key) :
    ∃ s' l', cacheEvictLru s = some s' ∧ ChainsOk s' l' ∧ CacheShows s' l' t.evict ∧
      s'.setup = s.setup ∧ (∀ key, t.value key = none → t.evict.value key = none) ∧
      ∀ b, b ≠ 0 → (s'.live b = false ↔ s.live b = false ∨ b = s.lruTail) := by
  rcases h.toListOk.evict fun e _ => h.fresh _ (h.slot_lt e.key) with
    ⟨rfl, hrun⟩ | ⟨e, s', hmem, he, hrun, hok, hrem⟩
  · have hevict : t.evict = t := Store.evict_of_nil hshow.order
    rw [hevict]
    refine ⟨s, [], hrun, h, hshow, rfl, fun _ hkey => hkey, fun b hb => ?_⟩
    have htail : s.lruTail = 0 := h.linked.tail_eq
    rw [htail]
    exact (or_iff_left hb).symm
  · have hlast : ∃ init, t.order = init ++ [e.key] := by
      have htail := h.linked.tail_eq
      rcases List.eq_nil_or_concat' l with rfl | ⟨init, a, rfl⟩
      · exact absurd hmem (by simp)
      · rw [lastNode_concat] at htail
        rw [htail] at he
        exact ⟨init.map s.keyAt, by rw [hshow.order, List.map_append, List.map_singleton, keyAt_eq he]⟩
    obtain ⟨init, horder⟩ := hlast
    rw [Store.evict_of_last horder]
    refine ⟨s', _, hrun, h.of_removed hmem (halone e he) hok hrem,
      hshow.of_removed h.linked.nodup hmem he hrem, hrem.setup, fun key hkey => ?_, fun b _ => ?_⟩
    · show Function.update t.value e.key none key = none
      by_cases hk : key = e.key
      · rw [hk, Function.update_self]
      · rw [Function.update_of_ne hk, hkey]
    · unfold Cache.live
      rw [hrem.entry]
      by_cases hb : b = s.lruTail
      · rw [hb, Function.update_self]
        exact iff_of_true rfl (.inr rfl)
      · rw [Function.update_of_ne hb]
        exact (or_iff_left hb).symm

end Lookup

/-! ### The calls -/

/-- Both sides make a call, with the same answer, and are related again. -/
def Simulates (s : Cache) (t : Remembered) (c : CacheCall) : Prop :=
  ∃ s' l' t' answer, cacheStep s c = some (s', answer) ∧
    rememberStep s.setup (s.blockFor c) t c = (t', answer) ∧ ChainsOk s' l' ∧ CacheShows s' l' t'

section Calls

variable {s : Cache} {l : List Nat} {t : Remembered} {key : CacheKey}

/-- What is done with a new key once the eviction is over. -/
theorem ChainsOk.putInto (h : ChainsOk s l) (hshow : CacheShows s l t) (hnone : t.value key = none)
    (data : List Byte) (now : Millis) {room : CacheRoom} {block : Bool}
    (hblock : block = true ↔ room.entry ≠ 0 ∧ s.live room.entry = false) :
    ∃ s' ret l' t',
      (if s.full data.length then some (s, -1) else cacheInsert s key data now room) =
        some (s', ret) ∧
      (if Remembered.full s.setup t data.length ∨ block = false ∨ room.data = false then (t, -1)
        else (t.use key (data, now), 0)) = (t', ret) ∧ ChainsOk s' l' ∧ CacheShows s' l' t' := by
  have hsame := hshow.full_iff h.toListOk data.length
  by_cases hfull : s.full data.length
  · rw [if_pos hfull, if_pos (.inl (hsame.mpr hfull))]
    exact ⟨s, -1, l, t, rfl, rfl, h, hshow⟩
  rw [if_neg hfull]
  by_cases hroom : room.Grants s
  · obtain ⟨s', hrun, hok, hsetup, htable, hentry⟩ := h.toListOk.insert key now hroom hfull
    have hnot := (List.nodup_cons.mp hok.linked.nodup).1
    have hok' : ChainsOk s' (room.entry :: l) :=
      h.of_inserted (e := { key := key, data := data, createTime := now }) hok hsetup htable hentry
    have hshow' : CacheShows s' (room.entry :: l) (t.use key (data, now)) :=
      hshow.of_inserted (e := { key := key, data := data, createTime := now }) hnot hnone hentry now
    rw [if_neg]
    · exact ⟨s', 0, _, _, hrun, rfl, hok', hshow'⟩
    · rintro (hno | hno | hno)
      · exact hfull (hsame.mp hno)
      · rw [hblock.mpr ⟨hroom.1, hroom.2.1⟩] at hno
        exact absurd hno (by decide)
      · rw [hroom.2.2] at hno
        exact absurd hno (by decide)
  · rw [insert_refused hroom, if_pos]
    · exact ⟨s, -1, l, t, rfl, rfl, h, hshow⟩
    · by_contra hyes
      rw [not_or, not_or, Bool.not_eq_false, Bool.not_eq_false] at hyes
      obtain ⟨hentry, hlive⟩ := hblock.mp hyes.2.1
      exact hroom ⟨hentry, hlive, hyes.2.2⟩

theorem ChainsOk.put_new (h : ChainsOk s l) (hshow : CacheShows s l t) (hnone : t.value key = none)
    (hfind : cacheFindEntry s key = some 0) {data : List Byte} (hdata : data ≠ []) {now : Millis}
    {room : CacheRoom} (halone : s.full data.length → ∀ e, s.entry s.lruTail = some e →
      Alone s s.lruTail e.key) : Simulates s t (.put key data now room) := by
  have hrun : cacheStep s (.put key data now room) =
      ((if s.full data.length then cacheEvictLru s else some s).bind fun s =>
        if s.full data.length then some (s, -1) else cacheInsert s key data now room).map
          fun r => (r.1, .status r.2) := by
    rw [cacheStep, cachePut, if_neg hdata, hfind, Option.bind_some, h.zero]
  have hremember : rememberPut s.setup (s.blockFor (.put key data now room)) room.data t key data
      now = (if Remembered.full s.setup (if s.full data.length then t.evict else t) data.length ∨
        s.blockFor (.put key data now room) = false ∨ room.data = false then
          (if s.full data.length then t.evict else t, -1)
        else ((if s.full data.length then t.evict else t).use key (data, now), 0)) := by
    unfold rememberPut
    rw [if_neg hdata, hnone]
    simp only [hshow.full_iff h.toListOk]
  obtain ⟨s₁, l₁, t₁, hevict, ht₁, hok₁, hshow₁, hsetup, hnone₁, hblock⟩ : ∃ s₁ l₁ t₁,
      (if s.full data.length then cacheEvictLru s else some s) = some s₁ ∧
      (if s.full data.length then t.evict else t) = t₁ ∧ ChainsOk s₁ l₁ ∧ CacheShows s₁ l₁ t₁ ∧
      s₁.setup = s.setup ∧ t₁.value key = none ∧
      (s.blockFor (.put key data now room) = true ↔
        room.entry ≠ 0 ∧ s₁.live room.entry = false) := by
    unfold Cache.blockFor
    by_cases hfull : s.full data.length
    · obtain ⟨s₁, l₁, hrun₁, hok₁, hshow₁, hsetup, hkeys, hlive⟩ := h.evict hshow (halone hfull)
      rw [if_pos hfull, if_pos hfull]
      refine ⟨s₁, l₁, _, hrun₁, rfl, hok₁, hshow₁, hsetup, hkeys key hnone, ?_⟩
      simp only [Bool.and_eq_true, bne_iff_ne, ne_eq, Bool.or_eq_true, Bool.not_eq_true',
        decide_eq_true_eq, beq_iff_eq, hfull, true_and]
      exact and_congr_right fun hzero => (hlive _ hzero).symm
    · rw [if_neg hfull, if_neg hfull]
      refine ⟨s, l, t, rfl, rfl, h, hshow, rfl, hnone, ?_⟩
      simp [hfull]
  obtain ⟨s', ret, l', t', hput, hput', hok', hshow'⟩ :=
    hok₁.putInto hshow₁ hnone₁ data now hblock
  refine ⟨s', l', t', .status ret, ?_, ?_, hok', hshow'⟩
  · rw [hrun, hevict, Option.bind_some, hput]
    rfl
  · show ((rememberPut _ _ _ _ _ _ _).1, CacheAnswer.status (rememberPut _ _ _ _ _ _ _).2) = _
    rw [hremember, ht₁, ← hsetup, hput']

theorem ChainsOk.put (h : ChainsOk s l) (hshow : CacheShows s l t) {data : List Byte}
    {now : Millis} {room : CacheRoom} (hsafe : LookupSafe s t (.put key data now room)) :
    Simulates s t (.put key data now room) := by
  by_cases hdata : data = []
  · refine ⟨s, l, t, .status (-1), ?_, ?_, h, hshow⟩
    · rw [cacheStep, cachePut, if_pos hdata]
      rfl
    · simp [rememberStep, rememberPut, hdata]
  obtain ⟨hupdate, hnew⟩ := hsafe hdata
  rcases h.find_cases hshow key with ⟨hnone, hfind⟩ | ⟨a, e, time, ha, he, rfl, hvalue, hfind⟩
  · exact h.put_new hshow hnone hfind hdata (hnew hfind)
  · obtain ⟨hfirst, hroom⟩ := hupdate a e hfind he
    obtain ⟨s', hrun, hok, hfront, he'⟩ := h.toListOk.update ha he hroom
    refine ⟨s', _, t.use e.key (data, now), .status 0, ?_, ?_,
      h.of_fronted ha hfirst hok hfront he' rfl,
      hshow.of_fronted h.linked.nodup ha he hfront he' rfl now⟩
    · rw [cacheStep, cachePut, if_neg hdata, hfind, Option.bind_some, he]
      dsimp only
      rw [hrun]
      rfl
    · have hgrow : ¬ (e.data.length ≠ data.length ∧ room.data = false) := by
        rintro ⟨hdiff, hno⟩
        rcases hroom with hsame | hyes
        · exact hdiff hsame
        · rw [hyes] at hno
          exact absurd hno (by decide)
      unfold rememberStep rememberPut
      dsimp only
      rw [if_neg hdata, hvalue]
      dsimp only
      rw [if_neg hgrow]

theorem ChainsOk.get (h : ChainsOk s l) (hshow : CacheShows s l t) {now : Millis}
    (hsafe : LookupSafe s t (.get key now)) : Simulates s t (.get key now) := by
  rcases h.find_cases hshow key with ⟨hnone, hfind⟩ | ⟨a, e, time, ha, he, rfl, hvalue, hfind⟩
  · refine ⟨s, l, t, .found none, ?_, ?_, h, hshow⟩
    · rw [cacheStep, cacheGet, hfind, Option.bind_some, h.zero]
      rfl
    · rw [rememberStep, rememberGet, hnone]
  · obtain ⟨hexpired, hlead⟩ := hsafe a e _ hfind he hvalue
    by_cases hold : cacheExpired s.setup.ttlSeconds e.createTime now = true
    · rw [if_pos hold] at hlead
      obtain ⟨s', hrun, hok, hrem⟩ := h.toListOk.removeEntry ha he (h.fresh _ (h.slot_lt _))
      refine ⟨s', _, t.remove e.key, .found none, ?_, ?_, h.of_removed ha hlead hok hrem,
        hshow.of_removed h.linked.nodup ha he hrem⟩
      · rw [cacheStep, cacheGet, hfind, Option.bind_some, he]
        dsimp only
        rw [if_pos hold, hrun]
        rfl
      · rw [rememberStep, rememberGet, hvalue]
        dsimp only
        rw [← hexpired, if_pos hold]
    · rw [if_neg hold] at hlead
      obtain ⟨s₁, s', hout, hin, hok, hfront, he'⟩ := h.toListOk.touch ha he
      refine ⟨s', _, t.use e.key (e.data, time), .found (some e.data), ?_, ?_,
        h.of_fronted ha hlead hok hfront he' rfl,
        hshow.of_fronted h.linked.nodup ha he hfront he' rfl time⟩
      · rw [cacheStep, cacheGet, hfind, Option.bind_some, he]
        dsimp only
        rw [if_neg hold, hout, Option.bind_some, hin]
        rfl
      · rw [rememberStep, rememberGet, hvalue]
        dsimp only
        rw [← hexpired, if_neg hold]

/-- **One call** that keeps the slots right has the answer it should have. -/
theorem ChainsOk.step (h : ChainsOk s l) (hshow : CacheShows s l t) {c : CacheCall}
    (hsafe : LookupSafe s t c) : Simulates s t c := by
  cases c with
  | put key data now room => exact h.put hshow hsafe
  | get key now => exact h.get hshow hsafe
  | contains key now =>
      rcases h.find_cases hshow key with ⟨hnone, hfind⟩ | ⟨a, e, time, ha, he, rfl, hvalue, hfind⟩
      · refine ⟨s, l, t, .isIn false, ?_, ?_, h, hshow⟩
        · rw [cacheStep, cacheContains, hfind]
          rfl
        · rw [rememberStep, hnone]
          rfl
      · refine ⟨s, l, t, .isIn true, ?_, ?_, h, hshow⟩
        · have hzero : (a != 0) = true := by simpa using h.linked.ne_zero a ha
          rw [cacheStep, cacheContains, hfind, Option.map_some, Option.map_some, hzero]
        · rw [rememberStep, hvalue, Option.any_some, hsafe _ hvalue]
          rfl
  | remove key =>
      rcases h.find_cases hshow key with ⟨hnone, hfind⟩ | ⟨a, e, time, ha, he, rfl, hvalue, hfind⟩
      · refine ⟨s, l, t, .status (-1), ?_, ?_, h, hshow⟩
        · rw [cacheStep, cacheRemove, hfind, Option.bind_some, if_pos rfl]
          rfl
        · rw [rememberStep, if_pos hnone]
      · obtain ⟨s', hrun, hok, hrem⟩ := h.toListOk.removeEntry ha he (h.fresh _ (h.slot_lt _))
        refine ⟨s', _, t.remove e.key, .status 0, ?_, ?_,
          h.of_removed ha (hsafe a e hfind he) hok hrem,
          hshow.of_removed h.linked.nodup ha he hrem⟩
        · rw [cacheStep, cacheRemove, hfind, Option.bind_some, if_neg (h.linked.ne_zero a ha), hrun]
          rfl
        · rw [rememberStep, if_neg (by rw [hvalue]; simp)]
  | clear =>
      obtain ⟨s', hrun, hok, hsetup, hslots⟩ := h.toListOk.clear hsafe
      refine ⟨s', [], .empty, .status 0, ?_, rfl, ⟨hok, by simp, fun i hi => .inl ?_⟩, rfl, by simp⟩
      · rw [cacheStep, hrun]
        rfl
      · rw [hsetup] at hi
        exact hslots i hi

end Calls

/-! ### Runs -/

/-- A call to the cache, and what should be remembered after it. -/
def RememberStep (st : Cache × Remembered) (c : CacheCall) (st' : Cache × Remembered) : Prop :=
  CallStep st.1 c st'.1 ∧
    st'.2 = (rememberStep st.1.setup (st.1.blockFor c) st.2 c).1

theorem remembered_run {st₀ st : Cache × Remembered} {calls : List CacheCall}
    (h₀ : ∃ l, ChainsOk st₀.1 l ∧ CacheShows st₀.1 l st₀.2)
    (hrun : Executes (Guarded (fun st c => LookupSafe st.1 st.2 c) RememberStep) st₀ calls st) :
    ∃ l, ChainsOk st.1 l ∧ CacheShows st.1 l st.2 := by
  refine Executes.invariant (P := fun st => ∃ l, ChainsOk st.1 l ∧ CacheShows st.1 l st.2) ?_ hrun h₀
  rintro ⟨s, t⟩ c ⟨s', t'⟩ ⟨l, hok, hshow⟩ ⟨hsafe, ⟨answer, hstep⟩, hnext⟩
  obtain ⟨s₁, l₁, t₁, answer₁, hrun₁, hremember, hok₁, hshow₁⟩ := hok.step hshow hsafe
  have hsame := Option.some.inj (hstep.symm.trans hrun₁)
  have hs : s' = s₁ := congrArg Prod.fst hsame
  have ht : t' = t₁ := hnext.trans (congrArg Prod.fst hremember)
  rw [hs, ht]
  exact ⟨l₁, hok₁, hshow₁⟩

theorem ChainsOk.created {config : CacheConfig} {s : Cache} (h : cacheCreate config = some s) :
    ChainsOk s [] ∧ CacheShows s [] .empty := by
  refine ⟨⟨(Tallied.created h).toListOk, by simp, fun i _ => .inl ?_⟩, rfl, by simp⟩
  unfold cacheCreate at h
  split_ifs at h
  rw [← Option.some.inj h]

/--
**When the cache is a store that remembers what was used last.**  After any calls that keep its
slots right, a call of this kind goes through, and what it answers is what should be remembered.
-/
theorem cache_remembers {config : CacheConfig} {s₀ s : Cache} {t : Remembered}
    {calls : List CacheCall} (hcreate : cacheCreate config = some s₀)
    (hrun : Executes (Guarded (fun st c => LookupSafe st.1 st.2 c) RememberStep) (s₀, .empty)
      calls (s, t)) :
    ∀ c, LookupSafe s t c → ∃ s' t' answer, cacheStep s c = some (s', answer) ∧
      rememberStep s.setup (s.blockFor c) t c = (t', answer) := by
  intro c hsafe
  obtain ⟨l, hok, hshow⟩ := remembered_run ⟨[], ChainsOk.created hcreate⟩ hrun
  obtain ⟨s', l', t', answer, hstep, hremember, -, -⟩ := hok.step hshow hsafe
  exact ⟨s', t', answer, hstep, hremember⟩

/-- The cache and what should be remembered, after a call. -/
def rememberNext (st : Cache × Remembered) (c : CacheCall) : Option (Cache × Remembered) :=
  (cacheStep st.1 c).map fun r =>
    (r.1, (rememberStep st.1.setup (st.1.blockFor c) st.2 c).1)

instance (s : Cache) (a : Nat) (key : CacheKey) : Decidable (Alone s a key) :=
  inferInstanceAs (Decidable (∀ i, i < s.setup.tableSize → i ≠ s.slot key → s.table i ≠ a))

/-- A test for `LookupSafe`; a call that clears the cache does not pass it. -/
def lookupSafeTest (s : Cache) (t : Remembered) : CacheCall → Bool
  | .put key data _ room => data.isEmpty || (cacheFindEntry s key).all fun a =>
      ((s.entry a).all fun e => decide (s.table (s.slot key) = a ∧
        (e.size = data.length ∨ room.data = true))) &&
      (a != 0 || !decide (s.full data.length) ||
        (s.entry s.lruTail).all fun e => decide (Alone s s.lruTail e.key))
  | .get key now => (cacheFindEntry s key).all fun a => (s.entry a).all fun e =>
      (t.value key).all fun v =>
        decide (cacheExpired s.setup.ttlSeconds e.createTime now =
          cacheExpired s.setup.ttlSeconds v.2 now) &&
        if cacheExpired s.setup.ttlSeconds e.createTime now then decide (Alone s a key)
        else decide (s.table (s.slot key) = a)
  | .contains key now => (t.value key).all fun v => !cacheExpired s.setup.ttlSeconds v.2 now
  | .remove key => (cacheFindEntry s key).all fun a => (s.entry a).all fun _ =>
      decide (Alone s a key)
  | .clear => false

theorem lookupSafe_of_test (st : Cache × Remembered) (c : CacheCall)
    (h : lookupSafeTest st.1 st.2 c = true) : LookupSafe st.1 st.2 c := by
  obtain ⟨s, t⟩ := st
  cases c with
  | put key data now room =>
      intro hdata
      have hne : data.isEmpty = false := by simpa using hdata
      simp only [lookupSafeTest, hne, Bool.false_or, Bool.and_eq_true, decide_eq_true_eq,
        Option.all_eq_true] at h
      refine ⟨fun a e hfind he => (h a hfind).1 e he, fun hfind hfull e he => ?_⟩
      have hnew := (h 0 hfind).2
      simp only [bne_self_eq_false, Bool.false_or, decide_eq_true_eq, Bool.or_eq_true,
        Bool.not_eq_true', decide_eq_false_iff_not, Option.all_eq_true] at hnew
      exact (hnew.resolve_left (not_not_intro hfull)) e he
  | get key now =>
      intro a e v hfind he hv
      simp only [lookupSafeTest, Option.all_eq_true, Bool.and_eq_true, decide_eq_true_eq] at h
      obtain ⟨hsame, hlead⟩ := h a hfind e he v hv
      refine ⟨hsame, ?_⟩
      split at hlead
      next hold => exact (if_pos hold).symm ▸ of_decide_eq_true hlead
      next hold => exact (if_neg hold).symm ▸ of_decide_eq_true hlead
  | contains key now =>
      intro v hv
      simp only [lookupSafeTest, Option.all_eq_true, Bool.not_eq_true'] at h
      exact h v hv
  | remove key =>
      intro a e hfind he
      simp only [lookupSafeTest, Option.all_eq_true, decide_eq_true_eq] at h
      exact h a hfind e he
  | clear => exact absurd h (by simp [lookupSafeTest])

/-- After two puts, a hit, a put that evicts the other object, a removal and one of an absent key,
the object that is left is asked for. -/
theorem cache_remembers_put :
    ∃ s t, Executes (Guarded (fun st c => LookupSafe st.1 st.2 c) RememberStep) (smallCache, .empty)
        smallCalls (s, t) ∧
      ∃ s' t', cacheStep s (.get 3 5) = some (s', .found (some [4, 4])) ∧
        rememberStep s.setup (s.blockFor (.get 3 5)) t (.get 3 5) = (t', .found (some [4, 4])) := by
  have heval : (runAll (testedNext (fun st c => lookupSafeTest st.1 st.2 c) rememberNext)
      (smallCache, .empty) smallCalls).map (fun st => (lookupSafeTest st.1 st.2 (.get 3 5),
        (cacheStep st.1 (.get 3 5)).map Prod.snd)) =
      some (true, some (.found (some [4, 4]))) := by decide +kernel
  obtain ⟨⟨s, t⟩, hs, hlast⟩ := Option.map_eq_some_iff.mp heval
  obtain ⟨hpass, hanswer⟩ := Prod.mk.inj hlast
  have hrun : Executes (Guarded (fun st c => LookupSafe st.1 st.2 c) RememberStep)
      (smallCache, .empty) smallCalls (s, t) := by
    refine executes_tested lookupSafe_of_test (fun st c st' hnext => ?_) hs
    obtain ⟨⟨s₁, answer⟩, hstep, rfl⟩ := Option.map_eq_some_iff.mp hnext
    exact ⟨⟨answer, hstep⟩, rfl⟩
  have hcreate : cacheCreate smallConfig = some smallCache := rfl
  obtain ⟨s', t', answer, hstep, hremember⟩ :=
    cache_remembers hcreate hrun (.get 3 5) (lookupSafe_of_test (s, t) _ hpass)
  rw [hstep] at hanswer
  obtain rfl : answer = .found (some [4, 4]) := Option.some.inj hanswer
  exact ⟨s, t, hrun, s', t', hstep, hremember⟩

/-- Two keys of one slot: the hit moves the first one in front of what the slot leads to. -/
theorem cache_loses_entry :
    ∃ s t, runAll rememberNext (smallCache, .empty)
        [.put 0 [1] 0 { entry := 64, data := true }, .put 16 [2] 0 { entry := 128, data := true },
          .get 0 0] = some (s, t) ∧
      (cacheStep s (.contains 0 0)).map Prod.snd = some (.isIn false) ∧
      (rememberStep s.setup (s.blockFor (.contains 0 0)) t (.contains 0 0)).2 = .isIn true := by
  have hlost : (runAll rememberNext (smallCache, .empty)
      [.put 0 [1] 0 { entry := 64, data := true }, .put 16 [2] 0 { entry := 128, data := true },
        .get 0 0]).map (fun st =>
          ((cacheStep st.1 (.contains 0 0)).map Prod.snd,
            (rememberStep st.1.setup (st.1.blockFor (.contains 0 0)) st.2 (.contains 0 0)).2)) =
        some (some (.isIn false), .isIn true) := by decide +kernel
  obtain ⟨⟨s, t⟩, hrun, hanswers⟩ := Option.map_eq_some_iff.mp hlost
  obtain ⟨hcode, hshould⟩ := Prod.mk.inj hanswers
  exact ⟨s, t, hrun, hcode, hshould⟩

end BrightS
