/-
When the counters of the object cache are right.

The counters follow the LRU list through every call that goes through.  The limits do not: an
update takes any size.  And the list itself is lost when a call follows a slot that still leads
to a freed entry, when an update finds no memory, or when chains meet that are freed one by one.
-/
import BrightS.Proofs.CacheList
import BrightS.Lib.Runs

namespace BrightS

open Bytes Chains Runs

/-- The counters are those of the entries that the LRU list links, and within the limits. -/
def WithinLimits (s : Cache) : Prop :=
  ∃ l, Linked s.next s.prev s.lruHead s.lruTail l ∧ (∀ a ∈ l, s.entry a ≠ none) ∧
    s.sizeCurrent.toNat = s.sizes l ∧ s.sizeCurrent.toNat ≤ s.setup.sizeMax ∧
    s.entriesCurrent.toNat = l.length ∧ s.entriesCurrent.toNat ≤ s.setup.entriesMax

/-- What a call must not do: follow a slot to a freed entry, run out of memory in an update or
take the cache over its size with one, wrap the size around, or clear two chains. -/
def CountSafe (s : Cache) : CacheCall → Prop
  | .put key data _ room => data ≠ [] → SlotFresh s (s.slot key) ∧
      (∀ a e, cacheFindEntry s key = some a → s.entry a = some e →
        e.size = data.length ∨
          room.data = true ∧ s.sizeCurrent.toNat + data.length ≤ s.setup.sizeMax + e.size) ∧
      (cacheFindEntry s key = some 0 →
        s.sizeCurrent.toNat + data.length < 2 ^ 64 ∧
          (s.full data.length → ∀ e, s.entry s.lruTail = some e → SlotFresh s (s.slot e.key)))
  | .get key _ => SlotFresh s (s.slot key)
  | .contains key _ => SlotFresh s (s.slot key)
  | .remove key => SlotFresh s (s.slot key)
  | .clear => OneSlot s

/-- The invariant of such calls. -/
structure Tallied (s : Cache) (l : List Nat) : Prop extends ListOk s l where
  fits : s.sizes l ≤ s.setup.sizeMax
  word : s.setup.sizeMax < 2 ^ 64

section Steps

variable {s s' : Cache} {l : List Nat} {a : Nat}

theorem Tallied.sizeCurrent_toNat (h : Tallied s l) : s.sizeCurrent.toNat = s.sizes l := by
  have hfits := h.fits
  have hword := h.word
  rw [h.size, BitVec.toNat_ofNat, Nat.mod_eq_of_lt (by omega)]

theorem Tallied.withinLimits (h : Tallied s l) : WithinLimits s := by
  have hsize := h.sizeCurrent_toNat
  have hcount := h.entriesCurrent_toNat
  exact ⟨l, h.linked, h.live, hsize, hsize ▸ h.fits, hcount, hcount ▸ h.room⟩

theorem sizeAt_eq {e : CacheEntry} (he : s.entry a = some e) : s.sizeAt a = e.size := by
  simp [Cache.sizeAt, he]

theorem Tallied.of_removed (h : Tallied s l) (ha : a ∈ l) {e : CacheEntry}
    (hok : ListOk s' (l.erase a)) (hrem : Removed s a e s') : Tallied s' (l.erase a) := by
  have hsame : ∀ b ∈ l.erase a, s'.entry b = s.entry b := fun b hb =>
    hrem.entry_of_ne (h.linked.nodup.mem_erase_iff.mp hb).1
  refine ⟨hok, ?_, ?_⟩
  · have hfits := h.fits
    rw [sizes_erase ha] at hfits
    rw [hrem.setup, sizes_congr hsame]
    omega
  · rw [hrem.setup]
    exact h.word

/-- An entry in front, and what the cache had besides. -/
theorem Tallied.of_fronted (h : Tallied s l) (ha : a ∈ l) {e e' : CacheEntry}
    (he : s.entry a = some e) (hok : ListOk s' (a :: l.erase a)) (hfront : Fronted s a s')
    (he' : s'.entry a = some e') (hfits : s.sizes l + e'.size ≤ s.setup.sizeMax + e.size) :
    Tallied s' (a :: l.erase a) := by
  have hsame : ∀ b ∈ l.erase a, s'.entry b = s.entry b := fun b hb =>
    hfront.entry b (h.linked.nodup.mem_erase_iff.mp hb).1
  refine ⟨hok, ?_, ?_⟩
  · rw [sizes_erase ha, sizeAt_eq he] at hfits
    rw [hfront.setup, sizes_erase (List.mem_cons_self ..), List.erase_cons_head, sizeAt_eq he',
      sizes_congr hsame]
    omega
  · rw [hfront.setup]
    exact h.word

theorem Tallied.removeEntry (h : Tallied s l) (ha : a ∈ l) {e : CacheEntry}
    (he : s.entry a = some e) (hfresh : SlotFresh s (s.slot e.key)) :
    ∃ s', cacheRemoveEntry s a = some s' ∧ Tallied s' (l.erase a) := by
  obtain ⟨s', hrun, hok, hrem⟩ := h.toListOk.removeEntry ha he hfresh
  exact ⟨s', hrun, h.of_removed ha hok hrem⟩

/-- A new entry, if one more fits. -/
theorem Tallied.insert (h : Tallied s l) (key : CacheKey) {data : List Byte} (now : Millis)
    (room : CacheRoom) (hword : s.sizeCurrent.toNat + data.length < 2 ^ 64)
    (hfull : ¬ s.full data.length) :
    ∃ r l', cacheInsert s key data now room = some r ∧ Tallied r.1 l' := by
  by_cases hroom : room.Grants s
  · obtain ⟨s', hrun, hok, hsetup, -, hentry⟩ := h.toListOk.insert key now hroom hfull
    refine ⟨_, _, hrun, hok, ?_, ?_⟩
    · have hmax : ¬ s.setup.sizeMax < (s.sizeCurrent + BitVec.ofNat 64 data.length).toNat :=
        fun hlt => hfull (.inr hlt)
      rw [BitVec.toNat_add, BitVec.toNat_ofNat, Nat.add_mod_mod, Nat.mod_eq_of_lt hword,
        h.sizeCurrent_toNat] at hmax
      have hnot : room.entry ∉ l := (List.nodup_cons.mp hok.linked.nodup).1
      have hsame : ∀ b ∈ l, s'.entry b = s.entry b := by
        intro b hb
        rw [hentry]
        refine Function.update_of_ne ?_ _ _
        rintro rfl
        exact hnot hb
      have hat : s'.sizeAt room.entry = data.length := by
        simp [Cache.sizeAt, hentry, CacheEntry.size]
      dsimp only
      rw [hsetup, sizes_erase (List.mem_cons_self ..), List.erase_cons_head, hat,
        sizes_congr hsame]
      omega
    · dsimp only
      rw [hsetup]
      exact h.word
  · exact ⟨_, l, insert_refused hroom, h⟩

/-- The part of `put` for a new key. -/
theorem Tallied.putNew (h : Tallied s l) (key : CacheKey) {data : List Byte} (now : Millis)
    (room : CacheRoom) (hword : s.sizeCurrent.toNat + data.length < 2 ^ 64)
    (hfresh : s.full data.length → ∀ e, s.entry s.lruTail = some e → SlotFresh s (s.slot e.key)) :
    ∃ r l', ((if s.full data.length then cacheEvictLru s else some s).bind fun s =>
      if s.full data.length then some (s, -1) else cacheInsert s key data now room) = some r ∧
        Tallied r.1 l' := by
  obtain ⟨s₁, l₁, hevict, hok₁, hword₁⟩ : ∃ s₁ l₁,
      (if s.full data.length then cacheEvictLru s else some s) = some s₁ ∧ Tallied s₁ l₁ ∧
        s₁.sizeCurrent.toNat + data.length < 2 ^ 64 := by
    by_cases hfull : s.full data.length
    · rw [if_pos hfull]
      rcases h.toListOk.evict (hfresh hfull) with ⟨-, hrun⟩ | ⟨e, s', hmem, he, hrun, hok, hrem⟩
      · exact ⟨s, l, hrun, h, hword⟩
      · have htallied := h.of_removed hmem hok hrem
        refine ⟨s', _, hrun, htallied, ?_⟩
        have hsame : ∀ b ∈ l.erase s.lruTail, s'.entry b = s.entry b := fun b hb =>
          hrem.entry_of_ne (h.linked.nodup.mem_erase_iff.mp hb).1
        rw [htallied.sizeCurrent_toNat, sizes_congr hsame]
        rw [h.sizeCurrent_toNat, sizes_erase hmem] at hword
        omega
    · rw [if_neg hfull]
      exact ⟨s, l, rfl, h, hword⟩
  rw [hevict, Option.bind_some]
  by_cases hfull : s₁.full data.length
  · rw [if_pos hfull]
    exact ⟨_, l₁, rfl, hok₁⟩
  · rw [if_neg hfull]
    exact hok₁.insert key now room hword₁ hfull

theorem Tallied.put (h : Tallied s l) {key : CacheKey} {data : List Byte} {now : Millis}
    {room : CacheRoom} (hsafe : CountSafe s (.put key data now room)) :
    ∃ r l', cachePut s key data now room = some r ∧ Tallied r.1 l' := by
  unfold cachePut
  by_cases hdata : data = []
  · rw [if_pos hdata]
    exact ⟨_, l, rfl, h⟩
  obtain ⟨hfresh, hupdate, hnew⟩ := hsafe hdata
  rw [if_neg hdata]
  rcases h.toListOk.found hfresh with hfind | ⟨a, e, hfind, ha, he, -⟩
  · obtain ⟨hword, hvictim⟩ := hnew hfind
    rw [hfind, Option.bind_some, h.zero]
    exact h.putNew key now room hword hvictim
  · rw [hfind, Option.bind_some, he]
    have hroom := hupdate a e hfind he
    obtain ⟨s', hrun, hok, hfront, he'⟩ :=
      h.toListOk.update ha he (hroom.imp_right fun hyes => hyes.1)
    refine ⟨_, _, hrun, h.of_fronted ha he hok hfront he' ?_⟩
    have hfits := h.fits
    have hsize : ({ e with data := data } : CacheEntry).size = data.length := rfl
    rw [hsize]
    rcases hroom with hsame | ⟨-, hroom⟩
    · omega
    · rw [h.sizeCurrent_toNat] at hroom
      exact hroom

theorem Tallied.get (h : Tallied s l) {key : CacheKey} (now : Millis)
    (hfresh : SlotFresh s (s.slot key)) :
    ∃ r l', cacheGet s key now = some r ∧ Tallied r.1 l' := by
  unfold cacheGet
  rcases h.toListOk.found hfresh with hfind | ⟨a, e, hfind, ha, he, hkey⟩
  · rw [hfind, Option.bind_some, h.zero]
    exact ⟨_, l, rfl, h⟩
  · rw [hfind, Option.bind_some, he]
    dsimp only
    split_ifs
    · obtain ⟨s', hrun, htallied⟩ := h.removeEntry ha he (hkey.symm ▸ hfresh)
      rw [hrun]
      exact ⟨_, _, rfl, htallied⟩
    · obtain ⟨s₁, s', hout, hin, hok, hfront, he'⟩ := h.toListOk.touch ha he
      rw [hout, Option.bind_some, hin]
      exact ⟨_, _, rfl, h.of_fronted ha he hok hfront he' (Nat.add_le_add_right h.fits _)⟩

theorem Tallied.remove (h : Tallied s l) {key : CacheKey} (hfresh : SlotFresh s (s.slot key)) :
    ∃ r l', cacheRemove s key = some r ∧ Tallied r.1 l' := by
  unfold cacheRemove
  rcases h.toListOk.found hfresh with hfind | ⟨a, e, hfind, ha, he, hkey⟩
  · rw [hfind, Option.bind_some, if_pos rfl]
    exact ⟨_, l, rfl, h⟩
  · obtain ⟨s', hrun, htallied⟩ := h.removeEntry ha he (hkey.symm ▸ hfresh)
    rw [hfind, Option.bind_some, if_neg (h.linked.ne_zero a ha), hrun]
    exact ⟨_, _, rfl, htallied⟩

/-- **One call** keeps the counters right, and goes through. -/
theorem Tallied.step (h : Tallied s l) {c : CacheCall} (hsafe : CountSafe s c) :
    ∃ r l', cacheStep s c = some r ∧ Tallied r.1 l' := by
  cases c with
  | put key data now room =>
      obtain ⟨r, l', hrun, htallied⟩ := h.put hsafe
      exact ⟨_, l', by rw [cacheStep, hrun]; rfl, htallied⟩
  | get key now =>
      obtain ⟨r, l', hrun, htallied⟩ := h.get now hsafe
      exact ⟨_, l', by rw [cacheStep, hrun]; rfl, htallied⟩
  | contains key now =>
      obtain ⟨c, -, -, hfind⟩ := h.toListOk.find hsafe
      exact ⟨_, l, by rw [cacheStep, cacheContains, hfind]; rfl, h⟩
  | remove key =>
      obtain ⟨r, l', hrun, htallied⟩ := h.remove hsafe
      exact ⟨_, l', by rw [cacheStep, hrun]; rfl, htallied⟩
  | clear =>
      obtain ⟨s', hrun, hok, hsetup, -⟩ := h.toListOk.clear hsafe
      refine ⟨_, [], by rw [cacheStep, hrun]; rfl, hok, Nat.zero_le _, ?_⟩
      rw [hsetup]
      exact h.word

end Steps

/-- A call that goes through. -/
def CallStep (s : Cache) (c : CacheCall) (s' : Cache) : Prop :=
  ∃ answer, cacheStep s c = some (s', answer)

theorem Tallied.created {config : CacheConfig} {s : Cache} (h : cacheCreate config = some s) :
    Tallied s [] := by
  unfold cacheCreate at h
  split_ifs at h
  obtain rfl := Option.some.inj h
  refine ⟨⟨linked_nil, by simp, rfl, fun i _ hin => absurd rfl hin, rfl, rfl, Nat.zero_le _, ?_, ?_⟩,
    Nat.zero_le _, ?_⟩
  · exact config.maxEntries.isLt
  · exact lt_of_lt_of_le (by decide) (le_max_left 16 _)
  · exact config.maxSize.isLt

theorem tallied_run {s₀ s : Cache} {calls : List CacheCall} {l₀ : List Nat} (h₀ : Tallied s₀ l₀)
    (hrun : Executes (Guarded CountSafe CallStep) s₀ calls s) : ∃ l, Tallied s l := by
  refine Executes.invariant (P := fun s => ∃ l, Tallied s l) ?_ hrun ⟨l₀, h₀⟩
  rintro s c s' ⟨l, htallied⟩ ⟨hsafe, answer, hstep⟩
  obtain ⟨r, l', hrun, htallied'⟩ := htallied.step hsafe
  rw [hrun] at hstep
  obtain rfl : r = (s', answer) := Option.some.inj hstep
  exact ⟨l', htallied'⟩

/--
**When the limits of the cache hold.**  After any calls that are all safe, the counters are those
of the stored entries and within the limits; and a safe call goes through.
-/
theorem cache_within_limits {config : CacheConfig} {s₀ s : Cache} {calls : List CacheCall}
    (hcreate : cacheCreate config = some s₀)
    (hrun : Executes (Guarded CountSafe CallStep) s₀ calls s) :
    WithinLimits s ∧ ∀ c, CountSafe s c → ∃ s', CallStep s c s' ∧ WithinLimits s' := by
  obtain ⟨l, htallied⟩ := tallied_run (Tallied.created hcreate) hrun
  refine ⟨htallied.withinLimits, fun c hsafe => ?_⟩
  obtain ⟨r, l', hstep, htallied'⟩ := htallied.step hsafe
  exact ⟨r.1, ⟨r.2, hstep⟩, htallied'.withinLimits⟩

/-! ### A small cache -/

def smallConfig : CacheConfig := { maxSize := 10, maxEntries := 2, ttlSeconds := 0 }

def smallCache : Cache :=
  { setup := { sizeMax := 10, entriesMax := 2, ttlSeconds := 0, tableSize := 16 }
    table := fun _ => 0, entry := fun _ => none, prev := fun _ => 0, next := fun _ => 0
    lruHead := 0, lruTail := 0, sizeCurrent := 0, entriesCurrent := 0 }

/-- The state after a call. -/
def cacheNext (s : Cache) (c : CacheCall) : Option Cache := (cacheStep s c).map Prod.fst

def smallPut : CacheCall := .put 1 [7, 8, 9] 0 { entry := 64, data := true }

/-- A test for `CountSafe`; a call that clears the cache does not pass it. -/
def countSafeTest (s : Cache) : CacheCall → Bool
  | .put key data _ room => data.isEmpty || (decide (SlotFresh s (s.slot key)) &&
      (cacheFindEntry s key).all fun a =>
        ((s.entry a).all fun e => decide (e.size = data.length ∨
          room.data = true ∧ s.sizeCurrent.toNat + data.length ≤ s.setup.sizeMax + e.size)) &&
        (a != 0 || (decide (s.sizeCurrent.toNat + data.length < 2 ^ 64) &&
          (!decide (s.full data.length) ||
            (s.entry s.lruTail).all fun e => decide (SlotFresh s (s.slot e.key))))))
  | .get key _ => decide (SlotFresh s (s.slot key))
  | .contains key _ => decide (SlotFresh s (s.slot key))
  | .remove key => decide (SlotFresh s (s.slot key))
  | .clear => false

theorem countSafe_of_test (s : Cache) (c : CacheCall) (h : countSafeTest s c = true) :
    CountSafe s c := by
  cases c with
  | put key data now room =>
      intro hdata
      have hne : data.isEmpty = false := by simpa using hdata
      simp only [countSafeTest, hne, Bool.false_or, Bool.and_eq_true, decide_eq_true_eq,
        Option.all_eq_true] at h
      refine ⟨h.1, fun a e hfind he => (h.2 a hfind).1 e he, fun hfind => ?_⟩
      have hnew := (h.2 0 hfind).2
      simp only [bne_self_eq_false, Bool.false_or, Bool.and_eq_true, decide_eq_true_eq,
        Bool.or_eq_true, Bool.not_eq_true', decide_eq_false_iff_not, Option.all_eq_true] at hnew
      exact ⟨hnew.1, fun hfull e he => (hnew.2.resolve_left (not_not_intro hfull)) e he⟩
  | get key now =>
      have hfresh : SlotFresh s (s.slot key) := of_decide_eq_true h
      exact hfresh
  | contains key now =>
      have hfresh : SlotFresh s (s.slot key) := of_decide_eq_true h
      exact hfresh
  | remove key =>
      have hfresh : SlotFresh s (s.slot key) := of_decide_eq_true h
      exact hfresh
  | clear => exact absurd h (by simp [countSafeTest])

/-- Two objects and a hit; a third one takes the place of that which was not hit; then one is
removed that is there and one that is not. -/
def smallCalls : List CacheCall :=
  [smallPut, .put 2 [5] 0 { entry := 128, data := true }, .get 1 0,
    .put 3 [4, 4] 0 { entry := 128, data := true }, .remove 1, .remove 9]

/-- The run of these calls leaves one object of two bytes. -/
theorem cache_within_limits_put :
    ∃ s, Executes (Guarded CountSafe CallStep) smallCache smallCalls s ∧ WithinLimits s ∧
      s.entriesCurrent = 1 ∧ s.sizeCurrent = 2 := by
  have heval : (runAll (testedNext countSafeTest cacheNext) smallCache smallCalls).map
      (fun s => (s.entriesCurrent, s.sizeCurrent)) = some (1, 2) := by decide +kernel
  obtain ⟨s, hs, hcounters⟩ := Option.map_eq_some_iff.mp heval
  have hrun : Executes (Guarded CountSafe CallStep) smallCache smallCalls s := by
    refine executes_tested countSafe_of_test (fun s c s' hnext => ?_) hs
    obtain ⟨⟨s₁, answer⟩, hstep, rfl⟩ := Option.map_eq_some_iff.mp hnext
    exact ⟨answer, hstep⟩
  have hcreate : cacheCreate smallConfig = some smallCache := rfl
  exact ⟨s, hrun, (cache_within_limits hcreate hrun).1, congrArg Prod.fst hcounters,
    congrArg Prod.snd hcounters⟩

/-- Eleven bytes for a key that is there, in a cache for ten. -/
theorem cache_update_over_limit :
    ∃ s, runAll cacheNext smallCache
      [smallPut, .put 1 (List.replicate 11 0) 0 { entry := 0, data := true }] = some s ∧
        ¬ WithinLimits s := by
  have hsize : (runAll cacheNext smallCache
      [smallPut, .put 1 (List.replicate 11 0) 0 { entry := 0, data := true }]).map
        (fun s => (s.sizeCurrent.toNat, s.setup.sizeMax)) = some (11, 10) := by decide +kernel
  obtain ⟨s, hrun, hpair⟩ := Option.map_eq_some_iff.mp hsize
  refine ⟨s, hrun, ?_⟩
  rintro ⟨l, -, -, -, hmax, -⟩
  obtain ⟨hcurrent, hlimit⟩ := Prod.mk.inj hpair
  omega

end BrightS
