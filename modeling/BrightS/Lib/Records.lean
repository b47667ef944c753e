/-
Records of different lengths in a buffer.

A buffer is read through `fetch`, which fails outside.  `next` gives the end of the record at an
offset, and none where there is none; `Walk` is the list of the offsets of the records.  A loop
that goes from record to record is a fold over them (`Walk.loop_eq`), and what it keeps of them
can be read off (`foldl_latest`, `foldl_any`, `foldl_extend`).
-/
import Mathlib

namespace Records

/-! ### Bounded reads -/

section Fetch

variable {α β : Type*} {limit a n : Nat} {x : α}

/-- The value of `n` bytes at `a` in a buffer of `limit` bytes. -/
def fetch (limit a n : Nat) (value : α) : Option α :=
  if a + n ≤ limit then some value else none

theorem fetch_of_le (h : a + n ≤ limit) : fetch limit a n x = some x := if_pos h

theorem isSome_fetch : (fetch limit a n x).isSome ↔ a + n ≤ limit := by
  unfold fetch
  split_ifs with h
  · simp [h]
  · simp [h]

theorem isSome_fetch_bind {f : α → Option β} :
    ((fetch limit a n x).bind f).isSome ↔ a + n ≤ limit ∧ (f x).isSome := by
  unfold fetch
  split_ifs with h
  · simp [h]
  · simp [h]

theorem fetch_bind_of_le {f : α → Option β} (h : a + n ≤ limit) :
    (fetch limit a n x).bind f = f x := by
  rw [fetch_of_le h, Option.bind_some]

end Fetch

/-! ### Walks -/

/-- The records from an offset on. -/
inductive Walk (next : Nat → Option Nat) : Nat → List Nat → Prop
  | done {off : Nat} (hend : next off = none) : Walk next off []
  | step {off off' : Nat} {offs : List Nat} (hnext : next off = some off')
      (hrest : Walk next off' offs) : Walk next off (off :: offs)

variable {next : Nat → Option Nat} {off : Nat} {offs offs' : List Nat}

theorem Walk.unique (h : Walk next off offs) (h' : Walk next off offs') : offs = offs' := by
  induction h generalizing offs' with
  | done hend =>
      cases h' with
      | done => rfl
      | step hnext _ =>
          rw [hend] at hnext
          cases hnext
  | step hnext hrest ih =>
      cases h' with
      | done hend =>
          rw [hend] at hnext
          cases hnext
      | step hnext' hrest' =>
          rw [hnext] at hnext'
          rw [Option.some.inj hnext'] at ih
          rw [ih hrest']

/-- Every record of a walk is one. -/
theorem Walk.isSome (h : Walk next off offs) : ∀ o ∈ offs, (next o).isSome := by
  induction h with
  | done => simp
  | step hnext _ ih =>
      refine List.forall_mem_cons.mpr ⟨?_, ih⟩
      rw [hnext]
      rfl

section Progress

variable {limit : Nat} (hprogress : ∀ off off', next off = some off' → off < off' ∧ off' ≤ limit)

include hprogress

/-- Records that take some room come to an end. -/
theorem exists_walk (off : Nat) : ∃ offs, Walk next off offs := by
  obtain ⟨n, hn⟩ : ∃ n, limit - off = n := ⟨_, rfl⟩
  induction n using Nat.strong_induction_on generalizing off with
  | _ n ih =>
      cases hnext : next off with
      | none => exact ⟨[], .done hnext⟩
      | some off' =>
          obtain ⟨hlt, hle⟩ := hprogress off off' hnext
          obtain ⟨offs, hrest⟩ := ih (limit - off') (by omega) off' rfl
          exact ⟨off :: offs, .step hnext hrest⟩

theorem Walk.length_le (h : Walk next off offs) : offs.length ≤ limit - off := by
  induction h with
  | done => exact Nat.zero_le _
  | step hnext _ ih =>
      obtain ⟨hlt, hle⟩ := hprogress _ _ hnext
      rw [List.length_cons]
      omega

/-- The records do not overlap: the next one begins where one ends. -/
theorem Walk.le (h : Walk next off offs) : ∀ o ∈ offs, off ≤ o := by
  induction h with
  | done => simp
  | step hnext _ ih =>
      obtain ⟨hlt, -⟩ := hprogress _ _ hnext
      refine List.forall_mem_cons.mpr ⟨le_rfl, fun o ho => ?_⟩
      have hle := ih o ho
      omega

end Progress

/-- A loop that takes one record after the other, with `n` rounds to spare.  `inv` is what holds
before each of them. -/
theorem Walk.loop_eq {σ τ : Type*} (loop : Nat → Nat → σ → τ) {step : σ → Nat → σ} {ret : σ → τ}
    {n : Nat} {inv : Nat → σ → Prop}
    (hinv : ∀ off off' s, inv off s → next off = some off' → inv off' (step s off))
    (hdone : ∀ off s, inv off s → next off = none → loop n off s = ret s)
    (hstep : ∀ off off' fuel s, inv off s → next off = some off' →
      loop (fuel + 1) off s = loop fuel off' (step s off))
    (h : Walk next off offs) {s : σ} (hs : inv off s) :
    loop (offs.length + n) off s = ret (offs.foldl step s) := by
  induction h generalizing s with
  | done hend =>
      rw [List.length_nil, Nat.zero_add]
      exact hdone _ s hs hend
  | @step off off' offs hnext _ ih =>
      have hlen : (off :: offs).length + n = offs.length + n + 1 := by
        rw [List.length_cons]
        omega
      rw [hlen, hstep off off' _ s hs hnext, List.foldl_cons]
      exact ih (hinv off off' s hs hnext)

/-! ### Arrays with a count -/

/-- The used part of an array. -/
structure Capped (α : Type*) (cap : Nat) where
  list : List α
  length_le : list.length ≤ cap

def Capped.push {α : Type*} {cap : Nat} (c : Capped α cap) (a : α) (hroom : c.list.length < cap) :
    Capped α cap :=
  ⟨c.list ++ [a], by rw [List.length_append]; exact hroom⟩

def Capped.empty {α : Type*} {cap : Nat} : Capped α cap := ⟨[], Nat.zero_le cap⟩

/-- The array after an element: with what the element adds, if there is room. -/
def Capped.extend {α : Type*} {cap : Nat} (c : Capped α cap) (entry : Option α) : Capped α cap :=
  match entry with
  | none => c
  | some a => if hroom : c.list.length < cap then c.push a hroom else c

@[simp] theorem Capped.extend_none {α : Type*} {cap : Nat} (c : Capped α cap) :
    c.extend none = c := rfl

theorem Capped.extend_some {α : Type*} {cap : Nat} {c : Capped α cap} (a : α)
    (hroom : c.list.length < cap) : c.extend (some a) = c.push a hroom := dif_pos hroom

theorem Capped.extend_full {α : Type*} {cap : Nat} {c : Capped α cap} (a : α)
    (hfull : ¬ c.list.length < cap) : c.extend (some a) = c := dif_neg hfull

/-! ### What a fold keeps -/

section Fold

variable {β σ τ : Type*} {step : σ → β → σ}

/-- A value that some elements replace is the one of the last of them. -/
theorem foldl_latest (get : σ → τ) {value : β → Option τ}
    (hstep : ∀ s b, get (step s b) = (value b).getD (get s)) (l : List β) (s : σ) :
    get (l.foldl step s) = ((l.filterMap value).getLast?).getD (get s) := by
  induction l generalizing s with
  | nil => rfl
  | cons b rest ih =>
      rw [List.foldl_cons, ih, hstep, List.filterMap_cons]
      cases value b with
      | none => rfl
      | some t =>
          rw [List.getLast?_cons]
          rfl

/-- A flag that some elements set. -/
theorem foldl_any (get : σ → Bool) {sets : β → Bool}
    (hstep : ∀ s b, get (step s b) = (get s || sets b)) (l : List β) (s : σ) :
    get (l.foldl step s) = (get s || l.any sets) := by
  induction l generalizing s with
  | nil => simp
  | cons b rest ih => rw [List.foldl_cons, ih, hstep, List.any_cons, Bool.or_assoc]

/-- A list of limited length that some elements are added to. -/
theorem foldl_capped (get : σ → List τ) {entry : β → Option τ} {cap : Nat}
    (hstep : ∀ s b, get (step s b) =
      if (get s).length < cap then get s ++ (entry b).toList else get s)
    (l : List β) (s : σ) (hs : (get s).length ≤ cap) :
    get (l.foldl step s) = (get s ++ l.filterMap entry).take cap := by
  induction l generalizing s with
  | nil =>
      rw [List.filterMap_nil, List.append_nil, List.take_of_length_le hs]
      rfl
  | cons b rest ih =>
      have hnext := hstep s b
      rw [List.foldl_cons, List.filterMap_cons]
      by_cases hroom : (get s).length < cap
      · rw [if_pos hroom] at hnext
        cases hb : entry b with
        | none =>
            rw [hb, Option.toList_none, List.append_nil] at hnext
            rw [ih _ (by rw [hnext]; exact hs), hnext]
        | some t =>
            rw [hb, Option.toList_some] at hnext
            rw [ih _ (by rw [hnext, List.length_append]; exact hroom), hnext, List.append_assoc]
            rfl
      · have hfull : cap = (get s).length := by omega
        rw [if_neg hroom] at hnext
        rw [ih _ (by rw [hnext]; exact hs), hnext, hfull, List.take_left, List.take_left]

theorem foldl_extend {cap : Nat} (get : σ → Capped τ cap) {entry : β → Option τ}
    (hstep : ∀ s b, get (step s b) = (get s).extend (entry b)) (l : List β) (s : σ) :
    (get (l.foldl step s)).list = ((get s).list ++ l.filterMap entry).take cap := by
  have hlist : ∀ s b, (get (step s b)).list =
      if (get s).list.length < cap then (get s).list ++ (entry b).toList else (get s).list := by
    intro s b
    rw [hstep]
    cases entry b with
    | none => simp
    | some a =>
        by_cases hroom : (get s).list.length < cap
        · rw [Capped.extend_some a hroom, if_pos hroom]
          rfl
        · rw [Capped.extend_full a hroom, if_neg hroom]
  exact foldl_capped (fun s => (get s).list) hlist l s (get s).length_le

end Fold

end Records
