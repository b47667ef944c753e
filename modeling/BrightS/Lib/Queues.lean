/-
Queues in a ring of cells.

A ring keeps its items in a circle of `cap` cells, the oldest at `rd`, and the next item
goes to `wr`.  `stored` is the list the ring stands for.  A full ring either refuses an
item or gives up its oldest one; `overwrite` is the latter.

Over a run a queue is judged by an account: what was put in is what came out, in the same
order, and then what is still held.  `account` adds up the accounts of the steps.
A `Mailbox` keeps the account of a queue that gives items up: each item that left it was
handed over, or lost because a newer one needed the place.
-/
import BrightS.Lib.Runs

namespace Queues

open Runs

variable {α : Type}

/-! ### Rings -/

structure RingBuf (α : Type) where
  buf : Nat → α
  rd : Nat
  wr : Nat
  len : Nat

namespace RingBuf

variable {cap : Nat} {r : RingBuf α}

/-- The indices lie in the circle, `len` cells apart. -/
structure Sound (cap : Nat) (r : RingBuf α) : Prop where
  rd_lt : r.rd < cap
  len_le : r.len ≤ cap
  wr_eq : r.wr = (r.rd + r.len) % cap

/-- The items in the ring, the oldest first. -/
def stored (cap : Nat) (r : RingBuf α) : List α :=
  (List.range r.len).map fun k => r.buf ((r.rd + k) % cap)

def put (cap : Nat) (r : RingBuf α) (x : α) : RingBuf α where
  buf := Function.update r.buf r.wr x
  rd := r.rd
  wr := (r.wr + 1) % cap
  len := r.len + 1

def get (cap : Nat) (r : RingBuf α) : RingBuf α :=
  { r with rd := (r.rd + 1) % cap, len := r.len - 1 }

/-- The oldest item makes room for the new one. -/
def overwrite (cap : Nat) (r : RingBuf α) (x : α) : RingBuf α where
  buf := Function.update r.buf r.wr x
  rd := (r.rd + 1) % cap
  wr := (r.wr + 1) % cap
  len := r.len

@[simp] theorem length_stored : (r.stored cap).length = r.len := by
  simp [stored]

/-- An empty ring stands for the empty list, whatever its cells hold. -/
theorem stored_empty (hlen : r.len = 0) : r.stored cap = [] := by
  simp [stored, hlen]

theorem Sound.pos (h : r.Sound cap) : 0 < cap := Nat.lt_of_le_of_lt (Nat.zero_le _) h.rd_lt

theorem Sound.empty (buf : Nat → α) (hcap : 0 < cap) : Sound cap ⟨buf, 0, 0, 0⟩ :=
  ⟨hcap, Nat.zero_le _, rfl⟩

/-- Going around once, no two cells of the circle are the same. -/
theorem cell_ne {rd j k : Nat} (hjk : j < k) (hk : k < cap) :
    (rd + j) % cap ≠ (rd + k) % cap := by
  intro heq
  have hdvd : cap ∣ (rd + k) - (rd + j) := (Nat.modEq_iff_dvd' (by omega)).mp heq
  have hle := Nat.le_of_dvd (by omega) hdvd
  omega

theorem Sound.put (h : r.Sound cap) (hroom : r.len < cap) (x : α) : (r.put cap x).Sound cap where
  rd_lt := h.rd_lt
  len_le := hroom
  wr_eq := by
    show (r.wr + 1) % cap = (r.rd + (r.len + 1)) % cap
    rw [h.wr_eq, Nat.mod_add_mod, Nat.add_assoc]

theorem stored_put (h : r.Sound cap) (hroom : r.len < cap) (x : α) :
    (r.put cap x).stored cap = r.stored cap ++ [x] := by
  have hold : ∀ k ∈ List.range r.len,
      (r.put cap x).buf ((r.rd + k) % cap) = r.buf ((r.rd + k) % cap) := by
    intro k hk
    refine Function.update_of_ne ?_ x r.buf
    rw [h.wr_eq]
    exact cell_ne (List.mem_range.mp hk) hroom
  have hnew : (r.put cap x).buf ((r.rd + r.len) % cap) = x := by
    rw [← h.wr_eq]
    exact Function.update_self r.wr x r.buf
  show (List.range (r.len + 1)).map (fun k => (r.put cap x).buf ((r.rd + k) % cap)) = _
  rw [List.range_succ, List.map_append, List.map_congr_left hold, List.map_singleton, hnew]
  rfl

theorem Sound.get (h : r.Sound cap) (hpos : 0 < r.len) : (r.get cap).Sound cap where
  rd_lt := Nat.mod_lt _ h.pos
  len_le := Nat.le_trans (Nat.sub_le _ _) h.len_le
  wr_eq := by
    show r.wr = ((r.rd + 1) % cap + (r.len - 1)) % cap
    rw [h.wr_eq, Nat.mod_add_mod]
    congr 1
    omega

theorem stored_get (h : r.Sound cap) (hpos : 0 < r.len) :
    r.stored cap = r.buf r.rd :: (r.get cap).stored cap := by
  obtain ⟨n, hn⟩ : ∃ n, r.len = n + 1 := ⟨r.len - 1, by omega⟩
  have hfirst : (r.rd + 0) % cap = r.rd := Nat.mod_eq_of_lt h.rd_lt
  show (List.range r.len).map _ =
    _ :: (List.range (r.len - 1)).map fun k => r.buf (((r.rd + 1) % cap + k) % cap)
  rw [hn, List.range_succ_eq_map, List.map_cons, List.map_map, hfirst, Nat.add_sub_cancel]
  congr 1
  refine List.map_congr_left fun k _ => ?_
  show r.buf ((r.rd + (k + 1)) % cap) = _
  rw [Nat.mod_add_mod, Nat.add_right_comm, Nat.add_assoc]

/-- To overwrite is to get and to put. -/
theorem overwrite_eq (hpos : 0 < r.len) (x : α) : r.overwrite cap x = (r.get cap).put cap x := by
  have hlen : r.len - 1 + 1 = r.len := Nat.sub_add_cancel hpos
  simp [overwrite, put, get, hlen]

theorem Sound.overwrite (h : r.Sound cap) (hfull : r.len = cap) (x : α) :
    (r.overwrite cap x).Sound cap := by
  have hpos : 0 < r.len := hfull ▸ h.pos
  rw [overwrite_eq hpos]
  exact (h.get hpos).put (show r.len - 1 < cap by omega) x

theorem stored_overwrite (h : r.Sound cap) (hfull : r.len = cap) (x : α) :
    (r.overwrite cap x).stored cap = (r.stored cap).tail ++ [x] := by
  have hpos : 0 < r.len := hfull ▸ h.pos
  rw [overwrite_eq hpos, stored_put (h.get hpos) (show r.len - 1 < cap by omega),
    stored_get h hpos]
  rfl

end RingBuf

/-! ### The account of a run -/

section Account

variable {σ ι : Type} {step : σ → ι → σ → Prop} {P : σ → Prop} {ins outs : ι → List α}
  {s s' : σ} {as : List ι}

/-- When each step accounts for what it puts in and takes out, so does each run. -/
theorem account (held : σ → List α)
    (hstep : ∀ s a s', P s → step s a s' → P s' ∧ held s ++ ins a = outs a ++ held s')
    (h : Executes step s as s') (hs : P s) :
    held s ++ as.flatMap ins = as.flatMap outs ++ held s' := by
  induction h with
  | nil => simp
  | cons ha _ ih =>
      obtain ⟨hmid, hone⟩ := hstep _ _ _ hs ha
      rw [List.flatMap_cons, List.flatMap_cons, ← List.append_assoc, hone, List.append_assoc,
        ih hmid, List.append_assoc]

end Account

/-! ### Mailboxes -/

/-- What came to a mailbox: the items that left it, with whether they were handed over, and
those that wait. -/
structure Mailbox (α : Type) where
  gone : List (α × Bool)
  pending : List α

namespace Mailbox

variable {cap : Nat} {m : Mailbox α}

def empty : Mailbox α := ⟨[], []⟩

/-- The items that came, the oldest first. -/
def arrived (m : Mailbox α) : List α := m.gone.map Prod.fst ++ m.pending

def handed (m : Mailbox α) : List α := (m.gone.filter fun e => e.2).map Prod.fst

def lost (m : Mailbox α) : List α := (m.gone.filter fun e => !e.2).map Prod.fst

/-- An item comes; in a full mailbox the oldest one is lost. -/
def arrive (cap : Nat) (m : Mailbox α) (x : α) : Mailbox α :=
  if m.pending.length < cap then { m with pending := m.pending ++ [x] }
  else { gone := m.gone ++ (m.pending.take 1).map fun e => (e, false)
         pending := m.pending.tail ++ [x] }

/-- The `n` oldest items are handed over. -/
def hand (m : Mailbox α) (n : Nat) : Mailbox α where
  gone := m.gone ++ (m.pending.take n).map fun e => (e, true)
  pending := m.pending.drop n

theorem arrived_arrive (m : Mailbox α) (x : α) (hcap : 0 < cap) :
    (m.arrive cap x).arrived = m.arrived ++ [x] := by
  unfold arrive
  split
  · simp [arrived]
  · rename_i hfull
    obtain ⟨y, rest, hy⟩ : ∃ y rest, m.pending = y :: rest :=
      List.exists_cons_of_length_pos (by omega)
    simp [arrived, hy]

theorem arrived_hand (m : Mailbox α) (n : Nat) : (m.hand n).arrived = m.arrived := by
  simp [arrived, hand, Function.comp_def, List.take_append_drop]

@[simp] theorem hand_zero (m : Mailbox α) : m.hand 0 = m := by
  simp [hand]

/-- The items of `l`, all with the same fate, as far as `keep` has that fate. -/
theorem map_filter_marked (keep : Bool → Bool) (fate : Bool) (l : List α) :
    ((l.map fun e => (e, fate)).filter fun e => keep e.2).map Prod.fst =
      if keep fate then l else [] := by
  induction l with
  | nil => simp
  | cons x rest ih =>
      cases hfate : keep fate with
      | false => simp [hfate]
      | true =>
          rw [hfate] at ih
          simpa [hfate] using ih

theorem handed_arrive (m : Mailbox α) (x : α) : (m.arrive cap x).handed = m.handed := by
  unfold arrive
  split
  · rfl
  · have hnone := map_filter_marked id false (m.pending.take 1)
    simp only [handed, List.filter_append, List.map_append]
    exact (congrArg (m.handed ++ ·) hnone).trans (List.append_nil _)

theorem handed_hand (m : Mailbox α) (n : Nat) :
    (m.hand n).handed = m.handed ++ m.pending.take n := by
  have hall := map_filter_marked id true (m.pending.take n)
  simp only [handed, hand, List.filter_append, List.map_append]
  exact congrArg (m.handed ++ ·) hall

theorem lost_hand (m : Mailbox α) (n : Nat) : (m.hand n).lost = m.lost := by
  have hnone := map_filter_marked (!·) true (m.pending.take n)
  simp only [lost, hand, List.filter_append, List.map_append]
  exact (congrArg (m.lost ++ ·) hnone).trans (List.append_nil _)

/-- An item is lost only in a full mailbox, and then it is the oldest. -/
theorem lost_arrive (cap : Nat) (m : Mailbox α) (x : α) :
    (m.arrive cap x).lost =
      m.lost ++ if m.pending.length < cap then [] else m.pending.take 1 := by
  unfold arrive
  split
  · simp [lost]
  · have hall := map_filter_marked (!·) false (m.pending.take 1)
    simp only [lost, List.filter_append, List.map_append]
    exact congrArg (m.lost ++ ·) hall

/-- Each item that came was handed over, was lost, or waits. -/
theorem length_arrived (m : Mailbox α) :
    m.arrived.length = m.lost.length + m.handed.length + m.pending.length := by
  have hsplit : ∀ l : List (α × Bool), l.length =
      (l.filter fun e => !e.2).length + (l.filter fun e => e.2).length := by
    intro l
    induction l with
    | nil => rfl
    | cons e rest ih =>
        cases hfate : e.2 with
        | false => simp [hfate, ih]; omega
        | true => simp [hfate, ih]; omega
  simp only [arrived, lost, handed, List.length_append, List.length_map]
  rw [hsplit m.gone]

end Mailbox

end Queues
