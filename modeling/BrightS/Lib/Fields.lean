/-
Fields that name their length.

A field is a code, the length of its data and the data.  A list of fields ends with a byte that is
no code, or with the room for it.  Memory that holds such a list (`Lies`) is walked over from field
to field, and at every offset there is the field of the list (`Lies.walk`, `Lies.fieldsAt`); so a
loop over memory is one over the list (`filterMap_fields`, `findSome_fields`).
-/
import BrightS.Lib.Bytes
import BrightS.Lib.Records

namespace Fields

open Bytes Records

structure Field where
  code : Byte
  data : List Byte
  fits : data.length < 2 ^ 8

def Field.bytes (f : Field) : List Byte := f.code :: BitVec.ofNat 8 f.data.length :: f.data

def encode (fs : List Field) : List Byte := fs.flatMap Field.bytes

/-- Where the fields begin. -/
def offsets : Nat → List Field → List Nat
  | _, [] => []
  | off, f :: fs => off :: offsets (off + f.bytes.length) fs

/-- The end of the field at an offset; none if there is the end of the list. -/
def next (m : Mem) (stop : Byte) (limit off : Nat) : Option Nat :=
  if m off ≠ stop ∧ off < limit then some (off + (2 + (m (off + 1)).toNat)) else none

structure FieldAt (m : Mem) (off : Nat) (f : Field) : Prop where
  code : m off = f.code
  length : (m (off + 1)).toNat = f.data.length
  data : Holds m (off + 2) f.data

/-- Memory holds the fields from an offset on, and the end behind them. -/
structure Lies (m : Mem) (stop : Byte) (limit off : Nat) (fs : List Field) : Prop where
  codes : ∀ f ∈ fs, f.code ≠ stop
  room : off + (encode fs).length ≤ limit
  holds : Holds m off (encode fs)
  ends : off + (encode fs).length < limit → m (off + (encode fs).length) = stop

variable {m : Mem} {stop : Byte} {limit off off' : Nat} {f : Field} {fs : List Field}
  {offs : List Nat}

@[simp] theorem encode_nil : encode [] = [] := rfl

@[simp] theorem encode_cons (f : Field) (fs : List Field) :
    encode (f :: fs) = f.bytes ++ encode fs := rfl

@[simp] theorem length_bytes (f : Field) : f.bytes.length = 2 + f.data.length := by
  unfold Field.bytes
  rw [List.length_cons, List.length_cons]
  omega

/-! ### Walks over memory -/

theorem next_some (hnext : next m stop limit off = some off') :
    m off ≠ stop ∧ off < limit ∧ off' = off + (2 + (m (off + 1)).toNat) := by
  unfold next at hnext
  split_ifs at hnext with h
  exact ⟨h.1, h.2, (Option.some.inj hnext).symm⟩

theorem next_none (hend : next m stop limit off = none) : ¬ (m off ≠ stop ∧ off < limit) := by
  intro h
  unfold next at hend
  rw [if_pos h] at hend
  cases hend

/-- Every memory is walked over in the end: the last field may reach over the limit. -/
theorem exists_fields (m : Mem) (stop : Byte) (limit off : Nat) :
    ∃ offs, Walk (next m stop limit) off offs := by
  have hprogress : ∀ off off', next m stop limit off = some off' →
      off < off' ∧ off' ≤ limit + 2 ^ 9 := by
    intro off off' hnext
    obtain ⟨-, hlt, rfl⟩ := next_some hnext
    have hbyte := (m (off + 1)).isLt
    omega
  exact exists_walk hprogress off

theorem length_le_of_walk (h : Walk (next m stop limit) off offs) : offs.length ≤ limit - off := by
  induction h with
  | done => exact Nat.zero_le _
  | step hnext _ ih =>
      obtain ⟨-, hlt, rfl⟩ := next_some hnext
      rw [List.length_cons]
      omega

/-! ### Lists in memory -/

theorem fieldAt_of_holds (h : Holds m off f.bytes) : FieldAt m off f := by
  refine ⟨h.head, ?_, h.tail.tail⟩
  rw [h.tail.head, BitVec.toNat_ofNat]
  exact Nat.mod_eq_of_lt f.fits

theorem Lies.head (h : Lies m stop limit off (f :: fs)) : FieldAt m off f := by
  have hholds := h.holds
  rw [encode_cons] at hholds
  exact fieldAt_of_holds hholds.left

theorem Lies.tail (h : Lies m stop limit off (f :: fs)) :
    Lies m stop limit (off + f.bytes.length) fs := by
  have hlen : off + f.bytes.length + (encode fs).length = off + (encode (f :: fs)).length := by
    rw [encode_cons, List.length_append]
    omega
  have hholds := h.holds
  rw [encode_cons] at hholds
  refine ⟨fun g hg => h.codes g (List.mem_cons_of_mem f hg), ?_, hholds.right, ?_⟩
  · rw [hlen]
    exact h.room
  · rw [hlen]
    exact h.ends

theorem Lies.next_cons (h : Lies m stop limit off (f :: fs)) :
    next m stop limit off = some (off + f.bytes.length) := by
  have hroom := h.room
  rw [encode_cons, List.length_append, length_bytes] at hroom
  have hstop : m off ≠ stop := by
    rw [h.head.code]
    exact h.codes f (List.mem_cons_self ..)
  unfold next
  rw [if_pos ⟨hstop, by omega⟩, h.head.length, length_bytes]

theorem Lies.next_nil (h : Lies m stop limit off []) : next m stop limit off = none := by
  refine if_neg fun hgo => ?_
  exact hgo.1 (h.ends (by simpa using hgo.2))

theorem Lies.walk (h : Lies m stop limit off fs) :
    Walk (next m stop limit) off (offsets off fs) := by
  induction fs generalizing off with
  | nil => exact .done h.next_nil
  | cons f fs ih => exact .step h.next_cons (ih h.tail)

theorem Lies.fieldsAt (h : Lies m stop limit off fs) :
    List.Forall₂ (FieldAt m) (offsets off fs) fs := by
  induction fs generalizing off with
  | nil => exact .nil
  | cons f fs ih => exact .cons h.head (ih h.tail)

theorem FieldAt.unique {g : Field} (h : FieldAt m off f) (h' : FieldAt m off g) : f = g := by
  obtain ⟨code, data, fits⟩ := f
  obtain ⟨code', data', fits'⟩ := g
  obtain rfl : code = code' := h.code.symm.trans h'.code
  have hdata : data = data' := List.ext_getElem (h.length.symm.trans h'.length) fun i hi hi' =>
    (h.data i hi).symm.trans (h'.data i hi')
  subst hdata
  rfl

/-- Memory holds no more than one list. -/
theorem Lies.unique {gs : List Field} (h : Lies m stop limit off fs)
    (h' : Lies m stop limit off gs) : fs = gs := by
  have hsame : ∀ {offs fs gs}, List.Forall₂ (FieldAt m) offs fs →
      List.Forall₂ (FieldAt m) offs gs → fs = gs := by
    intro offs fs gs hfs
    induction hfs generalizing gs with
    | nil =>
        intro hgs
        cases hgs
        rfl
    | cons hat _ ih =>
        intro hgs
        cases hgs with
        | cons hat' hrest => rw [hat.unique hat', ih hrest]
  refine hsame h.fieldsAt ?_
  rw [h.walk.unique h'.walk]
  exact h'.fieldsAt

/-! ### Loops -/

variable {τ : Type*} {value : Nat → Option τ} {read : Field → Option τ}

theorem filterMap_fields (hvalue : ∀ o f, FieldAt m o f → value o = read f)
    (h : List.Forall₂ (FieldAt m) offs fs) : offs.filterMap value = fs.filterMap read := by
  induction h with
  | nil => rfl
  | cons hat _ ih => rw [List.filterMap_cons, List.filterMap_cons, hvalue _ _ hat, ih]

theorem findSome_fields (hvalue : ∀ o f, FieldAt m o f → value o = read f)
    (h : List.Forall₂ (FieldAt m) offs fs) : offs.findSome? value = fs.findSome? read := by
  induction h with
  | nil => rfl
  | cons hat _ ih => rw [List.findSome?_cons, List.findSome?_cons, hvalue _ _ hat, ih]

/-- A loop that is left at the first record with a value, with `n` rounds to spare. -/
theorem find_loop_eq {next : Nat → Option Nat} (loop : Nat → Nat → τ) {found : Nat → Option τ}
    {default : τ} {n : Nat} (hdone : ∀ off, next off = none → loop (n + 1) off = default)
    (hfound : ∀ off off' fuel t, next off = some off' → found off = some t →
      loop (fuel + 1) off = t)
    (hgo : ∀ off off' fuel, next off = some off' → found off = none →
      loop (fuel + 1) off = loop fuel off')
    (h : Walk next off offs) :
    loop (offs.length + (n + 1)) off = (offs.findSome? found).getD default := by
  induction h with
  | done hend =>
      rw [List.length_nil, Nat.zero_add]
      exact hdone _ hend
  | @step off off' offs hnext _ ih =>
      have hlen : (off :: offs).length + (n + 1) = offs.length + (n + 1) + 1 := by
        rw [List.length_cons]
        omega
      rw [hlen, List.findSome?_cons]
      cases hat : found off with
      | some t => exact hfound off off' _ t hnext hat
      | none =>
          rw [hgo off off' _ hnext hat]
          exact ih

end Fields
