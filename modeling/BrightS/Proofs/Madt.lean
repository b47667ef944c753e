/-
The walk over the MADT.

The entries of a table are a walk over records (`nextEntry`).  Each is looked at once, and what is
recorded are the long enough ones of the three kinds, in order and up to the room there is
(`madt_parse_exact`).
-/
import BrightS.Kernel.Madt

namespace BrightS

open Bytes Records

/-! ### Entries -/

def entryType (madt : Mem) (off : Nat) : Nat := (madt off).toNat
def entryLen (madt : Mem) (off : Nat) : Nat := (madt (off + 1)).toNat

/-- The end of the entry at an offset; none if it is malformed, or there is none. -/
def nextEntry (madt : Mem) (madtLen off : Nat) : Option Nat :=
  if off + 2 ≤ madtLen ∧ 2 ≤ entryLen madt off ∧ off + entryLen madt off ≤ madtLen then
    some (off + entryLen madt off)
  else none

def ioapicAt (madt : Mem) (off : Nat) : Option IoapicEntry :=
  if entryType madt off = madtTypeIoapic ∧ 12 ≤ entryLen madt off then
    some ⟨madt (off + 2), (load32 madt (off + 4)).setWidth 64, load32 madt (off + 8)⟩
  else none

def overrideAt (madt : Mem) (off : Nat) : Option LapicOverride :=
  if entryType madt off = madtTypeOverride ∧ 10 ≤ entryLen madt off then
    some ⟨madt (off + 2), madt (off + 3), load32 madt (off + 4), load16 madt (off + 8)⟩
  else none

def nmiAt (madt : Mem) (off : Nat) : Option LapicNmi :=
  if entryType madt off = madtTypeNmi ∧ 8 ≤ entryLen madt off then
    some ⟨0, load16 madt (off + 2), madt (off + 5)⟩
  else none

variable {madt : Mem} {madtLen off off' : Nat}

theorem nextEntry_some (hnext : nextEntry madt madtLen off = some off') :
    off + 2 ≤ madtLen ∧ 2 ≤ entryLen madt off ∧ off' = off + entryLen madt off ∧
      off' ≤ madtLen := by
  unfold nextEntry at hnext
  split_ifs at hnext with h
  obtain rfl := Option.some.inj hnext
  exact ⟨h.1, h.2.1, rfl, h.2.2⟩

theorem entryLen_lt (madt : Mem) (off : Nat) : entryLen madt off < 256 := (madt (off + 1)).isLt

theorem nextEntry_progress (off off' : Nat) (hnext : nextEntry madt madtLen off = some off') :
    off < off' ∧ off' ≤ madtLen := by
  obtain ⟨-, htwo, rfl, hle⟩ := nextEntry_some hnext
  exact ⟨by omega, hle⟩

/-! ### One entry -/

/-- What is recorded after an entry. -/
def MadtInfo.record (madt : Mem) (info : MadtInfo) (off : Nat) : MadtInfo :=
  { info with
    ioapic := info.ioapic.extend (ioapicAt madt off)
    override := info.override.extend (overrideAt madt off)
    nmi := info.nmi.extend (nmiAt madt off) }

/-- The case distinction records the entry, and reads in it. -/
theorem madtEntry_eq (hnext : nextEntry madt madtLen off = some off') (info : MadtInfo) :
    madtEntry madt madtLen off (entryType madt off) (entryLen madt off) info =
      some (info.record madt off) := by
  obtain ⟨-, -, rfl, hle⟩ := nextEntry_some hnext
  unfold madtEntry MadtInfo.record ioapicAt overrideAt nmiAt
  by_cases hioapic : entryType madt off = madtTypeIoapic ∧ 12 ≤ entryLen madt off
  · have hoverride : ¬ (entryType madt off = madtTypeOverride ∧ 10 ≤ entryLen madt off) :=
      fun h => absurd (hioapic.1.symm.trans h.1) (by decide)
    have hnmi : ¬ (entryType madt off = madtTypeNmi ∧ 8 ≤ entryLen madt off) :=
      fun h => absurd (hioapic.1.symm.trans h.1) (by decide)
    rw [if_pos hioapic, if_pos hioapic, if_neg hoverride, if_neg hnmi]
    by_cases hroom : info.ioapic.list.length < maxIoapic
    · rw [dif_pos hroom, fetch_bind_of_le (by omega), fetch_bind_of_le (by omega),
        fetch_of_le (by omega)]
      simp [Capped.extend_some _ hroom]
    · rw [dif_neg hroom]
      simp [Capped.extend_full _ hroom]
  rw [if_neg hioapic, if_neg hioapic]
  by_cases hoverride : entryType madt off = madtTypeOverride ∧ 10 ≤ entryLen madt off
  · have hnmi : ¬ (entryType madt off = madtTypeNmi ∧ 8 ≤ entryLen madt off) :=
      fun h => absurd (hoverride.1.symm.trans h.1) (by decide)
    rw [if_pos hoverride, if_pos hoverride, if_neg hnmi]
    by_cases hroom : info.override.list.length < maxLapicOverride
    · rw [dif_pos hroom, fetch_bind_of_le (by omega), fetch_bind_of_le (by omega),
        fetch_bind_of_le (by omega), fetch_of_le (by omega)]
      simp [Capped.extend_some _ hroom]
    · rw [dif_neg hroom]
      simp [Capped.extend_full _ hroom]
  rw [if_neg hoverride, if_neg hoverride]
  by_cases hnmi : entryType madt off = madtTypeNmi ∧ 8 ≤ entryLen madt off
  · rw [if_pos hnmi, if_pos hnmi]
    by_cases hroom : info.nmi.list.length < maxLapicNmi
    · rw [dif_pos hroom, fetch_bind_of_le (by omega), fetch_of_le (by omega)]
      simp [Capped.extend_some _ hroom]
    · rw [dif_neg hroom]
      simp [Capped.extend_full _ hroom]
  · rw [if_neg hnmi, if_neg hnmi]
    rfl

/-! ### The loop -/

theorem madtLoop_done (hlen : madtLen ≤ 2 ^ 32 - 256) (hoff : off ≤ 2 ^ 32 - 256)
    (hend : nextEntry madt madtLen off = none) (n : Nat) (info : MadtInfo) :
    madtLoop madt madtLen (n + 1) off info = some info := by
  have hlt := entryLen_lt madt off
  unfold nextEntry at hend
  rw [madtLoop, Nat.mod_eq_of_lt (by omega)]
  by_cases hroom : off + 2 ≤ madtLen
  · have hmalformed : (madt (off + 1)).toNat < 2 ∨
        madtLen < (off + (madt (off + 1)).toNat) % 2 ^ 32 := by
      rw [ite_eq_right_iff] at hend
      have hno : ¬ (off + 2 ≤ madtLen ∧ 2 ≤ entryLen madt off ∧
          off + entryLen madt off ≤ madtLen) := fun h => by cases hend h
      unfold entryLen at hno hlt
      rw [Nat.mod_eq_of_lt (by omega)]
      omega
    rw [if_pos hroom, fetch_bind_of_le (by omega), fetch_bind_of_le (by omega),
      if_pos hmalformed]
  · rw [if_neg hroom]

theorem madtLoop_step (hlen : madtLen ≤ 2 ^ 32 - 256)
    (hnext : nextEntry madt madtLen off = some off') (fuel : Nat) (info : MadtInfo) :
    madtLoop madt madtLen (fuel + 1) off info =
      madtLoop madt madtLen fuel off' (info.record madt off) := by
  obtain ⟨htwo, hpos, rfl, hle⟩ := nextEntry_some hnext
  have hentry := madtEntry_eq hnext info
  unfold entryType entryLen at hentry
  unfold entryLen at hpos hle ⊢
  rw [madtLoop, Nat.mod_eq_of_lt (by omega), if_pos htwo, fetch_bind_of_le (by omega),
    fetch_bind_of_le (by omega), Nat.mod_eq_of_lt (by omega), if_neg (by omega), hentry,
    Option.bind_some]

/-- The loop records the entries one after the other. -/
theorem madtLoop_eq (hlen : madtLen ≤ 2 ^ 32 - 256) {offs : List Nat}
    (h : Walk (nextEntry madt madtLen) 44 offs) {fuel : Nat} (hfuel : offs.length < fuel)
    (info : MadtInfo) :
    madtLoop madt madtLen fuel 44 info = some (offs.foldl (MadtInfo.record madt) info) := by
  obtain ⟨n, rfl⟩ : ∃ n, fuel = offs.length + (n + 1) := ⟨fuel - offs.length - 1, by omega⟩
  have hinv : ∀ off off' (_ : MadtInfo), off ≤ 2 ^ 32 - 256 → nextEntry madt madtLen off = some off' →
      off' ≤ 2 ^ 32 - 256 := by
    intro off off' _ _ hnext
    have hle := (nextEntry_progress off off' hnext).2
    omega
  exact h.loop_eq (madtLoop madt madtLen) hinv
    (fun off info hoff hend => madtLoop_done hlen hoff hend n info)
    (fun off off' fuel info _ hnext => madtLoop_step hlen hnext fuel info) (by decide)

theorem record_fields (madt : Mem) (offs : List Nat) (info : MadtInfo) :
    (offs.foldl (MadtInfo.record madt) info).hasMadt = info.hasMadt ∧
      (offs.foldl (MadtInfo.record madt) info).lapicMmio = info.lapicMmio := by
  induction offs generalizing info with
  | nil => exact ⟨rfl, rfl⟩
  | cons off rest ih => exact ih (info.record madt off)

/-! ### The table -/

/-- What is recorded before the entries. -/
def MadtInfo.start (madt : Mem) (madtLen : Nat) (info : MadtInfo) : MadtInfo :=
  { info with
    hasMadt := true
    lapicMmio := if 44 ≤ madtLen then load32 madt 36 else info.lapicMmio }

theorem parseMadt_eq (madt : Mem) (madtLen fuel : Nat) (info : MadtInfo) :
    parseMadt madt madtLen fuel info =
      madtLoop madt madtLen fuel 44 (info.start madt madtLen) := by
  unfold parseMadt MadtInfo.start
  split_ifs
  · rfl
  · rfl

/--
**The walk over the MADT is safe and exact.**  For a table of any content the walk ends and reads
inside the table.  It records the I/O APICs, overrides and NMIs of sufficient length before the
first malformed entry, in order, behind what has been recorded before, up to the capacity of each
array.
-/
theorem madt_parse_exact (madt : Mem) (hlen : madtLen ≤ 2 ^ 32 - 256) (info : MadtInfo) :
    ∃ offs, Walk (nextEntry madt madtLen) 44 offs ∧ ∀ fuel, madtLen < fuel →
      ∃ info', parseMadt madt madtLen fuel info = some info' ∧ info'.hasMadt = true ∧
        info'.lapicMmio = (if 44 ≤ madtLen then load32 madt 36 else info.lapicMmio) ∧
        info'.ioapic.list = (info.ioapic.list ++ offs.filterMap (ioapicAt madt)).take maxIoapic ∧
        info'.override.list =
          (info.override.list ++ offs.filterMap (overrideAt madt)).take maxLapicOverride ∧
        info'.nmi.list = (info.nmi.list ++ offs.filterMap (nmiAt madt)).take maxLapicNmi := by
  obtain ⟨offs, hwalk⟩ := exists_walk nextEntry_progress 44
  refine ⟨offs, hwalk, fun fuel hfuel => ?_⟩
  have hcount := hwalk.length_le nextEntry_progress
  have hparse : parseMadt madt madtLen fuel info =
      some (offs.foldl (MadtInfo.record madt) (info.start madt madtLen)) := by
    rw [parseMadt_eq]
    exact madtLoop_eq hlen hwalk (by omega) _
  refine ⟨_, hparse, ?_, ?_, ?_, ?_, ?_⟩
  · exact (record_fields madt offs _).1
  · exact (record_fields madt offs _).2
  · exact foldl_extend MadtInfo.ioapic (fun _ _ => rfl) offs _
  · exact foldl_extend MadtInfo.override (fun _ _ => rfl) offs _
  · exact foldl_extend MadtInfo.nmi (fun _ _ => rfl) offs _

def noMadt : MadtInfo where
  hasMadt := false
  lapicMmio := 0
  ioapic := .empty
  override := .empty
  nmi := .empty

/-- An I/O APIC behind the header, an entry without a length, and another I/O APIC. -/
def brokenMadt : Mem :=
  onto (List.replicate 44 0 ++ [1, 12, 2, 0, 0, 0, 0xC0, 0xFE, 0, 0, 0, 0] ++ [1, 0] ++
    [1, 12, 3, 0, 0, 0, 0xC1, 0xFE, 24, 0, 0, 0]) fun _ => 0

/-- The walk ends at the entry without a length. -/
theorem madt_parse_exact_broken :
    ∃ info', parseMadt brokenMadt 70 71 noMadt = some info' ∧
      info'.ioapic.list = [⟨2, 0xFEC00000, 0⟩] := by
  have hnext : nextEntry brokenMadt 70 44 = some 56 := by decide +kernel
  have hend : nextEntry brokenMadt 70 56 = none := by decide +kernel
  have hlen : 70 ≤ 2 ^ 32 - 256 := by decide
  obtain ⟨offs, hwalk, hparse⟩ := madt_parse_exact brokenMadt hlen noMadt
  obtain rfl := hwalk.unique (.step hnext (.done hend))
  obtain ⟨info', hinfo', -, -, hioapic, -⟩ := hparse 71 (by decide)
  refine ⟨info', hinfo', hioapic.trans ?_⟩
  decide +kernel

end BrightS
