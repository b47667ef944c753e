/-
The MADT: the part of `brights_acpi_init` in `kernel/acpi.c` that walks its entries.

The table is a header of 44 bytes, and entries behind it that each begin with a type and a length.
Three types are stored, as long as there is room in their arrays; others are skipped.

The length of the table is a 32-bit number, and so are the offsets.  `none` is a read outside the
table, or a walk that has not come to its end.
-/
import BrightS.Lib.Memory
import BrightS.Lib.Records

namespace BrightS

open Bytes Records

def madtTypeIoapic : Nat := 1
def madtTypeOverride : Nat := 2
def madtTypeNmi : Nat := 4

def maxIoapic : Nat := 4
def maxLapicOverride : Nat := 4
def maxLapicNmi : Nat := 8

/-- `ioapic_info_t`. -/
structure IoapicEntry where
  id : Byte
  mmioAddr : BitVec 64
  gsiBase : BitVec 32
  deriving DecidableEq

/-- `lapic_override_t`: an interrupt that comes somewhere else. -/
structure LapicOverride where
  busSource : Byte
  irqSource : Byte
  gsi : BitVec 32
  flags : BitVec 16
  deriving DecidableEq

/-- `lapic_id` is never written and stays as the static storage has it. -/
structure LapicNmi where
  lapicId : Byte
  flags : BitVec 16
  lint : Byte
  deriving DecidableEq

/-- What the walk stores in `acpi_info_state`: the arrays with their counts. -/
structure MadtInfo where
  hasMadt : Bool
  lapicMmio : BitVec 32
  ioapic : Capped IoapicEntry maxIoapic
  override : Capped LapicOverride maxLapicOverride
  nmi : Capped LapicNmi maxLapicNmi

/-- The case distinction on the type, for an entry at `off`. -/
def madtEntry (madt : Mem) (madtLen off type len : Nat) (info : MadtInfo) : Option MadtInfo :=
  if type = madtTypeIoapic ∧ 12 ≤ len then
    if hroom : info.ioapic.list.length < maxIoapic then
      (fetch madtLen (off + 2) 1 (madt (off + 2))).bind fun id =>
      (fetch madtLen (off + 4) 4 (load32 madt (off + 4))).bind fun mmioAddr =>
      (fetch madtLen (off + 8) 4 (load32 madt (off + 8))).map fun gsiBase =>
      { info with ioapic := info.ioapic.push ⟨id, mmioAddr.setWidth 64, gsiBase⟩ hroom }
    else some info
  else if type = madtTypeOverride ∧ 10 ≤ len then
    if hroom : info.override.list.length < maxLapicOverride then
      (fetch madtLen (off + 2) 1 (madt (off + 2))).bind fun busSource =>
      (fetch madtLen (off + 3) 1 (madt (off + 3))).bind fun irqSource =>
      (fetch madtLen (off + 4) 4 (load32 madt (off + 4))).bind fun gsi =>
      (fetch madtLen (off + 8) 2 (load16 madt (off + 8))).map fun flags =>
      { info with override := info.override.push ⟨busSource, irqSource, gsi, flags⟩ hroom }
    else some info
  else if type = madtTypeNmi ∧ 8 ≤ len then
    if hroom : info.nmi.list.length < maxLapicNmi then
      (fetch madtLen (off + 5) 1 (madt (off + 5))).bind fun lint =>
      (fetch madtLen (off + 2) 2 (load16 madt (off + 2))).map fun flags =>
      { info with nmi := info.nmi.push ⟨0, flags, lint⟩ hroom }
    else some info
  else some info

/-- The `while` loop over the entries, for at most `fuel` rounds. -/
def madtLoop (madt : Mem) (madtLen : Nat) : Nat → Nat → MadtInfo → Option MadtInfo
  | 0, _, _ => none
  | fuel + 1, off, info =>
      if (off + 2) % 2 ^ 32 ≤ madtLen then
        (fetch madtLen off 1 (madt off)).bind fun type =>
        (fetch madtLen (off + 1) 1 (madt (off + 1))).bind fun len =>
        if len.toNat < 2 ∨ madtLen < (off + len.toNat) % 2 ^ 32 then some info else
        (madtEntry madt madtLen off type.toNat len.toNat info).bind fun info =>
        madtLoop madt madtLen fuel ((off + len.toNat) % 2 ^ 32) info
      else some info

/-- The branch of `brights_acpi_init` for this table. -/
def parseMadt (madt : Mem) (madtLen fuel : Nat) (info : MadtInfo) : Option MadtInfo :=
  let info := { info with hasMadt := true }
  let info := if 44 ≤ madtLen then { info with lapicMmio := load32 madt 36 } else info
  madtLoop madt madtLen fuel 44 info

end BrightS
