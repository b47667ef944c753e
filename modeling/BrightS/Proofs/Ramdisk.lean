/-
The range check of the RAM disk, and reading it byte by byte.

The check compares a sum that has been cut to 64 bits.  It is right as long as the end of the range
is a 64-bit number, or its remainder is behind the disk (`ramdisk_exact_iff`).  Reads of btrfs
are made of whole blocks: they are exact for whole blocks only (`btrfs_raw_read_exact_iff`).
-/
import BrightS.Kernel.Ramdisk

namespace BrightS

open Bytes

/-! ### Blocks -/

variable {disk : Ramdisk} {lba count : Nat}

/-- The disk with other bytes. -/
def Ramdisk.filled (disk : Ramdisk) (data : Mem) : Ramdisk := { disk with data := data }

@[simp] theorem Ramdisk.filled_data (disk : Ramdisk) (data : Mem) :
    (disk.filled data).data = data := rfl

/-- Where the check of a range looks. -/
theorem blockRange_mod (lba count : Nat) :
    (lba * blockSize % 2 ^ 64 + count * blockSize % 2 ^ 64) % 2 ^ 64 =
      (lba + count) * blockSize % 2 ^ 64 := by
  rw [← Nat.add_mod, Nat.add_mul]

/-- The blocks lie on the disk. -/
def Ramdisk.InRange (disk : Ramdisk) (lba count : Nat) : Prop :=
  (lba + count) * blockSize ≤ disk.size

/-- The check compares the end of the range, or refuses. -/
def Ramdisk.Checked (disk : Ramdisk) (lba count : Nat) : Prop :=
  (lba + count) * blockSize < 2 ^ 64 ∨ disk.size < (lba + count) * blockSize % 2 ^ 64

theorem Ramdisk.InRange.lt (h : disk.InRange lba count) :
    (lba + count) * blockSize < 2 ^ 64 :=
  Nat.lt_of_le_of_lt h disk.size_lt

/-- Below `2 ^ 64` nothing wraps. -/
theorem blockRange_eq (h : (lba + count) * blockSize < 2 ^ 64) :
    lba * blockSize % 2 ^ 64 = lba * blockSize ∧
      count * blockSize % 2 ^ 64 = count * blockSize ∧
      lba * blockSize + count * blockSize = (lba + count) * blockSize := by
  rw [Nat.add_mul] at h ⊢
  exact ⟨Nat.mod_eq_of_lt (by omega), Nat.mod_eq_of_lt (by omega), rfl⟩

theorem ramdiskRead_refused (h : disk.size < (lba + count) * blockSize % 2 ^ 64) (buf : Mem) :
    ramdiskRead disk lba buf count = some (buf, -1) := by
  unfold ramdiskRead
  dsimp only
  rw [blockRange_mod, if_pos h]

theorem ramdiskWrite_refused (h : disk.size < (lba + count) * blockSize % 2 ^ 64) (buf : Mem) :
    ramdiskWrite disk lba buf count = some (disk, -1) := by
  unfold ramdiskWrite
  dsimp only
  rw [blockRange_mod, if_pos h]

theorem ramdiskRead_inRange (h : disk.InRange lba count) (buf : Mem) :
    ramdiskRead disk lba buf count =
      some (copyFrom buf 0 disk.data (lba * blockSize) (count * blockSize), 0) := by
  obtain ⟨hoff, hbytes, hend⟩ := blockRange_eq h.lt
  have hle : ¬ disk.size < (lba + count) * blockSize := Nat.not_lt_of_le h
  unfold ramdiskRead
  dsimp only
  rw [blockRange_mod, hoff, hbytes, hend, Nat.mod_eq_of_lt h.lt, if_neg hle, if_neg hle]

theorem ramdiskWrite_inRange (h : disk.InRange lba count) (buf : Mem) :
    ramdiskWrite disk lba buf count =
      some (disk.filled (copyFrom disk.data (lba * blockSize) buf 0 (count * blockSize)), 0) := by
  obtain ⟨hoff, hbytes, hend⟩ := blockRange_eq h.lt
  have hle : ¬ disk.size < (lba + count) * blockSize := Nat.not_lt_of_le h
  unfold ramdiskWrite
  dsimp only
  rw [blockRange_mod, hoff, hbytes, hend, Nat.mod_eq_of_lt h.lt, if_neg hle, if_neg hle]
  rfl

/-- A range that is not checked is read as if it were in the disk, or runs over its end. -/
theorem ramdiskRead_unchecked (h : ¬ disk.size < (lba + count) * blockSize % 2 ^ 64) (buf : Mem) :
    ramdiskRead disk lba buf count = none ∨
      ∃ buf', ramdiskRead disk lba buf count = some (buf', 0) := by
  unfold ramdiskRead
  dsimp only
  rw [blockRange_mod, if_neg h]
  split_ifs
  · exact .inl rfl
  · exact .inr ⟨_, rfl⟩

/-- A checked range is refused, or lies on the disk. -/
theorem Ramdisk.Checked.cases (h : disk.Checked lba count) :
    (disk.size < (lba + count) * blockSize % 2 ^ 64 ∧ ¬ disk.InRange lba count) ∨
      disk.InRange lba count := by
  unfold Checked InRange at *
  by_cases hrefused : disk.size < (lba + count) * blockSize % 2 ^ 64
  · have hle := Nat.mod_le ((lba + count) * blockSize) (2 ^ 64)
    exact .inl ⟨hrefused, by omega⟩
  · have hlt := h.resolve_right hrefused
    rw [Nat.mod_eq_of_lt hlt] at hrefused
    exact .inr (by omega)

/-! ### Reading and writing -/

def Ramdisk.ReadExact (disk : Ramdisk) (lba count : Nat) : Prop :=
  ∀ buf, ∃ buf' ret, ramdiskRead disk lba buf count = some (buf', ret) ∧
    (ret = 0 ↔ disk.InRange lba count)

/-- What has been written is read back, and nothing else is written. -/
def Ramdisk.WriteExact (disk : Ramdisk) (lba count : Nat) : Prop :=
  ∀ src, ∃ disk' ret, ramdiskWrite disk lba src count = some (disk', ret) ∧
    (ret = 0 ↔ disk.InRange lba count) ∧
    (ret = 0 → ∀ buf, ∃ buf', ramdiskRead disk' lba buf count = some (buf', 0) ∧
      ∀ i, i < count * blockSize → buf' i = src i) ∧
    ∀ o, o < lba * blockSize ∨ (lba + count) * blockSize ≤ o → disk'.data o = disk.data o

theorem readExact_of_checked (h : disk.Checked lba count) : disk.ReadExact lba count := by
  intro buf
  rcases h.cases with ⟨hrefused, hout⟩ | hin
  · exact ⟨buf, -1, ramdiskRead_refused hrefused buf, iff_of_false (by decide) hout⟩
  · exact ⟨_, 0, ramdiskRead_inRange hin buf, iff_of_true rfl hin⟩

theorem writeExact_of_checked (h : disk.Checked lba count) : disk.WriteExact lba count := by
  intro src
  rcases h.cases with ⟨hrefused, hout⟩ | hin
  · exact ⟨disk, -1, ramdiskWrite_refused hrefused src, iff_of_false (by decide) hout,
      fun hret => absurd hret (by decide), fun _ _ => rfl⟩
  · refine ⟨_, 0, ramdiskWrite_inRange hin src, iff_of_true rfl hin, fun _ buf => ?_,
      fun o ho => ?_⟩
    · have hin' : (disk.filled (copyFrom disk.data (lba * blockSize) src 0
          (count * blockSize))).InRange lba count := hin
      refine ⟨_, ramdiskRead_inRange hin' buf, fun i hi => ?_⟩
      rw [copyFrom_apply, if_pos (by omega), Ramdisk.filled_data, copyFrom_apply, if_pos (by omega)]
      congr 1
      omega
    · have hend : (lba + count) * blockSize = lba * blockSize + count * blockSize :=
        Nat.add_mul ..
      rw [Ramdisk.filled_data, copyFrom_apply, if_neg (by omega)]

/--
**When the RAM disk is exact.**  Reads and writes succeed exactly in the disk, and what is written
is read back and nothing else changes, exactly if the end of the range does not wrap, or is refused
nevertheless.
-/
theorem ramdisk_exact_iff (disk : Ramdisk) (lba count : Nat) :
    disk.ReadExact lba count ∧ disk.WriteExact lba count ↔ disk.Checked lba count := by
  constructor
  · rintro ⟨hread, -⟩
    obtain ⟨buf', ret, hcall, hret⟩ := hread fun _ => 0
    by_cases hrefused : disk.size < (lba + count) * blockSize % 2 ^ 64
    · exact .inr hrefused
    rcases ramdiskRead_unchecked hrefused fun _ => 0 with hnone | ⟨buf'', hok⟩
    · rw [hnone] at hcall
      cases hcall
    · rw [hok] at hcall
      obtain ⟨-, rfl⟩ := Prod.mk.inj (Option.some.inj hcall)
      exact .inl (hret.mp rfl).lt
  · intro h
    exact ⟨readExact_of_checked h, writeExact_of_checked h⟩

/-- A disk of one block. -/
def oneBlockDisk : Ramdisk where
  size := 4096
  size_lt := by decide
  data := fun _ => 7

/-- Its block `2 ^ 52` is read without an error. -/
theorem ramdisk_reads_wrapped :
    (∃ buf, ramdiskRead oneBlockDisk (2 ^ 52) (fun _ => 0) 1 = some (buf, 0)) ∧
      ¬ oneBlockDisk.InRange (2 ^ 52) 1 ∧ ¬ oneBlockDisk.ReadExact (2 ^ 52) 1 := by
  have hcall : ∃ buf, ramdiskRead oneBlockDisk (2 ^ 52) (fun _ => 0) 1 = some (buf, 0) := by
    refine ⟨copyFrom (fun _ => 0) 0 oneBlockDisk.data 0 4096, ?_⟩
    unfold ramdiskRead
    dsimp only
    rw [if_neg (by decide), if_neg (by decide)]
    rfl
  have hout : ¬ oneBlockDisk.InRange (2 ^ 52) 1 := by
    unfold Ramdisk.InRange
    decide
  refine ⟨hcall, hout, fun hexact => ?_⟩
  obtain ⟨buf, hok⟩ := hcall
  obtain ⟨buf', ret, hread, hret⟩ := hexact fun _ => 0
  rw [hok] at hread
  obtain ⟨-, rfl⟩ := Prod.mk.inj (Option.some.inj hread)
  exact hout (hret.mp rfl)

/-! ### Reading bytes -/

/-- Whatever the disk and the buffer hold, a successful read stores the bytes of the disk from
`bytenr` on, and stores nothing behind them. -/
def Ramdisk.RawReadExact (disk : Ramdisk) (bytenr size : Nat) : Prop :=
  ∀ data dst, ∃ dst' ret,
    btrfsRawRead (some (disk.filled data)) bytenr dst size = some (dst', ret) ∧
      (ret = 0 → (∀ i, i < size → dst' i = data (bytenr + i)) ∧ ∀ i, size ≤ i → dst' i = dst i)

/-- The device refuses the blocks, nothing is asked for, or the bytes are whole blocks. -/
def Ramdisk.WholeBlocks (disk : Ramdisk) (bytenr size : Nat) : Prop :=
  disk.size < (bytenr / blockSize + blockCount size) * blockSize % 2 ^ 64 ∨ size = 0 ∨
    (blockSize ∣ bytenr ∧ blockSize ∣ size ∧ bytenr + size < 2 ^ 64)

/-- The blocks of whole blocks. -/
theorem blockCount_whole {size : Nat} (hsize : size < 2 ^ 64) (hwhole : blockSize ∣ size) :
    blockCount size * blockSize = size := by
  have hblock : blockSize = 4096 := rfl
  unfold blockCount
  rw [hblock] at hwhole ⊢
  omega

theorem blockCount_lt (size : Nat) : blockCount size * blockSize < 2 ^ 64 := by
  have hblock : blockSize = 4096 := rfl
  unfold blockCount
  rw [hblock]
  omega

/-- What a call does whose blocks are not refused. -/
theorem btrfsRawRead_cases {bytenr size : Nat} (hbytenr : bytenr < 2 ^ 64)
    (h : ¬ disk.size < (bytenr / blockSize + blockCount size) * blockSize % 2 ^ 64) (dst : Mem) :
    Ramdisk.btrfsRawRead (some disk) bytenr dst size = none ∨
      disk.InRange (bytenr / blockSize) (blockCount size) ∧
        Ramdisk.btrfsRawRead (some disk) bytenr dst size =
          some (copyFrom dst 0 disk.data (bytenr / blockSize * blockSize)
            (blockCount size * blockSize), 0) := by
  unfold Ramdisk.btrfsRawRead
  dsimp only
  by_cases hin : disk.InRange (bytenr / blockSize) (blockCount size)
  · exact .inr ⟨hin, ramdiskRead_inRange hin dst⟩
  · have hcount := blockCount_lt size
    have hlba : bytenr / blockSize * blockSize ≤ bytenr := Nat.div_mul_le_self ..
    have hend := Nat.add_mul (bytenr / blockSize) (blockCount size) blockSize
    unfold Ramdisk.InRange at hin
    left
    unfold ramdiskRead
    dsimp only
    rw [blockRange_mod, if_neg h, Nat.mod_eq_of_lt hcount, Nat.mod_eq_of_lt (by omega),
      if_pos (by omega)]

/-- A successful read that is exact is one of whole blocks. -/
theorem wholeBlocks_of_exact {bytenr size : Nat} (hbytenr : bytenr < 2 ^ 64)
    (h : disk.RawReadExact bytenr size) : disk.WholeBlocks bytenr size := by
  by_cases hrefused :
      disk.size < (bytenr / blockSize + blockCount size) * blockSize % 2 ^ 64
  · exact .inl hrefused
  by_cases hzero : size = 0
  · exact .inr (.inl hzero)
  -- Marked bytes of the disk and the buffer show which bytes have been copied where.
  have hcopy : ∀ data dst, disk.InRange (bytenr / blockSize) (blockCount size) ∧
      (∀ i, i < size → copyFrom dst 0 data (bytenr / blockSize * blockSize)
        (blockCount size * blockSize) i = data (bytenr + i)) ∧
      ∀ i, size ≤ i → copyFrom dst 0 data (bytenr / blockSize * blockSize)
        (blockCount size * blockSize) i = dst i := by
    intro data dst
    obtain ⟨dst', ret, hcall, hexact⟩ := h data dst
    have hchecked : ¬ (disk.filled data).size <
      (bytenr / blockSize + blockCount size) * blockSize % 2 ^ 64 := hrefused
    rcases btrfsRawRead_cases hbytenr hchecked dst with hnone | ⟨hin, hok⟩
    · rw [hnone] at hcall
      cases hcall
    · rw [hok] at hcall
      obtain ⟨rfl, rfl⟩ := Prod.mk.inj (Option.some.inj hcall)
      exact ⟨hin, hexact rfl⟩
  obtain ⟨hin, hfront, hbehind⟩ := hcopy (fun _ => 0) fun _ => 1
  have hsize : size = blockCount size * blockSize := by
    refine le_antisymm (not_lt.mp fun hlt => ?_) (not_lt.mp fun hlt => ?_)
    · have hbyte := hfront _ hlt
      rw [copyFrom_apply, if_neg (by omega)] at hbyte
      exact absurd hbyte (by decide)
    · have hbyte := hbehind _ le_rfl
      rw [copyFrom_apply, if_pos (by omega)] at hbyte
      exact absurd hbyte (by decide)
  have hstart : bytenr = bytenr / blockSize * blockSize := by
    obtain ⟨-, hmarked, -⟩ :=
      hcopy (fun o => if o = bytenr / blockSize * blockSize then 1 else 0) fun _ => 0
    have hbyte := hmarked 0 (by omega)
    rw [copyFrom_apply, if_pos (by omega)] at hbyte
    rw [Nat.sub_self, Nat.add_zero, Nat.add_zero, if_pos rfl] at hbyte
    by_contra hne
    rw [if_neg hne] at hbyte
    exact absurd hbyte (by decide)
  have hlt := hin.lt
  rw [Nat.add_mul, ← hstart, ← hsize] at hlt
  exact .inr (.inr ⟨Dvd.intro_left _ hstart.symm, Dvd.intro_left _ hsize.symm, hlt⟩)

theorem exact_of_wholeBlocks {bytenr size : Nat} (hbytenr : bytenr < 2 ^ 64)
    (hsize : size < 2 ^ 64) (h : disk.WholeBlocks bytenr size) : disk.RawReadExact bytenr size := by
  have hblock : blockSize = 4096 := rfl
  intro data dst
  by_cases hrefused :
      disk.size < (bytenr / blockSize + blockCount size) * blockSize % 2 ^ 64
  · have hfail : (disk.filled data).size <
      (bytenr / blockSize + blockCount size) * blockSize % 2 ^ 64 := hrefused
    exact ⟨dst, -1, ramdiskRead_refused hfail dst, fun hret => absurd hret (by decide)⟩
  rcases h.resolve_left hrefused with rfl | ⟨hstart, hwhole, hend⟩
  · have hcount : blockCount 0 = 0 := by decide
    have hlba : bytenr / blockSize * blockSize ≤ bytenr := Nat.div_mul_le_self ..
    rw [hcount, Nat.add_zero, Nat.mod_eq_of_lt (by omega)] at hrefused
    have hin : (disk.filled data).InRange (bytenr / blockSize) (blockCount 0) := by
      rw [hcount]
      exact not_lt.mp hrefused
    refine ⟨_, 0, ramdiskRead_inRange hin dst, fun _ => ⟨fun i hi => by omega, fun i _ => ?_⟩⟩
    rw [copyFrom_apply, hcount, if_neg (by omega)]
  · have hlba : bytenr / blockSize * blockSize = bytenr := Nat.div_mul_cancel hstart
    have hcount := blockCount_whole hsize hwhole
    rw [Nat.add_mul, hlba, hcount, Nat.mod_eq_of_lt hend] at hrefused
    have hin : (disk.filled data).InRange (bytenr / blockSize) (blockCount size) := by
      unfold Ramdisk.InRange
      rw [Nat.add_mul, hlba, hcount]
      exact not_lt.mp hrefused
    refine ⟨_, 0, ramdiskRead_inRange hin dst, fun _ => ⟨fun i hi => ?_, fun i hi => ?_⟩⟩
    · rw [copyFrom_apply, hlba, hcount, if_pos (by omega), Nat.sub_zero, Ramdisk.filled_data]
    · rw [copyFrom_apply, hcount, if_neg (by omega)]

/--
**When a read of bytes is exact.**  A read stores exactly the bytes it is asked for if it is
refused, if it asks for none, or if it asks for whole blocks, and otherwise not.
-/
theorem btrfs_raw_read_exact_iff (disk : Ramdisk) {bytenr size : Nat} (hbytenr : bytenr < 2 ^ 64)
    (hsize : size < 2 ^ 64) :
    disk.RawReadExact bytenr size ↔ disk.WholeBlocks bytenr size :=
  ⟨wholeBlocks_of_exact hbytenr, exact_of_wholeBlocks hbytenr hsize⟩

/-- One whole block. -/
theorem btrfs_raw_read_exact_block : oneBlockDisk.RawReadExact 0 4096 := by
  refine (btrfs_raw_read_exact_iff oneBlockDisk (by decide) (by decide)).mpr (.inr (.inr ?_))
  decide

/-- A read of 256 bytes stores a whole block. -/
theorem btrfs_raw_read_overruns :
    (∃ dst, Ramdisk.btrfsRawRead (some oneBlockDisk) 0 (fun _ => 0) 256 = some (dst, 0) ∧
      dst 256 = 7) ∧ ¬ oneBlockDisk.RawReadExact 0 256 := by
  have hin : ∀ data, (oneBlockDisk.filled data).InRange (0 / blockSize) (blockCount 256) := by
    intro data
    change (0 / blockSize + blockCount 256) * blockSize ≤ oneBlockDisk.size
    decide
  constructor
  · refine ⟨_, ramdiskRead_inRange (hin oneBlockDisk.data) fun _ => 0, ?_⟩
    rw [copyFrom_apply, if_pos (by decide)]
    rfl
  · intro hexact
    obtain ⟨dst', ret, hcall, hbytes⟩ := hexact (fun _ => 7) fun _ => 0
    obtain ⟨rfl, rfl⟩ := Prod.mk.inj
      (Option.some.inj ((ramdiskRead_inRange (hin fun _ => 7) fun _ => 0).symm.trans hcall))
    have hbyte := (hbytes rfl).2 256 le_rfl
    rw [copyFrom_apply, if_pos (by decide)] at hbyte
    exact absurd hbyte (by decide)

end BrightS
