/-
Writes to the RAM file system, one by one and in sequence.

A write that gets as far as the storage stores what fits (`ramfs_write_bounded_iff`), but for the
lengths where the sum of offset and length wraps.  Below that a sequence of writes is an overlay:
every byte is the one of the last write that covers it (`ramfs_writes_overlay`).
-/
import BrightS.Proofs.RamfsVfs

namespace BrightS

open Runs

/-! ### One write -/

/-- The write fails and does nothing, or stores what fits and nothing else; the size stays within
the storage. -/
def WriteBounded (fs : Ramfs) (i off : Nat) (buf : List UInt8) : Prop :=
  match ramfsWrite fs i off buf with
  | none => False
  | some (fs', ret) =>
      (fs' i).size ≤ (fs' i).capacity ∧
        (ret < 0 ∧ fs' = fs ∨
          ret = (min buf.length ((fs i).capacity - off) : Nat) ∧
            (∀ k (hk : k < buf.length), k < (fs i).capacity - off →
              (fs' i).data (off + k) = buf[k]) ∧
            (∀ o, o < off ∨ off + min buf.length ((fs i).capacity - off) ≤ o →
              (fs' i).data o = (fs i).data o) ∧
            ∀ j, j ≠ i → fs' j = fs j)

theorem toWrite_of_lt {off len : Nat} (hoff : off < ramfsFileCapacity) (hsum : off + len < 2 ^ 64) :
    toWrite off len = min len (ramfsFileCapacity - off) := by
  unfold toWrite
  rw [Nat.mod_eq_of_lt hsum, min_def]
  split_ifs <;> omega

theorem storeBytes_take {data : Nat → UInt8} {off n : Nat} {buf : List UInt8} {k : Nat}
    (hk : k < buf.length) (hn : k < n) : storeBytes data off (buf.take n) (off + k) = buf[k] := by
  have hlen : k < (buf.take n).length := by
    rw [List.length_take]
    omega
  rw [storeBytes_apply, if_pos (by omega), Nat.add_sub_cancel_left, List.getD_eq_getElem _ _ hlen,
    List.getElem_take]

theorem ramfsOk_of_run {fs₀ : Ramfs} {calls : List RamfsCall} {fs : Ramfs}
    (hrun : Executes Ramfs.step (ramfsInit fs₀) calls fs) : RamfsOk fs :=
  hrun.invariant (fun _ _ _ h hstep => h.call hstep.choose_spec) (ramfsOk_init fs₀)

/--
**When a write is bounded.**  After every run, a write to a file does what it should exactly if the
offset is refused or the sum of offset and length does not wrap.
-/
theorem ramfs_write_bounded_iff {fs₀ : Ramfs} {calls : List RamfsCall} {fs : Ramfs}
    (hrun : Executes Ramfs.step (ramfsInit fs₀) calls fs) {i : Nat} (hfile : fs.IsFile i)
    (off : Nat) {buf : List UInt8} (hlen : buf.length < 2 ^ 64) :
    WriteBounded fs i off buf ↔ ramfsFileCapacity ≤ off ∨ off + buf.length < 2 ^ 64 := by
  have hok := ramfsOk_of_run hrun
  have hcap : ramfsFileCapacity = 4096 := rfl
  obtain ⟨hi, huse, hdir⟩ := hfile
  unfold WriteBounded
  rw [hok.write_eq hi huse, hok.capacity i, hdir]
  simp only [Bool.false_eq_true, false_or]
  by_cases hoff : ramfsFileCapacity ≤ off
  · rw [if_pos hoff]
    dsimp only
    refine iff_of_true ⟨?_, .inl ⟨by decide, rfl⟩⟩ (.inl hoff)
    rw [hok.capacity i]
    exact hok.size i
  rw [if_neg hoff, or_iff_right hoff]
  by_cases hsum : off + buf.length < 2 ^ 64
  · have hto := toWrite_of_lt (by omega) hsum
    rw [if_neg (by omega)]
    dsimp only
    rw [Function.update_self, hto]
    refine iff_of_true ⟨?_, .inr ⟨rfl, fun k hk hfit => ?_, fun o ho => ?_, fun j hj => ?_⟩⟩ hsum
    · have hsize := hok.size i
      have hentry := hok.capacity i
      unfold RamfsFile.written
      dsimp only
      rw [hto]
      omega
    · unfold RamfsFile.written
      dsimp only
      rw [hto]
      exact storeBytes_take hk (by omega)
    · unfold RamfsFile.written
      dsimp only
      rw [storeBytes_apply, length_take_toWrite, hto, if_neg (by omega)]
    · exact Function.update_of_ne hj ..
  · -- The wrapped sum is below the offset, so nothing is cut off.
    have hto : toWrite off buf.length = buf.length := by
      unfold toWrite
      rw [if_neg (by omega)]
    rw [hto, if_pos (by omega)]
    exact iff_of_false id hsum

/-- One empty file. -/
def oneFileRamfs : Ramfs := (ramfsCreate (ramfsInit blankRamfs) (some ['/', 'a'])).1

theorem oneFileRamfs_run :
    Executes Ramfs.step (ramfsInit blankRamfs) [.create (some ['/', 'a'])] oneFileRamfs :=
  .cons ⟨_, rfl⟩ (.nil _)

theorem oneFileRamfs_file : oneFileRamfs.IsFile 0 := by
  refine ⟨by decide, ?_, ?_⟩
  · rfl
  · rfl

/-- The write reaches the end of the storage. -/
theorem ramfs_write_bounded_end : WriteBounded oneFileRamfs 0 4090 (List.replicate 10 7) := by
  have hlen : (List.replicate 10 (7 : UInt8)).length = 10 := List.length_replicate
  exact (ramfs_write_bounded_iff oneFileRamfs_run oneFileRamfs_file 4090 (by omega)).mpr
    (.inr (by omega))

theorem oneFileRamfs_write {buf : List UInt8} (hlen : buf.length = 2 ^ 64 - 1) :
    ramfsWrite oneFileRamfs 0 1 buf = none := by
  have hok := ramfsOk_of_run oneFileRamfs_run
  have hcap : ramfsFileCapacity = 4096 := rfl
  have hto : toWrite 1 buf.length = buf.length := by
    unfold toWrite
    rw [if_neg (by omega)]
  refine (hok.write_eq (by decide) oneFileRamfs_file.2.1 1 buf).trans ?_
  rw [oneFileRamfs_file.2.2, if_neg (by decide), hto, if_pos (by omega)]

/-- From offset 1 on, as many bytes as there are numbers but one: nothing is cut off. -/
theorem ramfs_write_wraps :
    ramfsWrite oneFileRamfs 0 1 (List.replicate (2 ^ 64 - 1) 7) = none ∧
      ¬ WriteBounded oneFileRamfs 0 1 (List.replicate (2 ^ 64 - 1) 7) := by
  obtain ⟨buf, hbuf⟩ : ∃ buf : List UInt8, buf = List.replicate (2 ^ 64 - 1) 7 := ⟨_, rfl⟩
  have hlen : buf.length = 2 ^ 64 - 1 := by rw [hbuf, List.length_replicate]
  have hnone := oneFileRamfs_write hlen
  rw [← hbuf]
  refine ⟨hnone, fun h => ?_⟩
  unfold WriteBounded at h
  rw [Int.ofNat_zero] at h
  rw [hnone] at h
  exact h

/-! ### Sequences of writes -/

structure WriteCall where
  fd : Int
  off : Nat
  buf : List UInt8

/-- The part of a write that the storage has room for. -/
def WriteCall.accepted (c : WriteCall) : List UInt8 := c.buf.take (ramfsFileCapacity - c.off)

/-- The write goes to this file, and not past its storage. -/
def WriteCall.Reaches (i : Nat) (c : WriteCall) : Prop := c.fd = i ∧ c.off < ramfsFileCapacity

instance (i : Nat) (c : WriteCall) : Decidable (c.Reaches i) := inferInstanceAs (Decidable (_ ∧ _))

/-- Byte `o` of the file is one of those that the write stores. -/
def WriteCall.Stores (i o : Nat) (c : WriteCall) : Prop :=
  c.Reaches i ∧ c.off ≤ o ∧ o < c.off + c.accepted.length

instance (i o : Nat) (c : WriteCall) : Decidable (c.Stores i o) :=
  inferInstanceAs (Decidable (_ ∧ _))

/-- The byte of the last write that stores it, and of the storage if there is none. -/
def overlaid (data : Nat → UInt8) (i : Nat) (calls : List WriteCall) (o : Nat) : UInt8 :=
  match calls.reverse.find? fun c => decide (c.Stores i o) with
  | none => data o
  | some c => c.accepted.getD (o - c.off) 0

/-- The largest end of a write so far, and the size at first. -/
def endOffset (size i : Nat) (calls : List WriteCall) : Nat :=
  ((calls.filter fun c => decide (c.Reaches i)).map fun c => c.off + c.accepted.length).foldl max
    size

/-- One call after the other. -/
def ramfsWrites : Ramfs → List WriteCall → Option Ramfs
  | fs, [] => some fs
  | fs, c :: rest => (ramfsWrite fs c.fd c.off c.buf).bind fun r => ramfsWrites r.1 rest

theorem overlaid_cons (data : Nat → UInt8) (i : Nat) (c : WriteCall) (rest : List WriteCall)
    (o : Nat) : overlaid data i (c :: rest) o = overlaid (overlaid data i [c]) i rest o := by
  unfold overlaid
  rw [List.reverse_cons, List.find?_append]
  cases rest.reverse.find? fun c => decide (c.Stores i o) with
  | none => rfl
  | some c' => rfl

theorem endOffset_cons (size i : Nat) (c : WriteCall) (rest : List WriteCall) :
    endOffset size i (c :: rest) = endOffset (endOffset size i [c]) i rest := by
  unfold endOffset
  by_cases hc : c.Reaches i
  · simp [hc]
  · simp [hc]

/-- A file after some writes. -/
def RamfsFile.overwritten (f : RamfsFile) (i : Nat) (calls : List WriteCall) : RamfsFile :=
  { f with data := overlaid f.data i calls, size := endOffset f.size i calls }

theorem overwritten_of_not_reaches {f : RamfsFile} {i : Nat} {calls : List WriteCall}
    (hcalls : ∀ c ∈ calls, ¬ c.Reaches i) : f.overwritten i calls = f := by
  have hdata : overlaid f.data i calls = f.data := by
    funext o
    have hnone : (calls.reverse.find? fun c => decide (c.Stores i o)) = none := by
      rw [List.find?_eq_none]
      intro c hc hstores
      exact hcalls c (List.mem_reverse.mp hc) (of_decide_eq_true hstores).1
    unfold overlaid
    rw [hnone]
  have hsize : endOffset f.size i calls = f.size := by
    have hnone : (calls.filter fun c => decide (c.Reaches i)) = [] := by
      rw [List.filter_eq_nil_iff]
      intro c hc hreaches
      exact hcalls c hc (of_decide_eq_true hreaches)
    unfold endOffset
    rw [hnone]
    rfl
  unfold RamfsFile.overwritten
  rw [hdata, hsize]

theorem written_eq_overwritten {f : RamfsFile} {i : Nat} {c : WriteCall} (hc : c.Reaches i)
    (hsum : c.off + c.buf.length < 2 ^ 64) : f.written c.off c.buf = f.overwritten i [c] := by
  have hto := toWrite_of_lt hc.2 hsum
  have haccepted : c.buf.take (toWrite c.off c.buf.length) = c.accepted := by
    unfold WriteCall.accepted
    rw [hto, List.take_eq_take_iff]
    omega
  have hlen : c.accepted.length = toWrite c.off c.buf.length := by
    rw [← haccepted, length_take_toWrite]
  have hdata : storeBytes f.data c.off c.accepted = overlaid f.data i [c] := by
    funext o
    rw [storeBytes_apply]
    by_cases ho : c.off ≤ o ∧ o < c.off + c.accepted.length
    · have hstores : c.Stores i o := ⟨hc, ho⟩
      rw [if_pos ho]
      simp [overlaid, hstores]
    · have hnot : ¬ c.Stores i o := fun h => ho h.2
      rw [if_neg ho]
      simp [overlaid, hnot]
  unfold RamfsFile.written RamfsFile.overwritten
  rw [haccepted, hdata, ← hlen]
  simp [endOffset, hc]

/-- One write, seen from each entry of the table. -/
theorem RamfsOk.write_entries {fs : Ramfs} (h : RamfsOk fs) {c : WriteCall}
    (hsum : c.off + c.buf.length < 2 ^ 64) :
    ∃ r, ramfsWrite fs c.fd c.off c.buf = some r ∧
      (∀ i, fs.IsFile i → r.1 i = (fs i).overwritten i [c]) ∧
      ∀ i, ¬ fs.IsFile i → r.1 i = fs i := by
  have hrefused : ramfsWrite fs c.fd c.off c.buf = some (fs, -1) →
      (∀ i, fs.IsFile i → ¬ c.Reaches i) →
      ∃ r, ramfsWrite fs c.fd c.off c.buf = some r ∧
        (∀ i, fs.IsFile i → r.1 i = (fs i).overwritten i [c]) ∧
        ∀ i, ¬ fs.IsFile i → r.1 i = fs i := by
    intro hwrite hnot
    refine ⟨_, hwrite, fun i hi => ?_, fun _ _ => rfl⟩
    exact (overwritten_of_not_reaches (List.forall_mem_singleton.mpr (hnot i hi))).symm
  by_cases hrange : c.fd < 0 ∨ (ramfsMaxFiles : Int) ≤ c.fd
  · refine hrefused (by rw [ramfsWrite, if_pos hrange]) fun i hi hreach => ?_
    have hlt := hi.1
    have hfd := hreach.1
    omega
  obtain ⟨k, hk⟩ : ∃ k : Nat, c.fd = k := ⟨c.fd.toNat, by omega⟩
  have hlt : k < ramfsMaxFiles := by omega
  by_cases hfile : fs.IsFile k
  · have hwrite := h.write_eq hlt hfile.2.1 c.off c.buf
    rw [hfile.2.2] at hwrite
    simp only [Bool.false_eq_true, false_or] at hwrite
    by_cases hoff : ramfsFileCapacity ≤ c.off
    · rw [if_pos hoff] at hwrite
      rw [hk] at hrefused ⊢
      exact hrefused hwrite fun i _ hreach => absurd hreach.2 (by omega)
    · have hreach : c.Reaches k := ⟨hk, by omega⟩
      have hto := toWrite_of_lt hreach.2 hsum
      rw [if_neg hoff, if_neg (by omega)] at hwrite
      refine ⟨_, by rw [hk]; exact hwrite, fun i hi => ?_, fun i hi => ?_⟩
      · by_cases hik : i = k
        · rw [hik]
          exact (Function.update_self ..).trans (written_eq_overwritten hreach hsum)
        · have hother : ¬ c.Reaches i := fun hr => hik (by have := hr.1; omega)
          exact (Function.update_of_ne hik ..).trans
            (overwritten_of_not_reaches (List.forall_mem_singleton.mpr hother)).symm
      · have hik : i ≠ k := fun heq => hi (heq ▸ hfile)
        exact Function.update_of_ne hik ..
  · refine hrefused ?_ fun i hi hreach => ?_
    · rw [hk]
      exact ramfsWrite_not_file hfile hlt _ _
    · obtain rfl : i = k := by
        have := hreach.1
        omega
      exact hfile hi

/-- The run: files are overwritten, and nothing else changes. -/
theorem RamfsOk.writes_entries (calls : List WriteCall) : ∀ {fs : Ramfs}, RamfsOk fs →
    (∀ c ∈ calls, c.off + c.buf.length < 2 ^ 64) →
    ∃ fs', ramfsWrites fs calls = some fs' ∧
      (∀ i, fs.IsFile i → fs' i = (fs i).overwritten i calls) ∧
      ∀ i, ¬ fs.IsFile i → fs' i = fs i := by
  induction calls with
  | nil => exact fun _ _ => ⟨_, rfl, fun _ _ => rfl, fun _ _ => rfl⟩
  | cons c rest ih =>
      intro fs h hsums
      obtain ⟨r, hwrite, hfiles, hothers⟩ := h.write_entries (hsums c List.mem_cons_self)
      have hsame : ∀ i, r.1.IsFile i ↔ fs.IsFile i := by
        intro i
        by_cases hi : fs.IsFile i
        · unfold Ramfs.IsFile
          rw [hfiles i hi]
          exact iff_of_true hi hi
        · unfold Ramfs.IsFile
          rw [hothers i hi]
      obtain ⟨fs', hrest, hfiles', hothers'⟩ := ih (h.write hwrite) fun c' hc' =>
        hsums c' (List.mem_cons_of_mem _ hc')
      refine ⟨fs', ?_, fun i hi => ?_, fun i hi => ?_⟩
      · rw [ramfsWrites, hwrite]
        exact hrest
      · rw [hfiles' i ((hsame i).mpr hi), hfiles i hi]
        unfold RamfsFile.overwritten
        dsimp only
        rw [← endOffset_cons]
        congr 1
        funext o
        exact (overlaid_cons ..).symm
      · rw [hothers' i fun hr => hi ((hsame i).mp hr), hothers i hi]

/-- What a read of a file returns, byte by byte. -/
theorem ramfsRead_file {fs : Ramfs} {i : Nat} (hfile : fs.IsFile i) (off len : Nat) :
    ramfsRead fs i off len =
      (((min len ((fs i).size - off) : Nat) : Int),
        (List.range (min len ((fs i).size - off))).map fun k => (fs i).data (off + k)) := by
  obtain ⟨hi, huse, hdir⟩ := hfile
  have hrange : ¬ ((i : Int) < 0 ∨ (ramfsMaxFiles : Int) ≤ i) := by omega
  unfold ramfsRead
  rw [if_neg hrange, Int.toNat_natCast]
  dsimp only
  rw [if_neg (by simp [huse, hdir])]
  by_cases hoff : (fs i).size ≤ off
  · have hzero : min len ((fs i).size - off) = 0 := by omega
    rw [if_pos hoff, hzero]
    rfl
  · have hmin : (if len < (fs i).size - off then len else (fs i).size - off) =
        min len ((fs i).size - off) := by
      rw [min_def]
      split_ifs <;> omega
    rw [if_neg hoff, hmin]

/--
**Writes are an overlay.**  After every run, writes whose ends do not wrap are all defined.  A read
of a file then returns, byte by byte, what the last write that reaches the byte stored, and what
the storage held where there is none; the size is the largest end so far, and entries that are not
written to stay as they are.
-/
theorem ramfs_writes_overlay {fs₀ : Ramfs} {history : List RamfsCall} {fs : Ramfs}
    (hrun : Executes Ramfs.step (ramfsInit fs₀) history fs) {calls : List WriteCall}
    (hsums : ∀ c ∈ calls, c.off + c.buf.length < 2 ^ 64) :
    ∃ fs', ramfsWrites fs calls = some fs' ∧
      (∀ i, fs.IsFile i → fs' i = { fs i with data := (fs' i).data, size := (fs' i).size } ∧
        ramfsFileSize fs' i = endOffset (fs i).size i calls ∧
        ∀ off len, ramfsRead fs' i off len =
          (((min len (endOffset (fs i).size i calls - off) : Nat) : Int),
            (List.range (min len (endOffset (fs i).size i calls - off))).map fun k =>
              overlaid (fs i).data i calls (off + k))) ∧
      ∀ j : Nat, (∀ c ∈ calls, c.fd = j → ¬ fs.IsFile j) → fs' j = fs j := by
  obtain ⟨fs', hwrites, hfiles, hothers⟩ := (ramfsOk_of_run hrun).writes_entries calls hsums
  refine ⟨fs', hwrites, fun i hi => ?_, fun j hj => ?_⟩
  · have hentry := hfiles i hi
    have hi' : fs'.IsFile i := by
      unfold Ramfs.IsFile
      rw [hentry]
      exact hi
    refine ⟨?_, ?_, fun off len => ?_⟩
    · rw [hentry]
      rfl
    · rw [ramfsFileSize_eq hi'.1 hi'.2.1, hentry]
      rfl
    · rw [ramfsRead_file hi', hentry]
      rfl
  · by_cases hfile : fs.IsFile j
    · rw [hfiles j hfile]
      exact overwritten_of_not_reaches fun c hc hreach => hj c hc hreach.1 hfile
    · exact hothers j hfile

/-- Two writes that overlap, and one that is refused. -/
theorem ramfs_writes_overlay_twice :
    ∃ fs', ramfsWrites oneFileRamfs [⟨0, 2, [1, 2, 3]⟩, ⟨0, 4, [9]⟩, ⟨0, 5000, [8]⟩] = some fs' ∧
      ramfsRead fs' 0 0 10 = (5, [0, 0, 1, 2, 9]) := by
  have hsums : ∀ c ∈ ([⟨0, 2, [1, 2, 3]⟩, ⟨0, 4, [9]⟩, ⟨0, 5000, [8]⟩] : List WriteCall),
      c.off + c.buf.length < 2 ^ 64 := by
    intro c hc
    simp only [List.mem_cons, List.not_mem_nil, or_false] at hc
    rcases hc with rfl | rfl | rfl
    · decide
    · decide
    · decide
  obtain ⟨fs', hwrites, hfiles, -⟩ := ramfs_writes_overlay oneFileRamfs_run hsums
  refine ⟨fs', hwrites, ((hfiles 0 oneFileRamfs_file).2.2 0 10).trans ?_⟩
  rfl

end BrightS
