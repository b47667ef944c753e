/-
What a failed open leaves behind.

Opening creates a file, looks it up, takes an entry of the pool and takes a descriptor, in this
order.  A step that fails ends the call, and of the steps before it only one is undone: the entry
of the pool, and that only if there is no process.
-/
import BrightS.Proofs.RamfsSession

namespace BrightS

open Words

variable {T : Type}

/-- The entry that the pool would give out. -/
def FilePool.firstFree (p : FilePool) : Option Nat :=
  (List.range vfsFilePoolSize).find? fun k => !bitTest p.filePoolBitmap k

/-- Opening this path would create a file. -/
def OpenCreates (w : RamfsVfs T) (flags : Nat) (path : CStr) : Prop :=
  flags % 2 ^ 32 &&& vfsOCreat ≠ 0 ∧ 0 ≤ (ramfsCreate w.fs (some path)).2

/-- There is something to open. -/
def OpenFinds (w : RamfsVfs T) (flags : Nat) (path : CStr) : Prop :=
  path = ['/'] ∨ ramfsOpen w.fs (some path) ≠ none ∨ OpenCreates w flags path

/-- The pool, the descriptors and the files are what they were. -/
structure OpenUndone (s s' : FileIo (RamfsVfs T)) : Prop where
  bitmap : s'.files.pool.filePoolBitmap = s.files.pool.filePoolBitmap
  inUse : ∀ k, (s'.files.pool.filePool k).inUse = (s.files.pool.filePool k).inUse
  procs : s'.files.procs = s.files.procs
  set : ∀ i, (s'.world.fs i).inUse = (s.world.fs i).inUse
  content : ∀ i, (s.world.fs i).inUse = true → s'.world.fs i = s.world.fs i

/-- There is nothing that a failure would have to undo: the path leads nowhere, no file is created
for a call that will find the pool full or no process, or the call does not fail. -/
def NothingToUndo (s : FileIo (RamfsVfs T)) (flags : Nat) (rel : Option CStr) : Prop :=
  ∀ path, rel = some path → OpenFinds s.world flags path →
    match s.files.pool.firstFree, procGetCurrent s.files.procs with
    | none, _ => ¬ OpenCreates s.world flags path
    | some k, none =>
        ¬ OpenCreates s.world flags path ∧ (s.files.pool.filePool k).inUse = false
    | some _, some idx => fdFree (s.files.procs.table idx).fdTable ≠ none

/-! ### The file system -/

section Creation

variable {w : RamfsVfs T} {flags : Nat} {path : CStr}

theorem ramfsVfsCreat_none (h : ¬ OpenCreates w flags path) :
    (ramfsVfsCreat w (flags % 2 ^ 32) path).fs = w.fs := by
  unfold ramfsVfsCreat
  split_ifs with hcreat
  · rcases ramfsCreate_cases w.fs (some path) with heq | ⟨name, idx, f, -, -, -, -, -, heq⟩
    · exact congrArg Prod.fst heq
    · refine absurd ⟨hcreat, ?_⟩ h
      rw [heq]
      exact Int.natCast_nonneg idx
  · rfl

/-- A file that is created takes a free entry, and the path leads to it. -/
theorem ramfsVfsCreat_some (h : OpenCreates w flags path) :
    (∃ i, (w.fs i).inUse = false ∧
      ((ramfsVfsCreat w (flags % 2 ^ 32) path).fs i).inUse = true) ∧
      ramfsOpen (ramfsVfsCreat w (flags % 2 ^ 32) path).fs (some path) ≠ none := by
  obtain ⟨hcreat, hret⟩ := h
  have hfs : (ramfsVfsCreat w (flags % 2 ^ 32) path).fs = (ramfsCreate w.fs (some path)).1 := by
    unfold ramfsVfsCreat
    rw [if_pos hcreat]
  rw [hfs]
  rcases ramfsCreate_cases w.fs (some path) with
    heq | ⟨name, idx, f, hnorm, hroot, -, hfree, ⟨hname, huse, -⟩, heq⟩
  · rw [heq] at hret
    exact absurd hret (show ¬ (0 : Int) ≤ -1 by decide)
  · obtain ⟨hidx, hunused⟩ := ramfsFindFree_some hfree
    rw [heq]
    dsimp only
    refine ⟨⟨idx, hunused, ?_⟩, fun hnone => ?_⟩
    · rw [Function.update_self]
      exact huse
    · rw [ramfsOpen_eq hnorm hroot] at hnone
      refine ramfsFindName_none hnone hidx ?_ ?_
      · rw [Function.update_self]
        exact huse
      · rw [Function.update_self]
        exact hname

/-- The lookup of opening. -/
theorem ramfsVfsFind_spec (w : RamfsVfs T) (flags : Nat) (path : CStr) :
    (ramfsVfsFind w (flags % 2 ^ 32) (some path)).1.fs =
        (ramfsVfsCreat w (flags % 2 ^ 32) path).fs ∧
      ((ramfsVfsFind w (flags % 2 ^ 32) (some path)).2 ≠ none ↔ OpenFinds w flags path) := by
  by_cases hroot : path = ['/']
  · refine ⟨by simp [ramfsVfsFind, ramfsSbLookup, hroot], iff_of_true ?_ (.inl hroot)⟩
    simp [ramfsVfsFind, ramfsSbLookup, hroot]
  have hopens : ramfsOpen (ramfsVfsCreat w (flags % 2 ^ 32) path).fs (some path) ≠ none ↔
      OpenFinds w flags path := by
    rw [OpenFinds, or_iff_right hroot]
    by_cases hcreates : OpenCreates w flags path
    · exact iff_of_true (ramfsVfsCreat_some hcreates).2 (.inr hcreates)
    · rw [ramfsVfsCreat_none hcreates, or_iff_left hcreates]
  rcases ramfsVfsFind_cases (w := w) hroot (flags % 2 ^ 32) with
    ⟨hnone, heq⟩ | ⟨i, ino, hsome, -, heq⟩
  · rw [heq, ← hopens, hnone]
    simp
  · rw [heq, ← hopens, hsome]
    simp

end Creation

/-! ### The pool -/

theorem vfs2Open_firstFree (p : FilePool) (flags : Nat) (ino : FoundInode) :
    match p.firstFree with
    | none => vfs2Open p flags (some ino) = (p, 0)
    | some k => k < vfsFilePoolSize ∧ bitTest p.filePoolBitmap k = false ∧
        ∃ file : VfsFile, file.inUse = true ∧ vfs2Open p flags (some ino) =
          ({ filePool := Function.update p.filePool k file
             filePoolBitmap := bitSet p.filePoolBitmap k }, k + 1) := by
  cases hfree : p.firstFree with
  | none =>
      unfold FilePool.firstFree at hfree
      simp [vfs2Open, vfs2FileAlloc, hfree]
  | some k =>
      unfold FilePool.firstFree at hfree
      refine ⟨List.mem_range.mp (List.mem_of_find?_eq_some hfree),
        by simpa using List.find?_some hfree, ?_⟩
      simp only [vfs2Open, vfs2FileAlloc, hfree, Function.update_self, Function.update_idem,
        Nat.add_sub_cancel]
      rw [if_neg (Nat.succ_ne_zero k)]
      exact ⟨_, rfl, rfl⟩

theorem bitClear_bitSet {x : Word} {i : Nat} (hi : i < 64) (hclear : bitTest x i = false) :
    bitClear (bitSet x i) i = x := by
  apply BitVec.eq_of_getLsbD_eq
  intro j _
  rw [← bitTest_eq_getLsbD, ← bitTest_eq_getLsbD, bitTest_bitClear _ hi, bitTest_bitSet _ hi]
  by_cases hj : j = i
  · rw [hj, hclear]
    simp
  · simp [hj]

theorem bitSet_ne {x : Word} {i : Nat} (hi : i < 64) (hclear : bitTest x i = false) :
    bitSet x i ≠ x := by
  intro hsame
  have hset := bitTest_bitSet x hi i
  rw [hsame, hclear] at hset
  simp at hset

/-- The entry that was taken is given back. -/
theorem vfs2Close_taken {p : FilePool} {k : Nat} (hk : k < vfsFilePoolSize)
    (hbit : bitTest p.filePoolBitmap k = false) {file : VfsFile} (huse : file.inUse = true) :
    (vfs2Close { filePool := Function.update p.filePool k file
                 filePoolBitmap := bitSet p.filePoolBitmap k } (k + 1)).1 =
      { filePool := Function.update p.filePool k { file with inUse := false }
        filePoolBitmap := p.filePoolBitmap } := by
  unfold vfs2Close vfs2FileFree
  simp only [Nat.add_sub_cancel, Function.update_self, Function.update_idem, huse]
  rw [if_neg (by simp), if_neg (Nat.succ_ne_zero k), if_pos hk, bitClear_bitSet hk hbit]

/-! ### The call -/

/-- Without a process the file is closed again. -/
theorem sysOpen_no_process {s : Files} {flags k : Nat} {found : Option FoundInode}
    (hcur : procGetCurrent s.procs = none) (hnew : (vfs2Open s.pool flags found).2 = k + 1) :
    sysOpen s flags found =
      ({ s with pool := (vfs2Close (vfs2Open s.pool flags found).1 (k + 1)).1 }, -1) := by
  simp [sysOpen, hnew, hcur]

/-- The files are the same unless one is created. -/
theorem openUndone_iff {s s' : FileIo (RamfsVfs T)} {flags : Nat} {path : CStr}
    (hfs : s'.world.fs = (ramfsVfsCreat s.world (flags % 2 ^ 32) path).fs) :
    OpenUndone s s' ↔ ¬ OpenCreates s.world flags path ∧
      s'.files.pool.filePoolBitmap = s.files.pool.filePoolBitmap ∧
      (∀ k, (s'.files.pool.filePool k).inUse = (s.files.pool.filePool k).inUse) ∧
      s'.files.procs = s.files.procs := by
  constructor
  · intro h
    refine ⟨fun hcreates => ?_, h.bitmap, h.inUse, h.procs⟩
    obtain ⟨⟨i, hunused, hused⟩, -⟩ := ramfsVfsCreat_some hcreates
    rw [← hfs, h.set i, hunused] at hused
    exact absurd hused (by simp)
  · rintro ⟨hcreates, hbitmap, huse, hprocs⟩
    rw [ramfsVfsCreat_none hcreates] at hfs
    exact ⟨hbitmap, huse, hprocs, fun i => by rw [hfs], fun i _ => by rw [hfs]⟩

/--
**What a failed open changes.**  A call that fails leaves the pool, the descriptors and the files
as they were exactly if it had nothing to undo.
-/
theorem sys_open_failure_iff (s : FileIo (RamfsVfs T)) (flags : Nat) (rel : Option CStr) :
    ((sysOpenRamfs s flags rel).2 < 0 → OpenUndone s (sysOpenRamfs s flags rel).1) ↔
      NothingToUndo s flags rel := by
  cases rel with
  | none =>
      refine iff_of_true (fun _ => ⟨rfl, fun _ => rfl, rfl, fun _ => rfl, fun _ _ => rfl⟩) ?_
      intro path hpath
      exact absurd hpath (by simp)
  | some path =>
      have hall : NothingToUndo s flags (some path) ↔ (OpenFinds s.world flags path → _) :=
        ⟨fun h => h path rfl, fun h p hp => by obtain rfl := Option.some.inj hp; exact h⟩
      rw [hall]
      have hneg : (-1 : Int) < 0 := by decide
      obtain ⟨hfs, hfinds⟩ := ramfsVfsFind_spec s.world flags path
      obtain ⟨w, found, hfind⟩ :
          ∃ w found, ramfsVfsFind s.world (flags % 2 ^ 32) (some path) = (w, found) := ⟨_, _, rfl⟩
      rw [hfind] at hfs hfinds
      dsimp only at hfs hfinds
      rw [sysOpenRamfs_eq hfind, openUndone_iff (by rw [ramfsVfsTrunc_fs, hfs])]
      dsimp only
      cases found with
      | none =>
          have hnot : ¬ OpenFinds s.world flags path := fun h => hfinds.mpr h rfl
          have hsame : sysOpen s.files (flags % 2 ^ 32) none = (s.files, -1) := sysOpen_refused rfl
          rw [hsame]
          exact iff_of_true (fun _ => ⟨fun h => hnot (.inr (.inr h)), rfl, fun _ => rfl, rfl⟩)
            fun h => absurd h hnot
      | some ino =>
          rw [imp_iff_right (hfinds.mp (by simp))]
          have hopen := vfs2Open_firstFree s.files.pool (flags % 2 ^ 32) ino
          cases hfree : s.files.pool.firstFree with
          | none =>
              rw [hfree] at hopen
              rw [sysOpen_refused hopen, imp_iff_right hneg]
              exact and_iff_left ⟨rfl, fun _ => rfl, rfl⟩
          | some k =>
              rw [hfree] at hopen
              obtain ⟨hk, hbit, file, huse, hopen⟩ := hopen
              have hnew := congrArg Prod.snd hopen
              cases hcur : procGetCurrent s.files.procs with
              | none =>
                  rw [sysOpen_no_process hcur hnew, hopen, vfs2Close_taken hk hbit huse,
                    imp_iff_right hneg]
                  dsimp only
                  refine and_congr_right fun _ => ⟨fun h => ?_, fun hunused => ⟨rfl, ?_, rfl⟩⟩
                  · have hsame := h.2.1 k
                    rw [Function.update_self] at hsame
                    exact hsame.symm
                  · intro i
                    by_cases hi : i = k
                    · rw [hi, Function.update_self, hunused]
                    · rw [Function.update_of_ne hi]
              | some idx =>
                  cases hfd : fdFree (s.files.procs.table idx).fdTable with
                  | none =>
                      -- The file stays in use, and no descriptor leads to it.
                      rw [sysOpen_full hcur hnew hfd, imp_iff_right hneg, hopen]
                      exact iff_of_false (fun h => bitSet_ne hk hbit h.2.1) fun h => h hfd
                  | some j =>
                      rw [sysOpen_given hcur hnew hfd]
                      exact iff_of_true (fun h => absurd h (by simp))
                        fun h => absurd (hfd.symm.trans h) (by simp)

/-- A process that has opened the root until all its descriptors were taken. -/
def fullTableIo : FileIo (RamfsVfs Unit) :=
  (fun s => (sysOpenRamfs s 0 (some ['/'])).1)^[procMaxFds] emptyIo

/-- The 33rd open fails, and the pool is one entry short. -/
theorem sys_open_full_table :
    (sysOpenRamfs fullTableIo 0 (some ['/'])).2 < 0 ∧
      ¬ OpenUndone fullTableIo (sysOpenRamfs fullTableIo 0 (some ['/'])).1 := by
  refine ⟨by decide +kernel, fun h => ?_⟩
  have hbefore : fullTableIo.files.pool.filePoolBitmap = 0xFFFFFFFF#64 := by decide +kernel
  have hafter : (sysOpenRamfs fullTableIo 0 (some ['/'])).1.files.pool.filePoolBitmap =
      0x1FFFFFFFF#64 := by decide +kernel
  have hsame := h.bitmap
  rw [hbefore, hafter] at hsame
  exact absurd hsame (by decide)

end BrightS
