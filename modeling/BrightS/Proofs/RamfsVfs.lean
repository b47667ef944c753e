/-
What the operations of the VFS do to a file of the RAM file system.

A file object knows its entry by number only.  As long as the entry is a file in use, a
read returns a part of its content and a write stores into it (`ramfsVfsRead_file`,
`ramfsVfsWrite_file`); opening finds the entry of a path, with an inode that is up to
date (`ramfsVfsFind_cases`).
-/
import BrightS.Kernel.RamfsVfs
import BrightS.Proofs.FdIdentity
import BrightS.Proofs.RamfsFiles

namespace BrightS

open Cursors Words

variable {T : Type}

/-! ### Entries as files -/

theorem toFd_entry {i : Nat} (hi : i < ramfsMaxFiles) : toFd i = i := toFd_small hi

/-- Entry `i` is a file. -/
def Ramfs.IsFile (fs : Ramfs) (i : Nat) : Prop :=
  i < ramfsMaxFiles ∧ (fs i).inUse = true ∧ (fs i).isDir = false

section Entries

variable {fs : Ramfs} {i : Nat}

theorem ramfsIsDirFd_eq (hi : i < ramfsMaxFiles) (huse : (fs i).inUse = true) :
    ramfsIsDirFd fs i = (fs i).isDir := by
  simp [ramfsIsDirFd, huse, hi]

theorem ramfsFileSize_eq (hi : i < ramfsMaxFiles) (huse : (fs i).inUse = true) :
    ramfsFileSize fs i = (fs i).size := by
  simp [ramfsFileSize, huse, hi]

theorem ramfsRead_not_file (hfile : ¬ fs.IsFile i) (hi : i < ramfsMaxFiles) (off len : Nat) :
    ramfsRead fs i off len = (-1, []) := by
  unfold ramfsRead
  rw [if_neg (by omega), Int.toNat_natCast]
  dsimp only
  rw [if_pos]
  by_contra hgood
  rw [not_or, Bool.not_eq_false, Bool.not_eq_true] at hgood
  exact hfile ⟨hi, hgood⟩

theorem ramfsWrite_not_file (hfile : ¬ fs.IsFile i) (hi : i < ramfsMaxFiles) (off : Nat)
    (buf : List UInt8) : ramfsWrite fs i off buf = some (fs, -1) := by
  unfold ramfsWrite
  rw [if_neg (by omega), Int.toNat_natCast]
  dsimp only
  rw [if_pos]
  by_contra hgood
  rw [not_or, Bool.not_eq_false, Bool.not_eq_true] at hgood
  exact hfile ⟨hi, hgood⟩

end Entries

/-! ### Reading and writing -/

/-- The file system after a write to entry `i` through inode `k`. -/
def RamfsVfs.stored (w : RamfsVfs T) (k i off : Nat) (buf : List UInt8) : RamfsVfs T :=
  let w' := { w with fs := Function.update w.fs i ((w.fs i).written off buf) }
  if toWrite off buf.length = 0 then w' else
  w'.setSize k (max (w.ramfsVfsInodes k).size ((w.fs i).written off buf).size)

section ReadWrite

variable {w : RamfsVfs T} {f : VfsFile} {i : Nat}

@[simp] theorem setSize_fs (k size : Nat) : (w.setSize k size).fs = w.fs := rfl

@[simp] theorem setInode_fs (k : Nat) (ino : VfsInode) : (w.setInode k ino).fs = w.fs := rfl

@[simp] theorem setInode_self (k : Nat) (ino : VfsInode) :
    (w.setInode k ino).ramfsVfsInodes k = ino := Function.update_self ..

@[simp] theorem stored_fs (k off : Nat) (buf : List UInt8) :
    (w.stored k i off buf).fs = Function.update w.fs i ((w.fs i).written off buf) := by
  unfold RamfsVfs.stored
  dsimp only
  split_ifs <;> rfl

theorem setSize_self (k : Nat) : w.setSize k (w.ramfsVfsInodes k).size = w := by
  unfold RamfsVfs.setSize RamfsVfs.setInode
  rw [Function.update_eq_self_iff.mpr rfl]

theorem ramfsVfsRead_file (hok : RamfsOk w.fs) (hfile : w.fs.IsFile i) (hino : f.inode ≠ 0)
    (hpriv : f.privateData = i) (count : Nat) :
    ramfsVfsRead w f count =
      (⟨w, f.pos + (((w.fs i).content.drop f.pos).take count).length,
          (((w.fs i).content.drop f.pos).take count).length⟩,
        ((w.fs i).content.drop f.pos).take count) := by
  obtain ⟨hi, huse, hdir⟩ := hfile
  have hsize := hok.size i
  have hcap : ramfsFileCapacity = 4096 := rfl
  unfold ramfsVfsRead
  rw [if_neg hino, hpriv, toFd_entry hi, ramfsRead_content hi huse, if_neg (by simp [hdir])]
  have hlen : (((w.fs i).content.drop f.pos).take count).length =
      min count ((w.fs i).size - f.pos) := by simp
  generalize ((w.fs i).content.drop f.pos).take count = items at hlen ⊢
  dsimp only
  congr 2
  split_ifs with hpos
  · rw [Int.toNat_natCast, Nat.mod_eq_of_lt (by omega)]
  · omega

theorem ramfsVfsRead_not_file (hfile : ¬ w.fs.IsFile i) (hi : i < ramfsMaxFiles)
    (hpriv : f.privateData = i) (count : Nat) : ramfsVfsRead w f count = (⟨w, f.pos, -1⟩, []) := by
  unfold ramfsVfsRead
  rw [hpriv, toFd_entry hi, ramfsRead_not_file hfile hi]
  split_ifs
  · rfl
  · rfl

theorem ramfsVfsWrite_file (hok : RamfsOk w.fs) (hfile : w.fs.IsFile i) (hino : f.inode ≠ 0)
    (hpriv : f.privateData = i) (buf : List UInt8) :
    ramfsVfsWrite w f buf =
      if ramfsFileCapacity ≤ f.pos then some ⟨w, f.pos, -1⟩ else
      if ramfsFileCapacity < f.pos + toWrite f.pos buf.length then none else
      some ⟨w.stored (f.inode - 1) i f.pos buf, f.pos + toWrite f.pos buf.length,
        toWrite f.pos buf.length⟩ := by
  obtain ⟨hi, huse, hdir⟩ := hfile
  have hcap : ramfsFileCapacity = 4096 := rfl
  unfold ramfsVfsWrite
  rw [if_neg hino, hpriv, toFd_entry hi, hok.write_eq hi huse]
  simp only [hdir, Bool.false_eq_true, false_or]
  by_cases hpos : ramfsFileCapacity ≤ f.pos
  · rw [if_pos hpos, if_pos hpos]
    rfl
  rw [if_neg hpos, if_neg hpos]
  by_cases hfit : ramfsFileCapacity < f.pos + toWrite f.pos buf.length
  · rw [if_pos hfit, if_pos hfit]
    rfl
  rw [if_neg hfit, if_neg hfit, Option.map_some]
  congr 1
  have hsz : ramfsFileSize (Function.update w.fs i ((w.fs i).written f.pos buf)) i =
      ((w.fs i).written f.pos buf).size := by
    rw [ramfsFileSize_eq hi]
    · rw [Function.update_self]
    · rw [Function.update_self]
      exact huse
  dsimp only
  rw [hsz]
  unfold RamfsVfs.stored
  dsimp only
  by_cases hnone : toWrite f.pos buf.length = 0
  · rw [if_neg (by omega), if_pos hnone, hnone]
    rfl
  · rw [if_pos (by omega), if_neg hnone, Int.toNat_natCast, Nat.mod_eq_of_lt (by omega)]
    congr 1
    split_ifs with hsmall
    · rw [max_eq_right (by omega)]
    · rw [max_eq_left (by omega)]
      exact (setSize_self _).symm

theorem ramfsVfsWrite_not_file (hfile : ¬ w.fs.IsFile i) (hi : i < ramfsMaxFiles)
    (hpriv : f.privateData = i) (buf : List UInt8) :
    ramfsVfsWrite w f buf = some ⟨w, f.pos, -1⟩ := by
  unfold ramfsVfsWrite
  rw [hpriv, toFd_entry hi, ramfsWrite_not_file hfile hi]
  split_ifs
  · rfl
  · rfl

end ReadWrite

/-! ### The calls of the VFS -/

section Calls

variable (getc : T → T × UInt8) (putc : T → UInt8 → T) {s : FileIo (RamfsVfs T)} {f : Nat}

theorem vfs2Read_ramfs (hf : f ≠ 0) (huse : (s.file f).inUse = true) (hfops : (s.file f).fops ≠ 0)
    (count : Nat) :
    vfs2Read (ramfsEnv getc putc) s f count =
      (s.done f (ramfsVfsRead s.world (s.file f) count).1,
        (ramfsVfsRead s.world (s.file f) count).1.ret,
        (ramfsVfsRead s.world (s.file f) count).2) := by
  unfold vfs2Read
  rw [if_neg (by simp [hf, huse, hfops])]
  rfl

theorem vfs2Write_ramfs (hf : f ≠ 0) (huse : (s.file f).inUse = true) (hfops : (s.file f).fops ≠ 0)
    (buf : List UInt8) :
    vfs2Write (ramfsEnv getc putc) s f buf =
      (ramfsVfsWrite s.world (s.file f) buf).map fun r => (s.done f r, r.ret) := by
  unfold vfs2Write
  rw [if_neg (by simp [hf, huse, hfops])]
  rfl

theorem vfs2Lseek_ramfs (hf : f ≠ 0) (huse : (s.file f).inUse = true) (hfops : (s.file f).fops ≠ 0)
    (offset whence : Int) :
    vfs2Lseek (ramfsEnv getc putc) s f offset whence =
      (s.done f (ramfsVfsLseek s.world (s.file f) offset whence),
        (ramfsVfsLseek s.world (s.file f) offset whence).ret) := by
  unfold vfs2Lseek
  rw [if_neg (by simp [hf, huse]), if_neg hfops]
  rfl

end Calls

/-! ### After an operation -/

section Done

variable {s : FileIo (RamfsVfs T)} {f g : Nat} {r : IoResult (RamfsVfs T)}

theorem done_file_self : (s.done f r).file f = { s.file f with pos := r.pos } :=
  Function.update_self ..

theorem done_file_other (hg : g - 1 ≠ f - 1) : (s.done f r).file g = s.file g :=
  Function.update_of_ne hg ..

theorem agrees_done (h : s.files.pool.Agrees) : (s.done f r).files.pool.Agrees := by
  intro k hk
  rw [(KeepsUse.done s f r).use k]
  exact h k hk

theorem live_done : (s.done f r).files.pool.live = s.files.pool.live := by
  ext g
  rw [mem_live_iff, mem_live_iff, (KeepsUse.done s f r).use]

end Done

/-! ### Opening -/

section Opening

variable {w : RamfsVfs T} {flags : Nat} {path : CStr}

/-- What a creation on the way of opening leaves: nothing new, or an empty file that the path
leads to. -/
theorem ramfsVfsCreat_cases (hok : RamfsOk w.fs) (flags : Nat) (path : CStr) :
    (ramfsVfsCreat w flags path).fs = w.fs ∨
      ramfsOpen w.fs (some path) = none ∧
        ∃ i, ramfsOpen (ramfsVfsCreat w flags path).fs (some path) = some i ∧
          ((ramfsVfsCreat w flags path).fs i).isDir = false ∧
          ((ramfsVfsCreat w flags path).fs i).content = [] := by
  unfold ramfsVfsCreat
  split_ifs with hcreat
  · dsimp only
    have hok' : RamfsOk (ramfsCreate w.fs (some path)).1 :=
      hok.add (some path) fun _ => ⟨rfl, rfl, rfl⟩
    rcases ramfsCreate_cases w.fs (some path) with
      heq | ⟨name, idx, f, hnorm, hroot, hnew, hfree, ⟨hname, huse, hdir, hsize⟩, heq⟩
    · exact .inl (congrArg Prod.fst heq)
    · have htree := hok'.tree
      obtain ⟨hidx, -⟩ := ramfsFindFree_some hfree
      rw [heq] at htree ⊢
      dsimp only at htree ⊢
      refine .inr ⟨?_, idx, ?_, ?_, ?_⟩
      · rw [ramfsOpen_eq hnorm hroot, hnew]
      · rw [ramfsOpen_eq hnorm hroot, htree.findName_iff, Function.update_self]
        exact ⟨hidx, huse, hname⟩
      · rw [Function.update_self]
        exact hdir
      · rw [Function.update_self]
        exact List.length_eq_zero_iff.mp ((length_content f).trans hsize)
  · exact .inl rfl

theorem ramfsVfsCreat_ok (hok : RamfsOk w.fs) (flags : Nat) (path : CStr) :
    RamfsOk (ramfsVfsCreat w flags path).fs := by
  unfold ramfsVfsCreat
  split_ifs
  · exact hok.add (some path) fun _ => ⟨rfl, rfl, rfl⟩
  · exact hok

/-- Other paths than the root lead nowhere, or to the inode of their entry. -/
theorem ramfsVfsFind_cases (hroot : path ≠ ['/']) (flags : Nat) :
    (ramfsOpen (ramfsVfsCreat w flags path).fs (some path) = none ∧
        ramfsVfsFind w flags (some path) = (ramfsVfsCreat w flags path, none)) ∨
      ∃ i ino, ramfsOpen (ramfsVfsCreat w flags path).fs (some path) = some i ∧
        ino = VfsInode.mk (if ((ramfsVfsCreat w flags path).fs i).isDir then vfsIfDir else vfsIfReg)
          ((ramfsVfsCreat w flags path).fs i).size i ∧
        ramfsVfsFind w flags (some path) = ((ramfsVfsCreat w flags path).setInode i ino,
          some ⟨i + 1, ino.mode, ino.size, i, ramfsFops⟩) := by
  unfold ramfsVfsFind ramfsSbLookup
  dsimp only
  rw [if_neg hroot]
  generalize ramfsVfsCreat w flags path = w'
  cases hopen : ramfsOpen w'.fs (some path) with
  | none => exact .inl ⟨rfl, rfl⟩
  | some i =>
      obtain ⟨hi, huse⟩ := ramfsOpen_some hopen
      have hmax : ramfsMaxFiles = 32 := rfl
      have hinodes : ramfsVfsMaxInodes = 64 := rfl
      refine .inr ⟨i, _, rfl, rfl, ?_⟩
      dsimp only
      rw [if_neg (by omega), ramfsIsDirFd_eq hi huse, ramfsFileSize_eq hi huse]
      simp [RamfsVfs.setInode]

theorem ramfsVfsTrunc_null (w : RamfsVfs T) (flags : Nat) (found : Option FoundInode) :
    ramfsVfsTrunc w flags 0 found = w := by
  cases found with
  | none => rfl
  | some ino =>
      unfold ramfsVfsTrunc
      dsimp only
      rw [if_neg (by simp)]

@[simp] theorem ramfsVfsTrunc_fs (w : RamfsVfs T) (flags f : Nat) (found : Option FoundInode) :
    (ramfsVfsTrunc w flags f found).fs = w.fs := by
  unfold ramfsVfsTrunc
  cases found with
  | none => rfl
  | some ino =>
      dsimp only
      split_ifs <;> rfl

/-- The file that opening takes from the pool. -/
theorem vfs2Open_file {p : FilePool} {ino : FoundInode} {k : Nat}
    (hopen : (vfs2Open p flags (some ino)).2 = k + 1) :
    (vfs2Open p flags (some ino)).1.filePool k =
      { inode := ino.inode, flags := flags, fops := ino.fops, privateData := ino.fsPrivate
        inUse := true
        pos := if flags &&& vfsOAppend ≠ 0 then
          if flags &&& vfsOTrunc ≠ 0 ∧ ino.mode = vfsIfReg then 0 else ino.size else 0 } := by
  unfold vfs2Open vfs2FileAlloc at hopen ⊢
  cases hfree : (List.range vfsFilePoolSize).find? fun k => !bitTest p.filePoolBitmap k with
  | none =>
      rw [hfree] at hopen
      exact absurd hopen (Nat.succ_ne_zero k).symm
  | some j =>
      rw [hfree] at hopen
      dsimp only at hopen ⊢
      rw [if_neg (Nat.succ_ne_zero j)] at hopen ⊢
      obtain rfl : j = k := Nat.succ.inj hopen
      simp

end Opening

end BrightS
