/-
Which file a descriptor reads.

An open file knows its entry in the table of the RAM file system by number, and entries are
used again.  Runs of VFS calls are followed with a history beside them: which file each
entry holds, what was written to each file, and which file each file object was opened
on.  As long as no new file takes an entry that an open file still refers to, a read
returns a part of what was written to the file that was opened.
-/
import BrightS.Proofs.RamfsVfs

namespace BrightS

open Cursors Runs

variable {T : Type}

/-! ### Runs with their history -/

inductive VfsCall where
  | open (rel : Option CStr) (flags : Nat)
  | close (f : Nat)
  | read (f count : Nat)
  | write (f : Nat) (buf : List UInt8)
  | create (rel : Option CStr)
  | mkdir (rel : Option CStr)
  | unlink (rel : Option CStr)

/-- The system with its history.  Files are numbered as they are created. -/
structure VfsRun (T : Type) where
  io : FileIo (RamfsVfs T)
  born : Nat
  /-- The file that an entry holds, or held last. -/
  fileAt : Nat → Option Nat
  /-- What was written to a file. -/
  content : Nat → List UInt8
  /-- The file that a file object was opened on; a directory is none. -/
  openedOn : Nat → Option Nat

def VfsRun.fs (t : VfsRun T) : Ramfs := t.io.world.fs

/-- The history once a creation gave this result. -/
def VfsRun.noteCreate (t : VfsRun T) (ret : Int) : VfsRun T :=
  if ret < 0 then t else
  { t with
    born := t.born + 1
    fileAt := Function.update t.fileAt ret.toNat (some t.born)
    content := Function.update t.content t.born [] }

def VfsRun.noteMkdir (t : VfsRun T) (ret : Int) : VfsRun T :=
  if ret < 0 then t else { t with fileAt := Function.update t.fileAt ret.toNat none }

/-- The history once a write through file object `f` gave this result. -/
def VfsRun.noteWrite (t : VfsRun T) (f pos : Nat) (buf : List UInt8) (ret : Int) : VfsRun T :=
  match t.openedOn f with
  | none => t
  | some id =>
      if ret < 0 then t else
      { t with
        content := Function.update t.content id
          (splice 0 (t.content id) pos (buf.take ret.toNat)) }

/-- The result of the creation that opening asks for. -/
def creatResult (fs : Ramfs) (flags : Nat) (rel : Option CStr) : Int :=
  if flags &&& vfsOCreat ≠ 0 then (ramfsCreate fs rel).2 else -1

section Next

variable (getc : T → T × UInt8) (putc : T → UInt8 → T)

/-- Nothing when the call is undefined, or the file is no entry of the pool. -/
def VfsRun.next (t : VfsRun T) : VfsCall → Option (VfsRun T)
  | .open rel flags =>
      let t' := t.noteCreate (creatResult t.fs flags rel)
      let r := vfs2OpenRamfs t.io.files.pool t.io.world flags rel
      let io := { files := { t.io.files with pool := r.1 }, world := r.2.1 }
      some (if r.2.2 = 0 then { t' with io := io } else
        { t' with
          io := io
          openedOn := Function.update t.openedOn r.2.2
            ((ramfsOpen r.2.1.fs rel).bind t'.fileAt) })
  | .close f =>
      if vfsFilePoolSize < f then none else
      some { t with io := { t.io with
        files := { t.io.files with pool := (vfs2Close t.io.files.pool f).1 } } }
  | .read f count =>
      if vfsFilePoolSize < f then none else
      some { t with io := (vfs2Read (ramfsEnv getc putc) t.io f count).1 }
  | .write f buf =>
      if vfsFilePoolSize < f then none else
      (vfs2Write (ramfsEnv getc putc) t.io f buf).map fun r =>
        { t with io := r.1 }.noteWrite f (t.io.file f).pos buf r.2
  | .create rel =>
      let r := vfs2CreateRamfs t.io.world rel
      some ({ t with io := { t.io with world := r.1 } }.noteCreate r.2)
  | .mkdir rel =>
      let r := vfs2MkdirRamfs t.io.world rel
      some ({ t with io := { t.io with world := r.1 } }.noteMkdir r.2)
  | .unlink rel => some { t with io := { t.io with world := (vfs2UnlinkRamfs t.io.world rel).1 } }

def VfsRun.step (t : VfsRun T) (c : VfsCall) (t' : VfsRun T) : Prop := t.next getc putc c = some t'

/-- The read fails, or returns what was written to the file that was opened. -/
def VfsRun.ReadsOwn (t : VfsRun T) (f count : Nat) : Prop :=
  (vfs2Read (ramfsEnv getc putc) t.io f count).2 = (-1, []) ∨
    ∃ id, t.openedOn f = some id ∧ (vfs2Read (ramfsEnv getc putc) t.io f count).2 =
      (((((t.content id).drop (t.io.file f).pos).take count).length : Int),
        ((t.content id).drop (t.io.file f).pos).take count)

end Next

/-- Nothing open and no file. -/
def VfsRun.start (files : Files) (world : RamfsVfs T) : VfsRun T where
  io := ⟨{ files with pool := filePoolInit files.pool }, { world with fs := ramfsInit world.fs }⟩
  born := 0
  fileAt _ := none
  content _ := []
  openedOn _ := none

/-- No open file refers to entry `i`. -/
def VfsRun.Unreferred (t : VfsRun T) (i : Nat) : Prop :=
  ∀ f ∈ t.io.files.pool.live, (t.io.file f).privateData ≠ i

/-- New files get entries that no open file refers to.  The root is opened only while the first
entry, which its file objects refer to, is no file. -/
def VfsRun.KeepsApart (t : VfsRun T) : VfsCall → Prop
  | .create rel => ∀ i : Nat, (ramfsCreate t.fs rel).2 = i → t.Unreferred i
  | .open rel flags => (∀ i : Nat, creatResult t.fs flags rel = i → t.Unreferred i) ∧
      (rel = some ['/'] → (vfs2FileAlloc t.io.files.pool).2 ≠ 0 → ¬ t.fs.IsFile 0)
  | _ => True

/-! ### What such runs keep -/

structure VfsRunOk (t : VfsRun T) : Prop where
  ramfs : RamfsOk t.fs
  agrees : t.io.files.pool.Agrees
  old : ∀ i id, t.fileAt i = some id → id < t.born
  once : ∀ i j id, t.fileAt i = some id → t.fileAt j = some id → i = j
  content : ∀ i, t.fs.IsFile i → ∃ id, t.fileAt i = some id ∧ (t.fs i).content = t.content id
  opened : ∀ f ∈ t.io.files.pool.live, ∃ i, i < ramfsMaxFiles ∧ (t.io.file f).privateData = i ∧
    (t.io.file f).inode ≠ 0 ∧ (t.io.file f).fops ≠ 0 ∧
    (t.fs.IsFile i → t.openedOn f = t.fileAt i ∧ (t.io.file f).pos ≤ (t.fs i).size)

theorem vfsRunOk_start (files : Files) (world : RamfsVfs T) : VfsRunOk (VfsRun.start files world) := by
  refine ⟨ramfsOk_init _, fun k _ => ?_, fun i id h => ?_, fun i j id h => ?_, fun i h => ?_,
    fun f hf => ?_⟩
  · simp [VfsRun.start, filePoolInit]
  · exact absurd h (by simp [VfsRun.start])
  · exact absurd h (by simp [VfsRun.start])
  · exact absurd h.2.1 (by simp [VfsRun.start, VfsRun.fs, ramfsInit])
  · exact absurd hf.2.2 (by simp [VfsRun.start, filePoolInit])

section Read

variable {getc : T → T × UInt8} {putc : T → UInt8 → T} {t : VfsRun T} {f : Nat}

theorem not_live {s : FileIo (RamfsVfs T)} (hf : f ≤ vfsFilePoolSize)
    (hlive : f ∉ s.files.pool.live) : f = 0 ∨ (s.file f).inUse = false := by
  by_contra hgood
  rw [not_or, Bool.not_eq_false] at hgood
  exact hlive ⟨hgood.1, hf, hgood.2⟩

/-- A file object that is not in use reads nothing. -/
theorem vfs2Read_not_live (hf : f ≤ vfsFilePoolSize) (hlive : f ∉ t.io.files.pool.live) (count : Nat) :
    vfs2Read (ramfsEnv getc putc) t.io f count = (t.io, -1, []) :=
  if_pos (or_assoc.mp (.inl (not_live hf hlive)))

theorem VfsRunOk.reads_own (h : VfsRunOk t) (hf : f ≤ vfsFilePoolSize) (count : Nat) :
    t.ReadsOwn getc putc f count := by
  unfold VfsRun.ReadsOwn
  by_cases hlive : f ∈ t.io.files.pool.live
  · obtain ⟨i, hi, hpriv, hino, hfops, hopened⟩ := h.opened f hlive
    rw [vfs2Read_ramfs getc putc hlive.1 hlive.2.2 hfops]
    by_cases hfile : t.fs.IsFile i
    · obtain ⟨id, hat, hcontent⟩ := h.content i hfile
      rw [ramfsVfsRead_file h.ramfs hfile hino hpriv]
      refine .inr ⟨id, (hopened hfile).1.trans hat, ?_⟩
      rw [← hcontent]
      rfl
    · rw [ramfsVfsRead_not_file hfile hi hpriv]
      exact .inl rfl
  · rw [vfs2Read_not_live hf hlive]
    exact .inl rfl

end Read

/-! ### One call -/

section Step

variable {t : VfsRun T}

/-- Only files that are open, and the world without the table, change. -/
theorem VfsRunOk.files (h : VfsRunOk t) {io' : FileIo (RamfsVfs T)}
    (hfs : io'.world.fs = t.io.world.fs) (hagrees : io'.files.pool.Agrees)
    (hfiles : ∀ f ∈ io'.files.pool.live, f ∈ t.io.files.pool.live ∧
      ∃ pos, io'.file f = { t.io.file f with pos := pos } ∧
        ∀ i, t.fs.IsFile i → (t.io.file f).privateData = i → (t.io.file f).pos ≤ (t.fs i).size →
          pos ≤ (t.fs i).size) : VfsRunOk { t with io := io' } := by
  have hfs' : VfsRun.fs { t with io := io' } = t.fs := hfs
  refine ⟨by rw [hfs']; exact h.ramfs, hagrees, h.old, h.once, by rw [hfs']; exact h.content,
    fun f hf => ?_⟩
  obtain ⟨hlive, pos, hfile, hpos⟩ := hfiles f hf
  obtain ⟨i, hi, hpriv, hino, hfops, hopened⟩ := h.opened f hlive
  rw [hfs', hfile]
  refine ⟨i, hi, hpriv, hino, hfops, fun hisfile => ?_⟩
  obtain ⟨hon, hle⟩ := hopened hisfile
  exact ⟨hon, hpos i hisfile hpriv hle⟩

theorem VfsRunOk.close (h : VfsRunOk t) {f : Nat} (hf : f ≤ vfsFilePoolSize) :
    VfsRunOk { t with io := { t.io with
      files := { t.io.files with pool := (vfs2Close t.io.files.pool f).1 } } } := by
  obtain ⟨hagrees, -, -⟩ := vfs2Close_spec h.agrees hf
  have hlive := live_close h.agrees hf
  refine h.files rfl hagrees fun g hg => ?_
  dsimp only at hg
  rw [hlive] at hg
  obtain ⟨hin, hne⟩ := hg
  have hne' : g ≠ f := hne
  have hkept : (vfs2Close t.io.files.pool f).1.filePool (g - 1) = t.io.file g := by
    unfold vfs2Close
    split_ifs with hbad
    · rfl
    · rw [not_or] at hbad
      have hpos := hin.1
      unfold vfs2FileFree
      rw [if_neg hbad.1]
      exact Function.update_of_ne (by omega) ..
  exact ⟨hin, (t.io.file g).pos, hkept, fun _ _ _ hle => hle⟩

/-- One open file moves to another position in its file. -/
theorem VfsRunOk.moved (h : VfsRunOk t) {f i : Nat} (hlive : f ∈ t.io.files.pool.live)
    (hpriv : (t.io.file f).privateData = i) {r : IoResult (RamfsVfs T)}
    (hworld : r.world.fs = t.io.world.fs)
    (hpos : t.fs.IsFile i → (t.io.file f).pos ≤ (t.fs i).size → r.pos ≤ (t.fs i).size) :
    VfsRunOk { t with io := t.io.done f r } := by
  refine h.files hworld (agrees_done h.agrees) fun g hg => ?_
  rw [live_done] at hg
  by_cases hgf : g = f
  · subst hgf
    refine ⟨hg, r.pos, done_file_self, fun j hj hjpriv hle => ?_⟩
    obtain rfl : i = j := hpriv.symm.trans hjpriv
    exact hpos hj hle
  · have hg0 := hg.1
    have hf0 := hlive.1
    exact ⟨hg, (t.io.file g).pos, done_file_other (by omega), fun _ _ _ hle => hle⟩

theorem VfsRunOk.read (h : VfsRunOk t) {getc : T → T × UInt8} {putc : T → UInt8 → T} {f : Nat}
    (hf : f ≤ vfsFilePoolSize) (count : Nat) :
    VfsRunOk { t with io := (vfs2Read (ramfsEnv getc putc) t.io f count).1 } := by
  by_cases hlive : f ∈ t.io.files.pool.live
  · obtain ⟨i, hi, hpriv, hino, hfops, -⟩ := h.opened f hlive
    rw [vfs2Read_ramfs getc putc hlive.1 hlive.2.2 hfops]
    by_cases hfile : t.fs.IsFile i
    · rw [ramfsVfsRead_file h.ramfs hfile hino hpriv]
      refine h.moved hlive hpriv rfl fun _ hle => ?_
      simp only [List.length_take, List.length_drop, length_content]
      change _ + min count ((t.fs i).size - _) ≤ _
      omega
    · rw [ramfsVfsRead_not_file hfile hi hpriv]
      exact h.moved hlive hpriv rfl fun _ hle => hle
  · rw [vfs2Read_not_live hf hlive]
    exact h

/-- The file behind a file object that is in use was written to. -/
theorem VfsRunOk.stored (h : VfsRunOk t) {f i id : Nat} {buf : List UInt8}
    (hlive : f ∈ t.io.files.pool.live) (hfile : t.fs.IsFile i)
    (hpriv : (t.io.file f).privateData = i) (hon : t.openedOn f = t.fileAt i)
    (hat : t.fileAt i = some id) (hle : (t.io.file f).pos ≤ (t.fs i).size)
    {w' : RamfsVfs T} (hok : RamfsOk w'.fs)
    (hfs : w'.fs = Function.update t.fs i ((t.fs i).written (t.io.file f).pos buf)) :
    VfsRunOk { t with
      io := t.io.done f ⟨w', (t.io.file f).pos + toWrite (t.io.file f).pos buf.length,
        toWrite (t.io.file f).pos buf.length⟩
      content := Function.update t.content id (splice 0 (t.content id) (t.io.file f).pos
        (buf.take (toWrite (t.io.file f).pos buf.length))) } := by
  generalize hnew : (t.fs i).written (t.io.file f).pos buf = new at hfs
  have hkind : new.inUse = (t.fs i).inUse ∧ new.isDir = (t.fs i).isDir := by
    rw [← hnew]
    exact ⟨rfl, rfl⟩
  have hgrows : (t.fs i).size ≤ new.size ∧
      (t.io.file f).pos + toWrite (t.io.file f).pos buf.length ≤ new.size := by
    rw [← hnew]
    exact ⟨le_max_left _ _, le_max_right _ _⟩
  have hisfile : ∀ j, w'.fs.IsFile j ↔ t.fs.IsFile j := by
    intro j
    rw [hfs]
    by_cases hj : j = i
    · rw [hj, Ramfs.IsFile, Ramfs.IsFile, Function.update_self, hkind.1, hkind.2]
    · rw [Ramfs.IsFile, Ramfs.IsFile, Function.update_of_ne hj]
  refine ⟨hok, agrees_done h.agrees, h.old, h.once, fun j hj => ?_, fun g hg => ?_⟩
  · have hj := (hisfile j).mp hj
    obtain ⟨id', hat', hcontent⟩ := h.content j hj
    refine ⟨id', hat', ?_⟩
    show (w'.fs j).content = Function.update t.content id _ id'
    rw [hfs]
    by_cases hji : j = i
    · subst hji
      obtain rfl : id = id' := Option.some.inj (hat.symm.trans hat')
      rw [Function.update_self, Function.update_self, ← hnew, ← hcontent]
      exact (content_written_iff _ _ _).mpr fun o hsize hpos => by omega
    · have hne : id' ≠ id := by
        rintro rfl
        exact hji (h.once j i id' hat' hat)
      rw [Function.update_of_ne hji, Function.update_of_ne hne]
      exact hcontent
  · change g ∈ (t.io.done f _).files.pool.live at hg
    rw [live_done] at hg
    by_cases hgf : g = f
    · subst hgf
      obtain ⟨i', hi', hpriv', hino, hfops, -⟩ := h.opened g hg
      obtain rfl : i = i' := hpriv.symm.trans hpriv'
      dsimp only
      rw [done_file_self]
      refine ⟨i, hi', hpriv, hino, hfops, fun _ => ⟨hon, ?_⟩⟩
      show _ ≤ (w'.fs i).size
      rw [hfs, Function.update_self]
      exact hgrows.2
    · have hg0 := hg.1
      have hf0 := hlive.1
      obtain ⟨j, hj, hpriv', hino, hfops, hopened⟩ := h.opened g hg
      dsimp only
      rw [done_file_other (by omega)]
      refine ⟨j, hj, hpriv', hino, hfops, fun hjfile => ?_⟩
      obtain ⟨hon', hle'⟩ := hopened ((hisfile j).mp hjfile)
      refine ⟨hon', ?_⟩
      show _ ≤ (w'.fs j).size
      rw [hfs]
      by_cases hji : j = i
      · rw [hji, Function.update_self]
        rw [hji] at hle'
        exact hle'.trans hgrows.1
      · rw [Function.update_of_ne hji]
        exact hle'

theorem noteWrite_failed (t : VfsRun T) (f pos : Nat) (buf : List UInt8) :
    t.noteWrite f pos buf (-1) = t := by
  unfold VfsRun.noteWrite
  split
  · rfl
  · rw [if_pos (by simp)]

theorem noteWrite_some {f id : Nat} (hon : t.openedOn f = some id) (io' : FileIo (RamfsVfs T))
    (pos n : Nat) (buf : List UInt8) :
    VfsRun.noteWrite { t with io := io' } f pos buf n =
      { t with
        io := io'
        content := Function.update t.content id
          (splice 0 (t.content id) pos (buf.take n)) } := by
  unfold VfsRun.noteWrite
  dsimp only
  rw [hon]
  dsimp only
  rw [if_neg (by omega), Int.toNat_natCast]

theorem VfsRunOk.write (h : VfsRunOk t) {getc : T → T × UInt8} {putc : T → UInt8 → T} {f : Nat}
    (hf : f ≤ vfsFilePoolSize) {buf : List UInt8} {r : FileIo (RamfsVfs T) × Int}
    (hcall : vfs2Write (ramfsEnv getc putc) t.io f buf = some r) :
    VfsRunOk ({ t with io := r.1 }.noteWrite f (t.io.file f).pos buf r.2) := by
  by_cases hlive : f ∈ t.io.files.pool.live
  · obtain ⟨i, hi, hpriv, hino, hfops, hopened⟩ := h.opened f hlive
    rw [vfs2Write_ramfs getc putc hlive.1 hlive.2.2 hfops] at hcall
    by_cases hfile : t.fs.IsFile i
    · rw [ramfsVfsWrite_file h.ramfs hfile hino hpriv] at hcall
      split_ifs at hcall with hfull hover
      · rw [Option.map_some] at hcall
        rw [← Option.some.inj hcall, noteWrite_failed]
        exact h.moved hlive hpriv rfl fun _ hle => hle
      · simp at hcall
      · rw [Option.map_some] at hcall
        obtain ⟨hon, hle⟩ := hopened hfile
        obtain ⟨id, hat, -⟩ := h.content i hfile
        have hok : RamfsOk
            (t.io.world.stored ((t.io.file f).inode - 1) i (t.io.file f).pos buf).fs := by
          have hwrite := h.ramfs.write_eq hfile.1 hfile.2.1 (t.io.file f).pos buf
          rw [if_neg (by simp [hfile.2.2, hfull]), if_neg hover] at hwrite
          rw [stored_fs]
          exact h.ramfs.write hwrite
        rw [← Option.some.inj hcall]
        dsimp only
        rw [noteWrite_some (hon.trans hat)]
        exact h.stored hlive hfile hpriv hon hat hle hok (stored_fs _ _ buf)
    · rw [ramfsVfsWrite_not_file hfile hi hpriv, Option.map_some] at hcall
      rw [← Option.some.inj hcall, noteWrite_failed]
      exact h.moved hlive hpriv rfl fun _ hle => hle
  · have hsame : vfs2Write (ramfsEnv getc putc) t.io f buf = some (t.io, -1) :=
      if_pos (or_assoc.mp (.inl (not_live hf hlive)))
    rw [← Option.some.inj (hsame.symm.trans hcall), noteWrite_failed]
    exact h

/-! ### Calls on paths -/

/-- The table of entries stays. -/
theorem VfsRunOk.sameTable (h : VfsRunOk t) {w' : RamfsVfs T} (hfs : w'.fs = t.fs) :
    VfsRunOk { t with io := { t.io with world := w' } } :=
  h.files hfs h.agrees fun f hf => ⟨hf, (t.io.file f).pos, rfl, fun _ _ _ hle => hle⟩

/-- An entry is replaced by one that is no file. -/
theorem VfsRunOk.gone (h : VfsRunOk t) {w' : RamfsVfs T} {i : Nat} {new : RamfsFile}
    (hok : RamfsOk w'.fs) (hfs : w'.fs = Function.update t.fs i new) (hnew : ¬ w'.fs.IsFile i)
    {fileAt : Nat → Option Nat} (hfewer : ∀ j id, fileAt j = some id → t.fileAt j = some id)
    (hothers : ∀ j, j ≠ i → fileAt j = t.fileAt j) :
    VfsRunOk { t with io := { t.io with world := w' }, fileAt := fileAt } := by
  have hkept : ∀ j, w'.fs.IsFile j → j ≠ i ∧ w'.fs j = t.fs j ∧ t.fs.IsFile j := by
    intro j hj
    have hji : j ≠ i := by
      rintro rfl
      exact hnew hj
    have hsame : w'.fs j = t.fs j := by rw [hfs, Function.update_of_ne hji]
    refine ⟨hji, hsame, ?_⟩
    rw [Ramfs.IsFile, ← hsame]
    exact hj
  refine ⟨hok, h.agrees, fun j id hj => h.old j id (hfewer j id hj),
    fun j k id hj hk => h.once j k id (hfewer j id hj) (hfewer k id hk), fun j hj => ?_,
    fun f hf => ?_⟩
  · obtain ⟨hji, hsame, hfile⟩ := hkept j hj
    show ∃ id, fileAt j = some id ∧ (w'.fs j).content = t.content id
    rw [hothers j hji, hsame]
    exact h.content j hfile
  · obtain ⟨j, hj, hpriv, hino, hfops, hopened⟩ := h.opened f hf
    refine ⟨j, hj, hpriv, hino, hfops, fun hjfile => ?_⟩
    obtain ⟨hji, hsame, hfile⟩ := hkept j hjfile
    show t.openedOn f = fileAt j ∧ (t.io.file f).pos ≤ (w'.fs j).size
    rw [hothers j hji, hsame]
    exact hopened hfile

theorem VfsRunOk.create (h : VfsRunOk t) {rel : Option CStr} {w' : RamfsVfs T}
    (hfs : w'.fs = (ramfsCreate t.fs rel).1)
    (hapart : ∀ i : Nat, (ramfsCreate t.fs rel).2 = i → t.Unreferred i) :
    VfsRunOk (VfsRun.noteCreate { t with io := { t.io with world := w' } }
      (ramfsCreate t.fs rel).2) := by
  have hok : RamfsOk w'.fs := by
    rw [hfs]
    exact h.ramfs.add rel fun _ => ⟨rfl, rfl, rfl⟩
  unfold VfsRun.noteCreate
  rcases ramfsCreate_cases t.fs rel with
    heq | ⟨name, i, new, -, -, -, hfree, ⟨-, huse, hdir, hsize⟩, heq⟩
  · rw [heq] at hfs ⊢
    rw [if_pos (by simp)]
    exact h.sameTable hfs
  · obtain ⟨hi, hunused⟩ := ramfsFindFree_some hfree
    have hunreferred := hapart i (congrArg Prod.snd heq)
    rw [heq] at hfs ⊢
    dsimp only at hfs ⊢
    rw [if_neg (by simp), Int.toNat_natCast]
    have hself : w'.fs i = new := by rw [hfs, Function.update_self]
    have hother : ∀ j, j ≠ i → w'.fs j = t.fs j := fun j hj => by
      rw [hfs, Function.update_of_ne hj]
    have hnewid : ∀ j id, j ≠ i → Function.update t.fileAt i (some t.born) j = some id →
        t.fileAt j = some id ∧ id ≠ t.born := by
      intro j id hj hat
      rw [Function.update_of_ne hj] at hat
      exact ⟨hat, (h.old j id hat).ne⟩
    refine ⟨hok, h.agrees, fun j id hj => ?_, fun j k id hj hk => ?_, fun j hj => ?_, fun f hf => ?_⟩
    · dsimp only at hj
      by_cases hji : j = i
      · rw [hji, Function.update_self] at hj
        rw [← Option.some.inj hj]
        exact Nat.lt_succ_self _
      · exact Nat.lt_succ_of_lt (h.old j id (hnewid j id hji hj).1)
    · dsimp only at hj hk
      by_cases hji : j = i <;> by_cases hki : k = i
      · rw [hji, hki]
      · rw [hji, Function.update_self] at hj
        exact absurd (Option.some.inj hj).symm (hnewid k id hki hk).2
      · rw [hki, Function.update_self] at hk
        exact absurd (Option.some.inj hk).symm (hnewid j id hji hj).2
      · exact h.once j k id (hnewid j id hji hj).1 (hnewid k id hki hk).1
    · by_cases hji : j = i
      · refine ⟨t.born, ?_, ?_⟩
        · rw [hji]
          exact Function.update_self ..
        · show (w'.fs j).content = Function.update t.content t.born [] t.born
          rw [Function.update_self, hji, hself]
          exact List.length_eq_zero_iff.mp ((length_content new).trans hsize)
      · have hfile : t.fs.IsFile j := by
          rw [Ramfs.IsFile, ← hother j hji]
          exact hj
        obtain ⟨id, hat, hcontent⟩ := h.content j hfile
        refine ⟨id, (Function.update_of_ne hji ..).trans hat, ?_⟩
        show (w'.fs j).content = Function.update t.content t.born [] id
        rw [hother j hji, Function.update_of_ne (h.old j id hat).ne]
        exact hcontent
    · obtain ⟨j, hj, hpriv, hino, hfops, hopened⟩ := h.opened f hf
      have hji : j ≠ i := by
        rintro rfl
        exact hunreferred f hf hpriv
      refine ⟨j, hj, hpriv, hino, hfops, fun hjfile => ?_⟩
      show t.openedOn f = Function.update t.fileAt i (some t.born) j ∧
        (t.io.file f).pos ≤ (w'.fs j).size
      rw [Function.update_of_ne hji, hother j hji]
      refine hopened ?_
      rw [Ramfs.IsFile, ← hother j hji]
      exact hjfile

theorem VfsRunOk.mkdir (h : VfsRunOk t) {rel : Option CStr} {w' : RamfsVfs T}
    (hfs : w'.fs = (ramfsMkdir t.fs rel).1) :
    VfsRunOk (VfsRun.noteMkdir { t with io := { t.io with world := w' } }
      (ramfsMkdir t.fs rel).2) := by
  have hok : RamfsOk w'.fs := by
    rw [hfs]
    exact h.ramfs.add rel fun _ => ⟨rfl, rfl, rfl⟩
  unfold VfsRun.noteMkdir
  unfold ramfsMkdir at hfs ⊢
  rcases ramfsAdd_cases t.fs rel _ with heq | ⟨name, i, -, -, -, -, -, -, heq⟩
  · rw [heq] at hfs ⊢
    rw [if_pos (by simp)]
    exact h.sameTable hfs
  · rw [heq] at hfs ⊢
    dsimp only at hfs ⊢
    rw [if_neg (by simp), Int.toNat_natCast]
    refine h.gone hok hfs ?_ (fun j id hj => ?_) fun j hj => Function.update_of_ne hj ..
    · rintro ⟨-, -, hdir⟩
      rw [hfs, Function.update_self] at hdir
      exact Bool.noConfusion hdir
    · by_cases hji : j = i
      · rw [hji, Function.update_self] at hj
        exact absurd hj (by simp)
      · rw [Function.update_of_ne hji] at hj
        exact hj

theorem VfsRunOk.unlink (h : VfsRunOk t) {rel : Option CStr} {w' : RamfsVfs T}
    (hfs : w'.fs = (ramfsUnlink t.fs rel).1) :
    VfsRunOk { t with io := { t.io with world := w' } } := by
  have hcall : t.fs.call (.unlink rel) = some (ramfsUnlink t.fs rel) := rfl
  have hok : RamfsOk w'.fs := by
    rw [hfs]
    exact h.ramfs.call hcall
  rcases ramfsUnlink_cases t.fs rel with heq | ⟨name, i, -, -, -, -, heq⟩
  · rw [heq] at hfs
    exact h.sameTable hfs
  · rw [heq] at hfs
    dsimp only at hfs
    refine h.gone hok hfs ?_ (fun _ _ hj => hj) fun _ _ => rfl
    rintro ⟨-, huse, -⟩
    rw [hfs, Function.update_self] at huse
    exact Bool.noConfusion huse

/-! ### Opening -/

theorem noteCreate_io (t : VfsRun T) (ret : Int) (io' : FileIo (RamfsVfs T)) :
    VfsRun.noteCreate { t with io := io' } ret = { t.noteCreate ret with io := io' } := by
  unfold VfsRun.noteCreate
  split_ifs <;> rfl

@[simp] theorem noteCreate_openedOn (t : VfsRun T) (ret : Int) :
    (t.noteCreate ret).openedOn = t.openedOn := by
  unfold VfsRun.noteCreate
  split_ifs <;> rfl

/-- The creation on the way of opening. -/
theorem VfsRunOk.creat (h : VfsRunOk t) {flags : Nat} {path : CStr}
    (hapart : ∀ i : Nat, creatResult t.fs flags (some path) = i → t.Unreferred i) :
    VfsRunOk (VfsRun.noteCreate
      { t with io := { t.io with world := ramfsVfsCreat t.io.world flags path } }
      (creatResult t.fs flags (some path))) := by
  unfold creatResult at hapart ⊢
  unfold ramfsVfsCreat
  by_cases hcreat : flags &&& vfsOCreat ≠ 0
  · rw [if_pos hcreat] at hapart
    rw [if_pos hcreat, if_pos hcreat]
    exact h.create rfl hapart
  · rw [if_neg hcreat, if_neg hcreat]
    exact h

/-- A file object that was not in use is opened on entry `i`. -/
theorem VfsRunOk.opening (h : VfsRunOk t) {pool : FilePool} {w' : RamfsVfs T} {i k : Nat}
    {named : Option Nat} (hagrees : pool.Agrees)
    (hothers : ∀ j, j ≠ k → pool.filePool j = t.io.files.pool.filePool j)
    (hfs : w'.fs = t.fs) (hi : i < ramfsMaxFiles)
    (hfile : (pool.filePool k).privateData = i ∧ (pool.filePool k).inode ≠ 0 ∧
      (pool.filePool k).fops ≠ 0)
    (hnamed : t.fs.IsFile i → named = t.fileAt i ∧ (pool.filePool k).pos ≤ (t.fs i).size) :
    VfsRunOk { t with
      io := { files := { t.io.files with pool := pool }, world := w' }
      openedOn := Function.update t.openedOn (k + 1) named } := by
  have hsame : ∀ t' : VfsRun T, t'.io.world = w' → t'.fs = t.fs := by
    rintro t' rfl
    exact hfs
  refine ⟨?_, hagrees, h.old, h.once, ?_, fun f hf => ?_⟩
  · rw [hsame _ rfl]
    exact h.ramfs
  · rw [hsame _ rfl]
    exact h.content
  · rw [hsame _ rfl]
    by_cases hfk : f = k + 1
    · subst hfk
      refine ⟨i, hi, hfile.1, hfile.2.1, hfile.2.2, fun hisfile => ?_⟩
      dsimp only
      rw [Function.update_self]
      exact hnamed hisfile
    · have hf0 := hf.1
      have hold : pool.filePool (f - 1) = t.io.file f := hothers (f - 1) (by omega)
      have hlive : f ∈ t.io.files.pool.live := by
        refine ⟨hf.1, hf.2.1, ?_⟩
        rw [← hothers (f - 1) (by omega)]
        exact hf.2.2
      obtain ⟨j, hj, hpriv, hino, hfops, hopened⟩ := h.opened f hlive
      rw [← hold] at hpriv hino hfops hopened
      refine ⟨j, hj, hpriv, hino, hfops, fun hisfile => ?_⟩
      dsimp only
      rw [Function.update_of_ne hfk]
      exact hopened hisfile

/-- The root is not created. -/
theorem ramfsCreate_root (fs : Ramfs) : ramfsCreate fs (some ['/']) = (fs, -1) := by
  rcases ramfsCreate_cases fs (some ['/']) with heq | ⟨name, _, _, hnorm, hroot, -⟩
  · exact heq
  · have hslash : ramfsNormalize (some ['/']) = some ['/'] := by decide
    exact absurd (Option.some.inj (hnorm.symm.trans hslash)) hroot

/-- What a path is opened on: the root, or the entry it leads to. -/
theorem ramfsVfsFind_entry (w : RamfsVfs T) (flags : Nat) (path : CStr) :
    (ramfsVfsFind w flags (some path)).1.fs = (ramfsVfsCreat w flags path).fs ∧
      ∀ ino, (ramfsVfsFind w flags (some path)).2 = some ino →
        ino.fsPrivate < ramfsMaxFiles ∧ ino.inode ≠ 0 ∧ ino.fops ≠ 0 ∧
          (path = ['/'] ∧ ino.fsPrivate = 0 ∨
            ramfsOpen (ramfsVfsCreat w flags path).fs (some path) = some ino.fsPrivate ∧
              ino.size = ((ramfsVfsCreat w flags path).fs ino.fsPrivate).size) := by
  by_cases hroot : path = ['/']
  · unfold ramfsVfsFind ramfsSbLookup
    dsimp only
    rw [if_pos hroot]
    refine ⟨rfl, fun ino hino => ?_⟩
    rw [← Option.some.inj hino]
    dsimp only
    rw [setInode_self]
    exact ⟨by decide, Nat.succ_ne_zero 0, Nat.one_ne_zero, .inl ⟨hroot, rfl⟩⟩
  · rcases ramfsVfsFind_cases (w := w) hroot flags with ⟨-, hfind⟩ | ⟨i, ino, hopen, hino, hfind⟩
    · rw [hfind]
      exact ⟨rfl, fun _ hnone => absurd hnone (by simp)⟩
    · rw [hfind]
      refine ⟨rfl, fun found hfound => ?_⟩
      rw [← Option.some.inj hfound]
      exact ⟨(ramfsOpen_some hopen).1, Nat.succ_ne_zero i, Nat.one_ne_zero,
        .inr ⟨hopen, by rw [hino]⟩⟩

theorem vfs2OpenRamfs_eq (p : FilePool) (w : RamfsVfs T) (flags : Nat) (rel : Option CStr) :
    vfs2OpenRamfs p w flags rel =
      ((vfs2Open p flags (ramfsVfsFind w flags rel).2).1,
        ramfsVfsTrunc (ramfsVfsFind w flags rel).1 flags
          (vfs2Open p flags (ramfsVfsFind w flags rel).2).2 (ramfsVfsFind w flags rel).2,
        (vfs2Open p flags (ramfsVfsFind w flags rel).2).2) := rfl

theorem VfsRunOk.openPath (h : VfsRunOk t) {getc : T → T × UInt8} {putc : T → UInt8 → T}
    {flags : Nat} {path : CStr} {t' : VfsRun T} (hapart : t.KeepsApart (.open (some path) flags))
    (hnext : t.next getc putc (.open (some path) flags) = some t') : VfsRunOk t' := by
  have hcreated := h.creat hapart.1
  have hnext := Option.some.inj hnext
  obtain ⟨hfs, hentry⟩ := ramfsVfsFind_entry t.io.world flags path
  dsimp only at hnext
  rw [vfs2OpenRamfs_eq] at hnext
  rw [noteCreate_io] at hcreated
  generalize ramfsVfsFind t.io.world flags (some path) = found at hnext hfs hentry
  obtain ⟨w', found⟩ := found
  dsimp only at hnext hfs hentry
  rcases vfs2Open_cases h.agrees flags found with
    ⟨-, hopen⟩ | ⟨k, hk, hfound, hbit, -, hnew, hagrees, -, hothers⟩
  · rw [hopen, if_pos rfl, ramfsVfsTrunc_null] at hnext
    rw [← hnext]
    exact hcreated.sameTable hfs
  · obtain ⟨ino, rfl⟩ := Option.ne_none_iff_exists'.mp hfound
    obtain ⟨hi, hinode, hfops, hnamed⟩ := hentry ino rfl
    have hfile := vfs2Open_file hnew
    have hroom : (vfs2FileAlloc t.io.files.pool).2 ≠ 0 := by
      intro hfull
      rw [vfs2FileAlloc_full.mp hfull k hk] at hbit
      exact absurd hbit (by simp)
    rw [hnew, if_neg (Nat.succ_ne_zero k), ramfsVfsTrunc_fs, hfs] at hnext
    rw [← hnext, ← noteCreate_openedOn t (creatResult t.fs flags (some path))]
    refine hcreated.opening hagrees hothers (by rw [ramfsVfsTrunc_fs]; exact hfs) hi ?_
      fun hisfile => ?_
    · rw [hfile]
      exact ⟨rfl, hinode, hfops⟩
    · change (ramfsVfsCreat t.io.world flags path).fs.IsFile _ at hisfile
      rcases hnamed with ⟨rfl, hzero⟩ | ⟨hopen, hsize⟩
      · -- The first entry is no file, and opening the root creates none.
        refine absurd ?_ (hapart.2 rfl hroom)
        rw [hzero] at hisfile
        unfold ramfsVfsCreat at hisfile
        split_ifs at hisfile
        · rw [ramfsCreate_root] at hisfile
          exact hisfile
        · exact hisfile
      · rw [hopen, hfile]
        refine ⟨rfl, ?_⟩
        show _ ≤ ((ramfsVfsCreat t.io.world flags path).fs _).size
        rw [← hsize]
        dsimp only
        split_ifs
        · exact Nat.zero_le _
        · exact le_refl _
        · exact Nat.zero_le _

end Step

/-! ### Whole runs -/

section Run

variable {getc : T → T × UInt8} {putc : T → UInt8 → T}

/-- Every call that keeps new files apart from open ones keeps the history right. -/
theorem vfsRunOk_step (t : VfsRun T) (c : VfsCall) (t' : VfsRun T) (h : VfsRunOk t)
    (hstep : Guarded VfsRun.KeepsApart (VfsRun.step getc putc) t c t') : VfsRunOk t' := by
  obtain ⟨hapart, hnext⟩ := hstep
  unfold VfsRun.step at hnext
  cases c with
  | «open» rel flags =>
      cases rel with
      | none =>
          have hret : creatResult t.fs flags none = -1 := by
            unfold creatResult
            split_ifs <;> rfl
          have hnext := Option.some.inj hnext
          rw [hret] at hnext
          rw [← hnext]
          exact h
      | some path => exact h.openPath hapart hnext
  | close f =>
      simp only [VfsRun.next] at hnext
      split_ifs at hnext with hf
      rw [← Option.some.inj hnext]
      exact h.close (by omega)
  | read f count =>
      simp only [VfsRun.next] at hnext
      split_ifs at hnext with hf
      rw [← Option.some.inj hnext]
      exact h.read (by omega) count
  | write f buf =>
      simp only [VfsRun.next] at hnext
      split_ifs at hnext with hf
      obtain ⟨r, hcall, rfl⟩ := Option.map_eq_some_iff.mp hnext
      exact h.write (by omega) hcall
  | create rel =>
      rw [← Option.some.inj hnext]
      cases rel with
      | none => exact h
      | some path => exact h.create rfl hapart
  | mkdir rel =>
      rw [← Option.some.inj hnext]
      cases rel with
      | none => exact h
      | some path => exact h.mkdir rfl
  | unlink rel =>
      rw [← Option.some.inj hnext]
      cases rel with
      | none => exact h
      | some path => exact h.unlink rfl

/--
**An open file reads what was written to the file it was opened on, while new files keep off its
entry.**  This holds of every file object after every such run, whatever was removed in between.
-/
theorem open_file_reads_own (getc : T → T × UInt8) (putc : T → UInt8 → T) (files : Files)
    (world : RamfsVfs T) {calls : List VfsCall} {t : VfsRun T}
    (hrun : Executes (Guarded VfsRun.KeepsApart (VfsRun.step getc putc))
      (VfsRun.start files world) calls t) {f : Nat} (hf : f ≤ vfsFilePoolSize) (count : Nat) :
    t.ReadsOwn getc putc f count :=
  (hrun.invariant vfsRunOk_step (vfsRunOk_start files world)).reads_own hf count

end Run

/-- No files, and a terminal that says nothing. -/
def quietRun : VfsRun Unit :=
  VfsRun.start ⟨oneProc, emptyPool⟩ ⟨blankRamfs, fun _ => ⟨0, 0, 0⟩, ()⟩

def quietNext : VfsRun Unit → VfsCall → Option (VfsRun Unit) :=
  VfsRun.next (fun w => (w, 0)) fun w _ => w

def quietStep : VfsRun Unit → VfsCall → VfsRun Unit → Prop :=
  VfsRun.step (fun w => (w, 0)) fun w _ => w

/-- No file object that is in use refers to the entry that a call gave. -/
def VfsRun.offEntry (t : VfsRun T) (ret : Int) : Bool :=
  (List.range (vfsFilePoolSize + 1)).all fun f =>
    f == 0 || !(t.io.file f).inUse || ((t.io.file f).privateData : Int) != ret

/-- `KeepsApart`, decided for paths other than the root. -/
def VfsRun.apartTest (t : VfsRun T) : VfsCall → Bool
  | .create rel => t.offEntry (ramfsCreate t.fs rel).2
  | .open rel flags => rel != some ['/'] && t.offEntry (creatResult t.fs flags rel)
  | _ => true

theorem unreferred_of_offEntry {t : VfsRun T} {ret : Int} (htest : t.offEntry ret = true) :
    ∀ i : Nat, ret = i → t.Unreferred i := by
  rintro i rfl f ⟨hne, hle, huse⟩ hentry
  have hf := List.all_eq_true.mp htest f (List.mem_range.mpr (Nat.lt_succ_of_le hle))
  change (t.io.file f).inUse = true at huse
  simp [hne, huse, hentry] at hf

theorem keepsApart_of_test (t : VfsRun T) (c : VfsCall) (htest : t.apartTest c = true) :
    t.KeepsApart c := by
  cases c with
  | «open» rel flags =>
      obtain ⟨hroot, hoff⟩ := (Bool.and_eq_true _ _).mp htest
      exact ⟨unreferred_of_offEntry hoff, fun h => absurd h (bne_iff_ne.mp hroot)⟩
  | create rel => exact unreferred_of_offEntry htest
  | _ => trivial

/-- A file is read while another is removed and a third takes the entry of that. -/
theorem open_file_reads_own_created :
    ∃ t, Executes (Guarded VfsRun.KeepsApart quietStep) quietRun
        [.open (some "/b".toList) vfsOCreat, .open (some "/a".toList) vfsOCreat, .write 2 [5, 6, 7],
          .open (some "/a".toList) 0, .close 1, .unlink (some "/b".toList),
          .open (some "/c".toList) vfsOCreat, .write 1 [9], .read 3 1] t ∧
      t.fileAt 0 = some 2 ∧ t.openedOn 3 = some 1 ∧ t.content 1 = [5, 6, 7] ∧
      (vfs2Read (ramfsEnv (fun w => (w, 0)) fun w _ => w) t.io 3 8).2 = (2, [6, 7]) ∧
      ∀ count, t.ReadsOwn (fun w => (w, 0)) (fun w _ => w) 3 count := by
  have hends : (runAll (testedNext VfsRun.apartTest quietNext) quietRun
      [.open (some "/b".toList) vfsOCreat, .open (some "/a".toList) vfsOCreat, .write 2 [5, 6, 7],
        .open (some "/a".toList) 0, .close 1, .unlink (some "/b".toList),
        .open (some "/c".toList) vfsOCreat, .write 1 [9], .read 3 1]).map (fun t =>
          (t.fileAt 0, t.openedOn 3, t.content 1,
            (vfs2Read (ramfsEnv (fun w => (w, 0)) fun w _ => w) t.io 3 8).2)) =
      some (some 2, some 1, [5, 6, 7], 2, [6, 7]) := by decide +kernel
  obtain ⟨t, ht, hfacts⟩ := Option.map_eq_some_iff.mp hends
  obtain ⟨hentry, hfacts⟩ := Prod.mk.inj hfacts
  obtain ⟨hopened, hfacts⟩ := Prod.mk.inj hfacts
  obtain ⟨hcontent, hread⟩ := Prod.mk.inj hfacts
  have hrun : Executes (Guarded VfsRun.KeepsApart quietStep) quietRun
      [.open (some "/b".toList) vfsOCreat, .open (some "/a".toList) vfsOCreat, .write 2 [5, 6, 7],
        .open (some "/a".toList) 0, .close 1, .unlink (some "/b".toList),
        .open (some "/c".toList) vfsOCreat, .write 1 [9], .read 3 1] t :=
    executes_tested keepsApart_of_test (fun _ _ _ hnext => hnext) ht
  exact ⟨t, hrun, hentry, hopened, hcontent, hread,
    open_file_reads_own _ _ _ _ hrun (by decide)⟩

/-- A file that takes the entry of a removed one is read by whoever had that open. -/
theorem removed_file_reads_other :
    ∃ t, Executes quietStep quietRun
        [.open (some "/a".toList) vfsOCreat, .unlink (some "/a".toList),
          .open (some "/b".toList) vfsOCreat, .write 2 [7]] t ∧
      t.openedOn 1 = some 0 ∧ t.openedOn 2 = some 1 ∧ t.content 0 = [] ∧
      (vfs2Read (ramfsEnv (fun w => (w, 0)) fun w _ => w) t.io 1 1).2 = (1, [7]) ∧
      ¬ t.ReadsOwn (fun w => (w, 0)) (fun w _ => w) 1 1 := by
  have hends : (runAll quietNext quietRun
      [.open (some "/a".toList) vfsOCreat, .unlink (some "/a".toList),
        .open (some "/b".toList) vfsOCreat, .write 2 [7]]).map (fun t =>
          (t.openedOn 1, t.openedOn 2, t.content 0,
            (vfs2Read (ramfsEnv (fun w => (w, 0)) fun w _ => w) t.io 1 1).2)) =
      some (some 0, some 1, [], 1, [7]) := by decide +kernel
  obtain ⟨t, ht, hfacts⟩ := Option.map_eq_some_iff.mp hends
  obtain ⟨hfirst, hrest⟩ := Prod.mk.inj hfacts
  obtain ⟨hsecond, hrest⟩ := Prod.mk.inj hrest
  obtain ⟨hempty, hread⟩ := Prod.mk.inj hrest
  refine ⟨t, executes_runAll (fun _ _ _ hnext => hnext) ht, hfirst, hsecond, hempty, hread, ?_⟩
  rintro (hfailed | ⟨id, hon, hown⟩)
  · exact absurd (hread.symm.trans hfailed) (by decide)
  · obtain rfl : 0 = id := Option.some.inj (hfirst.symm.trans hon)
    rw [hread, hempty] at hown
    exact absurd hown (by simp)

end BrightS
