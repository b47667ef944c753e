/-
A file of the RAM file system, used through one descriptor.

The size of an open file is kept in its entry and in its inode, the position in the file
object.  `Matches` ties all three to a cursor, the reference; `Faithful` is the condition
under which a call does what the reference does.  It leaves out what the code does
differently: `O_TRUNC` does not touch the content, the first three descriptors are the
terminal's for `read` or `write`, a write behind the end uncovers what was stored there
before, and a seek in front of the file moves to a huge position.
-/
import BrightS.Proofs.RamfsVfs

namespace BrightS

open Cursors Runs

variable {T : Type}

/-! ### Sessions -/

/-- The system, the descriptor that is open, and the reference. -/
structure FileSession (T : Type) where
  io : FileIo (RamfsVfs T)
  fd : Option Nat
  ref : Cursor UInt8 ramfsFileCapacity

inductive SessionCall where
  | open (flags : Nat)
  | read (len : Nat)
  | write (buf : List UInt8)
  | lseek (offset whence : Nat)

/-- What a call leaves, what it answers, and what the reference answers. -/
structure SessionResult (T : Type) where
  session : FileSession T
  answer : Int × List UInt8
  expected : Int × List UInt8

/-- Where a seek leads to in the reference; nothing for another `whence`. -/
def seekGoal (ref : Cursor UInt8 ramfsFileCapacity) (offset whence : Int) : Option Int :=
  if whence = seekSet then some offset else
  if whence = seekCur then some (ref.pos + offset) else
  if whence = seekEnd then some (ref.content.length + offset) else none

def refSeek (ref : Cursor UInt8 ramfsFileCapacity) (offset whence : Int) :
    Cursor UInt8 ramfsFileCapacity × Int :=
  match seekGoal ref offset whence with
  | none => (ref, -1)
  | some target => ref.seek target

def asksTrunc (flags : Nat) : Prop := flags % 2 ^ 32 &&& vfsOTrunc ≠ 0

def asksAppend (flags : Nat) : Prop := flags % 2 ^ 32 &&& vfsOAppend ≠ 0

instance (flags : Nat) : Decidable (asksTrunc flags) := inferInstanceAs (Decidable (_ ≠ _))

instance (flags : Nat) : Decidable (asksAppend flags) := inferInstanceAs (Decidable (_ ≠ _))

section Session

variable (getc : T → T × UInt8) (putc : T → UInt8 → T) (path : CStr)

/-- Nothing when the call is undefined, or needs a descriptor and there is none. -/
def FileSession.next (s : FileSession T) : SessionCall → Option (SessionResult T)
  | .open flags =>
      let r := sysOpenRamfs s.io flags (some path)
      some (if r.2 < 0 then ⟨{ s with io := r.1 }, (r.2, []), (r.2, [])⟩ else
        ⟨⟨r.1, some r.2.toNat, s.ref.reopen (asksTrunc flags) (asksAppend flags)⟩,
          (r.2, []), (r.2, [])⟩)
  | .read len => s.fd.map fun fd =>
      let r := sysRead (ramfsEnv getc putc) s.io fd len
      ⟨{ s with io := r.1, ref := (s.ref.read len).1 }, r.2,
        ((s.ref.read len).2.length, (s.ref.read len).2)⟩
  | .write buf => s.fd.bind fun fd => (sysWrite (ramfsEnv getc putc) s.io fd buf).map fun r =>
      ⟨{ s with io := r.1, ref := (s.ref.write 0 buf).1 }, (r.2, []), ((s.ref.write 0 buf).2, [])⟩
  | .lseek offset whence => s.fd.map fun fd =>
      let r := sysLseek (ramfsEnv getc putc) s.io fd offset whence
      let e := refSeek s.ref (toI64 offset) (toFd whence)
      ⟨{ s with io := r.1, ref := e.1 }, (r.2, []), (e.2, [])⟩

def FileSession.step (s : FileSession T) (c : SessionCall) (s' : FileSession T) : Prop :=
  ∃ r, s.next getc putc path c = some r ∧ s' = r.session

end Session

/-- The path leads to a file with this content, or to nothing, which counts as an empty file. -/
structure Ramfs.Shows (fs : Ramfs) (path : CStr) (content : List UInt8) : Prop where
  absent : ramfsOpen fs (some path) = none → content = []
  file : ∀ i, ramfsOpen fs (some path) = some i → (fs i).isDir = false ∧ (fs i).content = content

/-- The descriptor leads to file object `f`, which has entry `i` open. -/
structure Serves (io : FileIo (RamfsVfs T)) (fd f i pos size : Nat) : Prop where
  descriptor : fd < procMaxFds ∧ currentFd io.files fd = f
  live : f ∈ io.files.pool.live
  entry : (io.file f).inode = i + 1 ∧ (io.file f).privateData = i ∧ (io.file f).fops = ramfsFops
  pos : (io.file f).pos = pos
  size : (io.world.ramfsVfsInodes i).size = size

/-- The system has what the reference has. -/
structure FileSession.Matches (path : CStr) (s : FileSession T) : Prop where
  ramfs : RamfsOk s.io.world.fs
  agrees : s.io.files.pool.Agrees
  current : ∃ idx, procGetCurrent s.io.files.procs = some idx
  shows : s.io.world.fs.Shows path s.ref.content
  pos : s.ref.pos < 2 ^ 63
  serves : ∀ fd, s.fd = some fd → ∃ f i, ramfsOpen s.io.world.fs (some path) = some i ∧
    Serves s.io fd f i s.ref.pos s.ref.content.length

/-- The call answers what the reference answers, and the two still match. -/
def FileSession.Right (getc : T → T × UInt8) (putc : T → UInt8 → T) (path : CStr)
    (s : FileSession T) (c : SessionCall) : Prop :=
  ∃ r, s.next getc putc path c = some r ∧ r.answer = r.expected ∧ r.session.Matches path

/-- No new descriptor can be given. -/
def FileSession.Full (s : FileSession T) : Prop :=
  (vfs2FileAlloc s.io.files.pool).2 = 0 ∨
    s.fd = none ∧ ∀ idx, procGetCurrent s.io.files.procs = some idx →
      fdFree (s.io.files.procs.table idx).fdTable = none

/-- What the storage of the file holds between its end and the position is zero. -/
def FileSession.GapZero (path : CStr) (s : FileSession T) : Prop :=
  ∀ i, ramfsOpen s.io.world.fs (some path) = some i →
    ∀ o, s.ref.content.length ≤ o → o < s.ref.pos → (s.io.world.fs i).data o = 0

/-- When a call does what the reference does. -/
def FileSession.Faithful (path : CStr) (s : FileSession T) : SessionCall → Prop
  | .open flags => asksTrunc flags → s.ref.content = [] ∨ s.Full
  | .read len => ∃ fd, s.fd = some fd ∧ (fd ≠ 0 ∨ len = 0)
  | .write buf => ∃ fd, s.fd = some fd ∧
      if fd = 1 ∨ fd = 2 then s.ref.pos < ramfsFileCapacity ∧ buf = []
      else ramfsFileCapacity ≤ s.ref.pos ∨
        s.ref.pos + toWrite s.ref.pos buf.length ≤ ramfsFileCapacity ∧
          (buf = [] → s.ref.pos ≤ s.ref.content.length) ∧ s.GapZero path
  | .lseek offset whence => ∃ fd, s.fd = some fd ∧
      ∀ target, seekGoal s.ref (toI64 offset) (toFd whence) = some target →
        0 ≤ target ∧ target < 2 ^ 63

theorem right_iff {getc : T → T × UInt8} {putc : T → UInt8 → T} {path : CStr}
    {s : FileSession T} {c : SessionCall} {r : SessionResult T}
    (hnext : s.next getc putc path c = some r) :
    s.Right getc putc path c ↔ r.answer = r.expected ∧ r.session.Matches path := by
  unfold FileSession.Right
  rw [hnext]
  simp

/-! ### What does not concern the open file -/

section Keep

variable {path : CStr} {s : FileSession T} {io' : FileIo (RamfsVfs T)}

theorem Serves.keep {io : FileIo (RamfsVfs T)} {fd f i pos size : Nat}
    (h : Serves io fd f i pos size) (hprocs : io'.files.procs = io.files.procs)
    (hfile : io'.file f = io.file f) (hsize : (io'.world.ramfsVfsInodes i).size = size) :
    Serves io' fd f i pos size := by
  obtain ⟨hfd, hcur⟩ := h.descriptor
  obtain ⟨hne, hle, huse⟩ := h.live
  refine ⟨⟨hfd, ?_⟩, ⟨hne, hle, ?_⟩, by rw [hfile]; exact h.entry, by rw [hfile]; exact h.pos, hsize⟩
  · unfold currentFd
    rw [hprocs]
    exact hcur
  · show (io'.file f).inUse = true
    rw [hfile]
    exact huse

/-- Nothing that the session can see changes. -/
theorem FileSession.Matches.keep (h : s.Matches path) (hok : RamfsOk io'.world.fs)
    (hagrees : io'.files.pool.Agrees) (hprocs : io'.files.procs = s.io.files.procs)
    (hshows : io'.world.fs.Shows path s.ref.content)
    (hopen : ∀ i, ramfsOpen s.io.world.fs (some path) = some i →
      ramfsOpen io'.world.fs (some path) = some i)
    (hfile : ∀ f ∈ s.io.files.pool.live, io'.file f = s.io.file f)
    (hsize : ∀ fd i, s.fd = some fd → ramfsOpen io'.world.fs (some path) = some i →
      (s.io.world.ramfsVfsInodes i).size = s.ref.content.length →
        (io'.world.ramfsVfsInodes i).size = s.ref.content.length) :
    FileSession.Matches path { s with io := io' } := by
  refine ⟨hok, hagrees, by rw [hprocs]; exact h.current, hshows, h.pos, fun fd hfd => ?_⟩
  obtain ⟨f, i, hi, hserves⟩ := h.serves fd hfd
  exact ⟨f, i, hopen i hi,
    hserves.keep hprocs (hfile f hserves.live) (hsize fd i hfd (hopen i hi) hserves.size)⟩

end Keep

/-! ### Opening -/

section Open

variable {path : CStr} {w : RamfsVfs T} {content : List UInt8}

theorem Ramfs.Shows.creat (hok : RamfsOk w.fs) (h : w.fs.Shows path content) (flags : Nat) :
    (ramfsVfsCreat w flags path).fs.Shows path content := by
  rcases ramfsVfsCreat_cases hok flags path with hsame | ⟨habsent, i, hopen, hdir, hempty⟩
  · rw [hsame]
    exact h
  · refine ⟨fun hnone => ?_, fun j hj => ?_⟩
    · rw [hopen] at hnone
      exact absurd hnone (by simp)
    · obtain rfl : i = j := Option.some.inj (hopen.symm.trans hj)
      exact ⟨hdir, hempty.trans (h.absent habsent).symm⟩

/-- A file that is there is not created. -/
theorem ramfsVfsCreat_open (hok : RamfsOk w.fs) (flags : Nat) (path : CStr) (i : Nat)
    (hopen : ramfsOpen w.fs (some path) = some i) :
    ramfsOpen (ramfsVfsCreat w flags path).fs (some path) = some i := by
  rcases ramfsVfsCreat_cases hok flags path with hsame | ⟨habsent, -⟩
  · rw [hsame]
    exact hopen
  · rw [hopen] at habsent
    exact absurd habsent (by simp)

/-- The inode of a file once it is opened. -/
theorem ramfsVfsTrunc_file (w : RamfsVfs T) (i : Nat) {f : Nat} {ino : VfsInode} (hf : f ≠ 0)
    (hmode : ino.mode = vfsIfReg) (flags : Nat) :
    let w' := ramfsVfsTrunc (w.setInode i ino) flags f
      (some ⟨i + 1, ino.mode, ino.size, i, ramfsFops⟩)
    w'.fs = w.fs ∧ (w'.ramfsVfsInodes i).size = if flags &&& vfsOTrunc ≠ 0 then 0 else ino.size := by
  unfold ramfsVfsTrunc
  dsimp only
  by_cases htrunc : flags &&& vfsOTrunc ≠ 0
  · rw [if_pos ⟨hf, htrunc, hmode⟩, if_pos htrunc]
    exact ⟨rfl, by simp [RamfsVfs.setSize, RamfsVfs.setInode]⟩
  · rw [if_neg (fun h => htrunc h.2.1), if_neg htrunc]
    exact ⟨rfl, by simp [RamfsVfs.setInode]⟩

theorem sysOpenRamfs_eq {s : FileIo (RamfsVfs T)} {flags : Nat} {rel : Option CStr}
    {found : Option FoundInode} (hfind : ramfsVfsFind s.world (flags % 2 ^ 32) rel = (w, found)) :
    sysOpenRamfs s flags rel =
      ({ files := (sysOpen s.files (flags % 2 ^ 32) found).1
         world := ramfsVfsTrunc w (flags % 2 ^ 32)
          (vfs2Open s.files.pool (flags % 2 ^ 32) found).2 found },
        (sysOpen s.files (flags % 2 ^ 32) found).2) := by
  unfold sysOpenRamfs
  dsimp only
  rw [hfind]

variable {getc : T → T × UInt8} {putc : T → UInt8 → T} {s : FileSession T} {flags : Nat}

theorem FileSession.next_open_failed {io' : FileIo (RamfsVfs T)}
    (hcall : sysOpenRamfs s.io flags (some path) = (io', -1)) :
    s.next getc putc path (.open flags) = some ⟨{ s with io := io' }, (-1, []), (-1, [])⟩ := by
  unfold FileSession.next
  dsimp only
  rw [hcall]
  rfl

theorem FileSession.next_open_given {io' : FileIo (RamfsVfs T)} {j : Nat}
    (hcall : sysOpenRamfs s.io flags (some path) = (io', (j : Int))) :
    s.next getc putc path (.open flags) =
      some ⟨⟨io', some j, s.ref.reopen (asksTrunc flags) (asksAppend flags)⟩,
        ((j : Int), []), ((j : Int), [])⟩ := by
  unfold FileSession.next
  dsimp only
  rw [hcall, if_neg (by simp), Int.toNat_natCast]

/-- A descriptor that was just given leads to the file. -/
theorem matches_given {w' : RamfsVfs T} {files : Files} {pool : FilePool}
    {ref : Cursor UInt8 ramfsFileCapacity} {idx i j k fl : Nat} (hok : RamfsOk w'.fs)
    (hagrees : pool.Agrees) (hcur : procGetCurrent files.procs = some idx) (hj : j < procMaxFds)
    (hk : k < vfsFilePoolSize) (hopen : ramfsOpen w'.fs (some path) = some i)
    (hshows : w'.fs.Shows path ref.content)
    (hfile : pool.filePool k = ⟨i + 1, ref.pos, fl, ramfsFops, i, true⟩)
    (hsize : (w'.ramfsVfsInodes i).size = ref.content.length)
    (hpos : ref.pos ≤ ref.content.length) :
    FileSession.Matches path
      ⟨⟨({ files with pool := pool } : Files).setFd idx j (k + 1), w'⟩, some j, ref⟩ := by
  have hcur' : procGetCurrent (({ files with pool := pool } : Files).setFd idx j (k + 1)).procs = _ :=
    procGetCurrent_setFd.trans hcur
  have hfits := ref.fits
  have hcap : ramfsFileCapacity = 4096 := rfl
  refine ⟨hok, hagrees, ⟨idx, hcur'⟩, hshows, ?_, fun fd hfd => ?_⟩
  · dsimp only
    omega
  · obtain rfl : j = fd := Option.some.inj hfd
    refine ⟨k + 1, i, hopen, ⟨hj, ?_⟩, ⟨Nat.succ_ne_zero k, hk, ?_⟩, ⟨?_, ?_, ?_⟩, ?_, hsize⟩
    · exact (currentFd_small hcur' hj).trans setFd_fdTable_self
    · exact congrArg VfsFile.inUse hfile
    · exact congrArg VfsFile.inode hfile
    · exact congrArg VfsFile.privateData hfile
    · exact congrArg VfsFile.fops hfile
    · exact congrArg VfsFile.pos hfile

/-- A file object was taken for the file: with what `O_TRUNC` did to its inode, and with the
position that `O_APPEND` asks for. -/
structure OpenTaken (path : CStr) (s : FileSession T) (flags i k : Nat) (pool : FilePool)
    (w' : RamfsVfs T) : Prop where
  ramfs : RamfsOk w'.fs
  shows : w'.fs.Shows path s.ref.content
  entry : ramfsOpen w'.fs (some path) = some i
  same : ∀ j, ramfsOpen s.io.world.fs (some path) = some j →
    ramfsOpen w'.fs (some path) = some j
  size : (w'.ramfsVfsInodes i).size = if asksTrunc flags then 0 else s.ref.content.length
  room : (vfs2FileAlloc s.io.files.pool).2 ≠ 0
  slot : k < vfsFilePoolSize
  agrees : pool.Agrees
  others : ∀ f ∈ s.io.files.pool.live, pool.filePool (f - 1) = s.io.files.pool.filePool (f - 1)
  file : pool.filePool k = ⟨i + 1, if asksAppend flags then (w'.ramfsVfsInodes i).size else 0,
    flags % 2 ^ 32, ramfsFops, i, true⟩

section Taken

variable {i k idx : Nat} {pool : FilePool} {w' : RamfsVfs T}

/-- No descriptor is free: the inode may be wrong now for the one that is open. -/
theorem OpenTaken.full_iff (ht : OpenTaken path s flags i k pool w') (h : s.Matches path)
    (hcur : procGetCurrent s.io.files.procs = some idx)
    (hfree : fdFree (s.io.files.procs.table idx).fdTable = none) :
    FileSession.Matches path { s with io := ⟨{ s.io.files with pool := pool }, w'⟩ } ↔
      s.Faithful path (.open flags) := by
  constructor
  · intro hmatches htrunc
    cases hfd : s.fd with
    | none =>
        refine .inr (.inr ⟨hfd, fun idx' hcur' => ?_⟩)
        obtain rfl : idx = idx' := Option.some.inj (hcur.symm.trans hcur')
        exact hfree
    | some fd =>
        obtain ⟨f, i', hi', hserves⟩ := hmatches.serves fd hfd
        obtain rfl : i = i' := Option.some.inj (ht.entry.symm.trans hi')
        have hzero := ht.size.symm.trans hserves.size
        rw [if_pos htrunc] at hzero
        exact .inl (List.length_eq_zero_iff.mp hzero.symm)
  · intro hfaithful
    refine h.keep ht.ramfs ht.agrees rfl ht.shows ht.same ht.others fun fd i' hfd hi' _ => ?_
    obtain rfl : i = i' := Option.some.inj (ht.entry.symm.trans hi')
    refine ht.size.trans ?_
    split_ifs with htrunc
    · rcases hfaithful htrunc with hempty | hroom | ⟨hnofd, -⟩
      · rw [hempty]
        rfl
      · exact absurd hroom ht.room
      · rw [hfd] at hnofd
        exact absurd hnofd (by simp)
    · rfl

/-- The descriptor that is given leads to the file as the reference has it, if there was nothing
to be truncated. -/
theorem OpenTaken.given_iff (ht : OpenTaken path s flags i k pool w') {j : Nat}
    (hcur : procGetCurrent s.io.files.procs = some idx)
    (hfree : fdFree (s.io.files.procs.table idx).fdTable = some j) :
    FileSession.Matches path
        ⟨⟨({ s.io.files with pool := pool } : Files).setFd idx j (k + 1), w'⟩, some j,
          s.ref.reopen (asksTrunc flags) (asksAppend flags)⟩ ↔
      s.Faithful path (.open flags) := by
  constructor
  · intro hmatches htrunc
    have hcontent := (hmatches.shows.file i ht.entry).2
    rw [(ht.shows.file i ht.entry).2] at hcontent
    refine .inl (hcontent.trans ?_)
    simp [Cursor.reopen, htrunc]
  · intro hfaithful
    have hempty : asksTrunc flags → s.ref.content = [] := by
      intro htrunc
      rcases hfaithful htrunc with hempty | hroom | ⟨-, hfull⟩
      · exact hempty
      · exact absurd hroom ht.room
      · rw [hfull idx hcur] at hfree
        exact absurd hfree (by simp)
    have hcontent : (s.ref.reopen (asksTrunc flags) (asksAppend flags)).content =
        s.ref.content := by
      by_cases htrunc : asksTrunc flags
      · simp [Cursor.reopen, htrunc, hempty htrunc]
      · simp [Cursor.reopen, htrunc]
    have hsize : (w'.ramfsVfsInodes i).size = s.ref.content.length := by
      refine ht.size.trans ?_
      split_ifs with htrunc
      · rw [hempty htrunc]
        rfl
      · rfl
    have hpos : (s.ref.reopen (asksTrunc flags) (asksAppend flags)).pos =
        if asksAppend flags then (w'.ramfsVfsInodes i).size else 0 := by
      rw [hsize, ← hcontent]
      unfold Cursor.reopen
      simp
    have hfile := ht.file
    rw [← hpos] at hfile
    refine matches_given ht.ramfs ht.agrees hcur (fdFree_spec hfree).1 ht.slot ht.entry
      (by rw [hcontent]; exact ht.shows) hfile (by rw [hcontent]; exact hsize) ?_
    rw [hpos, hsize, hcontent]
    split_ifs
    · exact le_refl _
    · exact Nat.zero_le _

end Taken

/-- A file is opened as the reference is, unless there is something to be truncated. -/
theorem FileSession.Matches.open_iff (h : s.Matches path) (hroot : path ≠ ['/']) (flags : Nat) :
    s.Right getc putc path (.open flags) ↔ s.Faithful path (.open flags) := by
  have hok := ramfsVfsCreat_ok h.ramfs (flags % 2 ^ 32) path
  have hshows := h.shows.creat h.ramfs (flags % 2 ^ 32)
  have hopened := ramfsVfsCreat_open h.ramfs (flags % 2 ^ 32) path
  rcases ramfsVfsFind_cases (w := s.io.world) hroot (flags % 2 ^ 32) with
    ⟨hnone, hfind⟩ | ⟨i, ino, hsome, hino, hfind⟩
  · -- There is no such file.
    have hcall := sysOpenRamfs_eq hfind
    rw [sysOpen_refused rfl] at hcall
    rw [right_iff (FileSession.next_open_failed hcall)]
    refine iff_of_true ⟨rfl, ?_⟩ fun _ => .inl (hshows.absent hnone)
    exact h.keep hok h.agrees rfl hshows hopened (fun _ _ => rfl) fun _ i _ hi =>
      absurd (hnone.symm.trans hi) (by simp)
  obtain ⟨hdir, hcontent⟩ := hshows.file i hsome
  rw [hdir] at hino
  have hmode : ino.mode = vfsIfReg := by rw [hino]; rfl
  have hsize : ino.size = s.ref.content.length := by rw [← hcontent, length_content, hino]
  have hcall := sysOpenRamfs_eq hfind
  rcases vfs2Open_cases h.agrees (flags % 2 ^ 32) (some ⟨i + 1, ino.mode, ino.size, i, ramfsFops⟩) with
    ⟨hfail, hopen⟩ | ⟨k, hk, -, hbit, hunused, hnew, hagrees, -, hothers⟩
  · -- The pool is full.
    have hfull := vfs2FileAlloc_full.mpr (hfail.resolve_left (by simp))
    rw [sysOpen_refused hopen, hopen, ramfsVfsTrunc_null] at hcall
    rw [right_iff (FileSession.next_open_failed hcall)]
    refine iff_of_true ⟨rfl, ?_⟩ fun _ => .inr (.inl hfull)
    refine h.keep hok h.agrees rfl hshows hopened (fun _ _ => rfl) fun fd i' _ hi' _ => ?_
    obtain rfl : i = i' := Option.some.inj (hsome.symm.trans hi')
    show (Function.update (ramfsVfsCreat s.io.world _ path).ramfsVfsInodes i ino i).size = _
    rw [Function.update_self]
    exact hsize
  obtain ⟨hfs, hsize'⟩ := ramfsVfsTrunc_file (ramfsVfsCreat s.io.world (flags % 2 ^ 32) path) i
    (Nat.succ_ne_zero k) hmode (flags % 2 ^ 32)
  have hfile := vfs2Open_file hnew
  rw [hnew] at hcall
  generalize ramfsVfsTrunc _ _ (k + 1) _ = w' at hcall hfs hsize'
  have ht : OpenTaken path s flags i k (vfs2Open s.io.files.pool (flags % 2 ^ 32)
      (some ⟨i + 1, ino.mode, ino.size, i, ramfsFops⟩)).1 w' := by
    rw [← hfs] at hok hshows hopened hsome
    refine ⟨hok, hshows, hsome, hopened, hsize'.trans ?_, fun hzero => ?_, hk, hagrees,
      fun f hf => hothers _ ?_, hfile.trans ?_⟩
    · rw [hsize]
      rfl
    · rw [vfs2FileAlloc_full.mp hzero k hk] at hbit
      exact absurd hbit (by simp)
    · rintro rfl
      rw [hf.2.2] at hunused
      exact absurd hunused (by simp)
    · rw [hsize']
      simp only [hmode, and_true]
      rfl
  obtain ⟨idx, hcur⟩ := h.current
  cases hfree : fdFree (s.io.files.procs.table idx).fdTable with
  | none =>
      rw [sysOpen_full hcur hnew hfree] at hcall
      rw [right_iff (FileSession.next_open_failed hcall)]
      exact (and_iff_right rfl).trans (ht.full_iff h hcur hfree)
  | some j =>
      rw [sysOpen_given hcur hnew hfree] at hcall
      rw [right_iff (FileSession.next_open_given hcall)]
      exact (and_iff_right rfl).trans (ht.given_iff hcur hfree)

end Open

/-! ### The open file -/

section Serving

variable {path : CStr} {s : FileSession T} {fd f i : Nat}

theorem Serves.ne_zero {io : FileIo (RamfsVfs T)} {pos size : Nat}
    (h : Serves io fd f i pos size) : f ≠ 0 := h.live.1

theorem Serves.fops_ne_zero {io : FileIo (RamfsVfs T)} {pos size : Nat}
    (h : Serves io fd f i pos size) : (io.file f).fops ≠ 0 := by
  rw [h.entry.2.2]
  exact Nat.one_ne_zero

theorem Serves.inode_ne_zero {io : FileIo (RamfsVfs T)} {pos size : Nat}
    (h : Serves io fd f i pos size) : (io.file f).inode ≠ 0 := by
  rw [h.entry.1]
  exact Nat.succ_ne_zero i

theorem isFile_of_open {fs : Ramfs} (hopen : ramfsOpen fs (some path) = some i)
    (hdir : (fs i).isDir = false) : fs.IsFile i :=
  ⟨(ramfsOpen_some hopen).1, (ramfsOpen_some hopen).2, hdir⟩

/-- What an operation on the open file has to leave for the two to match. -/
theorem FileSession.Matches.done_iff (h : s.Matches path) (hfd : s.fd = some fd)
    (hserves : Serves s.io fd f i s.ref.pos s.ref.content.length) (r : IoResult (RamfsVfs T))
    (ref' : Cursor UInt8 ramfsFileCapacity) (hok : RamfsOk r.world.fs)
    (hopen : ramfsOpen r.world.fs (some path) = some i) (hdir : (r.world.fs i).isDir = false) :
    FileSession.Matches path ⟨s.io.done f r, s.fd, ref'⟩ ↔
      (r.world.fs i).content = ref'.content ∧ r.pos = ref'.pos ∧
        (r.world.ramfsVfsInodes i).size = ref'.content.length ∧ ref'.pos < 2 ^ 63 := by
  constructor
  · intro hmatches
    obtain ⟨f', i', hi', hserves'⟩ := hmatches.serves fd hfd
    obtain rfl : i = i' := Option.some.inj (hopen.symm.trans hi')
    obtain rfl : f = f' := hserves.descriptor.2.symm.trans hserves'.descriptor.2
    have hpos := hserves'.pos
    rw [done_file_self] at hpos
    exact ⟨(hmatches.shows.file i hopen).2, hpos, hserves'.size, hmatches.pos⟩
  · rintro ⟨hcontent, hpos, hsize, hbound⟩
    refine ⟨hok, agrees_done h.agrees, h.current, ⟨fun hnone => ?_, fun i' hi' => ?_⟩, hbound,
      fun fd' hfd' => ⟨f, i, hopen, ?_⟩⟩
    · exact absurd (hnone.symm.trans hopen) (by simp)
    · obtain rfl : i = i' := Option.some.inj (hopen.symm.trans hi')
      exact ⟨hdir, hcontent⟩
    · obtain rfl : fd = fd' := Option.some.inj (hfd.symm.trans hfd')
      have hfile : (s.io.done f r).file f = { s.io.file f with pos := r.pos } := done_file_self
      refine ⟨hserves.descriptor, ?_, ?_, ?_, hsize⟩
      · rw [live_done]
        exact hserves.live
      · rw [hfile]
        exact hserves.entry
      · rw [hfile]
        exact hpos

/-- What the reference may do while the system uses the terminal. -/
theorem FileSession.Matches.terminal_iff (h : s.Matches path) (hfd : s.fd = some fd)
    {w' : RamfsVfs T} (hfs : w'.fs = s.io.world.fs)
    (hinodes : w'.ramfsVfsInodes = s.io.world.ramfsVfsInodes)
    (ref' : Cursor UInt8 ramfsFileCapacity) :
    FileSession.Matches path ⟨{ s.io with world := w' }, s.fd, ref'⟩ ↔
      ref'.content = s.ref.content ∧ ref'.pos = s.ref.pos := by
  obtain ⟨f, i, hi, hserves⟩ := h.serves fd hfd
  constructor
  · intro hmatches
    obtain ⟨f', i', hi', hserves'⟩ := hmatches.serves fd hfd
    obtain rfl : f = f' := hserves.descriptor.2.symm.trans hserves'.descriptor.2
    have hcontent := (hmatches.shows.file i (by rw [hfs]; exact hi)).2
    rw [hfs] at hcontent
    exact ⟨hcontent.symm.trans (h.shows.file i hi).2, hserves'.pos.symm.trans hserves.pos⟩
  · rintro ⟨hcontent, hpos⟩
    refine ⟨by rw [hfs]; exact h.ramfs, h.agrees, h.current, ?_, by rw [hpos]; exact h.pos,
      fun fd' hfd' => ?_⟩
    · rw [hfs, hcontent]
      exact h.shows
    · obtain ⟨f', i', hi', hserves'⟩ := h.serves fd' hfd'
      refine ⟨f', i', by rw [hfs]; exact hi', ?_⟩
      rw [hpos, hcontent]
      refine hserves'.keep rfl rfl ?_
      rw [hinodes]
      exact hserves'.size

end Serving

/-! ### Reading -/

section Read

variable {getc : T → T × UInt8} {putc : T → UInt8 → T} {path : CStr} {s : FileSession T}

theorem ttyRead_ramfs (getc : T → T × UInt8) (putc : T → UInt8 → T) (n : Nat) : ∀ w : RamfsVfs T,
    (ttyRead (ramfsEnv getc putc) n w).1.fs = w.fs ∧
      (ttyRead (ramfsEnv getc putc) n w).1.ramfsVfsInodes = w.ramfsVfsInodes := by
  induction n with
  | zero => exact fun _ => ⟨rfl, rfl⟩
  | succ n ih => exact fun w => ih ((ramfsEnv getc putc).ttyReadChar w).1

theorem serialWrite_ramfs (getc : T → T × UInt8) (putc : T → UInt8 → T) (buf : List UInt8) :
    ∀ w : RamfsVfs T,
    (buf.foldl (ramfsEnv getc putc).serialWrite w).fs = w.fs ∧
      (buf.foldl (ramfsEnv getc putc).serialWrite w).ramfsVfsInodes = w.ramfsVfsInodes := by
  induction buf with
  | nil => exact fun _ => ⟨rfl, rfl⟩
  | cons b rest ih => exact fun w => ih ((ramfsEnv getc putc).serialWrite w b)

theorem FileSession.Matches.read_iff (h : s.Matches path) (len : Nat) :
    s.Right getc putc path (.read len) ↔ s.Faithful path (.read len) := by
  cases hfd : s.fd with
  | none =>
      refine iff_of_false ?_ ?_
      · rintro ⟨r, hnext, -⟩
        simp [FileSession.next, hfd] at hnext
      · rintro ⟨fd, hsome, -⟩
        rw [hfd] at hsome
        exact absurd hsome (by simp)
  | some fd =>
      obtain ⟨f, i, hi, hserves⟩ := h.serves fd hfd
      have hnext : s.next getc putc path (.read len) = some
          ⟨⟨(sysRead (ramfsEnv getc putc) s.io fd len).1, s.fd, (s.ref.read len).1⟩,
            (sysRead (ramfsEnv getc putc) s.io fd len).2,
            ((s.ref.read len).2.length, (s.ref.read len).2)⟩ := by
        simp [FileSession.next, hfd]
      have hfaithful : s.Faithful path (.read len) ↔ fd ≠ 0 ∨ len = 0 := by
        simp [FileSession.Faithful, hfd]
      rw [right_iff hnext, hfaithful]
      unfold sysRead Cursor.read
      by_cases hzero : fd = 0
      · -- The keyboard is read.
        obtain ⟨hfs, hinodes⟩ := ttyRead_ramfs getc putc len s.io.world
        rw [if_pos hzero, h.terminal_iff hfd hfs hinodes]
        constructor
        · rintro ⟨hanswer, -, hpos⟩
          have hret := congrArg Prod.fst hanswer
          dsimp only at hret hpos
          exact .inr (by omega)
        · rintro (hne | rfl)
          · exact absurd hzero hne
          · rw [List.take_zero]
            exact ⟨rfl, rfl, rfl⟩
      · obtain ⟨hdir, hcontent⟩ := h.shows.file i hi
        rw [if_neg hzero, hserves.descriptor.2, if_neg hserves.ne_zero,
          vfs2Read_ramfs getc putc hserves.ne_zero hserves.live.2.2 hserves.fops_ne_zero,
          ramfsVfsRead_file h.ramfs (isFile_of_open hi hdir) hserves.inode_ne_zero hserves.entry.2.1,
          hserves.pos, hcontent]
        dsimp only
        rw [h.done_iff hfd hserves _ _ h.ramfs hi hdir]
        refine iff_of_true ⟨rfl, hcontent, rfl, hserves.size, ?_⟩ (.inl hzero)
        have hpos := h.pos
        have hfits := s.ref.fits
        have hcap : ramfsFileCapacity = 4096 := rfl
        simp only [List.length_take, List.length_drop]
        omega

end Read

/-! ### Writing -/

section Write

variable {getc : T → T × UInt8} {putc : T → UInt8 → T} {path : CStr} {s : FileSession T}

/-- A write that fits stores what fits. -/
theorem toWrite_eq {off len : Nat} (hoff : off < ramfsFileCapacity)
    (hfit : off + toWrite off len ≤ ramfsFileCapacity) :
    toWrite off len = min len (ramfsFileCapacity - off) := by
  have hmod := Nat.mod_le (off + len) (2 ^ 64)
  unfold toWrite at hfit ⊢
  split_ifs at hfit ⊢ with hlong
  · omega
  · omega

theorem take_toWrite {off : Nat} {buf : List UInt8} (hoff : off < ramfsFileCapacity)
    (hfit : off + toWrite off buf.length ≤ ramfsFileCapacity) :
    buf.take (toWrite off buf.length) = buf.take (ramfsFileCapacity - off) := by
  rw [toWrite_eq hoff hfit, List.take_eq_take_iff]
  omega

theorem stored_size (w : RamfsVfs T) {i : Nat} (off : Nat) (buf : List UInt8)
    (hsize : (w.ramfsVfsInodes i).size = (w.fs i).size)
    (hgap : toWrite off buf.length = 0 → off ≤ (w.fs i).size) :
    ((w.stored i i off buf).ramfsVfsInodes i).size = ((w.fs i).written off buf).size := by
  unfold RamfsVfs.stored RamfsFile.written
  dsimp only
  split_ifs with hnone
  · rw [hnone]
    have := hgap hnone
    simp only [hsize]
    omega
  · simp [RamfsVfs.setSize, RamfsVfs.setInode]
    omega

/-- A write into the file itself. -/
theorem FileSession.Matches.write_file_iff (h : s.Matches path) {fd f i : Nat} (hfd : s.fd = some fd)
    (hi : ramfsOpen s.io.world.fs (some path) = some i)
    (hserves : Serves s.io fd f i s.ref.pos s.ref.content.length) {buf : List UInt8}
    (hpos : s.ref.pos < ramfsFileCapacity)
    (hfit : s.ref.pos + toWrite s.ref.pos buf.length ≤ ramfsFileCapacity) :
    ((toWrite s.ref.pos buf.length : Int) = (s.ref.write 0 buf).2 ∧
        FileSession.Matches path ⟨s.io.done f
          ⟨s.io.world.stored i i s.ref.pos buf, s.ref.pos + toWrite s.ref.pos buf.length,
            toWrite s.ref.pos buf.length⟩, s.fd, (s.ref.write 0 buf).1⟩) ↔
      (buf = [] → s.ref.pos ≤ s.ref.content.length) ∧ s.GapZero path := by
  obtain ⟨hdir, hcontent⟩ := h.shows.file i hi
  have hfile := isFile_of_open hi hdir
  have hlen : (s.io.world.fs i).size = s.ref.content.length := by rw [← hcontent, length_content]
  have hok : RamfsOk (s.io.world.stored i i s.ref.pos buf).fs := by
    have hcall := h.ramfs.write_eq hfile.1 hfile.2.1 s.ref.pos buf
    rw [if_neg (by simp [hdir, hpos]), if_neg (by omega)] at hcall
    rw [stored_fs]
    exact h.ramfs.write hcall
  have hopen : ramfsOpen (s.io.world.stored i i s.ref.pos buf).fs (some path) = some i := by
    rw [stored_fs, ramfsOpen_written]
    exact hi
  have hentry : (s.io.world.stored i i s.ref.pos buf).fs i =
      (s.io.world.fs i).written s.ref.pos buf := by rw [stored_fs, Function.update_self]
  have hgap : s.GapZero path ↔
      ∀ o, (s.io.world.fs i).size ≤ o → o < s.ref.pos → (s.io.world.fs i).data o = 0 := by
    rw [hlen]
    refine ⟨fun hzero => hzero i hi, fun hzero i' hi' => ?_⟩
    obtain rfl : i = i' := Option.some.inj (hi.symm.trans hi')
    exact hzero
  have hcap : ramfsFileCapacity = 4096 := rfl
  have hsize := fun hend => stored_size s.io.world s.ref.pos buf
    (hserves.size.trans hlen.symm) hend
  have hkeptDir : ((s.io.world.stored i i s.ref.pos buf).fs i).isDir = false := by
    rw [hentry]
    exact hdir
  have hdone := h.done_iff hfd hserves
    ⟨s.io.world.stored i i s.ref.pos buf, s.ref.pos + toWrite s.ref.pos buf.length,
      toWrite s.ref.pos buf.length⟩ (s.ref.write 0 buf).1 hok hopen hkeptDir
  rw [hdone]
  dsimp only
  rw [hentry, hgap, ← content_written_iff _ _ buf, hcontent]
  by_cases hbuf : buf = []
  · subst hbuf
    rw [Cursor.write_nil hpos, List.take_nil, List.length_nil, toWrite_zero]
    dsimp only
    constructor
    · rintro ⟨-, hsame, -⟩
      have hend : s.ref.pos ≤ s.ref.content.length := by
        have hlength := congrArg List.length hsame
        have hwritten : s.ref.pos + toWrite s.ref.pos ([] : List UInt8).length ≤
            ((s.io.world.fs i).written s.ref.pos []).size := le_max_right _ _
        rw [length_content] at hlength
        omega
      rw [splice_nil 0 _ _ hend]
      exact ⟨fun _ => hend, hsame⟩
    · rintro ⟨hend, hsame⟩
      have hend := hend rfl
      rw [splice_nil 0 _ _ hend] at hsame
      refine ⟨rfl, hsame, rfl, ?_, by omega⟩
      rw [hsize fun _ => by rw [hlen]; exact hend, ← length_content, hsame]
  · obtain ⟨hcontent', hpos', hret'⟩ := Cursor.write_room 0 hpos hbuf
    rw [hcontent', hpos', hret', ← take_toWrite hpos hfit, length_take_toWrite]
    constructor
    · rintro ⟨-, hsame, -⟩
      exact ⟨fun hnil => absurd hnil hbuf, hsame⟩
    · rintro ⟨-, hsame⟩
      have hsome : toWrite s.ref.pos buf.length ≠ 0 := by
        rw [toWrite_eq hpos hfit]
        have := List.length_pos_iff.mpr hbuf
        omega
      refine ⟨rfl, hsame, rfl, ?_, by omega⟩
      rw [hsize fun hnone => absurd hnone hsome, ← length_content, hsame]

theorem FileSession.Matches.write_iff (h : s.Matches path) (buf : List UInt8) :
    s.Right getc putc path (.write buf) ↔ s.Faithful path (.write buf) := by
  cases hfd : s.fd with
  | none =>
      refine iff_of_false ?_ ?_
      · rintro ⟨r, hnext, -⟩
        simp [FileSession.next, hfd] at hnext
      · rintro ⟨fd, hsome, -⟩
        rw [hfd] at hsome
        exact absurd hsome (by simp)
  | some fd =>
      obtain ⟨f, i, hi, hserves⟩ := h.serves fd hfd
      have hnext : s.next getc putc path (.write buf) =
          (sysWrite (ramfsEnv getc putc) s.io fd buf).map fun r =>
            ⟨⟨r.1, s.fd, (s.ref.write 0 buf).1⟩, (r.2, []), ((s.ref.write 0 buf).2, [])⟩ := by
        simp [FileSession.next, hfd]
      have hfaithful : s.Faithful path (.write buf) ↔
          if fd = 1 ∨ fd = 2 then s.ref.pos < ramfsFileCapacity ∧ buf = []
          else ramfsFileCapacity ≤ s.ref.pos ∨
            s.ref.pos + toWrite s.ref.pos buf.length ≤ ramfsFileCapacity ∧
              (buf = [] → s.ref.pos ≤ s.ref.content.length) ∧ s.GapZero path := by
        simp [FileSession.Faithful, hfd]
      rw [hfaithful]
      unfold sysWrite at hnext
      by_cases hterm : fd = 1 ∨ fd = 2
      · -- The serial console is written to.
        obtain ⟨hfs, hinodes⟩ := serialWrite_ramfs getc putc buf s.io.world
        rw [if_pos hterm, Option.map_some] at hnext
        rw [right_iff hnext, if_pos hterm]
        dsimp only
        rw [h.terminal_iff hfd hfs hinodes]
        by_cases hfull : ramfsFileCapacity ≤ s.ref.pos
        · rw [Cursor.write_full hfull]
          refine iff_of_false ?_ (by omega)
          rintro ⟨hanswer, -⟩
          have hret := congrArg Prod.fst hanswer
          dsimp only at hret
          omega
        have hpos : s.ref.pos < ramfsFileCapacity := by omega
        by_cases hbuf : buf = []
        · rw [hbuf, Cursor.write_nil hpos]
          exact iff_of_true ⟨rfl, rfl, rfl⟩ ⟨hpos, rfl⟩
        · refine iff_of_false ?_ fun hnil => hbuf hnil.2
          rintro ⟨-, -, hsame⟩
          rw [(Cursor.write_room _ hpos hbuf).2.1, List.length_take] at hsame
          have := List.length_pos_iff.mpr hbuf
          omega
      · rw [if_neg hterm, hserves.descriptor.2, if_neg hserves.ne_zero,
          vfs2Write_ramfs getc putc hserves.ne_zero hserves.live.2.2 hserves.fops_ne_zero,
          ramfsVfsWrite_file h.ramfs (isFile_of_open hi (h.shows.file i hi).1)
            hserves.inode_ne_zero hserves.entry.2.1, hserves.pos, hserves.entry.1,
          Nat.add_sub_cancel] at hnext
        rw [if_neg hterm]
        by_cases hfull : ramfsFileCapacity ≤ s.ref.pos
        · rw [if_pos hfull, Option.map_some, Option.map_some] at hnext
          rw [right_iff hnext, Cursor.write_full hfull]
          dsimp only
          rw [h.done_iff hfd hserves _ _ h.ramfs hi (h.shows.file i hi).1]
          exact iff_of_true ⟨rfl, (h.shows.file i hi).2, rfl, hserves.size, h.pos⟩ (.inl hfull)
        have hpos : s.ref.pos < ramfsFileCapacity := by omega
        rw [if_neg hfull] at hnext
        by_cases hover : ramfsFileCapacity < s.ref.pos + toWrite s.ref.pos buf.length
        · rw [if_pos hover] at hnext
          refine iff_of_false ?_ (by omega)
          rintro ⟨r, hsome, -⟩
          rw [hnext] at hsome
          simp at hsome
        · rw [if_neg hover, Option.map_some, Option.map_some] at hnext
          have hfit : s.ref.pos + toWrite s.ref.pos buf.length ≤ ramfsFileCapacity := by omega
          rw [right_iff hnext, or_iff_right hfull, and_iff_right hfit,
            ← h.write_file_iff hfd hi hserves hpos hfit]
          simp

end Write

/-! ### Seeking -/

theorem toI64_eq {x : Nat} (hx : x < 2 ^ 64) :
    toI64 x = if x < 2 ^ 63 then (x : Int) else x - 2 ^ 64 := by
  unfold toI64
  rw [BitVec.toInt_eq_toNat_cond, BitVec.toNat_ofNat, Nat.mod_eq_of_lt hx]
  split_ifs <;> omega

theorem toI64_lt (x : Nat) : -2 ^ 63 ≤ toI64 x ∧ toI64 x < 2 ^ 63 :=
  ⟨BitVec.le_toInt _, BitVec.toInt_lt⟩

theorem toU64_lt (x : Int) : toU64 x < 2 ^ 64 := by
  unfold toU64
  omega

theorem toU64_nonneg {x : Int} (h0 : 0 ≤ x) (hx : x < 2 ^ 64) : (toU64 x : Int) = x := by
  unfold toU64
  omega

section Seek

variable {getc : T → T × UInt8} {putc : T → UInt8 → T} {path : CStr} {s : FileSession T}

/-- The code computes the goal of the reference, modulo the word size. -/
theorem seekTarget_eq (h : s.Matches path) (offset whence : Int) :
    seekTarget s.ref.pos s.ref.content.length offset whence =
      (seekGoal s.ref offset whence).map toU64 := by
  have hfits := s.ref.fits
  have hcap : ramfsFileCapacity = 4096 := rfl
  have hpos := h.pos
  have hpos' : toI64 s.ref.pos = s.ref.pos := by rw [toI64_eq (by omega), if_pos hpos]
  have hlen : toI64 s.ref.content.length = s.ref.content.length := by
    rw [toI64_eq (by omega), if_pos (by omega)]
  unfold seekTarget seekGoal
  rw [hpos', hlen]
  split_ifs <;> rfl

theorem seekGoal_lt (h : s.Matches path) {offset whence target : Int} (hoffset : offset < 2 ^ 63)
    (hgoal : seekGoal s.ref offset whence = some target) : target < 2 ^ 64 := by
  have hfits := s.ref.fits
  have hcap : ramfsFileCapacity = 4096 := rfl
  have hpos := h.pos
  unfold seekGoal at hgoal
  split_ifs at hgoal
  · have := Option.some.inj hgoal
    omega
  · have := Option.some.inj hgoal
    omega
  · have := Option.some.inj hgoal
    omega

theorem FileSession.Matches.lseek_iff (h : s.Matches path) (offset whence : Nat) :
    s.Right getc putc path (.lseek offset whence) ↔ s.Faithful path (.lseek offset whence) := by
  cases hfd : s.fd with
  | none =>
      refine iff_of_false ?_ ?_
      · rintro ⟨r, hnext, -⟩
        simp [FileSession.next, hfd] at hnext
      · rintro ⟨fd, hsome, -⟩
        rw [hfd] at hsome
        exact absurd hsome (by simp)
  | some fd =>
      obtain ⟨f, i, hi, hserves⟩ := h.serves fd hfd
      obtain ⟨hdir, hcontent⟩ := h.shows.file i hi
      have hnext : s.next getc putc path (.lseek offset whence) = some
          ⟨⟨(sysLseek (ramfsEnv getc putc) s.io fd offset whence).1, s.fd,
              (refSeek s.ref (toI64 offset) (toFd whence)).1⟩,
            ((sysLseek (ramfsEnv getc putc) s.io fd offset whence).2, []),
            ((refSeek s.ref (toI64 offset) (toFd whence)).2, [])⟩ := by
        simp [FileSession.next, hfd]
      have hfaithful : s.Faithful path (.lseek offset whence) ↔
          ∀ target, seekGoal s.ref (toI64 offset) (toFd whence) = some target →
            0 ≤ target ∧ target < 2 ^ 63 := by
        simp [FileSession.Faithful, hfd]
      rw [right_iff hnext, hfaithful]
      unfold sysLseek
      rw [hserves.descriptor.2, if_neg hserves.ne_zero,
        vfs2Lseek_ramfs getc putc hserves.ne_zero hserves.live.2.2 hserves.fops_ne_zero]
      unfold ramfsVfsLseek
      rw [if_neg hserves.inode_ne_zero, hserves.entry.1, Nat.add_sub_cancel, hserves.pos,
        hserves.size, seekTarget_eq h]
      unfold refSeek
      cases hgoal : seekGoal s.ref (toI64 offset) (toFd whence) with
      | none =>
          dsimp only [Option.map_none]
          rw [h.done_iff hfd hserves _ _ h.ramfs hi hdir]
          exact iff_of_true ⟨rfl, hcontent, rfl, hserves.size, h.pos⟩ fun _ hnone =>
            absurd hnone (by simp)
      | some target =>
          have hlt := seekGoal_lt h (toI64_lt offset).2 hgoal
          have hbound : (∀ t, some target = some t → 0 ≤ t ∧ t < 2 ^ 63) ↔
              0 ≤ target ∧ target < 2 ^ 63 := by simp
          dsimp only [Option.map_some]
          rw [h.done_iff hfd hserves _ _ h.ramfs hi hdir, hbound, toI64_eq (toU64_lt target)]
          dsimp only
          unfold Cursor.seek
          by_cases hneg : target < 0
          · rw [if_pos hneg]
            refine iff_of_false ?_ (by omega)
            rintro ⟨hanswer, -, hsame, -, hpos⟩
            have hret := congrArg Prod.fst hanswer
            dsimp only at hret hsame hpos
            rw [hsame, if_pos hpos] at hret
            omega
          · have hto := toU64_nonneg (show 0 ≤ target by omega) hlt
            rw [if_neg hneg]
            dsimp only
            constructor
            · rintro ⟨hanswer, -⟩
              have hret := congrArg Prod.fst hanswer
              dsimp only at hret
              split_ifs at hret with hsmall
              · omega
              · omega
            · rintro ⟨-, hsmall⟩
              rw [if_pos (by omega), hto]
              exact ⟨rfl, hcontent, by omega, hserves.size, by omega⟩

end Seek

/-! ### Whole sessions -/

def fileContent (fs : Ramfs) (path : CStr) : List UInt8 :=
  match ramfsOpen fs (some path) with
  | none => []
  | some i => (fs i).content

/-- Nothing is open yet. -/
def FileSession.start (io : FileIo (RamfsVfs T)) (path : CStr) : FileSession T where
  io := io
  fd := none
  ref := ⟨(fileContent io.world.fs path).take ramfsFileCapacity, List.length_take_le .., 0⟩

theorem fileContent_shows {fs : Ramfs} {path : CStr} (hok : RamfsOk fs)
    (hfile : ∀ i, ramfsOpen fs (some path) = some i → (fs i).isDir = false) :
    fs.Shows path ((fileContent fs path).take ramfsFileCapacity) := by
  unfold fileContent
  refine ⟨fun hnone => ?_, fun i hi => ⟨hfile i hi, ?_⟩⟩
  · rw [hnone]
    exact List.take_nil
  · rw [hi]
    dsimp only
    rw [List.take_of_length_le]
    rw [length_content]
    exact hok.size i

section Run

variable {getc : T → T × UInt8} {putc : T → UInt8 → T} {path : CStr}

theorem FileSession.Matches.right_iff {s : FileSession T} (h : s.Matches path)
    (hroot : path ≠ ['/']) (c : SessionCall) : s.Right getc putc path c ↔ s.Faithful path c := by
  cases c with
  | «open» flags => exact h.open_iff hroot flags
  | read len => exact h.read_iff len
  | write buf => exact h.write_iff buf
  | lseek offset whence => exact h.lseek_iff offset whence

/--
**A file is a list of bytes with a position, for the calls that meet the condition.**  Whatever
files came and went before, a session on one path matches its reference after every sequence of
such calls, and the next call answers as the reference does and keeps the match exactly when it
meets the condition too.
-/
theorem session_matches_iff (getc : T → T × UInt8) (putc : T → UInt8 → T) {fs₀ : Ramfs}
    {history : List RamfsCall} {io : FileIo (RamfsVfs T)}
    (hhist : Executes Ramfs.step (ramfsInit fs₀) history io.world.fs)
    (hagrees : io.files.pool.Agrees) {idx : Nat}
    (hcur : procGetCurrent io.files.procs = some idx) {path : CStr} (hroot : path ≠ ['/'])
    (hfile : ∀ i, ramfsOpen io.world.fs (some path) = some i → (io.world.fs i).isDir = false)
    {calls : List SessionCall} {s : FileSession T}
    (hrun : Executes (Guarded (FileSession.Faithful path) (FileSession.step getc putc path))
      (FileSession.start io path) calls s) :
    s.Matches path ∧ ∀ c, s.Right getc putc path c ↔ s.Faithful path c := by
  have hok : RamfsOk io.world.fs :=
    hhist.invariant (fun _ _ _ h hstep => h.call hstep.choose_spec) (ramfsOk_init fs₀)
  have hstart : (FileSession.start io path).Matches path := by
    refine ⟨hok, hagrees, ⟨idx, hcur⟩, fileContent_shows hok hfile, Nat.two_pow_pos 63, ?_⟩
    intro fd hfd
    exact absurd hfd (by simp [FileSession.start])
  have hmatches : s.Matches path := by
    refine hrun.invariant (fun s c s' h hstep => ?_) hstart
    obtain ⟨hfaithful, r, hnext, rfl⟩ := hstep
    have hright : s.Right getc putc path c ↔ s.Faithful path c := h.right_iff hroot c
    obtain ⟨r', hnext', -, hr'⟩ := hright.mpr hfaithful
    obtain rfl : r = r' := Option.some.inj (hnext.symm.trans hnext')
    exact hr'
  exact ⟨hmatches, hmatches.right_iff hroot⟩

end Run

/-- One process, nothing open and no file. -/
def emptyIo : FileIo (RamfsVfs Unit) where
  files := Files.start oneProc emptyPool
  world := ⟨ramfsInit blankRamfs, fun _ => ⟨0, 0, 0⟩, ()⟩

/-- Its only path, with a terminal that says nothing. -/
def emptyIoNext (s : FileSession Unit) (c : SessionCall) : Option (SessionResult Unit) :=
  s.next (fun w => (w, 0)) (fun w _ => w) "/a".toList c

def emptyIoStep : FileSession Unit → SessionCall → FileSession Unit → Prop :=
  FileSession.step (fun w => (w, 0)) (fun w _ => w) "/a".toList

theorem emptyIoStep_of_next (s : FileSession Unit) (c : SessionCall) (s' : FileSession Unit)
    (hnext : (emptyIoNext s c).map SessionResult.session = some s') : emptyIoStep s c s' := by
  obtain ⟨r, hr, rfl⟩ := Option.map_eq_some_iff.mp hnext
  exact ⟨r, hr, rfl⟩

/-- `Faithful`, decided for a position in the file and for an empty file to truncate. -/
def FileSession.faithfulTest (s : FileSession T) : SessionCall → Bool
  | .open flags => !decide (asksTrunc flags) || s.ref.content.isEmpty
  | .read len => s.fd.any fun fd => fd != 0 || len == 0
  | .write buf => s.fd.any fun fd => fd != 1 && fd != 2 &&
      decide (s.ref.pos + toWrite s.ref.pos buf.length ≤ ramfsFileCapacity ∧
        s.ref.pos ≤ s.ref.content.length)
  | .lseek offset whence => s.fd.isSome &&
      (seekGoal s.ref (toI64 offset) (toFd whence)).all fun target =>
        decide (0 ≤ target ∧ target < 2 ^ 63)

theorem faithful_of_test (s : FileSession T) (path : CStr) (c : SessionCall)
    (htest : s.faithfulTest c = true) : s.Faithful path c := by
  cases c with
  | «open» flags =>
      intro htrunc
      have hempty : s.ref.content.isEmpty = true := by
        simpa [FileSession.faithfulTest, htrunc] using htest
      exact .inl (List.isEmpty_iff.mp hempty)
  | read len =>
      obtain ⟨fd, hfd, hok⟩ := (Option.any_eq_true _ _).mp htest
      rw [Bool.or_eq_true, bne_iff_ne, beq_iff_eq] at hok
      exact ⟨fd, hfd, hok⟩
  | write buf =>
      obtain ⟨fd, hfd, hok⟩ := (Option.any_eq_true _ _).mp htest
      rw [Bool.and_eq_true, Bool.and_eq_true, bne_iff_ne, bne_iff_ne, decide_eq_true_eq] at hok
      obtain ⟨⟨hout, herr⟩, hfits, hpos⟩ := hok
      refine ⟨fd, hfd, ?_⟩
      rw [if_neg (by simp [hout, herr])]
      -- nothing lies between the end of the file and a position in it
      exact .inr ⟨hfits, fun _ => hpos, fun i _ o hend ho => absurd (hend.trans_lt ho) hpos.not_gt⟩
  | lseek offset whence =>
      obtain ⟨hopen, hgoal⟩ := (Bool.and_eq_true _ _).mp htest
      obtain ⟨fd, hfd⟩ := Option.isSome_iff_exists.mp hopen
      refine ⟨fd, hfd, fun target htarget => ?_⟩
      rw [htarget] at hgoal
      exact of_decide_eq_true hgoal

/-- A file is written and read in the middle.  The first three descriptors are the terminal's, so
it is opened four times. -/
theorem session_matches_created :
    ∃ s, Executes (Guarded (FileSession.Faithful "/a".toList) emptyIoStep)
        (FileSession.start emptyIo "/a".toList)
        [.open vfsOCreat, .open 0, .open 0, .open 0, .write [5, 6, 7], .lseek 1 0, .read 1] s ∧
      s.fd = some 3 ∧ s.ref.content = [5, 6, 7] ∧ s.ref.pos = 2 ∧ s.Matches "/a".toList ∧
      s.Right (fun w => (w, 0)) (fun w _ => w) "/a".toList (.read 9) := by
  obtain ⟨hends, hnone⟩ : (runAll (testedNext FileSession.faithfulTest fun s c =>
      (emptyIoNext s c).map SessionResult.session) (FileSession.start emptyIo "/a".toList)
      [.open vfsOCreat, .open 0, .open 0, .open 0, .write [5, 6, 7], .lseek 1 0, .read 1]).map
        (fun s => (s.fd, s.ref.content, s.ref.pos)) = some (some 3, [5, 6, 7], 2) ∧
      ramfsOpen emptyIo.world.fs (some "/a".toList) = none := by decide +kernel
  obtain ⟨s, hs, hfacts⟩ := Option.map_eq_some_iff.mp hends
  obtain ⟨hfd, hfacts⟩ := Prod.mk.inj hfacts
  obtain ⟨hcontent, hpos⟩ := Prod.mk.inj hfacts
  have hrun : Executes (Guarded (FileSession.Faithful "/a".toList) emptyIoStep)
      (FileSession.start emptyIo "/a".toList)
      [.open vfsOCreat, .open 0, .open 0, .open 0, .write [5, 6, 7], .lseek 1 0, .read 1] s :=
    executes_tested (fun s c => faithful_of_test s "/a".toList c) emptyIoStep_of_next hs
  have hhist : Executes Ramfs.step (ramfsInit blankRamfs) [] emptyIo.world.fs := .nil _
  have hcur : procGetCurrent emptyIo.files.procs = some 0 := rfl
  have hnofile : ∀ i, ramfsOpen emptyIo.world.fs (some "/a".toList) = some i →
      (emptyIo.world.fs i).isDir = false :=
    fun i hi => absurd (hnone.symm.trans hi) (by simp)
  obtain ⟨hmatches, hright⟩ := session_matches_iff _ _ hhist
    (filesExact_start oneProc emptyPool).agrees hcur (by decide) hnofile hrun
  exact ⟨s, hrun, hfd, hcontent, hpos, hmatches, (hright (.read 9)).mpr ⟨3, hfd, .inl (by decide)⟩⟩

/-- What is read after `O_TRUNC` is what was written before. -/
theorem truncated_file_keeps_content :
    ∃ s r, Executes emptyIoStep (FileSession.start emptyIo "/a".toList)
        [.open vfsOCreat, .write [7], .open vfsOTrunc] s ∧
      emptyIoNext s (.read 1) = some r ∧ r.answer = (1, [7]) ∧ r.expected = (0, []) := by
  have hends : ((runAll (fun s c => (emptyIoNext s c).map SessionResult.session)
      (FileSession.start emptyIo "/a".toList)
      [.open vfsOCreat, .write [7], .open vfsOTrunc]).bind fun s =>
        (emptyIoNext s (.read 1)).map fun r => (r.answer, r.expected)) =
      some ((1, [7]), (0, [])) := by decide +kernel
  obtain ⟨s, hs, hread⟩ := Option.bind_eq_some_iff.mp hends
  obtain ⟨r, hr, hanswers⟩ := Option.map_eq_some_iff.mp hread
  exact ⟨s, r, executes_runAll emptyIoStep_of_next hs, hr, congrArg Prod.fst hanswers,
    congrArg Prod.snd hanswers⟩

end BrightS
