/-
Listing a directory of the RAM file system: `kernel/fs/ramfs_vfs.c`, with the two
functions of `kernel/fs/ramfs.c` that it goes through the table with.

The table is gone through from the position on, as far as the number of entries in use, and
what lies directly in the directory is listed.  The names are written one to a line.

`none` stands for a path that resolution led nowhere with, as in the other calls.
-/
import BrightS.Kernel.RamfsVfs

namespace BrightS

variable {T : Type}

/-- How many entries are in use. -/
def ramfsCount (fs : Ramfs) : Nat :=
  (List.range ramfsMaxFiles).countP fun i => (fs i).inUse

/-- `brights_ramfs_name_at`: the name of an entry by its place in the table, not by its rank. -/
def ramfsNameAt (fs : Ramfs) (idx : Nat) : Option CStr :=
  if ramfsMaxFiles ≤ idx ∨ (fs idx).inUse = false then none else some (fs idx).name

/-- The check that decides what is listed. -/
def isDirectChild (dirName name : CStr) : Bool :=
  if dirName = ['/'] then name.count '/' == 1 && name.head? == some '/'
  else dirName.isPrefixOf name && name[dirName.length]? == some '/' &&
    !(name.drop (dirName.length + 1)).contains '/'

/-- The loop that looks for the last slash; `base` is what stands behind the last one so far. -/
def lastBase : CStr → CStr → CStr
  | [], base => base
  | c :: rest, base => lastBase rest (if c = '/' then rest else base)

/-- The loop over the table, with the text and the position so far; it ends where a name does
not fit. -/
def readdirLoop (fs : Ramfs) (dirName : CStr) (bufSize : Int) :
    List Nat → CStr → Nat → CStr × Nat
  | [], text, pos => (text, pos)
  | i :: rest, text, pos =>
      match ramfsNameAt fs i with
      | none => readdirLoop fs dirName bufSize rest text pos
      | some name =>
          if isDirectChild dirName name = false then readdirLoop fs dirName bufSize rest text pos
          else
            let base := lastBase (name.drop dirName.length) name
            if bufSize < text.length + base.length + 2 then (text, pos) else
            readdirLoop fs dirName bufSize rest
              (text ++ (if text = [] then [] else ['\n']) ++ base ++
                if ramfsIsDirFd fs i then ['/'] else []) (i + 1)

/-- The C result and the text; no entry has a negative number, so a negative position is zero. -/
def ramfsVfsReaddir (w : RamfsVfs T) (f : VfsFile) (bufSize : Nat) :
    IoResult (RamfsVfs T) × CStr :=
  if f.inode = 0 ∨ ramfsIsDirFd w.fs (toFd f.privateData) = false then (⟨w, f.pos, -1⟩, []) else
  match ramfsNameAt w.fs (toFd f.privateData).toNat with
  | none => (⟨w, f.pos, -1⟩, [])
  | some dirName =>
      let r := readdirLoop w.fs dirName (toFd bufSize)
        ((List.range (ramfsCount w.fs)).drop (toFd f.pos).toNat) [] f.pos
      (⟨w, r.2, r.1.length⟩, r.1)

/-- `ramfs_sb_readdir`: the directory is looked up, and listed from its first entry on. -/
def ramfsSbReaddir (w : RamfsVfs T) (dirPath : CStr) (bufSize : Nat) :
    RamfsVfs T × Int × CStr :=
  match ramfsOpen w.fs (some dirPath) with
  | none => (w, -1, [])
  | some idx =>
      if ramfsIsDirFd w.fs idx = false then (w, -1, []) else
      match ramfsSbLookup w dirPath with
      | (w, none) => (w, -1, [])
      | (w, some ino) =>
          let r := ramfsVfsReaddir w
            { inode := ino + 1, pos := 0, flags := 0, fops := ramfsFops, privateData := idx
              inUse := true } bufSize
          (r.1.world, r.1.ret, r.2)

/-- `vfs2_readdir` into a buffer of `bufSize` bytes. -/
def vfs2ReaddirRamfs (w : RamfsVfs T) (rel : Option CStr) (bufSize : Nat) :
    RamfsVfs T × Int × CStr :=
  match rel with
  | none => (w, -1, [])
  | some path => ramfsSbReaddir w path bufSize

end BrightS
