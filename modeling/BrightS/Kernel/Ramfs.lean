/-
The RAM file system: `kernel/fs/ramfs.c`.

A flat table of `ramfsMaxFiles` entries; the tree is in the names alone: an entry is
named by its whole path in normal form, and lies in the directory whose name is the
part before the last slash.  The root has no entry.

Paths come from callers as C strings, and a null pointer is `none`.  The functions
return the table and the C result, which is -1 when they refuse the call and leave the
table as it was.
-/
import BrightS.Kernel.Path

namespace BrightS

def ramfsMaxFiles : Nat := 32
def ramfsMaxName : Nat := 128
def ramfsMaxSymlinkTarget : Nat := 256
def ramfsFileCapacity : Nat := 4096

/-- `ramfs_file_t`.  What an entry not in use holds besides is left over. -/
structure RamfsFile where
  name : CStr
  data : Nat → UInt8
  size : Nat
  capacity : Nat
  mode : Nat
  uid : Nat
  gid : Nat
  symlinkTarget : CStr
  isDir : Bool
  isSymlink : Bool
  inUse : Bool

/-- The entries below `ramfsMaxFiles`; others do not exist. -/
abbrev Ramfs := Nat → RamfsFile

/-! ### Paths

Every call first brings its path to normal form, in a buffer of the size of a name.
-/

/-- `path_len_limited`: the length, if it is at most `max`. -/
def pathLenLimited (s : CStr) (max : Nat) : Option Nat :=
  if s.length ≤ max then some s.length else none

/-- `normalize_path` with the sizes of this file system. -/
def ramfsNormalize (path : Option CStr) : Option CStr :=
  path.bind (normalizePath (ramfsMaxName - 1) ramfsMaxName)

/-- The loop that looks for the last slash; `i` is the position of the first character. -/
def lastSlash : CStr → Nat → Option Nat → Option Nat
  | [], _, last => last
  | c :: rest, i, last => lastSlash rest (i + 1) (if c = '/' then some i else last)

/-- `path_parent`: the directory of a path; none when its name does not fit. -/
def pathParent (path : CStr) (cap : Nat) : Option CStr :=
  if path.head? ≠ some '/' ∨ path.length = 1 then some ['/'] else
  match lastSlash path 0 none with
  | none => some ['/']
  | some last =>
      if last = 0 then some ['/'] else if cap ≤ last then none else some (path.take last)

/-! ### The table

The table is always searched from its first entry on.
-/

/-- The first entry not in use. -/
def ramfsFindFree (fs : Ramfs) : Option Nat :=
  (List.range ramfsMaxFiles).find? fun i => !(fs i).inUse

/-- The first entry in use with this name. -/
def ramfsFindName (fs : Ramfs) (name : CStr) : Option Nat :=
  (List.range ramfsMaxFiles).find? fun i => (fs i).inUse && (fs i).name == name

/-- `ramfs_parent_exists`: the parent is the root or a directory of the table. -/
def ramfsParentExists (fs : Ramfs) (path : CStr) : Bool :=
  match pathParent path ramfsMaxName with
  | none => false
  | some parent =>
      if parent = ['/'] then true else
      match ramfsFindName fs parent with
      | none => false
      | some idx => (fs idx).isDir

/-- Entry `f` lies below the directory `path`. -/
def ramfsIsBelow (path : CStr) (f : RamfsFile) : Bool :=
  if !f.inUse then false else
  if f.name = path then false else
  if path = ['/'] then f.name.head? == some '/' && f.name.length != 1
  else path.isPrefixOf f.name && f.name[path.length]? == some '/'

/-- `ramfs_dir_has_children`. -/
def ramfsDirHasChildren (fs : Ramfs) (path : CStr) : Bool :=
  match pathLenLimited path (ramfsMaxName - 1) with
  | none => false
  | some _ => (List.range ramfsMaxFiles).any fun i => ramfsIsBelow path (fs i)

/-- `brights_ramfs_init`: the bytes of the entries stay. -/
def ramfsInit (fs : Ramfs) : Ramfs := fun i =>
  { fs i with
    inUse := false, isDir := false, isSymlink := false, size := 0, capacity := ramfsFileCapacity,
    name := [], mode := 0, uid := 0, gid := 0, symlinkTarget := [] }

/-! ### Creation

Files, directories and links are created in the same way and differ in what is filled in at the
end.
-/

/-- `ramfs_init_file_perms`: root's, 0755 for a directory and 0644 for a file. -/
def ramfsInitFilePerms (f : RamfsFile) (isDir : Bool) : RamfsFile :=
  { f with
    mode := if isDir then 0x4000 ||| 0x01ED else 0x8000 ||| 0x01A4
    uid := 0, gid := 0, isSymlink := false, symlinkTarget := [] }

/-- What `mkdir`, `create` and `symlink` have in common: the checks, the choice of an entry and
its name.  `fill` sets the rest. -/
def ramfsAdd (fs : Ramfs) (name : Option CStr) (fill : RamfsFile → RamfsFile) : Ramfs × Int :=
  match ramfsNormalize name with
  | none => (fs, -1)
  | some path =>
      if path = ['/'] then (fs, -1) else
      if ramfsParentExists fs path = false ∨ (ramfsFindName fs path).isSome then (fs, -1) else
      match ramfsFindFree fs with
      | none => (fs, -1)
      | some idx =>
          match pathLenLimited path (ramfsMaxName - 1) with
          | none => (fs, -1)
          | some nlen =>
              if nlen = 0 then (fs, -1) else
              (Function.update fs idx (fill { fs idx with name := path.take nlen }), idx)

/-- `brights_ramfs_mkdir`. -/
def ramfsMkdir (fs : Ramfs) (name : Option CStr) : Ramfs × Int :=
  ramfsAdd fs name fun f =>
    ramfsInitFilePerms { f with size := 0, isDir := true, inUse := true } true

/-- `brights_ramfs_create`: the bytes that the entry held before stay behind its size. -/
def ramfsCreate (fs : Ramfs) (name : Option CStr) : Ramfs × Int :=
  ramfsAdd fs name fun f =>
    ramfsInitFilePerms { f with size := 0, isDir := false, inUse := true } false

/-- `brights_ramfs_symlink`: a target that is too long is cut off. -/
def ramfsSymlink (fs : Ramfs) (target : CStr) (linkpath : Option CStr) : Ramfs × Int :=
  ramfsAdd fs linkpath fun f =>
    { f with
      symlinkTarget := target.take (ramfsMaxSymlinkTarget - 1)
      size := 0, isDir := false, isSymlink := true, mode := 0xA000 ||| 0x01FF, inUse := true }

/-! ### The other calls

Those that take a number check that it is one of the table; those that take a path look the entry
up by its name.
-/

/-- `brights_ramfs_open`: the entry of a path.  The root has none. -/
def ramfsOpen (fs : Ramfs) (name : Option CStr) : Option Nat :=
  match ramfsNormalize name with
  | none => none
  | some path => if path = ['/'] then none else ramfsFindName fs path

/-- `brights_ramfs_unlink`: a directory goes only when nothing is below it. -/
def ramfsUnlink (fs : Ramfs) (name : Option CStr) : Ramfs × Int :=
  match ramfsNormalize name with
  | none => (fs, -1)
  | some path =>
      if path = ['/'] then (fs, -1) else
      match ramfsFindName fs path with
      | none => (fs, -1)
      | some idx =>
          if (fs idx).isDir = true ∧ ramfsDirHasChildren fs path = true then (fs, -1) else
          (Function.update fs idx
            { fs idx with inUse := false, isDir := false, name := [], size := 0 }, 0)

/-- `brights_ramfs_stat_t`. -/
structure RamfsStat where
  path : CStr
  size : Nat
  mode : Nat
  uid : Nat
  gid : Nat
  isDir : Bool
  isSymlink : Bool
  deriving DecidableEq, Repr

/-- `brights_ramfs_stat`: the root is made up. -/
def ramfsStat (fs : Ramfs) (path : Option CStr) : Option RamfsStat :=
  match ramfsNormalize path with
  | none => none
  | some path =>
      if path = ['/'] then
        some { path := ['/'], size := 0, mode := 0x4000 ||| 0x01ED, uid := 0, gid := 0,
               isDir := true, isSymlink := false }
      else
        (ramfsFindName fs path).map fun idx =>
          { path := (fs idx).name, size := (fs idx).size, mode := (fs idx).mode,
            uid := (fs idx).uid, gid := (fs idx).gid, isDir := (fs idx).isDir,
            isSymlink := (fs idx).isSymlink }

/-- The C result and the bytes stored in the caller's buffer. -/
def ramfsRead (fs : Ramfs) (fd : Int) (off len : Nat) : Int × List UInt8 :=
  if fd < 0 ∨ ramfsMaxFiles ≤ fd then (-1, []) else
  let f := fs fd.toNat
  if f.inUse = false ∨ f.isDir = true then (-1, []) else
  if f.size ≤ off then (0, []) else
  let toRead := if len < f.size - off then len else f.size - off
  (toRead, (List.range toRead).map fun i => f.data (off + i))

/-- `brights_ramfs_file_size`. -/
def ramfsFileSize (fs : Ramfs) (fd : Int) : Nat :=
  if fd < 0 ∨ ramfsMaxFiles ≤ fd then 0 else
  if (fs fd.toNat).inUse = false then 0 else (fs fd.toNat).size

/-- `brights_ramfs_is_dir_fd`. -/
def ramfsIsDirFd (fs : Ramfs) (fd : Int) : Bool :=
  if fd < 0 ∨ ramfsMaxFiles ≤ fd then false else
  if (fs fd.toNat).inUse = false then false else (fs fd.toNat).isDir

/-- What `readlink` stores in a buffer of `bufsize` bytes; the C result is its length. -/
def ramfsReadlink (fs : Ramfs) (path : Option CStr) (bufsize : Nat) : Option CStr :=
  if bufsize = 0 then none else
  match ramfsNormalize path with
  | none => none
  | some path =>
      match ramfsFindName fs path with
      | none => none
      | some idx =>
          if (fs idx).isSymlink = true then some ((fs idx).symlinkTarget.take (bufsize - 1))
          else none

/-- What remains of the name of an entry behind a directory, if it is listed. -/
def dirEntryName (normalPath : CStr) (f : RamfsFile) : Option CStr :=
  if f.inUse = false then none else
  if normalPath.isPrefixOf f.name then
    let entryName := f.name.drop normalPath.length
    if entryName = [] then none else
    if '/' ∈ entryName then none else
    some (if entryName.head? = some '/' then entryName.tail else entryName)
  else none

/-- `brights_ramfs_get_dir_entries`: at most `maxEntries` names. -/
def ramfsGetDirEntries (fs : Ramfs) (path : Option CStr) (maxEntries : Nat) :
    Option (List CStr) :=
  match ramfsNormalize path with
  | none => none
  | some normalPath =>
      some (((List.range ramfsMaxFiles).filterMap fun i => dirEntryName normalPath (fs i)).take
        maxEntries)

/-- Store `buf` at `off`. -/
def storeBytes (data : Nat → UInt8) (off : Nat) : List UInt8 → Nat → UInt8
  | [] => data
  | b :: rest => storeBytes (Function.update data off b) (off + 1) rest

/-- The sum `off + len` wraps at `2^64`; a write that gets past the check that way runs over
the end of the storage and is undefined. -/
def ramfsWrite (fs : Ramfs) (fd : Int) (off : Nat) (buf : List UInt8) : Option (Ramfs × Int) :=
  if fd < 0 ∨ ramfsMaxFiles ≤ fd then some (fs, -1) else
  let f := fs fd.toNat
  if f.inUse = false ∨ f.isDir = true then some (fs, -1) else
  if f.capacity ≤ off then some (fs, -1) else
  let toWrite :=
    if f.capacity < (off + buf.length) % 2 ^ 64 then f.capacity - off else buf.length
  if f.capacity < off + toWrite then none else
  some (Function.update fs fd.toNat
    { f with
      data := storeBytes f.data off (buf.take toWrite)
      size := if f.size < off + toWrite then off + toWrite else f.size }, toWrite)

/-- The lookup in front of `chmod` and `chown`. -/
def ramfsChange (fs : Ramfs) (path : Option CStr) (change : RamfsFile → RamfsFile) : Ramfs × Int :=
  match ramfsNormalize path with
  | none => (fs, -1)
  | some path =>
      if path = ['/'] then (fs, -1) else
      match ramfsFindName fs path with
      | none => (fs, -1)
      | some idx => (Function.update fs idx (change (fs idx)), 0)

/-- `brights_ramfs_chmod`: the kind of the entry stays. -/
def ramfsChmod (fs : Ramfs) (path : Option CStr) (mode : Nat) : Ramfs × Int :=
  ramfsChange fs path fun f => { f with mode := (f.mode &&& 0xF000) ||| (mode &&& 0x0FFF) }

/-- `brights_ramfs_chown`. -/
def ramfsChown (fs : Ramfs) (path : Option CStr) (uid gid : Nat) : Ramfs × Int :=
  ramfsChange fs path fun f => { f with uid := uid, gid := gid }

end BrightS
