/-
Mounts and path resolution: `kernel/fs/vfs2.c`.

A mount is named by its slot in the mount table, which is what a pointer to it comes
to.  Slots carry an `active` flag and a bit in `mountBitmap`; mounting and unmounting
read the bit, resolution reads the flag.  Superblocks are addresses; nothing here looks
into them.

Resolution keeps the results of the last sixteen paths.  The strings of the cache and
the prefixes of the mounts have room for 127 characters, and longer ones are cut off.
-/
import BrightS.Kernel.Path

namespace BrightS

abbrev vfsMaxMounts : Nat := 8
abbrev pathCacheSize : Nat := 16

/-- A slot of the mount table. -/
abbrev MountId := Fin vfsMaxMounts

/-- `vfs_mount_t`. -/
structure VfsMount where
  mountPrefix : CStr
  sb : Nat
  active : Bool

/-- A result of resolution; without a mount the entry is empty. -/
structure PathCacheEntry where
  path : CStr
  mount : Option MountId
  relPath : CStr

/-- The mount table and the cache. -/
structure Vfs2 where
  mountTable : MountId → VfsMount
  mountBitmap : BitVec 8
  pathCache : Fin pathCacheSize → PathCacheEntry
  pathCacheNext : Fin pathCacheSize

/-- Copy a string into a buffer of `cap` bytes, as much as fits. -/
def vfsStrCopy (cap : Nat) (src : CStr) : CStr := src.take (cap - 1)

/-- `vfs_normalize`, into the buffer that resolution has. -/
def vfsNormalize (path : CStr) : Option CStr := normalizePath 63 256 path

/-- The variables before the first call. -/
def vfs2Zero : Vfs2 :=
  { mountTable := fun _ => ⟨[], 0, false⟩, mountBitmap := 0, pathCache := fun _ => ⟨[], none, []⟩,
    pathCacheNext := 0 }

/-- `brights_vfs2_init`: the cache stays as it is. -/
def vfs2Init (s : Vfs2) : Vfs2 :=
  { s with mountBitmap := 0, mountTable := fun i => { s.mountTable i with active := false } }

/-! ### Mounting

A prefix is stored as it is given.  Neither call touches the cache.
-/

/-- `mount_bitmap & (1 << i)`. -/
def mountUsed (s : Vfs2) (i : MountId) : Bool := s.mountBitmap.getLsbD i.val

/-- The first slot in use whose prefix is this path. -/
def mountedAt (s : Vfs2) (mountPath : CStr) : Option MountId :=
  (List.finRange vfsMaxMounts).find? fun i =>
    mountUsed s i && (s.mountTable i).mountPrefix == mountPath

/-- The slot that a mount gets, if it is not refused. -/
def mountSlot (s : Vfs2) (mountPath : CStr) (sb : Nat) : Option MountId :=
  if sb = 0 then none else
  if (mountedAt s mountPath).isSome then none else
  (List.finRange vfsMaxMounts).find? fun i => !mountUsed s i

/-- `brights_vfs2_mount`: the prefix is not normalised, and cut off where its buffer ends. -/
def vfs2Mount (s : Vfs2) (mountPath : Option CStr) (sb : Nat) : Vfs2 × Int :=
  match mountPath with
  | none => (s, -1)
  | some p =>
      match mountSlot s p sb with
      | none => (s, -1)
      | some i =>
          ({ s with
             mountTable := Function.update s.mountTable i ⟨vfsStrCopy 128 p, sb, true⟩
             mountBitmap := s.mountBitmap ||| BitVec.twoPow 8 i.val }, 0)

/-- `brights_vfs2_umount`: the cache stays as it is. -/
def vfs2Umount (s : Vfs2) (mountPath : Option CStr) : Vfs2 × Int :=
  match mountPath with
  | none => (s, -1)
  | some p =>
      match mountedAt s p with
      | none => (s, -1)
      | some i =>
          ({ s with
             mountTable := Function.update s.mountTable i { s.mountTable i with active := false }
             mountBitmap := s.mountBitmap &&& ~~~(BitVec.twoPow 8 i.val) }, 0)

/-! ### Resolution

A path is normalised, looked up in the cache under the name it was given by, and otherwise compared
with the prefixes of all active mounts.  What is found that way goes to the cache.
-/

/-- The best mount so far, the length of its prefix and the path below it. -/
structure BestMount where
  best : Option MountId
  bestLen : Nat
  bestRelPath : CStr

/-- One iteration of the search for the longest prefix. -/
def resolveStep (s : Vfs2) (norm : CStr) (b : BestMount) (i : MountId) : BestMount :=
  if (s.mountTable i).active = false then b else
  let mp := (s.mountTable i).mountPrefix
  let ml := mp.length
  if ml = 1 ∧ mp.head? = some '/' then
    if b.bestLen < 1 then ⟨some i, 1, vfsStrCopy 256 norm⟩ else b
  else if mp.isPrefixOf norm then
    let next := (norm.drop ml).head?
    if next = none ∨ next = some '/' then
      if b.bestLen < ml then
        ⟨some i, ml, vfsStrCopy 256 (if next = none then ['/'] else norm.drop ml)⟩
      else b
    else b
  else b

/-- The search through the table. -/
def resolveLoop (s : Vfs2) (norm : CStr) : BestMount :=
  (List.finRange vfsMaxMounts).foldl (resolveStep s norm) ⟨none, 0, []⟩

/-- The first entry of the cache for this path. -/
def cachedPath (s : Vfs2) (path : CStr) : Option (Fin pathCacheSize) :=
  (List.finRange pathCacheSize).find? fun i =>
    (s.pathCache i).mount.isSome && (s.pathCache i).path == path

/-- Where `*rel_path_out` points: to the text of a cache entry, which is static, or to
`best_rel_path`, an automatic array of the function, which holds this text when it returns. -/
inductive RelPath where
  | cached (i : Fin pathCacheSize)
  | automatic (text : CStr)
  deriving DecidableEq

/-- The text when the function returns. -/
def RelPath.text (s : Vfs2) : RelPath → CStr
  | .cached i => (s.pathCache i).relPath
  | .automatic text => text

/-- What a caller may read: an automatic array is dead once its function has returned. -/
def RelPath.read (s : Vfs2) : RelPath → Option CStr
  | .cached i => some (s.pathCache i).relPath
  | .automatic _ => none

/-- The mount, and where the relative path is. -/
def vfs2Resolve (s : Vfs2) (fullPath : Option CStr) : Vfs2 × Option (MountId × RelPath) :=
  match fullPath with
  | none => (s, none)
  | some path =>
      match vfsNormalize path with
      | none => (s, none)
      | some norm =>
          match cachedPath s path with
          | some i => (s, (s.pathCache i).mount.map fun m => (m, .cached i))
          | none =>
              let b := resolveLoop s norm
              match b.best with
              | none => (s, none)
              | some m =>
                  ({ s with
                     pathCache := Function.update s.pathCache s.pathCacheNext
                       ⟨vfsStrCopy 128 path, some m, vfsStrCopy 128 b.bestRelPath⟩
                     pathCacheNext := s.pathCacheNext + 1 }, some (m, .automatic b.bestRelPath))

/-- The mount and the text of the relative path when the function returns. -/
def vfs2Resolved (s : Vfs2) (fullPath : Option CStr) : Option (MountId × CStr) :=
  let r := vfs2Resolve s fullPath
  r.2.map fun found => (found.1, found.2.text r.1)

end BrightS
