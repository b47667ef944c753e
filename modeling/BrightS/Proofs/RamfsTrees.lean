/-
The RAM file system as a tree of files.

The table keeps whole paths and looks for them one by one.  What it is for is a tree: `fileTree`
has a node for every list of names that leads to an entry, and `TreeStep` says what a call does to
such a tree and what it answers, without a table, an index or a slash.  Two things the tree leaves
open, as the table does: the owner of a new symbolic link, and the bytes between the end of a file
and a write behind it.

`ramfs_refines_tree` is the simulation: every run of the table is a run of the tree.
-/
import BrightS.Lib.FileTrees
import BrightS.Lib.Refinements
import BrightS.Proofs.PathStack
import BrightS.Proofs.RamfsResidue

namespace BrightS

open FileTrees Runs

/-! ### The tree -/

structure FileNode where
  isDir : Bool
  /-- Where a symbolic link points. -/
  link : Option CStr
  bytes : List UInt8
  mode : Nat
  uid : Nat
  gid : Nat

abbrev FileTree := Tree CStr FileNode

def Folder (v : FileNode) : Prop := v.isDir = true

/-- No name is too long, the path never leads too deep, and the whole is not too long either. -/
def PathFits (path : CStr) : Prop :=
  Scans (ramfsMaxName - 1) [] (path.splitOn '/') ∧
    (joinSegments (stackEval (path.splitOn '/'))).length < ramfsMaxName

open Classical in
/-- The names a path leads through, `.` and `..` done, if it keeps within the limits. -/
noncomputable def pathNames (path : Option CStr) : Option (List CStr) :=
  path.bind fun path => if PathFits path then some (stackEval (path.splitOn '/')) else none

/-- The node a path leads to; the root has none. -/
noncomputable def nodeAt (t : FileTree) (path : Option CStr) : Option (List CStr × FileNode) :=
  (pathNames path).bind fun p => (t p).map fun v => (p, v)

/-- No tree has more nodes. -/
def HasRoom (t : FileTree) : Prop := Set.ncard {p | (t p).isSome = true} < ramfsMaxFiles

/-- The path leads to a new name `k` in the folder `p`. -/
structure MayAdd (t : FileTree) (path : Option CStr) (p : List CStr) (k : CStr) : Prop where
  names : pathNames path = some (p ++ [k])
  folder : IsFolder Folder t p
  new : t (p ++ [k]) = none
  room : HasRoom t

def Adds (t : FileTree) (path : Option CStr) (new : FileNode → Prop) (a : FsAnswer)
    (t' : FileTree) : Prop :=
  (∃ p k v, MayAdd t path p k ∧ new v ∧ t' = Function.update t (p ++ [k]) (some v) ∧
    a = .done true) ∨
  ((¬ ∃ p k, MayAdd t path p k) ∧ t' = t ∧ a = .done false)

/-- Only a directory with something in it cannot go. -/
def MayRemove (t : FileTree) (path : Option CStr) (p : List CStr) : Prop :=
  ∃ v, nodeAt t path = some (p, v) ∧ (Folder v → Childless t p)

def Removes (t : FileTree) (path : Option CStr) (a : FsAnswer) (t' : FileTree) : Prop :=
  (∃ p, MayRemove t path p ∧ t' = Function.update t p none ∧ a = .done true) ∨
  ((¬ ∃ p, MayRemove t path p) ∧ t' = t ∧ a = .done false)

def Changes (t : FileTree) (path : Option CStr) (change : FileNode → FileNode) (a : FsAnswer)
    (t' : FileTree) : Prop :=
  match nodeAt t path with
  | none => t' = t ∧ a = .done false
  | some (p, v) => t' = Function.update t p (some (change v)) ∧ a = .done true

def FileNode.stat (p : List CStr) (v : FileNode) : RamfsStat where
  path := joinSegments p
  size := v.bytes.length
  mode := v.mode
  uid := v.uid
  gid := v.gid
  isDir := v.isDir
  isSymlink := v.link.isSome

/-- The root is a directory of the superuser. -/
def rootNode : FileNode := ⟨true, none, [], 0x41ED, 0, 0⟩

noncomputable def Stats (t : FileTree) (path : Option CStr) : Option RamfsStat :=
  (pathNames path).bind fun p =>
    if p = [] then some (rootNode.stat []) else (t p).map (FileNode.stat p)

noncomputable def Links (t : FileTree) (path : Option CStr) (bufsize : Nat) : Option CStr :=
  if bufsize = 0 then none
  else (nodeAt t path).bind fun r => r.2.link.map (List.take (bufsize - 1))

noncomputable def Reads (t : FileTree) (path : Option CStr) (off len : Nat) : FsAnswer :=
  match nodeAt t path with
  | none => .bytes (-1) []
  | some (_, v) =>
      if v.isDir then .bytes (-1) [] else
      .bytes ((v.bytes.drop off).take len).length ((v.bytes.drop off).take len)

/-- What fits of the buffer is put at `off`, behind `gap` if the file does not reach that far. -/
def FileNode.put (v : FileNode) (gap : List UInt8) (off : Nat) (buf : List UInt8) : FileNode :=
  { v with bytes := (v.bytes ++ gap).take off ++ (buf ++ v.bytes.drop (off + buf.length)) }

def Writes (t : FileTree) (path : Option CStr) (off : Nat) (buf : List UInt8) (a : FsAnswer)
    (t' : FileTree) : Prop :=
  match nodeAt t path with
  | none => t' = t ∧ a = .wrote (-1)
  | some (p, v) =>
      if v.isDir ∨ ramfsFileCapacity ≤ off then t' = t ∧ a = .wrote (-1) else
      ∃ gap, gap.length = off - v.bytes.length ∧
        t' = Function.update t p (some (v.put gap off (buf.take (ramfsFileCapacity - off)))) ∧
        a = .wrote (min buf.length (ramfsFileCapacity - off) : Nat)

/-- A call and its answer. -/
def TreeStep (t : FileTree) (c : FsOp × FsAnswer) (t' : FileTree) : Prop :=
  match c.1 with
  | .mkdir path => Adds t path (· = ⟨true, none, [], 0x41ED, 0, 0⟩) c.2 t'
  | .create path => Adds t path (· = ⟨false, none, [], 0x81A4, 0, 0⟩) c.2 t'
  | .symlink target path => Adds t path
      (fun v => ∃ uid gid, v = ⟨false, some (target.take (ramfsMaxSymlinkTarget - 1)), [], 0xA1FF,
        uid, gid⟩) c.2 t'
  | .unlink path => Removes t path c.2 t'
  | .chmod path mode => Changes t path
      (fun v => { v with mode := (v.mode &&& 0xF000) ||| (mode &&& 0x0FFF) }) c.2 t'
  | .chown path uid gid => Changes t path (fun v => { v with uid := uid, gid := gid }) c.2 t'
  | .stat path => t' = t ∧ c.2 = .stat (Stats t path)
  | .readlink path bufsize => t' = t ∧ c.2 = .target (Links t path bufsize)
  | .read path off len => t' = t ∧ c.2 = Reads t path off len
  | .write path off buf => Writes t path off buf c.2 t'

/-! ### What every step keeps -/

theorem nodeAt_some {t : FileTree} {path : Option CStr} {p : List CStr} {v : FileNode}
    (h : nodeAt t path = some (p, v)) : pathNames path = some p ∧ t p = some v := by
  obtain ⟨q, hq, hv⟩ := Option.bind_eq_some_iff.mp h
  obtain ⟨w, hw, heq⟩ := Option.map_eq_some_iff.mp hv
  obtain ⟨rfl, rfl⟩ := Prod.mk.inj heq
  exact ⟨hq, hw⟩

theorem TreeStep.closed {t t' : FileTree} {c : FsOp × FsAnswer} (h : Closed Folder t)
    (hstep : TreeStep t c t') : Closed Folder t' := by
  have hadds : ∀ {path new a}, Adds t path new a t' → Closed Folder t' := by
    rintro path new a (⟨p, k, v, hmay, -, rfl, -⟩ | ⟨-, rfl, -⟩)
    · exact h.add hmay.new hmay.folder
    · exact h
  have hchanges : ∀ {path change a}, Changes t path change a t' →
      (∀ v : FileNode, (change v).isDir = v.isDir) → Closed Folder t' := by
    intro path change a hch hsame
    unfold Changes at hch
    split at hch
    · rw [hch.1]
      exact h
    · rename_i p v hat
      rw [hch.1]
      refine h.change (nodeAt_some hat).2 fun hdir => ?_
      rw [Folder, hsame]
      exact hdir
  obtain ⟨op, a⟩ := c
  cases op with
  | mkdir path => exact hadds hstep
  | create path => exact hadds hstep
  | symlink target path => exact hadds hstep
  | unlink path =>
      rcases hstep with ⟨p, ⟨v, hat, hleaf⟩, rfl, -⟩ | ⟨-, rfl, -⟩
      · refine h.remove fun w hw hdir => hleaf ?_
        rw [(nodeAt_some hat).2] at hw
        rw [Option.some.inj hw]
        exact hdir
      · exact h
  | chmod path mode => exact hchanges hstep fun _ => rfl
  | chown path uid gid => exact hchanges hstep fun _ => rfl
  | stat path =>
      rw [hstep.1]
      exact h
  | readlink path bufsize =>
      rw [hstep.1]
      exact h
  | read path off len =>
      rw [hstep.1]
      exact h
  | write path off buf =>
      unfold TreeStep Writes at hstep
      dsimp only at hstep
      split at hstep
      · rw [hstep.1]
        exact h
      · rename_i p v hat
        split_ifs at hstep with hbad
        · rw [hstep.1]
          exact h
        · obtain ⟨gap, -, rfl, -⟩ := hstep
          exact h.change (nodeAt_some hat).2 id

/-! ### Names and paths -/

def GoodPath (p : List CStr) : Prop := ∀ s ∈ p, GoodSegment s

theorem goodPath_append {p q : List CStr} : GoodPath (p ++ q) ↔ GoodPath p ∧ GoodPath q :=
  List.forall_mem_append

theorem joinSegments_inj {p q : List CStr} (hp : GoodPath p) (hq : GoodPath q)
    (h : joinSegments p = joinSegments q) : p = q := by
  have hsplit := congrArg (List.splitOn '/') h
  rw [splitOn_joinSegments hp, splitOn_joinSegments hq] at hsplit
  have hsegs := (List.cons.inj hsplit).2
  have hempty : ∀ {r : List CStr}, GoodPath r → r ≠ [[]] := by
    rintro r hr rfl
    exact (hr [] (by simp)).nonempty rfl
  split_ifs at hsegs with hpn hqn hqn
  · rw [hpn, hqn]
  · exact absurd hsegs.symm (hempty hq)
  · exact absurd hsegs (hempty hp)
  · exact hsegs

@[simp] theorem joinSegments_nil : joinSegments [] = ['/'] := rfl

theorem joinSegments_root {p : List CStr} (hp : GoodPath p) : joinSegments p = ['/'] ↔ p = [] := by
  constructor
  · exact fun h => joinSegments_inj hp (by simp [GoodPath]) h
  · rintro rfl
    rfl

theorem intercalate_append {sep : CStr} {p q : List CStr} (hp : p ≠ []) (hq : q ≠ []) :
    sep.intercalate (p ++ q) = sep.intercalate p ++ (sep ++ sep.intercalate q) := by
  induction p with
  | nil => exact absurd rfl hp
  | cons s rest ih =>
      by_cases hrest : rest = []
      · rw [hrest, List.singleton_append, List.intercalate_cons_of_ne_nil hq,
          List.intercalate_singleton, List.append_assoc]
      · rw [List.cons_append, List.intercalate_cons_of_ne_nil (by simp [hrest]), ih hrest,
          List.intercalate_cons_of_ne_nil hrest]
        simp only [List.append_assoc]

/-- What stands before the last slash. -/
theorem joinSegments_append (p : List CStr) {q : List CStr} (hq : q ≠ []) :
    joinSegments (p ++ q) = (if p = [] then [] else joinSegments p) ++ joinSegments q := by
  by_cases hp : p = []
  · rw [if_pos hp, hp]
    rfl
  · rw [if_neg hp]
    unfold joinSegments
    rw [intercalate_append hp hq]
    simp

theorem noSlash_splitOn {s : CStr} (text : CStr) (hs : s ∈ text.splitOn '/') : '/' ∉ s := by
  induction text generalizing s with
  | nil =>
      rw [List.splitOn_nil, List.mem_singleton] at hs
      rw [hs]
      exact List.not_mem_nil
  | cons c rest ih =>
      rw [List.splitOn_cons_eq_if_modifyHead] at hs
      obtain ⟨first, more, hsplit⟩ := List.exists_cons_of_ne_nil (List.splitOn_ne_nil '/' rest)
      rw [hsplit] at hs ih
      split_ifs at hs with hc
      · rcases List.mem_cons.mp hs with rfl | hin
        · exact List.not_mem_nil
        · exact ih hin
      · rcases List.mem_cons.mp hs with rfl | hin
        · rw [List.mem_cons, not_or]
          exact ⟨fun h => hc (by rw [← h]; rfl), ih (List.mem_cons_self ..)⟩
        · exact ih (List.mem_cons_of_mem _ hin)

/-- The name of an entry is the join of good segments. -/
theorem CanonicalName.segments {name : CStr} (h : CanonicalName name) :
    ∃ p, p ≠ [] ∧ GoodPath p ∧ name = joinSegments p := by
  obtain ⟨rest, rfl, hsegs⟩ := h
  refine ⟨rest.splitOn '/', List.splitOn_ne_nil _ _, fun s hs => ?_, ?_⟩
  · obtain ⟨hne, hdot, hdots⟩ := hsegs s hs
    exact ⟨hne, noSlash_splitOn rest hs, hdot, hdots⟩
  · rw [joinSegments, List.intercalate_splitOn]

/-- **A path and its names**: normalising is joining them. -/
theorem ramfsNormalize_names (path : Option CStr) :
    ramfsNormalize path = (pathNames path).map joinSegments := by
  cases path with
  | none => rfl
  | some path =>
      unfold ramfsNormalize pathNames
      rw [Option.bind_some, Option.bind_some]
      by_cases hfits : PathFits path
      · rw [if_pos hfits, Option.map_some]
        exact normalizePath_some.mpr ⟨hfits.1, rfl, hfits.2⟩
      · rw [if_neg hfits, Option.map_none]
        cases hnorm : normalizePath (ramfsMaxName - 1) ramfsMaxName path with
        | none => rfl
        | some out =>
            obtain ⟨hscans, rfl, hshort⟩ := normalizePath_some.mp hnorm
            exact absurd ⟨hscans, hshort⟩ hfits

theorem pathNames_good {path : Option CStr} {p : List CStr} (h : pathNames path = some p) :
    GoodPath p ∧ (joinSegments p).length < ramfsMaxName := by
  obtain ⟨text, -, hfits⟩ := Option.bind_eq_some_iff.mp h
  split_ifs at hfits with hfit
  obtain rfl := Option.some.inj hfits
  have hsegs := pathSegments_some.mpr ⟨hfit.1, rfl⟩
  exact ⟨pathSegments_good _ text (by simp) (by simp) hsegs, hfit.2⟩

/-! ### The tree of a table -/

def Shown.node (s : Shown) : FileNode where
  isDir := s.isDir
  link := if s.isSymlink then some s.target else none
  bytes := s.bytes
  mode := s.mode
  uid := s.uid
  gid := s.gid

open Classical in
/-- What a table shows, by the names that lead there. -/
noncomputable def fileTree (fs : Ramfs) : FileTree := fun p =>
  if p ≠ [] ∧ GoodPath p then (shown fs (joinSegments p)).map Shown.node else none

section View

variable {fs fs' : Ramfs} {p : List CStr}

theorem fileTree_root (fs : Ramfs) : fileTree fs [] = none := if_neg fun h => h.1 rfl

theorem fileTree_eq (hne : p ≠ []) (hp : GoodPath p) :
    fileTree fs p = (shown fs (joinSegments p)).map Shown.node := if_pos ⟨hne, hp⟩

theorem fileTree_good (h : (fileTree fs p).isSome = true) : p ≠ [] ∧ GoodPath p := by
  unfold fileTree at h
  split_ifs at h with hgood
  · exact hgood
  · exact absurd h (by simp)

theorem fileTree_isSome (hne : p ≠ []) (hp : GoodPath p) :
    (fileTree fs p).isSome = (shown fs (joinSegments p)).isSome := by
  rw [fileTree_eq hne hp, Option.isSome_map]

theorem fileTree_none (hne : p ≠ []) (hp : GoodPath p) :
    fileTree fs p = none ↔ ramfsFindName fs (joinSegments p) = none := by
  rw [fileTree_eq hne hp, shown, Option.map_map, Option.map_eq_none_iff]

/-- One name of the table is one node of the tree. -/
theorem fileTree_update {shows : Option Shown} (hne : p ≠ []) (hp : GoodPath p)
    (h : shown fs' = Function.update (shown fs) (joinSegments p) shows) :
    fileTree fs' = Function.update (fileTree fs) p (shows.map Shown.node) := by
  funext q
  by_cases hq : q = p
  · rw [hq, Function.update_self, fileTree_eq hne hp, h, Function.update_self]
  · rw [Function.update_of_ne hq]
    unfold fileTree
    by_cases hgood : q ≠ [] ∧ GoodPath q
    · have hname : joinSegments q ≠ joinSegments p := fun heq =>
        hq (joinSegments_inj hgood.2 hp heq)
      rw [if_pos hgood, if_pos hgood, h, Function.update_of_ne hname]
    · rw [if_neg hgood, if_neg hgood]

/-- Every name in use leads somewhere. -/
theorem shown_segments (h : RamfsTree fs) {name : CStr} (hname : (shown fs name).isSome = true) :
    ∃ p, p ≠ [] ∧ GoodPath p ∧ name = joinSegments p := by
  obtain ⟨i, hi⟩ := shown_isSome.mp hname
  obtain ⟨hlt, huse, rfl⟩ := ramfsFindName_some hi
  exact (h.canonical i hlt huse).segments

/-- **There is room** exactly when an entry is free. -/
theorem hasRoom_iff (h : RamfsTree fs) : HasRoom (fileTree fs) ↔ ramfsFindFree fs ≠ none := by
  have himage : joinSegments '' {p | (fileTree fs p).isSome = true} = (usedNames fs : Set CStr) := by
    ext name
    rw [Set.mem_image, Finset.mem_coe, mem_usedNames]
    constructor
    · rintro ⟨p, hsome, rfl⟩
      obtain ⟨hne, hp⟩ := fileTree_good hsome
      rwa [Set.mem_ofPred_eq, fileTree_isSome hne hp] at hsome
    · intro hname
      obtain ⟨p, hne, hp, rfl⟩ := shown_segments h hname
      exact ⟨p, by rwa [Set.mem_ofPred_eq, fileTree_isSome hne hp], rfl⟩
  have hinj : Set.InjOn joinSegments {p | (fileTree fs p).isSome = true} :=
    fun p hp q hq heq => joinSegments_inj (fileTree_good hp).2 (fileTree_good hq).2 heq
  have hcard : (usedNames fs).card ≤ ramfsMaxFiles := by
    refine Finset.card_image_le.trans ((Finset.card_filter_le _ _).trans ?_)
    rw [Finset.card_range]
  unfold HasRoom
  rw [← hinj.ncard_image, himage, Set.ncard_coe_finset, Ne, ramfsFindFree_none_iff h]
  omega

theorem ramfsParentExists_iff (fs : Ramfs) {p : List CStr} {k : CStr}
    (hp : GoodPath (p ++ [k])) (hlen : (joinSegments (p ++ [k])).length < ramfsMaxName) :
    ramfsParentExists fs (joinSegments (p ++ [k])) = true ↔ IsFolder Folder (fileTree fs) p := by
  obtain ⟨hpgood, hk⟩ := goodPath_append.mp hp
  have hslash : '/' ∉ k := (hk k (by simp)).noSlash
  have hjoin : joinSegments (p ++ [k]) = (if p = [] then [] else joinSegments p) ++ '/' :: k := by
    rw [joinSegments_append p (by simp)]
    simp [joinSegments]
  unfold ramfsParentExists
  rw [pathParent_eq (joinSegments_canonical (by simp) hp) hlen hjoin hslash]
  dsimp only
  by_cases hroot : p = []
  · rw [if_pos hroot, if_pos rfl, if_pos rfl]
    exact iff_of_true rfl (.inl hroot)
  · have hne : joinSegments p ≠ [] := by simp [joinSegments]
    rw [if_neg hroot, if_neg hne, if_neg ((joinSegments_root hpgood).not.mpr hroot)]
    unfold IsFolder
    rw [or_iff_right hroot]
    cases hfind : ramfsFindName fs (joinSegments p) with
    | none =>
        have hnone := (fileTree_none hroot hpgood).mpr hfind
        rw [hnone]
        simp
    | some i =>
        have hsome : fileTree fs p = some (fs i).shown.node := by
          rw [fileTree_eq hroot hpgood, shown, hfind]
          rfl
        rw [hsome]
        constructor
        · exact fun hdir => ⟨_, rfl, hdir⟩
        · rintro ⟨v, hv, hdir⟩
          rw [← Option.some.inj hv] at hdir
          exact hdir

/-- A name below another one leads on from there. -/
theorem nameBelow_iff {p q : List CStr} (hne : p ≠ []) (hp : GoodPath p) (hq : GoodPath q) :
    nameBelow (joinSegments p) (joinSegments q) = true ↔ ∃ r, r ≠ [] ∧ q = p ++ r := by
  have hroot := (joinSegments_root hp).not.mpr hne
  unfold nameBelow
  rw [if_neg hroot]
  constructor
  · intro hbelow
    split_ifs at hbelow with hsame
    simp only [Bool.and_eq_true, List.isPrefixOf_iff_prefix, beq_iff_eq] at hbelow
    obtain ⟨⟨tail, htail⟩, hat⟩ := hbelow
    rw [← htail, List.getElem?_append_right (Nat.le_refl _), Nat.sub_self] at hat
    obtain ⟨rest, rfl⟩ : ∃ rest, tail = '/' :: rest := by
      cases tail with
      | nil => exact absurd hat (by simp)
      | cons c rest => exact ⟨rest, by simpa using hat⟩
    have hsplit := congrArg (List.splitOn '/') htail
    have hqne : q ≠ [] := by
      rintro rfl
      have hlong := congrArg List.length htail
      simp [joinSegments] at hlong
    rw [List.splitOn_append_cons_self, splitOn_joinSegments hp, splitOn_joinSegments hq,
      if_neg hne, if_neg hqne] at hsplit
    exact ⟨rest.splitOn '/', List.splitOn_ne_nil _ _, (List.cons.inj hsplit).2.symm⟩
  · rintro ⟨r, hr, rfl⟩
    have hjoin := joinSegments_append p hr
    rw [if_neg hne] at hjoin
    have hlonger : joinSegments (p ++ r) ≠ joinSegments p := by
      rw [hjoin]
      simp [joinSegments]
    rw [if_neg hlonger, hjoin]
    simp [joinSegments]

theorem ramfsDirHasChildren_childless (h : RamfsTree fs) (hclosed : Closed Folder (fileTree fs))
    (hne : p ≠ []) (hp : GoodPath p) (hlen : (joinSegments p).length < ramfsMaxName) :
    ramfsDirHasChildren fs (joinSegments p) = true ↔ ¬ Childless (fileTree fs) p := by
  rw [ramfsDirHasChildren_iff fs hlen]
  constructor
  · rintro ⟨name, hname, hbelow⟩ hleaf
    obtain ⟨q, hqne, hq, rfl⟩ := shown_segments h hname
    obtain ⟨r, hr, rfl⟩ := (nameBelow_iff hne hp hq).mp hbelow
    rw [← fileTree_isSome hqne hq, hclosed.childless hleaf hr] at hname
    exact absurd hname (by simp)
  · intro hleaf
    unfold Childless at hleaf
    push Not at hleaf
    obtain ⟨k, hk⟩ := hleaf
    have hsome := Option.ne_none_iff_isSome.mp hk
    obtain ⟨hqne, hq⟩ := fileTree_good hsome
    rw [fileTree_isSome hqne hq] at hsome
    exact ⟨_, hsome, (nameBelow_iff hne hp hq).mpr ⟨[k], by simp, rfl⟩⟩

end View

/-! ### Every call is a step of the tree -/

section Refines

variable {fs : Ramfs}

/-- The entry that a call works on, as the tree has it. -/
theorem nodeAt_cases (fs : Ramfs) (path : Option CStr) :
    (nodeAt (fileTree fs) path = none ∧ ∀ name, ramfsNormalize path = some name →
      name ≠ ['/'] → ramfsFindName fs name = none) ∨
    ∃ p i, nodeAt (fileTree fs) path = some (p, (fs i).shown.node) ∧ p ≠ [] ∧ GoodPath p ∧
      ramfsNormalize path = some (joinSegments p) ∧ joinSegments p ≠ ['/'] ∧
      (joinSegments p).length < ramfsMaxName ∧ ramfsFindName fs (joinSegments p) = some i := by
  rw [ramfsNormalize_names]
  cases hnames : pathNames path with
  | none => exact .inl ⟨by rw [nodeAt, hnames]; rfl, fun name h => absurd h (by simp)⟩
  | some p =>
      obtain ⟨hp, hlen⟩ := pathNames_good hnames
      have hat : nodeAt (fileTree fs) path = (fileTree fs p).map fun v => (p, v) := by
        rw [nodeAt, hnames]
        rfl
      rw [hat]
      by_cases hne : p = []
      · refine .inl ⟨by rw [hne, fileTree_root]; rfl, fun name hname hroot => ?_⟩
        rw [hne] at hname
        exact absurd (Option.some.inj hname).symm hroot
      · have hroot := (joinSegments_root hp).not.mpr hne
        cases hfind : ramfsFindName fs (joinSegments p) with
        | none =>
            refine .inl ⟨by rw [(fileTree_none hne hp).mpr hfind]; rfl, fun name hname _ => ?_⟩
            rw [← Option.some.inj hname]
            exact hfind
        | some i =>
            refine .inr ⟨p, i, ?_, hne, hp, rfl, hroot, hlen, hfind⟩
            rw [fileTree_eq hne hp, shown, hfind]
            rfl

theorem ramfsAdd_adds (h : RamfsTree fs) (path : Option CStr) {fill : RamfsFile → RamfsFile}
    {new : FileNode → Prop} (hname : ∀ f, (fill f).name = f.name) (huse : ∀ f, (fill f).inUse = true)
    (hnew : ∀ f, new (fill f).shown.node) :
    Adds (fileTree fs) path new (succeeded (ramfsAdd fs path fill)).2
      (fileTree (ramfsAdd fs path fill).1) := by
  -- The path leads to a new name in a folder, and there is room: the checks of the code.
  have hmay : (∃ p k, MayAdd (fileTree fs) path p k) ↔ ∃ name, ramfsNormalize path = some name ∧
      name ≠ ['/'] ∧ ramfsParentExists fs name = true ∧ ramfsFindName fs name = none ∧
      ramfsFindFree fs ≠ none := by
    rw [ramfsNormalize_names]
    constructor
    · rintro ⟨p, k, hmay⟩
      obtain ⟨hgood, hlen⟩ := pathNames_good hmay.names
      have hne : p ++ [k] ≠ [] := by simp
      refine ⟨_, by rw [hmay.names]; rfl, (joinSegments_root hgood).not.mpr hne,
        (ramfsParentExists_iff fs hgood hlen).mpr hmay.folder, ?_, (hasRoom_iff h).mp hmay.room⟩
      exact (fileTree_none hne hgood).mp hmay.new
    · rintro ⟨name, hnorm, hroot, hparent, hfind, hfree⟩
      obtain ⟨q, hnames, rfl⟩ := Option.map_eq_some_iff.mp hnorm
      obtain ⟨hgood, hlen⟩ := pathNames_good hnames
      have hne := (joinSegments_root hgood).not.mp hroot
      obtain ⟨p, k, rfl⟩ := (List.eq_nil_or_concat' q).resolve_left hne
      exact ⟨p, k, hnames, (ramfsParentExists_iff fs hgood hlen).mp hparent,
        (fileTree_none hne hgood).mpr hfind, (hasRoom_iff h).mpr hfree⟩
  cases hnorm : ramfsNormalize path with
  | none =>
      have hadd : ramfsAdd fs path fill = (fs, -1) := by
        unfold ramfsAdd
        rw [hnorm]
      rw [hadd]
      refine .inr ⟨fun hex => ?_, rfl, rfl⟩
      obtain ⟨name, hname, -⟩ := hmay.mp hex
      rw [hnorm] at hname
      exact absurd hname (by simp)
  | some name =>
      rw [ramfsAdd_eq fs hnorm]
      have hrefused : (¬ (name ≠ ['/'] ∧ ramfsParentExists fs name = true ∧
          ramfsFindName fs name = none ∧ ramfsFindFree fs ≠ none)) →
          Adds (fileTree fs) path new (.done false) (fileTree fs) := by
        intro hno
        refine .inr ⟨fun hex => hno ?_, rfl, rfl⟩
        obtain ⟨name', hname, hrest⟩ := hmay.mp hex
        rw [hnorm] at hname
        rw [Option.some.inj hname]
        exact hrest
      by_cases hcheck : name = ['/'] ∨ ramfsParentExists fs name = false ∨
          (ramfsFindName fs name).isSome
      · rw [if_pos hcheck]
        refine hrefused fun hall => ?_
        rcases hcheck with hroot | hparent | hsome
        · exact hall.1 hroot
        · rw [hall.2.1] at hparent
          exact absurd hparent (by simp)
        · rw [hall.2.2.1] at hsome
          exact absurd hsome (by simp)
      · rw [if_neg hcheck]
        cases hfree : ramfsFindFree fs with
        | none => exact hrefused fun hall => hall.2.2.2 hfree
        | some idx =>
            simp only [not_or, Bool.not_eq_false, Bool.not_eq_true, Option.isSome_eq_false_iff,
              Option.isNone_iff_eq_none] at hcheck
            obtain ⟨p, k, hpk⟩ := hmay.mpr
              ⟨name, hnorm, hcheck.1, hcheck.2.1, hcheck.2.2, by rw [hfree]; simp⟩
            obtain ⟨hgood, -⟩ := pathNames_good hpk.names
            obtain rfl : joinSegments (p ++ [k]) = name := by
              rw [ramfsNormalize_names, hpk.names] at hnorm
              exact Option.some.inj hnorm
            have hshown := shown_add (f := fill { fs idx with name := joinSegments (p ++ [k]) })
              hfree hcheck.2.2 (hname _) (huse _)
            refine .inl ⟨p, k, _, hpk, hnew _, fileTree_update (by simp) hgood hshown, ?_⟩
            have hpos : (0 : Int) ≤ (idx : Int) := Int.natCast_nonneg idx
            simp [succeeded, hpos]

theorem ramfsChange_changes (path : Option CStr) {change : RamfsFile → RamfsFile}
    {f : FileNode → FileNode} (hsame : ∀ g, (change g).name = g.name ∧ (change g).inUse = g.inUse)
    (hf : ∀ g, (change g).shown.node = f g.shown.node) :
    Changes (fileTree fs) path f (succeeded (ramfsChange fs path change)).2
      (fileTree (ramfsChange fs path change).1) := by
  unfold Changes
  rcases nodeAt_cases fs path with ⟨hat, hmissed⟩ | ⟨p, i, hat, hne, hp, hnorm, hroot, -, hfind⟩
  · rw [hat]
    rcases ramfsChange_cases fs path change with heq | ⟨name, idx, hnorm, hroot, hfind, -⟩
    · rw [heq]
      exact ⟨rfl, rfl⟩
    · rw [hmissed name hnorm hroot] at hfind
      exact absurd hfind (by simp)
  · rw [hat]
    have hcall : ramfsChange fs path change = (Function.update fs i (change (fs i)), 0) := by
      unfold ramfsChange
      rw [hnorm]
      dsimp only
      rw [if_neg hroot, hfind]
    rw [hcall]
    have hshown := shown_change hfind (hsame (fs i)).1 (hsame (fs i)).2
    refine ⟨?_, rfl⟩
    rw [fileTree_update hne hp hshown, Option.map_some, hf]

theorem ramfsUnlink_removes (h : RamfsTree fs) (hclosed : Closed Folder (fileTree fs))
    (path : Option CStr) :
    Removes (fileTree fs) path (succeeded (ramfsUnlink fs path)).2
      (fileTree (ramfsUnlink fs path).1) := by
  rcases nodeAt_cases fs path with ⟨hat, hmissed⟩ | ⟨p, i, hat, hne, hp, hnorm, hroot, hlen, hfind⟩
  · rcases ramfsUnlink_cases fs path with heq | ⟨name, idx, hnorm, hroot, hfind, -⟩
    · rw [heq]
      refine .inr ⟨?_, rfl, rfl⟩
      rintro ⟨p, v, hv, -⟩
      rw [hat] at hv
      exact absurd hv (by simp)
    · rw [hmissed name hnorm hroot] at hfind
      exact absurd hfind (by simp)
  · have hmay : (∃ q, MayRemove (fileTree fs) path q) ↔
        ¬ ((fs i).isDir = true ∧ ramfsDirHasChildren fs (joinSegments p) = true) := by
      rw [ramfsDirHasChildren_childless h hclosed hne hp hlen, not_and, not_not]
      constructor
      · rintro ⟨q, v, hv, hleaf⟩ hdir
        rw [hat, Option.some.injEq, Prod.mk.injEq] at hv
        obtain ⟨rfl, rfl⟩ := hv
        exact hleaf hdir
      · exact fun hleaf => ⟨p, _, hat, hleaf⟩
    by_cases hfull : (fs i).isDir = true ∧ ramfsDirHasChildren fs (joinSegments p) = true
    · have hcall : ramfsUnlink fs path = (fs, -1) := by
        unfold ramfsUnlink
        rw [hnorm]
        dsimp only
        rw [if_neg hroot, hfind]
        exact if_pos hfull
      rw [hcall]
      exact .inr ⟨fun hex => hmay.mp hex hfull, rfl, rfl⟩
    · have hcall : ramfsUnlink fs path = (Function.update fs i
          { fs i with inUse := false, isDir := false, name := [], size := 0 }, 0) := by
        unfold ramfsUnlink
        rw [hnorm]
        dsimp only
        rw [if_neg hroot, hfind]
        exact if_neg hfull
      obtain ⟨q, v, hv, hleaf⟩ := hmay.mpr hfull
      have hqp : q = p := by
        rw [hat, Option.some.injEq, Prod.mk.injEq] at hv
        exact hv.1.symm
      rw [hcall]
      have hshown := shown_remove h hfind
        (show ({ fs i with inUse := false, isDir := false, name := [], size := 0 } :
          RamfsFile).inUse = false from rfl)
      exact .inl ⟨p, hqp ▸ ⟨v, hv, hleaf⟩, fileTree_update hne hp hshown, rfl⟩

theorem shown_node_link (f : RamfsFile) :
    f.shown.node.link = if f.isSymlink = true then some f.symlinkTarget else none := by
  simp only [Shown.node, RamfsFile.shown]
  split_ifs <;> rfl

theorem ramfsStat_stats (path : Option CStr) : ramfsStat fs path = Stats (fileTree fs) path := by
  unfold ramfsStat Stats
  rw [ramfsNormalize_names]
  cases hnames : pathNames path with
  | none => rfl
  | some p =>
      obtain ⟨hp, -⟩ := pathNames_good hnames
      rw [Option.map_some, Option.bind_some]
      dsimp only
      by_cases hne : p = []
      · rw [hne]
        rfl
      · rw [if_neg ((joinSegments_root hp).not.mpr hne), if_neg hne, fileTree_eq hne hp, shown]
        cases hfind : ramfsFindName fs (joinSegments p) with
        | none => rfl
        | some i =>
            simp only [Option.map_some, Option.some.injEq, FileNode.stat, RamfsStat.mk.injEq]
            refine ⟨(ramfsFindName_some hfind).2.2, (length_content (fs i)).symm, rfl, rfl, rfl,
              rfl, ?_⟩
            rw [shown_node_link]
            split_ifs with hlink
            · exact hlink
            · simpa using hlink

theorem ramfsReadlink_links (h : RamfsTree fs) (path : Option CStr) (bufsize : Nat) :
    ramfsReadlink fs path bufsize = Links (fileTree fs) path bufsize := by
  unfold ramfsReadlink Links
  split_ifs with hzero
  · rfl
  · rcases nodeAt_cases fs path with ⟨hat, hmissed⟩ | ⟨p, i, hat, -, -, hnorm, -, -, hfind⟩
    · rw [hat]
      cases hnorm : ramfsNormalize path with
      | none => rfl
      | some name =>
          -- The root is no entry, so it is not found either.
          have hfind : ramfsFindName fs name = none := by
            by_cases hroot : name = ['/']
            · cases hfind : ramfsFindName fs name with
              | none => rfl
              | some i =>
                  obtain ⟨hlt, huse, hname⟩ := ramfsFindName_some hfind
                  have hcanon := h.canonical i hlt huse
                  rw [hname, hroot] at hcanon
                  exact absurd hcanon not_canonicalName_root
            · exact hmissed name hnorm hroot
          dsimp only
          rw [hfind]
          rfl
    · rw [hat, hnorm]
      dsimp only
      rw [hfind]
      rw [Option.bind_some, shown_node_link]
      dsimp only
      split_ifs with hlink
      · rfl
      · rfl

theorem ramfsOpen_cases (fs : Ramfs) (path : Option CStr) :
    (nodeAt (fileTree fs) path = none ∧ ramfsOpen fs path = none) ∨
    ∃ p i, nodeAt (fileTree fs) path = some (p, (fs i).shown.node) ∧ p ≠ [] ∧ GoodPath p ∧
      ramfsFindName fs (joinSegments p) = some i ∧ ramfsOpen fs path = some i := by
  rcases nodeAt_cases fs path with ⟨hat, hmissed⟩ | ⟨p, i, hat, hne, hp, hnorm, hroot, -, hfind⟩
  · refine .inl ⟨hat, ?_⟩
    unfold ramfsOpen
    cases hnorm : ramfsNormalize path with
    | none => rfl
    | some name =>
        dsimp only
        split_ifs with hroot
        · rfl
        · exact hmissed name hnorm hroot
  · refine .inr ⟨p, i, hat, hne, hp, hfind, ?_⟩
    rw [ramfsOpen_eq hnorm hroot]
    exact hfind

/-- The bytes of a file after a write, and those that were stored where it skips to. -/
theorem content_written (f : RamfsFile) (off : Nat) {buf : List UInt8} {n : Nat}
    (hn : toWrite off buf.length = n) :
    (f.written off buf).content =
      (f.content ++ (List.range (off - f.size)).map fun k => f.data (f.size + k)).take off ++
        (buf.take n ++ f.content.drop (off + (buf.take n).length)) := by
  have htake : (buf.take n).length = n := by
    rw [← hn]
    exact length_take_toWrite off buf
  rw [htake]
  apply List.ext_getElem
  · simp only [length_content, RamfsFile.written, List.length_append, List.length_take,
      List.length_map, List.length_range, List.length_drop, hn] at htake ⊢
    omega
  · intro o ho ho'
    rw [getElem_content]
    simp only [RamfsFile.written, storeBytes_apply, hn, htake]
    by_cases hbefore : o < off
    · rw [if_neg (by omega), List.getElem_append_left (by simp; omega), List.getElem_take]
      by_cases hin : o < f.size
      · rw [List.getElem_append_left (by simpa using hin), getElem_content]
      · rw [List.getElem_append_right (by simpa using hin)]
        simp only [List.getElem_map, List.getElem_range, length_content]
        congr 1
        omega
    · have hfront : ((f.content ++ (List.range (off - f.size)).map
          fun k => f.data (f.size + k)).take off).length = off := by
        simp
        omega
      rw [List.getElem_append_right (by omega)]
      by_cases hin : o < off + n
      · rw [if_pos ⟨by omega, hin⟩, List.getElem_append_left (by omega),
          List.getD_eq_getElem _ _ (by omega)]
        congr 1
        omega
      · rw [if_neg (by omega), List.getElem_append_right (by omega), List.getElem_drop,
          getElem_content]
        congr 1
        omega

theorem ramfsWrite_writes (h : RamfsOk fs) {path : Option CStr} {off : Nat} {buf : List UInt8}
    {r : Ramfs × FsAnswer} (hrun : (FsOp.write path off buf).run fs = some r) :
    Writes (fileTree fs) path off buf r.2 (fileTree r.1) := by
  unfold FsOp.run at hrun
  unfold Writes
  rcases ramfsOpen_cases fs path with ⟨hat, hopen⟩ | ⟨p, i, hat, hne, hp, hfind, hopen⟩
  · simp only [hopen, Option.some.injEq] at hrun
    rw [hat, ← hrun]
    exact ⟨rfl, rfl⟩
  · obtain ⟨hi, huse, -⟩ := ramfsFindName_some hfind
    simp only [hopen, h.write_eq hi huse] at hrun
    rw [hat]
    have hdir : (fs i).shown.node.isDir = (fs i).isDir := rfl
    dsimp only
    rw [hdir]
    split_ifs at hrun ⊢ with hbad hlong
    · rw [← Option.some.inj hrun]
      exact ⟨rfl, rfl⟩
    · exact absurd hrun (by simp)
    · rw [not_or] at hbad
      have hcount : toWrite off buf.length = min buf.length (ramfsFileCapacity - off) := by
        have hmod := Nat.mod_le (off + buf.length) (2 ^ 64)
        unfold toWrite at hlong ⊢
        split_ifs at hlong ⊢ <;> omega
      have htake : buf.take (ramfsFileCapacity - off) =
          buf.take (min buf.length (ramfsFileCapacity - off)) := by
        rw [List.take_eq_take_iff]
        omega
      rw [← Option.some.inj hrun]
      refine ⟨(List.range (off - (fs i).size)).map fun k => (fs i).data ((fs i).size + k), ?_, ?_, ?_⟩
      · have hlen : (fs i).shown.node.bytes.length = (fs i).size := length_content (fs i)
        rw [hlen]
        simp
      · have hshown := shown_change (f := (fs i).written off buf) hfind rfl rfl
        rw [fileTree_update hne hp hshown, Option.map_some, htake]
        have hbytes := content_written (fs i) off hcount
        have hnode : ((fs i).written off buf).shown.node =
            { (fs i).shown.node with bytes := ((fs i).written off buf).content } := rfl
        rw [hnode, hbytes]
        rfl
      · rw [hcount]

/-- **One call** is a step of the tree. -/
theorem FsOp.run_step (h : RamfsOk fs) (hclosed : Closed Folder (fileTree fs)) {op : FsOp}
    {r : Ramfs × FsAnswer} (hrun : op.run fs = some r) :
    TreeStep (fileTree fs) (op, r.2) (fileTree r.1) := by
  cases op with
  | mkdir path =>
      rw [← Option.some.inj hrun]
      exact ramfsAdd_adds h.tree path (fun _ => rfl) (fun _ => rfl) fun _ => rfl
  | create path =>
      rw [← Option.some.inj hrun]
      exact ramfsAdd_adds h.tree path (fun _ => rfl) (fun _ => rfl) fun _ => rfl
  | symlink target path =>
      rw [← Option.some.inj hrun]
      exact ramfsAdd_adds h.tree path (fun _ => rfl) (fun _ => rfl) fun f => ⟨f.uid, f.gid, rfl⟩
  | unlink path =>
      rw [← Option.some.inj hrun]
      exact ramfsUnlink_removes h.tree hclosed path
  | chmod path mode =>
      rw [← Option.some.inj hrun]
      exact ramfsChange_changes path (fun _ => ⟨rfl, rfl⟩) fun _ => rfl
  | chown path uid gid =>
      rw [← Option.some.inj hrun]
      exact ramfsChange_changes path (fun _ => ⟨rfl, rfl⟩) fun _ => rfl
  | stat path =>
      rw [← Option.some.inj hrun]
      exact ⟨rfl, congrArg FsAnswer.stat (ramfsStat_stats path)⟩
  | readlink path bufsize =>
      rw [← Option.some.inj hrun]
      exact ⟨rfl, congrArg FsAnswer.target (ramfsReadlink_links h.tree path bufsize)⟩
  | read path off len =>
      unfold FsOp.run at hrun
      unfold TreeStep Reads
      rcases ramfsOpen_cases fs path with ⟨hat, hopen⟩ | ⟨p, i, hat, -, -, hfind, hopen⟩
      · simp only [hopen, Option.some.injEq] at hrun
        rw [← hrun]
        dsimp only
        rw [hat]
        exact ⟨rfl, rfl⟩
      · obtain ⟨hi, huse, -⟩ := ramfsFindName_some hfind
        simp only [hopen, Option.some.injEq, ramfsRead_content hi huse] at hrun
        rw [← hrun]
        dsimp only
        rw [hat]
        refine ⟨rfl, ?_⟩
        have hdir : (fs i).shown.node.isDir = (fs i).isDir := rfl
        have hbytes : (fs i).shown.node.bytes = (fs i).content := rfl
        dsimp only
        rw [hdir, hbytes]
        split_ifs
        · rfl
        · rfl
  | write path off buf => exact ramfsWrite_writes h hrun

end Refines

/-- A call with its answer. -/
def Ramfs.Answers (fs : Ramfs) (c : FsOp × FsAnswer) (fs' : Ramfs) : Prop :=
  c.1.run fs = some (fs', c.2)

def TreeOk (fs : Ramfs) : Prop := RamfsOk fs ∧ Closed Folder (fileTree fs)

theorem TreeOk.answers {fs fs' : Ramfs} {c : FsOp × FsAnswer} (h : TreeOk fs)
    (hcall : fs.Answers c fs') : TreeOk fs' ∧ TreeStep (fileTree fs) c (fileTree fs') := by
  have hstep := FsOp.run_step h.1 h.2 hcall
  exact ⟨⟨h.1.run hcall, hstep.closed h.2⟩, hstep⟩

theorem fileTree_init (fs : Ramfs) : fileTree (ramfsInit fs) = Tree.empty := by
  funext p
  have hempty : shown (ramfsInit fs) = fun _ => none := shown_empty fun _ _ => rfl
  unfold fileTree
  rw [hempty]
  split_ifs <;> rfl

/--
**The table is a file tree.**  Every run of calls from an empty table, with the answers they give,
is a run of the tree from an empty one, and ends in the tree of the table.  There every node lies
in the root or in a directory, and so does all that leads to it.
-/
theorem ramfs_refines_tree (fs₀ : Ramfs) {calls : List (FsOp × FsAnswer)} {fs : Ramfs}
    (hrun : Executes Ramfs.Answers (ramfsInit fs₀) calls fs) :
    Executes TreeStep Tree.empty calls (fileTree fs) ∧
      ∀ p q, (fileTree fs (p ++ q)).isSome = true → q ≠ [] → IsFolder Folder (fileTree fs) p := by
  have hinit : TreeOk (ramfsInit fs₀) :=
    ⟨ramfsOk_init fs₀, by rw [fileTree_init]; exact closed_empty⟩
  obtain ⟨⟨-, hclosed⟩, htree⟩ := hrun.refine fileTree (fun _ _ _ h hcall => h.answers hcall) hinit
  rw [fileTree_init] at htree
  exact ⟨htree, fun p q hsome hq => hclosed.above hsome hq⟩

/-- A directory, and a file in it that is written behind its end. -/
theorem ramfs_refines_tree_write :
    ∃ fs, Executes Ramfs.Answers (ramfsInit blankRamfs)
        [(.mkdir (some "/usr".toList), .done true), (.create (some "/usr/f".toList), .done true),
          (.write (some "usr//./f".toList) 2 [7], .wrote 1)] fs ∧
      Executes TreeStep Tree.empty
        [(.mkdir (some "/usr".toList), .done true), (.create (some "/usr/f".toList), .done true),
          (.write (some "usr//./f".toList) 2 [7], .wrote 1)] (fileTree fs) := by
  have hrun : ∃ fs, Executes Ramfs.Answers (ramfsInit blankRamfs)
      [(.mkdir (some "/usr".toList), .done true), (.create (some "/usr/f".toList), .done true),
        (.write (some "usr//./f".toList) 2 [7], .wrote 1)] fs :=
    ⟨_, .cons rfl (.cons rfl (.cons rfl (.nil _)))⟩
  obtain ⟨fs, hrun⟩ := hrun
  exact ⟨fs, hrun, (ramfs_refines_tree blankRamfs hrun).1⟩

end BrightS
